import StreamGauge.Proofs.Region.Tiling

/-!
# The payload as a store of numbers

A blocked region stores three sorts of numbers, each in a `Cell` of its own: the bases of the packed
blocks, the deltas of their elements, and the values of the elements of raw blocks.

* `Layout.placeOf` is where a cell lies. A cell lies inside its block (`Layout.placeOf_within`), and
  two cells do not share a byte (`Layout.placeOf_disjoint`).
* A region holds the cells of its committed blocks (`Holds`). These are the ones that the writing
  functions find, at their places (`Valid.placeOf?_eq`), and no write to another one has a result
  (`Valid.isSome_write?_iff`).
* So the payload keeps a table `Cell → Int64` of what was written last (`Keeps`), through every
  write and every commit (`Keeps.run`), and `payload_store` is what that means for a reader.
-/

namespace StreamGauge

/-- There is an integer of an integer kind wherever one fits into the store. -/
theorem Bytes.readValue?_int {store : Bytes} {k : Kind} (hk : k.isInteger = true) {offset : Nat}
    (h : offset + k.size ≤ store.size) :
    ∃ n : Int64, store.readValue? k offset = some (.int n) ∧ k.Contains n.toInt := by
  obtain ⟨bytes, hbytes⟩ := Bytes.isSome_read? h
  have hlength := (Bytes.read?_eq_some_iff.mp hbytes).2.1
  obtain ⟨lo, hi, hrange⟩ := Kind.exists_intRange? hk
  obtain ⟨n, hn⟩ : ∃ n, k.decode bytes = .int n := by
    cases k <;> first | exact ⟨_, rfl⟩ | cases hk
  have hmem := Kind.toInt64_decode_range hrange hlength
  rw [hn] at hmem
  exact ⟨n, by rw [readValue?, hbytes, Option.map_some, hn], lo, hi, hrange, hmem⟩

/-- What is read as an integer kind is an integer of that kind. -/
theorem Bytes.eq_int_of_readValue? {store : Bytes} {k : Kind} (hk : k.isInteger = true)
    {offset : Nat} {v : Value} (h : store.readValue? k offset = some v) :
    ∃ n : Int64, v = .int n ∧ k.Contains n.toInt := by
  obtain ⟨bytes, hbytes, -⟩ := Option.map_eq_some_iff.mp h
  obtain ⟨n, hn, hmem⟩ := Bytes.readValue?_int hk (Bytes.read?_eq_some_iff.mp hbytes).1
  rw [h, Option.some.injEq] at hn
  exact ⟨n, hn, hmem⟩

/-- A number that is stored on its own. -/
inductive Cell where
  /-- The base of packed block `k`. -/
  | base (k : Nat)
  /-- The delta of element `i` of a packed block. -/
  | delta (i : Nat)
  /-- The value of element `i` of a raw block. -/
  | raw (i : Nat)
deriving DecidableEq

/-- Whether the cell belongs to a packed block. -/
def Cell.packed : Cell → Bool
  | base _ | delta _ => true
  | raw _ => false

namespace Layout

variable (l : Layout)

/-- The block of a cell. -/
def blockOfCell : Cell → Nat
  | .base k => k
  | .delta i | .raw i => l.blockOf i

/-- What a cell stores. -/
def kindOf : Cell → Kind
  | .base _ | .raw _ => l.base
  | .delta _ => l.delta

/-- The first byte of a cell. -/
def placeOf : Cell → Nat
  | .base k => l.offsetOf k
  | .delta i => l.offsetOf (l.blockOf i) + l.base.size + i % l.blockSize * l.delta.size
  | .raw i => l.offsetOf (l.blockOf i) + i % l.blockSize * l.base.size

/-- The block or the element of the cell is one of the layout. -/
def InRange : Cell → Prop
  | .base k => k < l.blockCount
  | .delta i | .raw i => i < l.length

/-- The cells of a layout. -/
structure HasCell (c : Cell) : Prop where
  inRange : l.InRange c
  packs : l.policy.packs (l.blockOfCell c) = c.packed

instance : (c : Cell) → Decidable (l.InRange c)
  | .base k => inferInstanceAs (Decidable (k < l.blockCount))
  | .delta i | .raw i => inferInstanceAs (Decidable (i < l.length))

instance (c : Cell) : Decidable (l.HasCell c) :=
  decidable_of_iff (l.InRange c ∧ l.policy.packs (l.blockOfCell c) = c.packed)
    ⟨fun h => ⟨h.1, h.2⟩, fun h => ⟨h.inRange, h.packs⟩⟩

variable {l}

theorem blockOf_lt (hpos : 0 < l.blockSize) {i : Nat} (hi : i < l.length) :
    l.blockOf i < l.blockCount := by
  refine Nat.lt_of_not_le fun hle => ?_
  have hlength := (blockCount_le_iff hpos).mp hle
  have hdiv := Nat.div_mul_le_self i l.blockSize
  unfold blockOf at hlength
  omega

/-- An element beyond the last one has no place in the last block. -/
theorem elementsIn_le_mod {i : Nat} (hi : l.length ≤ i) :
    l.elementsIn (l.blockOf i) ≤ i % l.blockSize := by
  have hdiv := Nat.div_add_mod i l.blockSize
  rw [Nat.mul_comm] at hdiv
  rw [elementsIn_eq_min, blockOf]
  omega

/-- A cell lies inside its block. -/
theorem placeOf_within (hpos : 0 < l.blockSize) {c : Cell} (hc : l.HasCell c) :
    l.offsetOf (l.blockOfCell c) ≤ l.placeOf c ∧
      l.placeOf c + (l.kindOf c).size ≤ l.offsetOf (l.blockOfCell c + 1) := by
  obtain ⟨hrange, hpacks⟩ := hc
  cases c with
  | base k =>
    have hbytes : l.bytesOf k = _ := bytesOf_packed hpacks
    simp only [placeOf, blockOfCell, kindOf, offsetOf]
    omega
  | delta i =>
    have hbytes : l.bytesOf (l.blockOf i) = _ := bytesOf_packed hpacks
    have hstride := Bytes.stride_le (mod_lt_elementsIn hpos hrange) l.delta.size
    simp only [placeOf, blockOfCell, kindOf, offsetOf]
    omega
  | raw i =>
    have hbytes : l.bytesOf (l.blockOf i) = _ := bytesOf_raw hpacks
    have hstride := Bytes.stride_le (mod_lt_elementsIn hpos hrange) l.base.size
    simp only [placeOf, blockOfCell, kindOf, offsetOf]
    omega

/-- A cell of an earlier block ends before one of a later block begins. -/
theorem placeOf_le_of_blockOfCell_lt (hpos : 0 < l.blockSize) {c c' : Cell} (hc : l.HasCell c)
    (hc' : l.HasCell c') (hlt : l.blockOfCell c < l.blockOfCell c') :
    l.placeOf c + (l.kindOf c).size ≤ l.placeOf c' :=
  Nat.le_trans (placeOf_within hpos hc).2
    (Nat.le_trans (l.offsetOf_mono hlt) (placeOf_within hpos hc').1)

/-- Elements of one block differ in their place in it. -/
theorem mod_ne_of_blockOf_eq {i j : Nat} (hblock : l.blockOf i = l.blockOf j) (hne : i ≠ j) :
    i % l.blockSize ≠ j % l.blockSize := by
  intro hmod
  have hi := Nat.div_add_mod i l.blockSize
  have hj := Nat.div_add_mod j l.blockSize
  unfold blockOf at hblock
  rw [hblock] at hi
  omega

/-- Two cells of one block do not share a byte: the base comes first, and the elements follow in
strides of their size. -/
theorem placeOf_disjoint_of_blockOfCell_eq {c c' : Cell} (hc : l.HasCell c) (hc' : l.HasCell c')
    (hblock : l.blockOfCell c = l.blockOfCell c') (hne : c ≠ c') :
    l.placeOf c + (l.kindOf c).size ≤ l.placeOf c' ∨
      l.placeOf c' + (l.kindOf c').size ≤ l.placeOf c := by
  have hsort : c.packed = c'.packed := by rw [← hc.packs, ← hc'.packs, hblock]
  cases c <;> cases c' <;> simp only [Cell.packed, Bool.true_eq_false, Bool.false_eq_true] at hsort
  case base.base => exact absurd (congrArg Cell.base hblock) hne
  case base.delta k i =>
    change k = l.blockOf i at hblock
    simp only [placeOf, kindOf, hblock]
    omega
  case delta.base i k =>
    change l.blockOf i = k at hblock
    simp only [placeOf, kindOf, ← hblock]
    omega
  case delta.delta i j =>
    change l.blockOf i = l.blockOf j at hblock
    have := Bytes.strides_disjoint (mod_ne_of_blockOf_eq hblock fun h => hne (h ▸ rfl)) l.delta.size
    simp only [placeOf, kindOf, hblock]
    omega
  case raw.raw i j =>
    change l.blockOf i = l.blockOf j at hblock
    have := Bytes.strides_disjoint (mod_ne_of_blockOf_eq hblock fun h => hne (h ▸ rfl)) l.base.size
    simp only [placeOf, kindOf, hblock]
    omega

theorem placeOf_disjoint (hpos : 0 < l.blockSize) {c c' : Cell} (hc : l.HasCell c)
    (hc' : l.HasCell c') (hne : c ≠ c') :
    l.placeOf c + (l.kindOf c).size ≤ l.placeOf c' ∨
      l.placeOf c' + (l.kindOf c').size ≤ l.placeOf c := by
  rcases Nat.lt_trichotomy (l.blockOfCell c) (l.blockOfCell c') with hlt | heq | hgt
  · exact .inl (placeOf_le_of_blockOfCell_lt hpos hc hc' hlt)
  · exact placeOf_disjoint_of_blockOfCell_eq hc hc' heq hne
  · exact .inr (placeOf_le_of_blockOfCell_lt hpos hc' hc hgt)

theorem blockOfCell_lt (hpos : 0 < l.blockSize) {c : Cell} (hc : l.HasCell c) :
    l.blockOfCell c < l.blockCount := by
  obtain ⟨hrange, -⟩ := hc
  cases c with
  | base k => exact hrange
  | delta i => exact blockOf_lt hpos hrange
  | raw i => exact blockOf_lt hpos hrange

theorem placeOf_le_payloadBytes (hpos : 0 < l.blockSize) {c : Cell} (hc : l.HasCell c) :
    l.placeOf c + (l.kindOf c).size ≤ l.payloadBytes := by
  rw [payloadBytes_eq]
  exact Nat.le_trans (placeOf_within hpos hc).2 (l.offsetOf_mono (blockOfCell_lt hpos hc))

/-- The payload ends with the block that an element beyond the last one would have. -/
theorem payloadBytes_eq_of_le (hpos : 0 < l.blockSize) {i : Nat} (hi : l.length ≤ i)
    (hblock : l.blockOf i < l.blockCount) :
    l.payloadBytes = l.offsetOf (l.blockOf i) + l.bytesOf (l.blockOf i) := by
  have hle : l.blockCount ≤ l.blockOf i + 1 := by
    have := Nat.lt_div_mul_add (a := i) hpos
    rw [blockCount_le_iff hpos, Nat.succ_mul, blockOf]
    omega
  rw [payloadBytes_eq, show l.blockCount = l.blockOf i + 1 by omega]
  rfl

/-- What would be the cell of an element beyond the last one lies outside the payload. -/
theorem hasCell_of_placeOf_le (hpos : 0 < l.blockSize) {c : Cell}
    (hblock : l.blockOfCell c < l.blockCount)
    (hpacks : l.policy.packs (l.blockOfCell c) = c.packed)
    (hplace : l.placeOf c + (l.kindOf c).size ≤ l.payloadBytes) : l.HasCell c := by
  refine ⟨?_, hpacks⟩
  cases c with
  | base k => exact hblock
  | delta i =>
    refine Nat.lt_of_not_le fun hi => ?_
    -- The block of `i` is the last one, and its elements end before the place of `i`.
    have hbytes : l.bytesOf (l.blockOf i) = _ := bytesOf_packed hpacks
    have hstride := Nat.mul_le_mul_right l.delta.size (elementsIn_le_mod hi)
    have hsize := l.delta.size_pos
    rw [payloadBytes_eq_of_le hpos hi hblock] at hplace
    simp only [placeOf, kindOf] at hplace
    omega
  | raw i =>
    refine Nat.lt_of_not_le fun hi => ?_
    have hbytes : l.bytesOf (l.blockOf i) = _ := bytesOf_raw hpacks
    have hstride := Nat.mul_le_mul_right l.base.size (elementsIn_le_mod hi)
    have hsize := l.base.size_pos
    rw [payloadBytes_eq_of_le hpos hi hblock] at hplace
    simp only [placeOf, kindOf] at hplace
    omega

end Layout

namespace BlockedRegion

/-- Whether the cell is one of a committed block. -/
structure Holds (r : BlockedRegion) (c : Cell) : Prop where
  hasCell : r.layout.HasCell c
  committed : r.layout.blockOfCell c < r.blocks.size

instance (r : BlockedRegion) (c : Cell) : Decidable (r.Holds c) :=
  decidable_of_iff (r.layout.HasCell c ∧ r.layout.blockOfCell c < r.blocks.size)
    ⟨fun h => ⟨h.1, h.2⟩, fun h => ⟨h.hasCell, h.committed⟩⟩

/-- Where the writing functions find a cell. -/
def placeOf? (r : BlockedRegion) : Cell → Option Nat
  | .base k => r.basePlace? k
  | .delta i => r.deltaPlace? i
  | .raw i => r.rawPlace? i

/-- Stores the number of a cell. -/
def write? (r : BlockedRegion) (c : Cell) (v : Int64) : Option BlockedRegion :=
  match c with
  | .base k => r.writeBase? k v
  | .delta i => r.writeDelta? i v
  | .raw i => r.writeRaw? i v

variable {layout : Layout} {r : BlockedRegion}

theorem write?_eq_bind (r : BlockedRegion) (c : Cell) (v : Int64) :
    r.write? c v = (r.placeOf? c).bind (r.writeInt? (r.layout.kindOf c) · v) := by
  cases c <;> rfl

namespace Valid

/-- A committed block of the right sort is all that the writing functions look for. -/
theorem placeOf?_eq (h : r.Valid) (c : Cell) :
    r.placeOf? c =
      if r.layout.blockOfCell c < r.blocks.size ∧
          r.layout.policy.packs (r.layout.blockOfCell c) = c.packed then
        some (r.layout.placeOf c)
      else none := by
  cases c with
  | base k =>
    simp only [placeOf?, basePlace?, Layout.blockOfCell]
    by_cases hblock : k < r.blocks.size
    · rw [h.getElem?_blocks hblock, Option.filter_some]
      by_cases hpacks : r.layout.policy.packs k <;>
        simp [Layout.blockAt, Layout.placeOf, Cell.packed, hblock, hpacks]
    · simp [hblock]
  | delta i | raw i =>
    simp only [placeOf?, deltaPlace?, rawPlace?, Layout.blockOfCell]
    by_cases hblock : r.layout.blockOf i < r.blocks.size
    · by_cases hpacks : r.layout.policy.packs (r.layout.blockOf i) <;>
        simp [h.place?_eq, Layout.blockAt, Layout.placeOf, Cell.packed, hblock, hpacks]
    · simp [place?, hblock]

theorem placeOf?_of_holds (h : r.Valid) {c : Cell} (hc : r.Holds c) :
    r.placeOf? c = some (r.layout.placeOf c) := by
  rw [h.placeOf?_eq, if_pos ⟨hc.committed, hc.hasCell.packs⟩]

theorem placeOf_le_size (h : r.Valid) {c : Cell} (hc : r.layout.HasCell c) :
    r.layout.placeOf c + (r.layout.kindOf c).size ≤ r.payload.size := by
  rw [h.size_payload]
  exact Layout.placeOf_le_payloadBytes h.blockSize_pos hc

/-- A held cell can be written, and only its bytes change. -/
theorem write?_of_holds (h : r.Valid) {c : Cell} (hc : r.Holds c) (v : Int64) :
    r.write? c v = some { r with
      payload := r.payload.put (r.layout.placeOf c) ((r.layout.kindOf c).encode (.int v)) } := by
  rw [write?_eq_bind, h.placeOf?_of_holds hc, Option.bind_some, writeInt?, Bytes.writeValue?,
    Bytes.write?, Kind.length_encode, if_pos (h.placeOf_le_size hc.hasCell)]
  rfl

/-- Nothing but held cells can be written: there is no place for the others, or one that lies
outside the payload. -/
theorem isSome_write?_iff (h : r.Valid) (c : Cell) (v : Int64) :
    (r.write? c v).isSome ↔ r.Holds c := by
  constructor
  · intro hsome
    rw [write?_eq_bind, h.placeOf?_eq] at hsome
    split at hsome
    case isFalse => cases hsome
    case isTrue hplace =>
      obtain ⟨hblock, hpacks⟩ := hplace
      rw [Option.bind_some, writeInt?, Bytes.writeValue?, Bytes.write?, Kind.length_encode] at hsome
      split at hsome
      case isFalse => cases hsome
      case isTrue hle =>
        rw [h.size_payload] at hle
        exact ⟨Layout.hasCell_of_placeOf_le h.blockSize_pos
          (Nat.lt_of_lt_of_le hblock h.size_blocks) hpacks hle, hblock⟩
  · intro hc
    rw [h.write?_of_holds hc]
    rfl

/-! ### Values -/

theorem value?_eq_packed (h : r.Valid) {i : Nat} (hblock : r.layout.blockOf i < r.blocks.size)
    (hpacks : r.layout.policy.packs (r.layout.blockOf i) = true) {b d : Int64}
    (hb : r.readInt? r.layout.base (r.layout.placeOf (.base (r.layout.blockOf i))) = some b)
    (hd : r.readInt? r.layout.delta (r.layout.placeOf (.delta i)) = some d) :
    r.value? i = addWithin b d := by
  simp only [Layout.placeOf] at hb hd
  simp [value?, h.place?_eq hblock, Layout.blockAt, hpacks, hb, hd]

theorem value?_eq_raw (h : r.Valid) {i : Nat} (hblock : r.layout.blockOf i < r.blocks.size)
    (hraw : r.layout.policy.packs (r.layout.blockOf i) = false) :
    r.value? i = r.readInt? r.layout.base (r.layout.placeOf (.raw i)) := by
  simp [value?, h.place?_eq hblock, Layout.blockAt, Layout.placeOf, hraw]

end Valid

/-! ## Calls -/

/-- What a writer asks of a region: a commit, or a number for a cell. -/
inductive Call where
  | commit (c : Commit)
  | write (c : Cell) (v : Int64)

namespace Call

/-- The region after a call. There is none after a write that finds no place. -/
def perform? (r : BlockedRegion) : Call → Option BlockedRegion
  | commit c => some (c.after r)
  | write c v => r.write? c v

/-- What was written last into each cell, with one call more. -/
def record (contents : Cell → Int64) : Call → Cell → Int64
  | commit _ => contents
  | write c v => fun c' => if c' = c then v else contents c'

end Call

/-- What calls wrote last into each cell; `0` where they wrote nothing. -/
def written (calls : List Call) : Cell → Int64 := calls.foldl Call.record fun _ => 0

/-- Every write goes to a cell that the region holds at that time. -/
def Addressed (r : BlockedRegion) : List Call → Prop
  | [] => True
  | .commit c :: calls => (c.after r).Addressed calls
  | .write c v :: calls => r.Holds c ∧ ∀ r', r.write? c v = some r' → r'.Addressed calls

instance decidableAddressed (r : BlockedRegion) : ∀ calls, Decidable (r.Addressed calls)
  | [] => .isTrue trivial
  | .commit c :: calls => decidableAddressed (c.after r) calls
  | .write c v :: calls =>
    match h : r.write? c v with
    | some r' =>
      have := decidableAddressed r' calls
      decidable_of_iff (r.Holds c ∧ r'.Addressed calls) (by simp [Addressed, h])
    | none => decidable_of_iff (r.Holds c) (by simp [Addressed, h])

/-- The payload stores the contents of every cell, also of those whose block is still to come. -/
structure Keeps (layout : Layout) (contents : Cell → Int64) (r : BlockedRegion) : Prop where
  tiled : r.Tiled layout
  readValue? : ∀ c, layout.HasCell c →
    r.payload.readValue? (layout.kindOf c) (layout.placeOf c) =
      some ((layout.kindOf c).convert (.int (contents c)))

theorem keeps_allocate (h : allocate layout = .ok r) : r.Keeps layout fun _ => 0 := by
  refine ⟨tiled_allocate h, fun c hc => ?_⟩
  have hvalid := valid_allocate h
  obtain ⟨hcheck, rfl⟩ := of_allocate h
  obtain ⟨hbase, hdelta, -⟩ := Layout.kinds_of_check hcheck
  exact Bytes.readValue?_zeroed (by cases c <;> assumption)
    (Layout.placeOf_le_payloadBytes hvalid.blockSize_pos hc)

namespace Keeps

variable {contents : Cell → Int64}

theorem commit (h : r.Keeps layout contents) (c : Commit) : (c.after r).Keeps layout contents :=
  ⟨h.tiled.after c, by rw [h.tiled.payload_after c]; exact h.readValue?⟩

/-- A write changes the entry of its cell and no other. -/
theorem write (h : r.Keeps layout contents) {c : Cell} (hc : r.Holds c) (v : Int64) :
    ∃ r', r.write? c v = some r' ∧ r'.Keeps layout (Call.record contents (.write c v)) := by
  obtain rfl := h.tiled.layout_eq
  have hvalid := h.tiled.valid
  refine ⟨_, hvalid.write?_of_holds hc v, ⟨{ h.tiled with
    valid := hvalid.write (Bytes.size_put ..) }, fun c' hc' => ?_⟩⟩
  -- The written cell reads as its kind keeps the number; every other one lies apart from it.
  simp only [Call.record]
  by_cases heq : c' = c
  · subst heq
    rw [if_pos rfl]
    exact Bytes.readValue?_put_same (hvalid.placeOf_le_size hc')
  · rw [if_neg heq, ← h.readValue? c' hc']
    exact Bytes.readValue?_put_disjoint
      (Layout.placeOf_disjoint hvalid.blockSize_pos hc' hc.hasCell heq)

theorem run (h : r.Keeps layout contents) {calls : List Call} (haddressed : r.Addressed calls) :
    ∃ r', calls.foldlM Call.perform? r = some r' ∧
      r'.Keeps layout (calls.foldl Call.record contents) := by
  induction calls generalizing r contents with
  | nil => exact ⟨r, rfl, h⟩
  | cons call calls ih =>
    cases call with
    | commit c => exact ih (h.commit c) haddressed
    | write c v =>
      obtain ⟨hc, hrest⟩ := haddressed
      obtain ⟨r', hwrite, hkeeps⟩ := h.write hc v
      obtain ⟨r'', hrun, hkeeps'⟩ := ih hkeeps (hrest r' hwrite)
      refine ⟨r'', ?_, hkeeps'⟩
      rw [List.foldlM_cons, Call.perform?, hwrite]
      exact hrun

theorem readInt?_eq (h : r.Keeps layout contents) {c : Cell} (hc : layout.HasCell c) :
    r.readInt? (layout.kindOf c) (layout.placeOf c) =
      some (Int64.ofInt ((layout.kindOf c).wrap (contents c).toInt)) := by
  obtain rfl := h.tiled.layout_eq
  obtain ⟨hbase, hdelta, -⟩ := Layout.kinds_of_check h.tiled.valid.check
  rw [readInt?, h.readValue? c hc, Kind.convert_int (by cases c <;> assumption)]
  rfl

/-- In a packed block, the value is the wrapped base plus the wrapped delta. -/
theorem toInt_value?_packed (h : r.Keeps layout contents) {i : Nat} (hi : i < layout.length)
    (hblock : layout.blockOf i < r.blocks.size)
    (hpacks : layout.policy.packs (layout.blockOf i) = true) {sum : Int}
    (hsum : layout.base.wrap (contents (.base (layout.blockOf i))).toInt +
      layout.delta.wrap (contents (.delta i)).toInt = sum)
    (hlo : minInt64 ≤ sum) (hhi : sum ≤ maxInt64) : (r.value? i).map (·.toInt) = some sum := by
  obtain rfl := h.tiled.layout_eq
  have hvalid := h.tiled.valid
  obtain ⟨hbase, hdelta, -⟩ := Layout.kinds_of_check hvalid.check
  have hread := hvalid.value?_eq_packed hblock hpacks
    (h.readInt?_eq (c := .base _) ⟨Nat.lt_of_lt_of_le hblock hvalid.size_blocks, hpacks⟩)
    (h.readInt?_eq (c := .delta i) ⟨hi, hpacks⟩)
  simp only [addWithin, Layout.kindOf, Kind.toInt_ofInt_wrap, hbase, hdelta, hsum] at hread
  rw [hread, if_pos ⟨hlo, hhi⟩, Option.map_some]
  unfold minInt64 at hlo
  unfold maxInt64 at hhi
  rw [Int64.toInt_ofInt_of_le (by omega) (by omega)]

/-- In a raw block, the value is the wrapped value of the element. -/
theorem toInt_value?_raw (h : r.Keeps layout contents) {i : Nat} (hi : i < layout.length)
    (hblock : layout.blockOf i < r.blocks.size)
    (hraw : layout.policy.packs (layout.blockOf i) = false) :
    (r.value? i).map (·.toInt) = some (layout.base.wrap (contents (.raw i)).toInt) := by
  obtain rfl := h.tiled.layout_eq
  obtain ⟨hbase, -, -⟩ := Layout.kinds_of_check h.tiled.valid.check
  rw [h.tiled.valid.value?_eq_raw hblock hraw, ← Kind.toInt_ofInt_wrap hbase]
  exact congrArg (Option.map (·.toInt)) (h.readInt?_eq (c := .raw i) ⟨hi, hraw⟩)

/-- A value whose distance from the base is a number of the delta's kind comes back. -/
theorem value?_of_distance (h : r.Keeps layout contents) {i : Nat} (hi : i < layout.length)
    (hblock : layout.blockOf i < r.blocks.size)
    (hpacks : layout.policy.packs (layout.blockOf i) = true) {b v : Int64}
    (hb : contents (.base (layout.blockOf i)) = b) (hd : contents (.delta i) = v - b)
    (hbase : layout.base.Contains b.toInt) (hdelta : layout.delta.Contains (v.toInt - b.toInt)) :
    r.value? i = some v := by
  have hlower := v.le_toInt
  have hupper := v.toInt_lt
  have hdistance : (v - b).toInt = v.toInt - b.toInt := by
    obtain ⟨hlo, hhi⟩ := hdelta.within
    unfold minInt64 at hlo
    unfold maxInt64 at hhi
    rw [Int64.toInt_sub, Int.bmod_eq_of_le (by omega) (by omega)]
  have hsum : layout.base.wrap (contents (.base (layout.blockOf i))).toInt +
      layout.delta.wrap (contents (.delta i)).toInt = v.toInt := by
    rw [hb, hd, hdistance, Kind.wrap_eq_self hbase, Kind.wrap_eq_self hdelta]
    omega
  obtain ⟨w, hw, htoInt⟩ := Option.map_eq_some_iff.mp <|
    h.toInt_value?_packed hi hblock hpacks hsum (by unfold minInt64; omega)
      (by unfold maxInt64; omega)
  rw [hw, Int64.toInt_inj.mp htoInt]

end Keeps

/-! ## Reachable regions -/

namespace Reachable

/-- Whatever bytes the payload holds, they are numbers in its cells. -/
theorem exists_keeps (hr : r.Reachable) : ∃ contents, r.Keeps r.layout contents := by
  have htiled := hr.tiled
  obtain ⟨hbase, hdelta, -⟩ := Layout.kinds_of_check htiled.valid.check
  -- Cells that the layout does not have may hold anything.
  have hread : ∀ c, ∃ n : Int64, r.layout.HasCell c →
      r.payload.readValue? (r.layout.kindOf c) (r.layout.placeOf c) = some (.int n) ∧
        (r.layout.kindOf c).Contains n.toInt := by
    intro c
    by_cases hc : r.layout.HasCell c
    · obtain ⟨n, hn⟩ := Bytes.readValue?_int (k := r.layout.kindOf c) (by cases c <;> assumption)
        (htiled.valid.placeOf_le_size hc)
      exact ⟨n, fun _ => hn⟩
    · exact ⟨0, fun h => absurd h hc⟩
  obtain ⟨contents, hcontents⟩ := Classical.axiomOfChoice hread
  refine ⟨contents, htiled, fun c hc => ?_⟩
  obtain ⟨hvalue, hmem⟩ := hcontents c hc
  rw [hvalue, Kind.convert_int (by cases c <;> assumption), Kind.wrap_eq_self hmem,
    Int64.ofInt_toInt]

theorem after (hr : r.Reachable) (c : Commit) : (c.after r).Reachable := by
  cases c with
  | block k anchor packed => exact hr.commitBlock rfl
  | element i span => exact hr.commitElement rfl

theorem perform? (hr : r.Reachable) {call : Call} {r' : BlockedRegion}
    (h : call.perform? r = some r') : r'.Reachable := by
  cases call with
  | commit c =>
    cases h
    exact hr.after c
  | write c v =>
    rw [Call.perform?, write?_eq_bind] at h
    obtain ⟨place, -, hwrite⟩ := Option.bind_eq_some_iff.mp h
    obtain ⟨payload, hpayload, rfl⟩ := Option.map_eq_some_iff.mp hwrite
    exact hr.write hpayload

theorem run (hr : r.Reachable) {calls : List Call} {r' : BlockedRegion}
    (h : calls.foldlM Call.perform? r = some r') : r'.Reachable := by
  induction calls generalizing r with
  | nil =>
    cases h
    exact hr
  | cons call calls ih =>
    rw [List.foldlM_cons] at h
    obtain ⟨r'', hcall, hcalls⟩ := Option.bind_eq_some_iff.mp h
    exact ih (hr.perform? hcall) hcalls

end Reachable

/-- The payload is a faithful store. In every reachable region, each held cell has a place of its
own inside the payload, and these are the cells that can be written.

Any calls to a new region of a layout, in any order, whose writes go to held cells, lead to such a
region, and there the value of an element of a committed block is

* in a packed block the base written last to the block plus the delta written last to the element,
  each wrapped into its kind, if that sum is a 64-bit integer;
* in a raw block the value written last to the element, wrapped into the kind of the base;

where `0` stands for what was not written. So a value comes back if its base and its distance from
the base are numbers of their kinds. -/
theorem payload_store :
    (∀ r : BlockedRegion, r.Reachable →
      (∀ c, r.Holds c → ∃ place, r.placeOf? c = some place ∧
        place + (r.layout.kindOf c).size ≤ r.payload.size) ∧
      (∀ c c' place place', r.Holds c → r.Holds c' → c ≠ c' →
        r.placeOf? c = some place → r.placeOf? c' = some place' →
          place + (r.layout.kindOf c).size ≤ place' ∨
            place' + (r.layout.kindOf c').size ≤ place) ∧
      ∀ c v, (r.write? c v).isSome ↔ r.Holds c) ∧
    ∀ (layout : Layout) (r₀ : BlockedRegion) (calls : List Call),
      allocate layout = .ok r₀ → r₀.Addressed calls →
      ∃ r, calls.foldlM Call.perform? r₀ = some r ∧ r.Reachable ∧
        ∀ i < layout.length, layout.blockOf i < r.blocks.size →
          let base := written calls (.base (layout.blockOf i))
          let delta := written calls (.delta i)
          let sum := layout.base.wrap base.toInt + layout.delta.wrap delta.toInt
          let raw := written calls (.raw i)
          (layout.policy.packs (layout.blockOf i) = true → minInt64 ≤ sum → sum ≤ maxInt64 →
            (r.value? i).map (·.toInt) = some sum) ∧
          (layout.policy.packs (layout.blockOf i) = false →
            (r.value? i).map (·.toInt) = some (layout.base.wrap raw.toInt)) ∧
          ∀ v, layout.policy.packs (layout.blockOf i) = true → layout.base.Contains base.toInt →
            layout.delta.Contains (v.toInt - base.toInt) → delta = v - base →
            r.value? i = some v := by
  refine ⟨fun r hr => ?geometry, fun layout r₀ calls hallocate haddressed => ?values⟩
  case geometry =>
    have h := hr.valid
    refine ⟨fun c hc => ⟨_, h.placeOf?_of_holds hc, h.placeOf_le_size hc.hasCell⟩,
      fun c c' place place' hc hc' hne hplace hplace' => ?_, h.isSome_write?_iff⟩
    rw [h.placeOf?_of_holds hc, Option.some.injEq] at hplace
    rw [h.placeOf?_of_holds hc', Option.some.injEq] at hplace'
    rw [← hplace, ← hplace']
    exact Layout.placeOf_disjoint h.blockSize_pos hc.hasCell hc'.hasCell hne
  case values =>
    obtain ⟨r, hrun, h⟩ := (keeps_allocate hallocate).run haddressed
    exact ⟨r, hrun, Reachable.run (.allocate hallocate) hrun, fun i hi hblock =>
      ⟨fun hpacks => h.toInt_value?_packed hi hblock hpacks rfl, h.toInt_value?_raw hi hblock,
        fun v hpacks hbase hdelta hv => h.value?_of_distance hi hblock hpacks rfl hv hbase hdelta⟩⟩

/-- A packed block and a raw one, with a base and a value past the 16 bits that are kept. The base
is written twice, and the first delta not at all. -/
theorem payload_store_of_two_blocks :
    let layout : Layout := ⟨.i16, .i8, 3, 2, .everyNth 2⟩
    let calls : List Call := [.commit (.block 0 ⟨0, 2⟩ true), .write (.base 0) 70000,
      .write (.delta 1) (-3), .commit (.block 1 ⟨2, 1⟩ false), .write (.raw 2) 40000,
      .commit (.element 0 ⟨0, 1⟩), .write (.base 0) 66536]
    ∃ r₀ r, allocate layout = .ok r₀ ∧ r₀.Addressed calls ∧
      calls.foldlM Call.perform? r₀ = some r ∧
      [0, 1, 2].map (fun i => (r.value? i).map (·.toInt)) = [some 1000, some 997, some (-25536)] ∧
      r.Holds (.base 0) ∧ r.Holds (.delta 1) ∧ ∃ place place', r.placeOf? (.base 0) = some place ∧
        r.placeOf? (.delta 1) = some place' ∧ (place + 2 ≤ place' ∨ place' + 1 ≤ place) := by
  intro layout calls
  let r₀ : BlockedRegion := ⟨layout, 0, #[], .empty layout.blockCount, .empty layout.length,
    .zeroed layout.payloadBytes⟩
  have haddressed : r₀.Addressed calls := by decide
  obtain ⟨r, hrun, hr, hvalues⟩ := payload_store.2 layout r₀ calls rfl haddressed
  have hstate : (calls.foldlM Call.perform? r₀).map (fun r =>
      (r.layout, r.blocks.size, decide (r.Holds (.base 0)), decide (r.Holds (.delta 1)))) =
        some (layout, 2, true, true) := by decide
  simp only [hrun, Option.map_some, Option.some.injEq, Prod.mk.injEq, decide_eq_true_eq] at hstate
  obtain ⟨hlayout, hblocks, hbase, hdelta⟩ := hstate
  refine ⟨r₀, r, rfl, haddressed, hrun, ?values, hbase, hdelta, ?places⟩
  case values =>
    obtain ⟨h₀, -⟩ := hvalues 0 (by decide) (by rw [hblocks]; decide)
    obtain ⟨h₁, -⟩ := hvalues 1 (by decide) (by rw [hblocks]; decide)
    obtain ⟨-, h₂, -⟩ := hvalues 2 (by decide) (by rw [hblocks]; decide)
    replace h₀ := h₀ (by decide) (by decide) (by decide)
    replace h₁ := h₁ (by decide) (by decide) (by decide)
    replace h₂ := h₂ (by decide)
    simp only [List.map_cons, List.map_nil, h₀, h₁, h₂]
    decide
  case places =>
    obtain ⟨hinside, hdisjoint, -⟩ := payload_store.1 r hr
    obtain ⟨place, hplace, -⟩ := hinside _ hbase
    obtain ⟨place', hplace', -⟩ := hinside _ hdelta
    have := hdisjoint _ _ place place' hbase hdelta (by decide) hplace hplace'
    rw [hlayout] at this
    exact ⟨place, place', hplace, hplace', this⟩

end BlockedRegion

end StreamGauge
