import Mathlib.Tactic.Choose
import StreamGauge.Proofs.Decimal.PlanText
import StreamGauge.Proofs.Region.Storage
import StreamGauge.Proofs.Region.View
import StreamGauge.Region.Dump

/-!
# What a reader finds in a dump

A dump is text. A reader cuts it into lines (`Dump.textLines`) and goes through them from the top:
a heading begins the section of a block, `Deltas:` ends the head of the section, and every line
from there up to the next heading lists an element (`Dump.Position.after`, `Dump.listedFrom`).

* A section is read the same wherever it begins: it lists its entries under its own heading, and
  behind it the reader stands among its elements (`BlockSection.read_lines`).
* The indices that the sections show are those of the committed elements
  (`BlockedRegion.Valid.flatMap_committedIn`). Blocks and elements are committed independently, so
  a section may show fewer elements than its block has, or none.
* Everything that a section shows can be read (`BlockedRegion.Valid.section?_eq_some`), so there is
  a dump of every reachable region, and it lists every element once, under the heading of its block
  (`BlockedRegion.dump_lists_elements`).
-/

namespace StreamGauge

namespace Dump

/-! ## Lines -/

/-- The lines of a text in which every line is ended. -/
def textLines (text : String) : List String :=
  (text.toList.splitOn '\n').dropLast.map String.ofList

theorem toList_textOfLines (lines : List String) : (textOfLines lines).toList =
    ['\n'].intercalate (lines.map String.toList ++ [[]]) := by
  unfold textOfLines
  induction lines with
  | nil => rfl
  | cons line lines ih =>
    rw [List.map_cons, String.join_cons, String.toList_append, ih, List.map_cons, List.cons_append,
      List.intercalate_cons_of_ne_nil (by simp)]
    simp

/-- A text is cut where its lines were put together. -/
theorem textLines_textOfLines {lines : List String} (h : ∀ line ∈ lines, '\n' ∉ line.toList) :
    textLines (textOfLines lines) = lines := by
  unfold textLines
  rw [toList_textOfLines, List.splitOn_intercalate '\n' ?noBreak (by simp), List.dropLast_concat,
    List.map_map]
  case noBreak =>
    intro l hl
    rcases List.mem_append.mp hl with hl | hl
    · obtain ⟨line, hline, rfl⟩ := List.mem_map.mp hl
      exact h line hline
    · rw [List.mem_singleton.mp hl]
      exact List.not_mem_nil
  simp [Function.comp_def]

/-! ## Reading -/

/-- The heading of the section of block `k`. -/
def heading (k : Nat) : String := s!"Block {k}:"

/-- Whether a section begins with the line. -/
def isHeading (line : String) : Bool := "Block ".toList.isPrefixOf line.toList

/-- Where a reader stands. -/
inductive Position where
  /-- In front of the sections. -/
  | front
  /-- In the section of a heading, in front of its elements. -/
  | head (heading : String)
  /-- Among the elements of a section. -/
  | elements (heading : String)

namespace Position

/-- Where a reader stands behind a line. -/
def after (p : Position) (line : String) : Position :=
  if isHeading line then .head line
  else
    match p with
    | head heading => if line = "Deltas:" then .elements heading else .head heading
    | p => p

/-- The line with the heading above it, if it lists an element. -/
def listed? (p : Position) (line : String) : Option (String × String) :=
  match p with
  | elements heading => if isHeading line then none else some (heading, line)
  | _ => none

end Position

/-- The lines that list an element, each with the heading above it. -/
def listedFrom (p : Position) : List String → List (String × String)
  | [] => []
  | line :: lines => (p.listed? line).toList ++ listedFrom (p.after line) lines

/-- What a reader of a whole dump finds. -/
def listed (lines : List String) : List (String × String) := listedFrom .front lines

/-- The line of an element. -/
def elementLine (span : OffsetSpan) (stored : Int64) : String :=
  s!"{span.offset} {span.length} {stored.toInt}"

theorem listedFrom_append (p : Position) (lines rest : List String) :
    listedFrom p (lines ++ rest) =
      listedFrom p lines ++ listedFrom (lines.foldl Position.after p) rest := by
  induction lines generalizing p with
  | nil => rfl
  | cons line lines ih =>
    rw [List.cons_append, listedFrom, listedFrom, List.foldl_cons, ih, List.append_assoc]

/-- As long as a reader stays where it stands, it takes one line like the other. -/
theorem listedFrom_of_stays (p : Position) (lines : List String)
    (h : ∀ line ∈ lines, p.after line = p) :
    lines.foldl Position.after p = p ∧ listedFrom p lines = lines.filterMap p.listed? := by
  induction lines with
  | nil => exact ⟨rfl, rfl⟩
  | cons line lines ih =>
    obtain ⟨hfold, hlisted⟩ := ih fun line' hline => h line' (List.mem_cons_of_mem _ hline)
    rw [List.foldl_cons, listedFrom, h line List.mem_cons_self, hlisted]
    refine ⟨hfold, ?_⟩
    cases hline : p.listed? line with
    | none =>
      rw [List.filterMap_cons_none hline]
      rfl
    | some row =>
      rw [List.filterMap_cons_some hline]
      rfl

/-- A reader in front of the sections passes over lines that begin none. -/
theorem listedFrom_front (lines : List String) (h : ∀ line ∈ lines, isHeading line = false) :
    lines.foldl Position.after .front = .front ∧ listedFrom .front lines = [] := by
  obtain ⟨hfold, hlisted⟩ := listedFrom_of_stays .front lines fun line hline => by
    simp only [Position.after, h line hline, Bool.false_eq_true, ↓reduceIte]
  exact ⟨hfold, hlisted.trans (List.filterMap_eq_nil_iff.mpr fun _ _ => rfl)⟩

/-- A reader in the head of a section passes over it. -/
theorem listedFrom_head (heading : String) (lines : List String)
    (h : ∀ line ∈ lines, isHeading line = false ∧ line ≠ "Deltas:") :
    lines.foldl Position.after (.head heading) = .head heading ∧
      listedFrom (.head heading) lines = [] := by
  obtain ⟨hfold, hlisted⟩ := listedFrom_of_stays (.head heading) lines fun line hline => by
    simp only [Position.after, h line hline, Bool.false_eq_true, ↓reduceIte]
  exact ⟨hfold, hlisted.trans (List.filterMap_eq_nil_iff.mpr fun _ _ => rfl)⟩

/-- A reader among the elements of a section lists every line up to the next heading. -/
theorem listedFrom_elements (heading : String) (lines : List String)
    (h : ∀ line ∈ lines, isHeading line = false) :
    lines.foldl Position.after (.elements heading) = .elements heading ∧
      listedFrom (.elements heading) lines = lines.map (heading, ·) := by
  obtain ⟨hfold, hlisted⟩ := listedFrom_of_stays (.elements heading) lines fun line hline => by
    simp only [Position.after, h line hline, Bool.false_eq_true, ↓reduceIte]
  refine ⟨hfold, ?_⟩
  rw [hlisted, ← List.filterMap_eq_map]
  refine List.filterMap_congr fun line hline => ?_
  simp only [Position.listed?, h line hline, Bool.false_eq_true, ↓reduceIte, Function.comp_apply]

/-! ## The lines of a section -/

theorem isHeading_heading (k : Nat) : isHeading (heading k) = true := by
  simp [isHeading, heading, String.toList_append, Decimal.toString_text]

/-- Nothing but numbers. -/
def IsNumeric (line : String) : Prop :=
  ∀ c ∈ line.toList, c.isDigit = true ∨ c = '-' ∨ c = ' '

theorem isNumeric_int (z : Int) : IsNumeric (toString z) := fun _ hc =>
  (Decimal.mem_intText hc).imp_right .inl

theorem isNumeric_elementLine (span : OffsetSpan) (stored : Int64) :
    IsNumeric (elementLine span stored) := by
  intro c hc
  have hdigit : ∀ n : UInt32, c ∈ (toString n).toList → c.isDigit = true := fun n hn =>
    Decimal.isDigit_of_mem_digitText (n := n.toNat) hn
  simp only [elementLine, String.toList_append, List.mem_append] at hc
  rcases hc with (((hc | hc) | hc) | hc) | hc
  · exact .inl (hdigit _ hc)
  · exact .inr (.inr (List.mem_singleton.mp hc))
  · exact .inl (hdigit _ hc)
  · exact .inr (.inr (List.mem_singleton.mp hc))
  · exact isNumeric_int _ c hc

theorem IsNumeric.not_mem {line : String} (h : IsNumeric line) {c : Char}
    (hc : c.isDigit = false) (hminus : c ≠ '-') (hblank : c ≠ ' ') : c ∉ line.toList := by
  intro hmem
  rcases h c hmem with hdigit | heq | heq
  · rw [hdigit] at hc
    cases hc
  · exact hminus heq
  · exact hblank heq

theorem IsNumeric.not_isHeading {line : String} (h : IsNumeric line) : isHeading line = false := by
  refine Bool.eq_false_iff.mpr fun hheading => ?_
  -- A heading has letters.
  have hsubset := (List.isPrefixOf_iff_prefix.mp hheading).subset
  exact h.not_mem (c := 'B') (by decide) (by decide) (by decide) (hsubset (by decide))

theorem IsNumeric.ne_deltas {line : String} (h : IsNumeric line) : line ≠ "Deltas:" := by
  rintro rfl
  exact h.not_mem (c := 'D') (by decide) (by decide) (by decide) (by decide)

theorem IsNumeric.not_mem_newline {line : String} (h : IsNumeric line) : '\n' ∉ line.toList :=
  h.not_mem (by decide) (by decide) (by decide)

theorem newline_not_mem_repr (z : Int) : '\n' ∉ z.repr.toList :=
  (isNumeric_int z).not_mem_newline

theorem newline_not_mem_toDigits (n : Nat) : '\n' ∉ Nat.toDigits 10 n := fun h => by
  cases Nat.isDigit_of_mem_toDigits (by decide) (by decide) h

end Dump

namespace BlockSection

open Dump

variable (s : BlockSection)

/-- The lines between the heading of a section and its elements. -/
def headLines : List String :=
  [s!"start: {s.block.start}", s!"next_start: {s.block.next}",
    s!"Base: {s.anchor.start} {s.anchor.length}"] ++ s.base?.toList.map (toString ·.toInt)

/-- What a reader of the section finds. -/
def listed : List (String × String) :=
  s.entries.map fun (span, stored) => (heading s.index, elementLine span stored)

theorem lines_eq : s.lines = heading s.index :: (s.headLines ++
    "Deltas:" :: s.entries.map fun (span, stored) => elementLine span stored) := by
  simp only [lines, headLines, heading, elementLine, List.cons_append, List.nil_append,
    List.append_assoc]

theorem of_mem_headLines {line : String} (h : line ∈ s.headLines) :
    isHeading line = false ∧ line ≠ "Deltas:" ∧ '\n' ∉ line.toList := by
  rcases List.mem_append.mp h with h | h
  · simp only [List.mem_cons, List.not_mem_nil, or_false] at h
    rcases h with rfl | rfl | rfl <;>
      simp [isHeading, ← String.toList_inj, String.toList_append, Decimal.toString_text,
        List.isPrefixOf, newline_not_mem_repr, newline_not_mem_toDigits]
  · obtain ⟨b, -, rfl⟩ := List.mem_map.mp h
    exact ⟨(isNumeric_int _).not_isHeading, (isNumeric_int _).ne_deltas, newline_not_mem_repr _⟩

/-- Behind a section the reader stands among its elements, wherever the section begins. -/
theorem read_lines (p : Position) :
    s.lines.foldl Position.after p = .elements (heading s.index) ∧
      listedFrom p s.lines = s.listed := by
  have hheading : p.after (heading s.index) = .head (heading s.index) := by
    simp only [Position.after, isHeading_heading, ↓reduceIte]
  have hnone : p.listed? (heading s.index) = none := by
    cases p <;> simp only [Position.listed?, isHeading_heading, ↓reduceIte]
  have hdeltas : (Position.head (heading s.index)).after "Deltas:" =
      .elements (heading s.index) := rfl
  obtain ⟨hhead, hpassed⟩ := listedFrom_head (heading s.index) s.headLines
    fun line hline => ⟨(s.of_mem_headLines hline).1, (s.of_mem_headLines hline).2.1⟩
  obtain ⟨helements, hlisted⟩ := listedFrom_elements (heading s.index)
    (s.entries.map fun (span, stored) => elementLine span stored)
    fun line hline => by
      obtain ⟨e, -, rfl⟩ := List.mem_map.mp hline
      exact (isNumeric_elementLine e.1 e.2).not_isHeading
  -- The heading, the head, `Deltas:` and the entries, one after the other.
  rw [lines_eq]
  constructor
  · rw [List.foldl_cons, hheading, List.foldl_append, hhead, List.foldl_cons, hdeltas, helements]
  · rw [listedFrom, hnone, hheading, listedFrom_append, hpassed, hhead, listedFrom, hdeltas,
      hlisted, List.map_map]
    rfl

theorem filter_lines : s.lines.filter isHeading = [heading s.index] := by
  have hhead : s.headLines.filter isHeading = [] :=
    List.filter_eq_nil_iff.mpr fun line hline => by simp [(s.of_mem_headLines hline).1]
  have hentries : (s.entries.map fun (span, stored) => elementLine span stored).filter isHeading =
      [] :=
    List.filter_eq_nil_iff.mpr fun line hline => by
      obtain ⟨e, -, rfl⟩ := List.mem_map.mp hline
      simp [(isNumeric_elementLine e.1 e.2).not_isHeading]
  rw [lines_eq, List.filter_cons_of_pos (isHeading_heading _), List.filter_append, hhead,
    List.nil_append, List.filter_cons_of_neg (by decide), hentries]

theorem newline_not_mem {line : String} (h : line ∈ s.lines) : '\n' ∉ line.toList := by
  rw [lines_eq, List.mem_cons, List.mem_append, List.mem_cons] at h
  rcases h with rfl | h | rfl | h
  · simp [heading, String.toList_append, Decimal.toString_text, newline_not_mem_toDigits]
  · exact (s.of_mem_headLines h).2.2
  · decide
  · obtain ⟨e, -, rfl⟩ := List.mem_map.mp h
    exact (isNumeric_elementLine e.1 e.2).not_mem_newline

end BlockSection

namespace Dump

/-- A reader of sections finds what each of them lists, one after the other. -/
theorem listedFrom_sections (p : Position) (sections : List BlockSection) :
    listedFrom p (sections.flatMap BlockSection.lines) =
      sections.flatMap BlockSection.listed := by
  induction sections generalizing p with
  | nil => rfl
  | cons s sections ih =>
    obtain ⟨hfold, hlisted⟩ := s.read_lines p
    rw [List.flatMap_cons, listedFrom_append, hfold, hlisted, ih, List.flatMap_cons]

theorem filter_sections (sections : List BlockSection) :
    (sections.flatMap BlockSection.lines).filter isHeading =
      sections.map (heading ·.index) := by
  rw [List.filter_flatMap, List.map_eq_flatMap]
  simp only [BlockSection.filter_lines]

end Dump

/-! ## What the sections show -/

theorem mapM_eq_map {α β : Type} {f : α → Option β} {g : α → β} {xs : List α}
    (h : ∀ x ∈ xs, f x = some (g x)) : xs.mapM f = some (xs.map g) := by
  have hsome : ∀ x ∈ xs, (f x).isSome := fun x hx => by
    rw [h x hx]
    rfl
  rw [mapM_eq_some hsome, ← List.filterMap_eq_map]
  exact congrArg some (List.filterMap_congr h)

namespace BlockedRegion

open Dump

variable {r : BlockedRegion}

/-- What a dump is to show of element `i`: in the section of its block, its offset, its length, and
the number that is stored for it. -/
def listing? (r : BlockedRegion) (i : Nat) : Option (String × String) := do
  let block ← r.blocks[r.layout.blockOf i]?
  let span ← r.offsets.spans[i]?
  let stored ← if block.packed then r.delta? i else r.value? i
  return (heading (r.layout.blockOf i), elementLine span stored)

namespace Valid

theorem stop?_eq_some (h : r.Valid) : ∃ t, r.stop? = some t := by
  unfold stop?
  by_cases hcount : r.count = 0
  · exact ⟨_, if_pos hcount⟩
  · obtain ⟨s, hs⟩ := h.span?_eq_some (i := r.count - 1) (by omega)
    rw [if_neg hcount, hs]
    exact ⟨_, rfl⟩

theorem stored?_eq_some (h : r.Valid) {i : Nat} (hi : i < r.count) :
    ∃ v, r.stored? (r.layout.blockAt (r.layout.blockOf i)) i = some v := by
  have hlength := Nat.lt_of_lt_of_le hi h.count_le
  have hblock := h.committed i hi
  unfold stored?
  cases hpacked : r.layout.policy.packs (r.layout.blockOf i) with
  | true =>
    obtain ⟨-, d, -, hd, -⟩ := h.value?_packed hlength hblock hpacked
    exact ⟨d, by rw [if_pos (by exact hpacked), hd]⟩
  | false =>
    obtain ⟨v, hv⟩ := h.value?_raw hlength hblock hpacked
    exact ⟨v, by rw [if_neg (by simp [Layout.blockAt, hpacked]), hv]⟩

/-- The indices of a section are those of committed elements of its block. -/
theorem of_mem_committedIn (h : r.Valid) {k i : Nat}
    (hi : i ∈ r.committedIn k (r.layout.blockAt k)) : i < r.count ∧ r.layout.blockOf i = k := by
  have hlength := Layout.length_blockAt (Layout.blockSize_of_check h.check).2 k
  simp only [committedIn, hlength, List.mem_range'_1] at hi
  refine ⟨by omega, ?_⟩
  have hblock := Layout.blockOf_eq h.blockSize_pos (k := k) (j := i - k * r.layout.blockSize)
    (by omega)
  rwa [Nat.add_sub_cancel' hi.1] at hblock

/-- The sections of the first `n` blocks show the elements in front of block `n`. -/
theorem flatMap_committedIn (h : r.Valid) (n : Nat) :
    (List.range n).flatMap (fun k => r.committedIn k (r.layout.blockAt k)) =
      List.range (min (n * r.layout.blockSize) r.count) := by
  induction n with
  | zero => simp
  | succ n ih =>
    have hcount := h.count_le
    have hsection : r.committedIn n (r.layout.blockAt n) =
        List.range' (n * r.layout.blockSize)
          (min ((n + 1) * r.layout.blockSize) r.count - n * r.layout.blockSize) := by
      rw [committedIn, Layout.length_blockAt (Layout.blockSize_of_check h.check).2,
        Layout.elementsIn_eq_min, Nat.succ_mul]
      congr 1
      omega
    rw [List.range_succ, List.flatMap_append, ih, List.flatMap_cons, List.flatMap_nil,
      List.append_nil, hsection, Nat.succ_mul]
    rcases Nat.le_total r.count (n * r.layout.blockSize) with hle | hle
    -- The block is ahead of the elements.
    · rw [Nat.min_eq_right hle, Nat.min_eq_right (by omega), Nat.sub_eq_zero_of_le hle,
        List.range'_zero, List.append_nil]
    · rw [Nat.min_eq_left hle, List.range_eq_range', List.range_eq_range',
        show List.range' (n * r.layout.blockSize) _ = List.range' (0 + n * r.layout.blockSize) _ by
          rw [Nat.zero_add], List.range'_append_1]
      congr 1
      omega

/-- What the section of block `k` shows of an element is what is to be shown of it. -/
theorem exists_entry (h : r.Valid) {k i : Nat}
    (hi : i ∈ r.committedIn k (r.layout.blockAt k)) :
    ∃ entry : OffsetSpan × Int64, r.offsets.spans[i]? = some entry.1 ∧
      r.stored? (r.layout.blockAt k) i = some entry.2 ∧
      r.listing? i = some (heading k, elementLine entry.1 entry.2) := by
  obtain ⟨hcount, rfl⟩ := h.of_mem_committedIn hi
  obtain ⟨stored, hstored⟩ := h.stored?_eq_some hcount
  have hspan : i < r.offsets.spans.size := by rw [h.size_offsets]; exact hcount
  refine ⟨(r.offsets.spans[i], stored), Array.getElem?_eq_getElem hspan, hstored, ?_⟩
  unfold stored? at hstored
  unfold listing?
  rw [h.getElem?_blocks (h.committed i hcount), Array.getElem?_eq_getElem hspan]
  split at hstored
  case isTrue hpacked => simp [hpacked, hstored]
  case isFalse hpacked => simp [hpacked, hstored]

/-- The section of a committed block can be read, and lists the elements of the block. -/
theorem section?_eq_some (h : r.Valid) {k : Nat} (hk : k < r.blocks.size) :
    ∃ s, r.section? k (r.layout.blockAt k) = some s ∧ s.index = k ∧
      s.listed.map some = (r.committedIn k (r.layout.blockAt k)).map r.listing? := by
  have hanchor : k < r.anchors.spans.size := by rw [h.size_anchors]; exact hk
  choose! entry hspan hstored hlisting using fun i hi => h.exists_entry (k := k) (i := i) hi
  have hentries : (r.committedIn k (r.layout.blockAt k)).mapM (fun i => do
      return (← r.offsets.spans[i]?, ← r.stored? (r.layout.blockAt k) i)) =
      some ((r.committedIn k (r.layout.blockAt k)).map entry) :=
    mapM_eq_map fun i hi => by simp [hspan i hi, hstored i hi]
  obtain ⟨base, hsection⟩ : ∃ base, r.section? k (r.layout.blockAt k) =
      some ⟨k, r.layout.blockAt k, r.anchors.spans[k], base,
        (r.committedIn k (r.layout.blockAt k)).map entry⟩ := by
    unfold section? anchor?
    rw [Array.getElem?_eq_getElem hanchor, hentries]
    cases hpacked : r.layout.policy.packs k with
    | true =>
      obtain ⟨b, hb⟩ := h.base?_eq_some hk hpacked
      exact ⟨some b, by simp [Layout.blockAt, hpacked, hb]⟩
    | false => exact ⟨none, by simp [Layout.blockAt, hpacked]⟩
  refine ⟨_, hsection, rfl, ?_⟩
  rw [BlockSection.listed, List.map_map, List.map_map]
  exact List.map_congr_left fun i hi => (hlisting i hi).symm

/-- The sections are those of the committed blocks, and list every committed element once. -/
theorem sections?_eq_some (h : r.Valid) : ∃ sections, r.sections? = some sections ∧
    sections.map (heading ·.index) = (List.range r.blocks.size).map heading ∧
    (sections.flatMap BlockSection.listed).map some = (List.range r.count).map r.listing? := by
  have hblocks : r.blocks.toList.zipIdx =
      (List.range r.blocks.size).map fun k => (r.layout.blockAt k, k) := by
    refine List.ext_getElem (by simp) fun k hk _ => ?_
    simp only [List.length_zipIdx, Array.length_toList] at hk
    simp [h.blocks k hk]
  have : Nonempty BlockSection := ⟨⟨0, r.layout.blockAt 0, default, none, []⟩⟩
  choose! s hs hindex hlisted using fun k hk => h.section?_eq_some (k := k) hk
  refine ⟨(List.range r.blocks.size).map s, ?_, ?_, ?_⟩
  · rw [sections?, hblocks, List.mapM_map]
    exact mapM_eq_map fun k hk => hs k (List.mem_range.mp hk)
  · rw [List.map_map]
    refine List.map_congr_left fun k hk => ?_
    rw [Function.comp_apply, hindex k (List.mem_range.mp hk)]
  · calc (((List.range r.blocks.size).map s).flatMap BlockSection.listed).map some
        = (List.range r.blocks.size).flatMap fun k => (s k).listed.map some := by
          rw [List.flatMap_map, List.map_flatMap]
      _ = (List.range r.blocks.size).flatMap fun k =>
            (r.committedIn k (r.layout.blockAt k)).map r.listing? := by
          exact congrArg List.flatten
            (List.map_congr_left fun k hk => hlisted k (List.mem_range.mp hk))
      _ = (List.range r.count).map r.listing? := by
          rw [← List.map_flatMap, h.flatMap_committedIn, Nat.min_eq_right h.count_le_mul]

end Valid

/-- The lines in front of the sections. -/
def metadata (r : BlockedRegion) (stop : Int) : List String :=
  ["Metadata:", s!"st: {r.start}", s!"et: {stop}", s!"count: {r.count}",
    s!"blocks: {r.blocks.size}"]

theorem of_mem_metadata {stop : Int} {line : String} (h : line ∈ r.metadata stop) :
    isHeading line = false ∧ '\n' ∉ line.toList := by
  simp only [metadata, List.mem_cons, List.not_mem_nil, or_false] at h
  rcases h with rfl | rfl | rfl | rfl | rfl <;>
    simp [isHeading, String.toList_append, Decimal.toString_text, List.isPrefixOf,
      newline_not_mem_repr, newline_not_mem_toDigits]

/-- There is a dump of every region that the operations lead to, whatever blocks and elements are
committed, and who reads it finds

* the headings of the committed blocks, in order;
* among the lines below the headings, in order, one for each committed element, in the section of
  its block and with what is stored for it: its offset, its length, and the delta in a packed block
  or the value in a raw one. -/
theorem dump_lists_elements (h : r.Reachable) :
    ∃ text, (View.blocked r).dump? = some text ∧
      (textLines text).filter isHeading = (List.range r.blocks.size).map heading ∧
      (listed (textLines text)).map some = (List.range r.count).map r.listing? := by
  obtain ⟨stop, hstop⟩ := h.valid.stop?_eq_some
  obtain ⟨sections, hsections, hheadings, hlisted⟩ := h.valid.sections?_eq_some
  have hdump : r.dumpLines? = some (r.metadata stop ++ sections.flatMap BlockSection.lines) := by
    unfold dumpLines?
    rw [hstop, hsections]
    rfl
  have hlines : textLines (textOfLines (r.metadata stop ++ sections.flatMap BlockSection.lines)) =
      r.metadata stop ++ sections.flatMap BlockSection.lines := by
    refine textLines_textOfLines fun line hline => ?_
    rcases List.mem_append.mp hline with hline | hline
    · exact (of_mem_metadata hline).2
    · obtain ⟨s, -, hline⟩ := List.mem_flatMap.mp hline
      exact s.newline_not_mem hline
  refine ⟨textOfLines (r.metadata stop ++ sections.flatMap BlockSection.lines), ?dump, ?headings,
    ?elements⟩
  case dump =>
    rw [View.dump?, hdump]
    rfl
  case headings =>
    have hfront : (r.metadata stop).filter isHeading = [] :=
      List.filter_eq_nil_iff.mpr fun line hline => by simp [(of_mem_metadata hline).1]
    rw [hlines, List.filter_append, hfront, List.nil_append, filter_sections, hheadings]
  case elements =>
    obtain ⟨hfold, hnone⟩ := listedFrom_front (r.metadata stop) fun _ hline =>
      (of_mem_metadata hline).1
    rw [hlines, listed, listedFrom_append, hfold, hnone, List.nil_append,
      listedFrom_sections, hlisted]

/-- Three blocks and three elements: a full packed block, a raw one with one of its two elements,
and a packed one ahead of the elements. -/
theorem dump_lists_elements_of_block_ahead :
    let layout : Layout := ⟨.i16, .i8, 5, 2, .everyNth 2⟩
    let calls : List Call := [.commit (.block 0 ⟨0, 2⟩ true), .commit (.block 1 ⟨4, 2⟩ false),
      .commit (.block 2 ⟨8, 1⟩ true), .write (.base 0) 1000, .write (.delta 1) (-3),
      .write (.raw 2) 7, .commit (.element 0 ⟨0, 1⟩), .commit (.element 1 ⟨1, 1⟩),
      .commit (.element 2 ⟨0, 2⟩)]
    ∃ r₀ r text, allocate layout = .ok r₀ ∧ calls.foldlM Call.perform? r₀ = some r ∧
      (View.blocked r).dump? = some text ∧
      (textLines text).filter isHeading = ["Block 0:", "Block 1:", "Block 2:"] ∧
      listed (textLines text) =
        [("Block 0:", "0 1 0"), ("Block 0:", "1 1 -3"), ("Block 1:", "0 2 7")] := by
  intro layout calls
  let r₀ : BlockedRegion := ⟨layout, 0, #[], .empty layout.blockCount, .empty layout.length,
    .zeroed layout.payloadBytes⟩
  have hallocate : allocate layout = .ok r₀ := rfl
  have hstate : (calls.foldlM Call.perform? r₀).map (fun r =>
      (r.blocks.size, (List.range r.count).map r.listing?)) = some (3,
        [some ("Block 0:", "0 1 0"), some ("Block 0:", "1 1 -3"), some ("Block 1:", "0 2 7")]) := by
    decide +kernel
  obtain ⟨r, hrun, hshown⟩ := Option.map_eq_some_iff.mp hstate
  obtain ⟨hblocks, hlisting⟩ := Prod.mk.inj hshown
  obtain ⟨text, hdump, hheadings, hlisted⟩ :=
    dump_lists_elements (Reachable.run (.allocate hallocate) hrun)
  refine ⟨r₀, r, text, hallocate, hrun, hdump, ?_, ?_⟩
  · rw [hheadings, hblocks]
    decide
  · rw [hlisting] at hlisted
    exact List.map_injective_iff.mpr (Option.some_injective _) hlisted

end BlockedRegion

end StreamGauge
