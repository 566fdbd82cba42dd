import StreamGauge.Proofs.Exec.Fold
import StreamGauge.Proofs.Exec.Join

/-!
# A run of a join

* `run_outerJoin`: an outer join of two inputs commits one element for each piece that an element
  of either side covers, with the value of the expression on both sides (`SideValue`).
* `run_innerJoin`: an inner join commits one element for each pair that shares some time.
-/

namespace StreamGauge

/-- The value of a side on a piece: that of the element that covers it, or the fill value if there
is none. -/
def SideValue (es : List Element) (fill : Value) (p : Int × Int) (v : Value) : Prop :=
  (∃ e ∈ es, e.covers p.1 p.2 = true ∧ e.value? = some v) ∨
    (∀ e ∈ es, e.covers p.1 p.2 = false) ∧ v = fill

/-- An outer join reads the value of a side. -/
theorem sideValue_eq {es : List Element} (h : InOrder es) {fill : Value} {p : Int × Int}
    (hlt : p.1 < p.2) {v : Value} (hv : SideValue es fill p v) :
    sideValue fill (es.find? (·.covers p.1 p.2)) = .ok v := by
  rcases hv with ⟨e, he, hcovers, hvalue⟩ | ⟨hnone, rfl⟩
  · cases hfind : es.find? (·.covers p.1 p.2) with
    | none =>
      rw [List.find?_eq_none] at hfind
      exact absurd hcovers (hfind e he)
    | some e' =>
      have heq := h.eq_of_covers hlt (List.mem_of_find?_eq_some hfind) he
        (List.find?_some hfind) hcovers
      rw [heq]
      simp only [sideValue, Element.read, hvalue]
  · have hfind : es.find? (·.covers p.1 p.2) = none := by
      rw [List.find?_eq_none]
      intro e he
      rw [hnone e he]
      exact Bool.false_ne_true
    rw [hfind]
    rfl

section Run

variable {inputs : List View} {i j : Nat} {l r : View} {start stop : Int} {expr : Expr}
  {fill : Value} {kind : Kind} {out : PlainRegion}

/-- In a range that does not end before it starts, both sides are what starts there. -/
theorem outerJoinIn_eq (expr : Expr) (fill : Value) (hl : l.Valid) (hr : r.Valid)
    (hlwf : l.WellFormed) (hrwf : r.WellFormed) (hle : start ≤ stop) :
    outerJoinIn expr fill l.feed r.feed start stop =
      outerJoin expr fill (l.elementsIn start stop) (r.elementsIn start stop) := by
  have hlmono := startIndex_mono (hlwf.inOrder hl).starts_le hle
  have hrmono := startIndex_mono (hrwf.inOrder hr).starts_le hle
  change startIndex l.feed.elements start ≤ startIndex l.feed.elements stop at hlmono
  change startIndex r.feed.elements start ≤ startIndex r.feed.elements stop at hrmono
  change (if startIndex l.feed.elements stop < startIndex l.feed.elements start ∨
    startIndex r.feed.elements stop < startIndex r.feed.elements start then _
    else outerJoin expr fill (elementsIn l.feed.elements start stop)
      (elementsIn r.feed.elements start stop)) = _
  rw [if_neg (by omega), View.elementsIn_feed hl hlwf hle, View.elementsIn_feed hr hrwf hle]

theorem run_outerJoin_eq (hi : inputs[i]? = some l) (hj : inputs[j]? = some r) (hl : l.Valid)
    (hr : r.Valid) (hlwf : l.WellFormed) (hrwf : r.WellFormed) (hle : start ≤ stop) :
    (Query.join (.input i) (.input j) expr (some fill) kind).run inputs start stop out =
      out.play (outerJoin expr fill (l.elementsIn start stop) (r.elementsIn start stop)) := by
  have hemissions : (Query.join (.input i) (.input j) expr (some fill) kind).emissions inputs start
      stop = .ok (outerJoin expr fill (l.elementsIn start stop) (r.elementsIn start stop)) := by
    simp only [Query.emissions, View.feed_input hi hl, View.feed_input hj hr]
    rw [← outerJoinIn_eq expr fill hl hr hlwf hrwf hle]
    rfl
  rw [Query.run, hemissions]

/-- An outer join of two inputs. Let both sides be the elements that start in the range.

The pieces that it makes elements of follow each other and are exactly those between two starts or
stops, with none in between, that an element covers; of one side, no more than one element covers
a piece. Together they are the times of the elements of both sides.

The run appends one element for each, in order. Its value is that of the expression on the values
of both sides, where the fill value stands for a side that has no element there. -/
theorem run_outerJoin (hi : inputs[i]? = some l) (hj : inputs[j]? = some r) (hl : l.Reachable)
    (hr : r.Reachable) (hlwf : l.WellFormed) (hrwf : r.WellFormed) (hle : start ≤ stop)
    (hout : out.Reachable) (hstop : out.stop ≤ start)
    (room : out.count +
      (coveredPieces (l.elementsIn start stop ++ r.elementsIn start stop)).length ≤ out.capacity)
    (value : Int × Int → Value)
    (hvalue : ∀ p ∈ coveredPieces (l.elementsIn start stop ++ r.elementsIn start stop), ∃ a b,
      SideValue (l.elementsIn start stop) fill p a ∧
      SideValue (r.elementsIn start stop) fill p b ∧ expr.eval [a, b] = .ok (value p)) :
    let pieces := coveredPieces (l.elementsIn start stop ++ r.elementsIn start stop)
    pieces.Pairwise (·.2 ≤ ·.1) ∧
    (∀ lo hi, (lo, hi) ∈ pieces ↔
      IsPiece (l.elementsIn start stop ++ r.elementsIn start stop) lo hi) ∧
    (∀ p ∈ pieces, ∀ v ∈ [l, r], ∀ a ∈ v.elementsIn start stop, ∀ b ∈ v.elementsIn start stop,
      a.covers p.1 p.2 = true → b.covers p.1 p.2 = true → a = b) ∧
    (∀ t, (∃ p ∈ pieces, p.1 < t ∧ t ≤ p.2) ↔
      ∃ e ∈ l.elementsIn start stop ++ r.elementsIn start stop,
        e.span.start < t ∧ t ≤ e.span.stop) ∧
    ∃ out', (Query.join (.input i) (.input j) expr (some fill) kind).run inputs start stop out =
        (out', .ok ()) ∧
      out.Extends out' (pieces.map fun p =>
        ⟨.between p.1 p.2, some (out.kind.convert (value p))⟩) := by
  have hleft : InOrder (l.elementsIn start stop) := View.inOrder_elementsIn hl.valid hlwf
  have hright : InOrder (r.elementsIn start stop) := View.inOrder_elementsIn hr.valid hrwf
  have hsides : ∀ v ∈ [l, r], InOrder (v.elementsIn start stop) := by
    intro v hv
    rcases List.mem_cons.mp hv with rfl | hv
    · exact hleft
    · rw [List.mem_singleton.mp hv]
      exact hright
  refine ⟨ordered_coveredPieces _, fun lo hi => mem_coveredPieces, fun p hp v hv a ha b hb =>
    (hsides v hv).eq_of_covers (mem_coveredPieces.mp hp).lt ha hb, union_coveredPieces _, ?_⟩
  -- The search finds the element of `SideValue`: no other one of its side covers the piece.
  have hemission : ∀ p ∈ coveredPieces (l.elementsIn start stop ++ r.elementsIn start stop),
      pieceEmission expr fill (l.elementsIn start stop) (r.elementsIn start stop) p =
        .during (.between p.1 p.2) (value p) := by
    intro p hp
    obtain ⟨a, b, ha, hb, heval⟩ := hvalue p hp
    have hlt := (mem_coveredPieces.mp hp).lt
    rw [pieceEmission, sideValue_eq hleft hlt ha, sideValue_eq hright hlt hb]
    change Emission.ofResult _ ((expr.eval [a, b]).mapError (·.toExecError)) = _
    rw [heval]
    rfl
  have hlist := toList_outerJoin expr fill hleft hright
  -- Pieces start where an element starts or stops, so none is before `start`.
  have hascending : Ascending out.stop (outerJoin expr fill (l.elementsIn start stop)
      (r.elementsIn start stop)).toList := by
    refine (ascending_outerJoin hleft hright fun e he => ?_).mono hstop
    rcases List.mem_append.mp he with he | he
    · exact View.start_le_of_elementsIn he
    · exact View.start_le_of_elementsIn he
  have hcount := @countP_outerJoin_le _ _ expr fill hleft hright
  obtain ⟨out', hplay, hext, -⟩ := PlainRegion.play_ascending hout.valid hascending (by omega)
    (by
      intro e he
      rw [hlist] at he
      obtain ⟨p, hp, rfl⟩ := List.mem_map.mp he
      rw [hemission p hp]
      rfl)
  rw [hlist, placed_map out.kind hemission] at hext
  rw [Sequence.ofList_toList] at hplay
  exact ⟨out', by rw [run_outerJoin_eq hi hj hl.valid hr.valid hlwf hrwf hle, hplay], hext⟩

/-- Two elements against one that overlaps the first, and a gap. -/
theorem run_outerJoin_of_overlap : ∃ out',
    (Query.join (.input 0) (.input 1) (.binary .add (.input 0) (.input 1)) (some (.int 0)) .i64).run
      [.plain (((PlainRegion.allocate .i64 2 0).record ⟨0, 2⟩ (.int 5)).record ⟨5, 1⟩ (.int 1)),
        .plain ((PlainRegion.allocate .i64 1 0).record ⟨1, 2⟩ (.int 7))]
      0 10 (.allocate .i64 4 0) = (out', .ok ()) ∧
    out'.elements = [⟨⟨0, 1⟩, some (.int 5)⟩, ⟨⟨1, 1⟩, some (.int 12)⟩, ⟨⟨2, 1⟩, some (.int 7)⟩,
      ⟨⟨5, 1⟩, some (.int 1)⟩] := by
  let left := ((PlainRegion.allocate .i64 2 0).record ⟨0, 2⟩ (.int 5)).record ⟨5, 1⟩ (.int 1)
  let right := (PlainRegion.allocate .i64 1 0).record ⟨1, 2⟩ (.int 7)
  have hleft : left.Reachable :=
    .record (.record (@PlainRegion.Reachable.allocate .i64 2 0 _ rfl) (by decide) _) (by decide) _
  have hright : right.Reachable :=
    .record (@PlainRegion.Reachable.allocate .i64 1 0 _ rfl) (by decide) _
  have hl : (View.plain left).elementsIn 0 10 =
      [⟨⟨0, 2⟩, some (.int 5)⟩, ⟨⟨5, 1⟩, some (.int 1)⟩] := by decide
  have hr : (View.plain right).elementsIn 0 10 = [⟨⟨1, 2⟩, some (.int 7)⟩] := by decide
  have hpieces : coveredPieces ((View.plain left).elementsIn 0 10 ++
      (View.plain right).elementsIn 0 10) = [(0, 1), (1, 2), (2, 3), (5, 6)] := by
    -- `mergeSort` recurses on lengths, so `decide` does not get through it.
    have hcuts : cutsOf ([⟨⟨0, 2⟩, some (.int 5)⟩, ⟨⟨5, 1⟩, some (.int 1)⟩] ++
        [⟨⟨1, 2⟩, some (.int 7)⟩]) = [0, 1, 2, 3, 5, 6] := by
      simp only [cutsOf, List.flatMap]
      simp [List.mergeSort, Span.stop]
      rfl
    rw [hl, hr, coveredPieces, hcuts]
    decide
  let value : Int × Int → Value := fun p =>
    .int (if p.1 = 0 then 5 else if p.1 = 1 then 12 else if p.1 = 2 then 7 else 1)
  obtain ⟨-, -, -, -, out', hrun, hext⟩ := @run_outerJoin [.plain left, .plain right] 0 1
    (.plain left) (.plain right) 0 10 (.binary .add (.input 0) (.input 1)) (.int 0) .i64
    (.allocate .i64 4 0) rfl rfl hleft hright hleft.valid.wellFormed hright.valid.wellFormed
    (by decide) (@PlainRegion.Reachable.allocate .i64 4 0 _ rfl) (by decide)
    (by rw [hpieces]; decide) value (by
      intro p hp
      rw [hpieces] at hp
      rw [hl, hr]
      simp only [List.mem_cons, List.not_mem_nil, or_false] at hp
      rcases hp with rfl | rfl | rfl | rfl
      · exact ⟨.int 5, .int 0, .inl ⟨_, List.mem_cons_self, by decide, rfl⟩,
          .inr ⟨by decide, rfl⟩, rfl⟩
      · exact ⟨.int 5, .int 7, .inl ⟨_, List.mem_cons_self, by decide, rfl⟩,
          .inl ⟨_, List.mem_cons_self, by decide, rfl⟩, rfl⟩
      · exact ⟨.int 0, .int 7, .inr ⟨by decide, rfl⟩,
          .inl ⟨_, List.mem_cons_self, by decide, rfl⟩, rfl⟩
      · exact ⟨.int 1, .int 0, .inl ⟨_, List.mem_cons_of_mem _ List.mem_cons_self, by decide, rfl⟩,
          .inr ⟨by decide, rfl⟩, rfl⟩)
  refine ⟨out', hrun, ?_⟩
  rw [hext.elements, hpieces]
  decide

/-! ## Inner joins -/

theorem run_innerJoin_eq (hi : inputs[i]? = some l) (hj : inputs[j]? = some r) (hl : l.Valid)
    (hr : r.Valid) (hlwf : l.WellFormed) (hrwf : r.WellFormed) (hle : start ≤ stop) :
    (Query.join (.input i) (.input j) expr none kind).run inputs start stop out =
      out.play (innerJoin expr (l.elementsIn start stop) (r.elementsIn start stop)) := by
  have hemissions : (Query.join (.input i) (.input j) expr none kind).emissions inputs start
      stop = .ok (innerJoin expr (l.elementsIn start stop) (r.elementsIn start stop)) := by
    simp only [Query.emissions, View.feed_input hi hl, View.feed_input hj hr]
    rw [← View.elementsIn_feed hl hlwf hle, ← View.elementsIn_feed hr hrwf hle]
    rfl
  rw [Query.run, hemissions]

/-- An inner join of two inputs. Let both sides be the elements that start in the range.

The pairs that it makes elements of are exactly those of a left and a right element that share some
time, each once, and the times that they share follow each other. The run appends one element for
each, in that order: its span is the time that they share, and its value is that of the expression
on both values. -/
theorem run_innerJoin (hi : inputs[i]? = some l) (hj : inputs[j]? = some r) (hl : l.Reachable)
    (hr : r.Reachable) (hlwf : l.WellFormed) (hrwf : r.WellFormed) (hle : start ≤ stop)
    (hout : out.Reachable) (hstop : out.stop ≤ start)
    (room : out.count +
      (sharing (l.elementsIn start stop) (r.elementsIn start stop)).length ≤ out.capacity)
    (value : Element × Element → Value)
    (hvalue : ∀ p ∈ sharing (l.elementsIn start stop) (r.elementsIn start stop), ∃ a b,
      p.1.value? = some a ∧ p.2.value? = some b ∧ expr.eval [a, b] = .ok (value p)) :
    let pairs := sharing (l.elementsIn start stop) (r.elementsIn start stop)
    (∀ a b, (a, b) ∈ pairs ↔ a ∈ l.elementsIn start stop ∧ b ∈ r.elementsIn start stop ∧
      max a.span.start b.span.start < min a.span.stop b.span.stop) ∧
    pairs.Nodup ∧
    pairs.Pairwise (fun p q => min p.1.span.stop p.2.span.stop ≤
      max q.1.span.start q.2.span.start) ∧
    ∃ out', (Query.join (.input i) (.input j) expr none kind).run inputs start stop out =
        (out', .ok ()) ∧
      out.Extends out' (pairs.map fun p =>
        ⟨.between (max p.1.span.start p.2.span.start) (min p.1.span.stop p.2.span.stop),
          some (out.kind.convert (value p))⟩) := by
  have hleft : InOrder (l.elementsIn start stop) := View.inOrder_elementsIn hl.valid hlwf
  have hright : InOrder (r.elementsIn start stop) := View.inOrder_elementsIn hr.valid hrwf
  have hfound := overlaps_eq_sharing hleft hright
  have hordered := ordered_overlaps hleft hright
  have hpos : ∀ p ∈ overlaps (l.elementsIn start stop) (r.elementsIn start stop),
      0 < (overlap p.1 p.2).length := fun p hp => (mem_overlaps hp).2.2
  -- From here on the pairs are those of the merge, which the run follows.
  rw [← hfound] at room hvalue ⊢
  refine ⟨fun a b => by rw [hfound, mem_sharing], nodup_overlaps hleft hright, ?_, ?_⟩
  · simpa only [start_overlap, stop_overlap] using hordered
  have hemission : ∀ p ∈ overlaps (l.elementsIn start stop) (r.elementsIn start stop),
      joined expr (overlap p.1 p.2) p.1.read p.2.read = .during (overlap p.1 p.2) (value p) := by
    intro p hp
    obtain ⟨a, b, ha, hb, heval⟩ := hvalue p hp
    have hcompute : expr.compute [a, b] = .ok (value p) := by rw [Expr.compute, heval]; rfl
    simp only [joined, Element.read, ha, hb]
    change Emission.ofResult _ (expr.compute [a, b]) = _
    rw [hcompute]
    rfl
  have hlist := toList_innerJoin expr (l.elementsIn start stop) (r.elementsIn start stop)
  have hascending : Ascending out.stop
      (innerJoin expr (l.elementsIn start stop) (r.elementsIn start stop)).toList := by
    rw [hlist]
    refine (@ascending_map _ _ (fun p : Element × Element => overlap p.1 p.2) _ start
      (fun p _ => joined_isOn ..) hpos hordered fun p hp => ?_).mono hstop
    have hstart := View.start_le_of_elementsIn (mem_overlaps hp).1
    rw [start_overlap]
    omega
  have hcount : (innerJoin expr (l.elementsIn start stop)
      (r.elementsIn start stop)).toList.countP Emission.isElement ≤
      (overlaps (l.elementsIn start stop) (r.elementsIn start stop)).length := by
    rw [hlist]
    exact Nat.le_trans List.countP_le_length (Nat.le_of_eq (List.length_map _))
  obtain ⟨out', hplay, hext, -⟩ := PlainRegion.play_ascending hout.valid hascending (by omega)
    (by
      intro e he
      rw [hlist] at he
      obtain ⟨p, hp, rfl⟩ := List.mem_map.mp he
      rw [hemission p hp]
      rfl)
  rw [hlist, placed_map out.kind hemission] at hext
  rw [Sequence.ofList_toList] at hplay
  exact ⟨out', by rw [run_innerJoin_eq hi hj hl.valid hr.valid hlwf hrwf hle, hplay], hext⟩

/-- A coarse side against a fine one: an end that both share, a gap, and an overlap in part. -/
theorem run_innerJoin_of_overlaps : ∃ out',
    (Query.join (.input 0) (.input 1) (.binary .add (.input 0) (.input 1)) none .i64).run
      [.plain (((PlainRegion.allocate .i8 2 0).record ⟨0, 4⟩ (.int 10)).record ⟨4, 2⟩ (.int 20)),
        .plain ((((PlainRegion.allocate .i8 3 0).record ⟨1, 1⟩ (.int 1)).record ⟨2, 2⟩
          (.int 2)).record ⟨5, 4⟩ (.int 3))]
      0 10 (.allocate .i64 4 0) = (out', .ok ()) ∧
    out'.elements = [⟨⟨1, 1⟩, some (.int 11)⟩, ⟨⟨2, 2⟩, some (.int 12)⟩,
      ⟨⟨5, 1⟩, some (.int 23)⟩] := by
  let left := ((PlainRegion.allocate .i8 2 0).record ⟨0, 4⟩ (.int 10)).record ⟨4, 2⟩ (.int 20)
  let right := (((PlainRegion.allocate .i8 3 0).record ⟨1, 1⟩ (.int 1)).record ⟨2, 2⟩
    (.int 2)).record ⟨5, 4⟩ (.int 3)
  have hleft : left.Reachable :=
    .record (.record (@PlainRegion.Reachable.allocate .i8 2 0 _ rfl) (by decide) _) (by decide) _
  have hright : right.Reachable :=
    .record (.record (.record (@PlainRegion.Reachable.allocate .i8 3 0 _ rfl) (by decide) _)
      (by decide) _) (by decide) _
  have hl : (View.plain left).elementsIn 0 10 =
      [⟨⟨0, 4⟩, some (.int 10)⟩, ⟨⟨4, 2⟩, some (.int 20)⟩] := by decide
  have hr : (View.plain right).elementsIn 0 10 =
      [⟨⟨1, 1⟩, some (.int 1)⟩, ⟨⟨2, 2⟩, some (.int 2)⟩, ⟨⟨5, 4⟩, some (.int 3)⟩] := by decide
  have hpairs : sharing ((View.plain left).elementsIn 0 10) ((View.plain right).elementsIn 0 10) =
      [(⟨⟨0, 4⟩, some (.int 10)⟩, ⟨⟨1, 1⟩, some (.int 1)⟩),
        (⟨⟨0, 4⟩, some (.int 10)⟩, ⟨⟨2, 2⟩, some (.int 2)⟩),
        (⟨⟨4, 2⟩, some (.int 20)⟩, ⟨⟨5, 4⟩, some (.int 3)⟩)] := by
    rw [hl, hr]
    rfl
  let value : Element × Element → Value := fun p =>
    .int (if p.2.span.start = 1 then 11 else if p.2.span.start = 2 then 12 else 23)
  obtain ⟨-, -, -, out', hrun, hext⟩ := @run_innerJoin [.plain left, .plain right] 0 1
    (.plain left) (.plain right) 0 10 (.binary .add (.input 0) (.input 1)) .i64
    (.allocate .i64 4 0) rfl rfl hleft hright hleft.valid.wellFormed hright.valid.wellFormed
    (by decide) (@PlainRegion.Reachable.allocate .i64 4 0 _ rfl) (by decide)
    (by rw [hpairs]; decide) value (by
      intro p hp
      rw [hpairs] at hp
      simp only [List.mem_cons, List.not_mem_nil, or_false] at hp
      rcases hp with rfl | rfl | rfl
      · exact ⟨.int 10, .int 1, rfl, rfl, rfl⟩
      · exact ⟨.int 10, .int 2, rfl, rfl, rfl⟩
      · exact ⟨.int 20, .int 3, rfl, rfl, rfl⟩)
  refine ⟨out', hrun, ?_⟩
  rw [hext.elements, hpairs]
  decide

end Run

end StreamGauge
