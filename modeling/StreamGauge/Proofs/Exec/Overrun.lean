import StreamGauge.Proofs.Exec.Completion

/-!
# Runs that overrun

A window run computes the tick that ends it, too. If that one is not within 64 bits, the run has
done all its work and stops with a fault nevertheless.

`Query.Overruns` says of a query that its runs stop at a time outside 64 bits.
`Query.Overruns.window` is the rule for windows; a query around one that overruns does the same
(`Query.Overruns.feed`, `Query.Overruns.of_emissions`).
-/

namespace StreamGauge

/-- Into an output with room for `n` elements, a run stops because a time is not within 64 bits. -/
def Query.Overruns (inputs : List View) (start stop : Int) (n : Nat) (time : Int) (q : Query) :
    Prop :=
  ∀ out : PlainRegion, out.Valid → out.stop ≤ start → out.count + n ≤ out.capacity →
    (q.run inputs start stop out).2 = .error (.fault (.time time))

section

variable {inputs : List View} {start stop time : Int} {n : Nat} {q : Query} {source : Source}

namespace Query.Overruns

theorem mono (h : q.Overruns inputs start stop n time) {m : Nat} (hle : n ≤ m) :
    q.Overruns inputs start stop m time := by
  intro out hout hstop hroom
  exact h out hout hstop (by omega)

/-- A query that gets no emissions from its sources writes nothing. -/
theorem of_emissions (h : q.emissions inputs start stop = .error (.fault (.time time))) :
    q.Overruns inputs start stop n time := by
  intro out _ _ _
  rw [Query.run, h]

/-- A view of a query that overruns does not come about. -/
theorem feed (h : q.Overruns inputs start stop n time) (harity : q.arity ≤ inputs.length) {m : Nat}
    (hbound : q.bound inputs start stop = .ok m) (hle : n ≤ m)
    (hfit : SpanLog.fits (slotCapacity m) = true) :
    Source.feed inputs start stop (.query q) = .error (.fault (.time time)) := by
  obtain ⟨kind, hkind⟩ := Option.isSome_iff_exists.mp
    (@Query.outputKind?_isSome q (inputs.map (·.kind)) (by rw [List.length_map]; exact harity))
  have hscratch := (@scratch_eq_ok_iff start kind m _).mpr ⟨hfit, rfl⟩
  have hroom : 0 + n ≤ slotCapacity m := by
    have := le_leastPowerOfTwo m
    unfold slotCapacity
    omega
  have hrun := h (.allocate kind m start) (PlainRegion.valid_allocate kind m start)
    (Int.le_refl start) hroom
  rw [Source.feed_query, hkind]
  simp only [hbound, hscratch, hrun, bind, Except.bind]

/-- A window with all its ticks within 64 bits, but for the one that ends it. -/
theorem window {P : Int → Prop} {v : View} {length period : Int} {reducer : Reducer} {kind : Kind}
    (h : source.Gives inputs start stop P v) (hle : start ≤ stop) (hlength : 0 < length)
    (hperiod : 0 < period)
    (hticks : ∀ k ∈ tickNumbers start stop period, isInt64 (start + k * period) = true ∧
      isInt64 (start + k * period - length) = true)
    (hend : isInt64 (endTick start stop period) = false) :
    (Query.window source length period reducer kind).Overruns inputs start stop
      ((stop - start) / period).toNat (endTick start stop period) := by
  intro out hout hstop hroom
  obtain ⟨hvalid, hwf, hno⟩ := h.sound
  have hemissions : (Query.window source length period reducer kind).emissions inputs start stop =
      .ok (StreamGauge.window length period reducer v.feed start stop) := by
    simp only [Query.emissions, h.feed]
    rfl
  have hcount := @View.countP_window_le v reducer start stop length period hvalid hwf hle hlength
    hperiod
  have hleTicks : (v.emittingTicks reducer start stop length period).length ≤
      ((stop - start) / period).toNat :=
    Nat.le_trans (List.length_filter_le _ _) (Nat.le_of_eq List.length_range')
  obtain ⟨out', ended, hplay, -, -, -, hended⟩ := PlainRegion.play_ascending_valid hout
    (@View.ascending_window v reducer start stop length period hvalid hwf hle hperiod _ hstop)
    (by omega)
  rw [Sequence.ofList_toList] at hplay
  have hlist := @toList_window v.feed start stop length period reducer (hwf.inOrder hvalid) hperiod
    hle
  rw [endOfRun, if_neg (by rw [hend]; exact Bool.false_ne_true)] at hlist
  rw [hlist] at hended
  rw [Query.run, hemissions]
  simp only [hplay]
  rcases hended with ⟨-, hnone⟩ | ⟨x, hx, rfl⟩
  · cases hnone _ (List.mem_append_right _ List.mem_cons_self)
  · rcases List.mem_append.mp hx with hx | hx
    · -- Nothing is missing at the ticks themselves.
      obtain ⟨k, hk, hkx⟩ := List.mem_map.mp hx
      obtain ⟨htick, hbegin⟩ := hticks k hk
      have hcomplete : v.CompleteAt reducer start stop length period (start + k * period) :=
        hno.completeAt hvalid hwf hle hlength htick hbegin
      obtain ⟨y, hy, -⟩ := View.emissionAt_of_completeAt hvalid hwf hle hlength hcomplete
      rw [hy] at hkx
      split at hkx <;> cases hkx
    · cases List.mem_singleton.mp hx
      rfl

end Query.Overruns

end

end StreamGauge
