import StreamGauge.Region.Error

/-!
# Generator errors

What a generator reports when its settings contradict themselves or do not fit the region that it
is to fill.
-/

namespace StreamGauge

/-- What a range of integers is for. -/
inductive RangeRole where
  | value
  | delta
deriving DecidableEq, Repr

def RangeRole.name : RangeRole → String
  | value => "value"
  | delta => "delta"

/-- What is wrong with the settings of a generator. -/
inductive GeneratorDefect where
  | period (period : Int)
  | valueRange (range : Int)
  | baseRange (range : Int)
  | deltaRange (range : Int)
  /-- The largest value leaves 64 bits. -/
  | overflow (base baseRange deltaRange : Int)
  | lengthDiffers (generator region : Nat)
  | populated
  /-- A range is wider than the kind that is to hold it. -/
  | doesNotFit (role : RangeRole) (lo hi : Int) (kind : Kind)
  /-- A block lasts longer than a 32-bit offset can say. -/
  | blockSpan (span : Int)
  | noRoom (elements capacity committed : Nat)
deriving DecidableEq, Repr

def GeneratorDefect.message : GeneratorDefect → String
  | period p => s!"period must be positive, got {p}"
  | valueRange r => s!"value range must be positive, got {r}"
  | baseRange r => s!"base range must be positive, got {r}"
  | deltaRange r => s!"delta range must be positive, got {r}"
  | overflow base bases deltas =>
    s!"values from base {base} with base range {bases} and delta range {deltas} overflow i64"
  | lengthDiffers generator region =>
    s!"generator length {generator} differs from region length {region}"
  | populated => "compressed region already populated"
  | doesNotFit role lo hi kind => s!"{role.name} range [{lo}, {hi}] does not fit {kind}"
  | blockSpan span => s!"block span {span} overflows delta timestamps"
  | noRoom elements capacity committed =>
    s!"{elements} elements do not fit region capacity {capacity} with {committed} committed"

/-- Why a generator cannot be made or cannot fill a region. -/
inductive GeneratorError where
  | config (cause : GeneratorDefect)
  | region (cause : RegionError)
  /-- The time of an element or of a block is outside 64 bits. -/
  | time (time : Int)
deriving DecidableEq, Repr

def GeneratorError.message : GeneratorError → String
  | config cause => "invalid generator config: " ++ cause.message
  | region cause => cause.message
  | time _ => "fault"

/-- Refuses a range of integers that a kind does not hold. Floating point kinds hold any. -/
def checkFits (role : RangeRole) (kind : Kind) (lo hi : Int) : Except GeneratorError Unit :=
  match kind.intRange? with
  | some (first, last) =>
    if lo < first ∨ last < hi then .error (.config (.doesNotFit role lo hi kind)) else .ok ()
  | none => .ok ()

/-- All that a check of a range can answer. -/
theorem checkFits_cases (role : RangeRole) (kind : Kind) (lo hi : Int) :
    ((∀ first last, kind.intRange? = some (first, last) → first ≤ lo ∧ hi ≤ last) ∧
      checkFits role kind lo hi = .ok ()) ∨
    (∃ first last, kind.intRange? = some (first, last) ∧ (lo < first ∨ last < hi)) ∧
      checkFits role kind lo hi = .error (.config (.doesNotFit role lo hi kind)) := by
  unfold checkFits
  cases hrange : kind.intRange? with
  | none => exact .inl ⟨nofun, rfl⟩
  | some range =>
    obtain ⟨first, last⟩ := range
    by_cases hout : lo < first ∨ last < hi
    · exact .inr ⟨⟨first, last, rfl, hout⟩, if_pos hout⟩
    · refine .inl ⟨fun first' last' heq => ?_, if_neg hout⟩
      cases heq
      omega

end StreamGauge
