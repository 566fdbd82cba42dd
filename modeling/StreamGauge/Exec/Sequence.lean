/-!
# Sequences

A `Sequence` is a list of which each tail is computed when it is asked for, so that whoever stops
early does not pay for the rest. `Sequence.toList` says what it lists; the order of computation
changes nothing about that.
-/

namespace StreamGauge

/-- A list that is computed on demand. -/
inductive Sequence (α : Type) where
  | nil
  | cons (head : α) (tail : Unit → Sequence α)

namespace Sequence

variable {α β : Type}

/-- All that a sequence lists. -/
def toList : Sequence α → List α
  | nil => []
  | cons a tail => a :: toList (tail ())

/-- The sequence of a list. -/
def ofList : List α → Sequence α
  | [] => nil
  | a :: rest => cons a fun _ => ofList rest

/-- The images of a list, each computed on demand. -/
def mapList (f : α → β) : List α → Sequence β
  | [] => nil
  | a :: rest => cons (f a) fun _ => mapList f rest

/-- A list in front of a sequence. -/
def append (front : List α) (back : Unit → Sequence α) : Sequence α :=
  match front with
  | [] => back ()
  | a :: rest => cons a fun _ => append rest back

@[simp]
theorem toList_ofList (l : List α) : (ofList l).toList = l := by
  induction l with
  | nil => rfl
  | cons a rest ih => simp [ofList, toList, ih]

@[simp]
theorem toList_mapList (f : α → β) (l : List α) : (mapList f l).toList = l.map f := by
  induction l with
  | nil => rfl
  | cons a rest ih => simp [mapList, toList, ih]

@[simp]
theorem toList_append (front : List α) (back : Unit → Sequence α) :
    (append front back).toList = front ++ (back ()).toList := by
  induction front with
  | nil => rfl
  | cons a rest ih => simp [append, toList, ih]

end Sequence

end StreamGauge
