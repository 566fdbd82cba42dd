import StreamGauge.Compile.Routine

/-!
# The compiler service

A `Service` keeps one routine per symbol. A call to compile a query goes through four steps: look
whether the symbol is there, let the backend make a routine, enter it unless the symbol has one by
now, and look the symbol up. Calls may run side by side, so another call can come between any two
of the steps (`Call.step`); `Service.compile` is one call by itself.
-/

namespace StreamGauge

/-- The routines by symbol, and the serial of the next compilation. -/
structure Service where
  routines : List (String × Routine)
  next : Nat

namespace Service

/-- A service without routines. -/
def empty (next : Nat) : Service := ⟨[], next⟩

/-- How many symbols have a routine. -/
def size (s : Service) : Nat := s.routines.length

/-- Whether a symbol has a routine. -/
def contains (s : Service) (symbol : String) : Bool := s.routines.any (·.1 == symbol)

/-- The routine of a symbol. -/
def lookup (s : Service) (symbol : String) : Except CompileError Routine :=
  match s.routines.find? (·.1 == symbol) with
  | some entry => .ok entry.2
  | none => .error (.symbolNotFound symbol)

/-- Enters a routine; a symbol that has one keeps it. -/
def enter (s : Service) (symbol : String) (r : Routine) : Service :=
  if s.contains symbol then s else { s with routines := s.routines ++ [(symbol, r)] }

/-- The service as diagnostics show it. -/
def description (s : Service) : String :=
  s!"CompilerService \x7b symbols: {s.size}, .. \x7d"

end Service

/-- How far a call to compile a query has come. -/
inductive Call where
  | checking
  | building
  | entering (r : Routine)
  | looking
  | done (result : Except CompileError Routine)

/-- The next step of a call for `q`. -/
def Call.step [TextHash] (backend : Backend) (q : Query) : Call → Service → Call × Service
  | .checking, s => (if s.contains q.symbol then .looking else .building, s)
  | .building, s =>
    match backend s.next q with
    | .ok r => (.entering r, { s with next := s.next + 1 })
    | .error e => (.done (.error e), { s with next := s.next + 1 })
  | .entering r, s => (.looking, s.enter q.symbol r)
  | .looking, s => (.done (s.lookup q.symbol), s)
  | .done result, s => (.done result, s)

/-- Some steps of a call, without any other call in between. -/
def Call.steps [TextHash] (backend : Backend) (q : Query) : Nat → Call → Service → Call × Service
  | 0, c, s => (c, s)
  | n + 1, c, s =>
    let (c, s) := c.step backend q s
    Call.steps backend q n c s

/-- The routine of a query: the one in the table, or else a new one. -/
def Service.compile [TextHash] (backend : Backend) (q : Query) (s : Service) :
    Except CompileError Routine × Service :=
  match Call.steps backend q 4 .checking s with
  | (.done result, s) => (result, s)
  | (_, s) => (.error (.symbolNotFound q.symbol), s)

/-- A service of its own for every compilation. -/
def Backend.throughService [TextHash] (backend : Backend) : Backend := fun serial q =>
  ((Service.empty serial).compile backend q).1

end StreamGauge
