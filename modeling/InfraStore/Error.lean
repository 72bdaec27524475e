import Mathlib.Data.Int.Notation

/-!
# Errors

The error values the modelled operations end with.  A payload is the text the code formats; where
the failure comes from a layer below the store (the catalog's engine, the array file), it is what
that layer reports.
-/

namespace InfraStore

/-- What a store operation fails with. -/
inductive TimeSeriesError where
  | notFound
  | ownerMismatch (id expectedId : ℤ) (expectedCategory : String) (actualId : ℤ)
      (actualCategory : String)
  | duplicateTimeSeries
  | duplicateAssociationId (id : ℤ)
  | duplicateAssociation (msg : String)
  | invalidParameter (msg : String)
  | integrityError (msg : String)
  | readOnlyStore
  | connectionError (msg : String)
  | sqlite (msg : String)
  | serialization (msg : String)
  | catalogMigrationRequired (found expected : ℤ)
  | catalogTooNew (found expected : ℤ)
  | mismatchedArtifact (h5 sqlite : String)
  | io (msg : String)
  deriving DecidableEq, Repr

/-- The result of an operation that only reads. -/
abbrev Result (α : Type) : Type := Except TimeSeriesError α

/-- Recast a text error, as `map_err` with the constructor of the error does. -/
def mapErr {ε α : Type} (f : ε → TimeSeriesError) : Except ε α → Result α
  | .ok a => .ok a
  | .error e => .error (f e)

@[simp] theorem mapErr_ok {ε α : Type} (f : ε → TimeSeriesError) (a : α) :
    mapErr f (.ok a) = .ok a := rfl

@[simp] theorem mapErr_error {ε α : Type} (f : ε → TimeSeriesError) (e : ε) :
    mapErr f (.error e : Except ε α) = .error (f e) := rfl

theorem mapErr_eq_ok {ε α : Type} {f : ε → TimeSeriesError} {r : Except ε α} {a : α} :
    mapErr f r = .ok a ↔ r = .ok a := by
  cases r <;> simp [mapErr]

/-- How a computation that indexes slices can end other than with an answer. -/
inductive Halt where
  | error (e : TimeSeriesError)
  | panicked
  deriving DecidableEq

/-- An error of a step ends the computation. -/
def Except.orHalt {α : Type} (r : Result α) : Except Halt α := r.mapError Halt.error

end InfraStore
