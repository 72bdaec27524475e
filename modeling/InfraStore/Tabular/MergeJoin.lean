import InfraStore.Lib.Cmd
import InfraStore.Lib.Runs
import InfraStore.Tabular.Layout

/-!
# The merge join of a partition's two halves

`mergeJoin` walks the values groups and the series rows of a partition together, in step, and hands the
sink one built series a row.

* `mergeJoin_ok`: it returns `n` exactly when both halves end without an error, go through one sequence
  of keys, every row builds against its own group and the sink takes every series; `n` counts the rows.
-/

namespace InfraStore.Tabular

open InfraStore.Lib

section MergeJoin

variable {σ γ : Type} (build : ValuesGroup → SeriesRow → Result γ)
  (sink : γ → Cmd σ TimeSeriesError Unit)

/-- File every row of one key against the group that carries it. -/
def fileRows (held : ValuesGroup) : List SeriesRow → ℕ → Cmd σ TimeSeriesError ℕ
  | [], filed => pure filed
  | row :: rows, filed => do
    let series ← Cmd.ofExcept (build held row)
    sink series
    fileRows held rows (filed + 1)

/-- Walk two key-ordered streams together, filing every series row against the values group carrying
its key. -/
def mergeJoin (filed : ℕ) : Pull TimeSeriesError ValuesGroup → Pull TimeSeriesError SeriesBatch →
    Cmd σ TimeSeriesError ℕ
  | .failed e, _ => throw e
  | .done, .failed e => throw e
  | .item _ _, .failed e => throw e
  | .done, .done => pure filed
  | .item g _, .done => throw (unclaimed g.key)
  | .done, .item b _ => throw (unbacked b.first.key)
  | .item g groups, .item b batches =>
    if g.key < b.first.key then throw (unclaimed g.key)
    else if b.first.key < g.key then throw (unbacked b.first.key)
    else do
      let filed ← fileRows build sink g b.rows filed
      mergeJoin filed groups batches

/-- Every row of a batch beside the group it is filed against. -/
def paired (groups : List ValuesGroup) (batches : List SeriesBatch) :
    List (ValuesGroup × SeriesRow) :=
  (groups.zip batches).flatMap fun p => p.2.rows.map (p.1, ·)

/-- Build one row against its group and hand the series over. -/
def handRow (p : ValuesGroup × SeriesRow) : Cmd σ TimeSeriesError Unit := do
  let series ← Cmd.ofExcept (build p.1 p.2)
  sink series

/-- Build every row against its group and hand the series over, one after another. -/
def handOver (pairs : List (ValuesGroup × SeriesRow)) : Cmd σ TimeSeriesError Unit :=
  pairs.forM (handRow build sink)

variable {build sink}

theorem handOver_cons (p : ValuesGroup × SeriesRow) (pairs : List (ValuesGroup × SeriesRow)) :
    handOver build sink (p :: pairs) = (do handRow build sink p; handOver build sink pairs) := rfl

/-- Filing the rows of a key is handing them over and counting them. -/
theorem fileRows_exec (held : ValuesGroup) (rows : List SeriesRow) (filed : ℕ) (s : σ) :
    (fileRows build sink held rows filed).exec s =
      (((handOver build sink (rows.map (held, ·))).exec s).1.map fun _ => filed + rows.length,
        ((handOver build sink (rows.map (held, ·))).exec s).2) := by
  induction rows generalizing filed s with
  | nil => rfl
  | cons row rows ih =>
    rw [List.map_cons, handOver_cons]
    unfold fileRows handRow
    simp only [Cmd.exec_bind, Cmd.exec_ofExcept]
    cases build held row with
    | error e => rfl
    | ok series =>
      simp only
      cases (sink series).exec s with
      | mk r s' =>
        cases r with
        | error e => rfl
        | ok u =>
          simp only [ih]
          rw [List.length_cons]
          cases (handOver build sink (rows.map (held, ·))).exec s' with
          | mk r s'' =>
            cases r with
            | error e => rfl
            | ok u =>
              simp only [Except.map, Prod.mk.injEq, Except.ok.injEq, and_true]
              omega

theorem handOver_append (ps qs : List (ValuesGroup × SeriesRow)) (s : σ) :
    (handOver build sink (ps ++ qs)).exec s =
      match (handOver build sink ps).exec s with
      | (.ok (), s') => (handOver build sink qs).exec s'
      | (.error e, s') => (.error e, s') := by
  induction ps generalizing s with
  | nil => rfl
  | cons p ps ih =>
    rw [List.cons_append, handOver_cons, handOver_cons, Cmd.exec_bind, Cmd.exec_bind]
    cases (handRow build sink p).exec s with
    | mk r s' =>
      cases r with
      | error e => rfl
      | ok u => exact ih s'

/-- **The merge join.**  It returns `n` exactly when both halves end without an error, go through the
same keys in the same order, and every row is built against its own group and taken by the sink. -/
theorem mergeJoin_ok {groups : Pull TimeSeriesError ValuesGroup}
    {batches : Pull TimeSeriesError SeriesBatch} {filed n : ℕ} {s s' : σ} :
    (mergeJoin build sink filed groups batches).exec s = (.ok n, s') ↔
      groups.Finished ∧ batches.Finished ∧
        groups.items.map (·.key) = batches.items.map (·.first.key) ∧
        n = filed + (batches.items.flatMap (·.rows)).length ∧
        (handOver build sink (paired groups.items batches.items)).exec s = (.ok (), s') := by
  induction groups generalizing batches filed s with
  | failed e => cases batches <;> simp [mergeJoin, Pull.Finished]
  | done =>
    cases batches with
    | failed e => simp [mergeJoin, Pull.Finished]
    | item b batches => simp [mergeJoin, Pull.items]
    | done => simp [mergeJoin, Pull.Finished, Pull.items, paired, handOver, eq_comm]
  | item g groups ih =>
    cases batches with
    | failed e => simp [mergeJoin, Pull.Finished]
    | done => simp [mergeJoin, Pull.items]
    | item b batches =>
      have hpaired : paired (g :: groups.items) (b :: batches.items) =
          b.rows.map (g, ·) ++ paired groups.items batches.items := rfl
      unfold mergeJoin
      simp only [Pull.Finished, Pull.items, List.map_cons, List.cons.injEq, List.flatMap_cons]
      rcases lt_trichotomy g.key b.first.key with hlt | heq | hgt
      · rw [if_pos hlt]
        simp [hlt.ne]
      · rw [if_neg heq.not_lt, if_neg heq.not_gt, hpaired, handOver_append, Cmd.exec_bind,
          fileRows_exec]
        cases (handOver build sink (b.rows.map (g, ·))).exec s with
        | mk r s₁ =>
          cases r with
          | error e => simp [Except.map]
          | ok u =>
            simp only [Except.map, ih, heq, true_and, List.length_append]
            rw [Nat.add_assoc]
      · rw [if_neg hgt.not_gt, if_pos hgt]
        simp [hgt.ne']

end MergeJoin

end InfraStore.Tabular
