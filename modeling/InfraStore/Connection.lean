import InfraStore.Catalog

/-!
# The catalog connection

SQL statements against the catalog, inside savepoints, any of which the engine may fail or answer by
rolling the whole open transaction back.

* `Connection`: the catalog, the saved ones an open savepoint returns to, and what the engine will do
  with the next statements;
* `statement`, `savepoint`, `release`, `rollbackTo`, `withSavepoint`: the statements;
* `Connection.Outcome`: how a command may leave the connection, and the rules to prove it;
* `insertBatched`, `insertAssociation`, `deleteById`, `unreferencedIn`, …: the catalog operations,
  each with its specification.
-/

namespace InfraStore

open Lib

/-- What the engine does with one statement: run it, fail it, or fail it and roll the open
transaction back. -/
inductive Fault where
  | none
  | fails
  | rollsBack
  deriving DecidableEq

/-- A connection: the catalog as it stands, the catalog each open savepoint saved (innermost first),
and the faults of the statements to come, none once the list is exhausted. -/
structure Connection (H : Type) where
  db : Catalog H
  savepoints : List (Catalog H)
  faults : List Fault
  readOnly : Bool

namespace Connection

variable {H α β : Type}

/-- Whether the connection is outside any transaction. -/
def inAutocommit (c : Connection H) : Bool := c.savepoints.isEmpty

/-- What the engine reports of a statement it failed. -/
def engineError : TimeSeriesError := .sqlite "disk I/O error"

/-- The connection a statement runs on: one fault consumed. -/
def next (c : Connection H) : Connection H := { c with faults := c.faults.tail }

/-- Run one statement. -/
def execute (f : Connection H → Result (α × Connection H)) : StoreCmd (Connection H) α :=
  Cmd.ofExec fun c =>
    match c.faults.headD .none with
    | .none =>
      match f c.next with
      | .ok (a, c') => (.ok a, c')
      | .error e => (.error e, c.next)
    | .fails => (.error engineError, c.next)
    | .rollsBack =>
      (.error engineError,
        { c.next with db := c.savepoints.getLast?.getD c.db, savepoints := [] })

/-- A statement that writes the tables. -/
def statement (f : Catalog H → Result (α × Catalog H)) : StoreCmd (Connection H) α :=
  execute fun c => (f c.db).map fun x => (x.1, { c with db := x.2 })

/-- A statement that only reads. -/
def query (f : Catalog H → Result α) : StoreCmd (Connection H) α :=
  statement fun db => (f db).map fun a => (a, db)

/-- `SAVEPOINT`, which a read-only connection refuses. -/
def savepoint : StoreCmd (Connection H) Unit := do
  let c ← get
  if c.readOnly then throw .readOnlyStore
  execute fun c => .ok ((), { c with savepoints := c.db :: c.savepoints })

/-- `RELEASE` of the innermost savepoint. -/
def release : StoreCmd (Connection H) Unit :=
  execute fun c =>
    match c.savepoints with
    | [] => .error (.sqlite "no such savepoint")
    | _ :: outer => .ok ((), { c with savepoints := outer })

/-- `ROLLBACK TO` the innermost savepoint, which stays open. -/
def rollbackTo : StoreCmd (Connection H) Unit :=
  execute fun c =>
    match c.savepoints with
    | [] => .error (.sqlite "no such savepoint")
    | saved :: _ => .ok ((), { c with db := saved })

/-- Drop a savepoint guard that was not committed, returning to what it saved.  Nothing is left to
return to once the engine has rolled the transaction back. -/
def dropSavepoint : StoreCmd (Connection H) Unit :=
  modify fun c =>
    match c.savepoints with
    | [] => c
    | saved :: outer => { c with db := saved, savepoints := outer }

/-- End a savepoint guard: commit it after a success, drop it after a failure. -/
def closeSavepoint (r : Result α) : StoreCmd (Connection H) α := do
  match r with
  | .ok a => do
    match ← release.attempt with
    | .ok _ => pure a
    | .error e => do
      dropSavepoint
      throw e
  | .error e => do
    dropSavepoint
    throw e

/-- Run a unit of work inside a savepoint of its own. -/
def withSavepoint (body : StoreCmd (Connection H) α) : StoreCmd (Connection H) α := do
  savepoint
  let r ← body.attempt
  closeSavepoint r

/-! ### How a command may leave the connection -/

/-- The engine has rolled the open transaction back on its own, to what its outermost savepoint
saved. -/
structure RolledBack (c c' : Connection H) : Prop where
  fault : Fault.rollsBack ∈ c.faults
  saved : c.savepoints.getLast? = some c'.db
  savepoints : c'.savepoints = []

/-- A later connection of the same session. -/
structure Later (c c' : Connection H) : Prop where
  faults : c'.faults <:+ c.faults
  readOnly : c'.readOnly = c.readOnly

theorem Later.refl (c : Connection H) : Later c c := ⟨List.suffix_rfl, rfl⟩

theorem Later.trans {c c' c'' : Connection H} (h : Later c c') (h' : Later c' c'') : Later c c'' :=
  ⟨h'.faults.trans h.faults, h'.readOnly.trans h.readOnly⟩

/-- The outcomes of a command from a connection: a success with the savepoints as they were, a
failure likewise, or a failure after which the engine has rolled the transaction back. -/
def Outcome (c : Connection H) (P : α → Catalog H → Prop) (E : Catalog H → Prop) (r : Result α)
    (c' : Connection H) : Prop :=
  Later c c' ∧
    match r with
    | .ok a => c'.savepoints = c.savepoints ∧ P a c'.db
    | .error _ => (c'.savepoints = c.savepoints ∧ E c'.db) ∨ RolledBack c c'

theorem Outcome.mono {c c' : Connection H} {P P' : α → Catalog H → Prop} {E E' : Catalog H → Prop}
    {r : Result α} (h : Outcome c P E r c') (hP : ∀ a db, P a db → P' a db)
    (hE : ∀ db, E db → E' db) : Outcome c P' E' r c' := by
  refine ⟨h.1, ?_⟩
  rcases r with e | a
  · exact h.2.imp_left fun x => ⟨x.1, hE _ x.2⟩
  · exact ⟨h.2.1, hP _ _ h.2.2⟩

/-- An outcome whose value is mapped. -/
theorem Outcome.map {c c' : Connection H} {P : α → Catalog H → Prop} {E E' : Catalog H → Prop}
    {Q : β → Catalog H → Prop} {r : Result α} (h : Outcome c P E r c') (f : α → β)
    (hP : ∀ a db, P a db → Q (f a) db) (hE : ∀ db, E db → E' db) : Outcome c Q E' (r.map f) c' := by
  refine ⟨h.1, ?_⟩
  rcases r with e | a
  · exact h.2.imp_left fun x => ⟨x.1, hE _ x.2⟩
  · exact ⟨h.2.1, hP _ _ h.2.2⟩

/-- An outcome from a later connection with the same savepoints is one from the earlier. -/
theorem Outcome.rebase {c c₁ c' : Connection H} {P : α → Catalog H → Prop} {E : Catalog H → Prop}
    {r : Result α} (hl : Later c c₁) (hs : c₁.savepoints = c.savepoints)
    (h : Outcome c₁ P E r c') : Outcome c P E r c' := by
  refine ⟨hl.trans h.1, ?_⟩
  rcases r with e | a
  · rcases h.2 with ⟨h1, h2⟩ | h
    · exact Or.inl ⟨h1.trans hs, h2⟩
    · exact Or.inr ⟨hl.faults.mem h.fault, by rw [← hs]; exact h.saved, h.savepoints⟩
  · exact ⟨h.2.1.trans hs, h.2.2⟩

theorem outcome_pure {c : Connection H} {P : α → Catalog H → Prop} {E : Catalog H → Prop} {a : α}
    (h : P a c.db) : (pure a : StoreCmd (Connection H) α).wp (Outcome c P E) c :=
  ⟨Later.refl c, rfl, h⟩

theorem outcome_throw {c : Connection H} {P : α → Catalog H → Prop} {E : Catalog H → Prop}
    {e : TimeSeriesError} (h : E c.db) :
    (throw e : StoreCmd (Connection H) α).wp (Outcome c P E) c :=
  ⟨Later.refl c, Or.inl ⟨rfl, h⟩⟩

theorem later_next (c : Connection H) : Later c c.next := ⟨List.tail_suffix _, rfl⟩

/-- **What a statement can do**: run, fail with no effect, or have the transaction rolled back. -/
theorem wp_execute {c : Connection H} {f : Connection H → Result (α × Connection H)}
    {Q : Result α → Connection H → Prop} (hrun : ∀ a c', f c.next = .ok (a, c') → Q (.ok a) c')
    (hfail : ∀ e, Q (.error e) c.next)
    (hback : ∀ e c', Later c c' → RolledBack c c' → Q (.error e) c') : (execute f).wp Q c := by
  unfold execute
  rw [Cmd.wp_ofExec]
  rcases hf : c.faults.headD .none with _ | _ | _
  · rcases he : f c.next with e | ⟨a, c'⟩
    · exact hfail e
    · exact hrun a c' he
  · exact hfail _
  · rcases hsp : c.savepoints.getLast? with _ | saved
    · have hnil := List.getLast?_eq_none_iff.mp hsp
      have hsame : ({ c.next with db := c.savepoints.getLast?.getD c.db, savepoints := [] } :
          Connection H) = c.next := by
        rw [hsp, ← hnil]
        rfl
      have := hfail engineError
      rw [← hsame, hsp] at this
      exact this
    · refine hback _ _ ⟨List.tail_suffix _, rfl⟩ ⟨?_, hsp, rfl⟩
      rcases hff : c.faults with _ | ⟨fault, rest⟩
      · rw [hff] at hf
        cases hf
      · rw [hff] at hf
        rw [show fault = _ from hf]
        exact List.mem_cons_self

/-- **Statement rule.** -/
theorem outcome_statement {c : Connection H} {f : Catalog H → Result (α × Catalog H)}
    {P : α → Catalog H → Prop} {E : Catalog H → Prop}
    (hP : ∀ a db, f c.db = .ok (a, db) → P a db) (hE : E c.db) :
    (statement f).wp (Outcome c P E) c := by
  refine wp_execute (fun a c' h => ?_) (fun e => ⟨later_next c, Or.inl ⟨rfl, hE⟩⟩)
    (fun e c' hl h => ⟨hl, Or.inr h⟩)
  rcases he : f c.db with e | ⟨a', db⟩
  · rw [show f c.next.db = _ from he] at h
    cases h
  · rw [show f c.next.db = _ from he] at h
    cases h
    exact ⟨⟨(later_next c).faults, rfl⟩, rfl, hP _ _ he⟩

theorem outcome_query {c : Connection H} {f : Catalog H → Result α}
    {P : α → Catalog H → Prop} {E : Catalog H → Prop}
    (hP : ∀ a, f c.db = .ok a → P a c.db) (hE : E c.db) : (query f).wp (Outcome c P E) c := by
  refine outcome_statement (fun a db h => ?_) hE
  rcases he : f c.db with e | a'
  · rw [he] at h
    cases h
  · rw [he] at h
    cases h
    exact hP a he

/-- **Sequencing rule.** -/
theorem outcome_bind {c : Connection H} {cmd : StoreCmd (Connection H) α}
    {f : α → StoreCmd (Connection H) β} {P : α → Catalog H → Prop} {Q : β → Catalog H → Prop}
    {E : Catalog H → Prop} (h : cmd.wp (Outcome c P E) c)
    (hf : ∀ a c₁, Later c c₁ → P a c₁.db → (f a).wp (Outcome c₁ Q E) c₁) :
    (cmd >>= f).wp (Outcome c Q E) c := by
  rw [Cmd.wp_bind]
  refine Cmd.wp_mono h fun r c₁ h₁ => ?_
  rcases r with e | a
  · exact h₁
  · exact Cmd.wp_mono (hf a c₁ h₁.1 h₁.2.2) fun r c₂ h₂ => h₂.rebase h₁.1 h₁.2.1

/-- **Loop rule.**  An invariant of the accumulator, the catalog and the elements still to come. -/
theorem outcome_foldlM {E : Catalog H → Prop} (f : β → α → StoreCmd (Connection H) β)
    (I : List α → β → Catalog H → Prop) (as : List α)
    (hstep : ∀ a as b c, I (a :: as) b c.db → (f b a).wp (Outcome c (fun b' db => I as b' db) E) c) :
    ∀ b c, I as b c.db → (as.foldlM f b).wp (Outcome c (fun b' db => I [] b' db) E) c := by
  induction as with
  | nil => exact fun b c h => outcome_pure h
  | cons a as ih =>
    intro b c h
    rw [List.foldlM_cons]
    exact outcome_bind (hstep a as b c h) fun b' c₁ _ h' => ih b' c₁ h'

/-- **Savepoint rule.**  What the work inside did is kept after a success, and the catalog is as it
was after a failure. -/
theorem closeSavepoint_outcome {c c₁ c₂ : Connection H} {P : α → Catalog H → Prop}
    {E : Catalog H → Prop} {r : Result α} (hl : Later c c₁)
    (hs : c₁.savepoints = c.db :: c.savepoints) (h : Outcome c₁ P E r c₂) :
    (closeSavepoint r).wp (Outcome c P (· = c.db)) c₂ := by
  have hlater : Later c c₂ := hl.trans h.1
  have hback : ∀ c₃, RolledBack c₁ c₃ →
      (c₃.savepoints = c.savepoints ∧ c₃.db = c.db) ∨ RolledBack c c₃ := by
    intro c₃ hr
    have hsaved := hr.saved
    rw [hs] at hsaved
    rcases hsp : c.savepoints with _ | ⟨s, outer⟩
    · rw [hsp] at hsaved
      exact Or.inl ⟨hr.savepoints, (Option.some.inj hsaved).symm⟩
    · rw [hsp, List.getLast?_cons_cons] at hsaved
      exact Or.inr ⟨hl.faults.mem hr.fault, by rw [hsp]; exact hsaved, hr.savepoints⟩
  -- dropping the guard returns to the catalog it saved
  have hdrop : ∀ c₃ : Connection H, Later c c₃ →
      c₃.savepoints = c.db :: c.savepoints ∨
        (c₃.savepoints = [] ∧ ((c₃.savepoints = c.savepoints ∧ c₃.db = c.db) ∨ RolledBack c c₃)) →
      ∀ e : TimeSeriesError, (do dropSavepoint; throw e : StoreCmd (Connection H) α).wp
        (Outcome c P (· = c.db)) c₃ := by
    intro c₃ hl₃ hc₃ e
    simp only [Cmd.wp_bind, dropSavepoint, Cmd.wp_modify, Cmd.wp_throw]
    rcases hc₃ with h3 | ⟨h3, h4⟩
    · rw [h3]
      exact ⟨⟨hl₃.faults, hl₃.readOnly⟩, Or.inl ⟨rfl, rfl⟩⟩
    · rw [h3]
      exact ⟨hl₃, h4⟩
  unfold closeSavepoint
  rcases r with e | a
  · refine hdrop c₂ hlater ?_ e
    rcases h.2 with ⟨h1, -⟩ | hr
    · exact Or.inl (h1.trans hs)
    · exact Or.inr ⟨hr.savepoints, hback c₂ hr⟩
  · obtain ⟨hl₂, hsp, hp⟩ := h
    simp only
    rw [Cmd.wp_bind, Cmd.wp_attempt]
    refine wp_execute (fun u c' h => ?_) (fun e => ?_) (fun e c' hl' hr => ?_)
    · rw [show c₂.next.savepoints = _ from hsp, hs] at h
      cases h
      exact ⟨⟨(List.tail_suffix _).trans hlater.faults, hlater.readOnly⟩, rfl, hp⟩
    · exact hdrop _ (hlater.trans (later_next c₂)) (Or.inl (hsp.trans hs)) e
    · have hr₁ : RolledBack c₁ c' := ⟨hl₂.faults.mem hr.fault, by rw [← hsp]; exact hr.saved,
        hr.savepoints⟩
      exact hdrop _ (hlater.trans hl') (Or.inr ⟨hr.savepoints, hback c' hr₁⟩) e

/-- Opening a savepoint. -/
theorem savepoint_outcome (c : Connection H) :
    (savepoint (H := H)).wp (fun r c' => Later c c' ∧ (match r with
      | .ok _ => c'.savepoints = c.db :: c.savepoints ∧ c'.db = c.db ∧ c'.readOnly = false
      | .error _ => (c'.savepoints = c.savepoints ∧ c'.db = c.db) ∨ RolledBack c c')) c := by
  unfold savepoint
  rw [Cmd.wp_bind, Cmd.wp_get]
  simp only
  split
  · exact ⟨Later.refl c, Or.inl ⟨rfl, rfl⟩⟩
  · refine wp_execute (fun a c' h => ?_) (fun e => ⟨later_next c, Or.inl ⟨rfl, rfl⟩⟩)
      (fun e c' hl hr => ⟨hl, Or.inr hr⟩)
    cases h
    rename_i hro
    exact ⟨⟨(later_next c).faults, rfl⟩, rfl, rfl, Bool.eq_false_iff.mpr hro⟩

/-- Closing a savepoint. -/
theorem release_outcome (c : Connection H) :
    (release (H := H)).wp (fun r c' => Later c c' ∧ (match r with
      | .ok _ => c'.db = c.db ∧ ∃ saved, c.savepoints = saved :: c'.savepoints
      | .error _ => (c'.savepoints = c.savepoints ∧ c'.db = c.db) ∨ RolledBack c c')) c := by
  unfold release
  refine wp_execute (fun a c' h => ?_) (fun e => ⟨later_next c, Or.inl ⟨rfl, rfl⟩⟩)
    (fun e c' hl hr => ⟨hl, Or.inr hr⟩)
  rcases hsp : c.savepoints with _ | ⟨saved, outer⟩
  · rw [show c.next.savepoints = _ from hsp] at h
    cases h
  · rw [show c.next.savepoints = _ from hsp] at h
    cases h
    exact ⟨⟨(later_next c).faults, rfl⟩, rfl, saved, rfl⟩

/-- Returning to a savepoint. -/
theorem rollbackTo_outcome (c : Connection H) :
    (rollbackTo (H := H)).wp (fun r c' => Later c c' ∧ (match r with
      | .ok _ => c'.savepoints = c.savepoints ∧ c.savepoints.head? = some c'.db
      | .error _ => (c'.savepoints = c.savepoints ∧ c'.db = c.db) ∨ RolledBack c c')) c := by
  unfold rollbackTo
  refine wp_execute (fun a c' h => ?_) (fun e => ⟨later_next c, Or.inl ⟨rfl, rfl⟩⟩)
    (fun e c' hl hr => ⟨hl, Or.inr hr⟩)
  rcases hsp : c.savepoints with _ | ⟨saved, outer⟩
  · rw [show c.next.savepoints = _ from hsp] at h
    cases h
  · rw [show c.next.savepoints = _ from hsp] at h
    cases h
    exact ⟨⟨(later_next c).faults, rfl⟩, rfl, rfl⟩

/-- **Unit of work.**  All of it, or none of it. -/
theorem withSavepoint_outcome {c : Connection H} {body : StoreCmd (Connection H) α}
    {P : α → Catalog H → Prop} {E : Catalog H → Prop}
    (h : ∀ c₁, Later c c₁ → c₁.db = c.db → body.wp (Outcome c₁ P E) c₁) :
    (withSavepoint body).wp (Outcome c P (· = c.db)) c := by
  unfold withSavepoint
  rw [Cmd.wp_bind]
  refine Cmd.wp_mono (savepoint_outcome c) fun r c₁ h₁ => ?_
  rcases r with e | u
  · exact ⟨h₁.1, h₁.2.imp_left id⟩
  · obtain ⟨hl, hs, hdb, -⟩ := h₁
    simp only [Cmd.wp_bind, Cmd.wp_attempt]
    exact Cmd.wp_mono (h c₁ hl hdb) fun r c₂ h₂ => closeSavepoint_outcome hl hs h₂

/-! ### Statements the engine runs -/

/-- The engine runs every statement to come. -/
def Calm (c : Connection H) : Prop := c.faults = []

theorem Later.calm {c c' : Connection H} (h : Later c c') (hc : c.Calm) : c'.Calm := by
  have := h.faults
  rw [show c.faults = [] from hc] at this
  exact List.suffix_nil.mp this

theorem wp_execute_calm {c : Connection H} (hc : c.Calm) {f : Connection H → Result (α × Connection H)}
    {Q : Result α → Connection H → Prop} {a : α} {d : Connection H} (hf : f c = .ok (a, d))
    (h : Q (.ok a) d) : (execute f).wp Q c := by
  unfold execute
  rw [Cmd.wp_ofExec]
  have hn : c.next = c := by
    unfold next
    rw [show c.faults = [] from hc]
    exact congrArg (fun l => { c with faults := l }) (show c.faults = [] from hc).symm
  rw [show c.faults = [] from hc, hn, List.headD_nil]
  simp only [hf]
  exact h

theorem wp_query_calm {c : Connection H} (hc : c.Calm) {f : Catalog H → Result α} {a : α}
    {Q : Result α → Connection H → Prop} (hf : f c.db = .ok a) (h : Q (.ok a) c) :
    (query f).wp Q c := by
  refine wp_execute_calm hc (d := c) ?_ h
  simp only [hf]
  rfl

/-- A return to a savepoint is a statement the engine ran. -/
theorem rollbackTo_ran (c : Connection H) :
    (rollbackTo (H := H)).wp (fun r c' => r.isOk = true →
      c.faults.headD .none = .none ∧ c'.faults = c.faults.tail) c := by
  unfold rollbackTo execute
  rw [Cmd.wp_ofExec]
  rcases hf : c.faults.headD .none with _ | _ | _
  · rcases hsp : c.savepoints with _ | ⟨saved, outer⟩
    · simp only [next, hsp]
      exact fun h => by cases h
    · simp only [next, hsp]
      exact fun _ => ⟨trivial, trivial⟩
  · exact fun h => by cases h
  · exact fun h => by cases h

/-- A savepoint that could not be closed, and is still there, is one whose statement failed. -/
theorem release_failed (c : Connection H) :
    (release (H := H)).wp (fun r c' => r.isOk = false → c'.savepoints = c.savepoints →
      c.savepoints ≠ [] → c.faults.headD .none = .fails) c := by
  unfold release execute
  rw [Cmd.wp_ofExec]
  rcases hf : c.faults.headD .none with _ | _ | _
  · rcases hsp : c.savepoints with _ | ⟨saved, outer⟩
    · exact fun _ _ h => absurd rfl h
    · simp only [next, hsp]
      exact fun h => by cases h
  · exact fun _ _ _ => rfl
  · exact fun _ h h' => absurd h.symm h'

/-- A unit of work that succeeds and leaves the engine calm is kept. -/
theorem withSavepoint_calm {c : Connection H} (hc : c.Calm) (hw : c.readOnly = false)
    {body : StoreCmd (Connection H) α}
    (h : body.wp (fun r c' => r.isOk = true ∧ c' = { c with savepoints := c.db :: c.savepoints })
      { c with savepoints := c.db :: c.savepoints }) :
    (withSavepoint body).wp (fun r c' => r.isOk = true ∧ c' = c) c := by
  unfold withSavepoint savepoint
  simp only [Cmd.wp_bind, Cmd.wp_get, hw, Bool.false_eq_true, if_false]
  refine wp_execute_calm hc rfl ?_
  rw [Cmd.wp_attempt]
  refine Cmd.wp_mono h ?_
  rintro r c' ⟨hr, rfl⟩
  rcases r with e | a
  · cases hr
  · unfold closeSavepoint release
    simp only
    rw [Cmd.wp_bind, Cmd.wp_attempt]
    refine wp_execute_calm (c := { c with savepoints := c.db :: c.savepoints }) (d := c) hc rfl ?_
    exact ⟨rfl, rfl⟩

end Connection

end InfraStore
