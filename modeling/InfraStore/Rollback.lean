import InfraStore.Invariant

/-!
# What rolling a level back restores

* `Store.Frame`: what a run may do to the store while a nesting level stays open;
* `Frame.effect`: every turn that leaves the level open keeps it;
* `rollback_restores`: rolling the level back returns the catalog of its begin, over the objects the
  store held then.
-/

namespace InfraStore

open Lib Connection

namespace Store

section

set_option linter.unusedSectionVars false

variable {H B : Type} [DecidableEq H] [ArrayBackend H B] [Sha256 H] [FloatText] [ToString H]

/-- The store a turn leaves. -/
def turned (t : Turn H) (s : Store H B) : Store H B := ((turn t).exec s).2

/-- Whether a turn succeeds. -/
def succeeds (t : Turn H) (s : Store H B) : Bool := ((turn t).exec s).1.isOk

/-- The store a run leaves. -/
def ran (turns : List (Turn H)) (s : Store H B) : Store H B := Cmd.runs turn turns s

/-- The number of nesting levels open. -/
def depth (s : Store H B) : ℕ := s.txn.marks.length

variable [LawfulArrayBackend H B]

/-! ### The frame of an open level -/

/-- The store `s` is still inside a level begun at `s₀`: the levels around it are as they were, the
level's catalog is saved unless the engine has gone back to the outermost one, and every object held
at the begin is held unchanged and recorded as written by none of the levels since. -/
structure Frame (s₀ s : Store H B) (inner : List Mark) : Prop where
  marks : s.txn.marks = inner ++ s₀.txn.written.mark :: s₀.txn.marks
  savepoints : (∃ later, s.conn.savepoints = later ++ s₀.db :: s₀.conn.savepoints) ∨
    s.conn.savepoints = [] ∧ (s₀.db :: s₀.conn.savepoints).getLast? = some s.db
  array {h : H} {a : TypedArray} : s₀.arrays.content h = some a → s.arrays.content h = some a ∧
    ∀ m ∈ inner ++ [s₀.txn.written.mark], h ∉ (s.txn.written.since m).arrays
  axis {t : H} {ms : List ℤ} : s₀.arrays.vector t = some ms → s.arrays.vector t = some ms ∧
    ∀ m ∈ inner ++ [s₀.txn.written.mark], t ∉ (s.txn.written.since m).timestamps

theorem Frame.arm {s₀ s : Store H B} {inner : List Mark} (h : Frame s₀ s inner)
    (faults : List Fault) : Frame s₀ (s.arm faults) inner := ⟨h.marks, h.savepoints, h.array, h.axis⟩

/-- A level just begun. -/
theorem Frame.begun {s₀ s : Store H B} (h : Begun s₀ s) : Frame s₀ s [] := by
  have hwritten : s.txn.written = s₀.txn.written := by rw [h.txn]
  refine ⟨by rw [h.txn]; rfl, Or.inl ⟨[], h.savepoints⟩, fun e => ?_, fun e => ?_⟩
  · rw [h.arrays, hwritten]
    refine ⟨e, fun m hm => ?_⟩
    rw [List.mem_singleton.mp hm, FileObjects.since_mark]
    exact List.not_mem_nil
  · rw [h.arrays, hwritten]
    refine ⟨e, fun m hm => ?_⟩
    rw [List.mem_singleton.mp hm, FileObjects.since_mark]
    exact List.not_mem_nil

/-- What is recorded since a mark, after an append, was recorded before or is new. -/
theorem since_append_sub (o w : FileObjects H) (m : Mark) :
    (∀ h ∈ ((o.append w).since m).arrays, h ∈ (o.since m).arrays ∨ h ∈ w.arrays) ∧
      ∀ t ∈ ((o.append w).since m).timestamps, t ∈ (o.since m).timestamps ∨ t ∈ w.timestamps := by
  unfold FileObjects.since FileObjects.append
  refine ⟨fun h hh => ?_, fun t ht => ?_⟩
  · simp only [List.drop_append] at hh
    exact (List.mem_append.mp hh).imp_right List.mem_of_mem_drop
  · simp only [List.drop_append] at ht
    exact (List.mem_append.mp ht).imp_right List.mem_of_mem_drop

/-- What an inner level's end leaves recorded since an outer mark was recorded before. -/
theorem since_upTo_sub (o : FileObjects H) (m n : Mark) :
    (∀ h ∈ ((o.upTo m).since n).arrays, h ∈ (o.since n).arrays) ∧
      ∀ t ∈ ((o.upTo m).since n).timestamps, t ∈ (o.since n).timestamps := by
  unfold FileObjects.since FileObjects.upTo
  refine ⟨fun h hh => ?_, fun t ht => ?_⟩
  · simp only [List.drop_take] at hh
    exact List.mem_of_mem_take hh
  · simp only [List.drop_take] at ht
    exact List.mem_of_mem_take ht

/-- A write inside the level. -/
theorem Frame.wrote {s₀ s s' : Store H B} {inner : List Mark} {w g : FileObjects H}
    (hf : Frame s₀ s inner) (h : Wrote s s' w g) : Frame s₀ s' inner := by
  have hin : ¬ s.inTransaction = false := by
    rw [Bool.not_eq_false, inTransaction_iff, hf.marks]
    exact fun c => by simp at c
  refine ⟨h.marks.trans hf.marks, ?_, fun {x a} e => ?_, fun {t ms} e => ?_⟩
  · rcases hf.savepoints with ⟨later, e⟩ | ⟨e1, e2⟩
    · rcases h.saved with e' | e'
      · exact Or.inl ⟨later, e'.trans e⟩
      · have hlast := e'.saved
        rw [e, List.getLast?_append_cons] at hlast
        exact Or.inr ⟨e'.savepoints, hlast⟩
    · have hforced : s.transactionWasForcedBack = true := by
        unfold transactionWasForcedBack inAutocommit
        rw [Bool.and_eq_true, List.isEmpty_iff]
        exact ⟨by rw [← Bool.not_eq_false]; exact hin, e1⟩
      refine Or.inr ⟨?_, by rw [h.blocked hforced]; exact e2⟩
      rcases h.saved with e' | e'
      · exact e'.trans e1
      · exact e'.savepoints
  · obtain ⟨e1, e2⟩ := hf.array e
    refine ⟨(h.kept e1).resolve_right fun c => hin c.1, fun m hm hx => ?_⟩
    rw [h.written] at hx
    rcases (since_append_sub s.txn.written w m).1 x hx with c | c
    · exact e2 m hm c
    · rw [h.fresh c] at e1
      cases e1
  · obtain ⟨e1, e2⟩ := hf.axis e
    refine ⟨(h.keptAxis e1).resolve_right fun c => hin c.1, fun m hm hx => ?_⟩
    rw [h.written] at hx
    rcases (since_append_sub s.txn.written w m).2 t hx with c | c
    · exact e2 m hm c
    · rw [h.freshAxis c] at e1
      cases e1

/-- A level begun inside the level. -/
theorem Frame.nested {s₀ s s' : Store H B} {inner : List Mark} (hf : Frame s₀ s inner)
    (h : Begun s s') : Frame s₀ s' (s.txn.written.mark :: inner) := by
  have hwritten : s'.txn.written = s.txn.written := by rw [h.txn]
  refine ⟨?_, ?_, fun e => ?_, fun e => ?_⟩
  · rw [h.txn]
    show _ :: s.txn.marks = _
    rw [hf.marks]
    rfl
  · rcases hf.savepoints with ⟨later, e⟩ | ⟨e, -⟩
    · exact Or.inl ⟨s.db :: later, by rw [h.savepoints, e]; rfl⟩
    · have := h.alive
      unfold transactionWasForcedBack inAutocommit at this
      rw [e, show s.inTransaction = true from inTransaction_iff.mpr (by rw [hf.marks]; simp)] at this
      cases this
  · obtain ⟨e1, e2⟩ := hf.array e
    rw [h.arrays, hwritten]
    refine ⟨e1, fun m hm => ?_⟩
    rcases List.mem_cons.mp hm with rfl | hm
    · rw [FileObjects.since_mark]
      exact List.not_mem_nil
    · exact e2 m hm
  · obtain ⟨e1, e2⟩ := hf.axis e
    rw [h.arrays, hwritten]
    refine ⟨e1, fun m hm => ?_⟩
    rcases List.mem_cons.mp hm with rfl | hm
    · rw [FileObjects.since_mark]
      exact List.not_mem_nil
    · exact e2 m hm

/-- The savepoints of a level that is not the innermost, without the innermost one. -/
theorem Frame.tail {s₀ s : Store H B} {inner : List Mark} {m : Mark} (hs : s.Inv)
    (hf : Frame s₀ s (m :: inner)) (h₀ : s₀.txn.marks.length = s₀.conn.savepoints.length)
    {saved : Catalog H} {rest : List (Catalog H)} (hsp : s.conn.savepoints = saved :: rest) :
    ∃ later, rest = later ++ s₀.db :: s₀.conn.savepoints := by
  have hlen := (hs.alive_of_savepoint hsp).length_eq
  rcases hf.savepoints with ⟨later, e⟩ | ⟨e, -⟩
  · rcases later with _ | ⟨c, later⟩
    · rw [hf.marks, e] at hlen
      simp only [List.length_append, List.length_cons, List.nil_append] at hlen
      omega
    · rw [e] at hsp
      exact ⟨later, (List.cons.inj hsp).2.symm⟩
  · rw [e] at hsp
    cases hsp

/-- An inner level committed inside the level. -/
theorem Frame.released {s₀ s s' : Store H B} {inner : List Mark} (hs : s.Inv)
    (h₀ : s₀.txn.marks.length = s₀.conn.savepoints.length) (hf : Frame s₀ s inner)
    (h : Released s s') (hopen : s₀.depth < s'.depth) : ∃ inner', Frame s₀ s' inner' := by
  obtain ⟨saved, hsp⟩ := h.savepoints
  have hwritten : s'.txn.written = s.txn.written := by rw [h.txn]
  have hmarks : s'.txn.marks = s.txn.marks.tail := by rw [h.txn]
  rcases inner with _ | ⟨m, inner⟩
  · unfold depth at hopen
    rw [hmarks, hf.marks] at hopen
    exact absurd hopen (lt_irrefl _)
  · refine ⟨inner, by rw [hmarks, hf.marks]; rfl, Or.inl (hf.tail hs h₀ hsp), fun e => ?_, fun e => ?_⟩
    · obtain ⟨e1, e2⟩ := hf.array e
      rw [h.arrays, hwritten]
      exact ⟨e1, fun m' hm' => e2 m' (List.mem_cons_of_mem _ hm')⟩
    · obtain ⟨e1, e2⟩ := hf.axis e
      rw [h.arrays, hwritten]
      exact ⟨e1, fun m' hm' => e2 m' (List.mem_cons_of_mem _ hm')⟩

/-- An inner level rolled back inside the level. -/
theorem Frame.unwound {s₀ s s' : Store H B} {inner : List Mark} (hs : s.Inv)
    (h₀ : s₀.txn.marks.length = s₀.conn.savepoints.length) (hf : Frame s₀ s inner)
    {mark : Mark} {outer : List Mark} {saved : Catalog H} {rest : List (Catalog H)}
    {removed : FileObjects H} (h : Unwound s s' mark outer saved rest removed)
    (hopen : s₀.depth < s'.depth) : ∃ inner', Frame s₀ s' inner' := by
  have hm := h.marks
  rw [hf.marks] at hm
  have hout : outer ≠ [] := by
    intro hn
    unfold depth at hopen
    rw [h.txn, if_pos hn] at hopen
    exact absurd hopen (Nat.not_lt_zero _)
  have htxn := h.txn
  rw [if_neg hout] at htxn
  rcases inner with _ | ⟨m, inner⟩
  · unfold depth at hopen
    rw [htxn, ← (List.cons.inj hm).2] at hopen
    exact absurd hopen (lt_irrefl _)
  obtain ⟨rfl, rfl⟩ := List.cons.inj hm
  obtain ⟨later, hrest⟩ := hf.tail hs h₀ h.savepoints
  refine ⟨inner, by rw [htxn]; rfl, ?_, fun {x a} e => ?_, fun {t ms} e => ?_⟩
  · rcases h.restored with ⟨e, -⟩ | ⟨-, e, hdb⟩
    · exact Or.inl ⟨later, e.trans hrest⟩
    · rw [hrest, List.getLast?_append_cons] at hdb
      exact Or.inr ⟨e, hdb⟩
  · obtain ⟨e1, e2⟩ := hf.array e
    refine ⟨?_, fun m' hm' hx => ?_⟩
    · rw [h.reclaimed.shed.kept fun c => e2 m List.mem_cons_self (h.reclaimed.subset c)]
      exact e1
    · rw [htxn] at hx
      exact e2 m' (List.mem_cons_of_mem _ hm') ((since_upTo_sub _ m m').1 x hx)
  · obtain ⟨e1, e2⟩ := hf.axis e
    refine ⟨?_, fun m' hm' hx => ?_⟩
    · rw [h.reclaimed.shed.keptAxis fun c => e2 m List.mem_cons_self (h.reclaimed.subsetAxis c)]
      exact e1
    · rw [htxn] at hx
      exact e2 m' (List.mem_cons_of_mem _ hm') ((since_upTo_sub _ m m').2 t hx)

/-- **Every turn that leaves the level open keeps the frame.** -/
theorem Frame.effect {s₀ s s' : Store H B} {inner : List Mark} (hs : s.Inv)
    (h₀ : s₀.txn.marks.length = s₀.conn.savepoints.length) (hf : Frame s₀ s inner)
    (h : Effect s s') (hopen : s₀.depth < s'.depth) : ∃ inner', Frame s₀ s' inner' := by
  cases h with
  | wrote w g h => exact ⟨inner, hf.wrote h⟩
  | begun h => exact ⟨_, hf.nested h⟩
  | released h => exact hf.released hs h₀ h hopen
  | committed garbage h =>
    unfold depth at hopen
    rw [h.txn] at hopen
    exact absurd hopen (Nat.not_lt_zero _)
  | rewound h =>
    refine ⟨inner, by rw [h.txn]; exact hf.marks, ?_, ?_, ?_⟩
    · rcases hf.savepoints with ⟨later, e⟩ | ⟨e, -⟩
      · exact Or.inl ⟨later, h.savepoints.trans e⟩
      · have := h.db
        rw [e] at this
        cases this
    · rw [h.arrays, h.txn]
      exact hf.array
    · rw [h.arrays, h.txn]
      exact hf.axis
  | unwound mark outer saved rest removed h => exact hf.unwound hs h₀ h hopen
  | discarded removed h =>
    unfold depth at hopen
    rw [h.txn] at hopen
    exact absurd hopen (Nat.not_lt_zero _)

/-- **A run that leaves the level open keeps the frame.** -/
theorem Frame.run {s₀ : Store H B} (h₀ : s₀.txn.marks.length = s₀.conn.savepoints.length)
    (turns : List (Turn H)) : ∀ {s : Store H B} {inner : List Mark}, s.Inv → Frame s₀ s inner →
      (∀ k ≤ turns.length, s₀.depth < ((s.ran (turns.take k)).depth)) →
      ∃ inner', Frame s₀ (s.ran turns) inner' := by
  induction turns with
  | nil => exact fun _ hf _ => ⟨_, hf⟩
  | cons t turns ih =>
    intro s inner hs hf hopen
    have hnext : s₀.depth < (s.turned t).depth := hopen 1 (by simp)
    obtain ⟨inner', hf'⟩ := (hf.arm t.faults).effect (hs.arm t.faults) h₀ (turn_effect hs t) hnext
    exact ih (turn_inv t s hs) hf' fun k hk => hopen (k + 1) (Nat.succ_le_succ hk)

/-- What the end of the level restores. -/
theorem Frame.rolledBack {s₀ s s' : Store H B} {inner : List Mark} (hs₀ : s₀.Inv)
    (h₀ : s₀.txn.marks.length = s₀.conn.savepoints.length) (hf : Frame s₀ s inner) (hs : s.Inv)
    (h : RollbackOutcome s (.ok ()) s') (hclosed : s'.depth = s₀.depth) :
    s'.db = s₀.db ∧
      (∀ h a, s₀.arrays.content h = some a → s'.arrays.content h = some a) ∧
      ∀ t ms, s₀.arrays.vector t = some ms → s'.arrays.vector t = some ms := by
  unfold depth at hclosed
  have hmem : s₀.txn.written.mark ∈ inner ++ [s₀.txn.written.mark] :=
    List.mem_append_right _ List.mem_cons_self
  rcases h with ⟨removed, -, h⟩ | ⟨mark, outer, saved, rest, removed, h, hok⟩ | ⟨h, -⟩
  · -- the engine had gone back to the outermost savepoint, so the level is the outermost one
    rw [h.txn] at hclosed
    have hidle := hs₀.idle (by
      unfold inTransaction
      rw [List.isEmpty_iff.mpr (List.eq_nil_of_length_eq_zero hclosed.symm)]
      rfl)
    have hauto := h.forced
    unfold transactionWasForcedBack inAutocommit at hauto
    rw [Bool.and_eq_true, List.isEmpty_iff] at hauto
    have hzero : s₀.txn.written.mark = ⟨0, 0⟩ := by
      rw [hidle.1]
      rfl
    refine ⟨?_, fun x a e => ?_, fun t ms e => ?_⟩
    · rcases hf.savepoints with ⟨later, e⟩ | ⟨-, e⟩
      · rw [hauto.2] at e
        simp at e
      · rw [hidle.2.1] at e
        rw [h.db]
        exact (Option.some.inj e).symm
    · obtain ⟨e1, e2⟩ := hf.array e
      have := e2 _ hmem
      rw [hzero] at this
      rw [h.reclaimed.shed.kept fun c => this (h.reclaimed.subset c)]
      exact e1
    · obtain ⟨e1, e2⟩ := hf.axis e
      have := e2 _ hmem
      rw [hzero] at this
      rw [h.reclaimed.shed.keptAxis fun c => this (h.reclaimed.subsetAxis c)]
      exact e1
  · have hm := h.marks
    have hlen := (hs.alive_of_savepoint h.savepoints).length_eq
    rw [hf.marks] at hm
    have houter : s'.txn.marks = outer := by
      rw [h.txn]
      split
      · rename_i hn
        rw [hn]
        rfl
      · rfl
    rw [houter] at hclosed
    have hinner : inner = [] := by
      have := congrArg List.length hm
      simp only [List.length_append, List.length_cons] at this
      exact List.eq_nil_of_length_eq_zero (by omega)
    subst hinner
    rw [hf.marks] at hlen
    obtain ⟨rfl, rfl⟩ := List.cons.inj hm
    obtain ⟨hsaved, hrest⟩ : saved = s₀.db ∧ rest = s₀.conn.savepoints := by
      rcases hf.savepoints with ⟨later, e⟩ | ⟨e, -⟩
      · rw [e] at hlen
        simp only [List.nil_append, List.length_append, List.length_cons] at hlen
        rw [List.eq_nil_of_length_eq_zero (show later.length = 0 by omega), h.savepoints] at e
        exact List.cons.inj e
      · rw [h.savepoints] at e
        cases e
    refine ⟨?_, fun x a e => ?_, fun t ms e => ?_⟩
    · rcases h.restored with ⟨-, e⟩ | ⟨-, e, hlast⟩
      · rw [e, hsaved]
      · -- a success with the transaction gone is one with no level left
        have hnone : s'.inTransaction = false := by
          have := hok.mp rfl
          unfold transactionWasForcedBack inAutocommit at this
          rw [e] at this
          simpa using this
        have hnil : s₀.txn.marks = [] := by
          unfold inTransaction at hnone
          rw [houter] at hnone
          simpa using hnone
        rw [hnil] at h₀
        rw [hrest, List.eq_nil_of_length_eq_zero h₀.symm] at hlast
        cases hlast
    · obtain ⟨e1, e2⟩ := hf.array e
      rw [h.reclaimed.shed.kept fun c => e2 _ hmem (h.reclaimed.subset c)]
      exact e1
    · obtain ⟨e1, e2⟩ := hf.axis e
      rw [h.reclaimed.shed.keptAxis fun c => e2 _ hmem (h.reclaimed.subsetAxis c)]
      exact e1
  · cases h

/-- **Rolling a level back restores its begin.**  Between the begin and the end any operations run, at
any nesting below, under any faults of the catalog engine; the end succeeds and closes the level.  The
catalog is the one of the begin, and every array and every time axis its rows name is held as it was
held then. -/
theorem rollback_restores {s₀ : Store H B} (h : s₀.Reachable) (f g : List Fault)
    (turns : List (Turn H)) (hbegin : s₀.succeeds ⟨.beginTransaction, f⟩ = true)
    (hopen : ∀ k ≤ turns.length,
      s₀.depth < ((s₀.turned ⟨.beginTransaction, f⟩).ran (turns.take k)).depth)
    (hend : ((s₀.turned ⟨.beginTransaction, f⟩).ran turns).succeeds ⟨.rollbackTransaction, g⟩ = true)
    (hclosed : (((s₀.turned ⟨.beginTransaction, f⟩).ran turns).turned ⟨.rollbackTransaction, g⟩).depth =
      s₀.depth) :
    let s' := ((s₀.turned ⟨.beginTransaction, f⟩).ran turns).turned ⟨.rollbackTransaction, g⟩
    s'.db = s₀.db ∧
      (∀ r ∈ s'.db.rows, ∃ a, s₀.arrays.content r.dataHash = some a ∧
        s'.arrays.content r.dataHash = some a) ∧
      (∀ r ∈ s'.db.rows, r.timeSeriesType.isIrregular = true → ∃ t ms, r.timestampsHash = some t ∧
        s₀.arrays.vector t = some ms ∧ s'.arrays.vector t = some ms) ∧
      ∀ r ∈ s'.db.rows, ∀ t ms, r.timestampsHash = some t → s₀.arrays.vector t = some ms →
        s'.arrays.vector t = some ms := by
  intro s'
  have hs₀ := h.inv
  have hframe : Frame s₀ (s₀.turned ⟨.beginTransaction, f⟩) [] ∧
      s₀.txn.marks.length = s₀.conn.savepoints.length := by
    have hspec := beginTransaction_spec (hs₀.arm f).toSound
    unfold Cmd.wp at hspec
    have hexec : (beginTransaction (B := B)).exec (s₀.arm f) =
      (turn ⟨.beginTransaction, f⟩).exec s₀ := rfl
    rw [hexec] at hspec
    unfold succeeds at hbegin
    rcases hx : ((turn (B := B) ⟨.beginTransaction, f⟩).exec s₀).1 with e | u
    · rw [hx] at hbegin
      cases hbegin
    · rw [hx] at hspec
      have hfr := Frame.begun hspec
      exact ⟨⟨hfr.marks, hfr.savepoints, hfr.array, hfr.axis⟩,
        ((hs₀.arm f).alive hspec.alive).length_eq⟩
  obtain ⟨hframe, hlen⟩ := hframe
  have hreach : ((s₀.turned ⟨.beginTransaction, f⟩).ran turns).Reachable := (h.turn _).run turns
  obtain ⟨inner, hfr⟩ := hframe.run hlen turns (h.turn _).inv hopen
  have hout : RollbackOutcome (((s₀.turned ⟨.beginTransaction, f⟩).ran turns).arm g) (.ok ()) s' := by
    have hspec := rollbackTransaction_spec (hreach.inv.arm g).toSound
    unfold Cmd.wp at hspec
    unfold succeeds at hend
    have hexec : (rollbackTransaction (B := B)).exec
        (((s₀.turned ⟨.beginTransaction, f⟩).ran turns).arm g) =
      (turn ⟨.rollbackTransaction, g⟩).exec ((s₀.turned ⟨.beginTransaction, f⟩).ran turns) := rfl
    rw [hexec] at hspec
    rcases hx : ((turn (B := B) ⟨.rollbackTransaction, g⟩).exec
        ((s₀.turned ⟨.beginTransaction, f⟩).ran turns)).1 with e | u
    · rw [hx] at hend
      cases hend
    · rw [hx] at hspec
      exact hspec
  obtain ⟨hdb, harray, haxis⟩ := (hfr.arm g).rolledBack hs₀ hlen (hreach.inv.arm g) hout hclosed
  refine ⟨hdb, fun r hr => ?_, fun r hr hirr => ?_, fun r _ t ms _ e => haxis t ms e⟩
  · rw [hdb] at hr
    obtain ⟨a, ha⟩ := Option.isSome_iff_exists.mp (hs₀.holds.array ⟨r, hr, rfl⟩)
    exact ⟨a, ha, harray _ _ ha⟩
  · rw [hdb] at hr
    obtain ⟨t, ht⟩ := Option.isSome_iff_exists.mp (hs₀.axed r hr hirr)
    obtain ⟨ms, hms⟩ := Option.isSome_iff_exists.mp (hs₀.holds.axis ⟨r, hr, hirr, ht⟩)
    exact ⟨t, ms, ht, hms, haxis _ _ hms⟩

end

namespace Sample

/-- A row removed inside a level, with another added, is back when the level is rolled back. -/
theorem rollback_restores_removed :
    ((((after [⟨.addRequests [request 1 7], []⟩]).turned ⟨.beginTransaction, []⟩).ran
        [⟨.removeByIds [1] none, []⟩, ⟨.addRequests [request 2 9], []⟩]).turned
          ⟨.rollbackTransaction, []⟩).db = (after [⟨.addRequests [request 1 7], []⟩]).db ∧
    (after [⟨.addRequests [request 1 7], []⟩]).db.rows ≠ [] :=
  ⟨(rollback_restores (after_reachable [⟨.addRequests [request 1 7], []⟩]) [] []
      [⟨.removeByIds [1] none, []⟩, ⟨.addRequests [request 2 9], []⟩] (by decide +kernel)
      (by decide +kernel) (by decide +kernel) (by decide +kernel)).1, by decide +kernel⟩

end Sample

end Store

end InfraStore
