import Mathlib.Data.List.SplitBy
import Mathlib.Data.List.Nodup

/-!
# Runs of a keyed row sequence, and the answers of a pulled stream

General notions for programs that read sorted files in pieces.

* `runs key rows`: the maximal runs of equal key, `List.splitBy` at the key, with the two ways a run
  sequence grows by one row (`runs_concat_same`, `runs_concat_new`).
* `heads key rows`: the key of each run; `Contiguous` says that no key comes back after another key's
  rows.
* `Pull ε α`: what successive calls of a fallible iterator answer; `Pull.cluster` gathers the answers
  into groups, and `cluster_items` says that no item is lost.
* `RunReader`: a reader that cuts batches into runs, holding one open run across batches, and
  `unfold_next`: what it answers depends on the rows only, not on the batches.
-/

namespace InfraStore.Lib

/-! ### Runs -/

section Runs

variable {κ α : Type} [DecidableEq κ] (key : α → κ)

/-- The maximal runs of equal key, in order. -/
def runs (rows : List α) : List (List α) := rows.splitBy fun a b => decide (key a = key b)

/-- The key of each run, in order. -/
def heads (rows : List α) : List κ := ((runs key rows).filterMap List.head?).map key

/-- No key comes back after another key's rows. -/
def Contiguous (rows : List α) : Prop := (heads key rows).Nodup

instance (rows : List α) : Decidable (Contiguous key rows) :=
  inferInstanceAs (Decidable (heads key rows).Nodup)

@[simp] theorem runs_nil : runs key ([] : List α) = [] := rfl

@[simp] theorem heads_nil : heads key ([] : List α) = [] := rfl

@[simp] theorem flatten_runs (rows : List α) : (runs key rows).flatten = rows :=
  List.flatten_splitBy _ rows

theorem nil_notMem_runs (rows : List α) : [] ∉ runs key rows := List.nil_notMem_splitBy _ rows

theorem runs_ne_nil {rows : List α} (h : rows ≠ []) : runs key rows ≠ [] :=
  List.splitBy_ne_nil.mpr h

variable {key}

/-- All rows of a chain of equal keys have the key of the first. -/
theorem key_eq_of_isChain {a : α} {g : List α}
    (h : (a :: g).IsChain fun x y => decide (key x = key y) = true) : ∀ b ∈ g, key b = key a := by
  induction g generalizing a with
  | nil => exact fun b hb => (List.not_mem_nil hb).elim
  | cons c g ih =>
    rw [List.isChain_cons_cons] at h
    have hac : key a = key c := of_decide_eq_true h.1
    intro b hb
    cases hb with
    | head => exact hac.symm
    | tail _ hb => exact (ih h.2 b hb).trans hac.symm

/-- The rows of one run share one key. -/
theorem key_eq_of_mem_runs {rows g : List α} (hg : g ∈ runs key rows) {a b : α} (ha : a ∈ g)
    (hb : b ∈ g) : key a = key b := by
  have h := List.isChain_of_mem_splitBy hg
  cases g with
  | nil => exact (List.not_mem_nil ha).elim
  | cons c g =>
    have hc := key_eq_of_isChain h
    have key_c : ∀ x ∈ c :: g, key x = key c := by
      intro x hx
      cases hx with
      | head => rfl
      | tail _ hx => exact hc x hx
    exact (key_c a ha).trans (key_c b hb).symm

/-- A row of another key than the last one starts a run. -/
theorem runs_concat_new {rows : List α} {a : α} (h : ∀ b ∈ rows.getLast?, key b ≠ key a) :
    runs key (rows ++ [a]) = runs key rows ++ [[a]] := by
  unfold runs
  rw [List.splitBy_append]
  · rfl
  · intro x hx y hy
    cases hy
    exact decide_eq_false (h x hx)

/-- A row of the last one's key extends the last run. -/
theorem runs_concat_same {rows g : List α} {gs : List (List α)} {a b : α}
    (hr : runs key rows = gs ++ [g]) (hb : rows.getLast? = some b) (h : key b = key a) :
    runs key (rows ++ [a]) = gs ++ [g ++ [a]] := by
  obtain ⟨hflat, hnil, hchain, hadj⟩ := List.splitBy_eq_iff.mp hr
  have hg : g ≠ [] := fun e => hnil (by simp [e])
  have hlast : g.getLast? = some b := by
    rw [hflat] at hb
    simpa [List.getLast?_append, List.getLast?_eq_some_getLast hg] using hb
  refine List.splitBy_eq_iff.mpr ⟨?_, ?_, ?_, ?_⟩
  · simp [hflat]
  · simp only [List.mem_append, List.mem_singleton, not_or] at hnil ⊢
    exact ⟨hnil.1, by simp⟩
  · intro m hm
    rcases List.mem_append.mp hm with hm | hm
    · exact hchain m (List.mem_append_left _ hm)
    · rw [List.mem_singleton.mp hm]
      refine List.isChain_append.mpr ⟨hchain g (by simp), by simp, ?_⟩
      intro x hx y hy
      cases hy
      rw [hlast] at hx
      cases hx
      exact decide_eq_true h
  · rw [List.isChain_append] at hadj ⊢
    refine ⟨hadj.1, by simp, ?_⟩
    intro x hx y hy
    cases hy
    obtain ⟨hx', hg', e⟩ := hadj.2.2 x hx g rfl
    exact ⟨hx', by simp, by rwa [List.head_append_of_ne_nil]⟩

theorem heads_concat_new {rows : List α} {a : α} (h : ∀ b ∈ rows.getLast?, key b ≠ key a) :
    heads key (rows ++ [a]) = heads key rows ++ [key a] := by
  unfold heads
  rw [runs_concat_new h]
  simp

theorem heads_concat_same {rows : List α} {a b : α} (hb : rows.getLast? = some b)
    (h : key b = key a) : heads key (rows ++ [a]) = heads key rows := by
  have hne : rows ≠ [] := by
    intro e
    rw [e] at hb
    cases hb
  obtain ⟨gs, g, hr⟩ : ∃ gs g, runs key rows = gs ++ [g] :=
    ⟨_, _, (List.dropLast_concat_getLast (runs_ne_nil key hne)).symm⟩
  have hg : g ≠ [] := by
    intro e
    exact nil_notMem_runs key rows (by rw [hr, e]; simp)
  unfold heads
  rw [runs_concat_same hr hb h, hr]
  obtain ⟨c, g, rfl⟩ := List.exists_cons_of_ne_nil hg
  simp

/-- One more row keeps the run heads as a prefix. -/
theorem heads_concat_extends (rows : List α) (a : α) : heads key rows <+: heads key (rows ++ [a]) := by
  by_cases h : ∀ b ∈ rows.getLast?, key b ≠ key a
  · rw [heads_concat_new h]
    exact List.prefix_append _ _
  · obtain ⟨b, hb, hk⟩ : ∃ b, rows.getLast? = some b ∧ key b = key a := by simpa using h
    simp only [heads_concat_same hb hk, List.prefix_rfl]

theorem heads_extends (rows more : List α) : heads key rows <+: heads key (rows ++ more) := by
  induction more generalizing rows with
  | nil => simp
  | cons a more ih =>
    have := ih (rows ++ [a])
    rw [List.append_assoc, List.singleton_append] at this
    exact (heads_concat_extends rows a).trans this

theorem Contiguous.of_append {rows more : List α} (h : Contiguous key (rows ++ more)) :
    Contiguous key rows :=
  h.sublist (heads_extends rows more).sublist

/-- Every row's key is the key of some run. -/
theorem mem_heads_iff {rows : List α} {k : κ} : k ∈ heads key rows ↔ ∃ a ∈ rows, key a = k := by
  constructor
  · intro h
    obtain ⟨a, ha, rfl⟩ := List.mem_map.mp h
    obtain ⟨g, hg, hga⟩ := List.mem_filterMap.mp ha
    refine ⟨a, ?_, rfl⟩
    rw [← flatten_runs key rows]
    exact List.mem_flatten.mpr ⟨g, hg, List.mem_of_mem_head? hga⟩
  · rintro ⟨a, ha, rfl⟩
    rw [← flatten_runs key rows] at ha
    obtain ⟨g, hg, hag⟩ := List.mem_flatten.mp ha
    obtain ⟨c, g', rfl⟩ := List.exists_cons_of_ne_nil (List.ne_nil_of_mem hag)
    rw [key_eq_of_mem_runs hg hag (List.mem_cons_self (a := c))]
    exact List.mem_map.mpr ⟨c, List.mem_filterMap.mpr ⟨c :: g', hg, rfl⟩, rfl⟩

/-- There are at most as many runs as rows. -/
theorem length_runs_le (rows : List α) : (runs key rows).length ≤ rows.length := by
  have h := nil_notMem_runs key rows
  have hlen : ∀ gs : List (List α), [] ∉ gs → gs.length ≤ gs.flatten.length := by
    intro gs
    induction gs with
    | nil => simp
    | cons g gs ih =>
      intro hgs
      rw [List.mem_cons, not_or] at hgs
      have := List.length_pos_of_ne_nil (Ne.symm hgs.1)
      have := ih hgs.2
      simp only [List.length_cons, List.flatten_cons, List.length_append]
      omega
  have := hlen _ h
  rwa [flatten_runs] at this

/-- Two keys that tell rows apart alike cut them into the same runs. -/
theorem runs_congr {κ' : Type} [DecidableEq κ'] {key' : α → κ'} {rows : List α}
    (h : ∀ a b, key a = key b ↔ key' a = key' b) : runs key rows = runs key' rows := by
  unfold runs
  congr 1
  funext a b
  exact decide_eq_decide.mpr (h a b)

end Runs

/-! ### Pulled streams -/

/-- What successive calls of a fallible iterator answer: the end, an error, or an item and then what
the later calls answer. -/
inductive Pull (ε α : Type) where
  | done
  | failed (e : ε)
  | item (a : α) (rest : Pull ε α)

namespace Pull

variable {ε α σ : Type}

/-- The answers of an iterator over a list. -/
def ofList : List α → Pull ε α
  | [] => done
  | a :: as => item a (ofList as)

/-- The items answered before the end or the error. -/
def items : Pull ε α → List α
  | done => []
  | failed _ => []
  | item a rest => a :: rest.items

/-- Whether the calls end without an error. -/
def Finished : Pull ε α → Prop
  | done => True
  | failed _ => False
  | item _ rest => rest.Finished

@[simp] theorem items_ofList (as : List α) : (ofList as : Pull ε α).items = as := by
  induction as with
  | nil => rfl
  | cons a as ih => rw [ofList, items, ih]

@[simp] theorem finished_ofList (as : List α) : (ofList as : Pull ε α).Finished := by
  induction as with
  | nil => trivial
  | cons a as ih => exact ih

/-- A pull that ends without an error is the iterator over its items. -/
theorem Finished.eq_ofList {p : Pull ε α} (h : p.Finished) : p = ofList p.items := by
  induction p with
  | done => rfl
  | failed e => exact h.elim
  | item a rest ih => exact congrArg (item a) (ih h)

/-- The answers of `next` from a state, `fuel` items at most. -/
def unfold (next : σ → Except ε (Option α × σ)) : ℕ → σ → Pull ε α
  | 0, _ => done
  | fuel + 1, s =>
    match next s with
    | .error e => failed e
    | .ok (none, _) => done
    | .ok (some a, s') => item a (unfold next fuel s')

/-- The answers of an iterator that ends in an error once it has given `n` items, or has none left. -/
def cut (e : ε) : ℕ → List α → Pull ε α
  | n + 1, a :: as => item a (cut e n as)
  | _, _ => failed e

/-- The answers of an iterator over a list, which something may stop after so many items. -/
def stopping (stop : Option (ℕ × ε)) (as : List α) : Pull ε α :=
  match stop with
  | none => ofList as
  | some (n, e) => cut e n as

theorem not_finished_cut (e : ε) (n : ℕ) (as : List α) : ¬ (cut e n as).Finished := by
  induction n generalizing as with
  | zero => exact id
  | succ n ih =>
    cases as with
    | nil => exact id
    | cons a as => exact ih as

/-- An iterator that was not stopped has given all its items. -/
theorem items_stopping {stop : Option (ℕ × ε)} {as : List α} (h : (stopping stop as).Finished) :
    (stopping stop as).items = as := by
  cases stop with
  | none => exact items_ofList as
  | some x => exact absurd h (not_finished_cut x.2 x.1 as)

/-- The answers with every item decoded; the first that does not decode ends them. -/
def decode {β : Type} (f : α → Except ε β) : Pull ε α → Pull ε β
  | done => done
  | failed e => failed e
  | item a rest =>
    match f a with
    | .error e => failed e
    | .ok b => item b (decode f rest)

variable {γ : Type} (first : α → Except ε γ) (same : γ → α → Bool) (push : γ → α → Except ε γ)

/-- The answers gathered into groups: an item that does not belong to the open group closes it and
opens the next.  An error loses the group it interrupts. -/
def cluster : Option γ → Pull ε α → Pull ε γ
  | none, done => done
  | some g, done => item g done
  | _, failed e => failed e
  | none, item a rest =>
    match first a with
    | .error e => failed e
    | .ok g => cluster (some g) rest
  | some g, item a rest =>
    if same g a then
      match push g a with
      | .error e => failed e
      | .ok g => cluster (some g) rest
    else
      item g (match first a with
        | .error e => failed e
        | .ok g => cluster (some g) rest)

/-- Groups that were all answered hold every item, in order. -/
theorem cluster_items {of : γ → List α} {first : α → Except ε γ} {same : γ → α → Bool}
    {push : γ → α → Except ε γ} (hfirst : ∀ a g, first a = .ok g → of g = [a])
    (hpush : ∀ g a g', push g a = .ok g' → of g' = of g ++ [a]) (p : Pull ε α) :
    ∀ o : Option γ, (cluster first same push o p).Finished →
      p.Finished ∧ (cluster first same push o p).items.flatMap of = o.elim [] of ++ p.items := by
  induction p with
  | done =>
    intro o _
    cases o with
    | none => exact ⟨trivial, rfl⟩
    | some g => exact ⟨trivial, by simp [cluster, items]⟩
  | failed e =>
    intro o h
    cases o with
    | none => exact h.elim
    | some g => exact h.elim
  | item a rest ih =>
    intro o h
    cases o with
    | none =>
      simp only [cluster] at h ⊢
      cases hf : first a with
      | error e =>
        rw [hf] at h
        exact h.elim
      | ok g =>
        rw [hf] at h
        obtain ⟨h1, h2⟩ := ih (some g) h
        refine ⟨h1, h2.trans ?_⟩
        simp [items, hfirst a g hf]
    | some g =>
      simp only [cluster] at h ⊢
      by_cases hs : same g a = true
      · rw [if_pos hs] at h ⊢
        cases hp : push g a with
        | error e =>
          rw [hp] at h
          exact h.elim
        | ok g' =>
          rw [hp] at h
          obtain ⟨h1, h2⟩ := ih (some g') h
          refine ⟨h1, h2.trans ?_⟩
          simp [items, hpush g a g' hp]
      · rw [if_neg hs] at h ⊢
        cases hf : first a with
        | error e =>
          rw [hf] at h
          exact h.elim
        | ok g' =>
          rw [hf] at h
          obtain ⟨h1, h2⟩ := ih (some g') h
          refine ⟨h1, ?_⟩
          simp only [items, List.flatMap_cons]
          rw [h2]
          simp [hfirst a g' hf]

/-- What holds of a group as it is opened, and of one that grows, holds of every group answered. -/
theorem cluster_forall {P : γ → Prop} {first : α → Except ε γ} {same : γ → α → Bool}
    {push : γ → α → Except ε γ} (hfirst : ∀ a g, first a = .ok g → P g)
    (hpush : ∀ g a g', P g → same g a = true → push g a = .ok g' → P g') (p : Pull ε α) :
    ∀ o : Option γ, (∀ g ∈ o, P g) → ∀ g ∈ (cluster first same push o p).items, P g := by
  induction p with
  | done =>
    intro o ho g hg
    cases o with
    | none => cases hg
    | some g' =>
      rw [List.mem_singleton.mp hg]
      exact ho g' rfl
  | failed e =>
    intro o ho g hg
    cases o <;> cases hg
  | item a rest ih =>
    have hopen : ∀ g ∈ (match first a with
        | .error e => failed e
        | .ok g => cluster first same push (some g) rest : Pull ε γ).items, P g := by
      intro g hg
      cases hf : first a with
      | error e =>
        rw [hf] at hg
        cases hg
      | ok g' =>
        rw [hf] at hg
        refine ih (some g') (fun x hx => ?_) g hg
        rw [← Option.some.inj hx]
        exact hfirst a g' hf
    intro o ho g hg
    cases o with
    | none => exact hopen g hg
    | some g₀ =>
      simp only [cluster] at hg
      by_cases hs : same g₀ a = true
      · rw [if_pos hs] at hg
        cases hp : push g₀ a with
        | error e =>
          rw [hp] at hg
          cases hg
        | ok g' =>
          rw [hp] at hg
          refine ih (some g') (fun x hx => ?_) g hg
          rw [← Option.some.inj hx]
          exact hpush g₀ a g' (ho g₀ rfl) hs hp
      · rw [if_neg hs] at hg
        rcases List.mem_cons.mp hg with rfl | hg
        · exact ho g rfl
        · exact hopen g hg

end Pull

/-! ### Readers of runs -/

/-- What a reader of runs holds between two batches: the groups it has closed, the group it is in the
middle of, and what else it keeps. -/
structure Pending (γ τ : Type) where
  ready : List γ
  opened : Option γ
  state : τ

/-- A reader of runs: the batches it has not read, and what it holds. -/
structure RunReader (β γ τ : Type) where
  batches : List β
  pending : Pending γ τ

namespace RunReader

variable {ε β γ τ ρ : Type} (push : Pending γ τ → β → Except ε (Pending γ τ))

/-- The next group: a closed one, or the next batch's, or at the end the open one. -/
def nextFrom : List β → Pending γ τ → Except ε (Option γ × RunReader β γ τ)
  | [], p =>
    match p.ready with
    | g :: ready => .ok (some g, ⟨[], { p with ready }⟩)
    | [] => .ok (p.opened, ⟨[], { p with opened := none }⟩)
  | b :: batches, p =>
    match p.ready with
    | g :: ready => .ok (some g, ⟨b :: batches, { p with ready }⟩)
    | [] => do nextFrom batches (← push p b)

def next (r : RunReader β γ τ) : Except ε (Option γ × RunReader β γ τ) :=
  nextFrom push r.batches r.pending

/-- The pending state after the rows `rs`, of whose groups `popped` have been answered: `groups` are
the groups of a row sequence, `Good` the sequences a reader accepts, and `Q` ties the rest of the state
to the rows. -/
structure Fed (groups : List ρ → List γ) (Good : List ρ → Prop) (Q : List ρ → τ → Prop)
    (rs : List ρ) (popped : List γ) (p : Pending γ τ) : Prop where
  good : Good rs
  groups : popped ++ p.ready ++ p.opened.toList = groups rs
  state : Q rs p.state

/-- A reader's pushes follow the specification: a batch is accepted where the rows so far and its own
are good, and refused where they are not. -/
structure Pushes (rows : β → List ρ) (groups : List ρ → List γ) (Good : List ρ → Prop)
    (Q : List ρ → τ → Prop) : Prop where
  accepts : ∀ {rs popped p b}, Fed groups Good Q rs popped p → (p.opened = none → rs = []) →
    Good (rs ++ rows b) → ∃ p', push p b = .ok p' ∧
      Fed groups Good Q (rs ++ rows b) popped p' ∧ (p'.opened = none → rs ++ rows b = [])
  refuses : ∀ {rs popped p b}, Fed groups Good Q rs popped p → (p.opened = none → rs = []) →
    ¬ Good (rs ++ rows b) → ∃ e, push p b = .error e
  closed : ∀ {rs more}, Good (rs ++ more) → Good rs
  bounded : ∀ rs, (groups rs).length ≤ rs.length

variable {push}
variable {rows : β → List ρ} {groups : List ρ → List γ} {Good : List ρ → Prop}
  {Q : List ρ → τ → Prop}

/-- What the next call answers: one more group of the rows, the end when every group has been
answered, or an error when the rows are not good. -/
theorem nextFrom_spec (hpush : Pushes push rows groups Good Q) :
    ∀ (bs : List β) {rs : List ρ} {popped : List γ} {p : Pending γ τ},
      Fed groups Good Q rs popped p → (p.opened = none → rs = [] ∨ bs = []) →
      (∃ g bs' p' rs', nextFrom push bs p = .ok (some g, ⟨bs', p'⟩) ∧
          Fed groups Good Q rs' (popped ++ [g]) p' ∧ (p'.opened = none → rs' = [] ∨ bs' = []) ∧
          rs' ++ bs'.flatMap rows = rs ++ bs.flatMap rows) ∨
        (∃ r', nextFrom push bs p = .ok (none, r') ∧ Good (rs ++ bs.flatMap rows) ∧
          popped = groups (rs ++ bs.flatMap rows)) ∨
        (∃ e, nextFrom push bs p = .error e) ∧ ¬ Good (rs ++ bs.flatMap rows) := by
  intro bs
  induction bs with
  | nil =>
    intro rs popped p hp _
    have hg := hp.groups
    unfold nextFrom
    cases hr : p.ready with
    | cons g ready =>
      rw [hr] at hg
      exact .inl ⟨g, [], _, rs, rfl, ⟨hp.good, by simpa using hg, hp.state⟩, fun _ => .inr rfl, rfl⟩
    | nil =>
      rw [hr] at hg
      cases ho : p.opened with
      | some g =>
        rw [ho] at hg
        exact .inl ⟨g, [], _, rs, rfl, ⟨hp.good, by simpa [hr] using hg, hp.state⟩,
          fun _ => .inr rfl, rfl⟩
      | none =>
        rw [ho] at hg
        refine .inr (.inl ⟨_, rfl, ?_, ?_⟩)
        · simpa using hp.good
        · simpa using hg
  | cons b bs ih =>
    intro rs popped p hp hlive
    have hg := hp.groups
    have hopen : p.opened = none → rs = [] := fun h => (hlive h).resolve_right (List.cons_ne_nil _ _)
    unfold nextFrom
    cases hr : p.ready with
    | cons g ready =>
      rw [hr] at hg
      exact .inl ⟨g, b :: bs, _, rs, rfl, ⟨hp.good, by simpa using hg, hp.state⟩,
        fun h => .inl (hopen h), rfl⟩
    | nil =>
      simp only
      rw [List.flatMap_cons, ← List.append_assoc]
      by_cases hgood : Good (rs ++ rows b)
      · obtain ⟨p', hok, hp', hlive'⟩ := hpush.accepts hp hopen hgood
        rw [hok]
        exact ih hp' fun h => .inl (hlive' h)
      · obtain ⟨e, he⟩ := hpush.refuses hp hopen hgood
        rw [he]
        exact .inr (.inr ⟨⟨e, rfl⟩, fun h => hgood (hpush.closed h)⟩)

/-- **Answers of a reader of runs.**  Good rows are answered as their groups and then the end; other
rows end in an error. -/
theorem unfold_next (hpush : Pushes push rows groups Good Q) :
    ∀ (fuel : ℕ) (bs : List β) {rs : List ρ} {popped : List γ} {p : Pending γ τ},
      Fed groups Good Q rs popped p → (p.opened = none → rs = [] ∨ bs = []) →
      (rs ++ bs.flatMap rows).length < popped.length + fuel →
      (Good (rs ++ bs.flatMap rows) →
        popped ++ (Pull.unfold (next push) fuel ⟨bs, p⟩).items = groups (rs ++ bs.flatMap rows) ∧
          (Pull.unfold (next push) fuel ⟨bs, p⟩).Finished) ∧
        ((Pull.unfold (next push) fuel ⟨bs, p⟩).Finished → Good (rs ++ bs.flatMap rows)) := by
  intro fuel
  induction fuel with
  | zero =>
    intro bs rs popped p hp _ hfuel
    have h := congrArg List.length hp.groups
    have hb := hpush.bounded rs
    simp only [List.length_append] at h hfuel
    omega
  | succ fuel ih =>
    intro bs rs popped p hp hlive hfuel
    have hnext : next push ⟨bs, p⟩ = nextFrom push bs p := rfl
    unfold Pull.unfold
    rw [hnext]
    rcases nextFrom_spec hpush bs hp hlive with
      ⟨g, bs', p', rs', hok, hp', hlive', hrest⟩ | ⟨r', hok, hgood, hall⟩ | ⟨⟨e, he⟩, hbad⟩
    · have hfuel' : (rs' ++ bs'.flatMap rows).length < (popped ++ [g]).length + fuel := by
        rw [hrest]
        have hone : (popped ++ [g]).length = popped.length + 1 := by simp
        omega
      have h := ih bs' hp' hlive' hfuel'
      rw [hrest, List.append_assoc, List.singleton_append] at h
      rw [hok]
      exact h
    · rw [hok]
      exact ⟨fun _ => ⟨by rw [← hall]; exact List.append_nil _, trivial⟩, fun _ => hgood⟩
    · rw [he]
      exact ⟨fun h => absurd h hbad, False.elim⟩

/-- Pushing the rows of a batch one by one follows the specification where pushing one row does. -/
theorem Pushes.foldlM {push : Pending γ τ → ρ → Except ε (Pending γ τ)}
    (h : Pushes push (fun r => [r]) groups Good Q) :
    Pushes (fun p rs => rs.foldlM push p) (fun rs => rs) groups Good Q where
  closed := h.closed
  bounded := h.bounded
  accepts := by
    intro rs popped p more
    induction more generalizing rs p with
    | nil =>
      intro hp hopen _
      exact ⟨p, rfl, by simpa using hp, by simpa using hopen⟩
    | cons r more ih =>
      intro hp hopen hgood
      rw [← List.singleton_append, ← List.append_assoc] at hgood ⊢
      obtain ⟨p₁, hok, hp₁, hopen₁⟩ := h.accepts hp hopen (h.closed hgood)
      obtain ⟨p₂, hok₂, h₂⟩ := ih hp₁ hopen₁ hgood
      refine ⟨p₂, ?_, h₂⟩
      rw [List.singleton_append, List.foldlM_cons, hok]
      exact hok₂
  refuses := by
    intro rs popped p more
    induction more generalizing rs p with
    | nil =>
      intro hp _ hbad
      exact absurd hp.good (by simpa using hbad)
    | cons r more ih =>
      intro hp hopen hbad
      rw [List.foldlM_cons]
      by_cases hr : Good (rs ++ [r])
      · obtain ⟨p₁, hok, hp₁, hopen₁⟩ := h.accepts hp hopen hr
        rw [hok]
        exact ih hp₁ hopen₁ (by rwa [List.append_assoc, List.singleton_append])
      · obtain ⟨e, he⟩ := h.refuses hp hopen hr
        rw [he]
        exact ⟨e, rfl⟩

end RunReader

end InfraStore.Lib
