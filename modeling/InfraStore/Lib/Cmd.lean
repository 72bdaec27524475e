import Mathlib.Data.List.Basic
import Mathlib.Data.List.Forall2

/-!
# Fallible commands over a state

A `Cmd σ ε α` reads and writes a state `σ` and ends with a value or an error; the state it reached
stays in both cases.  The module gives commands a weakest precondition and the rules a proof about a
command uses:

* **weakest preconditions** (`wp_pure`, `wp_bind`, `wp_attempt`, …): one equation a constructor, a
  `simp` set that executes a command symbolically;
* **consequence and frame** (`wp_mono`, `wp_and`): a callee's specification is applied at the call
  site, never its body;
* **loops** (`wp_forM`, `wp_foldlM`): an invariant of one turn is an invariant of the loop;
* **frames** (`Frame`): what a command never changes, whatever it ends with;
* **runs** (`runs_invariant`): an invariant of every step is an invariant of every finite run,
  whatever errors the steps end with.
-/

namespace InfraStore.Lib

/-- A command over the state `σ`: a value or an error, and the state reached either way. -/
abbrev Cmd (σ ε α : Type) : Type := ExceptT ε (StateM σ) α

namespace Cmd

variable {σ ε α β : Type}

/-- Run a command: its outcome and the state it leaves. -/
def exec (c : Cmd σ ε α) (s : σ) : Except ε α × σ := (ExceptT.run c).run s

/-- The command with the given outcome and final state. -/
def ofExec (f : σ → Except ε α × σ) : Cmd σ ε α := ExceptT.mk f

/-- The outcome of a command as a value, so that the caller decides what an error means. -/
def attempt (c : Cmd σ ε α) : Cmd σ ε (Except ε α) := ofExec fun s => (.ok (c.exec s).1, (c.exec s).2)

/-- Run a command of a component of the state. -/
def zoom {τ : Type} (get : σ → τ) (set : τ → σ → σ) (c : Cmd τ ε α) : Cmd σ ε α :=
  ofExec fun s => ((c.exec (get s)).1, set (c.exec (get s)).2 s)

/-- A pure outcome as a command that leaves the state alone. -/
def ofExcept (r : Except ε α) : Cmd σ ε α := ofExec fun s => (r, s)

/-- The weakest precondition of a postcondition on the outcome and the final state. -/
def wp (c : Cmd σ ε α) (Q : Except ε α → σ → Prop) (s : σ) : Prop := Q (c.exec s).1 (c.exec s).2

/-! ### How commands execute -/

@[simp] theorem exec_ofExec (f : σ → Except ε α × σ) (s : σ) : (ofExec f).exec s = f s := rfl

@[simp] theorem exec_pure (a : α) (s : σ) : (pure a : Cmd σ ε α).exec s = (.ok a, s) := rfl

@[simp] theorem exec_throw (e : ε) (s : σ) : (throw e : Cmd σ ε α).exec s = (.error e, s) := rfl

@[simp] theorem exec_get (s : σ) : (get : Cmd σ ε σ).exec s = (.ok s, s) := rfl

@[simp] theorem exec_set (t s : σ) : (set t : Cmd σ ε PUnit).exec s = (.ok (), t) := rfl

@[simp] theorem exec_modify (f : σ → σ) (s : σ) :
    (modify f : Cmd σ ε PUnit).exec s = (.ok (), f s) := rfl

@[simp] theorem exec_ofExcept (r : Except ε α) (s : σ) :
    (ofExcept r : Cmd σ ε α).exec s = (r, s) := rfl

@[simp] theorem exec_attempt (c : Cmd σ ε α) (s : σ) :
    c.attempt.exec s = (.ok (c.exec s).1, (c.exec s).2) := rfl

@[simp] theorem exec_zoom {τ : Type} (g : σ → τ) (p : τ → σ → σ) (c : Cmd τ ε α) (s : σ) :
    (zoom g p c).exec s = ((c.exec (g s)).1, p (c.exec (g s)).2 s) := rfl

/-- An execution by its outcome. -/
theorem exec_eq_of_fst {c : Cmd σ ε α} {s : σ} {r : Except ε α} (h : (c.exec s).1 = r) :
    c.exec s = (r, (c.exec s).2) := Prod.ext h rfl

/-- Sequencing: the second command runs from the state the first one leaves, if it succeeds. -/
theorem exec_bind (c : Cmd σ ε α) (f : α → Cmd σ ε β) (s : σ) :
    (c >>= f).exec s = match c.exec s with
      | (.ok a, s') => (f a).exec s'
      | (.error e, s') => (.error e, s') := by
  have h : (c >>= f).exec s =
      (ExceptT.bindCont (m := StateM σ) f (c.exec s).1 : StateM σ (Except ε β)) (c.exec s).2 := rfl
  rw [h]
  rcases c.exec s with ⟨r, s'⟩
  cases r <;> rfl

theorem exec_map (c : Cmd σ ε α) (f : α → β) (s : σ) :
    (f <$> c).exec s = ((c.exec s).1.map f, (c.exec s).2) := by
  rw [map_eq_pure_bind, exec_bind]
  rcases c.exec s with ⟨r, s'⟩
  cases r <;> rfl

/-! ### Weakest preconditions -/

@[simp] theorem wp_pure (a : α) (Q : Except ε α → σ → Prop) (s : σ) :
    wp (pure a) Q s ↔ Q (.ok a) s := Iff.rfl

@[simp] theorem wp_throw (e : ε) (Q : Except ε α → σ → Prop) (s : σ) :
    wp (throw e) Q s ↔ Q (.error e) s := Iff.rfl

@[simp] theorem wp_get (Q : Except ε σ → σ → Prop) (s : σ) : wp get Q s ↔ Q (.ok s) s := Iff.rfl

@[simp] theorem wp_set (t : σ) (Q : Except ε PUnit → σ → Prop) (s : σ) :
    wp (set t) Q s ↔ Q (.ok ()) t := Iff.rfl

@[simp] theorem wp_modify (f : σ → σ) (Q : Except ε PUnit → σ → Prop) (s : σ) :
    wp (modify f) Q s ↔ Q (.ok ()) (f s) := Iff.rfl

@[simp] theorem wp_ofExcept (r : Except ε α) (Q : Except ε α → σ → Prop) (s : σ) :
    wp (ofExcept r) Q s ↔ Q r s := Iff.rfl

@[simp] theorem wp_ofExec (f : σ → Except ε α × σ) (Q : Except ε α → σ → Prop) (s : σ) :
    wp (ofExec f) Q s ↔ Q (f s).1 (f s).2 := Iff.rfl

@[simp] theorem wp_attempt (c : Cmd σ ε α) (Q : Except ε (Except ε α) → σ → Prop) (s : σ) :
    wp c.attempt Q s ↔ wp c (fun r t => Q (.ok r) t) s := Iff.rfl

@[simp] theorem wp_zoom {τ : Type} (g : σ → τ) (p : τ → σ → σ) (c : Cmd τ ε α)
    (Q : Except ε α → σ → Prop) (s : σ) :
    wp (zoom g p c) Q s ↔ wp c (fun r t => Q r (p t s)) (g s) := Iff.rfl

@[simp] theorem wp_bind (c : Cmd σ ε α) (f : α → Cmd σ ε β) (Q : Except ε β → σ → Prop) (s : σ) :
    wp (c >>= f) Q s ↔
      wp c (fun r t => match r with | .ok a => wp (f a) Q t | .error e => Q (.error e) t) s := by
  unfold wp
  rw [exec_bind]
  rcases c.exec s with ⟨r, t⟩
  cases r <;> rfl

@[simp] theorem wp_map (c : Cmd σ ε α) (f : α → β) (Q : Except ε β → σ → Prop) (s : σ) :
    wp (f <$> c) Q s ↔ wp c (fun r t => Q (r.map f) t) s := by
  unfold wp
  rw [exec_map]

/-- The weakest precondition at a known execution. -/
theorem wp_of_exec {c : Cmd σ ε α} {s t : σ} {r : Except ε α} (h : c.exec s = (r, t))
    (Q : Except ε α → σ → Prop) : wp c Q s ↔ Q r t := by
  unfold wp
  rw [h]

/-- **Consequence.**  A specification of a command serves every postcondition it implies. -/
theorem wp_mono {c : Cmd σ ε α} {Q R : Except ε α → σ → Prop} {s : σ} (h : wp c Q s)
    (hQR : ∀ r t, Q r t → R r t) : wp c R s := hQR _ _ h

/-- Two specifications of one execution hold together. -/
theorem wp_and {c : Cmd σ ε α} {Q R : Except ε α → σ → Prop} {s : σ} (hQ : wp c Q s)
    (hR : wp c R s) : wp c (fun r t => Q r t ∧ R r t) s := ⟨hQ, hR⟩

/-! ### Loops -/

@[simp] theorem wp_forM_nil (f : α → Cmd σ ε PUnit) (Q : Except ε PUnit → σ → Prop) (s : σ) :
    wp (([] : List α).forM f) Q s ↔ Q (.ok ()) s := Iff.rfl

theorem wp_forM_cons (f : α → Cmd σ ε PUnit) (a : α) (as : List α)
    (Q : Except ε PUnit → σ → Prop) (s : σ) :
    wp ((a :: as).forM f) Q s ↔ wp (f a) (fun r t => match r with
      | .ok _ => wp (as.forM f) Q t
      | .error e => Q (.error e) t) s := by
  show wp (f a >>= fun _ => as.forM f) Q s ↔ _
  rw [wp_bind]
  constructor <;>
  · intro h
    refine wp_mono h fun r t hr => ?_
    cases r <;> exact hr

/-- **Loop rule.**  What every turn keeps, whether it succeeds or fails, the loop keeps. -/
theorem wp_forM {I : σ → Prop} (f : α → Cmd σ ε PUnit) (as : List α)
    (hstep : ∀ a ∈ as, ∀ s, I s → wp (f a) (fun _ t => I t) s) :
    ∀ s, I s → wp (as.forM f) (fun _ t => I t) s := by
  induction as with
  | nil => intro s hs; exact hs
  | cons a as ih =>
    intro s hs
    rw [wp_forM_cons]
    refine wp_mono (hstep a List.mem_cons_self s hs) fun r t ht => ?_
    cases r with
    | error e => exact ht
    | ok u => exact ih (fun b hb => hstep b (List.mem_cons_of_mem a hb)) t ht

/-- **Loop rule for runs that succeed.**  What every turn that succeeds keeps, a loop that succeeds
keeps. -/
theorem wp_forM_ok {I : σ → Prop} (f : α → Cmd σ ε PUnit) (as : List α)
    (hstep : ∀ a ∈ as, ∀ s, I s → wp (f a) (fun r t => r.isOk = true → I t) s) :
    ∀ s, I s → wp (as.forM f) (fun r t => r.isOk = true → I t) s := by
  induction as with
  | nil => exact fun s hs _ => hs
  | cons a as ih =>
    intro s hs
    rw [wp_forM_cons]
    refine wp_mono (hstep a List.mem_cons_self s hs) fun r t ht => ?_
    cases r with
    | error e => exact fun h => by cases h
    | ok u => exact ih (fun b hb => hstep b (List.mem_cons_of_mem a hb)) t (ht rfl)

/-- **Accumulating loop rule.**  An invariant of the accumulator and the state that every turn keeps
holds when the loop ends; a failing turn ends it in a state that meets the error postcondition. -/
theorem wp_foldlM {I : β → σ → Prop} {E : ε → σ → Prop} (f : β → α → Cmd σ ε β) (as : List α)
    (hstep : ∀ b, ∀ a ∈ as, ∀ s, I b s →
      wp (f b a) (fun r t => match r with | .ok b' => I b' t | .error e => E e t) s) :
    ∀ b s, I b s →
      wp (as.foldlM f b) (fun r t => match r with | .ok b' => I b' t | .error e => E e t) s := by
  induction as with
  | nil => intro b s hs; exact hs
  | cons a as ih =>
    intro b s hs
    rw [List.foldlM_cons, wp_bind]
    refine wp_mono (hstep b a List.mem_cons_self s hs) fun r t ht => ?_
    cases r with
    | error e => exact ht
    | ok b' => exact ih (fun b a ha => hstep b a (List.mem_cons_of_mem _ ha)) b' t ht

/-- A command run on each element of a list in turn; the first failure ends the loop, and the
elements after it stay as they were. -/
def each (c : Cmd σ ε Unit) : Cmd (List σ) ε Unit := ofExec go
where
  go : List σ → Except ε Unit × List σ
    | [] => (.ok (), [])
    | s :: ss =>
      match c.exec s with
      | (.ok _, s') => ((go ss).1, s' :: (go ss).2)
      | (.error e, s') => (.error e, s' :: ss)

/-- A loop over a list with a command of its own for each place: what `each` is to one command. -/
def eachBy (c : ℕ → Cmd σ ε Unit) : Cmd (List σ) ε Unit := ofExec (go 0)
where
  go : ℕ → List σ → Except ε Unit × List σ
    | _, [] => (.ok (), [])
    | i, s :: ss =>
      match (c i).exec s with
      | (.ok _, s') => ((go (i + 1) ss).1, s' :: (go (i + 1) ss).2)
      | (.error e, s') => (.error e, s' :: ss)

/-- One command for every place is the plain loop. -/
theorem eachBy_const (c : Cmd σ ε Unit) : eachBy (fun _ => c) = each c := by
  have h : ∀ i ss, eachBy.go (fun _ => c) i ss = each.go c ss := by
    intro i ss
    induction ss generalizing i with
    | nil => rfl
    | cons s ss ih =>
      rw [eachBy.go.eq_def, each.go.eq_def]
      simp only [ih]
  exact congrArg ofExec (funext (h 0))

/-- A loop over places that succeeds has run one of its commands, with success, on every element. -/
theorem exec_eachBy_ok (c : ℕ → Cmd σ ε Unit) {ss ts : List σ}
    (h : (eachBy c).exec ss = (.ok (), ts)) :
    List.Forall₂ (fun s t => ∃ i, (c i).exec s = (.ok (), t)) ss ts := by
  have hgo : ∀ i ss ts, eachBy.go c i ss = (.ok (), ts) →
      List.Forall₂ (fun s t => ∃ i, (c i).exec s = (.ok (), t)) ss ts := by
    intro i ss
    induction ss generalizing i with
    | nil =>
      intro ts h
      cases h
      exact .nil
    | cons s ss ih =>
      intro ts h
      rw [eachBy.go.eq_def] at h
      rcases hc : (c i).exec s with ⟨r, s'⟩
      simp only [hc] at h
      cases r with
      | error e => cases h
      | ok u =>
        simp only [Prod.mk.injEq] at h
        obtain ⟨h1, rfl⟩ := h
        exact .cons ⟨i, hc⟩ (ih (i + 1) _ (Prod.ext h1 rfl))
  exact hgo 0 ss ts h

/-- A loop whose commands all succeed on every element succeeds. -/
theorem exec_eachBy_total (c : ℕ → Cmd σ ε Unit) {ss : List σ}
    (h : ∀ s ∈ ss, ∀ i, ∃ t, (c i).exec s = (.ok (), t)) : ∃ ts, (eachBy c).exec ss = (.ok (), ts) := by
  have hgo : ∀ i ss, (∀ s ∈ ss, ∀ i, ∃ t, (c i).exec s = (.ok (), t)) →
      ∃ ts, eachBy.go c i ss = (.ok (), ts) := by
    intro i ss
    induction ss generalizing i with
    | nil => exact fun _ => ⟨[], rfl⟩
    | cons s ss ih =>
      intro h
      obtain ⟨t, ht⟩ := h s List.mem_cons_self i
      obtain ⟨ts, hts⟩ := ih (i + 1) fun x hx => h x (List.mem_cons_of_mem _ hx)
      rw [eachBy.go.eq_def]
      simp only [ht, hts]
      exact ⟨_, rfl⟩
  exact hgo 0 ss h

/-- What the commands relate an element to, whatever they end with, the loop relates each element to. -/
theorem exec_eachBy_rel {R : σ → σ → Prop} (c : ℕ → Cmd σ ε Unit) (hrefl : ∀ s, R s s)
    (hc : ∀ i s, R s ((c i).exec s).2) (ss : List σ) : List.Forall₂ R ss ((eachBy c).exec ss).2 := by
  have hgo : ∀ i ss, List.Forall₂ R ss (eachBy.go c i ss).2 := by
    intro i ss
    induction ss generalizing i with
    | nil => exact .nil
    | cons s ss ih =>
      rw [eachBy.go.eq_def]
      rcases hs : (c i).exec s with ⟨r, s'⟩
      have hr : R s s' := by
        have := hc i s
        rwa [hs] at this
      simp only [hs]
      cases r with
      | ok u => exact .cons hr (ih (i + 1))
      | error e => exact .cons hr (List.forall₂_same.mpr fun x _ => hrefl x)
  exact hgo 0 ss

/-! ### Frames -/

/-- A command leaves what `f` reads of the state as it was, whatever it ends with. -/
def Frame {τ : Type} (f : σ → τ) (c : Cmd σ ε α) : Prop := ∀ s, f (c.exec s).2 = f s

section

variable {τ : Type} {f : σ → τ}

theorem Frame.wp {c : Cmd σ ε α} (h : Frame f c) (s : σ) : c.wp (fun _ t => f t = f s) s := h s

theorem frame_of_wp {c : Cmd σ ε α} (h : ∀ s, c.wp (fun _ t => f t = f s) s) : Frame f c := h

/-- What is read of an unchanged part is unchanged. -/
theorem Frame.of {υ : Type} {g : τ → υ} {c : Cmd σ ε α} (h : Frame f c) :
    Frame (fun s => g (f s)) c := fun s => congrArg g (h s)

theorem frame_pure (a : α) : Frame f (pure a : Cmd σ ε α) := fun _ => rfl

theorem frame_throw (e : ε) : Frame f (throw e : Cmd σ ε α) := fun _ => rfl

theorem frame_throw_bind (e : ε) (k : α → Cmd σ ε β) :
    Frame f ((throw e : Cmd σ ε α) >>= k) := fun _ => rfl

theorem frame_get : Frame f (get : Cmd σ ε σ) := fun _ => rfl

theorem frame_ofExcept (r : Except ε α) : Frame f (ofExcept r : Cmd σ ε α) := fun _ => rfl

theorem frame_modify {g : σ → σ} (h : ∀ s, f (g s) = f s) :
    Frame f (modify g : Cmd σ ε PUnit) := h

theorem frame_attempt {c : Cmd σ ε α} (h : Frame f c) : Frame f c.attempt := h

theorem frame_bind {c : Cmd σ ε α} {k : α → Cmd σ ε β} (hc : Frame f c) (hk : ∀ a, Frame f (k a)) :
    Frame f (c >>= k) := by
  intro s
  have h := hc s
  rw [exec_bind]
  rcases he : c.exec s with ⟨r, t⟩
  rw [he] at h
  cases r with
  | error e => exact h
  | ok a => exact (hk a t).trans h

theorem frame_zoom {υ : Type} {g : σ → υ} {p : υ → σ → σ} {c : Cmd υ ε α}
    (h : ∀ s, f (p (c.exec (g s)).2 s) = f s) : Frame f (zoom g p c) := h

theorem frame_forM {k : α → Cmd σ ε PUnit} (as : List α) (h : ∀ a ∈ as, Frame f (k a)) :
    Frame f (as.forM k) := by
  induction as with
  | nil => exact fun _ => rfl
  | cons a as ih =>
    refine frame_bind (h a List.mem_cons_self) fun _ => ?_
    exact ih fun b hb => h b (List.mem_cons_of_mem a hb)

theorem frame_foldlM {k : β → α → Cmd σ ε β} (as : List α) (h : ∀ b a, Frame f (k b a)) :
    ∀ b, Frame f (as.foldlM k b) := by
  induction as with
  | nil => exact fun b _ => rfl
  | cons a as ih =>
    intro b
    rw [List.foldlM_cons]
    exact frame_bind (h b a) ih

end

/-! ### Kept properties -/

/-- A command leads from states with a property to states with it, whatever it ends with. -/
def Keeps (I : σ → Prop) (c : Cmd σ ε α) : Prop := ∀ s, I s → wp c (fun _ t => I t) s

section

variable {I : σ → Prop}

/-- A property of an unchanged part is kept. -/
theorem Frame.keeps {τ : Type} {f : σ → τ} {c : Cmd σ ε α} (h : Frame f c) (J : τ → Prop) :
    Keeps (fun s => J (f s)) c := by
  intro s hs
  show J (f (c.exec s).2)
  rw [h s]
  exact hs

theorem keeps_pure (a : α) : Keeps I (pure a : Cmd σ ε α) := fun _ hs => hs

theorem keeps_throw (e : ε) : Keeps I (throw e : Cmd σ ε α) := fun _ hs => hs

theorem keeps_throw_bind (e : ε) (k : α → Cmd σ ε β) :
    Keeps I ((throw e : Cmd σ ε α) >>= k) := fun _ hs => hs

theorem keeps_ofExcept (r : Except ε α) : Keeps I (ofExcept r : Cmd σ ε α) := fun _ hs => hs

theorem keeps_get : Keeps I (get : Cmd σ ε σ) := fun _ hs => hs

theorem keeps_modify {g : σ → σ} (h : ∀ s, I s → I (g s)) : Keeps I (modify g : Cmd σ ε PUnit) := h

theorem keeps_attempt {c : Cmd σ ε α} (h : Keeps I c) : Keeps I c.attempt := h

theorem keeps_bind {c : Cmd σ ε α} {k : α → Cmd σ ε β} (hc : Keeps I c) (hk : ∀ a, Keeps I (k a)) :
    Keeps I (c >>= k) := by
  intro s hs
  rw [wp_bind]
  refine wp_mono (hc s hs) fun r t ht => ?_
  cases r with
  | error e => exact ht
  | ok a => exact hk a t ht

/-- A command of a part keeps a property of that part. -/
theorem keeps_zoom {υ : Type} {J : υ → Prop} {g : σ → υ} {p : υ → σ → σ} {c : Cmd υ ε α}
    (hgp : ∀ u s, g (p u s) = u) (h : Keeps J c) : Keeps (fun s => J (g s)) (zoom g p c) := by
  intro s hs
  rw [wp_zoom]
  refine wp_mono (h (g s) hs) fun r u hu => ?_
  show J (g (p u s))
  rw [hgp]
  exact hu

theorem keeps_forM {k : α → Cmd σ ε PUnit} (as : List α) (h : ∀ a ∈ as, Keeps I (k a)) :
    Keeps I (as.forM k) := by
  induction as with
  | nil => exact fun _ hs => hs
  | cons a as ih =>
    apply keeps_bind (h a List.mem_cons_self)
    intro _
    exact ih fun b hb => h b (List.mem_cons_of_mem a hb)

end

/-! ### Runs -/

/-- The states a finite sequence of steps goes through, errors included: the final one. -/
def runs {Op : Type} (step : Op → Cmd σ ε α) : List Op → σ → σ
  | [], s => s
  | op :: ops, s => runs step ops ((step op).exec s).2

@[simp] theorem runs_nil {Op : Type} (step : Op → Cmd σ ε α) (s : σ) : runs step [] s = s := rfl

@[simp] theorem runs_cons {Op : Type} (step : Op → Cmd σ ε α) (op : Op) (ops : List Op) (s : σ) :
    runs step (op :: ops) s = runs step ops ((step op).exec s).2 := rfl

theorem runs_append {Op : Type} (step : Op → Cmd σ ε α) (xs ys : List Op) (s : σ) :
    runs step (xs ++ ys) s = runs step ys (runs step xs s) := by
  induction xs generalizing s with
  | nil => rfl
  | cons x xs ih => exact ih _

/-- **Run rule.**  What every step keeps, every run keeps. -/
theorem runs_invariant {Op : Type} {I : σ → Prop} (step : Op → Cmd σ ε α)
    (hstep : ∀ op s, I s → wp (step op) (fun _ t => I t) s) (ops : List Op) :
    ∀ s, I s → I (runs step ops s) := by
  induction ops with
  | nil => exact fun s hs => hs
  | cons op ops ih => exact fun s hs => ih _ (hstep op s hs)

end Cmd

end InfraStore.Lib
