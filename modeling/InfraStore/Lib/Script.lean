import InfraStore.Lib.Cmd

/-!
# Commands that consume a script

A state may carry a script: the answers its environment gives to the statements to come, with a calm
answer once the script is exhausted.  A command is *steady* when it consumes some number of answers and
looks at nothing else of the script; a script that is calm for that long and goes on in any way then
serves it as no script at all would.

* `Steady`: the property;
* `steady_bind`, `steady_attempt`, `steady_zoom`, …: every way of composing commands keeps it;
* `Steady.interrupt`: a run may be interrupted right after a steady command, whatever that command is.
-/

namespace InfraStore.Lib.Cmd

variable {σ τ φ ε α β : Type}

/-- A command consumes a number of answers, and is otherwise indifferent to the script. -/
structure Steady (arm : List φ → σ → σ) (calm : φ) (c : Cmd σ ε α) : Prop where
  settled : ∀ s, arm [] (c.exec (arm [] s)).2 = (c.exec (arm [] s)).2
  consumes : ∀ s, ∃ k, ∀ script, c.exec (arm (List.replicate k calm ++ script) s) =
    ((c.exec (arm [] s)).1, arm script (c.exec (arm [] s)).2)

variable {arm : List φ → σ → σ} {calm : φ}

/-- **Interruption.**  After a steady command the script may go on in any way. -/
theorem Steady.interrupt {c : Cmd σ ε α} (h : Steady arm calm c) (s : σ) (script : List φ) :
    ∃ before, c.exec (arm before s) = ((c.exec (arm [] s)).1, arm script (c.exec (arm [] s)).2) := by
  obtain ⟨k, hk⟩ := h.consumes s
  exact ⟨_, hk script⟩

theorem steady_pure (harm : ∀ a b s, arm a (arm b s) = arm a s) (a : α) :
    Steady arm calm (pure a : Cmd σ ε α) where
  settled := fun s => harm [] [] s
  consumes := fun s => ⟨0, fun script => congrArg (Prod.mk _) (harm script [] s).symm⟩

theorem steady_throw (harm : ∀ a b s, arm a (arm b s) = arm a s) (e : ε) :
    Steady arm calm (throw e : Cmd σ ε α) where
  settled := fun s => harm [] [] s
  consumes := fun s => ⟨0, fun script => congrArg (Prod.mk _) (harm script [] s).symm⟩

theorem steady_ofExcept (harm : ∀ a b s, arm a (arm b s) = arm a s) (r : Except ε α) :
    Steady arm calm (ofExcept r : Cmd σ ε α) where
  settled := fun s => harm [] [] s
  consumes := fun s => ⟨0, fun script => congrArg (Prod.mk _) (harm script [] s).symm⟩

theorem steady_modify (harm : ∀ a b s, arm a (arm b s) = arm a s) {f : σ → σ}
    (hf : ∀ a s, f (arm a s) = arm a (f s)) :
    Steady arm calm (modify f : Cmd σ ε PUnit) where
  settled := fun s => by
    simp only [exec_modify, hf, harm]
  consumes := fun s => ⟨0, fun script => by
    simp only [exec_modify, hf, harm, List.replicate_zero, List.nil_append]⟩

theorem steady_bind {c : Cmd σ ε α} {f : α → Cmd σ ε β} (hc : Steady arm calm c)
    (hf : ∀ a, Steady arm calm (f a)) : Steady arm calm (c >>= f) := by
  constructor
  · intro s
    have h := hc.settled s
    rw [exec_bind]
    cases hx : c.exec (arm [] s) with
    | mk r s₁ =>
      rw [hx] at h
      cases r with
      | error e => exact h
      | ok a =>
        have hf₁ := (hf a).settled s₁
        rw [show arm [] s₁ = s₁ from h] at hf₁
        exact hf₁
  · intro s
    have h := hc.settled s
    obtain ⟨k, hk⟩ := hc.consumes s
    rw [exec_bind]
    cases hx : c.exec (arm [] s) with
    | mk r s₁ =>
      rw [hx] at h hk
      cases r with
      | error e => exact ⟨k, fun script => by rw [exec_bind, hk]⟩
      | ok a =>
        obtain ⟨l, hl⟩ := (hf a).consumes s₁
        rw [show arm [] s₁ = s₁ from h] at hl
        refine ⟨k + l, fun script => ?_⟩
        rw [exec_bind, List.replicate_add, List.append_assoc, hk]
        exact hl script

theorem steady_attempt {c : Cmd σ ε α} (hc : Steady arm calm c) : Steady arm calm c.attempt where
  settled := hc.settled
  consumes := fun s => by
    obtain ⟨k, hk⟩ := hc.consumes s
    exact ⟨k, fun script => by rw [exec_attempt, hk, exec_attempt]⟩

theorem steady_map (harm : ∀ a b s, arm a (arm b s) = arm a s) {c : Cmd σ ε α} (f : α → β)
    (hc : Steady arm calm c) :
    Steady arm calm (f <$> c) := by
  rw [map_eq_pure_bind]
  exact steady_bind hc fun a => steady_pure harm (f a)

/-- A command that looks at the state, but not at the script. -/
theorem steady_get {f : σ → Cmd σ ε β} (hsame : ∀ a s, f (arm a s) = f s)
    (hf : ∀ s, Steady arm calm (f s)) : Steady arm calm ((get : Cmd σ ε σ) >>= f) := by
  have hrun : ∀ a s, ((get : Cmd σ ε σ) >>= f).exec (arm a s) = (f s).exec (arm a s) := by
    intro a s
    rw [exec_bind, exec_get]
    show (f (arm a s)).exec (arm a s) = _
    rw [hsame]
  constructor
  · intro s
    rw [hrun]
    exact (hf s).settled s
  · intro s
    obtain ⟨k, hk⟩ := (hf s).consumes s
    exact ⟨k, fun script => by rw [hrun, hrun, hk]⟩

/-- A command of the component that carries the script. -/
theorem steady_zoom {armed : List φ → τ → τ} {g : σ → τ} {p : τ → σ → σ} {c : Cmd τ ε α}
    (hget : ∀ a s, g (arm a s) = armed a (g s)) (hput : ∀ a t s, p t (arm a s) = p t s)
    (harmed : ∀ a t s, arm a (p t s) = p (armed a t) s) (hc : Steady armed calm c) :
    Steady arm calm (zoom g p c) := by
  constructor
  · intro s
    simp only [exec_zoom, hget, hput, harmed]
    rw [hc.settled]
  · intro s
    obtain ⟨k, hk⟩ := hc.consumes (g s)
    refine ⟨k, fun script => ?_⟩
    simp only [exec_zoom, hget, hput, harmed, hk]

/-- A command of a component beside the script. -/
theorem steady_beside (harm : ∀ a b s, arm a (arm b s) = arm a s) {g : σ → τ} {p : τ → σ → σ}
    {c : Cmd τ ε α}
    (hget : ∀ a s, g (arm a s) = g s)
    (hput : ∀ a t s, p t (arm a s) = arm a (p t s)) : Steady arm calm (zoom g p c) := by
  constructor
  · intro s
    simp only [exec_zoom, hget, hput, harm]
  · intro s
    refine ⟨0, fun script => ?_⟩
    simp only [exec_zoom, hget, hput, harm, List.replicate_zero, List.nil_append]

end InfraStore.Lib.Cmd
