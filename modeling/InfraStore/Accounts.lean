import InfraStore.Staging

/-!
# What an add has written

An add that succeeds has recorded everything it wrote, whatever failures the array file is given to:
what is held afterwards was held before or is on its list.

* `Staging.Accounts`: the list is complete;
* `stageTimestampVectors_accounts`, `stageArrays_accounts`: the two parts of an add that write.
-/

namespace InfraStore

open Lib

namespace Store

section

set_option linter.unusedSectionVars false

variable {H B : Type} [DecidableEq H] [ArrayBackend H B] [Sha256 H] [LawfulArrayBackend H B]

namespace Staging

/-- Whatever a call has added to an array store, it has recorded. -/
structure Accounts (a : ArrayStore H B) (t : Staging H B) : Prop where
  array {h : H} : (t.store.arrays.content h).isSome → (a.content h).isSome ∨ h ∈ t.staged.arrays
  axis {x : H} : (t.store.arrays.vector x).isSome → (a.vector x).isSome ∨ x ∈ t.staged.timestamps

/-- A step that adds only what it records. -/
theorem Accounts.step {a : ArrayStore H B} {t t' : Staging H B} (h : Accounts a t)
    (w : FileObjects H) (hw : t'.staged = t.staged.append w)
    (harray : ∀ x, (t'.store.arrays.content x).isSome → (t.store.arrays.content x).isSome ∨ x ∈ w.arrays)
    (haxis : ∀ x, (t'.store.arrays.vector x).isSome → (t.store.arrays.vector x).isSome ∨ x ∈ w.timestamps) :
    Accounts a t' := by
  refine ⟨fun {x} hx => ?_, fun {x} hx => ?_⟩
  · rw [hw, FileObjects.mem_append_arrays, ← or_assoc]
    exact (harray x hx).imp_left h.array
  · rw [hw, FileObjects.mem_append_timestamps, ← or_assoc]
    exact (haxis x hx).imp_left h.axis

theorem Accounts.same {a : ArrayStore H B} {t t' : Staging H B} (h : Accounts a t)
    (hw : t'.staged = t.staged) (harr : t'.store.arrays.content = t.store.arrays.content)
    (hvec : t'.store.arrays.vector = t.store.arrays.vector) : Accounts a t' := by
  refine h.step .empty (by rw [FileObjects.append_empty, hw]) (fun x hx => ?_) fun x hx => ?_
  · rw [harr] at hx
    exact Or.inl hx
  · rw [hvec] at hx
    exact Or.inl hx

theorem stageTimestampVector_accounts {a : ArrayStore H B} {t : Staging H B}
    (ht : t.store.arrays.Valid) (hacc : Accounts a t) (g : PackGroup H) (ts : Option (List DateTime))
    (seen : SharedSetCache H) :
    (stageTimestampVector (B := B) g ts seen).wp (fun r t' => r.isOk = true → Accounts a t') t := by
  unfold stageTimestampVector
  split
  · rename_i h ts
    split
    · exact fun _ => hacc
    · simp only [Cmd.wp_bind, onStore, onArrays, ArrayStore.onBackend, Cmd.wp_zoom]
      refine Cmd.wp_mono (LawfulArrayBackend.putTimestamps_spec h ts ht.backend) ?_
      rintro r b ⟨-, -, harr, hr⟩
      have hcontent : (⟨t.store.arrays.buffer, b⟩ : ArrayStore H B).content = t.store.arrays.content := by
        unfold ArrayStore.content
        rw [harr]
      rcases r with e | _ | _
      · exact fun h => by cases h
      · exact fun _ => hacc.same rfl hcontent hr.2
      · simp only [if_true, Cmd.wp_bind, Cmd.wp_modify, Cmd.wp_pure]
        refine fun _ => hacc.step ⟨[], [h]⟩ ?_ (fun x hx => ?_) fun x hx => ?_
        · unfold FileObjects.append
          rw [List.append_nil]
        · rw [← hcontent]
          exact Or.inl hx
        · by_cases hxh : x = h
          · exact Or.inr (by rw [hxh]; exact List.mem_cons_self)
          · left
            have hvec : (LawfulArrayBackend.vector b x).isSome := hx
            rw [hr.2, Function.update_of_ne hxh] at hvec
            exact hvec
  · exact fun _ => hacc

theorem stageTimestampVectors_accounts {a : ArrayStore H B} {parts : List (RequestParts H)}
    (ps : List (RequestParts H)) : ∀ {t : Staging H B}, t.store.arrays.Valid → Accounts a t →
      (∀ p ∈ ps, p ∈ parts) → (∀ p ∈ ps, Axed p) → ∀ {seen : SharedSetCache H}, HeldAxes t seen →
      (stageTimestampVectors (B := B) ps seen).wp (fun r t' => r.isOk = true → Accounts a t') t := by
  induction ps with
  | nil => exact fun _ hacc _ _ _ _ _ => hacc
  | cons p ps ih =>
    intro t ht hacc hparts hax seen hseen
    unfold stageTimestampVectors
    rw [Cmd.wp_bind]
    refine Cmd.wp_mono (Cmd.wp_and (stageTimestampVector_accounts ht hacc p.group p.metadata.timestamps seen)
      (stageTimestampVector_spec ht (hparts p List.mem_cons_self) (hax p List.mem_cons_self) hseen)) ?_
    rintro r t₁ ⟨hacc₁, h₁, hok₁⟩
    cases r with
    | error e => exact fun h => by cases h
    | ok seen₁ =>
      exact ih h₁.valid (hacc₁ rfl) (fun q h => hparts q (List.mem_cons_of_mem _ h))
        (fun q h => hax q (List.mem_cons_of_mem _ h)) (hok₁ seen₁ rfl).2.1

theorem stagePut_accounts {a : ArrayStore H B} {t : Staging H B} (ht : t.store.arrays.Valid)
    (hacc : Accounts a t) {x : TypedArray} (p : RequestParts H) (hx : x.Storable) :
    (stagePut (B := B) x p).wp (fun r t' => r.isOk = true → Accounts a t') t := by
  unfold stagePut
  rw [Cmd.wp_bind, Cmd.wp_get]
  simp only [Cmd.wp_bind, onStore, onArrays, Cmd.wp_zoom]
  refine Cmd.wp_mono (ArrayStore.putArray_spec ht _ p.hash p.group p.layout hx) ?_
  rintro r s (⟨rfl, -, rfl⟩ | ⟨hne, hst, -⟩)
  · exact fun _ => hacc.same rfl rfl rfl
  rcases r with e | _ | _
  · exact fun h => by cases h
  · exact absurd rfl hne
  · intro _
    refine hacc.step ⟨[p.hash], []⟩ ?_ (fun y hy => ?_) fun y hy => ?_
    · show FileObjects.mk _ _ = _
      unfold FileObjects.append
      rw [List.append_nil]
    · by_cases hyp : y = p.hash
      · exact Or.inr (by rw [hyp]; exact List.mem_cons_self)
      · left
        have hcontent : (s.content y).isSome := hy
        rcases hst.content with c | ⟨c, -⟩
        · rw [c, Function.update_of_ne hyp] at hcontent
          exact hcontent
        · cases c
    · left
      rw [← hst.vector]
      exact hy

theorem stageBlock_accounts {a : ArrayStore H B} {t : Staging H B} (ht : t.store.arrays.Valid)
    (hacc : Accounts a t) (hidle : ∀ x, t.store.arrays.buffer.get x = none)
    {pool : PoolKey H × List (H × TypedArray)} (hnd : (pool.2.map Prod.fst).Nodup)
    (hit : ∀ it ∈ pool.2, it.2.Storable)
    (hshape : ∀ i ∈ pool.2, ∀ j ∈ pool.2, i.2.dtype = j.2.dtype ∧ i.2.shape = j.2.shape) :
    (stageBlock (B := B) pool).wp (fun r t' => r.isOk = true → Accounts a t') t := by
  unfold stageBlock
  simp only [Cmd.wp_bind, onStore, onArrays, ArrayStore.onBackend, Cmd.wp_zoom]
  refine Cmd.wp_mono (putBlock_spec pool.1.group ht.backend hnd hit hshape) ?_
  rintro r b ⟨-, -, hvec, hr⟩
  rcases r with e | written
  · exact fun h => by cases h
  · simp only [Cmd.wp_modify]
    intro _
    refine hacc.step ⟨((pool.2.zip written).filter (·.2)).map (·.1.1), []⟩ ?_ (fun x hx => ?_)
      fun x hx => Or.inl ?_
    · unfold FileObjects.append
      rw [List.append_nil]
    · have hback : (LawfulArrayBackend.array b x).isSome := by
        have : ((t.store.arrays.buffer.get x).or (LawfulArrayBackend.array b x)).isSome := hx
        rwa [hidle, Option.none_or] at this
      rcases ha : LawfulArrayBackend.array t.store.arrays.backend x with _ | y
      · right
        rw [hr.1] at hback
        unfold orInserted at hback
        rw [ha, Option.none_or] at hback
        obtain ⟨y, hl⟩ := Option.isSome_iff_exists.mp hback
        obtain ⟨l₁, l₂, hl, -⟩ := List.lookup_eq_some_iff.mp hl
        obtain ⟨p, hp, hpx, hnew⟩ := (hr.2 x).mpr ⟨ha, (x, y), by rw [hl]; simp, rfl⟩
        exact List.mem_map.mpr ⟨p, List.mem_filter.mpr ⟨hp, hnew⟩, hpx⟩
      · left
        show ((t.store.arrays.buffer.get x).or _).isSome
        rw [hidle, Option.none_or, ha]
        rfl
    · rw [← show LawfulArrayBackend.vector b = t.store.arrays.vector from hvec]
      exact hx

/-- The arrays of a batch. -/
theorem stageArrays_accounts {a : ArrayStore H B} {parts : List (RequestParts H)} {t : Staging H B}
    (ht : t.store.arrays.Valid) (hacc : Accounts a t)
    (hidle : t.store.inTransaction = false → ∀ x, t.store.arrays.buffer.get x = none)
    {xs : List (TypedArray × RequestParts H)}
    (hxs : ∀ x ∈ xs, x.2 ∈ parts ∧ Faithful x.2.hash x.1) :
    (stageArrays (B := B) xs).wp (fun r t' => r.isOk = true → Accounts a t') t := by
  -- the puts, from any list of requests of the batch
  have hputs : ∀ ys : List (TypedArray × RequestParts H), (∀ x ∈ ys, x ∈ xs) →
      (ys.forM fun x => stagePut (B := B) x.1 x.2).wp
        (fun r t' => r.isOk = true → Stages parts t t' ∧ Accounts a t') t := by
    intro ys hys
    refine Cmd.wp_forM_ok (I := fun t' => Stages parts t t' ∧ Accounts a t') _ _ ?_ t ⟨.refl ht, hacc⟩
    rintro x hx t₁ ⟨h₁, hacc₁⟩
    obtain ⟨hp, hf⟩ := hxs x (hys x hx)
    refine Cmd.wp_mono (Cmd.wp_and (stagePut_spec h₁.valid hp hf)
      (stagePut_accounts h₁.valid hacc₁ x.2 hf.2)) ?_
    rintro r t₂ ⟨⟨h₂, -⟩, hacc₂⟩
    exact fun hr => ⟨h₁.trans h₂, hacc₂ hr⟩
  unfold stageArrays
  rw [Cmd.wp_bind, Cmd.wp_get]
  simp only
  split
  · exact Cmd.wp_mono (hputs xs fun _ h => h) fun r t' h hr => (h hr).2
  rename_i htx
  have hempty := hidle (by simpa using htx)
  have hfirst : ∀ {q : TypedArray × RequestParts H → Bool}, ∀ x ∈ (firstOfHash xs []).filter q, x ∈ xs :=
    fun x hx => (firstOfHash_mem (List.mem_of_mem_filter hx)).1
  have hpooled : Pooled _ (groupPools ((firstOfHash xs []).filter fun x => x.2.layout.isPacked)) :=
    groupPools_pooled ((firstOfHash_nodup xs []).sublist (List.filter_sublist.map _))
  rw [Cmd.wp_bind]
  refine Cmd.wp_mono (hputs _ hfirst) fun r t₁ h₁ => ?_
  cases r with
  | error e => exact fun h => by cases h
  | ok u =>
    obtain ⟨hst₁, hacc₁⟩ := h₁ rfl
    have hempty₁ : ∀ x, t₁.store.arrays.buffer.get x = none := by
      intro x
      have := mt (hst₁.idle (by simpa using htx) x)
      rw [hempty x] at this
      simpa using this
    refine Cmd.wp_mono (Cmd.wp_forM_ok (I := fun t' => Stages parts t₁ t' ∧ Accounts a t' ∧
      ∀ x, t'.store.arrays.buffer.get x = none) _ _ ?_ t₁ ⟨.refl hst₁.valid, hacc₁, hempty₁⟩)
      fun r t₂ h hr => (h hr).2.1
    rintro pool hpool t₂ ⟨hst₂, hacc₂, hempty₂⟩
    have hitems : ∀ it ∈ pool.2, Faithful it.1 it.2 ∧ (∃ p ∈ parts, p.hash = it.1) ∧
        poolKey it.2 pool.1.group = pool.1 := by
      intro it hit
      obtain ⟨x, hx, h1, h2, h3⟩ := hpooled.origin pool hpool it hit
      obtain ⟨hp, hf⟩ := hxs x (hfirst x hx)
      rw [h1, h2] at hf
      refine ⟨hf, ⟨x.2, hp, h1⟩, ?_⟩
      rw [← h3, ← h2]
      rfl
    refine Cmd.wp_mono (Cmd.wp_and
      (stageBlock_spec hst₂.valid hempty₂ (hpooled.nodup pool hpool) hitems)
      (stageBlock_accounts hst₂.valid hacc₂ hempty₂ (hpooled.nodup pool hpool)
        (fun it hit => (hitems it hit).1.2) fun i hi j hj => ?_)) ?_
    · obtain ⟨⟨-, h1⟩, -, h2⟩ := hitems i hi
      obtain ⟨⟨-, h3⟩, -, h4⟩ := hitems j hj
      exact poolKey_shape h1 h3 (h2.trans h4.symm)
    · rintro r t₃ ⟨⟨h₃, hempty₃, -⟩, hacc₃⟩
      exact fun hr => ⟨hst₂.trans h₃, hacc₃ hr, hempty₃⟩

end Staging

end

end Store

end InfraStore
