import InfraStore.Store

/-!
# What a write does to the arrays

The two things a write call does to the array store, and how they compose.

* `ArrayStore.Grew`: objects were added and nothing was lost, the new ones recorded;
* `ArrayStore.Shed`: recorded objects were removed and nothing else was touched;
* `removeWrites_spec`, `stageArrays_spec`, …: which of the two each step of a write call does.
-/

namespace InfraStore

open Lib

namespace FileObjects

variable {H : Type}

theorem append_empty (o : FileObjects H) : o.append .empty = o := by
  unfold append empty
  rw [List.append_nil, List.append_nil]

theorem empty_append (o : FileObjects H) : empty.append o = o := rfl

theorem append_assoc (a b c : FileObjects H) : (a.append b).append c = a.append (b.append c) := by
  unfold append
  rw [List.append_assoc, List.append_assoc]

theorem mem_append_arrays {a b : FileObjects H} {h : H} :
    h ∈ (a.append b).arrays ↔ h ∈ a.arrays ∨ h ∈ b.arrays := List.mem_append

theorem mem_append_timestamps {a b : FileObjects H} {h : H} :
    h ∈ (a.append b).timestamps ↔ h ∈ a.timestamps ∨ h ∈ b.timestamps := List.mem_append

theorem isEmpty_iff {o : FileObjects H} : o.isEmpty = true ↔ o.arrays = [] ∧ o.timestamps = [] := by
  unfold isEmpty
  rw [Bool.and_eq_true, List.isEmpty_iff, List.isEmpty_iff]

end FileObjects

section

variable {H B : Type} [DecidableEq H] [ArrayBackend H B] [Sha256 H] [LawfulArrayBackend H B]

/-- An array stored under its own content hash. -/
def Faithful (h : H) (a : TypedArray) : Prop := arrayHash a = h ∧ a.Storable

/-- A stored axis under its own content hash. -/
def FaithfulAxis (t : H) (ms : List ℤ) : Prop :=
  ∃ ts : List DateTime, (∀ x ∈ ts, x.IsMillis) ∧ timestampsHash ts = t ∧ toMillis ts = ms

namespace ArrayStore

/-! ### Adding objects -/

/-- Objects were added and nothing was lost.  What the call wrote was not held before, and where
removals do not fail it is all that is new. -/
structure Grew (s s' : ArrayStore H B) (w : FileObjects H) : Prop where
  valid : s'.Valid
  quiet : s.Quiet → s'.Quiet
  kept {h : H} {a : TypedArray} : s.content h = some a → s'.content h = some a
  fresh {h : H} : h ∈ w.arrays → s.content h = none
  origin {h : H} {a : TypedArray} : s'.content h = some a → s.content h = some a ∨ Faithful h a
  exact {h : H} : s.Quiet → (s'.content h).isSome → (s.content h).isSome ∨ h ∈ w.arrays
  buffered {h : H} : (s'.buffer.get h).isSome → (s.buffer.get h).isSome ∨ h ∈ w.arrays
  keptAxis {t : H} {ms : List ℤ} : s.vector t = some ms → s'.vector t = some ms
  freshAxis {t : H} : t ∈ w.timestamps → s.vector t = none
  originAxis {t : H} {ms : List ℤ} : s'.vector t = some ms → s.vector t = some ms ∨ FaithfulAxis t ms
  exactAxis {t : H} : s.Quiet → (s'.vector t).isSome → (s.vector t).isSome ∨ t ∈ w.timestamps

theorem Grew.of_written {s s' : ArrayStore H B} (hs : s.Valid) (h : Written s s') :
    Grew s s' .empty where
  valid := h.valid
  quiet := h.quiet
  kept e := by rw [h.content]; exact e
  fresh e := (List.not_mem_nil e).elim
  origin e := Or.inl (by rw [← h.content]; exact e)
  exact _ e := Or.inl (by rw [← h.content]; exact e)
  buffered e := Or.inl (h.buffered hs e)
  keptAxis e := by rw [h.vector]; exact e
  freshAxis e := (List.not_mem_nil e).elim
  originAxis e := Or.inl (by rw [← h.vector]; exact e)
  exactAxis _ e := Or.inl (by rw [← h.vector]; exact e)

theorem Grew.refl {s : ArrayStore H B} (hs : s.Valid) : Grew s s .empty :=
  .of_written hs (Written.refl hs)

theorem Grew.held {s s' : ArrayStore H B} {w : FileObjects H} (h : Grew s s' w) {x : H}
    (hx : (s.content x).isSome) : (s'.content x).isSome := by
  obtain ⟨a, ha⟩ := Option.isSome_iff_exists.mp hx
  rw [h.kept ha]
  rfl

theorem Grew.heldAxis {s s' : ArrayStore H B} {w : FileObjects H} (h : Grew s s' w) {t : H}
    (ht : (s.vector t).isSome) : (s'.vector t).isSome := by
  obtain ⟨ms, hms⟩ := Option.isSome_iff_exists.mp ht
  rw [h.keptAxis hms]
  rfl

theorem Grew.trans {s s' s'' : ArrayStore H B} {w w' : FileObjects H} (h : Grew s s' w)
    (h' : Grew s' s'' w') : Grew s s'' (w.append w') where
  valid := h'.valid
  quiet hq := h'.quiet (h.quiet hq)
  kept e := h'.kept (h.kept e)
  fresh {x} e := by
    rcases FileObjects.mem_append_arrays.mp e with e | e
    · exact h.fresh e
    · rcases hx : s.content x with _ | a
      · rfl
      · exact absurd (h'.fresh e) (by rw [h.kept hx]; simp)
  origin e := by
    rcases h'.origin e with e | e
    · exact h.origin e
    · exact Or.inr e
  exact hq e := by
    rw [FileObjects.mem_append_arrays]
    rcases h'.exact (h.quiet hq) e with e | e
    · exact (h.exact hq e).imp_right Or.inl
    · exact Or.inr (Or.inr e)
  buffered e := by
    rw [FileObjects.mem_append_arrays]
    rcases h'.buffered e with e | e
    · exact (h.buffered e).imp_right Or.inl
    · exact Or.inr (Or.inr e)
  keptAxis e := h'.keptAxis (h.keptAxis e)
  freshAxis {t} e := by
    rcases FileObjects.mem_append_timestamps.mp e with e | e
    · exact h.freshAxis e
    · rcases hx : s.vector t with _ | ms
      · rfl
      · exact absurd (h'.freshAxis e) (by rw [h.keptAxis hx]; simp)
  originAxis e := by
    rcases h'.originAxis e with e | e
    · exact h.originAxis e
    · exact Or.inr e
  exactAxis hq e := by
    rw [FileObjects.mem_append_timestamps]
    rcases h'.exactAxis (h.quiet hq) e with e | e
    · exact (h.exactAxis hq e).imp_right Or.inl
    · exact Or.inr (Or.inr e)

/-! ### Removing objects -/

/-- Some of the recorded objects were removed, all of them where removals do not fail, and every one
of them has left the buffer. -/
structure Shed (s s' : ArrayStore H B) (w : FileObjects H) : Prop where
  valid : s'.Valid
  quiet : s.Quiet → s'.Quiet
  kept {h : H} : h ∉ w.arrays → s'.content h = s.content h
  less (h : H) : s'.content h = s.content h ∨ s'.content h = none
  gone {h : H} : s.Quiet → h ∈ w.arrays → s'.content h = none
  buffered (h : H) : s'.buffer.get h = if h ∈ w.arrays then none else s.buffer.get h
  keptAxis {t : H} : t ∉ w.timestamps → s'.vector t = s.vector t
  lessAxis (t : H) : s'.vector t = s.vector t ∨ s'.vector t = none
  goneAxis {t : H} : s.Quiet → t ∈ w.timestamps → s'.vector t = none

theorem Shed.refl {s : ArrayStore H B} (hs : s.Valid) : Shed s s .empty where
  valid := hs
  quiet := id
  kept _ := rfl
  less _ := Or.inl rfl
  gone _ e := (List.not_mem_nil e).elim
  buffered _ := by rw [if_neg]; exact List.not_mem_nil
  keptAxis _ := rfl
  lessAxis _ := Or.inl rfl
  goneAxis _ e := (List.not_mem_nil e).elim

theorem Shed.trans {s s' s'' : ArrayStore H B} {w w' : FileObjects H} (h : Shed s s' w)
    (h' : Shed s' s'' w') : Shed s s'' (w.append w') where
  valid := h'.valid
  quiet hq := h'.quiet (h.quiet hq)
  kept e := by
    rw [FileObjects.mem_append_arrays, not_or] at e
    rw [h'.kept e.2, h.kept e.1]
  less x := by
    rcases h'.less x with e | e
    · rw [e]
      exact h.less x
    · exact Or.inr e
  gone {x} hq e := by
    rcases FileObjects.mem_append_arrays.mp e with e | e
    · rcases h'.less x with e' | e'
      · rw [e']
        exact h.gone hq e
      · exact e'
    · exact h'.gone (h.quiet hq) e
  buffered x := by
    rw [h'.buffered, h.buffered]
    by_cases h1 : x ∈ w'.arrays
    · rw [if_pos h1, if_pos (FileObjects.mem_append_arrays.mpr (Or.inr h1))]
    · rw [if_neg h1]
      by_cases h2 : x ∈ w.arrays
      · rw [if_pos h2, if_pos (FileObjects.mem_append_arrays.mpr (Or.inl h2))]
      · rw [if_neg h2, if_neg fun e => (FileObjects.mem_append_arrays.mp e).elim h2 h1]
  keptAxis e := by
    rw [FileObjects.mem_append_timestamps, not_or] at e
    rw [h'.keptAxis e.2, h.keptAxis e.1]
  lessAxis x := by
    rcases h'.lessAxis x with e | e
    · rw [e]
      exact h.lessAxis x
    · exact Or.inr e
  goneAxis {x} hq e := by
    rcases FileObjects.mem_append_timestamps.mp e with e | e
    · rcases h'.lessAxis x with e' | e'
      · rw [e']
        exact h.goneAxis hq e
      · exact e'
    · exact h'.goneAxis (h.quiet hq) e

theorem Shed.unbuffered {s s' : ArrayStore H B} {w : FileObjects H} (h : Shed s s' w) {x : H}
    (hx : (s'.buffer.get x).isSome) : (s.buffer.get x).isSome ∧ x ∉ w.arrays := by
  rw [h.buffered] at hx
  split at hx
  · cases hx
  · rename_i hn
    exact ⟨hx, hn⟩

/-- An array that is still there is the one that was. -/
theorem Shed.origin {s s' : ArrayStore H B} {w : FileObjects H} (h : Shed s s' w) {x : H}
    {a : TypedArray} (hx : s'.content x = some a) : s.content x = some a := by
  rcases h.less x with e | e
  · rw [← e]
    exact hx
  · rw [e] at hx
    cases hx

theorem Shed.originAxis {s s' : ArrayStore H B} {w : FileObjects H} (h : Shed s s' w) {t : H}
    {ms : List ℤ} (ht : s'.vector t = some ms) : s.vector t = some ms := by
  rcases h.lessAxis t with e | e
  · rw [← e]
    exact ht
  · rw [e] at ht
    cases ht

/-- **A write call that is undone** leaves everything that was there, and adds nothing where removals
do not fail. -/
theorem Grew.undo {s s' s'' : ArrayStore H B} {w : FileObjects H} (h : Grew s s' w)
    (h' : Shed s' s'' w) : Grew s s'' .empty where
  valid := h'.valid
  quiet hq := h'.quiet (h.quiet hq)
  kept {x a} e := by
    rw [h'.kept fun c => by rw [h.fresh c] at e; cases e]
    exact h.kept e
  fresh e := (List.not_mem_nil e).elim
  origin e := h.origin (h'.origin e)
  exact {x} hq e := by
    obtain ⟨a, ha⟩ := Option.isSome_iff_exists.mp e
    refine Or.inl ((h.exact hq ?_).resolve_right fun c => ?_)
    · rw [h'.origin ha]
      rfl
    · rw [h'.gone (h.quiet hq) c] at ha
      cases ha
  buffered e := by
    obtain ⟨e1, e2⟩ := h'.unbuffered e
    exact Or.inl ((h.buffered e1).resolve_right e2)
  keptAxis {t ms} e := by
    rw [h'.keptAxis fun c => by rw [h.freshAxis c] at e; cases e]
    exact h.keptAxis e
  freshAxis e := (List.not_mem_nil e).elim
  originAxis e := h.originAxis (h'.originAxis e)
  exactAxis {t} hq e := by
    obtain ⟨ms, hms⟩ := Option.isSome_iff_exists.mp e
    refine Or.inl ((h.exactAxis hq ?_).resolve_right fun c => ?_)
    · rw [h'.originAxis hms]
      rfl
    · rw [h'.goneAxis (h.quiet hq) c] at hms
      cases hms

/-! ### The steps of a removal -/

theorem removeArray_shed {s : ArrayStore H B} (hs : s.Valid) (h : H) :
    ((removeArray (B := B) h).attempt).wp
      (fun r s' => r.isOk = true ∧ Shed s s' ⟨[h], []⟩) s := by
  rw [Cmd.wp_attempt]
  refine Cmd.wp_mono (removeArray_spec hs h) ?_
  rintro r s' ⟨hv, hvec, hc, hq, hget⟩
  have hmem : ∀ x : H, x ∈ (⟨[h], []⟩ : FileObjects H).arrays ↔ x = h := fun x => List.mem_singleton
  refine ⟨rfl, hv, fun hQ => (hq hQ).1, fun {x} e => ?_, fun x => ?_, fun {x} hQ e => ?_, fun x => ?_,
    fun _ => by rw [hvec], fun t => Or.inl (by rw [hvec]), fun _ e => (List.not_mem_nil e).elim⟩
  · rw [hmem] at e
    rcases hc with c | c
    · rw [c]
    · rw [c, Function.update_of_ne e]
  · rcases hc with c | c
    · exact Or.inl (by rw [c])
    · rw [c]
      by_cases e : x = h
      · exact Or.inr (by rw [e, Function.update_self])
      · exact Or.inl (by rw [Function.update_of_ne e])
  · rw [(hmem x).mp e, (hq hQ).2.2, Function.update_self]
  · rw [hget]
    by_cases e : x = h
    · rw [if_pos ((hmem x).mpr e), e, Function.update_self]
    · rw [if_neg fun c => e ((hmem x).mp c), Function.update_of_ne e]

theorem removeTimestamps_shed {s : ArrayStore H B} (hs : s.Valid) (t : H) :
    ((onBackend (ArrayBackend.removeTimestamps t) : StoreCmd (ArrayStore H B) Unit).attempt).wp
      (fun r s' => r.isOk = true ∧ Shed s s' ⟨[], [t]⟩) s := by
  rw [Cmd.wp_attempt]
  simp only [onBackend, Cmd.wp_zoom]
  refine Cmd.wp_mono (LawfulArrayBackend.removeTimestamps_spec t hs.backend) ?_
  rintro r b' ⟨hv, hq, harr, hr⟩
  have hcontent : ∀ x, (⟨s.buffer, b'⟩ : ArrayStore H B).content x = s.content x := by
    intro x
    unfold content
    rw [harr]
  have hvec : (⟨s.buffer, b'⟩ : ArrayStore H B).vector = s.vector ∨
      (⟨s.buffer, b'⟩ : ArrayStore H B).vector = Function.update s.vector t none := by
    rcases r with e | u
    · exact hr
    · exact Or.inr hr
  refine ⟨rfl, ⟨hv, hs.indexed, fun e e' => hs.agree e (by rw [← harr]; exact e')⟩,
    fun hQ => ⟨(hq hQ.backend).1, fun e => (congrFun harr _).trans (hQ.disjoint e)⟩,
    fun _ => hcontent _, fun x => Or.inl (hcontent x), fun _ e => (List.not_mem_nil e).elim,
    fun x => by rw [if_neg]; exact List.not_mem_nil, fun {x} e => ?_, fun x => ?_,
    fun {x} hQ e => ?_⟩
  · rw [List.mem_singleton] at e
    rcases hvec with c | c
    · rw [c]
    · rw [c, Function.update_of_ne e]
  · rcases hvec with c | c
    · exact Or.inl (by rw [c])
    · rw [c]
      by_cases e : x = t
      · exact Or.inr (by rw [e, Function.update_self])
      · exact Or.inl (by rw [Function.update_of_ne e])
  · rw [(hq hQ.backend).2] at hr
    rw [List.mem_singleton.mp e]
    exact (congrFun hr t).trans (Function.update_self _ _ _)

/-- Several removals, each recorded, one after the other. -/
theorem shed_forM {α : Type} (f : α → StoreCmd (ArrayStore H B) PUnit) (w : α → FileObjects H)
    (hf : ∀ {s : ArrayStore H B}, s.Valid → ∀ a,
      (f a).wp (fun r s' => r.isOk = true ∧ Shed s s' (w a)) s) (as : List α) :
    ∀ {s : ArrayStore H B}, s.Valid → (as.forM f).wp
      (fun r s' => r.isOk = true ∧
        Shed s s' (as.foldr (fun a o => (w a).append o) .empty)) s := by
  induction as with
  | nil => exact fun hs => ⟨rfl, Shed.refl hs⟩
  | cons a as ih =>
    intro s hs
    rw [Cmd.wp_forM_cons]
    refine Cmd.wp_mono (hf hs a) ?_
    rintro r s₁ ⟨hr, h₁⟩
    rcases r with e | u
    · cases hr
    · refine Cmd.wp_mono (ih h₁.valid) ?_
      rintro r s₂ ⟨hr₂, h₂⟩
      exact ⟨hr₂, h₁.trans h₂⟩

/-! ### The steps of an addition -/

/-- A stored array is one that grew the store, if the call reports it. -/
theorem Stored.grew {s s' : ArrayStore H B} {h : H} {a : TypedArray} {ok : Bool}
    (hst : Stored s h a ok s') (ha : Faithful h a) :
    Grew s s' (if ok then ⟨[h], []⟩ else .empty) := by
  have hne : ∀ {x a'}, s.content x = some a' → x ≠ h := by
    rintro x a' e rfl
    rw [hst.fresh] at e
    cases e
  have hother : ∀ {x}, x ≠ h → s'.content x = s.content x := by
    intro x e
    rcases hst.content with c | ⟨-, c⟩
    · rw [c, Function.update_of_ne e]
    · rw [c]
  have hself : s'.content h = some a ∨ s'.content h = none := by
    rcases hst.content with c | ⟨-, c⟩
    · exact Or.inl (by rw [c, Function.update_self])
    · exact Or.inr (by rw [c, hst.fresh])
  have hmem : ∀ {x}, x ∈ (if ok then (⟨[h], []⟩ : FileObjects H) else .empty).arrays ↔
      ok = true ∧ x = h := by
    intro x
    cases ok
    · simp [FileObjects.empty]
    · simp
  have hts : ∀ {x}, x ∉ (if ok then (⟨[h], []⟩ : FileObjects H) else .empty).timestamps := by
    intro x
    cases ok <;> simp [FileObjects.empty]
  refine ⟨hst.valid, hst.quiet, fun e => (hother (hne e)).trans e, fun e => ?_, fun {x a'} e => ?_,
    fun {x} hQ e => ?_, fun {x} e => ?_, fun e => by rw [hst.vector]; exact e, fun e => (hts e).elim,
    fun e => Or.inl (by rw [← hst.vector]; exact e),
    fun _ e => Or.inl (by rw [← hst.vector]; exact e)⟩
  · rw [(hmem.mp e).2]
    exact hst.fresh
  · by_cases hx : x = h
    · rw [hx] at e ⊢
      rcases hself with c | c
      · rw [c] at e
        cases e
        exact Or.inr ha
      · rw [c] at e
        cases e
    · exact Or.inl ((hother hx).symm.trans e)
  · by_cases hx : x = h
    · rcases hok : ok with _ | _
      · rw [hst.undone hok hQ] at e
        exact Or.inl e
      · exact Or.inr (hok ▸ hmem.mpr ⟨hok, hx⟩)
    · rw [hother hx] at e
      exact Or.inl e
  · rw [hmem]
    exact hst.buffered e

/-- **One array.**  It is held after a put that succeeds, and the call reports whether it is new. -/
theorem putArray_grew {s : ArrayStore H B} (hs : s.Valid) (inTxn : Bool) (h : H) {a : TypedArray}
    (g : PackGroup H) (l : ArrayLayout) (ha : Faithful h a) :
    (putArray (B := B) inTxn h a g l).wp
      (fun r s' => Grew s s' (match r with | .ok true => ⟨[h], []⟩ | _ => .empty) ∧
        (r.isOk = true → (s'.content h).isSome) ∧
        (inTxn = false → ∀ x, (s'.buffer.get x).isSome → (s.buffer.get x).isSome)) s := by
  refine Cmd.wp_mono (putArray_spec hs inTxn h g l ha.2) fun r s' hr => ?_
  rcases hr with ⟨rfl, hheld, rfl⟩ | ⟨hne, hst, hbuf⟩
  · exact ⟨Grew.refl hs, fun _ => hheld, fun _ _ hx => hx⟩
  · have hgrew := hst.grew ha
    rcases r with e | _ | _
    · exact ⟨hgrew, fun h => (by cases h), hbuf⟩
    · exact absurd rfl hne
    · refine ⟨hgrew, fun _ => ?_, hbuf⟩
      rcases hst.content with c | ⟨c, -⟩
      · rw [c, Function.update_self]
        rfl
      · cases c

/-- What a block write leaves in the backend, seen through the store. -/
theorem backend_grew {s : ArrayStore H B} (hs : s.Valid) {b' : B} {items : List (H × TypedArray)}
    {w : List H} (hidle : ∀ x, s.buffer.get x = none) (hv : LawfulArrayBackend.Valid b')
    (hq : LawfulArrayBackend.Quiet s.backend → LawfulArrayBackend.Quiet b')
    (hvec : LawfulArrayBackend.vector b' = LawfulArrayBackend.vector s.backend)
    (harr : ∀ h, LawfulArrayBackend.array b' h = LawfulArrayBackend.array s.backend h ∨
      LawfulArrayBackend.array b' h = orInserted (LawfulArrayBackend.array s.backend) items h)
    (hitems : ∀ it ∈ items, Faithful it.1 it.2)
    (hw : ∀ h ∈ w, LawfulArrayBackend.array s.backend h = none)
    (hexact : LawfulArrayBackend.Quiet s.backend → ∀ h, (LawfulArrayBackend.array b' h).isSome →
      (LawfulArrayBackend.array s.backend h).isSome ∨ h ∈ w) :
    Grew s ⟨s.buffer, b'⟩ ⟨w, []⟩ := by
  have hbase : ∀ b : B, ∀ x, (⟨s.buffer, b⟩ : ArrayStore H B).content x =
      LawfulArrayBackend.array b x := by
    intro b x
    show (s.buffer.get x).or _ = _
    rw [hidle, Option.none_or]
  have hold : ∀ x, s.content x = LawfulArrayBackend.array s.backend x := hbase s.backend
  have hnone : ∀ {x : H} {a : TypedArray}, s.buffer.get x = some a → False := by
    intro x a e
    rw [hidle] at e
    cases e
  refine ⟨⟨hv, hs.indexed, fun e => (hnone e).elim⟩, fun hQ => ⟨hq hQ.backend, fun e => (hnone e).elim⟩,
    fun {x a} e => ?_, fun {x} e => ?_, fun {x a} e => ?_, fun {x} hQ e => ?_,
    fun e => Or.inl e, fun e => (congrFun hvec _).trans e, fun e => (List.not_mem_nil e).elim,
    fun e => Or.inl ((congrFun hvec _).symm.trans e), fun _ e => Or.inl ?_⟩
  · rw [hold] at e
    rw [hbase]
    rcases harr x with c | c
    · exact c.trans e
    · rw [c]
      unfold orInserted
      rw [e]
      rfl
  · rw [hold]
    exact hw x e
  · rw [hbase] at e
    rw [hold]
    rcases harr x with c | c
    · exact Or.inl (c.symm.trans e)
    · rw [c] at e
      unfold orInserted at e
      rcases ha : LawfulArrayBackend.array s.backend x with _ | a'
      · rw [ha, Option.none_or] at e
        obtain ⟨l₁, l₂, hl, -⟩ := List.lookup_eq_some_iff.mp e
        exact Or.inr (hitems (x, a) (by rw [hl]; simp))
      · rw [ha] at e
        exact Or.inl e
  · rw [hbase] at e
    rw [hold]
    exact hexact hQ.backend x e
  · rw [show s.vector = LawfulArrayBackend.vector b' from hvec.symm]
    exact e

/-- **One explicit axis.** -/
theorem putTimestamps_grew {s : ArrayStore H B} (hs : s.Valid) (t : H) {ts : List DateTime}
    (hts : (∀ x ∈ ts, x.IsMillis) ∧ timestampsHash ts = t) :
    (onBackend (ArrayBackend.putTimestamps t ts) : StoreCmd (ArrayStore H B) Bool).wp
      (fun r s' => Grew s s' (match r with | .ok true => ⟨[], [t]⟩ | _ => .empty) ∧
        (r.isOk = true → (s'.vector t).isSome) ∧ s'.buffer = s.buffer) s := by
  simp only [onBackend, Cmd.wp_zoom]
  refine Cmd.wp_mono (LawfulArrayBackend.putTimestamps_spec t ts hs.backend) ?_
  rintro r b' ⟨hv, hq, harr, hr⟩
  have hcontent : ∀ x, (⟨s.buffer, b'⟩ : ArrayStore H B).content x = s.content x := by
    intro x
    unfold content
    rw [harr]
  have hvalid : (⟨s.buffer, b'⟩ : ArrayStore H B).Valid :=
    ⟨hv, hs.indexed, fun e e' => hs.agree e (by rw [← harr]; exact e')⟩
  have hquiet : s.Quiet → (⟨s.buffer, b'⟩ : ArrayStore H B).Quiet := fun hQ =>
    ⟨hq hQ.backend, fun e => (congrFun harr _).trans (hQ.disjoint e)⟩
  have hsame : LawfulArrayBackend.vector b' = LawfulArrayBackend.vector s.backend →
      Grew s ⟨s.buffer, b'⟩ .empty := fun hvec =>
    ⟨hvalid, hquiet, fun e => (hcontent _).trans e, fun e => (List.not_mem_nil e).elim,
      fun e => Or.inl ((hcontent _).symm.trans e), fun _ e => Or.inl (by rw [← hcontent]; exact e),
      fun e => Or.inl e, fun e => (congrFun hvec _).trans e, fun e => (List.not_mem_nil e).elim,
      fun e => Or.inl ((congrFun hvec _).symm.trans e),
      fun _ e => Or.inl (by rw [show s.vector = LawfulArrayBackend.vector b' from hvec.symm]; exact e)⟩
  rcases r with e | _ | _
  · exact ⟨hsame hr, fun h => (by cases h), trivial⟩
  · refine ⟨hsame hr.2, fun _ => ?_, trivial⟩
    show (LawfulArrayBackend.vector b' t).isSome
    rw [hr.2]
    exact hr.1
  · obtain ⟨hn, hvec⟩ := hr
    have hself : (⟨s.buffer, b'⟩ : ArrayStore H B).vector t = some (toMillis ts) :=
      (congrFun hvec t).trans (Function.update_self _ _ _)
    have hother : ∀ {x}, x ≠ t → (⟨s.buffer, b'⟩ : ArrayStore H B).vector x = s.vector x :=
      fun e => (congrFun hvec _).trans (Function.update_of_ne e _ _)
    refine ⟨⟨hvalid, hquiet, fun e => (hcontent _).trans e, fun e => (List.not_mem_nil e).elim,
      fun e => Or.inl ((hcontent _).symm.trans e), fun _ e => Or.inl (by rw [← hcontent]; exact e),
      fun e => Or.inl e, fun {x ms} e => ?_, fun {x} e => ?_, fun {x ms} e => ?_,
      fun {x} _ e => ?_⟩, fun _ => by rw [hself]; rfl, trivial⟩
    · refine (hother ?_).trans e
      rintro rfl
      rw [show s.vector x = none from hn] at e
      cases e
    · rw [List.mem_singleton.mp e]
      exact hn
    · by_cases hx : x = t
      · rw [hx, hself] at e
        cases e
        exact Or.inr ⟨ts, hts.1, by rw [hx]; exact hts.2, rfl⟩
      · exact Or.inl ((hother hx).symm.trans e)
    · by_cases hx : x = t
      · exact Or.inr (List.mem_singleton.mpr hx)
      · rw [hother hx] at e
        exact Or.inl e

end ArrayStore

end

end InfraStore
