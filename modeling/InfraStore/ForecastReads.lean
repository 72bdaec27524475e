import InfraStore.DerivedReads
import InfraStore.Exclusivity
import InfraStore.ForecastReader
import InfraStore.Identity

/-!
# Reads of a forecast reader

What a read leaves in the slots of a forecast reader, and what the entries of views expose.

* `WindowSlot.bare`, `ForecastReader.frame_read`: what a reader is built with, which no read changes;
* `WindowSlot.install_eq`: the bytes of the batch, handed out, are each derived slot's own run;
* `ForecastReader.readIntoBy_ok`: every slot of a reader that was read;
* `buildForecastEntries_ok`: each entry of a built reader is that of a row, and so is its slot;
* `ArrayStore.Serves.forecastRead_views`: the entry of a view exposes one of its windows;
* `derived_views_stacked`: the full gather, the gather of a range and the reader's rows agree.
-/

namespace InfraStore

open Lib

/-! ### What reads leave alone -/

namespace WindowSlot

variable {H : Type}

/-- A slot as it was built. -/
def bare (s : WindowSlot H) : WindowSlot H :=
  { s with cached := none, block := [], buf := [], filled := false }

section

variable {s s' : WindowSlot H} (h : s.bare = s'.bare)
include h

theorem hash_of_bare : s.hash = s'.hash := by
  show s.bare.hash = s'.bare.hash
  rw [h]

theorem elementType_of_bare : s.elementType = s'.elementType := by
  show s.bare.elementType = s'.bare.elementType
  rw [h]

theorem windowShape_of_bare : s.windowShape = s'.windowShape := by
  show s.bare.windowShape = s'.bare.windowShape
  rw [h]

theorem read_of_bare : s.read = s'.read := by
  show s.bare.read = s'.bare.read
  rw [h]

theorem request_of_bare (window : ℕ) : s.request window = s'.request window := by
  unfold request derivedSpan dtype
  rw [hash_of_bare h, elementType_of_bare h, read_of_bare h]

theorem windowBytes_of_bare : s.windowBytes = s'.windowBytes := by
  unfold windowBytes dtype
  rw [windowShape_of_bare h, elementType_of_bare h]

end

theorem derivedSpan_isNone (s : WindowSlot H) (window : ℕ) :
    (s.derivedSpan window).isNone = (s.request window).isNone := by
  unfold request
  cases s.derivedSpan window with
  | none => rfl
  | some rows => rfl

theorem frame_readWindow (reads : WindowReads H) (window : ℕ) :
    Cmd.Frame bare (readWindow reads window) := by
  unfold readWindow
  refine Cmd.frame_bind Cmd.frame_get fun s => ?_
  cases s.read with
  | derived k n => exact Cmd.frame_throw _
  | dense axis =>
    refine Cmd.frame_bind (Cmd.frame_modify fun _ => rfl) fun _ => ?_
    simp only
    split
    · refine Cmd.frame_bind (Cmd.frame_modify fun _ => rfl) fun _ => ?_
      refine Cmd.frame_bind (Cmd.frame_zoom fun _ => rfl) fun _ => ?_
      refine Cmd.frame_bind (Cmd.frame_modify fun _ => rfl) fun _ => ?_
      exact Cmd.frame_modify fun _ => rfl
    · exact Cmd.frame_modify fun _ => rfl

theorem frame_turn (reads : WindowReads H) (window : ℕ) : Cmd.Frame bare (turn reads window) := by
  unfold turn
  refine Cmd.frame_bind Cmd.frame_get fun s => ?_
  simp only
  split
  · split
    · refine Cmd.frame_bind (Cmd.frame_ofExcept _) fun held => ?_
      split
      · refine Cmd.frame_bind (Cmd.frame_modify fun _ => rfl) fun _ => ?_
        exact Cmd.frame_throw_bind _ _
      · exact frame_readWindow reads window
    · exact frame_readWindow reads window
  · exact Cmd.frame_pure _

theorem install_bare (window : ℕ) (slots : List (WindowSlot H)) (bytes : List UInt8) :
    (install window slots bytes).2.map bare = slots.map bare := by
  induction slots generalizing bytes with
  | nil => rfl
  | cons s slots ih =>
    unfold install
    split
    · rw [List.map_cons, List.map_cons, ih]
    · split
      · rfl
      · rw [List.map_cons, List.map_cons, ih]
        rfl

end WindowSlot

namespace ForecastReader

variable {H : Type}

/-- A reader as it was built. -/
def bare (r : ForecastReader H) : ForecastReader H := { r with slots := r.slots.map WindowSlot.bare }

/-- Every slot of a reader that was read since is one it was built with. -/
theorem slot_of_bare {r r' : ForecastReader H} (h : r.bare = r'.bare) {t : WindowSlot H}
    (ht : t ∈ r.slots) : ∃ t₀ ∈ r'.slots, t.bare = t₀.bare := by
  have hmap : r.slots.map WindowSlot.bare = r'.slots.map WindowSlot.bare :=
    congrArg ForecastReader.slots h
  have hmem := List.mem_map_of_mem (f := WindowSlot.bare) ht
  rw [hmap] at hmem
  obtain ⟨t₀, ht₀, hb⟩ := List.mem_map.mp hmem
  exact ⟨t₀, ht₀, hb.symm⟩

/-- The slot an entry names is the one it was built with. -/
theorem slotAt_of_bare {r r' : ForecastReader H} (h : r.bare = r'.bare) {i : ℕ} {t₀ : WindowSlot H}
    (ht : r'.slots[i]? = some t₀) : ∃ t, r.slots[i]? = some t ∧ t.bare = t₀.bare := by
  have hmap : r.slots.map WindowSlot.bare = r'.slots.map WindowSlot.bare :=
    congrArg ForecastReader.slots h
  have hi := congrArg (fun ss => ss[i]?) hmap
  simp only [List.getElem?_map, ht, Option.map_some] at hi
  exact Option.map_eq_some_iff.mp hi

theorem frame_onSlots {α : Type} {c : StoreCmd (List (WindowSlot H)) α}
    (h : Cmd.Frame (fun ss => ss.map WindowSlot.bare) c) : Cmd.Frame bare (onSlots c) := by
  apply Cmd.frame_zoom
  intro r
  exact congrArg (fun ss => { r with slots := ss }) (h r.slots)

theorem frame_each (reads : ℕ → WindowReads H) (window : ℕ) :
    Cmd.Frame (fun ss => ss.map WindowSlot.bare)
      (Cmd.eachBy fun i => WindowSlot.turn (reads i) window) := by
  intro ss
  have h := Cmd.exec_eachBy_rel (R := fun s t => s.bare = t.bare)
    (fun i => WindowSlot.turn (reads i) window) (fun _ => rfl)
    (fun i s => (WindowSlot.frame_turn (reads i) window s).symm) ss
  have hmap : List.Forall₂ (· = ·) (ss.map WindowSlot.bare)
      (((Cmd.eachBy fun i => WindowSlot.turn (reads i) window).exec ss).2.map WindowSlot.bare) :=
    List.forall₂_map_left_iff.mpr (List.forall₂_map_right_iff.mpr h)
  rw [List.forall₂_eq_eq_eq] at hmap
  exact hmap.symm

theorem frame_readDerived (reads : WindowReads H) (window : ℕ) :
    Cmd.Frame (fun ss => ss.map WindowSlot.bare) (readDerived reads window) := by
  unfold readDerived
  refine Cmd.frame_bind Cmd.frame_get fun slots => ?_
  simp only
  split
  · refine Cmd.frame_bind (Cmd.frame_ofExcept _) fun bytes => ?_
    refine Cmd.frame_bind (fun ss => WindowSlot.install_bare window ss bytes) fun rest => ?_
    split
    · exact Cmd.frame_throw _
    · exact Cmd.frame_pure _
  · exact Cmd.frame_pure _

theorem frame_readIntoBy (at_ : DateTime) (reads : ℕ → WindowReads H) :
    Cmd.Frame bare (readIntoBy at_ reads) := by
  unfold readIntoBy
  refine Cmd.frame_bind Cmd.frame_get fun r => ?_
  refine Cmd.frame_bind (Cmd.frame_ofExcept _) fun window => ?_
  refine Cmd.frame_bind (frame_onSlots (frame_each reads window)) fun _ => ?_
  exact frame_onSlots (frame_readDerived _ window)

/-- **Plans.**  No read changes what a reader was built with. -/
theorem frame_readBy (at_ : DateTime) (reads : ℕ → WindowReads H) :
    Cmd.Frame bare (readBy at_ reads) := by
  unfold readBy
  refine Cmd.frame_bind (Cmd.frame_attempt (frame_readIntoBy at_ reads)) fun outcome => ?_
  cases outcome with
  | ok u => exact Cmd.frame_pure _
  | error e =>
    refine Cmd.frame_bind (Cmd.frame_modify fun r => ?_) fun _ => Cmd.frame_throw _
    unfold bare invalidate
    rw [List.map_map]
    rfl

theorem frame_read (at_ : DateTime) (reads : WindowReads H) : Cmd.Frame bare (read at_ reads) := by
  rw [← readBy_const]
  exact frame_readBy at_ _

end ForecastReader

/-! ### What a read leaves in the slots -/

namespace WindowSlot

variable {H : Type}

/-- What the batch leaves in a slot: its run of rows, where it asked for one. -/
def Installed (window : ℕ) (get : H × Dtype × ℕ × ℕ → Result TypedArray) (s s' : WindowSlot H) :
    Prop :=
  match s.request window with
  | none => s' = s
  | some req => ∃ p, get req = .ok p ∧ s' = s.setWindow p.bytes

/-- A derived slot waits for the batch. -/
theorem turn_derived {s : WindowSlot H} {window : ℕ} {req : H × Dtype × ℕ × ℕ}
    (h : s.request window = some req) (reads : WindowReads H) :
    (turn reads window).exec s = (.ok (), s) := by
  have hspan : (s.derivedSpan window).isNone = false := by
    rw [derivedSpan_isNone, h]
    rfl
  unfold turn
  rw [Cmd.exec_bind, Cmd.exec_get]
  simp only
  rw [hspan, if_neg Bool.false_ne_true]
  rfl

/-- **Handing out.**  The runs of the batch, one after the other, are each derived slot's own, and none
of their bytes is left over. -/
theorem install_eq {window : ℕ} {get : H × Dtype × ℕ × ℕ → Result TypedArray}
    {slots : List (WindowSlot H)} {parts : List TypedArray}
    (hlen : ∀ s ∈ slots, ∀ req, s.request window = some req → ∀ p, get req = .ok p →
      p.bytes.length = s.windowBytes)
    (hp : (slots.filterMap fun s => s.request window).mapM get = .ok parts) :
    ∃ slots', install window slots (parts.flatMap TypedArray.bytes) = (.ok [], slots') ∧
      List.Forall₂ (Installed window get) slots slots' := by
  induction slots generalizing parts with
  | nil =>
    cases hp
    exact ⟨[], rfl, .nil⟩
  | cons s slots ih =>
    have hrest := fun x hx => hlen x (List.mem_cons_of_mem s hx)
    unfold install
    rw [derivedSpan_isNone]
    cases hreq : s.request window with
    | none =>
      rw [List.filterMap_cons, hreq] at hp
      obtain ⟨slots', hinst, hall⟩ := ih hrest hp
      rw [hinst]
      refine ⟨s :: slots', rfl, .cons ?_ hall⟩
      unfold Installed
      rw [hreq]
    | some req =>
      rw [List.filterMap_cons, hreq, List.mapM_cons] at hp
      obtain ⟨p, hget, hp⟩ := except_bind_eq_ok.mp hp
      obtain ⟨ps, hps, hp⟩ := except_bind_eq_ok.mp hp
      cases hp
      obtain ⟨slots', hinst, hall⟩ := ih hrest hps
      have hwidth := hlen s List.mem_cons_self req hreq p hget
      rw [List.flatMap_cons, ← hwidth, List.take_left' rfl, List.drop_left' rfl, hinst,
        List.length_append, if_neg (show ¬ (some req).isNone = true from Bool.false_ne_true),
        if_neg (by omega)]
      refine ⟨s.setWindow p.bytes :: slots', rfl, .cons ?_ hall⟩
      unfold Installed
      rw [hreq]
      exact ⟨p, hget, rfl⟩

/-- What a read leaves in a slot: what its own turn did, or its run of the batch. -/
structure Read (reads : WindowReads H) (window : ℕ) (get : H × Dtype × ℕ × ℕ → Result TypedArray)
    (s s' : WindowSlot H) : Prop where
  dense : s.request window = none → (turn reads window).exec s = (.ok (), s')
  derived {req : H × Dtype × ℕ × ℕ} : s.request window = some req →
    ∃ p, get req = .ok p ∧ s' = s.setWindow p.bytes

end WindowSlot

namespace ForecastReader

variable {H : Type}

/-- An entry exposes one window of a forecast: the shape and the bytes of it, without the axis of the
windows. -/
def Exposes (r : ForecastReader H) (e : ForecastEntry) (data : TypedArray) : Prop :=
  ∃ s, r.slots[e.slot]? = some s ∧ s.windowShape = data.shape.eraseIdx 1 ∧ s.window = data.bytes

/-- The batch of a read that succeeds reaches every derived slot. -/
theorem readDerived_ok {reads : WindowReads H} {window : ℕ}
    {get : H × Dtype × ℕ × ℕ → Result TypedArray} {slots slots' : List (WindowSlot H)}
    (hranges : ∀ reqs bytes, reads.readRanges reqs = .ok bytes →
      ∃ parts, reqs.mapM get = .ok parts ∧ bytes = parts.flatMap TypedArray.bytes)
    (hlen : ∀ s ∈ slots, ∀ req, s.request window = some req → ∀ p, get req = .ok p →
      p.bytes.length = s.windowBytes)
    (h : (readDerived reads window).exec slots = (.ok (), slots')) :
    List.Forall₂ (WindowSlot.Installed window get) slots slots' := by
  unfold readDerived at h
  rw [Cmd.exec_bind, Cmd.exec_get] at h
  simp only at h
  split at h
  · rw [Cmd.exec_bind, Cmd.exec_ofExcept] at h
    cases hb : reads.readRanges (slots.filterMap fun s => s.request window) with
    | error e =>
      rw [hb] at h
      cases h
    | ok bytes =>
      rw [hb] at h
      obtain ⟨parts, hparts, rfl⟩ := hranges _ _ hb
      obtain ⟨out, hinst, hall⟩ := WindowSlot.install_eq hlen hparts
      simp only at h
      rw [Cmd.exec_bind, Cmd.exec_ofExec, hinst] at h
      cases h
      exact hall
  · rename_i hnone
    have hnil := not_not.mp hnone
    cases h
    refine List.forall₂_same.mpr fun s hs => ?_
    unfold WindowSlot.Installed
    rw [List.filterMap_eq_nil_iff.mp hnil s hs]

/-- **A read.**  A read that succeeds has read every slot. -/
theorem readIntoBy_ok {at_ : DateTime} {reads : ℕ → WindowReads H}
    {get : H × Dtype × ℕ × ℕ → Result TypedArray} {r r' : ForecastReader H}
    (hranges : ∀ reqs bytes, (reads r.slots.length).readRanges reqs = .ok bytes →
      ∃ parts, reqs.mapM get = .ok parts ∧ bytes = parts.flatMap TypedArray.bytes)
    (hlen : ∀ window, ∀ s ∈ r.slots, ∀ req, s.request window = some req → ∀ p, get req = .ok p →
      p.bytes.length = s.windowBytes)
    (h : (readIntoBy at_ reads).exec r = (.ok (), r')) :
    ∃ window, r.windowIndex at_ = .ok window ∧
      List.Forall₂ (fun s s' => ∃ i, WindowSlot.Read (reads i) window get s s') r.slots r'.slots := by
  unfold readIntoBy at h
  rw [Cmd.exec_bind, Cmd.exec_get] at h
  simp only at h
  rw [Cmd.exec_bind, Cmd.exec_ofExcept] at h
  cases hw : r.windowIndex at_ with
  | error e =>
    rw [hw] at h
    cases h
  | ok window =>
    rw [hw] at h
    simp only at h
    refine ⟨window, rfl, ?_⟩
    unfold onSlots at h
    rw [Cmd.exec_bind, Cmd.exec_zoom] at h
    rcases he : (Cmd.eachBy fun i => WindowSlot.turn (reads i) window).exec r.slots with ⟨res, mid⟩
    rw [he] at h
    cases res with
    | error e => cases h
    | ok u =>
      simp only [Cmd.exec_zoom] at h
      rcases hd : (readDerived (reads r.slots.length) window).exec mid with ⟨res, out⟩
      rw [hd] at h
      cases h
      have hturns := Cmd.exec_eachBy_ok _ he
      have hsame : ∀ i s t, (WindowSlot.turn (reads i) window).exec s = (.ok (), t) →
          t.request window = s.request window ∧ t.windowBytes = s.windowBytes := by
        intro i s t hst
        have hbare := WindowSlot.frame_turn (reads i) window s
        rw [hst] at hbare
        exact ⟨WindowSlot.request_of_bare hbare window, WindowSlot.windowBytes_of_bare hbare⟩
      have hmid : ∀ s ∈ mid, ∀ req, s.request window = some req → ∀ p, get req = .ok p →
          p.bytes.length = s.windowBytes := by
        intro t ht req hreq p hp
        obtain ⟨s, hs, i, hst⟩ := Catalog.forall₂_mem_right hturns ht
        obtain ⟨h1, h2⟩ := hsame i s t hst
        rw [h2]
        exact hlen window s hs req (h1 ▸ hreq) p hp
      refine Catalog.forall₂_comp ?_ hturns (readDerived_ok hranges hmid hd)
      intro s t u hst htu
      obtain ⟨i, hst⟩ := hst
      obtain ⟨h1, -⟩ := hsame i s t hst
      unfold WindowSlot.Installed at htu
      refine ⟨i, ?_, ?_⟩
      · intro hnone
        rw [h1, hnone] at htu
        rw [htu]
        exact hst
      · intro req hreq
        rw [h1, hreq] at htu
        rw [WindowSlot.turn_derived hreq] at hst
        cases hst
        exact htu

theorem readBy_ok {at_ : DateTime} {reads : ℕ → WindowReads H} {r r' : ForecastReader H}
    (h : (readBy at_ reads).exec r = (.ok (), r')) :
    (readIntoBy at_ reads).exec r = (.ok (), r') := by
  unfold readBy at h
  rw [Cmd.exec_bind, Cmd.exec_attempt] at h
  rcases he : (readIntoBy at_ reads).exec r with ⟨res, out⟩
  rw [he] at h
  cases res with
  | error e => cases h
  | ok u =>
    cases h
    rfl

/-- What a read that succeeds leaves in every slot, the backend answering alike every time. -/
theorem read_ok {at_ : DateTime} {reads : WindowReads H}
    {get : H × Dtype × ℕ × ℕ → Result TypedArray} {r r' : ForecastReader H}
    (hranges : ∀ reqs bytes, reads.readRanges reqs = .ok bytes →
      ∃ parts, reqs.mapM get = .ok parts ∧ bytes = parts.flatMap TypedArray.bytes)
    (hlen : ∀ window, ∀ s ∈ r.slots, ∀ req, s.request window = some req → ∀ p, get req = .ok p →
      p.bytes.length = s.windowBytes)
    (h : (read at_ reads).exec r = (.ok (), r')) :
    ∃ window, r.windowIndex at_ = .ok window ∧
      List.Forall₂ (WindowSlot.Read reads window get) r.slots r'.slots := by
  rw [← readBy_const] at h
  obtain ⟨window, hw, hall⟩ := readIntoBy_ok hranges hlen (readBy_ok h)
  refine ⟨window, hw, hall.imp fun s s' hs => ?_⟩
  obtain ⟨_, hs⟩ := hs
  exact hs

end ForecastReader

/-! ### What a reader is built with -/

section

variable {H : Type}

/-- The shape of one window of an array. -/
def WindowRead.windowShape (read : WindowRead) (shape : List ℕ) : List ℕ :=
  match read with
  | .dense countAxis => shape.eraseIdx countAxis
  | .derived _ horizonSteps => horizonSteps :: shape.drop 1

/-- So many windows lie in an array of a shape. -/
def WindowRead.Fits (read : WindowRead) (shape : List ℕ) (count : ℕ) : Prop :=
  match read with
  | .dense countAxis => shape[countAxis]? = some count
  | .derived intervalSteps horizonSteps =>
    (count - 1) * intervalSteps + horizonSteps ≤ shape.headD 0

theorem denseLayout_ok {m : TimeSeriesMetadata H} {shape : List ℕ} {count axis : ℕ}
    {l : List ℕ × WindowRead} (h : denseLayout m shape count axis = .ok l) :
    l.1 = l.2.windowShape shape ∧ l.2.Fits shape count := by
  unfold denseLayout at h
  cases hd : shape[axis]? with
  | none =>
    rw [hd] at h
    cases h
  | some n =>
    rw [hd] at h
    simp only at h
    split at h
    · cases h
    · rename_i hn
      cases h
      exact ⟨rfl, by rw [← not_not.mp hn]; exact hd⟩

theorem derivedLayout_ok {m : TimeSeriesMetadata H} {shape : List ℕ} {count : ℕ}
    {l : List ℕ × WindowRead} (h : derivedLayout m shape count = .ok l) :
    l.1 = l.2.windowShape shape ∧ l.2.Fits shape count := by
  unfold derivedLayout at h
  simp only [except_bind_eq_ok] at h
  obtain ⟨_, -, _, -, _, -, n, -, k, -, h⟩ := h
  split at h
  · cases h
  · rename_i hle
    cases h
    exact ⟨rfl, not_lt.mp hle⟩

/-- The window of an entry is one of its array, and its windows lie in it. -/
theorem entryLayout_ok {m : TimeSeriesMetadata H} {shape : List ℕ} {count : ℕ}
    {l : List ℕ × WindowRead} (h : entryLayout m shape count = .ok l) :
    l.1 = l.2.windowShape shape ∧ l.2.Fits shape count := by
  unfold entryLayout at h
  cases hk : m.timeSeriesType with
  | deterministic | probabilistic | scenarios =>
    rw [hk] at h
    exact denseLayout_ok h
  | deterministicSingleTimeSeries =>
    rw [hk] at h
    exact derivedLayout_ok h
  | _ =>
    rw [hk] at h
    cases h

variable [DecidableEq H]

/-- A slot was made for a row of a listing. -/
def WindowSlot.MadeFor (count : ℕ) (s : WindowSlot H) (item : TimeSeriesMetadata H × List ℕ) : Prop :=
  ∃ l, entryLayout item.1 item.2 count = .ok l ∧ s = newSlot item.1 item.2 l.1 l.2 count

/-- An entry is a row's: it carries its id, and its slot reads the row's array as the row says. -/
structure ForecastEntry.Of (reported : TimeSeriesType) (timeline : DateTime × Period × Period × ℕ)
    (slots : List (WindowSlot H)) (item : TimeSeriesMetadata H × List ℕ) (e : ForecastEntry) :
    Prop where
  kind : (TypeMatch.requested reported).holds item.1.timeSeriesType = true
  windows : forecastTimeline item.1 = .ok timeline
  id : item.1.id = some e.id
  slot : ∃ l s, entryLayout item.1 item.2 timeline.2.2.2 = .ok l ∧ slots[e.slot]? = some s ∧
    s.isFor item.1.dataHash l.2 item.1.elementType = true

theorem ForecastEntry.Of.mono {reported : TimeSeriesType}
    {timeline : DateTime × Period × Period × ℕ} {slots : List (WindowSlot H)}
    {item : TimeSeriesMetadata H × List ℕ} {e : ForecastEntry}
    (h : ForecastEntry.Of reported timeline slots item e) (more : List (WindowSlot H)) :
    ForecastEntry.Of reported timeline (slots ++ more) item e := by
  obtain ⟨l, s, hl, hs, hfor⟩ := h.slot
  refine { h with slot := ⟨l, s, hl, ?_, hfor⟩ }
  obtain ⟨hlt, -⟩ := List.getElem?_eq_some_iff.mp hs
  rw [List.getElem?_append_left hlt, hs]

theorem newSlot_isFor (m : TimeSeriesMetadata H) (shape windowShape : List ℕ) (read : WindowRead)
    (count : ℕ) :
    (newSlot m shape windowShape read count).isFor m.dataHash read m.elementType = true := by
  simp [WindowSlot.isFor, newSlot]

/-- One row adds its entry, and at most a slot made for it. -/
theorem addEntry_ok {reported : TimeSeriesType} {timeline : DateTime × Period × Period × ℕ}
    {acc acc' : List (WindowSlot H) × List ForecastEntry} {item : TimeSeriesMetadata H × List ℕ}
    (h : addEntry reported timeline acc item = .ok acc') :
    ∃ new e, acc' = (acc.1 ++ new, acc.2 ++ [e]) ∧
      (∀ s ∈ new, s.MadeFor timeline.2.2.2 item) ∧
      ForecastEntry.Of reported timeline acc'.1 item e := by
  unfold addEntry at h
  simp only at h
  split at h
  · cases h
  · rename_i hkind
    have hkind : (TypeMatch.requested reported).holds item.1.timeSeriesType = true := by
      simpa using hkind
    obtain ⟨tl, htl, h⟩ := except_bind_eq_ok.mp h
    split at h
    · cases h
    · rename_i heq
      have heq := not_not.mp heq
      subst heq
      obtain ⟨l, hl, h⟩ := except_bind_eq_ok.mp h
      obtain ⟨id, hid⟩ : ∃ id, item.1.id = some id := by
        cases hi : item.1.id with
        | none =>
          rw [hi] at h
          cases h
        | some id => exact ⟨id, rfl⟩
      rw [hid] at h
      obtain ⟨_, hsome, h⟩ := except_bind_eq_ok.mp h
      cases hsome
      cases hf : acc.1.findIdx? (·.isFor item.1.dataHash l.2 item.1.elementType) with
      | some k =>
        rw [hf] at h
        cases h
        obtain ⟨hlt, hfor, -⟩ := List.findIdx?_eq_some_iff_getElem.mp hf
        refine ⟨[], ⟨id, k⟩, by rw [List.append_nil], fun s hs => (by cases hs), hkind, htl, hid, ?_⟩
        exact ⟨l, acc.1[k], hl, List.getElem?_eq_getElem hlt, hfor⟩
      | none =>
        rw [hf] at h
        cases h
        refine ⟨[newSlot item.1 item.2 l.1 l.2 tl.2.2.2], ⟨id, acc.1.length⟩, rfl, fun s hs => ?_, hkind,
          htl, hid, ?_⟩
        · rw [List.mem_singleton.mp hs]
          exact ⟨l, hl, rfl⟩
        · exact ⟨l, _, hl, List.getElem?_concat_length, newSlot_isFor ..⟩

/-- The rows of a listing each add their entry. -/
theorem addEntries_ok {reported : TimeSeriesType} {timeline : DateTime × Period × Period × ℕ}
    {items : List (TimeSeriesMetadata H × List ℕ)}
    {acc acc' : List (WindowSlot H) × List ForecastEntry}
    (h : items.foldlM (addEntry reported timeline) acc = .ok acc') :
    ∃ new entries, acc' = (acc.1 ++ new, acc.2 ++ entries) ∧
      (∀ s ∈ new, ∃ item ∈ items, s.MadeFor timeline.2.2.2 item) ∧
      List.Forall₂ (ForecastEntry.Of reported timeline acc'.1) items entries := by
  induction items generalizing acc with
  | nil =>
    cases h
    exact ⟨[], [], by rw [List.append_nil, List.append_nil], fun s hs => (by cases hs), .nil⟩
  | cons item items ih =>
    rw [List.foldlM_cons] at h
    obtain ⟨mid, hmid, h⟩ := except_bind_eq_ok.mp h
    obtain ⟨new, e, rfl, hnew, he⟩ := addEntry_ok hmid
    obtain ⟨more, entries, rfl, hmore, hall⟩ := ih h
    refine ⟨new ++ more, e :: entries, ?_, fun s hs => ?_, .cons (he.mono more) hall⟩
    · rw [List.append_assoc, List.append_assoc]
      rfl
    · rcases List.mem_append.mp hs with hs | hs
      · exact ⟨item, List.mem_cons_self, hnew s hs⟩
      · obtain ⟨x, hx, hfor⟩ := hmore s hs
        exact ⟨x, List.mem_cons_of_mem item hx, hfor⟩

/-- **Built readers.**  A reader has an entry for each row, of the windows of the row's array, and each
of its slots was made for a row. -/
theorem buildForecastEntries_ok {reported : TimeSeriesType}
    {items : List (TimeSeriesMetadata H × List ℕ)} {r : ForecastReader H}
    (h : buildForecastEntries reported items = .ok r) :
    (∀ s ∈ r.slots, ∃ item ∈ items, s.MadeFor r.count item) ∧
      ∃ sorted, sorted.Perm items ∧
        List.Forall₂ (ForecastEntry.Of reported
          (r.initialTimestamp, r.resolution, r.interval, r.count) r.slots) sorted r.entries := by
  unfold buildForecastEntries at h
  obtain ⟨sorted, hsorted⟩ : ∃ l, items.insertionSort
    (fun a b => (compareIdentity a.1 b.1).isLE = true) = l := ⟨_, rfl⟩
  have hperm : sorted.Perm items := hsorted ▸ List.perm_insertionSort _ items
  rw [hsorted] at h
  cases sorted with
  | nil => cases h
  | cons first rest =>
    simp only [except_bind_eq_ok] at h
    obtain ⟨_, -, timeline, -, built, hbuilt, h⟩ := h
    cases h
    obtain ⟨new, entries, rfl, hnew, hall⟩ := addEntries_ok hbuilt
    refine ⟨fun s hs => ?_, _, hperm, hall⟩
    obtain ⟨item, hitem, hmade⟩ := hnew s hs
    exact ⟨item, hperm.subset hitem, hmade⟩

end

/-! ### The windows of views -/

/-- One window of a view is a run of the rows of its source. -/
theorem TypedArray.stacked_one {a : TypedArray} (hne : a.shape ≠ []) (h k w : ℕ) :
    (a.stacked h k w 1).bytes = (a.slice 0 (w * k) h).bytes := by
  rw [TypedArray.slice_rows hne, TypedArray.stacked_bytes, ← strided_run, strided_eq]
  apply List.flatMap_congr
  intro s _
  rw [List.range_one, List.flatMap_cons, List.flatMap_nil, List.append_nil, Nat.add_zero,
    List.drop_drop, ← Nat.add_mul]
  rfl

section

variable {H B : Type} [DecidableEq H] [Sha256 H] [ToString H] [ArrayBackend H B]
  [LawfulArrayBackend H B]

/-- What a store holds when a reader was built over it is what another holds when it is read. -/
structure ArrayStore.Serves (s₀ s : ArrayStore H B) : Prop where
  built : s₀.Valid
  valid : s.Valid
  storable {x : H} {a : TypedArray} : s.content x = some a → a.Storable
  same {x : H} {a b : TypedArray} : s₀.content x = some a → s.content x = some b → b = a

/-- The rows of one request of a batch. -/
def ArrayStore.readRun (s : ArrayStore H B) (c : H × Dtype × ℕ × ℕ) : Result TypedArray :=
  s.getSlice c.1 c.2.1 c.2.2.1 c.2.2.2

/-- The rows of a listing, each with the shape of its array. -/
def Store.withShapes (arrays : ArrayStore H B) (rows : List (TimeSeriesMetadata H)) :
    Result (List (TimeSeriesMetadata H × List ℕ)) :=
  rows.mapM fun m => (Store.arrayShape arrays m.dataHash).map fun shape => (m, shape)

omit [Sha256 H] [ToString H] [LawfulArrayBackend H B] in
theorem withShapes_ok {arrays : ArrayStore H B} {rows : List (TimeSeriesMetadata H)}
    {items : List (TimeSeriesMetadata H × List ℕ)} (h : Store.withShapes arrays rows = .ok items) :
    items.map Prod.fst = rows ∧
      ∀ item ∈ items, Store.arrayShape arrays item.1.dataHash = .ok item.2 := by
  unfold Store.withShapes at h
  induction rows generalizing items with
  | nil =>
    cases h
    exact ⟨rfl, fun _ h => (by cases h)⟩
  | cons m rows ih =>
    rw [List.mapM_cons] at h
    obtain ⟨item, hitem, h⟩ := except_bind_eq_ok.mp h
    obtain ⟨rest, hrest, h⟩ := except_bind_eq_ok.mp h
    cases h
    obtain ⟨hfst, hall⟩ := ih hrest
    cases hs : Store.arrayShape arrays m.dataHash with
    | error e =>
      rw [hs] at hitem
      cases hitem
    | ok shape =>
      rw [hs] at hitem
      cases hitem
      refine ⟨by rw [List.map_cons, hfst], fun x hx => ?_⟩
      cases hx with
      | head => exact hs
      | tail _ hx => exact hall x hx

omit [DecidableEq H] [Sha256 H] [ToString H] [ArrayBackend H B] [LawfulArrayBackend H B] in
theorem forecastColumns_ok {m : TimeSeriesMetadata H} {c : ForecastColumns} {label : String}
    (h : forecastColumns m label = .ok c) :
    m.initialTimestamp = some c.initial ∧ m.resolution = some c.resolution ∧
      m.horizon = some c.horizon ∧ m.interval = some c.interval ∧ m.count = some c.count := by
  unfold forecastColumns at h
  simp only [except_bind_eq_ok] at h
  obtain ⟨_, h1, _, h2, _, h3, _, h4, _, h5, h⟩ := h
  cases h
  exact ⟨required_ok h1, required_ok h2, required_ok h3, required_ok h4, required_ok h5⟩

omit [ToString H] in
/-- How the windows of a view are read. -/
theorem ArrayStore.HoldsView.layout {s : ArrayStore H B} {m : TimeSeriesMetadata H}
    {c : ForecastColumns} {h k : ℕ} {a : TypedArray} (hv : s.HoldsView m c h k a) :
    forecastTimeline m = .ok (c.initial, c.resolution, c.interval, c.count) ∧
      entryLayout m a.shape c.count = .ok (h :: a.shape.drop 1, .derived k h) := by
  obtain ⟨h1, h2, h3, h4, h5⟩ := forecastColumns_ok hv.columns
  constructor
  · unfold forecastTimeline
    rw [h1, h2, h4, h5]
    rfl
  · have hk : derivedSteps m c.count c.interval c.resolution = .ok k := by
      have hint := hv.interval
      unfold intervalStepsOf at hint
      unfold derivedSteps
      split at hint
      · rename_i hone
        rw [if_pos hone]
        exact hint
      · rename_i hone
        rw [if_neg hone]
        exact mapErr_eq_ok.mpr (mapErr_eq_ok.mp hint)
    have hfits : (c.count - 1) * k + h ≤ a.shape.headD 0 := hv.within
    unfold entryLayout
    rw [hv.kind]
    simp only
    unfold derivedLayout
    rw [h2, h3, h4]
    simp only [required_some, bind, Except.bind]
    rw [hv.horizon, hk]
    simp only [mapErr]
    rw [if_neg (not_lt.mpr hfits)]
    rfl

variable [LawfulReads H B] [LawfulBulkReads H B]

omit [LawfulReads H B] in
theorem windowReads_ranges {s : ArrayStore H B} (hs : s.Valid) (reqs : List (H × Dtype × ℕ × ℕ))
    (bytes : List UInt8) (h : s.windowReads.readRanges reqs = .ok bytes) :
    ∃ parts, reqs.mapM s.readRun = .ok parts ∧ bytes = parts.flatMap TypedArray.bytes := by
  have heq := ArrayStore.readRanges_eq hs reqs
  rw [show s.readRanges reqs = .ok bytes from h] at heq
  unfold MemoryBackend.concatReads at heq
  cases hp : reqs.mapM fun c => s.getSlice c.1 c.2.1 c.2.2.1 c.2.2.2 with
  | error e =>
    rw [hp] at heq
    cases heq
  | ok parts =>
    rw [hp] at heq
    exact ⟨parts, hp, Option.some.inj heq⟩

omit [Sha256 H] [ToString H] [LawfulArrayBackend H B] [LawfulReads H B] [LawfulBulkReads H B] in
/-- Each slot of a reader, however it was read since, was made for a row and the shape of its array. -/
theorem madeFor_of_bare {arrays : ArrayStore H B} {reported : TimeSeriesType}
    {rows : List (TimeSeriesMetadata H)} {items : List (TimeSeriesMetadata H × List ℕ)}
    {built r : ForecastReader H} (hitems : Store.withShapes arrays rows = .ok items)
    (hbuilt : buildForecastEntries reported items = .ok built) (hr : r.bare = built.bare)
    {t : WindowSlot H} (ht : t ∈ r.slots) :
    ∃ item, Store.arrayShape arrays item.1.dataHash = .ok item.2 ∧ t.bare.MadeFor built.count item := by
  obtain ⟨x, hx, hxt⟩ := ForecastReader.slot_of_bare hr ht
  obtain ⟨item, hitem, l, hl, hslot⟩ := (buildForecastEntries_ok hbuilt).1 x hx
  exact ⟨item, (withShapes_ok hitems).2 item hitem, l, hl, by rw [hxt, hslot]; rfl⟩

namespace ArrayStore.Serves

variable {s₀ s : ArrayStore H B} (hs : s₀.Serves s)
include hs

omit [LawfulBulkReads H B] in
/-- The run a derived slot asks for is as long as the window it is for. -/
theorem run_length {count : ℕ} {item : TimeSeriesMetadata H × List ℕ} {t : WindowSlot H}
    (hshape : Store.arrayShape s₀ item.1.dataHash = .ok item.2) (ht : t.bare.MadeFor count item)
    {window : ℕ} {req : H × Dtype × ℕ × ℕ} (hreq : t.request window = some req) {p : TypedArray}
    (hp : s.readRun req = .ok p) : p.bytes.length = t.windowBytes := by
  obtain ⟨l, hl, hslot⟩ := ht
  have hbare : t.bare = (newSlot item.1 item.2 l.1 l.2 count).bare := hslot
  rw [WindowSlot.request_of_bare hbare] at hreq
  rw [WindowSlot.windowBytes_of_bare hbare]
  obtain ⟨hwindow, -⟩ := entryLayout_ok hl
  unfold WindowSlot.request WindowSlot.derivedSpan at hreq
  cases hread : l.2 with
  | dense axis =>
    rw [hread] at hreq
    cases hreq
  | derived k n =>
    rw [hread] at hreq
    cases hreq
    obtain ⟨a, ha, hd, -, hstop, hbytes⟩ := ArrayStore.getSlice_held hs.valid hp
    obtain ⟨x, hx, hxs⟩ := ArrayStore.arrayShape_held hs.built hshape
    cases hs.same hx ha
    obtain ⟨hw, hne⟩ := hs.storable ha
    have hwidth := TypedArray.slice_wellFormed hw (a.shape_zero hne)
      (show window * k + (window * k + n - window * k) ≤ a.length from by simp only at hstop; omega)
    obtain ⟨d, rest, hrest⟩ := List.exists_cons_of_ne_nil hne
    rw [hread, ← hxs, hrest] at hwindow
    rw [hbytes, hwidth, TypedArray.slice_shape, TypedArray.slice_dtype, hd, hrest,
      Nat.add_sub_cancel_left]
    unfold WindowSlot.windowBytes
    rw [show (newSlot item.1 item.2 l.1 (.derived k n) count).windowShape = n :: rest from hwindow]
    rfl

/-- **Reading.**  What a read that succeeds leaves in each slot of a reader built over the rows of a
listing. -/
theorem forecastRead_ok {reported : TimeSeriesType} {rows : List (TimeSeriesMetadata H)}
    {items : List (TimeSeriesMetadata H × List ℕ)} {built r r' : ForecastReader H} {at_ : DateTime}
    (hitems : Store.withShapes s₀ rows = .ok items) (hbuilt : buildForecastEntries reported items = .ok built)
    (hr : r.bare = built.bare) (h : (s.forecastRead at_).exec r = (.ok (), r')) :
    ∃ window, built.windowIndex at_ = .ok window ∧ r'.bare = built.bare ∧
      List.Forall₂ (WindowSlot.Read s.windowReads window s.readRun) r.slots r'.slots := by
  have hframe := ForecastReader.frame_read at_ s.windowReads r
  obtain ⟨window, hwindow, hall⟩ := ForecastReader.read_ok (windowReads_ranges hs.valid)
    (fun window t ht req hreq p hp => by
      obtain ⟨item, hshape, hfor⟩ := madeFor_of_bare hitems hbuilt hr ht
      exact hs.run_length hshape hfor hreq hp) h
  refine ⟨window, ?_, ?_, hall⟩
  · show built.bare.windowIndex at_ = .ok window
    rw [← hr]
    exact hwindow
  · rw [← hr, ← hframe]
    exact congrArg ForecastReader.bare (congrArg Prod.snd h).symm

/-- **Windows of views.**  After a read that succeeds, the entry of a view exposes the slice of its
windows at the window read. -/
theorem forecastRead_views {reported : TimeSeriesType} {rows : List (TimeSeriesMetadata H)}
    {items : List (TimeSeriesMetadata H × List ℕ)} {built r r' : ForecastReader H} {at_ : DateTime}
    (hitems : Store.withShapes s₀ rows = .ok items)
    (hbuilt : buildForecastEntries reported items = .ok built)
    (hr : r.bare = built.bare) (h : (s.forecastRead at_).exec r = (.ok (), r')) :
    ∃ window, built.windowIndex at_ = .ok window ∧ ∃ sorted, sorted.Perm rows ∧
      List.Forall₂ (fun m e => m.id = some e.id ∧ ∀ c hh k a, s.HoldsView m c hh k a →
        window < c.count ∧ r'.Exposes e ((a.stacked hh k 0 c.count).slice 1 window 1))
        sorted r'.entries := by
  obtain ⟨hfst, hshapes⟩ := withShapes_ok hitems
  obtain ⟨window, hwindow, hbare, hslots⟩ := hs.forecastRead_ok hitems hbuilt hr h
  obtain ⟨hmade, sorted, hperm, hentries⟩ := buildForecastEntries_ok hbuilt
  refine ⟨window, hwindow, sorted.map Prod.fst, hfst ▸ hperm.map Prod.fst, ?_⟩
  have hre : r'.bare.entries = built.entries := by rw [hbare]; rfl
  rw [show r'.entries = built.entries from hre, List.forall₂_map_left_iff]
  obtain ⟨hlen, hzip⟩ := List.forall₂_iff_zip.mp hentries
  refine List.forall₂_iff_zip.mpr ⟨hlen, ?_⟩
  intro item e hze
  have hof := hzip hze
  have hitem : item ∈ items := hperm.subset (List.of_mem_zip hze).1
  refine ⟨hof.id, fun c hh k a hv => ?_⟩
  obtain ⟨htl, hlay⟩ := hv.layout
  rw [hof.windows] at htl
  have htl := Except.ok.inj htl
  have hcount : c.count = built.count := (congrArg (fun t => t.2.2.2) htl).symm
  obtain ⟨x, hx, hxs⟩ := ArrayStore.arrayShape_held hs.built (hshapes item hitem)
  have hxa : a = x := hs.same hx hv.held
  subst hxa
  obtain ⟨l, t, hl, ht, hfor⟩ := hof.slot
  rw [← hxs, ← hcount, hlay] at hl
  cases hl
  simp only [WindowSlot.isFor, Bool.and_eq_true, decide_eq_true_eq] at hfor
  obtain ⟨⟨hhash, hread⟩, htype⟩ := hfor
  -- the shape of the slot's window is that of the row it was made for, which names the same array
  have hshape : t.windowShape = hh :: a.shape.drop 1 := by
    obtain ⟨item', hitem', l', hl', hslot⟩ := hmade t (List.mem_of_getElem? ht)
    subst hslot
    obtain ⟨y, hy, hys⟩ := ArrayStore.arrayShape_held hs.built (hshapes item' hitem')
    rw [show item'.1.dataHash = item.1.dataHash from hhash, hx] at hy
    cases hy
    obtain ⟨hws, -⟩ := entryLayout_ok hl'
    show l'.1 = _
    rw [hws, show l'.2 = .derived k hh from hread, ← hys]
    rfl
  -- the slot before the read, and after it
  obtain ⟨t₁, ht₁, hb₁⟩ := ForecastReader.slotAt_of_bare hr ht
  obtain ⟨t₂, ht₂, hrun⟩ := Catalog.forall₂_getElem? hslots ht₁
  have hreq : t₁.request window =
      some (item.1.dataHash, item.1.elementType.physicalDtype, window * k, window * k + hh) := by
    rw [WindowSlot.request_of_bare hb₁]
    unfold WindowSlot.request WindowSlot.derivedSpan WindowSlot.dtype
    rw [hread, hhash, htype]
    rfl
  obtain ⟨p, hp, rfl⟩ := hrun.derived hreq
  have hlt : window < c.count := hcount ▸ indexOnGrid_lt hwindow
  have hin := hv.within
  have hlast : window * k ≤ (c.count - 1) * k := Nat.mul_le_mul_right k (by omega)
  have hslice : p = a.slice 0 (window * k) hh := by
    have hget := ArrayStore.getSlice_eq hs.valid hv.held hv.rank
      (show window * k ≤ window * k + hh by omega) (by omega)
    rw [← hv.dtype, Nat.add_sub_cancel_left] at hget
    exact Except.ok.inj (hp.symm.trans hget)
  refine ⟨hlt, t₁.setWindow p.bytes, ht₂, ?_, ?_⟩
  · show t₁.windowShape = _
    rw [WindowSlot.windowShape_of_bare hb₁, hshape, TypedArray.slice_shape, TypedArray.stacked_shape,
      List.drop_one]
    rfl
  · rw [TypedArray.stacked_slice hv.checked.wellFormed hv.rank (by rw [Nat.zero_add]; exact hin)
      (by omega), Nat.zero_add, TypedArray.stacked_one hv.rank, ← hslice]
    rfl

end ArrayStore.Serves

/-! ### The three ways to read a view -/

/-- The windows selected of a view, gathered out of the rows fetched for them: each element is the
source's, the whole is the slice of all the windows, and no row outside those fetched is read. -/
structure ArrayStore.Gathers (s : ArrayStore H B) (m : TimeSeriesMetadata H) (c : ForecastColumns)
    (h k : ℕ) (a : TypedArray) (w0 n : ℕ) (data : TypedArray) : Prop where
  run : w0 + n ≤ c.count
  dtype : data.dtype = a.dtype
  shape : data.shape = h :: n :: a.elementShape
  element {st j : ℕ} {e : List ℕ} : st < h → j < n → List.Forall₂ (· < ·) e a.elementShape →
    data.element (st :: j :: e) = a.element (((w0 + j) * k + st) :: e)
  slice : data = (a.stacked h k 0 c.count).slice 1 w0 n
  fetched : ∃ rows, s.getSlice m.dataHash m.elementType.physicalDtype (w0 * k)
      (if n = 0 then w0 * k else (w0 + n - 1) * k + h) = .ok rows ∧
    ∀ st < h, ∀ j < n, w0 * k ≤ (w0 + j) * k + st ∧ (w0 + j) * k + st - w0 * k < rows.length

namespace ArrayStore.HoldsView

variable {s : ArrayStore H B} {m : TimeSeriesMetadata H} {c : ForecastColumns} {h k : ℕ}
  {a : TypedArray}

omit [LawfulBulkReads H B] in
theorem gathers (hv : s.HoldsView m c h k a) {w0 n : ℕ} (hn : w0 + n ≤ c.count)
    (hnone : n = 0 → w0 = 0) : s.Gathers m c h k a w0 n (a.stacked h k w0 n) := by
  have hrun := hv.within_run (Nat.le_add_right w0 n) hn
  rw [Nat.add_sub_cancel_left] at hrun
  have hall := hv.within_run (Nat.zero_le _) le_rfl
  rw [Nat.sub_zero] at hall
  refine ⟨hn, rfl, rfl, TypedArray.stacked_element hv.checked.wellFormed hv.rank hrun, ?_, ?_⟩
  · rw [TypedArray.stacked_slice hv.checked.wellFormed hv.rank hall hn, Nat.zero_add]
  · rw [hv.dtype]
    split
    · rename_i hz
      subst hz
      rw [hnone rfl, Nat.zero_mul, ArrayStore.getSlice_eq hv.valid hv.held hv.rank le_rfl (Nat.zero_le _)]
      exact ⟨_, rfl, fun _ _ _ hj => (Nat.not_lt_zero _ hj).elim⟩
    · have hle : w0 * k ≤ (w0 + n - 1) * k := Nat.mul_le_mul_right k (by omega)
      rw [ArrayStore.getSlice_eq hv.valid hv.held hv.rank (by omega) hrun]
      refine ⟨_, rfl, fun st hst j hj => ?_⟩
      obtain ⟨h1, h2⟩ := (@TypedArray.gather_slice _ _ k w0 _ hv.rank).1 st hst j hj
      rw [TypedArray.slice_length hv.rank]
      omega

end ArrayStore.HoldsView

omit [ToString H] [LawfulReads H B] [LawfulBulkReads H B] in
/-- A store in order serves the readers built over it. -/
theorem Store.Sound.serves {s : Store H B} (h : s.Sound) : s.arrays.Serves s.arrays where
  built := h.valid
  valid := h.valid
  storable ha := (h.faithful ha).2
  same ha hb := by
    rw [ha] at hb
    exact (Option.some.inj hb).symm

variable [FloatText] [Glob]

omit [DecidableEq H] [Sha256 H] [ToString H] [ArrayBackend H B] [LawfulArrayBackend H B]
  [LawfulReads H B] [LawfulBulkReads H B] [FloatText] [Glob] in
theorem Store.reportedType_ok {filter : ListFilter} {t : TimeSeriesType}
    (h : Store.reportedType filter = .ok t) : filter.timeSeriesType = some t := by
  unfold Store.reportedType at h
  cases hf : filter.timeSeriesType with
  | none =>
    rw [hf] at h
    cases h
  | some x =>
    rw [hf] at h
    cases x <;> cases h <;> rfl

omit [LawfulArrayBackend H B] [LawfulReads H B] [LawfulBulkReads H B] in
theorem forecastReaderOver_ok {db : Catalog H} {arrays : ArrayStore H B} {filter : ListFilter}
    {built : ForecastReader H} (h : Store.forecastReaderOver db arrays filter = .ok built) :
    ∃ reported rows items, Store.reportedType filter = .ok reported ∧
      db.listFilter (some (ArrayBackend.getTimestamps arrays.backend))
        { filter with timeSeriesType := some reported }.toFilter = .ok rows ∧
      Store.withShapes arrays rows = .ok items ∧ buildForecastEntries reported items = .ok built := by
  unfold Store.forecastReaderOver at h
  obtain ⟨reported, hrep, h⟩ := except_bind_eq_ok.mp h
  split at h
  · cases h
  · obtain ⟨rows, hrows, h⟩ := except_bind_eq_ok.mp h
    obtain ⟨items, hitems, h⟩ := except_bind_eq_ok.mp h
    exact ⟨reported, rows, items, hrep, hrows, hitems, h⟩

/-- **Derived views are stacked source slices.**  Every read of a view, whole, of a range or of a
window, that is accepted gathers the windows its bounds resolve to; where the whole view can be read, a
range of it is the whole cut to its windows; and after a read of a reader that succeeds, the entry of
every view in it exposes the slice of the view's windows at the window read. -/
theorem derived_views_stacked :
    (∀ (s : ArrayStore H B) m c h k a, s.HoldsView m c h k a →
      (∀ range d, materializeTimeSeries s m range = .ok d →
        ∃ bounds w0 n first data, checkedBounds m range = .ok bounds ∧
          resolveWindows c.initial c.interval c.count bounds m.name = .ok (w0, w0 + n, first) ∧
          d = viewOf m c data first n ∧ s.Gathers m c h k a w0 n data) ∧
      (∀ w d, readWindow s m w = .ok d →
        ∃ range, w.resolve m = .ok range ∧ materializeTimeSeries s m range = .ok d) ∧
      ∀ full, materializeTimeSeries s m none = .ok full →
        ∀ range : Option TimeRange, (∀ r ∈ range, r.SpelledFor m.timeReference) →
          materializeTimeSeries s m range =
            (resolveWindows c.initial c.interval c.count (range.map fun r => (r.start, r.stop))
              m.name).map fun w => full.cut w.1 (w.2.1 - w.1) w.2.2) ∧
    ∀ s₀ s : ArrayStore H B, s₀.Serves s → ∀ db filter built,
      Store.forecastReaderOver db s₀ filter = .ok built →
      ∃ rows, db.listFilter (some (ArrayBackend.getTimestamps s₀.backend)) filter.toFilter = .ok rows ∧
        ∀ (r r' : ForecastReader H) at_, r.bare = built.bare →
          (s.forecastRead at_).exec r = (.ok (), r') →
          ∃ window, built.windowIndex at_ = .ok window ∧ ∃ sorted, sorted.Perm rows ∧
            List.Forall₂ (fun m e => m.id = some e.id ∧ ∀ c h k a, s.HoldsView m c h k a →
              window < c.count ∧ r'.Exposes e ((a.stacked h k 0 c.count).slice 1 window 1))
              sorted r'.entries := by
  refine ⟨fun s m c h k a hv => ⟨fun range d hd => ?_, fun w d hd => ?_, fun full hfull range hr =>
    hv.materialize_range hfull hr⟩, fun s₀ s hs db filter built hbuilt => ?_⟩
  · rw [hv.materialize_derived] at hd
    obtain ⟨bounds, hbounds, hd⟩ := except_bind_eq_ok.mp hd
    obtain ⟨⟨w0, w1, first⟩, hw, hd⟩ := except_bind_eq_ok.mp hd
    obtain ⟨h01, h1, hnone⟩ := resolveWindows_bounds hw
    obtain ⟨-, -, rfl⟩ := buildView_eq.mp hd
    have hsum : w0 + (w1 - w0) = w1 := by omega
    refine ⟨bounds, w0, w1 - w0, first, _, hbounds, by rw [hsum]; exact hw, rfl,
      hv.gathers (by omega) fun hz => hnone (by omega)⟩
  · exact except_bind_eq_ok.mp hd
  · obtain ⟨reported, rows, items, hrep, hrows, hitems, hentries⟩ := forecastReaderOver_ok hbuilt
    rw [show ({ filter with timeSeriesType := some reported } : ListFilter) = filter by
      rw [← Store.reportedType_ok hrep]] at hrows
    exact ⟨rows, hrows, fun r r' at_ hr h => hs.forecastRead_views hitems hentries hr h⟩

end

namespace Store.Sample

def viewFilter : ListFilter :=
  { timeSeriesType := some .deterministicSingleTimeSeries, resolution := some hour }

/-- The rows of the view of two one-hour windows. -/
def viewRows : Result (List (TimeSeriesMetadata Digest)) :=
  viewed.db.listFilter (some (ArrayBackend.getTimestamps viewed.arrays.backend)) viewFilter.toFilter

/-- The array the view names, and the grid of its windows. -/
def viewSource : TypedArray := ⟨.u8, [2], [7, 7]⟩

def viewColumns : ForecastColumns := ⟨.epoch, hour, hour, hour, 2⟩

/-- A row is the view. -/
def isView (m : TimeSeriesMetadata Digest) : Bool :=
  decide (m.timeSeriesType = .deterministicSingleTimeSeries) &&
    decide (forecastColumns m "DeterministicSingleTimeSeries" = .ok viewColumns) &&
    decide (viewed.arrays.content m.dataHash = some viewSource) &&
    decide (m.elementType.physicalDtype = .u8) && (materializeTimeSeries viewed.arrays m none).isOk

theorem view_held : ∃ m, viewRows = .ok [m] ∧
    viewed.arrays.HoldsView m viewColumns 1 1 viewSource ∧
    ∃ d, materializeTimeSeries viewed.arrays m none = .ok d := by
  have h : (viewRows.map fun rows => rows.map isView) = .ok [true] := by decide +kernel
  cases hr : viewRows with
  | error e =>
    rw [hr] at h
    cases h
  | ok rows =>
    rw [hr] at h
    obtain ⟨m, rfl, hm⟩ := List.map_eq_singleton_iff.mp (Except.ok.inj h)
    simp only [isView, Bool.and_eq_true, decide_eq_true_eq] at hm
    obtain ⟨⟨⟨⟨h1, h2⟩, h3⟩, h4⟩, h5⟩ := hm
    refine ⟨m, rfl, ⟨(after_reachable _).inv.valid, h1, h2, h3, h4, by decide, by decide,
      by decide +kernel, by decide +kernel, by decide⟩, ?_⟩
    cases hd : materializeTimeSeries viewed.arrays m none with
    | error e =>
      rw [hd] at h5
      cases h5
    | ok d => exact ⟨d, rfl⟩

theorem view_read : ∃ r r', forecastReaderOver viewed.db viewed.arrays viewFilter = .ok r ∧
    (viewed.arrays.forecastRead .epoch).exec r = (.ok (), r') := by
  have h : ((forecastReaderOver viewed.db viewed.arrays viewFilter).toOption.any fun r =>
      ((viewed.arrays.forecastRead .epoch).exec r).1.isOk) = true := by decide +kernel
  cases hr : forecastReaderOver viewed.db viewed.arrays viewFilter with
  | error e =>
    rw [hr] at h
    cases h
  | ok r =>
    rw [hr] at h
    refine ⟨r, _, rfl, Prod.ext ?_ rfl⟩
    cases he : ((viewed.arrays.forecastRead .epoch).exec r).1 with
    | error e =>
      rw [Except.toOption, Option.any_some, he] at h
      cases h
    | ok u => rfl

/-- The view of two one-hour windows, read whole and through a reader. -/
theorem derived_views_stacked_viewed :
    ∃ m, viewed.arrays.HoldsView m viewColumns 1 1 viewSource ∧
      (∃ d w0 n first data, materializeTimeSeries viewed.arrays m none = .ok d ∧
        d = viewOf m viewColumns data first n ∧
          viewed.arrays.Gathers m viewColumns 1 1 viewSource w0 n data) ∧
      ∃ r' : ForecastReader Digest, ∃ window, ∃ e ∈ r'.entries, m.id = some e.id ∧
        r'.Exposes e ((viewSource.stacked 1 1 0 2).slice 1 window 1) := by
  have hall := derived_views_stacked (H := Digest) (B := MemoryBackend Digest)
  obtain ⟨m, hm, hv, d, hd⟩ := view_held
  obtain ⟨-, w0, n, first, data, -, -, hview, hg⟩ := (hall.1 _ m _ _ _ _ hv).1 none d hd
  obtain ⟨r, r', hr, hread⟩ := view_read
  obtain ⟨rows, hrows, hreads⟩ :=
    hall.2 _ _ (after_reachable _).inv.toSound.serves _ viewFilter r hr
  obtain ⟨window, -, sorted, hperm, hentries⟩ := hreads r r' .epoch rfl hread
  have hone : rows = [m] := Except.ok.inj (hrows.symm.trans hm)
  rw [hone, List.perm_singleton] at hperm
  subst hperm
  refine ⟨m, hv, ⟨d, w0, n, first, data, hd, hview, hg⟩, r', window, ?_⟩
  generalize r'.entries = entries at hentries
  cases hentries with
  | @cons _ e _ _ hfirst _ => exact ⟨e, List.mem_cons_self, hfirst.1, (hfirst.2 _ _ _ _ hv).2⟩

end Store.Sample

end InfraStore
