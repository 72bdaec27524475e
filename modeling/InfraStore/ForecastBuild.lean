import InfraStore.ForecastCache
import InfraStore.StaticBuild

/-!
# Forecast readers over a store

A forecast reader is built over the forecasts a filter selects, written ones and derived views alike.

* `ArrayStore.HoldsSeries.window_shown`: what an entry reads is a window of its row's series;
* `ForecastReader.after`: a reader after reads in any order, some of which may have failed;
* `Store.forecast_reads_agree`: a read that succeeds shows for each entry the window its series has at
  the instant, the one a read by id gives, and one that fails shows nothing.
-/

namespace InfraStore

open Lib

/-! ### Windows of a row -/

/-- A place on a window grid is that of its instant. -/
theorem indexOnGrid_windows {initial x : DateTime} {interval : Period} {count k : ℕ} {what : String}
    (hg : WindowGrid initial interval count) :
    indexOnGrid initial interval count x what = .ok k ↔
      k < count ∧ interval.addTo initial (k : ℕ) = some x := by
  have ht := hg.millis.1
  rcases hg.interval with hp | ⟨hcount, hz⟩
  · exact indexOnGrid_iff hp ht
  · rw [Period.addTo_of_isZero hz ht]
    constructor
    · intro h
      have hlt := indexOnGrid_lt h
      unfold indexOnGrid at h
      rw [if_pos ⟨hz, by omega⟩] at h
      split at h
      · rename_i hx
        exact ⟨hlt, congrArg some hx.symm⟩
      · cases h
    · rintro ⟨hlt, hx⟩
      unfold indexOnGrid
      rw [if_pos ⟨hz, by omega⟩, if_pos (Option.some.inj hx).symm]
      exact congrArg Except.ok (by omega)

theorem forecastTimeline_ok {H : Type} {m : TimeSeriesMetadata H}
    {timeline : DateTime × Period × Period × ℕ} (h : forecastTimeline m = .ok timeline) :
    m.initialTimestamp = some timeline.1 ∧ m.interval = some timeline.2.2.1 ∧
      m.count = some timeline.2.2.2 := by
  unfold forecastTimeline at h
  simp only [except_bind_eq_ok] at h
  obtain ⟨_, h1, _, -, _, h3, _, h4, h⟩ := h
  cases h
  exact ⟨required_ok h1, required_ok h3, required_ok h4⟩

theorem denseLayout_read {H : Type} {m : TimeSeriesMetadata H} {shape : List ℕ} {count axis : ℕ}
    {l : List ℕ × WindowRead} (h : denseLayout m shape count axis = .ok l) : l.2 = .dense axis := by
  unfold denseLayout at h
  split at h
  · cases h
  · split at h
    · cases h
    · cases h
      rfl

/-- The rows or windows cut out of a series are a slice of its array. -/
theorem TimeSeriesData.cut_data (d : TimeSeriesData) (i n : ℕ) (first : DateTime) :
    (d.cut i n first).fields.data = d.fields.data.slice d.rowAxis i n := by
  cases d with
  | _ => rfl

theorem TimeSeriesMetadata.RowOf.forecast_of_layout {H : Type} [Sha256 H] {m : TimeSeriesMetadata H}
    {d : TimeSeriesData} (row : m.RowOf d) {shape : List ℕ} {count : ℕ} {l : List ℕ × WindowRead}
    (hl : entryLayout m shape count = .ok l) : ∃ f, d.forecast = some f := by
  unfold entryLayout at hl
  rw [row.kind] at hl
  cases d with
  | single ss => cases hl
  | nonSequential ns => cases hl
  | persistent ps => cases hl
  | deterministic sc => exact ⟨_, rfl⟩
  | probabilistic sc => exact ⟨_, rfl⟩
  | scenarios sc => exact ⟨_, rfl⟩

/-- The windows of a forecast on record start on a grid. -/
theorem TimeSeriesMetadata.Sourced.windowGrid {H : Type} [DecidableEq H] [Sha256 H] [FloatText]
    {A : Set TypedArray} {m : TimeSeriesMetadata H} (h : m.Sourced A) {shape : List ℕ} {count : ℕ}
    {l : List ℕ × WindowRead} (hl : entryLayout m shape count = .ok l)
    {timeline : DateTime × Period × Period × ℕ} (htl : forecastTimeline m = .ok timeline) :
    WindowGrid timeline.1 timeline.2.2.1 timeline.2.2.2 := by
  obtain ⟨h1, h2, h3⟩ := forecastTimeline_ok htl
  cases h with
  | written d row accepted shape data =>
    obtain ⟨f, hf⟩ := row.forecast_of_layout hl
    have hm := row.windowsOf hf
    rw [hm.initial, Option.some.injEq] at h1
    rw [hm.interval, Option.some.injEq] at h2
    rw [hm.count, Option.some.injEq] at h3
    rw [← h1, ← h2, ← h3]
    exact accepted.windowGrid hf
  | derived ss horizon plan hh k view data =>
    obtain ⟨h1', -, -, h2', h3'⟩ := forecastColumns_ok view.columns
    rw [h1', Option.some.injEq] at h1
    rw [h2', Option.some.injEq] at h2
    rw [h3', Option.some.injEq] at h3
    rw [← h1, ← h2, ← h3]
    obtain ⟨hp, -⟩ := Deterministic.validate_ok.mp view.validate
    exact ⟨view.source.single.1, (validateForecastPeriods_ok hp).2.2⟩

section

variable {H B : Type} [DecidableEq H] [Sha256 H] [FloatText] [ToString H] [ArrayBackend H B]
  [LawfulArrayBackend H B]

namespace ArrayStore.HoldsSeries

variable {s : ArrayStore H B} {m : TimeSeriesMetadata H} {d d' : TimeSeriesData} {f : ForecastFields}
  {a : TypedArray} {l : List ℕ × WindowRead} {count k : ℕ}

/-- A row that an entry can be laid out for holds a forecast. -/
theorem forecast_of_layout [LawfulReads H B] (h : s.HoldsSeries m d) {shape : List ℕ}
    (hl : entryLayout m shape count = .ok l) : ∃ f, d.forecast = some f := by
  cases h with
  | written hs => exact hs.row.forecast_of_layout hl
  | derived hv hms hfull =>
    obtain ⟨sc, rfl, -⟩ := view_eq hv hfull
    exact ⟨_, rfl⟩

/-- **Entries.**  What an entry reads of its row's array is a window of the row's series. -/
theorem window_shown [LawfulReads H B] (h : s.HoldsSeries m d) (hf : d.forecast = some f)
    (ha : s.content m.dataHash = some a) (hl : entryLayout m a.shape f.count = .ok l)
    (hk : k < f.count) :
    l.2.windowShape a.shape = d.fields.data.shape.eraseIdx d.rowAxis ∧
      l.2.bytes a k = (d.fields.data.slice d.rowAxis k 1).bytes := by
  have hdense : ∀ {axis : ℕ}, denseLayout m a.shape f.count axis = .ok l →
      d.fields.data = a → d.rowAxis = axis →
      l.2.windowShape a.shape = d.fields.data.shape.eraseIdx d.rowAxis ∧
        l.2.bytes a k = (d.fields.data.slice d.rowAxis k 1).bytes := by
    intro axis hl hd haxis
    rw [denseLayout_read hl, hd, haxis]
    exact ⟨rfl, rfl⟩
  cases h with
  | written hs =>
    have hd : d.fields.data = a := Option.some.inj (hs.held.symm.trans ha)
    unfold entryLayout at hl
    rw [hs.row.kind] at hl
    cases d with
    | single ss => cases hf
    | nonSequential ns => cases hf
    | persistent ps => cases hf
    | deterministic sc => exact hdense hl hd rfl
    | probabilistic sc => exact hdense hl hd rfl
    | scenarios sc => exact hdense hl hd rfl
  | @derived c hh kk b d hv hms hfull =>
    obtain rfl : b = a := Option.some.inj (hv.held.symm.trans ha)
    obtain ⟨-, -, rfl⟩ := hv.full_eq hfull
    cases hf
    have hlay := hv.layout.2
    have hl : entryLayout m b.shape c.count = .ok l := hl
    rw [hl] at hlay
    cases hlay
    constructor
    · show hh :: b.shape.drop 1 = hh :: b.elementShape
      rw [List.drop_one]
      rfl
    · show (b.slice 0 (k * kk) hh).bytes = ((b.stacked hh kk 0 c.count).slice 1 k 1).bytes
      have hin : k + 1 ≤ c.count := hk
      rw [TypedArray.stacked_slice hv.checked.wellFormed hv.rank
        (by rw [Nat.zero_add]; exact hv.within) hin, Nat.zero_add, TypedArray.stacked_one hv.rank]

/-- A read by id of the window that starts at an instant gives the window at its place. -/
theorem readWindow_one [LawfulReads H B] (h : s.HoldsSeries m d) (hf : d.forecast = some f)
    {w : ReadWindow} {x : DateTime} (hstart : w.start = some x) (hcount : w.count = some 1)
    (hd' : readWindow s m w = .ok d') (hk : k < d.extent) (hx : d.instant k = some x) :
    d'.fields.data = d.fields.data.slice d.rowAxis k 1 := by
  have hw : w.isFull = false := by
    unfold ReadWindow.isFull
    rw [hstart]
    rfl
  obtain ⟨-, i, n, start, hn, -, rfl, -⟩ := (h.readWindow_exact hw).1 d' hd'
  obtain ⟨hextent, hinstant, -⟩ := TimeSeriesData.forecast_eqs hf
  obtain rfl : n = 1 := by
    have hask := hn.extent
    unfold ReadWindow.asked at hask
    rw [hf, Option.isSome_some, if_pos rfl, hcount] at hask
    exact hask.symm
  obtain rfl : start = x := by
    rcases hn.start with h' | ⟨h', -⟩
    · rw [hstart] at h'
      exact (Option.some.inj h').symm
    · rw [hstart] at h'
      cases h'
  obtain rfl : i = k := by
    have hg := (h.windows hf).2.1
    have hplace := hn.place
    have hwithin := hn.within
    rw [hinstant] at hplace hx
    rw [hextent] at hwithin hk
    have h1 : indexOnGrid f.initialTimestamp f.interval f.count start "" = .ok i :=
      (indexOnGrid_windows hg).mpr ⟨by omega, hplace⟩
    have h2 : indexOnGrid f.initialTimestamp f.interval f.count start "" = .ok k :=
      (indexOnGrid_windows hg).mpr ⟨hk, hx⟩
    exact Except.ok.inj (h1.symm.trans h2)
  exact d.cut_data i 1 start

end ArrayStore.HoldsSeries

/-! ### Slots and entries -/

omit [DecidableEq H] [FloatText] [ToString H] in
/-- A slot made for a row reads the row's array. -/
theorem WindowSlot.MadeFor.isFor {A : Set TypedArray} {count : ℕ} {slot : WindowSlot H}
    {item : TimeSeriesMetadata H × List ℕ} {a : TypedArray} (h : slot.MadeFor count item) (hmem : a ∈ A)
    (hash : item.1.dataHash = arrayHash a) (dtype : item.1.elementType.physicalDtype = a.dtype)
    (shape : a.shape = item.2) (hw : a.WellFormed) (hne : a.shape ≠ []) :
    slot.For A a ∧ slot.count = count := by
  obtain ⟨l, hl, rfl⟩ := h
  obtain ⟨hwindow, hfits⟩ := entryLayout_ok hl
  refine ⟨⟨hmem, hash, dtype, ?_, ?_, hw, hne⟩, rfl⟩
  · rw [shape]
    exact hwindow
  · rw [shape]
    exact hfits

/-- The array of a record that a store filed, among the arrays given. -/
theorem Store.ReadsAs.array {U : Set Features} {T : Set (List DateTime)} {A : Set TypedArray}
    (hU : Set.InjOn (featuresHash (H := H)) U) (hempty : Features.empty ∈ U)
    (hs : ∀ f ∈ U, f.Storable) (hT : Set.InjOn (timestampsHash (H := H)) T)
    (hmillis : ∀ ts ∈ T, ∀ t ∈ ts, t.IsMillis) (hA : Set.InjOn (arrayHash (H := H)) A)
    {s : Store H B} (h : s.ReachableBy (SourcedTurn U T A)) {r : AssociationRow H}
    {m : TimeSeriesMetadata H} (hread : s.ReadsAs r m) :
    ∃ a ∈ A, m.dataHash = arrayHash a ∧ m.elementType.physicalDtype = a.dtype ∧
      s.arrays.content m.dataHash = some a ∧ a.WellFormed ∧ a.shape ≠ [] := by
  have hrestoring := (h.mono fun _ _ h => h.restorable).restoring hU hempty hs
  have hrow := h.sourced hU hempty hs hT hmillis _ List.mem_cons_self r hread.1
  have hi := h.reachable.inv
  cases hread.sourced hU hempty hs hT hmillis hrestoring hrow with
  | written d row accepted shape data =>
    have htype : m.elementType = d.fields.elementType :=
      congrArg SeriesFields.elementType (row.described d.fields.data d.fields.elementType)
    refine ⟨d.fields.data, data, row.hash, ?_, content_of_hash hA hi h.arrays_given hread data row.hash,
      accepted.checked.wellFormed, accepted.shape_ne_nil⟩
    rw [htype]
    exact accepted.dtype
  | derived ss horizon plan hh k view data =>
    have hheld := content_of_hash hA hi h.arrays_given hread data view.hash
    have hv := view.holdsView hi.valid hheld
    exact ⟨ss.data, data, view.hash, hv.dtype, hheld, hv.checked.wellFormed, hv.rank⟩

namespace ForecastReader

/-- A reader exposes, for an entry, the window that its series has at an instant. -/
def Shows (r : ForecastReader H) (e : ForecastEntry) (d : TimeSeriesData) (x : DateTime) : Prop :=
  ∃ k slot, k < d.extent ∧ d.instant k = some x ∧ r.slots[e.slot]? = some slot ∧
    slot.windowShape = d.fields.data.shape.eraseIdx d.rowAxis ∧
    slot.window = (d.fields.data.slice d.rowAxis k 1).bytes

/-- The slot of an entry, once it shows the window of its array, shows that of the entry's series. -/
theorem shows_of_slots [LawfulReads H B] {A : Set TypedArray}
    (hA : Set.InjOn (arrayHash (H := H)) A) {s : ArrayStore H B} {reported : TimeSeriesType}
    {built r r' : ForecastReader H} {item : TimeSeriesMetadata H × List ℕ} {e : ForecastEntry}
    {a : TypedArray} {d : TimeSeriesData} {x : DateTime} {window : ℕ}
    (hof : ForecastEntry.Of reported
      (built.initialTimestamp, built.resolution, built.interval, built.count) built.slots item e)
    (hfor : ∀ t ∈ built.slots, ∃ a, t.For A a) (hmem : a ∈ A) (hash : item.1.dataHash = arrayHash a)
    (ha : s.content item.1.dataHash = some a) (shape : a.shape = item.2)
    (hd : s.HoldsSeries item.1 d) (hr : r.bare = built.bare)
    (hwindow : built.windowIndex x = .ok window)
    (hall : List.Forall₂ (fun t t' : WindowSlot H => t'.bare = t.bare ∧
      ∀ a, t.For A a → t'.window = t.read.bytes a window) r.slots r'.slots) : r'.Shows e d x := by
  obtain ⟨l, t, hl, ht, hisFor⟩ := hof.slot
  simp only [WindowSlot.isFor, Bool.and_eq_true, decide_eq_true_eq] at hisFor
  obtain ⟨⟨hhash, hread⟩, -⟩ := hisFor
  -- the array the slot was made for is the row's
  obtain ⟨a', ha'⟩ := hfor t (List.mem_of_getElem? ht)
  obtain rfl : a' = a := hA ha'.mem hmem (by rw [← ha'.hash, hhash, hash])
  -- the slot before the read, and after it
  obtain ⟨t₁, ht₁, hb₁⟩ := slotAt_of_bare hr ht
  obtain ⟨t₂, ht₂, hb₂, hw₂⟩ := Catalog.forall₂_getElem? hall ht₁
  -- the windows of the row are the reader's
  obtain ⟨f, hf⟩ := hd.forecast_of_layout hl
  obtain ⟨hm, hg, -⟩ := hd.windows hf
  obtain ⟨hextent, hinstant, -⟩ := TimeSeriesData.forecast_eqs hf
  obtain ⟨h1, h2, h3⟩ := forecastTimeline_ok hof.windows
  dsimp only at h1 h2 h3 hl
  rw [hm.initial, Option.some.injEq] at h1
  rw [hm.interval, Option.some.injEq] at h2
  rw [hm.count, Option.some.injEq] at h3
  unfold windowIndex at hwindow
  rw [← h1, ← h2, ← h3] at hwindow
  obtain ⟨hlt, hadd⟩ := (indexOnGrid_windows hg).mp hwindow
  rw [← shape, ← h3] at hl
  obtain ⟨hshape, hbytes⟩ := hd.window_shown hf ha hl hlt
  refine ⟨window, t₂, hextent ▸ hlt, (hinstant window).trans hadd, ht₂, ?_, ?_⟩
  · rw [WindowSlot.windowShape_of_bare (hb₂.trans hb₁), ha'.windowShape, hread]
    exact hshape
  · rw [hw₂ a' (ha'.of_bare hb₁), WindowSlot.read_of_bare hb₁, hread]
    exact hbytes

end ForecastReader

end

/-! ### Reads of a store that holds the arrays -/

section

variable {H B : Type} [DecidableEq H] [Sha256 H] [ToString H] [ArrayBackend H B]
  [LawfulArrayBackend H B] [LawfulReads H B]
variable {A : Set TypedArray} {x : ArrayStore H B} {window : ℕ}

namespace WindowSlot

variable {s : WindowSlot H} {a : TypedArray} {axis : ℕ}

/-- A slot whose array is held takes its turn. -/
theorem For.turn_total (hx : x.Valid) (hs : s.For A a) (ha : x.content s.hash = some a)
    (hw : window < s.count) : ∃ s', (WindowSlot.turn x.windowReads window).exec s = (.ok (), s') := by
  cases hread : s.read with
  | derived k n =>
    have hreq : s.request window = some (s.hash, s.dtype, window * k, window * k + n) := by
      unfold request derivedSpan
      rw [hread]
      rfl
    exact ⟨s, turn_derived hreq x.windowReads⟩
  | dense axis =>
    have hheld : x.windowReads.holds s.hash = .ok true := by
      show Except.ok (x.holdsArray s.hash) = .ok true
      rw [ArrayStore.holdsArray_eq hx, ha]
      rfl
    rw [turn_held hread hheld, readWindow_exec hread]
    by_cases hc : s.cached = some (s.blockSpan window)
    · rw [if_pos hc]
      exact ⟨_, rfl⟩
    · obtain ⟨h1, h2, h3⟩ := blockSpan_spec hw
      have hd : a.shape[axis]? = some s.count := by
        have hfits := hs.fits
        rw [hread] at hfits
        exact hfits
      have hblock : x.readWindowBlock s.hash s.dtype axis (s.blockSpan window).1
          ((s.blockSpan window).2 - (s.blockSpan window).1) = .ok (a.slice axis (s.blockSpan window).1
          ((s.blockSpan window).2 - (s.blockSpan window).1)).bytes := by
        rw [hs.dtype]
        exact (ArrayStore.readsBlocks hx ha axis _ _).1 _ hd (by omega)
      have hexec : (x.windowReads.readBlock s.hash s.dtype axis (s.blockSpan window).1
          ((s.blockSpan window).2 - (s.blockSpan window).1)).exec s.block = (.ok (), _) :=
        exec_overwrite hblock _
      rw [if_neg hc, hexec]
      exact ⟨_, rfl⟩

/-- A derived slot whose array is held is answered. -/
theorem For.readRun_total (hx : x.Valid) (hs : s.For A a) (ha : x.content s.hash = some a)
    (hw : window < s.count) {req : H × Dtype × ℕ × ℕ} (hreq : s.request window = some req) :
    ∃ p, x.readRun req = .ok p := by
  have hfits := hs.fits
  unfold request derivedSpan at hreq
  cases hread : s.read with
  | dense axis =>
    rw [hread] at hreq
    cases hreq
  | derived k n =>
    rw [hread] at hreq hfits
    cases hreq
    have hle : window * k ≤ (s.count - 1) * k := Nat.mul_le_mul_right k (by omega)
    have hin : (s.count - 1) * k + n ≤ a.length := hfits
    refine ⟨a.slice 0 (window * k) (window * k + n - window * k), ?_⟩
    show x.getSlice s.hash s.dtype (window * k) (window * k + n) = _
    rw [hs.dtype]
    exact ArrayStore.getSlice_eq hx ha hs.rank (Nat.le_add_right _ n) (by omega)

end WindowSlot

namespace ForecastReader

variable [LawfulBulkReads H B]

omit [LawfulReads H B] in
/-- The batch is answered, if each of its requests is. -/
theorem readDerived_total (hx : x.Valid) {slots : List (WindowSlot H)}
    (hlen : ∀ s ∈ slots, ∀ req, s.request window = some req → ∀ p, x.readRun req = .ok p →
      p.bytes.length = s.windowBytes)
    (hreads : ∀ s ∈ slots, ∀ req, s.request window = some req → ∃ p, x.readRun req = .ok p) :
    ∃ slots', (readDerived x.windowReads window).exec slots = (.ok (), slots') := by
  obtain ⟨parts, hparts⟩ := Catalog.forall₂_of_exists
    fun req (hreq : req ∈ slots.filterMap fun s => s.request window) => by
      obtain ⟨s, hs, hreq⟩ := List.mem_filterMap.mp hreq
      exact hreads s hs req hreq
  have hparts := mapM_eq_ok.mpr hparts
  obtain ⟨slots', hinst, -⟩ := WindowSlot.install_eq hlen hparts
  have hranges : x.readRanges (slots.filterMap fun s => s.request window) =
      .ok (parts.flatMap TypedArray.bytes) := by
    have heq := ArrayStore.readRanges_eq hx (slots.filterMap fun s => s.request window)
    unfold MemoryBackend.concatReads at heq
    rw [show ((slots.filterMap fun s => s.request window).mapM fun c =>
      x.getSlice c.1 c.2.1 c.2.2.1 c.2.2.2) = .ok parts from hparts] at heq
    cases hr : x.readRanges (slots.filterMap fun s => s.request window) with
    | error e =>
      rw [hr] at heq
      cases heq
    | ok bytes =>
      rw [hr] at heq
      exact congrArg Except.ok (Option.some.inj heq)
  unfold readDerived
  rw [Cmd.exec_bind, Cmd.exec_get]
  dsimp only
  split
  · rw [Cmd.exec_bind, Cmd.exec_ofExcept,
      show x.windowReads.readRanges _ = .ok (parts.flatMap TypedArray.bytes) from hranges]
    dsimp only
    rw [Cmd.exec_bind, Cmd.exec_ofExec, hinst]
    exact ⟨slots', rfl⟩
  · exact ⟨slots, rfl⟩

omit [LawfulReads H B] [LawfulBulkReads H B] in
/-- The reads of a store that holds only arrays given are fair. -/
theorem windowReads_fair (hx : Store.Admits (fun h a => a ∈ A ∧ arrayHash a = h) (fun _ _ => True) x) :
    FairWindows B A x.windowReads := by
  refine ⟨x, hx, fun hash d axis start len buf out h => ?_, fun reqs bytes h => h⟩
  have h : (overwrite (x.readWindowBlock hash d axis start len)).exec buf = (.ok (), out) := h
  cases hr : x.readWindowBlock hash d axis start len with
  | error e =>
    rw [hr] at h
    cases h
  | ok bytes =>
    rw [exec_overwrite hr] at h
    cases h
    rfl

/-- A reader is read wherever its grid has the instant, if the store holds its arrays. -/
theorem forecastRead_total (hA : Set.InjOn (arrayHash (H := H)) A)
    (hx : Store.Admits (fun h a => a ∈ A ∧ arrayHash a = h) (fun _ _ => True) x)
    {r : ForecastReader H} {at_ : DateTime} (hwindow : r.windowIndex at_ = .ok window)
    (hfor : ∀ s ∈ r.slots, s.count = r.count ∧ ∃ a, s.For A a ∧ x.content s.hash = some a) :
    ∃ r', (x.forecastRead at_).exec r = (.ok (), r') := by
  have hlt : window < r.count := indexOnGrid_lt hwindow
  obtain ⟨ts, hts⟩ := Cmd.exec_eachBy_total (fun _ => WindowSlot.turn x.windowReads window)
    fun s hs _ => by
      obtain ⟨hcount, a, ha, hheld⟩ := hfor s hs
      exact ha.turn_total hx.valid hheld (hcount ▸ hlt)
  -- the turns leave the slots as they were made
  have hslots : ∀ s ∈ ts, s.count = r.count ∧ ∃ a, s.For A a ∧ x.content s.hash = some a := by
    intro s hs
    have hbare := frame_onSlots (frame_each (fun _ => x.windowReads) window) r
    unfold onSlots at hbare
    rw [Cmd.exec_zoom, hts] at hbare
    obtain ⟨s₀, hs₀, hb⟩ := slot_of_bare hbare hs
    obtain ⟨hcount, a, ha, hheld⟩ := hfor s₀ hs₀
    refine ⟨(WindowSlot.count_of_bare hb).trans hcount, a, ha.of_bare hb, ?_⟩
    rw [WindowSlot.hash_of_bare hb]
    exact hheld
  have hbatch : ∃ slots', (readDerived x.windowReads window).exec ts = (.ok (), slots') := by
    apply readDerived_total hx.valid
    · intro s hs req hreq p hp
      obtain ⟨-, a, ha, -⟩ := hslots s hs
      exact (ha.run hA hx hreq hp).2
    · intro s hs req hreq
      obtain ⟨hcount, a, ha, hheld⟩ := hslots s hs
      exact ha.readRun_total hx.valid hheld (hcount ▸ hlt) hreq
  obtain ⟨slots', hslots'⟩ := hbatch
  have hinto : (readIntoBy at_ fun _ => x.windowReads).exec r =
      (.ok (), { r with slots := slots' }) := by
    unfold readIntoBy onSlots
    rw [Cmd.exec_bind, Cmd.exec_get]
    dsimp only
    rw [Cmd.exec_bind, Cmd.exec_ofExcept, hwindow]
    dsimp only
    rw [Cmd.exec_bind, Cmd.exec_zoom, hts]
    dsimp only
    rw [Cmd.exec_zoom, hslots']
  unfold ArrayStore.forecastRead
  rw [← readBy_const]
  unfold readBy
  rw [Cmd.exec_bind, Cmd.exec_attempt, hinto]
  exact ⟨_, rfl⟩

end ForecastReader

end

/-! ### Reads of a store's readers -/

/-- One read of a reader: the instant, and the reads of the store, each slot's its own. -/
structure ForecastCall (H : Type) where
  at_ : DateTime
  reads : ℕ → WindowReads H

namespace ForecastReader

/-- A reader after some reads. -/
def after {H : Type} (r : ForecastReader H) (calls : List (ForecastCall H)) : ForecastReader H :=
  Cmd.runs (fun c => readBy c.at_ c.reads) calls r

theorem after_bare {H : Type} (r : ForecastReader H) (calls : List (ForecastCall H)) :
    (r.after calls).bare = r.bare := by
  induction calls generalizing r with
  | nil => rfl
  | cons c calls ih => exact (ih _).trans (frame_readBy c.at_ c.reads r)

/-- What was read before leaves every block the array's. -/
theorem after_kept {H B : Type} [DecidableEq H] [Sha256 H] [ToString H] [ArrayBackend H B]
    [LawfulArrayBackend H B] [LawfulReads H B] [LawfulBlockReads H B] {A : Set TypedArray}
    (hA : Set.InjOn (arrayHash (H := H)) A) {r : ForecastReader H} (hr : r.Kept A)
    {calls : List (ForecastCall H)} (hcalls : ∀ c ∈ calls, ∀ i, FairWindows B A (c.reads i)) :
    (r.after calls).Kept A := by
  induction calls generalizing r with
  | nil => exact hr
  | cons c calls ih =>
    apply ih
    · exact keeps_readBy hA (hcalls c List.mem_cons_self) c.at_ r hr
    · intro c' hc'
      exact hcalls c' (List.mem_cons_of_mem c hc')

theorem buildForecastEntries_ne_nil {H : Type} [DecidableEq H] {reported : TimeSeriesType}
    {items : List (TimeSeriesMetadata H × List ℕ)} {r : ForecastReader H}
    (h : buildForecastEntries reported items = .ok r) : items ≠ [] := by
  rintro rfl
  cases h

end ForecastReader

namespace Store

section

variable {H B : Type} [DecidableEq H] [Sha256 H] [FloatText] [ToString H] [Glob] [ArrayBackend H B]
  [LawfulArrayBackend H B] [LawfulReads H B] [LawfulBulkReads H B] [LawfulBlockReads H B]

/-- **Forecast readers agree with reads by id.**  A reader built over a store has an entry for each row
its filter selects, and no other.  Whatever reads came before it, answered or not, a read that succeeds
shows for every entry the window that the series a read by id gives has at the instant, whether it comes
from the store or from a block the reader keeps, and so the window that a read by id of it gives; and
one that fails leaves nothing to see.  A read of the store itself succeeds at the instants of the
reader's grid, and only there. -/
theorem forecast_reads_agree {U : Set Features} {T : Set (List DateTime)} {A : Set TypedArray}
    (hU : Set.InjOn (featuresHash (H := H)) U) (hempty : Features.empty ∈ U)
    (hs : ∀ f ∈ U, f.Storable) (hT : Set.InjOn (timestampsHash (H := H)) T)
    (hmillis : ∀ ts ∈ T, ∀ t ∈ ts, t.IsMillis) (hA : Set.InjOn (arrayHash (H := H)) A)
    {s : Store H B} (h : s.ReachableBy (SourcedTurn U T A)) {filter : ListFilter}
    {r : ForecastReader H} (hr : forecastReaderOver s.db s.arrays filter = .ok r) :
    ((r.entries.map (·.id)).Nodup ∧ ∀ id, id ∈ r.entries.map (·.id) ↔
      ∃ x, s.db.Selects (ArrayBackend.getTimestamps s.arrays.backend)
        (filter.toFilter (H := H)).features filter.toFilter.holds x ∧ x.1.id = id) ∧
    ∀ calls : List (ForecastCall H), (∀ c ∈ calls, ∀ i, FairWindows B A (c.reads i)) →
      (∀ call : ForecastCall H, (∀ i, FairWindows B A (call.reads i)) →
        (∀ r', (ForecastReader.readBy call.at_ call.reads).exec (r.after calls) = (.ok (), r') →
          ∀ e ∈ r.entries, ∀ full, ((readById e.id none .full).exec (s.arm [])).1 = .ok full →
            r'.Shows e full call.at_ ∧ ∀ w : ReadWindow, w.start = some call.at_ → w.count = some 1 →
              ∀ d, ((readById e.id none w).exec (s.arm [])).1 = .ok d →
                ∃ slot, r'.slots[e.slot]? = some slot ∧ slot.window = d.fields.data.bytes) ∧
        ∀ e r', (ForecastReader.readBy call.at_ call.reads).exec (r.after calls) = (.error e, r') →
          ∀ slot ∈ r'.slots, slot.window = []) ∧
      ∀ x, (∃ r', (s.arrays.forecastRead x).exec (r.after calls) = (.ok (), r')) ↔
        ∃ k < r.count, r.interval.addTo r.initialTimestamp (k : ℕ) = some x := by
  have hrestoring := (h.mono fun _ _ h => h.restorable).restoring hU hempty hs
  have hinv := h.reachable.inv
  have hread : ∀ r ∈ s.db.rows, ∃ m, s.db.Hydrated
      (ArrayBackend.getTimestamps s.arrays.backend) r m := by
    intro r hr
    obtain ⟨m, hm⟩ := hrestoring.readsRow hU hempty hs hr
    exact ⟨m, hm.2⟩
  obtain ⟨reported, rows, items, hrep, hrows, hitems, hbuilt⟩ := forecastReaderOver_ok hr
  rw [show ({ filter with timeSeriesType := some reported } : ListFilter) = filter by
    rw [← Store.reportedType_ok hrep]] at hrows
  obtain ⟨sel, hsel, hnodup, hlist, -⟩ :=
    Catalog.selection hread (filter.toFilter (H := H)).features filter.toFilter.holds
  obtain rfl : sel.map Prod.snd = rows := Except.ok.inj (hlist.symm.trans hrows)
  obtain ⟨hfst, hshapes⟩ := withShapes_ok hitems
  obtain ⟨hmade, sorted, hperm, hentries⟩ := buildForecastEntries_ok hbuilt
  -- each row of the listing is one of the store's, and its array is held
  have hrow : ∀ item ∈ items, ∃ x ∈ sel, s.ReadsAs x.1 item.1 ∧ item.1.id = some x.1.id := by
    intro item hitem
    have hmem := List.mem_map_of_mem (f := Prod.fst) hitem
    rw [hfst] at hmem
    obtain ⟨x, hx, hrec⟩ := List.mem_map.mp hmem
    have hselects := (hsel x).mp hx
    rw [← hrec]
    exact ⟨x, hx, ⟨hselects.row, hselects.hydrated⟩, hselects.hydrated.id⟩
  have harray : ∀ item ∈ items, ∃ a ∈ A, item.1.dataHash = arrayHash a ∧
      item.1.elementType.physicalDtype = a.dtype ∧ s.arrays.content item.1.dataHash = some a ∧
        a.WellFormed ∧ a.shape ≠ [] ∧ a.shape = item.2 := by
    intro item hitem
    obtain ⟨x, -, hreads, -⟩ := hrow item hitem
    obtain ⟨a, hmem, hash, dtype, hheld, hw, hne⟩ := hreads.array hU hempty hs hT hmillis hA h
    obtain ⟨y, hy, hshape⟩ := ArrayStore.arrayShape_held hinv.valid (hshapes item hitem)
    obtain rfl : a = y := Option.some.inj (hheld.symm.trans hy)
    exact ⟨a, hmem, hash, dtype, hheld, hw, hne, hshape⟩
  have hfor : ∀ t ∈ r.slots, t.count = r.count ∧
      ∃ a, t.For A a ∧ s.arrays.content t.hash = some a := by
    intro t ht
    obtain ⟨item, hitem, hmf⟩ := hmade t ht
    obtain ⟨a, hmem, hash, dtype, hheld, hw, hne, hshape⟩ := harray item hitem
    obtain ⟨hfora, hcount⟩ := hmf.isFor hmem hash dtype hshape hw hne
    refine ⟨hcount, a, hfora, ?_⟩
    rw [hfora.hash, ← hash]
    exact hheld
  constructor
  · have hids : (r.entries.map (·.id)).Perm (sel.map fun x => x.1.id) := by
      have hfiled : sorted.map (fun item => item.1.id) = (r.entries.map (·.id)).map some := by
        rw [← List.forall₂_eq_eq_eq, List.map_map, List.forall₂_map_left_iff,
          List.forall₂_map_right_iff]
        exact hentries.imp fun item e hof => hof.id
      have hlisted : items.map (fun item => item.1.id) = (sel.map fun x => x.1.id).map some := by
        rw [show items.map (fun item => item.1.id) = (items.map Prod.fst).map (·.id) by
          rw [List.map_map]
          rfl, hfst, List.map_map, List.map_map]
        exact List.map_congr_left fun x hx => ((hsel x).mp hx).hydrated.id
      have hp := hperm.map fun item => item.1.id
      rw [hfiled, hlisted] at hp
      exact (List.map_perm_map_iff (Option.some_injective ℤ)).mp hp
    refine ⟨hids.nodup_iff.mpr hnodup, fun id => ?_⟩
    rw [hids.mem_iff, List.mem_map]
    exact exists_congr fun x => and_congr_left fun _ => hsel x
  · intro calls hcalls
    have hafter := r.after_bare calls
    have hkept : (r.after calls).Kept A := by
      apply ForecastReader.after_kept hA _ hcalls
      intro t ht
      obtain ⟨item, -, l, -, rfl⟩ := hmade t ht
      exact WindowSlot.kept_of_none rfl
    have hslots : ∀ t ∈ (r.after calls).slots, t.count = (r.after calls).count ∧
        ∃ a, t.For A a ∧ s.arrays.content t.hash = some a := by
      intro t ht
      obtain ⟨t₀, ht₀, hb⟩ := ForecastReader.slot_of_bare hafter ht
      obtain ⟨hcount, a, ha, hheld⟩ := hfor t₀ ht₀
      have hcounts : (r.after calls).bare.count = r.bare.count := by rw [hafter]
      refine ⟨?_, a, ha.of_bare hb, ?_⟩
      · rw [WindowSlot.count_of_bare hb, hcount]
        exact hcounts.symm
      · rw [WindowSlot.hash_of_bare hb]
        exact hheld
    have hindex : ∀ x, (r.after calls).windowIndex x = r.windowIndex x := by
      intro x
      show (r.after calls).bare.windowIndex x = r.bare.windowIndex x
      rw [hafter]
    have hgrid : WindowGrid r.initialTimestamp r.interval r.count := by
      obtain ⟨item, hitem⟩ := List.exists_mem_of_ne_nil _
        (ForecastReader.buildForecastEntries_ne_nil hbuilt)
      obtain ⟨x, -, hreads, -⟩ := hrow item hitem
      obtain ⟨e, -, hof⟩ := Catalog.forall₂_mem_right hentries.flip (hperm.mem_iff.mpr hitem)
      obtain ⟨l, -, hl, -, -⟩ := hof.slot
      have hsourced := hreads.sourced hU hempty hs hT hmillis hrestoring
        (h.sourced hU hempty hs hT hmillis _ List.mem_cons_self x.1 hreads.1)
      exact hsourced.windowGrid hl hof.windows
    refine ⟨fun call hfair => ⟨fun r' hr' e he full hfull => ?_, fun e r' hr' =>
      ForecastReader.readBy_error hr'⟩, fun x => ⟨fun hok => ?_, fun hx => ?_⟩⟩
    · obtain ⟨window, hwindow, hall⟩ := ForecastReader.readBy_shows hA hfair hkept
        (fun t ht => ⟨(hslots t ht).1, (hslots t ht).2.imp fun a ha => ha.1⟩) hr'
      rw [hindex] at hwindow
      obtain ⟨item, hmem, hof⟩ := Catalog.forall₂_mem_right hentries he
      have hitem := hperm.subset hmem
      obtain ⟨x, -, hreads, hid⟩ := hrow item hitem
      have hid : e.id = x.1.id := Option.some.inj (hof.id.symm.trans hid)
      obtain ⟨a, hmemA, hash, -, hheld, -, -, hshape⟩ := harray item hitem
      obtain ⟨m, hreads', hholds⟩ := rows_hold hU hempty hs hT hmillis hA h hreads.1
      obtain rfl : m = item.1 := hreads'.2.unique hreads.2
      rw [hid] at hfull ⊢
      have hd := hholds full hfull
      have hshows := ForecastReader.shows_of_slots hA hof
        (fun t ht => (hfor t ht).2.imp fun a ha => ha.1) hmemA hash hheld hshape hd hafter hwindow hall
      refine ⟨hshows, fun w hstart hcount d hread => ?_⟩
      obtain ⟨k, slot, hk, hinstant, hslot, -, hbytes⟩ := hshows
      obtain ⟨l, -, hl, -, -⟩ := hof.slot
      obtain ⟨f, hf⟩ := hd.forecast_of_layout hl
      rw [readById_eq hreads.getById] at hread
      rw [hd.readWindow_one hf hstart hcount hread hk hinstant]
      exact ⟨slot, hslot, hbytes⟩
    · obtain ⟨r', hr'⟩ := hok
      have hlen : ∀ window, ∀ t ∈ (r.after calls).slots, ∀ req, t.request window = some req →
          ∀ p, s.arrays.readRun req = .ok p → p.bytes.length = t.windowBytes := by
        intro window t ht req hreq p hp
        obtain ⟨-, a, ha, -⟩ := hslots t ht
        exact (ha.run hA h.arrays_given hreq hp).2
      obtain ⟨window, hwindow, -⟩ := ForecastReader.read_ok (windowReads_ranges hinv.valid) hlen hr'
      rw [hindex] at hwindow
      exact ⟨window, (indexOnGrid_windows hgrid).mp hwindow⟩
    · obtain ⟨k, hk, hadd⟩ := hx
      have hwindow : (r.after calls).windowIndex x = .ok k := by
        rw [hindex]
        exact (indexOnGrid_windows hgrid).mpr ⟨hk, hadd⟩
      exact ForecastReader.forecastRead_total hA h.arrays_given hwindow hslots

end

/-! ### A reader of one view -/

namespace Sample

/-- What a reader over the view of two one-hour windows is built to. -/
def viewReader : Result (ForecastReader Digest) :=
  forecastReaderOver viewed.db viewed.arrays viewFilter

theorem viewReader_built :
    (viewReader.map fun r => (r.initialTimestamp, r.interval, r.count, r.entries.map (·.id))) =
      .ok (.epoch, hour, 2, [2]) := by decide +kernel

/-- The windows of the view are read at their two instants and at no other, and each as its series has
it, whatever was read before. -/
theorem forecast_reads_agree_viewed : ∃ r, viewReader = .ok r ∧ r.entries.map (·.id) = [2] ∧
    ∀ calls : List (ForecastCall Digest),
      (∀ c ∈ calls, ∀ i, FairWindows (MemoryBackend Digest) {sevens} (c.reads i)) → ∀ x,
        ((∃ r', (viewed.arrays.forecastRead x).exec (r.after calls) = (.ok (), r')) ↔
          ∃ k < 2, hour.addTo .epoch (k : ℕ) = some x) ∧
        ∀ r', (viewed.arrays.forecastRead x).exec (r.after calls) = (.ok (), r') →
          ∀ e ∈ r.entries, ∀ full, ((readById e.id none .full).exec (viewed.arm [])).1 = .ok full →
            r'.Shows e full x := by
  have hb := viewReader_built
  cases hr : viewReader with
  | error e =>
    rw [hr] at hb
    cases hb
  | ok r =>
    rw [hr] at hb
    have hgrid := Except.ok.inj hb
    have hinitial : r.initialTimestamp = .epoch := congrArg Prod.fst hgrid
    have hinterval : r.interval = hour := congrArg (fun g => g.2.1) hgrid
    have hcount : r.count = 2 := congrArg (fun g => g.2.2.1) hgrid
    obtain ⟨-, hreads⟩ := forecast_reads_agree tags_injOn (Or.inl rfl) tags_storable
      (fun _ h => (Set.notMem_empty _ h).elim) (fun _ h => (Set.notMem_empty _ h).elim)
      (Set.injOn_singleton _ _) viewed_reachable hr
    refine ⟨r, rfl, congrArg (fun g => g.2.2.2) hgrid, fun calls hcalls x => ?_⟩
    obtain ⟨hshows, hgridded⟩ := hreads calls hcalls
    have hx := hgridded x
    rw [hinitial, hinterval, hcount] at hx
    refine ⟨hx, fun r' hr' e he full hfull => ?_⟩
    have hfair : ∀ _ : ℕ, FairWindows (MemoryBackend Digest) {sevens} viewed.arrays.windowReads :=
      fun _ => ForecastReader.windowReads_fair viewed_reachable.arrays_given
    have hown : (ForecastReader.readBy x fun _ => viewed.arrays.windowReads).exec (r.after calls) =
        (.ok (), r') := by
      rw [ForecastReader.readBy_const]
      exact hr'
    exact (((hshows ⟨x, fun _ => viewed.arrays.windowReads⟩ hfair).1 r' hown) e he full hfull).1

end Sample

end Store

end InfraStore
