import InfraStore.ForecastReads
import InfraStore.Hdf5Laws
import InfraStore.WindowReads

/-!
# The cache of a forecast reader

A slot of a forecast reader keeps the block of windows it last read, and answers later reads inside the
block from it.

* `WindowSlot.For`: the array a slot reads, which is the only one of its hash;
* `WindowSlot.Kept`: the block a slot keeps is the slice of its array that the slot says it is, which
  every read preserves, whether it succeeds or not (`ForecastReader.keeps_readBy`);
* `ForecastReader.readBy_shows`: after a read that succeeds every slot shows its array's window.
-/

namespace InfraStore

open Lib

/-! ### Block reads -/

/-- A block is read of an array that is held. -/
class LawfulBlockReads (H : outParam Type) [DecidableEq H] [Sha256 H] (B : Type) [ArrayBackend H B]
    [LawfulArrayBackend H B] : Prop where
  readWindowBlock_held {b : B} {h : H} {d : Dtype} {axis start len : ℕ} {bytes : List UInt8} :
    LawfulArrayBackend.Valid b → ArrayBackend.readWindowBlock b h d axis start len = .ok bytes →
      (LawfulArrayBackend.array b h).isSome

instance {H : Type} [DecidableEq H] [ToString H] [Sha256 H] : LawfulBlockReads H (MemoryBackend H) where
  readWindowBlock_held := by
    intro b h d axis start len bytes _ hr
    have hr : b.readWindowBlock h d axis start len = .ok bytes := hr
    unfold MemoryBackend.readWindowBlock MemoryBackend.getArray at hr
    show (FMap.get b.arrays h).isSome
    cases ha : FMap.get b.arrays h with
    | none =>
      rw [ha] at hr
      cases hr
    | some a => rfl

instance {D : Type} [H5Library D] [LawfulH5Library D] [Sha256 Hash32] :
    LawfulBlockReads Hash32 (Hdf5File D) where
  readWindowBlock_held := by
    intro s h d axis start len bytes hs hr
    have hr : s.toHdf5Backend.readWindowBlockLocked h d axis start len = .ok bytes := hr
    show (s.array h).isSome
    rw [Hdf5File.Valid.array_isSome hs]
    unfold Hdf5Backend.readWindowBlockLocked Hdf5Backend.location at hr
    cases hloc : FMap.get s.byHash h with
    | none =>
      rw [hloc] at hr
      cases hr
    | some l => rfl

/-! ### Slots and their arrays -/

/-- The bytes of one window of an array. -/
def WindowRead.bytes (read : WindowRead) (a : TypedArray) (window : ℕ) : List UInt8 :=
  match read with
  | .dense countAxis => (a.slice countAxis window 1).bytes
  | .derived intervalSteps horizonSteps => (a.slice 0 (window * intervalSteps) horizonSteps).bytes

/-- Reads of windows of arrays of `A`: they may fail at will, and what they answer is what some array
store that holds none but these answers. -/
def FairWindows (B : Type) {H : Type} [DecidableEq H] [Sha256 H] [ToString H] [ArrayBackend H B]
    [LawfulArrayBackend H B] (A : Set TypedArray) (reads : WindowReads H) : Prop :=
  ∃ x : ArrayStore H B, Store.Admits (fun h a => a ∈ A ∧ arrayHash a = h) (fun _ _ => True) x ∧
    (∀ hash d axis start len buf out, (reads.readBlock hash d axis start len).exec buf = (.ok (), out) →
      x.readWindowBlock hash d axis start len = .ok out) ∧
    ∀ reqs bytes, reads.readRanges reqs = .ok bytes → x.readRanges reqs = .ok bytes

namespace WindowSlot

section

variable {H : Type} [Sha256 H]

/-- A slot reads the windows of an array of `A`. -/
structure For (A : Set TypedArray) (s : WindowSlot H) (a : TypedArray) : Prop where
  mem : a ∈ A
  hash : s.hash = arrayHash a
  dtype : s.dtype = a.dtype
  windowShape : s.windowShape = s.read.windowShape a.shape
  fits : s.read.Fits a.shape s.count
  wellFormed : a.WellFormed
  rank : a.shape ≠ []

/-- The block a slot keeps is the slice of its array that it says it is. -/
def Kept (A : Set TypedArray) (s : WindowSlot H) : Prop :=
  ∀ a, s.For A a → ∀ axis span, s.read = .dense axis → s.cached = some span →
    s.block = (a.slice axis span.1 (span.2 - span.1)).bytes

variable {A : Set TypedArray} {s s' : WindowSlot H} {a : TypedArray}

theorem count_of_bare {H : Type} {s s' : WindowSlot H} (h : s.bare = s'.bare) : s.count = s'.count := by
  show s.bare.count = s'.bare.count
  rw [h]

theorem For.of_bare (h : s.For A a) (hb : s'.bare = s.bare) : s'.For A a := by
  refine ⟨h.mem, ?_, ?_, ?_, ?_, h.wellFormed, h.rank⟩
  · rw [hash_of_bare hb, h.hash]
  · rw [← h.dtype]
    exact congrArg ElementType.physicalDtype (elementType_of_bare hb)
  · rw [windowShape_of_bare hb, read_of_bare hb, h.windowShape]
  · rw [read_of_bare hb, count_of_bare hb]
    exact h.fits

theorem Kept.of_same (h : s.Kept A) (hb : s'.bare = s.bare) (hcached : s'.cached = s.cached)
    (hblock : s'.block = s.block) : s'.Kept A := by
  intro a ha axis span hread hspan
  rw [hblock]
  exact h a (ha.of_bare hb.symm) axis span (read_of_bare hb ▸ hread) (hcached ▸ hspan)

/-- A slot that keeps no block keeps none that is not its array's. -/
theorem kept_of_none (h : s.cached = none) : s.Kept A := by
  intro a _ axis span _ hspan
  rw [h] at hspan
  cases hspan

omit [Sha256 H] in
/-- The span of a window holds it, and lies among the windows. -/
theorem blockSpan_spec {window : ℕ} (hw : window < s.count) :
    (s.blockSpan window).1 ≤ window ∧ window < (s.blockSpan window).2 ∧
      (s.blockSpan window).2 ≤ s.count := by
  unfold blockSpan
  simp only
  obtain ⟨c, hc⟩ : ∃ c, max s.blockCols 1 = c := ⟨_, rfl⟩
  have hpos : 0 < c := by omega
  rw [hc]
  have hle := Nat.div_mul_le_self window c
  have hlt := Nat.lt_div_mul_add hpos (a := window)
  omega

end

section

variable {H B : Type} [DecidableEq H] [Sha256 H] [ToString H] [ArrayBackend H B]
  [LawfulArrayBackend H B] [LawfulReads H B] [LawfulBlockReads H B]
variable {A : Set TypedArray} {s s' : WindowSlot H} {a : TypedArray} {reads : WindowReads H}
  {window axis : ℕ}

/-- A fair block is the slice of the slot's array. -/
theorem For.block (hA : Set.InjOn (arrayHash (H := H)) A) (hs : s.For A a)
    (hfair : FairWindows B A reads) {start len : ℕ} {buf out : List UInt8}
    (h : (reads.readBlock s.hash s.dtype axis start len).exec buf = (.ok (), out)) :
    out = (a.slice axis start len).bytes := by
  obtain ⟨x, hx, hblock, -⟩ := hfair
  have hread := hblock _ _ _ _ _ _ _ h
  obtain ⟨y, hy⟩ : ∃ y, x.content s.hash = some y := by
    apply Option.isSome_iff_exists.mp
    unfold ArrayStore.readWindowBlock at hread
    unfold ArrayStore.content
    cases hb : x.buffer.get s.hash with
    | some y => rfl
    | none =>
      rw [hb] at hread
      exact LawfulBlockReads.readWindowBlock_held hx.valid.backend hread
  obtain ⟨hyA, hyhash⟩ := hx.allowed hy
  obtain rfl : y = a := hA hyA hs.mem (hyhash.trans hs.hash)
  rw [hs.dtype] at hread
  obtain ⟨heq, hok⟩ := ArrayStore.readsBlocks hx.valid hy axis start len
  obtain ⟨d, hd, hle⟩ := hok out hread
  rw [heq d hd hle, Except.ok.injEq] at hread
  exact hread.symm

omit [DecidableEq H] [Sha256 H] [ToString H] [ArrayBackend H B] [LawfulArrayBackend H B]
  [LawfulReads H B] [LawfulBlockReads H B] in
/-- What a read of a dense slot does. -/
theorem readWindow_exec (hread : s.read = .dense axis) :
    (readWindow reads window).exec s =
      if s.cached = some (s.blockSpan window) then
        (.ok (), s.setWindow (gatherWindow s.block s.windowShape axis
          ((s.blockSpan window).2 - (s.blockSpan window).1) (window - (s.blockSpan window).1)
          s.dtype.size))
      else match (reads.readBlock s.hash s.dtype axis (s.blockSpan window).1
          ((s.blockSpan window).2 - (s.blockSpan window).1)).exec s.block with
        | (.ok _, out) => (.ok (), setWindow (gatherWindow out s.windowShape axis
            ((s.blockSpan window).2 - (s.blockSpan window).1) (window - (s.blockSpan window).1)
            s.dtype.size) { s with block := out, cached := some (s.blockSpan window) })
        | (.error e, out) => (.error e, { s with block := out, cached := none, filled := false }) := by
  unfold readWindow
  rw [Cmd.exec_bind, Cmd.exec_get]
  dsimp only
  conv_lhs => rw [hread]
  dsimp only
  rw [Cmd.exec_bind, Cmd.exec_modify]
  dsimp only
  by_cases hc : s.cached = some (s.blockSpan window)
  · rw [if_pos hc, if_neg (not_not.mpr hc)]
    rfl
  · rw [if_neg hc, if_pos hc, Cmd.exec_bind, Cmd.exec_modify]
    dsimp only
    rw [Cmd.exec_bind, Cmd.exec_zoom]
    dsimp only
    rcases hb : (reads.readBlock s.hash s.dtype axis (s.blockSpan window).1
      ((s.blockSpan window).2 - (s.blockSpan window).1)).exec s.block with ⟨r, out⟩
    cases r with
    | error e => rfl
    | ok u => rfl

/-- **Blocks.**  A read of a dense slot, whatever comes of it, leaves a block that is the array's. -/
theorem Kept.readWindow (hA : Set.InjOn (arrayHash (H := H)) A) (hfair : FairWindows B A reads)
    (hk : s.Kept A) (hread : s.read = .dense axis) :
    ((WindowSlot.readWindow reads window).exec s).2.Kept A := by
  rw [readWindow_exec hread]
  by_cases hc : s.cached = some (s.blockSpan window)
  · rw [if_pos hc]
    exact hk.of_same rfl rfl rfl
  · rw [if_neg hc]
    rcases hb : (reads.readBlock s.hash s.dtype axis (s.blockSpan window).1
      ((s.blockSpan window).2 - (s.blockSpan window).1)).exec s.block with ⟨r, out⟩
    cases r with
    | error e => exact kept_of_none rfl
    | ok u =>
      intro a ha axis' span hread' hspan
      cases hspan
      rw [show axis' = axis by
        have h : s.read = .dense axis' := hread'
        rw [hread] at h
        cases h
        rfl]
      have hs : s.For A a := ha.of_bare rfl
      exact hs.block hA hfair hb

/-- A dense slot read with success shows the window of its array. -/
theorem For.readWindow (hA : Set.InjOn (arrayHash (H := H)) A) (hfair : FairWindows B A reads)
    (hs : s.For A a) (hk : s.Kept A) (hread : s.read = .dense axis) (hw : window < s.count)
    (h : (WindowSlot.readWindow reads window).exec s = (.ok (), s')) :
    s'.window = s.read.bytes a window := by
  have hd : a.shape[axis]? = some s.count := by
    have hfits := hs.fits
    rw [hread] at hfits
    exact hfits
  have hshape : s.windowShape = a.shape.eraseIdx axis := by
    rw [hs.windowShape, hread]
    rfl
  obtain ⟨h1, h2, h3⟩ := blockSpan_spec hw
  have hgather : gatherWindow (a.slice axis (s.blockSpan window).1
      ((s.blockSpan window).2 - (s.blockSpan window).1)).bytes s.windowShape axis
      ((s.blockSpan window).2 - (s.blockSpan window).1) (window - (s.blockSpan window).1)
      s.dtype.size = s.read.bytes a window := by
    rw [hshape, hs.dtype, hread]
    exact TypedArray.gatherWindow_slice hs.wellFormed hd (by omega) h1 (by omega)
  rw [readWindow_exec hread] at h
  by_cases hc : s.cached = some (s.blockSpan window)
  · rw [if_pos hc] at h
    cases h
    rw [← hgather, ← hk a hs axis _ hread hc]
    rfl
  · rw [if_neg hc] at h
    rcases hb : (reads.readBlock s.hash s.dtype axis (s.blockSpan window).1
      ((s.blockSpan window).2 - (s.blockSpan window).1)).exec s.block with ⟨r, out⟩
    rw [hb] at h
    cases r with
    | error e => cases h
    | ok u =>
      cases h
      rw [← hgather, ← hs.block hA hfair hb]
      rfl

omit [DecidableEq H] [Sha256 H] [ToString H] [ArrayBackend H B] [LawfulArrayBackend H B]
  [LawfulReads H B] [LawfulBlockReads H B] in
/-- A dense slot's turn reads it, where its array is held. -/
theorem turn_held (hread : s.read = .dense axis) (hheld : reads.holds s.hash = .ok true) :
    (turn reads window).exec s = (readWindow reads window).exec s := by
  have hspan : (s.derivedSpan window).isNone = true := by
    unfold derivedSpan
    rw [hread]
    rfl
  unfold turn
  rw [Cmd.exec_bind, Cmd.exec_get]
  dsimp only
  rw [hspan, if_pos rfl]
  cases s.servesFromCache window with
  | false => rfl
  | true =>
    rw [if_pos rfl, Cmd.exec_bind, Cmd.exec_ofExcept, hheld]
    rfl

omit [DecidableEq H] [Sha256 H] [ToString H] [ArrayBackend H B] [LawfulArrayBackend H B]
  [LawfulReads H B] [LawfulBlockReads H B] in
/-- A dense slot's turn reads it, or finds that the array whose block it keeps is gone. -/
theorem turn_dense (reads : WindowReads H) (window : ℕ) (hread : s.read = .dense axis) :
    (turn reads window).exec s = (readWindow reads window).exec s ∨
      (turn reads window).exec s = (.error .notFound, s.forget) ∨
      ∃ e, (turn reads window).exec s = (.error e, s) := by
  have hspan : (s.derivedSpan window).isNone = true := by
    unfold derivedSpan
    rw [hread]
    rfl
  unfold turn
  rw [Cmd.exec_bind, Cmd.exec_get]
  dsimp only
  rw [hspan, if_pos rfl]
  cases s.servesFromCache window with
  | false => exact .inl rfl
  | true =>
    rw [if_pos rfl, Cmd.exec_bind, Cmd.exec_ofExcept]
    cases reads.holds s.hash with
    | error e => exact .inr (.inr ⟨e, rfl⟩)
    | ok held =>
      cases held with
      | true => exact .inl rfl
      | false => exact .inr (.inl rfl)

theorem Kept.turn (hA : Set.InjOn (arrayHash (H := H)) A) (hfair : FairWindows B A reads)
    (hk : s.Kept A) : ((WindowSlot.turn reads window).exec s).2.Kept A := by
  cases hread : s.read with
  | derived k n =>
    have hreq : s.request window = some (s.hash, s.dtype, window * k, window * k + n) := by
      unfold request derivedSpan
      rw [hread]
      rfl
    rw [turn_derived hreq]
    exact hk
  | dense axis =>
    rcases turn_dense reads window hread with h | h | ⟨e, h⟩
    · rw [h]
      exact hk.readWindow hA hfair hread
    · rw [h]
      exact kept_of_none rfl
    · rw [h]
      exact hk

theorem For.turn (hA : Set.InjOn (arrayHash (H := H)) A) (hfair : FairWindows B A reads)
    (hs : s.For A a) (hk : s.Kept A) (hread : s.read = .dense axis) (hw : window < s.count)
    (h : (WindowSlot.turn reads window).exec s = (.ok (), s')) : s'.window = s.read.bytes a window := by
  rcases turn_dense reads window hread with h' | h' | ⟨e, h'⟩
  · exact hs.readWindow hA hfair hk hread hw (h' ▸ h)
  · rw [h'] at h
    cases h
  · rw [h'] at h
    cases h

variable [LawfulBulkReads H B]

omit [LawfulBlockReads H B] [LawfulBulkReads H B] in
/-- The run of rows a derived slot asks for, of a store that holds no other array under its hash. -/
theorem For.run (hA : Set.InjOn (arrayHash (H := H)) A) (hs : s.For A a) {x : ArrayStore H B}
    (hx : Store.Admits (fun h a => a ∈ A ∧ arrayHash a = h) (fun _ _ => True) x)
    {req : H × Dtype × ℕ × ℕ} (hreq : s.request window = some req) {p : TypedArray}
    (hp : x.readRun req = .ok p) :
    p.bytes = s.read.bytes a window ∧ p.bytes.length = s.windowBytes := by
  have hshape := hs.windowShape
  unfold request derivedSpan at hreq
  cases hread : s.read with
  | dense axis =>
    rw [hread] at hreq
    cases hreq
  | derived k n =>
    rw [hread] at hreq hshape
    cases hreq
    obtain ⟨y, hy, -, -, hstop, hbytes⟩ := ArrayStore.getSlice_held hx.valid hp
    obtain ⟨hyA, hyhash⟩ := hx.allowed hy
    obtain rfl : y = a := hA hyA hs.mem (hyhash.trans hs.hash)
    have hlen : window * k + n - window * k = n := Nat.add_sub_cancel_left _ _
    dsimp only at hbytes hstop
    rw [hlen] at hbytes
    refine ⟨hbytes, ?_⟩
    have hwidth := TypedArray.slice_wellFormed hs.wellFormed (y.shape_zero hs.rank)
      (show window * k + n ≤ y.length from hstop)
    obtain ⟨d, rest, hrest⟩ := List.exists_cons_of_ne_nil hs.rank
    rw [hbytes, hwidth, TypedArray.slice_shape, TypedArray.slice_dtype]
    unfold windowBytes
    rw [hs.dtype, hshape, hrest]
    rfl

end

section

variable {H : Type}

/-- The batch leaves every block alone. -/
theorem install_same (window : ℕ) (slots : List (WindowSlot H)) (bytes : List UInt8) :
    List.Forall₂ (fun s t : WindowSlot H => t.bare = s.bare ∧ t.cached = s.cached ∧ t.block = s.block)
      slots (install window slots bytes).2 := by
  have hrefl : ∀ ss : List (WindowSlot H), List.Forall₂ (fun s t : WindowSlot H =>
      t.bare = s.bare ∧ t.cached = s.cached ∧ t.block = s.block) ss ss := fun ss =>
    List.forall₂_same.mpr fun _ _ => ⟨rfl, rfl, rfl⟩
  induction slots generalizing bytes with
  | nil => exact .nil
  | cons s slots ih =>
    unfold install
    split
    · exact .cons ⟨rfl, rfl, rfl⟩ (ih bytes)
    · split
      · exact hrefl _
      · exact .cons ⟨rfl, rfl, rfl⟩ (ih _)

end

end WindowSlot

/-! ### Reads in any order -/

namespace ForecastReader

variable {H B : Type} [DecidableEq H] [Sha256 H] [ToString H] [ArrayBackend H B]
  [LawfulArrayBackend H B] [LawfulReads H B] [LawfulBlockReads H B]
variable {A : Set TypedArray} {reads : ℕ → WindowReads H}

/-- Every block a reader keeps is its array's. -/
def Kept (A : Set TypedArray) (r : ForecastReader H) : Prop := ∀ s ∈ r.slots, s.Kept A

/-- **Cached blocks.**  Reads keep every block the array's, whichever of them fail. -/
theorem keeps_readBy (hA : Set.InjOn (arrayHash (H := H)) A) (hfair : ∀ i, FairWindows B A (reads i))
    (at_ : DateTime) : Cmd.Keeps (Kept A) (readBy at_ reads) := by
  have hslots : ∀ {α : Type} {c : StoreCmd (List (WindowSlot H)) α},
      Cmd.Keeps (fun ss => ∀ s ∈ ss, s.Kept A) c → Cmd.Keeps (Kept A) (onSlots c) := fun h =>
    Cmd.keeps_zoom (fun _ _ => rfl) h
  have hturns : ∀ window, Cmd.Keeps (fun ss => ∀ s ∈ ss, s.Kept A)
      (Cmd.eachBy fun i => WindowSlot.turn (reads i) window) := by
    intro window ss hss t ht
    have hrel := Cmd.exec_eachBy_rel (R := fun s t : WindowSlot H => s.Kept A → t.Kept A)
      (fun i => WindowSlot.turn (reads i) window) (fun _ h => h) (fun i s h => h.turn hA (hfair i)) ss
    obtain ⟨s, hs, hst⟩ := Catalog.forall₂_mem_right hrel ht
    exact hst (hss s hs)
  have hderived : ∀ (i window : ℕ), Cmd.Keeps (fun ss => ∀ s ∈ ss, s.Kept A)
      (readDerived (reads i) window) := by
    intro i window
    unfold readDerived
    refine Cmd.keeps_bind Cmd.keeps_get fun slots => ?_
    dsimp only
    split
    · refine Cmd.keeps_bind (Cmd.keeps_ofExcept _) fun bytes => ?_
      refine Cmd.keeps_bind (fun ss hss t ht => ?_) fun rest => ?_
      · obtain ⟨s, hs, hb, hc, hblock⟩ :=
          Catalog.forall₂_mem_right (WindowSlot.install_same window ss bytes) ht
        exact (hss s hs).of_same hb hc hblock
      · split
        · exact Cmd.keeps_throw _
        · exact Cmd.keeps_pure _
    · exact Cmd.keeps_pure _
  have hinto : Cmd.Keeps (Kept A) (readIntoBy at_ reads) := by
    unfold readIntoBy
    refine Cmd.keeps_bind Cmd.keeps_get fun r => ?_
    refine Cmd.keeps_bind (Cmd.keeps_ofExcept _) fun window => ?_
    exact Cmd.keeps_bind (hslots (hturns window)) fun _ => hslots (hderived _ window)
  unfold readBy
  refine Cmd.keeps_bind (Cmd.keeps_attempt hinto) fun outcome => ?_
  cases outcome with
  | ok u => exact Cmd.keeps_pure _
  | error e =>
    refine Cmd.keeps_bind (Cmd.keeps_modify fun r hr t ht => ?_) fun _ => Cmd.keeps_throw _
    obtain ⟨s, hs, rfl⟩ := List.mem_map.mp ht
    exact (hr s hs).of_same rfl rfl rfl

variable [LawfulBulkReads H B]

/-- **Reads.**  After a read that succeeds every slot shows its array's window, whether it was answered
from the block it keeps or not. -/
theorem readBy_shows (hA : Set.InjOn (arrayHash (H := H)) A) (hfair : ∀ i, FairWindows B A (reads i))
    {r r' : ForecastReader H} {at_ : DateTime} (hk : r.Kept A)
    (hfor : ∀ s ∈ r.slots, s.count = r.count ∧ ∃ a, s.For A a)
    (h : (readBy at_ reads).exec r = (.ok (), r')) :
    ∃ window, r.windowIndex at_ = .ok window ∧ List.Forall₂ (fun s s' => s'.bare = s.bare ∧
      ∀ a, s.For A a → s'.window = s.read.bytes a window) r.slots r'.slots := by
  obtain ⟨x, hx, -, hbatch⟩ := hfair r.slots.length
  have hlen : ∀ window, ∀ s ∈ r.slots, ∀ req, s.request window = some req →
      ∀ p, x.readRun req = .ok p → p.bytes.length = s.windowBytes := by
    intro window s hs req hreq p hp
    obtain ⟨-, a, ha⟩ := hfor s hs
    exact (ha.run hA hx hreq hp).2
  obtain ⟨window, hwindow, hall⟩ := readIntoBy_ok (fun reqs bytes h =>
    windowReads_ranges hx.valid reqs bytes (hbatch reqs bytes h)) hlen (readBy_ok h)
  refine ⟨window, hwindow, ?_⟩
  refine ((List.forall₂_and_left _ _).mpr ⟨fun s hs => hs, hall⟩).imp fun s s' hss => ?_
  obtain ⟨hs, i, hread⟩ := hss
  have hlt : window < s.count := by
    rw [(hfor s hs).1]
    exact indexOnGrid_lt hwindow
  cases hreq : s.request window with
  | some req =>
    obtain ⟨p, hp, rfl⟩ := hread.derived hreq
    exact ⟨rfl, fun a ha => (ha.run hA hx hreq hp).1⟩
  | none =>
    have hturn := hread.dense hreq
    have hbare := WindowSlot.frame_turn (reads i) window s
    rw [hturn] at hbare
    refine ⟨hbare, fun a ha => ?_⟩
    cases hdense : s.read with
    | derived k n =>
      unfold WindowSlot.request WindowSlot.derivedSpan at hreq
      rw [hdense] at hreq
      cases hreq
    | dense axis =>
      rw [← hdense]
      exact ha.turn hA (hfair i) (hk s hs) hdense hlt hturn

omit [DecidableEq H] [Sha256 H] [ToString H] in
/-- After a read that fails no slot shows anything. -/
theorem readBy_error {H : Type} {reads : ℕ → WindowReads H} {r r' : ForecastReader H} {at_ : DateTime}
    {e : TimeSeriesError} (h : (readBy at_ reads).exec r = (.error e, r')) :
    ∀ s ∈ r'.slots, s.window = [] := by
  unfold readBy at h
  rw [Cmd.exec_bind, Cmd.exec_attempt] at h
  rcases he : (readIntoBy at_ reads).exec r with ⟨res, out⟩
  rw [he] at h
  cases res with
  | ok u => cases h
  | error e' =>
    cases h
    intro s hs
    obtain ⟨t, -, rfl⟩ := List.mem_map.mp hs
    rfl

end ForecastReader

end InfraStore
