import InfraStore.Storage

/-!
# An array file behind a cache

What a crash leaves of an array file.  The file as its session sees it is the live part; the durable
part is what it was at the last flush that succeeded, and a crash loses everything else.  Any command
on the file may fail, which has no effect on either part.

* `CachedFile`: the two parts, over any backend, and the failures to come;
* `CachedFile.flush`: the one command that changes the durable part;
* the laws of the live part, and `frame_run`: no other command touches the durable one.
-/

namespace InfraStore

open Lib

/-- A file as its session sees it, what a crash would leave of it, and whether each of the commands to
come fails, none once the list is exhausted. -/
structure CachedFile (B : Type) where
  live : B
  durable : B
  faults : List Bool

namespace CachedFile

variable {H B α : Type}

/-- The file a command runs on: one fault consumed. -/
def next (f : CachedFile B) : CachedFile B := { f with faults := f.faults.tail }

/-- What the file library reports of a command it failed. -/
def libraryError : TimeSeriesError :=
  .integrityError "hdf5: unable to write to the file"

/-- Run a command on the live part. -/
def run (c : StoreCmd B α) : StoreCmd (CachedFile B) α :=
  Cmd.ofExec fun f =>
    if f.faults.headD false then (.error libraryError, f.next)
    else ((c.exec f.live).1, { f.next with live := (c.exec f.live).2 })

section

variable [ArrayBackend H B]

/-- Flush the live part; only a flush that succeeds makes it durable. -/
def flush : StoreCmd (CachedFile B) Unit := do
  run ArrayBackend.flush
  modify fun f => { f with durable := f.live }

instance : ArrayBackend H (CachedFile B) where
  putArray h a g l := run (ArrayBackend.putArray h a g l)
  hasPackGroup f := ArrayBackend.hasPackGroup f.live
  putPackedBlock items g := run (ArrayBackend.putPackedBlock items g)
  getArray f := ArrayBackend.getArray f.live
  getSlice f := ArrayBackend.getSlice f.live
  arrayShape f := ArrayBackend.arrayShape f.live
  readArrays f := ArrayBackend.readArrays f.live
  readIndices f := ArrayBackend.readIndices f.live
  readRanges f := ArrayBackend.readRanges f.live
  readWindowBlock f := ArrayBackend.readWindowBlock f.live
  removeArray h := run (ArrayBackend.removeArray h)
  contains f := ArrayBackend.contains f.live
  putTimestamps h ts := run (ArrayBackend.putTimestamps h ts)
  getTimestamps f := ArrayBackend.getTimestamps f.live
  removeTimestamps h := run (ArrayBackend.removeTimestamps h)
  timestampHashes f := ArrayBackend.timestampHashes f.live
  flush := flush

end

/-! ### The durable part -/

theorem frame_run (c : StoreCmd B α) : Cmd.Frame durable (run c) := by
  intro f
  unfold run
  rw [Cmd.exec_ofExec]
  split <;> rfl

/-- What a command on the live part may do. -/
theorem wp_run {c : StoreCmd B α} {f : CachedFile B} {Q : Result α → CachedFile B → Prop}
    (hfail : f.faults ≠ [] → Q (.error libraryError) f.next)
    (hrun : c.wp (fun r b => Q r { f.next with live := b }) f.live) : (run c).wp Q f := by
  unfold run
  rw [Cmd.wp_ofExec]
  split
  · rename_i hf
    refine hfail fun h => ?_
    rw [h] at hf
    cases hf
  · exact hrun

section

variable [DecidableEq H] [Sha256 H] [ArrayBackend H B] [LawfulArrayBackend H B]

/-- **A flush.**  It changes nothing its session sees; if it succeeds the durable part holds what the
live part does, and otherwise the durable part is as it was. -/
theorem flush_durable {f : CachedFile B} (hf : LawfulArrayBackend.Valid f.live) :
    (flush (B := B)).wp (fun r f' => match r with
      | .ok _ => f'.durable = f'.live
      | .error _ => f'.durable = f.durable) f := by
  unfold flush
  rw [Cmd.wp_bind]
  refine wp_run (fun _ => rfl) ?_
  refine Cmd.wp_mono (LawfulArrayBackend.flush_spec hf) fun r b _ => ?_
  cases r with
  | error e => rfl
  | ok u => exact (Cmd.wp_modify _ _ _).mpr rfl

/-! ### The laws of the live part -/

instance : LawfulArrayBackend H (CachedFile B) where
  Valid f := LawfulArrayBackend.Valid f.live
  array f := LawfulArrayBackend.array f.live
  vector f := LawfulArrayBackend.vector f.live
  Quiet f := f.faults = [] ∧ LawfulArrayBackend.Quiet f.live
  contains_iff hf := LawfulArrayBackend.contains_iff hf
  putArray_spec := by
    intro f a h g l hf ha
    refine wp_run (fun hne => ⟨hf, fun hq => absurd hq.1 hne, rfl, rfl⟩) ?_
    refine Cmd.wp_mono (LawfulArrayBackend.putArray_spec h g l hf ha) ?_
    rintro r b ⟨hv, hq, hrest⟩
    exact ⟨hv, fun h => ⟨by rw [next, h.1]; rfl, hq h.2⟩, hrest⟩
  putPackedBlock_spec := by
    intro f items g hf hs hshape
    refine wp_run (fun hne => ⟨hf, fun hq => absurd hq.1 hne, rfl, fun _ => Or.inl rfl,
      fun hq => absurd hq.1 hne⟩) ?_
    refine Cmd.wp_mono (LawfulArrayBackend.putPackedBlock_spec g hf hs hshape) ?_
    rintro r b ⟨hv, hq, hvec, hr⟩
    refine ⟨hv, fun h => ⟨by rw [next, h.1]; rfl, hq h.2⟩, hvec, ?_⟩
    cases r with
    | error e => exact ⟨hr.1, fun h => hr.2 h.2⟩
    | ok written => exact hr
  removeArray_spec := by
    intro f h hf
    refine wp_run (fun hne => ⟨hf, fun hq => absurd hq.1 hne, rfl, rfl⟩) ?_
    refine Cmd.wp_mono (LawfulArrayBackend.removeArray_spec h hf) ?_
    rintro r b ⟨hv, hq, hrest⟩
    exact ⟨hv, fun h => ⟨⟨by rw [next, h.1]; rfl, (hq h.2).1⟩, (hq h.2).2⟩, hrest⟩
  putTimestamps_spec := by
    intro f h ts hf
    refine wp_run (fun hne => ⟨hf, fun hq => absurd hq.1 hne, rfl, rfl⟩) ?_
    refine Cmd.wp_mono (LawfulArrayBackend.putTimestamps_spec h ts hf) ?_
    rintro r b ⟨hv, hq, hrest⟩
    exact ⟨hv, fun h => ⟨by rw [next, h.1]; rfl, hq h.2⟩, hrest⟩
  getTimestamps_eq hf := LawfulArrayBackend.getTimestamps_eq hf
  removeTimestamps_spec := by
    intro f h hf
    refine wp_run (fun hne => ⟨hf, fun hq => absurd hq.1 hne, rfl, Or.inl rfl⟩) ?_
    refine Cmd.wp_mono (LawfulArrayBackend.removeTimestamps_spec h hf) ?_
    rintro r b ⟨hv, hq, hrest⟩
    exact ⟨hv, fun h => ⟨⟨by rw [next, h.1]; rfl, (hq h.2).1⟩, (hq h.2).2⟩, hrest⟩
  mem_timestampHashes hf := LawfulArrayBackend.mem_timestampHashes hf
  flush_spec := by
    intro f hf
    show (flush (B := B)).wp _ f
    unfold flush
    rw [Cmd.wp_bind]
    refine wp_run (fun hne => ⟨hf, fun hq => absurd hq.1 hne, rfl, rfl⟩) ?_
    refine Cmd.wp_mono (LawfulArrayBackend.flush_spec hf) ?_
    rintro r b ⟨hv, hq, harr, hvec⟩
    have hquiet : f.faults = [] ∧ LawfulArrayBackend.Quiet f.live →
        f.faults.tail = [] ∧ LawfulArrayBackend.Quiet b := fun h => ⟨by rw [h.1]; rfl, hq h.2⟩
    cases r with
    | error e => exact ⟨hv, hquiet, harr, hvec⟩
    | ok u => exact (Cmd.wp_modify _ _ _).mpr ⟨hv, hquiet, harr, hvec⟩

end

end CachedFile

end InfraStore
