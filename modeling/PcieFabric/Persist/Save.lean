import PcieFabric.Lib.FileSystem
import PcieFabric.Lib.Run
import PcieFabric.Persist.Records

/-!
Saving to and loading from a file (`persistence.hpp`).

* `fileImage`, `loadData`, `load`: the file format and its reading.
* `SaveState`, `saveStep`: `save` as a machine over the file system, one
  primitive step at a time. Its inputs are the outcomes of the steps: each may
  fail, and the run may end anywhere.
* `SaveAtomic`: the file holds its previous content or the complete image, and
  an error leaves what `load` gives.
* `save_atomic_iff`: a stopped `save` is atomic, unless it had an old file to
  remove and stopped between the removal and the rename.
-/

namespace PcieFabric.Persist

open Machine

/-! ### The file format -/

/-- `persist::kMagic`. -/
def fileMagic : List UInt8 := ascii "PCIF"

/-- `persist::kVersion`. -/
def fileVersion : UInt32 := 1

/-- The bytes `save` writes for a body. -/
def fileImage (body : List UInt8) : List UInt8 := List.flatten [
  fileMagic, Writer.u32 fileVersion, Writer.u64 (UInt64.ofNat body.length),
  Writer.u32 (crc32 body crc32Seed), body]

/-- The header of a file: the length of the body and its checksum. `size` is the
size of the file. -/
def readHeader (size : Nat) : ReadM (UInt64 × UInt32) := do
  let magic ← Decoder.collect (fun _ _ => .ok ()) Reader.u8 4
  Decoder.ensure (magic == fileMagic) ⟨.protocolMalformed, "bad file magic"⟩
  let ver ← Reader.u32
  Decoder.ensure (ver == fileVersion) ⟨.protocolVersion, "unsupported version"⟩
  let len ← Reader.u64
  Decoder.ensure (decide (len.toNat ≤ size)) ⟨.protocolOverflow, "length out of bounds"⟩
  let crc ← Reader.u32
  return (len, crc)

/-- `load` on the content of the file. The body is the end of the file, of the
length the header declares. -/
def loadData (data : List UInt8) (beyond : Nat → UInt8) : Result Snapshot :=
  if data.length < 16 then .err .truncated "file too small"
  else do
    let (len, crc) ← (readHeader data.length { data, beyond }).1
    let body := data.drop (data.length - len.toNat)
    if crc32 body crc32Seed ≠ crc then .err .protocolChecksum "crc mismatch"
    else deserialize body beyond

/-- Files by name. -/
abbrev Files := FileSystem String (List UInt8)

/-- `load`. -/
def load (fs : Files) (path : String) (beyond : Nat → UInt8) : Result Snapshot :=
  match fs.get path with
  | none => .err .ioError "cannot open file"
  | some data => loadData data beyond

lemma load_congr {fs fs' : Files} {path : String} (h : fs'.get path = fs.get path)
    (beyond : Nat → UInt8) : load fs' path beyond = load fs path beyond := by
  rw [load, load, h]

/-! ### `save` step by step -/

/-- Where `save` stands: the step it takes next, or what it returned. A stream
remembers whether its write failed. -/
inductive SavePhase where
  | opening
  | writing
  | flushing (written : Bool)
  | removing
  | renaming
  | returned (result : Result Unit)

/-- The file system and the phase of a running `save`. -/
structure SaveState where
  fs : Files
  phase : SavePhase

/-- What happens to a step: it is done or fails, and that many bytes of a write
have reached the file. -/
structure Outcome where
  done : Bool
  reached : Nat

/-- `tmp`. -/
def tempPath (path : String) : String := path ++ ".tmp"

/-- A step of `save` that writes `image` to `path`. -/
def saveStep (path : String) (image : List UInt8) (st : SaveState) (o : Outcome) : SaveState :=
  match st.phase with
  | .opening =>
      if o.done then ⟨st.fs.put (tempPath path) [], .writing⟩
      else ⟨st.fs, .returned (.err .ioError "cannot open temp file")⟩
  | .writing => ⟨st.fs.put (tempPath path) (image.take o.reached), .flushing o.done⟩
  | .flushing written =>
      if written && o.done then
        ⟨st.fs.put (tempPath path) image,
          if (st.fs.get path).isSome then .removing else .renaming⟩
      else
        ⟨st.fs.put (tempPath path) (image.take o.reached),
          .returned (.err .ioError "write failed")⟩
  | .removing =>
      if o.done then ⟨st.fs.remove path, .renaming⟩
      else ⟨st.fs, .returned (.err .ioError "cannot remove old file")⟩
  | .renaming =>
      if o.done then ⟨st.fs.rename (tempPath path) path, .returned (.ok ())⟩
      else ⟨st.fs, .returned (.err .ioError "rename failed")⟩
  | .returned _ => st

/-- `save` up to where its outcomes end: a crash, or its return. -/
def save (fs : Files) (path : String) (s : Snapshot) (outcomes : List Outcome) : SaveState :=
  match serialize s with
  | .error e => ⟨fs, .returned (.error e)⟩
  | .ok body => run (saveStep path (fileImage body)) ⟨fs, .opening⟩ outcomes

/-- The file holds its previous content or the complete image; where `save`
returned an error, `load` gives what it gave. -/
structure SaveAtomic (fs : Files) (path : String) (image : List UInt8) (st : SaveState) : Prop where
  content : st.fs.get path = fs.get path ∨ st.fs.get path = some image
  error : ∀ e, st.phase = .returned (.error e) →
    ∀ beyond, load st.fs path beyond = load fs path beyond

/-- The next step is done, and then `P` holds of the outcomes left. -/
def AfterDone (P : List Outcome → Prop) : List Outcome → Prop
  | [] => False
  | o :: rest => o.done = true ∧ P rest

/-- The next step is not done: the run ends before it, or it fails. -/
def NotDone : List Outcome → Prop
  | [] => True
  | o :: _ => ¬ o.done = true

/-- The opening, the write, the flush and the removal of the old file are done,
and then the rename is not. -/
def StopsBetween : List Outcome → Prop := AfterDone (AfterDone (AfterDone (AfterDone NotDone)))

/-! ### Which stops are atomic -/

section

variable {fs fs₀ : Files} {path : String} {image : List UInt8}

lemma tempPath_ne (path : String) : path ≠ tempPath path := by
  intro h
  have hlen := congrArg String.length h
  rw [tempPath, String.length_append] at hlen
  have h4 : ".tmp".length = 4 := rfl
  omega

/-- A state whose file has the old content is atomic. -/
lemma saveAtomic_of_content {phase : SavePhase} (h : fs.get path = fs₀.get path) :
    SaveAtomic fs₀ path image ⟨fs, phase⟩ :=
  ⟨.inl h, fun _ _ beyond => load_congr h beyond⟩

/-- A state that lost an old file is not. -/
lemma not_saveAtomic {phase : SavePhase} (h : fs.get path = none) (hold : (fs₀.get path).isSome) :
    ¬ SaveAtomic fs₀ path image ⟨fs, phase⟩ := by
  rintro ⟨hcontent | hcontent, -⟩
  · rw [← hcontent, h] at hold
    cases hold
  · rw [h] at hcontent
    cases hcontent

/-- Nothing happens after the return. -/
lemma run_returned (result : Result Unit) (outcomes : List Outcome) :
    run (saveStep path image) ⟨fs, .returned result⟩ outcomes = ⟨fs, .returned result⟩ := by
  induction outcomes with
  | nil => rfl
  | cons o rest ih => exact ih

lemma get_put_temp (c : List UInt8) : (fs.put (tempPath path) c).get path = fs.get path :=
  FileSystem.get_put_of_ne c (tempPath_ne path)

/-- From the rename on, with the old file gone or never there. -/
lemma atomic_renaming_iff (hnone : fs.get path = none)
    (htemp : fs.get (tempPath path) = some image) (outcomes : List Outcome) :
    SaveAtomic fs₀ path image (run (saveStep path image) ⟨fs, .renaming⟩ outcomes) ↔
      ¬ ((fs₀.get path).isSome ∧ NotDone outcomes) := by
  have hstay (phase : SavePhase) :
      SaveAtomic fs₀ path image ⟨fs, phase⟩ ↔ ¬ (fs₀.get path).isSome := by
    refine ⟨fun h hold => not_saveAtomic hnone hold h, fun hold => saveAtomic_of_content ?_⟩
    rw [hnone]
    exact (Option.not_isSome_iff_eq_none.mp hold).symm
  cases outcomes with
  | nil =>
      rw [run_nil, hstay]
      exact not_congr (and_iff_left trivial).symm
  | cons o rest =>
      rw [run_cons]
      by_cases hdone : o.done
      · have hstep : saveStep path image ⟨fs, .renaming⟩ o =
            ⟨fs.rename (tempPath path) path, .returned (.ok ())⟩ := if_pos hdone
        rw [hstep, run_returned]
        refine iff_of_true ⟨.inr ?_, fun e he => by cases he⟩ fun h => h.2 hdone
        exact (FileSystem.get_rename_target (tempPath_ne path)).trans htemp
      · have hstep : saveStep path image ⟨fs, .renaming⟩ o =
            ⟨fs, .returned (.err .ioError "rename failed")⟩ := if_neg hdone
        rw [hstep, run_returned, hstay]
        exact not_congr (and_iff_left hdone).symm

/-- From the removal of an old file on. -/
lemma atomic_removing_iff (hget : fs.get path = fs₀.get path)
    (htemp : fs.get (tempPath path) = some image) (hold : (fs₀.get path).isSome)
    (outcomes : List Outcome) :
    SaveAtomic fs₀ path image (run (saveStep path image) ⟨fs, .removing⟩ outcomes) ↔
      ¬ AfterDone NotDone outcomes := by
  cases outcomes with
  | nil => exact iff_of_true (saveAtomic_of_content hget) not_false
  | cons o rest =>
      rw [run_cons]
      by_cases hdone : o.done
      · have hstep : saveStep path image ⟨fs, .removing⟩ o = ⟨fs.remove path, .renaming⟩ :=
          if_pos hdone
        have htemp' : (fs.remove path).get (tempPath path) = some image :=
          (FileSystem.get_remove_of_ne (tempPath_ne path).symm).trans htemp
        rw [hstep, atomic_renaming_iff FileSystem.get_remove_self htemp', AfterDone]
        simp only [hold, hdone, true_and]
      · have hstep : saveStep path image ⟨fs, .removing⟩ o =
            ⟨fs, .returned (.err .ioError "cannot remove old file")⟩ := if_neg hdone
        rw [hstep, run_returned]
        exact iff_of_true (saveAtomic_of_content hget) fun h => hdone h.1

/-- From the flush on. -/
lemma atomic_flushing_iff (hget : fs.get path = fs₀.get path) (written : Bool)
    (outcomes : List Outcome) :
    SaveAtomic fs₀ path image (run (saveStep path image) ⟨fs, .flushing written⟩ outcomes) ↔
      ¬ ((fs₀.get path).isSome ∧ written = true ∧ AfterDone (AfterDone NotDone) outcomes) := by
  cases outcomes with
  | nil => exact iff_of_true (saveAtomic_of_content hget) fun h => h.2.2
  | cons o rest =>
      rw [run_cons]
      by_cases hgood : (written && o.done) = true
      · obtain ⟨hwritten, hdone⟩ := Bool.and_eq_true_iff.mp hgood
        have htemp : (fs.put (tempPath path) image).get (tempPath path) = some image :=
          FileSystem.get_put_self image
        have hpath : (fs.put (tempPath path) image).get path = fs₀.get path :=
          (get_put_temp image).trans hget
        have hstep : saveStep path image ⟨fs, .flushing written⟩ o =
            ⟨fs.put (tempPath path) image,
              if (fs.get path).isSome then .removing else .renaming⟩ := if_pos hgood
        rw [hstep, hget]
        by_cases hold : (fs₀.get path).isSome
        · rw [if_pos hold, atomic_removing_iff hpath htemp hold]
          exact not_congr ⟨fun h => ⟨hold, hwritten, hdone, h⟩, fun h => h.2.2.2⟩
        · -- nothing to remove: the rename is next
          have hnone : (fs.put (tempPath path) image).get path = none :=
            hpath.trans (Option.not_isSome_iff_eq_none.mp hold)
          rw [if_neg hold, atomic_renaming_iff hnone htemp]
          exact iff_of_true (fun h => hold h.1) fun h => hold h.1
      · have hstep : saveStep path image ⟨fs, .flushing written⟩ o =
            ⟨fs.put (tempPath path) (image.take o.reached),
              .returned (.err .ioError "write failed")⟩ := if_neg hgood
        rw [hstep, run_returned]
        refine iff_of_true (saveAtomic_of_content ((get_put_temp _).trans hget)) fun h => hgood ?_
        exact Bool.and_eq_true_iff.mpr ⟨h.2.1, h.2.2.1⟩

/-- From the opening on. -/
lemma atomic_opening_iff (fs : Files) (path : String) (image : List UInt8)
    (outcomes : List Outcome) :
    SaveAtomic fs path image (run (saveStep path image) ⟨fs, .opening⟩ outcomes) ↔
      ¬ ((fs.get path).isSome ∧ StopsBetween outcomes) := by
  cases outcomes with
  | nil => exact iff_of_true (saveAtomic_of_content rfl) fun h => h.2
  | cons o₁ rest =>
      rw [run_cons]
      by_cases hdone : o₁.done
      · have hstep : saveStep path image ⟨fs, .opening⟩ o₁ =
            ⟨fs.put (tempPath path) [], .writing⟩ := if_pos hdone
        rw [hstep]
        cases rest with
        | nil => exact iff_of_true (saveAtomic_of_content (get_put_temp _)) fun h => h.2.2
        | cons o₂ rest =>
            have hget : ((fs.put (tempPath path) []).put (tempPath path)
                (image.take o₂.reached)).get path = fs.get path :=
              (get_put_temp _).trans (get_put_temp _)
            rw [run_cons, saveStep, atomic_flushing_iff hget]
            exact not_congr ⟨fun h => ⟨h.1, hdone, h.2⟩, fun h => ⟨h.1, h.2.2⟩⟩
      · have hstep : saveStep path image ⟨fs, .opening⟩ o₁ =
            ⟨fs, .returned (.err .ioError "cannot open temp file")⟩ := if_neg hdone
        rw [hstep, run_returned]
        exact iff_of_true (saveAtomic_of_content rfl) fun h => hdone h.2.1

end

/-- The image that `save` writes of a snapshot. -/
def snapshotImage (s : Snapshot) : Result (List UInt8) := do
  let body ← serialize s
  return fileImage body

/-- **Atomic save, exactly.** Whatever the steps of `save` do and wherever the
run ends, the file holds its previous content or the complete image and an error
leaves what `load` gives, if and only if there was no old file or the run did not
stop between the removal of the old file and the rename. -/
theorem save_atomic_iff (fs : Files) (path : String) (s : Snapshot) (outcomes : List Outcome) :
    (∃ image, snapshotImage s = .ok image ∧ SaveAtomic fs path image (save fs path s outcomes)) ↔
      ¬ ((fs.get path).isSome ∧ StopsBetween outcomes) := by
  rw [← atomic_opening_iff]
  constructor
  · rintro ⟨image, himage, hatomic⟩
    obtain rfl := Except.ok.inj himage
    exact hatomic
  · intro hatomic
    exact ⟨_, rfl, hatomic⟩

/-- One file, called `state`. -/
def oneFile : Files := FileSystem.put (fun _ => none) "state" [1]

/-- Every step to the removal is done, and the rename fails. -/
def renameFails : List Outcome := [⟨true, 0⟩, ⟨true, 0⟩, ⟨true, 0⟩, ⟨true, 0⟩, ⟨false, 0⟩]

/-- The rename fails: `save` returns an error and the old file is gone. -/
theorem save_loses_file :
    (save oneFile "state" {} renameFails).phase = .returned (.err .ioError "rename failed") ∧
      ¬ ∃ image, snapshotImage {} = .ok image ∧
        SaveAtomic oneFile "state" image (save oneFile "state" {} renameFails) := by
  refine ⟨rfl, ?_⟩
  rintro ⟨image, himage, hatomic⟩
  obtain rfl := Except.ok.inj himage
  exact (atomic_opening_iff _ _ _ _).mp hatomic ⟨rfl, rfl, rfl, rfl, rfl, Bool.false_ne_true⟩

end PcieFabric.Persist
