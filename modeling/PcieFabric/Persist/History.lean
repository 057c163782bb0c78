import PcieFabric.Lib.Cell
import PcieFabric.Persist.FileImage

/-!
The file of a component that is saved again and again (`persistence.hpp`).

* `Staged`: what the two files hold in each phase of a `save`; `save_ends`: where a `save`
  can leave the file.
* `Saving`, `SavingEvent`: a machine that is saved to one file at any moment of its run,
  each time up to a return or a crash.
* `Leaves`: what a save leaves in the file, if it touches it; `file_of_run`: the file is
  as the last save that touched it left it.
* `loadData_fileImage`: an image is loaded as its body is decoded.
-/

namespace PcieFabric.Persist

open Machine

/-! ### One save -/

/-- The image that `save` writes of a snapshot. -/
def imageOf (s : Snapshot) : List UInt8 := fileImage (SnapshotImage.ofSnapshot s).bytes

/-- A `save` runs through its phases. -/
lemma save_eq (fs : Files) (path : String) (s : Snapshot) (outcomes : List Outcome) :
    save fs path s outcomes = run (saveStep path (imageOf s)) ⟨fs, .opening⟩ outcomes := by
  rw [save, serialize_eq]
  rfl

/-- What the file and the temporary file hold while a save that found `old` writes
`image`. -/
def Staged (path : String) (old : Option (List UInt8)) (image : List UInt8) (st : SaveState) :
    Prop :=
  match st.phase with
  | .opening | .writing | .flushing _ => st.fs.get path = old
  | .removing =>
      st.fs.get path = old ∧ old.isSome ∧ st.fs.get (tempPath path) = some image
  | .renaming => st.fs.get path = none ∧ st.fs.get (tempPath path) = some image
  | .returned (.ok _) => st.fs.get path = some image
  | .returned (.error _) => st.fs.get path = old ∨ st.fs.get path = none ∧ old.isSome

section

variable {path : String} {old : Option (List UInt8)} {image : List UInt8} {st : SaveState}

/-- The content is gone, or there was none. -/
lemma old_or_lost {content : Option (List UInt8)} (h : content = none) :
    content = old ∨ content = none ∧ old.isSome := by
  cases old with
  | none => exact .inl h
  | some data => exact .inr ⟨h, rfl⟩

/-- Each step keeps the stage. -/
lemma Staged.step (h : Staged path old image st) (o : Outcome) :
    Staged path old image (saveStep path image st o) := by
  obtain ⟨fs, opening | writing | written | removing | rename | result⟩ := st
  · simp only [saveStep]
    split
    · exact (get_put_temp []).trans h
    · exact .inl h
  · exact (get_put_temp _).trans h
  · have hget (c : List UInt8) : (fs.put (tempPath path) c).get path = old :=
      (get_put_temp c).trans h
    have htemp : (fs.put (tempPath path) image).get (tempPath path) = some image :=
      FileSystem.get_put_self image
    have hfs : fs.get path = old := h
    simp only [saveStep, hfs]
    split
    · -- the old file is removed, if there is one
      cases old with
      | none => exact ⟨hget image, htemp⟩
      | some data => exact ⟨hget image, rfl, htemp⟩
    · exact .inl (hget _)
  · obtain ⟨hget, hsome, htemp⟩ := h
    simp only [saveStep]
    split
    · exact ⟨FileSystem.get_remove_self,
        (FileSystem.get_remove_of_ne (tempPath_ne path).symm).trans htemp⟩
    · exact .inl hget
  · obtain ⟨hget, htemp⟩ := h
    simp only [saveStep]
    split
    · exact (FileSystem.get_rename_target (tempPath_ne path)).trans htemp
    · exact old_or_lost hget
  · exact h

/-- In every phase but the return of a success the file has its old content, or lost
it. -/
lemma Staged.content (h : Staged path old image st)
    (hreturned : st.phase ≠ .returned (.ok ())) :
    st.fs.get path = old ∨ st.fs.get path = none ∧ old.isSome := by
  obtain ⟨fs, opening | writing | written | removing | rename | result⟩ := st
  · exact .inl h
  · exact .inl h
  · exact .inl h
  · exact .inl h.1
  · exact old_or_lost h.1
  · cases result with
    | ok u => exact absurd rfl hreturned
    | error e => exact h

end

/-- **Where a save ends**: it returned a success and the file holds its image; or it stopped
between the removal of the old file and the rename, and the file is gone; or the file has
its old content. -/
theorem save_ends (fs : Files) (path : String) (s : Snapshot) (outcomes : List Outcome) :
    let st := save fs path s outcomes
    let lost := (fs.get path).isSome ∧ StopsBetween outcomes
    (st.phase = .returned (.ok ()) ∧ ¬ lost ∧ st.fs.get path = some (imageOf s)) ∨
      (st.phase ≠ .returned (.ok ()) ∧ lost ∧ st.fs.get path = none) ∨
      (st.phase ≠ .returned (.ok ()) ∧ ¬ lost ∧ st.fs.get path = fs.get path) := by
  intro st lost
  have hst : st = run (saveStep path (imageOf s)) ⟨fs, .opening⟩ outcomes := save_eq ..
  have hstaged : Staged path (fs.get path) (imageOf s) st :=
    hst ▸ run_invariant _ (fun _ o h => h.step o)
      (show Staged path (fs.get path) (imageOf s) ⟨fs, .opening⟩ from rfl) outcomes
  have hatomic : SaveAtomic fs path (imageOf s) st ↔ ¬ lost :=
    hst ▸ atomic_opening_iff fs path (imageOf s) outcomes
  by_cases hreturned : st.phase = .returned (.ok ())
  · have hcontent : st.fs.get path = some (imageOf s) := by
      rw [Staged, hreturned] at hstaged
      exact hstaged
    refine .inl ⟨hreturned, hatomic.mp ⟨.inr hcontent, fun e he => ?_⟩, hcontent⟩
    rw [hreturned] at he
    cases he
  · refine .inr ((hstaged.content hreturned).symm.imp ?_ ?_)
    · rintro ⟨hnone, hold⟩
      exact ⟨hreturned, not_not.mp fun h => not_saveAtomic hnone hold (hatomic.mpr h), hnone⟩
    · exact fun hsame => ⟨hreturned, hatomic.mp (saveAtomic_of_content hsame), hsame⟩

/-! ### Saves during a run -/

variable {σ ι : Type*}

/-- The machine and the files. -/
structure Saving (σ : Type*) where
  state : σ
  fs : Files

/-- The machine takes an input, or it is saved. -/
inductive SavingEvent (ι : Type*) where
  | event (i : ι)
  | save (outcomes : List Outcome)

/-- The input of the machine. -/
def SavingEvent.input : SavingEvent ι → Option ι
  | .event i => some i
  | .save _ => none

namespace Saving

variable (next : σ → ι → σ) (snap : σ → Snapshot) (path : String)

/-- A save of what the machine is now, up to its return or a crash. -/
def saveNow (sv : Saving σ) (outcomes : List Outcome) : SaveState :=
  Persist.save sv.fs path (snap sv.state) outcomes

/-- One event of a machine that takes inputs by `next`. -/
def step (sv : Saving σ) : SavingEvent ι → Saving σ
  | .event i => { sv with state := next sv.state i }
  | .save outcomes => { sv with fs := (saveNow snap path sv outcomes).fs }

/-- What an event leaves in the file, if it touches it: a save that returns a success leaves
the image of the moment, and one that stops between the removal of the old file and the
rename leaves none. -/
inductive Leaves (sv : Saving σ) : SavingEvent ι → Option (List UInt8) → Prop where
  | image (outcomes : List Outcome)
      (h : (saveNow snap path sv outcomes).phase = .returned (.ok ())) :
      Leaves sv (.save outcomes) (some (imageOf (snap sv.state)))
  | gone (outcomes : List Outcome) (hold : (sv.fs.get path).isSome)
      (h : StopsBetween outcomes) : Leaves sv (.save outcomes) none

/-- The file is a cell that the saves write. -/
lemma cell_file : Cell (Saving.step next snap path) (fun sv => some (sv.fs.get path))
    (Leaves snap path) where
  written sv e v h := by
    cases h with
    | image outcomes h =>
        rcases save_ends sv.fs path (snap sv.state) outcomes with
          ⟨-, -, hcontent⟩ | ⟨hnot, -⟩ | ⟨hnot, -⟩
        · exact congrArg some hcontent
        · exact absurd h hnot
        · exact absurd h hnot
    | gone outcomes hold h =>
        rcases save_ends sv.fs path (snap sv.state) outcomes with
          ⟨-, hnot, -⟩ | ⟨-, -, hcontent⟩ | ⟨-, hnot, -⟩
        · exact absurd ⟨hold, h⟩ hnot
        · exact congrArg some hcontent
        · exact absurd ⟨hold, h⟩ hnot
  kept sv e h := by
    cases e with
    | event i => rfl
    | save outcomes =>
        rcases save_ends sv.fs path (snap sv.state) outcomes with
          ⟨hret, -⟩ | ⟨-, ⟨hold, hstops⟩, -⟩ | ⟨-, -, hsame⟩
        · exact absurd (.image outcomes hret) (h _)
        · exact absurd (.gone outcomes hold hstops) (h _)
        · exact congrArg some hsame

/-- **The file of a run** is as the last save that touched it left it, and as it was at the
start if none did. -/
theorem file_of_run (sv : Saving σ) (events : List (SavingEvent ι))
    (v : Option (List UInt8)) :
    (run (Saving.step next snap path) sv events).fs.get path = v ↔
      LastWrite (Saving.step next snap path) (Leaves snap path) sv events v ∨
        sv.fs.get path = v ∧
          ¬ Writes (Saving.step next snap path) (Leaves snap path) sv events := by
  have hobs := (cell_file next snap path).obs_run sv events v
  simp only [Option.some.injEq] at hobs
  exact hobs

/-- Saves do not change the machine. -/
lemma state_run (sv : Saving σ) (events : List (SavingEvent ι)) :
    (run (Saving.step next snap path) sv events).state =
      run next sv.state (events.filterMap SavingEvent.input) := by
  induction events generalizing sv with
  | nil => rfl
  | cons e rest ih =>
      rw [run_cons, ih]
      cases e <;> rfl

end Saving

/-! ### Loading an image -/

/-- An image of a body whose length is written in 8 bytes is loaded as the body is
decoded. -/
lemma loadData_fileImage {body : List UInt8} (hsize : body.length < 2 ^ 64)
    (beyond : Nat → UInt8) (s : Snapshot) :
    loadData (fileImage body) beyond = .ok s ↔ deserialize body beyond = .ok s := by
  have himage : IsImageOf (fileImage body) body := ⟨hsize, rfl⟩
  obtain ⟨hdecl, -⟩ := himage.declares
  have hcast : (UInt64.ofNat body.length).toNat = body.length := UInt64.toNat_ofNat_of_lt' hsize
  have htail : tail (fileImage body) (UInt64.ofNat body.length) = body := by
    rw [tail, hcast, fileImage_eq, List.length_append, Nat.add_sub_cancel, List.drop_left]
  rw [loadData_ok_iff]
  constructor
  · rintro ⟨len, crc, hdecl', -, hok⟩
    obtain ⟨rfl, rfl⟩ := hdecl.unique hdecl'
    rwa [htail] at hok
  · intro hok
    exact ⟨_, _, hdecl, by rw [htail], by rwa [htail]⟩

end PcieFabric.Persist
