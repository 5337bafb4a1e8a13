import ApiContract.Workspace
import ApiContract.Proofs.Outcome

/-!
Writing into a workspace. Directories that are made on the way change no file, and a file that is
written stands where its path leads afterwards, beside all others as they were.
-/

namespace ApiContract

theorem Path.ofText_parts (s : String) : ∀ p ∈ (Path.ofText s).parts, p ≠ "" ∧ p ≠ "." := by
  intro p hp
  have hkept := (List.mem_filter.mp hp).2
  simpa using hkept

namespace Workspace

variable {w w' : Workspace} {place : List String} {content : ByteArray}

/-! ## Files -/

theorem lookup_setFile (place : List String) (content : ByteArray)
    (files : List (List String × ByteArray)) :
    (setFile place content files).lookup place = some content := by
  induction files with
  | nil => simp [setFile]
  | cons f fs ih =>
    rw [setFile]
    split
    next => simp
    next hne =>
      have hkey : place ≠ f.1 := fun hsame => hne (by rw [hsame]; exact beq_self_eq_true _)
      rw [List.lookup_cons, beq_false_of_ne hkey]
      exact ih

theorem lookup_setFile_of_ne {other : List String} (h : other ≠ place)
    (files : List (List String × ByteArray)) :
    (setFile place content files).lookup other = files.lookup other := by
  induction files with
  | nil => simp [setFile, List.lookup_cons, beq_false_of_ne h]
  | cons f fs ih =>
    obtain ⟨key, old⟩ := f
    rw [setFile]
    split
    next hkey =>
      have hsame : key = place := by simpa using hkey
      rw [hsame, List.lookup_cons, List.lookup_cons, beq_false_of_ne h]
    next => rw [List.lookup_cons, List.lookup_cons, ih]

theorem mem_keys_setFile {key : List String} {files : List (List String × ByteArray)} :
    key ∈ (setFile place content files).map (·.1) ↔ key = place ∨ key ∈ files.map (·.1) := by
  induction files with
  | nil => simp [setFile]
  | cons f fs ih =>
    rw [setFile]
    split
    next hkey =>
      have hsame : f.1 = place := by simpa using hkey
      rw [List.map_cons, List.map_cons, List.mem_cons, List.mem_cons, hsame, or_self_left]
    next => rw [List.map_cons, List.map_cons, List.mem_cons, List.mem_cons, ih, or_left_comm]

/-! ## Directories -/

/-- A directory is the whole, or it was made, or a file stands below it. -/
theorem isDirectory_iff : w.isDirectory place = true ↔ place = [] ∨ place ∈ w.directories ∨
    ∃ key ∈ w.files.map (·.1), place <+: key ∧ key.length ≠ place.length := by
  rw [isDirectory, Bool.or_eq_true, Bool.or_eq_true, List.isEmpty_iff, List.contains_iff_mem,
    List.any_eq_true, or_assoc]
  simp

/-- Every directory of a workspace is one of another. -/
def KeepsDirectories (w w' : Workspace) : Prop :=
  ∀ place, w.isDirectory place = true → w'.isDirectory place = true

theorem KeepsDirectories.trans {w₁ w₂ w₃ : Workspace} (h : w₁.KeepsDirectories w₂)
    (h' : w₂.KeepsDirectories w₃) : w₁.KeepsDirectories w₃ := fun place hplace =>
  h' place (h place hplace)

theorem keepsDirectories_of_subset (hfiles : w'.files = w.files)
    (hdirectories : w.directories ⊆ w'.directories) : w.KeepsDirectories w' := by
  intro place h
  rw [isDirectory_iff] at h ⊢
  rw [hfiles]
  exact h.imp_right (Or.imp_left fun hmem => hdirectories hmem)

theorem keepsDirectories_setFile :
    w.KeepsDirectories { w with files := setFile place content w.files } := by
  intro other h
  rw [isDirectory_iff] at h ⊢
  refine h.imp_right (Or.imp_right ?_)
  intro hbelow
  obtain ⟨key, hkey, hstart, hlength⟩ := hbelow
  exact ⟨key, mem_keys_setFile.mpr (.inr hkey), hstart, hlength⟩

/-- A new file is no directory. -/
theorem isDirectory_setFile (h : w.isDirectory place = false) :
    isDirectory { w with files := setFile place content w.files } place = false := by
  have hnot : ¬ w.isDirectory place = true := by simp [h]
  rw [isDirectory_iff, not_or, not_or] at hnot
  obtain ⟨hwhole, hmade, hbelow⟩ := hnot
  refine Bool.eq_false_iff.mpr fun hdirectory => ?_
  rcases isDirectory_iff.mp hdirectory with hnil | hmem | ⟨key, hkey, hstart, hlength⟩
  · exact hwhole hnil
  · exact hmade hmem
  · rcases mem_keys_setFile.mp hkey with rfl | hkey
    · exact hlength rfl
    · exact hbelow ⟨key, hkey, hstart, hlength⟩

/-! ## Walking -/

theorem step_file {name : String} (hname : name ≠ "" ∧ name ≠ ".") (hup : (name == "..") = false)
    (hlong : isLongName name = false) (hdirectory : w.isDirectory (place ++ [name]) = false)
    (hfile : w.file? (place ++ [name]) = some content) :
    w.step (.directory place) name = .ok (.file (place ++ [name])) := by
  have hstays : (name == "" || name == ".") = false := by simp [hname]
  simp [step, hstays, hup, hlong, hdirectory, hfile]

/-- A step that does not lead to a file is the same where there are more directories. -/
theorem step_keeps (h : w.KeepsDirectories w') {spot spot' : Spot} {name : String}
    (hstep : w.step spot name = .ok spot') (hfile : ∀ place, spot' ≠ .file place) :
    w'.step spot name = .ok spot' := by
  cases spot with
  | file => cases hstep
  | outside => exact hstep
  | unknown => exact hstep
  | directory place =>
    rw [step] at hstep ⊢
    split at hstep
    next hstays =>
      rw [if_pos hstays]
      exact hstep
    next hstays =>
      rw [if_neg hstays]
      split at hstep
      next hup =>
        rw [if_pos hup]
        exact hstep
      next hup =>
        rw [if_neg hup]
        split at hstep
        next => cases hstep
        next hlong =>
          rw [if_neg hlong]
          split at hstep
          next hdirectory =>
            rw [if_pos (h _ hdirectory)]
            exact hstep
          next =>
            split at hstep
            next =>
              cases hstep
              exact absurd rfl (hfile _)
            next => cases hstep

theorem steps_keep (h : w.KeepsDirectories w') {steps : List String} {spot spot' : Spot}
    (hwalk : steps.foldlM w.step spot = .ok spot') (hfile : ∀ place, spot' ≠ .file place) :
    steps.foldlM w'.step spot = .ok spot' := by
  induction steps generalizing spot with
  | nil => exact hwalk
  | cons name steps ih =>
    rw [List.foldlM_cons] at hwalk ⊢
    obtain ⟨next, hstep, hwalk⟩ := bind_eq_ok.mp hwalk
    have hnext : ∀ place, next ≠ .file place := by
      rintro place rfl
      -- Nothing stands below a file.
      cases steps with
      | nil =>
        cases hwalk
        exact hfile place rfl
      | cons name steps =>
        rw [List.foldlM_cons] at hwalk
        obtain ⟨_, hstep, _⟩ := bind_eq_ok.mp hwalk
        cases hstep
    rw [step_keeps h hstep hnext]
    exact ih hwalk

theorem walk_keeps (h : w.KeepsDirectories w') {absolute : Bool} {steps : List String} {spot : Spot}
    (hwalk : w.walk absolute steps = .ok spot) (hfile : ∀ place, spot ≠ .file place) :
    w'.walk absolute steps = .ok spot := steps_keep h hwalk hfile

theorem walk_concat (w : Workspace) (absolute : Bool) (above : List String) (name : String) :
    w.walk absolute (above ++ [name]) = w.walk absolute above >>= fun spot => w.step spot name := by
  rw [walk, List.foldlM_append, walk]
  refine congrArg (_ >>= ·) (funext fun spot => ?_)
  rw [List.foldlM_cons]
  cases w.step spot name <;> rfl

/-- A new name has its place in a directory of the workspace, unless the path leaves it. -/
theorem newPlace_cases {absolute : Bool} {above : List String} {name : String}
    {found : Option (List String)} (h : w.newPlace absolute above name = .ok found) :
    (∃ place, w.walk absolute above = .ok (.directory place) ∧ isLongName name = false ∧
      found = some (place ++ [name])) ∨
    ∃ spot ∈ [Spot.outside, .unknown], w.walk absolute above = .ok spot ∧ found = none := by
  rw [newPlace] at h
  split at h
  next => cases h
  next =>
    obtain ⟨spot, hwalk, h⟩ := bind_eq_ok.mp h
    cases spot with
    | file => cases h
    | outside =>
      cases h
      exact .inr ⟨_, by simp, hwalk, rfl⟩
    | unknown =>
      cases h
      exact .inr ⟨_, by simp, hwalk, rfl⟩
    | directory place =>
      dsimp only at h
      split at h
      next => cases h
      next hlong =>
        cases h
        exact .inl ⟨place, hwalk, by simpa using hlong, rfl⟩

/-! ## Making directories -/

/-- Another workspace has the same files and at least the same directories. -/
structure Extends (w w' : Workspace) : Prop where
  files : w'.files = w.files
  directories : w.KeepsDirectories w'

theorem Extends.refl (w : Workspace) : w.Extends w := ⟨rfl, fun _ => id⟩

theorem Extends.trans {w₁ w₂ w₃ : Workspace} (h : w₁.Extends w₂) (h' : w₂.Extends w₃) :
    w₁.Extends w₃ :=
  ⟨h'.files.trans h.files, h.directories.trans h'.directories⟩

theorem makeDirectory_extends {absolute : Bool} {above : List String} {name : String}
    (h : w.makeDirectory absolute above name = .ok w') : w.Extends w' := by
  obtain ⟨found, _, h⟩ := bind_eq_ok.mp h
  cases found with
  | none =>
    cases h
    exact .refl w
  | some place =>
    dsimp only at h
    split at h
    next => cases h
    next =>
      cases h
      exact ⟨rfl, keepsDirectories_of_subset rfl (List.subset_cons_self _ _)⟩

theorem makeDirectories_extends (w : Workspace) (absolute : Bool) (steps : List String) :
    w.Extends (w.makeDirectories absolute steps).1 := by
  induction steps generalizing w with
  | nil => exact .refl w
  | cons name above ih =>
    rw [makeDirectories]
    dsimp only
    split
    next hmade => exact makeDirectory_extends hmade
    next =>
      have habove := ih w
      split
      next hmade =>
        rw [hmade] at habove
        exact habove
      next hmade =>
        rw [hmade] at habove
        split
        next hlast => exact habove.trans (makeDirectory_extends hlast)
        next => split <;> exact habove
    next => split <;> exact .refl w

/-! ## Writing -/

/-- What a workspace is after a file was written: the file stands where the path leads, and all
others are as they were. Of a file outside nothing is kept. -/
inductive Wrote (w : Workspace) (path : Path) (content : ByteArray) (w' : Workspace) : Prop
  | inside (place : List String) (leads : w'.walk path.isAbsolute path.parts = .ok (.file place))
      (written : w'.file? place = some content)
      (others : ∀ other, other ≠ place → w'.file? other = w.file? other)
  | outside (spot : Spot) (leaves : spot ∈ [Spot.outside, .unknown])
      (leads : w'.walk path.isAbsolute path.parent.parts = .ok spot) (others : w'.files = w.files)

theorem write_wrote {path : Path} (hparts : ∀ p ∈ path.parts, p ≠ "" ∧ p ≠ ".")
    (h : w.write path content = .ok w') : w.Wrote path content w' := by
  rw [write] at h
  cases hreverse : path.parts.reverse with
  | nil =>
    rw [hreverse] at h
    cases h
  | cons name above =>
    have hpath : path.parts = above.reverse ++ [name] := by
      rw [← List.reverse_reverse path.parts, hreverse, List.reverse_cons]
    have hparent : path.parent.parts = above.reverse := by
      rw [Path.parent, hpath, List.dropLast_concat]
    rw [hreverse] at h
    obtain ⟨found, hfound, h⟩ := bind_eq_ok.mp h
    rcases newPlace_cases hfound with ⟨place, hwalk, hlong, rfl⟩ | ⟨spot, hspot, hwalk, rfl⟩
    · dsimp only at h
      split at h
      next => cases h
      next hfree =>
        cases h
        rw [Bool.or_eq_true, not_or, Bool.not_eq_true, Bool.not_eq_true] at hfree
        obtain ⟨hup, hdirectory⟩ := hfree
        have hname := hparts name (by rw [hpath]; exact List.mem_append_right _ List.mem_cons_self)
        have hkept := walk_keeps (@keepsDirectories_setFile _ (place ++ [name]) content) hwalk nofun
        have hwritten := lookup_setFile (place ++ [name]) content w.files
        refine .inside (place ++ [name]) ?_ hwritten fun other hother =>
          lookup_setFile_of_ne hother _
        rw [hpath, walk_concat, hkept]
        exact step_file hname hup hlong (isDirectory_setFile hdirectory) hwritten
    · cases h
      refine .outside spot hspot ?_ rfl
      rw [hparent]
      exact hwalk

/-- Whether a file can be written does not depend on its content. -/
theorem write_error_iff {path : Path} {fault : FileFault} (other : ByteArray) :
    w.write path content = .error fault ↔ w.write path other = .error fault := by
  rw [write, write]
  split
  next => rfl
  next =>
    cases w.newPlace path.isAbsolute _ _ with
    | error => rfl
    | ok found =>
      cases found with
      | none => exact iff_of_false nofun nofun
      | some place =>
        change (if _ then _ else _) = _ ↔ (if _ then _ else _) = _
        split
        next => rfl
        next => exact iff_of_false nofun nofun

theorem save_fault (w : Workspace) (path : Path) (content other : ByteArray) :
    (w.save path content).2 = (w.save path other).2 := by
  rw [save, save]
  cases w.makeDirectories path.isAbsolute path.parent.parts.reverse with
  | mk w fault =>
    cases fault with
    | some fault => rfl
    | none =>
      dsimp only
      cases hwrite : w.write path content with
      | error fault => rw [(write_error_iff other).mp hwrite]
      | ok =>
        cases hother : w.write path other with
        | error fault =>
          rw [(write_error_iff content).mp hother] at hwrite
          cases hwrite
        | ok => rfl

/-- If a file cannot be saved, all files are as they were. -/
theorem save_failed {path : Path} {fault : FileFault} (h : w.save path content = (w', some fault)) :
    w'.files = w.files := by
  have hmade := makeDirectories_extends w path.isAbsolute path.parent.parts.reverse
  rw [save] at h
  split at h
  next hmakes =>
    cases h
    rw [hmakes] at hmade
    exact hmade.files
  next hmakes =>
    rw [hmakes] at hmade
    split at h
    next => cases h
    next =>
      cases h
      exact hmade.files

theorem save_wrote {path : Path} (hparts : ∀ p ∈ path.parts, p ≠ "" ∧ p ≠ ".")
    (h : w.save path content = (w', none)) : w.Wrote path content w' := by
  have hmade := makeDirectories_extends w path.isAbsolute path.parent.parts.reverse
  rw [save] at h
  split at h
  next => cases h
  next w₁ hmakes =>
    rw [hmakes] at hmade
    split at h
    next hwrite =>
      cases h
      cases write_wrote hparts hwrite with
      | inside place hleads hwritten hothers =>
        refine .inside place hleads hwritten fun other hother => ?_
        rw [hothers other hother, file?, hmade.files, file?]
      | outside spot hspot hleads hothers =>
        exact .outside spot hspot hleads (hothers.trans hmade.files)
    next => cases h

end Workspace

end ApiContract
