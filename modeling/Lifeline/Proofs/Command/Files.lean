import Lifeline.Command.Directory

/-!
# Reading and writing in a directory

To write a file is to change the content of one place and nothing else: where paths
lead depends on the folders, which stay, and so the path that was written leads to the
content that was written.
-/

namespace Lifeline.Command.Directory

variable {d d' after : Directory} {path : String} {content : ByteArray}

/-- Looking up a place in a list of files. -/
theorem lookup_file_cons (p q : Path) (content : ByteArray) (files : List (Path × ByteArray)) :
    ((q, content) :: files).lookup p = if p = q then some content else files.lookup p := by
  rw [List.lookup_cons]
  by_cases hp : p = q
  · simp [hp]
  · have hne : (p == q) = false := by simpa using hp
    rw [hne, if_neg hp]

/-- Looking up a place in files of which one has a new content. -/
theorem lookup_map_content (files : List (Path × ByteArray)) (place p : Path)
    (content : ByteArray) :
    (files.map fun (q, old) => if q = place then (q, content) else (q, old)).lookup p =
      if p = place then (files.lookup p).map fun _ => content else files.lookup p := by
  induction files with
  | nil => simp
  | cons file files ih =>
    obtain ⟨q, old⟩ := file
    rw [List.map_cons, lookup_file_cons]
    by_cases hq : q = place
    · rw [if_pos hq, lookup_file_cons, ih]
      by_cases hp : p = q
      · rw [if_pos hp, if_pos hp, if_pos (hp.trans hq), Option.map_some]
      · rw [if_neg hp, if_neg hp]
    · rw [if_neg hq, lookup_file_cons, ih]
      by_cases hp : p = q
      · rw [if_pos hp, if_pos hp, if_neg (hp.symm ▸ hq)]
      · rw [if_neg hp, if_neg hp]

/-- A file has the content that it was given last, and every other file keeps its own. -/
theorem file?_put (d : Directory) (place p : Path) (content : ByteArray) :
    (d.put place content).file? p = if p = place then some content else d.file? p := by
  rw [file?, put]
  dsimp only
  split
  · next hplace =>
    obtain ⟨old, hold⟩ := Option.isSome_iff_exists.mp hplace
    rw [lookup_map_content]
    by_cases hp : p = place
    · subst hp
      rw [file?] at hold
      simp [hold]
    · rw [if_neg hp, if_neg hp, file?]
  · next hplace =>
    rw [Option.not_isSome_iff_eq_none, file?] at hplace
    rw [List.lookup_append]
    by_cases hp : p = place
    · subst hp
      simp [hplace]
    · simp [lookup_file_cons, hp, file?]

@[simp] theorem folders_put (d : Directory) (place : Path) (content : ByteArray) :
    (d.put place content).folders = d.folders := rfl

/-- Where steps lead depends on the folders only. -/
theorem follow_of_folders {here : Path} {steps : List String} {target : Target}
    (hfolders : d'.folders = d.folders) (h : d.follow here steps = .ok target) :
    d'.follow here steps = .ok target := by
  have hhas (p : Path) : d'.hasFolder p = d.hasFolder p := by
    rw [hasFolder, hasFolder, hfolders]
  induction steps generalizing here with
  | nil => exact h
  | cons step rest ih =>
    rw [follow] at h ⊢
    dsimp only at h ⊢
    rw [hhas]
    split at h
    · next hstay =>
      rw [if_pos hstay]
      exact ih h
    next hstay =>
    rw [if_neg hstay]
    split at h
    · next hup =>
      rw [if_pos hup]
      exact ih h
    next hup =>
    rw [if_neg hup]
    split at h
    · next hfolder =>
      rw [if_pos hfolder]
      exact ih h
    next hfolder =>
    rw [if_neg hfolder]
    split at h
    · next hslash => rwa [if_pos hslash]
    next hslash =>
    rw [if_neg hslash]
    split at h
    · cases h
    next hlimit =>
    rw [if_neg hlimit]
    split at h
    · next hlast => rwa [if_pos hlast]
    · cases h

/-- A path leads to the same place after a file has been written. -/
theorem find_put {target : Target} (h : d.find path = .ok target) (place : Path)
    (content : ByteArray) : (d.put place content).find path = .ok target := by
  rw [find] at h ⊢
  split at h
  · cases h
  next hempty =>
  rw [if_neg hempty]
  split at h
  · cases h
  next hlimit =>
  rw [if_neg hlimit]
  exact follow_of_folders (folders_put d place content) h

/-- A path can be written exactly if it leads to a place for a file, and then that place is given
the content. -/
theorem write_eq_ok_iff : d.write path content = .ok after ↔
    ∃ place, d.find path = .ok (.place place false) ∧ after = d.put place content := by
  rw [write]
  cases hfind : d.find path with
  | error e => simp [bind, Except.bind]
  | ok target =>
    rcases target with _ | ⟨place, _ | _⟩ <;> simp [bind, Except.bind, eq_comm]

/-- What has been written is read. -/
theorem read_of_write (h : d.write path content = .ok after) : after.read path = .ok content := by
  obtain ⟨place, hfind, rfl⟩ := write_eq_ok_iff.mp h
  rw [read, find_put hfind]
  simp [bind, Except.bind, file?_put]

/-- What can be read is there. -/
theorem has_of_read (h : d.read path = .ok content) : d.has path = true := by
  rw [read] at h
  cases hfind : d.find path with
  | error e =>
    rw [hfind] at h
    cases h
  | ok target =>
    rw [hfind] at h
    rw [has, hfind]
    cases target with
    | folder => rfl
    | place place slash =>
      cases hfile : d.file? place with
      | none => simp [bind, Except.bind, hfile] at h
      | some old => cases slash <;> simp [bind, Except.bind, hfile] at h ⊢

end Lifeline.Command.Directory
