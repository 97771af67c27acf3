import Mathlib
import Telemetry.Proofs.Disk.Replace

/-
  A file replaced once can be replaced again, and a refused replacement leaves it as it was.

  A path is writable on a disk when every replacement of its file goes through
  (`Disk.Writable`). A replacement that went through leaves the path ready for the next
  (`Disk.Ready`): the parent directories are all there, and making them again changes nothing
  (`makeDirsAlong_of_isDir`); the walks to the temporary file and to the path go through
  directories that are still directories (`Disk.locate_of_isDir`); and neither place is a
  directory, since the only files added lie at the temporary place and at the path, beside
  each other, so nothing lies below either (`isDir_of_isDir_of_files`).

  Whatever step the device refuses, a replacement keeps a ready path ready
  (`Disk.Ready.replaceUnder`): a refused write or rename leaves a temporary file beside the
  path and the path's own file untouched, and one that goes through puts the bytes there.
-/

namespace Telemetry

namespace Disk

/-- Every replacement of the file at the path goes through. -/
def Writable (d : Disk) (path : String) : Prop :=
  ∀ bytes, ∃ d', d.replace path bytes = (d', none)

/-! ## Directories made -/

theorem isDir_dirs_append (d : Disk) (next : List String) {q : List String}
    (h : d.isDir q = true) : ({ d with dirs := d.dirs ++ [next] } : Disk).isDir q = true := by
  simp only [isDir, Bool.or_eq_true, List.contains_append] at h ⊢
  tauto

theorem isDir_dirs_append_self (d : Disk) (next : List String) :
    ({ d with dirs := d.dirs ++ [next] } : Disk).isDir next = true := by
  simp [isDir]

/-- Making directories keeps every directory. -/
theorem isDir_makeDirsAlong {d : Disk} {here ps q : List String} (h : d.isDir q = true) :
    (d.makeDirsAlong here ps).1.isDir q = true := by
  induction ps generalizing d here with
  | nil => exact h
  | cons p ps ih =>
    simp only [makeDirsAlong]
    split
    · exact ih h
    · split
      · exact ih h
      · split
        · exact ih h
        · split
          · exact h
          · exact ih (isDir_dirs_append d _ h)

theorem isDir_of_makeDirsAlong {d d₁ : Disk} {here ps q : List String} {e : Option DiskFault}
    (h : d.makeDirsAlong here ps = (d₁, e)) (hq : d.isDir q = true) : d₁.isDir q = true := by
  have hkept : (d.makeDirsAlong here ps).1.isDir q = true := isDir_makeDirsAlong hq
  rwa [h] at hkept

/-- Making directories that are all there already changes nothing: when making them went
through on one disk, it changes nothing on a disk that keeps the directories made. -/
theorem makeDirsAlong_of_isDir {d d₁ d' : Disk} {here ps : List String}
    (h : d.makeDirsAlong here ps = (d₁, none))
    (hdir : ∀ q, d₁.isDir q = true → d'.isDir q = true) :
    d'.makeDirsAlong here ps = (d', none) := by
  induction ps generalizing d here with
  | nil => rfl
  | cons p ps ih =>
    simp only [makeDirsAlong] at h ⊢
    by_cases hskip : (p == "" || p == ".") = true
    · rw [if_pos hskip] at h ⊢
      exact ih h
    rw [if_neg hskip] at h ⊢
    by_cases hup : (p == "..") = true
    · rw [if_pos hup] at h ⊢
      exact ih h
    rw [if_neg hup] at h ⊢
    -- a name: it was a directory, or was made one; either way it is one on `d'`
    have hnext : d'.isDir (here ++ [p]) = true := by
      by_cases hd : d.isDir (here ++ [p]) = true
      · rw [if_pos hd] at h
        exact hdir _ (isDir_of_makeDirsAlong h hd)
      · rw [if_neg hd] at h
        split at h
        · cases h
        · exact hdir _ (isDir_of_makeDirsAlong h (isDir_dirs_append_self d _))
    rw [if_pos hnext]
    by_cases hd : d.isDir (here ++ [p]) = true
    · rw [if_pos hd] at h
      exact ih h
    · rw [if_neg hd] at h
      split at h
      · cases h
      · exact ih h

/-! ## Files added -/

theorem dirs_put {d d' : Disk} {place : List String} {bytes : ByteArray}
    (h : d.put place bytes = .ok d') : d'.dirs = d.dirs := by
  unfold put at h
  split at h
  · cases h
  · cases h
    rfl

theorem mem_files_put {d d' : Disk} {place : List String} {bytes : ByteArray}
    (h : d.put place bytes = .ok d') {p : List String × ByteArray} (hp : p ∈ d'.files) :
    p ∈ d.files ∨ p.1 = place := by
  unfold put at h
  split at h
  · cases h
  · cases h
    rcases List.mem_append.1 hp with hp | hp
    · exact .inl (List.mem_filter.1 hp).1
    · exact .inr (by simp [List.mem_singleton.1 hp])

theorem isDir_eq_false_of_put {d d' : Disk} {place : List String} {bytes : ByteArray}
    (h : d.put place bytes = .ok d') : d.isDir place = false := by
  unfold put at h
  split at h
  · cases h
  · next hd => simpa using hd

theorem put_of_isDir_eq_false {d : Disk} {place : List String} (h : d.isDir place = false)
    (bytes : ByteArray) : ∃ d', d.put place bytes = .ok d' := by
  simp [put, h]

/-- A rename that went through found no directory at the path's place, made none, and
added a file there alone. -/
theorem rename_eq_ok {d d' : Disk} {source place : List String} {path : String}
    (h : d.rename source path = .ok d') (hplace : d.locate path = .ok place) :
    d.isDir place = false ∧ d'.dirs = d.dirs ∧ ∀ p ∈ d'.files, p ∈ d.files ∨ p.1 = place := by
  unfold rename at h
  simp only [hplace, bind, Except.bind, pure, Except.pure] at h
  split at h
  · cases h
  · split at h
    · cases h
    · next hdir =>
      cases h
      refine ⟨by simpa using hdir, rfl, fun p hp => ?_⟩
      rcases List.mem_append.1 hp with hp | hp
      · exact .inl (List.mem_filter.1 hp).1
      · exact .inr (by simp [List.mem_singleton.1 hp])

theorem rename_of_locate {d : Disk} {path : String} {place : List String}
    (hdir : dirOnly path = false) (hplace : d.locate path = .ok place)
    (hnot : d.isDir place = false) (source : List String) :
    ∃ d', d.rename source path = .ok d' := by
  simp [rename, hdir, hplace, hnot, bind, Except.bind, pure, Except.pure]

/-- A directory of a disk with the same made directories, whose files are the old ones or
lie no deeper than it, was a directory already. -/
theorem isDir_of_isDir_of_files {d d' : Disk} {q : List String} (hdirs : d'.dirs = d.dirs)
    (hfiles : ∀ p ∈ d'.files, p ∈ d.files ∨ p.1.length ≤ q.length)
    (h : d'.isDir q = true) : d.isDir q = true := by
  simp only [isDir, Bool.or_eq_true, List.any_eq_true, Bool.and_eq_true, decide_eq_true_eq,
    hdirs] at h ⊢
  rcases h with h | ⟨p, hp, hbelow, hlen⟩
  · exact .inl h
  · rcases hfiles p hp with hp | hshort
    · exact .inr ⟨p, hp, hbelow, hlen⟩
    · omega

theorem isDir_eq_false_of_files {d d' : Disk} {q : List String} (hdirs : d'.dirs = d.dirs)
    (hfiles : ∀ p ∈ d'.files, p ∈ d.files ∨ p.1.length ≤ q.length)
    (h : d.isDir q = false) : d'.isDir q = false := by
  cases hd : d'.isDir q
  · rfl
  · simpa [h] using isDir_of_isDir_of_files hdirs hfiles hd

/-! ## A path ready for its file -/

/-- Everything a replacement of the file at a path needs is in place: the path names a file,
its parent directories are all there, and the walks to the temporary file and to the path
end beside each other in `here`, at places that are no directories. -/
structure Ready (d : Disk) (path : String) (here : List String) : Prop where
  named : dirOnly path = false
  parents : d.makeParents path = (d, none)
  temp : d.locate (tempPath path) = .ok (here ++ [(parts (tempPath path)).getLastD ""])
  target : d.locate path = .ok (here ++ [(parts path).getLastD ""])
  tempFree : d.isDir (here ++ [(parts (tempPath path)).getLastD ""]) = false
  targetFree : d.isDir (here ++ [(parts path).getLastD ""]) = false

section Ready

variable {d d' : Disk} {path : String} {here : List String}

/-- The temporary file and the path's file are two places. -/
theorem tempName_ne (h : dirOnly path = false) :
    (parts (tempPath path)).getLastD "" ≠ (parts path).getLastD "" := by
  rw [getLastD_parts_tempPath h]
  intro heq
  have := congrArg String.length heq
  simp at this

/-- A disk that keeps the directories of a ready one, and adds files only at the temporary
place and at the path, is ready too. -/
theorem Ready.of_files (h : d.Ready path here) (hdir : ∀ q, d.isDir q = true → d'.isDir q = true)
    (hdirs : d'.dirs = d.dirs)
    (hfiles : ∀ p ∈ d'.files, p ∈ d.files ∨ p.1 = here ++ [(parts (tempPath path)).getLastD ""] ∨
      p.1 = here ++ [(parts path).getLastD ""]) :
    d'.Ready path here := by
  -- the two places are as deep as each other, so neither lies below a file added
  have hshort : ∀ a, ∀ p ∈ d'.files, p ∈ d.files ∨ p.1.length ≤ (here ++ [a]).length := by
    intro a p hp
    rcases hfiles p hp with hp | hp | hp
    · exact .inl hp
    · exact .inr (by simp [hp])
    · exact .inr (by simp [hp])
  exact ⟨h.named, makeDirsAlong_of_isDir h.parents hdir, locate_of_isDir h.temp hdir,
    locate_of_isDir h.target hdir, isDir_eq_false_of_files hdirs (hshort _) h.tempFree,
    isDir_eq_false_of_files hdirs (hshort _) h.targetFree⟩

/-- Putting the temporary file keeps a path ready. -/
theorem Ready.put (h : d.Ready path here) {bytes : ByteArray}
    (hput : d.put (here ++ [(parts (tempPath path)).getLastD ""]) bytes = .ok d') :
    d'.Ready path here :=
  h.of_files (fun _ => isDir_of_put hput) (dirs_put hput) fun _ hp =>
    (mem_files_put hput hp).imp_right .inl

/-- Renaming the temporary file over the path keeps it ready. -/
theorem Ready.rename (h : d.Ready path here)
    (hren : d.rename (here ++ [(parts (tempPath path)).getLastD ""]) path = .ok d') :
    d'.Ready path here := by
  obtain ⟨-, hdirs, hfiles⟩ := rename_eq_ok hren h.target
  exact h.of_files (fun _ => isDir_of_rename hren rfl h.target) hdirs fun p hp =>
    (hfiles p hp).imp_right .inr

/-- A ready path reads as its file, and as missing when there is none. -/
theorem Ready.read (h : d.Ready path here) :
    d.read path = match d.fileAt? (here ++ [(parts path).getLastD ""]) with
      | some bytes => .ok bytes
      | none => .error .missing := by
  simp only [Disk.read, isEmpty_of_dirOnly_eq_false h.named, h.target, Bool.false_eq_true,
    if_false, bind, Except.bind, h.targetFree]
  rfl

/-- **A ready path stays ready, whatever the device refuses.** On a disk ready for the path,
a replacement leaves it ready. It goes through exactly when the device refuses nothing, and
the path then reads as the bytes written; a refused replacement leaves the path reading as
it did. -/
theorem Ready.replaceUnder (h : d.Ready path here) (bytes : ByteArray)
    (refusal : Option Refusal) :
    (d.replaceUnder path bytes refusal).1.Ready path here ∧
      (d.replaceUnder path bytes refusal).2.isNone = refusal.isNone ∧
      (d.replaceUnder path bytes refusal).1.read path =
        if refusal.isNone then .ok bytes else d.read path := by
  -- the temporary place takes whatever bytes the device lets through
  obtain ⟨d₂, hput⟩ := put_of_isDir_eq_false h.tempFree (Refusal.written refusal bytes)
  have h₂ := h.put hput
  have hread₂ : d₂.read path = d.read path := by
    rw [h₂.read, h.read, fileAt?_put_of_ne hput fun heq => tempName_ne h.named
      (by simpa using heq.symm)]
  cases refusal with
  | none =>
    obtain ⟨d₃, hren⟩ := rename_of_locate h₂.named h₂.target h₂.targetFree
      (here ++ [(parts (tempPath path)).getLastD ""])
    have h₃ := h₂.rename hren
    have hrep : d.replaceUnder path bytes none = (d₃, none) := by
      simp only [Disk.replaceUnder, h.parents, h.temp, hput, Option.isSome_none,
        Bool.false_eq_true, if_false, hren]
    -- the file renamed over the path holds all the bytes
    have hfile : d₃.fileAt? (here ++ [(parts path).getLastD ""]) = some bytes := by
      rw [fileAt?_rename hren h₂.target, fileAt?_put hput]
      rfl
    rw [hrep]
    refine ⟨h₃, rfl, ?_⟩
    rw [h₃.read, hfile]
    rfl
  | some r =>
    cases r with
    | makeDir n =>
      -- every parent is there: nothing is made before the refusal
      have hrep : d.replaceUnder path bytes (some (.makeDir n)) = (d, some .refused) := by
        simp [Disk.replaceUnder, makeParentsUpTo, h.parents]
      rw [hrep]
      exact ⟨h, rfl, rfl⟩
    | writeTemp n =>
      have hrep : d.replaceUnder path bytes (some (.writeTemp n)) = (d₂, some .refused) := by
        simp only [Disk.replaceUnder, h.parents, h.temp, hput, Option.isSome_some, if_true]
      rw [hrep]
      exact ⟨h₂, rfl, hread₂⟩
    | rename =>
      have hrep : d.replaceUnder path bytes (some .rename) = (d₂, some .refused) := by
        simp only [Disk.replaceUnder, h.parents, h.temp, hput, Option.isSome_some, if_true]
      rw [hrep]
      exact ⟨h₂, rfl, hread₂⟩

/-- A path ready for its file is writable. -/
theorem Ready.writable (h : d.Ready path here) : d.Writable path := by
  intro bytes
  obtain ⟨-, hnone, -⟩ := h.replaceUnder bytes none
  exact ⟨_, Prod.ext rfl (Option.isNone_iff_eq_none.1 hnone)⟩

/-- A replacement that went through leaves the path ready: once the temporary file is put,
the parents are there and both places are free, and the rename keeps that. -/
theorem ready_of_replace {bytes : ByteArray} (h : d.replace path bytes = (d', none)) :
    ∃ here, d'.Ready path here := by
  obtain ⟨d₁, d₂, here, hmk, honly, htemp, hput, hren, hplace⟩ := replace_eq_none_beside h
  have hkeep : ∀ q, d₁.isDir q = true → d₂.isDir q = true := fun _ => isDir_of_put hput
  -- the temporary file lies beside the path, so below neither place
  have hshort : ∀ a, ∀ p ∈ d₂.files, p ∈ d₁.files ∨ p.1.length ≤ (here ++ [a]).length :=
    fun _ p hp => (mem_files_put hput hp).imp_right fun hp => by simp [hp]
  have h₂ : d₂.Ready path here :=
    ⟨honly, makeDirsAlong_of_isDir hmk hkeep, locate_of_isDir htemp hkeep, hplace,
      isDir_eq_false_of_files (dirs_put hput) (hshort _) (isDir_eq_false_of_put hput),
      (rename_eq_ok hren hplace).1⟩
  exact ⟨here, h₂.rename hren⟩

/-- **A path written once can be written again.** After a replacement that went through,
the next replacement of the same path, with any bytes, goes through too. -/
theorem replace_again {bytes : ByteArray} (h : d.replace path bytes = (d', none))
    (bytes' : ByteArray) : ∃ d'', d'.replace path bytes' = (d'', none) := by
  obtain ⟨here, hready⟩ := ready_of_replace h
  exact hready.writable bytes'

/-- A replacement that went through leaves the path writable. -/
theorem writable_of_replace {bytes : ByteArray} (h : d.replace path bytes = (d', none)) :
    d'.Writable path :=
  replace_again h

end Ready

end Disk

end Telemetry
