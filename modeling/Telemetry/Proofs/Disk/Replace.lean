import Mathlib
import Telemetry.Disk

/-
  A replaced file reads back.

  `Disk.replace` writes the bytes to the temporary file of the path and renames it over the
  path. When every step goes through, reading the path gives the bytes
  (`read_of_replace`). Two facts carry the argument. The temporary file lies beside the
  path: both walks through their parent parts end in the same directory
  (`tempPath_walk`), since the temporary path is the path's components, its last name
  marked, and a walk skips the empty and `.` parts that the components leave out. And no
  step takes away a directory: a file written or renamed in that directory keeps every
  directory above it (`isDir_of_put`, `isDir_of_rename`), so the walk to the path ends where
  it did (`walk_of_isDir`).
-/

namespace Telemetry

/-- A key that the filter drops is not found in what it keeps. -/
theorem lookup_filter_of_ne {α β : Type} [BEq α] [LawfulBEq α] {l : List (α × β)} {k : α}
    {keep : α × β → Bool} (hkeep : ∀ x, keep x = true → x.1 ≠ k) :
    (l.filter keep).lookup k = none := by
  rw [List.lookup_eq_none_iff]
  intro x hx
  exact bne_iff_ne.2 (hkeep x (List.mem_filter.1 hx).2).symm

/-- A filter that keeps every entry of a key keeps the key's look-up. -/
theorem lookup_filter_of_keeps {α β : Type} [BEq α] [LawfulBEq α] {q : α} {keep : α × β → Bool}
    (hkeep : ∀ x, x.1 = q → keep x = true) :
    ∀ l : List (α × β), (l.filter keep).lookup q = l.lookup q
  | [] => rfl
  | (a, b) :: l => by
    by_cases ha : a = q
    · subst ha
      rw [List.filter_cons_of_pos (hkeep _ rfl)]
      simp
    · have hne : (q == a) = false := beq_false_of_ne (Ne.symm ha)
      by_cases hk : keep (a, b) = true
      · rw [List.filter_cons_of_pos hk, List.lookup_cons, List.lookup_cons, hne,
          lookup_filter_of_keeps hkeep l]
      · rw [List.filter_cons_of_neg hk, List.lookup_cons, hne, lookup_filter_of_keeps hkeep l]

namespace Disk

/-! ## Parts of a path -/

/-- The parts a walk does not skip. -/
def kept (p : String) : Bool := p != "" && p != "."

theorem filter_kept (ps : List String) : ps.filter (fun p => p != "" && p != ".") = ps.filter kept :=
  rfl

theorem skipped_eq_not_kept (p : String) : (p == "" || p == ".") = !kept p := by
  simp only [kept, bne, Bool.not_and, Bool.not_not]

theorem slash_not_mem_of_mem_splitOn {xs l : List Char} (h : l ∈ xs.splitOn '/') : '/' ∉ l := by
  induction xs generalizing l with
  | nil =>
    rw [List.splitOn_nil, List.mem_singleton] at h
    subst h
    simp
  | cons x xs ih =>
    rw [List.splitOn_cons_eq_if_modifyHead] at h
    split at h
    · rcases List.mem_cons.1 h with rfl | h
      · simp
      · exact ih h
    · rename_i hx
      obtain ⟨hd, tl, hsplit⟩ := List.exists_cons_of_ne_nil (List.splitOn_ne_nil '/' xs)
      rw [hsplit, List.modifyHead_cons] at h
      rcases List.mem_cons.1 h with rfl | h
      · have hhd : '/' ∉ hd := ih (by rw [hsplit]; exact List.mem_cons_self)
        simp only [beq_iff_eq] at hx
        simp [hhd, Ne.symm hx]
      · exact ih (by rw [hsplit]; exact List.mem_cons_of_mem _ h)

theorem slash_not_mem_of_mem_parts {path p : String} (h : p ∈ parts path) : '/' ∉ p.toList := by
  obtain ⟨l, hl, rfl⟩ := List.mem_map.1 h
  simpa using slash_not_mem_of_mem_splitOn hl

theorem parts_slash_append (s : String) : parts ("/" ++ s) = "" :: parts s := by
  rw [parts, String.toList_append, show "/".toList = ['/'] from rfl, List.singleton_append,
    ← List.nil_append ('/' :: s.toList), List.splitOn_append_cons_self_of_not_mem (by simp)]
  simp [parts]

/-- Names without a separator, joined by one, split back into the names. -/
theorem parts_intercalate {cs : List String} (h : ∀ c ∈ cs, '/' ∉ c.toList) (hne : cs ≠ []) :
    parts ("/".intercalate cs) = cs := by
  rw [parts, String.toList_intercalate, show "/".toList = ['/'] from rfl,
    List.splitOn_intercalate '/' (by simpa using h) (by simpa using hne)]
  simp

/-- Joined names, the first not empty and none holding a separator, do not start with one. -/
theorem startsWith_intercalate {cs : List String} (hne : cs ≠ [])
    (h : ∀ c ∈ cs, c ≠ "" ∧ '/' ∉ c.toList) : ("/".intercalate cs).startsWith "/" = false := by
  obtain ⟨c, cs, rfl⟩ := List.exists_cons_of_ne_nil hne
  obtain ⟨hc, hslash⟩ := h c List.mem_cons_self
  obtain ⟨x, xs, hx⟩ := List.exists_cons_of_ne_nil (String.toList_eq_nil_iff.not.2 hc)
  have hhead : ∃ t, ("/".intercalate (c :: cs)).toList = x :: t := by
    rw [String.toList_intercalate]
    cases cs with
    | nil => exact ⟨xs, by simp [hx]⟩
    | cons c' cs => exact ⟨_, by rw [List.map_cons, List.map_cons, List.intercalate_cons_cons, hx]; rfl⟩
  obtain ⟨t, ht⟩ := hhead
  have hx' : x ≠ '/' := fun hx' => hslash (by rw [hx, hx']; exact List.mem_cons_self)
  rw [String.startsWith_string_eq_false_iff, ht, show "/".toList = ['/'] from rfl,
    List.cons_prefix_cons]
  exact fun hp => hx' hp.1.symm

/-- A path that names a file ends in a name. -/
theorem parts_of_dirOnly_eq_false {path : String} (h : dirOnly path = false) :
    ∃ ps l, parts path = ps ++ [l] ∧ l ≠ "" ∧ l ≠ "." ∧ l ≠ ".." := by
  unfold dirOnly at h
  cases hl : (parts path).getLast? with
  | none => simp [hl] at h
  | some l =>
    obtain ⟨ps, hps⟩ := List.getLast?_eq_some_iff.1 hl
    simp only [hl, Bool.or_eq_false_iff, beq_eq_false_iff_ne] at h
    exact ⟨ps, l, hps, h.1.1, h.1.2, h.2⟩

/-- The components of a path that ends in a name: its kept parts, the name last. -/
theorem components_of_parts {path : String} {ps : List String} {l : String}
    (hp : parts path = ps ++ [l]) (hl : l ≠ "") (hdot : l ≠ ".") :
    ∃ cs, components path = cs ++ [l] ∧ cs.filter kept = ps.filter kept ∧
      ∀ c ∈ cs, c ≠ "" ∧ '/' ∉ c.toList := by
  have hmem : ∀ c ∈ ps, '/' ∉ c.toList := fun c hc =>
    slash_not_mem_of_mem_parts (hp ▸ List.mem_append_left _ hc)
  have hkeep : kept l = true := by simp [kept, hl, hdot]
  cases ps with
  | nil => exact ⟨[], by simp [components, hp, hl], rfl, by simp⟩
  | cons first rest =>
    refine ⟨(if first == "" then [] else [first]) ++ rest.filter kept, ?_, ?_, ?_⟩
    · simp only [components, hp, List.cons_append, filter_kept]
      rw [List.filter_append, List.filter_singleton, hkeep]
      simp
    · by_cases hf : first = ""
      · subst hf
        rw [List.filter_cons_of_neg (by decide)]
        simp [List.filter_filter]
      · simp [hf, List.filter_cons]
    · intro c hc
      rcases List.mem_append.1 hc with hc | hc
      · by_cases hf : first = ""
        · simp [hf] at hc
        · simp only [beq_iff_eq, hf, if_false, List.mem_singleton] at hc
          exact ⟨hc ▸ hf, hc ▸ hmem first List.mem_cons_self⟩
      · obtain ⟨hc, hk⟩ := List.mem_filter.1 hc
        simp only [kept, Bool.and_eq_true, bne_iff_ne] at hk
        exact ⟨hk.1, hmem c (List.mem_cons_of_mem _ hc)⟩

/-! ## Walks -/

/-- A walk skips empty and `.` parts. -/
theorem walk_filter_kept (d : Disk) (here ps : List String) :
    d.walk here (ps.filter kept) = d.walk here ps := by
  induction ps generalizing here with
  | nil => rfl
  | cons p ps ih =>
    cases hk : kept p
    · rw [List.filter_cons_of_neg (by simp [hk]), ih, walk, skipped_eq_not_kept, hk]
      rfl
    · rw [List.filter_cons_of_pos hk]
      simp only [walk, skipped_eq_not_kept, hk, Bool.not_true, Bool.false_eq_true, if_false]
      split
      · exact ih _
      · split
        · exact ih _
        · rfl

/-- A walk through directories that stay directories ends where it did. -/
theorem walk_of_isDir {d d' : Disk} (hdir : ∀ q, d.isDir q = true → d'.isDir q = true)
    {here ps r : List String} (h : d.walk here ps = .ok r) : d'.walk here ps = .ok r := by
  induction ps generalizing here with
  | nil => exact h
  | cons p ps ih =>
    simp only [walk] at h ⊢
    split
    · exact ih (by simpa [*] using h)
    · split
      · exact ih (by simpa [*] using h)
      · rename_i h1 h2
        rw [if_neg h1, if_neg h2] at h
        split at h
        · rw [if_pos (hdir _ ‹_›)]
          exact ih h
        · cases h

/-- What a path locates: the end of the walk through its parent parts, and its last part. -/
theorem locate_eq_ok {d : Disk} {path : String} {place : List String}
    (h : d.locate path = .ok place) :
    dirOnly path = false ∧ ∃ here, d.walk (origin path) (parts path).dropLast = .ok here ∧
      place = here ++ [(parts path).getLastD ""] := by
  unfold locate at h
  cases hw : d.walk (origin path) (parts path).dropLast with
  | error e => simp [hw, bind, Except.bind] at h
  | ok here =>
    simp only [hw, bind, Except.bind] at h
    cases hd : dirOnly path
    · simp only [hd, Bool.false_eq_true, if_false, pure, Except.pure, Except.ok.injEq] at h
      exact ⟨rfl, here, rfl, h.symm⟩
    · simp only [hd, if_true] at h
      cases hw' : d.walk here [(parts path).getLast?.getD ""] <;>
        simp [hw', throw, throwThe, MonadExceptOf.throw] at h

/-! ## The temporary path -/

/-- The parts of the temporary path of a path that names a file: an empty part first when the
path is absolute, then the path's components, its last name marked. The components keep
the parent parts a walk does not skip. -/
theorem parts_tempPath {path : String} (h : dirOnly path = false) :
    ∃ ps l cs, parts path = ps ++ [l] ∧ cs.filter kept = ps.filter kept ∧
      parts (tempPath path) = (if path.startsWith "/" then [""] else []) ++ (cs ++ [l ++ ".tmp"]) ∧
      origin (tempPath path) = origin path := by
  obtain ⟨ps, l, hp, hl, hdot, hdots⟩ := parts_of_dirOnly_eq_false h
  obtain ⟨cs, hcs, hkept, hcs'⟩ := components_of_parts hp hl hdot
  have hnamed : (l != "." && l != "..") = true := by simp [hdot, hdots]
  -- the temporary path joins the components with the last one marked
  have htemp : tempPath path = (if path.startsWith "/" then "/" else "") ++
      "/".intercalate (cs ++ [l ++ ".tmp"]) := by
    simp [tempPath, hcs, hnamed]
  have hmarked : ∀ c ∈ cs ++ [l ++ ".tmp"], c ≠ "" ∧ '/' ∉ c.toList := by
    intro c hc
    rcases List.mem_append.1 hc with hc | hc
    · exact hcs' c hc
    · rw [List.mem_singleton] at hc
      subst hc
      have hl' : '/' ∉ l.toList := slash_not_mem_of_mem_parts (by rw [hp]; simp)
      refine ⟨by simp, ?_⟩
      rw [String.toList_append, List.mem_append, not_or]
      exact ⟨hl', by decide⟩
  have hjoined := parts_intercalate (fun c hc => (hmarked c hc).2) (by simp)
  refine ⟨ps, l, cs, hp, hkept, ?_⟩
  by_cases habs : path.startsWith "/"
  · rw [htemp, if_pos habs, if_pos habs, parts_slash_append, hjoined]
    exact ⟨rfl, by simp [origin, habs]⟩
  · rw [htemp, if_neg habs, if_neg habs, String.empty_append, hjoined]
    exact ⟨rfl, by simp only [origin, startsWith_intercalate (by simp) hmarked, habs]⟩

/-- The temporary path of a path that names a file starts where the path does and walks
through the same directories. -/
theorem tempPath_walk {path : String} (h : dirOnly path = false) (d : Disk) :
    origin (tempPath path) = origin path ∧
      d.walk (origin (tempPath path)) (parts (tempPath path)).dropLast =
        d.walk (origin path) (parts path).dropLast := by
  obtain ⟨ps, l, cs, hp, hkept, htemp, horigin⟩ := parts_tempPath h
  refine ⟨horigin, ?_⟩
  rw [horigin, ← walk_filter_kept, ← walk_filter_kept d _ (parts path).dropLast, hp, htemp,
    ← List.append_assoc, List.dropLast_concat, List.dropLast_concat, List.filter_append, hkept]
  split <;> simp [kept]

/-- The temporary file of a path that names a file bears the path's name, marked. -/
theorem getLastD_parts_tempPath {path : String} (h : dirOnly path = false) :
    (parts (tempPath path)).getLastD "" = (parts path).getLastD "" ++ ".tmp" := by
  obtain ⟨ps, l, cs, hp, -, htemp, -⟩ := parts_tempPath h
  rw [htemp, hp, ← List.append_assoc]
  simp

/-! ## Directories kept -/

theorem isPrefix_of_sibling {q here : List String} {a b : String}
    (h : q.isPrefixOf (here ++ [a]) = true ∧ q.length < (here ++ [a]).length) :
    q.isPrefixOf (here ++ [b]) = true ∧ q.length < (here ++ [b]).length := by
  rw [List.isPrefixOf_iff_prefix, List.prefix_concat_iff] at h
  obtain ⟨hq | hq, hlen⟩ := h
  · subst hq
    simp at hlen
  · refine ⟨List.isPrefixOf_iff_prefix.2 (hq.trans (List.prefix_append _ _)), ?_⟩
    have := hq.length_le
    simp only [List.length_append, List.length_singleton]
    omega

/-- Putting a file keeps every directory. -/
theorem isDir_of_put {d d' : Disk} {place : List String} {bytes : ByteArray}
    (h : d.put place bytes = .ok d') {q : List String} (hq : d.isDir q = true) :
    d'.isDir q = true := by
  unfold put at h
  split at h
  · cases h
  · cases h
    simp only [isDir, Bool.or_eq_true, List.any_eq_true, Bool.and_eq_true, decide_eq_true_eq,
      List.elem_eq_mem] at hq ⊢
    rcases hq with hq | ⟨⟨p, b⟩, hp, hbelow⟩
    · exact .inl hq
    · right
      by_cases hpl : p = place
      · exact ⟨(place, bytes), by simp, hpl ▸ hbelow⟩
      · exact ⟨(p, b), List.mem_append_left _ (List.mem_filter.2 ⟨hp, by simp [hpl]⟩), hbelow⟩

/-- Renaming a file to a place beside it keeps every directory. -/
theorem isDir_of_rename {d d' : Disk} {source : List String} {path : String}
    (h : d.rename source path = .ok d') {here : List String} {a b : String}
    (hsource : source = here ++ [a]) (hplace : d.locate path = .ok (here ++ [b]))
    {q : List String} (hq : d.isDir q = true) : d'.isDir q = true := by
  unfold rename at h
  simp only [hplace, bind, Except.bind, pure, Except.pure] at h
  split at h
  · cases h
  · split at h
    · cases h
    · cases h
      simp only [isDir, Bool.or_eq_true, List.any_eq_true, Bool.and_eq_true, decide_eq_true_eq,
        List.elem_eq_mem] at hq ⊢
      rcases hq with hq | ⟨⟨p, bs⟩, hp, hbelow⟩
      · exact .inl hq
      · right
        by_cases hps : p = source
        · subst hps
          exact ⟨_, List.mem_append_right _ List.mem_cons_self,
            isPrefix_of_sibling (hsource ▸ hbelow)⟩
        by_cases hpl : p = here ++ [b]
        · exact ⟨_, List.mem_append_right _ List.mem_cons_self, hpl ▸ hbelow⟩
        · exact ⟨(p, bs), List.mem_append_left _ (List.mem_filter.2 ⟨hp, by simp [hps, hpl]⟩),
            hbelow⟩

/-! ## Reading back -/

theorem fileAt?_put {d d' : Disk} {place : List String} {bytes : ByteArray}
    (h : d.put place bytes = .ok d') : d'.fileAt? place = some bytes := by
  unfold put at h
  split at h
  · cases h
  · cases h
    rw [fileAt?, List.lookup_append, lookup_filter_of_ne (by simp), Option.none_or,
      List.lookup_cons, beq_self_eq_true]

/-- Putting a file leaves every other place as it was. -/
theorem fileAt?_put_of_ne {d d' : Disk} {place q : List String} {bytes : ByteArray}
    (h : d.put place bytes = .ok d') (hq : q ≠ place) : d'.fileAt? q = d.fileAt? q := by
  unfold put at h
  split at h
  · cases h
  · cases h
    rw [fileAt?, fileAt?, List.lookup_append, lookup_filter_of_keeps (by simp +contextual [hq]),
      List.lookup_cons, beq_false_of_ne hq, List.lookup_nil, Option.or_none]

theorem fileAt?_rename {d d' : Disk} {source place : List String} {path : String}
    (h : d.rename source path = .ok d') (hplace : d.locate path = .ok place) :
    d'.fileAt? place = some ((d.fileAt? source).getD ByteArray.empty) := by
  unfold rename at h
  simp only [hplace, bind, Except.bind, pure, Except.pure] at h
  split at h
  · cases h
  · split at h
    · cases h
    · cases h
      rw [fileAt?, List.lookup_append, lookup_filter_of_ne (by simp +contextual), Option.none_or,
        List.lookup_cons, beq_self_eq_true]

/-- A replacement that goes through made the parents, put the bytes at the place of the
temporary file and renamed that file over the path. -/
theorem replace_eq_none {d d' : Disk} {path : String} {bytes : ByteArray}
    (h : d.replace path bytes = (d', none)) :
    ∃ d₁ temp d₂, d.makeParents path = (d₁, none) ∧ d₁.locate (tempPath path) = .ok temp ∧
      d₁.put temp bytes = .ok d₂ ∧ d₂.rename temp path = .ok d' := by
  unfold replace replaceUnder at h
  simp only [Refusal.written, Option.isSome_none, Bool.false_eq_true, if_false] at h
  obtain ⟨d₁, hmk⟩ : ∃ d₁, d.makeParents path = (d₁, none) := by
    cases hm : d.makeParents path with
    | mk d₁ e => cases e <;> simp_all
  rw [hmk] at h
  cases htemp : d₁.locate (tempPath path) with
  | error e => simp [htemp] at h
  | ok temp =>
    cases hput : d₁.put temp bytes with
    | error e => simp [htemp, hput] at h
    | ok d₂ =>
      cases hren : d₂.rename temp path with
      | error e => simp [htemp, hput, hren] at h
      | ok d₃ =>
        simp only [htemp, hput, hren, Prod.mk.injEq] at h
        exact ⟨d₁, temp, d₂, hmk, htemp, hput, h.1 ▸ hren⟩

/-- A rename that goes through located its target path. -/
theorem locate_of_rename {d d' : Disk} {source : List String} {path : String}
    (h : d.rename source path = .ok d') : ∃ place, d.locate path = .ok place := by
  unfold rename at h
  cases hd : dirOnly path <;> cases hl : d.locate path <;>
    simp_all [bind, Except.bind, throw, throwThe, MonadExceptOf.throw]

theorem isEmpty_of_dirOnly_eq_false {path : String} (h : dirOnly path = false) :
    path.isEmpty = false := by
  cases he : path.isEmpty
  · rfl
  · rw [String.isEmpty_iff.1 he] at h
    cases h

/-- A path located on one disk is located at the same place on a disk that keeps its
directories. -/
theorem locate_of_isDir {d d' : Disk} {path : String} {place : List String}
    (h : d.locate path = .ok place) (hdir : ∀ q, d.isDir q = true → d'.isDir q = true) :
    d'.locate path = .ok place := by
  obtain ⟨honly, here, hwalk, rfl⟩ := locate_eq_ok h
  simp [locate, walk_of_isDir hdir hwalk, honly]

/-- A replacement that went through put the temporary file beside the path: the walks to
both end in one directory, where the temporary file was put and then renamed over the
path. -/
theorem replace_eq_none_beside {d d' : Disk} {path : String} {bytes : ByteArray}
    (h : d.replace path bytes = (d', none)) :
    ∃ d₁ d₂ here, d.makeParents path = (d₁, none) ∧ dirOnly path = false ∧
      d₁.locate (tempPath path) = .ok (here ++ [(parts (tempPath path)).getLastD ""]) ∧
      d₁.put (here ++ [(parts (tempPath path)).getLastD ""]) bytes = .ok d₂ ∧
      d₂.rename (here ++ [(parts (tempPath path)).getLastD ""]) path = .ok d' ∧
      d₂.locate path = .ok (here ++ [(parts path).getLastD ""]) := by
  obtain ⟨d₁, temp, d₂, hmk, htemp, hput, hren⟩ := replace_eq_none h
  -- the rename found the path's place
  obtain ⟨place, hplace⟩ := locate_of_rename hren
  obtain ⟨hdir, here, hwalk, rfl⟩ := locate_eq_ok hplace
  -- the temporary file lies in the same directory
  obtain ⟨-, here', hwalk', rfl⟩ := locate_eq_ok htemp
  obtain ⟨-, hsame⟩ := tempPath_walk hdir d₁
  have hhere : here' = here := by
    have := walk_of_isDir (fun q => isDir_of_put hput) (hsame ▸ hwalk')
    rw [hwalk] at this
    exact (Except.ok.inj this).symm
  subst hhere
  exact ⟨d₁, d₂, here', hmk, hdir, htemp, hput, hren, hplace⟩

/-- **A replaced file reads back.** When replacing the file at a path goes through, the
path reads as the bytes written. -/
theorem read_of_replace {d d' : Disk} {path : String} {bytes : ByteArray}
    (h : d.replace path bytes = (d', none)) : d'.read path = .ok bytes := by
  obtain ⟨d₁, d₂, here, -, hdir, -, hput, hren, hplace⟩ := replace_eq_none_beside h
  have hlocate : d'.locate path = .ok (here ++ [(parts path).getLastD ""]) :=
    locate_of_isDir hplace fun q => isDir_of_rename hren rfl hplace
  simp only [read, isEmpty_of_dirOnly_eq_false hdir, hlocate, Bool.false_eq_true, if_false, bind,
    Except.bind, fileAt?_rename hren hplace, fileAt?_put hput]
  rfl

end Disk

end Telemetry
