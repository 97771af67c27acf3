import Mathlib
import Telemetry.Settings.Comments
import Telemetry.Proofs.Json.LineEnds
import Telemetry.Proofs.Text.Utf8

/-
  Line comments in JSON settings files.

  A line is scanned from its start as code. A double quote opens a string literal, in which a
  backslash escapes the character after it and a double quote closes it (`Scan`). A comment
  starts at the first two slashes in code (`CommentAt`, `commentStart`), and `keep` cuts each
  line exactly there (`keep_eq_cutComment`). So the stripped text is the lines of the text,
  each cut at its comment and ended by a line feed (`strip_eq`).

  The stripped text differs from the text with its comments deleted (`uncomment`) only in its
  line ends: no carriage return before a line feed, and a line feed after the last line
  (`plainBreaks_strip`). JSON reading cannot tell such texts apart, so both read the same
  (`readText?_strip`); a text without comments is its own text with comments deleted
  (`uncomment_of_no_comment`).
-/

namespace Telemetry

namespace Comments

/-! ## Where a comment starts -/

/-- Where a scan of a line stands: in code, inside a string literal, or right after a
backslash inside one. -/
inductive Scan
  | code
  | literal
  | escape
  deriving DecidableEq

namespace Scan

/-- The scan after one more character: a quote opens a literal and closes it, and a backslash
in a literal escapes the character after it. -/
def step : Scan → Char → Scan
  | code, c => if c = '"' then literal else code
  | literal, c => if c = '\\' then escape else if c = '"' then code else literal
  | escape, _ => literal

/-- The first flag of `keep`: the scan is inside a string literal. -/
def inString : Scan → Bool
  | code => false
  | _ => true

/-- The second flag of `keep`: the scan is right after a backslash in a literal. -/
def escaped : Scan → Bool
  | escape => true
  | _ => false

end Scan

/-- A comment starts at position `i` of a line scanned from `q`: two slashes there, in code. -/
def CommentAt (q : Scan) (cs : List Char) (i : Nat) : Prop :=
  cs[i]? = some '/' ∧ cs[i + 1]? = some '/' ∧ (cs.take i).foldl Scan.step q = .code

instance (q : Scan) (cs : List Char) (i : Nat) : Decidable (CommentAt q cs i) :=
  inferInstanceAs (Decidable (_ ∧ _ ∧ _))

/-- Where the comment of a line starts: the first position that starts one, or the line's
length when none does. -/
def commentStart (cs : List Char) : Nat :=
  ((List.range cs.length).find? fun i => decide (CommentAt .code cs i)).getD cs.length

/-- A line without its comment. -/
def cutComment (cs : List Char) : List Char := cs.take (commentStart cs)

theorem keep_cons (q : Scan) (c : Char) (rest : List Char) :
    keep (c :: rest) q.inString q.escaped =
      if q = .code ∧ c = '/' ∧ rest.head? = some '/' then []
      else c :: keep rest (q.step c).inString (q.step c).escaped := by
  cases q with
  | code =>
    by_cases hq : c = '"'
    · simp [keep, Scan.step, Scan.inString, Scan.escaped, hq]
    · by_cases hs : c = '/' ∧ rest.head? = some '/'
      · simp [keep, Scan.inString, hs]
      · simp only [keep, Scan.inString, Scan.escaped, Scan.step, hq]
        simp_all
  | literal =>
    by_cases hb : c = '\\'
    · simp [keep, Scan.step, Scan.inString, Scan.escaped, hb]
    · by_cases hq : c = '"'
      · simp [keep, Scan.step, Scan.inString, Scan.escaped, hq]
      · simp [keep, Scan.step, Scan.inString, Scan.escaped, hb, hq]
  | escape => simp [keep, Scan.step, Scan.inString, Scan.escaped]

theorem commentAt_cons_zero {q : Scan} {c : Char} {rest : List Char} :
    CommentAt q (c :: rest) 0 ↔ q = .code ∧ c = '/' ∧ rest.head? = some '/' := by
  cases rest <;> simp [CommentAt, and_comm, and_left_comm]

theorem commentAt_cons_succ {q : Scan} {c : Char} {rest : List Char} {i : Nat} :
    CommentAt q (c :: rest) (i + 1) ↔ CommentAt (q.step c) rest i := by
  simp [CommentAt]

/-- `keep` cuts a line scanned from `q` at the first comment start, and keeps a line with
none whole. -/
theorem keep_eq_take (q : Scan) (cs : List Char) :
    ∃ i, keep cs q.inString q.escaped = cs.take i ∧ (i = cs.length ∨ CommentAt q cs i) ∧
      ∀ j < i, ¬ CommentAt q cs j := by
  induction cs generalizing q with
  | nil => exact ⟨0, by cases q <;> rfl, .inl rfl, fun j hj => absurd hj (Nat.not_lt_zero j)⟩
  | cons c rest ih =>
    rw [keep_cons]
    split_ifs with hc
    · exact ⟨0, rfl, .inr (commentAt_cons_zero.2 hc),
        fun j hj => absurd hj (Nat.not_lt_zero j)⟩
    · obtain ⟨i, hk, hi, hj⟩ := ih (q.step c)
      refine ⟨i + 1, by rw [hk]; rfl, ?_, fun j hji => ?_⟩
      · rcases hi with rfl | hi
        · exact .inl rfl
        · exact .inr (commentAt_cons_succ.2 hi)
      · cases j with
        | zero => exact fun h => hc (commentAt_cons_zero.1 h)
        | succ j => exact fun h => hj j (by omega) (commentAt_cons_succ.1 h)

/-- **A line loses exactly its comment.** -/
theorem keep_eq_cutComment (cs : List Char) : keep cs false false = cutComment cs := by
  obtain ⟨i, hk, hi, hj⟩ := keep_eq_take .code cs
  have hlt : ∀ {k}, CommentAt .code cs k → k < cs.length := fun h =>
    (List.getElem?_eq_some_iff.1 h.1).1
  -- the first comment start, or the length, is what `find?` returns
  have hstart : commentStart cs = i := by
    unfold commentStart
    rcases hi with rfl | hi
    · rw [List.find?_range_eq_none.2 fun k hk => by simpa using hj k hk]
      rfl
    · rw [List.find?_range_eq_some.2 ⟨by simpa using hi, List.mem_range.2 (hlt hi),
        fun k hk => by simpa using hj k hk⟩]
      rfl
  rw [cutComment, hstart]
  exact hk

/-! ## The stripped text -/

/-- **Stripping cuts every line at its comment.** The stripped text is the lines of the text,
each cut at its first two slashes outside a string literal and ended by a line feed. -/
theorem strip_eq (s : String) :
    strip s = String.join ((lines s).map fun l => String.ofList (cutComment l.toList) ++ "\n") := by
  simp only [strip, keep_eq_cutComment]

/-- The carriage return of a line's break, which `dropReturn` takes off. -/
def returnOf (p : List Char) : List Char := if p.getLast? == some '\r' then ['\r'] else []

theorem dropReturn_append_returnOf (p : List Char) : dropReturn p ++ returnOf p = p := by
  unfold dropReturn returnOf
  split_ifs with h
  · simp only [beq_iff_eq, List.getLast?_eq_some_iff] at h
    obtain ⟨ys, rfl⟩ := h
    simp
  · simp

/-- The text with its comments deleted: each line cut at its comment, its line break (`\n`
or `\r\n`) kept. -/
def uncomment (s : String) : String :=
  let parts := s.toList.splitOn '\n'
  String.ofList (['\n'].intercalate
    (parts.dropLast.map (fun p => cutComment (dropReturn p) ++ returnOf p) ++
      [cutComment (parts.getLastD [])]))

theorem splitOn_eq_dropLast_append (cs : List Char) :
    cs.splitOn '\n' = (cs.splitOn '\n').dropLast ++ [(cs.splitOn '\n').getLastD []] := by
  rw [List.getLastD_eq_getLast?, List.getLast?_eq_some_getLast (List.splitOn_ne_nil _ _)]
  exact (List.dropLast_append_getLast _).symm

theorem intercalate_append_singleton (sep : Char) (xs : List (List Char)) (y : List Char) :
    [sep].intercalate (xs ++ [y]) = xs.flatMap (· ++ [sep]) ++ y := by
  induction xs with
  | nil => simp
  | cons x xs ih =>
    rw [List.cons_append, List.intercalate_cons_of_ne_nil (by simp), ih]
    simp

theorem toList_strip (s : String) :
    (strip s).toList =
      ((s.toList.splitOn '\n').dropLast.flatMap fun p => cutComment (dropReturn p) ++ ['\n']) ++
        if ((s.toList.splitOn '\n').getLastD []).isEmpty then []
        else cutComment ((s.toList.splitOn '\n').getLastD []) ++ ['\n'] := by
  rw [strip_eq]
  simp only [lines, String.toList_join, List.map_map, List.flatMap_map, List.flatMap_append]
  split_ifs <;> simp

theorem toList_uncomment (s : String) :
    (uncomment s).toList =
      ((s.toList.splitOn '\n').dropLast.flatMap fun p =>
        cutComment (dropReturn p) ++ returnOf p ++ ['\n']) ++
        cutComment ((s.toList.splitOn '\n').getLastD []) := by
  simp only [uncomment, String.toList_ofList, intercalate_append_singleton, List.flatMap_map]

/-! ## Reading the stripped text -/

section Bytes

open Json

theorem encodeChar_lf : Utf8.encodeChar '\n' = [0x0a] := rfl

theorem encodeChar_cr : Utf8.encodeChar '\r' = [0x0d] := rfl

/-- A line of the text with its comment deleted and its line break kept, against the same
line stripped: the stripped line has no carriage return in its break. -/
theorem plainBreaks_line (p : List Char) {x y : List UInt8} (h : PlainBreaks x y) :
    PlainBreaks ((cutComment (dropReturn p) ++ returnOf p ++ ['\n']).flatMap Utf8.encodeChar ++ x)
      ((cutComment (dropReturn p) ++ ['\n']).flatMap Utf8.encodeChar ++ y) := by
  simp only [List.flatMap_append, List.append_assoc]
  apply PlainBreaks.prepend
  unfold returnOf
  split_ifs
  · simp only [List.flatMap_cons, List.flatMap_nil, List.append_nil, encodeChar_cr, encodeChar_lf,
      List.cons_append, List.nil_append]
    exact .dropReturn (.cons 0x0a h)
  · simp only [List.flatMap_cons, List.flatMap_nil, List.append_nil, encodeChar_lf,
      List.cons_append, List.nil_append]
    exact .cons 0x0a h

theorem plainBreaks_lines (ps : List (List Char)) {x y : List UInt8} (h : PlainBreaks x y) :
    PlainBreaks
      ((ps.flatMap fun p => cutComment (dropReturn p) ++ returnOf p ++ ['\n']).flatMap
        Utf8.encodeChar ++ x)
      ((ps.flatMap fun p => cutComment (dropReturn p) ++ ['\n']).flatMap Utf8.encodeChar ++ y) := by
  induction ps with
  | nil => exact h
  | cons p ps ih =>
    simpa only [List.flatMap_cons, List.flatMap_append, List.append_assoc] using
      plainBreaks_line p ih

/-- The stripped text is the text with its comments deleted and its line ends made plain. -/
theorem plainBreaks_strip (s : String) :
    PlainBreaks (Utf8.encode (uncomment s)) (Utf8.encode (strip s)) := by
  unfold Utf8.encode
  rw [toList_uncomment, toList_strip, List.flatMap_append, List.flatMap_append]
  apply plainBreaks_lines
  -- the last line: the stripped text ends it with a line feed, unless it is empty
  generalize (s.toList.splitOn '\n').getLastD [] = l
  split_ifs with hl
  · rw [List.isEmpty_iff.1 hl]
    exact .ends (by simp)
  · simpa [encodeChar_lf] using PlainBreaks.prepend ((cutComment l).flatMap Utf8.encodeChar)
      (show PlainBreaks [] [0x0a] from .ends (by simp))

end Bytes

/-- **Stripping comments keeps the reading of the text with its comments deleted.** -/
theorem readText?_strip (s : String) : Json.readText? (strip s) = Json.readText? (uncomment s) := by
  unfold Json.readText?
  rw [Utf8.toUTF8_toList, Utf8.toUTF8_toList]
  exact Json.read?_plainBreaks (plainBreaks_strip s)

theorem cutComment_of_no_comment {cs : List Char} (h : ∀ i, ¬ CommentAt .code cs i) :
    cutComment cs = cs := by
  rw [← keep_eq_cutComment]
  obtain ⟨i, hk, hi, -⟩ := keep_eq_take .code cs
  rcases hi with rfl | hi
  · simpa [Scan.inString, Scan.escaped] using hk
  · exact absurd hi (h i)

/-- A text whose lines have no comment is its own text with comments deleted. -/
theorem uncomment_of_no_comment {s : String}
    (h : ∀ l ∈ lines s, ∀ i, ¬ CommentAt .code l.toList i) : uncomment s = s := by
  let parts := s.toList.splitOn '\n'
  let last := parts.getLastD []
  have hmem : ∀ l ∈ parts.dropLast.map dropReturn ++ (if last.isEmpty then [] else [last]),
      cutComment l = l := fun l hl => by
    refine cutComment_of_no_comment fun i => ?_
    simpa using h (String.ofList l) (by unfold lines; exact List.mem_map_of_mem hl) i
  have hlines : ∀ p ∈ parts.dropLast, cutComment (dropReturn p) ++ returnOf p = p :=
    fun p hp => by
      rw [hmem _ (List.mem_append_left _ (List.mem_map_of_mem hp)), dropReturn_append_returnOf]
  have hlast : cutComment last = last := by
    by_cases he : last.isEmpty
    · rw [List.isEmpty_iff.1 he]
      rfl
    · exact hmem _ (List.mem_append_right _ (by simp [he]))
  rw [← String.toList_inj]
  calc (uncomment s).toList = parts.dropLast.flatMap (· ++ ['\n']) ++ last := by
        rw [toList_uncomment, hlast]
        congr 1
        exact List.flatMap_congr fun p hp => by rw [hlines p hp]
    _ = ['\n'].intercalate (parts.dropLast ++ [last]) := (intercalate_append_singleton _ _ _).symm
    _ = ['\n'].intercalate parts := by rw [← splitOn_eq_dropLast_append]
    _ = s.toList := List.intercalate_splitOn '\n'

theorem lt_length_of_commentAt {q : Scan} {cs : List Char} {i : Nat} (h : CommentAt q cs i) :
    i < cs.length :=
  (List.getElem?_eq_some_iff.1 h.1).1

/-- **Stripping comments.** Each line is cut at its first two slashes outside a string
literal and ended by a line feed. Read as JSON, the stripped text gives what the text with its
comments deleted gives, and a text without comments reads as it is. -/
theorem strip_reads_as_uncommented :
    (∀ s, strip s =
        String.join ((lines s).map fun l => String.ofList (cutComment l.toList) ++ "\n")) ∧
      (∀ s, Json.readText? (strip s) = Json.readText? (uncomment s)) ∧
      ∀ s, (∀ l ∈ lines s, ∀ i, ¬ CommentAt .code l.toList i) →
        Json.readText? (strip s) = Json.readText? s :=
  ⟨strip_eq, readText?_strip, fun s h => by rw [readText?_strip, uncomment_of_no_comment h]⟩

/-- A settings text with a URL and an escaped quote in its strings and a `CR LF` break has no
comment, and reads the same stripped. -/
theorem strip_reads_url_text :
    (∀ l ∈ lines ("\x7b\"u\": \"http://h:80\",\r\n \"q\": \"a\\\"//b\"\x7d\n"),
        ∀ i, ¬ CommentAt .code l.toList i) ∧
      Json.readText? (strip ("\x7b\"u\": \"http://h:80\",\r\n \"q\": \"a\\\"//b\"\x7d\n")) =
        Json.readText? ("\x7b\"u\": \"http://h:80\",\r\n \"q\": \"a\\\"//b\"\x7d\n") := by
  refine ⟨?none, strip_reads_as_uncommented.2.2 _ ?none⟩
  have hb : ∀ l ∈ lines ("\x7b\"u\": \"http://h:80\",\r\n \"q\": \"a\\\"//b\"\x7d\n"),
      ∀ i < l.toList.length, ¬ CommentAt .code l.toList i := by
    decide +kernel
  exact fun l hl i hi => hb l hl i (lt_length_of_commentAt hi) hi

end Comments

end Telemetry
