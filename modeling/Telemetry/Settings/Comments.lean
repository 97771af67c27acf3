/-
  Line comments in JSON settings files.

  The text is split into lines at `\n`, a `\r` right before the `\n` belonging to the line
  break, and a final `\n` ending the last line rather than starting an empty one. Each line is
  cut at the first `//` outside a string literal; inside a literal a backslash escapes the
  next character, and a literal left open ends with its line. Every kept line is followed by
  `\n`.
-/

namespace Telemetry

namespace Comments

/-- A line followed by `\n` loses its own final `\r`, which belongs to the line break. -/
def dropReturn (p : List Char) : List Char :=
  if p.getLast? == some '\r' then p.dropLast else p

/-- The lines of a text, line breaks removed: every part before a `\n`, then the part after
the last `\n` unless it is empty. -/
def lines (s : String) : List String :=
  let parts := s.toList.splitOn '\n'
  let last := parts.getLastD []
  (parts.dropLast.map dropReturn ++ (if last.isEmpty then [] else [last])).map String.ofList

/-- The part of a line before its comment. `inString` and `escaped` track a string literal. -/
def keep : List Char → Bool → Bool → List Char
  | [], _, _ => []
  | c :: rest, inString, escaped =>
    if inString then
      if escaped then c :: keep rest true false
      else if c == '\\' then c :: keep rest true true
      else if c == '"' then c :: keep rest false false
      else c :: keep rest true false
    else if c == '"' then c :: keep rest true false
    else if c == '/' && rest.head? == some '/' then []
    else c :: keep rest false false

/-- The text with every `//` comment removed, each line ending in `\n`. -/
def strip (s : String) : String :=
  String.join ((lines s).map fun l => String.ofList (keep l.toList false false) ++ "\n")

end Comments

end Telemetry
