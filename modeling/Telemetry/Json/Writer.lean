/-
  Writing JSON text. A string is quoted with `"` and `\` escaped by a backslash, the
  control characters backspace, tab, line feed, form feed and carriage return by their
  letter escapes, the other controls below `0x20` as `\u00xx` with lower-case digits; all
  other characters, `DEL` and non-ASCII included, stand as they are.
-/

namespace Telemetry

namespace Json

/-- Lower-case hexadecimal digit. -/
def hexDigit (n : Nat) : Char := "0123456789abcdef".toList.getD n '0'

/-- The escaped form of one character inside a string. -/
def escapeChar (c : Char) : List Char :=
  if c == '"' then ['\\', '"']
  else if c == '\\' then ['\\', '\\']
  else if c == '\n' then ['\\', 'n']
  else if c == '\r' then ['\\', 'r']
  else if c == '\t' then ['\\', 't']
  else if c == '\x08' then ['\\', 'b']
  else if c == '\x0c' then ['\\', 'f']
  else if c.toNat < 0x20 then ['\\', 'u', '0', '0', hexDigit (c.toNat / 16), hexDigit (c.toNat % 16)]
  else [c]

/-- A string literal. -/
def quote (s : String) : String := String.ofList ('"' :: s.toList.flatMap escapeChar ++ ['"'])

/-- An object from members already written as JSON text, in the given order. -/
def objectText (members : List (String × String)) : String :=
  "\x7b" ++ ",".intercalate (members.map fun (k, v) => quote k ++ ":" ++ v) ++ "\x7d"

/-- An array from items already written as JSON text. -/
def arrayText (items : List String) : String := "[" ++ ",".intercalate items ++ "]"

end Json

end Telemetry
