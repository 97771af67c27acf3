import Telemetry.Text.Base64

/-
  PEM text (RFC 7468, strict form): optional lines of explanation, then
  `-----BEGIN <label>-----`, base64 lines and `-----END <label>-----` with the same label,
  optionally followed by one line break.

  The explanation must end with a line feed and hold no NUL. The label is printable ASCII
  other than `-`, with single spaces or tabs between words. Line breaks are CRLF, LF or CR.
  Every base64 line but the last holds exactly 64 characters; the last at most 64. One line
  break ends the base64 text before the closing boundary, and the last line may carry one
  more, so at most one blank line stands before it. The base64 text is never empty.
-/

namespace Telemetry

namespace Pem

/-- The opening boundary before its label. -/
def beginMarker : List Char := "-----BEGIN ".toList

/-- The closing boundary before its label. -/
def endMarker : List Char := "-----END ".toList

/-- Five dashes. -/
def dashes : List Char := "-----".toList

/-- Skips explanatory lines up to the opening boundary. -/
def skipPreamble : List Char → Option (List Char)
  | [] => none
  | c :: rest =>
    if c == '\x00' then none
    else if c == '\n' && beginMarker.isPrefixOf rest then some rest
    else skipPreamble rest

/-- A character allowed in a label word. -/
def isLabelChar (c : Char) : Bool :=
  let n := c.toNat
  (0x21 ≤ n && n ≤ 0x2c) || (0x2e ≤ n && n ≤ 0x7e)

/-- Drops one leading line break. -/
def dropLeadingBreak : List Char → Option (List Char)
  | '\r' :: '\n' :: rest => some rest
  | '\n' :: rest => some rest
  | '\r' :: rest => some rest
  | _ => none

/-- Drops one trailing line break. -/
def dropTrailingBreak (cs : List Char) : Option (List Char) :=
  match cs.reverse with
  | '\n' :: '\r' :: rest => some rest.reverse
  | '\n' :: rest => some rest.reverse
  | '\r' :: rest => some rest.reverse
  | _ => none

/-- Reads a label up to its dashes: the label and what follows the dashes. -/
def label (cs : List Char) : Option (String × List Char) :=
  let word := cs.takeWhile (· != '-')
  let rest := cs.drop word.length
  let ok := word.zipIdx.all fun (c, i) =>
    isLabelChar c || (i != 0 && (c == ' ' || c == '\t') &&
      !(word[i - 1]? == some ' ' || word[i - 1]? == some '\t'))
  if ok && dashes.isPrefixOf rest then
    (dropLeadingBreak (rest.drop 5)).map (String.ofList word, ·)
  else none

/-- Splits the encapsulated text into base64 lines: all but the last exactly 64
characters long and followed by one line break; the last loses at most one line break. -/
def base64Lines : Nat → List Char → Option (List Char)
  | 0, _ => none
  | fuel + 1, cs =>
    if cs.length ≤ 64 then some ((dropTrailingBreak cs).getD cs)
    else
      let line := cs.take 64
      match dropLeadingBreak (cs.drop 64) with
      | some rest => (base64Lines fuel rest).map (line ++ ·)
      | none => none

/-- The label and bytes of a PEM text. -/
def decode? (text : String) : Option (String × List UInt8) := do
  let cs := text.toList
  let cs ← if beginMarker.isPrefixOf cs then some cs else skipPreamble cs
  let (lbl, body) ← label (cs.drop beginMarker.length)
  let body := (dropTrailingBreak body).getD body
  let tail := endMarker ++ lbl.toList ++ dashes
  if !tail.isSuffixOf body then none
  let inner := body.take (body.length - tail.length)
  let inner ← dropTrailingBreak inner
  if inner.isEmpty then none
  let b64 ← base64Lines (inner.length + 1) inner
  let bytes ← Base64.decode? (String.ofList b64)
  pure (lbl, bytes)

end Pem

end Telemetry
