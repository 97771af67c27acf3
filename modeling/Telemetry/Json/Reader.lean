import Telemetry.Json.Basic

/-
  Reading JSON text (RFC 8259) into a lexically faithful `Json`.

  Blanks are space, tab, line feed and carriage return. A string may hold any byte but the
  control characters below `0x20`; a backslash must start one of the escapes
  `\" \\ \/ \b \f \n \r \t \uXXXX`. A number is `-? (0 | [1-9][0-9]*) (. [0-9]+)? ([eE] [+-]? [0-9]+)?`.
  The whole input must be one value with blanks around it. Recursion is bounded by an explicit
  fuel computed from the input length; every step consumes input, so the fuel never runs out
  on a well-formed text.
-/

namespace Telemetry

namespace Json

/-- JSON blank bytes. -/
def isBlankByte (b : UInt8) : Bool := b == 0x20 || b == 0x09 || b == 0x0a || b == 0x0d

/-- Drops leading blanks. -/
def skipBlank (bs : List UInt8) : List UInt8 := bs.dropWhile isBlankByte

/-- An ASCII digit byte. -/
def isDigitByte (b : UInt8) : Bool := 0x30 ≤ b && b ≤ 0x39

/-- An ASCII hexadecimal digit byte. -/
def isHexByte (b : UInt8) : Bool :=
  isDigitByte b || (0x61 ≤ b && b ≤ 0x66) || (0x41 ≤ b && b ≤ 0x46)

/-- Reads the body of a string after its opening quote: the raw bytes and the input after
the closing quote. -/
def stringBody : List UInt8 → List UInt8 → Option (List UInt8 × List UInt8)
  | [], _ => none
  | b :: rest, acc =>
    if b == 0x22 then some (acc.reverse, rest)
    else if b < 0x20 then none
    else if b == 0x5c then
      match rest with
      | e :: r =>
        if e == 0x75 then
          match r with
          | h1 :: h2 :: h3 :: h4 :: r' =>
            if isHexByte h1 && isHexByte h2 && isHexByte h3 && isHexByte h4 then
              stringBody r' (h4 :: h3 :: h2 :: h1 :: e :: b :: acc)
            else none
          | _ => none
        else if e == 0x22 || e == 0x5c || e == 0x2f || e == 0x62 || e == 0x66 ||
            e == 0x6e || e == 0x72 || e == 0x74 then
          stringBody r (e :: b :: acc)
        else none
      | [] => none
    else stringBody rest (b :: acc)

/-- The optional minus sign of a number, and the bytes after it. -/
def numberSign : List UInt8 → List UInt8 × List UInt8
  | 0x2d :: r => ([0x2d], r)
  | r => ([], r)

/-- Integer digits are well-formed: at least one, and no leading zero before another. -/
def wholeOk : List UInt8 → Bool
  | [] => false
  | [_] => true
  | d :: _ => d != 0x30

/-- The fraction `.digits`, if there is one, and the bytes after it; `none` for a point
without digits. -/
def fraction : List UInt8 → Option (List UInt8 × List UInt8)
  | 0x2e :: r =>
    let ds := r.takeWhile isDigitByte
    if ds.isEmpty then none else some (0x2e :: ds, r.dropWhile isDigitByte)
  | r => some ([], r)

/-- The optional sign of an exponent, and the bytes after it. -/
def exponentSign : List UInt8 → List UInt8 × List UInt8
  | 0x2b :: r => ([0x2b], r)
  | 0x2d :: r => ([0x2d], r)
  | r => ([], r)

/-- The exponent `(e|E) [+-]? digits`, if there is one, and the bytes after it; `none` for an
exponent without digits. -/
def exponent : List UInt8 → Option (List UInt8 × List UInt8)
  | e :: r =>
    if e == 0x65 || e == 0x45 then
      let (es, r) := exponentSign r
      let ds := r.takeWhile isDigitByte
      if ds.isEmpty then none else some (e :: es ++ ds, r.dropWhile isDigitByte)
    else some ([], e :: r)
  | [] => some ([], [])

/-- Reads a number token: its text and the input after it. -/
def numberToken (bs : List UInt8) : Option (String × List UInt8) :=
  let (sign, rest) := numberSign bs
  let whole := rest.takeWhile isDigitByte
  if !wholeOk whole then none
  else
    (fraction (rest.dropWhile isDigitByte)).bind fun (frac, rest) =>
      (exponent rest).map fun (ex, rest) =>
        (String.ofList ((sign ++ whole ++ frac ++ ex).map fun b => Char.ofNat b.toNat), rest)

/-- Matches a literal word at the front of the input. -/
def literal (word : List UInt8) (bs : List UInt8) : Option (List UInt8) :=
  if word.isPrefixOf bs then some (bs.drop word.length) else none

mutual

/-- Reads one value after optional blanks. -/
def value : Nat → List UInt8 → Option (Json × List UInt8)
  | 0, _ => none
  | fuel + 1, bs =>
    match skipBlank bs with
    | [] => none
    | b :: rest =>
      if b == 0x7b then members fuel (skipBlank rest) []
      else if b == 0x5b then items fuel (skipBlank rest) []
      else if b == 0x22 then (stringBody rest []).map fun (s, r) => (.string s, r)
      else if b == 0x74 then (literal [0x72, 0x75, 0x65] rest).map (.bool true, ·)
      else if b == 0x66 then (literal [0x61, 0x6c, 0x73, 0x65] rest).map (.bool false, ·)
      else if b == 0x6e then (literal [0x75, 0x6c, 0x6c] rest).map (.null, ·)
      else (numberToken (b :: rest)).map fun (t, r) => (.number t, r)

/-- Reads array items after `[` (blanks skipped), the items so far reversed in `acc`. -/
def items : Nat → List UInt8 → List Json → Option (Json × List UInt8)
  | 0, _, _ => none
  | fuel + 1, bs, acc =>
    match bs, acc with
    | 0x5d :: rest, [] => some (.array [], rest)
    | _, _ =>
      match value fuel bs with
      | none => none
      | some (v, rest) =>
        match skipBlank rest with
        | 0x2c :: r => items fuel (skipBlank r) (v :: acc)
        | 0x5d :: r => some (.array (v :: acc).reverse, r)
        | _ => none

/-- Reads object members after `{` (blanks skipped), the members so far reversed in `acc`. -/
def members : Nat → List UInt8 → List (List UInt8 × Json) → Option (Json × List UInt8)
  | 0, _, _ => none
  | fuel + 1, bs, acc =>
    match bs, acc with
    | 0x7d :: rest, [] => some (.object [], rest)
    | 0x22 :: rest, _ =>
      match stringBody rest [] with
      | none => none
      | some (name, rest) =>
        match skipBlank rest with
        | 0x3a :: r =>
          match value fuel r with
          | none => none
          | some (v, rest) =>
            match skipBlank rest with
            | 0x2c :: r => members fuel (skipBlank r) ((name, v) :: acc)
            | 0x7d :: r => some (.object ((name, v) :: acc).reverse, r)
            | _ => none
        | _ => none
    | _, _ => none

end

/-- Reads a whole document: one value with only blanks around it. -/
def read? (bs : List UInt8) : Option Json :=
  match value (4 * bs.length + 8) bs with
  | some (v, rest) => if (skipBlank rest).isEmpty then some v else none
  | none => none

/-- Reads a whole document from text. -/
def readText? (s : String) : Option Json := read? s.toUTF8.toList

end Json

end Telemetry
