import Telemetry.Number.Read

/-
  TOML documents (v1.0.0), read into a tree of tables.

  Lines hold a key/value pair, a table header `[a.b]`, an array-of-tables header `[[a.b]]`,
  a comment or nothing. Keys are bare (`A-Za-z0-9_-`) or quoted, and may be dotted. Values are
  strings (basic, literal, and their multi-line forms), integers (decimal with `_` between
  digits, or `0x`/`0o`/`0b`), floats, booleans, dates and times, arrays and inline tables.
  Multi-line strings keep each line break as a line feed; a carriage return stands only in
  CRLF. A float literal whose value rounds to positive infinity is refused.

  Definitions may not clash: a key is defined once; a table is opened by a header once; a
  table made by dotted keys cannot be opened by a header; an inline table is closed; a header
  passes through arrays of tables into their last table. The tree records how each table
  came to be, which is what these rules need.
-/

namespace Telemetry

/-- How a table came into being. -/
inductive TableOrigin where
  /-- Opened by a `[header]`. -/
  | header
  /-- Created as a parent of a header, not yet opened itself. -/
  | implicit
  /-- Created by a dotted key. -/
  | dotted
  /-- Written inline, `{ … }`; closed to later additions. -/
  | inline
  deriving DecidableEq, Repr

/-- A TOML value. -/
inductive Toml where
  | str (s : String)
  | int (i : Int)
  | float
  | bool (b : Bool)
  | datetime
  /-- An array; `ofTables` when built by `[[header]]` lines. -/
  | array (items : List Toml) (ofTables : Bool)
  | table (origin : TableOrigin) (entries : List (String × Toml))
  deriving Inhabited

namespace Toml

/-! ### Building the tree -/

/-- Replaces the entry of a key. -/
def setEntry (es : List (String × Toml)) (k : String) (v : Toml) : List (String × Toml) :=
  es.map fun (k', v') => if k' == k then (k', v) else (k', v')

/-- Inserts a value under a dotted key path into a table's entries; intermediate tables are
created as dotted tables or must be dotted tables already. -/
def insertKey (es : List (String × Toml)) : List String → Toml → Option (List (String × Toml))
  | [], _ => none
  | [k], v => if (es.lookup k).isSome then none else some (es ++ [(k, v)])
  | k :: rest, v =>
    match es.lookup k with
    | none => do
      let inner ← insertKey [] rest v
      pure (es ++ [(k, .table .dotted inner)])
    | some (.table .dotted inner) => do
      let inner ← insertKey inner rest v
      pure (setEntry es k (.table .dotted inner))
    | some _ => none

/-- Changes the table at a header path with `f`, passing through tables and the last table of
arrays of tables. -/
def modifyAt (es : List (String × Toml)) (f : List (String × Toml) → Option (List (String × Toml))) :
    List String → Option (List (String × Toml))
  | [] => f es
  | k :: rest =>
    match es.lookup k with
    | some (.table o inner) =>
      if o == .inline then none
      else do pure (setEntry es k (.table o (← modifyAt inner f rest)))
    | some (.array items true) =>
      match items.getLast? with
      | some (.table o inner) => do
        let inner ← modifyAt inner f rest
        pure (setEntry es k (.array (items.dropLast ++ [.table o inner]) true))
      | _ => none
    | _ => none

/-- Opens a table (`aot = false`) or appends a table to an array of tables (`aot = true`) at
a header path, creating missing parents as implicit tables. -/
def openHeader (es : List (String × Toml)) (aot : Bool) : List String → Option (List (String × Toml))
  | [] => none
  | [k] =>
    match es.lookup k, aot with
    | none, false => some (es ++ [(k, .table .header [])])
    | none, true => some (es ++ [(k, .array [.table .header []] true)])
    | some (.table .implicit inner), false => some (setEntry es k (.table .header inner))
    | some (.array items true), true => some (setEntry es k (.array (items ++ [.table .header []]) true))
    | _, _ => none
  | k :: rest =>
    match es.lookup k with
    | none => do
      let inner ← openHeader [] aot rest
      pure (es ++ [(k, .table .implicit inner)])
    | some (.table o inner) =>
      if o == .inline then none
      else do pure (setEntry es k (.table o (← openHeader inner aot rest)))
    | some (.array items true) =>
      match items.getLast? with
      | some (.table o inner) => do
        let inner ← openHeader inner aot rest
        pure (setEntry es k (.array (items.dropLast ++ [.table o inner]) true))
      | _ => none
    | _ => none

/-! ### Lexical pieces -/

/-- A bare key character. -/
def isBareChar (c : Char) : Bool := c.isAlphanum || c == '_' || c == '-'

/-- A control character that may not appear in strings or comments (tab is allowed). -/
def isControl (c : Char) : Bool := (c.toNat < 0x20 && c != '\t') || c.toNat == 0x7f

/-- Skips spaces and tabs. -/
def skipWs (cs : List Char) : List Char := cs.dropWhile fun c => c == ' ' || c == '\t'

/-- Skips a comment's body up to its line break. -/
def skipComment (cs : List Char) : Option (List Char) :=
  let body := cs.takeWhile fun c => c != '\n' && c != '\r'
  if body.any isControl then none else some (cs.drop body.length)

/-- Consumes the end of a line: optional blanks and comment, then a line break or the end. -/
def endOfLine (cs : List Char) : Option (List Char) := do
  let cs := skipWs cs
  let cs ← match cs with
    | '#' :: r => skipComment r
    | _ => some cs
  match cs with
  | [] => some []
  | '\n' :: r => some r
  | '\r' :: '\n' :: r => some r
  | _ => none

/-- Value of hexadecimal digits. -/
def hexValue (cs : List Char) : Nat :=
  cs.foldl (fun acc c => acc * 16 + (if c.isDigit then c.toNat - '0'.toNat
    else if 'a' ≤ c && c ≤ 'f' then c.toNat - 'a'.toNat + 10 else c.toNat - 'A'.toNat + 10)) 0

/-- A hexadecimal digit. -/
def isHex (c : Char) : Bool := c.isDigit || ('a' ≤ c && c ≤ 'f') || ('A' ≤ c && c ≤ 'F')

/-- Reads an escape after a backslash in a basic string. -/
def escape (cs : List Char) : Option (Char × List Char) :=
  let code (n : Nat) (cs : List Char) : Option (Char × List Char) :=
    let ds := cs.take n
    if ds.length == n && ds.all isHex then
      let v := hexValue ds
      if v.isValidChar then some (Char.ofNat v, cs.drop n) else none
    else none
  match cs with
  | 'b' :: r => some ('\x08', r)
  | 't' :: r => some ('\t', r)
  | 'n' :: r => some ('\n', r)
  | 'f' :: r => some ('\x0c', r)
  | 'r' :: r => some ('\r', r)
  | '"' :: r => some ('"', r)
  | '\\' :: r => some ('\\', r)
  | 'u' :: r => code 4 r
  | 'U' :: r => code 8 r
  | _ => none

/-- The body of a one-line basic string after its opening quote. -/
def basicBody : Nat → List Char → List Char → Option (String × List Char)
  | 0, _, _ => none
  | _, [], _ => none
  | fuel + 1, c :: rest, acc =>
    if c == '"' then some (String.ofList acc.reverse, rest)
    else if c == '\\' then
      match escape rest with
      | some (e, r) => basicBody fuel r (e :: acc)
      | none => none
    else if isControl c then none
    else basicBody fuel rest (c :: acc)

/-- The body of a one-line literal string after its opening quote. -/
def literalBody (cs : List Char) : Option (String × List Char) :=
  let body := cs.takeWhile (· != '\'')
  match cs.drop body.length with
  | '\'' :: rest => if body.any isControl then none else some (String.ofList body, rest)
  | _ => none

/-- Drops one line break right after an opening delimiter. -/
def dropFirstBreak : List Char → List Char
  | '\n' :: r => r
  | '\r' :: '\n' :: r => r
  | cs => cs

/-- Skips blanks and line breaks after a line-ending backslash; a carriage return counts
only as part of CRLF. -/
def skipBlankLines : List Char → List Char
  | ' ' :: r => skipBlankLines r
  | '\t' :: r => skipBlankLines r
  | '\n' :: r => skipBlankLines r
  | '\r' :: '\n' :: r => skipBlankLines r
  | cs => cs

/-- The body of a multi-line basic string after `"""`; a line break is kept as `\n`. -/
def multiBasicBody : Nat → List Char → List Char → Option (String × List Char)
  | 0, _, _ => none
  | _, [], _ => none
  | fuel + 1, c :: rest, acc =>
    match c :: rest with
    | '"' :: '"' :: '"' :: r =>
      let extra := (r.takeWhile (· == '"')).take 2
      let r := r.drop extra.length
      some (String.ofList (acc.reverse ++ extra), r)
    | '\\' :: r =>
      let afterWs := skipWs r
      match afterWs with
      | '\n' :: _ | '\r' :: '\n' :: _ =>
        multiBasicBody fuel (skipBlankLines afterWs) acc
      | _ =>
        match escape r with
        | some (e, r) => multiBasicBody fuel r (e :: acc)
        | none => none
    | '\r' :: '\n' :: r => multiBasicBody fuel r ('\n' :: acc)
    | _ =>
      if c == '\n' then multiBasicBody fuel rest (c :: acc)
      else if isControl c then none
      else multiBasicBody fuel rest (c :: acc)

/-- The body of a multi-line literal string after `'''`; a line break is kept as `\n`. -/
def multiLiteralBody : Nat → List Char → List Char → Option (String × List Char)
  | 0, _, _ => none
  | _, [], _ => none
  | fuel + 1, c :: rest, acc =>
    match c :: rest with
    | '\'' :: '\'' :: '\'' :: r =>
      let extra := (r.takeWhile (· == '\'')).take 2
      some (String.ofList (acc.reverse ++ extra), r.drop extra.length)
    | '\r' :: '\n' :: r => multiLiteralBody fuel r ('\n' :: acc)
    | _ =>
      if c == '\n' then multiLiteralBody fuel rest (c :: acc)
      else if isControl c then none
      else multiLiteralBody fuel rest (c :: acc)

/-- Reads a simple key: bare or quoted on one line. -/
def simpleKey (cs : List Char) : Option (String × List Char) :=
  match cs with
  | '"' :: r => basicBody (r.length + 1) r []
  | '\'' :: r => literalBody r
  | _ =>
    let k := cs.takeWhile isBareChar
    if k.isEmpty then none else some (String.ofList k, cs.drop k.length)

/-- Reads a dotted key. -/
def dottedKey : Nat → List Char → Option (List String × List Char)
  | 0, _ => none
  | fuel + 1, cs => do
    let (k, rest) ← simpleKey (skipWs cs)
    match skipWs rest with
    | '.' :: r => do
      let (ks, rest) ← dottedKey fuel r
      pure (k :: ks, rest)
    | _ => pure ([k], rest)

/-! ### Scalars -/

/-- Digits with single underscores between them, all satisfying `p`. -/
def underscored (p : Char → Bool) (cs : List Char) : Bool :=
  !cs.isEmpty && cs.head? != some '_' && cs.getLast? != some '_' &&
  cs.all (fun c => p c || c == '_') &&
  !(cs.zip (cs.drop 1)).any (fun (a, b) => a == '_' && b == '_')

/-- Digits of an underscored run. -/
def stripUnderscores (cs : List Char) : List Char := cs.filter (· != '_')

/-- A decimal integer part: `0`, or a nonzero digit followed by underscored digits. -/
def decimalInt (cs : List Char) : Bool :=
  match cs with
  | ['0'] => true
  | c :: _ => c != '0' && underscored Char.isDigit cs
  | [] => false

/-- Value of digits in a base. -/
def baseValue (base : Nat) (cs : List Char) : Nat :=
  cs.foldl (fun acc c => acc * base + (hexValue [c])) 0

/-- Reads an integer token. -/
def integer? (tok : List Char) : Option Int :=
  let bound : Int := Int.pow 2 63
  let ranged (v : Int) : Option Int := if -bound ≤ v && v < bound then some v else none
  match tok with
  | '0' :: 'x' :: ds => if underscored isHex ds then ranged (baseValue 16 (stripUnderscores ds)) else none
  | '0' :: 'o' :: ds =>
    if underscored (fun c => '0' ≤ c && c ≤ '7') ds then ranged (baseValue 8 (stripUnderscores ds)) else none
  | '0' :: 'b' :: ds =>
    if underscored (fun c => c == '0' || c == '1') ds then ranged (baseValue 2 (stripUnderscores ds)) else none
  | _ =>
    let (neg, ds) := match tok with
      | '-' :: r => (true, r)
      | '+' :: r => (false, r)
      | r => (false, r)
    if decimalInt ds then
      let v : Int := baseValue 10 (stripUnderscores ds)
      ranged (if neg then -v else v)
    else none

/-- A number token without its sign. -/
def unsignedPart (tok : List Char) : List Char :=
  match tok with
  | '-' :: r => r
  | '+' :: r => r
  | r => r

/-- `inf` or `nan`, signed or not. -/
def isSpecialFloat (tok : List Char) : Bool :=
  unsignedPart tok == "inf".toList || unsignedPart tok == "nan".toList

/-- A float token. -/
def isFloat (tok : List Char) : Bool :=
  let body := unsignedPart tok
  if isSpecialFloat tok then true
  else
    let intPart := body.takeWhile fun c => c.isDigit || c == '_'
    let rest := body.drop intPart.length
    let (frac, rest) := match rest with
      | '.' :: r => let f := r.takeWhile fun c => c.isDigit || c == '_'; (some f, r.drop f.length)
      | r => (none, r)
    let exp := match rest with
      | e :: r => if e == 'e' || e == 'E' then
          let r := match r with | '+' :: x => x | '-' :: x => x | x => x
          some r
        else some ('?' :: r)
      | [] => none
    decimalInt intPart &&
    (match frac with | some f => underscored Char.isDigit f | none => true) &&
    (match exp with | some e => underscored Char.isDigit e | none => true) &&
    (frac.isSome || exp.isSome)

/-- A float token, not `inf` or `nan`, whose value rounds to positive infinity: such a
literal is refused, while one that rounds to negative infinity is kept. -/
def overflows (tok : List Char) : Bool :=
  if isSpecialFloat tok then false
  else
    match Binary64.read? (String.ofList (stripUnderscores tok)) with
    | some x => match x.view with
      | .infinite false => true
      | _ => false
    | none => false

/-- Number of two-digit field. -/
def twoDigits (cs : List Char) : Option Nat :=
  match cs with
  | [a, b] => if a.isDigit && b.isDigit then some (baseValue 10 cs) else none
  | _ => none

/-- A calendar date `YYYY-MM-DD` at the front: the rest after it. -/
def date (cs : List Char) : Option (List Char) := do
  let y := cs.take 4
  if y.length != 4 || !y.all Char.isDigit then none
  match cs.drop 4 with
  | '-' :: m1 :: m2 :: '-' :: d1 :: d2 :: rest =>
    let month ← twoDigits [m1, m2]
    let day ← twoDigits [d1, d2]
    let year := baseValue 10 y
    let leap := year % 4 == 0 && (year % 100 != 0 || year % 400 == 0)
    let days := if month == 2 then (if leap then 29 else 28)
      else if [4, 6, 9, 11].contains month then 30 else 31
    if month < 1 || month > 12 || day < 1 || day > days then none else some rest
  | _ => none

/-- A time `HH:MM:SS[.fraction]` at the front: the rest after it. -/
def time (cs : List Char) : Option (List Char) := do
  match cs with
  | h1 :: h2 :: ':' :: m1 :: m2 :: ':' :: s1 :: s2 :: rest =>
    let h ← twoDigits [h1, h2]
    let m ← twoDigits [m1, m2]
    let s ← twoDigits [s1, s2]
    if h > 23 || m > 59 || s > 60 then none
    match rest with
    | '.' :: r =>
      let ds := r.takeWhile Char.isDigit
      if ds.isEmpty then none else some (r.drop ds.length)
    | _ => some rest
  | _ => none

/-- An offset `Z` or `±HH:MM` at the front: the rest after it. -/
def offset (cs : List Char) : Option (List Char) :=
  match cs with
  | 'Z' :: r => some r
  | 'z' :: r => some r
  | s :: h1 :: h2 :: ':' :: m1 :: m2 :: r =>
    if s == '+' || s == '-' then do
      let h ← twoDigits [h1, h2]
      let m ← twoDigits [m1, m2]
      if h > 23 || m > 59 then none else some r
    else none
  | _ => none

/-- A date, time or date-time at the front: the rest after it. -/
def datetime? (cs : List Char) : Option (List Char) :=
  match date cs with
  | some rest =>
    match rest with
    | sep :: r =>
      if sep == 'T' || sep == 't' || (sep == ' ' && (time r).isSome) then do
        let r ← time r
        pure ((offset r).getD r)
      else some rest
    | [] => some rest
  | none => time cs

/-- Characters that may make up a number or boolean token. -/
def isTokenChar (c : Char) : Bool := c.isAlphanum || c == '_' || c == '+' || c == '-' || c == '.'

/-- Reads a scalar that is not a string. -/
def scalar (cs : List Char) : Option (Toml × List Char) :=
  match datetime? cs with
  | some rest =>
    if rest.head?.any isTokenChar then none else some (.datetime, rest)
  | none =>
    let tok := cs.takeWhile isTokenChar
    let rest := cs.drop tok.length
    if tok == "true".toList then some (.bool true, rest)
    else if tok == "false".toList then some (.bool false, rest)
    else match integer? tok with
      | some i => some (.int i, rest)
      | none => if isFloat tok && !overflows tok then some (.float, rest) else none

/-! ### Values -/

/-- Skips blanks, line breaks and comments inside an array. -/
def skipArrayWs : Nat → List Char → Option (List Char)
  | 0, _ => none
  | fuel + 1, cs =>
    match skipWs cs with
    | '#' :: r => do skipArrayWs fuel (← skipComment r)
    | '\n' :: r => skipArrayWs fuel r
    | '\r' :: '\n' :: r => skipArrayWs fuel r
    | r => some r

mutual

/-- Reads a value. -/
def value : Nat → List Char → Option (Toml × List Char)
  | 0, _ => none
  | fuel + 1, cs =>
    match cs with
    | '"' :: '"' :: '"' :: r =>
      (multiBasicBody (r.length + 1) (dropFirstBreak r) []).map fun (s, r) => (.str s, r)
    | '"' :: r => (basicBody (r.length + 1) r []).map fun (s, r) => (.str s, r)
    | '\'' :: '\'' :: '\'' :: r =>
      (multiLiteralBody (r.length + 1) (dropFirstBreak r) []).map fun (s, r) => (.str s, r)
    | '\'' :: r => (literalBody r).map fun (s, r) => (.str s, r)
    | '[' :: r => do
      let r ← skipArrayWs (r.length + 1) r
      match r with
      | ']' :: r => pure (.array [] false, r)
      | _ => arrayItems fuel r []
    | '{' :: r =>
      match skipWs r with
      | '}' :: r => some (.table .inline [], r)
      | r => inlineMembers fuel r []
    | _ => scalar cs

/-- Reads array items after the opening bracket (blanks skipped). -/
def arrayItems : Nat → List Char → List Toml → Option (Toml × List Char)
  | 0, _, _ => none
  | fuel + 1, cs, acc => do
    let (v, r) ← value fuel cs
    let r ← skipArrayWs (r.length + 1) r
    match r with
    | ']' :: r => pure (.array (acc ++ [v]) false, r)
    | ',' :: r =>
      let r ← skipArrayWs (r.length + 1) r
      match r with
      | ']' :: r => pure (.array (acc ++ [v]) false, r)
      | _ => arrayItems fuel r (acc ++ [v])
    | _ => none

/-- Reads inline table members after the opening brace. -/
def inlineMembers : Nat → List Char → List (String × Toml) → Option (Toml × List Char)
  | 0, _, _ => none
  | fuel + 1, cs, acc => do
    let (ks, r) ← dottedKey (cs.length + 1) cs
    let r ← match skipWs r with | '=' :: r => some (skipWs r) | _ => none
    let (v, r) ← value fuel r
    let acc ← insertKey acc ks v
    match skipWs r with
    | '}' :: r => pure (.table .inline acc, r)
    | ',' :: r => inlineMembers fuel (skipWs r) acc
    | _ => none

end

/-! ### Documents -/

/-- Reads the lines of a document into the root table; `current` is the path of the table
that key/value lines go to. -/
def lines : Nat → List Char → List (String × Toml) → List String → Option (List (String × Toml))
  | 0, _, _, _ => none
  | fuel + 1, cs, root, current =>
    match skipWs cs with
    | [] => some root
    | '\n' :: r => lines fuel r root current
    | '\r' :: '\n' :: r => lines fuel r root current
    | '#' :: r => do lines fuel (← endOfLine ('#' :: r)) root current
    | '[' :: '[' :: r => do
      let (path, r) ← dottedKey (r.length + 1) r
      let r ← match skipWs r with | ']' :: ']' :: r => some r | _ => none
      let r ← endOfLine r
      lines fuel r (← openHeader root true path) path
    | '[' :: r => do
      let (path, r) ← dottedKey (r.length + 1) r
      let r ← match skipWs r with | ']' :: r => some r | _ => none
      let r ← endOfLine r
      lines fuel r (← openHeader root false path) path
    | r => do
      let (ks, r) ← dottedKey (r.length + 1) r
      let r ← match skipWs r with | '=' :: r => some (skipWs r) | _ => none
      let (v, r) ← value (r.length + 1) r
      let r ← endOfLine r
      let root ← modifyAt root (fun es => insertKey es ks v) current
      lines fuel r root current

/-- The root table of a document, or `none` when it is not valid TOML. A byte order mark
at the start is skipped. -/
def read? (text : String) : Option (List (String × Toml)) :=
  let cs := match text.toList with
    | '\uFEFF' :: r => r
    | r => r
  lines (cs.length + 1) cs [] []

end Toml

end Telemetry
