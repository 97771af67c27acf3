/-
  Blank characters: the Unicode `White_Space` property (25 code points), and trimming by it.
  Beside the ASCII blanks these are vertical tab, form feed, next line, no-break space and the
  wide spaces of Unicode.
-/

namespace Telemetry

namespace Text

/-- The Unicode `White_Space` property. -/
def isBlank (c : Char) : Bool :=
  let n := c.toNat
  (0x09 ≤ n && n ≤ 0x0d) || n == 0x20 || n == 0x85 || n == 0xa0 || n == 0x1680 ||
  (0x2000 ≤ n && n ≤ 0x200a) || n == 0x2028 || n == 0x2029 || n == 0x202f ||
  n == 0x205f || n == 0x3000

/-- Drops blank characters from both ends. -/
def trim (s : String) : String :=
  String.ofList ((s.toList.dropWhile isBlank).reverse.dropWhile isBlank).reverse

/-- Nothing but blank characters (or nothing at all). -/
def isBlankText (s : String) : Bool := s.toList.all isBlank

end Text

end Telemetry
