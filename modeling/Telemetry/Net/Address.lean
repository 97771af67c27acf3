/-
  IP addresses and networks.

  An IPv4 address is four decimal octets of at most three digits, no leading zero.
  An IPv6 address is eight hexadecimal groups of one to four digits, where one `::` may
  stand for one or more zero groups and the last two groups may be written as an IPv4
  address. It is written back with the longest run of two or more zero groups (the first of
  equals) as `::`, in lower case, and an IPv4-mapped address as `::ffff:a.b.c.d`.

  A network is an address and a prefix length, written `addr/len`, or a bare address meaning
  the full length; an IPv4 network may give a mask of contiguous ones instead of the length. It contains the addresses of
  its family that agree with its address on the first `len` bits.
-/

namespace Telemetry

/-- An IP address as its bits: 32 for version 4, 128 for version 6. -/
inductive IpAddr where
  | v4 (bits : Nat)
  | v6 (bits : Nat)
  deriving DecidableEq, Repr

namespace IpAddr

/-- Value of a run of digits in a base. -/
def digitsValue (base : Nat) (cs : List Char) : Nat :=
  cs.foldl (fun acc c => acc * base + (if c.isDigit then c.toNat - '0'.toNat
    else if 'a' ≤ c && c ≤ 'f' then c.toNat - 'a'.toNat + 10 else c.toNat - 'A'.toNat + 10)) 0

/-- A hexadecimal digit. -/
def isHex (c : Char) : Bool := c.isDigit || ('a' ≤ c && c ≤ 'f') || ('A' ≤ c && c ≤ 'F')

/-- Reads one octet: the value and the rest. -/
def octet (cs : List Char) : Option (Nat × List Char) :=
  let ds := (cs.takeWhile Char.isDigit).take 3
  match ds with
  | [] => none
  | d :: more =>
    if d == '0' && !more.isEmpty then none
    else
      let v := digitsValue 10 ds
      if v > 255 then none else some (v, cs.drop ds.length)

/-- Reads a dotted IPv4 address at the front: its bits and the rest. -/
def v4Prefix (cs : List Char) : Option (Nat × List Char) := do
  let (a, cs) ← octet cs
  let cs ← match cs with | '.' :: r => some r | _ => none
  let (b, cs) ← octet cs
  let cs ← match cs with | '.' :: r => some r | _ => none
  let (c, cs) ← octet cs
  let cs ← match cs with | '.' :: r => some r | _ => none
  let (d, cs) ← octet cs
  pure (((a * 256 + b) * 256 + c) * 256 + d, cs)

/-- Reads a whole IPv4 address. -/
def readV4 (s : String) : Option Nat :=
  match v4Prefix s.toList with
  | some (v, []) => some v
  | _ => none

/-- Reads one group of up to four hexadecimal digits. -/
def group (cs : List Char) : Option (Nat × List Char) :=
  let ds := (cs.takeWhile isHex).take 4
  if ds.isEmpty then none else some (digitsValue 16 ds, cs.drop ds.length)

/-- Reads up to `limit` colon-separated groups, the last two possibly as IPv4: the groups,
whether IPv4 ended them, and the rest. -/
def groups : Nat → Nat → List Char → List Nat × Bool × List Char
  | 0, _, cs => ([], false, cs)
  | fuel + 1, i, cs =>
    let sep : Option (List Char) := if i == 0 then some cs else
      match cs with | ':' :: r => some r | _ => none
    match sep with
    | none => ([], false, cs)
    | some body =>
      -- an IPv4 tail needs two groups: this one and at least one more
      let v4 := if fuel ≥ 1 then v4Prefix body else none
      match v4 with
      | some (v, rest) => ([v / 65536, v % 65536], true, rest)
      | none =>
        match group body with
        | none => ([], false, cs)
        | some (g, rest) =>
          let (gs, ended, rest) := groups fuel (i + 1) rest
          (g :: gs, ended, rest)

/-- Reads a whole IPv6 address. -/
def readV6 (s : String) : Option Nat := do
  let (head, headV4, rest) := groups 8 0 s.toList
  let gs ← if head.length == 8 then
      if rest.isEmpty then some head else none
    else if headV4 then none
    else
      match rest with
      | ':' :: ':' :: r =>
        let (tail, _, rest) := groups (8 - (head.length + 1)) 0 r
        if !rest.isEmpty then none
        else some (head ++ List.replicate (8 - head.length - tail.length) 0 ++ tail)
      | _ => none
  pure (gs.foldl (fun acc g => acc * 65536 + g) 0)

/-- Reads an address of either family. -/
def read? (s : String) : Option IpAddr :=
  match readV4 s with
  | some v => some (.v4 v)
  | none => (readV6 s).map .v6

/-- Dotted text of 32 bits. -/
def v4Text (v : Nat) : String :=
  ".".intercalate ([24, 16, 8, 0].map fun s => toString (v / Nat.pow 2 s % 256))

/-- Lower-case hexadecimal of a group. -/
def hexText (n : Nat) : String :=
  String.ofList (Nat.toDigits 16 n)

/-- The first longest run of zero groups: start and length. -/
def zeroRun (gs : List Nat) : Nat × Nat :=
  let step (acc : (Nat × Nat) × (Nat × Nat)) (gi : Nat × Nat) :=
    let (best, cur) := acc
    let (g, i) := gi
    if g == 0 then
      let cur := if cur.2 == 0 then (i, 1) else (cur.1, cur.2 + 1)
      (if cur.2 > best.2 then cur else best, cur)
    else (best, (0, 0))
  (gs.zipIdx.foldl step ((0, 0), (0, 0))).1

/-- Text of 128 bits. -/
def v6Text (v : Nat) : String :=
  let gs := (List.range 8).map fun i => v / Nat.pow 2 (16 * (7 - i)) % 65536
  if gs.take 5 == [0, 0, 0, 0, 0] && gs[5]? == some 65535 then
    "::ffff:" ++ v4Text (v % Nat.pow 2 32)
  else
    let (start, len) := zeroRun gs
    let part (xs : List Nat) := ":".intercalate (xs.map hexText)
    if len > 1 then part (gs.take start) ++ "::" ++ part (gs.drop (start + len))
    else part gs

/-- An address as text. -/
def text : IpAddr → String
  | v4 v => v4Text v
  | v6 v => v6Text v

end IpAddr

/-- An address with a prefix length. -/
structure IpNetwork where
  addr : IpAddr
  prefixLen : Nat
  deriving DecidableEq, Repr

namespace IpNetwork

/-- The prefix length of a contiguous mask of `width` bits. -/
def maskLength (width mask : Nat) : Option Nat :=
  let ones := ((List.range width).takeWhile fun i => mask / Nat.pow 2 (width - 1 - i) % 2 == 1).length
  if mask == (Nat.pow 2 ones - 1) * Nat.pow 2 (width - ones) then some ones else none

/-- Reads a prefix length: an unsigned byte in decimal, with an optional `+`. -/
def prefixLength? (s : String) : Option Nat :=
  let ds := match s.toList with | '+' :: r => r | r => r
  if ds.isEmpty || !ds.all Char.isDigit then none
  else
    let v := IpAddr.digitsValue 10 ds
    if v > 255 then none else some v

/-- Reads the part after the slash: a prefix length at most `width`, or, where `mask?`
reads one, a mask of contiguous ones. -/
def prefixOf (width : Nat) (mask? : String → Option Nat) (s : String) : Option Nat :=
  match prefixLength? s with
  | some v => if v > width then none else some v
  | none => (mask? s).bind (maskLength width)

/-- Reads a network of one family. -/
def readFamily (width : Nat) (read mask? : String → Option Nat) (mk : Nat → IpAddr)
    (s : String) : Option IpNetwork :=
  match s.splitOn "/" with
  | [a] => (read a).map fun v => ⟨mk v, width⟩
  | [a, p] => do
    let v ← read a
    let n ← prefixOf width mask? p
    pure ⟨mk v, n⟩
  | _ => none

/-- Reads `addr[/len]`, IPv4 first; an IPv4 network may also be written `addr/mask`. -/
def read? (s : String) : Option IpNetwork :=
  match readFamily 32 IpAddr.readV4 IpAddr.readV4 .v4 s with
  | some n => some n
  | none => readFamily 128 IpAddr.readV6 (fun _ => none) .v6 s

/-- Written as `addr/len`. -/
def text (n : IpNetwork) : String := n.addr.text ++ "/" ++ toString n.prefixLen

/-- The network holds the address: same family, same first `len` bits. -/
def contains (n : IpNetwork) (a : IpAddr) : Bool :=
  match n.addr, a with
  | .v4 x, .v4 y => x / Nat.pow 2 (32 - n.prefixLen) == y / Nat.pow 2 (32 - n.prefixLen)
  | .v6 x, .v6 y => x / Nat.pow 2 (128 - n.prefixLen) == y / Nat.pow 2 (128 - n.prefixLen)
  | _, _ => false

end IpNetwork

end Telemetry
