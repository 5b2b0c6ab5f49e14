import Conduit.Bytes
import Conduit.Text.Numeral
import Conduit.Text.Quoted

/-!
Internet addresses of both versions and their presentation texts.
-/

namespace Conduit

open Text (number? expect? hex)

/-- An Internet address of version 4. -/
structure Ipv4 where
  octets : Octets 4
  deriving DecidableEq

/-- An Internet address of version 6. -/
structure Ipv6 where
  octets : Octets 16
  deriving DecidableEq

namespace Ipv4

instance : Inhabited Ipv4 := ⟨⟨[0, 0, 0, 0], rfl⟩⟩

def ofOctets (a b c d : UInt8) : Ipv4 := ⟨[a, b, c, d], rfl⟩

def loopback : Ipv4 := ofOctets 127 0 0 1

def any : Ipv4 := ofOctets 0 0 0 0

/-- An address at the start of a text: four numerals below 256 without leading zeros. -/
def read? (cs : List Char) : Option (Ipv4 × List Char) := do
  let octet := number? 10 (some 3) 256 false
  let (a, cs) ← octet cs
  let (b, cs) ← octet (← expect? '.' cs)
  let (c, cs) ← octet (← expect? '.' cs)
  let (d, cs) ← octet (← expect? '.' cs)
  return (ofOctets a.toUInt8 b.toUInt8 c.toUInt8 d.toUInt8, cs)

/-- The address that a whole text presents. -/
def ofText? (s : String) : Option Ipv4 :=
  match read? s.toList with
  | some (ip, []) => some ip
  | _ => none

def text (ip : Ipv4) : String := ".".intercalate (ip.octets.val.map (toString ·.toNat))

end Ipv4

namespace Ipv6

/-- The two bytes of a group. -/
def groupBytes (g : Nat) : Bytes := [(g / 256).toUInt8, (g % 256).toUInt8]

/-- The address of eight groups. -/
def ofGroups? (gs : List Nat) : Option Ipv6 :=
  if h : (gs.flatMap groupBytes).length = 16 then some ⟨gs.flatMap groupBytes, h⟩ else none

/-- The 16-bit numbers that a byte string holds, high byte first. -/
def pairUp : Bytes → List Nat
  | high :: low :: rest => (high.toNat * 256 + low.toNat) :: pairUp rest
  | _ => []

/-- The eight groups of an address. -/
def groups (ip : Ipv6) : List Nat := pairUp ip.octets.val

instance : Inhabited Ipv6 := ⟨⟨List.replicate 16 0, rfl⟩⟩

def any : Ipv6 := ⟨List.replicate 16 0, rfl⟩

def loopback : Ipv6 := ⟨List.replicate 15 0 ++ [1], rfl⟩

/-- Groups at the start of a text, at most `room` of them, separated by colons. Where two groups still
fit, a version 4 address may stand for the last two; the flag tells whether one did. -/
def readGroups : Nat → Bool → List Char → List Nat × Bool × List Char
  | 0, _, cs => ([], false, cs)
  | room + 1, isFirst, cs =>
    match if isFirst then some cs else expect? ':' cs with
    | none => ([], false, cs)
    | some body =>
      match if room = 0 then none else Ipv4.read? body with
      | some (ip, rest) => (pairUp ip.octets.val, true, rest)
      | none =>
        match number? 16 (some 4) 65536 true body with
        | none => ([], false, cs)
        | some (g, rest) =>
          let (gs, embedded, rest) := readGroups room false rest
          (g :: gs, embedded, rest)

/-- An address at the start of a text: eight groups, or fewer around a double colon, which stands for
at least one group of zeros. -/
def read? (cs : List Char) : Option (Ipv6 × List Char) := do
  let (head, embedded, rest) := readGroups 8 true cs
  if head.length = 8 then
    return (← ofGroups? head, rest)
  if embedded then none
  let rest ← expect? ':' (← expect? ':' rest)
  let (tail, _, rest) := readGroups (7 - head.length) true rest
  let gap := List.replicate (8 - head.length - tail.length) 0
  return (← ofGroups? (head ++ gap ++ tail), rest)

/-- The address that a whole text presents. -/
def ofText? (s : String) : Option Ipv6 :=
  match read? s.toList with
  | some (ip, []) => some ip
  | _ => none

/-- Start and length of the longest run of zero groups, the first one of several. `i` is the index of
the list's head, `run` the length of the run that ends before it. -/
def longestRun : Nat → Nat → Nat × Nat → List Nat → Nat × Nat
  | _, _, best, [] => best
  | i, run, best, g :: gs =>
    let run := if g = 0 then run + 1 else 0
    longestRun (i + 1) run (if best.2 < run then (i + 1 - run, run) else best) gs

def joinGroups (gs : List Nat) : String := ":".intercalate (gs.map hex)

/-- The version 4 address inside a mapped one. -/
def mapped? (ip : Ipv6) : Option Ipv4 :=
  match ip.octets.val with
  | [0, 0, 0, 0, 0, 0, 0, 0, 0, 0, 255, 255, a, b, c, d] => some (Ipv4.ofOctets a b c d)
  | _ => none

/-- Groups in hexadecimal; the longest run of two or more zero groups becomes a double colon. -/
def text (ip : Ipv6) : String :=
  match ip.mapped? with
  | some v4 => "::ffff:" ++ v4.text
  | none =>
    let (start, run) := longestRun 0 0 (0, 0) ip.groups
    if 1 < run then
      joinGroups (ip.groups.take start) ++ "::" ++ joinGroups (ip.groups.drop (start + run))
    else joinGroups ip.groups

end Ipv6

/-- Addresses compare byte by byte, the first byte first. -/
def compareOctets : Bytes → Bytes → Ordering
  | [], [] => .eq
  | [], _ :: _ => .lt
  | _ :: _, [] => .gt
  | a :: as, b :: bs => (compare a b).then (compareOctets as bs)

end Conduit
