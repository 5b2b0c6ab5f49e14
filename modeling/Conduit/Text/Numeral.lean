/-!
Unsigned numerals in texts, and the white space around them.
-/

namespace Conduit.Text

/-- The value of a digit in a base up to sixteen. -/
def digit? (base : Nat) (c : Char) : Option Nat :=
  let value? :=
    if '0' ≤ c ∧ c ≤ '9' then some (c.toNat - '0'.toNat)
    else if 'a' ≤ c ∧ c ≤ 'f' then some (c.toNat - 'a'.toNat + 10)
    else if 'A' ≤ c ∧ c ≤ 'F' then some (c.toNat - 'A'.toNat + 10)
    else none
  value?.filter (· < base)

/-- The digits at the start of a text and what follows them. -/
def spanDigits (base : Nat) : List Char → List Nat × List Char
  | [] => ([], [])
  | c :: rest =>
    match digit? base c with
    | some d => let (ds, after) := spanDigits base rest; (d :: ds, after)
    | none => ([], c :: rest)

/-- The number that digits spell. -/
def ofDigits (base : Nat) (ds : List Nat) : Nat := ds.foldl (fun n d => n * base + d) 0

/-- A numeral at the start of a text: at most `width` digits where that is given, below `bound`, and
with a leading zero only where that is allowed. -/
def number? (base : Nat) (width : Option Nat) (bound : Nat) (zeroLed : Bool) (cs : List Char) :
    Option (Nat × List Char) :=
  let (ds, rest) := spanDigits base cs
  match ds with
  | [] => none
  | d :: more =>
    if width.any (· < ds.length) || (!zeroLed && d = 0 && !more.isEmpty) then none
    else if ofDigits base ds < bound then some (ofDigits base ds, rest) else none

/-- What follows a given first character. -/
def expect? (c : Char) : List Char → Option (List Char)
  | d :: rest => if d = c then some rest else none
  | [] => none

/-- An unsigned 64-bit number: a whole text of digits, perhaps after a plus sign. -/
def word? (s : String) : Option Nat :=
  let body :=
    match s.toList with
    | '+' :: rest => rest
    | cs => cs
  match spanDigits 10 body with
  | (d :: ds, []) => some (ofDigits 10 (d :: ds)) |>.filter (· < 1 <<< 64)
  | _ => none

/-- White space in the sense of Unicode. -/
def isBlank (c : Char) : Bool :=
  let n := c.toNat
  (9 ≤ n && n ≤ 13) || n = 0x20 || n = 0x85 || n = 0xa0 || n = 0x1680 ||
    (0x2000 ≤ n && n ≤ 0x200a) || n = 0x2028 || n = 0x2029 || n = 0x202f || n = 0x205f || n = 0x3000

/-- A text without the white space at both ends. -/
def trimBlank (s : String) : String :=
  String.ofList ((s.toList.dropWhile isBlank).reverse.dropWhile isBlank).reverse

end Conduit.Text
