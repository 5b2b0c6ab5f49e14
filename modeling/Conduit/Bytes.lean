/-!
Byte strings and the fixed-width integers inside them: ports in network order, everything else in
the little-endian order of the machine.
-/

namespace Conduit

/-- A byte string. -/
abbrev Bytes := List UInt8

/-- A byte string of a fixed length. -/
abbrev Octets (n : Nat) := { bytes : Bytes // bytes.length = n }

namespace Bytes

/-- The `n` bytes at offset `i`, if there are that many. -/
def slice? (raw : Bytes) (i n : Nat) : Option (Octets n) :=
  let part := (raw.drop i).take n
  if h : part.length = n then some ⟨part, h⟩ else none

/-- A 16-bit number, high byte first. -/
def ofUInt16BE (x : UInt16) : Bytes := [(x >>> 8).toUInt8, x.toUInt8]

/-- The number that two bytes spell, high byte first. -/
def toUInt16BE (high low : UInt8) : UInt16 := (high.toUInt16 <<< 8) ||| low.toUInt16

/-- A 16-bit number, low byte first. -/
def ofUInt16LE (x : UInt16) : Bytes := [x.toUInt8, (x >>> 8).toUInt8]

/-- A 32-bit number, low byte first. -/
def ofUInt32LE (x : UInt32) : Bytes :=
  [x.toUInt8, (x >>> 8).toUInt8, (x >>> 16).toUInt8, (x >>> 24).toUInt8]

/-- The number that four bytes spell, low byte first. -/
def toUInt32LE (a b c d : UInt8) : UInt32 :=
  a.toUInt32 ||| (b.toUInt32 <<< 8) ||| (c.toUInt32 <<< 16) ||| (d.toUInt32 <<< 24)

/-- The 16-bit number stored high byte first at offset `i`. -/
def readUInt16BE? (raw : Bytes) (i : Nat) : Option UInt16 :=
  match raw.drop i with
  | high :: low :: _ => some (toUInt16BE high low)
  | _ => none

/-- The 16-bit number stored low byte first at offset `i`. -/
def readUInt16LE? (raw : Bytes) (i : Nat) : Option UInt16 :=
  match raw.drop i with
  | low :: high :: _ => some (toUInt16BE high low)
  | _ => none

/-- The 32-bit number stored low byte first at offset `i`. -/
def readUInt32LE? (raw : Bytes) (i : Nat) : Option UInt32 :=
  match raw.drop i with
  | a :: b :: c :: d :: _ => some (toUInt32LE a b c d)
  | _ => none

/-- A number in `k` bytes, low byte first. -/
def ofNatLE : Nat → Nat → Bytes
  | 0, _ => []
  | k + 1, n => n.toUInt8 :: ofNatLE k (n / 256)

/-- The number that bytes spell, low byte first. -/
def toNatLE : Bytes → Nat
  | [] => 0
  | b :: rest => b.toNat + 256 * toNatLE rest

/-- The UTF-8 bytes of a text. -/
def ofString (s : String) : Bytes := s.toUTF8.toList

end Bytes

end Conduit
