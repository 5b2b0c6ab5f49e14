import Conduit.Bytes

/-!
UTF-8 read from raw bytes. One scan cuts the bytes into characters and broken parts, each of which is
as long as the beginning of a character can be. The strict reading has no broken part; the lenient
one shows the replacement character for each of them.
-/

namespace Conduit.Utf8

/-- A byte that only continues a sequence. -/
def isTail (b : UInt8) : Bool := 0x80 ≤ b && b ≤ 0xbf

def lowBits (b : UInt8) : Nat := b.toNat % 64

/-- The length of a sequence by its first byte; zero for a byte that starts none. -/
def width (a : UInt8) : Nat :=
  if a < 0x80 then 1
  else if 0xc2 ≤ a && a ≤ 0xdf then 2
  else if 0xe0 ≤ a && a ≤ 0xef then 3
  else if 0xf0 ≤ a && a ≤ 0xf4 then 4
  else 0

/-- Whether a byte can come second. What is overlong, a surrogate or beyond the last code point
shows here. -/
def follows (a b : UInt8) : Bool :=
  isTail b && (a != 0xe0 || 0xa0 ≤ b) && (a != 0xed || b ≤ 0x9f) &&
    (a != 0xf0 || 0x90 ≤ b) && (a != 0xf4 || b ≤ 0x8f)

/-- The bytes that continue what a first byte starts. -/
def tails (a : UInt8) : Bytes → Bytes
  | [] => []
  | b :: rest =>
    if 2 ≤ width a && follows a b then b :: (rest.take (width a - 2)).takeWhile isTail else []

/-- The bits of a first byte that belong to its character. -/
def headBits (a : UInt8) : Nat :=
  match width a with
  | 2 => a.toNat % 32
  | 3 => a.toNat % 16
  | 4 => a.toNat % 8
  | _ => a.toNat

/-- The character of a sequence. -/
def charOf (a : UInt8) (tail : Bytes) : Char :=
  Char.ofNat (tail.foldl (fun n b => n * 64 + lowBits b) (headBits a))

/-- A part of a byte string: a character, or bytes that no character goes on with. -/
inductive Piece where
  | char (c : Char)
  | broken (part : Bytes)
  deriving DecidableEq

def Piece.isChar : Piece → Bool
  | char _ => true
  | broken _ => false

/-- The replacement character stands for what is broken. -/
def Piece.shown : Piece → Char
  | char c => c
  | broken _ => '\ufffd'

/-- The piece that a byte starts. -/
def piece (a : UInt8) (rest : Bytes) : Piece :=
  let tail := tails a rest
  if tail.length + 1 = width a then .char (charOf a tail) else .broken (a :: tail)

/-- The pieces found after skipping some bytes, which belong to a piece already read. -/
def piecesFrom : Nat → Bytes → List Piece
  | _, [] => []
  | skip + 1, _ :: rest => piecesFrom skip rest
  | 0, a :: rest => piece a rest :: piecesFrom (tails a rest).length rest

def pieces (raw : Bytes) : List Piece := piecesFrom 0 raw

/-- Whether the bytes are well-formed UTF-8. -/
def isValid (raw : Bytes) : Bool := (pieces raw).all Piece.isChar

/-- The text of the bytes, with replacement characters where they are malformed. -/
def toText (raw : Bytes) : String := String.ofList ((pieces raw).map Piece.shown)

/-- The text of well-formed bytes. -/
def toText? (raw : Bytes) : Option String := if isValid raw then some (toText raw) else none

/-- Of the euro sign cut short one part is left, and two of an overlong slash. -/
example : pieces [0xe2, 0x82, 0x2f, 0xc0, 0xaf] =
    [.broken [0xe2, 0x82], .char '/', .broken [0xc0], .broken [0xaf]] := by decide

end Conduit.Utf8
