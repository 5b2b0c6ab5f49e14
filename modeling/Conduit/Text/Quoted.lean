import Conduit.Bytes
import Conduit.Text.Hidden
import Conduit.Text.Utf8

/-!
Quoted forms of texts and byte strings, as descriptions show them.
-/

namespace Conduit.Text

/-- A number in lower-case hexadecimal, without leading zeros. -/
def hex (n : Nat) : String := String.ofList (Nat.toDigits 16 n)

/-- One character inside double quotes. -/
def quoteChar (c : Char) : String :=
  if c = '\x00' then "\\0"
  else if c = '\t' then "\\t"
  else if c = '\r' then "\\r"
  else if c = '\n' then "\\n"
  else if c = '"' || c = '\\' then "\\" ++ c.toString
  else if c.toNat < 0x20 || c.toNat = 0x7f || (0x7f < c.toNat && isHidden c) then
    "\\u\x7b" ++ hex c.toNat ++ "\x7d"
  else c.toString

/-- A text between double quotes. -/
def quote (s : String) : String := "\"" ++ String.join (s.toList.map quoteChar) ++ "\""

/-- A byte that belongs to no character, inside double quotes. -/
def quoteStray (b : UInt8) : String := "\\x" ++ (if b < 16 then "0" else "") ++ (hex b.toNat).toUpper

def quotePiece : Utf8.Piece → String
  | .char c => quoteChar c
  | .broken part => String.join (part.map quoteStray)

/-- A text between double quotes, of which only the bytes are known. -/
def quoteRaw (raw : Bytes) : String :=
  "\"" ++ String.join ((Utf8.pieces raw).map quotePiece) ++ "\""

/-- One byte inside a quoted byte string: printable ASCII as it is. -/
def quoteByte (b : UInt8) : String :=
  if b = 0 then "\\0"
  else if b = 9 then "\\t"
  else if b = 13 then "\\r"
  else if b = 10 then "\\n"
  else if b = 34 || b = 92 then "\\" ++ (Char.ofNat b.toNat).toString
  else if 0x20 ≤ b && b < 0x7f then (Char.ofNat b.toNat).toString
  else "\\x" ++ (if b < 16 then "0" else "") ++ hex b.toNat

/-- A byte string between double quotes, marked as bytes. -/
def quoteBytes (raw : Bytes) : String := "b\"" ++ String.join (raw.map quoteByte) ++ "\""

end Conduit.Text
