import Conduit.Bytes
import Conduit.Text.Quoted

/-!
Socket options: a level, a name and a value, given as a number or as raw bytes.
-/

namespace Conduit

inductive OptionValue where
  | int (n : Int32)
  | raw (bytes : Bytes)
  deriving DecidableEq, Inhabited

structure SocketOption where
  level : Int32
  name : Int32
  value : OptionValue
  deriving DecidableEq, Inhabited

namespace SocketOption

/-- The bytes of a number as the system takes it. -/
def encodeInt (n : Int32) : Bytes := Bytes.ofUInt32LE n.toUInt32

/-- The number that a value starts with. -/
def decodeInt? (bytes : Bytes) : Option Int32 := (bytes.readUInt32LE? 0).map (·.toInt32)

def int (level name n : Int32) : SocketOption := { level, name, value := .int n }

def raw (level name : Int32) (bytes : Bytes) : SocketOption := { level, name, value := .raw bytes }

/-- Lets an address be bound again at once. -/
def reuseAddress : SocketOption := int 1 2 1

/-- The bytes handed to the system. -/
def payload (o : SocketOption) : Bytes :=
  match o.value with
  | .int n => encodeInt n
  | .raw bytes => bytes

/-- The number that an option sets, where its value is one. Bytes are one if they are as many as a
number takes. -/
def intValue? (o : SocketOption) : Option Int32 :=
  match o.value with
  | .int n => some n
  | .raw bytes => if bytes.length = 4 then decodeInt? bytes else none

/-- The description of an option. -/
def describe (o : SocketOption) : String :=
  let value := match o.value with
    | .int n => "Int(" ++ toString n.toInt ++ ")"
    | .raw bytes => "Raw(" ++ Text.quoteBytes bytes ++ ")"
  "SocketOption \x7b level: " ++ toString o.level.toInt ++ ", name: " ++ toString o.name.toInt ++
    ", value: " ++ value ++ " \x7d"

end SocketOption

end Conduit
