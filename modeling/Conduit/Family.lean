import Conduit.Socket.Fault

/-!
Address families and socket types, with the numbers that the system gives them.
-/

namespace Conduit

/-- A socket type by its number; any number may be asked for. -/
structure SocketType where
  number : Int32
  deriving DecidableEq

namespace SocketType

def stream : SocketType := ⟨1⟩
def datagram : SocketType := ⟨2⟩
def seqPacket : SocketType := ⟨5⟩

instance : Inhabited SocketType := ⟨stream⟩

end SocketType

inductive Family where
  | inet4
  | inet6
  | unix
  deriving DecidableEq, Inhabited

namespace Family

/-- The number of a family, which also tags its socket names. -/
def number : Family → Int32
  | unix => 1
  | inet4 => 2
  | inet6 => 10

def ofNumber? (n : Int32) : Option Family :=
  if n = 1 then some unix
  else if n = 2 then some inet4
  else if n = 10 then some inet6
  else none

def name : Family → String
  | inet4 => "inet4"
  | inet6 => "inet6"
  | unix => "unix"

/-- Whether a family offers a socket type. -/
def Supports (f : Family) (t : SocketType) : Prop :=
  t = .stream ∨ t = .datagram ∨ (f = unix ∧ t = .seqPacket)

instance (f : Family) (t : SocketType) : Decidable (f.Supports t) :=
  inferInstanceAs (Decidable (_ ∨ _))

/-- What creating a descriptor comes to before the system is asked: a type that the family does not
offer is refused as the wrong protocol type. -/
def checkType (f : Family) (t : SocketType) : Except Socket.Fault Unit :=
  if f.Supports t then .ok () else .error (.ofOs .create (.number 91))

end Family

end Conduit
