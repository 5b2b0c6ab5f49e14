import Conduit.Address.Ip
import Conduit.Address.Path
import Conduit.Family

/-!
Socket addresses: an Internet endpoint of either version or a local path, with their texts.
-/

namespace Conduit

/-- Where a socket can be reached. -/
inductive Address where
  | inet4 (ip : Ipv4) (port : UInt16)
  | inet6 (ip : Ipv6) (port : UInt16) (flow scope : UInt32)
  | unix (path : UnixPath)
  deriving DecidableEq

namespace Address

instance : Inhabited Address := ⟨.unix .unnamed⟩

def family : Address → Family
  | inet4 .. => .inet4
  | inet6 .. => .inet6
  | unix _ => .unix

def port? : Address → Option UInt16
  | inet4 _ port | inet6 _ port _ _ => some port
  | unix _ => none

/-- Equality of addresses; paths compare by their components. -/
def Same : Address → Address → Prop
  | unix p, unix q => p.Same q
  | a, b => a = b

instance : (a b : Address) → Decidable (a.Same b)
  | .unix p, .unix q => inferInstanceAs (Decidable (p.Same q))
  | .unix p, .inet4 i o => inferInstanceAs (Decidable (unix p = inet4 i o))
  | .unix p, .inet6 i o f s => inferInstanceAs (Decidable (unix p = inet6 i o f s))
  | .inet4 i o, b => inferInstanceAs (Decidable (inet4 i o = b))
  | .inet6 i o f s, b => inferInstanceAs (Decidable (inet6 i o f s = b))

/-- The text that shows an address, with its port as `port` writes it; it leaves out flow and
scope. -/
def textWith (port : UInt16 → String) : Address → String
  | inet4 ip p => ip.text ++ ":" ++ port p
  | inet6 ip p _ _ => "[" ++ ip.text ++ "]:" ++ port p
  | unix p => if p.isUnnamed then "unix:(unnamed)" else "unix:" ++ p.text

/-- The number of a port. -/
def portText (port : UInt16) : String := toString port.toNat

/-- The text that shows an address. -/
def text (a : Address) : String := a.textWith portText

/-- The text of an Internet endpoint, with the scope where it is not zero. -/
def endpointText? : Address → Option String
  | inet4 ip port => some (ip.text ++ ":" ++ toString port.toNat)
  | inet6 ip port _ scope =>
    let zone := if scope = 0 then "" else "%" ++ toString scope.toNat
    some ("[" ++ ip.text ++ zone ++ "]:" ++ toString port.toNat)
  | unix _ => none

/-- The description of an address with all its fields, with its port as `port` writes it. -/
def describeWith (port : UInt16 → String) : Address → String
  | inet4 ip p =>
    "Inet4(Inet4SocketAddress \x7b address: Inet4Address(" ++ ip.text ++ "), port: " ++ port p ++
      " \x7d)"
  | inet6 ip p flow scope =>
    "Inet6(Inet6SocketAddress \x7b address: Inet6Address(" ++ ip.text ++ "), port: " ++ port p ++
      ", flow_info: " ++ toString flow.toNat ++ ", scope_id: " ++ toString scope.toNat ++ " \x7d)"
  | unix p => "Unix(UnixSocketAddress \x7b path: " ++ Text.quoteRaw p.bytes ++ " \x7d)"

end Address

end Conduit
