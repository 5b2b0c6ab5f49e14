import Conduit.Address.Basic

/-!
Internet endpoints read from their texts: an address and a port, the address of version 6 in
brackets and perhaps with a scope.
-/

namespace Conduit.Address

open Text (number? expect?)

/-- A port behind its colon. -/
def readPort? (cs : List Char) : Option (UInt16 × List Char) := do
  let (n, rest) ← number? 10 none 65536 true (← expect? ':' cs)
  return (n.toUInt16, rest)

/-- A scope behind its percent sign; none counts as zero. -/
def readScope (cs : List Char) : UInt32 × List Char :=
  match (expect? '%' cs).bind (number? 10 none (1 <<< 32) true) with
  | some (n, rest) => (n.toUInt32, rest)
  | none => (0, cs)

def readInet4? (cs : List Char) : Option (Address × List Char) := do
  let (ip, rest) ← Ipv4.read? cs
  let (port, rest) ← readPort? rest
  return (inet4 ip port, rest)

def readInet6? (cs : List Char) : Option (Address × List Char) := do
  let (ip, rest) ← Ipv6.read? (← expect? '[' cs)
  let (scope, rest) := readScope rest
  let (port, rest) ← readPort? (← expect? ']' rest)
  return (inet6 ip port 0 scope, rest)

/-- The endpoint that a whole text presents. -/
def ofEndpointText? (s : String) : Option Address :=
  match (readInet4? s.toList).orElse fun _ => readInet6? s.toList with
  | some (a, []) => some a
  | _ => none

end Conduit.Address
