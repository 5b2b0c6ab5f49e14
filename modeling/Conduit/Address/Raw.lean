import Conduit.Address.Basic

/-!
Socket names as the system stores them: two bytes of family tag, then the fields of the family at
fixed places. A local path ends with a zero byte; an unnamed socket has the tag alone.
-/

namespace Conduit

/-- The tag that opens a socket name. -/
def Family.tag (f : Family) : Bytes := Bytes.ofUInt16LE f.number.toUInt32.toUInt16

namespace Address

/-- The number of bytes in an address's socket name. -/
def rawLength : Address → Nat
  | inet4 .. => 16
  | inet6 .. => 28
  | unix p => if p.isUnnamed then 2 else 2 + p.bytes.length + 1

/-- The socket name of an address. -/
def toRaw (a : Address) : Bytes :=
  a.family.tag ++
    match a with
    | inet4 ip port => Bytes.ofUInt16BE port ++ ip.octets.val ++ List.replicate 8 0
    | inet6 ip port flow scope =>
      Bytes.ofUInt16BE port ++ Bytes.ofUInt32LE flow ++ ip.octets.val ++ Bytes.ofUInt32LE scope
    | unix p => if p.isUnnamed then [] else p.bytes ++ [0]

/-- The path in the bytes behind a family tag: up to the first zero byte, and in UTF-8. -/
def unixOfRaw? (body : Bytes) : Option Address :=
  let path := body.takeWhile (· ≠ 0)
  if path = [] then some (unix .unnamed)
  else if Utf8.isValid path then (UnixPath.ofBytes? path).map unix
  else none

/-- The address of a family that a socket name holds. A name of version 4 may be cut behind the
address, one of version 6 must be whole; bytes behind the last field do not count. -/
def ofRaw? (f : Family) (raw : Bytes) : Option Address := do
  let tag ← raw.readUInt16LE? 0
  if tag.toNat ≠ f.number.toInt.toNat then none
  match f with
  | .inet4 =>
    let port ← raw.readUInt16BE? 2
    let octets ← raw.slice? 4 4
    return inet4 ⟨octets⟩ port
  | .inet6 =>
    if raw.length < 28 then none
    let port ← raw.readUInt16BE? 2
    let flow ← raw.readUInt32LE? 4
    let octets ← raw.slice? 8 16
    let scope ← raw.readUInt32LE? 24
    return inet6 ⟨octets⟩ port flow scope
  | .unix => unixOfRaw? (raw.drop 2)

end Address

end Conduit
