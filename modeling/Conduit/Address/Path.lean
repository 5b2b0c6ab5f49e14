import Conduit.Bytes
import Conduit.Text.Utf8

/-!
Paths that name local sockets: short byte strings without a zero byte, compared by components.
-/

namespace Conduit

/-- The room that a socket name has for a path and its terminator. -/
def unixPathRoom : Nat := 108

/-- A path that fits into a socket name; the empty one stands for an unnamed socket. -/
structure UnixPath where
  bytes : Bytes
  no_zero : 0 ∉ bytes
  short : bytes.length < unixPathRoom
  deriving DecidableEq

namespace UnixPath

def unnamed : UnixPath := ⟨[], by simp, by decide⟩

instance : Inhabited UnixPath := ⟨unnamed⟩

def ofBytes? (bytes : Bytes) : Option UnixPath :=
  if h : 0 ∉ bytes ∧ bytes.length < unixPathRoom then some ⟨bytes, h.1, h.2⟩ else none

def ofString? (s : String) : Option UnixPath := ofBytes? (Bytes.ofString s)

def isUnnamed (p : UnixPath) : Bool := p.bytes.isEmpty

def text (p : UnixPath) : String := Utf8.toText p.bytes

/-- The parts of a byte string between slashes. -/
def splitSlash : Bytes → List Bytes
  | [] => [[]]
  | b :: rest =>
    if b = 47 then [] :: splitSlash rest
    else
      match splitSlash rest with
      | part :: parts => (b :: part) :: parts
      | [] => [[b]]

/-- What a path goes through, besides its root: names, and a dot only where the path starts with it. -/
structure Components where
  rooted : Bool
  names : List Bytes
  deriving DecidableEq

/-- The components of a path. Empty parts do not count, and a dot counts only at the start of a path
without a root. -/
def components (p : UnixPath) : Components :=
  let rooted := p.bytes.head? = some 47
  match splitSlash p.bytes with
  | [] => { rooted, names := [] }
  | part :: parts =>
    let keep := parts.filter fun x => x ≠ [] ∧ x ≠ [46]
    { rooted, names := if part = [] then keep else part :: keep }

/-- Two paths name the same place if they have the same components. -/
def Same (p q : UnixPath) : Prop := p.components = q.components

instance (p q : UnixPath) : Decidable (p.Same q) := inferInstanceAs (Decidable (_ = _))

end UnixPath

end Conduit
