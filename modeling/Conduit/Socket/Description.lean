import Conduit.Socket.Sockets

/-!
Texts that show sockets and their addresses. A port that the system has chosen is shown by a name,
`p1`, `p2` and so on in the order in which answers first show them, so that the texts of a script
are the same whichever ports the system chooses.
-/

namespace Conduit.Socket

open Kernel (System)

namespace Sockets

variable (s : Sockets)

/-- An address is about to be shown: a chosen port gets its name. -/
def note (a : Address) : Sockets :=
  match a.port? with
  | none => s
  | some p =>
    if s.system.chosen.contains p && !s.shown.contains p then { s with shown := s.shown ++ [p] }
    else s

def portText (p : UInt16) : String :=
  match s.shown.idxOf? p with
  | some i => "p" ++ toString (i + 1)
  | none => Address.portText p

/-- The text that shows an address. -/
def present (a : Address) : Sockets × String :=
  let t := s.note a
  (t, a.textWith t.portText)

/-- The description of an address that may be missing. -/
def describeAddress (a : Option Address) : Sockets × String :=
  match a with
  | none => (s, "None")
  | some a =>
    let t := s.note a
    (t, "Some(" ++ a.describeWith t.portText ++ ")")

/-- An address of what a stage gives access to. -/
def addressBehind (st : Stage) (ask : System → Nat → Except OsError Address) : Option Address :=
  match s.descriptor? st with
  | some (.ok d) => (ask s.system d).toOption
  | _ => none

def flagText (b : Bool) : String := if b then "true" else "false"

/-- The description of a socket in a stage of its own. -/
def describeStage (st : Stage) : Sockets × String :=
  let (t, near) := s.describeAddress (s.addressBehind st System.localAddress)
  let closed := ", closed: " ++ flagText (s.isClosed st) ++ " \x7d"
  match st with
  | .unbound p =>
    (s, "Socket \x7b options: [" ++ ", ".intercalate (p.options.map (·.describe)) ++ "]" ++ closed)
  | .bound _ => (t, "BoundSocket \x7b local: " ++ near ++ " \x7d")
  | .listening _ => (t, "ListenSocket \x7b local: " ++ near ++ closed)
  | .connected _ =>
    let (t, far) := t.describeAddress (s.addressBehind st System.peerAddress)
    (t, "ConnectedSocket \x7b local: " ++ near ++ ", peer: " ++ far ++ closed)
  | .connecting _ | .closed => (s, st.name.title)

/-- The line that describes what a name stands for. -/
def describe (h : Handle) : Sockets × String :=
  match h with
  | .sole st => s.describeStage st
  | .shared _ => (s, "AnySocket \x7b state: " ++ (s.stageOf h).name.title ++ " \x7d")

end Sockets

end Conduit.Socket
