import Conduit.Kernel.System

/-!
How descriptors come together and part: listening, connecting, accepting, shutting down, closing.
Connecting to a listener makes the other end at once; it waits in the line of the listener until it
is accepted, and goes down with the listener if it is not.
-/

namespace Conduit.Kernel.System

/-- The longest line of a listener. -/
def longestLine : Nat := 4096

/-- How many descriptors wait at most, besides one: a negative number means the longest line. -/
def roomFor (backlog : Int32) : Nat :=
  if backlog < 0 then longestLine else min backlog.toInt.toNat longestLine

def listen (s : System) (d : Nat) (backlog : Int32) : Except OsError System :=
  match s.descriptors[d]? with
  | none => .error (.number 9)
  | some x =>
    if x.type = .datagram then .error (.number 95)
    else
      .ok (s.modify d fun x => { x with role := .listening (roomFor backlog) [] })

/-- The descriptors that wait in the line of a listener. -/
def line (s : System) (d : Nat) : List Nat :=
  match s.role? d with
  | some (.listening _ queue) => queue
  | _ => []

/-- Whether a descriptor waits in some line. -/
def isQueued (s : System) (d : Nat) : Bool :=
  s.descriptors.any fun x =>
    match x.role with
    | .listening _ queue => !x.closed && queue.contains d
    | _ => false

/-- Links a descriptor to a listener, which has its other end in line from now on. -/
def link (s : System) (d e : Nat) : System :=
  match s.descriptors[d]?, s.descriptors[e]? with
  | some x, some y =>
    let end2 := s.descriptors.length
    let near := x.address.getD (blank x.family)
    let far := y.address.getD (blank y.family)
    let other : Descriptor :=
      { family := y.family
        type := y.type
        settings := if y.family = .unix then [] else y.settings
        address := some far
        role := .connected (some d) near }
    let s := { s with descriptors := s.descriptors ++ [other] }
    let s := s.modify d fun x => { x with role := .connected (some end2) far }
    s.modify e fun y =>
      match y.role with
      | .listening room queue => { y with role := .listening room (queue ++ [end2]) }
      | _ => y
  | _, _ => s

/-- Whether a datagram descriptor takes what another one sends: it has no other partner. -/
def welcomes (y : Descriptor) (d : Nat) : Bool :=
  match y.role with
  | .connected (some e) _ => e = d
  | _ => true

/-- Connects to the descriptor that a file was made for. -/
def connectFile (s : System) (d e : Nat) (x y : Descriptor) : Except OsError System :=
  if y.closed then .error (.number 111)
  else if y.type ≠ x.type then .error (.number 91)
  else if x.type = .datagram then
    if welcomes y d then
      .ok (s.modify d fun x =>
        { x with role := .connected (some e) (y.address.getD (blank y.family)) })
    else .error (.number 1)
  else
    match y.role with
    | .listening room queue => if room < queue.length then .error (.number 11) else .ok (s.link d e)
    | _ => .error (.number 111)

def connectPath (s : System) (d : Nat) (x : Descriptor) (p : UnixPath) : Except OsError System :=
  if p.isUnnamed then .error (.number 22)
  else
    match s.find p with
    | .missing | .free _ => .error (.number 2)
    | .blocked => .error (.number 20)
    | .directory => .error (.number 111)
    | .file e =>
      match s.descriptors[e]? with
      | none => .error (.number 111)
      | some y => if asksForDirectory p then .error (.number 20) else s.connectFile d e x y

/-- The open descriptor of a type that has an Internet address. -/
def holder? (s : System) (type : SocketType) (a : Address) : Option (Nat × Descriptor) :=
  (s.descriptors.zipIdx.find? fun (y, _) =>
    !y.closed && y.type = type &&
      match y.address with
      | some b => overlap a b
      | none => false).map fun (y, e) => (e, y)

/-- Gives a descriptor an address of the machine itself, if it has none. -/
def giveAddress (s : System) (d : Nat) (target : Address) : System :=
  match s.descriptors[d]?.bind (·.address), target with
  | none, .inet4 .. =>
    let (s, a) := s.withPort (.inet4 .loopback 0)
    s.setAddress d a
  | none, .inet6 .. =>
    let (s, a) := s.withPort (.inet6 .loopback 0 0 0)
    s.setAddress d a
  | _, _ => s

/-- Connects to an Internet address; gives whether the link has been made, or is still to come. -/
def connectInet (s : System) (d : Nat) (x : Descriptor) (target : Address) :
    Except OsError (System × Bool) :=
  if !s.reachable then .error (.number 101)
  else if x.type = .datagram then
    let s := s.giveAddress d target
    .ok (s.modify d fun x =>
      { x with role := .connected ((s.holder? x.type target).map (·.1)) target }, true)
  else
    match s.holder? x.type target with
    | some (e, y) =>
      match y.role with
      | .listening room queue =>
        if room < queue.length then
          .ok (s.modify d fun x => { x with role := .connecting target }, false)
        else .ok ((s.giveAddress d target).link d e, true)
      | _ => .error (.number 111)
    | none => .error (.number 111)

/-- The size of the raw form of an Internet address of version 4, which nothing shorter can be. -/
def inet4Size : Nat := 16

/-- Connects a descriptor to an address; gives whether the link has been made, or is still to come.
An address of another family is refused, and by an Internet descriptor as wrong in itself if it is
too short for one. -/
def connect (s : System) (d : Nat) (target : Address) : Except OsError (System × Bool) :=
  match s.descriptors[d]? with
  | none => .error (.number 9)
  | some x =>
    match x.family, target with
    | .unix, .unix p => (s.connectPath d x p).map fun s => (s, true)
    | .unix, _ => .error (.number 22)
    | _, .unix p =>
      let size := if p.isUnnamed then 2 else p.bytes.length + 3
      .error (.number (if size < inet4Size then 22 else 97))
    | _, _ =>
      if x.family ≠ target.family then .error (.number 97) else s.connectInet d x target

/-- Goes on with a link that is still to come. -/
def resume (s : System) (d : Nat) : Except OsError (System × Bool) :=
  match s.role? d with
  | some (.connecting target) => s.connect d target
  | some (.connected ..) => .ok (s, true)
  | _ => .error (.number 107)

/-- Whether there is news of a link that is still to come. -/
def isSettled (s : System) (d : Nat) : Bool :=
  match s.resume d with
  | .ok (_, made) => made
  | .error _ => true

/-- Takes the descriptor that has waited longest from the line of a listener, if one does. -/
def accept (s : System) (d : Nat) : Except OsError (Option (System × Nat)) :=
  match s.role? d with
  | some (.listening room (e :: queue)) =>
    if s.limited then .error (.number 24)
    else .ok (some (s.modify d fun x => { x with role := .listening room queue }, e))
  | some (.listening _ []) => .ok none
  | _ => .error (.number 22)

/-- The descriptor at the other end of a link on which bytes flow both ways. -/
def partner? (s : System) (d : Nat) : Option Nat :=
  match s.descriptors[d]? with
  | some x =>
    match x.role with
    | .connected e _ => if x.type = .datagram then none else e
    | _ => none
  | none => none

/-- Nothing goes in or out of a descriptor any more. -/
def cut (s : System) (d : Nat) : System :=
  s.modify d fun x => { x with readEnded := true, writeEnded := true }

/-- Shuts both directions of a descriptor down, and so those of its partner. -/
def shutdown (s : System) (d : Nat) : System :=
  match s.partner? d with
  | some e => (s.cut d).cut e
  | none => s.cut d

/-- Closes one descriptor. Its partner hears of a reset if bytes are left unread or if the
descriptor was never accepted. -/
def drop (s : System) (d : Nat) (accepted : Bool) : System :=
  let unread := (s.descriptors[d]?.map fun x => !x.inbox.isEmpty).getD false
  let t := match s.partner? d with
    | some e =>
      (s.cut e).modify e fun y =>
        { y with failure := if unread || !accepted then some 104 else y.failure }
    | none => s
  t.modify d fun x => { x with closed := true, inbox := [] }

/-- Closes a descriptor, and with a listener those in its line. -/
def close (s : System) (d : Nat) : System :=
  (s.line d).foldl (fun s e => s.drop e false) (s.drop d true)

end Conduit.Kernel.System
