import Conduit.Cancel.Ticket
import Conduit.Pipe.Collector
import Conduit.Pipe.Hub
import Conduit.Socket.Stage
import Conduit.Socket.Calls

/-!
All sockets of a script, by name, with the system behind them. A descriptor is open as long as
something owns it: a bound socket, a listener or a loop that waits on it, an attempt, a connection,
or a port of a pipe. What nothing owns any more is closed by `reap`.
-/

namespace Conduit.Socket

open Kernel (System)
open Pipe (Hub Collector)

/-- What a name stands for: a socket in a stage of its own, or a slot that copies share. -/
inductive Handle where
  | sole (st : Stage)
  | shared (slot : Nat)
  deriving DecidableEq, Inhabited

/-- The slot that a name stands for. -/
def Handle.slot? : Handle → Option Nat
  | .sole _ => none
  | .shared i => some i

/-- What a port of a pipe is plugged into. -/
structure Plug where
  descriptor : Option Nat
  connection : Nat
  deriving DecidableEq, Inhabited

/-- A ticket is to be cancelled at a time. -/
structure Alarm where
  ticket : Nat
  due : Nat
  rung : Bool := false
  deriving DecidableEq, Inhabited

structure Sockets where
  system : System := {}
  hub : Hub := {}
  handles : List (String × Handle) := []
  slots : List Stage := []
  listeners : List Listener := []
  connections : List Connection := []
  attempts : List Attempt := []
  acceptors : List Acceptor := []
  /-- What the ports of the hub are plugged into. -/
  plugs : List Plug := []
  /-- The accept loops that have names. -/
  controllers : List (String × Nat) := []
  /-- The attempts whose outcomes can still be asked for. -/
  calls : List (String × Nat) := []
  /-- The pipes that have names, each with the port to read from and the one to write to. -/
  pipes : List (String × Nat × Nat) := []
  collectors : List Collector := []
  /-- The collectors that can be asked for; the one without a name belongs to the operation that
  runs. -/
  jobs : List (Option String × Nat) := []
  tickets : Cancel.Tickets := {}
  alarms : List Alarm := []
  clock : Nat := 0
  saved : List (String × Address) := []
  /-- The ports chosen by the system that answers have shown, first one first. -/
  shown : List UInt16 := []

/-- The devices behind the ports: descriptors of the system. -/
def devices : Pipe.Devices (System × List Plug) where
  read w p want :=
    match (w.2[p]?).bind (·.descriptor) with
    | some d => let (sys, r) := Calls.read w.1 d want; ((sys, w.2), r)
    | none => (w, .ready (.error (.simple .notConnected)))
  write w p bytes :=
    match (w.2[p]?).bind (·.descriptor) with
    | some d => let (sys, r) := Calls.write w.1 d bytes; ((sys, w.2), r)
    | none => (w, .ready (.error (.simple .notConnected)))
  flush w _ := (w, .ready (.ok ()))

namespace Sockets

variable (s : Sockets)

/-! ### Names -/

def handle? (id : String) : Option Handle := s.handles.lookup id

def bindHandle (id : String) (h : Handle) : Sockets :=
  { s with handles := (id, h) :: s.handles.filter (·.1 ≠ id) }

def forget (id : String) : Sockets := { s with handles := s.handles.filter (·.1 ≠ id) }

def stageOf : Handle → Stage
  | .sole st => st
  | .shared i => s.slots[i]?.getD .closed

/-- Puts a socket into a stage. -/
def setStage (id : String) (h : Handle) (st : Stage) : Sockets :=
  match h with
  | .sole _ => s.bindHandle id (.sole st)
  | .shared i => { s with slots := s.slots.set i st }

/-- Whether a stage is that of a closed socket. -/
def isClosed : Stage → Bool
  | .unbound p => p.closed
  | .bound b => b.descriptor.isNone
  | .listening l => (s.listeners[l]?.map (·.closed)).getD true
  | .connecting _ => false
  | .connected k => (s.connections[k]?.map (·.closed)).getD true
  | .closed => true

/-- Whether a socket is closed. A shared one is when its slot is, whatever becomes of what stands
behind its stage. -/
def isHandleClosed (h : Handle) : Bool :=
  match h with
  | .sole st => s.isClosed st
  | .shared _ => s.stageOf h = .closed

/-- The descriptor that a stage gives access to, where it is one that does. -/
def descriptor? : Stage → Option (Except Fault Nat)
  | .bound b => some (opened b.descriptor)
  | .listening l => some (opened (s.listeners[l]?.bind (·.descriptor)))
  | .connected k => some (opened (s.connections[k]?.bind (·.descriptor)))
  | _ => none

/-- A new connection over a descriptor, and its number. -/
def addConnection (d : Nat) (limits : ChunkLimits) : Sockets × Nat :=
  ({ s with connections := s.connections ++ [{ descriptor := some d, limits }] },
    s.connections.length)

/-! ### Closing -/

/-- Closes ports one after the other; gives the requests to be woken. -/
def closePorts (ps : List Nat) : Sockets × List Nat :=
  ps.foldl
    (fun acc p =>
      let (hub, wakes) := acc.1.hub.close p
      ({ acc.1 with hub }, acc.2 ++ wakes))
    (s, [])

/-- Closes a listener, which lets go of its descriptor. -/
def closeListener (l : Nat) : Sockets :=
  { s with listeners := s.listeners.modify l fun x => { x with closed := true, descriptor := none } }

/-- Closes a connection: its pipes first, then both directions of its descriptor, which it lets go
of. Gives the requests to be woken. -/
def closeConnection (k : Nat) : Sockets × List Nat :=
  match s.connections[k]? with
  | none => (s, [])
  | some x =>
    if x.closed then (s, [])
    else
      let (s, wakes) := s.closePorts (x.pipes.flatMap fun p => [p.1, p.2])
      ({ s with
          connections := s.connections.set k { x with closed := true, descriptor := none, pipes := [] }
          system := match x.descriptor with
            | some d => s.system.shutdown d
            | none => s.system },
        wakes)

/-- An attempt is told to stop. -/
def closeAttempt (a : Nat) : Sockets :=
  { s with attempts := s.attempts.modify a fun x => { x with closed := true } }

/-- Closes what stands behind a stage; gives the requests to be woken. -/
def closeBehind : Stage → Sockets × List Nat
  | .listening l => (s.closeListener l, [])
  | .connecting a => (s.closeAttempt a, [])
  | .connected k => s.closeConnection k
  | _ => (s, [])

/-- The stage of a closed socket of its own. -/
def closedStage : Stage → Stage
  | .unbound p => .unbound { p with closed := true }
  | .bound b => .bound { b with descriptor := none }
  | st => st

/-- Closes a socket; gives the requests to be woken. A slot is empty then. -/
def close (id : String) (h : Handle) : Sockets × List Nat :=
  let st := s.stageOf h
  let (t, wakes) := s.closeBehind st
  (t.setStage id h (match h with | .sole _ => closedStage st | .shared _ => .closed), wakes)

/-! ### Owners -/

/-- Whether a name or an attempt that goes on refers to a slot. -/
def usesSlot (i : Nat) : Bool :=
  (s.handles.any fun h => h.2 = .shared i) ||
    s.attempts.any fun x => x.slot = some i &&
      match x.progress with
      | .delivered _ | .lost => false
      | _ => true

/-- The stages of all sockets that something refers to. -/
def stages : List Stage :=
  (s.handles.filterMap fun h => match h.2 with | .sole st => some st | .shared _ => none) ++
    s.slots.zipIdx.filterMap fun (st, i) => if s.usesSlot i then some st else none

def usesListener (l : Nat) : Bool :=
  s.stages.contains (.listening l) ||
    s.acceptors.zipIdx.any fun (x, c) =>
      x.listener = l && (x.round ≠ .ended || s.controllers.any (·.2 = c))

/-- Whether an outcome is that connection. -/
def isConnection (k : Nat) : Outcome → Bool
  | .ok j => j = k
  | .error _ => false

/-- Whether an attempt holds a connection for someone who can ask for it. -/
def attemptHolds (k a : Nat) (x : Attempt) : Bool :=
  match x.progress with
  | .decided o => isConnection k o
  | .delivered o => isConnection k o && s.calls.any (·.2 = a)
  | _ => false

def acceptorHolds (k c : Nat) (x : Acceptor) : Bool :=
  x.underway.any (isConnection k) ||
    s.controllers.any (·.2 = c) && x.arrived.any (isConnection k)

def usesConnection (k : Nat) : Bool :=
  s.stages.contains (.connected k) ||
    (s.attempts.zipIdx.any fun (x, a) => s.attemptHolds k a x) ||
    s.acceptors.zipIdx.any fun (x, c) => s.acceptorHolds k c x

/-- Whether a port can still be used, or will be closed by its connection. -/
def usesPort (p k : Nat) : Bool :=
  (s.pipes.any fun e => e.2.1 = p || e.2.2 = p) || s.hub.isBusy p ||
    (!s.isClosed (.connected k) && s.usesConnection k)

/-- The descriptors that ports own. -/
def portDescriptors : List Nat :=
  s.plugs.zipIdx.filterMap fun (plug, p) =>
    if (s.hub.ports[p]?.map (·.released)).getD true || !s.usesPort p plug.connection then none
    else plug.descriptor

/-- The descriptors that something owns. -/
def owned : List Nat :=
  (s.stages.filterMap fun st => match st with | .bound b => b.descriptor | _ => none) ++
    (s.listeners.zipIdx.filterMap fun (x, l) => if s.usesListener l then x.descriptor else none) ++
    (s.acceptors.filterMap fun x => match x.round with | .waiting d => some d | _ => none) ++
    s.attempts.filterMap (·.descriptor?) ++
    (s.connections.zipIdx.filterMap fun (x, k) =>
      if s.usesConnection k then x.descriptor else none) ++
    s.portDescriptors

/-- The open descriptors that have no owner and wait for none. -/
def orphans : List Nat :=
  let owned := s.owned
  (List.range s.system.descriptors.length).filter fun d =>
    s.system.isOpen d && !owned.contains d && !s.system.isQueued d

/-- Closes what nothing owns. -/
def reap : Sockets := { s with system := s.orphans.foldl System.close s.system }

end Sockets

end Conduit.Socket
