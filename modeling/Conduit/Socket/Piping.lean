import Conduit.Socket.Sockets

/-!
Pipes on connections: a port to read from and a port to write to, both plugged into the descriptor
of the connection. Requests work the ports, and collectors gather what they report.
-/

namespace Conduit.Socket

open Pipe (Job Gathered)

namespace Sockets

variable (s : Sockets)

/-- A new port of a connection. -/
def addPort (k : Nat) (descriptor : Option Nat) (chunk : Nat) : Sockets :=
  { s with
    hub := s.hub.addPort chunk
    plugs := s.plugs ++ [{ descriptor, connection := k }] }

/-- A new pipe on a connection, under a name. On a closed connection it is closed at once. Gives
the requests to be woken. -/
def addPipe (id : String) (k : Nat) : Sockets × List Nat :=
  match s.connections[k]? with
  | none => (s, [])
  | some x =>
    let p := s.hub.ports.length
    let t := (s.addPort k x.descriptor x.limits.read).addPort k x.descriptor x.limits.write
    let t := { t with pipes := (id, p, p + 1) :: t.pipes.filter (·.1 ≠ id) }
    if x.closed then t.closePorts [p, p + 1]
    else
      ({ t with connections :=
          t.connections.set k { x with pipes := x.pipes ++ [(p, p + 1)] } }, [])

/-- Whether both ends of a pipe are closed. -/
def isPipeClosed (ports : Nat × Nat) : Bool :=
  s.hub.isClosed ports.1 && s.hub.isClosed ports.2

def dropPipe (id : String) : Sockets := { s with pipes := s.pipes.filter (·.1 ≠ id) }

def modifyCollector (k : Nat) (f : Pipe.Collector → Pipe.Collector) : Sockets :=
  { s with collectors := s.collectors.modify k f }

/-- Starts a request whose reports are collected for a job; on a closed port it is over at once.
Gives the request to be woken. -/
def startJob (job : Option String) (p : Nat) (work : Job) (gathered : Gathered) :
    Sockets × List Nat :=
  let k := s.collectors.length
  let t := { s with
    collectors := s.collectors ++ [({ gathered } : Pipe.Collector)]
    jobs := (job, k) :: s.jobs.filter (·.1 ≠ job) }
  if t.hub.isClosed p then (t.modifyCollector k (·.push work.closedEvent), [])
  else
    let (hub, r) := t.hub.submit p work (some k)
    ({ t with hub }, [r])

/-- The collector of a request. -/
def collectorOf? (r : Nat) : Option Nat := s.hub.requests[r]?.bind (·.receiver)

/-- A request is over, and its collector gets no more reports. Gives the requests to be woken. -/
def finishRequest (r : Nat) : Sockets × List Nat :=
  let (hub, wakes) := s.hub.finish r
  let t := { s with hub }
  (match t.collectorOf? r with
    | some k => t.modifyCollector k fun c => { c with ended := true }
    | none => t,
    wakes)

/-- How a request goes on after a step. -/
inductive Advanced where
  | idle | again | finished
  deriving DecidableEq, Inhabited

/-- One step of a request. Gives the requests to be woken and how it goes on. -/
def advanceRequest (r : Nat) : Sockets × List Nat × Advanced :=
  let (hub, w, wakes, adv) := s.hub.advance devices (s.system, s.plugs) r
  let t := { s with hub, system := w.1 }
  match adv with
  | .idle => (t, wakes, .idle)
  | .again => (t, wakes, .again)
  | .crash => (t, wakes, .finished)
  | .report e last =>
    let t := match t.collectorOf? r with
      | some k => t.modifyCollector k (·.push e)
      | none => t
    (t, wakes, if last then .finished else .again)

/-- Whether a request that waits for its descriptor could go on, if the system does what it is
asked. -/
def isRequestReady (r : Nat) : Bool :=
  match (s.hub.requests[r]?.map fun q => q.phase : Option Pipe.Phase) with
  | some (.holding true) =>
    (s.hub.advance devices ({ s.system with whims := [] }, s.plugs) r).2.2.2 ≠ .idle
  | _ => false

/-- What a job amounts to, once it is settled; then it can no longer be asked for. -/
def finishJob (job : Option String) (k : Nat) : Option (Sockets × Pipe.Outcome) :=
  (s.collectors[k]?.bind (·.outcome?)).map fun o =>
    ({ s with jobs := s.jobs.filter (·.1 ≠ job) }, o)

end Sockets

end Conduit.Socket
