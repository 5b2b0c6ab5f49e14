import Conduit.Dispatch.Machine
import Conduit.Pipe.Collector
import Conduit.Pipe.Hub

/-!
Pipes over scripted devices: sources that are read, sinks that are written, and pairs of the two.
Each report of a request is given to the context of the request, which calls the receiver; between
two reports the request goes on working its device. A receiver that throws on the stack of the
request ends the request.
-/

namespace Conduit.Pipe

open Dispatch

/-- What a script can do with pipes. After each of its reports, which are counted from one, a receiver
runs a script and then throws if it is to. -/
inductive Action where
  | source (id : String) (device : Scripted) (limits : ChunkLimits)
  | sink (id : String) (device : Scripted) (limits : ChunkLimits)
  | feed (id : String) (items : List Item) (flushes : Option (List FlushItem))
  | pair (id source sink : String)
  | split (id source sink : String)
  | requestRead (id req context : String) (length : Nat) (script : Nat → List (Op Action))
      (throws : Nat → Bool)
  | requestWrite (id req context : String) (data : Bytes) (script : Nat → List (Op Action))
      (throws : Nat → Bool)
  | readAll (id req : String) (length : Nat)
  | writeAll (id req : String) (data : Bytes)
  | close (id : String)
  | drop (id : String)
  | describe (id : String)

instance : Inhabited Action := ⟨.close ""⟩

namespace Action

/-- A read whose receiver keeps its scripts under the numbers of the reports, and throws at one of them
at most. -/
def read (id req context : String) (length : Nat) (scripts : List (Nat × List (Op Action)))
    (throwsAt : Option Nat) : Action :=
  .requestRead id req context length (fun n => (scripts.lookup n).getD []) (throwsAt = some ·)

/-- A write with a receiver of this kind. -/
def write (id req context : String) (data : Bytes) (scripts : List (Nat × List (Op Action)))
    (throwsAt : Option Nat) : Action :=
  .requestWrite id req context data (fun n => (scripts.lookup n).getD []) (throwsAt = some ·)

end Action

inductive Answer where
  | unknownEnd
  | dropped (existed : Bool)
  | text (s : String)
  deriving DecidableEq, Inhabited

/-- A report that a receiver got, and the outcome that a collector tells. -/
inductive Note where
  | event (req : String) (n : Nat) (e : Event)
  | outcome (req : String) (o : Outcome)

/-- Who gets the reports of a request: a callback on a context, or a collector. -/
inductive Receiver where
  | callback (req : String) (context : Context) (calls : Nat)
      (script : Nat → List (Op Action)) (throws : Nat → Bool)
  | collector (k : Nat)

/-- What a name stands for: a source, a sink, or a pair of both. -/
inductive Handle where
  | source (p : Nat)
  | sink (p : Nat)
  | pair (source sink : Nat)
  deriving DecidableEq, Inhabited

/-- A request that goes on, the end of one, or a report on its way. -/
inductive Frame where
  | serve (r : Nat)
  | finish (r : Nat)
  | deliver (receiver : Nat) (e : Event)

inductive Task where
  | request (r : Nat)
  | collector (k : Nat)
  deriving DecidableEq, Inhabited

structure Session where
  hub : Hub := {}
  devices : List Scripted := []
  /-- The names of the devices. -/
  io : List (String × Nat) := []
  handles : List (String × Handle) := []
  receivers : List Receiver := []
  collectors : List (String × Collector) := []

namespace Handle

def source? : Handle → Option Nat
  | .source p | .pair p _ => some p
  | .sink _ => none

def sink? : Handle → Option Nat
  | .sink p | .pair _ p => some p
  | .source _ => none

def ports : Handle → List Nat
  | .source p | .sink p => [p]
  | .pair p q => [p, q]

end Handle

namespace Session

def bind (s : Session) (id : String) (h : Handle) : Session :=
  { s with handles := (id, h) :: s.handles.filter (·.1 ≠ id) }

def unbind (s : Session) (id : String) : Session :=
  { s with handles := s.handles.filter (·.1 ≠ id) }

def source? (s : Session) (id : String) : Option Nat := (s.handles.lookup id).bind (·.source?)

def sink? (s : Session) (id : String) : Option Nat := (s.handles.lookup id).bind (·.sink?)

/-- A new port with a device behind it. -/
def addPort (s : Session) (id : String) (device : Scripted) (chunk : Nat) : Session :=
  { s with
    hub := s.hub.addPort chunk
    devices := s.devices ++ [device]
    io := (id, s.hub.ports.length) :: s.io.filter (·.1 ≠ id) }

def addReceiver (s : Session) (c : Receiver) : Session :=
  { s with receivers := s.receivers ++ [c] }

/-- Whether a device has been let go of: by the port, or by everyone who could use the port. -/
def isDropped (s : Session) (p : Nat) : Bool :=
  (s.hub.ports[p]?.map (·.released)).getD true ||
    !(s.handles.any fun h => h.2.ports.contains p) && !s.hub.isBusy p

/-- Ports are closed one after the other; gives the requests to be woken. -/
def close (s : Session) (ps : List Nat) : Session × List Nat :=
  ps.foldl
    (fun acc p =>
      let (hub, wakes) := acc.1.hub.close p
      ({ acc.1 with hub }, acc.2 ++ wakes))
    (s, [])

/-- The line that describes what a name stands for. -/
def describe (s : Session) (h : Handle) : String :=
  let one (what : String) (p : Nat) : String :=
    what ++ " \x7b closed: " ++ (if s.hub.isClosed p then "true" else "false") ++ " \x7d"
  match h with
  | .source p => one "StreamSource" p
  | .sink p => one "StreamSink" p
  | .pair p q =>
    "SymmetricPipe \x7b source: " ++ one "StreamSource" p ++ ", sink: " ++ one "StreamSink" q ++
      " \x7d"

end Session

abbrev signature : Signature where
  State := Session
  Action := Action
  Answer := Answer
  Frame := Frame
  Task := Task
  Note := Note
  Tag := String

def reply (s : Session) (a : Answer) : Turn signature := { state := s, next := .reply (.own a) }

/-- Gives a report to the receiver. -/
def report (s : Session) (receiver : Nat) (e : Event) (k : List Frame) : Next signature :=
  match s.receivers[receiver]? with
  | some (.callback _ context _ _ _) => .perform context (.deliver receiver e) k
  | some (.collector _) => .enter (.deliver receiver e :: k)
  | none => .enter k

/-- Starts a request for a receiver that is new; on a closed port it is over at once. -/
def request (s : Session) (p : Nat) (job : Job) (receiver : Receiver) (more : List Task) :
    Turn signature :=
  let k := s.receivers.length
  let s := s.addReceiver receiver
  if s.hub.isClosed p then
    { state := s, wakes := more, next := report s k job.closedEvent [] }
  else
    let (hub, r) := s.hub.submit p job (some k)
    { state := { s with hub }, wakes := .request r :: more }

/-- Starts a request whose reports are collected. -/
def collect (s : Session) (p : Nat) (job : Job) (req : String) (gathered : Gathered) :
    Turn signature :=
  let k := s.collectors.length
  request { s with collectors := s.collectors ++ [(req, { gathered })] } p job (.collector k)
    [.collector k]

def exec (view : View) (s : Session) : Action → Turn signature
  | .source id device limits =>
    { state := (s.addPort id device limits.read).bind id (.source s.hub.ports.length) }
  | .sink id device limits =>
    { state := (s.addPort id device limits.write).bind id (.sink s.hub.ports.length) }
  | .feed id items flushes =>
    match s.io.lookup id with
    | none => reply s .unknownEnd
    | some p =>
      { state := { s with devices := s.devices.modify p fun d =>
          { d with items := d.items ++ items, flushes := flushes.getD d.flushes } }
        wakes := ((s.hub.ports[p]?.bind (·.holder)).map Task.request).toList }
  | .pair id source sink =>
    match s.handles.lookup source, s.handles.lookup sink with
    | some (.source p), some (.sink q) => { state := s.bind id (.pair p q) }
    | _, _ => reply s .unknownEnd
  | .split id source sink =>
    match s.handles.lookup id with
    | some (.pair p q) =>
      { state := ((s.unbind id).bind source (.source p)).bind sink (.sink q) }
    | _ => reply (s.unbind id) .unknownEnd
  | .requestRead id req context length script throws =>
    match s.source? id, view.context? context with
    | none, _ => reply s .unknownEnd
    | some _, none => { state := s, next := .reply .unknownContext }
    | some p, some c => request s p (.read length 0) (.callback req c 0 script throws) []
  | .requestWrite id req context data script throws =>
    match s.sink? id, view.context? context with
    | none, _ => reply s .unknownEnd
    | some _, none => { state := s, next := .reply .unknownContext }
    | some p, some c => request s p (.ofData data) (.callback req c 0 script throws) []
  | .readAll id req length =>
    match s.source? id with
    | none => reply s .unknownEnd
    | some p => collect s p (.read length 0) req (.read [])
  | .writeAll id req data =>
    match s.sink? id with
    | none => reply s .unknownEnd
    | some p => collect s p (.ofData data) req (.write [])
  | .close id =>
    match s.handles.lookup id with
    | none => reply s .unknownEnd
    | some h =>
      let (s, wakes) := s.close h.ports
      { state := s, wakes := wakes.map .request }
  | .drop id => reply (s.unbind id) (.dropped (s.handles.lookup id).isSome)
  | .describe id =>
    match s.handles.lookup id with
    | none => reply s .unknownEnd
    | some h => reply s (.text (s.describe h))

/-- The collector of a request that is over gets no further reports. -/
def endCollector (s : Session) (r : Nat) : Session × List Task :=
  match (s.hub.requests[r]?.bind (·.receiver)).bind (s.receivers[·]?) with
  | some (.collector k) =>
    ({ s with collectors := s.collectors.modify k fun c => (c.1, { c.2 with ended := true }) },
      [.collector k])
  | _ => (s, [])

/-- A request is over. -/
def finish (s : Session) (r : Nat) : Session × List Task :=
  let (hub, wakes) := s.hub.finish r
  let (s, more) := endCollector { s with hub } r
  (s, wakes.map .request ++ more)

/-- A request goes on. -/
def serve (s : Session) (r : Nat) : Turn signature :=
  let (hub, devices, wakes, adv) := s.hub.advance Scripted.devices s.devices r
  let s := { s with hub, devices }
  let wakes := wakes.map Task.request
  match adv with
  | .idle => { state := s, wakes }
  | .again => { state := s, wakes, next := .enter [.serve r] }
  | .crash =>
    let (s, more) := finish s r
    { state := s, wakes := wakes ++ more }
  | .report e last =>
    match s.hub.requests[r]?.bind (·.receiver) with
    | none => { state := s, wakes }
    | some k =>
      { state := s, wakes, next := report s k e [if last then .finish r else .serve r] }

/-- A report reaches its receiver. -/
def deliver (s : Session) (receiver : Nat) (e : Event) : Turn signature :=
  match s.receivers[receiver]? with
  | none => { state := s }
  | some (.collector k) =>
    { state := { s with collectors := s.collectors.modify k fun c => (c.1, c.2.push e) }
      wakes := [.collector k] }
  | some (.callback req context calls script throws) =>
    let n := calls + 1
    { state := { s with
        receivers := s.receivers.set receiver (.callback req context n script throws) }
      notes := [.event req n e]
      next := .script req (script n) (throws n) [] }

def resume (s : Session) : Frame → Turn signature
  | .serve r => serve s r
  | .finish r =>
    let (s, wakes) := finish s r
    { state := s, wakes }
  | .deliver receiver e => deliver s receiver e

/-- A throw that passes a request ends it. -/
def unwind (s : Session) : Frame → Session × List Task
  | .serve r | .finish r => finish s r
  | .deliver _ _ => (s, [])

def poll (s : Session) : Task → Turn signature
  | .request r => serve s r
  | .collector k =>
    match s.collectors[k]? with
    | none => { state := s }
    | some (req, c) =>
      match c.outcome? with
      | none => { state := s }
      | some o =>
        { state := { s with collectors := s.collectors.set k (req, { c with told := true }) }
          notes := [.outcome req o] }

/-- Pipes over scripted devices. -/
abbrev component : Component where
  toSignature := signature
  decTask := inferInstance
  exec := exec
  resume := resume
  unwind := unwind
  poll := poll
  tick s := (s, [])

end Conduit.Pipe
