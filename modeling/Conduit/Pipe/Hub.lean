import Conduit.Limits
import Conduit.Pipe.Device
import Conduit.Pipe.Event

/-!
Ports of pipes and the requests on them. One request at a time holds a port and works its device;
the others wait in line, in the order in which they came. Closing a port ends every request on it
with a fault, and a request of its own then lets go of the device.
-/

namespace Conduit.Pipe

/-- One end of a pipe. -/
structure Port where
  /-- The most bytes that one transfer moves. -/
  chunk : Nat
  closed : Bool := false
  /-- Whether the device has been let go of. -/
  released : Bool := false
  holder : Option Nat := none
  /-- The requests that wait for the port. -/
  line : List Nat := []
  /-- The requests that wait and are to be woken when the port is closed, in the order in which they
  began to. -/
  watchers : List Nat := []
  deriving Inhabited

/-- What is left of a request to do. -/
inductive Job where
  /-- Read `length` bytes, or with `length` zero all there are; `delivered` have been. -/
  | read (length delivered : Nat)
  | write (rest : Bytes)
  | flush
  | release
  deriving DecidableEq, Inhabited

inductive Phase where
  | fresh
  | queued
  /-- It holds the port, and waits for the device if `waiting`. -/
  | holding (waiting : Bool)
  | finished
  deriving DecidableEq, Inhabited

/-- A request on a port; what it reports goes to a receiver. -/
structure Request where
  port : Nat
  job : Job
  receiver : Option Nat
  phase : Phase := .fresh
  deriving Inhabited

structure Hub where
  ports : List Port := []
  requests : List Request := []
  deriving Inhabited

/-- What one step of a request leads to. -/
inductive Advance where
  /-- It waits or is over. -/
  | idle
  /-- It goes on. -/
  | again
  /-- It reports, for the last time if `last`. -/
  | report (e : Event) (last : Bool)
  /-- It ends without a report. -/
  | crash
  deriving DecidableEq, Inhabited

/-- A larger buffer cannot be had. -/
def bufferLimit : Nat := (1 <<< 63) - 1

/-- The work of writing some bytes: writing none means flushing. -/
def Job.ofData (data : Bytes) : Job := if data.isEmpty then .flush else .write data

/-- The report of a request on a closed port. -/
def Job.closedEvent : Job → Event
  | .write rest => .write (.failed rest .closed)
  | .flush => .write (.failed [] .closed)
  | _ => .read (.failed .closed)

namespace Hub

def setPhase (h : Hub) (r : Nat) (phase : Phase) : Hub :=
  { h with requests := h.requests.modify r fun q => { q with phase } }

def setJob (h : Hub) (r : Nat) (job : Job) : Hub :=
  { h with requests := h.requests.modify r fun q => { q with job } }

def modifyPort (h : Hub) (p : Nat) (f : Port → Port) : Hub :=
  { h with ports := h.ports.modify p f }

def addPort (h : Hub) (chunk : Nat) : Hub := { h with ports := h.ports ++ [{ chunk }] }

def isClosed (h : Hub) (p : Nat) : Bool := (h.ports[p]?.map (·.closed)).getD true

/-- A request stops waiting. -/
def leave (h : Hub) (p r : Nat) : Hub :=
  h.modifyPort p fun q => { q with line := q.line.erase r, watchers := q.watchers.erase r }

/-- A request starts to wait. -/
def watch (h : Hub) (p r : Nat) : Hub :=
  h.modifyPort p fun q => { q with watchers := q.watchers.erase r ++ [r] }

/-- A request no longer holds a port, which goes to the first one in line; that one is to be
woken. -/
def unlock (h : Hub) (p r : Nat) : Hub × List Nat :=
  match h.ports[p]? with
  | none => (h, [])
  | some q =>
    if q.holder = some r then
      (h.modifyPort p fun q => { q with holder := q.line.head?, line := q.line.tail },
        q.line.head?.toList)
    else (h, [])

/-- A request is over and lets go of the port. -/
def finish (h : Hub) (r : Nat) : Hub × List Nat :=
  match h.requests[r]? with
  | none => (h, [])
  | some q => ((h.setPhase r .finished).leave q.port r).unlock q.port r

/-- Adds a request, which is to be woken. -/
def submit (h : Hub) (port : Nat) (job : Job) (receiver : Option Nat) : Hub × Nat :=
  ({ h with requests := h.requests ++ [{ port, job, receiver }] }, h.requests.length)

/-- Closes a port, unless it is closed. The requests that watch it are to be woken, and one that
lets go of the device. -/
def close (h : Hub) (p : Nat) : Hub × List Nat :=
  match h.ports[p]? with
  | none => (h, [])
  | some q =>
    if q.closed then (h, [])
    else
      let (h, r) := (h.modifyPort p fun q => { q with closed := true, watchers := [] }).submit p
        .release none
      (h, q.watchers ++ [r])

/-- The device is let go of. -/
def release (h : Hub) (p r : Nat) : Hub × List Nat :=
  (h.modifyPort p fun q => { q with released := true }).finish r

variable {D : Type}

/-- How many bytes a read asks its device for. -/
def want (chunk length delivered : Nat) : Nat :=
  if length = 0 then chunk else min chunk (length - delivered)

/-- Reads on, once the device has answered. -/
def readAnswered (h : Hub) (r length delivered : Nat) : Except OsError Bytes → Hub × Advance
  | .ok [] => (h, .report (.read .ended) true)
  | .ok data =>
    let delivered := delivered + data.length
    let done : Bool := length ≠ 0 ∧ length ≤ delivered
    (h.setJob r (.read length delivered), .report (.read (.chunk data done)) done)
  | .error e =>
    if e.kind = .interrupted then (h, .again)
    else (h, .report (.read (.failed (.ofOs e .read))) true)

/-- Writes on, once the device has answered. -/
def writeAnswered (h : Hub) (r : Nat) (rest : Bytes) : Except OsError Nat → Hub × Advance
  | .ok 0 => (h, .report (.write (.failed rest (.ofOs (.simple .writeZero) .write))) true)
  | .ok n =>
    let rest := rest.drop n
    (h.setJob r (.write rest), .report (.write (.progress rest)) rest.isEmpty)
  | .error e =>
    if e.kind = .interrupted then (h, .again)
    else (h, .report (.write (.failed rest (.ofOs e .write))) true)

def flushAnswered (h : Hub) : Except OsError Unit → Hub × Advance
  | .ok () => (h, .report (.write (.progress [])) true)
  | .error e => (h, .report (.write (.failed [] (.ofOs e .write))) true)

/-- What a request that holds its port makes of the answer of the device. -/
def answered {α : Type} (h : Hub) (p r : Nat) (waiting : Bool) (answer : Poll α)
    (go : Hub → α → Hub × Advance) : Hub × List Nat × Advance :=
  match answer with
  | .pending again =>
    let h := if waiting then h else h.watch p r
    (h.setPhase r (.holding true), if again then [r] else [], .idle)
  | .ready a =>
    let (h, adv) := go ((h.leave p r).setPhase r (.holding false)) a
    (h, [], adv)

/-- A request that holds its port works the device. -/
def work (dev : Devices D) (h : Hub) (d : D) (r p chunk : Nat) (waiting : Bool) (job : Job) :
    Hub × D × List Nat × Advance :=
  match job with
  | .read length delivered =>
    let (d, answer) := dev.read d p (want chunk length delivered)
    let (h, wakes, adv) := h.answered p r waiting answer fun h => h.readAnswered r length delivered
    (h, d, wakes, adv)
  | .write rest =>
    let (d, answer) := dev.write d p (rest.take chunk)
    let (h, wakes, adv) := h.answered p r waiting answer fun h => h.writeAnswered r rest
    (h, d, wakes, adv)
  | .flush =>
    let (d, answer) := dev.flush d p
    let (h, wakes, adv) := h.answered p r waiting answer flushAnswered
    (h, d, wakes, adv)
  | .release => (h, d, [], .idle)

/-- Whether a read needs a larger buffer than there can be. -/
def overflows (chunk : Nat) : Job → Bool
  | .read length delivered => bufferLimit < want chunk length delivered
  | _ => false

/-- One step of a request: gives the requests that are to be woken and what the step leads to. -/
def advance (dev : Devices D) (h : Hub) (d : D) (r : Nat) : Hub × D × List Nat × Advance :=
  match h.requests[r]? with
  | none => (h, d, [], .idle)
  | some q =>
    match h.ports[q.port]? with
    | none => (h, d, [], .idle)
    | some port =>
      match q.phase with
      | .finished => (h, d, [], .idle)
      | .fresh =>
        if q.job ≠ .release ∧ port.closed then (h, d, [], .report q.job.closedEvent true)
        else if port.holder.isNone ∧ port.line.isEmpty then
          ((h.modifyPort q.port fun p => { p with holder := some r }).setPhase r (.holding false),
            d, [], .again)
        else
          let h := h.modifyPort q.port fun p => { p with line := p.line ++ [r] }
          let h := if q.job = .release then h else h.watch q.port r
          (h.setPhase r .queued, d, [], .idle)
      | .queued =>
        if q.job ≠ .release ∧ port.closed then
          let (h, wakes) := (h.leave q.port r).unlock q.port r
          (h, d, wakes, .report q.job.closedEvent true)
        else if port.holder = some r then
          ((h.leave q.port r).setPhase r (.holding false), d, [], .again)
        else (h, d, [], .idle)
      | .holding waiting =>
        if q.job = .release then
          let (h, wakes) := h.release q.port r
          (h, d, wakes, .idle)
        else if port.released then (h, d, [], .report q.job.closedEvent true)
        else if !waiting && overflows port.chunk q.job then (h, d, [], .crash)
        else if port.closed then (h, d, [], .report q.job.closedEvent true)
        else work dev h d r q.port port.chunk waiting q.job

/-- Whether a request on a port is not over. -/
def isBusy (h : Hub) (p : Nat) : Bool := h.requests.any fun q => q.port = p && q.phase ≠ .finished

end Hub

end Conduit.Pipe
