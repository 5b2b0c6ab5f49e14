import Conduit.Dispatch.Machine
import Conduit.Socket.Accepting
import Conduit.Socket.Connecting
import Conduit.Socket.Description
import Conduit.Socket.Piping

/-!
Sockets over the system. Attempts to connect, accept loops and requests on pipes are tasks of the
reactor; after every turn what nothing owns is closed, and what can go on is woken. Operations that
ask for an outcome wait until it is there or until their patience ends.
-/

namespace Conduit.Socket

open Dispatch
open Kernel (System)

/-- An address as a script gives it: itself, that of a socket, one kept under a name, or one with
the port of a socket. -/
inductive Target where
  | known (a : Address)
  | malformed
  | ofSocket (id : String)
  | saved (name : String)
  | withPortOf (ip : Ipv4) (id : String)
  deriving DecidableEq, Inhabited

/-- What a script can do with sockets. -/
inductive Action where
  | socket (id : String) (shared : Bool) (options : List SocketOption) (limits : ChunkLimits)
  | bind (id : String) (target : Target) (type : SocketType)
  | listen (id : String) (backlog : Int32)
  | accept (id controller context : String)
  | next (controller : String) (keep : Option String) (skipFaults : Bool)
  | glance (controller : String)
  | stop (controller : String)
  | connect (id : String) (target : Target) (type : SocketType) (ticket : Option String)
      (context : String)
  | connected (id keep : String)
  | abort (id : String)
  | ticket (id : String)
  | cancel (id : String)
  | cancelAfter (id : String) (ms : Nat)
  | localAddress (id : String)
  | peerAddress (id : String)
  | option (id : String) (level name : Int32)
  | save (id name : String)
  | close (id : String)
  | drop (id : String)
  | copy (id of : String)
  | describe (id : String)
  | pipe (id name : String)
  | startRead (pipe : String) (job : Option String) (length : Nat)
  | startWrite (pipe : String) (job : Option String) (data : Bytes)
  | finish (job : Option String)
  | closePipe (pipe : String)
  /-- Closes one end of a pipe: the one to write to, or else the one to read from. -/
  | closeEnd (pipe : String) (writing : Bool)
  | dropPipe (pipe : String)
  | limit (on : Bool)
  deriving Inhabited

/-- What a glance at an accept loop finds. -/
inductive Glimpse where
  | nothing | connection | ended
  | fault (f : Fault)
  deriving DecidableEq, Inhabited

inductive Answer where
  | wrongStage | unknownSocket | unknownController | unknownConnect | unknownPipe | unknownJob
  | unknownAddress | unknownTicket
  | options (count : Nat)
  | succeeded
  | failed (f : Fault)
  | address (text : String)
  | savedAddress (text : String)
  | option (value : Bytes)
  | opened (closed : Bool)
  | closing (before after : Bool)
  | stopped (closed : Bool)
  | glimpse (closed : Bool) (g : Glimpse) (listenerClosed : Bool)
  | ended
  | flag (b : Bool)
  | text (s : String)
  | outcome (o : Pipe.Outcome)
  /-- The outcome that is asked for is not there yet. -/
  | waiting
  | timeout

instance : Inhabited Answer := ⟨.waiting⟩

/-- A step of a request, the end of one, an outcome that reaches its receiver, or a loop that goes
on. -/
inductive Frame where
  | serve (r : Nat)
  | finish (r : Nat)
  | conclude (a : Nat)
  | announce (c : Nat)
  | attend (c : Nat)
  deriving DecidableEq, Inhabited

inductive Task where
  | request (r : Nat)
  | attempt (a : Nat)
  | acceptor (c : Nat)
  | alarm (i : Nat)
  deriving DecidableEq, Inhabited

abbrev signature : Signature where
  State := Sockets
  Action := Action
  Answer := Answer
  Frame := Frame
  Task := Task
  Note := Empty
  Tag := Unit

namespace Sockets

variable (s : Sockets)

def reply (a : Answer) : Turn signature := { state := s, next := .reply (.own a) }

/-- The turn is over, and requests are woken. -/
def done (wakes : List Nat) : Turn signature := { state := s, wakes := wakes.map .request }

/-- The address that a target stands for. -/
def resolve : Target → Option Address
  | .known a => some a
  | .malformed => none
  | .ofSocket id =>
    (s.handle? id).bind fun h => s.addressBehind (s.stageOf h) System.localAddress
  | .saved name => s.saved.lookup name
  | .withPortOf ip id =>
    ((s.handle? id).bind fun h => s.addressBehind (s.stageOf h) System.localAddress).bind fun a =>
      a.port?.map fun p => .inet4 ip p

/-- The answer where a stage does not have an operation: a socket of its own is not asked, a shared
one refuses. -/
def refuse (h : Handle) (operation : String) : Answer :=
  match h with
  | .sole _ => .wrongStage
  | .shared _ => .failed (.invalidState operation (s.stageOf h).name.text)

/-- Asks for something of the descriptor that a socket gives access to. -/
def access (id operation : String) (ask : Nat → Sockets × Answer) : Turn signature :=
  match s.handle? id with
  | none => s.reply .wrongStage
  | some h =>
    match s.descriptor? (s.stageOf h) with
    | none => s.reply (s.refuse h operation)
    | some (.error f) => s.reply (.failed f)
    | some (.ok d) =>
      let (s, a) := ask d
      s.reply a

/-- A failed step: a socket of its own is gone with it, a shared one stays as it was. -/
def fail (id : String) (h : Handle) (f : Fault) : Turn signature :=
  match h with
  | .sole _ => (s.forget id).reply (.failed f)
  | .shared _ => s.reply (.failed f)

def bind (id : String) (h : Handle) (a : Address) (type : SocketType) : Turn signature :=
  match s.stageOf h with
  | .unbound p =>
    match p.bind s.system a type with
    | (system, .error f) => { s with system }.fail id h f
    | (system, .ok d) =>
      ({ s with system }.setStage id h
        (.bound { descriptor := some d, limits := p.limits })).reply .succeeded
  | _ => s.reply (s.refuse h "bind")

def listen (id : String) (h : Handle) (backlog : Int32) : Turn signature :=
  match s.stageOf h with
  | .bound b =>
    match opened b.descriptor with
    | .error f => s.fail id h f
    | .ok d =>
      match s.system.listen d backlog with
      | .error e => s.fail id h (.ofOs .listen e)
      | .ok system =>
        match system.heed with
        -- The descriptor has been given away by now, and is gone.
        | (system, .error e) =>
          ({ s with system }.setStage id h (.bound { b with descriptor := none })).fail id h
            (.ofOs .listen e)
        | (system, .ok ()) =>
          let l := s.listeners.length
          let listener : Listener := { descriptor := some d, limits := b.limits }
          ({ s with system, listeners := s.listeners ++ [listener] }.setStage id h
            (.listening l)).reply .succeeded
  | _ => s.reply (s.refuse h "listen")

def accept (h : Handle) (controller : String) (context : Context) : Turn signature :=
  match s.stageOf h with
  | .listening l =>
    (s.addAcceptor controller { listener := l, context }).reply
      (.opened (s.isClosed (.listening l)))
  | _ => s.reply (s.refuse h "accept")

/-- Starts an attempt with what has been prepared for it. -/
def startAttempt (id : String) (h : Handle) (x : Attempt) : Turn signature :=
  let a := s.attempts.length
  let t := match h with
    | .sole _ => s.forget id
    | .shared _ => s.setStage id h (.connecting a)
  (t.addAttempt id x).reply .succeeded

def connect (id : String) (h : Handle) (target : Address) (type : SocketType)
    (ticket : Option Nat) (context : Context) : Turn signature :=
  match s.stageOf h with
  | .unbound p =>
    let (system, prepared) := p.prepare s.system target.family type
    { s with system }.startAttempt id h
      { prepared, target, ticket, context, limits := p.limits, slot := h.slot? }
  | .bound b =>
    s.startAttempt id h
      { prepared := opened b.descriptor, target, ticket, context, limits := b.limits
        slot := h.slot? }
  | _ => s.reply (s.refuse h "connect")

/-- Keeps a connection under a name. -/
def keep (name : Option String) (k : Nat) : Sockets :=
  match name with
  | some name => s.bindHandle name (.sole (.connected k))
  | none => s

def openedAnswer (k : Nat) : Answer := .opened (s.isClosed (.connected k))

/-- What an attempt has come to. -/
def connected (id name : String) (a : Nat) : Turn signature :=
  match (s.attempts[a]?.map fun x => x.progress : Option Progress) with
  | some (.delivered o) =>
    let t := { s with calls := s.calls.filter (·.1 ≠ id) }
    match o with
    | .ok k => (t.keep (some name) k).reply (s.openedAnswer k)
    | .error f => t.reply (.failed f)
  | _ => s.reply .waiting

/-- Whether an outcome is a failure. -/
def isFault : Outcome → Bool
  | .ok _ => false
  | .error _ => true

/-- The next outcome of an accept loop, or the next connection. -/
def next (c : Nat) (x : Acceptor) (name : Option String) (skipFaults : Bool) : Turn signature :=
  let setArrived (arrived : List Outcome) : Sockets :=
    s.modifyAcceptor c fun x => { x with arrived }
  match if skipFaults then x.arrived.dropWhile isFault else x.arrived with
  | .ok k :: rest => ((setArrived rest).keep name k).reply (s.openedAnswer k)
  | .error f :: rest => (setArrived rest).reply (.failed f)
  | [] => (setArrived []).reply (if x.isOver then .ended else .waiting)

/-- Takes what has arrived from an accept loop, without waiting. -/
def glance (c : Nat) (x : Acceptor) : Turn signature :=
  let g : Glimpse := match x.arrived with
    | .ok _ :: _ => .connection
    | .error f :: _ => .fault f
    | [] => if x.isOver then .ended else .nothing
  (s.modifyAcceptor c fun x => { x with arrived := x.arrived.drop 1 }).reply
    (.glimpse (s.isLoopClosed x) g (s.isClosed (.listening x.listener)))

/-- Asks for an address of a socket. -/
def askAddress (id operation : String) (kind : FaultKind)
    (ask : System → Nat → Except OsError Address) : Turn signature :=
  s.access id operation fun d =>
    match ask s.system d with
    | .error e => (s, .failed (.ofOs kind e))
    | .ok a =>
      let (t, text) := s.present a
      (t, .address text)

def askOption (id : String) (level name : Int32) : Turn signature :=
  s.access id "get_option" fun d =>
    match s.system.getOption d level name with
    | .error e => (s, .failed (.ofOs (.getOption level name) e))
    | .ok (system, value) => ({ s with system }, .option value)

def save (id name : String) : Turn signature :=
  match s.resolve (.ofSocket id) with
  | none => s.reply .unknownAddress
  | some a =>
    let (t, text) := s.present a
    { t with saved := (name, a) :: t.saved.filter (·.1 ≠ name) }.reply (.savedAddress text)

/-- A name for the same socket, where sockets can be shared. -/
def copy (id of : String) : Turn signature :=
  match s.handle? of with
  | some (.shared i) => { state := s.bindHandle id (.shared i) }
  | some (.sole (.listening l)) => { state := s.bindHandle id (.sole (.listening l)) }
  | some (.sole (.connected k)) => { state := s.bindHandle id (.sole (.connected k)) }
  | _ => s.reply .wrongStage

def pipe (h : Handle) (name : String) : Turn signature :=
  match s.stageOf h with
  | .connected k =>
    let (t, wakes) := s.addPipe name k
    { state := t
      wakes := wakes.map .request
      next := .reply (.own (.opened (s.isClosed (.connected k)))) }
  | _ => s.reply (s.refuse h "pipe")

/-- Cancels a ticket; whether it was not cancelled before. -/
def cancel (t : Nat) : Sockets × Bool :=
  if (s.tickets.reason? t).isSome then (s, false)
  else ({ s with tickets := s.tickets.settle t .requested }, true)

/-- An alarm goes off. -/
def ring (i : Nat) : Sockets :=
  match s.alarms[i]? with
  | none => s
  | some x =>
    if x.rung || s.clock < x.due then s
    else
      { s with
        alarms := s.alarms.set i { x with rung := true }
        tickets :=
          if (s.tickets.reason? x.ticket).isSome then s.tickets
          else s.tickets.settle x.ticket .timeout }

/-- The tasks that can go on. -/
def runnable : List Task :=
  (s.attempts.zipIdx.filterMap fun (x, a) => if s.isAttemptReady x then some (.attempt a) else none)
    ++ (s.acceptors.zipIdx.filterMap fun (x, c) =>
      if s.isAcceptorReady x then some (.acceptor c) else none)
    ++ ((List.range s.hub.requests.length).filterMap fun r =>
      if s.isRequestReady r then some (.request r) else none)
    ++ s.alarms.zipIdx.filterMap fun (x, i) =>
      if !x.rung && x.due ≤ s.clock then some (.alarm i) else none

/-- The end of a turn: what nothing owns is closed, and what can go on is woken. -/
def tidy (t : Turn signature) : Turn signature :=
  let s := t.state.reap
  { t with state := s, wakes := t.wakes ++ s.runnable }

/-- Runs an action on the socket of a name. -/
def withHandle (id : String) (run : Handle → Turn signature) : Turn signature :=
  match s.handle? id with
  | none => s.reply .wrongStage
  | some h => run h

def withAddress (target : Target) (run : Address → Turn signature) : Turn signature :=
  match s.resolve target with
  | none => s.reply .unknownAddress
  | some a => run a

def withContext (view : View) (name : String) (run : Context → Turn signature) : Turn signature :=
  match view.context? name with
  | none => { state := s, next := .reply .unknownContext }
  | some c => run c

def withController (name : String) (run : Nat → Acceptor → Turn signature) : Turn signature :=
  match s.controllers.lookup name with
  | none => s.reply .unknownController
  | some c =>
    match s.acceptors[c]? with
    | none => s.reply .unknownController
    | some x => run c x

def withTicket (id : String) (run : Nat → Turn signature) : Turn signature :=
  match s.tickets.sources.lookup id with
  | none => s.reply .unknownTicket
  | some t => run t

def withPipe (id : String) (run : Nat × Nat → Turn signature) : Turn signature :=
  match s.pipes.lookup id with
  | none => s.reply .unknownPipe
  | some ports => run ports

def abort (id : String) : Turn signature :=
  match (s.calls.lookup id).bind fun a => (s.attempts[a]?).map fun x => (a, x) with
  | some (a, x) =>
    if x.slot.isSome then s.reply .unknownConnect
    else (s.closeAttempt a).reply (.closing x.closed true)
  | none => s.reply .unknownConnect

def run (view : View) : Action → Turn signature
  | .socket id shared options limits =>
    let st : Stage := .unbound { options, limits }
    let t :=
      if shared then
        { s with slots := s.slots ++ [st] }.bindHandle id (.shared s.slots.length)
      else s.bindHandle id (.sole st)
    t.reply (.options options.length)
  | .bind id target type => s.withAddress target fun a => s.withHandle id fun h => s.bind id h a type
  | .listen id backlog => s.withHandle id fun h => s.listen id h backlog
  | .accept id controller context =>
    s.withHandle id fun h => s.withContext view context fun c => s.accept h controller c
  | .next controller name skipFaults =>
    s.withController controller fun c x => s.next c x name skipFaults
  | .glance controller => s.withController controller s.glance
  | .stop controller =>
    s.withController controller fun c _ =>
      (s.modifyAcceptor c fun x => { x with stopped := true }).reply (.stopped true)
  | .connect id target type ticket context =>
    s.withAddress target fun a => s.withHandle id fun h => s.withContext view context fun c =>
      match ticket with
      | none => s.connect id h a type none c
      | some name => s.withTicket name fun t => s.connect id h a type (some t) c
  | .connected id name =>
    match s.calls.lookup id with
    | none => s.reply .unknownConnect
    | some a => s.connected id name a
  | .abort id => s.abort id
  | .ticket id => { state := { s with tickets := s.tickets.addSource id } }
  | .cancel id =>
    s.withTicket id fun t =>
      let (s, fired) := s.cancel t
      s.reply (.flag fired)
  | .cancelAfter id ms =>
    s.withTicket id fun ticket =>
      { state := { s with alarms := s.alarms ++ [{ ticket, due := s.clock + ms }] } }
  | .localAddress id => s.askAddress id "local_address" .fetchLocalAddress System.localAddress
  | .peerAddress id => s.askAddress id "peer_address" .fetchPeerAddress System.peerAddress
  | .option id level name => s.askOption id level name
  | .save id name => s.save id name
  | .close id =>
    match s.handle? id with
    | none => s.reply .unknownSocket
    | some h =>
      let (t, wakes) := s.close id h
      t.done wakes
  | .drop id => (s.forget id).reply (.flag (s.handle? id).isSome)
  | .copy id of => s.copy id of
  | .describe id =>
    match s.handle? id with
    | none => s.reply .unknownSocket
    | some h =>
      let (t, text) := s.describe h
      t.reply (.text text)
  | .pipe id name => s.withHandle id fun h => s.pipe h name
  | .startRead pipe job length =>
    s.withPipe pipe fun ports =>
      let (t, wakes) := s.startJob job ports.1 (.read length 0) (.read [])
      t.done wakes
  | .startWrite pipe job data =>
    s.withPipe pipe fun ports =>
      let (t, wakes) := s.startJob job ports.2 (.ofData data) (.write [])
      t.done wakes
  | .finish job =>
    match s.jobs.lookup job with
    | none => s.reply .unknownJob
    | some k =>
      match s.finishJob job k with
      | none => s.reply .waiting
      | some (t, o) => t.reply (.outcome o)
  | .closePipe pipe =>
    s.withPipe pipe fun ports =>
      let (t, wakes) := s.closePorts [ports.1, ports.2]
      t.done wakes
  | .closeEnd pipe writing =>
    s.withPipe pipe fun ports =>
      let (t, wakes) := s.closePorts [if writing then ports.2 else ports.1]
      t.done wakes
  | .dropPipe pipe => (s.dropPipe pipe).reply (.flag (s.pipes.lookup pipe).isSome)
  | .limit on => { state := { s with system := { s.system with limited := on } } }

/-- A request goes on. -/
def serve (r : Nat) : Turn signature :=
  let (t, wakes, how) := s.advanceRequest r
  { state := t
    wakes := wakes.map .request
    next := match how with
      | .idle => .reply .done
      | .again => .enter [.serve r]
      | .finished => .enter [.finish r] }

def finish (r : Nat) : Turn signature :=
  let (t, wakes) := s.finishRequest r
  t.done wakes

/-- An attempt is taken up again. -/
def pursueTurn (a : Nat) : Turn signature :=
  match s.pursue a with
  | (t, none) => { state := t }
  | (t, some context) => { state := t, next := .perform context (.conclude a) [] }

/-- An accept loop goes on. -/
def attendTurn (c : Nat) : Turn signature :=
  match s.acceptors[c]?, s.attend c with
  | some x, (t, .tell) => { state := t, next := .perform x.context (.announce c) [] }
  | some x, (t, .tellAndGoOn) =>
    { state := t, next := .perform x.context (.announce c) [.attend c] }
  | _, (t, _) => { state := t }

def resume : Frame → Turn signature
  | .serve r => s.serve r
  | .finish r => s.finish r
  | .conclude a =>
    let (t, wakes) := s.conclude a
    t.done wakes
  | .announce c => { state := s.announce c }
  | .attend c => s.attendTurn c

/-- Cleans up after a frame that will not be run. -/
def unwind : Frame → Sockets
  | .serve r | .finish r => (s.finishRequest r).1
  | .conclude a => s.loseOutcome a
  | .announce c => s.loseNewest c
  | .attend _ => s

def poll : Task → Turn signature
  | .request r => s.serve r
  | .attempt a => s.pursueTurn a
  | .acceptor c => s.attendTurn c
  | .alarm i => { state := s.ring i }

end Sockets

/-- Sockets over the system. -/
def component : Component where
  toSignature := signature
  decTask := inferInstance
  exec view s a := Sockets.tidy (s.run view a)
  resume s f := Sockets.tidy (s.resume f)
  unwind s f :=
    let s := (s.unwind f).reap
    (s, s.runnable)
  poll s t := Sockets.tidy (s.poll t)
  tick s :=
    let s := { s with clock := s.clock + 1 }
    (s, s.runnable)

/-- How long an operation waits for an outcome, in milliseconds. -/
def patience : Nat := 1000

/-- Whether the last operation asked for an outcome that is not there yet. -/
def isWaiting (m : Machine component) : Bool :=
  match m.result? with
  | some (.own .waiting) => true
  | _ => false

/-- Asks again and again, for at most `n` milliseconds. -/
def await (op : Op Action) : Nat → Machine component → Machine component
  | 0, m => m.reply (.own .timeout)
  | n + 1, m =>
    let m := m.tick.call op
    if isWaiting m then await op n m else m

/-- Runs one operation to its end. One that asks for an outcome waits for it. -/
def call (m : Machine component) (op : Op Action) : Machine component :=
  let m := m.call op
  if isWaiting m then
    let m := m.rest.call op
    if isWaiting m then await op patience m else m
  else m

/-- Starts a job and waits for its end. -/
def callJob (m : Machine component) (start : Action) : Machine component :=
  let m := m.call (.own start)
  match m.result? with
  | some .done => call m (.own (.finish none))
  | _ => m

end Conduit.Socket
