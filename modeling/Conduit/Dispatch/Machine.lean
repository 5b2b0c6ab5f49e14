import Conduit.Dispatch.Component

/-!
The machine that runs the callbacks of a component: a stack of frames for what is running now, the
venues with the work that waits, and the tasks that the reactor is to serve. All of it moves one
small step at a time, and a journal keeps what has happened, newest first.

A throw passes every frame up to the turn of a venue, of the pool or of a task, which contains it;
without one it ends the operation.
-/

namespace Conduit.Dispatch

/-- Who a contained turn belongs to. -/
inductive Site where
  | pool
  | venue (v : Nat)
  deriving DecidableEq, Inhabited

/-- What is left to do. -/
inductive Frame (C : Component) where
  /-- A frame of the component. -/
  | own (f : C.Frame)
  /-- A callback with the operations that follow the one that runs. -/
  | script (tag : C.Tag) (rest : List (Op C.Action)) (throws : Bool)
  /-- A contained turn at a site. -/
  | turn (site : Site)
  /-- A contained turn of a task of the reactor. -/
  | task
  /-- A manual line that is moved by `left` more pieces of work, by all without a limit. -/
  | drain (v : Nat) (left : Option Nat) (ran : Nat)
  /-- A line of contained turns, which gives `after` in the end. -/
  | serve (v : Nat) (left : Option Nat) (after : Reply C.Answer)

/-- Where the machine stands: before an operation, behind a reply, or in a throw. -/
inductive Control (C : Component) where
  | run (op : Op C.Action)
  | back (r : Reply C.Answer)
  | thrown

/-- Where notes are kept apart: each serial venue has a lane of its own. -/
inductive Lane where
  | main
  | named (label : String)
  deriving DecidableEq, Inhabited

/-- What happened. -/
inductive Entry (C : Component) where
  | note (lane : Lane) (n : C.Note)
  | answered (lane : Lane) (tag : C.Tag) (r : Reply C.Answer)
  | queued (v : Nat) (work : C.Frame)
  | began (v : Nat) (work : C.Frame)
  | ended (site : Site)

/-- What goes on by itself: a line, of a serial venue, of the pool or of a thread that has been
stopped, or a task of the component. -/
inductive Task (C : Component) where
  | serve (v : Nat)
  | own (t : C.Task)
  deriving DecidableEq

structure Machine (C : Component) where
  state : C.State
  names : List (String × Context) := [("direct", .shared)]
  venues : List (Venue C.Frame) := []
  /-- The identity of the next reference. -/
  identities : Nat := 1
  /-- The venue of the default thread, while it has not been stopped. -/
  defaultThread : Option Nat := none
  /-- The tasks that have been woken, in the order in which they are served. -/
  ready : List (Task C) := []
  stack : List (Frame C) := []
  control : Control C := .back .done
  journal : List (Entry C) := []

namespace Machine

variable {C : Component}

/-- The context of a name; an empty name means the shared direct one. -/
def context? (m : Machine C) (id : String) : Option Context :=
  if id = "" then some .shared else m.names.lookup id

def view (m : Machine C) : View :=
  { context? := m.context?, venue? := fun v => m.venues[v]?.map fun q => (q.kind, q.name) }

/-- The site whose turn runs now. -/
def site? (m : Machine C) : Option Site :=
  m.stack.findSome? fun
    | .turn s => some s
    | _ => none

def lane (m : Machine C) : Lane :=
  match m.site? with
  | some (.venue v) =>
    match m.venues[v]? with
    | some q => if q.kind = .serial then .named q.name else .main
    | none => .main
  | _ => .main

/-- Whether the line of a venue is being served. -/
def isServing (m : Machine C) (v : Nat) : Bool :=
  m.stack.any fun
    | .serve w _ _ => w = v
    | _ => false

def reply (m : Machine C) (r : Reply C.Answer) : Machine C := { m with control := .back r }

def record (m : Machine C) (e : Entry C) : Machine C := { m with journal := e :: m.journal }

/-- A woken task is served once, however often it is woken before. -/
def wake (m : Machine C) (t : Task C) : Machine C :=
  if t ∈ m.ready then m else { m with ready := m.ready ++ [t] }

/-- Tasks of the component are woken in order. -/
def wakeAll (m : Machine C) (ts : List C.Task) : Machine C :=
  ts.foldl (fun m t => m.wake (.own t)) m

/-- A frame is dropped without being run. -/
def discard (m : Machine C) (f : C.Frame) : Machine C :=
  let (state, wakes) := C.unwind m.state f
  { m with state }.wakeAll wakes

/-- Work joins the line of a venue, whose task is woken if it goes on by itself. A venue that does not
accept work drops it. -/
def enqueue (m : Machine C) (v : Nat) (work : C.Frame) : Machine C :=
  match m.venues[v]? with
  | none => m
  | some q =>
    if !q.accepting then m.discard work
    else
      let m := { m with venues := m.venues.set v (q.push work) }.record (.queued v work)
      if q.kind.isEager then m.wake (.serve v) else m

/-- Gives work to a context. -/
def handOver (m : Machine C) (c : Context) (work : C.Frame) : Machine C :=
  match c.place with
  | .direct => { m with stack := .own work :: m.stack, control := .back .done }
  | .pool => { m with stack := .own work :: .turn .pool :: m.stack, control := .back .done }
  | .venue v => (m.enqueue v work).reply .done

/-- Goes on with a callback. -/
def runScript (m : Machine C) (tag : C.Tag) (ops : List (Op C.Action)) (throws : Bool) :
    Machine C :=
  match ops with
  | [] => { m with control := if throws then .thrown else .back .done }
  | op :: rest => { m with stack := .script tag rest throws :: m.stack, control := .run op }

/-- Puts frames of the component on the stack, the first one on top. -/
def pushOwn (m : Machine C) (k : List C.Frame) : Machine C :=
  { m with stack := k.map .own ++ m.stack }

/-- Takes over a turn of the component. -/
def take (m : Machine C) (t : Turn C.toSignature) : Machine C :=
  let lane := m.lane
  let m := { m with
    state := t.state
    journal := (t.notes.map fun n => Entry.note lane n).reverse ++ m.journal }
  let m := m.wakeAll t.wakes
  match t.next with
  | .reply r => m.reply r
  | .throw => { m with control := .thrown }
  | .enter k => (m.pushOwn k).reply .done
  | .script tag ops throws k => (m.pushOwn k).runScript tag ops throws
  | .perform c work k => (m.pushOwn k).handOver c work

/-- The oldest work of a venue leaves its line. -/
def next? (m : Machine C) (v : Nat) : Option (C.Frame × Machine C) :=
  match m.venues[v]? with
  | none => none
  | some q =>
    match q.waiting with
    | [] => none
    | work :: rest =>
      some (work, { m with
        venues := m.venues.set v { q with waiting := rest }
        journal := .began v work :: m.journal })

/-- Goes on moving a manual line. -/
def drain (m : Machine C) (v : Nat) (left : Option Nat) (ran : Nat) : Machine C :=
  if left = some 0 then m.reply (.ran ran)
  else
    match m.next? v with
    | none => m.reply (.ran ran)
    | some (work, m) => { m with
        stack := .own work :: .drain v (left.map (· - 1)) (ran + 1) :: m.stack
        control := .back .done }

/-- Goes on serving a line. -/
def serve (m : Machine C) (v : Nat) (left : Option Nat) (after : Reply C.Answer) : Machine C :=
  if left = some 0 then m.reply after
  else
    match m.next? v with
    | none => m.reply after
    | some (work, m) => { m with
        stack := .own work :: .turn (.venue v) :: .serve v (left.map (· - 1)) after :: m.stack
        control := .back .done }

/-- Names a new reference to a place. -/
def bind (m : Machine C) (id : String) (place : Place) : Machine C :=
  { m with
    names := (id, ⟨m.identities, place⟩) :: m.names.filter (·.1 ≠ id)
    identities := m.identities + 1 }

/-- Names a reference to a new venue. -/
def openVenue (m : Machine C) (id : String) (kind : VenueKind) (name : String) : Machine C :=
  let opened : Machine C := { m with venues := m.venues ++ [{ kind, name }] }
  opened.bind id (.venue m.venues.length)

def make (m : Machine C) (id : String) : ContextKind → Machine C
  | .direct => (m.bind id .direct).reply .done
  | .pool => (m.bind id .pool).reply .done
  | .concurrent => (m.openVenue id .pool id).reply .done
  | .manual => (m.openVenue id .manual id).reply .done
  | .serial label =>
    ((m.openVenue id .serial label).wake (.serve m.venues.length)).reply .done
  | .thread name => (m.openVenue id .thread name).reply .done
  | .defaultThread =>
    match m.defaultThread with
    | some v => (m.bind id (.venue v)).reply .done
    | none =>
      { m.openVenue id .thread "tether-runloop" with
        defaultThread := some m.venues.length }.reply .done
  | .copy of =>
    match m.context? of with
    | none => m.reply .unknownContext
    | some c =>
      let isManual : Bool := match c.place with
        | .venue v => (m.venues[v]?.map (·.kind)) = some .manual
        | _ => false
      if isManual then
        { m with names := (id, c) :: m.names.filter (·.1 ≠ id) }.reply .done
      else (m.bind id c.place).reply .done

/-- The venue of a name, if it is of a kind. -/
def venue? (m : Machine C) (id : String) (kind : VenueKind) : Option Nat :=
  match m.context? id with
  | some ⟨_, .venue v⟩ => if (m.venues[v]?.map (·.kind)) = some kind then some v else none
  | _ => none

/-- A venue stops taking work, and its handle is taken; a default thread that stops is no longer the
default. -/
def close (m : Machine C) (v : Nat) : Machine C :=
  { m with
    venues := m.venues.modify v fun q => { q with accepting := false, handle := false }
    defaultThread := m.defaultThread.filter (· ≠ v) }

def hasHandle (m : Machine C) (v : Nat) : Bool := (m.venues[v]?.map (·.handle)).getD false

/-- Stops a thread. Whoever takes its handle, from outside, waits until it has come to its end, that
is, until its line has been served. Nobody else waits: without the handle it cannot be waited for, and
its own work must not wait for it. Then the thread goes on by itself. A stop that comes from outside
while work of the thread waits for it could never return; it gives its answer at once. -/
def stop (m : Machine C) (v : Nat) : Machine C :=
  let answer : Reply C.Answer := if m.site? = some (.venue v) then .selfStopped else .stopped
  if !m.hasHandle v then (m.close v).reply answer
  else if m.isServing v then ((m.close v).wake (.serve v)).reply answer
  else (m.close v).serve v none .stopped

/-- A line that is being served is served to its end. -/
def widen (m : Machine C) (v : Nat) : Machine C :=
  { m with stack := m.stack.map fun
      | .serve w left after => .serve w (if w = v then none else left) after
      | f => f }

/-- Forgets a name. With the last name of a thread its line runs to its end. -/
def forget (m : Machine C) (id : String) : Machine C :=
  let gone := m.venue? id .thread
  let m := { m with names := m.names.filter (·.1 ≠ id) }
  match gone with
  | none => m.reply .done
  | some v =>
    if m.names.any (·.2.place = .venue v) || m.defaultThread = some v then m.reply .done
    else if m.isServing v then (m.widen v).reply .done
    else m.serve v none .done

def disciplineOf (m : Machine C) (c : Context) : Discipline :=
  match c.place with
  | .direct => .direct
  | .pool => .concurrent
  | .venue v => if (m.venues[v]?.map (·.kind)) = some .pool then .concurrent else .serial

/-- Runs an operation on contexts. -/
def runContext (m : Machine C) : ContextOp → Machine C
  | .make id kind => m.make id kind
  | .drain id limit =>
    match m.venue? id .manual with
    | none => m.reply .unknownContext
    | some v => m.drain v limit 0
  | .flush id =>
    match m.venue? id .thread with
    | none => m.reply .unknownContext
    | some v =>
      match m.venues[v]? with
      | none => m.reply .unknownContext
      | some q =>
        if !q.accepting then m.reply .stopped
        else if m.isServing v then m.reply .flushed
        else m.serve v (some q.waiting.length) .flushed
  | .stop id =>
    match m.venue? id .thread with
    | none => m.reply .unknownContext
    | some v => m.stop v
  | .forget id => m.forget id
  | .discipline id =>
    match m.context? id with
    | none => m.reply .unknownContext
    | some c => m.reply (.discipline (m.disciplineOf c))
  | .same a b =>
    match m.context? a, m.context? b with
    | some c, some d => m.reply (.same (c = d))
    | _, _ => m.reply .unknownContext
  | .inspect id =>
    match m.context? id with
    | none => m.reply .done
    | some c =>
      match c.place with
      | .venue v =>
        match m.venues[v]? with
        | some ⟨.serial, name, _, _, _⟩ => m.reply (.serial name (m.view.describe c))
        | some ⟨.thread, name, _, _, _⟩ =>
          m.reply (.thread name (m.site? = some (.venue v)) (m.view.describe c))
        | _ => m.reply .done
      | _ => m.reply .done

/-- A reply reaches a frame that has left the stack. -/
def returnTo (m : Machine C) (r : Reply C.Answer) : Frame C → Machine C
  | .own f => m.take (C.resume m.state f)
  | .script tag rest throws => (m.record (.answered m.lane tag r)).runScript tag rest throws
  | .turn site => (m.record (.ended site)).reply .done
  | .task => m.reply .done
  | .drain v left ran => m.drain v left ran
  | .serve v left after => m.serve v left after

/-- A throw reaches a frame that has left the stack. -/
def unwind (m : Machine C) : Frame C → Machine C
  | .own f => m.discard f
  | .turn site => (m.record (.ended site)).reply .done
  | .task => m.reply .done
  | _ => m

/-- One step of what is running; nothing when nothing is. -/
def step? (m : Machine C) : Option (Machine C) :=
  match m.control with
  | .run (.own a) => some (m.take (C.exec m.view m.state a))
  | .run (.context o) => some (m.runContext o)
  | .back r =>
    match m.stack with
    | [] => none
    | f :: rest => some ({ m with stack := rest }.returnTo r f)
  | .thrown =>
    match m.stack with
    | [] => none
    | f :: rest => some ({ m with stack := rest }.unwind f)

/-- The reactor turns to the task that was woken first: this is the order in which a runtime of one
thread serves its tasks. -/
def poll? (m : Machine C) : Option (Machine C) :=
  match m.ready with
  | [] => none
  | t :: rest =>
    let m := { m with ready := rest, stack := [.task], control := .back .done }
    match t with
    | .serve v => some (m.serve v none .done)
    | .own t => some (m.take (C.poll m.state t))

/-- One step of what is running, or else of the reactor. -/
def advance? (m : Machine C) : Option (Machine C) :=
  match m.step? with
  | some m => some m
  | none => m.poll?

/-- The thread of a venue, or the pool, takes up `n` pieces of work by itself, while nothing else
runs. That it gets its turn amid a callback is to say that the callback flushes it there. -/
def proceed (m : Machine C) (v n : Nat) : Machine C :=
  ({ m with stack := [], control := .back .done } : Machine C).serve v (some n) .done

/-- At most `n` steps of what is running. -/
def run : Nat → Machine C → Machine C
  | 0, m => m
  | n + 1, m =>
    match m.step? with
    | some m => run n m
    | none => m

/-- At most `n` steps until nothing is left to run or to serve. -/
def settle : Nat → Machine C → Machine C
  | 0, m => m
  | n + 1, m =>
    match m.advance? with
    | some m => settle n m
    | none => m

/-- More steps than any script takes. -/
def patience : Nat := 1 <<< 50

/-- Runs one operation to its end. -/
def call (m : Machine C) (op : Op C.Action) : Machine C :=
  run patience { m with stack := [], control := .run op }

/-- What the last operation gave back; nothing if it threw. -/
def result? (m : Machine C) : Option (Reply C.Answer) :=
  match m.control with
  | .back r => some r
  | _ => none

/-- Runs everything that has been woken. -/
def rest (m : Machine C) : Machine C := settle patience m

/-- A millisecond passes, and everything that it wakes runs. -/
def tick (m : Machine C) : Machine C :=
  let (state, wakes) := C.tick m.state
  ({ m with state }.wakeAll wakes).rest

/-- Milliseconds pass one by one. -/
def elapse (m : Machine C) (ms : Nat) : Machine C := ms.repeat tick m

/-- What happened since the journal was `n` entries long, oldest first. -/
def journalSince (m : Machine C) (n : Nat) : List (Entry C) :=
  (m.journal.take (m.journal.length - n)).reverse

end Machine

end Conduit.Dispatch
