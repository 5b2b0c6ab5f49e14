import Conduit.Proofs.Dispatch.Frames
import Conduit.Socket.Session

/-!
What is left of a run of sockets when descriptors, pipes and names are forgotten: the slots that
copies share, how far every attempt to connect has come, and the outcomes that are on their way to
their contexts. Every step of a configuration is one move of its desk.
-/

namespace Conduit.Socket

open Dispatch
open Kernel (Whim)

/-- The changes of the stage of a slot. -/
inductive StageName.Step : StageName → StageName → Prop where
  | bind : Step .unbound .bound
  | connect : Step .unbound .connecting
  | listen : Step .bound .listening
  | connectBound : Step .bound .connecting
  | settle : Step .connecting .connected
  | close (n : StageName) : Step n .closed

/-- An attempt whose outcome has not been decided. -/
def Progress.isOpen : Progress → Bool
  | .fresh | .waiting => true
  | _ => false

/-- How far an attempt has come, with the slot that it is made for and the context for its outcome. -/
structure Course where
  slot : Option Nat
  context : Context
  progress : Progress

def Attempt.course (x : Attempt) : Course := ⟨x.slot, x.context, x.progress⟩

/-- What is done with the handler of an attempt, or with a slot. -/
inductive Deed where
  /-- Connecting has been asked for, and the call has returned. -/
  | asked (a : Nat)
  /-- The handler is given to a context. -/
  | dispatched (a : Nat) (c : Context)
  /-- The handler is run. -/
  | heard (a : Nat)
  /-- The shared socket in a slot is closed. -/
  | closed (i : Nat)
  /-- The shared socket in a slot has lost its descriptor. -/
  | stripped (i : Nat)
  deriving DecidableEq

/-- The attempt whose handler is concerned. -/
def Deed.attempt? : Deed → Option Nat
  | .asked a | .dispatched a _ | .heard a => some a
  | .closed _ | .stripped _ => none

/-- The attempt that a call to connect has started, if the answer is yes. -/
def started (s : Sockets) (next : Next signature) : List Deed :=
  match next with
  | .reply (.own .succeeded) => [.asked s.attempts.length]
  | _ => []

/-- The slot of a shared socket that is closed. -/
def closings : Option Handle → List Deed
  | some (.shared i) => [.closed i]
  | _ => []

/-- The slot of a shared socket that listens but cannot be watched, and so loses its descriptor. -/
def strippings (s : Sockets) (h : Handle) (backlog : Int32) : List Deed :=
  match h, s.stageOf h with
  | .shared i, .bound b =>
    match opened b.descriptor with
    | .error _ => []
    | .ok d =>
      match s.system.listen d backlog with
      | .error _ => []
      | .ok system =>
        match system.heed with
        | (_, .error _) => [.stripped i]
        | (_, .ok ()) => []
  | _, _ => []

/-- What an action does that comes to `next`. -/
def doneBy (s : Sockets) (next : Next signature) : Action → List Deed
  | .connect .. => started s next
  | .close id => closings (s.handle? id)
  | .listen id backlog =>
    match s.handle? id with
    | some h => strippings s h backlog
    | none => []
  | _ => []

/-- A handler that a turn gives to a context. -/
def dispatches : Next signature → List Deed
  | .perform c (.conclude a) _ => [.dispatched a c]
  | _ => []

/-- What is done at a moment. -/
def deedsAt (q : Moment component) : List Deed :=
  match q.cause with
  | .exec view act => doneBy q.state (component.exec view q.state act).next act
  | .resume (.conclude a) => [.heard a]
  | .resume f => dispatches (component.resume q.state f).next
  | .poll t => dispatches (component.poll q.state t).next
  | .unwind _ | .tick => []

def deeds (past : List (Moment component)) : List Deed := past.flatMap deedsAt

theorem deeds_append (past past' : List (Moment component)) :
    deeds (past ++ past') = deeds past ++ deeds past' :=
  List.flatMap_append

/-- What is done with the handler of one attempt, in order. -/
def tale (a : Nat) (h : List Deed) : List Deed := h.filter (·.attempt? = some a)

theorem tale_append (a : Nat) (h h' : List Deed) : tale a (h ++ h') = tale a h ++ tale a h' :=
  List.filter_append ..

/-- There are no sockets yet. There may be a way to Internet addresses, and the system may have whims. -/
def opening (reachable : Bool) (whims : List Whim) : Machine component :=
  { state := { system := { reachable, whims } } }

/-- The machine is one on which there are no sockets yet. -/
class Blank (m : Machine component) : Prop where
  opens : ∃ reachable whims, m = opening reachable whims

instance (reachable : Bool) (whims : List Whim) : Blank (opening reachable whims) :=
  ⟨reachable, whims, rfl⟩

/-- All that is done in a run. -/
def history {m : Machine component} (x : Execution m) : List Deed := deeds x.past

/-- Where slots and attempts stand. -/
structure Desk where
  slots : List Stage
  courses : List Course
  /-- The number of connections that have been made. -/
  connections : Nat
  /-- How often the outcome of an attempt is on its way. -/
  pending : Nat → Nat

namespace Desk

/-- What an outcome comes to at a slot, and the slots after it. -/
def settle (slots : List Stage) (i : Nat) (o : Outcome) : List Stage × Outcome :=
  match slots[i]?, o with
  | some (.connecting _), .ok k => (slots.set i (.connected k), .ok k)
  | some (.connecting _), .error f => (slots.set i .closed, .error f)
  | _, .ok _ => (slots, .error .closed)
  | _, .error f => (slots, .error f)

/-- What an outcome comes to, and the slots after it. -/
def deliver (slots : List Stage) (slot : Option Nat) (o : Outcome) : List Stage × Outcome :=
  match slot with
  | none => (slots, o)
  | some i => settle slots i o

variable (d : Desk)

/-- An attempt comes further. -/
def setProgress (a : Nat) (progress : Progress) : Desk :=
  { d with courses := d.courses.modify a fun x => { x with progress } }

@[simp] theorem setProgress_setProgress (a : Nat) (p p' : Progress) :
    (d.setProgress a p).setProgress a p' = d.setProgress a p' := by
  simp [setProgress, List.modify_modify_eq, Function.comp_def]

/-- An outcome has left its context. -/
def took (a : Nat) : Desk :=
  { d with pending := fun b => if b = a then d.pending b - 1 else d.pending b }

/-- The outcome of an attempt is settled with its slot. -/
def conclude (a : Nat) : Desk :=
  match d.courses[a]? with
  | some ⟨slot, _, .decided o⟩ =>
    { d.setProgress a (.delivered (deliver d.slots slot o).2) with
      slots := (deliver d.slots slot o).1 }
  | _ => d

theorem conclude_decided {d : Desk} {a : Nat} {slot : Option Nat} {c : Context} {o : Outcome}
    (h : d.courses[a]? = some ⟨slot, c, .decided o⟩) :
    d.conclude a = { d.setProgress a (.delivered (deliver d.slots slot o).2) with
      slots := (deliver d.slots slot o).1 } := by
  simp only [conclude, h]

/-- The moves of a desk, and what is done in them. -/
inductive Move : List Deed → Desk → Prop where
  | still : Move [] d
  | meet : Move [] { d with connections := d.connections + 1 }
  | openSlot (p : Plan) : Move [] { d with slots := d.slots ++ [.unbound p] }
  | bind {i p} (e : Nat) (limits : ChunkLimits) (h : d.slots[i]? = some (.unbound p)) :
      Move [] { d with slots := d.slots.set i (.bound ⟨some e, limits⟩) }
  | listen {i b} (l : Nat) (h : d.slots[i]? = some (.bound b)) :
      Move [] { d with slots := d.slots.set i (.listening l) }
  | strip {i b} (h : d.slots[i]? = some (.bound b)) :
      Move [.stripped i] { d with slots := d.slots.set i (.bound { b with descriptor := none }) }
  | close (i : Nat) : Move [.closed i] { d with slots := d.slots.set i .closed }
  | connect {i st} (c : Context) (h : d.slots[i]? = some st)
      (hst : st.name = .unbound ∨ st.name = .bound) : Move [.asked d.courses.length] { d with
        slots := d.slots.set i (.connecting d.courses.length)
        courses := d.courses ++ [⟨some i, c, .fresh⟩] }
  | connectSole (c : Context) : Move [.asked d.courses.length] { d with
        courses := d.courses ++ [⟨none, c, .fresh⟩] }
  | wait {a x} (h : d.courses[a]? = some x) (hx : x.progress.isOpen) :
      Move [] (d.setProgress a .waiting)
  | decide {a x o n} (h : d.courses[a]? = some x) (hx : x.progress.isOpen)
      (hn : d.connections ≤ n) (ho : ∀ k, o = .ok k → k < n) :
      Move [.dispatched a x.context] { d.setProgress a (.decided o) with
        connections := n
        pending := fun b => if b = a then d.pending b + 1 else d.pending b }
  /-- The context does not take the handler. -/
  | refuse {a x o n progress} (h : d.courses[a]? = some x) (hx : x.progress.isOpen)
      (hn : d.connections ≤ n) (ho : ∀ k, o = .ok k → k < n)
      (hp : progress = .decided o ∨ progress = .lost) :
      Move [.dispatched a x.context] { d.setProgress a progress with connections := n }
  | conclude {a} (h : 0 < d.pending a) : Move [.heard a] ((d.conclude a).took a)
  | lose {a} (h : 0 < d.pending a) : Move [] ((d.setProgress a .lost).took a)

end Desk

/-- The part of a desk that a state holds; `pending` is left to the frames. -/
def Sockets.desk (s : Sockets) (pending : Nat → Nat) : Desk where
  slots := s.slots
  courses := s.attempts.map (·.course)
  connections := s.connections.length
  pending := pending

/-- How often the outcomes of attempts are on their way in some frames. -/
def pendingIn (frames : List Frame) (a : Nat) : Nat := frames.count (.conclude a)

/-- All that is left to do in a configuration. -/
def todo (c : Config component) : List Frame := c.frames

/-- The desk of a configuration. -/
def desk (c : Config component) : Desk := c.state.desk (pendingIn (todo c))

end Conduit.Socket
