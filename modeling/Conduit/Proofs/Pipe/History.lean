import Conduit.Pipe.Session
import Conduit.Proofs.Dispatch.Run
import Conduit.Proofs.Pipe.Use

/-!
What pipes do in a run: ports open, requests are issued, devices are used and receivers are told.
All of it is read off the turns of the run; what a turn asks of the devices is what they record. A
request has the number of its receiver, and receivers are numbered in the order in which their
requests are issued.
-/

namespace Conduit.Pipe

open Dispatch

/-- The end of a pipe that a port stands for, with its device. -/
inductive End where
  | source (device : Scripted) (limits : ChunkLimits)
  | sink (device : Scripted) (limits : ChunkLimits)

/-- The most bytes that one transfer moves. -/
def End.chunk : End → Nat
  | .source _ limits => limits.read
  | .sink _ limits => limits.write

inductive Deed where
  | opened (e : End)
  /-- The request of a receiver was issued on a port. -/
  | asked (receiver port : Nat) (job : Job)
  /-- A request used the device of its port. -/
  | used (receiver : Option Nat) (u : Use)
  /-- A report was handed to the context of its receiver. -/
  | told (receiver : Nat) (e : Event)
  /-- A request ended and made no last report: its buffer could not be had, or a report was
  `thrown` out of. -/
  | lost (receiver : Nat) (thrown : Bool)

/-- The reports that a turn hands over. -/
def reports : Next signature → List Deed
  | .perform _ (.deliver k e) _ | .enter (.deliver k e :: _) => [.told k e]
  | _ => []

/-- The port and the work of the request that an action issues. -/
def issue? (view : View) (s : Session) : Action → Option (Nat × Job)
  | .requestRead id _ context length _ _ =>
    match s.source? id, view.context? context with
    | some p, some _ => some (p, .read length 0)
    | _, _ => none
  | .requestWrite id _ context data _ _ =>
    match s.sink? id, view.context? context with
    | some p, some _ => some (p, .ofData data)
    | _, _ => none
  | .readAll id _ length => (s.source? id).map fun p => (p, .read length 0)
  | .writeAll id _ data => (s.sink? id).map fun p => (p, .ofData data)
  | _ => none

/-- The end that an action opens. -/
def open? : Action → Option End
  | .source _ device limits => some (.source device limits)
  | .sink _ device limits => some (.sink device limits)
  | _ => none

/-- The receiver of a request. -/
def receiver? (s : Session) (r : Nat) : Option Nat := s.hub.requests[r]?.bind (·.receiver)

/-- What is done when an action runs. -/
def execDeeds (view : View) (s : Session) (a : Action) : List Deed :=
  (open? a).toList.map .opened ++
    (issue? view s a).toList.map (fun i => .asked s.receivers.length i.1 i.2) ++
    reports (exec view s a).next

/-- What is done when a request goes on. -/
def serveDeeds (s : Session) (r : Nat) : List Deed :=
  (s.hub.uses Scripted.devices s.devices r).map (.used (receiver? s r)) ++
    (if (s.hub.advance Scripted.devices s.devices r).2.2.2 = .crash
      then (receiver? s r).toList.map (.lost · false) else []) ++
    reports (serve s r).next

/-- What is done at a moment. A throw that passes a request before its last report ends it. -/
def deedsAt : Moment component → List Deed
  | ⟨s, .exec view a⟩ => execDeeds view s a
  | ⟨s, .resume (.serve r)⟩ => serveDeeds s r
  | ⟨s, .poll (.request r)⟩ => serveDeeds s r
  | ⟨s, .unwind (.serve r)⟩ => (receiver? s r).toList.map (.lost · true)
  | _ => []

/-- What was done at the moments of a run, in order. -/
def deeds (past : List (Moment component)) : List Deed := past.flatMap deedsAt

/-- Pipes that nothing has been done with. -/
def start : Machine component := { state := ({} : Session) }

/-- What was done in an execution. -/
def history {m : Machine component} (x : Execution m) : List Deed := deeds x.past

/-- What one request did: it used its device, or it reported. -/
inductive Act where
  | use (u : Use)
  | tell (e : Event)

/-- What a deed is to one receiver. -/
def Deed.act? (k : Nat) : Deed → Option Act
  | .used (some j) u => if j = k then some (.use u) else none
  | .told j e => if j = k then some (.tell e) else none
  | _ => none

/-- What the request of a receiver did, in order. -/
def acts (k : Nat) (h : List Deed) : List Act := h.filterMap (·.act? k)

namespace Act

def event? : Act → Option Event
  | .tell e => some e
  | .use _ => none

def moved : Act → Bytes
  | .use u => u.moved
  | .tell _ => []

end Act

/-- The reports that a receiver got, in order. -/
def events (k : Nat) (h : List Deed) : List Event := (acts k h).filterMap (·.event?)

/-- The bytes that the request of a receiver moved, in order. -/
def moved (k : Nat) (h : List Deed) : Bytes := (acts k h).flatMap (·.moved)

/-- The request of a receiver ended and made no last report. -/
def Gone (k : Nat) (h : List Deed) : Prop := ∃ thrown, .lost k thrown ∈ h

def Deed.end? : Deed → Option End
  | .opened e => some e
  | _ => none

/-- The ends that were opened; port `p` is the one at place `p`. -/
def opened (h : List Deed) : List End := h.filterMap (·.end?)

def Deed.issue? (p : Nat) : Deed → Option Nat
  | .asked k p' _ => if p' = p then some k else none
  | _ => none

/-- The receivers of the requests on a port, in the order in which they were issued. -/
def issued (p : Nat) (h : List Deed) : List Nat := h.filterMap (·.issue? p)

def Deed.use? (p : Nat) : Deed → Option Use
  | .used _ u => if u.port = p then some u else none
  | _ => none

/-- What was asked of the device of a port, in order. -/
def usesOf (p : Nat) (h : List Deed) : List Use := h.filterMap (·.use? p)

/-- The bytes that the device of a port handed out or accepted, in order. -/
def transferred (p : Nat) (h : List Deed) : Bytes := (usesOf p h).flatMap (·.moved)

section Append

variable (k p : Nat) (h h' : List Deed)

@[simp] theorem deeds_append (past later : List (Moment component)) :
    deeds (past ++ later) = deeds past ++ deeds later := List.flatMap_append

@[simp] theorem acts_append : acts k (h ++ h') = acts k h ++ acts k h' := List.filterMap_append

@[simp] theorem events_append : events k (h ++ h') = events k h ++ events k h' := by
  simp [events]

@[simp] theorem moved_append : moved k (h ++ h') = moved k h ++ moved k h' := by
  simp [moved]

@[simp] theorem gone_nil : ¬Gone k [] := by simp [Gone]

@[simp] theorem gone_cons (d : Deed) :
    Gone k (d :: h) ↔ (∃ thrown, d = .lost k thrown) ∨ Gone k h := by
  simp [Gone, exists_or, eq_comm]

@[simp] theorem gone_uses (o : Option Nat) (us : List Use) : ¬Gone k (us.map (.used o)) := by
  simp [Gone]

@[simp] theorem gone_append : Gone k (h ++ h') ↔ Gone k h ∨ Gone k h' := by
  simp [Gone, exists_or]

@[simp] theorem opened_append : opened (h ++ h') = opened h ++ opened h' := List.filterMap_append

@[simp] theorem issued_append : issued p (h ++ h') = issued p h ++ issued p h' :=
  List.filterMap_append

theorem usesOf_append : usesOf p (h ++ h') = usesOf p h ++ usesOf p h' := List.filterMap_append

@[simp] theorem transferred_append :
    transferred p (h ++ h') = transferred p h ++ transferred p h' := by
  simp [transferred, usesOf]

end Append

end Conduit.Pipe
