import Conduit.Dispatch.Machine

/-!
Tickets of cancellation. A ticket is cancelled at most once, for a reason that stays; until then it
collects handlers, those that run a script and those that pass the reason on to a linked ticket.
Sources and kept tickets name tickets, timers cancel them later, and waiters wait for them. Links
and timers act only on a ticket that a name or a waiter refers to.
-/

namespace Conduit.Cancel

open Dispatch

inductive Reason where
  | requested | timeout
  deriving DecidableEq, Inhabited

def Reason.name : Reason → String
  | .requested => "Requested"
  | .timeout => "Timeout"

/-- What a script can do with tickets. -/
inductive Action where
  | source (id : String)
  | linked (id : String) (tickets : List String)
  | never (id : String)
  | keep (id ticket : String)
  | drop (id : String)
  | cancel (id : String)
  | cancelAfter (id : String) (ms : Nat)
  | timeout (id : String) (ms : Nat)
  | handler (ticket label : String) (context : Option String) (script : List (Op Action))
      (throws : Bool)
  | wait (ticket label : String)
  | describe (id : String)

instance : Inhabited Action := ⟨.cancel ""⟩

/-- A callback that logs its label and the reason, runs its script and then throws if it is to. -/
structure Callback where
  label : String
  script : List (Op Action)
  throws : Bool

/-- What a ticket does when it is cancelled: run a callback, on a context or in line, or cancel
another ticket for the same reason. -/
inductive Reaction where
  | callback (c : Callback) (context : Option Context)
  | link (target : Nat)

/-- A reaction that was registered on a ticket, with its number in the order of registration. -/
structure Handler where
  number : Nat
  reaction : Reaction

structure Ticket where
  reason : Option Reason := none
  handlers : List Handler := []
  deriving Inhabited

/-- A task that waits for a ticket. -/
structure Waiter where
  ticket : Nat
  label : String
  finished : Bool := false

/-- A task that cancels a ticket `ms` milliseconds after it has been served first. -/
structure Timer where
  ticket : Nat
  ms : Nat
  due : Option Nat := none
  finished : Bool := false

inductive Task where
  | waiter (k : Nat)
  | timer (k : Nat)
  deriving DecidableEq, Inhabited

/-- All tickets, and what refers to them. -/
structure Tickets where
  tickets : List Ticket := []
  /-- How many handlers have been registered. -/
  registered : Nat := 0
  sources : List (String × Nat) := []
  kept : List (String × Nat) := []
  waiters : List Waiter := []
  timers : List Timer := []
  clock : Nat := 0

namespace Tickets

def reason? (s : Tickets) (t : Nat) : Option Reason := s.tickets[t]?.bind (·.reason)

/-- The ticket of a name: a kept one before that of a source. -/
def ticket? (s : Tickets) (id : String) : Option Nat :=
  (s.kept.lookup id).or (s.sources.lookup id)

/-- Whether a name or a waiter refers to a ticket. -/
def Alive (s : Tickets) (t : Nat) : Prop :=
  (∃ e ∈ s.sources, e.2 = t) ∨ (∃ e ∈ s.kept, e.2 = t) ∨
    ∃ w ∈ s.waiters, w.ticket = t ∧ w.finished = false

instance (s : Tickets) (t : Nat) : Decidable (s.Alive t) := by
  unfold Alive; infer_instance

def addTicket (s : Tickets) : Tickets := { s with tickets := s.tickets ++ [{}] }

def nameSource (s : Tickets) (id : String) (t : Nat) : Tickets :=
  { s with sources := (id, t) :: s.sources.filter (·.1 ≠ id) }

/-- A new source of a new ticket. -/
def addSource (s : Tickets) (id : String) : Tickets :=
  s.addTicket.nameSource id s.tickets.length

/-- A name for a ticket. -/
def keep (s : Tickets) (id : String) (t : Nat) : Tickets :=
  { s with kept := (id, t) :: s.kept.filter (·.1 ≠ id) }

/-- A handler takes the next number. -/
def number (s : Tickets) : Tickets := { s with registered := s.registered + 1 }

/-- A ticket gets another handler. -/
def addHandler (s : Tickets) (t : Nat) (a : Reaction) : Tickets :=
  { s.number with tickets := s.tickets.modify t fun k =>
      { k with handlers := k.handlers ++ [⟨s.registered, a⟩] } }

/-- A ticket is cancelled: it has its reason and gives up its handlers. -/
def settle (s : Tickets) (t : Nat) (reason : Reason) : Tickets :=
  { s with tickets := s.tickets.set t { reason := some reason, handlers := [] } }

def handlersOf (s : Tickets) (t : Nat) : List Handler := (s.tickets[t]?.map (·.handlers)).getD []

/-- The tasks that wait for a ticket. -/
def waitersOf (s : Tickets) (t : Nat) : List Task :=
  s.waiters.zipIdx.filterMap fun (w, k) =>
    if w.ticket = t ∧ w.finished = false then some (.waiter k) else none

/-- Links a ticket to another one: a reason that is there is passed on at once. -/
def link (s : Tickets) (target t : Nat) : Tickets :=
  match s.reason? t with
  | none => s.addHandler t (.link target)
  | some r => if (s.reason? target).isNone then s.number.settle target r else s.number

/-- A new source whose ticket is linked to others. -/
def addLinked (s : Tickets) (id : String) (ts : List Nat) : Tickets :=
  let target := s.tickets.length
  (ts.foldl (fun s t => s.link target t) s.addTicket).nameSource id target

def addTimer (s : Tickets) (t ms : Nat) : Tickets :=
  { s with timers := s.timers ++ [{ ticket := t, ms }] }

def addWaiter (s : Tickets) (t : Nat) (label : String) : Tickets :=
  { s with waiters := s.waiters ++ [{ ticket := t, label }] }

/-- A name goes, with the source and the kept ticket that it had. -/
def drop (s : Tickets) (id : String) : Tickets :=
  { s with
    sources := s.sources.filter (·.1 ≠ id)
    kept := s.kept.filter (·.1 ≠ id) }

/-- The names in use with the reasons of their tickets. -/
def reasons (s : Tickets) : List (String × Option Reason) :=
  (s.kept ++ s.sources.filter fun e => (s.kept.lookup e.1).isNone).map fun e =>
    (e.1, s.reason? e.2)

end Tickets

end Conduit.Cancel
