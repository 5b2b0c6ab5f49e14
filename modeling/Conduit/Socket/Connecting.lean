import Conduit.Socket.Sockets

/-!
Attempts to connect. An attempt is decided once: by the failure to prepare its descriptor, else by
its ticket, else by a close, else by the system. Its outcome then goes to a context, where it is
settled with the slot that the attempt was made for and kept for whoever asks.
-/

namespace Conduit.Socket

open Dispatch (Context)
open Kernel (System)

namespace Sockets

variable (s : Sockets)

def isCancelled (ticket : Option Nat) : Bool := (ticket.bind s.tickets.reason?).isSome

def setProgress (a : Nat) (progress : Progress) : Sockets :=
  { s with attempts := s.attempts.modify a fun x => { x with progress } }

/-- Adds an attempt under a name. -/
def addAttempt (id : String) (x : Attempt) : Sockets :=
  { s with
    attempts := s.attempts ++ [x]
    calls := (id, s.attempts.length) :: s.calls.filter (·.1 ≠ id) }

/-- What the system says about the link of an attempt: made, still to come, or refused. Whoever has
asked for one watches for news of it. -/
def dial (x : Attempt) (d : Nat) : System × Except OsError Bool :=
  match x.progress with
  | .fresh =>
    match s.system.connect d x.target with
    | .error e => (s.system, .error e)
    | .ok (system, made) => (system.heed.1, system.heed.2.map fun _ => made)
  | _ =>
    match s.system.resume d with
    | .error e => (s.system, .error e)
    | .ok (system, made) => (system, .ok made)

/-- Tries an attempt that has not been decided; gives the outcome if it is decided now. -/
def attempt (x : Attempt) (a : Nat) : Sockets × Option Outcome :=
  match x.prepared with
  | .error f => (s, some (.error f))
  | .ok d =>
    if s.isCancelled x.ticket then (s, some (.error .cancelled))
    else if x.closed then (s, some (.error .closed))
    else
      match s.dial x d with
      | (system, .error e) => ({ s with system }, some (.error (.ofOs .connect e)))
      | (system, .ok false) => ({ s with system }.setProgress a .waiting, none)
      | (system, .ok true) =>
        let (s, k) := { s with system }.addConnection d x.limits
        (s, some (.ok k))

/-- Takes an attempt up again; gives the context for its outcome if it has been decided now. -/
def pursue (a : Nat) : Sockets × Option Context :=
  match s.attempts[a]? with
  | none => (s, none)
  | some x =>
    match x.progress with
    | .fresh | .waiting =>
      match s.attempt x a with
      | (s, none) => (s, none)
      | (s, some o) => (s.setProgress a (.decided o), some x.context)
    | _ => (s, none)

/-- Settles an outcome with a slot. A slot that waits takes the connection, or is closed by a
failure; a connection that comes too late is closed. Gives the requests to be woken. -/
def settle (i : Nat) (o : Outcome) : Sockets × Outcome × List Nat :=
  match s.slots[i]?, o with
  | some (.connecting _), .ok k =>
    ({ s with slots := s.slots.set i (.connected k) }, .ok k, [])
  | some (.connecting _), .error f => ({ s with slots := s.slots.set i .closed }, .error f, [])
  | _, .ok k =>
    let (s, wakes) := s.closeConnection k
    (s, .error .closed, wakes)
  | _, .error f => (s, .error f, [])

/-- The outcome of an attempt reaches its receiver; gives the requests to be woken. -/
def conclude (a : Nat) : Sockets × List Nat :=
  match s.attempts[a]? with
  | none => (s, [])
  | some x =>
    match x.progress, x.slot with
    | .decided o, none => (s.setProgress a (.delivered o), [])
    | .decided o, some i =>
      let (s, o, wakes) := s.settle i o
      (s.setProgress a (.delivered o), wakes)
    | _, _ => (s, [])

/-- The outcome of an attempt is lost on its way. -/
def loseOutcome (a : Nat) : Sockets := s.setProgress a .lost

/-- Whether taking an attempt up again would decide it. -/
def isAttemptReady (x : Attempt) : Bool :=
  match x.progress, x.prepared with
  | .fresh, _ => true
  | .waiting, .ok d => s.isCancelled x.ticket || x.closed || s.system.isSettled d
  | .waiting, .error _ => true
  | _, _ => false

end Sockets

end Conduit.Socket
