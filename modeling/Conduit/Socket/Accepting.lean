import Conduit.Socket.Sockets

/-!
Accept loops. A round waits for a connection with the descriptor of the listener in hand; being
stopped comes before the listener being closed, and that before a connection. A failure is told and
followed by a rest, but for the failure to watch who has been accepted: the next round follows at once.
A loop whose listener is closed tells so once and ends; one that is stopped ends without a word.
-/

namespace Conduit.Socket

/-- What a loop does next: nothing, tell an outcome and go on or not. -/
inductive Move where
  | idle
  | tell
  | tellAndGoOn
  deriving DecidableEq, Inhabited

namespace Sockets

variable (s : Sockets)

/-- How long a loop rests after a failure, in milliseconds. -/
def restTime : Nat := 10

def modifyAcceptor (c : Nat) (f : Acceptor → Acceptor) : Sockets :=
  { s with acceptors := s.acceptors.modify c f }

/-- A new accept loop under a name. -/
def addAcceptor (id : String) (x : Acceptor) : Sockets :=
  { s with
    acceptors := s.acceptors ++ [x]
    controllers := (id, s.acceptors.length) :: s.controllers.filter (·.1 ≠ id) }

/-- The loop puts an outcome on its way and stands where `round` says. -/
def emit (c : Nat) (o : Outcome) (round : Round) : Sockets :=
  s.modifyAcceptor c fun x => { x with round, underway := x.underway ++ [o] }

/-- The loop is over, with a last word unless it has been stopped. -/
def endLoop (c : Nat) (x : Acceptor) : Sockets × Move :=
  if x.stopped then (s.modifyAcceptor c fun x => { x with round := .ended }, .idle)
  else (s.emit c (.error .closed) .ended, .tell)

/-- The loop looks at its listener with the descriptor in hand. -/
def look (c : Nat) (x : Acceptor) (l : Listener) (d : Nat) : Sockets × Move :=
  if x.stopped || l.closed then s.endLoop c x
  else
    match Calls.accept s.system d with
    | (system, .pending _) =>
      ({ s with system }.modifyAcceptor c fun x => { x with round := .waiting d }, .idle)
    | (system, .ready (.ok e)) =>
      match system.heed with
      | (system, .ok _) =>
        let (s, k) := { s with system }.addConnection e l.limits
        (s.emit c (.ok k) .fresh, .tellAndGoOn)
      | (system, .error f) =>
        ({ s with system }.emit c (.error (.ofOs .accept f)) .fresh, .tellAndGoOn)
    | (system, .ready (.error e)) =>
      ({ s with system }.emit c (.error (.ofOs .accept e)) (.resting (s.clock + restTime)), .tell)

/-- The loop starts a round: it takes the descriptor of its listener. -/
def startRound (c : Nat) (x : Acceptor) (l : Listener) : Sockets × Move :=
  match opened l.descriptor with
  | .ok d => s.look c x l d
  | .error _ => s.endLoop c x

/-- The loop goes on. -/
def attend (c : Nat) : Sockets × Move :=
  match s.acceptors[c]? with
  | none => (s, .idle)
  | some x =>
    match s.listeners[x.listener]? with
    | none => (s, .idle)
    | some l =>
      match x.round with
      | .ended => (s, .idle)
      | .fresh => s.startRound c x l
      | .waiting d => s.look c x l d
      | .resting wakeAt => if s.clock < wakeAt then (s, .idle) else s.startRound c x l

/-- The oldest outcome on its way arrives, or is of no use to anyone. -/
def announce (c : Nat) : Sockets :=
  s.modifyAcceptor c fun x =>
    match x.underway with
    | [] => x
    | o :: rest =>
      { x with
        underway := rest
        arrived := if s.controllers.any (·.2 = c) then x.arrived ++ [o] else x.arrived }

/-- The newest outcome on its way is lost. -/
def loseNewest (c : Nat) : Sockets :=
  s.modifyAcceptor c fun x => { x with underway := x.underway.dropLast }

/-- Whether a loop has something to do. -/
def isAcceptorReady (x : Acceptor) : Bool :=
  match x.round with
  | .ended => false
  | .fresh => true
  | .waiting d =>
    x.stopped || s.isClosed (.listening x.listener) || !(s.system.line d).isEmpty
  | .resting wakeAt => wakeAt ≤ s.clock

/-- The loop behind a name is closed or its listener is. -/
def isLoopClosed (x : Acceptor) : Bool := x.stopped || s.isClosed (.listening x.listener)

end Sockets

end Conduit.Socket
