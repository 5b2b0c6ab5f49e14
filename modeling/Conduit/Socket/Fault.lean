import Conduit.Pipe.Fault

/-!
Failures of sockets. The kinds of rejected options carry the option's level and name; a failure
keeps its cause, which is an input/output failure, a pipe failure or a step that the socket's stage
does not permit.
-/

namespace Conduit.Socket

inductive FaultKind where
  | unknown | listen | bind | fetchLocalAddress | fetchPeerAddress | create
  | setOption (level name : Int32)
  | getOption (level name : Int32)
  | accept | connect | closed | cancelled | invalidState
  deriving DecidableEq, Inhabited

namespace FaultKind

/-- Level and name of an option, as a kind's description shows them. -/
def optionFields (level name : Int32) : String :=
  " \x7b level: " ++ toString level.toInt ++ ", name: " ++ toString name.toInt ++ " \x7d"

def name : FaultKind → String
  | unknown => "Unknown"
  | listen => "Listen"
  | bind => "Bind"
  | fetchLocalAddress => "FetchLocalAddress"
  | fetchPeerAddress => "FetchPeerAddress"
  | create => "Create"
  | setOption level option => "SetOption" ++ optionFields level option
  | getOption level option => "GetOption" ++ optionFields level option
  | accept => "Accept"
  | connect => "Connect"
  | closed => "Closed"
  | cancelled => "Cancelled"
  | invalidState => "InvalidState"

/-- The kinds that carry an option get the one given. -/
def all (level option : Int32) : List FaultKind :=
  [unknown, listen, bind, fetchLocalAddress, fetchPeerAddress, create, setOption level option,
    getOption level option, accept, connect, closed, cancelled, invalidState]

def code : FaultKind → String
  | unknown => "tether.socket.unknown"
  | listen => "tether.socket.listen_failed"
  | bind => "tether.socket.bind_failed"
  | fetchLocalAddress => "tether.socket.local_address_failed"
  | fetchPeerAddress => "tether.socket.peer_address_failed"
  | create => "tether.socket.create_failed"
  | setOption .. => "tether.socket.set_option_failed"
  | getOption .. => "tether.socket.get_option_failed"
  | accept => "tether.socket.accept_failed"
  | connect => "tether.socket.connect_failed"
  | closed => "tether.socket.closed"
  | cancelled => "tether.socket.cancelled"
  | invalidState => "tether.socket.invalid_state"

def message : FaultKind → String
  | unknown => "an unknown socket error occurred"
  | listen => "failed to open the socket for listening"
  | bind => "failed to bind an address to the socket"
  | fetchLocalAddress => "failed to fetch the local socket address"
  | fetchPeerAddress => "failed to fetch the peer socket address"
  | create => "failed to create a socket endpoint"
  | setOption .. => "failed to set a socket option"
  | getOption .. => "failed to get a socket option"
  | accept => "failed to accept a new connection"
  | connect => "failed to connect the socket"
  | closed => "the socket was closed"
  | cancelled => "the operation was cancelled"
  | invalidState => "the socket is not in a state that permits this operation"

/-- Level and name of the option that was rejected. -/
def option? : FaultKind → Option (Int32 × Int32)
  | setOption level name | getOption level name => some (level, name)
  | _ => none

/-- The code, with the option's level and name where there is one. -/
def describe (k : FaultKind) : String :=
  match k.option? with
  | some (level, name) =>
    k.code ++ " (level=" ++ toString level.toInt ++ ", name=" ++ toString name.toInt ++ ")"
  | none => k.code

end FaultKind

/-- A step that was tried in a stage which does not permit it. -/
structure InvalidStep where
  operation : String
  stage : String
  deriving DecidableEq, Inhabited

def InvalidStep.describe (s : InvalidStep) : String :=
  "`" ++ s.operation ++ "` is not valid on a socket in the `" ++ s.stage ++ "` state"

inductive Cause where
  | os (e : OsError)
  | pipe (f : Pipe.Fault)
  | step (s : InvalidStep)
  deriving DecidableEq, Inhabited

structure Fault where
  kind : FaultKind
  cause : Option Cause := none
  deriving DecidableEq, Inhabited

namespace Fault

def closed : Fault := { kind := .closed }

def cancelled : Fault := { kind := .cancelled }

def ofOs (kind : FaultKind) (e : OsError) : Fault := { kind, cause := some (.os e) }

def invalidState (operation stage : String) : Fault :=
  { kind := .invalidState, cause := some (.step { operation, stage }) }

/-- The line that describes a failure. -/
def describe (f : Fault) : String := f.kind.describe ++ ": " ++ f.kind.message

/-- The input/output failure directly behind this one. -/
def os? (f : Fault) : Option OsError :=
  match f.cause with
  | some (.os e) => some e
  | _ => none

/-- The system's error number directly behind a failure. -/
def osNumber? (f : Fault) : Option Int := f.os?.bind OsError.number?

end Fault

end Conduit.Socket
