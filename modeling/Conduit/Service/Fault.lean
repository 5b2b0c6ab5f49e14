import Conduit.Socket.Fault

/-!
Failures as an application sees them, and how pipe and socket failures are read as such.
-/

namespace Conduit.Service

inductive FaultKind where
  | unknown | connectionLost | responseInvalid | timedOut | requestConflict
  | authenticationFailed | authenticationRequired | permissionDenied | invalidRequest
  | resourceNotFound | networkUnavailable
  deriving DecidableEq, Inhabited

namespace FaultKind

def name : FaultKind → String
  | unknown => "Unknown"
  | connectionLost => "ConnectionLost"
  | responseInvalid => "ResponseInvalid"
  | timedOut => "TimedOut"
  | requestConflict => "RequestConflict"
  | authenticationFailed => "AuthenticationFailed"
  | authenticationRequired => "AuthenticationRequired"
  | permissionDenied => "PermissionDenied"
  | invalidRequest => "InvalidRequest"
  | resourceNotFound => "ResourceNotFound"
  | networkUnavailable => "NetworkUnavailable"

def all : List FaultKind :=
  [unknown, connectionLost, responseInvalid, timedOut, requestConflict, authenticationFailed,
    authenticationRequired, permissionDenied, invalidRequest, resourceNotFound,
    networkUnavailable]

/-- The kind of a name. -/
def ofName? (s : String) : Option FaultKind := all.find? (·.name = s)

def code : FaultKind → String
  | unknown => "tether.service.unknown"
  | connectionLost => "tether.service.connection_lost"
  | responseInvalid => "tether.service.response_invalid"
  | timedOut => "tether.service.timed_out"
  | requestConflict => "tether.service.request_conflict"
  | authenticationFailed => "tether.service.authentication_failed"
  | authenticationRequired => "tether.service.authentication_required"
  | permissionDenied => "tether.service.permission_denied"
  | invalidRequest => "tether.service.invalid_request"
  | resourceNotFound => "tether.service.resource_not_found"
  | networkUnavailable => "tether.service.network_unavailable"

def message : FaultKind → String
  | unknown => "an unknown error occurred"
  | connectionLost => "the connection to the server was lost"
  | responseInvalid => "the server's response was invalid"
  | timedOut => "the request timed out"
  | requestConflict => "the request was superseded by a conflicting request"
  | authenticationFailed => "authentication failed"
  | authenticationRequired => "authentication is required"
  | permissionDenied => "access to the requested resource was denied"
  | invalidRequest => "the request arguments were invalid"
  | resourceNotFound => "the requested resource was not found"
  | networkUnavailable => "the network is unavailable"

/-- How a pipe failure looks from outside. -/
def ofPipe : Pipe.FaultKind → FaultKind
  | .closed | .brokenPipe => connectionLost
  | .timedOut => timedOut
  | .networkUnreachable => networkUnavailable
  | _ => unknown

/-- How a failed attempt to connect looks from outside. -/
def ofConnect : OsErrorKind → FaultKind
  | .connectionRefused | .connectionReset => connectionLost
  | .timedOut => timedOut
  | .networkUnreachable | .hostUnreachable | .networkDown => networkUnavailable
  | _ => unknown

/-- How a socket failure looks from outside; a failed connect is judged by its cause. -/
def ofSocket (f : Socket.Fault) : FaultKind :=
  match f.kind with
  | .cancelled => requestConflict
  | .closed => connectionLost
  | .connect => (f.os?.map fun e => ofConnect e.kind).getD unknown
  | _ => unknown

end FaultKind

inductive Cause where
  | os (e : OsError)
  | pipe (f : Pipe.Fault)
  | socket (f : Socket.Fault)
  | step (s : Socket.InvalidStep)
  deriving DecidableEq, Inhabited

/-- The causes below a cause, outermost first, itself included. -/
def Cause.chain : Cause → List Cause
  | os e => [os e]
  | step s => [step s]
  | pipe f => pipe f :: (f.cause.map os).toList
  | socket f =>
    socket f ::
      match f.cause with
      | none => []
      | some (.os e) => [os e]
      | some (.step s) => [step s]
      | some (.pipe p) => pipe p :: (p.cause.map os).toList

structure Fault where
  kind : FaultKind
  cause : Option Cause := none
  deriving DecidableEq, Inhabited

namespace Fault

def ofPipe (f : Pipe.Fault) : Fault := { kind := .ofPipe f.kind, cause := some (.pipe f) }

def ofSocket (f : Socket.Fault) : Fault := { kind := .ofSocket f, cause := some (.socket f) }

/-- The line that describes a failure. -/
def describe (f : Fault) : String := f.kind.code ++ ": " ++ f.kind.message

/-- The causes behind a failure, outermost first. -/
def chain (f : Fault) : List Cause := (f.cause.map Cause.chain).getD []

end Fault

end Conduit.Service
