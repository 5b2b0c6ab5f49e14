import Conduit.OsError

/-!
Failures of byte pipes: a kind with a stable code and message, and the input/output failure behind
it where there is one.
-/

namespace Conduit.Pipe

inductive FaultKind where
  | unknown | write | read | closed | timedOut | brokenPipe | limitExceeded | quotaExhausted
  | insufficientSpace | operationNotSupported | networkUnreachable
  deriving DecidableEq, Inhabited

namespace FaultKind

def name : FaultKind → String
  | unknown => "Unknown"
  | write => "Write"
  | read => "Read"
  | closed => "Closed"
  | timedOut => "TimedOut"
  | brokenPipe => "BrokenPipe"
  | limitExceeded => "LimitExceeded"
  | quotaExhausted => "QuotaExhausted"
  | insufficientSpace => "InsufficientSpace"
  | operationNotSupported => "OperationNotSupported"
  | networkUnreachable => "NetworkUnreachable"

def all : List FaultKind :=
  [unknown, write, read, closed, timedOut, brokenPipe, limitExceeded, quotaExhausted,
    insufficientSpace, operationNotSupported, networkUnreachable]

/-- The kind of a name. -/
def ofName? (s : String) : Option FaultKind := all.find? (·.name = s)

/-- The number of a kind, stable across versions. -/
def number : FaultKind → Nat
  | unknown => 0
  | write => 1
  | read => 2
  | closed => 3
  | timedOut => 4
  | brokenPipe => 5
  | limitExceeded => 6
  | quotaExhausted => 7
  | insufficientSpace => 8
  | operationNotSupported => 9
  | networkUnreachable => 10

def code : FaultKind → String
  | unknown => "tether.pipe.unknown"
  | write => "tether.pipe.write_failed"
  | read => "tether.pipe.read_failed"
  | closed => "tether.pipe.closed"
  | timedOut => "tether.pipe.timed_out"
  | brokenPipe => "tether.pipe.broken_pipe"
  | limitExceeded => "tether.pipe.limit_exceeded"
  | quotaExhausted => "tether.pipe.quota_exhausted"
  | insufficientSpace => "tether.pipe.insufficient_space"
  | operationNotSupported => "tether.pipe.not_supported"
  | networkUnreachable => "tether.pipe.network_unreachable"

def message : FaultKind → String
  | unknown => "an unknown pipe error occurred"
  | write => "a write error occurred"
  | read => "a read error occurred"
  | closed => "i/o attempted on a closed pipe"
  | timedOut => "the i/o request timed out"
  | brokenPipe => "the other side of the pipe was closed"
  | limitExceeded => "a user-specified byte limit was exceeded"
  | quotaExhausted => "the disk quota has been exhausted"
  | insufficientSpace => "no free space remains in the destination"
  | operationNotSupported => "the requested operation is not supported"
  | networkUnreachable => "the network is unreachable"

/-- The pipe failure that an input/output failure amounts to; `fallback` where it is none in
particular. -/
def ofOs (fallback : FaultKind) : OsErrorKind → FaultKind
  | .brokenPipe | .connectionReset | .connectionAborted => brokenPipe
  | .timedOut => timedOut
  | .unsupported => operationNotSupported
  | .storageFull => insufficientSpace
  | .quotaExceeded => quotaExhausted
  | .fileTooLarge => limitExceeded
  | .networkUnreachable | .hostUnreachable | .networkDown => networkUnreachable
  | _ => fallback

end FaultKind

structure Fault where
  kind : FaultKind
  cause : Option OsError := none
  deriving DecidableEq, Inhabited

namespace Fault

def closed : Fault := { kind := .closed }

def isClosed (f : Fault) : Bool := f.kind = .closed

/-- The failure of an operation on the device behind a pipe. -/
def ofOs (e : OsError) (fallback : FaultKind) : Fault :=
  { kind := .ofOs fallback e.kind, cause := some e }

/-- The line that describes a failure. -/
def describe (f : Fault) : String := f.kind.code ++ ": " ++ f.kind.message

end Fault

end Conduit.Pipe
