import Conduit.Bytes
import Conduit.Pipe.Fault

/-!
What a request on a pipe reports while it runs, and what all of its reports amount to. A read
reports the bytes that come, a write the bytes that are left; a report with `done` is the last one,
and one with a fault is `done`.
-/

namespace Conduit.Pipe

structure ReadEvent where
  done : Bool
  data : Bytes
  fault : Option Fault := none
  deriving DecidableEq, Inhabited

structure WriteEvent where
  done : Bool
  remaining : Bytes
  fault : Option Fault := none
  deriving DecidableEq, Inhabited

namespace ReadEvent

def chunk (data : Bytes) (done : Bool) : ReadEvent := { done, data }

/-- The stream has ended. -/
def ended : ReadEvent := { done := true, data := [] }

def failed (f : Fault) : ReadEvent := { done := true, data := [], fault := some f }

/-- Whether nothing that follows matters. -/
def isFinal (e : ReadEvent) : Bool := e.done || e.fault.isSome

end ReadEvent

namespace WriteEvent

/-- Bytes were accepted and these are left. -/
def progress (remaining : Bytes) : WriteEvent := { done := remaining.isEmpty, remaining }

def failed (remaining : Bytes) (f : Fault) : WriteEvent :=
  { done := true, remaining, fault := some f }

/-- Whether nothing that follows matters. -/
def isFinal (e : WriteEvent) : Bool := e.done || e.fault.isSome

end WriteEvent

/-- A report of either kind. -/
inductive Event where
  | read (e : ReadEvent)
  | write (e : WriteEvent)
  deriving DecidableEq, Inhabited

/-- All data that the reports of a read bring, after `got`, up to the first fault or last report. -/
def readAll (got : Bytes) : List ReadEvent → Except (Bytes × Fault) Bytes
  | [] => .ok got
  | e :: rest =>
    match e.fault with
    | some f => .error (got ++ e.data, f)
    | none => if e.done then .ok (got ++ e.data) else readAll (got ++ e.data) rest

/-- How the reports of a write end: well, or with the bytes left at the first fault. -/
def writeAll : List WriteEvent → Except (Bytes × Fault) Unit
  | [] => .ok ()
  | e :: rest =>
    match e.fault with
    | some f => .error (e.remaining, f)
    | none => if e.done then .ok () else writeAll rest

end Conduit.Pipe
