import Conduit.Kernel.Whims

/-!
Calls on a descriptor, as the devices of pipes and accept loops make them. A call that is interrupted
is made again at once; one that would block is made again when there is news.
-/

namespace Conduit.Socket.Calls

open Kernel (System)
open Pipe (Poll)

variable {α : Type}

/-- What a call comes to: one that would block is waited for. -/
def settle : Poll (Except OsError α) → Poll (Except OsError α)
  | .ready (.error e) => if e.kind = .wouldBlock then .pending true else .ready (.error e)
  | answer => answer

/-- Makes a call, and if it is interrupted makes it again, `n` times at most. -/
def retry (call : System → System × Poll (Except OsError α)) :
    Nat → System → System × Poll (Except OsError α)
  | 0, s => ((call s).1, settle (call s).2)
  | n + 1, s =>
    match call s with
    | (s, .ready (.error e)) =>
      if e.kind = .interrupted then retry call n s else (s, settle (.ready (.error e)))
    | (s, answer) => (s, settle answer)

/-- Reads at most `want` bytes. No call is interrupted more often than the system has whims. -/
def read (s : System) (d want : Nat) : System × Poll (Except OsError Bytes) :=
  retry (·.receive d want) s.whims.length s

/-- Writes bytes; gives how many went. -/
def write (s : System) (d : Nat) (bytes : Bytes) : System × Poll (Except OsError Nat) :=
  retry (·.send d bytes) s.whims.length s

/-- Takes the first from the line of a listener. -/
def accept (s : System) (d : Nat) : System × Poll (Except OsError Nat) :=
  retry (·.letIn d) s.whims.length s

end Conduit.Socket.Calls
