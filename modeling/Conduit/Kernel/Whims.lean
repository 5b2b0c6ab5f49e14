import Conduit.Kernel.Transfer

/-!
What the system does of itself. Accepting somebody, heeding how a descriptor is to be used, and moving
the bytes of a stream, it may follow a whim: it moves less than it could, or it fails where it need
not, because a signal has come in between, say.
-/

namespace Conduit.Kernel.System

open Pipe (Poll)

/-- What the system is about to do of itself. -/
def takeWhim (s : System) : System × Whim :=
  match s.whims with
  | [] => (s, .obey)
  | w :: whims => ({ s with whims }, w)

/-- What the system is about to do of itself with the bytes of a descriptor. Messages move as they are
asked to. -/
def whimAt (s : System) (d : Nat) : System × Whim :=
  match s.descriptors[d]? with
  | some x => if x.type = .stream then s.takeWhim else (s, .obey)
  | none => (s, .obey)

/-- Sends the first `n` bytes in one parcel, whether or not there is room. -/
def writePart (s : System) (d n : Nat) (bytes : Bytes) : System × Poll (Except OsError Nat) :=
  match s.descriptors[d]? with
  | none => s.write d bytes
  | some x =>
    match x.role, x.writeEnded with
    | .connected (some e) _, false =>
      let part := bytes.take n
      let ps := if part.isEmpty then [] else [Parcel.ofBytes Parcel.streamHead d part]
      ((s.setStalled d false).deliver e ps, .ready (.ok part.length))
    | _, _ => s.write d bytes

/-- Sends bytes, unless the system has something else in mind. -/
def send (s : System) (d : Nat) (bytes : Bytes) : System × Poll (Except OsError Nat) :=
  match s.whimAt d with
  | (s, .obey) => s.write d bytes
  | (s, .partly n) => s.writePart d n bytes
  | (s, .fail number) => (s, .ready (.error (.number number)))

/-- Reads bytes, unless the system has something else in mind. -/
def receive (s : System) (d want : Nat) : System × Poll (Except OsError Bytes) :=
  match s.whimAt d with
  | (s, .obey) => s.read d want
  | (s, .partly n) => s.read d (min want n)
  | (s, .fail number) => (s, .ready (.error (.number number)))

/-- Takes the descriptor that has waited longest from the line of a listener, unless the system has
something else in mind. -/
def letIn (s : System) (d : Nat) : System × Poll (Except OsError Nat) :=
  match s.takeWhim with
  | (s, .fail number) => (s, .ready (.error (.number number)))
  | (s, _) =>
    match s.accept d with
    | .ok none => (s, .pending false)
    | .ok (some (s, e)) => (s, .ready (.ok e))
    | .error e => (s, .ready (.error e))

/-- Heeds how a descriptor is to be used, unless the system has something else in mind: that calls
on it return at once, or that news of it are watched for. -/
def heed (s : System) : System × Except OsError Unit :=
  match s.takeWhim with
  | (s, .fail number) => (s, .error (.number number))
  | (s, _) => (s, .ok ())

/-- The system as it was, with what has been made of it in `t` taken back. What it has done of itself
is done. -/
def undo (s t : System) : System := { s with whims := t.whims }

end Conduit.Kernel.System
