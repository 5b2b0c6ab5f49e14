import Conduit.Kernel.Link
import Conduit.Pipe.Device

/-!
How bytes travel between descriptors. What is sent is packed into parcels, which wait at the
receiver and take room of the sender until they have been read. A stream is read across parcels; a
message is read at once, and what does not fit is lost.
-/

namespace Conduit.Kernel

open Pipe (Poll)

namespace Parcel

def pageSize : Nat := 4096

/-- The part of a parcel of a stream that lies in one piece. -/
def streamHead : Nat := 3776

/-- The part of a message that lies in one piece, unless the pages are too few for the rest. -/
def messageHead : Nat := 16064

/-- The pages that a parcel has at most. -/
def mostPages : Nat := 17

/-- The most bytes of a stream that one parcel holds. -/
def largest : Nat := streamHead + 8 * pageSize

def roundUp (n unit : Nat) : Nat := (n + unit - 1) / unit * unit

/-- The smallest block of memory for `n` bytes: a power of two. -/
def block (n : Nat) : Nat := max 512 (1 <<< (Nat.log2 (n - 1) + 1))

/-- The room that a parcel of `n` bytes takes of which `head` lie in one piece: that piece, the pages,
and what goes with them. -/
def roomFor (head n : Nat) : Nat :=
  let paged := min n (roundUp (min (n - head) (mostPages * pageSize)) pageSize)
  256 + block (roundUp (n - paged) 64 + 320) + roundUp paged pageSize

def ofBytes (head sender : Nat) (bytes : Bytes) : Parcel :=
  { rest := bytes, room := roomFor head bytes.length, sender }

/-- Takes up to `want` bytes out of parcels that follow each other. -/
def unpack : Nat → List Parcel → Bytes × List Parcel
  | _, [] => ([], [])
  | want, p :: ps =>
    if p.rest.length ≤ want then
      let (more, left) := unpack (want - p.rest.length) ps
      (p.rest ++ more, left)
    else (p.rest.take want, { p with rest := p.rest.drop want } :: ps)

end Parcel

namespace System

/-- The room that everything a descriptor has sent may take. -/
def sendRoom : Nat := 212992

/-- The messages that wait at most, besides one, at a receiver that is no partner. -/
def longestInbox : Nat := 10

/-- The room that is taken by what a descriptor has sent. -/
def usedRoom (s : System) (d : Nat) : Nat :=
  s.descriptors.foldl (fun n y =>
    (y.inbox.filter (·.sender = d)).foldl (fun n p => n + p.room) n) 0

/-- Packs bytes into parcels as long as less than all room is taken; `n` parcels are enough. -/
def pack (sender : Nat) : (n used : Nat) → Bytes → List Parcel
  | 0, _, _ => []
  | _, _, [] => []
  | n + 1, used, bytes =>
    if sendRoom ≤ used then []
    else
      let p := Parcel.ofBytes Parcel.streamHead sender (bytes.take Parcel.largest)
      p :: pack sender n (used + p.room) (bytes.drop Parcel.largest)

/-- Parcels arrive at a descriptor. -/
def deliver (s : System) (e : Nat) (ps : List Parcel) : System :=
  s.modify e fun y => { y with inbox := y.inbox ++ ps }

def setStalled (s : System) (d : Nat) (stalled : Bool) : System :=
  s.modify d fun x => { x with stalled }

/-- Whether a descriptor has no room to send. One that has run out of it waits until three quarters
are free. -/
def isFull (s : System) (d : Nat) (x : Descriptor) : Bool :=
  if x.stalled then sendRoom < 4 * s.usedRoom d else sendRoom ≤ s.usedRoom d

def writeStream (s : System) (d e : Nat) (x : Descriptor) (bytes : Bytes) :
    System × Poll (Except OsError Nat) :=
  if x.writeEnded then (s, .ready (.error (.number 32)))
  else if s.isFull d x then (s.setStalled d true, .pending false)
  else
    let ps := pack d bytes.length (s.usedRoom d) bytes
    ((s.setStalled d false).deliver e ps, .ready (.ok (ps.foldl (fun n p => n + p.rest.length) 0)))

/-- Whether a receiver lets no more messages wait. -/
def isCrowded (d : Nat) (x y : Descriptor) : Bool :=
  x.family = .unix && x.type = .datagram && longestInbox < y.inbox.length &&
    match y.role with
    | .connected (some f) _ => f ≠ d
    | _ => true

/-- Sends a message to a receiver. A failure that waits comes first. A receiver with another partner
takes nothing; one that has gone is sent to once, and then no more, and what it sent is lost. -/
def writeMessage (s : System) (d e : Nat) (x y : Descriptor) (bytes : Bytes) :
    System × Poll (Except OsError Nat) :=
  if sendRoom - 32 < bytes.length then (s, .ready (.error (.number 90)))
  else
    match x.failure with
    | some n => (s.modify d fun x => { x with failure := none }, .ready (.error (.number n)))
    | none =>
      if x.writeEnded then (s, .ready (.error (.number 32)))
      else if s.isFull d x then (s.setStalled d true, .pending false)
      else if y.closed then
        (s.modify d fun x => { x with role := .idle, inbox := [] }, .ready (.error (.number 111)))
      else if !welcomes y d then (s, .ready (.error (.number 1)))
      else if y.readEnded then (s, .ready (.error (.number 32)))
      else if isCrowded d x y then (s.setStalled d true, .pending false)
      else
        let p := Parcel.ofBytes Parcel.messageHead d bytes
        ((s.setStalled d false).deliver e [p], .ready (.ok bytes.length))

/-- Sends bytes; gives how many went. -/
def write (s : System) (d : Nat) (bytes : Bytes) : System × Poll (Except OsError Nat) :=
  match s.descriptors[d]? with
  | none => (s, .ready (.error (.number 9)))
  | some x =>
    match x.role with
    | .connected (some e) _ =>
      match s.descriptors[e]? with
      | none => (s, .ready (.error (.number 32)))
      | some y =>
        if x.type = .stream then s.writeStream d e x bytes else s.writeMessage d e x y bytes
    | .connected none _ => (s, .ready (.ok bytes.length))
    | _ => (s, .ready (.error (.number 107)))

/-- Reads at most `want` bytes; none means that nothing more will come. A failure that waits comes
before messages and after the bytes of a stream. -/
def read (s : System) (d : Nat) (want : Nat) : System × Poll (Except OsError Bytes) :=
  match s.descriptors[d]? with
  | none => (s, .ready (.error (.number 9)))
  | some x =>
    let failed (n : Int) : System × Poll (Except OsError Bytes) :=
      (s.modify d fun x => { x with failure := none }, .ready (.error (.number n)))
    match x.type, x.inbox, x.failure with
    | .stream, p :: ps, _ =>
      let (bytes, inbox) := Parcel.unpack want (p :: ps)
      (s.modify d fun x => { x with inbox }, .ready (.ok bytes))
    | _, _, some n => failed n
    | _, [], none => (s, if x.readEnded then .ready (.ok []) else .pending false)
    | _, p :: ps, none =>
      (s.modify d fun x => { x with inbox := ps }, .ready (.ok (p.rest.take want)))

end System

end Conduit.Kernel
