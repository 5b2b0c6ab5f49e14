import Conduit.Dispatch.Context
import Conduit.Kernel.Whims
import Conduit.Limits

/-!
Stages of a socket, and what stands behind each: a plan before there is a descriptor, the bare
descriptor once it is bound, a listener, an attempt to connect, or a connection.
-/

namespace Conduit.Socket

open Dispatch (Context)
open Kernel (System)

inductive StageName where
  | unbound | bound | listening | connecting | connected | closed
  deriving DecidableEq, Inhabited

namespace StageName

def text : StageName → String
  | unbound => "unbound"
  | bound => "bound"
  | listening => "listening"
  | connecting => "connecting"
  | connected => "connected"
  | closed => "closed"

/-- The name of a stage in descriptions. -/
def title : StageName → String
  | unbound => "Unbound"
  | bound => "Bound"
  | listening => "Listening"
  | connecting => "Connecting"
  | connected => "Connected"
  | closed => "Closed"

end StageName

/-- A socket before it has a descriptor: the options that the descriptor will get, in order. -/
structure Plan where
  options : List SocketOption
  limits : ChunkLimits
  closed : Bool := false
  deriving DecidableEq, Inhabited

/-- A socket with an address; without its descriptor it is closed. -/
structure Bound where
  descriptor : Option Nat
  limits : ChunkLimits
  deriving DecidableEq, Inhabited

/-- The stage of a socket. Listeners, attempts and connections are known by number, as several
sockets may share one. -/
inductive Stage where
  | unbound (p : Plan)
  | bound (b : Bound)
  | listening (l : Nat)
  | connecting (a : Nat)
  | connected (k : Nat)
  | closed
  deriving DecidableEq

instance : Inhabited Stage := ⟨.closed⟩

def Stage.name : Stage → StageName
  | .unbound _ => .unbound
  | .bound _ => .bound
  | .listening _ => .listening
  | .connecting _ => .connecting
  | .connected _ => .connected
  | .closed => .closed

/-- What connecting or accepting comes to: a connection, or why there is none. -/
abbrev Outcome := Except Fault Nat

structure Listener where
  descriptor : Option Nat
  limits : ChunkLimits
  closed : Bool := false
  deriving Inhabited

/-- A connection and the pipes made on it, each a port to read from and one to write to. -/
structure Connection where
  descriptor : Option Nat
  limits : ChunkLimits
  closed : Bool := false
  pipes : List (Nat × Nat) := []
  deriving Inhabited

/-- How far an attempt has come. Its outcome is decided first and reaches its receiver later, or
never. -/
inductive Progress where
  | fresh
  | waiting
  | decided (o : Outcome)
  | delivered (o : Outcome)
  | lost

instance : Inhabited Progress := ⟨.fresh⟩

/-- An attempt to connect with a descriptor that was prepared for it. -/
structure Attempt where
  prepared : Except Fault Nat
  target : Address
  ticket : Option Nat
  /-- Where the outcome is delivered. -/
  context : Context
  limits : ChunkLimits
  /-- The shared slot that the attempt is made for. -/
  slot : Option Nat
  closed : Bool := false
  progress : Progress := .fresh

/-- Where an accept loop stands: before a round, with the descriptor in hand while it waits for a
connection, or resting after a failure. -/
inductive Round where
  | fresh
  | waiting (d : Nat)
  | resting (wakeAt : Nat)
  | ended
  deriving DecidableEq, Inhabited

/-- An accept loop on a listener, with the outcomes that are on their way to its receiver and those
that have arrived. -/
structure Acceptor where
  listener : Nat
  context : Context
  stopped : Bool := false
  round : Round := .fresh
  underway : List Outcome := []
  arrived : List Outcome := []

/-- The descriptor that an attempt goes on with. -/
def Attempt.descriptor? (x : Attempt) : Option Nat :=
  match x.progress, x.prepared with
  | .fresh, .ok d | .waiting, .ok d => some d
  | _, _ => none

/-- Whether nothing will arrive any more. -/
def Acceptor.isOver (x : Acceptor) : Bool := x.round = .ended && x.underway.isEmpty

/-- The descriptor where there is one. -/
def opened : Option Nat → Except Fault Nat
  | some d => .ok d
  | none => .error .closed

namespace Plan

/-- Applies options in order, up to the first that is refused. -/
def applyOptions (sys : System) (d : Nat) : List SocketOption → Except Fault System
  | [] => .ok sys
  | o :: rest =>
    match sys.setOption d o with
    | .ok sys => applyOptions sys d rest
    | .error e => .error (.ofOs (.setOption o.level o.name) e)

/-- A descriptor as planned, for a family and a type, on which calls return at once. On failure no
descriptor is left. -/
def prepare (p : Plan) (sys : System) (family : Family) (type : SocketType) :
    System × Except Fault Nat :=
  if p.closed then (sys, .error .closed)
  else
    match family.checkType type, sys.create family type with
    | .error f, _ => (sys, .error f)
    | .ok (), .error e => (sys, .error (.ofOs .create e))
    | .ok (), .ok (made, d) =>
      match applyOptions made d p.options with
      | .error f => (sys, .error f)
      | .ok made =>
        match made.heed with
        | (made, .ok ()) => (made, .ok d)
        | (made, .error e) => (sys.undo made, .error (.ofOs .create e))

/-- A descriptor as planned that is bound to an address. On failure no descriptor is left. -/
def bind (p : Plan) (sys : System) (a : Address) (type : SocketType) : System × Except Fault Nat :=
  match p.prepare sys a.family type with
  | (made, .error f) => (made, .error f)
  | (made, .ok d) =>
    match made.bind d a with
    | .ok made => (made, .ok d)
    | .error e => (sys.undo made, .error (.ofOs .bind e))

end Plan

end Conduit.Socket
