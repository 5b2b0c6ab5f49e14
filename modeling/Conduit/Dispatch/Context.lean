import Conduit.Reactor
import Conduit.Text.Quoted

/-!
Contexts, the places where callbacks run. Work given to a direct context runs on the stack of its
caller, and work given to a venue waits there in line: for the one who drains it, for the reactor, for
a worker of the pool, or for the thread of the venue. There is a context as well whose caller waits
until the pool has run the work. References to contexts have identities of their own: a copy of a
reference leads to the same place and is another reference.
-/

namespace Conduit.Dispatch

inductive Discipline where
  | direct | serial | concurrent
  deriving DecidableEq, Inhabited

/-- Where the work given to a context runs. -/
inductive Place where
  | direct
  /-- On the pool, while the caller waits for it. -/
  | pool
  | venue (v : Nat)
  deriving DecidableEq, Inhabited

/-- A reference to a context. -/
structure Context where
  identity : Nat
  place : Place
  deriving DecidableEq, Inhabited

/-- The direct context that everyone shares. -/
def Context.shared : Context := ⟨0, .direct⟩

/-- How the line of a venue moves: when told to, on the reactor, on the pool, or on a thread of its
own. -/
inductive VenueKind where
  | manual | serial | pool | thread
  deriving DecidableEq, Inhabited

/-- Whether a line is taken up as soon as something waits in it. -/
def VenueKind.isEager : VenueKind → Bool
  | .serial | .pool => true
  | .manual | .thread => false

/-- Whether a line is moved beside what else runs. -/
def VenueKind.isParallel : VenueKind → Bool
  | .pool | .thread => true
  | .manual | .serial => false

/-- A line of work, oldest first. A venue that no longer accepts work drops what it is given. -/
structure Venue (Work : Type) where
  kind : VenueKind
  name : String
  accepting : Bool := true
  /-- With the handle of a thread its end can be waited for; whoever stops it first takes it. -/
  handle : Bool := true
  waiting : List Work := []

instance {Work : Type} : Inhabited (Venue Work) := ⟨{ kind := .manual, name := "" }⟩

/-- Whether a line goes on by itself: that of a thread does when the thread has been stopped. -/
def Venue.goesOn {Work : Type} (q : Venue Work) : Bool := q.kind.isEager || !q.accepting

/-- Work joins the end of the line. -/
def Venue.push {Work : Type} (q : Venue Work) (w : Work) : Venue Work :=
  if q.accepting then { q with waiting := q.waiting ++ [w] } else q

/-- What a script sees of the contexts: those that have names, and the kind and name of a venue. -/
structure View where
  context? : String → Option Context
  venue? : Nat → Option (VenueKind × String)

namespace View

/-- The thread on which the work of a context runs, where it has one of its own. -/
def thread? (view : View) (c : Context) : Option String :=
  match c.place with
  | .venue v =>
    match view.venue? v with
    | some (.thread, name) => some name
    | _ => none
  | _ => none

/-- The text of the pool, which is that of the one thread on which everything else runs. -/
def describePool : String :=
  "ConcurrentContext \x7b reactor: " ++ Reactor.describe .currentThread ++ " \x7d"

/-- The text that shows a context. -/
def describe (view : View) (c : Context) : String :=
  match c.place with
  | .direct => "DirectContext"
  | .pool => describePool
  | .venue v =>
    match view.venue? v with
    | some (.pool, _) => describePool
    | some (.serial, name) => "SerialContext \x7b label: " ++ Text.quote name ++ " \x7d"
    | some (.thread, name) => "ThreadContext \x7b name: " ++ Text.quote name ++ " \x7d"
    | _ => "QueueContext"

end View

/-- A new context, or a copy of a reference to one. -/
inductive ContextKind where
  | direct
  | manual
  | serial (label : String)
  /-- The pool, for whose work the caller waits. -/
  | pool
  /-- The pool, for whose work nobody waits. -/
  | concurrent
  | thread (name : String)
  | defaultThread
  | copy (of : String)
  deriving DecidableEq, Inhabited

/-- What a script can do with contexts, which it knows by name. -/
inductive ContextOp where
  | make (id : String) (kind : ContextKind)
  | drain (id : String) (limit : Option Nat)
  | flush (id : String)
  | stop (id : String)
  | forget (id : String)
  | discipline (id : String)
  | same (a b : String)
  | inspect (id : String)
  deriving DecidableEq, Inhabited

/-- An operation of a script: one on contexts, or one of the component that the script is for. -/
inductive Op (Action : Type) where
  | context (o : ContextOp)
  | own (a : Action)

instance {Action : Type} : Inhabited (Op Action) := ⟨.context default⟩

/-- What an operation gives back. -/
inductive Reply (Answer : Type) where
  | done
  | ran (n : Nat)
  | flushed
  | stopped
  | selfStopped
  | unknownContext
  | discipline (d : Discipline)
  | same (b : Bool)
  | serial (label text : String)
  | thread (name : String) (current : Bool) (text : String)
  | own (a : Answer)
  deriving DecidableEq

instance {Answer : Type} : Inhabited (Reply Answer) := ⟨.done⟩

end Conduit.Dispatch
