import Conduit.Dispatch.Machine
import Conduit.Observer.Registry

/-!
Enumeration of a set of observers. An enumeration gives a block to the context of every registration
there is when it starts. The block calls the observer only if the registration is still there when
it runs, and holds the observer while it does.
-/

namespace Conduit.Observer

open Dispatch

/-- What a script can do with a set of observers. An observer has the views `views`, by name; an
enumeration may ask for one of them. For each observer that it calls it runs a script, which goes by
the name of the observer, and then throws if it is to. -/
inductive Action where
  | observe (id : String) (views : List String)
  | drop (id : String)
  | add (id context token : String)
  | remove (id : String)
  | removeToken (token : String)
  | callEach (asks : Option String) (tag : String) (script : String → List (Op Action))
      (throws : String → Bool)
  | describe

instance : Inhabited Action := ⟨.describe⟩

namespace Action

/-- The view that matters where there is only one. -/
def onlyView : String := "view"

def create (id : String) (capable : Bool) : Action :=
  .observe id (if capable then [onlyView] else [])

/-- An enumeration whose scripts are kept under the names of the observers, and which throws at one of
them at most. -/
def enumerate (capableOnly : Bool) (tag : String) (scripts : List (String × List (Op Action)))
    (throwsAt : Option String) : Action :=
  .callEach (if capableOnly then some onlyView else none) tag
    (fun name => (scripts.lookup name).getD []) (throwsAt = some ·)

end Action

inductive Answer where
  | missing
  | dropped (existed : Bool)
  | token (n : Nat)
  | removed (n : Nat)
  | tokenRemoved (existed : Bool)
  | text (s : String)
  deriving DecidableEq, Inhabited

/-- An observer: its name, and the views that enumerations may ask for. -/
structure Subject where
  name : String
  views : List String
  deriving DecidableEq, Inhabited

/-- What an enumeration does with each observer. -/
structure Block where
  tag : String
  asks : Option String
  script : String → List (Op Action)
  throws : String → Bool

/-- The rest of an enumeration, a block on its way to an observer, or the end of a block that holds
one. -/
inductive Frame where
  | deliver (block : Block) (rest : List Registration)
  | visit (block : Block) (e : Registration)
  | release (observer : Nat)

/-- A block that called an observer. -/
structure Note where
  tag : String
  observer : String
  deriving DecidableEq, Inhabited

/-- A set of observers, all observers there have been, and the names by which scripts know them and
the tokens. -/
structure Observers where
  registry : Registry := {}
  subjects : List Subject := []
  names : List (String × Nat) := []
  /-- The observers that running blocks hold. -/
  held : List Nat := []
  tokens : List (String × Nat) := []

namespace Observers

/-- Whether an observer is still there: it has a name, or a running block holds it. -/
def alive (s : Observers) (o : Nat) : Bool := s.names.any (·.2 = o) || s.held.contains o

/-- Whether an observer has a view. -/
def capable (s : Observers) (o : Nat) (view : String) : Bool :=
  (s.subjects[o]?.map (·.views.contains view)).getD false

/-- The number of registrations whose observer is still there. -/
def count (s : Observers) : Nat := s.registry.count s.alive

end Observers

abbrev signature : Signature where
  State := Observers
  Action := Action
  Answer := Answer
  Frame := Frame
  Task := Empty
  Note := Note
  Tag := String × String

def reply (s : Observers) (a : Answer) : Turn signature := { state := s, next := .reply (.own a) }

def exec (view : View) (s : Observers) : Action → Turn signature
  | .observe id views =>
    { state := { s with
        subjects := s.subjects ++ [⟨id, views⟩]
        names := (id, s.subjects.length) :: s.names.filter (·.1 ≠ id) } }
  | .drop id =>
    reply { s with names := s.names.filter (·.1 ≠ id) } (.dropped (s.names.lookup id).isSome)
  | .add id context token =>
    match s.names.lookup id, view.context? context with
    | some o, some c =>
      let (registry, n) := s.registry.add s.alive o c
      reply { s with registry, tokens := (token, n) :: s.tokens.filter (·.1 ≠ token) } (.token n)
    | _, _ => reply s .missing
  | .remove id =>
    match s.names.lookup id with
    | none => reply s .missing
    | some o =>
      let (registry, n) := s.registry.remove s.alive o
      reply { s with registry } (.removed n)
  | .removeToken token =>
    match s.tokens.lookup token with
    | none => reply s .missing
    | some n =>
      let (registry, existed) := s.registry.removeToken s.alive n
      reply { s with registry } (.tokenRemoved existed)
  | .callEach asks tag script throws =>
    let registry := s.registry.prune s.alive
    { state := { s with registry }
      next := .enter [.deliver { tag, asks, script, throws } registry.entries] }
  | .describe =>
    reply s (.text ("ObserverSet \x7b registrations: " ++ toString s.count ++ " \x7d"))

/-- Whether a block is meant for an observer. -/
def Block.Suits (b : Block) (s : Observers) (o : Nat) : Prop := b.asks.all (s.capable o) = true

instance (b : Block) (s : Observers) (o : Nat) : Decidable (b.Suits s o) := by
  unfold Block.Suits; infer_instance

def resume (s : Observers) : Frame → Turn signature
  | .deliver _ [] => { state := s }
  | .deliver block (e :: rest) =>
    if block.asks.isSome ∧ ¬(s.alive e.observer ∧ block.Suits s e.observer) then
      { state := s, next := .enter [.deliver block rest] }
    else { state := s, next := .perform e.context (.visit block e) [.deliver block rest] }
  | .visit block e =>
    if s.registry.IsActive e ∧ s.alive e.observer ∧ block.Suits s e.observer then
      let name := (s.subjects[e.observer]?.map (·.name)).getD ""
      { state := { s with held := e.observer :: s.held }
        notes := [{ tag := block.tag, observer := name }]
        next := .script (block.tag, name) (block.script name) (block.throws name)
          [.release e.observer] }
    else { state := s }
  | .release o => { state := { s with held := s.held.erase o } }

/-- A throw that passes the end of a block lets go of the observer. -/
def unwind (s : Observers) : Frame → Observers
  | .release o => { s with held := s.held.erase o }
  | _ => s

/-- A set of observers, and the blocks on their way to them. -/
def component : Component where
  toSignature := signature
  decTask := inferInstance
  exec := exec
  resume := resume
  unwind s f := (unwind s f, [])
  poll s _ := { state := s }
  tick s := (s, [])

end Conduit.Observer
