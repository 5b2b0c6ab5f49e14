import Conduit.Dispatch.Machine

/-!
Labelled tasks and emitters. An emitter binds a handler to a context: each event that is emitted
makes the context call the handler once. Copies of an emitter share its handler and the count of
its calls. The handler is locked while it is called: whoever calls it then waits, and never gets
further if the handler itself waits for him.
-/

namespace Conduit.Dispatch.Emitter

/-- What a script can do with tasks and emitters. A task or handler runs a script when it is called
and then throws if it is to; a handler may do something else at each of its calls, which are counted
from one. -/
inductive Action (Event : Type) where
  | perform (context label : String) (script : List (Op (Action Event))) (throws : Bool)
  | handle (id context : String) (script : Nat → List (Op (Action Event))) (throws : Nat → Bool)
  | emit (id : String) (event : Event)
  | copy (id source : String)
  | drop (id : String)
  | describe (id : String)

instance {Event : Type} : Inhabited (Action Event) := ⟨.drop ""⟩

/-- A handler that runs the same script at each call, and throws at one of them at most. -/
def Action.make {Event : Type} (id context : String) (script : List (Op (Action Event)))
    (throwsAt : Option Nat) : Action Event :=
  .handle id context (fun _ => script) (throwsAt = some ·)

inductive Answer where
  | unknownEmitter
  | dropped (existed : Bool)
  | text (s : String)
  deriving DecidableEq, Inhabited

/-- A task that ran: in line with its caller or not, and on which thread of its own; or the `n`-th
call of a handler. -/
inductive Note (Event : Type) where
  | ran (label : String) (inline : Bool) (thread : Option String)
  | heard (emitter : String) (n : Nat) (event : Event)

/-- A handler with the number of its calls, which holds its lock while it is called. -/
structure Handler (Event : Type) where
  name : String
  script : Nat → List (Op (Action Event))
  throws : Nat → Bool
  calls : Nat := 0
  locked : Bool := false

/-- A task or a call of a handler that is left to run, or the end of a call. -/
inductive Frame (Event : Type) where
  | task (label : String) (inline : Bool) (thread : Option String)
      (script : List (Op (Action Event))) (throws : Bool)
  | call (handler : Nat) (event : Event)
  | unlock (handler : Nat)

structure State (Event : Type) where
  handlers : List (Handler Event) := []
  emitters : List (String × Nat × Context) := []

abbrev signature (Event : Type) : Signature where
  State := State Event
  Action := Action Event
  Answer := Answer
  Frame := Frame Event
  Task := Empty
  Note := Note Event
  Tag := String

variable {Event : Type}

def State.bind (s : State Event) (id : String) (handler : Nat) (c : Context) : State Event :=
  { s with emitters := (id, handler, c) :: s.emitters.filter (·.1 ≠ id) }

def State.isLocked (s : State Event) (handler : Nat) : Bool :=
  (s.handlers[handler]?.map (·.locked)).getD false

def State.unlock (s : State Event) (handler : Nat) : State Event :=
  { s with handlers := s.handlers.modify handler fun h => { h with locked := false } }

def exec (view : View) (s : State Event) : Action Event → Turn (signature Event)
  | .perform context label script throws =>
    match view.context? context with
    | none => { state := s, next := .reply .unknownContext }
    | some c =>
      { state := s
        next := .perform c (.task label (c.place = .direct) (view.thread? c) script throws) [] }
  | .handle id context script throws =>
    match view.context? context with
    | none => { state := s, next := .reply .unknownContext }
    | some c =>
      let handler := { name := id, script, throws }
      { state := { s with handlers := s.handlers ++ [handler] }.bind id s.handlers.length c }
  | .emit id event =>
    match s.emitters.lookup id with
    | none => { state := s, next := .reply (.own .unknownEmitter) }
    | some (h, c) => { state := s, next := .perform c (.call h event) [] }
  | .copy id source =>
    match s.emitters.lookup source with
    | none => { state := s, next := .reply (.own .unknownEmitter) }
    | some (h, c) => { state := s.bind id h c }
  | .drop id =>
    { state := { s with emitters := s.emitters.filter (·.1 ≠ id) }
      next := .reply (.own (.dropped (s.emitters.lookup id).isSome)) }
  | .describe id =>
    match s.emitters.lookup id with
    | none => { state := s, next := .reply (.own .unknownEmitter) }
    | some (_, c) =>
      { state := s
        next := .reply (.own (.text ("Emitter \x7b context: " ++ view.describe c ++ " \x7d"))) }

def resume (s : State Event) : Frame Event → Turn (signature Event)
  | .task label inline thread script throws =>
    { state := s
      notes := [.ran label inline thread]
      next := .script label script throws [] }
  | .call handler event =>
    match s.handlers[handler]? with
    | none => { state := s }
    | some h =>
      -- Without the lock the call is tried again, and again.
      if h.locked then { state := s, next := .enter [.call handler event] }
      else
        let n := h.calls + 1
        { state := { s with handlers := s.handlers.set handler { h with calls := n, locked := true } }
          notes := [.heard h.name n event]
          next := .script h.name (h.script n) (h.throws n) [.unlock handler] }
  | .unlock handler => { state := s.unlock handler }

/-- A throw out of a handler leaves its lock open. -/
def unwind (s : State Event) : Frame Event → State Event × List Empty
  | .unlock handler => (s.unlock handler, [])
  | _ => (s, [])

/-- Tasks and emitters on contexts. -/
def component (Event : Type) : Component where
  toSignature := signature Event
  decTask := inferInstance
  exec := exec
  resume := resume
  unwind := unwind
  poll s _ := { state := s }
  tick s := (s, [])

end Conduit.Dispatch.Emitter
