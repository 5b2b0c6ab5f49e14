import Conduit.Dispatch.Context

/-!
Components: what a machine of contexts and callbacks is filled with. A component has a state, runs
its actions and the frames of its callbacks in turns, and serves tasks of its own. A turn changes
the state and says how the machine goes on.
-/

namespace Conduit.Dispatch

/-- The types of a component. A `Frame` is something left to do, on the stack or in the line of a
venue; a `Task` is something that the reactor serves when it has been woken; a `Note` is something
to tell; a `Tag` says whose script an answer belongs to. -/
structure Signature where
  State : Type
  Action : Type
  Answer : Type
  Frame : Type
  Task : Type
  Note : Type
  Tag : Type

/-- How the machine goes on after a turn. The frames `k` come next on the stack, first one first. -/
inductive Next (S : Signature) where
  /-- The turn is over and gives a reply. -/
  | reply (r : Reply S.Answer)
  /-- The turn ends with a throw. -/
  | throw
  /-- The frames follow. -/
  | enter (k : List S.Frame)
  /-- The operations of a callback run in order, then it throws if `throws`; then the frames
  follow. -/
  | script (tag : S.Tag) (ops : List (Op S.Action)) (throws : Bool) (k : List S.Frame)
  /-- Work is given to a context; then the frames follow. -/
  | perform (c : Context) (work : S.Frame) (k : List S.Frame)

instance {S : Signature} : Inhabited (Next S) := ⟨.reply .done⟩

/-- One turn of a component: its state after it, what there is to tell, which tasks are woken, and
how the machine goes on. -/
structure Turn (S : Signature) where
  state : S.State
  notes : List S.Note := []
  wakes : List S.Task := []
  next : Next S := .reply .done

/-- The behaviour of a component. -/
structure Component extends Signature where
  decTask : DecidableEq Task
  /-- Runs an action of a script. -/
  exec : View → State → Action → Turn toSignature
  /-- Goes on with a frame that has come to the top of the stack. -/
  resume : State → Frame → Turn toSignature
  /-- Cleans up after a frame that a throw passes, or that is dropped. -/
  unwind : State → Frame → State × List Task
  /-- Serves a task that has been woken. -/
  poll : State → Task → Turn toSignature
  /-- A millisecond passes. -/
  tick : State → State × List Task

instance (C : Component) : DecidableEq C.Task := C.decTask

end Conduit.Dispatch
