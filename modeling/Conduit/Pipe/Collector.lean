import Conduit.Pipe.Event

/-!
Collectors: they gather the reports of one request and tell, when the last one has come or none can
come any more, what the request amounts to.
-/

namespace Conduit.Pipe

/-- The reports gathered so far, newest first. -/
inductive Gathered where
  | read (events : List ReadEvent)
  | write (events : List WriteEvent)
  deriving DecidableEq

instance : Inhabited Gathered := ⟨.read []⟩

/-- What a request amounts to: all data or what is left, with the fault if there is one. -/
inductive Outcome where
  | read (r : Except (Bytes × Fault) Bytes)
  | write (r : Except (Bytes × Fault) Unit)

namespace Gathered

/-- Adds a report; one of the other kind is of no use. -/
def push : Gathered → Event → Gathered
  | .read es, .read e => .read (e :: es)
  | .write es, .write e => .write (e :: es)
  | g, _ => g

/-- Whether the last report has come. -/
def isComplete : Gathered → Bool
  | .read es => es.any (·.isFinal)
  | .write es => es.any (·.isFinal)

def outcome : Gathered → Outcome
  | .read es => .read (readAll [] es.reverse)
  | .write es => .write (writeAll es.reverse)

end Gathered

structure Collector where
  gathered : Gathered
  /-- Whether no further report can come. -/
  ended : Bool := false
  /-- Whether the outcome has been told. -/
  told : Bool := false
  deriving Inhabited

namespace Collector

def push (c : Collector) (e : Event) : Collector := { c with gathered := c.gathered.push e }

/-- The outcome, once it is settled and as long as it has not been told. -/
def outcome? (c : Collector) : Option Outcome :=
  if !c.told && (c.ended || c.gathered.isComplete) then some c.gathered.outcome else none

end Collector

end Conduit.Pipe
