import Conduit.Text.Numeral
import Conduit.Text.Quoted

/-!
The reactor that runs background work: the pool it falls back to, how that pool is set up, and
which runtime a caller finds itself in.
-/

namespace Conduit.Reactor

/-- Size and thread name of the fallback pool; it always has a worker. -/
structure Pool where
  workers : Nat := 2
  threadName : String := "tether-reactor"
  workers_pos : 0 < workers := by omega

namespace Pool

instance : Inhabited Pool := ⟨{}⟩

theorem eq_iff (p q : Pool) : p = q ↔ p.workers = q.workers ∧ p.threadName = q.threadName := by
  cases p
  cases q
  simp

instance : DecidableEq Pool := fun p q => decidable_of_iff' _ (eq_iff p q)

theorem workers_pos_of_max (n : Nat) : 0 < max n 1 := by omega

/-- The pool with another number of workers; zero counts as one. -/
def withWorkers (p : Pool) (n : Nat) : Pool :=
  { p with workers := max n 1, workers_pos := workers_pos_of_max n }

def withThreadName (p : Pool) (name : String) : Pool := { p with threadName := name }

/-- The pool that two environment texts ask for. A worker count that is no number and a name that is
blank are passed over. -/
def ofEnvironment (workers name : Option String) : Pool :=
  let p : Pool := {}
  let p :=
    match workers.bind fun s => Text.word? (Text.trimBlank s) with
    | some n => p.withWorkers n
    | none => p
  match (name.map Text.trimBlank).filter (· ≠ "") with
  | some n => p.withThreadName n
  | none => p

def describe (p : Pool) : String :=
  "ReactorConfig \x7b worker_threads: " ++ toString p.workers ++ ", thread_name: " ++
    Text.quote p.threadName ++ " \x7d"

end Pool

inductive Flavor where
  | currentThread
  | multiThread
  deriving DecidableEq, Inhabited

/-- The text that shows a reactor, by the flavor of its runtime. -/
def describe : Flavor → String
  | .currentThread => "Reactor \x7b handle: Handle \x7b inner: " ++
      "CurrentThread(current_thread::Handle \x7b ... \x7d) \x7d \x7d"
  | .multiThread => "Reactor \x7b handle: Handle \x7b inner: " ++
      "MultiThread(multi_thread::Handle \x7b ... \x7d) \x7d \x7d"

/-- Where a caller stands: in no runtime, or in one of a flavor. -/
abbrev Site := Option Flavor

/-- The flavor of the runtime that serves a caller: its own, else the fallback pool. -/
def flavorAt (site : Site) : Flavor := site.getD .multiThread

/-- The thread that runs a caller's work: one of its own runtime, else one named after the pool. -/
def threadAt (site : Site) (pool : Pool) : String :=
  match site with
  | some _ => "own"
  | none => pool.threadName

end Conduit.Reactor
