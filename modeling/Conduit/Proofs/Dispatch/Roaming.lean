import Conduit.Proofs.Dispatch.Tarry

/-!
Runs in which nothing is said about the order in which the reactor turns to the venues. A machine roams
as the reactor pleases; everything else is as in a run. Frames may be gone on with in another way than the
component does, one that does not spare work.
-/

namespace Conduit.Dispatch

variable {C : Component}

/-- What happens in a run: its component takes part, or an operation is called from outside. -/
inductive Deed (C : Component) where
  | moment (q : Moment C)
  | request (op : Op C.Action)

/-- Another way to go on with the frames of a component. -/
abbrev Manner (C : Component) := C.State → C.Frame → Turn C.toSignature

/-- Work that is spared when a frame is gone on with: the context for which it is meant, the work, and
the frames that follow. -/
abbrev Savings (C : Component) := C.State → C.Frame → Option (Context × C.Frame × List C.Frame)

namespace Machine

variable (m : Machine C)

/-- The next step of what is running, if frames are gone on with in some manner. -/
def stepBy (resume : Manner C) : Option (Machine C) :=
  match m.control, m.stack with
  | .back _, .own f :: k => some (({ m with stack := k } : Machine C).take (resume m.state f))
  | _, _ => m.step?

/-- At most `n` steps in some manner, or of the reactor when nothing is left to run, with the moments at
which the component takes part. -/
def settleBy (resume : Manner C) : Nat → Machine C → List (Moment C) × Machine C
  | 0, m => ([], m)
  | n + 1, m =>
    match (m.stepBy resume).or m.poll? with
    | none => ([], m)
    | some m' =>
      let run := settleBy resume n m'
      (m.moment?.toList ++ run.1, run.2)

/-- Operations are called one after the other, if everything has settled within `n` steps of each. -/
def perform? (resume : Manner C) (n : Nat) : List (Op C.Action) → Machine C →
    Option (List (Moment C) × Machine C)
  | [], m => some ([], m)
  | op :: ops, m =>
    let run := settleBy resume n (m.request op)
    match run.2.advance? with
    | some _ => none
    | none => (perform? resume n ops run.2).map fun later => (run.1 ++ later.1, later.2)

/-- The venue that is spared some work by the next step. -/
def spared? (spares? : Savings C) : Option Nat :=
  match m.control, m.stack with
  | .back _, .own f :: _ => (spares? m.state f).bind fun saving =>
    match saving.1.place with
    | .venue v => some v
    | _ => none
  | _, _ => none

/-- The venues that hold work less than they might, after the next step. -/
def holding (spares? : Savings C) (held : List Nat) : List Nat :=
  match m.spared? spares? with
  | some v => v :: held
  | none => m.clearing held

/-- Pieces of work are counted only where none is spared: a queue is moved by a number only if it has all
the work that it might have, and is spared none meanwhile. -/
structure Fair (spares? : Savings C) (held : List Nat) : Prop where
  counted : ∀ id n v, m.control = .run (.context (.drain id (some n))) →
    m.venue? id .manual = some v → v ∉ held
  spared : ∀ v, m.spared? spares? = some v → ∀ n ran, .drain v (some n) ran ∉ m.stack

end Machine

/-- What a machine may have come to, with what has happened and the venues that hold work less than they
might. -/
inductive Roams (resume : Manner C) (spares? : Savings C) (m₀ : Machine C) :
    List (Deed C) → List Nat → Machine C → Prop where
  | start : Roams resume spares? m₀ [] [] m₀
  | step {deeds held m m'} (h : Roams resume spares? m₀ deeds held m) (hf : m.Fair spares? held)
      (hm : m.stepBy resume = some m') :
      Roams resume spares? m₀ (deeds ++ m.moment?.toList.map .moment) (m.holding spares? held) m'
  /-- The reactor turns to a task. -/
  | turn {deeds held m m'} (h : Roams resume spares? m₀ deeds held m) (hm : m.step? = none)
      (hp : m.poll? = some m') :
      Roams resume spares? m₀ (deeds ++ m.moment?.toList.map .moment) held m'
  /-- The tasks that are to be served change their order. -/
  | order {deeds held m ready} (h : Roams resume spares? m₀ deeds held m) (hm : m.step? = none)
      (hr : ready.Perm m.ready) : Roams resume spares? m₀ deeds held { m with ready }
  /-- A thread or the pool takes up work by itself. -/
  | proceed {deeds held m v q n} (h : Roams resume spares? m₀ deeds held m) (hm : m.step? = none)
      (hq : m.venues[v]? = some q) (hk : q.kind.isParallel = true) (hn : n ≤ q.waiting.length) :
      Roams resume spares? m₀ deeds held (m.proceed v n)
  | request {deeds held m} (h : Roams resume spares? m₀ deeds held m) (hm : m.step? = none)
      (op : Op C.Action) : Roams resume spares? m₀ (deeds ++ [.request op]) held (m.request op)
  | strike {deeds held m} (h : Roams resume spares? m₀ deeds held m) (hm : m.step? = none) :
      Roams resume spares? m₀ (deeds ++ [.moment ⟨m.state, .tick⟩]) held m.strike

namespace Machine

variable {m m' : Machine C} {resume : Manner C} {spares? : Savings C} {held : List Nat}
  {f : Frame C} {k : List (Frame C)}

theorem stepBy_own {r : Reply C.Answer} {f : C.Frame} (hc : m.control = .back r)
    (hs : m.stack = .own f :: k) :
    m.stepBy resume = some (({ m with stack := k } : Machine C).take (resume m.state f)) := by
  simp only [stepBy, hc, hs]

/-- Where no frame of the component is gone on with, the manner does not matter. -/
theorem stepBy_other (h : ∀ r f k, m.control = .back r → m.stack ≠ .own f :: k) :
    m.stepBy resume = m.step? := by
  unfold stepBy
  split
  · rename_i r f k hc hs
    exact absurd hs (h r f k hc)
  · rfl

theorem stepBy_resume (m : Machine C) : m.stepBy C.resume = m.step? := by
  unfold stepBy
  split
  · rename_i r f k hc hs
    exact (step?_back hc hs).symm
  · rfl

theorem stepBy_eq_none : m.stepBy resume = none ↔ m.step? = none := by
  unfold stepBy
  split
  · rename_i r f k hc hs
    rw [step?_back hc hs]
    simp
  · rfl

/-- Every step is a path on the floor, in whatever manner frames are gone on with. -/
theorem stepBy_path (h : m.floor.Orderly) (hm : m.stepBy resume = some m') :
    ∃ e, m.floor.Path e m'.floor := by
  unfold stepBy at hm
  split at hm
  · rename_i r f k hc hs
    cases hm
    have hn : Nested k := h.nested_of_other hs rfl
    have hpop : m.floor.Path none ({ m with stack := k } : Machine C).floor :=
      (Floor.Move.pop (f := m.floor) _ hs rfl).path
    obtain ⟨e, -, hpath⟩ := ({ m with stack := k } : Machine C).take_path hn (resume m.state f)
    exact ⟨e, hpop.trans hpath⟩
  · obtain ⟨e, -, hpath⟩ := step?_paces h hm
    exact ⟨e, hpath⟩

end Machine

namespace Roams

variable {resume : Manner C} {spares? : Savings C} {m₀ m : Machine C} {deeds : List (Deed C)}
  {held : List Nat}

theorem orderly (h : Roams resume spares? m₀ deeds held m) (h₀ : m₀.floor.Orderly) :
    m.floor.Orderly := by
  induction h with
  | start => exact h₀
  | step _ _ hm ih =>
    obtain ⟨e, hpath⟩ := Machine.stepBy_path ih hm
    exact ih.path hpath
  | turn _ hm hp ih =>
    obtain ⟨e, -, hpath⟩ := Machine.poll?_paces ih hm hp
    exact ih.path hpath
  | order _ _ hr ih => exact ih.reordered (hr.filterMap _)
  | proceed _ hm hq hk _ ih =>
    obtain ⟨e, -, hpath⟩ := Machine.proceed_path hm hq hk _
    exact ih.path hpath
  | request _ hm op ih => exact Machine.orderly_request ih hm op
  | strike _ _ ih => exact (Machine.floor_strike _).symm ▸ ih

/-- What every step of a configuration keeps holds wherever the machine roams. -/
theorem config_induction [IsEmpty C.Task] (h : Roams C.resume spares? m₀ deeds held m)
    (I : Config C → Prop) (start : I m₀.config)
    (step : ∀ c cause c', I c → c.Step cause c' → I c') : I m.config := by
  have hrest {m m' : Machine C} (hm : m.step? = none) (hb : m'.config = m.bare) : m'.config = m.config := by
    rw [hb, Machine.config_nil (Machine.stack_of_step? hm)]
  induction h with
  | start => exact start
  | step _ _ hm ih =>
    rw [Machine.stepBy_resume] at hm
    exact step _ _ _ ih (Machine.step?_config hm)
  | turn _ hm hp ih => exact step _ _ _ ih (Machine.poll?_config hm hp)
  | @order _ _ m ready _ hm hr ih =>
    have hs := Machine.stack_of_step? hm
    refine (hrest hm ?_).symm ▸ ih
    rw [Machine.config_nil (by exact hs)]
    simp [Machine.bare, tasks_eq_nil]
  | proceed _ hm _ _ _ ih => exact step _ _ _ ih (Machine.proceed_config hm _ _)
  | @request _ _ m _ hm op ih =>
    refine (hrest hm ?_).symm ▸ ih
    rw [Machine.config_run rfl]
    simp [Machine.bare, Machine.request, Machine.stack_of_step? hm]
  | @strike _ _ m _ hm ih =>
    have hs := Machine.stack_of_step? hm
    rw [Machine.config_nil hs] at ih
    have := step _ _ _ ih (.tick rfl)
    rw [show m.strike = { m with state := (C.tick m.state).1 } from Machine.wakeAll_eq_self _ _,
      Machine.config_nil (by exact hs)]
    simpa [Machine.bare, tasks_eq_nil] using this

/-- What the machine does next by itself is one of the things that it may do as it roams. -/
theorem advance {m' : Machine C} (h : Roams C.resume spares? m₀ deeds held m)
    (hf : m.Fair spares? held) (hm : m.advance? = some m') :
    ∃ held', Roams C.resume spares? m₀ (deeds ++ m.moment?.toList.map .moment) held' m' := by
  unfold Machine.advance? at hm
  split at hm
  · rename_i hstep
    cases hm
    exact ⟨_, h.step hf ((Machine.stepBy_resume m).trans hstep)⟩
  · rename_i hstep
    exact ⟨_, h.turn hstep hm⟩

end Roams

/-- A run in which the reactor turns to the venues as it pleases. -/
structure Roaming (resume : Manner C) (spares? : Savings C) (m₀ : Machine C) where
  deeds : List (Deed C)
  held : List Nat
  machine : Machine C
  roams : Roams resume spares? m₀ deeds held machine

end Conduit.Dispatch
