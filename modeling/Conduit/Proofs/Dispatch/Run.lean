import Conduit.Dispatch.Machine

/-!
Runs of a machine, and what a component sees of them.

A run is any order of steps of the machine, of operations that are called from outside while nothing
runs, of pieces of work that threads and the pool take up, and of milliseconds that pass. Each time
its component takes part, the run keeps the moment: the state of the component and the cause for which
it takes part. What a component does in a run is read off these moments.

The rest of a machine matters to a component only through a few things: the frames that wait on the
stack and in the lines of the venues, and the tasks that have been woken. A configuration is what is
left of a machine when everything else is forgotten, and `step_config` says all that a move of the
machine can do to it.
-/

namespace Conduit.Dispatch

variable {C : Component}

/-- Why a component takes part. -/
inductive Cause (C : Component) where
  | exec (view : View) (a : C.Action)
  | resume (f : C.Frame)
  /-- A throw passes a frame. -/
  | unwind (f : C.Frame)
  | poll (t : C.Task)
  | tick

/-- A component takes part, in a state. -/
structure Moment (C : Component) where
  state : C.State
  cause : Cause C

/-- The turn that a component takes at a moment; none when it only cleans up or counts the time. -/
def Moment.turn? (q : Moment C) : Option (Turn C.toSignature) :=
  match q.cause with
  | .exec view a => some (C.exec view q.state a)
  | .resume f => some (C.resume q.state f)
  | .poll t => some (C.poll q.state t)
  | .unwind _ | .tick => none

/-- Whether a callback starts that throws in the end, or the turn itself does. -/
def Next.throws {S : Signature} : Next S → Bool
  | .throw => true
  | .script _ _ throws _ => throws
  | _ => false

/-- Nothing throws in a run. -/
def Calm (past : List (Moment C)) : Prop :=
  ∀ q ∈ past, (q.turn?.map (·.next.throws)).getD false = false

instance (past : List (Moment C)) : Decidable (Calm past) := List.decidableBAll ..

/-- Whether a throw passes a frame of the component. -/
def Moment.passed (q : Moment C) : Bool :=
  match q.cause with
  | .unwind _ => true
  | _ => false

/-- No throw passes a frame of the component in a run: no callback throws, by itself or out of what
it runs, that such a frame has run directly. -/
def Undisturbed (past : List (Moment C)) : Prop := ∀ q ∈ past, q.passed = false

instance (past : List (Moment C)) : Decidable (Undisturbed past) := List.decidableBAll ..

namespace Machine

/-- Why the component takes part in the next step, if it does. -/
def cause? (m : Machine C) : Option (Cause C) :=
  match m.control, m.stack, m.ready with
  | .run (.own a), _, _ => some (.exec m.view a)
  | .back _, .own f :: _, _ => some (.resume f)
  | .thrown, .own f :: _, _ => some (.unwind f)
  | .back _, [], .own t :: _ => some (.poll t)
  | .thrown, [], .own t :: _ => some (.poll t)
  | _, _, _ => none

/-- The moment of the next step, if the component takes part in it. -/
def moment? (m : Machine C) : Option (Moment C) := m.cause?.map fun cause => ⟨m.state, cause⟩

/-- A machine that has nothing to run has an empty stack. -/
theorem stack_of_step? {m : Machine C} (h : m.step? = none) : m.stack = [] := by
  unfold step? at h
  split at h
  · cases h
  · cases h
  all_goals
    split at h
    · assumption
    · cases h

/-! The next step, and why the component takes part in it. -/

section Next

variable {m : Machine C} {f : Frame C} {k : List (Frame C)}

theorem step?_own {a : C.Action} (hc : m.control = .run (.own a)) :
    m.step? = some (m.take (C.exec m.view m.state a)) := by
  unfold step?
  rw [hc]

theorem step?_context {o : ContextOp} (hc : m.control = .run (.context o)) :
    m.step? = some (m.runContext o) := by
  unfold step?
  rw [hc]

theorem step?_back {r : Reply C.Answer} (hc : m.control = .back r) (hs : m.stack = f :: k) :
    m.step? = some (({ m with stack := k } : Machine C).returnTo r f) := by
  simp only [step?, hc, hs]

theorem step?_thrown (hc : m.control = .thrown) (hs : m.stack = f :: k) :
    m.step? = some (({ m with stack := k } : Machine C).unwind f) := by
  simp only [step?, hc, hs]

theorem moment?_eq {cause : Option (Cause C)} (h : m.cause? = cause) :
    m.moment? = cause.map fun cause => ⟨m.state, cause⟩ := by
  rw [moment?, h]

theorem cause?_own {a : C.Action} (hc : m.control = .run (.own a)) :
    m.cause? = some (.exec m.view a) := by
  simp only [cause?, hc]

theorem cause?_context {o : ContextOp} (hc : m.control = .run (.context o)) : m.cause? = none := by
  simp only [cause?, hc]

theorem cause?_back {r : Reply C.Answer} (hc : m.control = .back r) (hs : m.stack = f :: k) :
    m.cause? = match f with
      | .own g => some (.resume g)
      | _ => none := by
  simp only [cause?, hc, hs]
  cases f <;> rfl

theorem cause?_thrown (hc : m.control = .thrown) (hs : m.stack = f :: k) :
    m.cause? = match f with
      | .own g => some (.unwind g)
      | _ => none := by
  simp only [cause?, hc, hs]
  cases f <;> rfl

/-- A machine that has nothing to run turns to the task that was woken first. -/
theorem cause?_stopped {t : Task C} {ts : List (Task C)} (hm : m.step? = none)
    (hr : m.ready = t :: ts) : m.cause? = match t with
      | .own u => some (.poll u)
      | .serve _ => none := by
  have hs := stack_of_step? hm
  unfold cause?
  cases hc : m.control with
  | run op => cases op <;> simp [step?, hc] at hm
  | back | thrown => cases t <;> simp [hs, hr]

/-- A frame is gone on with when a reply reaches it. -/
theorem stack_of_resume {g : C.Frame} (h : m.cause? = some (.resume g)) :
    (∃ r, m.control = .back r) ∧ ∃ k, m.stack = .own g :: k := by
  unfold cause? at h
  split at h <;> cases h
  exact ⟨⟨_, by assumption⟩, _, by assumption⟩

/-- A throw passes the uppermost frame. -/
theorem stack_of_unwind {g : C.Frame} (h : m.cause? = some (.unwind g)) :
    m.control = .thrown ∧ ∃ k, m.stack = .own g :: k := by
  unfold cause? at h
  split at h <;> cases h
  exact ⟨by assumption, _, by assumption⟩

/-- The reactor serves a task when nothing runs. -/
theorem step?_of_poll {t : C.Task} (h : m.cause? = some (.poll t)) : m.step? = none := by
  unfold cause? at h
  split at h <;> cases h
  all_goals
    rename_i hc hs _
    simp only [step?, hc, hs]

end Next

/-- A millisecond begins; what it wakes has not run yet. -/
def strike (m : Machine C) : Machine C := { m with state := (C.tick m.state).1 }.wakeAll (C.tick m.state).2

/-- An operation is about to run on an empty stack. -/
def request (m : Machine C) (op : Op C.Action) : Machine C :=
  { m with stack := [], control := .run op }

theorem call_eq (m : Machine C) (op : Op C.Action) : m.call op = run patience (m.request op) := rfl

theorem tick_eq (m : Machine C) : m.tick = m.strike.rest := rfl

end Machine

/-- The runs from a machine: the moments at which the component took part, oldest first, and where
the machine stands now. While nothing else runs, a thread or the pool may take up what waits for it.
In a free run the reactor serves what has been woken in any order. -/
inductive RunBy (free : Bool) (m₀ : Machine C) : List (Moment C) → Machine C → Prop where
  | start : RunBy free m₀ [] m₀
  | advance {past m m'} (h : RunBy free m₀ past m) (hm : m.advance? = some m') :
      RunBy free m₀ (past ++ m.moment?.toList) m'
  | request {past m} (h : RunBy free m₀ past m) (hm : m.step? = none) (op : Op C.Action) :
      RunBy free m₀ past (m.request op)
  | strike {past m} (h : RunBy free m₀ past m) (hm : m.step? = none) :
      RunBy free m₀ (past ++ [⟨m.state, .tick⟩]) m.strike
  | proceed {past m v q n} (h : RunBy free m₀ past m) (hm : m.step? = none)
      (hq : m.venues[v]? = some q) (hk : q.kind.isParallel = true) (hn : n ≤ q.waiting.length) :
      RunBy free m₀ past (m.proceed v n)
  | reorder {past m ready} (h : RunBy free m₀ past m) (hf : free = true) (hm : m.step? = none)
      (hr : ready.Perm m.ready) : RunBy free m₀ past { m with ready }

/-- The runs in which the reactor serves what has been woken first. -/
abbrev Run (m₀ : Machine C) : List (Moment C) → Machine C → Prop := RunBy false m₀

namespace RunBy

variable {free : Bool} {m₀ m m' : Machine C} {past later : List (Moment C)}

theorem trans (h : RunBy free m₀ past m) (h' : RunBy free m later m') :
    RunBy free m₀ (past ++ later) m' := by
  induction h' with
  | start => simpa using h
  | advance _ hm ih => rw [← List.append_assoc]; exact ih.advance hm
  | request _ hm op ih => exact ih.request hm op
  | strike _ hm ih => rw [← List.append_assoc]; exact ih.strike hm
  | proceed _ hm hq hk hn ih => exact ih.proceed hm hq hk hn
  | reorder _ hf hm hr ih => exact ih.reorder hf hm hr

/-- A run is a free run. -/
theorem loosen (h : Run m₀ past m) : RunBy free m₀ past m := by
  induction h with
  | start => exact .start
  | advance _ hm ih => exact ih.advance hm
  | request _ hm op ih => exact ih.request hm op
  | strike _ hm ih => exact ih.strike hm
  | proceed _ hm hq hk hn ih => exact ih.proceed hm hq hk hn
  | reorder _ hf => cases hf

/-- An element of a list is one of the first ones, or the last. -/
theorem eq_or_of_concat_eq {α : Type} {l l₁ l₂ : List α} {a b : α} (h : l ++ [a] = l₁ ++ b :: l₂) :
    (∃ l₃, l = l₁ ++ b :: l₃) ∨ l = l₁ ∧ a = b := by
  rcases l₂.eq_nil_or_concat with rfl | ⟨l₃, c, rfl⟩
  · obtain ⟨hl, ha⟩ := List.append_inj' h rfl
    exact .inr ⟨hl, by simpa using ha⟩
  · rw [List.concat_eq_append, ← List.cons_append, ← List.append_assoc] at h
    exact .inl ⟨l₃, (List.append_inj' h rfl).1⟩

/-- Before each of its moments a run has come to a machine in this state. -/
theorem before (h : RunBy free m₀ past m) {past₁ past₂ : List (Moment C)} {q : Moment C}
    (hp : past = past₁ ++ q :: past₂) : ∃ m₁, RunBy free m₀ past₁ m₁ ∧ m₁.state = q.state := by
  induction h generalizing past₂ with
  | start => simp at hp
  | @advance past m m' h hm ih =>
    cases hq : m.moment? with
    | none => exact ih (by simpa [hq] using hp)
    | some q' =>
      rcases eq_or_of_concat_eq (by simpa [hq] using hp) with ⟨past₃, hp⟩ | ⟨rfl, rfl⟩
      · exact ih hp
      · refine ⟨m, h, ?_⟩
        obtain ⟨cause, -, rfl⟩ := Option.map_eq_some_iff.mp hq
        rfl
  | request _ hm op ih => exact ih hp
  | @strike past m h hm ih =>
    rcases eq_or_of_concat_eq hp with ⟨past₃, hp⟩ | ⟨rfl, rfl⟩
    · exact ih hp
    · exact ⟨m, h, rfl⟩
  | proceed _ _ _ _ _ ih => exact ih hp
  | reorder _ _ _ _ ih => exact ih hp

/-- A run from a machine that has something to run has not begun, or has taken its step. -/
theorem after_step (h : RunBy free m₀ past m) {m₁ : Machine C} (h₁ : m₀.step? = some m₁) :
    past = [] ∧ m = m₀ ∨ ∃ later, past = m₀.moment?.toList ++ later ∧ RunBy free m₁ later m := by
  induction h with
  | start => exact .inl ⟨rfl, rfl⟩
  | advance _ hm ih =>
    rcases ih with ⟨rfl, rfl⟩ | ⟨later, rfl, h⟩
    · unfold Machine.advance? at hm
      rw [h₁] at hm
      cases hm
      exact .inr ⟨[], by simp, .start⟩
    · exact .inr ⟨_, List.append_assoc .., h.advance hm⟩
  | request _ hm op ih =>
    rcases ih with ⟨-, rfl⟩ | ⟨later, rfl, h⟩
    · simp [hm] at h₁
    · exact .inr ⟨later, rfl, h.request hm op⟩
  | strike _ hm ih =>
    rcases ih with ⟨-, rfl⟩ | ⟨later, rfl, h⟩
    · simp [hm] at h₁
    · exact .inr ⟨_, List.append_assoc .., h.strike hm⟩
  | proceed _ hm hq hk hn ih =>
    rcases ih with ⟨-, rfl⟩ | ⟨later, rfl, h⟩
    · simp [hm] at h₁
    · exact .inr ⟨later, rfl, h.proceed hm hq hk hn⟩
  | reorder _ hf hm hr ih =>
    rcases ih with ⟨-, rfl⟩ | ⟨later, rfl, h⟩
    · simp [hm] at h₁
    · exact .inr ⟨later, rfl, h.reorder hf hm hr⟩

/-- A run can be parted at each of its moments that is not one at which only time passes. -/
theorem split (h : RunBy free m₀ past m) {q : Moment C} (hq : q ∈ past) (ht : q.cause ≠ .tick) :
    ∃ past₁ m₁ m₂ past₂, RunBy free m₀ past₁ m₁ ∧ m₁.moment? = some q ∧ m₁.advance? = some m₂ ∧
      RunBy free m₂ past₂ m ∧ past = past₁ ++ q :: past₂ := by
  induction h with
  | start => cases hq
  | @advance past m m' h hm ih =>
    rcases List.mem_append.mp hq with hq | hq
    · obtain ⟨past₁, m₁, m₂, past₂, h₁, hm₁, hs, h₂, rfl⟩ := ih hq
      exact ⟨past₁, m₁, m₂, _, h₁, hm₁, hs, h₂.advance hm, by simp⟩
    · have hq := Option.mem_toList.mp hq
      exact ⟨past, m, m', [], h, hq, hm, .start, by simp [Option.mem_def.mp hq]⟩
  | request _ hm op ih =>
    obtain ⟨past₁, m₁, m₂, past₂, h₁, hm₁, hs, h₂, rfl⟩ := ih hq
    exact ⟨past₁, m₁, m₂, past₂, h₁, hm₁, hs, h₂.request hm op, rfl⟩
  | strike h hm ih =>
    rcases List.mem_append.mp hq with hq | hq
    · obtain ⟨past₁, m₁, m₂, past₂, h₁, hm₁, hs, h₂, rfl⟩ := ih hq
      exact ⟨past₁, m₁, m₂, _, h₁, hm₁, hs, h₂.strike hm, by simp⟩
    · exact absurd (by rw [List.mem_singleton.mp hq]) ht
  | proceed _ hm hv hk hn ih =>
    obtain ⟨past₁, m₁, m₂, past₂, h₁, hm₁, hs, h₂, rfl⟩ := ih hq
    exact ⟨past₁, m₁, m₂, past₂, h₁, hm₁, hs, h₂.proceed hm hv hk hn, rfl⟩
  | reorder _ hf hm hr ih =>
    obtain ⟨past₁, m₁, m₂, past₂, h₁, hm₁, hs, h₂, rfl⟩ := ih hq
    exact ⟨past₁, m₁, m₂, past₂, h₁, hm₁, hs, h₂.reorder hf hm hr, rfl⟩

end RunBy

/-- A run from a machine, free or not. -/
structure ExecutionBy (free : Bool) (m₀ : Machine C) where
  past : List (Moment C)
  machine : Machine C
  run : RunBy free m₀ past machine

/-- A run from a machine. -/
abbrev Execution (m₀ : Machine C) := ExecutionBy false m₀

namespace ExecutionBy

variable {free : Bool} {m₀ : Machine C}

/-- A run goes on from where another one ends. -/
def andThen (x : ExecutionBy free m₀) (y : ExecutionBy free x.machine) : ExecutionBy free m₀ :=
  ⟨x.past ++ y.past, y.machine, x.run.trans y.run⟩

/-- A run goes through a step, and on from there. -/
def through (x : ExecutionBy free m₀) {m : Machine C} (h : x.machine.step? = some m)
    (y : ExecutionBy free m) : ExecutionBy free m₀ :=
  have hm : x.machine.advance? = some m := by
    unfold Machine.advance?
    rw [h]
  ⟨x.past ++ x.machine.moment?.toList ++ y.past, y.machine, (x.run.advance hm).trans y.run⟩

/-- Nothing has happened yet. -/
def begin (m₀ : Machine C) : ExecutionBy free m₀ := ⟨[], m₀, .start⟩

/-- One more step, if there is one. -/
def advance (x : ExecutionBy free m₀) : ExecutionBy free m₀ :=
  match h : x.machine.advance? with
  | some m => ⟨x.past ++ x.machine.moment?.toList, m, x.run.advance h⟩
  | none => x

/-- An operation is called, if nothing runs. -/
def request (x : ExecutionBy free m₀) (op : Op C.Action) : ExecutionBy free m₀ :=
  match h : x.machine.step? with
  | none => ⟨x.past, x.machine.request op, x.run.request h op⟩
  | some _ => x

/-- A millisecond passes, if nothing runs. -/
def strike (x : ExecutionBy free m₀) : ExecutionBy free m₀ :=
  match h : x.machine.step? with
  | none => ⟨x.past ++ [⟨x.machine.state, .tick⟩], x.machine.strike, x.run.strike h⟩
  | some _ => x

/-- A thread or the pool takes up the `n` oldest pieces of work that wait for it, if nothing runs. -/
def proceed (x : ExecutionBy free m₀) (v n : Nat) : ExecutionBy free m₀ :=
  match h : x.machine.step?, hq : x.machine.venues[v]? with
  | none, some q =>
    if hk : q.kind.isParallel = true ∧ n ≤ q.waiting.length then
      ⟨x.past, x.machine.proceed v n, x.run.proceed h hq hk.1 hk.2⟩
    else x
  | _, _ => x

/-- Operations are called one after the other, each followed by `n` steps. -/
def perform (x : ExecutionBy free m₀) (n : Nat) (ops : List (Op C.Action)) : ExecutionBy free m₀ :=
  ops.foldl (fun x op => n.repeat advance (x.request op)) x

end ExecutionBy

end Conduit.Dispatch
