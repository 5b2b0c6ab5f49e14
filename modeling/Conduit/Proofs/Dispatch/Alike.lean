import Conduit.Proofs.Dispatch.Beside
import Conduit.Proofs.Dispatch.Cues

/-!
Two machines of the same component that differ in their states, in the answers that operations get and
in what is told, and in nothing else: the stacks, the lines and the tasks that have been woken are the
same. Nothing of that depends on answers or on what has been told. So the two machines go on alike if
their component wakes the same tasks and goes on in the same way, whatever else it does; the second one
may serve its tasks in another way than the component does.
-/

namespace Conduit.Dispatch

variable {C : Component}

/-- A machine stands before the same operation, or behind some answer, or in a throw. -/
inductive Echoes : Control C → Control C → Prop where
  | same (c) : Echoes c c
  | back (r r') : Echoes (.back r) (.back r')

namespace Echoes

variable {c : Control C}

theorem of_run {op : Op C.Action} (h : Echoes (.run op) c) : c = .run op := by
  cases h
  rfl

theorem of_thrown (h : Echoes .thrown c) : c = .thrown := by
  cases h
  rfl

theorem of_back {r : Reply C.Answer} (h : Echoes (.back r) c) : ∃ r', c = .back r' := by
  cases h <;> exact ⟨_, rfl⟩

end Echoes

/-- Machines that differ in their states, in answers and in what has been told. -/
def Alike (kin : C.State → C.State → Prop) (m m' : Machine C) : Prop :=
  ∃ s c j, kin m.state s ∧ Echoes m.control c ∧ m' = { m with state := s, control := c, journal := j }

/-- Turns after which a machine goes on in the same way. They may tell different things and give
different answers. -/
structure Agrees (kin : C.State → C.State → Prop) (t t' : Turn C.toSignature) : Prop where
  state : kin t.state t'.state
  wakes : t'.wakes = t.wakes
  next : t'.next = t.next ∨ ∃ r r', t.next = .reply r ∧ t'.next = .reply r'

/-- Another way to serve the tasks of a component. -/
abbrev Service (C : Component) := C.State → C.Task → Turn C.toSignature

/-- From states `Inv` on a component goes on in the same way as one whose tasks are served by `serve`. -/
structure Agreement (kin : C.State → C.State → Prop) (Inv : C.State → Prop) (serve : Service C) :
    Prop where
  exec : ∀ {s s'} view a, kin s s' → Inv s → Agrees kin (C.exec view s a) (C.exec view s' a)
  resume : ∀ {s s'} f, kin s s' → Inv s → Agrees kin (C.resume s f) (C.resume s' f)
  poll : ∀ {s s'} t, kin s s' → Inv s → Agrees kin (C.poll s t) (serve s' t)
  unwind : ∀ {s s'} f, kin s s' → kin (C.unwind s f).1 (C.unwind s' f).1 ∧
    (C.unwind s' f).2 = (C.unwind s f).2
  tick : ∀ {s s'}, kin s s' → kin (C.tick s).1 (C.tick s').1 ∧ (C.tick s').2 = (C.tick s).2

namespace Alike

variable {kin : C.State → C.State → Prop} {m m' n : Machine C}

theorem state (h : Alike kin m m') : kin m.state m'.state := by
  obtain ⟨s, c, j, hs, -, rfl⟩ := h
  exact hs

theorem stack_eq (h : Alike kin m m') : m'.stack = m.stack := by
  obtain ⟨s, c, j, -, -, rfl⟩ := h
  rfl

theorem venues_eq (h : Alike kin m m') : m'.venues = m.venues := by
  obtain ⟨s, c, j, -, -, rfl⟩ := h
  rfl

theorem venue?_eq (h : Alike kin m m') (id : String) (kind : VenueKind) :
    m'.venue? id kind = m.venue? id kind := by
  obtain ⟨s, c, j, -, -, rfl⟩ := h
  rfl

theorem site?_eq (h : Alike kin m m') : m'.site? = m.site? := by
  obtain ⟨s, c, j, -, -, rfl⟩ := h
  rfl

theorem isServing_eq (h : Alike kin m m') (v : Nat) : m'.isServing v = m.isServing v := by
  obtain ⟨s, c, j, -, -, rfl⟩ := h
  rfl

theorem control_echoes (h : Alike kin m m') : Echoes m.control m'.control := by
  obtain ⟨s, c, j, -, hc, rfl⟩ := h
  exact hc

theorem goOn (h : Alike kin m m') {c c' : Control C} (hc : Echoes c c') :
    Alike kin { m with control := c } { m' with control := c' } := by
  obtain ⟨s, -, j, hs, -, rfl⟩ := h
  exact ⟨s, c', j, hs, hc, rfl⟩

theorem reply (h : Alike kin m m') (r r' : Reply C.Answer) : Alike kin (m.reply r) (m'.reply r') :=
  h.goOn (.back r r')

theorem record (h : Alike kin m m') (e e' : Entry C) : Alike kin (m.record e) (m'.record e') := by
  obtain ⟨s, c, j, hs, hc, rfl⟩ := h
  exact ⟨s, c, e' :: j, hs, hc, rfl⟩

theorem restack (h : Alike kin m m') (k : List (Frame C)) :
    Alike kin { m with stack := k } { m' with stack := k } := by
  obtain ⟨s, c, j, hs, hc, rfl⟩ := h
  exact ⟨s, c, j, hs, hc, rfl⟩

theorem wake (h : Alike kin m m') (t : Task C) : Alike kin (m.wake t) (m'.wake t) := by
  obtain ⟨s, c, j, hs, hc, rfl⟩ := h
  unfold Machine.wake
  dsimp only
  split
  · exact ⟨s, c, j, hs, hc, rfl⟩
  · exact ⟨s, c, j, hs, hc, rfl⟩

theorem wakeAll (h : Alike kin m m') (ts : List C.Task) :
    Alike kin (m.wakeAll ts) (m'.wakeAll ts) := by
  unfold Machine.wakeAll
  induction ts generalizing m m' with
  | nil => exact h
  | cons t ts ih => exact ih (h.wake (.own t))

theorem pushOwn (h : Alike kin m m') (k : List C.Frame) : Alike kin (m.pushOwn k) (m'.pushOwn k) := by
  obtain ⟨s, c, j, hs, hc, rfl⟩ := h
  exact ⟨s, c, j, hs, hc, rfl⟩

theorem runScript (h : Alike kin m m') (tag : C.Tag) (ops : List (Op C.Action)) (throws : Bool) :
    Alike kin (m.runScript tag ops throws) (m'.runScript tag ops throws) := by
  obtain ⟨s, c, j, hs, -, rfl⟩ := h
  cases ops with
  | nil => exact ⟨s, _, j, hs, .same _, rfl⟩
  | cons op rest => exact ⟨s, _, j, hs, .same _, rfl⟩

theorem line_eq (h : Alike kin m m') (v : Nat) : m'.line v = m.line v := by
  obtain ⟨s, c, j, -, -, rfl⟩ := h
  rfl

theorem serve (h : Alike kin m m') (v : Nat) (left : Option Nat) (after : Reply C.Answer) :
    Alike kin (m.serve v left after) (m'.serve v left after) := by
  by_cases hleft : left = some 0
  · rw [Machine.serve_over (.inl hleft), Machine.serve_over (.inl hleft)]
    exact h.reply _ _
  · cases hline : m.line v with
    | nil =>
      rw [Machine.serve_over (.inr hline), Machine.serve_over (.inr ((h.line_eq v).trans hline))]
      exact h.reply _ _
    | cons w rest =>
      rw [Machine.serve_begin hleft hline, Machine.serve_begin hleft ((h.line_eq v).trans hline)]
      obtain ⟨s, c, j, hs, -, rfl⟩ := h
      exact ⟨s, _, _, hs, .same _, rfl⟩

theorem drain (h : Alike kin m m') (v : Nat) (left : Option Nat) (ran : Nat) :
    Alike kin (m.drain v left ran) (m'.drain v left ran) := by
  by_cases hleft : left = some 0
  · rw [Machine.drain_over (.inl hleft), Machine.drain_over (.inl hleft)]
    exact h.reply _ _
  · cases hline : m.line v with
    | nil =>
      rw [Machine.drain_over (.inr hline), Machine.drain_over (.inr ((h.line_eq v).trans hline))]
      exact h.reply _ _
    | cons w rest =>
      rw [Machine.drain_begin hleft hline, Machine.drain_begin hleft ((h.line_eq v).trans hline)]
      obtain ⟨s, c, j, hs, -, rfl⟩ := h
      exact ⟨s, _, _, hs, .same _, rfl⟩

theorem openVenue (h : Alike kin m m') (id : String) (kind : VenueKind) (name : String) :
    Alike kin (m.openVenue id kind name) (m'.openVenue id kind name) := by
  obtain ⟨s, c, j, hs, hc, rfl⟩ := h
  exact ⟨s, c, j, hs, hc, rfl⟩

theorem make (h : Alike kin m m') (id : String) (kind : ContextKind) :
    Alike kin (m.make id kind) (m'.make id kind) := by
  have hbind (place : Place) : Alike kin (m.bind id place) (m'.bind id place) := by
    obtain ⟨s, c, j, hs, hc, rfl⟩ := h
    exact ⟨s, c, j, hs, hc, rfl⟩
  cases kind with
  | direct => exact (hbind _).reply _ _
  | pool => exact (hbind _).reply _ _
  | concurrent => exact (h.openVenue ..).reply _ _
  | manual => exact (h.openVenue ..).reply _ _
  | serial label =>
    unfold Machine.make
    rw [h.venues_eq]
    exact ((h.openVenue id .serial label).wake _).reply _ _
  | thread name => exact (h.openVenue ..).reply _ _
  | defaultThread =>
    obtain ⟨s, c, j, hs, hc, rfl⟩ := h
    unfold Machine.make
    dsimp only
    split
    · exact (hbind _).reply _ _
    · exact ⟨s, _, j, hs, .same _, rfl⟩
  | copy of =>
    obtain ⟨s, c, j, hs, hc, rfl⟩ := h
    unfold Machine.make
    dsimp only [Machine.context?]
    split
    · exact ⟨s, _, j, hs, .same _, rfl⟩
    · -- One copy leads to a manual line, or to another place, or to no place.
      split
      · split
        · exact ⟨s, _, j, hs, .same _, rfl⟩
        · exact ⟨s, _, j, hs, .same _, rfl⟩
      · exact ⟨s, _, j, hs, .same _, rfl⟩

theorem widen (h : Alike kin m m') (v : Nat) : Alike kin (m.widen v) (m'.widen v) := by
  obtain ⟨s, c, j, hs, hc, rfl⟩ := h
  exact ⟨s, c, j, hs, hc, rfl⟩

theorem close (h : Alike kin m m') (v : Nat) : Alike kin (m.close v) (m'.close v) := by
  obtain ⟨s, c, j, hs, hc, rfl⟩ := h
  exact ⟨s, c, j, hs, hc, rfl⟩

theorem stop (h : Alike kin m m') (v : Nat) : Alike kin (m.stop v) (m'.stop v) := by
  have hclose := h.close v
  have hhandle : m'.hasHandle v = m.hasHandle v := by
    unfold Machine.hasHandle
    rw [h.venues_eq]
  unfold Machine.stop
  dsimp only
  rw [hhandle, h.site?_eq, h.isServing_eq]
  split
  · exact hclose.reply _ _
  split
  · exact (hclose.wake _).reply _ _
  · exact hclose.serve v none .stopped

theorem forget (h : Alike kin m m') (id : String) : Alike kin (m.forget id) (m'.forget id) := by
  have hnames : Alike kin { m with names := m.names.filter (·.1 ≠ id) }
      { m' with names := m'.names.filter (·.1 ≠ id) } := by
    obtain ⟨s, c, j, hs, hc, rfl⟩ := h
    exact ⟨s, c, j, hs, hc, rfl⟩
  have hheld : m'.names = m.names ∧ m'.defaultThread = m.defaultThread := by
    obtain ⟨s, c, j, -, -, rfl⟩ := h
    exact ⟨rfl, rfl⟩
  unfold Machine.forget
  rw [h.venue?_eq]
  cases m.venue? id .thread with
  | none => exact hnames.reply _ _
  | some v =>
    dsimp only
    rw [hnames.isServing_eq]
    rw [hheld.1, hheld.2] at hnames ⊢
    split
    · exact hnames.reply _ _
    · split
      · exact (hnames.widen v).reply _ _
      · exact hnames.serve v none .done

theorem runContext (h : Alike kin m m') (o : ContextOp) :
    Alike kin (m.runContext o) (m'.runContext o) := by
  have hanswers (ho : ∀ m : Machine C, ∃ r, m.runContext o = m.reply r) :
      Alike kin (m.runContext o) (m'.runContext o) := by
    obtain ⟨r, hr⟩ := ho m
    obtain ⟨r', hr'⟩ := ho m'
    rw [hr, hr']
    exact h.reply r r'
  cases o with
  | make id kind => exact h.make id kind
  | forget id => exact h.forget id
  | drain id limit =>
    unfold Machine.runContext
    dsimp only
    rw [h.venue?_eq]
    cases m.venue? id .manual with
    | none => exact h.reply _ _
    | some v => exact h.drain v limit 0
  | flush id =>
    unfold Machine.runContext
    dsimp only
    rw [h.venue?_eq, h.venues_eq]
    cases m.venue? id .thread with
    | none => exact h.reply _ _
    | some v =>
      dsimp only
      cases m.venues[v]? with
      | none => exact h.reply _ _
      | some q =>
        dsimp only
        rw [h.isServing_eq]
        split
        · exact h.reply _ _
        · split
          · exact h.reply _ _
          · exact h.serve v _ .flushed
  | stop id =>
    unfold Machine.runContext
    dsimp only
    rw [h.venue?_eq]
    cases m.venue? id .thread with
    | none => exact h.reply _ _
    | some v => exact h.stop v
  | discipline id =>
    refine hanswers fun m => ?_
    unfold Machine.runContext
    dsimp only
    split <;> exact ⟨_, rfl⟩
  | same a b =>
    refine hanswers fun m => ?_
    unfold Machine.runContext
    dsimp only
    split <;> exact ⟨_, rfl⟩
  | inspect id =>
    refine hanswers fun m => ?_
    unfold Machine.runContext
    dsimp only
    split
    · exact ⟨_, rfl⟩
    · split
      · split <;> exact ⟨_, rfl⟩
      · exact ⟨_, rfl⟩

/-! ### Turns -/

section Turns

variable {Inv : C.State → Prop} {serve : Service C} (ha : Agreement kin Inv serve)
include ha

theorem discard (h : Alike kin m m') (f : C.Frame) : Alike kin (m.discard f) (m'.discard f) := by
  obtain ⟨s, c, j, hs, hc, rfl⟩ := h
  obtain ⟨hs', hwakes⟩ := ha.unwind f hs
  have h : Alike kin { m with state := (C.unwind m.state f).1 }
      { m with state := (C.unwind s f).1, control := c, journal := j } := ⟨_, c, j, hs', hc, rfl⟩
  show Alike kin (Machine.wakeAll _ _) (Machine.wakeAll _ (C.unwind s f).2)
  rw [hwakes]
  exact h.wakeAll _

theorem enqueue (h : Alike kin m m') (v : Nat) (w : C.Frame) :
    Alike kin (m.enqueue v w) (m'.enqueue v w) := by
  unfold Machine.enqueue
  rw [h.venues_eq]
  cases m.venues[v]? with
  | none => exact h
  | some q =>
    dsimp only
    split
    · exact h.discard ha w
    · have hpush : Alike kin (Machine.record { m with venues := m.venues.set v (q.push w) } (.queued v w))
          (Machine.record { m' with venues := m.venues.set v (q.push w) } (.queued v w)) := by
        obtain ⟨s, c, j, hs, hc, rfl⟩ := h
        exact ⟨s, c, _, hs, hc, rfl⟩
      split
      · exact hpush.wake _
      · exact hpush

theorem handOver (h : Alike kin m m') (c : Context) (w : C.Frame) :
    Alike kin (m.handOver c w) (m'.handOver c w) := by
  unfold Machine.handOver
  split
  · obtain ⟨s, c, j, hs, -, rfl⟩ := h
    exact ⟨s, _, j, hs, .same _, rfl⟩
  · obtain ⟨s, c, j, hs, -, rfl⟩ := h
    exact ⟨s, _, j, hs, .same _, rfl⟩
  · exact (h.enqueue ha _ w).reply _ _

/-- Machines take over turns that agree alike. -/
theorem take (h : Alike kin m m') {t t' : Turn C.toSignature} (ht : Agrees kin t t') :
    Alike kin (m.take t) (m'.take t') := by
  have hhear : Alike kin (m.hear t) (m'.hear t') := by
    unfold Machine.hear
    rw [ht.wakes]
    refine wakeAll ?_ t.wakes
    obtain ⟨s, c, j, -, hc, rfl⟩ := h
    exact ⟨t'.state, c, _, ht.state, hc, rfl⟩
  rw [Machine.take_eq_goOn, Machine.take_eq_goOn]
  rcases ht.next with hnext | ⟨r, r', hr, hr'⟩
  · rw [hnext]
    cases t.next with
    | reply r => exact hhear.reply r r
    | throw => exact hhear.goOn (.same _)
    | enter k => exact (hhear.pushOwn k).reply _ _
    | script tag ops throws k => exact (hhear.pushOwn k).runScript tag ops throws
    | perform c w k => exact (hhear.pushOwn k).handOver ha c w
  · rw [hr, hr']
    exact hhear.reply r r'

theorem returnTo (h : Alike kin m m') (hinv : Inv m.state) (r r' : Reply C.Answer) (f : Frame C) :
    Alike kin (m.returnTo r f) (m'.returnTo r' f) := by
  cases f with
  | own f => exact h.take ha (ha.resume f h.state hinv)
  | script tag rest throws => exact (h.record _ _).runScript tag rest throws
  | turn site => exact (h.record _ _).reply _ _
  | task => exact h.reply _ _
  | drain v left ran => exact h.drain v left ran
  | serve v left after => exact h.serve v left after

theorem unwind (h : Alike kin m m') (f : Frame C) : Alike kin (m.unwind f) (m'.unwind f) := by
  cases f with
  | own f => exact h.discard ha f
  | turn site => exact (h.record _ _).reply _ _
  | task => exact h.reply _ _
  | script | drain | serve => exact h

/-- The second machine takes the step that the first one takes. -/
theorem step (h : Alike kin m m') (hinv : Inv m.state) (hm : m.step? = some n) :
    ∃ n', m'.step? = some n' ∧ Alike kin n n' := by
  have hview : m'.view = m.view := by
    obtain ⟨s, c, j, -, -, rfl⟩ := h
    rfl
  have hstack := h.stack_eq
  have hcontrol := h.control_echoes
  -- Without a frame on the stack there is nothing to return to.
  have hframe (hc : ∀ op, m.control ≠ .run op) : ∃ f k, m.stack = f :: k := by
    cases hk : m.stack with
    | cons f k => exact ⟨f, k, rfl⟩
    | nil =>
      unfold Machine.step? at hm
      cases hc' : m.control with
      | run op => exact absurd hc' (hc op)
      | back r => simp [hc', hk] at hm
      | thrown => simp [hc', hk] at hm
  cases hc : m.control with
  | run op =>
    have hc' : m'.control = .run op := (hc ▸ hcontrol).of_run
    cases op with
    | own a =>
      obtain rfl := Option.some.inj ((Machine.step?_own hc).symm.trans hm)
      refine ⟨_, Machine.step?_own hc', ?_⟩
      rw [hview]
      exact h.take ha (ha.exec m.view a h.state hinv)
    | context o =>
      obtain rfl := Option.some.inj ((Machine.step?_context hc).symm.trans hm)
      exact ⟨_, Machine.step?_context hc', h.runContext o⟩
  | thrown =>
    have hc' : m'.control = .thrown := (hc ▸ hcontrol).of_thrown
    obtain ⟨f, k, hk⟩ := hframe fun op => by simp [hc]
    obtain rfl := Option.some.inj ((Machine.step?_thrown hc hk).symm.trans hm)
    exact ⟨_, Machine.step?_thrown hc' (hstack.trans hk), (h.restack k).unwind ha f⟩
  | back r =>
    obtain ⟨r', hc'⟩ := (hc ▸ hcontrol).of_back
    obtain ⟨f, k, hk⟩ := hframe fun op => by simp [hc]
    obtain rfl := Option.some.inj ((Machine.step?_back hc hk).symm.trans hm)
    exact ⟨_, Machine.step?_back hc' (hstack.trans hk), (h.restack k).returnTo ha hinv r r' f⟩

end Turns

/-- The second machine has nothing to run when the first one has not. -/
theorem stopped (h : Alike kin m m') (hm : m.step? = none) : m'.step? = none := by
  have hs := h.stack_eq.trans (Machine.stack_of_step? hm)
  have hcontrol := h.control_echoes
  cases hc : m.control with
  | run op => cases op <;> simp [Machine.step?, hc] at hm
  | thrown => simp [Machine.step?, (hc ▸ hcontrol).of_thrown, hs]
  | back r =>
    obtain ⟨r', hc'⟩ := (hc ▸ hcontrol).of_back
    simp [Machine.step?, hc', hs]

/-- The component takes part for the same cause. -/
theorem cause?_eq (h : Alike kin m m') : m'.cause? = m.cause? := by
  obtain ⟨s, c, j, -, hc, rfl⟩ := h
  unfold Machine.cause?
  dsimp only
  generalize m.control = c₀ at hc
  cases hc with
  | same => rfl
  | back r r' =>
    rcases m.stack with _ | ⟨f, k⟩
    · rcases m.ready with _ | ⟨t, ts⟩
      · rfl
      · cases t <;> rfl
    · cases f <;> rfl

end Alike

/-! ### Runs -/

/-- The reactor turns to the task that was woken first, and serves it in this way. -/
def Machine.pollBy (serve : Service C) (m : Machine C) : Option (Machine C) :=
  match m.ready with
  | [] => none
  | t :: rest =>
    let m := { m with ready := rest, stack := [.task], control := .back .done }
    match t with
    | .serve v => some (m.serve v none .done)
    | .own t => some (m.take (serve m.state t))

/-- The component itself is one way to serve its tasks. -/
theorem Machine.pollBy_poll (m : Machine C) : m.pollBy C.poll = m.poll? := rfl

/-- The runs from a machine whose tasks are served in some way, with their cues. -/
inductive PlaysBy (serve : Service C) (m₀ : Machine C) :
    List (Cue C.Action) → List (Moment C) → Machine C → Prop where
  | start : PlaysBy serve m₀ [] [] m₀
  | step {cues past m m'} (h : PlaysBy serve m₀ cues past m) (hm : m.step? = some m') :
      PlaysBy serve m₀ cues (past ++ m.moment?.toList) m'
  | turn {cues past m m'} (h : PlaysBy serve m₀ cues past m) (hm : m.step? = none)
      (hp : m.pollBy serve = some m') :
      PlaysBy serve m₀ (cues ++ [.turn]) (past ++ m.moment?.toList) m'
  | request {cues past m} (h : PlaysBy serve m₀ cues past m) (hm : m.step? = none)
      (op : Op C.Action) : PlaysBy serve m₀ (cues ++ [.request op]) past (m.request op)
  | strike {cues past m} (h : PlaysBy serve m₀ cues past m) (hm : m.step? = none) :
      PlaysBy serve m₀ (cues ++ [.strike]) (past ++ [⟨m.state, .tick⟩]) m.strike
  | proceed {cues past m v q n} (h : PlaysBy serve m₀ cues past m) (hm : m.step? = none)
      (hq : m.venues[v]? = some q) (hk : q.kind.isParallel = true) (hn : n ≤ q.waiting.length) :
      PlaysBy serve m₀ (cues ++ [.proceed v n]) past (m.proceed v n)

/-- The component takes part for the same cause in two machines, the first one in a state `Inv`. -/
structure SameCause (kin : C.State → C.State → Prop) (Inv : C.State → Prop) (q q' : Moment C) :
    Prop where
  cause : q'.cause = q.cause
  state : kin q.state q'.state
  inv : Inv q.state

namespace Alike

variable {kin : C.State → C.State → Prop} {Inv : C.State → Prop} {serve : Service C}
  {m m' n m₀ m₀' : Machine C} (ha : Agreement kin Inv serve)

theorem moments (h : Alike kin m m') (hinv : Inv m.state) :
    List.Forall₂ (SameCause kin Inv) m.moment?.toList m'.moment?.toList := by
  unfold Machine.moment?
  rw [h.cause?_eq]
  cases m.cause? with
  | none => exact .nil
  | some cause => exact .cons ⟨rfl, h.state, hinv⟩ .nil

include ha

theorem poll (h : Alike kin m m') (hinv : Inv m.state) (hp : m.poll? = some n) :
    ∃ n', m'.pollBy serve = some n' ∧ Alike kin n n' := by
  obtain ⟨s, c, j, hs, -, rfl⟩ := h
  unfold Machine.poll? at hp
  unfold Machine.pollBy
  dsimp only
  cases hr : m.ready with
  | nil => simp [hr] at hp
  | cons t ts =>
    have h : Alike kin { m with ready := ts, stack := [.task], control := .back .done }
        { m with
          ready := ts
          stack := [.task]
          control := .back .done
          state := s
          journal := j } := ⟨s, _, j, hs, .same _, rfl⟩
    cases t with
    | serve v =>
      simp only [hr, Option.some.injEq] at hp
      subst hp
      exact ⟨_, rfl, h.serve v none .done⟩
    | own t =>
      simp only [hr, Option.some.injEq] at hp
      subst hp
      exact ⟨_, rfl, h.take ha (ha.poll t hs hinv)⟩

theorem strike (h : Alike kin m m') : Alike kin m.strike m'.strike := by
  obtain ⟨s, c, j, hs, hc, rfl⟩ := h
  obtain ⟨hs', hwakes⟩ := ha.tick hs
  have h : Alike kin { m with state := (C.tick m.state).1 }
      { m with state := (C.tick s).1, control := c, journal := j } := ⟨_, c, j, hs', hc, rfl⟩
  show Alike kin (Machine.wakeAll _ _) (Machine.wakeAll _ (C.tick s).2)
  rw [hwakes]
  exact h.wakeAll _

/-- For every play there is one with the same cues in which tasks are served in the other way. -/
theorem plays (h₀ : Alike kin m₀ m₀') (hinv : ∀ x : Execution m₀, Inv x.machine.state)
    {cues : List (Cue C.Action)} {past : List (Moment C)} (h : Plays m₀ cues past m) :
    ∃ past' m', PlaysBy serve m₀' cues past' m' ∧ Alike kin m m' ∧
      List.Forall₂ (SameCause kin Inv) past past' := by
  induction h with
  | start => exact ⟨[], m₀', .start, h₀, .nil⟩
  | @step cues past m n h hm ih =>
    obtain ⟨past', m', h', halike, hpast⟩ := ih
    have hm₀ := hinv ⟨past, m, h.run⟩
    obtain ⟨n', hn', hn⟩ := halike.step ha hm₀ hm
    exact ⟨_, n', h'.step hn', hn, List.rel_append hpast (halike.moments hm₀)⟩
  | @cue cues past m c qs n h hm hc ih =>
    obtain ⟨past', m', h', halike, hpast⟩ := ih
    have hm₀ := hinv ⟨past, m, h.run⟩
    have hm' := halike.stopped hm
    cases hc with
    | turn hp =>
      obtain ⟨n', hn', hn⟩ := halike.poll ha hm₀ hp
      exact ⟨_, n', h'.turn hm' hn', hn, List.rel_append hpast (halike.moments hm₀)⟩
    | request op =>
      refine ⟨past', _, h'.request hm' op, ?_, by simpa using hpast⟩
      obtain ⟨s, c, j, hs, -, rfl⟩ := halike
      exact ⟨s, _, j, hs, .same _, rfl⟩
    | strike =>
      refine ⟨_, _, h'.strike hm', halike.strike ha, List.rel_append hpast ?_⟩
      exact .cons ⟨rfl, halike.state, hm₀⟩ .nil
    | @proceed v q n hq hk hn =>
      refine ⟨past', _, h'.proceed hm' (halike.venues_eq ▸ hq) hk hn, ?_, by simpa using hpast⟩
      obtain ⟨s, c, j, hs, -, rfl⟩ := halike
      have hback : Alike kin { m with stack := [], control := .back .done }
          { m with state := s, stack := [], control := .back .done, journal := j } :=
        ⟨s, _, j, hs, .same _, rfl⟩
      exact hback.serve v (some n) .done

end Alike

end Conduit.Dispatch
