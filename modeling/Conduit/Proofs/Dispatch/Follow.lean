import Conduit.Proofs.Dispatch.Cues
import Conduit.Proofs.Dispatch.Paths
import Conduit.Proofs.Dispatch.Recast

/-!
A component that may take several turns where its twin takes one: it tries something again and again,
and nothing of that is told, before a turn that agrees with the one of the twin. Then the two machines
tell the same in every run: for all steps that the one takes there is one step of the other, which is
ahead meanwhile, and whenever nothing is left to run they stand side by side.
-/

namespace Conduit.Dispatch

variable {C : Component} {β : Type}

/-- What the turns of a run tell. -/
def seen (told : Next C.toSignature → List β) (past : List (Moment C)) : List β :=
  past.flatMap fun q => (q.turn?.map fun t => told t.next).getD []

/-- A turn that leads to another one: it only enters a frame, which does the same or leads on. -/
inductive Settles (told : Next C.toSignature → List β) :
    Turn C.toSignature → Turn C.toSignature → Prop where
  | done (t) : Settles told t t
  | again {t f u} (hnotes : t.notes = []) (hwakes : t.wakes = []) (hnext : t.next = .enter [f])
      (htold : told (.enter [f]) = []) (h : Settles told (C.resume t.state f) u) : Settles told t u

section Settling

variable {told : Next C.toSignature → List β}

@[simp] theorem seen_append (past later : List (Moment C)) :
    seen told (past ++ later) = seen told past ++ seen told later :=
  List.flatMap_append

namespace Machine

variable (m : Machine C) (c : Control C)

theorem wake_control (t : Task C) :
    ({ m with control := c } : Machine C).wake t = { m.wake t with control := c } := by
  unfold wake
  dsimp only
  split <;> rfl

theorem wakeAll_control (ts : List C.Task) :
    ({ m with control := c } : Machine C).wakeAll ts = { m.wakeAll ts with control := c } := by
  unfold wakeAll
  induction ts generalizing m with
  | nil => rfl
  | cons t ts ih =>
    rw [List.foldl_cons, List.foldl_cons, wake_control]
    exact ih (m.wake (.own t))

theorem enqueue_control (v : Nat) (w : C.Frame) :
    ({ m with control := c } : Machine C).enqueue v w = { m.enqueue v w with control := c } := by
  unfold enqueue
  dsimp only
  split
  · rfl
  · rename_i q _
    split
    · exact wakeAll_control { m with state := (C.unwind m.state w).1 } c _
    · split
      · exact wake_control (record { m with venues := m.venues.set v (q.push w) } (.queued v w)) c _
      · rfl

/-- What a turn leaves is taken over in the same way wherever the machine stands. -/
theorem take_control (s : C.State) (t : Turn C.toSignature) :
    ({ m with state := s, control := c } : Machine C).take t = m.take t := by
  have hhear : ({ m with state := s, control := c } : Machine C).hear t =
      { m.hear t with control := c } := wakeAll_control { m with
    state := t.state
    journal := (t.notes.map fun n => Entry.note m.lane n).reverse ++ m.journal } c t.wakes
  rw [take_eq_goOn, take_eq_goOn, hhear]
  cases t.next with
  | reply r | throw | enter k => rfl
  | script tag ops throws k => cases ops <;> rfl
  | perform d w k =>
    dsimp only [goOn]
    unfold handOver
    split
    · rfl
    · rfl
    · exact congrArg (·.reply .done) (enqueue_control ((m.hear t).pushOwn k) c _ w)

end Machine

/-- A machine that has taken over a turn comes to what that turn leads to. -/
theorem Settles.steps {t u : Turn C.toSignature} (h : Settles told t u) (m : Machine C) :
    ∃ later, Steps (m.take t) later (m.take u) ∧ told t.next ++ seen told later = told u.next := by
  induction h with
  | done t => exact ⟨[], .stay _, List.append_nil _⟩
  | @again t f u hnotes hwakes hnext htold _ ih =>
    obtain ⟨later, hs, hseen⟩ := ih
    have htake : m.take t =
        { m with state := t.state, stack := .own f :: m.stack, control := .back .done } := by
      unfold Machine.take
      rw [hnotes, hwakes, hnext]
      rfl
    have hstep : (m.take t).step? = some (m.take (C.resume t.state f)) := by
      rw [htake]
      exact congrArg some (Machine.take_control m (.back .done) t.state _)
    have hmoment : (m.take t).moment? = some ⟨t.state, .resume f⟩ := by
      rw [htake]
      rfl
    have hall := Steps.step hstep hs
    rw [hmoment] at hall
    refine ⟨_, hall, ?_⟩
    rw [hnext, htold, seen_append, ← hseen]
    simp [seen, Moment.turn?]

end Settling

namespace Recast

variable (ρ : Recast C) (told : Next C.toSignature → List β)

def cue : Cue C.Action → Cue C.Action
  | .request op => .request (ρ.op op)
  | .turn => .turn
  | .strike => .strike
  | .proceed v n => .proceed v n

/-- A turn leads to one that agrees with that of the twin. -/
def Agrees (t t' : Turn C.toSignature) : Prop := ∃ u, Settles told t u ∧ ρ.Turns u t'

/-- All turns of a component, in states `Inv` and at moments `Allowed`, lead to those of its twin. -/
structure Follows (Inv : C.State → Prop) (Allowed : Moment C → Prop) : Prop where
  exec : ∀ {s s'} view a, ρ.kin s s' → Inv s → Allowed ⟨s, .exec view a⟩ →
    ρ.Agrees told (C.exec view s a) (C.exec view s' (ρ.action a))
  resume : ∀ {s s'} f, ρ.kin s s' → Inv s → Allowed ⟨s, .resume f⟩ →
    ρ.Agrees told (C.resume s f) (C.resume s' f)
  poll : ∀ {s s'} t, ρ.kin s s' → Inv s → Allowed ⟨s, .poll t⟩ →
    ρ.Agrees told (C.poll s t) (C.poll s' t)
  unwind : ∀ s s' f, ρ.kin s s' → ρ.kin (C.unwind s f).1 (C.unwind s' f).1 ∧
    (C.unwind s' f).2 = (C.unwind s f).2
  tick : ∀ s s', ρ.kin s s' → ρ.kin (C.tick s).1 (C.tick s').1 ∧ (C.tick s').2 = (C.tick s).2
  told : ∀ n, told (ρ.next n) = told n

namespace Follows

variable {ρ told} {Inv : C.State → Prop} {Allowed : Moment C → Prop} {m m' n : Machine C}

/-- The machine has taken over a turn, and comes to where its twin is that has taken over its own. -/
theorem take (hf : ρ.Follows told Inv Allowed) (h : ρ.Twin m m') {t t' : Turn C.toSignature}
    (ha : ρ.Agrees told t t') : ∃ later n₁, Steps (m.take t) later n₁ ∧
      ρ.Twin n₁ (m'.take t') ∧ told t.next ++ seen told later = told t'.next := by
  obtain ⟨u, hsettles, hturns⟩ := ha
  obtain ⟨later, hsteps, hseen⟩ := hsettles.steps m
  refine ⟨later, _, hsteps, h.take hf.unwind hturns, ?_⟩
  rw [hseen, hturns.next, hf.told]

/-- A move of the machine, and what it runs after that, is as good as a move of its twin. -/
def Matches (ρ : Recast C) (told : Next C.toSignature → List β) (qs : List (Moment C)) (n : Machine C)
    (qs' : List (Moment C)) (n' : Machine C) : Prop :=
  ∃ later n₁, Steps n later n₁ ∧ ρ.Twin n₁ n' ∧ seen told (qs ++ later) = seen told qs'

/-- Nothing is told. -/
theorem matches_still {n' : Machine C} {qs qs' : List (Moment C)} (h : ρ.Twin n n')
    (hqs : seen told qs = []) (hqs' : seen told qs' = []) : Matches ρ told qs n qs' n' :=
  ⟨[], n, .stay n, h, by rw [List.append_nil, hqs, hqs']⟩

theorem Matches.after {n' : Machine C} {past past' qs qs' : List (Moment C)}
    (h : Matches ρ told qs n qs' n') (hseen : seen told past = seen told past') :
    Matches ρ told (past ++ qs) n (past' ++ qs') n' := by
  obtain ⟨later, n₁, hsteps, htwin, hseen'⟩ := h
  refine ⟨later, n₁, hsteps, htwin, ?_⟩
  rw [List.append_assoc, seen_append, hseen, hseen', seen_append]

theorem matches_take (hf : ρ.Follows told Inv Allowed) (h : ρ.Twin m m') {t t' : Turn C.toSignature}
    (ha : ρ.Agrees told t t') {q q' : Moment C} (hq : q.turn? = some t) (hq' : q'.turn? = some t') :
    Matches ρ told [q] (m.take t) [q'] (m'.take t') := by
  obtain ⟨later, n₁, hsteps, htwin, hseen⟩ := hf.take h ha
  refine ⟨later, n₁, hsteps, htwin, ?_⟩
  rw [seen_append]
  simp only [seen, List.flatMap_cons, List.flatMap_nil, List.append_nil, hq, hq']
  exact hseen

section Frames

variable {f : Frame C} {k : List (Frame C)} {s : C.State}

/-- What the uppermost frame makes of an answer, that of the twin makes as well. -/
theorem step_back (hf : ρ.Follows told Inv Allowed) (hs : ρ.kin m.state s) (hinv : Inv m.state)
    (hallowed : ∀ q, m.moment? = some q → Allowed q) {r : Reply C.Answer} (hc : m.control = .back r)
    (hstack : m.stack = f :: k) :
    ∃ n', (ρ.machine m s).step? = some n' ∧ Matches ρ told m.moment?.toList
      (({ m with stack := k } : Machine C).returnTo r f) (ρ.machine m s).moment?.toList n' := by
  have hc' : (ρ.machine m s).control = .back r := congrArg ρ.control hc
  have hstack' : (ρ.machine m s).stack = ρ.frame f :: k.map ρ.frame :=
    congrArg (List.map ρ.frame) hstack
  have hrest : ρ.Twin { m with stack := k } { ρ.machine m s with stack := k.map ρ.frame } :=
    ⟨s, hs, rfl⟩
  refine ⟨_, Machine.step?_back hc' hstack', ?_⟩
  have hq := Machine.moment?_eq (Machine.cause?_back hc hstack)
  rw [hq, Machine.moment?_eq (Machine.cause?_back hc' hstack')]
  cases f with
  | own g => exact hf.matches_take hrest (hf.resume g hs hinv (hallowed _ hq)) rfl rfl
  | script tag ops throws =>
    have hlane : Machine.lane { ρ.machine m s with stack := k.map ρ.frame } =
        Machine.lane { m with stack := k } := ρ.machine_lane { m with stack := k } s
    refine matches_still ?_ rfl rfl
    show ρ.Twin _ (Machine.runScript (Machine.record { ρ.machine m s with stack := k.map ρ.frame }
      (.answered (Machine.lane { ρ.machine m s with stack := k.map ρ.frame }) tag r)) tag
      (ops.map ρ.op) throws)
    rw [hlane]
    exact (hrest.record _).runScript tag ops throws
  | turn site => exact matches_still ((hrest.record (.ended site)).goOn (.back .done)) rfl rfl
  | task => exact matches_still (hrest.goOn (.back .done)) rfl rfl
  | drain v left ran => exact matches_still (hrest.drain v left ran) rfl rfl
  | serve v left after => exact matches_still (hrest.serve v left after) rfl rfl

/-- A throw passes the frames of the machine and of its twin in the same way. -/
theorem step_thrown (hf : ρ.Follows told Inv Allowed) (hs : ρ.kin m.state s)
    (hc : m.control = .thrown) (hstack : m.stack = f :: k) :
    ∃ n', (ρ.machine m s).step? = some n' ∧ Matches ρ told m.moment?.toList
      (({ m with stack := k } : Machine C).unwind f) (ρ.machine m s).moment?.toList n' := by
  have hc' : (ρ.machine m s).control = .thrown := congrArg ρ.control hc
  have hstack' : (ρ.machine m s).stack = ρ.frame f :: k.map ρ.frame :=
    congrArg (List.map ρ.frame) hstack
  have hrest : ρ.Twin { m with stack := k } { ρ.machine m s with stack := k.map ρ.frame } :=
    ⟨s, hs, rfl⟩
  refine ⟨_, Machine.step?_thrown hc' hstack', ?_⟩
  rw [Machine.moment?_eq (Machine.cause?_thrown hc hstack),
    Machine.moment?_eq (Machine.cause?_thrown hc' hstack')]
  cases f with
  | own g => exact matches_still (hrest.discard hf.unwind g) rfl rfl
  | turn site => exact matches_still ((hrest.record (.ended site)).goOn (.back .done)) rfl rfl
  | task => exact matches_still (hrest.goOn (.back .done)) rfl rfl
  | script | drain | serve => exact matches_still hrest rfl rfl

end Frames

/-- For a step of the machine there is one of its twin. -/
theorem step (hf : ρ.Follows told Inv Allowed) (h : ρ.Twin m m') (hinv : Inv m.state)
    (hallowed : ∀ q, m.moment? = some q → Allowed q) (hm : m.step? = some n) :
    ∃ n', m'.step? = some n' ∧ Matches ρ told m.moment?.toList n m'.moment?.toList n' := by
  obtain ⟨s, hs, rfl⟩ := h
  unfold Machine.step? at hm
  split at hm
  · rename_i a hc
    cases hm
    have hc' : (ρ.machine m s).control = .run (.own (ρ.action a)) := congrArg ρ.control hc
    refine ⟨_, Machine.step?_own hc', ?_⟩
    have hq := Machine.moment?_eq (Machine.cause?_own hc)
    rw [hq, Machine.moment?_eq (Machine.cause?_own hc')]
    exact hf.matches_take ⟨s, hs, rfl⟩ (hf.exec m.view a hs hinv (hallowed _ hq)) rfl rfl
  · rename_i o hc
    cases hm
    have hc' : (ρ.machine m s).control = .run (.context o) := congrArg ρ.control hc
    refine ⟨_, Machine.step?_context hc', ?_⟩
    rw [Machine.moment?_eq (Machine.cause?_context hc),
      Machine.moment?_eq (Machine.cause?_context hc')]
    exact matches_still (Twin.runContext ⟨s, hs, rfl⟩ o) rfl rfl
  · rename_i r hc
    split at hm
    · cases hm
    · rename_i hstack
      cases hm
      exact hf.step_back hs hinv hallowed hc hstack
  · rename_i hc
    split at hm
    · cases hm
    · rename_i hstack
      cases hm
      exact hf.step_thrown hs hc hstack

theorem stopped (h : ρ.Twin m m') (hm : m.step? = none) : m'.step? = none := by
  obtain ⟨s, -, rfl⟩ := h
  have hs : (ρ.machine m s).stack = [] := congrArg (List.map ρ.frame) (Machine.stack_of_step? hm)
  unfold Machine.step?
  cases hc : m.control with
  | run op => cases op <;> simp [Machine.step?, hc] at hm
  | back r =>
    have hc' : (ρ.machine m s).control = .back r := congrArg ρ.control hc
    rw [hc', hs]
  | thrown =>
    have hc' : (ρ.machine m s).control = .thrown := congrArg ρ.control hc
    rw [hc', hs]

/-- For a cue of the machine there is the same one of its twin. -/
theorem cue (hf : ρ.Follows told Inv Allowed) (h : ρ.Twin m m') (hinv : Inv m.state)
    (hm : m.step? = none) {c : Cue C.Action} {qs : List (Moment C)} (hc : Cued m c qs n)
    (hallowed : ∀ q ∈ qs, Allowed q) :
    ∃ qs' n', Cued m' (ρ.cue c) qs' n' ∧ Matches ρ told qs n qs' n' := by
  obtain ⟨s, hs, rfl⟩ := h
  cases hc with
  | request op => exact ⟨[], _, .request (ρ.op op), matches_still ⟨s, hs, rfl⟩ rfl rfl⟩
  | @proceed v _ n hq hk hn =>
    have hback : ρ.Twin { m with stack := [], control := .back .done }
        { ρ.machine m s with stack := [], control := .back .done } := ⟨s, hs, rfl⟩
    exact ⟨[], _, .proceed hq hk hn, matches_still (hback.serve v (some n) .done) rfl rfl⟩
  | strike =>
    obtain ⟨hs', hwakes⟩ := hf.tick _ _ hs
    have h : ρ.Twin { m with state := (C.tick m.state).1 } { ρ.machine m s with state := (C.tick s).1 } :=
      ⟨_, hs', rfl⟩
    have htwin := h.wakeAll (C.tick m.state).2
    refine ⟨_, _, .strike, matches_still ?_ rfl rfl⟩
    show ρ.Twin _ (Machine.wakeAll { ρ.machine m s with state := (C.tick s).1 } (C.tick s).2)
    rw [hwakes]
    exact htwin
  | turn hp =>
    have hm' := stopped ⟨s, hs, rfl⟩ hm
    unfold Machine.poll? at hp
    split at hp
    · cases hp
    · rename_i t rest hr
      have hr' : (ρ.machine m s).ready = t :: rest := hr
      have hbase : ρ.Twin { m with ready := rest, stack := [.task], control := .back .done }
          { ρ.machine m s with ready := rest, stack := [.task], control := .back .done } := ⟨s, hs, rfl⟩
      have hq := Machine.moment?_eq (Machine.cause?_stopped hm hr)
      rw [hq] at hallowed ⊢
      cases t with
      | serve v =>
        cases hp
        have hp' : (ρ.machine m s).poll? = some (Machine.serve { ρ.machine m s with
            ready := rest, stack := [.task], control := .back .done } v none .done) := by
          simp only [Machine.poll?, hr']
        refine ⟨_, _, .turn hp', ?_⟩
        rw [Machine.moment?_eq (Machine.cause?_stopped hm' hr')]
        exact matches_still (hbase.serve v none .done) rfl rfl
      | own t =>
        cases hp
        have hp' : (ρ.machine m s).poll? = some (Machine.take { ρ.machine m s with
            ready := rest, stack := [.task], control := .back .done } (C.poll s t)) := by
          simp only [Machine.poll?, hr']
          rfl
        refine ⟨_, _, .turn hp', ?_⟩
        rw [Machine.moment?_eq (Machine.cause?_stopped hm' hr')]
        exact hf.matches_take hbase (hf.poll t hs hinv (hallowed _ (List.mem_singleton_self _))) rfl rfl

/-- For every play there is one of the twin with the same cues, in which the same is told. What the
machine still runs by itself may have been told by its twin before. -/
theorem plays (hf : ρ.Follows told Inv Allowed) {m₀ m₀' : Machine C} (h₀ : ρ.Twin m₀ m₀')
    (hinv : ∀ x : Execution m₀, Inv x.machine.state) {cues : List (Cue C.Action)}
    {past : List (Moment C)} (h : Plays m₀ cues past m)
    (hallowed : ∀ q ∈ past, Allowed q) :
    ∃ past' m', Plays m₀' (cues.map ρ.cue) past' m' ∧ Matches ρ told past m past' m' := by
  induction h with
  | start => exact ⟨[], m₀', .start, [], m₀, .stay m₀, h₀, rfl⟩
  | @step cues past m n h hm ih =>
    obtain ⟨past', m', h', later, m₁, hsteps, htwin, hseen⟩ :=
      ih fun q hq => hallowed q (List.mem_append_left _ hq)
    cases hsteps with
    | stay =>
      have ha (q : Moment C) (hq : m.moment? = some q) : Allowed q :=
        hallowed q (List.mem_append_right _ (Option.mem_toList.mpr hq))
      obtain ⟨n', hn', hmatches⟩ := hf.step htwin (hinv ⟨past, m, h.run⟩) ha hm
      rw [List.append_nil] at hseen
      exact ⟨_, n', h'.step hn', hmatches.after hseen⟩
    | @step _ n' later _ hn' hsteps =>
      -- The twin is ahead, and the machine follows it.
      obtain rfl : n = n' := Option.some.inj (hm.symm.trans hn')
      exact ⟨past', m', h', later, m₁, hsteps, htwin, by rw [List.append_assoc]; exact hseen⟩
  | @cue cues past m c qs n h hm hc ih =>
    obtain ⟨past', m', h', later, m₁, hsteps, htwin, hseen⟩ :=
      ih fun q hq => hallowed q (List.mem_append_left _ hq)
    obtain ⟨rfl, rfl⟩ := hsteps.of_stopped hm
    obtain ⟨qs', n', hc', hmatches⟩ := hf.cue htwin (hinv ⟨past, m₁, h.run⟩) hm hc
      fun q hq => hallowed q (List.mem_append_right _ hq)
    have hplay := h'.cue (stopped htwin hm) hc'
    rw [List.append_nil] at hseen
    rw [List.map_append]
    exact ⟨_, n', hplay, hmatches.after hseen⟩

end Follows

end Recast

end Conduit.Dispatch
