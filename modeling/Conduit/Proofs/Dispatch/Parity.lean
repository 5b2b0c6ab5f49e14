import Conduit.Proofs.Dispatch.Accord

/-!
A component that spares itself work, and the same component without this thrift: whatever the one can
come to, the other one can come to as well, and the same is heard of both.
-/

namespace Conduit.Dispatch

variable {C : Component} {T : Thrift C} {Inv : Config C → Prop} {idle : C.Frame → Prop}
  {held held' : List Nat} {a a' a₀ b b' m₀ m m' : Machine C} {v : Nat} {p : Moment C → Bool}
  {deeds deeds' : List (Deed C)} {resume : Manner C} {spares? : Savings C}

open Machine

/-- What is heard of a run: the requests, and the moments that `p` selects. -/
def heard (p : Moment C → Bool) (deeds : List (Deed C)) : List (Deed C) :=
  deeds.filter fun
    | .moment q => p q
    | .request _ => true

theorem heard_append (deeds deeds' : List (Deed C)) :
    heard p (deeds ++ deeds') = heard p deeds ++ heard p deeds' :=
  List.filter_append ..

/-- Nothing is heard of a step in vain. -/
theorem Vain.heard_eq (hvain : Vain T held b b') (hp : ∀ q, T.Silent q → p q = false)
    (deeds : List (Deed C)) : heard p (deeds ++ b.moment?.toList.map .moment) = heard p deeds := by
  rw [heard_append]
  cases hq : b.moment? with
  | none => simp [heard]
  | some q => simp [heard, hp q (hvain.silent q hq)]

/-- A machine can roam to `m`, and what is heard of it is what is heard of `deeds`. -/
def Attains (resume : Manner C) (spares? : Savings C) (p : Moment C → Bool) (m₀ : Machine C)
    (deeds : List (Deed C)) (held : List Nat) (m : Machine C) : Prop :=
  ∃ deeds', Roams resume spares? m₀ deeds' held m ∧ heard p deeds' = heard p deeds

namespace Attains

theorem step (h : Attains resume spares? p m₀ deeds held m) (hf : m.Fair spares? held)
    (hm : m.stepBy resume = some m') :
    Attains resume spares? p m₀ (deeds ++ m.moment?.toList.map .moment) (m.holding spares? held) m' := by
  obtain ⟨deeds', h, heq⟩ := h
  exact ⟨_, h.step hf hm, by rw [heard_append, heard_append, heq]⟩

theorem turn (h : Attains resume spares? p m₀ deeds held m) (hm : m.step? = none)
    (hp : m.poll? = some m') :
    Attains resume spares? p m₀ (deeds ++ m.moment?.toList.map .moment) held m' := by
  obtain ⟨deeds', h, heq⟩ := h
  exact ⟨_, h.turn hm hp, by rw [heard_append, heard_append, heq]⟩

theorem order (h : Attains resume spares? p m₀ deeds held m) (hm : m.step? = none)
    {ready : List (Task C)} (hr : ready.Perm m.ready) :
    Attains resume spares? p m₀ deeds held { m with ready } := by
  obtain ⟨deeds', h, heq⟩ := h
  exact ⟨_, h.order hm hr, heq⟩

theorem proceed (h : Attains resume spares? p m₀ deeds held m) (hm : m.step? = none)
    {q : Venue C.Frame} {n : Nat} (hq : m.venues[v]? = some q) (hk : q.kind.isParallel = true)
    (hn : n ≤ q.waiting.length) : Attains resume spares? p m₀ deeds held (m.proceed v n) := by
  obtain ⟨deeds', h, heq⟩ := h
  exact ⟨_, h.proceed hm hq hk hn, heq⟩

theorem request (h : Attains resume spares? p m₀ deeds held m) (hm : m.step? = none)
    (op : Op C.Action) : Attains resume spares? p m₀ (deeds ++ [.request op]) held (m.request op) := by
  obtain ⟨deeds', h, heq⟩ := h
  exact ⟨_, h.request hm op, by rw [heard_append, heard_append, heq]⟩

theorem strike (h : Attains resume spares? p m₀ deeds held m) (hm : m.step? = none) :
    Attains resume spares? p m₀ (deeds ++ [.moment ⟨m.state, .tick⟩]) held m.strike := by
  obtain ⟨deeds', h, heq⟩ := h
  exact ⟨_, h.strike hm, by rw [heard_append, heard_append, heq]⟩

theorem congr (h : Attains resume spares? p m₀ deeds held m) (heq : heard p deeds = heard p deeds') :
    Attains resume spares? p m₀ deeds' held m := by
  obtain ⟨deeds', h, heq'⟩ := h
  exact ⟨_, h, heq'.trans heq⟩

theorem orderly (h : Attains resume spares? p m₀ deeds held m) (ho : m₀.floor.Orderly) :
    m.floor.Orderly := by
  obtain ⟨_, h, -⟩ := h
  exact h.orderly ho

theorem inv [IsEmpty C.Task] (h : Attains C.resume T.spares? p m₀ deeds held m) (hT : T.Sound Inv)
    (hi : Inv m₀.config) : Inv m.config := by
  obtain ⟨_, h, -⟩ := h
  exact h.config_induction Inv hi fun _ _ _ hi hstep => hT.inv hi hstep

theorem vain (hp : ∀ q, T.Silent q → p q = false) (h : Attains T.lavish T.spares? p m₀ deeds held b)
    (hvain : Vain T held b b') : Attains T.lavish T.spares? p m₀ deeds held b' := by
  have hnext := h.step hvain.fair hvain.step
  rw [hvain.holding] at hnext
  exact hnext.congr (hvain.heard_eq hp deeds)

end Attains

/-! ### Catching up -/

section Catching

variable [IsEmpty C.Task] (hT : T.Sound Inv) (hp : ∀ q, T.Silent q → p q = false)
include hT hp

omit [IsEmpty C.Task] in
/-- The second machine does all its idle work. -/
theorem Tarries.settle (ha : Attains T.lavish T.spares? p m₀ deeds held b)
    (h : Tarries (T.idle a.state) held a b) :
    ∃ b', Attains T.lavish T.spares? p m₀ deeds held b' ∧ Beside (T.idle a.state) held a b' := by
  -- What is done in vain takes some weight off the machine, and so there is an end to it.
  induction hn : b.weight using Nat.strongRecOn generalizing b with
  | ind n ih =>
    obtain ⟨above, below, h⟩ := h
    cases above with
    | nil =>
      obtain rfl : b.stack = below := h.stack
      exact ⟨b, ha, h.beside⟩
    | cons f above =>
      obtain ⟨b', hvain, htarries⟩ := h.vain hT
      exact ih _ (hn ▸ hvain.weight) (ha.vain hp hvain) htarries rfl

omit hp in
/-- The second machine goes on to take the step that the first one has taken. -/
theorem Late.goOn (h : Late (T.idle a.state) held a₀ a b) :
    ∃ b', b.stepBy T.lavish = some b' ∧
      (Vain T held b b' ∧ Late (T.idle a.state) held a₀ a b' ∨
        b.Fair T.spares? held ∧ b.moment?.toList = [] ∧ b.holding T.spares? held = a₀.clearing held ∧
          Tarries (T.idle a.state) (a₀.clearing held) a b') := by
  have hstate := h.turning.state_eq h.step
  obtain ⟨above, below, htarrying⟩ := h.tarries
  cases above with
  | cons f above =>
    rw [hstate] at htarrying
    obtain ⟨b', hvain, htarries⟩ := htarrying.vain hT
    exact ⟨b', hvain.step, .inl ⟨hvain, hstate ▸ htarries, h.turning, h.step⟩⟩
  | nil =>
    obtain rfl : b.stack = below := htarrying.stack
    have hbeside : Beside (T.idle a.state) held a₀ b := htarrying.beside
    rcases hbeside.move (T := T) h.turning with ⟨a₁, b', hm, hb, hboth, hclear⟩ | ⟨b', hvain, htarries⟩
    · obtain rfl := Option.some.inj (h.step.symm.trans hm)
      obtain ⟨r, f, k, v, hc, hs, hf, -⟩ := h.turning
      obtain ⟨r', hc'⟩ := (hc ▸ hbeside.control).of_back (by simp [hs])
      have hspared : b.spared? T.spares? = none := by
        rw [hbeside.spared?_eq]
        refine spared?_of_stack fun w _ hs' => ?_
        rw [(List.cons.inj (hs.symm.trans hs')).1] at hf
        cases hf
      refine ⟨b', hb, .inr ⟨fair_of_back hc' hspared, ?_, ?_, .of_beside hboth⟩⟩
      · rw [moment?, hbeside.cause?_eq, h.turning.cause?]
        rfl
      · rw [holding_of_spared? hspared, hclear]
    · exact ⟨b', hvain.step, .inl ⟨hvain, htarries, h.turning, h.step⟩⟩

/-- The second machine takes the step that the first one has taken. -/
theorem Late.catch_up (ha : Attains T.lavish T.spares? p m₀ deeds held b)
    (h : Late (T.idle a.state) held a₀ a b) :
    ∃ b', Attains T.lavish T.spares? p m₀ deeds (a₀.clearing held) b' ∧
      Tarries (T.idle a.state) (a₀.clearing held) a b' := by
  induction hn : b.weight using Nat.strongRecOn generalizing b with
  | ind n ih =>
    obtain ⟨b', hb, ⟨hvain, hlate⟩ | ⟨hfair, hmoment, hheld, htarries⟩⟩ := h.goOn hT
    · exact ih _ (hn ▸ hvain.weight) (ha.vain hp hvain) hlate rfl
    · have hnext := ha.step hfair hb
      rw [hmoment, hheld] at hnext
      exact ⟨b', by simpa using hnext, htarries⟩

/-- The second machine takes the step that the first one takes. -/
theorem Tarries.follow (ha : Attains T.lavish T.spares? p m₀ deeds held b)
    (h : Tarries (T.idle a.state) held a b) (ho : a.floor.Orderly) (hi : Inv a.config)
    (hfair : a.Fair T.spares? held) (hm : a.step? = some a') :
    ∃ b', Attains T.lavish T.spares? p m₀ (deeds ++ a.moment?.toList.map .moment)
        (a.holding T.spares? held) b' ∧
      Tarries (T.idle a'.state) (a.holding T.spares? held) a' b' := by
  induction hn : b.weight using Nat.strongRecOn generalizing b with
  | ind n ih =>
    obtain ⟨above, below, h⟩ := h
    cases above with
    | cons f above =>
      obtain ⟨b', hvain, htarries⟩ := h.vain hT
      exact ih _ (hn ▸ hvain.weight) (ha.vain hp hvain) htarries rfl
    | nil =>
      obtain rfl : b.stack = below := h.stack
      have hbeside : Beside (T.idle a.state) held a b := h.beside
      obtain ⟨b', hb, haccords⟩ := hbeside.accords hT hi hm ho hfair
      have hnext := ha.step ((hbeside.fair_iff T.spares?).mpr hfair) hb
      have hmoment : b.moment? = a.moment? := by rw [moment?, moment?, hbeside.cause?_eq, hbeside.state]
      rw [hmoment] at hnext
      cases haccords with
      | alike hm' hheld h =>
        obtain rfl := Option.some.inj (hm.symm.trans hm')
        rw [hheld] at hnext
        exact ⟨b', hnext, h⟩
      | late hm' hheld hclear h =>
        obtain rfl := Option.some.inj (hm.symm.trans hm')
        rw [hheld] at hnext
        rw [← hclear]
        exact h.catch_up hT hp hnext
      | vain hvain h => exact ih _ (hn ▸ hvain.weight) (ha.vain hp hvain) h rfl

end Catching

/-! ### The reactor -/

namespace Beside

/-- In which order the tasks are to be served does not matter. -/
theorem reorder (h : Beside idle held a b) {ready ready' : List (Task C)} (ha : ready.Perm a.ready)
    (hb : ready'.Perm b.ready) :
    Beside idle held { a with ready := ready } { b with ready := ready' } where
  shell := h.shell
  lines := h.lines
  even := h.even
  awake t ht := hb.mem_iff.mpr (h.awake t (ha.mem_iff.mp ht))
  once := ha.nodup_iff.mpr h.once
  stack := h.stack
  control := h.control

/-- The reactor turns to the same venue in both machines. -/
theorem poll (h : Beside idle held a b) {ready ready' : List (Task C)}
    (ha : a.ready = .serve v :: ready) (hb : b.ready = .serve v :: ready') :
    ∃ a' b', a.poll? = some a' ∧ b.poll? = some b' ∧
      (Beside idle held a' b' ∨ ∃ a₀, Late idle held a₀ a' b' ∧ a₀.clearing held = held) := by
  have hready := h.once
  rw [ha] at hready
  obtain ⟨hnot, honce⟩ := List.nodup_cons.mp hready
  have hturned : Beside idle held
      { a with ready := ready, stack := [.task], control := .back .done }
      { b with ready := ready', stack := [.task], control := .back .done } := by
    refine ⟨⟨h.shell, h.lines, h.even, fun t ht => ?_, honce⟩, .cons (.same rfl) .nil, .back _ _⟩
    have hmem := h.awake t (by rw [ha]; exact List.mem_cons_of_mem _ ht)
    rw [hb] at hmem
    exact (List.mem_cons.mp hmem).resolve_left fun heq => hnot (heq ▸ ht)
  have hmoves := hturned.serve_late (v := v) (by simp [servings, Frame.serves?]) (.all (hturned.lines v)) .done
  exact ⟨_, _, by rw [poll?, ha], by rw [poll?, hb], hmoves⟩

/-- A line is taken up in both machines. -/
theorem proceed (h : Beside idle held a b) {n n' : Nat}
    (hr : Reaches idle (a.line v) (b.line v) (some n) (some n')) :
    Beside idle held (a.proceed v n) (b.proceed v n') ∨
      ∃ a₀, Late idle held a₀ (a.proceed v n) (b.proceed v n') ∧ a₀.clearing held = held :=
  (h.go .nil (.back .done .done) a.journal b.journal).serve_late nofun hr .done

theorem request (h : Beside idle held a b) (op : Op C.Action) :
    Beside idle held (a.request op) (b.request op) :=
  h.go .nil (.run op) a.journal b.journal

theorem strike [IsEmpty C.Task] (h : Beside idle held a b) : Beside idle held a.strike b.strike := by
  rw [Machine.strike, Machine.strike, wakeAll_eq_self, wakeAll_eq_self, h.state]
  exact h.withState _

end Beside

/-- The machine is beside itself while nothing runs. -/
theorem beside_self (hs : m.stack = []) (hr : m.ready.Nodup) : Beside idle held m m where
  shell := rfl
  lines v := .refl idle _
  even v _ := rfl
  awake t ht := ht
  once := hr
  stack := by
    rw [hs]
    exact .nil
  control := by
    rw [hs]
    cases m.control with
    | run op => exact .run op
    | back r => exact .back r r
    | thrown => exact .thrown

theorem strike_state [IsEmpty C.Task] (m : Machine C) : m.strike.state = (C.tick m.state).1 := by
  rw [Machine.strike, wakeAll_eq_self]

theorem Thrift.Sound.lasts_strike [IsEmpty C.Task] (hT : T.Sound Inv) (hi : Inv a.config)
    (hm : a.step? = none) (w : C.Frame) (hw : T.idle a.state w) : T.idle a.strike.state w := by
  have hn : a.config.next = none := by
    rw [config_nil (stack_of_step? hm)]
    rfl
  have := hT.lasts hi (.tick hn) (w := w)
  rw [config_state] at this
  rw [strike_state]
  exact this hw

theorem step?_reorder (hm : m.step? = none) (ready : List (Task C)) :
    ({ m with ready } : Machine C).step? = none := by
  rw [step?_eq_none] at hm ⊢
  exact hm

section Reactor

variable [IsEmpty C.Task]

/-- A machine without tasks of its own only ever serves venues. -/
theorem turn_serves (hp : m.poll? = some m') : ∃ v ready, m.ready = .serve v :: ready := by
  unfold poll? at hp
  cases hr : m.ready with
  | nil => simp [hr] at hp
  | cons t ready =>
    cases t with
    | serve v => exact ⟨v, ready, rfl⟩
    | own t => exact isEmptyElim t

theorem moment?_atRest (hm : m.step? = none) : m.moment? = none := by
  rw [moment?, cause?_nil (stack_of_step? hm) (step?_eq_none.mp hm).2]
  rfl

theorem state_turn (hm : m.step? = none) (hp : m.poll? = some m') : m'.state = m.state := by
  have hstep := poll?_config hm hp
  rw [cause?_nil (stack_of_step? hm) (step?_eq_none.mp hm).2] at hstep
  simpa using hstep.state_eq

end Reactor

/-! ### Where the machines stand -/

/-- The first machine stands beside the second one, or it has moved a line that the second one is still
to move. -/
inductive Leads (idle : C.Frame → Prop) (held : List Nat) (a b : Machine C) : List Nat → Prop where
  | tarries (h : Tarries idle held a b) : Leads idle held a b held
  | late {a₀ : Machine C} (h : Late idle held a₀ a b) : Leads idle held a b (a₀.clearing held)

/-- A machine that is at rest has nothing left to catch up with. -/
theorem Tarries.atRest (h : Tarries idle held a b) (hm : b.step? = none) : Beside idle held a b := by
  obtain ⟨above, below, h⟩ := h
  cases above with
  | nil =>
    obtain rfl : b.stack = below := h.stack
    exact h.beside
  | cons f above =>
    have hs := h.stack
    rw [stack_of_step? hm] at hs
    cases hs

theorem Tarries.state_eq (h : Tarries idle held a b) : b.state = a.state := by
  obtain ⟨above, below, h⟩ := h
  exact h.beside.state

theorem Leads.state_eq (h : Leads idle held a b held') : b.state = a.state := by
  cases h with
  | tarries h => exact h.state_eq
  | late h => exact h.tarries.state_eq.trans (h.turning.state_eq h.step).symm

/-- Where nothing is left to serve in the second machine, there is nothing left in the first one. -/
theorem Beside.settled (h : Beside idle held a b) (hm : b.advance? = none) : a.advance? = none := by
  obtain ⟨hrest, hready⟩ := advance?_eq_none.mp hm
  refine advance?_eq_none.mpr ⟨h.atRest_iff.mp hrest, List.eq_nil_iff_forall_not_mem.mpr fun t ht => ?_⟩
  have := h.awake t ht
  rw [hready] at this
  cases this

theorem Leads.atRest (h : Leads idle held a b held') (hm : b.step? = none) :
    held' = held ∧ Beside idle held a b := by
  cases h with
  | tarries h => exact ⟨rfl, h.atRest hm⟩
  | late h =>
    have := (h.tarries.atRest hm).atRest_iff.mp hm
    rw [h.step] at this
    cases this

/-! ### Taking the lead -/

/-- The first machine takes the step that the second one takes, unless that is in vain. -/
theorem Beside.lead [IsEmpty C.Task] (hT : T.Sound Inv) (hp : ∀ q, T.Silent q → p q = false)
    (h : Beside (T.idle a.state) held a b) (ha : Attains C.resume T.spares? p m₀ deeds held a)
    (ho : a.floor.Orderly) (hi : Inv a.config) (hfair : b.Fair T.spares? held)
    (hm : b.stepBy T.lavish = some b') :
    ∃ held' a', Attains C.resume T.spares? p m₀ (deeds ++ b.moment?.toList.map .moment) held' a' ∧
      Leads (T.idle a'.state) (b.holding T.spares? held) a' b' held' := by
  have hmoment : b.moment? = a.moment? := by rw [moment?, moment?, h.cause?_eq, h.state]
  have hafair := (h.fair_iff T.spares?).mp hfair
  obtain ⟨a₁, ha₁⟩ : ∃ a', a.step? = some a' := by
    refine Option.ne_none_iff_exists'.mp fun hrest => ?_
    rw [stepBy_eq_none.mpr (h.atRest_iff.mpr hrest)] at hm
    cases hm
  have hnext := ha.step hafair ((stepBy_resume a).trans ha₁)
  rw [← hmoment] at hnext
  obtain ⟨b₁, hb, haccords⟩ := h.accords hT hi ha₁ ho hafair
  obtain rfl := Option.some.inj (hm.symm.trans hb)
  cases haccords with
  | alike hm' hheld h =>
    obtain rfl := Option.some.inj (ha₁.symm.trans hm')
    rw [hheld]
    exact ⟨_, _, hnext, .tarries h⟩
  | late hm' hheld hclear h =>
    obtain rfl := Option.some.inj (ha₁.symm.trans hm')
    rw [hheld]
    rw [← hclear] at hnext
    exact ⟨_, _, hnext, .late h⟩
  | vain hvain h =>
    rw [hvain.holding]
    exact ⟨_, a, ha.congr (hvain.heard_eq hp deeds).symm, .tarries h⟩

/-- All work of a serial venue is served if it waits for it. -/
theorem Beside.line_eq_nil [IsEmpty C.Task] (h : Beside idle held a b) (ho : a.floor.Orderly)
    (ho' : b.floor.Orderly) (hm : a.step? = none) (hb : .serve v ∈ b.ready) (hv : .serve v ∉ a.ready) :
    a.line v = [] := by
  have hgoes : a.floor.goesOn v = true := by
    have := ho'.woken v (List.mem_filterMap.mpr ⟨_, hb, rfl⟩)
    rwa [goesOn_of_shell h.shell] at this
  by_contra hne
  rcases ho.prompt v hgoes hne with hw | ⟨after, hserved⟩
  · obtain ⟨t, ht, hserve⟩ := List.mem_filterMap.mp hw
    cases t with
    | serve u =>
      cases hserve
      exact hv ht
    | own t => exact isEmptyElim t
  · have hnil : a.floor.stack = [] := stack_of_step? hm
    rw [hnil] at hserved
    cases hserved

/-- The reactor turns to a venue that holds idle work only, and that the first machine is not to serve. -/
theorem Beside.errand (hT : T.Sound Inv) (h : Beside (T.idle a.state) held a b) (hm : b.step? = none)
    {ready : List (Task C)} (hb : b.ready = .serve v :: ready) (hv : .serve v ∉ a.ready)
    (hline : a.line v = []) (hpoll : b.poll? = some b') :
    Tarries (T.idle a.state) held a b' ∧ b'.weight < b.weight := by
  have hs := stack_of_step? hm
  have hs' := h.nil_iff.mp hs
  -- To turn to a venue is to go on serving it.
  let b₀ : Machine C := { b with
    ready
    stack := [.serve v none .done, .task]
    control := .back .done }
  have htarrying : Tarrying (T.idle a.state) held a b₀ [.serve v none .done, .task] [] := by
    refine ⟨rfl, ?_, fun _ => ⟨_, rfl⟩, ⟨h.shell, h.lines, h.even, fun t ht => ?_, h.once⟩, ?_, ?_⟩
    · simp [Frame.Quiet, hline, hs', servings]
    · have hmem := h.awake t ht
      rw [hb] at hmem
      exact (List.mem_cons.mp hmem).resolve_left fun heq => hv (heq ▸ ht)
    · rw [hs']
      exact .nil
    · exact .rest hs' (step?_eq_none.mp (h.atRest_iff.mp hm)).2 (by simp)
  obtain ⟨b₁, hvain, htarries⟩ := htarrying.vain hT
  have hstep : b₀.stepBy T.lavish = some b' := by
    rw [← hpoll, poll?, hb]
    rfl
  obtain rfl := Option.some.inj (hstep.symm.trans hvain.step)
  refine ⟨htarries, Nat.lt_trans hvain.weight ?_⟩
  simp only [weight, b₀, hs, hb, List.length_cons, List.length_nil]
  omega

/-- The reactor turns to a venue in both machines, or in the second one only, in vain. -/
theorem Beside.leadTurn [IsEmpty C.Task] (hT : T.Sound Inv) (h : Beside (T.idle a.state) held a b)
    (ha : Attains C.resume T.spares? p m₀ deeds held a) (ho : a.floor.Orderly) (ho' : b.floor.Orderly)
    (hm : b.step? = none) (hpoll : b.poll? = some b') :
    ∃ held' a', Attains C.resume T.spares? p m₀ (deeds ++ b.moment?.toList.map .moment) held' a' ∧
      Leads (T.idle a'.state) held a' b' held' := by
  have hrest := h.atRest_iff.mp hm
  obtain ⟨v, ready, hready⟩ := turn_serves hpoll
  by_cases hv : Task.serve v ∈ a.ready
  · have hperm := (List.perm_cons_erase hv).symm
    obtain ⟨a', b₁, ha', hb, hmoves⟩ := (h.reorder hperm (.refl _)).poll rfl hready
    obtain rfl := Option.some.inj (hpoll.symm.trans hb)
    have hrest' := step?_reorder hrest (.serve v :: a.ready.erase (.serve v))
    have hnext := (ha.order hrest hperm).turn hrest' ha'
    have hstate := state_turn hrest' ha'
    rw [moment?_atRest hrest', ← moment?_atRest hm] at hnext
    rw [show a.state = a'.state from hstate.symm] at hmoves
    rcases hmoves with hboth | ⟨a₀, hlate, hclear⟩
    · exact ⟨_, _, hnext, .tarries (.of_beside hboth)⟩
    · exact ⟨_, _, hclear.symm ▸ hnext, .late hlate⟩
  · have hline := h.line_eq_nil ho ho' hrest (by simp [hready]) hv
    rw [moment?_atRest hm]
    exact ⟨_, a, by simpa using ha, .tarries (h.errand hT hm hready hv hline hpoll).1⟩

/-- Where the first machine has settled, the second one has only idle work to do until it has settled as
well. -/
theorem Tarries.finish [IsEmpty C.Task] (hT : T.Sound Inv) (hp : ∀ q, T.Silent q → p q = false)
    (ha : Attains T.lavish T.spares? p m₀ deeds held b) (h : Tarries (T.idle a.state) held a b)
    (ho : a.floor.Orderly) (ho₀ : m₀.floor.Orderly) (hm : a.advance? = none) :
    ∃ b', Attains T.lavish T.spares? p m₀ deeds held b' ∧ Tarries (T.idle a.state) held a b' ∧
      b'.advance? = none := by
  obtain ⟨hrest, hready⟩ := advance?_eq_none.mp hm
  induction hn : b.weight using Nat.strongRecOn generalizing b with
  | ind n ih =>
    obtain ⟨above, below, h⟩ := h
    cases above with
    | cons f above =>
      obtain ⟨b', hvain, htarries⟩ := h.vain hT
      exact ih _ (hn ▸ hvain.weight) (ha.vain hp hvain) htarries rfl
    | nil =>
      obtain rfl : b.stack = below := h.stack
      have hbeside : Beside (T.idle a.state) held a b := h.beside
      have hbrest := hbeside.atRest_iff.mpr hrest
      cases hpoll : b.poll? with
      | none =>
        refine ⟨b, ha, .of_beside hbeside, ?_⟩
        rw [advance?, hbrest]
        exact hpoll
      | some b' =>
        obtain ⟨v, ready, hb⟩ := turn_serves hpoll
        have hv : .serve v ∉ a.ready := by simp [hready]
        have hline := hbeside.line_eq_nil ho (ha.orderly ho₀) hrest (by simp [hb]) hv
        obtain ⟨htarries, hless⟩ := hbeside.errand hT hbrest hb hv hline hpoll
        have hnext := ha.turn hbrest hpoll
        rw [moment?_atRest hbrest] at hnext
        exact ih _ (hn ▸ hless) (by simpa using hnext) htarries rfl

theorem Leads.settled (h : Leads idle held a b held') (hm : b.advance? = none) : a.advance? = none :=
  (h.atRest (advance?_eq_none.mp hm).1).2.settled hm

/-! ### Runs -/

section Runs

variable [IsEmpty C.Task] (hT : T.Sound Inv) (hp : ∀ q, T.Silent q → p q = false)
  (ho : m₀.floor.Orderly) (hi : Inv m₀.config) (hs : m₀.stack = []) (hr : m₀.ready.Nodup)
include hT hp ho hi hs hr

/-- Where the thrifty component comes, the lavish one can come as well. -/
theorem Roams.lavish (h : Roams C.resume T.spares? m₀ deeds held a) :
    ∃ b, Attains T.lavish T.spares? p m₀ deeds held b ∧ Tarries (T.idle a.state) held a b := by
  induction h with
  | start => exact ⟨m₀, ⟨[], .start, rfl⟩, .of_beside (beside_self hs hr)⟩
  | @step deeds held a a' h hfair hm ih =>
    obtain ⟨b, hb, htarries⟩ := ih
    rw [stepBy_resume] at hm
    have hinv := h.config_induction Inv hi fun _ _ _ hi hstep => hT.inv hi hstep
    exact htarries.follow hT hp hb (h.orderly ho) hinv hfair hm
  | @turn deeds held a a' h hm hpoll ih =>
    obtain ⟨b, hb, htarries⟩ := ih
    obtain ⟨b, hb, hbeside⟩ := htarries.settle hT hp hb
    have hrest : b.step? = none := hbeside.atRest_iff.mpr hm
    obtain ⟨v, ready, hready⟩ := turn_serves hpoll
    have hmem : Task.serve v ∈ b.ready := hbeside.awake _ (by simp [hready])
    have hperm := (List.perm_cons_erase hmem).symm
    obtain ⟨a₁, b', ha₁, hb', hmoves⟩ := (hbeside.reorder (.refl _) hperm).poll hready rfl
    obtain rfl := Option.some.inj (hpoll.symm.trans ha₁)
    have hrest' := step?_reorder hrest (.serve v :: b.ready.erase (.serve v))
    have hnext := (hb.order hrest hperm).turn hrest' hb'
    rw [moment?_atRest hrest', ← moment?_atRest hm] at hnext
    rw [← state_turn hm hpoll] at hmoves
    rcases hmoves with hboth | ⟨a₀, hlate, hclear⟩
    · exact ⟨b', hnext, .of_beside hboth⟩
    · have := hlate.catch_up hT hp hnext
      rwa [hclear] at this
  | @order deeds held a ready h hm hperm ih =>
    obtain ⟨b, hb, htarries⟩ := ih
    obtain ⟨b, hb, hbeside⟩ := htarries.settle hT hp hb
    exact ⟨b, hb, .of_beside (hbeside.reorder hperm (.refl _))⟩
  | @proceed deeds held a v q n h hm hq hk hn ih =>
    obtain ⟨b, hb, htarries⟩ := ih
    obtain ⟨b, hb, hbeside⟩ := htarries.settle hT hp hb
    obtain ⟨n', hn', hreaches⟩ := (hbeside.lines v).reaches (line_of hq ▸ hn)
    obtain ⟨q', hq', hkind, -⟩ := venue_of_shell hbeside.shell hq
    have hnext := hb.proceed (hbeside.atRest_iff.mpr hm) hq' (hkind ▸ hk) (line_of hq' ▸ hn')
    have hmoves := hbeside.proceed hreaches
    rw [← proceed_state hm v n] at hmoves
    exact hmoves.elim (fun hboth => ⟨_, hnext, .of_beside hboth⟩) fun ⟨a₀, hlate, hclear⟩ => by
      simpa only [hclear] using hlate.catch_up hT hp hnext
  | @request deeds held a h hm op ih =>
    obtain ⟨b, hb, htarries⟩ := ih
    obtain ⟨b, hb, hbeside⟩ := htarries.settle hT hp hb
    exact ⟨_, hb.request (hbeside.atRest_iff.mpr hm) op, .of_beside (hbeside.request op)⟩
  | @strike deeds held a h hm ih =>
    obtain ⟨b, hb, htarries⟩ := ih
    obtain ⟨b, hb, hbeside⟩ := htarries.settle hT hp hb
    have hnext := hb.strike (hbeside.atRest_iff.mpr hm)
    rw [hbeside.state] at hnext
    have hinv := h.config_induction Inv hi fun _ _ _ hi hstep => hT.inv hi hstep
    exact ⟨_, hnext, (Tarries.of_beside hbeside.strike).mono (hT.lasts_strike hinv hm)⟩

/-- Where the lavish component comes, the thrifty one can come as well. -/
theorem Roams.thrifty (h : Roams T.lavish T.spares? m₀ deeds held b) :
    ∃ held' a, Attains C.resume T.spares? p m₀ deeds held' a ∧ Leads (T.idle a.state) held a b held' := by
  induction h with
  | start => exact ⟨[], m₀, ⟨[], .start, rfl⟩, .tarries (.of_beside (beside_self hs hr))⟩
  | @step deeds held b b' h hfair hm ih =>
    obtain ⟨held', a, ha, hleads⟩ := ih
    cases hleads with
    | late hlate =>
      obtain ⟨b₁, hb, hgoes⟩ := hlate.goOn hT
      obtain rfl := Option.some.inj (hm.symm.trans hb)
      rcases hgoes with ⟨hvain, hlate⟩ | ⟨-, hmoment, hheld, htarries⟩
      · rw [hvain.holding]
        exact ⟨_, a, ha.congr (hvain.heard_eq hp deeds).symm, .late hlate⟩
      · rw [hmoment, hheld, List.map_nil, List.append_nil]
        exact ⟨_, a, ha, .tarries htarries⟩
    | tarries htarries =>
      obtain ⟨above, below, htarrying⟩ := htarries
      cases above with
      | cons f above =>
        obtain ⟨b₁, hvain, htarries⟩ := htarrying.vain hT
        obtain rfl := Option.some.inj (hm.symm.trans hvain.step)
        rw [hvain.holding]
        exact ⟨_, a, ha.congr (hvain.heard_eq hp deeds).symm, .tarries htarries⟩
      | nil =>
        obtain rfl : b.stack = below := htarrying.stack
        have hbeside : Beside (T.idle a.state) held a b := htarrying.beside
        exact hbeside.lead hT hp ha (ha.orderly ho) (ha.inv hT hi) hfair hm
  | @turn deeds held b b' h hm hpoll ih =>
    obtain ⟨held', a, ha, hleads⟩ := ih
    obtain ⟨rfl, hbeside⟩ := hleads.atRest hm
    exact hbeside.leadTurn hT ha (ha.orderly ho) (h.orderly ho) hm hpoll
  | @order deeds held b ready h hm hperm ih =>
    obtain ⟨held', a, ha, hleads⟩ := ih
    obtain ⟨rfl, hbeside⟩ := hleads.atRest hm
    exact ⟨_, a, ha, .tarries (.of_beside (hbeside.reorder (.refl _) hperm))⟩
  | @proceed deeds held b v q n' h hm hq hk hn ih =>
    obtain ⟨held', a, ha, hleads⟩ := ih
    obtain ⟨rfl, hbeside⟩ := hleads.atRest hm
    have hrest := hbeside.atRest_iff.mp hm
    obtain ⟨n, hn, hreaches⟩ := (hbeside.lines v).reached (line_of hq ▸ hn)
    obtain ⟨q', hq', hkind, -⟩ := venue_of_shell hbeside.shell.symm hq
    have hnext := ha.proceed hrest hq' (hkind ▸ hk) (line_of hq' ▸ hn)
    have hmoves := hbeside.proceed hreaches
    rw [← proceed_state hrest v n] at hmoves
    rcases hmoves with hboth | ⟨a₀, hlate, hclear⟩
    · exact ⟨_, _, hnext, .tarries (.of_beside hboth)⟩
    · exact ⟨_, _, hclear.symm ▸ hnext, .late hlate⟩
  | @request deeds held b h hm op ih =>
    obtain ⟨held', a, ha, hleads⟩ := ih
    obtain ⟨rfl, hbeside⟩ := hleads.atRest hm
    exact ⟨_, _, ha.request (hbeside.atRest_iff.mp hm) op, .tarries (.of_beside (hbeside.request op))⟩
  | @strike deeds held b h hm ih =>
    obtain ⟨held', a, ha, hleads⟩ := ih
    obtain ⟨rfl, hbeside⟩ := hleads.atRest hm
    have hrest := hbeside.atRest_iff.mp hm
    have hnext := ha.strike hrest
    rw [← hbeside.state] at hnext
    have hlasts := hT.lasts_strike (ha.inv hT hi) hrest
    exact ⟨_, _, hnext, .tarries ((Tarries.of_beside hbeside.strike).mono hlasts)⟩

end Runs

end Conduit.Dispatch
