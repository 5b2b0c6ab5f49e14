import Conduit.Proofs.Dispatch.Thrift

/-!
One step of a component that spares itself work, and of the same component without this thrift. The one
that does not spare work takes the same step, or one in vain.
-/

namespace Conduit.Dispatch

variable {C : Component} {T : Thrift C} {Inv : Config C → Prop} {idle : C.Frame → Prop}
  {held : List Nat} {a b : Machine C} {v : Nat} {f : C.Frame} {d : Context} {w : C.Frame}
  {l : List C.Frame} {k k' : List (Frame C)}

open Machine

namespace Machine

variable {m m' : Machine C}

/-- Whoever moves a line in good order moves one that nobody below moves. -/
theorem turning_of_orderly (ho : m.floor.Orderly) {r : Reply C.Answer} {g : Frame C}
    (hc : m.control = .back r) (hs : m.stack = g :: k) (hg : g.moves? = some v) : m.Turning := by
  refine ⟨r, g, k, v, hc, hs, hg, ?_⟩
  cases g with
  | serve u left after =>
    cases hg
    have halone : (servings m.stack).Nodup := ho.alone
    rw [hs] at halone
    exact (List.nodup_cons.mp halone).1
  | drain u left ran =>
    cases hg
    have hmanual := ho.drains v left ran (show _ ∈ m.stack from hs ▸ List.mem_cons_self)
    have hserved := not_served_manual ho hmanual
    rw [hs] at hserved
    exact hserved
  | _ => cases hg

/-- Nobody but the machine itself takes part when a line is moved. -/
theorem Turning.cause? (h : m.Turning) : m.cause? = none := by
  obtain ⟨r, g, k, v, hc, hs, hg, -⟩ := h
  rw [cause?_back hc hs]
  cases g with
  | own w => cases hg
  | _ => rfl

theorem Turning.state_eq (h : m.Turning) (hm : m.step? = some m') : m'.state = m.state := by
  have hstep := step?_config hm
  rw [h.cause?] at hstep
  simpa using hstep.state_eq

end Machine

namespace Beside

/-! ### Lines that are moved -/

/-- Both machines move a line that nobody below moves. -/
theorem move (h : Beside idle held a b) (ht : a.Turning) :
    (∃ a' b', a.step? = some a' ∧ b.stepBy T.lavish = some b' ∧ Beside idle (a.clearing held) a' b' ∧
      b.clearing held = a.clearing held) ∨
    ∃ b', Vain T held b b' ∧ Tarries idle held a b' := by
  obtain ⟨r, f, k, v, hc, hs, hf, hv⟩ := ht
  obtain ⟨g, k', hs', hfg, hk⟩ := h.uppermost hs
  obtain ⟨r', hc'⟩ := (hc ▸ h.control).of_back (by simp [hs])
  have hbelow : Beside idle held { a with stack := k } { b with stack := k' } :=
    h.go hk (by rw [hc, hc']; exact .back r r') a.journal b.journal
  have hback : ({ a with stack := f :: k, control := .back .done } : Machine C) =
      { a with control := .back .done } := by rw [← hs]
  have hlavish (hg : ∀ w, g ≠ .own w) : b.stepBy T.lavish = b.step? :=
    stepBy_other fun _ w _ _ hw => hg w (List.cons.inj (hs'.symm.trans hw)).1
  have hweight : ({ b with stack := k' } : Machine C).weight < b.weight := by
    simp [Machine.weight, hs']
  cases hfg with
  | same hf' => simp [hf'] at hf
  | @serve u left left' after hr =>
    cases hf
    rw [clearing_of_stack hc hs (by simp), clearing_of_stack hc' hs' (by simp)]
    rcases hbelow.serve hv hr after with hboth | ⟨htarries, hless⟩
    · exact .inl ⟨_, _, step?_back hc hs, (hlavish (by simp)).trans (step?_back hc' hs'), hboth, rfl⟩
    · refine .inr ⟨_, .of_frame hc' hs' (by simp) (clearing_of_stack hc' hs' (by simp))
        (Nat.lt_trans hless hweight), ?_⟩
      have htarries : Tarries idle held { a with control := .back .done } _ := hback ▸ htarries
      exact htarries.of_back hc
  | @drain u left ran ran' hleft =>
    cases hf
    have hclear : a.clearing held = ({ a with stack := k } : Machine C).clear v left held := by
      simp only [clearing, hc, hs]
      rfl
    have hclear' : b.clearing held = ({ b with stack := k' } : Machine C).clear v left held := by
      simp only [clearing, hc', hs']
      rfl
    rw [hclear, hclear']
    rcases hbelow.drain hv hleft ran ran' with ⟨hboth, hsame⟩ | ⟨htarries, hless, hsame⟩
    · exact .inl ⟨_, _, step?_back hc hs, (hlavish (by simp)).trans (step?_back hc' hs'), hboth, hsame⟩
    · refine .inr ⟨_, .of_frame hc' hs' (by simp) (hclear'.trans hsame) (Nat.lt_trans hless hweight), ?_⟩
      have htarries : Tarries idle held { a with control := .back .done } _ := hback ▸ htarries
      exact htarries.of_back hc

/-! ### Work that is spared -/

/-- A queue holds work less than it might, while nobody moves it by a number. -/
theorem hold (h : Beside idle held a b) (hv : ∀ n ran, .drain v (some n) ran ∉ a.stack) :
    Beside idle (v :: held) a b where
  shell := h.shell
  lines := h.lines
  even u hu := h.even u fun hmem => hu (List.mem_cons_of_mem v hmem)
  awake := h.awake
  once := h.once
  stack := by
    refine relined h.stack (fun _ _ _ _ hr => hr) fun u n ran hmem hu hheld => ?_
    rcases List.mem_cons.mp hheld with rfl | hheld
    · exact hv n ran hmem
    · exact hu hheld
  control := h.control

/-- The second machine gives idle work to a venue. -/
theorem enqueue_right [IsEmpty C.Task] (h : Beside idle held a b) (hv : v ∈ held) (hw : idle w)
    (hunwind : (C.unwind b.state w).1 = b.state) : Beside idle held a (b.enqueue v w) := by
  cases hq' : b.venues[v]? with
  | none => rwa [enqueue_none hq']
  | some q' =>
    obtain ⟨q, hq, -⟩ := venue_of_shell h.shell.symm hq'
    have hline (u : Nat) : (b.refill v (b.line v ++ [w])).line u =
        if u = v then b.line v ++ [w] else b.line u := line_refill hq' _ u
    have hjoin : Beside idle held a ((b.refill v (b.line v ++ [w])).record (.queued v w)) := by
      refine ⟨?_, ?_, h.control⟩
      · have hlevel := h.toLevel.refill hq hq'
          (by simpa using (h.lines v).append (.pad hw .nil)) (absurd hv)
        rw [refill_line] at hlevel
        exact hlevel.go a.stack b.stack a.control b.control a.journal _
      · refine relined h.stack (fun u _ l l' hr => ?_) fun _ _ _ _ hu => hu
        show Reaches idle (a.line u) ((b.refill v (b.line v ++ [w])).line u) l l'
        rw [hline]
        split
        · rename_i huv
          subst huv
          simpa using hr.append (.pad hw .nil)
        · exact hr
    rw [enqueue_eq hq', hunwind]
    split
    · dsimp only
      split
      · exact hjoin.wake_right (.serve v)
      · exact hjoin
    · exact h

/-- The first machine goes on where the second one is still to run idle work. -/
theorem ahead (above : List (Frame C)) (h : Beside idle held a { b with stack := k })
    (hs : b.stack = above ++ k) (hquiet : ∀ f ∈ above, f.Quiet idle a) {r : Reply C.Answer}
    (hc : b.control = .back r) : Tarries idle held a b :=
  ⟨above, k, hs, hquiet, fun _ => ⟨r, hc⟩, h⟩

/-- What the second machine gives to a context is spared by the first one. -/
theorem spare [IsEmpty C.Task] (h : Beside idle held a b) (hw : idle w)
    (hunwind : (C.unwind b.state w).1 = b.state)
    (hv : ∀ v, d.place = .venue v → ∀ n ran, .drain v (some n) ran ∉ a.stack) :
    Tarries idle (match d.place with
      | .venue v => v :: held
      | _ => held) (a.reply .done) (b.handOver d w) := by
  have hbelow := h.reply .done .done
  unfold Machine.handOver
  cases hd : d.place with
  | direct =>
    exact ahead (b := { b with stack := .own w :: b.stack, control := .back .done }) [.own w] hbelow rfl
      (by simpa [Frame.Quiet] using hw) rfl
  | pool =>
    exact ahead (b := { b with stack := .own w :: .turn .pool :: b.stack, control := .back .done })
      [.own w, .turn .pool] hbelow rfl (by simpa [Frame.Quiet] using hw) rfl
  | venue v =>
    have hheld := h.hold (hv v hd)
    exact .of_beside ((hheld.enqueue_right List.mem_cons_self hw hunwind).reply .done .done)

/-- Both machines go on with a frame of the component, and the first one may spare itself some work. -/
theorem resume [IsEmpty C.Task] (hT : T.Sound Inv) (h : Beside (T.idle a.state) held a b)
    (hi : Inv a.config) (hfair : a.Fair T.spares? held) {r : Reply C.Answer} (hc : a.control = .back r)
    (hs : a.stack = .own f :: k) :
    ∃ a' b', a.step? = some a' ∧ b.stepBy T.lavish = some b' ∧
      Tarries (T.idle a.state) (a.holding T.spares? held) a' b' := by
  obtain ⟨g, k', hs', hfg, hk⟩ := h.uppermost hs
  obtain ⟨r', hc'⟩ := (hc ▸ h.control).of_back (by simp [hs])
  have hstate := h.state
  cases hfg
  have hbelow : Beside (T.idle a.state) held { a with stack := k } { b with stack := k' } :=
    h.go hk (by rw [hc, hc']; exact .back r r') a.journal b.journal
  have hpoised (s : List (Frame C)) : Poised s a.control b.control := by
    rw [hc, hc']
    exact .back r r'
  refine ⟨_, _, step?_back hc hs, stepBy_own hc' hs', ?_⟩
  show Tarries _ _ (({ a with stack := k } : Machine C).take (C.resume a.state f)) _
  cases hsave : T.spares? a.state f with
  | none =>
    have hspared : a.spared? T.spares? = none := by simp [spared?, hc, hs, hsave]
    rw [hstate, hT.lavish hsave, holding_of_spared? hspared, clearing_of_stack hc hs (by simp)]
    exact .of_beside (hbelow.take fun s => hpoised _)
  | some saving =>
    obtain ⟨d, w, l⟩ := saving
    have hsave' : T.spares? b.state f = some (d, w, l) := hstate ▸ hsave
    have hidle : T.idle a.state w := by
      have := hT.idle hi (congrArg Config.next (config_own hc hs)) (by rwa [config_state])
      rwa [config_state] at this
    have hholding : a.holding T.spares? held = match d.place with
        | .venue v => v :: held
        | _ => held := by
      rw [holding, spared?, hc, hs]
      simp only [hsave, Option.bind_some]
      cases d.place with
      | venue v => rfl
      | _ => exact clearing_of_stack hc hs (by simp)
    rw [hT.given hsave', hT.spared hsave, hholding]
    have hpushed := hbelow.pushOwn l (hpoised _)
    refine hpushed.spare hidle ((congrArg (fun s => (C.unwind s w).1) hstate).trans
      ((hT.unwind hidle).trans hstate.symm)) fun v hd n ran hmem => ?_
    have hspared : a.spared? T.spares? = some v := by simp [spared?, hc, hs, hsave, hd]
    refine hfair.spared v hspared n ran ?_
    rw [hs]
    rcases List.mem_append.mp hmem with hmem | hmem
    · simp at hmem
    · exact List.mem_cons_of_mem _ hmem

/-- Both machines give a reply to a frame of the machine itself that moves no line. -/
theorem returnTo (h : Beside idle held a b) {g : Frame C} (hg : g.moves? = none)
    (hown : ∀ w, g ≠ .own w) (r r' : Reply C.Answer) :
    Beside idle held (a.returnTo r g) (b.returnTo r' g) := by
  cases g with
  | own w => exact absurd rfl (hown w)
  | script tag rest throws => exact (h.record _ _).runScript tag rest throws
  | turn site => exact (h.record _ _).reply .done .done
  | task => exact h.reply .done .done
  | drain v left ran => cases hg
  | serve v left after => cases hg

/-- A throw passes the uppermost frame in both machines. -/
theorem throw [IsEmpty C.Task] (h : Beside idle held a b) (hc : a.control = .thrown)
    {g : Frame C} (hs : a.stack = g :: k) :
    ∃ a' b', a.step? = some a' ∧ b.step? = some b' ∧ Beside idle held a' b' := by
  obtain ⟨g', k', hs', hf, hk⟩ := h.uppermost hs
  have hc' := (hc ▸ h.control).of_thrown (by simp [hs])
  have hbelow : Beside idle held { a with stack := k } { b with stack := k' } :=
    h.go hk (by rw [hc, hc']; exact .thrown) a.journal b.journal
  refine ⟨_, _, step?_thrown hc hs, step?_thrown hc' hs', ?_⟩
  cases hf with
  | @same g hg =>
    cases g with
    | own w => exact hbelow.discard w
    | turn site => exact (hbelow.record _ _).reply .done .done
    | task => exact hbelow.reply .done .done
    | _ => exact hbelow
  | _ => exact hbelow

end Beside

/-! ### Steps -/

/-- How the second machine goes on if the first one takes a step: it takes the same step, it begins to
do so, or it takes a step in vain. -/
inductive Accords (T : Thrift C) (held : List Nat) (a b b' : Machine C) : Prop where
  | alike {a'} (hstep : a.step? = some a') (hheld : b.holding T.spares? held = a.holding T.spares? held)
      (h : Tarries (T.idle a'.state) (a.holding T.spares? held) a' b')
  | late {a' a₀} (hstep : a.step? = some a') (hheld : b.holding T.spares? held = held)
      (hclear : a₀.clearing held = a.holding T.spares? held)
      (h : Late (T.idle a'.state) held a₀ a' b')
  | vain (hvain : Vain T held b b') (h : Tarries (T.idle a.state) held a b')

theorem Tarries.mono {idle' : C.Frame → Prop} (h : Tarries idle held a b)
    (hi : ∀ w, idle w → idle' w) : Tarries idle' held a b := by
  obtain ⟨above, below, h⟩ := h
  refine ⟨above, below, h.stack, fun f hf => ?_, h.control, h.beside.mono hi⟩
  have hquiet := h.quiet f hf
  cases f with
  | own w => exact hi w hquiet
  | _ => exact hquiet

theorem Beside.holding_eq (h : Beside idle held a b) (hclear : b.clearing held = a.clearing held)
    (spares? : Savings C) : b.holding spares? held = a.holding spares? held := by
  rw [holding, holding, h.spared?_eq, hclear]

section Accord

variable [IsEmpty C.Task] {a' : Machine C} (hT : T.Sound Inv) (h : Beside (T.idle a.state) held a b)
  (hi : Inv a.config) (hm : a.step? = some a')
include hT h hi hm

omit h [IsEmpty C.Task] in
/-- Idle work stays idle. -/
theorem Thrift.Sound.lasts_step (w : C.Frame) (hw : T.idle a.state w) : T.idle a'.state w := by
  have := hT.lasts hi (step?_config hm) (w := w)
  rw [config_state, config_state] at this
  exact this hw

omit [IsEmpty C.Task] in
/-- Nothing is spared, and both machines stand beside each other again. -/
theorem Beside.accords_alike (hspared : a.spared? T.spares? = none)
    (hclear : b.clearing held = a.clearing held) (hboth : Beside (T.idle a.state) (a.clearing held) a' b') :
    Accords T held a b b' := by
  refine .alike hm (h.holding_eq hclear T.spares?) ?_
  rw [holding_of_spared? hspared]
  exact (Tarries.of_beside hboth).mono (hT.lasts_step hi hm)

/-- An operation runs. -/
theorem Beside.accords_run (ho : a.floor.Orderly) (hfair : a.Fair T.spares? held) {op : Op C.Action}
    (hc : a.control = .run op) : ∃ b', b.stepBy T.lavish = some b' ∧ Accords T held a b b' := by
  have hc' : b.control = .run op := (h.run_iff op).mpr hc
  have hspared : a.spared? T.spares? = none := spared?_of_control (by simp [hc])
  have hsame : b.stepBy T.lavish = b.step? := stepBy_other fun r _ _ hr => by simp [hc'] at hr
  cases op with
  | own x =>
    have hclear : a.clearing held = held := by simp [clearing, hc]
    have hclear' : b.clearing held = held := by simp [clearing, hc']
    obtain rfl := Option.some.inj ((step?_own hc).symm.trans hm)
    refine ⟨_, hsame.trans (step?_own hc'),
      h.accords_alike hT hi hm hspared (hclear'.trans hclear.symm) ?_⟩
    rw [hclear, view_of_shell h.shell, h.state]
    exact h.take fun s => by rw [hc, hc']; exact .run _
  | context o =>
    obtain rfl := Option.some.inj ((step?_context hc).symm.trans hm)
    refine ⟨_, hsame.trans (step?_context hc'), ?_⟩
    have hcounted (id : String) (n v : Nat) (ho : o = .drain id (some n))
        (hv : a.venue? id .manual = some v) : v ∉ held := hfair.counted id n v (ho ▸ hc) hv
    rcases h.runContext ho hc hc' hcounted with ⟨hboth, hclear⟩ | ⟨a₀, hlate, hclear, hclear'⟩
    · exact h.accords_alike hT hi hm hspared hclear hboth
    · have hstate : (a.runContext o).state = a.state := by
        have hstep := step?_config hm
        rw [cause?_context hc] at hstep
        simpa using hstep.state_eq
      have hheld : b.holding T.spares? held = held := by
        rw [holding_of_spared? ((h.spared?_eq _).trans hspared), hclear']
      have hholding : a.holding T.spares? held = a.clearing held := holding_of_spared? hspared held
      exact .late hm hheld (hclear.trans hholding.symm) (hstate ▸ hlate)

/-- A reply reaches a frame. -/
theorem Beside.accords_back (ho : a.floor.Orderly) (hfair : a.Fair T.spares? held) {r : Reply C.Answer}
    (hc : a.control = .back r) {g : Frame C} (hs : a.stack = g :: k) :
    ∃ b', b.stepBy T.lavish = some b' ∧ Accords T held a b b' := by
  obtain ⟨r', hc'⟩ := (hc ▸ h.control).of_back (by simp [hs])
  obtain ⟨g', k', hs', hf, hk⟩ := h.uppermost hs
  cases hg : g.moves? with
  | some v =>
    rcases h.move (T := T) (turning_of_orderly ho hc hs hg) with
      ⟨a₁, b', hm₁, hb, hboth, hclear⟩ | ⟨b', hvain, htarries⟩
    · obtain rfl := Option.some.inj (hm.symm.trans hm₁)
      have hspared : a.spared? T.spares? = none := spared?_of_stack fun f _ hs₁ => by
        rw [(List.cons.inj (hs.symm.trans hs₁)).1] at hg
        cases hg
      exact ⟨b', hb, h.accords_alike hT hi hm hspared hclear hboth⟩
    · exact ⟨b', hvain.step, .vain hvain htarries⟩
  | none =>
    obtain rfl : g' = g := by
      cases hf with
      | same => rfl
      | _ => cases hg
    have hmoves (v : Nat) (left : Option Nat) (ran : Nat) : g' ≠ .drain v left ran := by
      rintro rfl
      cases hg
    have hclear : a.clearing held = held := clearing_of_stack hc hs hmoves
    have hclear' : b.clearing held = held := clearing_of_stack hc' hs' hmoves
    by_cases hown : ∃ f, g' = .own f
    · obtain ⟨f, rfl⟩ := hown
      obtain ⟨a₁, b', hm₁, hb, htarries⟩ := h.resume hT hi hfair hc hs
      obtain rfl := Option.some.inj (hm.symm.trans hm₁)
      exact ⟨b', hb, .alike hm (h.holding_eq (hclear'.trans hclear.symm) T.spares?)
        (htarries.mono (hT.lasts_step hi hm))⟩
    · have hown (f : C.Frame) : g' ≠ .own f := fun hg => hown ⟨f, hg⟩
      have hspared : a.spared? T.spares? = none :=
        spared?_of_stack fun f _ hs₁ => hown f (List.cons.inj (hs.symm.trans hs₁)).1
      have hsame : b.stepBy T.lavish = b.step? :=
        stepBy_other fun _ f _ _ hs₁ => hown f (List.cons.inj (hs'.symm.trans hs₁)).1
      have hbelow : Beside (T.idle a.state) held { a with stack := k } { b with stack := k' } :=
        h.go hk (by rw [hc, hc']; exact .back r r') a.journal b.journal
      obtain rfl := Option.some.inj ((step?_back hc hs).symm.trans hm)
      refine ⟨_, hsame.trans (step?_back hc' hs'),
        h.accords_alike hT hi hm hspared (hclear'.trans hclear.symm) ?_⟩
      rw [hclear]
      exact hbelow.returnTo hg hown r r'

/-- A throw reaches a frame. -/
theorem Beside.accords_thrown (hc : a.control = .thrown) {g : Frame C} (hs : a.stack = g :: k) :
    ∃ b', b.stepBy T.lavish = some b' ∧ Accords T held a b b' := by
  have hc' := (hc ▸ h.control).of_thrown (by simp [hs])
  have hclear : a.clearing held = held := by simp [clearing, hc]
  have hclear' : b.clearing held = held := by simp [clearing, hc']
  obtain ⟨a₁, b', hm₁, hb, hboth⟩ := h.throw hc hs
  obtain rfl := Option.some.inj (hm.symm.trans hm₁)
  refine ⟨b', (stepBy_other fun r _ _ hr => by simp [hc'] at hr).trans hb,
    h.accords_alike hT hi hm (spared?_of_control (by simp [hc])) (hclear'.trans hclear.symm) ?_⟩
  rwa [hclear]

/-- One step of the first machine, and what the second one does beside it. -/
theorem Beside.accords (ho : a.floor.Orderly) (hfair : a.Fair T.spares? held) :
    ∃ b', b.stepBy T.lavish = some b' ∧ Accords T held a b b' := by
  cases hc : a.control with
  | run op => exact h.accords_run hT hi hm ho hfair hc
  | back r =>
    cases hs : a.stack with
    | nil => simp [step?, hc, hs] at hm
    | cons g k => exact h.accords_back hT hi hm ho hfair hc hs
  | thrown =>
    cases hs : a.stack with
    | nil => simp [step?, hc, hs] at hm
    | cons g k => exact h.accords_thrown hT hi hm hc hs

end Accord

end Conduit.Dispatch
