import Conduit.Proofs.Observer.Calls

/-!
What an enumeration promises. Every registration that is live when it is called is given the block
once, on its own context, and no other registration is. When the block runs, its observer is called
unless the registration has been removed in the meantime or the observer is gone. On a serial context
the blocks of one enumeration come before those of a later one.
-/

namespace Conduit.Observer

open Dispatch

variable {free : Bool}

/-- In the next step the observer of a registration is called: the block tells so and runs the script
for it. -/
def Visits (m : Machine component) (b : Block) (e : Registration) : Prop :=
  ∃ name t, m.turn? = some t ∧ m.state.subjects[e.observer]?.map (·.name) = some name ∧
    t.notes = [⟨b.tag, name⟩] ∧
    t.next = .script (b.tag, name) (b.script name) (b.throws name) [.release e.observer]

/-- In the next step a block is over without a call, and nothing changes. -/
def Skips (m : Machine component) : Prop :=
  ∃ t, m.turn? = some t ∧ t.state = m.state ∧ t.notes = [] ∧ t.next = .reply .done

/-- What an enumeration promises that is called now. -/
structure Delivers (x : ExecutionBy free initial) (b : Block) : Prop where
  begins : ∃ m', x.machine.step? = some m'
  /-- Until it is over, the call is never stuck. -/
  goesOn : ∀ ms m', x.machine.Within x.machine.stack.length ms m' →
    x.machine.stack.length < m'.stack.length → ∃ m'', m'.step? = some m''
  /-- The registrations that are live get their blocks in turn, each on its own context. -/
  inTurn : ∀ ms m', x.machine.Within x.machine.stack.length ms m' →
    handed x.machine.stack.length ms <+: blocks b x.machine.state.live
  /-- When the call returns, each has got its block; only a throw of a block that is run in line ends
  the call before. -/
  finishes : ∀ ms m', x.machine.Within x.machine.stack.length ms m' →
    m'.stack.length ≤ x.machine.stack.length →
    (m'.control = .back .done ∧
      handed x.machine.stack.length ms = blocks b x.machine.state.live) ∨
    m'.control = .thrown ∧ ∃ e, e.context.place = .direct ∧
      (handed x.machine.stack.length ms).getLast? = some (e.context, .visit b e)
  /-- Nobody else gets one, whoever has been registered since. -/
  only : ∀ ms m', x.machine.Within x.machine.stack.length ms m' →
    ∀ c e, (c, .visit b e) ∈ handed x.machine.stack.length ms →
      e ∈ x.machine.state.live ∧ c = e.context ∧ e.token < x.machine.state.registry.nextToken
  /-- The observer is called if the registration has not been removed and he is still there. -/
  visits : ∀ e ∈ x.machine.state.live, ∀ y : ExecutionBy free x.machine,
    y.machine.cause? = some (.resume (.visit b e)) → (∀ q ∈ y.past, ¬removes q e) →
      y.machine.state.alive e.observer = true → Visits y.machine b e
  /-- He is not called otherwise. -/
  skips : ∀ e ∈ x.machine.state.live, ∀ y : ExecutionBy free x.machine,
    y.machine.cause? = some (.resume (.visit b e)) →
      ((∃ q ∈ y.past, removes q e) ∨ y.machine.state.alive e.observer = false) → Skips y.machine
  /-- Whatever is registered after the registration has been removed, its block stays without
  effect. -/
  stays : ∀ e ∈ x.machine.state.live, ∀ y : ExecutionBy free x.machine,
    (∃ q ∈ y.past, removes q e) →
    ∀ z : ExecutionBy free y.machine, z.machine.cause? = some (.resume (.visit b e)) →
      Skips z.machine
  /-- A venue takes its blocks in order; a serial one takes them all. -/
  takes : ∀ ms m', x.machine.Within x.machine.stack.length ms m' → ∀ v,
    (taken v x.machine.stack.length ms).Sublist
      (meantFor v (handed x.machine.stack.length ms)) ∧
    (x.machine.floor.kind? v = some .serial → taken v x.machine.stack.length ms =
      meantFor v (handed x.machine.stack.length ms))
  /-- What a venue takes from a later call stands behind it in line, and is run behind it. -/
  ordered : ∀ ms m₁, x.machine.Within x.machine.stack.length ms m₁ →
    m₁.stack.length ≤ x.machine.stack.length →
    ∀ (y : ExecutionBy free m₁) b', Enumerates y.machine b' →
    ∀ ns m₂, y.machine.Within y.machine.stack.length ns m₂ → ∀ v, ∃ early between late,
      Machine.InTurn v x.machine.stack.length y.machine.stack.length ms ns x.machine y.machine m₂
        early between late

/-! ### When a block runs -/

theorem removes_gone {q : Moment component} (hs : q.state.Sound) {e : Registration}
    (h : removes q e) : e ∉ (after q).registry.entries := by
  obtain ⟨s, cause⟩ := q
  cases cause with
  | exec view a =>
    cases a with
    | remove id => exact fun he => (live_remove h).1 e he rfl
    | removeToken token => exact fun he => (live_removeToken hs h).1 e he rfl
    | _ => exact h.elim
  | _ => exact h.elim

/-- What has become of a registration: while its observer is there, it is registered unless it has
been removed. -/
structure Standing (e : Registration) (past : List (Moment component)) (s : Observers) : Prop where
  sound : s.Sound
  old : e.token < s.registry.nextToken
  known : e.observer < s.subjects.length
  /-- No other registration has its token. -/
  same : ∀ f ∈ s.registry.entries, f.token = e.token → f = e
  there : s.alive e.observer = true → (e ∈ s.registry.entries ↔ ∀ q ∈ past, ¬removes q e)

theorem Standing.of_live {s : Observers} (hs : s.Sound) {e : Registration} (he : e ∈ s.live) :
    Standing e [] s := by
  have hmem := (Observers.mem_live.mp he).1
  refine ⟨hs, hs.registry.below e hmem, hs.entries e hmem, fun f hf hft => ?_, fun _ => ?_⟩
  · exact List.inj_on_of_nodup_map hs.registry.tokens hf hmem hft
  · simp [hmem]

theorem Standing.step {e : Registration} {past : List (Moment component)} {q : Moment component}
    (h : Standing e past q.state) : Standing e (past ++ [q]) (after q) := by
  have hlater := later_after h.sound
  -- The token is an old one, and so no registration that has it is new.
  have hback {f : Registration} (hf : f ∈ (after q).registry.entries) (hft : f.token = e.token) :
      f ∈ q.state.registry.entries :=
    (came_after h.sound hf).resolve_right fun ⟨_, _, hnext⟩ =>
      Nat.ne_of_lt h.old (hft.symm.trans hnext)
  refine ⟨sound_after h.sound, Nat.lt_of_lt_of_le h.old hlater.tokens,
    Nat.lt_of_lt_of_le h.known hlater.subjects, fun f hf hft => h.same f (hback hf hft) hft,
    fun halive => ?_⟩
  have hbefore : q.state.alive e.observer = true := by
    by_contra hdead
    simp [hlater.gone e.observer h.known (Bool.eq_false_iff.mpr hdead)] at halive
  rw [List.forall_mem_append, List.forall_mem_singleton, ← h.there hbefore]
  constructor
  · exact fun he => ⟨hback he rfl, fun hr => removes_gone h.sound hr he⟩
  · rintro ⟨he, hr⟩
    rcases kept_after h.sound he with he | hdead | hr'
    · exact he
    · simp [hbefore] at hdead
    · exact absurd hr' hr

theorem standing {m m' : Machine component} {past : List (Moment component)}
    (h : RunBy free m past m') (hs : m.state.Sound) {e : Registration} (he : e ∈ m.state.live) :
    Standing e past m'.state :=
  run_induction h (Standing e) (.of_live hs he) fun _ s cause hst =>
    hst.step (q := ⟨s, cause⟩)

section Visit

variable {m : Machine component} {b : Block} {e : Registration} {past : List (Moment component)}

theorem turn?_visit (hc : m.cause? = some (.resume (.visit b e))) :
    m.turn? = some (resume m.state (.visit b e)) := by
  simp only [Machine.turn?, Machine.moment?, hc]
  rfl

theorem Standing.visits (h : Standing e past m.state) (hb : b.asks = none)
    (hc : m.cause? = some (.resume (.visit b e))) (hr : ∀ q ∈ past, ¬removes q e)
    (ha : m.state.alive e.observer = true) : Visits m b e := by
  have hactive : m.state.registry.IsActive e := ⟨e, (h.there ha).mpr hr, rfl⟩
  have hsuits : b.Suits m.state e.observer := by simp [Block.Suits, hb]
  have hname := List.getElem?_eq_getElem h.known
  refine ⟨_, _, turn?_visit hc, congrArg (Option.map (·.name)) hname, ?_⟩
  simp only [resume, hactive, ha, hsuits, hname, and_self, if_true]
  exact ⟨rfl, rfl⟩

theorem Standing.skips (h : Standing e past m.state)
    (hc : m.cause? = some (.resume (.visit b e)))
    (hno : (∃ q ∈ past, removes q e) ∨ m.state.alive e.observer = false) : Skips m := by
  have hnot : ¬(m.state.registry.IsActive e ∧ m.state.alive e.observer ∧
      b.Suits m.state e.observer) := by
    rintro ⟨⟨f, hf, hft⟩, ha, -⟩
    rcases hno with ⟨q, hq, hr⟩ | hdead
    · exact (h.there ha).mp (h.same f hf hft ▸ hf) q hq hr
    · simp [ha] at hdead
  refine ⟨_, turn?_visit hc, ?_⟩
  rw [show resume m.state (.visit b e) = { state := m.state } from if_neg hnot]
  exact ⟨rfl, rfl, rfl⟩

end Visit

/-! ### The contract -/

section Contract

variable {x : ExecutionBy free initial} {b : Block}

theorem delivery_contract (x : ExecutionBy free initial) {b : Block} (h : Enumerates x.machine b) :
    Delivers x b := by
  have hsound : x.machine.state.Sound := sound x
  have horderly : x.machine.floor.Orderly := x.run.orderly (Machine.fresh_orderly _)
  have hstanding {e : Registration} (he : e ∈ x.machine.state.live)
      (y : ExecutionBy free x.machine) : Standing e y.past y.machine.state :=
    standing y.run hsound he
  refine {
    begins := ⟨_, Machine.step?_own h.control⟩
    goesOn := fun ms m' hw hd => ?_
    inTurn := fun ms m' hw => ?_
    finishes := fun ms m' hw hd => ?_
    only := fun ms m' hw c e he => ?_
    visits := fun e he y hc hr ha => (hstanding he y).visits h.plain hc hr ha
    skips := fun e he y hc hno => (hstanding he y).skips hc hno
    stays := fun e he y hr z hc => ?_
    takes := fun ms m' hw v =>
      ⟨taken_sublist_meant v _ ms, fun hv => hw.taken_serial horderly hv⟩
    ordered := fun ms m₁ hw _ y b' _ ns m₂ hw' v => hw.inTurn horderly y.run hw' v }
  · exact Machine.step?_of_stack (List.ne_nil_of_length_pos (Nat.zero_lt_of_lt hd))
  · obtain ⟨done, rest, hall, hhanded, -⟩ := h.within hw
    rw [hhanded, ← hall]
    exact ⟨blocks b rest, (List.map_append ..).symm⟩
  · obtain ⟨done, rest, hall, hhanded, hcalling | hcalled⟩ := h.within hw
    · exact absurd hcalling.height (Nat.not_lt_of_le hd)
    · cases hcalled with
      | returned _ hc hr =>
        subst hr
        exact .inl ⟨hc, by rw [hhanded, ← hall, List.append_nil]⟩
      | @thrown e _ hc he hdirect =>
        refine .inr ⟨hc, e, hdirect, ?_⟩
        rw [hhanded, blocks, List.getLast?_map, he]
        rfl
  · obtain ⟨done, rest, hall, hhanded, -⟩ := h.within hw
    obtain ⟨f, hf, hfe⟩ := List.mem_map.mp (hhanded ▸ he)
    cases hfe
    have hlive : e ∈ x.machine.state.live := hall ▸ List.mem_append_left rest hf
    exact ⟨hlive, rfl, hsound.registry.below e (Observers.mem_live.mp hlive).1⟩
  · obtain ⟨q, hq, hremoves⟩ := hr
    have hboth := hstanding he (y.andThen z)
    exact hboth.skips hc (.inl ⟨q, List.mem_append_left _ hq, hremoves⟩)

end Contract

/-- A block that has an observer run in line remove another one, and throws at that one. -/
def farewell : Block where
  tag := "farewell"
  asks := none
  script name := if name = "clerk" then [.own (.remove "guest")] else []
  throws name := name = "guest"

/-- A clerk is called in line and a guest on a serial context. -/
def parting : Execution initial :=
  ((ExecutionBy.begin initial).perform 8
    [.context (.make "line" .direct), .context (.make "queue" (.serial "queue")),
      .own (.create "clerk" false), .own (.create "guest" false),
      .own (.add "clerk" "line" "c"), .own (.add "guest" "queue" "g")]).request
    (.own (.callEach none farewell.tag farewell.script farewell.throws))

set_option maxRecDepth 8000 in
theorem delivery_contract_parting :
    parting.machine.state.live.map (·.context.place) = [.direct, .venue 0] ∧
    Delivers parting farewell := by
  have h : Enumerates parting.machine farewell := ⟨rfl, rfl⟩
  exact ⟨rfl, delivery_contract parting h⟩

end Conduit.Observer
