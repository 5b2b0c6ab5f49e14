import Conduit.Proofs.Dispatch.Parity
import Conduit.Proofs.Observer.Roll

/-!
An enumeration that asks for a capability does not give a block to the context of an observer that is
gone or lacks it. One that gives a block to every context, and has the block ask, comes to the same.
-/

namespace Conduit.Observer

open Dispatch

instance : IsEmpty component.Task := inferInstanceAs (IsEmpty Empty)

/-- A block that calls nobody now and will call nobody: its observer is gone, or lacks what is asked
for. -/
def Idle (s : Observers) : Frame → Prop
  | .visit b e => e.observer < s.subjects.length ∧ ¬(s.alive e.observer ∧ b.Suits s e.observer)
  | _ => False

/-- Enumerations give each of the blocks `P` to every context, as they do without a capability. -/
def asking (P : Block → Bool) (s : Observers) : Frame → Turn signature
  | .deliver b (e :: rest) =>
    if P b then { state := s, next := .perform e.context (.visit b e) [.deliver b rest] }
    else resume s (.deliver b (e :: rest))
  | f => resume s f

/-- The block of `P` that an enumeration does not give to the context it is for. -/
def spared? (P : Block → Bool) (s : Observers) : Frame → Option (Context × Frame × List Frame)
  | .deliver b (e :: rest) =>
    if P b ∧ b.asks.isSome ∧ ¬(s.alive e.observer ∧ b.Suits s e.observer) then
      some (e.context, .visit b e, [.deliver b rest])
    else none
  | _ => none

/-- What enumerations spare themselves of the blocks `P`. -/
def thrift (P : Block → Bool) : Thrift component where
  lavish := asking P
  spares? := spared? P
  idle := Idle

/-- Enumerations are to call observers that there have been. -/
def Known (s : Observers) : Frame → Prop
  | .deliver _ es => ∀ e ∈ es, e.observer < s.subjects.length
  | _ => True

/-- Everybody whom the set knows is one of those that there have been. -/
structure Familiar (c : Config component) : Prop where
  sound : c.state.Sound
  known : ∀ f ∈ c.frames, Known c.state f

theorem Known.mono {s s' : Observers} {f : Frame} (h : Known s f)
    (hs : s.subjects.length ≤ s'.subjects.length) : Known s' f := by
  cases f with
  | deliver b es => exact fun e he => Nat.lt_of_lt_of_le (h e he) hs
  | _ => trivial

theorem known_of_exec {view : View} {s : Observers} {a : Action} {f : Frame} (hs : s.Sound)
    (hf : f ∈ (exec view s a).next.left) : Known s f := by
  by_cases ha : ∃ asks tag script throws, a = .callEach asks tag script throws
  · obtain ⟨asks, tag, script, throws, rfl⟩ := ha
    obtain rfl := List.mem_singleton.mp hf
    exact fun e he => hs.entries e (Registry.mem_prune.mp he).1
  · have hnone : (exec view s a).next.left = [] := by
      cases a with
      | callEach asks tag script throws => exact absurd ⟨_, _, _, _, rfl⟩ ha
      | observe | drop | describe => rfl
      | _ =>
        simp only [exec]
        split <;> rfl
    rw [hnone] at hf
    cases hf

theorem known_of_resume {s : Observers} {f g : Frame} (hg : Known s g)
    (hf : f ∈ (resume s g).next.left) : Known s f := by
  cases g with
  | deliver b es =>
    cases es with
    | nil => cases hf
    | cons e es =>
      have hrest : Known s (.deliver b es) := fun e' he' => hg e' (List.mem_cons_of_mem e he')
      simp only [resume] at hf
      split at hf
      · obtain rfl := List.mem_singleton.mp hf
        exact hrest
      · simp only [Next.left, List.mem_cons, List.not_mem_nil, or_false] at hf
        rcases hf with rfl | rfl
        · trivial
        · exact hrest
  | visit b e =>
    simp only [resume] at hf
    split at hf
    · obtain rfl := List.mem_singleton.mp hf
      trivial
    · cases hf
  | release o => cases hf

/-- Whom an enumeration has still to call is known, if those are whom it was to call. -/
theorem known_left {q : Moment component} (hs : q.state.Sound)
    (hg : ∀ g, q.cause = .resume g → Known q.state g) {t : Turn signature} (ht : q.turn? = some t)
    {f : Frame} (hf : f ∈ t.next.left) : Known q.state f := by
  obtain ⟨s, cause⟩ := q
  cases cause with
  | exec view a =>
    cases ht
    exact known_of_exec hs hf
  | resume g =>
    cases ht
    exact known_of_resume (hg g rfl) hf
  | poll t => exact t.elim
  | unwind | tick => cases ht

/-- Observers keep what they are capable of. -/
theorem capable_stays {s s' : Observers} (h : s.subjects <+: s'.subjects) {o : Nat}
    (ho : o < s.subjects.length) : s'.capable o = s.capable o := by
  obtain ⟨l, hl⟩ := h
  unfold Observers.capable
  rw [← hl, List.getElem?_append_left ho]

/-- No observer changes, and new ones come behind those that there have been. -/
theorem subjects_after (q : Moment component) : q.state.subjects <+: (after q).subjects := by
  obtain ⟨s, cause⟩ := q
  cases cause with
  | exec view a =>
    cases a with
    | observe id views => exact List.prefix_append ..
    | add id context token =>
      simp only [after, exec]
      split <;> exact List.prefix_rfl
    | remove id =>
      simp only [after, exec]
      split <;> exact List.prefix_rfl
    | removeToken token =>
      simp only [after, exec]
      split <;> exact List.prefix_rfl
    | _ => exact List.prefix_rfl
  | resume f =>
    cases f with
    | deliver b es =>
      cases es with
      | nil => exact List.prefix_rfl
      | cons e es =>
        simp only [after, resume]
        split <;> exact List.prefix_rfl
    | visit b e =>
      simp only [after, resume]
      split <;> exact List.prefix_rfl
    | release o => exact List.prefix_rfl
  | unwind f => cases f <;> exact List.prefix_rfl
  | poll t => exact t.elim
  | tick => exact List.prefix_rfl

/-- What a step does to a state. -/
theorem step_induction {c c' : Config component} {cause : Option (Cause component)}
    (h : c.Step cause c') {R : Observers → Observers → Prop} (still : R c.state c.state)
    (moment : ∀ q : Moment component, q.state = c.state → R q.state (after q)) :
    R c.state c'.state := by
  cases cause with
  | none => exact h.state_eq.symm ▸ still
  | some cause =>
    rw [state_of_step h]
    exact moment ⟨c.state, cause⟩ rfl

theorem Familiar.step {c c' : Config component} {cause : Option (Cause component)} (h : Familiar c)
    (hstep : c.Step cause c') : Familiar c' := by
  obtain ⟨hsound, hlater⟩ : c'.state.Sound ∧ c.state.Later c'.state :=
    step_induction hstep (R := fun s s' => s'.Sound ∧ s.Later s') ⟨h.sound, .refl _⟩ fun q hq =>
      ⟨sound_after (hq ▸ h.sound), later_after (hq ▸ h.sound)⟩
  refine ⟨hsound, fun f hf => ?_⟩
  refine Known.mono ?_ hlater.subjects
  rcases hstep.mem_frames hf with hmem | ⟨q, hq, t, ht, hleft⟩
  · exact h.known f hmem
  · cases cause with
    | none => cases hq
    | some cause =>
      obtain rfl := List.mem_singleton.mp hq
      refine known_left h.sound (fun g hg => h.known g ?_) ht hleft
      cases hg
      cases hstep with
      | resume hn => simp [Config.frames, hn]

/-- Who is gone stays gone, and nobody comes by a capability. -/
theorem Idle.step {c c' : Config component} {cause : Option (Cause component)} {w : Frame}
    (h : Familiar c) (hstep : c.Step cause c') (hw : Idle c.state w) : Idle c'.state w := by
  obtain ⟨hlater, hsubjects⟩ : c.state.Later c'.state ∧ c.state.subjects <+: c'.state.subjects :=
    step_induction hstep (R := fun s s' => s.Later s' ∧ s.subjects <+: s'.subjects)
      ⟨.refl _, List.prefix_rfl⟩ fun q hq => ⟨later_after (hq ▸ h.sound), subjects_after q⟩
  cases w with
  | visit b e =>
    obtain ⟨hlt, hnot⟩ := hw
    refine ⟨Nat.lt_of_lt_of_le hlt hlater.subjects, fun ⟨halive, hsuits⟩ => hnot ⟨?_, ?_⟩⟩
    · by_contra hgone
      rw [hlater.gone e.observer hlt (Bool.eq_false_iff.mpr hgone)] at halive
      cases halive
    · simpa only [Block.Suits, capable_stays hsubjects hlt] using hsuits
  | deliver | release => exact hw.elim

theorem resume_of_spared? {P : Block → Bool} {s : Observers} {f w : Frame} {d : Context}
    {k : List Frame} (h : spared? P s f = some (d, w, k)) : ∃ b e rest, f = .deliver b (e :: rest) ∧
      P b = true ∧ (b.asks.isSome ∧ ¬(s.alive e.observer ∧ b.Suits s e.observer)) ∧ d = e.context ∧
      w = .visit b e ∧ k = [.deliver b rest] := by
  cases f with
  | deliver b es =>
    cases es with
    | nil => cases h
    | cons e rest =>
      simp only [spared?] at h
      split at h
      · rename_i hspared
        cases h
        exact ⟨b, e, rest, rfl, hspared.1, hspared.2, rfl, rfl, rfl⟩
      · cases h
  | visit | release => cases h

/-- Blocks that would call nobody, now or later, are all that is spared. -/
theorem thrift_sound (P : Block → Bool) : (thrift P).Sound Familiar where
  lavish := by
    intro s f h
    cases f with
    | deliver b es =>
      cases es with
      | nil => rfl
      | cons e rest =>
        show asking P s (.deliver b (e :: rest)) = resume s (.deliver b (e :: rest))
        by_cases hP : P b
        · have hnot : ¬(b.asks.isSome ∧ ¬(s.alive e.observer ∧ b.Suits s e.observer)) := fun hspared => by
            simp [thrift, spared?, hP, hspared] at h
          simp only [asking, resume, if_pos hP, if_neg hnot]
        · simp only [asking, if_neg hP]
    | visit | release => rfl
  given := by
    intro s f d w k h
    obtain ⟨b, e, rest, rfl, hP, -, rfl, rfl, rfl⟩ := resume_of_spared? h
    exact if_pos hP
  spared := by
    intro s f d w k h
    obtain ⟨b, e, rest, rfl, -, hspared, rfl, rfl, rfl⟩ := resume_of_spared? h
    exact if_pos hspared
  idle := by
    intro c f d w k hc hn h
    obtain ⟨b, e, rest, rfl, -, hspared, rfl, rfl, rfl⟩ := resume_of_spared? h
    have hknown := hc.known (.deliver b (e :: rest)) (by
      rw [Config.frames_next hn]
      exact List.mem_cons_self)
    exact ⟨hknown e List.mem_cons_self, hspared.2⟩
  resume := by
    intro s w h
    cases w with
    | visit b e => exact if_neg fun hcalls => h.2 hcalls.2
    | deliver | release => exact h.elim
  spares := by
    intro s w h
    cases w with
    | visit b e => rfl
    | deliver | release => exact h.elim
  unwind := by
    intro s w h
    cases w with
    | visit b e => rfl
    | deliver | release => exact h.elim
  lasts := fun hc hstep hw => hw.step hc hstep
  inv := Familiar.step

/-! ### What is told of runs -/

/-- The call of its observer that a block makes in a state, with the registration it is for. -/
def Block.call? (b : Block) (s : Observers) (e : Registration) : Option (Block × Registration) :=
  if s.registry.IsActive e ∧ s.alive e.observer ∧ b.Suits s e.observer then some (b, e) else none

/-- The call of an observer at a moment. -/
def call? (q : Moment component) : Option (Block × Registration) :=
  match q.cause with
  | .resume (.visit b e) => b.call? q.state e
  | _ => none

/-- The calls of observers in a run, oldest first. -/
def calls (deeds : List (Deed component)) : List (Block × Registration) :=
  deeds.filterMap fun
    | .moment q => call? q
    | .request _ => none

/-- A moment counts, unless it is that of a block that calls nobody. -/
def counts (q : Moment component) : Bool :=
  match q.cause with
  | .resume (.visit _ _) => (call? q).isSome
  | _ => true

theorem call?_of_not_counts {q : Moment component} (h : counts q = false) : call? q = none := by
  unfold counts at h
  split at h
  · simpa using h
  · cases h

theorem calls_heard (deeds : List (Deed component)) : calls (heard counts deeds) = calls deeds := by
  unfold calls heard
  rw [List.filterMap_filter]
  congr 1
  funext d
  cases d with
  | request op => rfl
  | moment q =>
    cases hq : counts q with
    | true => simp [hq]
    | false => simp [hq, call?_of_not_counts hq]

theorem not_counts_of_silent {P : Block → Bool} {q : Moment component} (h : (thrift P).Silent q) :
    counts q = false := by
  obtain ⟨w, hw, hidle⟩ := h
  obtain ⟨s, cause⟩ := q
  cases hw
  cases w with
  | visit b e =>
    have hnone : b.call? s e = none := if_neg fun hcalls => hidle.2 hcalls.2
    simp [counts, Observer.call?, hnone]
  | deliver | release => exact hidle.elim

/-- In two runs the same observers are called with the same blocks, on the same contexts and in the same
order, and all else that happens is the same. -/
structure Alike {r r' : Manner component} {spares? spares?' : Savings component}
    (x : Roaming r spares? initial) (y : Roaming r' spares?' initial) : Prop where
  calls : calls y.deeds = calls x.deeds
  heard : heard counts y.deeds = heard counts x.deeds
  state : y.machine.state = x.machine.state
  /-- Nothing is left to be done in the second run if nothing is left in the first one. -/
  settled : x.machine.advance? = none → y.machine.advance? = none

theorem Alike.of_heard {r r' : Manner component} {spares? spares?' : Savings component}
    {x : Roaming r spares? initial} {y : Roaming r' spares?' initial}
    (heard : Dispatch.heard counts y.deeds = Dispatch.heard counts x.deeds)
    (state : y.machine.state = x.machine.state)
    (settled : x.machine.advance? = none → y.machine.advance? = none) : Alike x y where
  calls := by rw [← calls_heard, heard, calls_heard]
  heard := heard
  state := state
  settled := settled

theorem initial_familiar : Familiar initial.config :=
  ⟨initial_sound, fun f hf => by simp [Config.frames, Machine.config, Machine.bare, initial] at hf⟩

/-- Enumerations that ask for a capability before they give a block to a context, and enumerations that
give each block of `P` to its context and have it ask there, come to the same: whatever the one does, the
other one can do. -/
theorem capable_contract (P : Block → Bool) :
    (∀ x : Roaming component.resume (spared? P) initial,
      ∃ y : Roaming (asking P) (spared? P) initial, Alike x y) ∧
    ∀ y : Roaming (asking P) (spared? P) initial,
      ∃ x : Roaming component.resume (spared? P) initial, Alike y x := by
  have hT := thrift_sound P
  have hp := fun q => not_counts_of_silent (P := P) (q := q)
  have ho : initial.floor.Orderly := Machine.fresh_orderly _
  constructor
  · intro x
    obtain ⟨b, hb, htarries⟩ := x.roams.lavish hT hp ho initial_familiar rfl .nil
    by_cases hx : x.machine.advance? = none
    · obtain ⟨b, ⟨deeds, hb, hheard⟩, htarries, hsettled⟩ :=
        htarries.finish hT hp hb (x.roams.orderly ho) ho hx
      exact ⟨⟨deeds, _, b, hb⟩, .of_heard hheard htarries.state_eq fun _ => hsettled⟩
    · obtain ⟨deeds, hb, hheard⟩ := hb
      exact ⟨⟨deeds, _, b, hb⟩, .of_heard hheard htarries.state_eq fun h => absurd h hx⟩
  · intro y
    obtain ⟨held, a, ⟨deeds, ha, hheard⟩, hleads⟩ :=
      y.roams.thrifty hT hp ho initial_familiar rfl .nil
    exact ⟨⟨deeds, held, a, ha⟩, .of_heard hheard hleads.state_eq.symm hleads.settled⟩

/-- The calls of observers when operations are called from the beginning, with the tags of the blocks. -/
def told (resume : Manner component) (ops : List (Op Action)) : Option (List (String × Nat)) :=
  (initial.perform? resume 40 ops).map fun run =>
    run.1.filterMap fun q => (call? q).map fun call => (call.1.tag, call.2.observer)

/-- The queue of two observers, of which the second one has a capability, is moved by one piece of work,
and the second one is removed before the rest runs. -/
def counted : List (Op Action) :=
  [.context (.make "queue" .manual), .own (.create "mute" false), .own (.create "keen" true),
    .own (.add "mute" "queue" "m"), .own (.add "keen" "queue" "k"),
    .own (.enumerate true "news" [] none), .context (.drain "queue" (some 1)), .own (.remove "keen"),
    .context (.drain "queue" none)]

/-- The observer on the one serial context has the last observer on the other one removed. -/
def crossed : List (Op Action) :=
  [.context (.make "left" (.serial "left")), .context (.make "right" (.serial "right")),
    .own (.create "mute" false), .own (.create "keen" true), .own (.create "rival" true),
    .own (.add "mute" "left" "m"), .own (.add "keen" "right" "k"), .own (.add "rival" "left" "r"),
    .own (.enumerate true "news" [("keen", [.own (.remove "rival")])] none)]

set_option maxRecDepth 8000 in
/-- Blocks that call nobody are counted as well when a queue is moved by a number, and they wake their
contexts. -/
theorem capable_apart :
    told component.resume counted = some [("news", 1)] ∧
    told (asking fun _ => true) counted = some [] ∧
    told component.resume crossed = some [("news", 1)] ∧
    told (asking fun _ => true) crossed = some [("news", 2), ("news", 1)] := by
  decide

end Conduit.Observer
