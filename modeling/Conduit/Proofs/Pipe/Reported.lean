import Conduit.Proofs.Dispatch.Frames
import Conduit.Proofs.Pipe.Stack

/-!
Reports on their way. A report is told when a turn leaves it to be delivered, so that a receiver who
is told of nothing is not called. A report to a direct context is called on the stack of its
request, which waits there for it.
-/

namespace Conduit.Pipe

open Dispatch Machine

/-- What an action does is done for no receiver that is there already. -/
theorem acts_exec {view : View} {s : Session} (a : Action) {k : Nat} (hk : k < s.receivers.length) :
    acts k (execDeeds view s a) = [] := by
  have hopened : acts k ((open? a).toList.map .opened) = [] := by
    cases open? a <;> rfl
  have hasked : acts k ((issue? view s a).toList.map fun i =>
      .asked s.receivers.length i.1 i.2) = [] := by
    cases issue? view s a <;> rfl
  have hreports : acts k (reports (exec view s a).next) = [] := by
    obtain ⟨hgrow, ⟨r, h⟩ | ⟨e, h⟩⟩ := exec_goes view s a
    · rw [h]
      rfl
    · rw [h]
      unfold report
      split
      · simp [reports, acts, Deed.act?, Nat.ne_of_gt hk]
      · simp [reports, acts, Deed.act?, Nat.ne_of_gt hk]
      · rfl
  simp [execDeeds, hopened, hasked, hreports]

/-- A report that is left to be delivered is the one that is told. -/
theorem reports_of_left {s : Session} {j k : Nat} {e e' : Event} {ks : List Frame}
    (hks : ∀ f ∈ ks, f.request?.isSome)
    (h : .deliver k e ∈ Next.left (report s j e' ks)) :
    reports (report s j e' ks) = [.told k e] := by
  have hno : .deliver k e ∉ ks := fun h => by simpa [Frame.request?] using hks _ h
  unfold report at h ⊢
  split at h
  · obtain ⟨rfl, rfl⟩ : k = j ∧ e = e' := by simpa [Next.left, hno] using h
    rfl
  · obtain ⟨rfl, rfl⟩ : k = j ∧ e = e' := by simpa [Next.left, hno] using h
    rfl
  · exact absurd h hno

theorem reports_of_goes {q : Moment component} {t : Turn signature} (h : Goes q t) {k : Nat}
    {e : Event} (hf : .deliver k e ∈ t.next.left) : reports t.next = [.told k e] := by
  cases h with
  | reply h | script h | again _ h =>
    rw [h] at hf
    simp [Next.left] at hf
  | refused h =>
    rw [h] at hf ⊢
    exact reports_of_left (by simp) hf
  | reports _ _ h =>
    rw [h] at hf ⊢
    exact reports_of_left (by simp [restOf_request?]) hf

/-- A turn that leaves a report has done so at its moment. -/
theorem told_of_left {q : Moment component} {t : Turn signature} (ht : q.turn? = some t) {k : Nat}
    {e : Event} (hf : .deliver k e ∈ t.next.left) : .told k e ∈ deedsAt q := by
  have htold : .told k e ∈ reports t.next := by
    rw [reports_of_goes (turn_goes ht) hf]
    exact List.mem_singleton_self _
  obtain ⟨s, cause⟩ := q
  cases cause with
  | exec view a =>
    obtain rfl : exec view s a = t := Option.some.inj ht
    exact List.mem_append_right _ htold
  | resume f =>
    obtain rfl : resume s f = t := Option.some.inj ht
    cases f with
    | serve r => exact List.mem_append_right _ htold
    | finish r => cases hf
    | deliver j e' =>
      obtain ⟨-, ⟨a, h⟩ | ⟨tag, ops, throws, h⟩⟩ := deliver_goes s j e' <;>
        simp [resume, h, reports] at htold
  | poll u =>
    obtain rfl : poll s u = t := Option.some.inj ht
    cases u with
    | request r => exact List.mem_append_right _ htold
    | collector j =>
      obtain ⟨-, a, h⟩ := collect_goes s j
      simp [h, reports] at htold
  | unwind | tick => cases ht

/-- What a request does at a moment and then reports. -/
theorem acts_serve {q : Moment component} {t : Turn signature} {r : Nat} (hr : requestOf q = some r)
    (ht : q.turn? = some t) {k : Nat} {e : Event} (hf : .deliver k e ∈ t.next.left) :
    ∃ us : List Use, acts k (deedsAt q) = us.map .use ++ [.tell e] := by
  have hserve : deedsAt q = serveDeeds q.state r ∧ t = serve q.state r := by
    obtain ⟨s, cause⟩ := q
    unfold requestOf at hr
    split at hr <;> cases hr
    all_goals
      rename_i h
      obtain rfl := h
      exact ⟨rfl, (Option.some.inj ht).symm⟩
  obtain ⟨hdeeds, rfl⟩ := hserve
  have hcrash (c : Prop) [Decidable c] (o : Option Nat) :
      acts k (if c then o.toList.map (.lost · false) else []) = [] := by
    split
    · exact acts_lost o
    · rfl
  obtain ⟨us, hus⟩ : ∃ us : List Use,
      acts k ((q.state.hub.uses Scripted.devices q.state.devices r).map
        (.used (receiver? q.state r))) = us.map .use := by
    cases receiver? q.state r with
    | none => exact ⟨[], acts_uses_none _⟩
    | some j =>
      rw [acts_uses]
      split
      · exact ⟨_, rfl⟩
      · exact ⟨[], rfl⟩
  refine ⟨us, ?_⟩
  rw [hdeeds, serveDeeds, reports_of_goes (turn_goes ht) hf, acts_append, acts_append, hus, hcrash,
    acts_told]
  simp

/-! ### Who is not called -/

section Unsent

variable {k : Nat}

/-- No report is on its way to a receiver. -/
def Unsent (k : Nat) (c : Config component) : Prop := ∀ e, .deliver k e ∉ c.frames

/-- Who is told of nothing gets no report on its way, and is not called. -/
theorem Unsent.step {c c' : Config component} {cause : Option (Cause component)} (h : Unsent k c)
    (hstep : c.Step cause c') (hacts : acts k (deeds (c.moment cause)) = []) :
    Unsent k c' ∧ ∀ e, cause ≠ some (.resume (.deliver k e)) := by
  refine ⟨fun e' hf => ?_, fun e' hcause => ?_⟩
  · obtain ⟨q, hq, t, ht, hleft⟩ := (hstep.mem_frames hf).resolve_left (h e')
    have hmem : .tell e' ∈ acts k (deeds (c.moment cause)) :=
      List.mem_filterMap.mpr ⟨_, List.mem_flatMap.mpr ⟨q, hq, told_of_left ht hleft⟩,
        by simp [Deed.act?]⟩
    simp [hacts] at hmem
  · subst hcause
    cases hstep with
    | resume hn => exact h e' (by simp [Config.frames, hn])

/-- Who is told of nothing is not called, unless a report has been on its way to him. -/
theorem Unsent.run {m₀ n : Machine component} {past : List (Moment component)}
    (h : Unsent k m₀.config) (hrun : Run m₀ past n) (hacts : acts k (deeds past) = []) :
    ∀ q ∈ past, ∀ e', q.cause ≠ .resume (.deliver k e') := by
  have hall := hrun.config_induction (fun past c => acts k (deeds past) = [] →
    Unsent k c ∧ ∀ q ∈ past, ∀ e', q.cause ≠ .resume (.deliver k e')) (fun _ => ⟨h, by simp⟩) ?_
  · exact (hall hacts).2
  intro past c cause c' ih hstep hacts
  rw [deeds_append, acts_append, List.append_eq_nil_iff] at hacts
  obtain ⟨hunsent, hpast⟩ := ih hacts.1
  obtain ⟨hunsent', hcause⟩ := hunsent.step hstep hacts.2
  refine ⟨hunsent', fun q hq e' hq' => ?_⟩
  rcases List.mem_append.mp hq with hq | hq
  · exact hpast q hq e' hq'
  · obtain ⟨a, ha, rfl⟩ := List.mem_map.mp hq
    exact hcause e' ((Option.mem_toList.mp ha).trans (congrArg some hq'))

end Unsent

/-! ### Calls on the stack of a request -/

/-- The last step of a run was one of the request `r`. It reports `e` to its receiver `k`, whose
callback is on a direct context. -/
structure Reported (x₀ x : Execution start) (r k : Nat) (e : Event) : Prop where
  turn : ∃ t c f last, x₀.machine.turn? = some t ∧ t.next = .perform c (.deliver k e) [f] ∧
    f.request? = some (r, last) ∧ c.place = .direct
  step : x₀.machine.advance? = some x.machine
  past : x.past = x₀.past ++ x₀.machine.moment?.toList

/-- A callback is called on the stack of its request. -/
structure OnStack (m : Machine component) (r k : Nat) (e : Event) (last : Bool) : Prop where
  stack : m.stack = [.own (.deliver k e), .own (restOf r last), .task]
  receiver : receiver? m.state r = some k
  direct : ∃ c, m.state.context? k = some c ∧ c.place = .direct

namespace Reported

variable {x₀ x : Execution start} {r k : Nat} {e : Event}

theorem onStack (h : Reported x₀ x r k e) : ∃ last, OnStack x.machine r k e last := by
  obtain ⟨t, c, f, last, ht, hn, hf, hc⟩ := h.turn
  obtain ⟨q, hq, hqt⟩ := Option.bind_eq_some_iff.mp ht
  obtain ⟨j, e', hw, hcontext, hrest⟩ := (turn_goes hqt).perform hn
  cases hw
  obtain ⟨r', last', -, hreceiver, hrest⟩ := hrest.resolve_left (by simp)
  obtain rfl : f = restOf r' last' := by simpa using hrest
  obtain ⟨rfl, rfl⟩ : r' = r ∧ last' = last := by simpa [restOf_request?] using hf
  obtain ⟨m, -, he⟩ := take_of_turn? ht h.step
  have hstack : x.machine.stack =
      .own (.deliver k e) :: .own (restOf r' last') :: (m.hear t).stack := by
    rw [he, take_perform hn]
    unfold handOver
    rw [hc]
    rfl
  have hstate : x.machine.state = t.state := by
    rw [he, take_perform hn]
    unfold handOver
    rw [hc]
    exact m.hear_state t
  have hlower : (m.hear t).stack = [.task] := by
    have hseat := seated x.run
    rw [hstack] at hseat
    cases last' <;> exact hseat.2.1
  exact ⟨last', hstack.trans (hlower ▸ rfl), hstate ▸ hreceiver, c, hstate ▸ hcontext, hc⟩

/-- The report is the last thing that the receiver got. -/
theorem acts_eq (h : Reported x₀ x r k e) :
    ∃ us : List Use, acts k (history x) = acts k (history x₀) ++ us.map .use ++ [.tell e] := by
  obtain ⟨t, c, f, last, ht, hn, -, -⟩ := h.turn
  obtain ⟨q, hq, hqt⟩ := Option.bind_eq_some_iff.mp ht
  obtain ⟨_, _, _, _, hrest⟩ := (turn_goes hqt).perform hn
  obtain ⟨_, _, hr, -⟩ := hrest.resolve_left (by simp)
  obtain ⟨us, hus⟩ := acts_serve hr hqt (k := k) (e := e) (by simp [hn, Next.left])
  refine ⟨us, ?_⟩
  rw [List.append_assoc, ← hus]
  simp [history, h.past, hq, deeds]

theorem events_eq (h : Reported x₀ x r k e) :
    events k (history x) = events k (history x₀) ++ [e] := by
  obtain ⟨us, hus⟩ := h.acts_eq
  have hnone : (us.map Act.use).filterMap (·.event?) = [] := by
    simp [List.filterMap_map, Act.event?]
  simp only [events, hus, List.filterMap_append, hnone, List.append_nil]
  rfl

end Reported

end Conduit.Pipe
