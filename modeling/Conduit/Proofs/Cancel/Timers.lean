import Conduit.Proofs.Cancel.Propagation
import Conduit.Proofs.Cancel.Tasks

/-!
Timers. A timer counts from the moment at which the reactor serves it first, which may be later than
the one at which it was armed. When its time has come it cancels its ticket, if somebody still refers
to that; it is no reference itself.
-/

namespace Conduit.Cancel

open Dispatch

/-- The reactor serves a task at this moment. -/
def serves (task : Task) (q : Moment component) : Bool :=
  match q.cause with
  | .poll t => t = task
  | _ => false

/-- The moment at which the reactor served a task first. -/
def firstServed? (task : Task) (past : List (Moment component)) : Option (Moment component) :=
  past.find? (serves task)

/-- After this past the timer `k`, which is to cancel `t` after `ms` milliseconds, has come to its time
when it is served at this moment. -/
structure Expires (past : List (Moment component)) (q : Moment component) (k t ms : Nat) : Prop where
  served : q.cause = .poll (.timer k)
  /-- It was armed at least `ms` milliseconds ago. -/
  armed : ∃ a ∈ past, Arms k t ms a ∧ a.state.clock + ms ≤ q.state.clock
  /-- It was served first at least `ms` milliseconds ago. -/
  counted : ∃ c, firstServed? (.timer k) (past ++ [q]) = some c ∧
    c.state.clock + ms ≤ q.state.clock

/-- After this past a ticket gets the reason of a timer at this moment, from one of its own or by way of
a link. -/
inductive TimesOut (past : List (Moment component)) (t : Nat) (q : Moment component) : Prop where
  | timer {k ms} (h : Expires past q k t ms)
  | link {u} (h : Passes u t .timeout q) (hr : q.state.reason? u = some .timeout)

/-- No timer is left whose time has come and that counts already. -/
def Tickets.Early (s : Tickets) : Prop :=
  ∀ z ∈ s.timers, z.finished = false → ∀ d ∈ z.due, s.clock < d

instance (s : Tickets) : Decidable s.Early :=
  inferInstanceAs (Decidable (∀ z ∈ s.timers, _ → _))

/-- A millisecond that passes at this moment leaves no timer behind. -/
def OnTime (q : Moment component) : Prop :=
  match q.cause with
  | .tick => q.state.Early
  | _ => True

instance (q : Moment component) : Decidable (OnTime q) :=
  match q with
  | ⟨s, .tick⟩ => inferInstanceAs (Decidable s.Early)
  | ⟨_, .exec _ _⟩ | ⟨_, .resume _⟩ | ⟨_, .unwind _⟩ | ⟨_, .poll _⟩ => .isTrue trivial

/-- Time passes only when all timers have been served whose time has come. -/
def Punctual (past : List (Moment component)) : Prop := ∀ q ∈ past, OnTime q

instance (past : List (Moment component)) : Decidable (Punctual past) := List.decidableBAll ..

/-! ### Where a timer stands -/

/-- What the past says of the timer `k` that stands as `z`. -/
inductive Timed (past : List (Moment component)) (s : Tickets) (k : Nat) (z : Timer) : Prop where
  /-- It has not been served yet. -/
  | fresh {a} (ha : a ∈ past) (harms : Arms k z.ticket z.ms a)
      (hfirst : firstServed? (.timer k) past = none) (hdue : z.due = none)
      (hf : z.finished = false)
  /-- It counts from the moment at which it was served first. -/
  | counting {a c} (ha : a ∈ past) (harms : Arms k z.ticket z.ms a)
      (hac : a.state.clock ≤ c.state.clock) (hfirst : firstServed? (.timer k) past = some c)
      (hdue : z.due = some (c.state.clock + z.ms)) (hf : z.finished = false)
  /-- Its time has come. -/
  | expired {a c} (ha : a ∈ past) (harms : Arms k z.ticket z.ms a)
      (hac : a.state.clock ≤ c.state.clock) (hfirst : firstServed? (.timer k) past = some c)
      (hf : z.finished = true) (hclock : c.state.clock + z.ms ≤ s.clock)
      (hdone : s.Alive z.ticket → s.reason? z.ticket ≠ none)

theorem firstServed?_append {task : Task} {past later : List (Moment component)} :
    firstServed? task (past ++ later) =
      (firstServed? task past).or (firstServed? task later) :=
  List.find?_append

theorem firstServed?_eq_none {task : Task} {later : List (Moment component)}
    (h : ∀ q ∈ later, serves task q = false) : firstServed? task later = none :=
  List.find?_eq_none.mpr fun q hq => by simp [h q hq]

theorem serves_iff {task : Task} {q : Moment component} :
    serves task q = true ↔ q.cause = .poll task := by
  obtain ⟨s, cause⟩ := q
  cases cause <;> simp [serves]

namespace Timed

variable {past : List (Moment component)} {s s' : Tickets} {k : Nat} {z : Timer}

/-- Nothing is done with the timer. -/
theorem later {later : List (Moment component)} (h : Timed past s k z)
    (hq : ∀ q ∈ later, serves (.timer k) q = false)
    (hclock : s.clock ≤ s'.clock)
    (hdone : (s.Alive z.ticket → s.reason? z.ticket ≠ none) →
      s'.Alive z.ticket → s'.reason? z.ticket ≠ none) : Timed (past ++ later) s' k z := by
  cases h with
  | fresh ha harms hfirst hdue hf =>
    refine .fresh (List.mem_append_left _ ha) harms ?_ hdue hf
    rw [firstServed?_append, hfirst, firstServed?_eq_none hq]
    rfl
  | counting ha harms hac hfirst hdue hf =>
    refine .counting (List.mem_append_left _ ha) harms hac ?_ hdue hf
    rw [firstServed?_append, hfirst]
    rfl
  | expired ha harms hac hfirst hf hc hd =>
    refine .expired (List.mem_append_left _ ha) harms hac ?_ hf (Nat.le_trans hc hclock) (hdone hd)
    rw [firstServed?_append, hfirst]
    rfl

/-- A timer that is served counts from now, or from when it was served first. -/
theorem served (h : Timed past s k z) (hbefore : ∀ q ∈ past, q.state.clock ≤ s.clock)
    (hf : z.finished = false) : ∃ a c, a ∈ past ∧ Arms k z.ticket z.ms a ∧
      a.state.clock ≤ c.state.clock ∧ c.state.clock ≤ s.clock ∧
      firstServed? (.timer k) (past ++ [⟨s, .poll (.timer k)⟩]) = some c ∧
      z.due.getD (s.clock + z.ms) = c.state.clock + z.ms := by
  cases h with
  | @fresh a ha harms hfirst hdue =>
    refine ⟨a, ⟨s, .poll (.timer k)⟩, ha, harms, hbefore a ha, Nat.le_refl _, ?_, by simp [hdue]⟩
    rw [firstServed?_append, hfirst]
    simp [firstServed?, serves]
  | @counting a c ha harms hac hfirst hdue =>
    refine ⟨a, c, ha, harms, hac, hbefore c (List.mem_of_find?_eq_some hfirst), ?_, by simp [hdue]⟩
    rw [firstServed?_append, hfirst]
    rfl
  | expired _ _ _ _ hfin =>
    rw [hf] at hfin
    cases hfin

end Timed

/-! ### What a run keeps -/

/-- Where time and timers stand after this past. -/
structure Clocked (past : List (Moment component)) (c : Config component) : Prop
    extends Traced past c where
  before : ∀ q ∈ past, q.state.clock ≤ c.state.clock
  awake : ∀ k, .timer k ∈ c.ready → k < c.state.timers.length
  served : ∀ q ∈ past, ∀ k, q.cause = .poll (.timer k) → k < c.state.timers.length
  listed : ∀ a ∈ past, ∀ k t ms, Arms k t ms a →
    ∃ z, c.state.timers[k]? = some z ∧ z.ticket = t ∧ z.ms = ms
  timed : ∀ k z, c.state.timers[k]? = some z → Timed past c.state k z
  prompt : Punctual past → ∀ z ∈ c.state.timers, z.finished = false →
    ∀ d ∈ z.due, c.state.clock ≤ d
  timeout : ∀ t, c.state.reason? t = some .timeout → ∃ past₁ q past₂, past = past₁ ++ q :: past₂ ∧
    q.state.reason? t = none ∧ q.after.reason? t = some .timeout ∧ TimesOut past₁ t q

section Steps

variable {past : List (Moment component)} {c c' : Config component}
  {cause : Option (Cause component)}

/-- An action that arms a timer adds it to the others. -/
theorem timers_of_arms {q : Moment component} {k t ms : Nat} (h : Arms k t ms q) :
    k = q.state.timers.length ∧ q.after.timers = q.state.timers ++ [{ ticket := t, ms }] := by
  cases h with
  | cancelAfter hk h => exact ⟨hk, by simp [Moment.after, exec, h, Tickets.addTimer]⟩
  | timeout hk ht =>
    subst ht
    exact ⟨hk, rfl⟩

/-- After a step the state is what the component has made of it. -/
theorem after_of_step {cause : Cause component} (h : c.Step (some cause) c') :
    c'.state = (Moment.mk c.state cause).after := by
  rcases h.state_cases with h | ⟨_, _, _, _, _, _, _, _, h⟩
  · exact h
  · exact h

theorem mem_moment {q : Moment component} : q ∈ c.moment cause ↔
    ∃ cause', cause = some cause' ∧ q = ⟨c.state, cause'⟩ := by
  cases cause <;> simp [Config.moment]

/-- What a step does to time and timers, unless a timer is served. -/
structure Ages (c : Config component) (qs : List (Moment component)) (s : Tickets)
    (ready : List Task) : Prop where
  clock : s.clock = c.state.clock ∨ ⟨c.state, .tick⟩ ∈ qs ∧ s.clock = c.state.clock + 1
  timers : s.timers = c.state.timers ∨ ∃ t ms, ∃ q ∈ qs,
    Arms c.state.timers.length t ms q ∧ s.timers = c.state.timers ++ [{ ticket := t, ms }]
  awake : ∀ k, .timer k ∈ ready → .timer k ∈ c.ready ∨ k < s.timers.length

theorem Ages.still {qs : List (Moment component)} : Ages c qs c.state c.ready :=
  ⟨.inl rfl, .inl rfl, fun _ hk => .inl hk⟩

theorem Ages.onward {q : Moment component} {w : Turn signature} (hq : q.state = c.state)
    (hw : Onward q w) : Ages c [q] w.state (woken c.ready w.wakes) := by
  refine ⟨.inl (hw.clock.trans (by rw [hq])), ?_, fun k hk => ?_⟩
  · rw [← hq]
    rcases hw.timers with he | ⟨t, ms, harms, -, he, -⟩
    · exact .inl he
    · exact .inr ⟨t, ms, q, List.mem_singleton.mpr rfl, harms, he⟩
  · exact (mem_woken.mp hk).imp_right (hw.wakes k)

/-- A waiter is served. -/
theorem poll_waiter (s : Tickets) (k : Nat) : (poll s (.waiter k)).state.clock = s.clock ∧
    (poll s (.waiter k)).state.timers = s.timers ∧ (poll s (.waiter k)).wakes = [] := by
  simp only [poll]
  split
  · exact ⟨rfl, rfl, rfl⟩
  · split <;> exact ⟨rfl, rfl, rfl⟩

/-- The timers that a millisecond wakes are there. -/
theorem lt_of_mem_tick {s : Tickets} {k : Nat} (h : .timer k ∈ (tick s).2) : k < s.timers.length := by
  obtain ⟨⟨z, j⟩, hz, hif⟩ := List.mem_filterMap.mp h
  have hj := (List.getElem?_eq_some_iff.mp (List.mk_mem_zipIdx_iff_getElem?.mp hz)).1
  dsimp only at hif
  split at hif
  · split at hif
    · cases hif
      exact hj
    · cases hif
  · cases hif

theorem ages_step (hs : c.state.Housed) (h : c.Step cause c')
    (hp : ∀ k, cause ≠ some (.poll (.timer k))) : Ages c (c.moment cause) c'.state c'.ready := by
  cases h with
  | still hf =>
    rw [hf.state_eq, hf.ready_eq]
    exact .still
  | exec hn ht =>
    obtain ⟨hstate, hready⟩ := takes_woken ht hn
    rw [hstate, hready]
    exact .onward rfl (.exec hs _ _)
  | @resume f _ hn ht =>
    obtain ⟨hstate, hready⟩ := takes_woken ht rfl
    rw [hstate, hready]
    exact .onward (q := ⟨c.state, .resume f⟩) rfl (.resume f)
  | unwind hn hk hf =>
    subst hf
    exact .still
  | @poll task ts _ hn hk hr ht =>
    cases task with
    | timer k => exact absurd rfl (hp k)
    | waiter k =>
      obtain ⟨hstate, hready⟩ := takes_woken ht hn
      obtain ⟨hclock, htimers, hwakes⟩ := poll_waiter c.state k
      rw [hstate, hready, hwakes]
      refine ⟨.inl hclock, .inl htimers, fun j hj => .inl ?_⟩
      rw [hr]
      exact List.mem_cons_of_mem _ ((mem_woken.mp hj).resolve_right List.not_mem_nil)
  | tick hn =>
    refine ⟨.inr ⟨List.mem_singleton.mpr rfl, rfl⟩, .inl rfl, fun k hk => ?_⟩
    exact (mem_woken.mp hk).imp_right fun hk => lt_of_mem_tick (s := c.state) hk
  | begin hn hv => exact .still
  | opened hn hf =>
    rw [hf.state_eq, hf.ready_eq]
    exact .still

/-- A timer that is served goes on counting from where it began, or has come to its time. -/
inductive Polled (s : Tickets) (z : Timer) (s' : Tickets) : Timer → Prop where
  | past (hf : z.finished = true) : Polled s z s' z
  | expired (hf : z.finished = false) (hdue : z.due.getD (s.clock + z.ms) ≤ s.clock)
      (hdone : s.Alive z.ticket → s'.reason? z.ticket ≠ none) :
      Polled s z s' { z with finished := true }
  | counting (hf : z.finished = false) (hdue : s.clock < z.due.getD (s.clock + z.ms)) :
      Polled s z s' { z with due := some (z.due.getD (s.clock + z.ms)) }

theorem reason?_cancel {s : Tickets} {t : Nat} {r : Reason} {k : List Frame}
    (hlt : t < s.tickets.length) : (cancel s t r k).state.reason? t ≠ none := by
  unfold cancel
  split
  · rename_i hr
    simp [hr]
  · dsimp only
    rw [reason?_settle_self hlt]
    simp

/-- What a timer that is served does. -/
theorem poll_timer {s : Tickets} {k : Nat} {z : Timer} (hz : s.timers[k]? = some z)
    (hlt : z.ticket < s.tickets.length) : ∃ z', Polled s z (poll s (.timer k)).state z' ∧
      (poll s (.timer k)).state.timers = s.timers.set k z' ∧
      (poll s (.timer k)).state.clock = s.clock ∧
      ∀ j, .timer j ∉ (poll s (.timer k)).wakes := by
  simp only [poll, hz]
  split
  · rename_i hf
    refine ⟨z, .past hf, ?_, rfl, by simp⟩
    obtain ⟨hk, rfl⟩ := List.getElem?_eq_some_iff.mp hz
    exact (List.set_getElem_self hk).symm
  · rename_i hf
    have hf : z.finished = false := by simpa using hf
    split
    · rename_i hdue
      unfold expire
      dsimp only
      split
      · rename_i halive
        have honward : Onward ⟨{ s with timers := s.timers.set k { z with finished := true } },
          .poll (.timer k)⟩ (cancel { s with timers := s.timers.set k { z with finished := true } }
            z.ticket .timeout []) := .cancel ..
        refine ⟨_, .expired hf hdue fun _ => reason?_cancel hlt, ?_, honward.clock, fun j hj => ?_⟩
        · unfold cancel
          split <;> rfl
        · unfold cancel at hj
          split at hj
          · simp at hj
          · obtain ⟨i, w, he, -⟩ := mem_waitersOf.mp hj
            cases he
      · rename_i halive
        exact ⟨_, .expired hf hdue fun h => absurd h halive, rfl, rfl, by simp⟩
    · rename_i hdue
      exact ⟨_, .counting hf (Nat.lt_of_not_le hdue), rfl, rfl, by simp⟩

/-- Only time makes timers late. -/
theorem early_step (hs : c.state.Housed) (h : c.Step cause c') (ht : cause ≠ some .tick)
    (he : c.state.Early) : c'.state.Early := by
  by_cases hp : ∃ k, cause = some (.poll (.timer k))
  · obtain ⟨k, rfl⟩ := hp
    have hstate : c'.state = (Cancel.poll c.state (.timer k)).state := after_of_step h
    cases hk : c.state.timers[k]? with
    | none => rwa [hstate, show (Cancel.poll c.state (.timer k)).state = c.state by simp [poll, hk]]
    | some z =>
      have hz := List.mem_of_getElem? hk
      obtain ⟨z', hpolled, htimers, hclock, -⟩ := poll_timer hk (hs.timers z hz)
      rw [hstate]
      intro y hy hf d hd
      rw [htimers] at hy
      rw [hclock]
      rcases List.mem_or_eq_of_mem_set hy with hy | rfl
      · exact he y hy hf d hd
      · cases hpolled with
        | past _ => exact he _ hz hf d hd
        | expired => cases hf
        | counting _ hdue =>
          cases hd
          exact hdue
  · have hages := ages_step hs h fun k hk => hp ⟨k, hk⟩
    have hclock : c'.state.clock = c.state.clock := by
      refine hages.clock.resolve_right fun hticked => ?_
      obtain ⟨cause, rfl, he⟩ := mem_moment.mp hticked.1
      cases he
      exact ht rfl
    intro y hy hf d hd
    rw [hclock]
    rcases hages.timers with htimers | ⟨t, ms, -, -, -, htimers⟩
    · exact he y (htimers ▸ hy) hf d hd
    · rcases List.mem_append.mp (htimers ▸ hy) with hy | hy
      · exact he y hy hf d hd
      · rw [List.mem_singleton.mp hy] at hd
        cases hd

namespace Clocked

/-- A timer that cancels its ticket has come to its time. -/
theorem expires (hc : Clocked past c) {k t : Nat} (h : expires? c.state k = some t) :
    ∃ ms, Expires past ⟨c.state, .poll (.timer k)⟩ k t ms := by
  obtain ⟨z, hz, rfl⟩ := Option.map_eq_some_iff.mp h
  obtain ⟨hk, hdue⟩ := Option.filter_eq_some_iff.mp hz
  simp only [decide_eq_true_eq] at hdue
  obtain ⟨a, d, ha, harms, had, -, hfirst, hcount⟩ := (hc.timed k z hk).served hc.before hdue.1
  rw [hcount] at hdue
  exact ⟨z.ms, rfl, ⟨a, ha, harms, by dsimp only; omega⟩, d, hfirst, hdue.2.1⟩

/-- Whoever gets the reason of a timer gets it from one of its own or by way of a link. -/
theorem timeout_step (hc : Clocked past c) (h : c.Step cause c') {t : Nat}
    (ht : c'.state.reason? t = some .timeout) :
    ∃ past₁ q past₂, past ++ c.moment cause = past₁ ++ q :: past₂ ∧ q.state.reason? t = none ∧
      q.after.reason? t = some .timeout ∧ TimesOut past₁ t q := by
  have hold (ht : c.state.reason? t = some .timeout) :
      ∃ past₁ q past₂, past ++ c.moment cause = past₁ ++ q :: past₂ ∧ q.state.reason? t = none ∧
        q.after.reason? t = some .timeout ∧ TimesOut past₁ t q := by
    obtain ⟨past₁, q, past₂, rfl, hq⟩ := hc.timeout t ht
    exact ⟨past₁, q, past₂ ++ c.moment cause, by simp, hq⟩
  rcases reason_step hc.tied.shape h ht with ht | ⟨q, hq, hstate, hcause⟩
  · exact hold ht
  · cases hnone : c.state.reason? t with
    | some r =>
      have hstays : c'.state.reason? t = some r := (hc.tied.shape.moves h).2.stays hnone
      obtain rfl : r = .timeout := Option.some.inj (hstays.symm.trans ht)
      exact hold hnone
    | none =>
      cases cause with
      | none => simp [Config.moment] at hq
      | some cause =>
        obtain rfl : q = ⟨c.state, cause⟩ := by simpa [Config.moment] using hq
        refine ⟨past, ⟨c.state, cause⟩, [], rfl, hnone, after_of_step h ▸ ht, ?_⟩
        rcases hcause with hend | ⟨u, hp⟩
        · cases hend with
          | timeout hexp =>
            obtain ⟨ms, hms⟩ := hc.expires hexp
            exact .timer hms
        · exact .link hp (bond_of_passes hc.tied hc.sound h hq hp).2

/-- What has been done with a ticket stays done. -/
theorem done_step (hc : Clocked past c) (h : c.Step cause c') {t : Nat}
    (hlt : t < c.state.tickets.length) (hdone : c.state.Alive t → c.state.reason? t ≠ none)
    (halive : c'.state.Alive t) : c'.state.reason? t ≠ none := by
  obtain ⟨r, hr⟩ := Option.ne_none_iff_exists'.mp (hdone (alive_step hlt h halive))
  have hstays : c'.state.reason? t = some r := (hc.tied.shape.moves h).2.stays hr
  simp [hstays]

/-- A step in which no timer is served. -/
theorem age (hc : Clocked past c) (h : c.Step cause c')
    (hp : ∀ k, cause ≠ some (.poll (.timer k))) : Clocked (past ++ c.moment cause) c' := by
  have hages := ages_step hc.tied.shape.housed h hp
  have hclock : c.state.clock ≤ c'.state.clock := by
    rcases hages.clock with he | ⟨-, he⟩ <;> omega
  have hlen : c.state.timers.length ≤ c'.state.timers.length := by
    rcases hages.timers with he | ⟨t, ms, -, -, -, he⟩ <;> simp [he]
  have hserves (k : Nat) : ∀ q ∈ c.moment cause, serves (.timer k) q = false := fun q hq => by
    rw [Bool.eq_false_iff, Ne, serves_iff]
    rintro hk
    obtain ⟨cause, rfl, rfl⟩ := mem_moment.mp hq
    exact hp k (congrArg some hk)
  have hgetElem {k : Nat} {z : Timer} (hk : c'.state.timers[k]? = some z) :
      c.state.timers[k]? = some z ∨ ∃ q ∈ c.moment cause, k = c.state.timers.length ∧
        Arms k z.ticket z.ms q ∧ z.due = none ∧ z.finished = false := by
    rcases hages.timers with he | ⟨t, ms, q, hq, harms, he⟩
    · exact .inl (he ▸ hk)
    · rw [he] at hk
      rcases getElem?_concat_cases hk with hk | ⟨rfl, rfl⟩
      · exact .inl hk
      · exact .inr ⟨q, hq, rfl, harms, rfl, rfl⟩
  refine ⟨hc.toTraced.step h, fun q hq => ?_, fun k hk => ?_, fun q hq k hk => ?_,
    fun a ha k t ms harms => ?_, fun k z hz => ?_, fun hpunctual z hz hf d hd => ?_,
    fun t ht => hc.timeout_step h ht⟩
  · rcases List.mem_append.mp hq with hq | hq
    · exact Nat.le_trans (hc.before q hq) hclock
    · obtain ⟨cause, -, rfl⟩ := mem_moment.mp hq
      exact hclock
  · rcases hages.awake k hk with hk | hk
    · exact Nat.lt_of_lt_of_le (hc.awake k hk) hlen
    · exact hk
  · rcases List.mem_append.mp hq with hq | hq
    · exact Nat.lt_of_lt_of_le (hc.served q hq k hk) hlen
    · have := hserves k q hq
      rw [serves_iff.mpr hk] at this
      cases this
  · rcases List.mem_append.mp ha with ha | ha
    · obtain ⟨z, hz, hzt⟩ := hc.listed a ha k t ms harms
      refine ⟨z, ?_, hzt⟩
      rcases hages.timers with he | ⟨u, ms', -, -, -, he⟩
      · rwa [he]
      · rwa [he, List.getElem?_append_left (List.getElem?_eq_some_iff.mp hz).1]
    · obtain ⟨cause, rfl, rfl⟩ := mem_moment.mp ha
      obtain ⟨rfl, htimers⟩ := timers_of_arms harms
      rw [after_of_step h, htimers]
      exact ⟨_, List.getElem?_concat_length, rfl, rfl⟩
  · rcases hgetElem hz with hz | ⟨q, hq, rfl, harms, hdue, hf⟩
    · have hlt := hc.tied.shape.housed.timers z (List.mem_of_getElem? hz)
      exact (hc.timed k z hz).later (hserves k) hclock fun hdone => hc.done_step h hlt hdone
    · refine .fresh (List.mem_append_right _ hq) harms ?_ hdue hf
      refine firstServed?_eq_none fun q hq => ?_
      rcases List.mem_append.mp hq with hq | hq
      · rw [Bool.eq_false_iff, Ne, serves_iff]
        exact fun hk => Nat.lt_irrefl _ (hc.served q hq _ hk)
      · exact hserves _ q hq
  · obtain ⟨k, hk⟩ := List.mem_iff_getElem?.mp hz
    rcases hgetElem hk with hk | ⟨-, -, -, -, hdue, -⟩
    · have hz := List.mem_of_getElem? hk
      rcases hages.clock with he | ⟨hq, he⟩
      · have := hc.prompt (fun q hq => hpunctual q (List.mem_append_left _ hq)) z hz hf d hd
        omega
      · have hearly : c.state.Early := hpunctual _ (List.mem_append_right _ hq)
        have := hearly z hz hf d hd
        omega
    · simp [hdue] at hd

/-- A timer that is served stands as it should afterwards. -/
theorem timed_poll (hc : Clocked past c) {k : Nat} {z z' : Timer} {s' : Tickets}
    (hz : c.state.timers[k]? = some z) (hp : Polled c.state z s' z')
    (hclock : c.state.clock ≤ s'.clock) (hdone : ∀ t, t < c.state.tickets.length →
      (c.state.Alive t → c.state.reason? t ≠ none) → s'.Alive t → s'.reason? t ≠ none)
    (halive : s'.Alive z.ticket → c.state.Alive z.ticket) :
    Timed (past ++ [⟨c.state, .poll (.timer k)⟩]) s' k z' := by
  have hlt := hc.tied.shape.housed.timers z (List.mem_of_getElem? hz)
  have htimed := hc.timed k z hz
  cases hp with
  | past hf =>
    cases htimed with
    | fresh _ _ _ _ hno =>
      rw [hf] at hno
      cases hno
    | counting _ _ _ _ _ hno =>
      rw [hf] at hno
      cases hno
    | expired ha harms hac hfirst _ hcount hd =>
      refine .expired (List.mem_append_left _ ha) harms hac ?_ hf (Nat.le_trans hcount hclock)
        (hdone _ hlt hd)
      rw [firstServed?_append, hfirst]
      rfl
  | expired hf hdue hd =>
    obtain ⟨a, d, ha, harms, had, -, hfirst, hcount⟩ := htimed.served hc.before hf
    rw [hcount] at hdue
    exact .expired (List.mem_append_left _ ha) harms had hfirst rfl (Nat.le_trans hdue hclock)
      fun h => hd (halive h)
  | counting hf hdue =>
    obtain ⟨a, d, ha, harms, had, -, hfirst, hcount⟩ := htimed.served hc.before hf
    exact .counting (List.mem_append_left _ ha) harms had hfirst (congrArg some hcount) hf

/-- A step in which a timer is served. -/
theorem poll (hc : Clocked past c) {k : Nat} (h : c.Step (some (.poll (.timer k))) c') :
    Clocked (past ++ [⟨c.state, .poll (.timer k)⟩]) c' := by
  have hready : .timer k ∈ c.ready ∧ ∀ task ∈ c'.ready, task ∈ c.ready ∨
      task ∈ (Cancel.poll c.state (.timer k)).wakes := by
    cases h with
    | poll hn hk hr ht =>
      refine ⟨hr ▸ List.mem_cons_self, fun task htask => ?_⟩
      rw [(takes_woken ht hn).2] at htask
      exact (mem_woken.mp htask).imp_left fun htask => hr ▸ List.mem_cons_of_mem _ htask
  have hlt := hc.awake k hready.1
  obtain ⟨z, hz⟩ : ∃ z, c.state.timers[k]? = some z := ⟨_, List.getElem?_eq_getElem hlt⟩
  have hhouse := hc.tied.shape.housed.timers z (List.mem_of_getElem? hz)
  obtain ⟨z', hpolled, htimers, hclock, hwakes⟩ := poll_timer hz hhouse
  have hstate : c'.state = (Cancel.poll c.state (.timer k)).state := after_of_step h
  rw [← hstate] at hpolled htimers hclock
  have hsame : z'.ticket = z.ticket ∧ z'.ms = z.ms := by cases hpolled <;> exact ⟨rfl, rfl⟩
  have hlen : c'.state.timers.length = c.state.timers.length := by simp [htimers]
  have hserves {j : Nat} (hj : k ≠ j) :
      ∀ q ∈ [(⟨c.state, .poll (.timer k)⟩ : Moment component)], serves (.timer j) q = false := by
    simp [serves, hj]
  have hgetElem {j : Nat} {y : Timer} (hj : c'.state.timers[j]? = some y) :
      j = k ∧ y = z' ∨ k ≠ j ∧ c.state.timers[j]? = some y := by
    rw [htimers] at hj
    by_cases hkj : k = j
    · subst hkj
      rw [List.getElem?_set_self hlt] at hj
      exact .inl ⟨rfl, (Option.some.inj hj).symm⟩
    · rw [List.getElem?_set_ne hkj] at hj
      exact .inr ⟨hkj, hj⟩
  refine ⟨hc.toTraced.step h, fun q hq => ?_, fun j hj => ?_, fun q hq j hj => ?_,
    fun a ha j t ms harms => ?_, fun j y hy => ?_, fun hpunctual y hy hf d hd => ?_,
    fun t ht => hc.timeout_step h ht⟩
  · rw [hclock]
    rcases List.mem_append.mp hq with hq | hq
    · exact hc.before q hq
    · obtain rfl := List.mem_singleton.mp hq
      exact Nat.le_refl _
  · rw [hlen]
    rcases hready.2 _ hj with hj | hj
    · exact hc.awake j hj
    · exact absurd hj (hwakes j)
  · rw [hlen]
    rcases List.mem_append.mp hq with hq | hq
    · exact hc.served q hq j hj
    · rw [List.mem_singleton.mp hq] at hj
      cases hj
      exact hlt
  · rcases List.mem_append.mp ha with ha | ha
    · obtain ⟨y, hy, hyt⟩ := hc.listed a ha j t ms harms
      rw [htimers]
      by_cases hkj : k = j
      · subst hkj
        obtain rfl : z = y := Option.some.inj (hz.symm.trans hy)
        exact ⟨z', List.getElem?_set_self hlt, hsame.1.trans hyt.1, hsame.2.trans hyt.2⟩
      · exact ⟨y, by rwa [List.getElem?_set_ne hkj], hyt⟩
    · rw [List.mem_singleton.mp ha] at harms
      cases harms
  · rcases hgetElem hy with ⟨rfl, rfl⟩ | ⟨hj, hy⟩
    · exact hc.timed_poll hz hpolled (Nat.le_of_eq hclock.symm)
        (fun t hlt hdone => hc.done_step h hlt hdone) (alive_step hhouse h)
    · have hlt := hc.tied.shape.housed.timers y (List.mem_of_getElem? hy)
      exact (hc.timed j y hy).later (hserves hj) (Nat.le_of_eq hclock.symm) fun hdone =>
        hc.done_step h hlt hdone
  · replace hpunctual : Punctual past := fun q hq => hpunctual q (List.mem_append_left _ hq)
    obtain ⟨j, hj⟩ := List.mem_iff_getElem?.mp hy
    rw [hclock]
    rcases hgetElem hj with ⟨rfl, rfl⟩ | ⟨-, hj⟩
    · cases hpolled with
      | past _ => exact hc.prompt hpunctual _ (List.mem_of_getElem? hz) hf d hd
      | expired => cases hf
      | counting _ hdue =>
        cases hd
        exact Nat.le_of_lt hdue
    · exact hc.prompt hpunctual y (List.mem_of_getElem? hj) hf d hd

theorem step (hc : Clocked past c) (h : c.Step cause c') : Clocked (past ++ c.moment cause) c' := by
  by_cases hp : ∃ k, cause = some (.poll (.timer k))
  · obtain ⟨k, rfl⟩ := hp
    exact hc.poll h
  · exact hc.age h fun k hk => hp ⟨k, hk⟩

end Clocked

end Steps

/-- Every run keeps account of its timers. -/
theorem clocked (x : Execution initial) : Clocked x.past x.machine.config := by
  refine x.run.config_induction Clocked ?_ fun past c cause c' hc hstep => hc.step hstep
  refine ⟨traced (.begin initial), nofun, nofun, nofun, nofun, nofun, fun _ => nofun, fun t ht => ?_⟩
  simp [initial, Machine.config, Machine.bare, Tickets.reason?] at ht

/-- A machine at rest has no timer left whose time has come. -/
theorem early_of_rest (x : Execution initial) (hm : x.machine.advance? = none) :
    x.machine.state.Early := by
  intro z hz hf d hd
  obtain ⟨k, hk⟩ := List.mem_iff_getElem?.mp hz
  rcases (awake x).timer k z hk hf with hmem | ⟨d', hd', hlt⟩
  · simp [Machine.ready_of_advance? hm, ownTasks] at hmem
  · obtain rfl : d = d' := Option.some.inj (hd.symm.trans hd')
    exact hlt

/-- Time passes punctually if the machine comes to rest between any two milliseconds, whatever else is
done between them. -/
theorem Punctual.strike (x : Execution initial) (hx : Punctual x.past)
    (hm : x.machine.advance? = none) (y : Execution x.machine) (hy : ∀ q ∈ y.past, q.cause ≠ .tick) :
    Punctual ((x.andThen y).past ++ [⟨y.machine.state, .tick⟩]) := by
  have hearly := y.run.config_induction
    (fun past c => Shape c ∧ ((∀ q ∈ past, q.cause ≠ .tick) → c.state.Early))
    ⟨(sound x).1, fun _ => by simpa using early_of_rest x hm⟩
    fun past c cause c' hc hstep => by
      refine ⟨(hc.1.moves hstep).1, fun hno => ?_⟩
      refine early_step hc.1.housed hstep ?_ (hc.2 fun q hq => hno q (List.mem_append_left _ hq))
      rintro rfl
      exact hno ⟨c.state, .tick⟩ (List.mem_append_right _ (mem_moment.mpr ⟨_, rfl, rfl⟩)) rfl
  intro q hq
  rcases List.mem_append.mp hq with hq | hq
  · rcases List.mem_append.mp hq with hq | hq
    · exact hx q hq
    · have hcause := hy q hq
      obtain ⟨s, cause⟩ := q
      cases cause <;> trivial
  · rw [List.mem_singleton.mp hq]
    have hlast := hearly.2 hy
    rwa [Machine.config_state] at hlast

/-- Before each of its moments a run has kept account of its timers. -/
theorem clocked_before (x : Execution initial) {past₁ past₂ : List (Moment component)}
    {q : Moment component} (hx : x.past = past₁ ++ q :: past₂) :
    ∃ c, Clocked past₁ c ∧ c.state = q.state := by
  obtain ⟨m, hm, hstate⟩ := x.run.before hx
  exact ⟨m.config, clocked ⟨past₁, m, hm⟩, (Machine.config_state m).trans hstate⟩

/-! ### The whole of it -/

/-- A timer cancels only a ticket to which somebody refers. -/
theorem alive_of_timeout {q : Moment component} {t : Nat} (h : Ends t .timeout q) :
    q.state.Alive t := by
  cases h with
  | timeout h =>
    obtain ⟨z, hz, rfl⟩ := Option.map_eq_some_iff.mp h
    have hdue := (Option.filter_eq_some_iff.mp hz).2
    simp only [decide_eq_true_eq] at hdue
    exact hdue.2.2

/-- Only finished waiters wait for a ticket that has neither a source nor a name. -/
structure Released (s : Tickets) (t : Nat) : Prop where
  sources : ∀ e ∈ s.sources, e.2 ≠ t
  kept : ∀ e ∈ s.kept, e.2 ≠ t
  waiters : ∀ w ∈ s.waiters, w.ticket = t → w.finished = true

theorem Released.not_alive {s : Tickets} {t : Nat} (h : Released s t) : ¬s.Alive t := by
  rintro (⟨e, he, ht⟩ | ⟨e, he, ht⟩ | ⟨w, hw, ht, hf⟩)
  · exact h.sources e he ht
  · exact h.kept e he ht
  · rw [h.waiters w hw ht] at hf
    cases hf

/-- What timers do in a run. -/
structure TimerContract (x : Execution initial) : Prop where
  /-- The reason of a timer comes from a timer of the ticket that has come to its time, or over a link
  from a ticket that has it. -/
  origin : ∀ t, x.machine.state.reason? t = some .timeout →
    ∃ past₁ q past₂, x.past = past₁ ++ q :: past₂ ∧ q.state.reason? t = none ∧
      q.after.reason? t = some .timeout ∧ TimesOut past₁ t q
  /-- When there is nothing left to do, every timer that has been armed has been served, and its ticket
  has been cancelled if its time has come. -/
  due : x.machine.advance? = none → ∀ a ∈ x.past, ∀ k t ms, Arms k t ms a →
    ∃ c, firstServed? (.timer k) x.past = some c ∧
      (x.machine.state.Alive t → c.state.clock + ms ≤ x.machine.state.clock →
        x.machine.state.reason? t ≠ none)
  /-- A timer that cancels its ticket does so at the very millisecond for which it was set, and no timer
  of the ticket has been set for an earlier one. -/
  earliest : Punctual x.past → ∀ past₁ q past₂, x.past = past₁ ++ q :: past₂ →
    ∀ k t ms, q.state.reason? t = none → Ends t .timeout q → Expires past₁ q k t ms →
      (∃ c, firstServed? (.timer k) (past₁ ++ [q]) = some c ∧ c.state.clock + ms = q.state.clock) ∧
      ∀ a ∈ past₁, ∀ j ms', Arms j t ms' a → ∀ c, firstServed? (.timer j) past₁ = some c →
        q.state.clock ≤ c.state.clock + ms'
  /-- No timer changes a reason. -/
  keeps : ∀ t r, x.machine.state.reason? t = some r →
    ∀ y : Execution x.machine, y.machine.state.reason? t = some r
  /-- A timer is no reference: a ticket that is left to its timers is given up, and they do not cancel
  it any more. -/
  released : ∀ t, t < x.machine.state.tickets.length → Released x.machine.state t →
    ∀ y : Execution x.machine, ¬y.machine.state.Alive t ∧ (∀ q ∈ y.past, ¬Ends t .timeout q) ∧
      (x.machine.state.reason? t = none → Forsaken (x.andThen y) t)

section Contract

variable (x : Execution initial)

theorem due_settled (hm : x.machine.advance? = none) {a : Moment component} (ha : a ∈ x.past)
    {k t ms : Nat} (harms : Arms k t ms a) : ∃ c, firstServed? (.timer k) x.past = some c ∧
      (x.machine.state.Alive t → c.state.clock + ms ≤ x.machine.state.clock →
        x.machine.state.reason? t ≠ none) := by
  have hc := clocked x
  obtain ⟨z, hz, rfl, rfl⟩ := hc.listed a ha k t ms harms
  have hawake (hf : z.finished = false) : ∃ d, z.due = some d ∧ x.machine.state.clock < d := by
    have hz : x.machine.state.timers[k]? = some z := by simpa using hz
    refine ((awake x).timer k z hz hf).resolve_left fun hmem => ?_
    simp [Machine.ready_of_advance? hm, ownTasks] at hmem
  cases hc.timed k z hz with
  | fresh _ _ _ hdue hf =>
    obtain ⟨d, hd, -⟩ := hawake hf
    rw [hdue] at hd
    cases hd
  | @counting _ c _ _ _ hfirst hdue hf =>
    refine ⟨c, hfirst, fun _ hclock => ?_⟩
    obtain ⟨d, hd, hlt⟩ := hawake hf
    rw [hdue] at hd
    cases hd
    exact absurd hclock (Nat.not_le_of_lt hlt)
  | @expired _ c _ _ _ hfirst _ _ hdone =>
    refine ⟨c, hfirst, fun halive _ => ?_⟩
    rw [Machine.config_state] at hdone
    exact hdone halive

theorem earliest_first (hp : Punctual x.past) {past₁ past₂ : List (Moment component)}
    {q : Moment component} (hx : x.past = past₁ ++ q :: past₂) {k t ms : Nat}
    (hnone : q.state.reason? t = none) (hend : Ends t .timeout q) (hexp : Expires past₁ q k t ms) :
    (∃ c, firstServed? (.timer k) (past₁ ++ [q]) = some c ∧ c.state.clock + ms = q.state.clock) ∧
      ∀ a ∈ past₁, ∀ j ms', Arms j t ms' a → ∀ c, firstServed? (.timer j) past₁ = some c →
        q.state.clock ≤ c.state.clock + ms' := by
  obtain ⟨c, hc, hstate⟩ := clocked_before x hx
  have hprompt := hc.prompt fun q hq => hp q (hx ▸ List.mem_append_left _ hq)
  rw [hstate] at hprompt
  -- Somebody refers to the ticket, so that none of its timers has been over before now.
  have halive := alive_of_timeout hend
  have hearly : ∀ a ∈ past₁, ∀ j ms', Arms j t ms' a → ∀ c, firstServed? (.timer j) past₁ = some c →
      q.state.clock ≤ c.state.clock + ms' := by
    intro a ha j ms' harms d hd
    obtain ⟨z, hz, rfl, rfl⟩ := hc.listed a ha j t ms' harms
    cases hc.timed j z hz with
    | fresh _ _ hfirst =>
      rw [hfirst] at hd
      cases hd
    | counting _ _ _ hfirst hdue hf =>
      obtain rfl := Option.some.inj (hfirst.symm.trans hd)
      exact hprompt z (hstate ▸ List.mem_of_getElem? hz) hf _ hdue
    | expired _ _ _ _ _ _ hdone =>
      rw [hstate] at hdone
      exact absurd hnone (hdone halive)
  refine ⟨?_, hearly⟩
  obtain ⟨d, hd, hle⟩ := hexp.counted
  refine ⟨d, hd, Nat.le_antisymm hle ?_⟩
  obtain ⟨a, ha, harms, -⟩ := hexp.armed
  cases hfirst : firstServed? (.timer k) past₁ with
  | some d' =>
    rw [firstServed?_append, hfirst] at hd
    obtain rfl : d' = d := Option.some.inj hd
    exact hearly a ha k ms harms d' hfirst
  | none =>
    rw [firstServed?_append, hfirst] at hd
    obtain rfl := List.mem_singleton.mp (List.mem_of_find?_eq_some hd)
    exact Nat.le_add_right _ _

theorem released_timers {t : Nat} (hlt : t < x.machine.state.tickets.length)
    (hr : Released x.machine.state t) (y : Execution x.machine) :
    ¬y.machine.state.Alive t ∧ (∀ q ∈ y.past, ¬Ends t .timeout q) ∧
      (x.machine.state.reason? t = none → Forsaken (x.andThen y) t) := by
  have hy := y.run.config_induction
    (fun past c => (Shape c ∧ t < c.state.tickets.length ∧ ¬c.state.Alive t) ∧
      ∀ q ∈ past, ¬Ends t .timeout q)
    ⟨⟨(sound x).1, by simpa using hlt, by simpa using hr.not_alive⟩, nofun⟩
    fun past c cause c' hc hstep => by
      obtain ⟨⟨hshape, hlt, halive⟩, hquiet⟩ := hc
      obtain ⟨hshape', hmoves⟩ := hshape.moves hstep
      refine ⟨⟨hshape', Nat.lt_of_lt_of_le hlt hmoves.length_le,
        fun h => halive (alive_step hlt hstep h)⟩, fun q hq hend => ?_⟩
      rcases List.mem_append.mp hq with hq | hq
      · exact hquiet q hq hend
      · obtain ⟨cause, -, rfl⟩ := mem_moment.mp hq
        exact halive (alive_of_timeout hend)
  rw [Machine.config_state] at hy
  exact ⟨hy.1.2.2, hy.2, fun hnone => forsaken x hlt hr.not_alive hnone y⟩

/-- Timers cancel their tickets in time and not before, the earliest one first, and keep nothing. -/
theorem timer_contract : TimerContract x where
  origin t ht := (clocked x).timeout t (by simpa using ht)
  due hm _ ha _ _ _ harms := due_settled x hm ha harms
  earliest hp _ _ _ hx _ _ _ hnone hend hexp := earliest_first x hp hx hnone hend hexp
  keeps _ _ hr y := reason_stays x y hr
  released _ hlt hr y := released_timers x hlt hr y

end Contract

/-- A timer of three milliseconds and one of a single millisecond are armed and not served before a
millisecond has passed; another ticket is linked to theirs. -/
def belated : Execution initial :=
  let armed := (ExecutionBy.begin initial).perform 1
    [.own (.source "a"), .own (.linked "b" ["a"]), .own (.cancelAfter "a" 3),
      .own (.cancelAfter "a" 1)]
  let counting := Nat.repeat ExecutionBy.advance 10 armed.strike
  Nat.repeat ExecutionBy.advance 20 counting.strike

set_option maxRecDepth 4000 in
theorem timer_contract_belated : TimerContract belated ∧ Punctual belated.past ∧
    belated.machine.state.clock = 2 ∧
    (firstServed? (.timer 1) belated.past).map (·.state.clock) = some 1 ∧
    belated.machine.state.reason? 0 = some .timeout ∧
    belated.machine.state.reason? 1 = some .timeout :=
  ⟨timer_contract belated, by decide, rfl, rfl, rfl, rfl⟩

end Conduit.Cancel
