import Conduit.Proofs.Cancel.Linked

/-!
The tasks of tickets: timers and waiters. A waiter that can go on has been woken, and so has a timer
whose time has come. Only an action adds a waiter or arms a timer, and whoever cancels a ticket wakes
those that wait for it; so a run that has come to rest has left nobody behind.
-/

namespace Conduit.Cancel

open Dispatch

/-- At this moment the timer `k` is armed, which is to cancel the ticket `t` after `ms`
milliseconds. -/
inductive Arms (k t ms : Nat) : Moment component → Prop where
  | cancelAfter {s view id} (hk : k = s.timers.length) (h : s.sources.lookup id = some t) :
      Arms k t ms ⟨s, .exec view (.cancelAfter id ms)⟩
  | timeout {s view id} (hk : k = s.timers.length) (ht : t = s.tickets.length) :
      Arms k t ms ⟨s, .exec view (.timeout id ms)⟩

/-- At this moment the waiter `k` is added, who waits for the ticket `t`. -/
inductive Joins (k t : Nat) (label : String) : Moment component → Prop where
  | wait {s view id} (hk : k = s.waiters.length) (h : s.ticket? id = some t) :
      Joins k t label ⟨s, .exec view (.wait id label)⟩

theorem mem_waitersOf {s : Tickets} {t : Nat} {task : Task} : task ∈ s.waitersOf t ↔
    ∃ k w, task = .waiter k ∧ s.waiters[k]? = some w ∧ w.ticket = t ∧ w.finished = false := by
  unfold Tickets.waitersOf
  rw [List.mem_filterMap]
  constructor
  · rintro ⟨⟨w, k⟩, hw, hif⟩
    by_cases h : w.ticket = t ∧ w.finished = false
    · obtain rfl : Task.waiter k = task := by simpa [h] using hif
      exact ⟨k, w, rfl, List.mk_mem_zipIdx_iff_getElem?.mp hw, h⟩
    · simp [h] at hif
  · rintro ⟨k, w, rfl, hw, h⟩
    exact ⟨(w, k), List.mk_mem_zipIdx_iff_getElem?.mpr hw, if_pos h⟩

/-- An appended element is the last one, or an old one is found. -/
theorem getElem?_concat_cases {α : Type} {l : List α} {a b : α} {k : Nat}
    (h : (l ++ [a])[k]? = some b) : l[k]? = some b ∨ k = l.length ∧ b = a := by
  rcases Nat.lt_trichotomy k l.length with hk | rfl | hk
  · exact .inl (by rwa [List.getElem?_append_left hk] at h)
  · exact .inr ⟨rfl, by simpa using h.symm⟩
  · rw [List.getElem?_eq_none (by simpa using Nat.succ_le_of_lt hk)] at h
    cases h

/-! ### What a turn does -/

/-- What an action or a frame does to timers, waiters and reasons in its turn. -/
structure Onward (q : Moment component) (w : Turn signature) : Prop where
  clock : w.state.clock = q.state.clock
  length : q.state.tickets.length ≤ w.state.tickets.length
  timers : w.state.timers = q.state.timers ∨ ∃ t ms, Arms q.state.timers.length t ms q ∧
    t < w.state.tickets.length ∧ w.state.timers = q.state.timers ++ [{ ticket := t, ms }] ∧
    .timer q.state.timers.length ∈ w.wakes
  waiters : w.state.waiters = q.state.waiters ∨ ∃ t label, Joins q.state.waiters.length t label q ∧
    t < q.state.tickets.length ∧ w.state.waiters = q.state.waiters ++ [{ ticket := t, label }] ∧
    .waiter q.state.waiters.length ∈ w.wakes
  reasons : ∀ t, t < q.state.tickets.length → w.state.reason? t = q.state.reason? t ∨
    q.state.reason? t = none ∧ ∀ task ∈ q.state.waitersOf t, task ∈ w.wakes
  wakes : ∀ k, .timer k ∈ w.wakes → k < w.state.timers.length

section Turns

variable {q : Moment component} {w : Turn signature} {s : Tickets} {t : Nat}

/-- A turn that leaves timers, waiters and reasons alone, and wakes nobody. -/
theorem Onward.still (hwakes : w.wakes = []) (hc : w.state.clock = q.state.clock)
    (ht : w.state.timers = q.state.timers) (hw : w.state.waiters = q.state.waiters)
    (hl : q.state.tickets.length ≤ w.state.tickets.length)
    (hr : ∀ t, t < q.state.tickets.length → w.state.reason? t = q.state.reason? t) : Onward q w :=
  ⟨hc, hl, .inl ht, .inl hw, fun t hlt => .inl (hr t hlt), fun k hk => by simp [hwakes] at hk⟩

theorem reason?_addTicket (hlt : t < s.tickets.length) : s.addTicket.reason? t = s.reason? t := by
  unfold Tickets.reason? Tickets.addTicket
  rw [List.getElem?_append_left hlt]

theorem reason?_addHandler (u : Nat) (a : Reaction) :
    (s.addHandler u a).reason? t = s.reason? t := by
  unfold Tickets.reason? Tickets.addHandler
  rw [List.getElem?_modify]
  cases s.tickets[t]? <;> split <;> rfl

theorem reason?_settle_ne {u : Nat} {r : Reason} (h : t ≠ u) :
    (s.settle u r).reason? t = s.reason? t := by
  unfold Tickets.reason? Tickets.settle
  rw [List.getElem?_set_ne (Ne.symm h)]

theorem reason?_settle_self {r : Reason} (h : t < s.tickets.length) :
    (s.settle t r).reason? t = some r := by
  simp [Tickets.reason?, Tickets.settle, h]

/-- Whoever cancels a ticket wakes those that wait for it. -/
theorem Onward.cancel {cause : Cause component} (t : Nat) (r : Reason) (k : List Frame) :
    Onward ⟨s, cause⟩ (Cancel.cancel s t r k) := by
  unfold Cancel.cancel
  split
  · exact .still rfl rfl rfl rfl (Nat.le_refl _) fun _ _ => rfl
  · rename_i hnone
    refine ⟨rfl, Nat.le_of_eq (by simp [Tickets.settle]), .inl rfl, .inl rfl, fun u hu => ?_,
      fun k hk => ?_⟩
    · by_cases hut : u = t
      · subst hut
        exact .inr ⟨hnone, fun task h => h⟩
      · exact .inl (reason?_settle_ne hut)
    · obtain ⟨j, w, he, -⟩ := mem_waitersOf.mp hk
      cases he

theorem Onward.register {cause : Cause component} (t : Nat) (cb : Callback)
    (context : Option Context) : Onward ⟨s, cause⟩ (Cancel.register s t cb context) := by
  unfold Cancel.register
  split
  · refine .still rfl rfl rfl rfl (Nat.le_of_eq (by simp [Tickets.addHandler])) fun u _ => ?_
    exact reason?_addHandler ..
  · exact .still rfl rfl rfl rfl (Nat.le_refl _) fun _ _ => rfl

/-- Linking a new ticket leaves all others alone, with their timers and waiters. -/
theorem links_still (target : Nat) (ts : List Nat) :
    (ts.foldl (fun s t => s.link target t) s).timers = s.timers ∧
    (ts.foldl (fun s t => s.link target t) s).waiters = s.waiters ∧
    (ts.foldl (fun s t => s.link target t) s).clock = s.clock ∧
    ∀ u, u ≠ target → (ts.foldl (fun s t => s.link target t) s).reason? u = s.reason? u := by
  induction ts generalizing s with
  | nil => exact ⟨rfl, rfl, rfl, fun _ _ => rfl⟩
  | cons t ts ih =>
    obtain ⟨htimers, hwaiters, hclock, hreason⟩ := ih (s := s.link target t)
    have hlink : (s.link target t).timers = s.timers ∧ (s.link target t).waiters = s.waiters ∧
        (s.link target t).clock = s.clock := by
      unfold Tickets.link
      split
      · exact ⟨rfl, rfl, rfl⟩
      · split <;> exact ⟨rfl, rfl, rfl⟩
    exact ⟨htimers.trans hlink.1, hwaiters.trans hlink.2.1, hclock.trans hlink.2.2,
      fun u hu => (hreason u hu).trans (reason?_link hu)⟩

theorem Onward.exec (hs : s.Housed) (view : View) (a : Action) :
    Onward ⟨s, .exec view a⟩ (Cancel.exec view s a) := by
  have hnew : s.tickets.length ≤ s.addTicket.tickets.length := by simp [Tickets.addTicket]
  have hlast : s.tickets.length < s.addTicket.tickets.length := by simp [Tickets.addTicket]
  have hnewTimer (t ms k : Nat) (hk : Task.timer k ∈ [Task.timer s.timers.length]) :
      k < (s.addTimer t ms).timers.length := by
    cases List.mem_singleton.mp hk
    simp [Tickets.addTimer]
  cases a with
  | source id => exact .still rfl rfl rfl rfl hnew fun t ht => reason?_addTicket ht
  | never id => exact .still rfl rfl rfl rfl hnew fun t ht => reason?_addTicket ht
  | linked id ids =>
    obtain ⟨htimers, hwaiters, hclock, hreason⟩ :=
      links_still (s := s.addTicket) s.tickets.length (ids.filterMap s.ticket?)
    refine .still rfl hclock htimers hwaiters ?_ fun t ht => ?_
    · exact Nat.le_trans hnew (Nat.le_of_eq (length_links ..).symm)
    · exact (hreason t (Nat.ne_of_lt ht)).trans (reason?_addTicket ht)
  | keep id of =>
    simp only [Cancel.exec]
    split <;> exact .still rfl rfl rfl rfl (Nat.le_refl _) fun _ _ => rfl
  | drop id => exact .still rfl rfl rfl rfl (Nat.le_refl _) fun _ _ => rfl
  | cancel id =>
    simp only [Cancel.exec]
    split
    · exact .still rfl rfl rfl rfl (Nat.le_refl _) fun _ _ => rfl
    · exact .cancel ..
  | cancelAfter id ms =>
    simp only [Cancel.exec]
    split
    · exact .still rfl rfl rfl rfl (Nat.le_refl _) fun _ _ => rfl
    · rename_i t ht
      exact ⟨rfl, Nat.le_refl _, .inr ⟨t, ms, .cancelAfter rfl ht, hs.source ht, rfl,
        List.mem_singleton.mpr rfl⟩, .inl rfl, fun _ _ => .inl rfl, hnewTimer t ms⟩
  | timeout id ms =>
    exact ⟨rfl, hnew, .inr ⟨_, ms, .timeout rfl rfl, hlast, rfl, List.mem_singleton.mpr rfl⟩,
      .inl rfl, fun t ht => .inl (reason?_addTicket ht), hnewTimer s.tickets.length ms⟩
  | handler ticket label context script throws =>
    simp only [Cancel.exec]
    split
    · exact .still rfl rfl rfl rfl (Nat.le_refl _) fun _ _ => rfl
    · split
      · exact .register ..
      · split
        · exact .still rfl rfl rfl rfl (Nat.le_refl _) fun _ _ => rfl
        · exact .register ..
  | wait ticket label =>
    simp only [Cancel.exec]
    split
    · exact .still rfl rfl rfl rfl (Nat.le_refl _) fun _ _ => rfl
    · rename_i t ht
      exact ⟨rfl, Nat.le_refl _, .inl rfl, .inr ⟨t, label, .wait rfl ht, hs.ticket ht, rfl,
        List.mem_singleton.mpr rfl⟩, fun _ _ => .inl rfl, by simp⟩
  | describe id =>
    simp only [Cancel.exec]
    split <;> exact .still rfl rfl rfl rfl (Nat.le_refl _) fun _ _ => rfl

theorem Onward.resume (f : Frame) : Onward ⟨s, .resume f⟩ (Cancel.resume s f) := by
  rcases f with ⟨u, r, _ | ⟨⟨n, cb | target⟩, rest⟩, after⟩ | ⟨n, cb, r⟩
  · exact .still rfl rfl rfl rfl (Nat.le_refl _) fun _ _ => rfl
  · exact .still rfl rfl rfl rfl (Nat.le_refl _) fun _ _ => rfl
  · simp only [Cancel.resume]
    split
    · exact .cancel ..
    · exact .still rfl rfl rfl rfl (Nat.le_refl _) fun _ _ => rfl
  · exact .still rfl rfl rfl rfl (Nat.le_refl _) fun _ _ => rfl

end Turns

/-! ### Who has been woken -/

/-- Timers and waiters that can go on are among the tasks that have been woken. -/
structure Tickets.Awake (s : Tickets) (ready : List Task) : Prop where
  waiting : ∀ w ∈ s.waiters, w.ticket < s.tickets.length
  waiter : ∀ k w, s.waiters[k]? = some w → w.finished = false → s.reason? w.ticket ≠ none →
    .waiter k ∈ ready
  timer : ∀ k z, s.timers[k]? = some z → z.finished = false →
    .timer k ∈ ready ∨ ∃ d, z.due = some d ∧ s.clock < d
  /-- A waiter has been served when his ticket was cancelled. -/
  served : ∀ w ∈ s.waiters, w.finished = true → s.reason? w.ticket ≠ none

namespace Tickets.Awake

variable {s : Tickets} {ready : List Task}

theorem onward {q : Moment component} {w : Turn signature} (h : q.state.Awake ready)
    (hw : Onward q w) : w.state.Awake (woken ready w.wakes) := by
  have hold : ∀ task ∈ ready, task ∈ woken ready w.wakes := fun task ht => mem_woken.mpr (.inl ht)
  have hnew : ∀ task ∈ w.wakes, task ∈ woken ready w.wakes := fun task ht => mem_woken.mpr (.inr ht)
  -- A ticket that there has been keeps the reason that it has.
  have hstays : ∀ v ∈ q.state.waiters, q.state.reason? v.ticket ≠ none →
      w.state.reason? v.ticket ≠ none := fun v hv hr => by
    rcases hw.reasons v.ticket (h.waiting v hv) with he | ⟨hnone, -⟩
    · exact he ▸ hr
    · exact absurd hnone hr
  have waiter {k : Nat} {v : Waiter} (hv : q.state.waiters[k]? = some v) (hf : v.finished = false)
      (hr : w.state.reason? v.ticket ≠ none) : .waiter k ∈ woken ready w.wakes := by
    rcases hw.reasons v.ticket (h.waiting v (List.mem_of_getElem? hv)) with he | ⟨-, hwakes⟩
    · exact hold _ (h.waiter k v hv hf (he ▸ hr))
    · exact hnew _ (hwakes _ (mem_waitersOf.mpr ⟨k, v, rfl, hv, rfl, hf⟩))
  refine ⟨fun v hv => ?_, fun k v hv hf hr => ?_, fun k z hz hf => ?_, fun v hv hf => ?_⟩
  · rcases hw.waiters with he | ⟨t, label, -, hlt, he, -⟩
    · exact Nat.lt_of_lt_of_le (h.waiting v (he ▸ hv)) hw.length
    · rw [he] at hv
      rcases List.mem_append.mp hv with hv | hv
      · exact Nat.lt_of_lt_of_le (h.waiting v hv) hw.length
      · rw [List.mem_singleton.mp hv]
        exact Nat.lt_of_lt_of_le hlt hw.length
  · rcases hw.waiters with he | ⟨t, label, -, -, he, hwake⟩
    · exact waiter (he ▸ hv) hf hr
    · rw [he] at hv
      rcases getElem?_concat_cases hv with hv | ⟨rfl, -⟩
      · exact waiter hv hf hr
      · exact hnew _ hwake
  · rw [hw.clock]
    rcases hw.timers with he | ⟨t, ms, -, -, he, hwake⟩
    · exact (h.timer k z (he ▸ hz) hf).imp_left (hold _)
    · rw [he] at hz
      rcases getElem?_concat_cases hz with hz | ⟨rfl, -⟩
      · exact (h.timer k z hz hf).imp_left (hold _)
      · exact .inl (hnew _ hwake)
  · rcases hw.waiters with he | ⟨t, label, -, -, he, -⟩
    · exact hstays v (he ▸ hv) (h.served v (he ▸ hv) hf)
    · rw [he] at hv
      rcases List.mem_append.mp hv with hv | hv
      · exact hstays v hv (h.served v hv hf)
      · rw [List.mem_singleton.mp hv] at hf
        cases hf

/-- A waiter is served. -/
theorem pollWaiter {k : Nat} (h : s.Awake (.waiter k :: ready)) :
    (Cancel.poll s (.waiter k)).state.Awake (woken ready (Cancel.poll s (.waiter k)).wakes) := by
  -- Nobody else loses his place.
  have others {j : Nat} (hj : j ≠ k) (hmem : Task.waiter j ∈ Task.waiter k :: ready) :
      Task.waiter j ∈ ready :=
    (List.mem_cons.mp hmem).resolve_left fun he => hj (by simpa using he)
  have timers {j : Nat} {P : Prop} (hmem : Task.timer j ∈ Task.waiter k :: ready ∨ P) :
      Task.timer j ∈ ready ∨ P :=
    hmem.imp_left fun hmem => (List.mem_cons.mp hmem).resolve_left (by simp)
  -- The waiter cannot go on.
  have idle (hk : ∀ w, s.waiters[k]? = some w → w.finished = false → s.reason? w.ticket = none) :
      s.Awake ready := by
    refine ⟨h.waiting, fun j w hw hf hr => ?_, fun j z hz hf => timers (h.timer j z hz hf), h.served⟩
    by_cases hj : j = k
    · exact absurd (hk w (hj ▸ hw) hf) hr
    · exact others hj (h.waiter j w hw hf hr)
  simp only [Cancel.poll]
  split
  · rename_i hnone
    exact idle fun w hw => by simp [hnone] at hw
  · rename_i v hv
    split
    · rename_i r hfin hr
      refine ⟨fun w hw => ?_, fun j w hw hf hreason => ?_,
        fun j z hz hf => timers (h.timer j z hz hf), fun w hw hf => ?_⟩
      · rcases List.mem_or_eq_of_mem_set hw with hw | rfl
        · exact h.waiting w hw
        · exact h.waiting v (List.mem_of_getElem? hv)
      · by_cases hj : j = k
        · subst hj
          rw [List.getElem?_set_self (List.getElem?_eq_some_iff.mp hv).1] at hw
          cases hw
          cases hf
        · rw [List.getElem?_set_ne (Ne.symm hj)] at hw
          exact others hj (h.waiter j w hw hf hreason)
      · rcases List.mem_or_eq_of_mem_set hw with hw | rfl
        · exact h.served w hw hf
        · have : s.reason? v.ticket ≠ none := by simp [hr]
          exact this
    · rename_i hno
      refine idle fun w hw hf => ?_
      obtain rfl : v = w := Option.some.inj (hv.symm.trans hw)
      cases hr : s.reason? v.ticket with
      | none => rfl
      | some r => exact absurd hr (hno r hf)

/-- A timer is counted on, or ended. -/
theorem setTimer {k : Nat} {z : Timer} (h : s.Awake (.timer k :: ready))
    (hz : z.finished = true ∨ ∃ d, z.due = some d ∧ s.clock < d) :
    Awake { s with timers := s.timers.set k z } ready := by
  refine ⟨h.waiting, fun j w hw hf hr => ?_, fun j y hy hf => ?_, h.served⟩
  · exact (List.mem_cons.mp (h.waiter j w hw hf hr)).resolve_left (by simp)
  · by_cases hj : k = j
    · subst hj
      rw [List.getElem?_set] at hy
      split at hy
      · split at hy
        · cases hy
          exact .inr (hz.resolve_left (by simp [hf]))
        · cases hy
      · rename_i hne
        exact absurd rfl hne
    · rw [List.getElem?_set_ne hj] at hy
      exact (h.timer j y hy hf).imp_left fun hmem =>
        (List.mem_cons.mp hmem).resolve_left fun he => hj (by simpa using he.symm)

/-- A timer is served. -/
theorem pollTimer {k : Nat} (h : s.Awake (.timer k :: ready)) :
    (Cancel.poll s (.timer k)).state.Awake (woken ready (Cancel.poll s (.timer k)).wakes) := by
  simp only [Cancel.poll]
  cases hk : s.timers[k]? with
  | none =>
    refine ⟨h.waiting, fun j w hw hf hr => ?_, fun j z hz hf => ?_, h.served⟩
    · exact (List.mem_cons.mp (h.waiter j w hw hf hr)).resolve_left (by simp)
    · refine (h.timer j z hz hf).imp_left fun hmem => (List.mem_cons.mp hmem).resolve_left fun he => ?_
      cases he
      simp [hk] at hz
  | some z =>
    dsimp only
    split
    · rename_i hfin
      have hset := h.setTimer (z := z) (.inl hfin)
      obtain ⟨hlt, rfl⟩ := List.getElem?_eq_some_iff.mp hk
      rwa [List.set_getElem_self] at hset
    split
    · unfold expire
      dsimp only
      have hset := h.setTimer (z := { z with finished := true }) (.inl rfl)
      split
      · exact hset.onward (q := ⟨_, .poll (.timer k)⟩) (.cancel ..)
      · exact hset
    · rename_i hdue
      exact h.setTimer (.inr ⟨_, rfl, Nat.lt_of_not_le hdue⟩)

theorem tick (h : s.Awake ready) :
    (Cancel.tick s).1.Awake (woken ready (Cancel.tick s).2) := by
  refine ⟨h.waiting, fun k w hw hf hr => mem_woken.mpr (.inl (h.waiter k w hw hf hr)),
    fun k z hz hf => ?_, h.served⟩
  rcases h.timer k z hz hf with hmem | ⟨d, hd, hlt⟩
  · exact .inl (mem_woken.mpr (.inl hmem))
  · by_cases hdue : d ≤ s.clock + 1
    · refine .inl (mem_woken.mpr (.inr (List.mem_filterMap.mpr
        ⟨(z, k), List.mk_mem_zipIdx_iff_getElem?.mpr hz, ?_⟩)))
      simp [hd, hdue, hf]
    · exact .inr ⟨d, hd, Nat.lt_of_not_le hdue⟩

end Tickets.Awake

/-- No work of a ticket has anything to clean up. -/
theorem takes_woken {c c' : Config component} {w : Turn signature} (h : c.Takes w c')
    (hn : c.next = none) : c'.state = w.state ∧ c'.ready = woken c.ready w.wakes := by
  rcases h.frames hn with ⟨-, hs, hr⟩ | ⟨d, f, k, -, -, ⟨hs, hr⟩ | ⟨hs, hr⟩⟩
  · exact ⟨hs, hr⟩
  · exact ⟨hs, hr⟩
  · exact ⟨hs, hr⟩

theorem awake_step {c c' : Config component} {cause : Option (Cause component)} (hs : c.state.Housed)
    (hc : c.state.Awake c.ready) (h : c.Step cause c') : c'.state.Awake c'.ready := by
  cases h with
  | still hf => rwa [hf.state_eq, hf.ready_eq]
  | exec hn ht =>
    obtain ⟨hstate, hready⟩ := takes_woken ht hn
    rw [hstate, hready]
    exact hc.onward (.exec hs _ _)
  | @resume f _ hn ht =>
    obtain ⟨hstate, hready⟩ := takes_woken ht rfl
    rw [hstate, hready]
    exact Tickets.Awake.onward (q := ⟨c.state, .resume f⟩) hc (.resume f)
  | unwind hn hk hf =>
    subst hf
    exact hc
  | @poll task ts _ hn hk hr ht =>
    obtain ⟨hstate, hready⟩ := takes_woken ht hn
    rw [hr] at hc
    rw [hstate, hready]
    cases task with
    | waiter k => exact hc.pollWaiter
    | timer k => exact hc.pollTimer
  | tick hn => exact hc.tick
  | begin hn hv => exact hc
  | opened hn hf => rwa [hf.state_eq, hf.ready_eq]

/-- In every run whoever can go on has been woken. -/
theorem awake (x : Execution initial) :
    x.machine.state.Awake (ownTasks x.machine.ready) := by
  have h := x.run.config_induction (fun _ c => Shape c ∧ c.state.Awake c.ready)
    ⟨(sound (.begin initial)).1, ?_⟩ fun _ c _ c' hc hstep => ?_
  · have h := h.2
    rwa [Machine.config_state, Machine.config_ready] at h
  · exact ⟨nofun, nofun, nofun, nofun⟩
  · exact ⟨(hc.1.moves hstep).1, awake_step hc.1.housed hc.2 hstep⟩

end Conduit.Cancel
