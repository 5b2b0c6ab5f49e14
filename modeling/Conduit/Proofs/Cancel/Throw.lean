import Conduit.Proofs.Cancel.Waiters
import Conduit.Proofs.Dispatch.Within

/-!
Throws. A handler that throws ends the round of its ticket, and with it all rounds below, up to a
turn that contains the throw. The handlers that were left in the round never react. In everything
else the ticket is one that has been cancelled: it keeps its reason, refuses attempts, runs handlers
at once and lets go of those who wait for it. A throw itself changes nothing.
-/

namespace Conduit.Cancel

open Dispatch

/-- The callback of a handler is run in line or by a direct context, or its link is followed: a throw
out of it passes the round of the handler. -/
def Handler.Direct (a : Handler) : Prop :=
  match a.reaction with
  | .callback _ none => True
  | .callback _ (some d) => d.place = .direct
  | .link _ => True

/-- A handler has a callback, which starts as soon as it reacts. -/
def Handler.AtOnce (a : Handler) : Prop :=
  match a.reaction with
  | .callback _ none => True
  | .callback _ (some d) => d.place = .direct ∨ d.place = .pool
  | .link _ => False

/-- The frame of the round of a ticket with these handlers left, which ends the cancellation. -/
def roundOf (t : Nat) (r : Reason) (left : List Handler) : Dispatch.Frame component :=
  .own (.round t r left (.own (.fired true)))

/-- The ticket `t` is cancelled for `r` by the next step. -/
structure Begins (x : Execution initial) (t : Nat) (r : Reason) (m : Machine component) : Prop where
  there : t < x.machine.state.tickets.length
  live : x.machine.state.reason? t = none
  step : x.machine.advance? = some m
  reason : m.state.reason? t = some r

section Beginning

variable {s : Tickets} {t : Nat} {r : Reason} {q : Moment component}

/-- A ticket that has been there is cancelled in a turn that does little else. -/
theorem turn_of_cause (hlt : t < q.state.tickets.length)
    (h : Ends t r q ∨ ∃ u, Passes u t r q) :
    ∃ s k, q.turn? = some (cancel s t r k) ∧ s.tickets = q.state.tickets ∧
      early t (deedsAt q) = [] := by
  have hanswer (next : Next signature) : early t (answer t next) = [] := by
    unfold answer
    split <;> simp
  rcases h with (hsource | hexpires) | ⟨u, hfollow | ⟨hnew, -, -⟩⟩
  · rename_i s view a
    cases a with
    | cancel id =>
      have hsource : s.sources.lookup id = some t := hsource
      refine ⟨s, [], ?_, rfl, ?_⟩
      · simp [Moment.turn?, exec, hsource]
      · simp [deedsAt, execDeeds, registers?, cancels?, links?, linkDeeds, hsource, hanswer]
    | _ => cases hsource
  · rename_i s k
    obtain ⟨z, hz, rfl⟩ := Option.map_eq_some_iff.mp hexpires
    obtain ⟨hk, hdue⟩ := Option.filter_eq_some_iff.mp hz
    simp only [decide_eq_true_eq] at hdue
    refine ⟨{ s with timers := s.timers.set k { z with finished := true } }, [], ?_, rfl, ?_⟩
    · simp [Moment.turn?, poll, hk, hdue, expire]
    · simp [deedsAt, hexpires, hanswer]
  · rename_i s n rest after
    refine ⟨s, [.round u r rest after], ?_, rfl, ?_⟩
    · simp [Moment.turn?, resume, hfollow]
    · simp only [deedsAt, roundDeeds, followDeeds, if_pos hfollow]
      split <;> simp
  · exact absurd hlt (by simp [hnew])

end Beginning

/-- The machine has begun the round of a ticket, above the frames `lower`. -/
structure Begun (t : Nat) (r : Reason) (hs : List Handler) (lower : List (Dispatch.Frame component))
    (m : Machine component) : Prop where
  stack : m.stack = roundOf t r hs :: lower
  control : m.control = .back .done

namespace Begins

variable {x : Execution initial} {t : Nat} {r : Reason} {m : Machine component}

/-- The step in which a ticket is cancelled cancels no other one, and begins its round. -/
theorem round (h : Begins x t r m) : (∃ lower, Begun t r (x.machine.state.handlersOf t) lower m) ∧
    (∀ u, u ≠ t → m.state.tickets[u]? = x.machine.state.tickets[u]?) ∧
    early t (deeds x.machine.moment?.toList) = [] := by
  have hstep := Machine.advance?_config h.step
  have hr : m.config.state.reason? t = some r :=
    (congrArg (·.reason? t) (Machine.config_state m)).trans h.reason
  rcases reason_step (sound x).1 hstep hr with hr | ⟨q, hq, hstate, hcause⟩
  · rw [Machine.config_state, h.live] at hr
    cases hr
  · rw [Machine.config_state] at hstate
    rw [← Machine.moment_config] at hq
    have hmoment : x.machine.moment? = some q := Option.mem_toList.mp hq
    obtain ⟨s, k, hturn, htickets, hearly⟩ := turn_of_cause (hstate ▸ h.there) hcause
    have hmachine : x.machine.turn? = some (cancel s t r k) := by
      simp [Machine.turn?, hmoment, hturn]
    obtain ⟨n, -, rfl⟩ := Machine.take_of_turn? hmachine h.step
    have hnone : s.reason? t = none := by
      rw [Tickets.reason?, htickets, ← hstate]
      exact h.live
    have hhandlers : s.handlersOf t = x.machine.state.handlersOf t := by
      rw [Tickets.handlersOf, htickets, ← hstate]
      rfl
    have hcancel : cancel s t r k =
        { state := s.settle t r
          wakes := s.waitersOf t
          next := .enter (.round t r (s.handlersOf t) (.own (.fired true)) :: k) } := by
      simp [cancel, hnone]
    refine ⟨⟨k.map (Dispatch.Frame.own (C := component)) ++ n.stack, ?_, ?_⟩, fun u hu => ?_, ?_⟩
    · rw [Machine.take_enter (congrArg Turn.next hcancel), ← hhandlers, ← n.hear_stack]
      rfl
    · rw [Machine.take_enter (congrArg Turn.next hcancel)]
      rfl
    · rw [Machine.take_enter (congrArg Turn.next hcancel)]
      show (Machine.hear n _).state.tickets[u]? = _
      rw [Machine.hear_state, hcancel]
      simp only [Tickets.settle, htickets, ← hstate]
      exact List.getElem?_set_ne (Ne.symm hu)
    · rw [hmoment]
      simpa [deeds] using hearly

end Begins

/-! ### How a round goes on -/

/-- A handler reacts: the rest of its round follows, below the frames `k`. -/
structure Reacts (t : Nat) (r : Reason) (a : Handler) (left : List Handler)
    (lower k : List (Dispatch.Frame component)) (m : Machine component) : Prop where
  stack : m.stack = k ++ roundOf t r left :: lower
  control : m.control = .back .done
  /-- A throw does not get out of the pool. -/
  pool : ¬a.Direct → k = [] ∨ ∃ k', k = k' ++ [.turn .pool]
  starts : a.AtOnce → ∃ c k', k = .own (.call a.number c r) :: k'

theorem reacts_of_step {m m' : Machine component} {t : Nat} {r : Reason} {a : Handler}
    {left : List Handler} {lower : List (Dispatch.Frame component)} {b : Reply Answer}
    (hs : m.stack = roundOf t r (a :: left) :: lower) (hc : m.control = .back b)
    (hm : m.step? = some m') : ∃ k, Reacts t r a left lower k m' := by
  obtain rfl := Option.some.inj ((Machine.step?_back hc hs).symm.trans hm)
  show ∃ k, Reacts t r a left lower k (Machine.take { m with stack := lower }
    (resume m.state (.round t r (a :: left) (.own (.fired true)))))
  generalize hn : ({ m with stack := lower } : Machine component) = n
  have hlower : n.stack = lower := by rw [← hn]
  obtain ⟨number, ⟨cb, context⟩ | target⟩ := a
  · cases context with
    | none =>
      refine ⟨[.own (.call number cb r)], ?_⟩
      rw [Machine.take_enter
        (k := [Frame.call number cb r, Frame.round t r left (.own (.fired true))]) rfl]
      refine ⟨?_, rfl, fun h => absurd trivial h, fun _ => ⟨cb, [], rfl⟩⟩
      rw [← hlower, ← n.hear_stack]
      rfl
    | some d =>
      rw [Machine.take_perform (c := d) (w := Frame.call number cb r)
        (k := [Frame.round t r left (.own (.fired true))]) rfl]
      generalize hh : n.hear (resume m.state (.round t r (⟨number, .callback cb (some d)⟩ :: left)
        (.own (.fired true)))) = p
      have hp : p.stack = lower := by rw [← hh, n.hear_stack, hlower]
      unfold Machine.handOver
      split
      · rename_i hd
        refine ⟨[.own (.call number cb r)], ?_, rfl, fun h => absurd hd h, fun _ => ⟨cb, [], rfl⟩⟩
        rw [← hp]
        rfl
      · refine ⟨[.own (.call number cb r), .turn .pool], ?_, rfl,
          fun _ => .inr ⟨[.own (.call number cb r)], rfl⟩, fun _ => ⟨cb, _, rfl⟩⟩
        rw [← hp]
        rfl
      · rename_i v hd
        refine ⟨[], ?_, rfl, fun _ => .inl rfl, fun h => ?_⟩
        · rw [← hp]
          exact Machine.enqueue_stack _ _ _
        · have h : d.place = .direct ∨ d.place = .pool := h
          simp [hd] at h
  · -- Whatever the link does, the rest of the round follows.
    obtain ⟨k, hk⟩ : ∃ k, (resume m.state (.round t r (⟨number, .link target⟩ :: left)
        (.own (.fired true)))).next = .enter (k ++ [.round t r left (.own (.fired true))]) := by
      simp only [resume]
      split
      · unfold cancel
        split
        · exact ⟨[], rfl⟩
        · exact ⟨[_], rfl⟩
      · exact ⟨[], rfl⟩
    refine ⟨k.map (Dispatch.Frame.own (C := component)), ?_⟩
    rw [Machine.take_enter hk]
    refine ⟨?_, rfl, fun h => absurd trivial h, fun h => absurd h id⟩
    simp [Machine.pushOwn, Machine.reply, Machine.hear_stack, hlower, roundOf]

/-- The round goes on: the handlers `fired` have reacted and `left` are left, below the frames `k`. -/
structure Going (t : Nat) (r : Reason) (lower : List (Dispatch.Frame component))
    (past : List (Moment component)) (fired left : List Handler)
    (k : List (Dispatch.Frame component)) (m : Machine component) : Prop where
  stack : ∃ lower', m.stack = k ++ roundOf t r left :: lower' ∧ AllKept lower lower'
  /-- Only handlers that react directly let a throw through. -/
  top : k = [] → (∃ b, m.control = .back b) ∨
    m.control = .thrown ∧ ∃ done h, fired = done ++ [h] ∧ h.Direct
  busy : k ≠ [] → fired ≠ []
  pool : ∀ done h, fired = done ++ [h] → ¬h.Direct → k = [] ∨ ∃ k', k = k' ++ [.turn .pool]
  started : ∀ a ∈ fired, a.AtOnce → (a.number, r) ∈ starts (deeds past) ∨
    (∃ c k', k = .own (.call a.number c r) :: k') ∧ ∃ b, m.control = .back b

/-- The machine does what the handler `a` of a round of the handlers `hs` is there for. -/
inductive Doing (t : Nat) (r : Reason) (hs : List Handler) (a : Handler) (m : Machine component) :
    Prop where
  | reacts {done left lower b} (he : hs = done ++ a :: left)
      (hm : m.stack = roundOf t r (a :: left) :: lower) (hc : m.control = .back b)
  | runs {done left k lower} (he : hs = done ++ a :: left) (hk : k ≠ [])
      (hm : m.stack = k ++ roundOf t r left :: lower)

namespace Going

variable {t : Nat} {r : Reason} {lower k : List (Dispatch.Frame component)}
  {past : List (Moment component)} {fired left : List Handler} {m m' : Machine component}

/-- Callbacks that have started or are about to have done so after a step. -/
theorem started_step (hg : Going t r lower past fired left k m) :
    ∀ a ∈ fired, a.AtOnce → (a.number, r) ∈ starts (deeds (past ++ m.moment?.toList)) := by
  intro a ha honce
  rw [deeds_append, starts_append]
  rcases hg.started a ha honce with h | ⟨⟨c, k', rfl⟩, b, hb⟩
  · exact List.mem_append_left _ h
  · obtain ⟨lower', hs, -⟩ := hg.stack
    have hmoment : m.moment? = some ⟨m.state, .resume (.call a.number c r)⟩ :=
      Machine.moment?_eq (Machine.cause?_back hb hs)
    rw [hmoment]
    exact List.mem_append_right _ (by simp [deeds, deedsAt])

/-- A step of what a handler does. -/
theorem run_step (hg : Going t r lower past fired left k m) (hk : k ≠ []) (hm : m.step? = some m') :
    ∃ k', Going t r lower (past ++ m.moment?.toList) fired left k' m' := by
  obtain ⟨lower', hs, hlower⟩ := hg.stack
  have hstarted := hg.started_step
  have hsome := hg.busy hk
  obtain ⟨done, h, hfired⟩ := List.eq_nil_or_concat fired |>.resolve_left hsome
  rw [List.concat_eq_append] at hfired
  by_cases hdirect : h.Direct
  · obtain ⟨k', f', lower'', hs', hf, hlower', hrun⟩ := Machine.step?_frame hs (.inl hk) hm
    cases hf
    refine ⟨k', ⟨lower'', hs', hlower.trans hlower'⟩, fun hk' => ?_, fun _ => hsome,
      fun done' h' he hno => ?_, fun a ha honce => .inl (hstarted a ha honce)⟩
    · cases hc : m'.control with
      | run op => exact absurd hc (hrun hk' op)
      | back b => exact .inl ⟨b, rfl⟩
      | thrown => exact .inr ⟨rfl, done, h, hfired, hdirect⟩
    · obtain rfl : h' = h := by
        have := hfired.symm.trans he
        simpa using (List.append_inj' this rfl).2.symm
      exact absurd hdirect hno
  · obtain ⟨k₀, rfl⟩ := (hg.pool done h hfired hdirect).resolve_left hk
    by_cases hk₀ : k₀ ≠ [] ∨ ∃ op, m.control = .run op
    · rw [List.append_assoc] at hs
      obtain ⟨k', f', lower₁, hs', hf, hkept, -⟩ := Machine.step?_frame hs hk₀ hm
      cases hf
      obtain ⟨f', lower'', hf, hlower', rfl⟩ := List.forall₂_cons_left_iff.mp hkept
      cases hf
      refine ⟨k' ++ [.turn .pool], ⟨lower'', ?_, hlower.trans hlower'⟩, fun h => ?_, fun _ => hsome,
        fun _ _ _ _ => .inr ⟨k', rfl⟩, fun a ha honce => .inl (hstarted a ha honce)⟩
      · rw [hs', List.append_assoc]
        rfl
      · simp at h
    · obtain rfl : k₀ = [] := by
        by_contra h
        exact hk₀ (.inl h)
      have hs : m.stack = .turn .pool :: roundOf t r left :: lower' := hs
      have hback : m'.stack = roundOf t r left :: lower' ∧ ∃ b, m'.control = .back b := by
        cases hc : m.control with
        | run op => exact absurd (.inr ⟨op, hc⟩) hk₀
        | back b =>
          obtain rfl := Option.some.inj ((Machine.step?_back hc hs).symm.trans hm)
          exact ⟨rfl, _, rfl⟩
        | thrown =>
          obtain rfl := Option.some.inj ((Machine.step?_thrown hc hs).symm.trans hm)
          exact ⟨rfl, _, rfl⟩
      exact ⟨[], ⟨lower', hback.1, hlower⟩, fun _ => .inl hback.2, fun h => absurd rfl h,
        fun _ _ _ _ => .inl rfl, fun a ha honce => .inl (hstarted a ha honce)⟩

/-- The next handler reacts. -/
theorem react_step {a : Handler} (hg : Going t r lower past fired (a :: left) [] m) {b : Reply Answer}
    (hc : m.control = .back b) (hm : m.step? = some m') :
    ∃ k', Going t r lower (past ++ m.moment?.toList) (fired ++ [a]) left k' m' := by
  obtain ⟨lower', hs, hlower⟩ := hg.stack
  have hstarted := hg.started_step
  obtain ⟨k', hr⟩ := reacts_of_step hs hc hm
  refine ⟨k', ⟨lower', hr.stack, hlower⟩, fun _ => .inl ⟨_, hr.control⟩, by simp,
    fun done h he hno => ?_, fun a' ha honce => ?_⟩
  · obtain rfl : a = h := by simpa using (List.append_inj' he rfl).2
    exact hr.pool hno
  · rcases List.mem_append.mp ha with ha | ha
    · exact .inl (hstarted a' ha honce)
    · obtain rfl := List.mem_singleton.mp ha
      exact .inr ⟨hr.starts honce, _, hr.control⟩

/-- No handler is left, and the round is over. -/
theorem return_step (hg : Going t r lower past fired [] [] m) {b : Reply Answer}
    (hc : m.control = .back b) (hm : m.step? = some m') :
    m'.stack.length = lower.length ∧ ∃ b, m'.control = .back b := by
  obtain ⟨lower', hs, hlower⟩ := hg.stack
  obtain rfl := Option.some.inj ((Machine.step?_back hc hs).symm.trans hm)
  refine ⟨?_, .own (.fired true), rfl⟩
  show (Machine.hear { m with stack := lower' } _).stack.length = _
  rw [Machine.hear_stack]
  exact hlower.length_eq.symm

/-- A throw passes the round, with what is left of it. -/
theorem throw_step (hg : Going t r lower past fired left [] m) (hc : m.control = .thrown)
    (hm : m.step? = some m') : m'.stack.length = lower.length ∧ m'.state = m.state ∧
      deeds m.moment?.toList = [.broken t (left.map (·.number))] := by
  obtain ⟨lower', hs, hlower⟩ := hg.stack
  obtain rfl := Option.some.inj ((Machine.step?_thrown hc hs).symm.trans hm)
  refine ⟨hlower.length_eq.symm, rfl, ?_⟩
  rw [Machine.moment?_eq (Machine.cause?_thrown hc hs)]
  rfl

end Going

/-- What the machines `ms` have made of a round of the handlers `hs` that was above the frames
`lower`. -/
inductive Rounds (t : Nat) (r : Reason) (hs : List Handler) (lower : List (Dispatch.Frame component))
    (past : List (Moment component)) (ms : List (Machine component)) (m : Machine component) :
    Prop where
  | going {fired left k} (he : hs = fired ++ left)
      (hg : Going t r lower (past ++ ms.flatMap (·.moment?.toList)) fired left k m)
      (hms : ∀ n ∈ ms, ∃ a ∈ fired, Doing t r hs a n)
  | returned {b} (hm : m.stack.length = lower.length) (hc : m.control = .back b)
  | thrown {done h left} (he : hs = done ++ h :: left) (hdirect : h.Direct)
      (hm : m.stack.length = lower.length)
      (hstarted : ∀ a ∈ done ++ [h], a.AtOnce →
        (a.number, r) ∈ starts (deeds (past ++ ms.flatMap (·.moment?.toList))))
      (hbroken : .broken t (left.map (·.number)) ∈ deeds (ms.flatMap (·.moment?.toList)))
      (hms : ∀ n ∈ ms, (∃ a ∈ done ++ [h], Doing t r hs a n) ∨
        n.state = m.state ∧ n.step? = some m)

namespace Rounds

variable {t : Nat} {r : Reason} {hs : List Handler} {lower : List (Dispatch.Frame component)}
  {past : List (Moment component)} {ms : List (Machine component)} {m m' : Machine component}

theorem step (h : Rounds t r hs lower past ms m) (hlt : lower.length < m.stack.length)
    (hm : m.step? = some m') : Rounds t r hs lower past (ms ++ [m]) m' := by
  have happend : past ++ (ms ++ [m]).flatMap (·.moment?.toList) =
      past ++ ms.flatMap (·.moment?.toList) ++ m.moment?.toList := by simp
  cases h with
  | returned hm | thrown _ _ hm => omega
  | @going fired left k he hg hms =>
    have hmore {fired' : List Handler} (hsub : ∀ a ∈ fired, a ∈ fired')
        (hm : ∃ a ∈ fired', Doing t r hs a m) :
        ∀ n ∈ ms ++ [m], ∃ a ∈ fired', Doing t r hs a n := by
      intro n hn
      rcases List.mem_append.mp hn with hn | hn
      · obtain ⟨a, ha, hdo⟩ := hms n hn
        exact ⟨a, hsub a ha, hdo⟩
      · exact List.mem_singleton.mp hn ▸ hm
    obtain ⟨lower', hstack, hlower⟩ := hg.stack
    by_cases hk : k = []
    · subst hk
      obtain ⟨b, hb⟩ | ⟨hthrown, done, a, hfired, hdirect⟩ := hg.top rfl
      · cases left with
        | nil =>
          obtain ⟨hlength, b', hb'⟩ := hg.return_step hb hm
          exact .returned hlength hb'
        | cons a left =>
          obtain ⟨k', hg'⟩ := hg.react_step hb hm
          refine .going (by simp [he]) (happend ▸ hg')
            (hmore (fun _ => List.mem_append_left [a]) ⟨a, by simp, ?_⟩)
          exact .reacts he hstack hb
      · subst hfired
        obtain ⟨hlength, hstate, hdeeds⟩ := hg.throw_step hthrown hm
        have he : hs = done ++ a :: left := by simp [he]
        refine .thrown he hdirect hlength (fun a ha honce => ?_) ?_ fun n hn => ?_
        · rw [happend]
          exact hg.started_step a ha honce
        · rw [List.flatMap_append, deeds_append]
          exact List.mem_append_right _ (by simp [hdeeds])
        · rcases List.mem_append.mp hn with hn | hn
          · exact .inl (hms n hn)
          · obtain rfl := List.mem_singleton.mp hn
            exact .inr ⟨hstate.symm, hm⟩
    · obtain ⟨k', hg'⟩ := hg.run_step hk hm
      obtain ⟨done, a, hfired⟩ := List.eq_nil_or_concat fired |>.resolve_left (hg.busy hk)
      rw [List.concat_eq_append] at hfired
      refine .going he (happend ▸ hg') (hmore (fun _ h => h) ⟨a, by simp [hfired], ?_⟩)
      have he : hs = done ++ a :: left := by simp [he, hfired]
      exact .runs he hk hstack

/-- What a round comes to until it is over. -/
theorem of_within {m₁ : Machine component} (h : Begun t r hs lower m₁)
    (hw : m₁.Within lower.length ms m) : Rounds t r hs lower past ms m := by
  have hgoing : Going t r lower (past ++ []) [] hs [] m₁ :=
    ⟨⟨lower, h.stack, .refl _⟩, fun _ => .inl ⟨_, h.control⟩, by simp, by simp, by simp⟩
  have hstart : Rounds t r hs lower past [] m₁ := .going rfl hgoing (by simp)
  induction hw with
  | enter hm => exact hstart.step (by simp [h.stack]) hm
  | next _ hd hm ih => exact ih.step hd hm

end Rounds

/-! ### What a throw leaves behind -/

/-- No handler is registered before a ticket has a reason when it has one. -/
theorem Desk.Move.early {d d' : Desk} {ds : List Deed} (m : d.Move ds d') {t : Nat}
    (hr : d.reason? t ≠ none) : early t ds = [] := by
  cases m with
  | @register u _ _ _ hu =>
    have hne : u ≠ t := fun h => hr (h ▸ hu)
    simp [hne]
  | _ => simp

theorem early_later (x : Execution initial) (y : Execution x.machine) {t : Nat} {r : Reason}
    (hr : x.machine.state.reason? t = some r) : early t (history y) = [] := by
  have h := y.run.config_induction (fun past c => Shape c ∧ (desk c).reason? t = some r ∧
    early t (deeds past) = []) ⟨(sound x).1, (desk_reason? _ _).trans hr, rfl⟩
    fun past c cause c' h hstep => ?_
  · exact h.2.2
  · obtain ⟨hc, m⟩ := h.1.moves hstep
    have := m.keep (fun h d => d.reason? t = some r ∧ early t h = []) (fun hd m =>
      ⟨m.stays hd.1, by simp [hd.2, m.early (hd.1 ▸ Option.some_ne_none r)]⟩) h.2
    exact ⟨hc, deeds_append past _ ▸ this⟩

/-- A throw has passed the round of the ticket `t`, which was cancelled for `r`: the handlers `fired`
have reacted, those that are `left` have not. -/
structure Broken (x : Execution initial) (t : Nat) (r : Reason) (fired left : List Handler) :
    Prop where
  reason : x.machine.state.reason? t = some r
  /-- The handlers that were registered before react up to the one that throws, in order. -/
  reacted : reactions t false (history x) = fired.map (·.number)
  /-- Callbacks that are not to wait in a line have started. -/
  started : ∀ a ∈ fired, a.AtOnce → (a.number, r) ∈ starts (history x)
  /-- The others never react or start. -/
  lost : ∀ a ∈ left, ∀ r', (a.number, r') ∉ responses (history x) ∧
    (a.number, r') ∉ starts (history x)
  /-- All attempts but the first are refused, and nobody gets another answer. -/
  refused : ∃ later, attempts t (history x) = (r, true) :: later ∧ (∀ a ∈ later, a.2 = false) ∧
    answers t (history x) = later.map (·.2)
  /-- They are refused at once. -/
  prompt : ∀ h₁ r' h₂, history x = h₁ ++ .attempted t r' false :: h₂ →
    ∃ h₃, h₂ = .answered t false :: h₃
  /-- Handlers that find the reason react at once, and to it. -/
  within : ∀ h₁ n r' h₂, history x = h₁ ++ .registered t n (some r') :: h₂ →
    r' = r ∧ ∃ way h₃, h₂ = .reacted t n r way true :: h₃
  /-- Callbacks that are run in line start at once. -/
  inLine : x.machine.step? = none →
    ∀ h₁ n r' l h₂, history x = h₁ ++ .reacted t n r' .inLine l :: h₂ → ∃ h₃, h₂ = .started n r :: h₃
  /-- Whoever waits and has not been served will be. -/
  awake : ∀ a ∈ x.past, ∀ k label, Joins k t label a → told k x.past = [] →
    .own (.waiter k) ∈ x.machine.ready
  /-- When there is nothing left to do, everyone who waits has been served. -/
  served : x.machine.advance? = none → ∀ a ∈ x.past, ∀ k label, Joins k t label a →
    told k x.past = [.waited label r]

section Breaking

variable (x : Execution initial) {t : Nat} {r : Reason} {fired left : List Handler}

/-- The book of a ticket whose round a throw has passed. -/
theorem book_of_broken (hr : x.machine.state.reason? t = some r)
    (hearly : early t (history x) = (fired ++ left).map (·.number))
    (hbroken : .broken t (left.map (·.number)) ∈ history x) :
    reactions t false (history x) = fired.map (·.number) ∧
    ∃ later, attempts t (history x) = (r, true) :: later ∧ (∀ a ∈ later, a.2 = false) ∧
      answers t (history x) = later.map (·.2) := by
  have hmem : left.map (·.number) ∈ breaks t (history x) :=
    List.mem_filterMap.mpr ⟨_, hbroken, by simp⟩
  cases book x t with
  | live hnone => simp [desk_reason?, hr] at hnone
  | @cancelled r' later hr' _ hattempts hlater htrue hfalse hearly' _ =>
    obtain rfl : r' = r := by simpa [desk_reason?, hr] using hr'.symm
    have hpos : 0 < (breaks t (history x)).length := List.length_pos_of_mem hmem
    have hbreaks : breaks t (history x) = [left.map (·.number)] := by
      obtain ⟨b, hb⟩ := List.length_eq_one_iff.mp (show (breaks t (history x)).length = 1 by omega)
      rw [hb] at hmem ⊢
      rw [List.mem_singleton.mp hmem]
    have hrounds : (desk x.machine.config).roundsOf t = [] := List.length_eq_zero_iff.mp (by omega)
    refine ⟨?_, later, hattempts, hlater, ?_⟩
    · rw [hearly, Desk.restOf, hrounds, hbreaks] at hearly'
      simpa using hearly'.symm
    · -- There is no answer yes, and an answer no for each attempt but the first.
      have hno : ∀ b ∈ answers t (history x), b = false := fun b hb => by
        have : (answers t (history x)).count true = 0 := by omega
        cases b with
        | false => rfl
        | true => exact absurd hb (List.count_eq_zero.mp this)
      have hlength : (answers t (history x)).length = later.length := by
        rw [← hfalse, List.count_eq_length.mpr fun b hb => (hno b hb).symm]
      have hmap : ∀ b ∈ later.map (·.2), b = false := by
        simpa using fun r' b hb => hlater (r', b) hb
      rw [List.eq_replicate_of_mem hno, List.eq_replicate_of_mem hmap, hlength, List.length_map]

/-- A handler that has not reacted in the round of its ticket does so nowhere else. -/
theorem unheard (hearly : early t (history x) = (fired ++ left).map (·.number))
    (hreacted : reactions t false (history x) = fired.map (·.number)) {a : Handler} (ha : a ∈ left)
    (r' : Reason) : (a.number, r') ∉ responses (history x) ∧ (a.number, r') ∉ starts (history x) := by
  have hnever : ∀ r', (a.number, r') ∉ responses (history x) := fun r' h => by
    obtain ⟨u, way, l, h⟩ := mem_responses.mp h
    obtain ⟨found, hreg, rfl⟩ := reaction_registered x (mem_reactions.mpr ⟨r', way, h⟩)
    have hmem : a.number ∈ early t (history x) := by
      rw [hearly]
      exact List.mem_map_of_mem (List.mem_append_right _ ha)
    obtain ⟨rfl, rfl⟩ := registered_unique (numbers_nodup x) (mem_early.mp hmem) hreg
    have hfired : a.number ∈ fired.map (·.number) :=
      hreacted ▸ mem_reactions.mpr ⟨r', way, h⟩
    have hnodup := (early_sublist t (history x)).nodup (numbers_nodup x)
    rw [hearly, List.map_append, List.nodup_append] at hnodup
    exact hnodup.2.2 _ hfired _ (List.mem_map_of_mem ha) rfl
  refine ⟨hnever r', fun h => ?_⟩
  obtain ⟨u, way, l, h⟩ := (sound x).2.tally.origin (List.mem_append_left _ h)
  exact hnever r' (mem_responses.mpr ⟨u, way, l, h⟩)

theorem broken (hr : x.machine.state.reason? t = some r)
    (hearly : early t (history x) = (fired ++ left).map (·.number))
    (hbroken : .broken t (left.map (·.number)) ∈ history x)
    (hstarted : ∀ a ∈ fired, a.AtOnce → (a.number, r) ∈ starts (history x)) :
    Broken x t r fired left := by
  have hprompt := (sound x).2.prompt
  obtain ⟨hreacted, hrefused⟩ := book_of_broken x hr hearly hbroken
  refine ⟨hr, hreacted, hstarted, fun a ha => unheard x hearly hreacted ha, hrefused,
    fun h₁ r' h₂ he => ?_, fun h₁ n r' h₂ he => ?_, fun hm h₁ n r' l h₂ he => ?_,
    fun a ha k label hjoins htold => ?_, fun hm a ha k label hjoins => ?_⟩
  · rw [he] at hprompt
    exact hprompt.heeded
  · rw [he] at hprompt
    obtain ⟨way, h₃, rfl⟩ := hprompt.heeded
    have hreacted : .reacted t n r' way true ∈ history x := by simp [he]
    obtain rfl : r' = r := reason_of_reacted x hr hreacted
    exact ⟨rfl, way, h₃, rfl⟩
  · have hreacted : .reacted t n r' .inLine l ∈ history x := by simp [he]
    obtain rfl : r' = r := reason_of_reacted x hr hreacted
    rw [he, (desk_of_stopped hm).2] at hprompt
    exact hprompt.heeded.resolve_right (by simp)
  · exact ready_of_cancelled x ha hjoins (by simp [hr]) htold
  · rw [told_at_rest x hm ha hjoins, hr]
    rfl

end Breaking

/-! ### The whole of it -/

/-- The next step of `x` cancels the ticket `t` for `r`. Its round then goes through the machines `ms`,
until a throw passes it. -/
structure Throws (x : Execution initial) (t : Nat) (r : Reason) (m₁ : Machine component)
    (ms : List (Machine component)) (m : Machine component) : Prop extends Begins x t r m₁ where
  within : m₁.Within (m₁.stack.length - 1) ms m
  height : m.stack.length = m₁.stack.length - 1
  thrown : m.control = .thrown

/-- The run until the round has begun. -/
def Begins.execution {x : Execution initial} {t : Nat} {r : Reason} {m : Machine component}
    (h : Begins x t r m) : Execution initial :=
  ⟨x.past ++ x.machine.moment?.toList, m, x.run.advance h.step⟩

/-- The round until the throw has passed it. -/
def Throws.course {x : Execution initial} {t : Nat} {r : Reason} {m₁ m : Machine component}
    {ms : List (Machine component)} (h : Throws x t r m₁ ms m) : Execution m₁ :=
  ⟨ms.flatMap (·.moment?.toList), m, h.within.run⟩

/-- The run until the throw has passed the round. -/
def Throws.execution {x : Execution initial} {t : Nat} {r : Reason} {m₁ m : Machine component}
    {ms : List (Machine component)} (h : Throws x t r m₁ ms m) : Execution initial :=
  h.toBegins.execution.andThen h.course

/-- What a throw out of the handler `h` does to a round in which the handlers `done` have come before
it. -/
structure ThrowContract {x : Execution initial} {t : Nat} {r : Reason} {m₁ m : Machine component}
    {ms : List (Machine component)} (w : Throws x t r m₁ ms m) (done : List Handler) (h : Handler)
    (left : List Handler) : Prop where
  pending : x.machine.state.handlersOf t = done ++ h :: left
  direct : h.Direct
  /-- Whatever is done later, the handlers up to `h` have reacted and the others never do; and the
  ticket is one that has been cancelled. -/
  broken : ∀ y : Execution w.execution.machine,
    Broken (w.execution.andThen y) t r (done ++ [h]) left
  /-- Handlers that are registered later find the reason. -/
  later : ∀ (y : Execution w.execution.machine) n found,
    .registered t n found ∈ history y → found = some r
  /-- Another ticket is changed only by what one of the handlers up to `h` does. -/
  others : ∀ u, u ≠ t → m.state.tickets[u]? ≠ x.machine.state.tickets[u]? →
    ∃ n ∈ ms, (∃ a ∈ done ++ [h], Doing t r (x.machine.state.handlersOf t) a n) ∧
      ∃ n', n.step? = some n' ∧ n'.state.tickets[u]? ≠ n.state.tickets[u]?

/-- A throw out of a handler ends the round of its ticket, and leaves the ticket consistent. -/
theorem throw_contract {x : Execution initial} {t : Nat} {r : Reason} {m₁ m : Machine component}
    {ms : List (Machine component)} (w : Throws x t r m₁ ms m) :
    ∃ done h left, ThrowContract w done h left := by
  obtain ⟨⟨lower, hbegun⟩, hothers, hquiet⟩ := w.toBegins.round
  have hheight : m₁.stack.length - 1 = lower.length := by simp [hbegun.stack]
  have hrounds : Rounds t r _ lower (x.past ++ x.machine.moment?.toList) ms m :=
    .of_within hbegun (hheight ▸ w.within)
  cases hrounds with
  | @going fired left k _ hg =>
    obtain ⟨lower', hs, hlower⟩ := hg.stack
    have := congrArg List.length hs
    have := hlower.length_eq
    have := w.height
    simp only [List.length_append, List.length_cons] at *
    omega
  | returned _ hc => simp [w.thrown] at hc
  | @thrown done h left he hdirect hm hstarted hbroken hms =>
    have hearly (y : Execution w.execution.machine) :
        early t (history w.course) = [] ∧ early t (history y) = [] := by
      have h : early t (deeds (w.course.past ++ y.past)) = [] :=
        early_later w.toBegins.execution (w.course.andThen y) w.reason
      rwa [deeds_append, early_append, List.append_eq_nil_iff] at h
    have hreason (y : Execution w.execution.machine) : y.machine.state.reason? t = some r :=
      reason_stays w.toBegins.execution (w.course.andThen y) w.reason
    have hpast (y : Execution w.execution.machine) : history (w.execution.andThen y) =
        history x ++ deeds x.machine.moment?.toList ++ history w.course ++ history y := by
      simp only [history, ExecutionBy.andThen, Throws.execution, Begins.execution, deeds_append]
    have hpending : early t (history x) = (done ++ [h] ++ left).map (·.number) := by
      cases book x t with
      | live _ hkept =>
        rw [hkept, List.append_assoc, List.singleton_append, ← he]
        simp [Desk.handlersOf, Tickets.handlersOf, desk]
      | cancelled hr => simp [desk_reason?, w.live] at hr
    have hafter (y : Execution w.execution.machine) :
        Broken (w.execution.andThen y) t r (done ++ [h]) left := by
      refine broken _ (hreason y) ?_ ?_ fun a ha honce => ?_
      · simp [hpast, hquiet, hearly y, hpending]
      · simp only [hpast, List.mem_append]
        exact .inl (.inr hbroken)
      · have := hstarted a ha honce
        simp only [deeds_append, starts_append] at this
        simp only [hpast, starts_append]
        exact List.mem_append_left _ this
    refine ⟨done, h, left, he, hdirect, hafter, fun y n found hreg => ?_, fun u hu hne => ?_⟩
    · cases found with
      | none => simpa [(hearly y).2] using mem_early.mpr hreg
      | some r' =>
        obtain ⟨h₁, h₂, hsplit⟩ := List.append_of_mem hreg
        have := (hafter y).within _ n r' h₂ (by rw [hpast, hsplit, ← List.append_assoc])
        rw [this.1]
    · obtain ⟨n, hn, n', hstep, hchanged⟩ := w.within.changed (fun s => s.tickets[u]?)
        (by rwa [hothers u hu])
      refine ⟨n, hn, (hms n hn).resolve_right fun hlast => hchanged ?_, n', hstep, hchanged⟩
      obtain rfl := Option.some.inj (hlast.2.symm.trans hstep)
      rw [hlast.1]

/-- A ticket is about to be cancelled to which another one is linked. A callback of that one throws,
and so the handlers are lost that come after it and after the link. -/
def topple : Execution initial :=
  ((ExecutionBy.begin initial).perform 20
    [.own (.source "a"), .own (.handler "a" "first" none [] false), .own (.linked "b" ["a"]),
      .own (.handler "a" "last" none [] false), .own (.handler "b" "boom" none [] true),
      .own (.handler "b" "after" none [] false), .own (.wait "a" "waiter")]).request
    (.own (.cancel "a"))

set_option maxRecDepth 4000 in
/-- The round of the ticket, and where it is left. -/
def toppling : List (Machine component) × Machine component :=
  (Machine.within? 0 20 topple.advance.machine).get rfl

set_option maxRecDepth 4000 in
theorem throw_contract_topple : ∃ w : Throws topple 0 .requested topple.advance.machine toppling.1
    toppling.2, ∃ done h left, ThrowContract w done h left ∧ done.map (·.number) = [0] ∧
      h.number = 1 ∧ left.map (·.number) = [2] := by
  have hrun : Machine.within? 0 20 topple.advance.machine = some toppling :=
    (Option.some_get _).symm
  have w : Throws topple 0 .requested topple.advance.machine toppling.1 toppling.2 :=
    { there := by decide
      live := rfl
      step := rfl
      reason := rfl
      within := Machine.within_of_within? hrun
      height := rfl
      thrown := rfl }
  obtain ⟨done, a, left, hcontract⟩ := throw_contract w
  have hreacted : (done ++ [a]).map (·.number) = [0, 1] :=
    (hcontract.broken (.begin _)).reacted.symm.trans rfl
  have hpending : (done ++ a :: left).map (·.number) = [0, 1, 2] :=
    (congrArg (·.map (·.number)) hcontract.pending).symm
  have hdone : done.map (·.number) = [0] ∧ a.number = 1 := by
    rw [List.map_append] at hreacted
    have hreacted : done.map (·.number) ++ [a.number] = [0] ++ [1] := hreacted
    simpa using List.append_inj' hreacted rfl
  refine ⟨w, done, a, left, hcontract, hdone.1, hdone.2, ?_⟩
  simpa [hdone] using hpending

end Conduit.Cancel
