import Mathlib.Logic.Relation
import Conduit.Proofs.Cancel.Bonds
import Conduit.Proofs.Cancel.Burden
import Conduit.Proofs.Cancel.Census
import Conduit.Proofs.Cancel.Throw

/-!
Cascades end. A ticket is linked only to older ones, so links never lead back to where they come
from; and handlers may cancel, link, create and drop as they like, every call to cancel comes to its
end and gives its answer. Its steps are paid for by the handlers that tickets hold back and that wait
in lines, and on the way there are never more frames than tickets and handlers.
-/

namespace Conduit.Cancel

open Dispatch

/-! ### The round of a ticket ends -/

section Rounds

variable {t : Nat} {r : Reason} {hs fired left : List Handler}
  {lower k : List (Dispatch.Frame component)} {past : List (Moment component)}
  {ms : List (Machine component)} {m m₁ : Machine component}

theorem Going.height (h : Going t r lower past fired left k m) :
    lower.length < m.stack.length := by
  obtain ⟨lower', hs, hlower⟩ := h.stack
  have := hlower.length_eq
  rw [hs, List.length_append, List.length_cons]
  omega

theorem Begun.going (h : Begun t r hs lower m) : Going t r lower [] [] hs [] m :=
  ⟨⟨lower, h.stack, .refl _⟩, fun _ => .inl ⟨_, h.control⟩, by simp, by simp, by simp⟩

/-- The step in which the frame of a round leaves the stack gives the answer yes, or a throw passes
the round. -/
theorem Going.over (h : Going t r lower past fired left k m) (hm : m.step? = some m₁)
    (hend : m₁.stack.length = lower.length) :
    m₁.control = .back (.own (.fired true)) ∨ m₁.control = .thrown := by
  -- As long as handlers are left or something runs above the round, its frame stays.
  by_cases hk : k = []
  · subst hk
    obtain ⟨lower', hs, -⟩ := h.stack
    obtain ⟨b, hb⟩ | ⟨hthrown, -⟩ := h.top rfl
    · cases left with
      | nil =>
        obtain rfl := Option.some.inj ((Machine.step?_back hb hs).symm.trans hm)
        exact .inl rfl
      | cons a left =>
        obtain ⟨k', hgoing⟩ := h.react_step hb hm
        exact absurd hend (Nat.ne_of_gt hgoing.height)
    · obtain rfl := Option.some.inj ((Machine.step?_thrown hthrown hs).symm.trans hm)
      exact .inr hthrown
  · obtain ⟨k', hgoing⟩ := h.run_step hk hm
    exact absurd hend (Nat.ne_of_gt hgoing.height)

theorem Begun.over (h : Begun t r hs lower m₁) (hw : m₁.Within lower.length ms m)
    (hend : m.stack.length = lower.length) :
    m.control = .back (.own (.fired true)) ∨ m.control = .thrown := by
  cases hw with
  | enter hm => exact h.going.over hm hend
  | @next ns n _ hw hd hm =>
    have hrounds : Rounds t r hs lower [] ns n := .of_within h hw
    cases hrounds with
    | going _ hg => exact hg.over hm hend
    | returned hlow | thrown _ _ hlow => exact absurd hlow (Nat.ne_of_gt hd)

end Rounds

/-! ### Calls return -/

/-- The answer that a call to cancel gets. -/
def verdict (s : Tickets) (id : String) : Reply Answer :=
  match s.sources.lookup id with
  | none => .own .unknownSource
  | some t => .own (.fired (s.reason? t).isNone)

section Calls

variable {id : String} {t : Nat} {m m₁ : Machine component}

/-- A call begins the round of the ticket, or is answered at once. -/
theorem begun_or_answered (hc : m.control = .run (.own (.cancel id))) (hm : m.step? = some m₁) :
    (verdict m.state id = .own (.fired true) ∧
      ∃ t, Begun t .requested (m.state.handlersOf t) m.stack m₁) ∨
    m₁.stack = m.stack ∧ m₁.control = .back (verdict m.state id) := by
  obtain rfl := Option.some.inj ((Machine.step?_own hc).symm.trans hm)
  have hreply (h : (exec m.view m.state (.cancel id)).next = .reply (verdict m.state id)) :
      (m.take (exec m.view m.state (.cancel id))).stack = m.stack ∧
        (m.take (exec m.view m.state (.cancel id))).control = .back (verdict m.state id) := by
    rw [Machine.take_reply h]
    exact ⟨m.hear_stack _, rfl⟩
  cases hs : m.state.sources.lookup id with
  | none => exact .inr (hreply (by simp [exec, verdict, hs, reply]))
  | some t =>
    cases hr : m.state.reason? t with
    | some r => exact .inr (hreply (by simp [exec, verdict, hs, cancel, hr]))
    | none =>
      have hnext : (exec m.view m.state (.cancel id)).next =
          .enter [.round t .requested (m.state.handlersOf t) (.own (.fired true))] := by
        simp [exec, hs, cancel, hr]
      refine .inl ⟨by simp [verdict, hs, hr], t, ?_, ?_⟩
      · rw [Machine.take_enter hnext]
        exact congrArg (roundOf t .requested (m.state.handlersOf t) :: ·) (m.hear_stack _)
      · rw [Machine.take_enter hnext]
        rfl

/-- A call that is over has its answer, or a throw has come out of it. -/
theorem verdict_of_within {ms : List (Machine component)}
    (hc : m.control = .run (.own (.cancel id))) (hw : m.Within m.stack.length ms m₁)
    (hend : m₁.stack.length = m.stack.length) :
    m₁.control = .back (verdict m.state id) ∨ m₁.control = .thrown := by
  obtain ⟨ns, -, n, hn, hrest⟩ := hw.first
  rcases begun_or_answered hc hn with ⟨hverdict, t, hbegun⟩ | ⟨hstack, hcontrol⟩
  · rw [hverdict]
    rcases hrest with ⟨-, rfl⟩ | ⟨-, hw⟩
    · exact absurd hend (Nat.ne_of_gt hbegun.going.height)
    · exact hbegun.over hw hend
  · rcases hrest with ⟨-, rfl⟩ | ⟨hlt, -⟩
    · exact .inl hcontrol
    · exact absurd (congrArg List.length hstack) (Nat.ne_of_gt hlt)

/-- A ticket that somebody has tried to cancel has a reason. -/
theorem reason_of_attempt (x : Execution initial) {r : Reason} {first : Bool}
    (h : .attempted t r first ∈ history x) : x.machine.state.reason? t ≠ none := by
  have hmem : (r, first) ∈ attempts t (history x) :=
    List.mem_filterMap.mpr ⟨_, h, by simp⟩
  rw [reason_eq]
  intro hnone
  rw [Option.map_eq_none_iff, List.head?_eq_none_iff] at hnone
  rw [hnone] at hmem
  cases hmem

/-- A call is an attempt. -/
theorem attempted_of_call (hc : m.control = .run (.own (.cancel id)))
    (ht : m.state.sources.lookup id = some t) :
    .attempted t .requested (m.state.reason? t).isNone ∈ deeds m.moment?.toList := by
  rw [Machine.moment?_eq (Machine.cause?_own hc)]
  simp [deeds, deedsAt, execDeeds, cancels?, ht]

end Calls

/-- Tickets and handlers are only ever added. -/
theorem total_le (x : Execution initial) (y : Execution x.machine) :
    x.machine.state.tickets.length ≤ y.machine.state.tickets.length ∧
      x.machine.state.registered ≤ y.machine.state.registered := by
  constructor
  · have h := y.run.config_induction (fun _ c => Shape c ∧
      x.machine.state.tickets.length ≤ c.state.tickets.length)
      ⟨(sound x).1, Nat.le_of_eq (by rw [Machine.config_state])⟩ fun past c cause c' h hstep => ?_
    · exact Machine.config_state y.machine ▸ h.2
    · obtain ⟨hc, m⟩ := h.1.moves hstep
      exact ⟨hc, Nat.le_trans h.2 m.length_le⟩
  · have hx := congrArg List.length (sound x).2.tally.numbers
    have hy := congrArg List.length (sound (x.andThen y)).2.tally.numbers
    have happend : history (x.andThen y) = history x ++ history y := deeds_append x.past y.past
    rw [happend, numbers_append, List.length_append] at hy
    simp only [List.length_range, desk, Machine.config_state] at hx hy
    have hsame : (x.andThen y).machine = y.machine := rfl
    rw [hsame] at hy
    omega

/-- A call to cancel the source `id` is over, after a step of each of the machines `ms`. -/
structure Returned (x : Execution initial) (id : String) (ms : List (Machine component))
    (m : Machine component) : Prop where
  within : x.machine.Within x.machine.stack.length ms m
  /-- It is over when the stack is as low again as before, and not earlier or later. -/
  only : ∀ ns n, x.machine.Within x.machine.stack.length ns n →
    n.stack.length ≤ x.machine.stack.length → ms = ns ∧ m = n
  /-- Nothing of it is left on the stack. -/
  stack : AllKept x.machine.stack m.stack
  /-- The steps are those of the call, and those that were held back. -/
  cost : ms.length + tariff.held m ≤ tariff.held x.machine + 2
  answer : m.control = .back (verdict x.machine.state id) ∨ m.control = .thrown
  /-- A throw comes out of the call only if something in it throws. -/
  calm : Calm (ms.flatMap (·.moment?.toList)) → m.control ≠ .thrown
  cancelled : ∀ t, x.machine.state.sources.lookup id = some t → m.state.reason? t ≠ none
  /-- Each frame is that of a ticket or of a handler that was there or has been made in the call. -/
  depth : ∀ n ∈ ms, depth n ≤ m.state.tickets.length + m.state.registered

section Returned

variable (x : Execution initial) {id : String} {t d : Nat} {ms : List (Machine component)}
  {m n : Machine component}

/-- A ticket has been cancelled when the call to cancel it is over, by this call or before. -/
theorem reason_of_call (hc : x.machine.control = .run (.own (.cancel id)))
    (ht : x.machine.state.sources.lookup id = some t) (hw : x.machine.Within d ms m) :
    m.state.reason? t ≠ none := by
  have hattempt := attempted_of_call hc ht
  obtain ⟨ns, rfl, -⟩ := hw.first
  have hhistory : history (x.andThen ⟨_, m, hw.run⟩) = history x ++
      (deeds x.machine.moment?.toList ++ deeds (ns.flatMap (·.moment?.toList))) := by
    rw [← deeds_append]
    exact deeds_append ..
  have hmem : .attempted t .requested (x.machine.state.reason? t).isNone ∈
      history (x.andThen ⟨_, m, hw.run⟩) :=
    hhistory ▸ List.mem_append_right _ (List.mem_append_left _ hattempt)
  exact reason_of_attempt (x.andThen ⟨_, m, hw.run⟩) hmem

/-- On the way there are no more frames than there are tickets and handlers in the end. -/
theorem depth_of_within (hw : x.machine.Within d ms m) (hn : n ∈ ms) :
    depth n ≤ m.state.tickets.length + m.state.registered := by
  obtain ⟨⟨past, hpast⟩, later, hlater⟩ := hw.run_of_mem hn
  have hdepth : depth n ≤ n.state.tickets.length + n.state.registered :=
    depth_le (x.andThen ⟨past, n, hpast⟩)
  have htotal : n.state.tickets.length ≤ m.state.tickets.length ∧
      n.state.registered ≤ m.state.registered :=
    total_le (x.andThen ⟨past, n, hpast⟩) ⟨later, m, hlater⟩
  omega

theorem cancel_returns (hc : x.machine.control = .run (.own (.cancel id))) :
    ∃ ms m, Returned x id ms m := by
  obtain ⟨ms, m, hwithin, hkept, -, hcost⟩ := Machine.call_ends tariff_sound hc
  have hop : tariff.op (.own (.cancel id)) = 2 := by simp [Tariff.op, tariff, Action.price]
  have hlow : m.stack.length = x.machine.stack.length := hkept.length_eq.symm
  exact ⟨ms, m,
    { within := hwithin
      only := fun _ _ hw h => hwithin.unique hw (Nat.le_of_eq hlow) h
      stack := hkept
      cost := by omega
      answer := verdict_of_within hc hwithin hlow
      calm := hwithin.not_thrown hc hkept
      cancelled := fun _ ht => reason_of_call x hc ht hwithin
      depth := fun _ hn => depth_of_within x hwithin hn }⟩

end Returned

/-! ### The contract -/

/-- Links lead to older tickets, in any number of steps. -/
theorem lt_of_bonds (x : Execution initial) {target t : Nat}
    (h : Relation.TransGen (fun target t => (target, t) ∈ bonds x.past) target t) : t < target := by
  induction h with
  | single h => exact ((tied x).older _ _ h).1
  | tail _ h ih => exact Nat.lt_trans ((tied x).older _ _ h).1 ih

/-- Cascades end, in every state that a run comes to. -/
structure Termination (x : Execution initial) : Prop where
  /-- No ticket is linked to itself over others, by all links that have ever been made. -/
  acyclic : ∀ t, ¬Relation.TransGen (fun target t => (target, t) ∈ bonds x.past) t t
  /-- The links that are left are among them. -/
  made : ∀ target t, Linked x.machine.config target t → (target, t) ∈ bonds x.past
  /-- Whatever is run comes down to any height of the stack. -/
  ends : ∀ d m₁, x.machine.step? = some m₁ →
    ∃ ms m, x.machine.Within d ms m ∧ m.stack.length ≤ d
  /-- Every call to cancel is answered, also out of a callback. -/
  returns : ∀ id, x.machine.control = .run (.own (.cancel id)) → ∃ ms m, Returned x id ms m
  /-- A ticket makes its transition once. -/
  transitions : (won (history x)).Nodup ∧
    ∀ t, t ∈ won (history x) ↔ x.machine.state.reason? t ≠ none
  /-- A handler is consumed once. -/
  consumed : ((responses (history x)).map (·.1)).Nodup
  /-- No more rounds begin than there are tickets, and no more handlers react than there are. -/
  entered : (won (history x)).length ≤ x.machine.state.tickets.length ∧
    (responses (history x)).length ≤ x.machine.state.registered
  /-- There are never more rounds and callbacks under way than tickets and handlers. -/
  depth : depth x.machine ≤ x.machine.state.tickets.length + x.machine.state.registered

/-- Cascades of cancellations end, whatever handlers do. -/
theorem termination_contract (x : Execution initial) : Termination x where
  acyclic t h := Nat.lt_irrefl t (lt_of_bonds x h)
  made := (tied x).only
  ends d _ hm := Machine.within_ends tariff_sound d hm
  returns _ hc := cancel_returns x hc
  transitions := ⟨won_nodup x, mem_won x⟩
  consumed := responses_once x
  entered := ⟨won_length_le x, responses_length_le x⟩
  depth := depth_le x

/-- A ticket is about to be cancelled to which two others are linked, one of them over the other as
well. A callback makes a fourth ticket and registers handlers on it and on the first one, of which one drops it and
another cancels it; and it cancels what is being cancelled. -/
def ramify : Execution initial :=
  ((ExecutionBy.begin initial).perform 20
    [.own (.source "a"), .own (.linked "b" ["a"]), .own (.linked "c" ["a", "b"]),
      .own (.handler "b" "branch" none
        [.own (.linked "d" ["c"]), .own (.handler "d" "leaf" none [.own (.drop "d")] false),
          .own (.handler "a" "late" none [.own (.cancel "d")] false), .own (.cancel "a")]
        false)]).request (.own (.cancel "a"))

set_option maxRecDepth 4000 in
/-- The cascade, and where it ends. -/
def ramifying : List (Machine component) × Machine component :=
  (Machine.within? 0 40 ramify.machine).get rfl

set_option maxRecDepth 4000 in
theorem termination_contract_ramify : bonds ramify.past = [(1, 0), (2, 0), (2, 1)] ∧
    (¬Relation.TransGen (fun target t => (target, t) ∈ bonds ramify.past) 2 2) ∧
    Returned ramify "a" ramifying.1 ramifying.2 ∧
    ramifying.2.control = .back (.own (.fired true)) ∧
    ramifying.1.length = 23 ∧ tariff.held ramify.machine = 34 ∧
    (ramifying.1.map depth).max? = some 4 ∧ ramifying.2.state.tickets.length = 4 ∧
    ramifying.2.state.registered = 7 := by
  have h := termination_contract ramify
  have hrun : Machine.within? 0 40 ramify.machine = some ramifying := (Option.some_get _).symm
  obtain ⟨ms, m, hreturned⟩ := h.returns "a" rfl
  obtain ⟨rfl, rfl⟩ := hreturned.only _ _ (Machine.within_of_within? hrun) (Nat.le_refl 0)
  exact ⟨rfl, h.acyclic 2, hreturned, rfl, rfl, rfl, rfl, rfl, rfl⟩

end Conduit.Cancel
