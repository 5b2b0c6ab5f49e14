import Conduit.Proofs.Cancel.Bonds
import Mathlib.Logic.Relation

/-!
How cancellations spread over links. Every cancellation begins with a request or with a timer that has
come to its time, and goes on from a ticket to those that are linked to it, never the other way.
Between operations it has reached everything that somebody refers to; and what nobody refers to any
more is out of it for good, whatever its links.
-/

namespace Conduit.Cancel

open Dispatch

/-- A ticket is cancelled by itself at this moment: its source is cancelled, or its timer has come to
its time. -/
inductive Ends (t : Nat) : Reason → Moment component → Prop where
  | request {s view a} (h : cancels? s a = some t) : Ends t .requested ⟨s, .exec view a⟩
  | timeout {s k} (h : expires? s k = some t) : Ends t .timeout ⟨s, .poll (.timer k)⟩

/-- A ticket `t` gets its reason from a ticket `u` at this moment: the link of `u` is followed, or `t` is
linked to `u`, which has the reason. -/
inductive Passes (u t : Nat) (r : Reason) : Moment component → Prop where
  | follow {s n rest after} (h : s.Alive t) :
      Passes u t r ⟨s, .resume (.round u r (⟨n, .link t⟩ :: rest) after)⟩
  | link {s view a} (ht : t = s.tickets.length) (h : u ∈ links? s a) (hr : s.reason? u = some r) :
      Passes u t r ⟨s, .exec view a⟩

/-- A ticket that had no reason got it from another one in a run. -/
def Passed (past : List (Moment component)) (u t : Nat) : Prop :=
  ∃ q ∈ past, ∃ r, q.state.reason? t = none ∧ Passes u t r q

/-! ### Where reasons come from -/

/-- A ticket gets a reason when an attempt to cancel it is the first. -/
theorem Desk.Move.reason {d d' : Desk} {ds : List Deed} (m : d.Move ds d') {t : Nat} {r : Reason}
    (hr : d'.reason? t = some r) : d.reason? t = some r ∨ .attempted t r true ∈ ds := by
  cases m with
  | create =>
    left
    by_cases hlt : t < d.tickets.length
    · rwa [reason?, List.getElem?_append_left hlt] at hr
    · simp only [reason?, Nat.not_lt.mp hlt, List.getElem?_append_right] at hr
      cases hi : t - d.tickets.length <;> simp [hi] at hr
  | @register u a =>
    left
    by_cases hut : u = t
    · subst hut
      simpa [reason?, Option.bind_map, Function.comp_def] using hr
    · simpa [reason?, hut] using hr
  | registerLate _ _ hg =>
    rw [reason?, hg.tickets.1] at hr
    exact .inl hr
  | @win u r' k _ hu =>
    by_cases hut : u = t
    · subst hut
      have hlt : u < d.tickets.length := (List.getElem?_eq_some_iff.mp hu).1
      obtain rfl : r' = r := by simpa [reason?, hlt] using hr
      exact .inr List.mem_cons_self
    · simp only [reason?, List.getElem?_set_ne hut] at hr
      exact .inl hr
  | react _ _ hg =>
    rw [reason?, hg.tickets.1] at hr
    exact .inl hr
  | _ => exact .inl hr

theorem Desk.Moves.reason {d d' : Desk} {ds : List Deed} (m : d.Moves ds d') {t : Nat} {r : Reason}
    (hr : d'.reason? t = some r) : d.reason? t = some r ∨ .attempted t r true ∈ ds := by
  induction m with
  | none => exact .inl hr
  | more _ m ih =>
    rcases m.reason hr with hr | hmem
    · exact (ih hr).imp_right (List.mem_append_left _)
    · exact .inr (List.mem_append_right _ hmem)

/-- Linking passes on the reason of one of the tickets. -/
theorem linked_of_attempted {s : Tickets} {target t : Nat} {r : Reason} {first : Bool}
    (ts : List Nat) (hts : ∀ u ∈ ts, u ≠ target)
    (h : .attempted t r first ∈ linkDeeds s target ts) :
    t = target ∧ ∃ u ∈ ts, s.reason? u = some r := by
  induction ts generalizing s with
  | nil => cases h
  | cons u ts ih =>
    rcases List.mem_append.mp h with hone | hrest
    · cases hu : s.reason? u with
      | none => simp [hu] at hone
      | some r' =>
        obtain ⟨rfl, rfl, -⟩ : t = target ∧ r = r' ∧ first = _ := by simpa [hu] using hone
        exact ⟨rfl, u, List.mem_cons_self, hu⟩
    · obtain ⟨rfl, v, hv, hr⟩ := ih (fun v hv => hts v (List.mem_cons_of_mem u hv)) hrest
      rw [reason?_link (hts v (List.mem_cons_of_mem u hv))] at hr
      exact ⟨rfl, v, List.mem_cons_of_mem u hv, hr⟩

/-- Whoever tries to cancel a ticket does so by itself or passes a reason on. -/
theorem cause_of_attempted {q : Moment component} (hs : q.state.Housed) {t : Nat} {r : Reason}
    {first : Bool} (h : .attempted t r first ∈ deedsAt q) : Ends t r q ∨ ∃ u, Passes u t r q := by
  have hhanded (v : Nat) (l : Bool) (next : Next signature) :
      .attempted t r first ∉ handed v l next := by
    unfold handed
    split <;> simp
  have hanswer (v : Nat) (next : Next signature) : .attempted t r first ∉ answer v next := by
    unfold answer
    split <;> simp
  obtain ⟨s, cause⟩ := q
  cases cause with
  | exec view a =>
    simp only [deedsAt, execDeeds, List.mem_append, List.mem_flatMap] at h
    rcases h with (⟨v, -, h⟩ | ⟨v, hv, h⟩) | h
    · simp [hhanded] at h
    · rcases List.mem_cons.mp h with he | h
      · cases he
        exact .inl (.request (Option.mem_toList.mp hv))
      · exact absurd h (hanswer _ _)
    · obtain ⟨hnew, u, hu, hr⟩ := linked_of_attempted (links? s a)
        (fun u hu => Nat.ne_of_lt (links?_lt hs hu)) h
      have hr : s.reason? u = some r := by
        rwa [Tickets.reason?, Tickets.addTicket, List.getElem?_append_left (links?_lt hs hu)] at hr
      exact .inr ⟨u, .link hnew hu hr⟩
  | resume f =>
    rcases f with ⟨v, r', rest, after⟩ | ⟨n, cb, r'⟩
    · rcases rest with _ | ⟨⟨n, cb | target⟩, rest⟩
      · exact absurd h (hanswer _ _)
      · exact absurd h (hhanded _ _ _)
      · simp only [deedsAt, roundDeeds, followDeeds, List.mem_cons, reduceCtorEq, false_or] at h
        split at h
        · rename_i halive
          rcases List.mem_cons.mp h with he | h
          · cases he
            exact .inr ⟨v, .follow halive⟩
          · split at h <;> simp at h
        · cases h
    · simp [deedsAt] at h
  | unwind f =>
    cases f <;> simp [deedsAt] at h
  | poll task =>
    cases task with
    | waiter => simp [deedsAt] at h
    | timer k =>
      obtain ⟨v, hv, h⟩ := List.mem_flatMap.mp h
      rcases List.mem_cons.mp h with he | h
      · cases he
        exact .inl (.timeout (Option.mem_toList.mp hv))
      · exact absurd h (hanswer _ _)
  | tick => simp [deedsAt] at h

/-- A ticket that gets a reason in a step is cancelled by itself or gets it from another one. -/
theorem reason_step {c c' : Config component} {cause : Option (Cause component)} (hc : Shape c)
    (h : c.Step cause c') {t : Nat} {r : Reason} (hr : c'.state.reason? t = some r) :
    c.state.reason? t = some r ∨
      ∃ q ∈ c.moment cause, c.state = q.state ∧ (Ends t r q ∨ ∃ u, Passes u t r q) := by
  have hreason : (desk c').reason? t = some r := hr
  refine ((hc.moves h).2.reason hreason).imp_right fun hmem => ?_
  obtain ⟨q, hq, hdeed⟩ := List.mem_flatMap.mp hmem
  have hstate : c.state = q.state := by
    obtain ⟨cause, -, rfl⟩ := List.mem_map.mp hq
    rfl
  exact ⟨q, hq, hstate, cause_of_attempted (hstate ▸ hc.housed) hdeed⟩

/-- What a ticket passes on is its own reason, to a ticket that is linked to it. -/
theorem bond_of_passes {past : List (Moment component)} {c c' : Config component}
    {cause : Option (Cause component)} (hc : Tied past c) (hsound : (desk c).Sound (deeds past))
    (h : c.Step cause c') {q : Moment component} (hq : q ∈ c.moment cause) {u t : Nat} {r : Reason}
    (hp : Passes u t r q) :
    (t, u) ∈ bonds (past ++ c.moment cause) ∧ c.state.reason? u = some r := by
  rcases cause with _ | cause
  · simp [Config.moment] at hq
  obtain rfl : q = ⟨c.state, cause⟩ := by simpa [Config.moment] using hq
  rw [bonds_append]
  cases hp with
  | @follow _ n rest after =>
    cases h with
    | resume hn ht =>
      constructor
      · apply List.mem_append_left
        apply hc.only
        refine .inr ⟨.round u r (⟨n, .link t⟩ :: rest) after, ?_, rfl, _, List.mem_cons_self, rfl⟩
        simp [Config.frames, hn]
      · refine hsound.tally.rounds ⟨u, r, ⟨n, .link t⟩ :: rest⟩ ?_
        simp [desk, hn]
  | @link _ view a ht hu hr =>
    subst ht
    refine ⟨List.mem_append_right _ ?_, hr⟩
    exact List.mem_flatMap.mpr ⟨_, hq, List.mem_map.mpr ⟨u, hu, rfl⟩⟩

/-- Whoever has a reason has been cancelled by itself, or has it from a ticket that it is linked to. -/
structure Traced (past : List (Moment component)) (c : Config component) : Prop where
  tied : Tied past c
  sound : (desk c).Sound (deeds past)
  origin : ∀ t r, c.state.reason? t = some r →
    (∃ q ∈ past, q.state.reason? t = none ∧ Ends t r q) ∨
      ∃ u, Passed past u t ∧ c.state.reason? u = some r
  passed : ∀ u t, Passed past u t → (t, u) ∈ bonds past ∧ c.state.reason? u ≠ none

theorem Traced.step {past : List (Moment component)} {c c' : Config component}
    {cause : Option (Cause component)} (hc : Traced past c) (h : c.Step cause c') :
    Traced (past ++ c.moment cause) c' := by
  obtain ⟨-, hmoves⟩ := hc.tied.shape.moves h
  have hpassed {u t : Nat} (hp : Passed past u t) : Passed (past ++ c.moment cause) u t := by
    obtain ⟨q, hq, hp⟩ := hp
    exact ⟨q, List.mem_append_left _ hq, hp⟩
  refine ⟨hc.tied.step h, ?_, fun t r hr => ?_, fun u t hp => ?_⟩
  · rw [deeds_append]
    exact hmoves.keep (fun h d => d.Sound h) Desk.Sound.move hc.sound
  · have hold (hr : c.state.reason? t = some r) :
        (∃ q ∈ past ++ c.moment cause, q.state.reason? t = none ∧ Ends t r q) ∨
          ∃ u, Passed (past ++ c.moment cause) u t ∧ c'.state.reason? u = some r := by
      rcases hc.origin t r hr with ⟨q, hq, hend⟩ | ⟨u, hp, hu⟩
      · exact .inl ⟨q, List.mem_append_left _ hq, hend⟩
      · have hstays : (desk c').reason? u = some r := hmoves.stays hu
        exact .inr ⟨u, hpassed hp, hstays⟩
    rcases reason_step hc.tied.shape h hr with hr | ⟨q, hq, hstate, hcause⟩
    · exact hold hr
    · cases hnone : c.state.reason? t with
      | some r' =>
        have hstays : (desk c').reason? t = some r' := hmoves.stays hnone
        obtain rfl : r' = r := Option.some.inj (hstays.symm.trans hr)
        exact hold hnone
      | none =>
        rw [hstate] at hnone
        rcases hcause with hend | ⟨u, hp⟩
        · exact .inl ⟨q, List.mem_append_right _ hq, hnone, hend⟩
        · have hu := (bond_of_passes hc.tied hc.sound h hq hp).2
          have hstays : (desk c').reason? u = some r := hmoves.stays hu
          exact .inr ⟨u, ⟨q, List.mem_append_right _ hq, r, hnone, hp⟩, hstays⟩
  · have hstays (hu : c.state.reason? u ≠ none) : c'.state.reason? u ≠ none := by
      obtain ⟨r, hr⟩ := Option.ne_none_iff_exists'.mp hu
      have hr' : (desk c').reason? u = some r := hmoves.stays hr
      exact Option.ne_none_iff_exists'.mpr ⟨r, hr'⟩
    obtain ⟨q, hq, r, hnone, hp⟩ := hp
    rcases List.mem_append.mp hq with hq | hq
    · obtain ⟨hbond, hu⟩ := hc.passed u t ⟨q, hq, r, hnone, hp⟩
      rw [bonds_append]
      exact ⟨List.mem_append_left _ hbond, hstays hu⟩
    · obtain ⟨hbond, hu⟩ := bond_of_passes hc.tied hc.sound h hq hp
      exact ⟨hbond, hstays (by simp [hu])⟩

theorem traced (x : Execution initial) : Traced x.past x.machine.config := by
  refine x.run.config_induction Traced ⟨tied (.begin initial), (sound (.begin initial)).2, ?_, ?_⟩
    fun past c cause c' hc hstep => hc.step hstep
  · intro t r hr
    simp [initial, Machine.config, Machine.bare, Tickets.reason?] at hr
  · rintro u t ⟨q, hq, -⟩
    cases hq

/-! ### What nobody refers to -/

/-- A ticket without a reason that nobody refers to gets none. -/
theorem forsaken_step {c c' : Config component} {cause : Option (Cause component)} (hc : Shape c)
    (h : c.Step cause c') {t : Nat} (hlt : t < c.state.tickets.length)
    (halive : ¬c.state.Alive t) (hnone : c.state.reason? t = none) :
    c'.state.reason? t = none := by
  cases hr : c'.state.reason? t with
  | none => rfl
  | some r =>
    exfalso
    rcases reason_step hc h hr with hr | ⟨q, -, hstate, hcause⟩
    · rw [hnone] at hr
      cases hr
    · rw [hstate] at halive hlt
      rcases hcause with (hsource | hexpires) | ⟨u, hfollow | ⟨hnew, -, -⟩⟩
      · rename_i s view a
        cases a with
        | cancel id => exact halive (Tickets.alive_of_source hsource)
        | _ => cases hsource
      · obtain ⟨timer, htimer, rfl⟩ := Option.map_eq_some_iff.mp hexpires
        have hdue := (Option.filter_eq_some_iff.mp htimer).2
        simp only [decide_eq_true_eq] at hdue
        exact halive hdue.2.2
      · exact halive hfollow
      · exact absurd hlt (by simp [hnew])

/-- Only a name refers to a ticket. -/
structure OnlyName (s : Tickets) (id : String) (t : Nat) : Prop where
  sources : ∀ e ∈ s.sources, e.2 = t → e.1 = id
  kept : ∀ e ∈ s.kept, e.2 = t → e.1 = id
  waiters : ∀ w ∈ s.waiters, w.ticket = t → w.finished = true

/-- With its last name a ticket is given up. -/
theorem OnlyName.drop {s : Tickets} {id : String} {t : Nat} (h : OnlyName s id t) :
    ¬(s.drop id).Alive t := by
  rintro (⟨e, he, ht⟩ | ⟨e, he, ht⟩ | ⟨w, hw, ht, hf⟩)
  · obtain ⟨he, hid⟩ := List.mem_filter.mp he
    simp [h.sources e he ht] at hid
  · obtain ⟨he, hid⟩ := List.mem_filter.mp he
    simp [h.kept e he ht] at hid
  · rw [h.waiters w hw ht] at hf
    cases hf

/-- A ticket takes no part in the cancellations of a run: it has no reason and nobody refers to it, none
of its handlers, be they callbacks or links, has reacted, and it has passed nothing on. -/
structure Forsaken (x : Execution initial) (t : Nat) : Prop where
  live : x.machine.state.reason? t = none
  forgotten : ¬x.machine.state.Alive t
  quiet : ∀ l, reactions t l (history x) = []
  passed : ∀ u, ¬Passed x.past t u

/-- A ticket without a reason that nobody refers to has no part in anything, and never will. -/
theorem forsaken (x : Execution initial) {t : Nat} (hlt : t < x.machine.state.tickets.length)
    (halive : ¬x.machine.state.Alive t) (hnone : x.machine.state.reason? t = none)
    (y : Execution x.machine) : Forsaken (x.andThen y) t := by
  have hy := y.run.config_induction
    (fun _ c => Shape c ∧ t < c.state.tickets.length ∧ ¬c.state.Alive t ∧ c.state.reason? t = none)
    ⟨(sound x).1, by simpa using hlt, by simpa using halive, by simpa using hnone⟩
    fun past c cause c' hc hstep => by
      obtain ⟨hshape, hlt, halive, hnone⟩ := hc
      obtain ⟨hshape', hmoves⟩ := hshape.moves hstep
      exact ⟨hshape', Nat.lt_of_lt_of_le hlt hmoves.length_le,
        fun h => halive (alive_step hlt hstep h), forsaken_step hshape hstep hlt halive hnone⟩
  obtain ⟨-, -, hforgotten, hlive⟩ := hy
  rw [Machine.config_state] at hforgotten hlive
  refine ⟨hlive, hforgotten, fun l => ?_, fun u hp => ?_⟩
  · cases book (x.andThen y) t with
    | live _ _ _ _ _ hreactions => exact hreactions l
    | cancelled hr =>
      have hr : y.machine.state.reason? t = some _ := (desk_reason? ..).symm.trans hr
      rw [hlive] at hr
      cases hr
  · have hu := ((traced (x.andThen y)).passed t u hp).2
    rw [Machine.config_state] at hu
    exact hu hlive

/-! ### The whole of it -/

/-- How cancellations spread over the links of a run. -/
structure Propagation (x : Execution initial) : Prop where
  /-- Between operations a ticket has been cancelled if any ticket ever was that it is linked to, be it
  directly or by way of others; somebody must refer to it and to those on the way. -/
  carried : Undisturbed x.past → x.machine.step? = none → ∀ t u,
    Relation.TransGen (fun a b => (a, b) ∈ bonds x.past ∧ x.machine.state.Alive a) t u →
      u ∈ won (history x) → x.machine.state.reason? t ≠ none
  /-- A ticket that was cancelled neither by its source nor by its timer has the reason of one that it
  is linked to. -/
  adopted : ∀ t r, x.machine.state.reason? t = some r →
    (∃ q ∈ x.past, q.state.reason? t = none ∧ Ends t r q) ∨
      ∃ u, (t, u) ∈ bonds x.past ∧ x.machine.state.reason? u = some r
  /-- Every reason comes from a ticket that was cancelled by itself, passed on from one to the next. -/
  rooted : ∀ t r, x.machine.state.reason? t = some r →
    ∃ w, Relation.ReflTransGen (Passed x.past) w t ∧
      ∃ q ∈ x.past, q.state.reason? w = none ∧ Ends w r q
  /-- A ticket passes nothing on, by whatever way, to one that it is linked to. -/
  oneWay : ∀ t u, (t, u) ∈ bonds x.past → ¬Relation.TransGen (Passed x.past) t u
  /-- Links do not keep a ticket: it is given up with the last name that refers to it. -/
  dropped : ∀ id t m, x.machine.control = .run (.own (.drop id)) →
    OnlyName x.machine.state id t → x.machine.step? = some m → ¬m.state.Alive t
  /-- A ticket that has been given up before it was cancelled has no part in anything any more. -/
  forsaken : ∀ t, t < x.machine.state.tickets.length → ¬x.machine.state.Alive t →
    x.machine.state.reason? t = none → ∀ y : Execution x.machine, Forsaken (x.andThen y) t

section Contract

variable (x : Execution initial)

theorem carried (hu : Undisturbed x.past) (hm : x.machine.step? = none) {t u : Nat}
    (h : Relation.TransGen (fun a b => (a, b) ∈ bonds x.past ∧ x.machine.state.Alive a) t u)
    (hwon : u ∈ won (history x)) : x.machine.state.reason? t ≠ none := by
  induction h using Relation.TransGen.head_induction_on with
  | single h => exact cancelled_of_bond x hu hm h.1 h.2 ((mem_won x u).mp hwon)
  | head h _ ih => exact cancelled_of_bond x hu hm h.1 h.2 ih

theorem passed_lt {u t : Nat} (h : Passed x.past u t) : u < t :=
  ((tied x).older t u ((traced x).passed u t h).1).1

theorem transGen_passed_lt {u t : Nat} (h : Relation.TransGen (Passed x.past) u t) : u < t := by
  induction h with
  | single h => exact passed_lt x h
  | tail _ h ih => exact Nat.lt_trans ih (passed_lt x h)

/-- The way back from a ticket leads to older and older ones, and so comes to an end. -/
theorem rooted (t : Nat) (r : Reason) (hr : x.machine.state.reason? t = some r) :
    ∃ w, Relation.ReflTransGen (Passed x.past) w t ∧
      ∃ q ∈ x.past, q.state.reason? w = none ∧ Ends w r q := by
  induction t using Nat.strongRecOn with
  | ind t ih =>
    rcases (traced x).origin t r (by simpa using hr) with hend | ⟨u, hp, hu⟩
    · exact ⟨t, .refl, hend⟩
    · obtain ⟨w, hw, hend⟩ := ih u (passed_lt x hp) (by simpa using hu)
      exact ⟨w, hw.tail hp, hend⟩

theorem dropped {id : String} {t : Nat} {m : Machine component}
    (hrun : x.machine.control = .run (.own (.drop id))) (h : OnlyName x.machine.state id t)
    (hm : x.machine.step? = some m) : ¬m.state.Alive t := by
  have htake : x.machine.take (exec x.machine.view x.machine.state (.drop id)) = m :=
    Option.some.inj ((Machine.step?_own hrun).symm.trans hm)
  have hstate := (Machine.take_config x.machine
    (exec x.machine.view x.machine.state (.drop id))).state_eq (·.Alive t) fun _ _ => rfl
  rw [htake, Machine.config_state] at hstate
  rw [hstate]
  exact h.drop

/-- Cancellations spread over links, to everything that somebody refers to and in one direction. -/
theorem propagation_contract : Propagation x where
  carried hu hm _ _ h hwon := carried x hu hm h hwon
  adopted t r hr := by
    refine ((traced x).origin t r (by simpa using hr)).imp_right ?_
    rintro ⟨u, hp, hu⟩
    exact ⟨u, ((traced x).passed u t hp).1, by simpa using hu⟩
  rooted := rooted x
  oneWay t u hbond hpassed := by
    have hback := transGen_passed_lt x hpassed
    have hforth := ((tied x).older t u hbond).1
    omega
  dropped _ _ _ hrun h hm := dropped x hrun h hm
  forsaken _ hlt halive hnone y := forsaken x hlt halive hnone y

end Contract

/-- Two tickets are linked to a third one, and a fourth to both of them. Another way leads over a
ticket that is dropped before the third one is cancelled. -/
def diamond : Execution initial :=
  (ExecutionBy.begin initial).perform 20
    [.own (.source "a"), .own (.linked "b" ["a"]), .own (.linked "c" ["a"]),
      .own (.linked "d" ["b", "c"]), .own (.linked "gone" ["a"]), .own (.linked "e" ["gone"]),
      .own (.drop "gone"), .own (.cancel "a")]

set_option maxRecDepth 4000 in
theorem propagation_contract_diamond :
    bonds diamond.past = [(1, 0), (2, 0), (3, 1), (3, 2), (4, 0), (5, 4)] ∧
    diamond.machine.state.reason? 3 ≠ none ∧
    (∃ u, (3, u) ∈ bonds diamond.past ∧ diamond.machine.state.reason? u = some .requested) ∧
    ¬Relation.TransGen (Passed diamond.past) 3 1 ∧ Forsaken diamond 4 ∧
    diamond.machine.state.reason? 5 = none := by
  have hu : Undisturbed diamond.past := by decide
  have hm : diamond.machine.step? = none := rfl
  have hbonds : bonds diamond.past = [(1, 0), (2, 0), (3, 1), (3, 2), (4, 0), (5, 4)] := rfl
  have h := propagation_contract diamond
  have hthird : (3, 1) ∈ bonds diamond.past := by simp [hbonds]
  have hway : Relation.TransGen
      (fun a b => (a, b) ∈ bonds diamond.past ∧ diamond.machine.state.Alive a) 3 0 :=
    .head ⟨hthird, by decide⟩ (.single ⟨by simp [hbonds], by decide⟩)
  refine ⟨hbonds, h.carried hu hm 3 0 hway (by decide), ?_, h.oneWay 3 1 hthird,
    h.forsaken 4 (by decide) (by decide) rfl (.begin _), rfl⟩
  exact ⟨1, hthird, rfl⟩

end Conduit.Cancel
