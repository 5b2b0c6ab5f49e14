import Conduit.Proofs.Cancel.Links
import Conduit.Proofs.Cancel.Order
import Conduit.Proofs.Cancel.Referred

/-!
Which reason a linked ticket gets. It is that of the ticket whose round comes to its link first. A
ticket that was cancelled before that one is still in its round then: its own handlers have cancelled
the other one, whose round is above it. So the ticket that was cancelled first gives its reason just
when no other linked ticket has been cancelled by the time at which a link is followed.
-/

namespace Conduit.Cancel

open Dispatch

/-! ### Linking -/

/-- A new ticket `target` is linked to the tickets `ts`, none of which has been cancelled; `m` is the
machine afterwards. -/
structure Links (x : Execution initial) (target : Nat) (ts : List Nat) (m : Machine component) :
    Prop where
  asked : ∃ id ids, x.machine.control = .run (.own (.linked id ids)) ∧
    ids.filterMap x.machine.state.ticket? = ts
  number : x.machine.state.tickets.length = target
  live : ∀ t ∈ ts, x.machine.state.reason? t = none
  step : x.machine.step? = some m

theorem length_links (s : Tickets) (target : Nat) (ts : List Nat) :
    (ts.foldl (fun s t => s.link target t) s).tickets.length = s.tickets.length := by
  induction ts generalizing s with
  | nil => rfl
  | cons t ts ih => exact (ih _).trans (length_link s target t)

/-- Every link leads to a ticket that there is. -/
theorem Shape.linked_lt {c : Config component} (h : Shape c) {target t : Nat}
    (hl : Linked c target t) : target < c.state.tickets.length := by
  rcases hl with ⟨a, ha, hlink⟩ | ⟨f, hf, hholds⟩
  · exact h.housed.handlersOf ha _ hlink
  · cases f with
    | call => exact hholds.elim
    | round u r rest after =>
      obtain ⟨-, a, ha, hlink⟩ := hholds
      rcases List.mem_append.mp hf with hf | hf
      · exact (h.within _ hf).1 a ha _ hlink
      · obtain ⟨line, hline, hf⟩ := List.mem_flatten.mp hf
        cases h.waiting line hline _ hf

namespace Links

variable {x : Execution initial} {target : Nat} {ts : List Nat} {m : Machine component}

/-- The machine takes over the turn in which the tickets are linked. -/
theorem takes (h : Links x target ts m) : ∃ id ids, ids.filterMap x.machine.state.ticket? = ts ∧
    x.machine.config.next = none ∧
    x.machine.config.Takes (exec x.machine.view x.machine.state (.linked id ids)) m.config := by
  obtain ⟨id, ids, hrun, hts⟩ := h.asked
  have hbare : x.machine.config = x.machine.bare := Machine.config_run hrun
  have hstep : x.machine.take (exec x.machine.view x.machine.state (.linked id ids)) = m :=
    Option.some.inj ((Machine.step?_own hrun).symm.trans h.step)
  refine ⟨id, ids, hts, hbare ▸ rfl, ?_⟩
  rw [hbare, ← hstep]
  exact Machine.take_config ..

/-- The new ticket is linked to the tickets that were asked for, and to no others. -/
theorem linked (h : Links x target ts m) (u : Nat) : Linked m.config target u ↔ u ∈ ts := by
  obtain ⟨id, ids, rfl, hnext, htakes⟩ := h.takes
  obtain rfl := h.number
  have hshape := (sound x).1
  have hstep : x.machine.config.Step (some (.exec x.machine.view (.linked id ids))) m.config :=
    .exec hnext (by simpa using htakes)
  obtain ⟨hback, hon⟩ : GoesOn _ _ _ x.machine.state.tickets.length u :=
    linked_step hshape.housed hstep
  constructor
  · intro hl
    rcases hback hl with hl | hmade
    · -- No link led to the ticket before it was there.
      have hlt := hshape.linked_lt hl
      rw [Machine.config_state] at hlt
      exact absurd hlt (Nat.lt_irrefl _)
    · obtain ⟨view, a, he, -, hu, -⟩ := made_iff.mp hmade
      cases he
      simpa [links?] using hu
  · intro hu
    have hmade : Made x.machine.config
        (some (.exec x.machine.view (.linked id ids))) x.machine.state.tickets.length u :=
      made_iff.mpr ⟨_, _, rfl, by simp, by simpa [links?] using hu, by simpa using h.live u hu⟩
    rcases hon (.inr hmade) with hl | ⟨q, hq, hgo⟩
    · exact hl
    · cases hq
      cases hgo

theorem target_lt (h : Links x target ts m) : target < m.state.tickets.length := by
  obtain ⟨name, ids, -, -, htakes⟩ := h.takes
  obtain rfl := h.number
  have hstate := htakes.state_eq id fun _ _ => rfl
  rw [Machine.config_state] at hstate
  have hlen : m.state.tickets.length = x.machine.state.addTicket.tickets.length := by
    rw [show m.state = _ from hstate]
    exact length_links ..
  rw [hlen]
  simp [Tickets.addTicket]

end Links

/-! ### What is kept until a link is followed -/

/-- Only the tickets `ts` have links to `target`. While `target` has no reason and somebody refers to
it, each of them has its link, unless a throw has passed its round. -/
structure Bound (target : Nat) (ts : List Nat) (past : List (Moment component))
    (c : Config component) : Prop where
  shape : Shape c
  there : target < c.state.tickets.length
  only : ∀ u, Linked c target u → u ∈ ts
  kept : c.state.reason? target = none → c.state.Alive target →
    ∀ u ∈ ts, Linked c target u ∨ breaks u (deeds past) ≠ []

theorem Desk.Move.length_le {d d' : Desk} {ds : List Deed} (m : d.Move ds d') :
    d.tickets.length ≤ d'.tickets.length := by
  cases m with
  | registerLate _ _ hg => exact Nat.le_of_eq (congrArg List.length hg.tickets.1).symm
  | react _ _ hg => exact Nat.le_of_eq (congrArg List.length hg.tickets.1).symm
  | _ => simp

theorem Desk.Moves.length_le {d d' : Desk} {ds : List Deed} (m : d.Moves ds d') :
    d.tickets.length ≤ d'.tickets.length := by
  induction m with
  | none => exact Nat.le_refl _
  | more _ m ih => exact Nat.le_trans ih m.length_le

theorem Desk.Moves.stays {d d' : Desk} {ds : List Deed} (m : d.Moves ds d') {t : Nat} {r : Reason}
    (hr : d.reason? t = some r) : d'.reason? t = some r := by
  induction m with
  | none => exact hr
  | more _ m ih => exact m.stays ih

/-- A link that is followed cancels its ticket, if somebody refers to it. -/
theorem reason_of_follow {s : Tickets} {target t n : Nat} {r : Reason} {rest : List Handler}
    {after : Reply Answer} (halive : s.Alive target) (hnone : s.reason? target = none)
    (hlt : target < s.tickets.length) :
    (resume s (.round t r (⟨n, .link target⟩ :: rest) after)).state.reason? target = some r := by
  simp only [Cancel.resume, if_pos halive, cancel, hnone]
  simp [Tickets.reason?, Tickets.settle, hlt]

/-- A link that is not there any more has cancelled its ticket, if somebody refers to it and no throw
has passed the round. -/
theorem kept_step {c c' : Config component} {cause : Option (Cause component)} {target t : Nat}
    (hc : Shape c) (h : c.Step cause c') (hl : Linked c target t)
    (hnone : c'.state.reason? target = none) (halive : c'.state.Alive target) :
    Linked c' target t ∨ breaks t (deeds (c.moment cause)) ≠ [] := by
  have hlt := hc.linked_lt hl
  have hnone₀ : c.state.reason? target = none := by
    cases hr : c.state.reason? target with
    | none => rfl
    | some r =>
      have hstays : c'.state.reason? target = some r := (hc.moves h).2.stays hr
      rw [hnone] at hstays
      cases hstays
  have halive₀ : c.state.Alive target := alive_step hlt h halive
  rcases (linked_step hc.housed h).2 (.inl hl) with hl | ⟨q, rfl, hgo⟩
  · exact .inl hl
  · right
    cases hgo with
    | @follow r n rest after =>
      -- Then the link has cancelled its ticket.
      cases h with
      | resume hn ht =>
        have hreason : c'.state.reason? target = some r := by
          rw [ht.state_eq (·.reason? target) fun _ _ => rfl]
          exact reason_of_follow (n := n) halive₀ hnone₀ hlt
        rw [hnone] at hreason
        cases hreason
    | leave => simp [Config.moment, deeds, deedsAt]

theorem Bound.step {target : Nat} {ts : List Nat} {past : List (Moment component)}
    {c c' : Config component} {cause : Option (Cause component)} (hc : Bound target ts past c)
    (h : c.Step cause c') : Bound target ts (past ++ c.moment cause) c' := by
  obtain ⟨hshape, hmoves⟩ := hc.shape.moves h
  have hlinked (u : Nat) : GoesOn c c' cause target u := linked_step hc.shape.housed h
  refine ⟨hshape, Nat.lt_of_lt_of_le hc.there hmoves.length_le, fun u hu => ?_,
    fun hnone halive u hu => ?_⟩
  · rcases (hlinked u).1 hu with hl | hmade
    · exact hc.only u hl
    · obtain ⟨-, -, -, hnew, -⟩ := made_iff.mp hmade
      exact absurd hc.there (by omega)
  · have hnone₀ : c.state.reason? target = none := by
      cases hr : c.state.reason? target with
      | none => rfl
      | some r =>
        have hstays : c'.state.reason? target = some r := hmoves.stays hr
        rw [hnone] at hstays
        cases hstays
    have halive₀ : c.state.Alive target := alive_step hc.there h halive
    rw [deeds_append, breaks_append]
    rcases hc.kept hnone₀ halive₀ u hu with hl | hbroken
    · exact (kept_step hc.shape h hl hnone halive).imp_right fun hb => by simp [hb]
    · exact .inr fun h => hbroken (List.append_eq_nil_iff.mp h).1

/-- The run of the links goes on with `y`. -/
def Links.run {x : Execution initial} {target : Nat} {ts : List Nat} {m : Machine component}
    (h : Links x target ts m) (y : Execution m) : Execution initial :=
  x.through h.step y

theorem Links.bound {x : Execution initial} {target : Nat} {ts : List Nat} {m : Machine component}
    (h : Links x target ts m) (y : Execution m) : Bound target ts y.past y.machine.config := by
  refine y.run.config_induction (Bound target ts) ⟨?_, ?_, fun u hu => ?_, fun _ _ u hu => ?_⟩
    fun past c cause c' hc hstep => hc.step hstep
  · exact (sound (h.run (.begin m))).1
  · rw [Machine.config_state]
    exact h.target_lt
  · exact (h.linked u).mp hu
  · exact .inl ((h.linked u).mpr hu)

/-! ### The reason that a link passes on -/

/-- The first cancellation of `target` comes now, from the link of `t`, which has the reason `r`. -/
structure Follows (m : Machine component) (target t : Nat) (r : Reason) : Prop where
  cause : ∃ n rest after, m.cause? = some (.resume (.round t r (⟨n, .link target⟩ :: rest) after))
  alive : m.state.Alive target
  live : m.state.reason? target = none

/-- The links that are left when the first of them is followed. -/
structure LinkContract {x : Execution initial} {target : Nat} {ts : List Nat}
    {m : Machine component} (h : Links x target ts m) (y : Execution m) (t : Nat) (r : Reason) :
    Prop where
  /-- The link is that of one of the tickets, and the reason is that of this ticket. -/
  linked : t ∈ ts
  own : y.machine.state.reason? t = some r
  /-- The ticket that is linked to them has this reason from now on. -/
  adopted : ∃ m', y.machine.step? = some m' ∧
    ∀ z : Execution m', z.machine.state.reason? target = some r
  /-- All others that have been cancelled are still in their rounds, with their links to come, or
  have lost these to a throw. -/
  pending : ∀ u ∈ ts, u ≠ t → y.machine.state.reason? u ≠ none →
    (∃ a ∈ (desk y.machine.config).rounds, a.ticket = u ∧ ∃ b ∈ a.rest, b.reaction = .link target) ∨
      breaks u (history (h.run y)) ≠ []
  /-- Of those in their rounds it was cancelled last. -/
  last : ∀ u ∈ ts, u ≠ t → y.machine.state.reason? u ≠ none → breaks u (history (h.run y)) = [] →
    [u, t].Sublist (won (history (h.run y)))
  /-- If it is the only one that has been cancelled, it was cancelled first; and if no throw has
  passed a round of the others, then only if so. -/
  first : (∀ u ∈ ts, breaks u (history (h.run y)) = []) →
    ((won (history (h.run y))).find? (· ∈ ts) = some t ↔
      ∀ u ∈ ts, u ≠ t → y.machine.state.reason? u = none)

section Followed

variable {x : Execution initial} {target : Nat} {ts : List Nat} {m : Machine component}
  {t : Nat} {r : Reason}

/-- The round whose link is followed is the uppermost. -/
theorem Follows.round {y : Execution m} (hf : Follows y.machine target t r) :
    Linked y.machine.config target t ∧ ∃ rest rs, (desk y.machine.config).rounds = ⟨t, r, rest⟩ :: rs := by
  obtain ⟨n, rest, after, hcause⟩ := hf.cause
  have hnext := (Machine.config_of_resume hcause).1
  constructor
  · refine .inr ⟨.round t r (⟨n, .link target⟩ :: rest) after, ?_, rfl, _, List.mem_cons_self, rfl⟩
    simp [Config.frames, hnext]
  · simp [desk, hnext]

theorem Follows.adopted {y : Execution m} (hf : Follows y.machine target t r)
    (htarget : target < y.machine.state.tickets.length) :
    ∃ m', y.machine.step? = some m' ∧ m'.state.reason? target = some r := by
  obtain ⟨n, rest, after, hcause⟩ := hf.cause
  obtain ⟨m', hstep⟩ := (Machine.config_of_resume hcause).2
  refine ⟨m', hstep, ?_⟩
  have h := Machine.step?_config hstep
  rw [hcause] at h
  cases h with
  | resume hn ht =>
    have hstate := ht.state_eq (·.reason? target) fun _ _ => rfl
    rw [Machine.config_state, Machine.config_state] at hstate
    rw [hstate]
    exact reason_of_follow (n := n) hf.alive hf.live htarget

/-- A ticket that has been cancelled keeps no link, so that its round has it. -/
theorem holds_of_linked {z : Execution initial} {u : Nat} (hl : Linked z.machine.config target u)
    (hr : z.machine.state.reason? u ≠ none) :
    ∃ a ∈ (desk z.machine.config).rounds, a.ticket = u ∧ ∃ b ∈ a.rest, b.reaction = .link target := by
  rcases hl with ⟨a, ha, -⟩ | ⟨f, hf, hholds⟩
  · cases book z u with
    | live hnone => exact absurd ((desk_reason? ..).symm.trans hnone) hr
    | cancelled _ hkept =>
      have hnil : z.machine.config.state.handlersOf u = [] := hkept
      rw [hnil] at ha
      cases ha
  · cases f with
    | call => exact hholds.elim
    | round v r rest after =>
      rcases List.mem_append.mp hf with hf | hf
      · exact ⟨⟨v, r, rest⟩, List.mem_filterMap.mpr ⟨_, hf, rfl⟩, hholds⟩
      · obtain ⟨line, hline, hf⟩ := List.mem_flatten.mp hf
        cases (sound z).1.waiting line hline _ hf

/-- Who comes before another one in a list is found first. -/
theorem not_found_of_sublist {l : List Nat} {u t : Nat} {p : Nat → Bool} (hl : l.Nodup)
    (hu : p u = true) (h : [u, t].Sublist l) : l.find? p ≠ some t := by
  intro hfind
  obtain ⟨-, l₁, l₂, rfl, hbefore⟩ := List.find?_eq_some_iff_append.mp hfind
  have hnot : t ∉ l₂ := (List.nodup_cons.mp (List.nodup_append.mp hl).2.1).1
  obtain ⟨a, b, hab, ha, hb⟩ := List.sublist_append_iff.mp h
  cases a with
  | nil =>
    rw [List.nil_append] at hab
    subst hab
    rcases List.sublist_cons_iff.mp hb with hb | ⟨k, hk, hb⟩
    · exact hnot (hb.subset (by simp))
    · cases hk
      exact hnot (hb.subset List.mem_cons_self)
  | cons v a =>
    obtain rfl : u = v := (List.cons.inj hab).1
    have hfalse := hbefore u (ha.subset List.mem_cons_self)
    rw [hu] at hfalse
    cases hfalse

variable (h : Links x target ts m) {y : Execution m} {u : Nat}

include h

/-- A ticket whose link is followed has the reason that it passes on. -/
theorem Follows.own (hf : Follows y.machine target t r) : y.machine.state.reason? t = some r := by
  obtain ⟨-, rest, rs, hrounds⟩ := hf.round
  rw [← desk_reason?]
  exact (sound (h.run y)).2.tally.rounds ⟨t, r, rest⟩ (hrounds ▸ List.mem_cons_self)

/-- A cancelled ticket whose link has not been followed is in its round, or has been passed by a
throw. -/
theorem Follows.pending (hf : Follows y.machine target t r) (hu : u ∈ ts)
    (hr : y.machine.state.reason? u ≠ none) :
    (∃ a ∈ (desk y.machine.config).rounds, a.ticket = u ∧
      ∃ b ∈ a.rest, b.reaction = .link target) ∨ breaks u (history (h.run y)) ≠ [] := by
  have hnone : y.machine.config.state.reason? target = none := by
    rw [Machine.config_state]
    exact hf.live
  have halive : y.machine.config.state.Alive target := by
    rw [Machine.config_state]
    exact hf.alive
  rcases (h.bound y).kept hnone halive u hu with hl | hbroken
  · exact .inl (holds_of_linked (z := h.run y) hl hr)
  · right
    intro hb
    have hpast : history (h.run y) = deeds (x.past ++ x.machine.moment?.toList) ++ deeds y.past :=
      deeds_append ..
    rw [hpast, breaks_append] at hb
    exact hbroken (List.append_eq_nil_iff.mp hb).2

/-- Rounds that go on at the same time are nested, and the one whose link is followed is the
innermost. -/
theorem Follows.last (hf : Follows y.machine target t r) (hu : u ∈ ts) (hut : u ≠ t)
    (hr : y.machine.state.reason? u ≠ none) (hb : breaks u (history (h.run y)) = []) :
    [u, t].Sublist (won (history (h.run y))) := by
  obtain ⟨-, rest, rs, hrounds⟩ := hf.round
  obtain ⟨a, ha, rfl, -⟩ := (hf.pending h hu hr).resolve_right fun h => h hb
  rw [hrounds] at ha
  rcases List.mem_cons.mp ha with rfl | ha
  · exact absurd rfl hut
  · exact (nested (h.run y)).order hrounds ha

/-- The only ticket that has been cancelled was cancelled first. -/
theorem Follows.first (hf : Follows y.machine target t r) (ht : t ∈ ts)
    (hnone : ∀ u ∈ ts, u ≠ t → y.machine.state.reason? u = none) :
    (won (history (h.run y))).find? (· ∈ ts) = some t := by
  have hwon : t ∈ won (history (h.run y)) := (mem_won (h.run y) t).mpr (by
    show y.machine.state.reason? t ≠ none
    simp [hf.own h])
  cases hfind : (won (history (h.run y))).find? (· ∈ ts) with
  | none => simpa [ht] using List.find?_eq_none.mp hfind t hwon
  | some u =>
    have hu : u ∈ ts := by simpa using List.find?_some hfind
    have hr : y.machine.state.reason? u ≠ none :=
      (mem_won (h.run y) u).mp (List.mem_of_find?_eq_some hfind)
    by_cases hut : u = t
    · rw [hut]
    · exact absurd (hnone u hu hut) hr

end Followed

/-- The first link to be followed gives its reason, and it is that of the ticket cancelled last. -/
theorem linked_contract {x : Execution initial} {target : Nat} {ts : List Nat}
    {m : Machine component} (h : Links x target ts m) (y : Execution m) {t : Nat} {r : Reason}
    (hf : Follows y.machine target t r) : LinkContract h y t r := by
  have ht : t ∈ ts := (h.bound y).only t hf.round.1
  refine ⟨ht, hf.own h, ?_, fun u hu _ hr => hf.pending h hu hr,
    fun u hu hut hr hb => hf.last h hu hut hr hb, fun hb => ⟨?_, hf.first h ht⟩⟩
  · obtain ⟨m', hstep, hr⟩ := hf.adopted (by simpa using (h.bound y).there)
    exact ⟨m', hstep, fun z => reason_stays ((h.run y).through hstep (.begin m')) z hr⟩
  · intro hfind u hu hut
    by_cases hr : y.machine.state.reason? u = none
    · exact hr
    · have hsub := hf.last h hu hut hr (hb u hu)
      exact absurd hfind (not_found_of_sublist (won_nodup _) (by simpa using hu) hsub)

/-- Two tickets get linked, and cancelling the first of them will cancel the second one as well. -/
def linking : Execution initial :=
  ((ExecutionBy.begin initial).perform 5
    [.own (.source "a"), .own (.source "b"),
      .own (.handler "a" "first" none [.own (.cancel "b")] false)]).request
    (.own (.linked "c" ["a", "b"]))

/-- They have been linked, and the time of the first one is up. -/
def forestalled (n : Nat) : Execution linking.advance.machine :=
  n.repeat ExecutionBy.advance
    ((Nat.repeat ExecutionBy.advance 5 (.begin linking.advance.machine)).request
      (.own (.cancelAfter "a" 0)))

theorem links_linking : Links linking 2 [0, 1] linking.advance.machine where
  asked := ⟨"c", ["a", "b"], rfl, rfl⟩
  number := rfl
  live := by decide
  step := rfl

theorem follows_forestalled : Follows (forestalled 5).machine 2 1 .requested where
  cause := ⟨_, _, _, rfl⟩
  alive := by decide
  live := rfl

theorem linked_contract_forestalled :
    won (history (links_linking.run (forestalled 5))) = [0, 1] ∧
    LinkContract links_linking (forestalled 5) 1 .requested ∧
    (forestalled 11).machine.state.reason? 2 = some .requested :=
  ⟨rfl, linked_contract links_linking (forestalled 5) follows_forestalled, rfl⟩

/-- The ticket that was cancelled first need not be the one that gives its reason. -/
theorem first_cancelled_forestalled :
    ¬∀ (x : Execution initial) (target : Nat) (ts : List Nat) (m : Machine component)
      (h : Links x target ts m) (y : Execution m) (t : Nat) (r : Reason),
      Follows y.machine target t r → ∀ u, (won (history (h.run y))).find? (· ∈ ts) = some u →
        y.machine.state.reason? u = some r := by
  intro hclaim
  have hfirst : (won (history (links_linking.run (forestalled 5)))).find? (· ∈ [0, 1]) = some 0 :=
    rfl
  have hrequested := hclaim _ _ _ _ links_linking (forestalled 5) 1 .requested
    follows_forestalled 0 hfirst
  have htimeout : (forestalled 5).machine.state.reason? 0 = some .timeout := rfl
  rw [htimeout] at hrequested
  cases hrequested

end Conduit.Cancel
