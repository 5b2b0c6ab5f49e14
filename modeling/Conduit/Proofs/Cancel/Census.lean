import Mathlib.Data.List.Perm.Subperm
import Conduit.Proofs.Cancel.Order
import Conduit.Proofs.Dispatch.Scripts

/-!
How much can be under way. A ticket is cancelled once and a handler reacts once, so no run has more
transitions than there are tickets, and no more reactions than handlers have been registered. What is
under way at one time are the rounds of tickets that have been cancelled and the callbacks of handlers
that have reacted: there are never more frames than tickets and handlers.
-/

namespace Conduit.Cancel

open Dispatch

/-- The rounds under way, and the callbacks that have started or do so now. -/
def depth (m : Machine component) : Nat := (owned m.stack).length + scripts (fun _ => true) m.stack

section Runs

variable (x : Execution initial)

theorem lt_of_reason {s : Tickets} {t : Nat} (h : s.reason? t ≠ none) : t < s.tickets.length := by
  by_contra hle
  exact h (by simp [Tickets.reason?, List.getElem?_eq_none (Nat.le_of_not_lt hle)])

/-- As many different numbers as are smaller than `n`, at most. -/
theorem length_le_of_lt {l : List Nat} {n : Nat} (hl : l.Nodup) (hn : ∀ a ∈ l, a < n) :
    l.length ≤ n := by
  have h := (hl.subperm fun a ha => List.mem_range.mpr (hn a ha)).length_le
  rwa [List.length_range] at h

/-- There are as many transitions as tickets, at most. -/
theorem won_length_le : (won (history x)).length ≤ x.machine.state.tickets.length :=
  length_le_of_lt (won_nodup x) fun t ht => lt_of_reason ((mem_won x t).mp ht)

/-- There are as many reactions as handlers, at most. -/
theorem responses_length_le :
    (responses (history x)).length ≤ x.machine.state.registered := by
  rw [← List.length_map (f := Prod.fst)]
  refine length_le_of_lt (responses_once x) fun n hn => ?_
  obtain ⟨⟨n, r⟩, hmem, rfl⟩ := List.mem_map.mp hn
  obtain ⟨t, way, l, hreacted⟩ := mem_responses.mp hmem
  obtain ⟨found, hregistered, -⟩ := reaction_registered x (mem_reactions.mpr ⟨r, way, hreacted⟩)
  have hnumber : n ∈ numbers (history x) := List.mem_filterMap.mpr ⟨_, hregistered, rfl⟩
  rw [(sound x).2.tally.numbers, List.mem_range] at hnumber
  simpa [desk] using hnumber

/-- The rounds under way are those of tickets that have been cancelled. -/
theorem rounds_length_le :
    (desk x.machine.config).rounds.length ≤ (won (history x)).length := by
  have h := (nested x).length_le
  rwa [List.length_reverse, List.length_map] at h

/-- The callbacks that have started, and the one that does so now, are those of handlers that have
reacted. -/
theorem starts_length_le : (starts (history x)).length +
    (desk x.machine.config).now.toList.length ≤ (responses (history x)).length := by
  obtain ⟨given, hsub, hperm⟩ := (sound x).2.tally.calls
  have hlength := hperm.length_eq
  have hle := hsub.length_le
  simp only [Desk.calls, List.length_append] at hlength
  omega

end Runs

/-! ### Frames -/

section Launches

variable {g : Bool → Bool} {s : Tickets} {k : List Frame}

theorem launches_cancel {t : Nat} {r : Reason} :
    (cancel s t r k).next.launches (C := component) g = false := by
  unfold cancel
  split
  · dsimp only
    split <;> rfl
  · rfl

theorem launches_start {n : Nat} {c : Callback} {context : Option Context} {r : Reason} :
    (start n c context r k).launches (C := component) g = false := by
  cases context <;> rfl

theorem launches_register {t : Nat} {c : Callback} {context : Option Context} :
    (register s t c context).next.launches (C := component) g = false := by
  unfold register
  split
  · rfl
  · exact launches_start

theorem launches_exec (view : View) (a : Action) :
    (exec view s a).next.launches (C := component) g = false := by
  cases a with
  | source | linked | never | drop | timeout => rfl
  | cancel id =>
    simp only [exec]
    split
    · rfl
    · exact launches_cancel
  | handler ticket label context script throws =>
    simp only [exec]
    split
    · rfl
    split
    · exact launches_register
    split
    · rfl
    · exact launches_register
  | _ =>
    simp only [exec]
    split <;> rfl

theorem launches_round (t : Nat) (r : Reason) (rest : List Handler) (after : Reply Answer) :
    (resume s (.round t r rest after)).next.launches (C := component) g = false := by
  rcases rest with _ | ⟨⟨n, c | target⟩, rest⟩
  · rfl
  · exact launches_start
  · simp only [resume]
    split
    · exact launches_cancel
    · rfl

theorem launches_poll (task : Task) :
    (poll s task).next.launches (C := component) g = false := by
  cases task with
  | waiter k =>
    simp only [poll]
    split
    · rfl
    split <;> rfl
  | timer k =>
    simp only [poll, expire]
    split
    · rfl
    split
    · rfl
    split
    · split
      · exact launches_cancel
      · rfl
    · rfl

/-- Only a callback that starts goes on with a script. -/
theorem cause_of_launches {q : Moment component} {w : Turn signature} (hq : q.turn? = some w)
    (h : w.next.launches (C := component) g = true) :
    ∃ n c r, q.cause = .resume (.call n c r) := by
  obtain ⟨s, cause⟩ := q
  cases cause with
  | exec view a =>
    obtain rfl : exec view s a = w := by simpa [Moment.turn?] using hq
    exact absurd h (by simp [launches_exec])
  | resume f =>
    obtain rfl : resume s f = w := by simpa [Moment.turn?] using hq
    cases f with
    | round => exact absurd h (by simp [launches_round])
    | call n c r => exact ⟨n, c, r, rfl⟩
  | poll task =>
    obtain rfl : poll s task = w := by simpa [Moment.turn?] using hq
    exact absurd h (by simp [launches_poll])
  | unwind | tick => cases hq

end Launches

/-- A callback under way has been started. -/
theorem launches_le_starts (m : Machine component) :
    (m.launches (fun _ => true)).toNat ≤ (starts (deeds m.moment?.toList)).length := by
  cases hl : m.launches (fun _ => true) with
  | false => exact Nat.zero_le _
  | true =>
    obtain ⟨w, hw, hnext⟩ := (Option.any_eq_true ..).mp hl
    obtain ⟨q, hq, hturn⟩ := Option.bind_eq_some_iff.mp hw
    obtain ⟨n, c, r, hcause⟩ := cause_of_launches hturn hnext
    obtain ⟨s, cause⟩ := q
    obtain rfl := hcause
    simp [hq, deeds, deedsAt]

/-- There are as many callbacks under way as have been started, at most. -/
theorem scripts_le_starts (x : Execution initial) :
    scripts (fun _ => true) x.machine.stack ≤ (starts (history x)).length := by
  have hrun : x.machine.underway (fun _ => true) ≤ (starts (history x)).length := by
    obtain ⟨past, m, run⟩ := x
    show m.underway (fun _ => true) ≤ (starts (deeds past)).length
    induction run with
    | start => exact Nat.zero_le _
    | @advance past m m' _ hm ih =>
      have hstep := Machine.advance?_underway (g := fun _ => true) hm
      have hstarts := launches_le_starts m
      rw [deeds_append, starts_append, List.length_append]
      omega
    | request => exact Nat.zero_le _
    | @strike past m _ hm ih =>
      obtain ⟨hs, hc⟩ := Machine.wakeAll_stack { m with state := (component.tick m.state).1 }
        (component.tick m.state).2
      have hsame : m.strike.underway (fun _ => true) = m.underway (fun _ => true) := by
        rw [Machine.underway, Machine.underway, show m.strike.stack = m.stack from hs,
          show m.strike.control = m.control from hc]
      rw [deeds_append, starts_append, List.length_append, hsame]
      exact Nat.le_trans ih (Nat.le_add_right ..)
    | proceed =>
      rw [Machine.proceed, Machine.underway_serve]
      exact Nat.zero_le _
    | reorder _ hf => cases hf
  exact Nat.le_trans (Nat.le_add_right ..) hrun

theorem owned_config (m : Machine component) :
    m.config.next.toList ++ m.config.stack = owned m.stack := by
  unfold Machine.config
  split
  · rename_i f rest _ hs
    rw [hs]
    rfl
  · rfl

theorem length_rounds {k : List Frame} (hk : ∀ f ∈ k, f.call? = none) :
    (k.filterMap Frame.round?).length = k.length := by
  induction k with
  | nil => rfl
  | cons f k ih =>
    have hf := hk f List.mem_cons_self
    cases f with
    | round => simpa using ih fun f h => hk f (List.mem_cons_of_mem _ h)
    | call => cases hf

/-- The frames of tickets are those of rounds, and that of the callback that starts now. -/
theorem owned_length (x : Execution initial) : (owned x.machine.stack).length =
    (desk x.machine.config).rounds.length + (desk x.machine.config).now.toList.length := by
  have hstack := length_rounds (sound x).1.stack
  rw [← owned_config, desk, List.filterMap_append, List.length_append, List.length_append, hstack]
  cases x.machine.config.next with
  | none => simp
  | some f =>
    cases f with
    | round => simp [Frame.round?, Frame.call?]
    | call => simp [Frame.round?, Frame.call?, Nat.add_comm]

/-- There are never more frames under way than tickets and handlers. -/
theorem depth_le (x : Execution initial) :
    depth x.machine ≤ x.machine.state.tickets.length + x.machine.state.registered := by
  have hrounds := rounds_length_le x
  have hwon := won_length_le x
  have hstarts := starts_length_le x
  have hresponses := responses_length_le x
  have hscripts := scripts_le_starts x
  rw [depth, owned_length]
  omega

end Conduit.Cancel
