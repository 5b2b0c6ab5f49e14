import Conduit.Proofs.Cancel.Linked
import Mathlib.Data.List.Basic

/-!
All the links of a run. A ticket is linked to tickets that are older than itself, and only when it is
made; so the links of a run have no circle, whatever has been cancelled or dropped since. As long as
a ticket has no reason and somebody refers to it, each of its links is kept by the ticket at the other
end, or has been lost to a throw.
-/

namespace Conduit.Cancel

open Dispatch

/-- The links that have been made in a run: each new ticket with each one that it was linked to. -/
def bonds (past : List (Moment component)) : List (Nat × Nat) := past.flatMap bondsAt

@[simp] theorem bonds_append (past later : List (Moment component)) :
    bonds (past ++ later) = bonds past ++ bonds later :=
  List.flatMap_append

/-! ### The reason that linking gives -/

/-- A link gives the reason of a ticket that has one, to a ticket that has none. -/
theorem reason?_link_self {s : Tickets} {target t : Nat} (hlt : target < s.tickets.length)
    (ht : t ≠ target) :
    (s.link target t).reason? target = (s.reason? target).or (s.reason? t) := by
  unfold Tickets.link
  cases hr : s.reason? t with
  | none => simp [Tickets.reason?, Tickets.addHandler, ht]
  | some r =>
    cases hself : s.reason? target with
    | none => simp [Tickets.reason?, Tickets.settle, Tickets.number, hlt]
    | some r' => simpa [Tickets.reason?, Tickets.number] using hself

/-- A ticket that is linked to others gets the reason of the first of them that has one. -/
theorem reason?_links {s : Tickets} {target : Nat} (ts : List Nat)
    (hlt : target < s.tickets.length) (hts : ∀ t ∈ ts, t ≠ target) :
    (ts.foldl (fun s t => s.link target t) s).reason? target =
      (s.reason? target).or (ts.filterMap s.reason?).head? := by
  induction ts generalizing s with
  | nil => simp
  | cons t ts ih =>
    have ht : t ≠ target := hts t List.mem_cons_self
    have hrest : ∀ u ∈ ts, u ≠ target := fun u hu => hts u (List.mem_cons_of_mem t hu)
    have hsame : ts.filterMap (s.link target t).reason? = ts.filterMap s.reason? :=
      List.filterMap_congr fun u hu => reason?_link (hrest u hu)
    rw [List.foldl_cons, ih (by rwa [length_link]) hrest, reason?_link_self hlt ht, hsame,
      List.filterMap_cons]
    cases s.reason? target <;> cases s.reason? t <;> rfl

/-- A new ticket gets the reason of the first ticket with a reason that it is linked to. -/
theorem reason?_addLinked {s : Tickets} (id : String) {ts : List Nat}
    (hts : ∀ t ∈ ts, t < s.tickets.length) :
    (s.addLinked id ts).reason? s.tickets.length = (ts.filterMap s.reason?).head? := by
  have hnew : s.addTicket.reason? s.tickets.length = none := by
    simp [Tickets.reason?, Tickets.addTicket]
  have hsame : ts.filterMap s.addTicket.reason? = ts.filterMap s.reason? := by
    apply List.filterMap_congr
    intro t ht
    rw [Tickets.reason?, Tickets.addTicket, List.getElem?_append_left (hts t ht), Tickets.reason?]
  have h := reason?_links (s := s.addTicket) ts (by simp [Tickets.addTicket])
    fun t ht => Nat.ne_of_lt (hts t ht)
  rw [hnew, Option.none_or, hsame] at h
  exact h

/-! ### What a run keeps of its links -/

/-- The links of a run lead from younger to older tickets, and each of them is there until it has been
followed. -/
structure Tied (past : List (Moment component)) (c : Config component) : Prop where
  shape : Shape c
  older : ∀ target t, (target, t) ∈ bonds past → t < target ∧ target < c.state.tickets.length
  only : ∀ target t, Linked c target t → (target, t) ∈ bonds past
  kept : ∀ target t, (target, t) ∈ bonds past → c.state.reason? target = none →
    c.state.Alive target → Linked c target t ∨ breaks t (deeds past) ≠ []

/-- A link is made by an action, to a new ticket. -/
theorem bond_cases {c : Config component} {cause : Option (Cause component)} {target t : Nat}
    (h : (target, t) ∈ bonds (c.moment cause)) : ∃ view a, cause = some (.exec view a) ∧
      target = c.state.tickets.length ∧ t ∈ links? c.state a := by
  rcases cause with _ | cause
  · simp [Config.moment, bonds] at h
  · cases cause with
    | exec view a =>
      have hbond : (target, t) ∈ bondsAt ⟨c.state, .exec view a⟩ := by
        simpa [Config.moment, bonds] using h
      obtain ⟨u, hu, he⟩ := List.mem_map.mp hbond
      cases he
      exact ⟨view, a, rfl, rfl, hu⟩
    | _ => simp [Config.moment, bonds, bondsAt] at h

theorem links?_lt {s : Tickets} (hs : s.Housed) {a : Action} {t : Nat} (h : t ∈ links? s a) :
    t < s.tickets.length := by
  cases a with
  | linked id ids =>
    obtain ⟨id', -, ht⟩ := List.mem_filterMap.mp h
    exact hs.ticket ht
  | _ => cases h

/-- The reason of the ticket that an action links to others. -/
theorem reason?_exec_links {s : Tickets} (hs : s.Housed) (view : View) {a : Action} {t : Nat}
    (h : t ∈ links? s a) :
    (exec view s a).state.reason? s.tickets.length = ((links? s a).filterMap s.reason?).head? := by
  cases a with
  | linked id ids => exact reason?_addLinked id fun t ht => links?_lt hs (a := .linked id ids) ht
  | _ => cases h

/-- A link that has just been made is there, or has been followed at once. -/
theorem made_step {c c' : Config component} {cause : Option (Cause component)} {target t : Nat}
    (hc : Shape c) (h : c.Step cause c') (hbond : (target, t) ∈ bonds (c.moment cause)) :
    target < c'.state.tickets.length ∧ (c'.state.reason? target = none → Linked c' target t) := by
  obtain ⟨view, a, rfl, rfl, ht⟩ := bond_cases hbond
  cases h with
  | exec hn htakes =>
    have hstate : c'.state = (exec view c.state a).state := htakes.state_eq id fun _ _ => rfl
    constructor
    · cases a with
      | linked id ids =>
        have hlen : (exec view c.state (.linked id ids)).state.tickets.length =
            c.state.addTicket.tickets.length := length_links ..
        rw [hstate, hlen]
        simp [Tickets.addTicket]
      | _ => cases ht
    · intro hnone
      rw [hstate, reason?_exec_links hc.housed view ht, List.head?_eq_none_iff,
        List.filterMap_eq_nil_iff] at hnone
      have hmade : Made c (some (.exec view a)) c.state.tickets.length t :=
        made_iff.mpr ⟨view, a, rfl, rfl, ht, hnone t ht⟩
      rcases (linked_step hc.housed (.exec hn htakes)).2 (.inr hmade) with hl | ⟨q, hq, hgo⟩
      · exact hl
      · cases hq
        cases hgo

theorem Tied.step {past : List (Moment component)} {c c' : Config component}
    {cause : Option (Cause component)} (hc : Tied past c) (h : c.Step cause c') :
    Tied (past ++ c.moment cause) c' := by
  obtain ⟨hshape, hmoves⟩ := hc.shape.moves h
  have hlen : c.state.tickets.length ≤ c'.state.tickets.length := hmoves.length_le
  refine ⟨hshape, fun target t hbond => ?_, fun target t hl => ?_, fun target t hbond hnone halive => ?_⟩
  · rw [bonds_append] at hbond
    rcases List.mem_append.mp hbond with hold | hnew
    · obtain ⟨holder, hlt⟩ := hc.older target t hold
      omega
    · obtain ⟨view, a, -, rfl, ht⟩ := bond_cases hnew
      exact ⟨links?_lt hc.shape.housed ht, (made_step hc.shape h hnew).1⟩
  · rw [bonds_append]
    rcases (linked_step hc.shape.housed h).1 hl with hl | ⟨⟨q, hq, hbond⟩, -⟩
    · exact List.mem_append_left _ (hc.only target t hl)
    · exact List.mem_append_right _ (List.mem_flatMap.mpr ⟨q, hq, hbond⟩)
  · rw [deeds_append, breaks_append]
    rw [bonds_append] at hbond
    rcases List.mem_append.mp hbond with hold | hnew
    · have hlt := (hc.older target t hold).2
      have hnone₀ : c.state.reason? target = none := by
        cases hr : c.state.reason? target with
        | none => rfl
        | some r =>
          have hstays : c'.state.reason? target = some r := hmoves.stays hr
          rw [hnone] at hstays
          cases hstays
      rcases hc.kept target t hold hnone₀ (alive_step hlt h halive) with hl | hbroken
      · exact (kept_step hc.shape h hl hnone halive).imp_right fun hb => by simp [hb]
      · exact .inr fun hb => hbroken (List.append_eq_nil_iff.mp hb).1
    · exact .inl ((made_step hc.shape h hnew).2 hnone)

/-- Every run keeps account of its links. -/
theorem tied (x : Execution initial) : Tied x.past x.machine.config := by
  refine x.run.config_induction Tied ⟨(sound (.begin initial)).1, ?_, ?_, ?_⟩
    fun past c cause c' hc hstep => hc.step hstep
  · simp [bonds]
  · rintro target t (⟨a, ha, -⟩ | ⟨f, hf, -⟩)
    · simp [initial, Machine.config, Machine.bare, Tickets.handlersOf] at ha
    · simp [initial, Machine.config, Machine.bare, Config.frames, owned] at hf
  · simp [bonds]

/-! ### Between operations -/

/-- Between operations of a run that no throw has disturbed, a ticket has been cancelled if one has
that it is linked to, as long as somebody refers to it. -/
theorem cancelled_of_bond (x : Execution initial) (hu : Undisturbed x.past)
    (hm : x.machine.step? = none) {target t : Nat} (hbond : (target, t) ∈ bonds x.past)
    (halive : x.machine.state.Alive target) (ht : x.machine.state.reason? t ≠ none) :
    x.machine.state.reason? target ≠ none := by
  intro hnone
  have hlinked : Linked x.machine.config target t := by
    refine ((tied x).kept target t hbond ?_ ?_).resolve_right fun hb => ?_
    · simpa using hnone
    · simpa using halive
    · exact hb (breaks_of_undisturbed hu t)
  obtain ⟨a, ha, -⟩ := holds_of_linked hlinked ht
  rw [(desk_of_stopped hm).1] at ha
  cases ha

end Conduit.Cancel
