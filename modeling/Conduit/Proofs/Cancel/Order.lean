import Conduit.Proofs.Cancel.Contract

/-!
The order in which tickets are cancelled. Rounds are nested: the uppermost one belongs to the ticket
that was cancelled last of those whose rounds are under way.
-/

namespace Conduit.Cancel

open Dispatch

@[simp] def Deed.won? : Deed → Option Nat
  | .attempted t _ true => some t
  | _ => none

/-- The tickets that were cancelled, in order. -/
def won (h : List Deed) : List Nat := h.filterMap Deed.won?

@[simp] theorem won_append (h h' : List Deed) : won (h ++ h') = won h ++ won h' :=
  List.filterMap_append

/-- A ticket is among those that were cancelled as often as an attempt was the first. -/
theorem count_won (t : Nat) (h : List Deed) :
    (won h).count t = ((attempts t h).map (·.2)).count true := by
  induction h with
  | nil => rfl
  | cons e h ih =>
    have hone : e.won?.toList.count t = ((e.attempt? t).toList.map (·.2)).count true := by
      cases e with
      | attempted u r first =>
        by_cases hu : u = t
        · cases first <;> simp [hu]
        · cases first <;> simp [hu]
      | _ => rfl
    have hcons : won (e :: h) = e.won?.toList ++ won h := filterMap_cons_toList ..
    rw [hcons, attempts_cons, List.count_append, List.map_append, List.count_append, hone, ih]

namespace Desk

variable {d d' : Desk} {h ds : List Deed}

/-- The tickets of the rounds under way were cancelled from the lowest to the uppermost. -/
def Nested (d : Desk) (h : List Deed) : Prop := (d.rounds.map (·.ticket)).reverse.Sublist (won h)

theorem Nested.of_tickets (hd : d.Nested h) (he : d'.rounds.map (·.ticket) = d.rounds.map (·.ticket)) :
    d'.Nested (h ++ ds) := by
  unfold Nested
  rw [he, won_append]
  exact List.Sublist.trans hd (List.sublist_append_left ..)

/-- The uppermost round is over. -/
theorem Nested.pop (hd : d.Nested h) {a : Round} (he : d.rounds = a :: d'.rounds) :
    d'.Nested (h ++ ds) := by
  unfold Nested at hd ⊢
  rw [he, List.map_cons, List.reverse_cons] at hd
  rw [won_append]
  have hrest : (d'.rounds.map (·.ticket)).reverse.Sublist (won h) :=
    (List.sublist_append_left ..).trans hd
  exact hrest.trans (List.sublist_append_left ..)

/-- Every move keeps rounds nested. -/
theorem Nested.move (hd : d.Nested h) (m : d.Move ds d') : d'.Nested (h ++ ds) := by
  cases m with
  | registerLate _ _ hg => exact hd.of_tickets (by rw [hg.tickets.2.2])
  | @win t r k =>
    unfold Nested
    rw [won_append, List.map_cons, List.reverse_cons]
    exact List.Sublist.append hd (.refl _)
  | react _ hr hg => exact hd.of_tickets (by simp [hg.tickets.2.2, hr])
  | follow _ hr => exact hd.of_tickets (by simp [hr])
  | finish _ hr => exact hd.pop hr
  | leave _ hr => exact hd.pop hr
  | _ => exact hd.of_tickets rfl

/-- The ticket of the uppermost round was cancelled after those of the rounds below. -/
theorem Nested.order (hd : d.Nested h) {a b : Round} {rs : List Round} (he : d.rounds = a :: rs)
    (hb : b ∈ rs) : [b.ticket, a.ticket].Sublist (won h) := by
  unfold Nested at hd
  rw [he, List.map_cons, List.reverse_cons] at hd
  have hmem : b.ticket ∈ (rs.map (·.ticket)).reverse :=
    List.mem_reverse.mpr (List.mem_map_of_mem hb)
  exact List.Sublist.trans ((List.singleton_sublist.mpr hmem).append (.refl [a.ticket])) hd

end Desk

theorem nested (x : Execution initial) : (desk x.machine.config).Nested (history x) := by
  have h := x.run.config_induction
    (fun past c => Shape c ∧ (desk c).Nested (deeds past)) ⟨(sound (.begin initial)).1, ?_⟩
    fun past c cause c' h hstep => ?_
  · exact h.2
  · exact List.nil_sublist _
  · obtain ⟨hc, m⟩ := h.1.moves hstep
    rw [deeds_append]
    exact ⟨hc, m.keep (fun h d => d.Nested h) Desk.Nested.move h.2⟩

/-- A ticket is cancelled once at most, and has been if it has a reason. -/
theorem won_nodup (x : Execution initial) : (won (history x)).Nodup := by
  refine List.nodup_iff_count.mpr fun t => ?_
  rw [count_won]
  cases book x t with
  | live _ _ ha => simp [ha]
  | @cancelled r later _ _ ha hla =>
    have hlater : (later.map (·.2)).count true = 0 := by
      refine List.count_eq_zero.mpr fun hmem => ?_
      obtain ⟨a, ha, htrue⟩ := List.mem_map.mp hmem
      rw [hla a ha] at htrue
      cases htrue
    rw [ha]
    simp [hlater]

theorem mem_won (x : Execution initial) (t : Nat) :
    t ∈ won (history x) ↔ x.machine.state.reason? t ≠ none := by
  rw [← List.count_pos_iff, count_won, ← desk_reason?]
  cases book x t with
  | live hr _ ha => simp [hr, ha]
  | cancelled hr _ ha => simp [hr, ha]

end Conduit.Cancel
