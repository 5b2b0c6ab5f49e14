import Conduit.Proofs.Cancel.Moves

/-!
The book of a ticket: what was done to it agrees with where it stands. Before a ticket has a reason
it keeps every handler that was registered; afterwards each of them has reacted, is left in the round
of the ticket, or was left in it when a throw passed. Every move keeps the books of all tickets.
-/

namespace Conduit.Cancel

open Dispatch

/-- The ticket that a deed is about. -/
def Deed.ticket? : Deed → Option Nat
  | .registered t _ _ | .attempted t _ _ | .answered t _ | .reacted t _ _ _ _ | .broken t _ => some t
  | .started _ _ => none

/-- Nothing is done about a ticket. -/
structure Silent (t : Nat) (ds : List Deed) : Prop where
  attempts : attempts t ds = []
  answers : answers t ds = []
  early : early t ds = []
  late : late t ds = []
  reactions : ∀ l, reactions t l ds = []
  breaks : breaks t ds = []

theorem silent_of_ticket {t : Nat} {ds : List Deed} (h : ∀ d ∈ ds, d.ticket? ≠ some t) :
    Silent t ds := by
  have none {β : Type} (f : Deed → Option β) (hf : ∀ d, d.ticket? ≠ some t → f d = .none) :
      ds.filterMap f = [] :=
    List.filterMap_eq_nil_iff.mpr fun d hd => hf d (h d hd)
  refine ⟨none _ ?_, none _ ?_, none _ ?_, none _ ?_, fun l => none _ ?_, none _ ?_⟩
  · intro d hd
    cases d with
    | attempted t' => exact if_neg fun h => hd (congrArg some h)
    | _ => rfl
  · intro d hd
    cases d with
    | answered t' => exact if_neg fun h => hd (congrArg some h)
    | _ => rfl
  · intro d hd
    cases d with
    | registered t' n found =>
      cases found with
      | none => exact if_neg fun h => hd (congrArg some h)
      | some => rfl
    | _ => rfl
  · intro d hd
    cases d with
    | registered t' n found =>
      cases found with
      | none => rfl
      | some => exact if_neg fun h => hd (congrArg some h)
    | _ => rfl
  · intro d hd
    cases d with
    | reacted t' => exact if_neg fun h => hd (congrArg some h.1)
    | _ => rfl
  · intro d hd
    cases d with
    | broken t' => exact if_neg fun h => hd (congrArg some h)
    | _ => rfl

namespace Desk

/-- The handlers that a ticket keeps. -/
def handlersOf (d : Desk) (t : Nat) : List Handler := (d.tickets[t]?.map (·.handlers)).getD []

/-- The rounds of a ticket that are under way. -/
def roundsOf (d : Desk) (t : Nat) : List Round := d.rounds.filter (·.ticket = t)

/-- The handlers that are left in the rounds of a ticket. -/
def restOf (d : Desk) (t : Nat) : List Nat := (d.roundsOf t).flatMap (·.rest.map (·.number))

/-- What was done to a ticket agrees with where it stands. -/
inductive Book (d : Desk) (h : List Deed) (t : Nat) : Prop where
  | live (hr : d.reason? t = none) (hearly : early t h = (d.handlersOf t).map (·.number))
      (hattempts : attempts t h = []) (hanswers : answers t h = []) (hlate : late t h = [])
      (hreactions : ∀ l, reactions t l h = []) (hbreaks : breaks t h = [])
      (hrounds : d.roundsOf t = [])
  | cancelled {r later} (hr : d.reason? t = some r) (hkept : d.handlersOf t = [])
      (hattempts : attempts t h = (r, true) :: later) (hlater : ∀ a ∈ later, a.2 = false)
      (htrue : (answers t h).count true + (d.roundsOf t).length + (breaks t h).length = 1)
      (hfalse : (answers t h).count false = later.length)
      (hearly : early t h = reactions t false h ++ d.restOf t ++ (breaks t h).flatten)
      (hlate : late t h = reactions t true h)

variable {d d' : Desk} {h ds : List Deed} {t : Nat}

/-- Nothing is done about a ticket, and it stands where it stood. -/
theorem Book.frame (hb : d.Book h t) (hs : Silent t ds) (hr : d'.reason? t = d.reason? t)
    (hh : d'.handlersOf t = d.handlersOf t) (hrounds : d'.roundsOf t = d.roundsOf t) :
    d'.Book (h ++ ds) t := by
  have hrest : d'.restOf t = d.restOf t := by simp [restOf, hrounds]
  cases hb with
  | live hr₀ he ha han hl hre hbr hro =>
    refine .live (hr.trans hr₀) ?_ ?_ ?_ ?_ ?_ ?_ (hrounds.trans hro)
    · rw [early_append, hs.early, List.append_nil, he, hh]
    · rw [attempts_append, hs.attempts, List.append_nil, ha]
    · rw [answers_append, hs.answers, List.append_nil, han]
    · rw [late_append, hs.late, List.append_nil, hl]
    · intro l
      rw [reactions_append, hs.reactions, List.append_nil, hre]
    · rw [breaks_append, hs.breaks, List.append_nil, hbr]
  | cancelled hr₀ hk ha hla ht hf he hl =>
    refine .cancelled (hr.trans hr₀) (hh.trans hk) ?_ hla ?_ ?_ ?_ ?_
    · rw [attempts_append, hs.attempts, List.append_nil, ha]
    · rw [answers_append, hs.answers, List.append_nil, hrounds, breaks_append, hs.breaks,
        List.append_nil, ht]
    · rw [answers_append, hs.answers, List.append_nil, hf]
    · rw [early_append, hs.early, List.append_nil, reactions_append, hs.reactions, List.append_nil,
        hrest, breaks_append, hs.breaks, List.append_nil, he]
    · rw [late_append, hs.late, List.append_nil, reactions_append, hs.reactions, List.append_nil, hl]

theorem roundsOf_cons (d : Desk) (a : Round) (rs : List Round) (t : Nat) :
    roundsOf { d with rounds := a :: rs } t =
      if a.ticket = t then a :: roundsOf { d with rounds := rs } t
      else roundsOf { d with rounds := rs } t := by
  simp [roundsOf, List.filter_cons]

/-- The round of a ticket goes on, ends or is passed by a throw: it is the only one of its ticket. -/
theorem Book.top (hb : d.Book h t) {r : Reason} {rest : List Handler} {rs : List Round}
    (hd : d.rounds = ⟨t, r, rest⟩ :: rs) : d.reason? t ≠ none ∧
      roundsOf { d with rounds := rs } t = [] ∧ breaks t h = [] ∧ (answers t h).count true = 0 ∧
      early t h = reactions t false h ++ rest.map (·.number) := by
  have hrounds : d.roundsOf t = ⟨t, r, rest⟩ :: roundsOf { d with rounds := rs } t := by
    have := roundsOf_cons d ⟨t, r, rest⟩ rs t
    rw [if_pos rfl] at this
    rw [← this, ← hd]
  cases hb with
  | live _ _ _ _ _ _ _ hno => simp [hno] at hrounds
  | cancelled hr _ _ _ ht _ he _ =>
    rw [hrounds, List.length_cons] at ht
    have hnil : roundsOf { d with rounds := rs } t = [] := List.eq_nil_of_length_eq_zero (by omega)
    have hbreaks : breaks t h = [] := List.eq_nil_of_length_eq_zero (by omega)
    refine ⟨by simp [hr], hnil, hbreaks, by omega, ?_⟩
    rw [he, restOf, hrounds, hnil, hbreaks]
    simp

/-- The handlers that reacted were registered: those of rounds before the ticket had a reason, in the
same order, and the others later. -/
theorem Book.reacts (hb : d.Book h t) :
    (reactions t false h).Sublist (early t h) ∧ reactions t true h = Cancel.late t h := by
  cases hb with
  | live _ _ _ _ hl hre => exact ⟨hre false ▸ List.nil_sublist _, (hre true).trans hl.symm⟩
  | cancelled _ _ _ _ _ _ he hl =>
    rw [he, List.append_assoc]
    exact ⟨List.sublist_append_left .., hl.symm⟩

/-- A handler is registered on a ticket that has a reason, and reacts at once. -/
theorem Book.late (hb : d.Book h t) {r : Reason} (hr : d.reason? t = some r)
    (htickets : d'.tickets = d.tickets) (hrounds : d'.rounds = d.rounds) (n : Nat) (way : Way) :
    d'.Book (h ++ [.registered t n (some r), .reacted t n r way true]) t := by
  cases hb with
  | live hr₀ => simp [hr₀] at hr
  | cancelled hr₀ hk ha hla ht hf he hl =>
    refine .cancelled (by rw [reason?, htickets]; exact hr₀) (by rw [handlersOf, htickets]; exact hk)
      ?_ hla ?_ ?_ ?_ ?_
    · simpa using ha
    · simpa [roundsOf, hrounds] using ht
    · simpa using hf
    · simpa [restOf, roundsOf, hrounds] using he
    · simpa using hl

/-- The uppermost handler of a round reacts. -/
theorem Book.react (hb : d.Book h t) {r : Reason} {a : Handler} {rest : List Handler}
    {rs : List Round} (hd : d.rounds = ⟨t, r, a :: rest⟩ :: rs) (htickets : d'.tickets = d.tickets)
    (hrounds : d'.rounds = ⟨t, r, rest⟩ :: rs) (way : Way) :
    d'.Book (h ++ [.reacted t a.number r way false]) t := by
  obtain ⟨hsome, hnil, hbreaks, -, hearly⟩ := hb.top hd
  cases hb with
  | live hr₀ => exact absurd hr₀ hsome
  | cancelled hr₀ hk ha hla ht hf he hl =>
    have hnow : d'.roundsOf t = [⟨t, r, rest⟩] := by
      simp only [roundsOf] at hnil ⊢
      simp [hrounds, hnil]
    have hthen : d.roundsOf t = [⟨t, r, a :: rest⟩] := by
      simp only [roundsOf] at hnil ⊢
      simp [hd, hnil]
    refine .cancelled (by rw [reason?, htickets]; exact hr₀) (by rw [handlersOf, htickets]; exact hk)
      ?_ hla ?_ ?_ ?_ ?_
    · simpa using ha
    · simpa [hnow, hthen] using ht
    · simpa using hf
    · rw [early_append, breaks_append, hbreaks, reactions_append, hearly, restOf, hnow]
      simp
    · simpa using hl

/-- The round of a ticket comes to its end, and what is left of it is noted. -/
theorem Book.close (hb : d.Book h t) {r : Reason} {rest : List Handler} {rs : List Round}
    (hd : d.rounds = ⟨t, r, rest⟩ :: rs) (hs : attempts t ds = [] ∧ early t ds = [] ∧
      Cancel.late t ds = [] ∧ ∀ l, reactions t l ds = [])
    (hone : (answers t ds).count true + (breaks t ds).length = 1)
    (hfalse : (answers t ds).count false = 0) (hleft : rest.map (·.number) = (breaks t ds).flatten) :
    Book { d with rounds := rs } (h ++ ds) t := by
  obtain ⟨hsome, hnil, hbreaks, htrue, hearly⟩ := hb.top hd
  obtain ⟨ha', he', hl', hr'⟩ := hs
  cases hb with
  | live hr₀ => exact absurd hr₀ hsome
  | cancelled hr₀ hk ha hla ht hf he hl =>
    refine .cancelled hr₀ hk ?_ hla ?_ ?_ ?_ ?_
    · rw [attempts_append, ha', List.append_nil, ha]
    · rw [answers_append, breaks_append, hbreaks, hnil, List.count_append, htrue]
      simpa using hone
    · rw [answers_append, List.count_append, hf, hfalse, Nat.add_zero]
    · rw [early_append, he', reactions_append, hr', breaks_append, hbreaks, restOf, hnil, hearly,
        hleft]
      simp
    · rw [late_append, hl', reactions_append, hr', List.append_nil, List.append_nil, hl]

/-- Every move keeps the book of every ticket. -/
theorem Book.move (hb : d.Book h t) (m : d.Move ds d') : d'.Book (h ++ ds) t := by
  -- A move that is about another ticket.
  have other {u : Nat} (hu : u ≠ t) (hds : ∀ e ∈ ds, e.ticket? = some u) : Silent t ds :=
    silent_of_ticket fun e he => by simp [hds e he, hu]
  have quiet (hds : ∀ e ∈ ds, e.ticket? = none) : Silent t ds :=
    silent_of_ticket fun e he => by simp [hds e he]
  cases m with
  | create =>
    have hnew : (d.tickets ++ [({ } : Ticket)])[t]? = d.tickets[t]? ∨
        (d.tickets ++ [({ } : Ticket)])[t]? = some ({ } : Ticket) ∧ d.tickets[t]? = none := by
      rcases Nat.lt_trichotomy t d.tickets.length with ht | ht | ht
      · exact .inl (List.getElem?_append_left ht)
      · exact .inr ⟨by simp [ht], by simp [ht]⟩
      · refine .inl ?_
        rw [List.getElem?_eq_none (by simp; omega), List.getElem?_eq_none (Nat.le_of_lt ht)]
    refine hb.frame (quiet (by simp)) ?_ ?_ rfl
    · rcases hnew with hnew | ⟨hnew, hold⟩
      · simp [reason?, hnew]
      · simp [reason?, hnew, hold]
    · rcases hnew with hnew | ⟨hnew, hold⟩
      · simp [handlersOf, hnew]
      · simp [handlersOf, hnew, hold]
  | @register u a hn hu hr =>
    by_cases hut : u = t
    · subst hut
      cases hb with
      | live _ he ha han hl hre hbr hro =>
        refine .live ?_ ?_ ?_ ?_ ?_ ?_ ?_ hro
        · simpa [reason?, List.getElem?_modify, Option.bind_map, Function.comp_def] using hr
        · simp [he, handlersOf, hu]
        · simpa using ha
        · simpa using han
        · simpa using hl
        · simpa using hre
        · simpa using hbr
      | cancelled hr₀ => simp [hr₀] at hr
    · refine hb.frame (other hut (by simp [Deed.ticket?])) ?_ ?_ rfl
      · simp [reason?, hut]
      · simp [handlersOf, hut]
  | @registerLate u r way _ hn hr hg =>
    obtain ⟨htickets, -, hrounds⟩ := hg.tickets
    by_cases hut : u = t
    · subst hut
      exact hb.late hr htickets hrounds d.registered way
    · refine hb.frame (other hut (by simp [Deed.ticket?])) ?_ ?_ ?_
      · rw [reason?, htickets]
        rfl
      · rw [handlersOf, htickets]
        rfl
      · rw [roundsOf, hrounds]
        rfl
  | @linkLate u r hn hr =>
    by_cases hut : u = t
    · subst hut
      refine hb.late hr ?_ ?_ d.registered .link <;> rfl
    · exact hb.frame (other hut (by simp [Deed.ticket?])) rfl rfl rfl
  | @fail u r r' hn hr =>
    by_cases hut : u = t
    · subst hut
      cases hb with
      | live hr₀ => simp [hr₀] at hr
      | @cancelled r₀ later hr₀ hk ha hla ht hf he hl =>
        have hattempts : attempts u (h ++ [.attempted u r false, .answered u false]) =
            (r₀, true) :: (later ++ [(r, false)]) := by simp [ha]
        refine .cancelled hr₀ hk hattempts ?_ ?_ ?_ ?_ ?_
        · intro a hmem
          rcases List.mem_append.mp hmem with hmem | hmem
          · exact hla a hmem
          · rw [List.mem_singleton.mp hmem]
        · simpa using ht
        · simpa using hf
        · simpa using he
        · simpa using hl
    · exact hb.frame (other hut (by simp [Deed.ticket?])) rfl rfl rfl
  | @win u r k hn hu hr =>
    by_cases hut : u = t
    · subst hut
      have hlt : u < d.tickets.length := (List.getElem?_eq_some_iff.mp hu).1
      cases hb with
      | live hr₀ he ha han hl hre hbr hro =>
        have hrounds : roundsOf { d with
            tickets := d.tickets.set u { reason := some r, handlers := [] }
            rounds := ⟨u, r, k.handlers⟩ :: d.rounds } u = [⟨u, r, k.handlers⟩] := by
          simpa [roundsOf] using hro
        have hattempts : attempts u (h ++ [.attempted u r true]) = [(r, true)] := by simp [ha]
        refine .cancelled ?_ ?_ hattempts (by simp) ?_ ?_ ?_ ?_
        · simp [reason?, hlt]
        · simp [handlersOf, hlt]
        · simp [han, hbr, hrounds]
        · simp [han]
        · rw [restOf, hrounds]
          simp [he, hre, hbr, handlersOf, hu]
        · simp [hl, hre]
      | cancelled hr₀ => simp [reason?, hu, hr] at hr₀
    · refine hb.frame (other hut (by simp [Deed.ticket?])) ?_ ?_ ?_
      · simp [reason?, hut]
      · simp [handlersOf, hut]
      · simp [roundsOf, hut]
  | @react u r n c context rest rs way _ hn hd hg =>
    obtain ⟨htickets, -, hrounds⟩ := hg.tickets
    by_cases hut : u = t
    · subst hut
      exact hb.react (a := ⟨n, .callback c context⟩) hd htickets hrounds way
    · refine hb.frame (other hut (by simp [Deed.ticket?])) ?_ ?_ ?_
      · rw [reason?, htickets]
        rfl
      · rw [handlersOf, htickets]
        rfl
      · simp [roundsOf, hrounds, hd, hut]
  | @follow u r n target rest rs hn hd =>
    by_cases hut : u = t
    · subst hut
      refine hb.react (a := ⟨n, .link target⟩) hd ?_ ?_ .link <;> rfl
    · exact hb.frame (other hut (by simp [Deed.ticket?])) rfl rfl (by simp [roundsOf, hd, hut])
  | @finish u r rs hn hd =>
    by_cases hut : u = t
    · subst hut
      refine hb.close hd ⟨rfl, rfl, rfl, fun l => rfl⟩ ?_ ?_ ?_ <;>
        simp
    · exact hb.frame (other hut (by simp [Deed.ticket?])) rfl rfl (by simp [roundsOf, hd, hut])
  | @leave u r rest rs hn hd =>
    by_cases hut : u = t
    · subst hut
      refine hb.close hd ⟨rfl, rfl, rfl, fun l => rfl⟩ ?_ ?_ ?_ <;>
        simp
    · exact hb.frame (other hut (by simp [Deed.ticket?])) rfl rfl (by simp [roundsOf, hd, hut])
  | begin => exact hb.frame (quiet (by simp)) rfl rfl rfl
  | start => exact hb.frame (quiet (by simp [Deed.ticket?])) rfl rfl rfl

end Desk

end Conduit.Cancel
