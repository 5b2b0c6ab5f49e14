import Conduit.Proofs.Cancel.Moves
import Conduit.Proofs.Dispatch.Frames

/-!
Links are neither made nor lost by the way. A new ticket is linked to others when it is made; each of
these keeps the link among its handlers, or in its round when it has been cancelled, until the link
is followed or a throw passes the round; and nobody else ever gets a link to it.
-/

namespace Conduit.Cancel

open Dispatch

/-- A ticket keeps a link to `target` among its handlers. -/
def Tickets.Keeps (s : Tickets) (target t : Nat) : Prop :=
  ∃ a ∈ s.handlersOf t, a.reaction = .link target

/-- A round of a ticket still holds a link to `target`. -/
def Frame.Holds (target t : Nat) : Frame → Prop
  | .round u _ rest _ => u = t ∧ ∃ a ∈ rest, a.reaction = .link target
  | .call .. => False

/-- The links to `target` on a ticket that a turn leaves. -/
def Leaves (target t : Nat) (w : Turn signature) : Prop :=
  w.state.Keeps target t ∨ ∃ f ∈ w.next.left, f.Holds target t

/-- There is a link to `target` on a ticket, kept or in a round under way. -/
def Linked (c : Config component) (target t : Nat) : Prop :=
  c.state.Keeps target t ∨ ∃ f ∈ c.frames, f.Holds target t

section Turns

variable {s : Tickets} {target t u : Nat} {k : List Frame}

theorem keeps_congr {s s' : Tickets} (h : s'.handlersOf u = s.handlersOf u) :
    s'.Keeps target u ↔ s.Keeps target u := by
  unfold Tickets.Keeps
  rw [h]

theorem handlersOf_addTicket (s : Tickets) (u : Nat) : s.addTicket.handlersOf u = s.handlersOf u := by
  unfold Tickets.handlersOf Tickets.addTicket
  rcases Nat.lt_trichotomy u s.tickets.length with h | h | h
  · rw [List.getElem?_append_left h]
  · simp [h]
  · have hnone : s.tickets[u]? = none := List.getElem?_eq_none (Nat.le_of_lt h)
    rw [List.getElem?_append_right (Nat.le_of_lt h), hnone]
    have hpos : u - s.tickets.length ≠ 0 := by omega
    simp [hpos]

theorem handlersOf_settle (s : Tickets) (t : Nat) (r : Reason) (u : Nat) :
    (s.settle t r).handlersOf u = if t = u then [] else s.handlersOf u := by
  unfold Tickets.handlersOf Tickets.settle
  by_cases h : t = u
  · subst h
    by_cases hlt : t < s.tickets.length <;> simp [hlt]
  · simp [h]

/-- A handler that is not a link to `target` makes no such link. -/
theorem keeps_addHandler {a : Reaction} (ha : a ≠ .link target) :
    (s.addHandler t a).Keeps target u ↔ s.Keeps target u := by
  unfold Tickets.Keeps Tickets.handlersOf Tickets.addHandler
  simp only [List.getElem?_modify]
  cases s.tickets[u]? with
  | none => simp
  | some x => by_cases h : t = u <;> simp [h, or_and_right, exists_or, ha]

/-- Cancelling a ticket moves its links from its handlers into its round. -/
theorem leaves_cancel (s : Tickets) (t : Nat) (r : Reason) (k : List Frame) :
    Leaves target u (cancel s t r k) ↔ s.Keeps target u ∨ ∃ f ∈ k, f.Holds target u := by
  unfold cancel Leaves
  cases hr : s.reason? t with
  | some r' =>
    dsimp only
    cases k with
    | nil => simp [Next.left]
    | cons f k => simp [Next.left]
  | none =>
    dsimp only
    by_cases h : t = u
    · subst h
      simp [Tickets.Keeps, handlersOf_settle, Next.left, Frame.Holds]
    · simp [Tickets.Keeps, handlersOf_settle, Next.left, Frame.Holds, h]

/-- The callback of a handler holds no link. -/
theorem left_start {n : Nat} {cb : Callback} {context : Option Context} {r : Reason} :
    (∃ f ∈ (start n cb context r k).left, f.Holds target u) ↔ ∃ f ∈ k, f.Holds target u := by
  cases context <;> simp [start, Next.left, Frame.Holds]

theorem leaves_register (s : Tickets) (t : Nat) (cb : Callback) (context : Option Context) :
    Leaves target u (register s t cb context) ↔ s.Keeps target u := by
  unfold register Leaves
  cases s.reason? t with
  | none => simp [keeps_addHandler, Next.left]
  | some r =>
    dsimp only
    rw [left_start]
    have hkeeps : Tickets.Keeps s.number target u ↔ s.Keeps target u := keeps_congr rfl
    simp [hkeeps]

/-- A turn that only answers. -/
theorem leaves_reply {s' : Tickets} {wakes : List Task} {notes : List Note} {r : Reply Answer}
    (h : s'.handlersOf u = s.handlersOf u) :
    Leaves target u { state := s', wakes, notes, next := .reply r } ↔ s.Keeps target u := by
  unfold Leaves
  simp [Next.left, keeps_congr h]

/-- Linking leaves a link on a ticket that has no reason, and no other one. -/
theorem keeps_link {other : Nat} (hnone : s.handlersOf other = []) (ht : t ≠ other)
    (hlt : t < s.tickets.length) :
    ((s.link other t).Keeps target u ↔
      s.Keeps target u ∨ other = target ∧ u = t ∧ s.reason? u = none) ∧
      (s.link other t).handlersOf other = [] := by
  unfold Tickets.link
  cases hr : s.reason? t with
  | none =>
    constructor
    · unfold Tickets.Keeps Tickets.handlersOf Tickets.addHandler
      by_cases hu : u = t
      · subst hu
        simp [hlt, hr, or_and_right, exists_or]
      · simp [hu, Ne.symm hu]
    · simpa [Tickets.handlersOf, Tickets.addHandler, List.getElem?_modify, ht] using hnone
  | some r =>
    have hnew : ¬(other = target ∧ u = t ∧ s.reason? u = none) := by
      rintro ⟨-, rfl, hu⟩
      rw [hr] at hu
      cases hu
    rw [or_iff_left hnew]
    dsimp only
    split
    · refine ⟨?_, by simp [handlersOf_settle]⟩
      by_cases h : other = u
      · subst h
        simp [Tickets.Keeps, handlersOf_settle, hnone]
      · exact keeps_congr (by simp [handlersOf_settle, h]; rfl)
    · exact ⟨keeps_congr rfl, hnone⟩

/-- Linking gives no reason to any ticket but the one that is linked. -/
theorem reason?_link {other : Nat} (h : u ≠ other) : (s.link other t).reason? u = s.reason? u := by
  unfold Tickets.link
  cases s.reason? t with
  | none =>
    simp only [Tickets.reason?, Tickets.addHandler, List.getElem?_modify]
    cases s.tickets[u]? with
    | none => rfl
    | some k => by_cases hu : t = u <;> simp [hu]
  | some r =>
    dsimp only
    split
    · simp [Tickets.reason?, Tickets.settle, Tickets.number, Ne.symm h]
    · rfl

theorem length_link (s : Tickets) (other t : Nat) :
    (s.link other t).tickets.length = s.tickets.length := by
  unfold Tickets.link
  split
  · exact List.length_modify ..
  · split
    · exact List.length_set
    · rfl

theorem keeps_links {other : Nat} (ts : List Nat) (hnone : s.handlersOf other = [])
    (hts : ∀ t ∈ ts, t ≠ other ∧ t < s.tickets.length) :
    (ts.foldl (fun s t => s.link other t) s).Keeps target u ↔
      s.Keeps target u ∨ other = target ∧ u ∈ ts ∧ s.reason? u = none := by
  induction ts generalizing s with
  | nil => simp
  | cons t ts ih =>
    obtain ⟨hne, hlt⟩ := hts t List.mem_cons_self
    obtain ⟨hkeeps, hnone'⟩ := @keeps_link s target t u other hnone hne hlt
    have hrest : ∀ t' ∈ ts, t' ≠ other ∧ t' < (s.link other t).tickets.length := by
      intro t' ht'
      rw [length_link]
      exact hts t' (List.mem_cons_of_mem t ht')
    rw [List.foldl_cons, ih hnone' hrest, hkeeps]
    by_cases hu : u ∈ ts
    · rw [reason?_link (hts u (List.mem_cons_of_mem t hu)).1]
      simp only [hu, List.mem_cons, or_true, true_and]
      grind
    · simp [hu, List.mem_cons]

/-- Among the actions only linking makes links, from the tickets without a reason to the new one. -/
theorem leaves_exec (hs : s.Housed) (view : View) (a : Action) :
    Leaves target u (exec view s a) ↔
      s.Keeps target u ∨ s.tickets.length = target ∧ u ∈ links? s a ∧ s.reason? u = none := by
  have hadd : s.addTicket.handlersOf u = s.handlersOf u := handlersOf_addTicket s u
  by_cases hlinked : ∃ id ids, a = .linked id ids
  · obtain ⟨id, ids, rfl⟩ := hlinked
    have hnew : s.addTicket.handlersOf s.tickets.length = [] := by
      rw [handlersOf_addTicket]
      simp [Tickets.handlersOf]
    have hthere : ∀ t ∈ ids.filterMap s.ticket?, t < s.tickets.length := by
      intro t ht
      obtain ⟨id', -, ht⟩ := List.mem_filterMap.mp ht
      exact hs.ticket ht
    have hlinks := @keeps_links _ target u _ (ids.filterMap s.ticket?) hnew fun t ht =>
      ⟨Nat.ne_of_lt (hthere t ht), Nat.lt_of_lt_of_le (hthere t ht) (by simp [Tickets.addTicket])⟩
    have hreason : u ∈ ids.filterMap s.ticket? → s.addTicket.reason? u = s.reason? u := by
      intro hu
      rw [Tickets.reason?, Tickets.addTicket, List.getElem?_append_left (hthere u hu), Tickets.reason?]
    have hexec : Leaves target u (exec view s (.linked id ids)) ↔
        ((ids.filterMap s.ticket?).foldl (fun s' t => s'.link s.tickets.length t)
          s.addTicket).Keeps target u := leaves_reply rfl
    rw [hexec, hlinks, keeps_congr hadd]
    refine or_congr_right (and_congr_right fun _ => and_congr_right fun hu => ?_)
    rw [hreason hu]
  · have hnone : links? s a = [] := by
      cases a with
      | linked id ids => exact absurd ⟨id, ids, rfl⟩ hlinked
      | _ => rfl
    rw [hnone]
    simp only [List.not_mem_nil, false_and, and_false, or_false]
    cases a with
    | source id => exact leaves_reply hadd
    | linked id ids => exact absurd ⟨id, ids, rfl⟩ hlinked
    | never id => exact leaves_reply hadd
    | timeout id ms => exact leaves_reply hadd
    | drop id => exact leaves_reply rfl
    | keep | cancelAfter | wait | describe =>
      simp only [Cancel.exec]
      split <;> exact leaves_reply rfl
    | cancel id =>
      simp only [Cancel.exec]
      split
      · exact leaves_reply rfl
      · simpa using leaves_cancel (u := u) s _ .requested []
    | handler ticket label context script throws =>
      simp only [Cancel.exec]
      split
      · exact leaves_reply rfl
      · split
        · exact leaves_register ..
        · split
          · exact leaves_reply rfl
          · exact leaves_register ..

theorem leaves_poll (s : Tickets) (task : Task) :
    Leaves target u (poll s task) ↔ s.Keeps target u := by
  cases task with
  | waiter k =>
    simp only [Cancel.poll]
    split
    · exact leaves_reply rfl
    · split
      · exact leaves_reply rfl
      · exact leaves_reply rfl
  | timer k =>
    simp only [Cancel.poll]
    split
    · exact leaves_reply rfl
    · split
      · exact leaves_reply rfl
      · split
        · unfold expire
          dsimp only
          split
          · rw [leaves_cancel]
            simp only [List.not_mem_nil, false_and, exists_false, or_false]
            exact Iff.rfl
          · exact leaves_reply rfl
        · exact leaves_reply rfl

/-- A frame that does not follow a link to `target` keeps those that it holds. -/
theorem leaves_resume (s : Tickets) {f : Frame}
    (hf : ∀ t r n rest after, f ≠ .round t r (⟨n, .link target⟩ :: rest) after) :
    Leaves target u (resume s f) ↔ s.Keeps target u ∨ f.Holds target u := by
  cases f with
  | call n cb r => simp [Cancel.resume, Leaves, Next.left, Frame.Holds]
  | round t r rest after =>
    cases rest with
    | nil => simp [Cancel.resume, Leaves, Next.left, Frame.Holds]
    | cons a rest =>
      obtain ⟨n, reaction⟩ := a
      have hhead : reaction ≠ .link target := by
        rintro rfl
        exact hf t r n rest after rfl
      have hholds : (∃ f ∈ [Frame.round t r rest after], f.Holds target u) ↔
          (Frame.round t r (⟨n, reaction⟩ :: rest) after).Holds target u := by
        simp [Frame.Holds, hhead]
      rw [← hholds]
      cases reaction with
      | callback cb context =>
        unfold Leaves
        simp only [Cancel.resume]
        rw [left_start]
      | link other =>
        simp only [Cancel.resume]
        split
        · exact leaves_cancel ..
        · rfl

/-- A link that is followed is gone, and the others stay. -/
theorem leaves_follow (s : Tickets) (t : Nat) (r : Reason) (n : Nat) (rest : List Handler)
    (after : Reply Answer) :
    Leaves target u (resume s (.round t r (⟨n, .link target⟩ :: rest) after)) ↔
      s.Keeps target u ∨ (Frame.round t r rest after).Holds target u := by
  have hone : (∃ f ∈ [Frame.round t r rest after], f.Holds target u) ↔
      (Frame.round t r rest after).Holds target u := by simp
  rw [← hone]
  simp only [Cancel.resume]
  split
  · exact leaves_cancel ..
  · rfl

end Turns

/-- Only callbacks are handed to contexts. -/
def HandsCalls (w : Turn signature) : Prop := ∀ d f k, w.next = .perform d f k → f.round? = none

theorem handsCalls_cancel (s : Tickets) (t : Nat) (r : Reason) (k : List Frame) :
    HandsCalls (cancel s t r k) := by
  intro d f k' h
  unfold cancel at h
  split at h
  · dsimp only at h
    split at h <;> cases h
  · cases h

theorem handsCalls_start {w : Turn signature} {n : Nat} {cb : Callback} {context : Option Context}
    {r : Reason} {k : List Frame} (hw : w.next = start n cb context r k) : HandsCalls w := by
  intro d f k' h
  rw [hw] at h
  cases context with
  | none => cases h
  | some c =>
    cases h
    rfl

theorem handsCalls_register (s : Tickets) (t : Nat) (cb : Callback) (context : Option Context) :
    HandsCalls (register s t cb context) := by
  unfold register
  split
  · intro d f k h
    cases h
  · exact handsCalls_start rfl

theorem handsCalls_exec (s : Tickets) (view : View) (a : Action) : HandsCalls (exec view s a) := by
  have reply {w : Turn signature} {r : Reply Answer} (hw : w.next = .reply r) : HandsCalls w := by
    intro d f k h
    rw [hw] at h
    cases h
  cases a with
  | cancel id =>
    simp only [Cancel.exec]
    split
    · exact reply rfl
    · apply handsCalls_cancel
  | handler ticket label context script throws =>
    simp only [Cancel.exec]
    split
    · exact reply rfl
    · split
      · apply handsCalls_register
      · split
        · exact reply rfl
        · apply handsCalls_register
  | keep | cancelAfter | wait | describe =>
    simp only [Cancel.exec]
    split <;> exact reply rfl
  | _ => exact reply rfl

theorem handsCalls_resume (s : Tickets) (f : Frame) : HandsCalls (resume s f) := by
  cases f with
  | call n cb r =>
    intro d f k h
    cases h
  | round t r rest after =>
    rcases rest with _ | ⟨⟨n, cb | target⟩, rest⟩
    · intro d f k h
      cases h
    · exact handsCalls_start rfl
    · simp only [Cancel.resume]
      split
      · apply handsCalls_cancel
      · intro d f k h
        cases h

theorem handsCalls_poll (s : Tickets) (task : Task) : HandsCalls (poll s task) := by
  have reply {w : Turn signature} {r : Reply Answer} (hw : w.next = .reply r) : HandsCalls w := by
    intro d f k h
    rw [hw] at h
    cases h
  cases task with
  | waiter k =>
    simp only [Cancel.poll]
    split
    · exact reply rfl
    · split <;> exact reply rfl
  | timer k =>
    simp only [Cancel.poll]
    split
    · exact reply rfl
    · split
      · exact reply rfl
      · split
        · unfold expire
          dsimp only
          split
          · apply handsCalls_cancel
          · exact reply rfl
        · exact reply rfl

/-- The links that are made at a moment: the new ticket, with each one that it is linked to. A link to
a ticket that has a reason is followed at once. -/
def bondsAt : Moment component → List (Nat × Nat)
  | ⟨s, .exec _ a⟩ => (links? s a).map fun t => (s.tickets.length, t)
  | _ => []

/-- A link to `target` is left on a ticket at this moment. -/
def Made (c : Config component) (cause : Option (Cause component)) (target t : Nat) : Prop :=
  (∃ q ∈ c.moment cause, (target, t) ∈ bondsAt q) ∧ c.state.reason? t = none

section Steps

variable {c c' : Config component} {w : Turn signature} {target u : Nat}

theorem not_holds_of_call {f : Frame} (hf : f.round? = none) : ¬f.Holds target u := by
  cases f with
  | round => cases hf
  | call => exact id

/-- The machine takes over the links that a turn leaves. -/
theorem linked_takes (h : c.Takes w c') (hn : c.next = none) (hw : HandsCalls w) :
    Linked c' target u ↔ Leaves target u w ∨ ∃ f ∈ c.frames, f.Holds target u := by
  unfold Linked Leaves
  rcases h.frames hn with ⟨hf, hs, -⟩ | ⟨d, f, k, hnext, hf, hs⟩
  · rw [hs]
    simp only [hf.mem_iff, List.mem_append, or_and_right, exists_or, or_assoc]
  · have hstate : c'.state = w.state := hs.elim (·.1) (·.1)
    have hcall : ¬Frame.Holds target u f := not_holds_of_call (hw d f k hnext)
    rw [hstate, hf, hnext]
    simp [Next.left, or_and_right, exists_or, or_assoc, hcall]

/-- A link is followed at this moment, or is in a round that a throw passes. -/
inductive LetsGo (target t : Nat) : Cause component → Prop where
  | follow {r n rest after} : LetsGo target t (.resume (.round t r (⟨n, .link target⟩ :: rest) after))
  | leave {r rest after} : LetsGo target t (.unwind (.round t r rest after))

theorem linked_congr (hs : c'.state.handlersOf u = c.state.handlersOf u)
    (hf : c'.frames.Perm c.frames) : Linked c' target u ↔ Linked c target u := by
  unfold Linked
  rw [keeps_congr hs]
  simp only [hf.mem_iff]

/-- Links go on, unless they are let go of for the cause; and there are no new ones but those that
are made. -/
def GoesOn (c c' : Config component) (cause : Option (Cause component)) (target u : Nat) : Prop :=
  (Linked c' target u → Linked c target u ∨ Made c cause target u) ∧
    (Linked c target u ∨ Made c cause target u →
      Linked c' target u ∨ ∃ q, cause = some q ∧ LetsGo target u q)

theorem goesOn_of_iff {cause : Option (Cause component)}
    (h : Linked c' target u ↔ Linked c target u ∨ Made c cause target u) :
    GoesOn c c' cause target u :=
  ⟨h.mp, fun hl => .inl (h.mpr hl)⟩

/-- Only actions make links, and to new tickets only. -/
theorem made_iff {cause : Option (Cause component)} :
    Made c cause target u ↔ ∃ view a, cause = some (.exec view a) ∧
      c.state.tickets.length = target ∧ u ∈ links? c.state a ∧ c.state.reason? u = none := by
  constructor
  · rintro ⟨⟨q, hq, hbond⟩, hnone⟩
    rcases cause with _ | cause
    · simp [Config.moment] at hq
    · obtain rfl : q = ⟨c.state, cause⟩ := by simpa [Config.moment] using hq
      cases cause with
      | exec view a =>
        obtain ⟨t, ht, he⟩ := List.mem_map.mp hbond
        cases he
        exact ⟨view, a, rfl, rfl, ht, hnone⟩
      | _ => cases hbond
  · rintro ⟨view, a, rfl, rfl, hu, hnone⟩
    exact ⟨⟨_, List.mem_cons_self, List.mem_map.mpr ⟨u, hu, rfl⟩⟩, hnone⟩

theorem not_made {cause : Option (Cause component)} (h : ∀ view a, cause ≠ some (.exec view a)) :
    ¬Made c cause target u := by
  intro hmade
  obtain ⟨view, a, rfl, -⟩ := made_iff.mp hmade
  exact h view a rfl

/-- A move in which no link is made or let go of. -/
theorem goesOn_still {cause : Option (Cause component)} (hc : ∀ view a, cause ≠ some (.exec view a))
    (h : Linked c' target u ↔ Linked c target u) : GoesOn c c' cause target u :=
  goesOn_of_iff (h.trans (or_iff_left (not_made hc)).symm)

/-- Only the link that is followed may be missing afterwards. -/
theorem goesOn_resume {f : Frame} (hn : c.next = some f)
    (ht : Config.Takes { c with next := none } (component.resume c.state f) c') :
    GoesOn c c' (some (.resume f)) target u := by
  have hc : Linked c target u ↔ (c.state.Keeps target u ∨ f.Holds target u) ∨
      ∃ g ∈ Config.frames { c with next := none }, g.Holds target u := by
    unfold Linked
    rw [Config.frames_next hn]
    simp [or_assoc]
  have hc' := @linked_takes _ c' _ target u ht rfl (handsCalls_resume _ _)
  by_cases hf : ∃ t r n rest after, f = .round t r (⟨n, .link target⟩ :: rest) after
  · obtain ⟨t, r, n, rest, after, rfl⟩ := hf
    have hleaves : Leaves target u _ ↔ _ := leaves_follow c.state t r n rest after
    have hrest : (Frame.round t r rest after).Holds target u →
        (Frame.round t r (⟨n, .link target⟩ :: rest) after).Holds target u :=
      fun ⟨ht, a, ha, hlink⟩ => ⟨ht, a, List.mem_cons_of_mem _ ha, hlink⟩
    unfold GoesOn
    rw [or_iff_left (not_made (by simp)), hc, hc', hleaves]
    constructor
    · exact Or.imp_left (Or.imp_right hrest)
    · rintro ((hkeeps | ⟨rfl, -⟩) | hframe)
      · exact .inl (.inl (.inl hkeeps))
      · exact .inr ⟨_, rfl, .follow⟩
      · exact .inl (.inr hframe)
  · apply goesOn_still (by simp)
    rw [hc, hc']
    apply or_congr_left
    apply leaves_resume
    intro t r n rest after he
    exact hf ⟨t, r, n, rest, after, he⟩

/-- A throw that passes a round takes its links along. -/
theorem goesOn_unwind {f : Frame} {k : List Frame} (hn : c.next = none) (hk : c.stack = f :: k) :
    GoesOn c (Config.discard { c with stack := k } f) (some (.unwind f)) target u := by
  have hc : Linked c target u ↔ c.state.Keeps target u ∨ f.Holds target u ∨
      ∃ g ∈ Config.frames { c with stack := k }, g.Holds target u := by
    unfold Linked
    rw [Config.frames_pop hn hk]
    simp
  have hc' : Linked (Config.discard { c with stack := k } f) target u ↔
      c.state.Keeps target u ∨ ∃ g ∈ Config.frames { c with stack := k }, g.Holds target u :=
    Iff.rfl
  unfold GoesOn
  rw [or_iff_left (not_made (by simp)), hc, hc']
  constructor
  · exact Or.imp_right .inr
  · rintro (hkeeps | hholds | hframe)
    · exact .inl (.inl hkeeps)
    · cases f with
      | call => exact hholds.elim
      | round t r rest after =>
        obtain ⟨rfl, -⟩ := hholds
        exact .inr ⟨_, rfl, .leave⟩
    · exact .inl (.inr hframe)

/-- Every step keeps the links to a ticket, unless they are let go of, and makes no others than those
that an action asks for. -/
theorem linked_step {cause : Option (Cause component)} (hs : c.state.Housed) (h : c.Step cause c') :
    GoesOn c c' cause target u := by
  cases h with
  | still hf =>
    apply goesOn_still (by simp)
    apply linked_congr
    · rw [hf.state_eq]
    · rw [hf.frames_eq]
  | @exec view a _ hn ht =>
    apply goesOn_of_iff
    have hmade : Made c (some (.exec view a)) target u ↔
        c.state.tickets.length = target ∧ u ∈ links? c.state a ∧ c.state.reason? u = none := by
      rw [made_iff]
      constructor
      · rintro ⟨_, _, he, h⟩
        cases he
        exact h
      · exact fun h => ⟨view, a, rfl, h⟩
    rw [linked_takes ht hn (handsCalls_exec _ _ _), hmade]
    unfold Linked
    rw [show Leaves target u (exec view c.state a) ↔ _ from leaves_exec hs view a, or_right_comm]
  | resume hn ht => exact goesOn_resume hn ht
  | unwind hn hk hf => exact hf ▸ goesOn_unwind hn hk
  | poll hn hk hr ht =>
    apply goesOn_still (by simp)
    rw [linked_takes ht hn (handsCalls_poll _ _)]
    exact or_congr_left (leaves_poll _ _)
  | tick hn => exact goesOn_still (by simp) Iff.rfl
  | begin hn hv =>
    apply goesOn_still (by simp)
    exact linked_congr rfl (Config.frames_begin hn hv)
  | opened hn hf =>
    apply goesOn_still (by simp)
    apply linked_congr
    · rw [hf.state_eq]
    · rw [hf.frames_eq, Config.frames_opened]

end Steps

end Conduit.Cancel
