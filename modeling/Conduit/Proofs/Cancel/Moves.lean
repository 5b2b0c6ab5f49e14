import Conduit.Proofs.Cancel.Desk

/-!
Every step of a configuration of tickets is a few moves of its desk. First comes what the machine
makes of the frames that a turn leaves, then the turns themselves, one after the other.
-/

namespace Conduit.Cancel

open Dispatch

theorem Frame.Within.mono {n n' : Nat} {f : Frame} (h : f.Within n) (hn : n ≤ n') :
    f.Within n' := by
  cases f with
  | round => exact ⟨fun a ha => (h.1 a ha).mono hn, h.2⟩
  | call => trivial

/-- A desk with other tickets and more rounds. -/
def Desk.after (d : Desk) (s : Tickets) (k : List Frame) : Desk := { d with
  tickets := s.tickets
  registered := s.registered
  rounds := k.filterMap Frame.round? ++ d.rounds }

section Takes

variable {c c' : Config component} {t : Turn signature} {k : List Frame}

theorem Shape.faces (hc : Shape c) (h : c.Faces c') : Shape c' ∧ desk c' = desk c := by
  cases h with
  | stay => exact ⟨hc, rfl⟩
  | @face f k hn hk =>
    have hf := hc.stack f (hk ▸ List.mem_cons_self)
    refine ⟨⟨hc.housed, ?_, fun g hg => hc.stack g (hk ▸ List.mem_cons_of_mem f hg), hc.waiting⟩, ?_⟩
    · simpa [hn, hk] using hc.within
    · simp [desk, hn, hk, hf]

/-- A turn leaves rounds on the stack. -/
theorem Shape.after (hc : Shape c) (hn : c.next = none) (hs : t.state.Housed)
    (hg : c.state.tickets.length ≤ t.state.tickets.length)
    (hk : ∀ f ∈ k, f.Within t.state.tickets.length ∧ f.call? = none) :
    Shape (c.after t k) ∧ desk (c.after t k) = (desk c).after t.state k := by
  refine ⟨⟨hs, fun f hf => ?_, fun f hf => ?_, hc.waiting⟩, ?_⟩
  · simp only [Config.after, hn, Option.toList_none, List.nil_append, List.mem_append] at hf
    rcases hf with hf | hf
    · exact (hk f hf).1
    · exact (hc.within f (List.mem_append_right _ hf)).mono hg
  · rcases List.mem_append.mp hf with hf | hf
    · exact (hk f hf).2
    · exact hc.stack f hf
  · simp [desk, Desk.after, Config.after, hn]

/-- A turn that leaves no frames. -/
theorem Shape.takes_quiet (hc : Shape c) (hn : c.next = none) (hs : t.state.Housed)
    (hg : c.state.tickets.length ≤ t.state.tickets.length)
    (ht : (∃ r, t.next = .reply r) ∨ ∃ tag ops throws, t.next = .script tag ops throws [])
    (h : c.Takes t c') : Shape c' ∧ desk c' = (desk c).after t.state [] := by
  obtain ⟨hc', hd⟩ := hc.after hn hs hg (k := []) (by simp)
  have hfaces : (c.after t []).Faces c' := by
    rcases ht with ⟨r, ht⟩ | ⟨tag, ops, throws, ht⟩ <;> cases h <;> simp_all
  exact ⟨(hc'.faces hfaces).1, (hc'.faces hfaces).2.trans hd⟩

/-- A turn that leaves rounds. -/
theorem Shape.takes_rounds (hc : Shape c) (hn : c.next = none) (hs : t.state.Housed)
    (hg : c.state.tickets.length ≤ t.state.tickets.length) (ht : t.next = .enter k)
    (hk : ∀ f ∈ k, f.Within t.state.tickets.length ∧ f.call? = none)
    (h : c.Takes t c') : Shape c' ∧ desk c' = (desk c).after t.state k := by
  obtain ⟨hc', hd⟩ := hc.after hn hs hg hk
  have hfaces : (c.after t k).Faces c' := by
    cases h with
    | enterNil he hf =>
      obtain rfl : k = [] := by simpa [he] using ht.symm
      exact hf
    | @enter f k' he =>
      obtain rfl : k = f :: k' := by simpa [he] using ht.symm
      exact .face _ hn rfl
    | _ => simp_all
  exact ⟨(hc'.faces hfaces).1, (hc'.faces hfaces).2.trans hd⟩

/-- A callback joins a line. -/
theorem Shape.push (hc : Shape c) {v : Nat} (hv : v < c.waiting.length) (n : Nat) (cb : Callback)
    (r : Reason) : Shape (c.push v (.call n cb r)) ∧ ∃ a b, (desk c).waiting = a ++ b ∧
      desk (c.push v (.call n cb r)) = { desk c with waiting := a ++ (n, r) :: b } := by
  refine ⟨⟨hc.housed, hc.within, hc.stack, fun line hl f hf => ?_⟩, ?_⟩
  · obtain ⟨i, hi⟩ := List.getElem?_of_mem hl
    simp only [Config.push, List.getElem?_modify, Option.map_eq_map, Option.map_eq_some_iff] at hi
    obtain ⟨line', hi, rfl⟩ := hi
    have hline := hc.waiting line' (List.mem_of_getElem? hi)
    split at hf
    · rcases List.mem_append.mp hf with hf | hf
      · exact hline f hf
      · rw [List.mem_singleton.mp hf]
        rfl
    · exact hline f hf
  · obtain ⟨l₁, line, l₂, hw, rfl⟩ : ∃ l₁ line l₂, c.waiting = l₁ ++ line :: l₂ ∧ l₁.length = v :=
      ⟨c.waiting.take v, c.waiting[v], c.waiting.drop (v + 1), by simp, by simp; omega⟩
    refine ⟨(l₁.flatten ++ line).filterMap Frame.call?, l₂.flatten.filterMap Frame.call?, ?_, ?_⟩
    · simp [desk, hw]
    · simp [desk, Config.push, hw, List.modify_eq_take_cons_drop, Frame.call?]

/-- A turn that starts the callback of a handler. -/
theorem Shape.takes_start (hc : Shape c) (hn : c.next = none) (hs : t.state.Housed)
    (hg : c.state.tickets.length ≤ t.state.tickets.length) {n : Nat} {cb : Callback}
    {context : Option Context} {r : Reason} (ht : t.next = start n cb context r k)
    (hk : ∀ f ∈ k, f.Within t.state.tickets.length ∧ f.call? = none) (h : c.Takes t c')
    (ticket : Nat) (late : Bool) :
    Shape c' ∧ ∃ way, handed ticket late t.next = [.reacted ticket n r way late] ∧
      ((desk c).after t.state k).Gives n r way (desk c') := by
  obtain ⟨hc', hd⟩ := hc.after hn hs hg hk
  -- The callback runs at once, in line or on a context.
  have inline : Shape { c.after t k with next := some (.call n cb r) } ∧
      desk { c.after t k with next := some (.call n cb r) } =
        { (desk c).after t.state k with now := some (n, r) } := by
    refine ⟨⟨hc'.housed, fun f hf => ?_, hc'.stack, hc'.waiting⟩, ?_⟩
    · rcases List.mem_cons.mp hf with rfl | hf
      · trivial
      · exact hc'.within f (List.mem_append_right _ hf)
    · rw [← hd]
      simp [desk, Config.after, hn, Frame.call?]
  cases context with
  | none =>
    refine ⟨?_, .inLine, by rw [ht]; rfl, ?_⟩
    all_goals
      cases h with
      | @enter f k' he =>
        obtain ⟨rfl, rfl⟩ : f = .call n cb r ∧ k' = k := by simpa [he, start] using ht
        first | exact inline.1 | exact inline.2 ▸ .inLine
      | _ => simp_all [start]
  | some d =>
    have key : Shape c' ∧ ((desk c).after t.state k).Gives n r (.on d) (desk c') := by
      cases h with
      | @inline d' w k' he =>
        obtain ⟨rfl, rfl, rfl⟩ : d' = d ∧ w = .call n cb r ∧ k' = k := by
          simpa [he, start] using ht
        exact ⟨inline.1, inline.2 ▸ .direct d'⟩
      | @queued d' w k' v c' he _ hv hf =>
        obtain ⟨rfl, rfl, rfl⟩ : d' = d ∧ w = .call n cb r ∧ k' = k := by
          simpa [he, start] using ht
        obtain ⟨hpush, a, b, hw, hdesk⟩ := hc'.push hv n cb r
        obtain ⟨hshape, he⟩ := hpush.faces hf
        refine ⟨hshape, ?_⟩
        rw [he, hdesk, hd]
        exact .queued d' (by rw [← hd]; exact hw)
      | @dropped d' w k' v c' he _ hf =>
        obtain ⟨rfl, rfl, rfl⟩ : d' = d ∧ w = .call n cb r ∧ k' = k := by
          simpa [he, start] using ht
        obtain ⟨hshape, he⟩ := Shape.faces
          (c := (c.after t k').discard (.call n cb r))
          ⟨hc'.housed, hc'.within, hc'.stack, hc'.waiting⟩ hf
        exact ⟨hshape, he.trans hd ▸ .dropped d'⟩
      | @lost d' w k' v c' he _ hf =>
        obtain ⟨rfl, rfl, rfl⟩ : d' = d ∧ w = .call n cb r ∧ k' = k := by
          simpa [he, start] using ht
        obtain ⟨hshape, he⟩ := hc'.faces hf
        exact ⟨hshape, he.trans hd ▸ .dropped d'⟩
      | _ => simp_all [start]
    exact ⟨key.1, .on d, by rw [ht]; rfl, key.2⟩

end Takes

section Turns

variable {c c' : Config component} {s : Tickets} {t : Nat} {k : List Frame}

/-- An attempt to cancel a ticket. -/
theorem Shape.cancel (hc : Shape c) (hn : c.next = none) (hs : s.Housed)
    (hg : c.state.tickets.length ≤ s.tickets.length) (ht : t < s.tickets.length) {r : Reason}
    (hk : ∀ f ∈ k, f.Within s.tickets.length ∧ f.call? = none)
    (h : c.Takes (cancel s t r k) c') : Shape c' ∧ ((desk c).after s k).Moves
      (.attempted t r (s.reason? t).isNone ::
        if (s.reason? t).isSome then [.answered t false] else []) (desk c') := by
  have hnow : ((desk c).after s k).now = none := by simp [desk, Desk.after, hn]
  cases hr : s.reason? t with
  | some r' =>
    have hd : Shape c' ∧ desk c' = (desk c).after s k := by
      cases k with
      | nil =>
        refine hc.takes_quiet hn (t := { state := s, next := .reply (.own (.fired false)) }) hs hg
          (.inl ⟨_, rfl⟩) ?_
        simpa [Cancel.cancel, hr] using h
      | cons f k =>
        refine hc.takes_rounds hn (t := { state := s, next := .enter (f :: k) }) hs hg rfl hk ?_
        simpa [Cancel.cancel, hr] using h
    exact ⟨hd.1, hd.2 ▸ (Desk.Move.fail hnow hr).moves⟩
  | none =>
    obtain ⟨ticket, hticket⟩ : ∃ ticket, s.tickets[t]? = some ticket :=
      ⟨_, List.getElem?_eq_getElem ht⟩
    have hreason : ticket.reason = none := by simpa [Tickets.reason?, hticket] using hr
    have hhandlers : s.handlersOf t = ticket.handlers := by simp [Tickets.handlersOf, hticket]
    have hlen : (s.settle t r).tickets.length = s.tickets.length := List.length_set
    have hd := hc.takes_rounds hn
      (t := { state := s.settle t r, wakes := s.waitersOf t, next := _ }) (hs.settle t r)
      (hlen ▸ hg) rfl (k := .round t r (s.handlersOf t) (.own (.fired true)) :: k) (fun f hf => ?_)
      (by simpa [Cancel.cancel, hr] using h)
    · refine ⟨hd.1, ?_⟩
      rw [hd.2, hhandlers]
      exact (Desk.Move.win hnow hticket hreason).moves
    · rw [hlen]
      rcases List.mem_cons.mp hf with rfl | hf
      · exact ⟨⟨fun a ha => hs.handlersOf ha, rfl⟩, rfl⟩
      · exact hk f hf

theorem answer_cancel (s : Tickets) (t : Nat) (r : Reason) :
    answer t (cancel s t r []).next =
      if (s.reason? t).isSome then [.answered t false] else [] := by
  unfold cancel
  cases hr : s.reason? t <;> rfl

/-- A new ticket is linked to one that there was. -/
theorem link_moves {d : Desk} (hn : d.now = none) (hs : s.Housed) {target : Nat}
    (htarget : target < s.tickets.length) (hh : s.handlersOf target = []) {t : Nat}
    (ht : t < s.tickets.length) (hne : t ≠ target) :
    (d.after s []).Moves (match s.reason? t with
      | none => [.registered t s.registered none]
      | some r =>
        [.registered t s.registered (some r), .reacted t s.registered r .link true,
          .attempted target r (s.reason? target).isNone,
          .answered target (s.reason? target).isNone]) (d.after (s.link target t) []) ∧
      (s.link target t).Housed ∧ (s.link target t).tickets.length = s.tickets.length ∧
      (s.link target t).handlersOf target = [] := by
  obtain ⟨ticket, hticket⟩ : ∃ ticket, s.tickets[target]? = some ticket :=
    ⟨_, List.getElem?_eq_getElem htarget⟩
  unfold Tickets.link
  cases hr : s.reason? t with
  | none =>
    have hm := Desk.Move.register (d := d.after s []) (.link target) hn ht hr
    refine ⟨hm.moves, hs.addHandler t ?_, List.length_modify .., ?_⟩
    · intro target' h
      cases h
      exact htarget
    · simpa [Tickets.handlersOf, Tickets.addHandler, List.getElem?_modify, hne] using hh
  | some r =>
    have hlate : (d.after s []).Move
        [.registered t s.registered (some r), .reacted t s.registered r .link true]
        (d.after s.number []) := .linkLate hn hr
    cases hfirst : s.reason? target with
    | none =>
      have hwin : (d.after s.number []).Move [.attempted target r true]
          ((d.after (s.number.settle target r) [.round target r [] (.own (.fired true))])) := by
        have hnone : ticket.handlers = [] := by simpa [Tickets.handlersOf, hticket] using hh
        have := Desk.Move.win (d := d.after s.number []) (r := r) hn hticket
          (by simpa [Tickets.reason?, hticket] using hfirst)
        rwa [hnone] at this
      refine ⟨(hlate.moves.more hwin).more (.finish hn rfl), hs.number.settle target r,
        List.length_set, ?_⟩
      simp [Tickets.handlersOf, Tickets.settle, Tickets.number, htarget]
    | some r' =>
      exact ⟨hlate.moves.more (.fail hn hfirst), hs.number, rfl, hh⟩

/-- A new ticket is linked to several that there were. -/
theorem links_moves {d : Desk} (hn : d.now = none) (hs : s.Housed) {target : Nat}
    (htarget : target < s.tickets.length) (hh : s.handlersOf target = []) (ts : List Nat)
    (hts : ∀ t ∈ ts, t < s.tickets.length ∧ t ≠ target) :
    (d.after s []).Moves (linkDeeds s target ts)
      (d.after (ts.foldl (fun s t => s.link target t) s) []) ∧
      (ts.foldl (fun s t => s.link target t) s).Housed ∧
      (ts.foldl (fun s t => s.link target t) s).tickets.length = s.tickets.length := by
  induction ts generalizing s with
  | nil => exact ⟨.none, hs, rfl⟩
  | cons t ts ih =>
    obtain ⟨ht, hne⟩ := hts t List.mem_cons_self
    obtain ⟨hm, hs', hlen, hh'⟩ := link_moves hn hs htarget hh ht hne
    obtain ⟨hms, hs'', hlen'⟩ := ih hs' (hlen ▸ htarget) hh' fun t h =>
      hlen ▸ hts t (List.mem_cons_of_mem _ h)
    exact ⟨hm.trans hms, hs'', hlen'.trans hlen⟩

/-- A callback is registered. -/
theorem Shape.register (hc : Shape c) (hn : c.next = none) (ht : t < c.state.tickets.length)
    (cb : Callback) (context : Option Context)
    (h : c.Takes (register c.state t cb context) c') : Shape c' ∧ (desk c).Moves
      (.registered t c.state.registered (c.state.reason? t) ::
        handed t true (register c.state t cb context).next) (desk c') := by
  have hnow : (desk c).now = none := by simp [desk, hn]
  unfold Cancel.register at h ⊢
  cases hr : c.state.reason? t with
  | none =>
    rw [hr] at h
    have hd := hc.takes_quiet hn (hc.housed.addHandler t (by simp))
      (Nat.le_of_eq (List.length_modify ..).symm) (.inl ⟨_, rfl⟩) h
    refine ⟨hd.1, ?_⟩
    rw [hd.2]
    exact (Desk.Move.register (.callback cb context) hnow ht hr).moves
  | some r =>
    rw [hr] at h
    obtain ⟨hc', way, hhanded, hg⟩ := hc.takes_start hn hc.housed.number (Nat.le_refl _) rfl
      (by simp) h t true
    refine ⟨hc', ?_⟩
    rw [hhanded]
    exact (Desk.Move.registerLate hnow hr hg).moves

theorem execDeeds_nil {view : View} {a : Action} (hr : registers? view s a = none)
    (hc : cancels? s a = none) (hl : links? s a = []) : execDeeds view s a = [] := by
  simp [execDeeds, hr, hc, hl, linkDeeds]

theorem Shape.exec (hc : Shape c) (hn : c.next = none) (view : View) (a : Action)
    (h : c.Takes (exec view c.state a) c') :
    Shape c' ∧ (desk c).Moves (execDeeds view c.state a) (desk c') := by
  have hnow : (desk c).now = none := by simp [desk, hn]
  -- An action that changes no tickets.
  have quiet {s : Tickets} {wakes : List Task} {r : Reply Answer} (hs : s.Housed)
      (ht : s.tickets = c.state.tickets) (hreg : s.registered = c.state.registered)
      (h : c.Takes { state := s, wakes, next := .reply r } c') :
      Shape c' ∧ (desk c).Moves [] (desk c') := by
    have hd := hc.takes_quiet hn hs (Nat.le_of_eq (congrArg List.length ht).symm) (.inl ⟨_, rfl⟩) h
    refine ⟨hd.1, ?_⟩
    rw [hd.2]
    have : (desk c).after s [] = desk c := by simp [Desk.after, desk, ht, hreg]
    exact this ▸ .none
  -- An action that adds a ticket.
  have create {s : Tickets} {wakes : List Task} {r : Reply Answer} (hs : s.Housed)
      (ht : s.tickets = c.state.addTicket.tickets) (hreg : s.registered = c.state.registered)
      (h : c.Takes { state := s, wakes, next := .reply r } c') :
      Shape c' ∧ (desk c).Moves [] (desk c') := by
    have hlen : c.state.tickets.length ≤ s.tickets.length := by simp [ht, Tickets.addTicket]
    have hd := hc.takes_quiet hn hs hlen (.inl ⟨_, rfl⟩) h
    refine ⟨hd.1, ?_⟩
    rw [hd.2]
    have : (desk c).after s [] = (desk c).after c.state.addTicket [] := by
      simp [Desk.after, ht, hreg, Tickets.addTicket]
    exact this ▸ (Desk.Move.create hnow).moves
  have hnew : c.state.addTicket.Housed := hc.housed.addTicket
  have hlast : c.state.tickets.length < c.state.addTicket.tickets.length := by
    simp [Tickets.addTicket]
  cases a with
  | source id => exact create (hnew.nameSource hlast id) rfl rfl h
  | never id => exact create (hnew.keep hlast id) rfl rfl h
  | timeout id ms => exact create ((hnew.nameSource hlast id).addTimer hlast ms) rfl rfl h
  | drop id => exact quiet (hc.housed.drop id) rfl rfl h
  | linked id ids =>
    have hd := links_moves (d := desk c) hnow hnew hlast
      (by simp [Tickets.handlersOf, Tickets.addTicket]) (ids.filterMap c.state.ticket?) fun t ht => ?_
    · have hq := hc.takes_quiet (t := Cancel.exec view c.state (.linked id ids)) hn
        (hd.2.1.nameSource (hd.2.2 ▸ hlast) id) ?_ (.inl ⟨_, rfl⟩) h
      · refine ⟨hq.1, ?_⟩
        rw [hq.2]
        exact (Desk.Move.create hnow).moves.trans hd.1
      · refine Nat.le_trans (Nat.le_of_lt hlast) (Nat.le_of_eq ?_)
        exact hd.2.2.symm
    · obtain ⟨id', -, ht⟩ := List.mem_filterMap.mp ht
      have := hc.housed.ticket ht
      exact ⟨Nat.lt_trans this hlast, Nat.ne_of_lt this⟩
  | keep id of =>
    simp only [Cancel.exec] at h
    rw [execDeeds_nil rfl rfl rfl]
    split at h
    · exact quiet hc.housed rfl rfl h
    · rename_i t ht
      exact quiet (hc.housed.keep (hc.housed.ticket ht) id) rfl rfl h
  | cancel id =>
    simp only [execDeeds, Cancel.exec, cancels?, registers?, links?, linkDeeds] at h ⊢
    cases ht : c.state.sources.lookup id with
    | none =>
      rw [ht] at h
      exact quiet hc.housed rfl rfl h
    | some t =>
      rw [ht] at h
      have hd := hc.cancel hn hc.housed (Nat.le_refl _) (hc.housed.source ht) (by simp) h
      refine ⟨hd.1, ?_⟩
      simpa [answer_cancel, Desk.after, desk] using hd.2
  | cancelAfter id ms =>
    simp only [Cancel.exec] at h
    rw [execDeeds_nil rfl rfl rfl]
    split at h
    · exact quiet hc.housed rfl rfl h
    · rename_i t ht
      exact quiet (hc.housed.addTimer (hc.housed.source ht) ms) rfl rfl h
  | handler ticket label context script throws =>
    simp only [execDeeds, Cancel.exec, cancels?, links?, linkDeeds] at h ⊢
    cases ht : c.state.ticket? ticket with
    | none =>
      rw [ht] at h
      have : registers? view c.state (.handler ticket label context script throws) = none := by
        cases context <;> simp [registers?, ht]
      rw [this]
      exact quiet hc.housed rfl rfl h
    | some t =>
      rw [ht] at h
      have hlt := hc.housed.ticket ht
      cases context with
      | none =>
        have hd := hc.register hn hlt _ none h
        simpa [registers?, ht] using hd
      | some name =>
        dsimp only at h ⊢
        cases hctx : view.context? name with
        | none =>
          rw [hctx] at h
          simp only [registers?, hctx]
          exact quiet hc.housed rfl rfl h
        | some d =>
          rw [hctx] at h
          have hd := hc.register hn hlt _ (some d) h
          simpa [registers?, ht, hctx] using hd
  | wait ticket label =>
    simp only [Cancel.exec] at h
    rw [execDeeds_nil rfl rfl rfl]
    split at h
    · exact quiet hc.housed rfl rfl h
    · exact quiet (hc.housed.addWaiter _ label) rfl rfl h
  | describe id =>
    simp only [Cancel.exec] at h
    rw [execDeeds_nil rfl rfl rfl]
    split at h <;> exact quiet hc.housed rfl rfl h

theorem expires?_eq {k : Nat} {timer : Timer} (hk : s.timers[k]? = some timer) :
    expires? s k = if timer.finished = false ∧ timer.due.getD (s.clock + timer.ms) ≤ s.clock ∧
      s.Alive timer.ticket then some timer.ticket else none := by
  simp only [expires?, hk, Option.filter_some, decide_eq_true_eq]
  split <;> rfl

theorem Shape.poll (hc : Shape c) (hn : c.next = none) (task : Task)
    (h : c.Takes (poll c.state task) c') :
    Shape c' ∧ (desk c).Moves (deedsAt ⟨c.state, .poll task⟩) (desk c') := by
  -- A turn that only counts on a timer or a waiter.
  have quiet {s : Tickets} {notes : List Note} (hs : s.Housed)
      (ht : s.tickets = c.state.tickets) (hreg : s.registered = c.state.registered)
      (h : c.Takes { state := s, notes } c') : Shape c' ∧ (desk c).Moves [] (desk c') := by
    have hd := hc.takes_quiet hn hs (Nat.le_of_eq (congrArg List.length ht).symm) (.inl ⟨_, rfl⟩) h
    refine ⟨hd.1, ?_⟩
    rw [hd.2]
    have : (desk c).after s [] = desk c := by simp [Desk.after, desk, ht, hreg]
    exact this ▸ .none
  cases task with
  | waiter k =>
    simp only [Cancel.poll] at h
    split at h
    · exact quiet hc.housed rfl rfl h
    · split at h
      · exact quiet (s := { c.state with waiters := c.state.waiters.set k _ })
          ⟨hc.housed.sources, hc.housed.kept, hc.housed.timers, hc.housed.links⟩ rfl rfl h
      · exact quiet hc.housed rfl rfl h
  | timer k =>
    simp only [deedsAt]
    cases hk : c.state.timers[k]? with
    | none =>
      simp only [Cancel.poll, hk] at h
      simpa [expires?, hk] using quiet hc.housed rfl rfl h
    | some timer =>
      have hset (finished : Bool) (due : Option Nat) : Tickets.Housed { c.state with
          timers := c.state.timers.set k { timer with due, finished } } :=
        hc.housed.setTimer hk rfl
      have still (hno : ¬(timer.finished = false ∧
          timer.due.getD (c.state.clock + timer.ms) ≤ c.state.clock ∧
          c.state.Alive timer.ticket)) : expires? c.state k = none :=
        (expires?_eq hk).trans (if_neg hno)
      simp only [Cancel.poll, hk] at h ⊢
      by_cases hfin : timer.finished = true
      · rw [if_pos hfin] at h
        rw [still fun h => by simp [hfin] at h]
        exact quiet hc.housed rfl rfl h
      rw [if_neg hfin] at h ⊢
      rw [Bool.not_eq_true] at hfin
      by_cases hdue : timer.due.getD (c.state.clock + timer.ms) ≤ c.state.clock
      · rw [if_pos hdue] at h ⊢
        unfold expire at h ⊢
        dsimp only at h ⊢
        by_cases halive : c.state.Alive timer.ticket
        · rw [if_pos halive] at h ⊢
          rw [(expires?_eq hk).trans (if_pos ⟨hfin, hdue, halive⟩)]
          have hd := hc.cancel hn (hset true timer.due) (Nat.le_refl _)
            (hc.housed.timers timer (List.mem_of_getElem? hk)) (by simp) h
          refine ⟨hd.1, ?_⟩
          simp only [Option.toList_some, List.flatMap_cons, List.flatMap_nil, List.append_nil,
            answer_cancel]
          exact hd.2
        · rw [if_neg halive] at h
          rw [still fun h => halive h.2.2]
          exact quiet (hset true timer.due) rfl rfl h
      · rw [if_neg hdue] at h
        rw [still fun h => hdue h.2.1]
        exact quiet (hset timer.finished _) rfl rfl h

/-- A round goes on. -/
theorem Shape.round (hc : Shape c) {t : Nat} {r : Reason} {rest : List Handler}
    {after : Reply Answer} (hn : c.next = some (.round t r rest after))
    (h : { c with next := none }.Takes (resume c.state (.round t r rest after)) c') :
    Shape c' ∧ (desk c).Moves (roundDeeds c.state t r rest after) (desk c') := by
  generalize hc₀ : { c with next := none } = c₀ at h
  obtain ⟨hlinks, hafter⟩ := hc.within (.round t r rest after) (by simp [hn])
  have hc' : Shape c₀ := hc₀ ▸ ⟨hc.housed, fun f hf => hc.within f (List.mem_append_right _ hf),
    hc.stack, hc.waiting⟩
  have hstate : c₀.state = c.state := by rw [← hc₀]
  have hn₀ : c₀.next = none := by rw [← hc₀]
  have hd : desk c = { desk c₀ with rounds := ⟨t, r, rest⟩ :: (desk c₀).rounds } := by
    rw [← hc₀]
    simp [desk, hn, Frame.call?]
  have hnow : (desk c).now = none := by simp [desk, hn, Frame.call?]
  rw [← hstate] at hlinks h ⊢
  cases rest with
  | nil =>
    subst hafter
    have hq := hc'.takes_quiet hn₀ hc'.housed (Nat.le_refl _) (.inl ⟨_, rfl⟩) h
    refine ⟨hq.1, ?_⟩
    rw [hq.2, hd]
    exact (Desk.Move.finish (hd ▸ hnow) rfl).moves
  | cons a rest =>
    obtain ⟨n, reaction⟩ := a
    have hrest : ∀ f ∈ [Frame.round t r rest after],
        f.Within c₀.state.tickets.length ∧ f.call? = none := by
      intro f hf
      rw [List.mem_singleton.mp hf]
      exact ⟨⟨fun a ha => hlinks a (List.mem_cons_of_mem _ ha), hafter⟩, rfl⟩
    cases reaction with
    | callback cb context =>
      obtain ⟨hshape, way, hhanded, hg⟩ := hc'.takes_start hn₀ hc'.housed (Nat.le_refl _) rfl hrest
        h t false
      refine ⟨hshape, ?_⟩
      simp only [roundDeeds]
      rw [hhanded, hd]
      exact (Desk.Move.react (hd ▸ hnow) rfl hg).moves
    | link target =>
      have hfollow : (desk c).Move [.reacted t n r .link false]
          ((desk c₀).after c₀.state [.round t r rest after]) := by
        rw [hd]
        exact .follow (hd ▸ hnow) rfl
      simp only [roundDeeds, followDeeds, Cancel.resume] at h ⊢
      split at h
      · rename_i halive
        have hd' := hc'.cancel hn₀ hc'.housed (Nat.le_refl _)
          (hlinks _ List.mem_cons_self target rfl) hrest h
        refine ⟨hd'.1, ?_⟩
        rw [if_pos halive]
        exact hfollow.moves.trans hd'.2
      · rename_i halive
        have hq := hc'.takes_rounds hn₀ hc'.housed (Nat.le_refl _) rfl hrest h
        refine ⟨hq.1, ?_⟩
        rw [if_neg halive, hq.2]
        exact hfollow.moves

/-- A callback starts. -/
theorem Shape.call (hc : Shape c) {n : Nat} {cb : Callback} {r : Reason}
    (hn : c.next = some (.call n cb r))
    (h : { c with next := none }.Takes (resume c.state (.call n cb r)) c') :
    Shape c' ∧ (desk c).Moves [.started n r] (desk c') := by
  have hc' : Shape { c with next := none } := ⟨hc.housed,
    fun f hf => hc.within f (List.mem_append_right _ hf), hc.stack, hc.waiting⟩
  have hq := hc'.takes_quiet rfl hc.housed (Nat.le_refl _) (.inr ⟨_, _, _, rfl⟩) h
  refine ⟨hq.1, ?_⟩
  rw [hq.2]
  have hm := Desk.Move.start (d := desk c) (n := n) (r := r) (by simp [desk, hn, Frame.call?])
  have he : (desk { c with next := none }).after c.state [] = { desk c with now := none } := by
    simp [desk, Desk.after, hn]
  exact he ▸ hm.moves

/-- A throw passes a round. -/
theorem Shape.unwind (hc : Shape c) {f : Frame} {k : List Frame} (hn : c.next = none)
    (hk : c.stack = f :: k) : Shape ({ c with stack := k }.discard f) ∧
      (desk c).Moves (deedsAt ⟨c.state, .unwind f⟩) (desk ({ c with stack := k }.discard f)) := by
  have hf := hc.stack f (hk ▸ List.mem_cons_self)
  cases f with
  | call => cases hf
  | round t r rest after =>
    refine ⟨⟨hc.housed, fun g hg => hc.within g ?_,
      fun g hg => hc.stack g (hk ▸ List.mem_cons_of_mem _ hg), hc.waiting⟩, ?_⟩
    · rw [hk]
      simp only [Config.discard, List.mem_append, List.mem_cons] at hg ⊢
      exact hg.imp_right .inr
    · have hrounds : (desk c).rounds = ⟨t, r, rest⟩ :: k.filterMap Frame.round? := by
        simp [desk, hn, hk]
      have hm := Desk.Move.leave (by simp [desk, hn]) hrounds
      have he : desk ({ c with stack := k }.discard (.round t r rest after)) =
          { desk c with rounds := k.filterMap Frame.round? } := by
        simp [desk, Config.discard, hn]
      exact he ▸ hm.moves

/-- The oldest work of a line begins. -/
theorem Shape.begin (hc : Shape c) {v : Nat} {w : Frame} {rest : List Frame} (hn : c.next = none)
    (hv : c.waiting[v]? = some (w :: rest)) :
    Shape { c with next := some w, waiting := c.waiting.set v rest } ∧
      (desk c).Moves [] (desk { c with next := some w, waiting := c.waiting.set v rest }) := by
  have hw := hc.waiting _ (List.mem_of_getElem? hv) w List.mem_cons_self
  cases w with
  | round => cases hw
  | call n cb r =>
    refine ⟨⟨hc.housed, fun f hf => ?_, hc.stack, fun line hl f hf => ?_⟩, ?_⟩
    · rcases List.mem_cons.mp hf with rfl | hf
      · trivial
      · exact hc.within f (List.mem_append_right _ hf)
    · rcases List.mem_or_eq_of_mem_set hl with hl | rfl
      · exact hc.waiting line hl f hf
      · exact hc.waiting _ (List.mem_of_getElem? hv) f (List.mem_cons_of_mem _ hf)
    · obtain ⟨hlt, hat⟩ := List.getElem?_eq_some_iff.mp hv
      have hsplit : c.waiting = c.waiting.take v ++ (.call n cb r :: rest) :: c.waiting.drop (v + 1) := by
        rw [← hat]
        simp
      have hset : c.waiting.set v rest = c.waiting.take v ++ rest :: c.waiting.drop (v + 1) :=
        List.set_eq_take_append_cons_drop.trans (if_pos hlt)
      have hm := Desk.Move.begin (d := desk c) (n := n) (r := r)
        (a := (c.waiting.take v).flatten.filterMap Frame.call?)
        (b := (rest ++ (c.waiting.drop (v + 1)).flatten).filterMap Frame.call?)
        (by simp [desk, hn])
        (by
          conv => lhs; simp only [desk]; rw [hsplit]
          simp [Frame.call?])
      have he : desk { c with next := some (.call n cb r), waiting := c.waiting.set v rest } =
          { desk c with
            now := some (n, r)
            waiting := (c.waiting.take v).flatten.filterMap Frame.call? ++
              (rest ++ (c.waiting.drop (v + 1)).flatten).filterMap Frame.call? } := by
        simp [desk, hn, hset, Frame.call?]
      exact he ▸ hm.moves

end Turns

/-- Every step of a configuration of tickets is a few moves of its desk. -/
theorem Shape.moves {c c' : Config component} {cause : Option (Cause component)} (hc : Shape c)
    (h : c.Step cause c') : Shape c' ∧ (desk c).Moves (deeds (c.moment cause)) (desk c') := by
  have one (cause : Cause component) : deeds (c.moment (some cause)) = deedsAt ⟨c.state, cause⟩ := by
    simp [deeds, Config.moment]
  cases h with
  | still hf =>
    have hd := hc.faces hf
    exact ⟨hd.1, hd.2 ▸ .none⟩
  | exec hn ht =>
    rw [one]
    exact hc.exec hn _ _ ht
  | @resume f _ hn ht =>
    rw [one]
    cases f with
    | round => exact hc.round hn ht
    | call => exact hc.call hn ht
  | unwind hn hk hf =>
    rw [one, ← hf]
    exact hc.unwind hn hk
  | @poll task ts _ hn hk hr ht =>
    rw [one]
    exact Shape.poll (c := { c with ready := ts }) ⟨hc.housed, hc.within, hc.stack, hc.waiting⟩ hn
      task ht
  | tick hn =>
    rw [one]
    exact ⟨⟨⟨hc.housed.sources, hc.housed.kept, hc.housed.timers, hc.housed.links⟩, hc.within,
      hc.stack, hc.waiting⟩, .none⟩
  | begin hn hv => exact hc.begin hn hv
  | opened hn hf =>
    have hopened : Shape { c with waiting := c.waiting ++ [[]] } := by
      refine ⟨hc.housed, hc.within, hc.stack, fun line hl f hf => ?_⟩
      rcases List.mem_append.mp hl with hl | hl
      · exact hc.waiting line hl f hf
      · rw [List.mem_singleton.mp hl] at hf
        cases hf
    have hd := hopened.faces hf
    have he : desk { c with waiting := c.waiting ++ [[]] } = desk c := by simp [desk]
    exact ⟨hd.1, (hd.2.trans he) ▸ .none⟩

end Conduit.Cancel
