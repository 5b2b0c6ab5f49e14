import Conduit.Cancel.Ticket

/-!
Names, timers and links always stand for tickets that there are.
-/

namespace Conduit.Cancel

/-- The link of a handler leads to one of the first `n` tickets. -/
def Handler.Within (n : Nat) (a : Handler) : Prop := ∀ target, a.reaction = .link target → target < n

theorem Handler.Within.mono {n n' : Nat} {a : Handler} (h : a.Within n) (hn : n ≤ n') :
    a.Within n' :=
  fun target ht => Nat.lt_of_lt_of_le (h target ht) hn

namespace Tickets

/-- Names, timers and links stand for tickets that there are. -/
structure Housed (s : Tickets) : Prop where
  sources : ∀ e ∈ s.sources, e.2 < s.tickets.length
  kept : ∀ e ∈ s.kept, e.2 < s.tickets.length
  timers : ∀ timer ∈ s.timers, timer.ticket < s.tickets.length
  links : ∀ k ∈ s.tickets, ∀ a ∈ k.handlers, a.Within s.tickets.length

namespace Housed

variable {s : Tickets} {t : Nat}

theorem source (hs : s.Housed) {id : String} (h : s.sources.lookup id = some t) :
    t < s.tickets.length := by
  obtain ⟨l₁, l₂, he, -⟩ := List.lookup_eq_some_iff.mp h
  exact hs.sources (id, t) (he ▸ List.mem_append_right l₁ List.mem_cons_self)

theorem ticket (hs : s.Housed) {id : String} (h : s.ticket? id = some t) :
    t < s.tickets.length := by
  rcases Option.or_eq_some_iff.mp h with h | ⟨-, h⟩
  · obtain ⟨l₁, l₂, he, -⟩ := List.lookup_eq_some_iff.mp h
    exact hs.kept (id, t) (he ▸ List.mem_append_right l₁ List.mem_cons_self)
  · exact hs.source h

theorem nameSource (hs : s.Housed) (ht : t < s.tickets.length) (id : String) :
    (s.nameSource id t).Housed := by
  refine ⟨fun e he => ?_, hs.kept, hs.timers, hs.links⟩
  rcases List.mem_cons.mp he with rfl | he
  · exact ht
  · exact hs.sources e (List.mem_filter.mp he).1

theorem keep (hs : s.Housed) (ht : t < s.tickets.length) (id : String) : (s.keep id t).Housed := by
  refine ⟨hs.sources, fun e he => ?_, hs.timers, hs.links⟩
  rcases List.mem_cons.mp he with rfl | he
  · exact ht
  · exact hs.kept e (List.mem_filter.mp he).1

theorem drop (hs : s.Housed) (id : String) : (s.drop id).Housed :=
  ⟨fun e he => hs.sources e (List.mem_filter.mp he).1,
    fun e he => hs.kept e (List.mem_filter.mp he).1, hs.timers, hs.links⟩

theorem addTimer (hs : s.Housed) (ht : t < s.tickets.length) (ms : Nat) :
    (s.addTimer t ms).Housed := by
  refine ⟨hs.sources, hs.kept, fun timer h => ?_, hs.links⟩
  rcases List.mem_append.mp h with h | h
  · exact hs.timers timer h
  · rw [List.mem_singleton.mp h]
    exact ht

theorem addWaiter (hs : s.Housed) (t : Nat) (label : String) : (s.addWaiter t label).Housed :=
  ⟨hs.sources, hs.kept, hs.timers, hs.links⟩

theorem number (hs : s.Housed) : s.number.Housed := ⟨hs.sources, hs.kept, hs.timers, hs.links⟩

/-- A timer is counted on or ended. -/
theorem setTimer (hs : s.Housed) {k : Nat} {timer timer' : Timer} (h : s.timers[k]? = some timer)
    (ht : timer'.ticket = timer.ticket) :
    ({ s with timers := s.timers.set k timer' } : Tickets).Housed := by
  refine ⟨hs.sources, hs.kept, fun timer₁ h₁ => ?_, hs.links⟩
  rcases List.mem_or_eq_of_mem_set h₁ with h₁ | rfl
  · exact hs.timers timer₁ h₁
  · show timer₁.ticket < _
    rw [ht]
    exact hs.timers timer (List.mem_of_getElem? h)

theorem addTicket (hs : s.Housed) : s.addTicket.Housed := by
  have hlen : s.addTicket.tickets.length = s.tickets.length + 1 := by simp [Tickets.addTicket]
  refine ⟨fun e he => ?_, fun e he => ?_, fun timer h => ?_, fun k hk a ha => ?_⟩
  · rw [hlen]
    exact Nat.lt_succ_of_lt (hs.sources e he)
  · rw [hlen]
    exact Nat.lt_succ_of_lt (hs.kept e he)
  · rw [hlen]
    exact Nat.lt_succ_of_lt (hs.timers timer h)
  · rcases List.mem_append.mp hk with hk | hk
    · exact (hs.links k hk a ha).mono (hlen ▸ Nat.le_succ _)
    · rw [List.mem_singleton.mp hk] at ha
      cases ha

/-- Tickets change, but none goes. -/
theorem setTickets (hs : s.Housed) {n : Nat} {ts : List Ticket} (hlen : ts.length = s.tickets.length)
    (hl : ∀ k ∈ ts, ∀ a ∈ k.handlers, a.Within s.tickets.length) :
    ({ s with tickets := ts, registered := n } : Tickets).Housed := by
  refine ⟨?_, ?_, ?_, ?_⟩ <;> simp only [hlen]
  · exact hs.sources
  · exact hs.kept
  · exact hs.timers
  · exact hl

theorem addHandler (hs : s.Housed) (t : Nat) {a : Reaction}
    (ha : ∀ target, a = .link target → target < s.tickets.length) : (s.addHandler t a).Housed := by
  refine hs.setTickets (by simp) fun k hk b hb => ?_
  obtain ⟨i, hi⟩ := List.getElem?_of_mem hk
  simp only [List.getElem?_modify, Option.map_eq_map, Option.map_eq_some_iff] at hi
  obtain ⟨k', hi, rfl⟩ := hi
  have hk' := hs.links k' (List.mem_of_getElem? hi)
  split at hb
  · rcases List.mem_append.mp hb with hb | hb
    · exact hk' b hb
    · rw [List.mem_singleton.mp hb]
      exact ha
  · exact hk' b hb

theorem settle (hs : s.Housed) (t : Nat) (r : Reason) : (s.settle t r).Housed := by
  refine hs.setTickets (by simp) fun k hk a ha => ?_
  rcases List.mem_or_eq_of_mem_set hk with hk | rfl
  · exact hs.links k hk a ha
  · cases ha

theorem handlersOf (hs : s.Housed) {a : Handler} (ha : a ∈ s.handlersOf t) :
    a.Within s.tickets.length := by
  unfold Tickets.handlersOf at ha
  cases hk : s.tickets[t]? with
  | none => simp [hk] at ha
  | some k =>
    rw [hk] at ha
    exact hs.links k (List.mem_of_getElem? hk) a ha

end Housed

end Tickets

end Conduit.Cancel
