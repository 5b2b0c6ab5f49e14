import Conduit.Dispatch.Emitter
import Conduit.Proofs.Dispatch.Served

/-!
What serial and thread contexts promise. The work that a venue takes runs one piece at a time, in the
order in which it was given, once each, and never within the call that gave it; a throw ends no more
than the piece of work that it comes from. A venue that has run to completion owes nothing, whoever
has dropped his reference to it. This holds after every run of every component.
-/

namespace Conduit.Dispatch

variable {C : Component}

namespace Machine

/-- How much work of a venue runs now. -/
def runs (m : Machine C) (v : Nat) : Nat := m.stack.countP (·.turns v)

/-- All work that a venue has taken has been begun and has ended. -/
structure Done (m : Machine C) (v : Nat) : Prop where
  begun : begun v m.journal = accepted v m.journal
  ended : ended v m.journal = (accepted v m.journal).length

/-- What `m` runs above its `d` lowest frames is never stuck, and when it is over `P` holds. -/
structure Yields (m : Machine C) (d : Nat) (P : Machine C → Prop) : Prop where
  begins : ∃ m', m.step? = some m'
  goesOn : ∀ ms m', m.Within d ms m' → d < m'.stack.length → ∃ m'', m'.step? = some m''
  finishes : ∀ ms m', m.Within d ms m' → m'.stack.length ≤ d → P m'

/-- With the name `id` the last reference to the thread of a venue goes. -/
def IsLast (m : Machine C) (id : String) (v : Nat) : Prop :=
  m.venue? id .thread = some v ∧
    ((m.names.filter (·.1 ≠ id)).any (·.2.place = .venue v) || m.defaultThread = some v) = false

/-- The work of a venue runs in order, one piece at a time. -/
structure InLine (m : Machine C) (v : Nat) : Prop where
  /-- What has been begun comes first among what was accepted, and the rest waits. -/
  order : accepted v m.journal = begun v m.journal ++ m.line v
  /-- What has been begun has ended or runs now. -/
  running : (begun v m.journal).length = ended v m.journal + m.runs v
  alone : m.runs v ≤ 1
  /-- What joins the line is what is performed. -/
  joined : ∀ m', m.advance? = some m' →
    accepted v m'.journal = accepted v m.journal ++ m.joins v
  /-- Whoever performs work goes on at once; nothing is begun before he does. -/
  returned : ∀ m' w, m.advance? = some m' → w ∈ m.joins v →
    begun v m'.journal = begun v m.journal ∧ m'.control = .back .done ∧
      ∃ t c k s, m.turn? = some t ∧ t.next = .perform c w k ∧ c.place = .venue v ∧
        m'.stack = k.map .own ++ s
  /-- Work is begun while no other work of the venue runs, and by nobody who performs work; then the
  machine goes on with it. -/
  started : ∀ m', m.advance? = some m' → begun v m'.journal = begun v m.journal ∨
    ∃ w, begun v m'.journal = begun v m.journal ++ [w] ∧ m.runs v = 0 ∧ m.joins v = [] ∧
      m'.cause? = some (.resume w) ∧ ∃ k, m'.stack = .own w :: .turn (.venue v) :: k
  /-- Work ends when a reply or a throw comes down to its turn. -/
  finished : ∀ m', m.advance? = some m' → ended v m'.journal = ended v m.journal ∨
    ended v m'.journal = ended v m.journal + 1 ∧
      ∃ k, m.stack = .turn (.venue v) :: k ∧ m'.stack = k ∧ m'.control = .back .done
  /-- A throw does not come down to the one who serves the line: he gets a reply and goes on. -/
  contained : m.control = .thrown → (∀ left after k, m.stack ≠ .serve v left after :: k) ∧
    ∀ k, m.stack = .turn (.venue v) :: k → ∃ m' left after lower,
      k = .serve v left after :: lower ∧ m.step? = some m' ∧ m'.stack = k ∧
        m'.control = .back .done
  /-- A venue that has stopped takes no more work. -/
  closed : m.accepts v = false → ∀ y : ExecutionBy true m,
    accepted v y.machine.journal = accepted v m.journal
  /-- A copy of a reference leads to the same venue. -/
  copied : ∀ id of c, m.control = .run (.context (.make id (.copy of))) → id ≠ "" →
    m.context? of = some c → c.place = .venue v →
      ∃ m' c', m.step? = some m' ∧ m'.context? id = some c' ∧ c'.place = .venue v

/-- A venue that runs to completion has run all work that was due. -/
structure Completes (m : Machine C) (v : Nat) : Prop where
  /-- While something waits for a serial venue, somebody serves it or the reactor will. -/
  prompt : m.floor.kind? v = some .serial →
    m.accepts v = true ∧ (m.line v ≠ [] → .serve v ∈ m.ready ∨ m.isServing v = true)
  /-- When everything has settled, a serial venue owes nothing. -/
  settled : m.floor.kind? v = some .serial → m.advance? = none → m.Done v
  /-- What a thread has taken before it is flushed has run when it has been flushed. -/
  flushed : ∀ id, m.control = .run (.context (.flush id)) → m.venue? id .thread = some v →
    m.accepts v = true → m.isServing v = false → m.Yields m.stack.length fun m' =>
      m'.control = .back .flushed ∧ m'.runs v = 0 ∧ accepted v m.journal <+: begun v m'.journal
  /-- A thread that is stopped from outside owes nothing then, and has taken nothing more; unless its
  own work has stopped it before, so that it goes on by itself with what still waits. -/
  stopped : ∀ id, m.control = .run (.context (.stop id)) → m.venue? id .thread = some v →
    m.isServing v = false → m.accepts v = true ∨ m.line v = [] →
      m.Yields m.stack.length fun m' => m'.control = .back .stopped ∧ m'.Done v ∧
        accepted v m'.journal = accepted v m.journal
  /-- However it has been stopped, when everything has settled a thread that takes no more work owes
  nothing. -/
  halted : m.floor.kind? v = some .thread → m.accepts v = false → m.advance? = none → m.Done v
  /-- A thread whose last reference is dropped owes nothing. -/
  dropped : ∀ id, m.control = .run (.context (.forget id)) → m.IsLast id v →
    m.isServing v = false → m.Yields m.stack.length fun m' => m'.control = .back .done ∧ m'.Done v
  /-- If its own work drops the last reference, whoever serves the thread serves it to the end. -/
  droppedWithin : ∀ id, m.control = .run (.context (.forget id)) → m.IsLast id v →
    ∀ above left after lower, m.stack = above ++ .serve v left after :: lower →
      m.Yields lower.length fun m' => m'.control = .back after ∧ m'.Done v

/-! ### In line -/

section InLine

variable {m m' : Machine C} {v : Nat} {kind : VenueKind} {w : C.Frame}

theorem lines (ho : m.floor.Orderly) (v : Nat) :
    accepted v m.journal = begun v m.journal ++ m.line v := by
  simpa [floor, line] using ho.lines v

theorem running (ho : m.floor.Orderly) (hv : m.floor.kind? v = some kind) (hk : kind ≠ .manual) :
    (begun v m.journal).length = ended v m.journal + m.runs v := by
  simpa [floor, runs] using ho.turns v kind hv hk

theorem advance?_kind (ho : m.floor.Orderly) (hv : m.floor.kind? v = some kind)
    (hm : m.advance? = some m') : m'.floor.kind? v = some kind := by
  obtain ⟨e, -, p⟩ := advance?_paces ho hm
  exact p.kind? hv

theorem mem_joins (hw : w ∈ m.joins v) : m.joins v = [w] ∧ m.accepts v = true ∧
    ∃ t c k, m.turn? = some t ∧ t.next = .perform c w k ∧ c.place = .venue v := by
  unfold joins at hw ⊢
  cases ht : m.turn? with
  | none => simp [ht] at hw
  | some t =>
    simp only [ht] at hw ⊢
    unfold joined at hw ⊢
    split at hw
    · rename_i c w' k hn
      split at hw
      · rename_i h
        obtain rfl := List.mem_singleton.mp hw
        exact ⟨by simp [h], h.2, t, c, k, rfl, hn, h.1⟩
      · cases hw
    · cases hw

theorem joins_of_closed (ha : m.accepts v = false) : m.joins v = [] := by
  refine List.eq_nil_iff_forall_not_mem.mpr fun w hw => ?_
  have := (mem_joins hw).2.1
  simp [ha] at this

theorem returned (ho : m.floor.Orderly) (hm : m.advance? = some m') (hw : w ∈ m.joins v) :
    begun v m'.journal = begun v m.journal ∧ m'.control = .back .done ∧
      ∃ t c k s, m.turn? = some t ∧ t.next = .perform c w k ∧ c.place = .venue v ∧
        m'.stack = k.map .own ++ s := by
  obtain ⟨hjoins, -, t, c, k, ht, hn, hc⟩ := mem_joins hw
  refine ⟨?_, ?_⟩
  · -- The one thing that is told of this step is that work joins the line.
    obtain ⟨e, he, p⟩ := advance?_paces ho hm
    have hbegun : e.bind (·.begins v) = none := by
      have hev := (he v).trans hjoins
      rcases e with _ | _ | _ | _ | _ | _ <;> first | rfl | simp [Floor.joining, Entry.joins] at hev
    simpa [floor, hbegun] using p.begun_eq v
  · obtain ⟨m₁, -, rfl⟩ := take_of_turn? ht hm
    rw [take_perform hn]
    unfold handOver
    rw [hc]
    refine ⟨rfl, t, c, k, (m₁.hear t).stack, ht, hn, hc, ?_⟩
    exact enqueue_stack ((m₁.hear t).pushOwn k) v w

theorem Paces.started (h : m.Paces m') (ho : m.floor.Orderly) (hv : m.floor.kind? v = some kind)
    (hk : kind ≠ .manual) : begun v m'.journal = begun v m.journal ∨
      ∃ w, begun v m'.journal = begun v m.journal ++ [w] ∧ m.runs v = 0 ∧ m.joins v = [] ∧
        m'.cause? = some (.resume w) ∧ ∃ k, m'.stack = .own w :: .turn (.venue v) :: k := by
  obtain ⟨e, he, p⟩ := h
  have hbegun : begun v m'.journal = begun v m.journal ++ (e.bind (·.begins v)).toList := by
    simpa [floor] using p.begun_eq v
  have hended : ended v m'.journal = ended v m.journal + (e.any (·.ends v)).toNat := by
    simpa [floor] using p.ended_eq v
  cases hw : e.bind (·.begins v) with
  | none => exact .inl (by simpa [hw] using hbegun)
  | some w =>
    obtain rfl : e = some (.began v w) := by
      obtain ⟨e, rfl, hb⟩ := Option.bind_eq_some_iff.mp hw
      rw [Entry.eq_began hb]
    rw [hw] at hbegun
    obtain ⟨hreply, left, after, k, hs⟩ := p.began hv hk
    have hone := (ho.path p).turns_le v
    have hbefore := running ho hv hk
    have hafter := running (ho.path p) (p.kind? hv) hk
    refine .inr ⟨w, hbegun, ?_, (he v).symm, ?_, _, hs⟩
    · -- With the new turn there is one, so there was none before.
      rw [hbegun, hended] at hafter
      simp [Entry.ends] at hafter
      have : m'.runs v ≤ 1 := hone
      omega
    · unfold cause?
      cases hc : m'.control with
      | back r => rw [show m'.stack = _ from hs]
      | run op => simp [floor, hc] at hreply
      | thrown => simp [floor, hc] at hreply

/-- A frame that is not a turn of a venue may go, but no turn of the venue. -/
theorem runs_of_keeps (hk : Keeps m.Raised m.below m') (hb : m.below.countP (·.turns v) = m.runs v) :
    m.runs v ≤ m'.runs v := by
  obtain ⟨k, s, hs, hkept, -⟩ := hk
  unfold runs
  rw [hs, List.countP_append, hkept.countP_turns, hb]
  exact Nat.le_add_left ..

/-- Less work of a venue runs after a step only if its turn was the uppermost frame and is over. -/
theorem turn_over (hm : m.advance? = some m') (hless : m'.runs v < m.runs v) :
    ∃ k, m.stack = .turn (.venue v) :: k ∧ m'.stack = k ∧ m'.control = .back .done := by
  have hstep : m.step? = some m' := by
    unfold advance? at hm
    split at hm
    · cases hm
      assumption
    · rename_i hnone
      simp [runs, stack_of_step? hnone] at hless
  have hbelow : ¬m.below.countP (·.turns v) = m.runs v := fun h =>
    Nat.not_lt.mpr (runs_of_keeps (step?_keeps hstep) h) hless
  cases hs : m.stack with
  | nil => simp [runs, hs] at hless
  | cons g k =>
    have hturn : g = .turn (.venue v) := by
      by_contra hg
      have hg' : g.turns v = false := by
        rcases g with _ | _ | (_ | u) | _ | _ | _ <;> first | rfl | skip
        simpa using fun h : u = v => hg (by rw [h])
      refine hbelow ?_
      unfold below runs
      cases m.control <;> simp [hs, hg']
    subst hturn
    cases hc : m.control with
    | run op => exact absurd (by unfold below runs; rw [hc]) hbelow
    | back r =>
      rw [step?_back hc hs] at hstep
      cases hstep
      exact ⟨k, rfl, rfl, rfl⟩
    | thrown =>
      rw [step?_thrown hc hs] at hstep
      cases hstep
      exact ⟨k, rfl, rfl, rfl⟩

theorem finished (ho : m.floor.Orderly) (hv : m.floor.kind? v = some kind) (hk : kind ≠ .manual)
    (hm : m.advance? = some m') : ended v m'.journal = ended v m.journal ∨
      ended v m'.journal = ended v m.journal + 1 ∧
        ∃ k, m.stack = .turn (.venue v) :: k ∧ m'.stack = k ∧ m'.control = .back .done := by
  obtain ⟨e, he, p⟩ := advance?_paces ho hm
  have hbegun : begun v m'.journal = begun v m.journal ++ (e.bind (·.begins v)).toList := by
    simpa [floor] using p.begun_eq v
  have hended : ended v m'.journal = ended v m.journal + (e.any (·.ends v)).toNat := by
    simpa [floor] using p.ended_eq v
  cases hend : e.any (·.ends v) with
  | false => exact .inl (by simpa [hend] using hended)
  | true =>
    rw [hend] at hended
    have hquiet : e.bind (·.begins v) = none := by
      rcases e with _ | _ | _ | _ | _ | _ <;> first | rfl | cases hend
    -- What has been begun stays the same and one more has ended, so that one turn less runs.
    refine .inr ⟨hended, turn_over hm ?_⟩
    have hbefore := running ho hv hk
    have hafter := running (ho.path p) (p.kind? hv) hk
    rw [hbegun, hquiet, hended] at hafter
    simp at hafter
    omega

theorem contained (ho : m.floor.Orderly) (hc : m.control = .thrown) :
    (∀ left after k, m.stack ≠ .serve v left after :: k) ∧
      ∀ k, m.stack = .turn (.venue v) :: k → ∃ m' left after lower,
        k = .serve v left after :: lower ∧ m.step? = some m' ∧ m'.stack = k ∧
          m'.control = .back .done := by
  refine ⟨fun left after k hs => ?_, fun k hs => ?_⟩
  · have := ho.replying_of_serve (f := m.floor) hs
    simp [floor, hc] at this
  · obtain ⟨left, after, lower, rfl, -⟩ := ho.below_turn (f := m.floor) hs
    exact ⟨_, left, after, lower, rfl, step?_thrown hc hs, rfl, rfl⟩

theorem copied {id source : String} {c : Context}
    (hc : m.control = .run (.context (.make id (.copy source)))) (hid : id ≠ "")
    (hs : m.context? source = some c) :
    ∃ m' c', m.step? = some m' ∧ m'.context? id = some c' ∧ c'.place = c.place := by
  have hmake : ∃ c', (m.make id (.copy source)).context? id = some c' ∧ c'.place = c.place := by
    simp only [make, hs]
    split <;> split
    all_goals
      simp only [context?, if_neg hid, reply, bind, List.lookup_cons_self]
      exact ⟨_, rfl, rfl⟩
  obtain ⟨c', hc', hplace⟩ := hmake
  exact ⟨_, c', step?_context hc, hc', hplace⟩

end InLine

theorem accepted_strike (m : Machine C) (v : Nat) :
    accepted v m.strike.journal = accepted v m.journal := by
  simpa [floor] using congrArg (fun f => accepted v f.journal) (floor_strike m)

/-- Who takes up a line by himself gives it no work. -/
theorem accepted_proceed {m : Machine C} (hm : m.step? = none) {u : Nat} {q : Venue C.Frame}
    (hq : m.venues[u]? = some q) (hk : q.kind.isParallel = true) (n v : Nat) :
    accepted v (m.proceed u n).journal = accepted v m.journal := by
  obtain ⟨e, he, p⟩ := proceed_path hm hq hk _
  simpa [floor, he v] using p.accepted_eq v

end Machine

namespace RunBy

variable {free : Bool} {m m' : Machine C} {past : List (Moment C)} {v : Nat} {kind : VenueKind}

theorem kind? (h : RunBy free m past m') (ho : m.floor.Orderly) (hv : m.floor.kind? v = some kind) :
    m'.floor.kind? v = some kind := by
  induction h with
  | start => exact hv
  | advance h hm ih => exact Machine.advance?_kind (h.orderly ho) ih hm
  | request _ _ op ih => exact ih
  | strike _ _ ih => exact (Machine.floor_strike _).symm ▸ ih
  | proceed _ hm hq hk _ ih =>
    obtain ⟨e, -, p⟩ := Machine.proceed_path hm hq hk _
    exact p.kind? ih
  | reorder _ _ _ _ ih => exact ih

/-- A venue that has stopped takes no more work, however the run goes on. -/
theorem closed (h : RunBy free m past m') (ho : m.floor.Orderly) (hv : m.floor.kind? v = some kind)
    (ha : m.accepts v = false) :
    m'.accepts v = false ∧ accepted v m'.journal = accepted v m.journal := by
  induction h with
  | start => exact ⟨ha, rfl⟩
  | advance h hm ih =>
    obtain ⟨ha', hsame⟩ := ih
    have hpaces := Machine.advance?_paces (h.orderly ho) hm
    obtain ⟨e, -, p⟩ := id hpaces
    refine ⟨p.closed_stays (h.kind? ho hv) ha', ?_⟩
    rw [hpaces.accepted_eq v, Machine.joins_of_closed ha', hsame, List.append_nil]
  | request _ _ op ih => exact ih
  | @strike _ m₁ _ _ ih =>
    exact ⟨(congrArg (Floor.accepts · v) (Machine.floor_strike m₁)).trans ih.1,
      (m₁.accepted_strike v).trans ih.2⟩
  | proceed h hm hq hk _ ih =>
    obtain ⟨e, -, p⟩ := Machine.proceed_path hm hq hk _
    exact ⟨p.closed_stays (h.kind? ho hv) ih.1, (Machine.accepted_proceed hm hq hk _ v).trans ih.2⟩
  | reorder _ _ _ _ ih => exact ih

/-- What has joined a line stays in its history. -/
theorem accepted_grows (h : RunBy free m past m') (ho : m.floor.Orderly) (v : Nat) :
    accepted v m.journal <+: accepted v m'.journal := by
  induction h with
  | start => exact List.prefix_rfl
  | advance h hm ih =>
    rw [(Machine.advance?_paces (h.orderly ho) hm).accepted_eq v]
    exact ih.trans (List.prefix_append ..)
  | request _ _ op ih => exact ih
  | @strike _ m₁ _ _ ih => rwa [m₁.accepted_strike v]
  | proceed _ hm hq hk _ ih => rwa [Machine.accepted_proceed hm hq hk _ v]
  | reorder _ _ _ _ ih => exact ih

/-- The work that a venue has taken in a run was given to a context of the venue. -/
theorem of_accepted (h : RunBy free m past m') (ho : m.floor.Orderly) {w : C.Frame}
    (hw : w ∈ accepted v m'.journal) : w ∈ accepted v m.journal ∨
      ∃ q ∈ past, ∃ t c k, q.turn? = some t ∧ t.next = .perform c w k ∧ c.place = .venue v := by
  induction h with
  | start => exact .inl hw
  | @advance past m₁ m₂ h hm ih =>
    rw [(Machine.advance?_paces (h.orderly ho) hm).accepted_eq v, List.mem_append] at hw
    rcases hw with hw | hw
    · refine (ih hw).imp_right ?_
      rintro ⟨q, hq, hrest⟩
      exact ⟨q, List.mem_append_left _ hq, hrest⟩
    · obtain ⟨-, -, t, c, k, ht, hn, hc⟩ := Machine.mem_joins hw
      obtain ⟨q, hq, ht⟩ := Option.bind_eq_some_iff.mp ht
      exact .inr ⟨q, by simp [hq], t, c, k, ht, hn, hc⟩
  | request _ _ op ih => exact ih hw
  | @strike past m₁ _ _ ih =>
    rw [m₁.accepted_strike v] at hw
    refine (ih hw).imp_right ?_
    rintro ⟨q, hq, hrest⟩
    exact ⟨q, List.mem_append_left _ hq, hrest⟩
  | proceed _ hm hq hk _ ih => exact ih (Machine.accepted_proceed hm hq hk _ v ▸ hw)
  | reorder _ _ _ _ ih => exact ih hw

end RunBy

namespace Machine

/-! ### To completion -/

section Completes

variable {m m' : Machine C} {v : Nat} {kind : VenueKind}

theorem done_of_idle (ho : m.floor.Orderly) (hv : m.floor.kind? v = some kind) (hk : kind ≠ .manual)
    (hline : m.line v = []) (hruns : m.runs v = 0) : m.Done v := by
  have hb : begun v m.journal = accepted v m.journal := by rw [lines ho v, hline, List.append_nil]
  have hrun := running ho hv hk
  exact ⟨hb, by rw [← hb, hrun, hruns, Nat.add_zero]⟩

/-- A thread that has been served to the end owes nothing. -/
theorem done_of_enough {past : List (Moment C)} (h : Run m past m') (ho : m.floor.Orderly)
    (hv : m.floor.kind? v = some .thread) (henough : m'.Enough v none) (hruns : m'.runs v = 0) :
    m'.Done v :=
  done_of_idle (h.orderly ho) (h.kind? ho hv) (by simp) (henough.resolve_right nofun) hruns

/-- A line that goes on by itself has been woken, or somebody serves it to its end. -/
theorem served_of_goesOn (ho : m.floor.Orderly) (hg : m.floor.goesOn v = true)
    (hline : m.line v ≠ []) : .serve v ∈ m.ready ∨ ∃ after, .serve v none after ∈ m.stack :=
  (ho.prompt v hg hline).imp_left mem_lines.mp

theorem isServing_of_mem {left : Option Nat} {after : Reply C.Answer}
    (h : .serve v left after ∈ m.stack) : m.isServing v = true :=
  m.isServing_iff.mpr (List.mem_filterMap.mpr ⟨_, h, rfl⟩)

theorem goesOn_of_serial (hv : m.floor.kind? v = some .serial) : m.floor.goesOn v = true := by
  obtain ⟨q, hq, hk⟩ := Option.map_eq_some_iff.mp hv
  rw [Floor.goesOn_of hq]
  exact Venue.goesOn_of_isEager (hk ▸ rfl)

theorem goesOn_of_stopped (hv : m.floor.kind? v = some .thread) (ha : m.accepts v = false) :
    m.floor.goesOn v = true := by
  obtain ⟨q, hq, hk⟩ := Option.map_eq_some_iff.mp hv
  have hqa : q.accepting = false := by
    simpa [accepts, show m.venues[v]? = some q from hq] using ha
  rw [Floor.goesOn_of hq, Venue.goesOn_thread hk, hqa]
  rfl

theorem prompt (ho : m.floor.Orderly) (hv : m.floor.kind? v = some .serial) :
    m.accepts v = true ∧ (m.line v ≠ [] → .serve v ∈ m.ready ∨ m.isServing v = true) := by
  obtain ⟨q, hq, hk⟩ := Option.map_eq_some_iff.mp hv
  constructor
  · simpa [accepts, show m.venues[v]? = some q from hq] using
      (ho.sound v q hq).accepting_of_isEager (hk ▸ rfl)
  · intro hline
    exact (served_of_goesOn ho (goesOn_of_serial hv) hline).imp_right fun ⟨_, h⟩ =>
      isServing_of_mem h

/-- When everything has settled, a line that goes on by itself has come to its end. -/
theorem settled (ho : m.floor.Orderly) (hv : m.floor.kind? v = some kind) (hk : kind ≠ .manual)
    (hg : m.floor.goesOn v = true) (hm : m.advance? = none) : m.Done v := by
  have hs : m.stack = [] := by
    unfold advance? at hm
    split at hm
    · cases hm
    · exact stack_of_step? ‹_›
  have hline : m.line v = [] := by
    by_contra hline
    rcases served_of_goesOn ho hg hline with h | ⟨after, h⟩
    · simp [ready_of_advance? hm] at h
    · simp [hs] at h
  exact done_of_idle ho hv hk hline (by simp [runs, hs])

/-- The first step of what is run, and the rest. -/
theorem Within.uncons {d : Nat} {ms : List (Machine C)} (h : m.Within d ms m') :
    ∃ m₁ past, m.step? = some m₁ ∧ Run m₁ past m' := by
  induction h with
  | enter hm => exact ⟨_, [], hm, .start⟩
  | next _ _ hm ih =>
    obtain ⟨m₁, past, h₁, hrun⟩ := ih
    exact ⟨m₁, _, h₁, hrun.advance (advance?_of_step hm)⟩

/-- What joins a line while an operation runs. -/
theorem Within.accepted_eq {d : Nat} {ms : List (Machine C)} (h : m.Within d ms m')
    (ho : m.floor.Orderly) (v : Nat) :
    accepted v m'.journal = accepted v m.journal ++ ms.flatMap (·.joins v) := by
  induction h with
  | enter hm => simpa using (step?_paces ho hm).accepted_eq v
  | next h _ hm ih => simpa [ih] using (step?_paces (h.run.orderly ho) hm).accepted_eq v

/-- Whoever serves a line above the frames `s` is never stuck, and no work of it runs when he is
done. -/
theorem yields_of_serves {s : List (Frame C)} (due : Option Nat) {after : Reply C.Answer}
    {P : Machine C → Prop} (ho : m.floor.Orderly) (hs : v ∉ servings s) {m₁ : Machine C}
    (hm : m.step? = some m₁) (hfirst : m₁.Serves s v due after ∨ m₁.Served s v due after)
    (hP : ∀ past m', Run m₁ past m' → m'.Enough v due → m'.runs v = 0 →
      m'.control = .back after → P m') : m.Yields s.length P where
  begins := ⟨m₁, hm⟩
  goesOn ms m' _ hd := step?_of_stack (List.ne_nil_of_length_pos (Nat.zero_lt_of_lt hd))
  finishes ms m' h hd := by
    have hserved : m'.Served s v due after := by
      refine h.served ho (fun m₂ hm₂ => ?_) hd
      obtain rfl := Option.some.inj (hm.symm.trans hm₂)
      exact hfirst
    obtain ⟨m₂, past, hm₂, hrun⟩ := h.uncons
    obtain rfl := Option.some.inj (hm.symm.trans hm₂)
    refine hP past m' hrun hserved.enough ?_ hserved.control
    have hidle : v ∉ servings m'.stack := by rwa [hserved.below.servings_eq]
    exact (h.run.orderly ho).idle hidle

theorem not_serving (h : m.isServing v = false) : v ∉ servings m.stack := fun hmem => by
  simp [m.isServing_iff.mpr hmem] at h

/-- The site that runs now has its turn on the stack. -/
theorem runs_of_site? (h : m.site? = some (.venue v)) : 0 < m.runs v := by
  obtain ⟨f, hf, he⟩ := List.exists_of_findSome?_eq_some h
  refine List.countP_pos_iff.mpr ⟨f, hf, ?_⟩
  cases f with
  | turn site =>
    cases he
    simp
  | _ => cases he

theorem kind?_of_thread {id : String} (h : m.venue? id .thread = some v) :
    m.floor.kind? v = some .thread := by
  obtain ⟨q, hq, hk⟩ := m.kind?_of_venue? h
  exact (Floor.kind?_of hq).trans (by rw [hk])

theorem accepted_of_context {o : ContextOp} {m₁ : Machine C} (ho : m.floor.Orderly)
    (hc : m.control = .run (.context o)) (hm : m.step? = some m₁) (v : Nat) :
    accepted v m₁.journal = accepted v m.journal := by
  rw [(step?_paces ho hm).accepted_eq v, joins_of_no_turn (turn?_of_no_cause (cause?_context hc)),
    List.append_nil]

theorem flushed (ho : m.floor.Orderly) {id : String}
    (hc : m.control = .run (.context (.flush id))) (hv : m.venue? id .thread = some v)
    (ha : m.accepts v = true) (hs : m.isServing v = false) :
    m.Yields m.stack.length fun m' => m'.control = .back .flushed ∧ m'.runs v = 0 ∧
      accepted v m.journal <+: begun v m'.journal := by
  obtain ⟨q, hq, hk⟩ := m.kind?_of_venue? hv
  have hqa : q.accepting = true := by simpa [accepts, hq] using ha
  have hrun : m.runContext (.flush id) = m.serve v (some q.waiting.length) .flushed := by
    simp [runContext, hv, hq, hqa, hs]
  have hstep := step?_context hc
  rw [hrun] at hstep
  have hline : m.line v = q.waiting := Floor.line_of hq
  refine yields_of_serves (some (accepted v m.journal).length) ho (not_serving hs) hstep
    (serve_serves (.refl _) fun l hl => ⟨_, rfl, ?_⟩) fun past m' hpast henough hruns hcontrol =>
      ⟨hcontrol, hruns, ?_⟩
  · obtain rfl := Option.some.inj hl
    exact Nat.le_of_eq (by rw [lines ho v, List.length_append, hline])
  · have ho₁ := orderly_advance ho (advance?_of_step hstep)
    have hacc := hpast.accepted_grows ho₁ v
    rw [accepted_of_context ho hc hstep v] at hacc
    have hlines := lines (hpast.orderly ho₁) v
    have hbegun : begun v m'.journal <+: accepted v m'.journal :=
      hlines ▸ List.prefix_append _ _
    refine List.prefix_of_prefix_length_le hacc hbegun ?_
    -- Enough has been begun: all that there is, or as much as had been accepted.
    rcases henough with hline' | ⟨n, hn, hle⟩
    · rw [hline', List.append_nil] at hlines
      exact hlines ▸ hacc.length_le
    · exact Option.some.inj hn ▸ hle

theorem accepts_serve (left : Option Nat) (after : Reply C.Answer) (u : Nat) :
    (m.serve v left after).accepts u = m.accepts u := by
  unfold serve
  split
  · rfl
  · unfold next?
    cases hq : m.venues[v]? with
    | none => rfl
    | some q =>
      cases hw : q.waiting with
      | nil =>
        simp only [hw]
        rfl
      | cons w rest =>
        simp only [hw]
        exact (show (m.floor.begin v q w rest [] []).accepts u = _ from Floor.accepts_begin hq)

/-- The handle of a thread can be taken as long as the thread takes work. -/
theorem hasHandle_eq (ho : m.floor.Orderly) (v : Nat) : m.hasHandle v = m.accepts v := by
  unfold hasHandle accepts
  cases hq : m.venues[v]? with
  | none => rfl
  | some q => exact (ho.sound v q hq).handle

theorem accepts_close (v u : Nat) :
    (m.close v).accepts u = (m.accepts u && decide (u ≠ v)) := by
  simp only [accepts, close, List.getElem?_modify]
  by_cases h : v = u
  · subst h
    cases m.venues[v]? <;> simp
  · cases m.venues[u]? <;> simp [h, Ne.symm h]

theorem accepts_stop (v : Nat) : (m.stop v).accepts v = false := by
  have hclosed : (m.close v).accepts v = false := by simp [accepts_close]
  unfold stop
  dsimp only
  split
  · exact hclosed
  split
  · unfold wake
    split <;> exact hclosed
  · exact (accepts_serve ..).trans hclosed

/-- A stop from outside serves a thread that takes work to its end. -/
theorem stop_serves (ho : m.floor.Orderly) (hs : m.isServing v = false)
    (hw : m.accepts v = true ∨ m.line v = []) :
    (m.stop v).Serves m.stack v none .stopped ∨ (m.stop v).Served m.stack v none .stopped := by
  have hsite : m.site? ≠ some (.venue v) := fun hsite =>
    Nat.ne_of_gt (runs_of_site? hsite) (ho.idle (not_serving hs))
  unfold stop
  simp only [hs, hsite, if_false, Bool.false_eq_true]
  cases hh : m.hasHandle v with
  | true =>
    rw [Bool.not_true, if_neg Bool.false_ne_true]
    exact serve_serves (m := m.close v) (.refl _) (by simp)
  | false =>
    have hline : (m.close v).line v = m.line v := congrFun (m.line_close v) v
    refine .inr ⟨.refl _, rfl, .inl (hline.trans (hw.resolve_left fun ha => ?_))⟩
    simp [hasHandle_eq ho, ha] at hh

theorem stopped (ho : m.floor.Orderly) {id : String}
    (hc : m.control = .run (.context (.stop id))) (hv : m.venue? id .thread = some v)
    (hs : m.isServing v = false) (hw : m.accepts v = true ∨ m.line v = []) :
    m.Yields m.stack.length fun m' => m'.control = .back .stopped ∧ m'.Done v ∧
      accepted v m'.journal = accepted v m.journal := by
  have hkind := kind?_of_thread hv
  have hrun : m.runContext (.stop id) = m.stop v := by simp only [runContext, hv]
  have hstep := step?_context hc
  rw [hrun] at hstep
  refine yields_of_serves none ho (not_serving hs) hstep (stop_serves ho hs hw)
    fun past m' hpast henough hruns hcontrol => ⟨hcontrol, ?_⟩
  have ho₁ := orderly_advance ho (advance?_of_step hstep)
  have hkind₁ := advance?_kind ho hkind (advance?_of_step hstep)
  refine ⟨done_of_enough hpast ho₁ hkind₁ henough hruns, ?_⟩
  rw [(hpast.closed ho₁ hkind₁ (accepts_stop v)).2,
    accepted_of_context ho hc hstep v]

theorem dropped (ho : m.floor.Orderly) {id : String}
    (hc : m.control = .run (.context (.forget id))) (hv : m.IsLast id v)
    (hs : m.isServing v = false) :
    m.Yields m.stack.length fun m' => m'.control = .back .done ∧ m'.Done v := by
  obtain ⟨hv, hlast⟩ := hv
  have hkind := kind?_of_thread hv
  have hrun : m.runContext (.forget id) =
      serve { m with names := m.names.filter (·.1 ≠ id) } v none .done := by
    have hs' : isServing { m with names := m.names.filter (·.1 ≠ id) } v = false := hs
    simp only [runContext, forget, hv, hs', hlast]
    simp
  have hstep := step?_context hc
  rw [hrun] at hstep
  refine yields_of_serves none ho (not_serving hs) hstep
    (serve_serves (m := { m with names := m.names.filter (·.1 ≠ id) }) (.refl _) (by simp))
    fun past m' hpast henough hruns hcontrol => ⟨hcontrol, ?_⟩
  exact done_of_enough hpast (orderly_advance ho (advance?_of_step hstep))
    (advance?_kind ho hkind (advance?_of_step hstep)) henough hruns

theorem droppedWithin (ho : m.floor.Orderly) {id : String}
    (hc : m.control = .run (.context (.forget id))) (hv : m.IsLast id v)
    {above lower : List (Frame C)} {left : Option Nat} {after : Reply C.Answer}
    (hs : m.stack = above ++ .serve v left after :: lower) :
    m.Yields lower.length fun m' => m'.control = .back after ∧ m'.Done v := by
  obtain ⟨hv, hlast⟩ := hv
  have hkind := kind?_of_thread hv
  have hserving : m.isServing v = true := m.isServing_iff.mpr (by simp [hs, servings])
  have hrun : m.runContext (.forget id) =
      (widen { m with names := m.names.filter (·.1 ≠ id) } v).reply .done := by
    have hs' : isServing { m with names := m.names.filter (·.1 ≠ id) } v = true := hserving
    simp only [runContext, forget, hv, hs', hlast]
    simp
  have hstep := step?_context hc
  rw [hrun] at hstep
  -- Nobody further down serves the same line.
  have hlower : v ∉ servings lower := by
    have halone := ho.alone
    rw [show m.floor.stack = _ from hs, servings, List.filterMap_append] at halone
    exact (List.nodup_cons.mp (List.nodup_append.mp halone).2.1).1
  refine yields_of_serves none ho hlower hstep (.inl ⟨above.map (·.widen v), none,
    lower.map (·.widen v), ?_, ?_, by simp⟩) fun past m' hpast henough hruns hcontrol => ⟨hcontrol, ?_⟩
  · refine (widen_stack { m with names := m.names.filter (·.1 ≠ id) } v).trans ?_
    simp [hs, Frame.widen]
  · exact .widen v lower
  · exact done_of_enough hpast (orderly_advance ho (advance?_of_step hstep))
      (advance?_kind ho hkind (advance?_of_step hstep)) henough hruns

end Completes

end Machine

/-- What a line promises holds wherever its bookkeeping is in order. -/
theorem Machine.inLine {m : Machine C} {v : Nat} {kind : VenueKind} (ho : m.floor.Orderly)
    (hv : m.floor.kind? v = some kind) (hk : kind ≠ .manual) : m.InLine v where
  order := Machine.lines ho v
  running := Machine.running ho hv hk
  alone := ho.turns_le v
  joined m' hm := (Machine.advance?_paces ho hm).accepted_eq v
  returned m' w hm hw := Machine.returned ho hm hw
  started m' hm := (Machine.advance?_paces ho hm).started ho hv hk
  finished m' hm := Machine.finished ho hv hk hm
  contained := Machine.contained ho
  closed ha y := (y.run.closed ho hv ha).2
  copied id source c hc hid hs hplace := by
    obtain ⟨m', c', hm, hc', hsame⟩ := Machine.copied hc hid hs
    exact ⟨m', c', hm, hc', hsame.trans hplace⟩

/-- Work that is given to a serial or thread context runs in order, once, and never at once, in
whatever order the reactor serves. -/
theorem fifo_contract {free : Bool} (s : C.State) (x : ExecutionBy free (Machine.fresh s)) {v : Nat}
    {q : Venue C.Frame} (hq : x.machine.venues[v]? = some q) (hk : q.kind = .serial ∨ q.kind = .thread) :
    x.machine.InLine v ∧ x.machine.Completes v := by
  have ho : x.machine.floor.Orderly := x.run.orderly (Machine.fresh_orderly s)
  have hv : x.machine.floor.kind? v = some q.kind := Floor.kind?_of hq
  constructor
  · exact Machine.inLine ho hv (by rcases hk with h | h <;> simp [h])
  · exact {
      prompt := Machine.prompt ho
      settled := fun hv => Machine.settled ho hv nofun (Machine.goesOn_of_serial hv)
      flushed := fun id hc hv ha hs => Machine.flushed ho hc hv ha hs
      stopped := fun id hc hv hs hw => Machine.stopped ho hc hv hs hw
      halted := fun hv ha => Machine.settled ho hv nofun (Machine.goesOn_of_stopped hv ha)
      dropped := fun id hc hv hs => Machine.dropped ho hc hv hs
      droppedWithin := fun id hc hv above left after lower hs => Machine.droppedWithin ho hc hv hs }

/-- A thread takes work that gives it more work through a copy of the reference, drops the copy and
throws; the line is flushed, and what is left runs when the last reference is dropped. -/
def relayed : Execution (Machine.fresh (C := Emitter.component String) {}) :=
  (ExecutionBy.begin _).perform 20
    [.context (.make "a" (.thread "worker")), .context (.make "b" (.copy "a")),
      .own (.perform "a" "first" [.own (.perform "b" "second" [] false), .context (.forget "b")]
        true),
      .context (.flush "a"), .context (.forget "a")]

set_option maxRecDepth 8000 in
theorem fifo_contract_relayed :
    (begun 0 relayed.machine.journal).map (fun
      | .task label .. => label
      | .call .. | .unlock _ => "") = ["first", "second"] ∧
    relayed.machine.Done 0 ∧ relayed.machine.InLine 0 ∧ relayed.machine.Completes 0 := by
  have hq : relayed.machine.venues[0]? = some { kind := .thread, name := "worker" } := rfl
  have h := fifo_contract (C := Emitter.component String) {} relayed hq (by decide)
  exact ⟨rfl, ⟨rfl, rfl⟩, h⟩

end Conduit.Dispatch
