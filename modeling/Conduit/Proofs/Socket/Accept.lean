import Conduit.Proofs.Socket.Loops
import Conduit.Proofs.Socket.Stages

/-!
What accept loops promise, in any passage of configurations: operations may come up at any time, from
within a callback as well. Every attempt to accept is reported once, by the loop that has made it; a
loop that is stopped falls silent; one whose listener is closed says so when it is taken up again, and
no more.
-/

namespace Conduit.Socket

open Dispatch
open Kernel (System Whim)

/-- The connection that is reported at a moment. -/
def connection? (q : Moment component) : Option Nat :=
  match report? q with
  | some (_, .ok k) => some k
  | _ => none

/-- What accept loops have done at the moments of a passage. -/
structure Annals (past : List (Moment component)) : Prop where
  /-- Whenever a loop is taken up again it makes one attempt to accept, if it is not to end or to
  rest; what has come of the attempt is what it reports, and nobody else is concerned. -/
  turns : ∀ q ∈ past, ∀ i, attended? q = some i → ∀ x, q.state.acceptors[i]? = some x →
    ∃ l o taken round, q.state.listeners[x.listener]? = some l ∧ Attends q.state x l o taken round ∧
      report? q = o.map (i, ·) ∧ Leaves q.state i x l o taken round q.after
  /-- Every connection is reported once. -/
  once : (past.filterMap connection?).Pairwise (· < ·)
  /-- Stopping a loop concerns nobody else. -/
  stops : ∀ q ∈ past, ∀ i, stopped? q = some i → q.after =
    { q.state with acceptors := q.state.acceptors.modify i fun x => { x with stopped := true } }
  /-- A loop that has been stopped reports no more. -/
  silent : past.Pairwise fun q r => ∀ i, stopped? q = some i → ∀ o, report? r ≠ some (i, o)
  /-- A loop whose listener has been closed reports nothing but that. -/
  closing : past.Pairwise fun q r => ∀ (i : Nat) x, r.state.acceptors[i]? = some x →
    shut? q = some x.listener → ∀ o, report? r = some (i, o) → o = .error .closed
  /-- This is the last that it reports. -/
  last : past.Pairwise fun q r => ∀ i, report? q = some (i, .error .closed) →
    ∀ o, report? r ≠ some (i, o)

/-- What accept loops promise in a passage that has come to `c`. -/
structure AcceptContract (m₀ : Machine component) (past : List (Moment component))
    (c : Config component) : Prop extends Annals past where
  /-- What is reported to a loop reaches its handler in order and at most once; all of it does, if its
  context runs it at once and no throw gets in the way. -/
  heard : ∀ (i : Nat) x, c.state.acceptors[i]? = some x →
    (heard i past ++ x.underway).Sublist (reports i past) ∧
    (¬Deferred x.context → (∀ q ∈ past, q.cause ≠ .unwind (.announce i)) →
      heard i past ++ x.underway = reports i past)
  /-- In a run of the machine all of it does on any context, unless its venue has stopped. -/
  delivered : ∀ m, Run m₀ past m → m.config = c → ∀ (i : Nat) x,
    c.state.acceptors[i]? = some x → (∀ q ∈ past, q.cause ≠ .unwind (.announce i)) →
    (∀ v, x.context.place = .venue v → ¬m.HasStopped v) →
      Socket.heard i past ++ x.underway = reports i past
  stopped : ∀ (i : Nat) x, c.state.acceptors[i]? = some x →
    (x.stopped = true ↔ ∃ q ∈ past, stopped? q = some i)
  closed : ∀ (l : Nat) y, c.state.listeners[l]? = some y →
    (y.closed = true ↔ ∃ q ∈ past, shut? q = some l)
  /-- A loop has ended only if it has been stopped or has told that its listener is closed. -/
  ended : ∀ (i : Nat) x, c.state.acceptors[i]? = some x → x.round = .ended →
    x.stopped = true ∨ ∃ q ∈ past, report? q = some (i, .error .closed)
  /-- When nothing is left to serve, a loop has ended, or rests, or waits for somebody to come. -/
  rest : c.ready = [] → ∀ (i : Nat) x, c.state.acceptors[i]? = some x → x.round = .ended ∨
    (∃ w, x.round = .resting w ∧ c.state.clock < w) ∨
    ∃ l d, x.round = .waiting d ∧ c.state.listeners[x.listener]? = some l ∧ x.stopped = false ∧
      l.closed = false ∧ l.descriptor = some d ∧ c.state.system.line d = []

/-! ### The tale of a loop -/

theorem mem_reports {i : Nat} {past : List (Moment component)} {o : Outcome} :
    o ∈ reports i past ↔ ∃ q ∈ past, report? q = some (i, o) := by
  simp only [reports, told, List.mem_filterMap]
  constructor
  · rintro ⟨⟨j, o'⟩, ⟨q, hq, hr⟩, h⟩
    by_cases hj : j = i
    · subst hj
      obtain rfl : o' = o := by simpa using h
      exact ⟨q, hq, hr⟩
    · simp [hj] at h
  · rintro ⟨q, hq, hr⟩
    exact ⟨(i, o), ⟨q, hq, hr⟩, by simp⟩

/-- What has become of a loop. -/
structure Tale (past : List (Moment component)) (i : Nat) (x : Acceptor) : Prop where
  stopped : x.stopped = true ↔ ∃ q ∈ past, stopped? q = some i
  closes : .error .closed ∈ reports i past → x.round = .ended
  ended : x.round = .ended → x.stopped = true ∨ .error .closed ∈ reports i past
  heard : (heard i past ++ x.underway).Sublist (reports i past)
  delivered : ¬Deferred x.context → (∀ q ∈ past, q.cause ≠ .unwind (.announce i)) →
    Socket.heard i past ++ x.underway = reports i past

section Tale

variable {past : List (Moment component)} {q : Moment component} {i : Nat} {x x' : Acceptor}

/-- A loop that has told that its listener is closed is not taken up again. -/
theorem Attends.ended {s : Sockets} {l : Listener} {o : Option Outcome} {taken : Option Nat}
    {round : Round} (h : Attends s x l o taken round) (hx : x.round = .ended) :
    o = none ∧ round = .ended := by
  have hdue : ¬s.Due x := by simp [Sockets.Due, hx]
  cases h with
  | idle => exact ⟨rfl, hx⟩
  | _ => contradiction

theorem Attends.quiet {s : Sockets} {l : Listener} {o : Option Outcome} {taken : Option Nat}
    {round : Round} (h : Attends s x l o taken round) (hx : x.stopped = true) : o = none := by
  cases h with
  | idle => rfl
  | quits => rfl
  | _ => simp_all

/-- A loop whose listener is closed reports nothing else. -/
theorem Attends.closed {s : Sockets} {l : Listener} {o : Option Outcome} {taken : Option Nat}
    {round : Round} (h : Attends s x l o taken round) (hl : l.closed = true) :
    o = none ∨ o = some (.error .closed) := by
  cases h with
  | idle => exact .inl rfl
  | quits => exact .inl rfl
  | closes => exact .inr rfl
  | _ => simp_all

/-- What was to be heard is still to be heard, or has been. -/
theorem Fares.keeps {fickle : Context → Prop} (hf : Fares fickle q i x x')
    (hfirm : ¬fickle x.context) (hcause : q.cause ≠ .unwind (.announce i))
    (h : heard i past ++ x.underway = reports i past) :
    heard i (past ++ [q]) ++ x'.underway = reports i (past ++ [q]) := by
  rw [heard_append, reports_append, List.append_assoc, hf.delivered hfirm hcause,
    ← List.append_assoc, h]

theorem Tale.fares (h : Tale past i x) (hf : Fares Deferred q i x x') :
    Tale (past ++ [q]) i x' := by
  have hstopped : x'.stopped = true ↔ ∃ p ∈ past ++ [q], stopped? p = some i := by
    rw [hf.stopped, Bool.or_eq_true, h.stopped, decide_eq_true_iff]
    simp [or_and_right, exists_or]
  have hsublist : (Socket.heard i (past ++ [q]) ++ x'.underway).Sublist (reports i (past ++ [q])) := by
    rw [heard_append, reports_append, List.append_assoc]
    refine (hf.underway.append_left _).trans ?_
    rw [← List.append_assoc]
    exact h.heard.append_right _
  have hdelivered (hfirm : ¬Deferred x'.context)
      (hcause : ∀ p ∈ past ++ [q], p.cause ≠ .unwind (.announce i)) :
      Socket.heard i (past ++ [q]) ++ x'.underway = reports i (past ++ [q]) := by
    rw [hf.context] at hfirm
    exact hf.keeps hfirm (hcause q (by simp))
      (h.delivered hfirm fun p hp => hcause p (List.mem_append_left _ hp))
  rcases hf.round with ⟨-, hround, hnone⟩ | ⟨-, l, o, taken, -, hattends, hreports⟩
  · have hsame : reports i (past ++ [q]) = reports i past := by
      rw [reports_append, hnone, List.append_nil]
    refine ⟨hstopped, fun hclosed => ?_, fun hended => ?_, hsublist, hdelivered⟩
    · exact hround.trans (h.closes (hsame ▸ hclosed))
    · rw [hsame, hf.stopped]
      exact (h.ended (hround.symm.trans hended)).imp_left fun hs => by simp [hs]
  · refine ⟨hstopped, fun hclosed => ?_, fun hended => ?_, hsublist, hdelivered⟩
    · rw [reports_append, hreports, List.mem_append] at hclosed
      rcases hclosed with hclosed | hclosed
      · exact (hattends.ended (h.closes hclosed)).2
      · generalize x'.round = round at hattends
        cases hattends with
        | closes => rfl
        | loses | fails => simp [Fault.closed, Fault.ofOs] at hclosed
        | _ => simp at hclosed
    · rw [reports_append, hreports]
      generalize x'.round = round at hattends hended
      cases hattends with
      | idle =>
        rw [hf.stopped]
        exact (h.ended hended).imp (fun hs => by simp [hs]) (List.mem_append_left _)
      | quits _ hs => exact .inl (by simp [hf.stopped, hs])
      | closes => exact .inr (by simp)
      | _ => cases hended

end Tale

/-! ### The reports of a passage -/

section Moments

variable {q : Moment component} {i k : Nat} {o : Outcome} {c c' : Config component}
  {cause : Dispatch.Cause component}

/-- Whoever reports has been taken up again. -/
theorem attends_of_report (hs : Housed q.state) (h : report? q = some (i, o)) :
    attended? q = some i ∧ ∃ x l taken round, q.state.acceptors[i]? = some x ∧
      q.state.listeners[x.listener]? = some l ∧ Attends q.state x l (some o) taken round ∧
      Leaves q.state i x l (some o) taken round (q.state.attendTurn i).state := by
  obtain ⟨j, ha, -⟩ : ∃ j, attended? q = some j ∧ _ := Option.bind_eq_some_iff.mp h
  cases hx : q.state.acceptors[j]? with
  | none => simp [report?, ha, attendTurn_none hx] at h
  | some x =>
    obtain ⟨l, hl, o', taken, round, hattends, hleaves, hnext⟩ := hs.comesTo hx
    obtain ⟨o'', rfl, ho⟩ := Option.map_eq_some_iff.mp
      ((report?_of_comesTo ha hx hleaves hnext).symm.trans h)
    cases ho
    exact ⟨ha, x, l, taken, round, hx, hl, hattends, hleaves⟩

/-- A connection is new when it is reported. -/
theorem connection?_eq (hs : Housed q.state) (h : connection? q = some k) :
    k = q.state.connections.length ∧ ∃ i, attended? q = some i ∧
      k < (q.state.attendTurn i).state.connections.length := by
  unfold connection? at h
  split at h
  · rename_i i k' hr
    cases h
    obtain ⟨ha, x, l, taken, round, -, -, hattends, ⟨system, hstate⟩, -, -⟩ :=
      attends_of_report hs hr
    cases hattends
    exact ⟨rfl, i, ha, by simp [hstate, Listener.gains]⟩
  · cases h

theorem after_attended (ha : attended? q = some i) :
    q.after = (q.state.attendTurn i).state.reap := by
  obtain ⟨s, cause⟩ := q
  cases cause with
  | poll t =>
    cases t with
    | acceptor j =>
      cases ha
      rfl
    | _ => cases ha
  | resume f =>
    cases f with
    | attend j =>
      cases ha
      rfl
    | _ => cases ha
  | _ => cases ha

/-- A loop gives nothing to contexts but what its handler is to be told. -/
theorem announce_of_attended (ha : attended? q = some i) {t : Turn signature}
    (ht : q.turn? = some t) {d : Context} {w : Frame} {k : List Frame}
    (hn : t.next = .perform d w k) : ∃ j, w = .announce j := by
  have hturn : (q.state.attendTurn i).next = .perform d w k := by
    obtain ⟨s, cause⟩ := q
    cases cause with
    | poll t =>
      cases t with
      | acceptor j =>
        cases ha
        cases ht
        exact hn
      | _ => cases ha
    | resume f =>
      cases f with
      | attend j =>
        cases ha
        cases ht
        exact hn
      | _ => cases ha
    | _ => cases ha
  unfold Sockets.attendTurn at hturn
  split at hturn <;> cases hturn <;> exact ⟨_, rfl⟩

/-- The connections after a step in which a loop is taken up again. -/
theorem step_connections (h : c.Step (some cause) c')
    (ha : attended? ⟨c.state, cause⟩ = some i) :
    c'.state.connections = (c.state.attendTurn i).state.connections := by
  have hafter := after_attended ha
  rcases h.state_cases with hstate | ⟨t, d, w, k, v, ht, hn, -, hstate⟩
  · rw [hstate, hafter]
    rfl
  · obtain ⟨j, rfl⟩ : ∃ j, w = .announce j := announce_of_attended ha ht hn
    rw [hstate, hafter]
    rfl

theorem Desk.Move.connections_le {d d' : Desk} {ds : List Deed} (m : d.Move ds d') :
    d.connections ≤ d'.connections := by
  cases m with
  | meet => exact Nat.le_succ _
  | decide _ _ hn => exact hn
  | refuse _ _ hn => exact hn
  | @conclude a =>
    show d.connections ≤ (d.conclude a).connections
    unfold Desk.conclude
    split <;> exact Nat.le_refl _
  | _ => exact Nat.le_refl _

theorem after_stopped (hs : Tidied q.state) (h : stopped? q = some i) : q.after =
    { q.state with acceptors := q.state.acceptors.modify i fun x => { x with stopped := true } } := by
  obtain ⟨s, cause⟩ := q
  cases cause with
  | exec view act =>
    cases act with
    | stop name =>
      obtain ⟨hname, hlt⟩ : s.controllers.lookup name = some i ∧ i < s.acceptors.length := by
        simpa [stopped?, Sockets.stopped?, Option.filter_eq_some_iff] using h
      have hrun : (s.run view (.stop name)).state =
          s.modifyAcceptor i fun x => { x with stopped := true } := by
        simp [Sockets.run, Sockets.withController, hname, hlt, Sockets.reply]
      show (s.run view (.stop name)).state.reap = _
      rw [hrun, reap_stop hs]
      rfl
    | _ => cases h
  | _ => cases h

end Moments

/-! ### The contract -/

/-- What is kept all along a passage. -/
structure Ledger (past : List (Moment component)) (c : Config component) : Prop where
  tidied : Tidied c.state
  housed : Housed c.state
  awake : Awake c
  annals : Annals past
  tales : ∀ (i : Nat) x, c.state.acceptors[i]? = some x → Tale past i x
  unborn : ∀ i, c.state.acceptors.length ≤ i →
    reports i past = [] ∧ heard i past = [] ∧ ∀ q ∈ past, stopped? q ≠ some i
  closed : ∀ (l : Nat) y, c.state.listeners[l]? = some y →
    (y.closed = true ↔ ∃ q ∈ past, shut? q = some l)
  unshut : ∀ q ∈ past, ∀ l, shut? q = some l → l < c.state.listeners.length
  numbers : ∀ q ∈ past, ∀ k, connection? q = some k → k < c.state.connections.length

section Contract

variable {past : List (Moment component)} {c c' : Config component}

theorem ledger_start {m : Machine component} [Blank m] : Ledger [] m.config := by
  obtain ⟨reachable, whims, rfl⟩ := Blank.opens (m := m)
  exact {
    tidied := tidied (.begin (opening reachable whims))
    housed := {
      listeners := fun _ _ h => nomatch h
      loops := fun _ _ h => nomatch h
      shows := fun _ h => h.elim (fun h => nomatch h) fun ⟨_, h⟩ => nomatch h }
    awake := awake (.begin (opening reachable whims))
    annals := {
      turns := fun _ h => nomatch h
      once := .nil
      stops := fun _ h => nomatch h
      silent := .nil
      closing := .nil
      last := .nil }
    tales := fun _ _ h => nomatch h
    unborn := fun _ _ => ⟨rfl, rfl, fun _ h => nomatch h⟩
    closed := fun _ _ h => nomatch h
    unshut := fun _ h => nomatch h
    numbers := fun _ h => nomatch h }

variable {cause : Dispatch.Cause component}

/-- What is reported now agrees with what has been reported before. -/
theorem Ledger.annals_concat (h : Ledger past c) {q : Moment component} (hq : q.state = c.state) :
    Annals (past ++ [q]) := by
  have hhoused : Housed q.state := hq ▸ h.housed
  have htidied : Tidied q.state := hq ▸ h.tidied
  have htale {i : Nat} {x : Acceptor} (hx : q.state.acceptors[i]? = some x) : Tale past i x :=
    h.tales i x (hq ▸ hx)
  have pairs {R : Moment component → Moment component → Prop} (hpast : past.Pairwise R)
      (hnow : ∀ p ∈ past, R p q) : (past ++ [q]).Pairwise R := by
    simpa [List.pairwise_append, hpast] using hnow
  have all {P : Moment component → Prop} (hpast : ∀ p ∈ past, P p) (hnow : P q) :
      ∀ p ∈ past ++ [q], P p := fun p hp =>
    (List.mem_append.mp hp).elim (hpast p) fun hp => List.mem_singleton.mp hp ▸ hnow
  refine ⟨all h.annals.turns fun i ha x hx => ?_, ?_,
    all h.annals.stops fun i hi => after_stopped htidied hi,
    pairs h.annals.silent fun p hp i hstopped o hr => ?_,
    pairs h.annals.closing fun p hp i x hx hshut o hr => ?_,
    pairs h.annals.last fun p hp i hclosed o hr => ?_⟩
  · obtain ⟨l, hl, o, taken, round, hattends, hleaves, hnext⟩ := hhoused.comesTo hx
    refine ⟨l, o, taken, round, hl, hattends, report?_of_comesTo ha hx hleaves hnext, ?_⟩
    rw [after_attended ha]
    exact hleaves.reap ((attend_keeps q.state i).grounded htidied.grounded)
  · rw [List.filterMap_append]
    refine List.pairwise_append.mpr ⟨h.annals.once, ?_, fun k hk k' hk' => ?_⟩
    · cases hr : connection? q <;> simp [hr]
    · obtain ⟨p, hp, hpk⟩ := List.mem_filterMap.mp hk
      obtain ⟨r, hr, hrk⟩ := List.mem_filterMap.mp hk'
      obtain rfl := List.mem_singleton.mp hr
      rw [(connection?_eq hhoused hrk).1, hq]
      exact h.numbers p hp k hpk
  · obtain ⟨-, x, l, taken, round, hx, -, hattends, -⟩ := attends_of_report hhoused hr
    exact nomatch hattends.quiet ((htale hx).stopped.mpr ⟨p, hp, hstopped⟩)
  · obtain ⟨-, x', l, taken, round, hx', hl, hattends, -⟩ := attends_of_report hhoused hr
    obtain rfl := Option.some.inj (hx'.symm.trans hx)
    simpa using hattends.closed ((h.closed _ l (hq ▸ hl)).mpr ⟨p, hp, hshut⟩)
  · obtain ⟨-, x, l, taken, round, hx, -, hattends, -⟩ := attends_of_report hhoused hr
    have hover := (htale hx).closes (mem_reports.mpr ⟨p, hp, hclosed⟩)
    exact nomatch (hattends.ended hover).1

/-- A loop or a listener that does not exist is not concerned. -/
theorem heard_unborn {q : Moment component} {i : Nat} (hi : q.state.acceptors.length ≤ i) :
    heard i [q] = [] := by
  rw [heard_singleton]
  refine told_eq_nil fun o h => ?_
  unfold heard? at h
  split at h
  · obtain ⟨o', ho', he⟩ := Option.map_eq_some_iff.mp h
    cases he
    simp [List.getElem?_eq_none hi] at ho'
  · cases h

theorem stopped?_lt {q : Moment component} {i : Nat} (h : stopped? q = some i) :
    i < q.state.acceptors.length := by
  obtain ⟨s, cause⟩ := q
  cases cause with
  | exec view act =>
    cases act with
    | stop name =>
      have := (Option.filter_eq_some_iff.mp h).2
      simpa using this
    | _ => cases h
  | _ => cases h

theorem shows_of_shut {q : Moment component} {l : Nat} (h : shut? q = some l) : q.state.Shows l := by
  obtain ⟨s, cause⟩ := q
  cases cause with
  | exec view act =>
    cases act with
    | close id =>
      obtain ⟨handle, hh, hl⟩ := Option.bind_eq_some_iff.mp h
      unfold Sockets.listener? at hl
      split at hl
      · cases hl
        exact Sockets.shows_of_stage hh ‹_›
      · cases hl
    | _ => cases h
  | _ => cases h

/-- Nothing is told of a loop that is still to be started. -/
theorem Ledger.unborn_concat (h : Ledger past c) {q : Moment component} (hq : q.state = c.state)
    {i : Nat} (hi : c.state.acceptors.length ≤ i) : reports i (past ++ [q]) = [] ∧
      heard i (past ++ [q]) = [] ∧ ∀ p ∈ past ++ [q], stopped? p ≠ some i := by
  obtain ⟨hreports, hheard, hstopped⟩ := h.unborn i hi
  rw [← hq] at hi
  have hhoused : Housed q.state := hq ▸ h.housed
  refine ⟨?_, ?_, fun p hp hs => ?_⟩
  · rw [reports_append, hreports, List.nil_append, reports_singleton]
    refine told_eq_nil fun o hr => ?_
    obtain ⟨-, x, -, -, -, hx, -⟩ := attends_of_report hhoused hr
    exact absurd (List.getElem?_eq_some_iff.mp hx).1 (Nat.not_lt.mpr hi)
  · rw [heard_append, hheard, heard_unborn hi]
    rfl
  · rcases List.mem_append.mp hp with hp | hp
    · exact hstopped p hp hs
    · obtain rfl := List.mem_singleton.mp hp
      exact absurd (stopped?_lt hs) (Nat.not_lt.mpr hi)

theorem Ledger.step_some (h : Ledger past c) (hstep : c.Step (some cause) c') :
    Ledger (past ++ [⟨c.state, cause⟩]) c' := by
  have hpasses := step_passes h.housed hstep
  have hhoused := hpasses.housed h.housed
  have hunborn {i : Nat} (hi : c.state.acceptors.length ≤ i) :=
    h.unborn_concat (q := ⟨c.state, cause⟩) rfl hi
  refine ⟨step_tidied h.tidied hstep, hhoused, step_awake h.awake hstep, h.annals_concat rfl,
    fun i x' hx' => ?_, fun i hi => hunborn (Nat.le_trans hpasses.loops_le hi), fun l y' hy' => ?_,
    fun q hq l hl => ?_, fun q hq k hk => ?_⟩
  · rcases Nat.lt_or_ge i c.state.acceptors.length with hi | hi
    · obtain ⟨x₁, hx₁, hfares⟩ := hpasses.loops i _ (List.getElem?_eq_getElem hi)
      obtain rfl := Option.some.inj (hx₁.symm.trans hx')
      exact (h.tales i _ (List.getElem?_eq_getElem hi)).fares hfares
    · obtain ⟨-, hstopped, hround, hunderway⟩ := hpasses.joined i x' hi hx'
      obtain ⟨hreports, hheard, hnone⟩ := hunborn hi
      refine ⟨⟨by simp [hstopped], fun ⟨q, hq, hs⟩ => absurd hs (hnone q hq)⟩, by simp [hreports],
        by simp [hround], by simp [hheard, hunderway], by simp [hreports, hheard, hunderway]⟩
  · rcases Nat.lt_or_ge l c.state.listeners.length with hl | hl
    · obtain ⟨y₁, hy₁, hy⟩ := hpasses.listeners l _ (List.getElem?_eq_getElem hl)
      obtain rfl := Option.some.inj (hy₁.symm.trans hy')
      have hbefore := h.closed l _ (List.getElem?_eq_getElem hl)
      by_cases hshut : shut? ⟨c.state, cause⟩ = some l
      · simp [hy, hshut]
      · rw [hy, if_neg hshut, hbefore]
        simp [hshut]
    · rw [(hpasses.opened l y' hl hy').1]
      refine ⟨nofun, fun ⟨q, hq, hs⟩ => ?_⟩
      rcases List.mem_append.mp hq with hq | hq
      · exact absurd (h.unshut q hq l hs) (Nat.not_lt.mpr hl)
      · obtain rfl := List.mem_singleton.mp hq
        exact absurd (h.housed.shows l (shows_of_shut hs)) (Nat.not_lt.mpr hl)
  · refine Nat.lt_of_lt_of_le ?_ hpasses.listeners_le
    rcases List.mem_append.mp hq with hq | hq
    · exact h.unshut q hq l hl
    · obtain rfl := List.mem_singleton.mp hq
      exact h.housed.shows l (shows_of_shut hl)
  · rcases List.mem_append.mp hq with hq | hq
    · exact Nat.lt_of_lt_of_le (h.numbers q hq k hk) (step_move hstep).connections_le
    · obtain rfl := List.mem_singleton.mp hq
      obtain ⟨-, i, ha, hlt⟩ := connection?_eq h.housed hk
      rwa [step_connections hstep ha]

theorem ledger {m : Machine component} [Blank m] {past : List (Moment component)}
    {c : Config component} (h : Passage m.config past c) : Ledger past c := by
  induction h with
  | start => exact ledger_start
  | @step past c cause c' _ hstep ih =>
    cases cause with
    | some cause => exact ih.step_some hstep
    | none =>
      -- The state is left alone and there is no moment to tell of.
      have hstate := hstep.state_eq
      have hpast : past ++ c.moment none = past := List.append_nil past
      obtain ⟨htidied, hhoused, hawake, hannals, htales, hunborn, hclosed, hunshut, hnumbers⟩ := ih
      rw [hpast]
      refine ⟨step_tidied htidied hstep, ?_, step_awake hawake hstep, hannals, ?_, ?_, ?_, ?_, ?_⟩
      all_goals rwa [hstate]

/-- A loop that cannot go on has ended, or rests, or waits for somebody to come. -/
theorem Ledger.rest (h : Ledger past c) (hready : c.ready = []) {i : Nat} {x : Acceptor}
    (hx : c.state.acceptors[i]? = some x) : x.round = .ended ∨
    (∃ w, x.round = .resting w ∧ c.state.clock < w) ∨
    ∃ l d, x.round = .waiting d ∧ c.state.listeners[x.listener]? = some l ∧ x.stopped = false ∧
      l.closed = false ∧ l.descriptor = some d ∧ c.state.system.line d = [] := by
  have hnot : c.state.isAcceptorReady x = false := by
    refine Bool.eq_false_iff.mpr fun hgo => ?_
    have hmem : Task.acceptor i ∈ c.state.runnable := by
      refine List.mem_append_left _ (List.mem_append_left _ (List.mem_append_right _ ?_))
      exact List.mem_filterMap.mpr ⟨(x, i), List.mk_mem_zipIdx_iff_getElem?.mpr hx, by simp [hgo]⟩
    have := h.awake _ hmem
    rw [hready] at this
    cases this
  unfold Sockets.isAcceptorReady at hnot
  cases hround : x.round with
  | ended => exact .inl rfl
  | fresh => simp [hround] at hnot
  | resting w => exact .inr (.inl ⟨w, rfl, by simpa [hround] using hnot⟩)
  | waiting d =>
    obtain ⟨l, hl, hhand⟩ := h.housed.loops i x hx
    simp only [hround, Sockets.isClosed, hl, Option.map_some, Option.getD_some,
      Bool.or_eq_false_iff, Bool.not_eq_false', List.isEmpty_iff] at hnot
    obtain ⟨⟨hstopped, hclosed⟩, hline⟩ := hnot
    exact .inr (.inr ⟨l, d, rfl, hl, hstopped, hclosed,
      (hhand d hround).resolve_left (by simp [hclosed]), hline⟩)

end Contract

/-- What has been reported to a loop has been heard or is on its way, unless the venue of its context
has stopped. -/
def Delivered (i : Nat) (past : List (Moment component)) (m : Machine component) : Prop :=
  ∀ x, m.state.acceptors[i]? = some x → (∃ v, x.context.place = .venue v ∧ m.HasStopped v) ∨
    heard i past ++ x.underway = reports i past

theorem Delivered.concat {m₀ m m' : Machine component} [Blank m₀] {i : Nat} (h : Delivered i past m)
    (hrun : Run m₀ past m) {q : Moment component} (hq : q.state = m.state)
    (hpasses : Passes (fun c => ∃ v, c.place = .venue v ∧ m.HasStopped v) q m'.state)
    (hstays : ∀ v, m.HasStopped v → m'.HasStopped v) (hcause : q.cause ≠ .unwind (.announce i)) :
    Delivered i (past ++ [q]) m' := by
  intro x' hx'
  rcases Nat.lt_or_ge i q.state.acceptors.length with hi | hi
  · obtain ⟨x, hx⟩ : ∃ x, q.state.acceptors[i]? = some x := ⟨_, List.getElem?_eq_getElem hi⟩
    obtain ⟨x₁, hx₁, hfares⟩ := hpasses.loops i x hx
    obtain rfl := Option.some.inj (hx₁.symm.trans hx')
    rw [hfares.context]
    by_cases hstopped : ∃ v, x.context.place = .venue v ∧ m.HasStopped v
    · exact .inl (hstopped.imp fun v ⟨hv, hs⟩ => ⟨hv, hstays v hs⟩)
    · exact .inr (hfares.keeps hstopped hcause ((h x (hq ▸ hx)).resolve_left hstopped))
  · obtain ⟨-, -, -, hunderway⟩ := hpasses.joined i x' hi hx'
    obtain ⟨hreports, hheard, -⟩ := (ledger hrun.passage).unborn_concat (q := q)
      (by simpa using hq) (by simpa [hq] using hi)
    exact .inr (by rw [hreports, hheard, hunderway]; rfl)

theorem delivered {m₀ m : Machine component} [Blank m₀] (h : Run m₀ past m) {i : Nat}
    (hcause : ∀ q ∈ past, q.cause ≠ .unwind (.announce i)) : Delivered i past m := by
  obtain ⟨reachable, whims, rfl⟩ := Blank.opens (m := m₀)
  induction h with
  | start => exact fun x hx => nomatch hx
  | @advance past m m' h hm ih =>
    have ih := ih fun q hq => hcause q (List.mem_append_left _ hq)
    have horderly := h.orderly (Machine.fresh_orderly _)
    have hstays (v : Nat) (hs : m.HasStopped v) : m'.HasStopped v := hs.advance horderly hm
    cases hq : m.moment? with
    | none =>
      intro x hx
      have hstep := Machine.advance?_config hm
      rw [Option.map_eq_none_iff.mp hq] at hstep
      have hstate := hstep.state_eq
      rw [Machine.config_state, Machine.config_state] at hstate
      rw [hstate] at hx
      rw [Option.toList_none, List.append_nil]
      exact (ih x hx).imp_left fun ⟨v, hv, hs⟩ => ⟨v, hv, hstays v hs⟩
    | some q =>
      have hhoused : Housed m.state := by simpa using (ledger h.passage).housed
      obtain ⟨cause, -, rfl⟩ := Option.map_eq_some_iff.mp hq
      exact ih.concat h rfl (advance?_passes hhoused hq hm) hstays (hcause _ (by simp [hq]))
  | request _ _ op ih => exact ih hcause
  | @strike past m h hm ih =>
    have ih := ih fun q hq => hcause q (List.mem_append_left _ hq)
    have hhoused : Housed m.state := by simpa using (ledger h.passage).housed
    refine ih.concat h rfl ?_ (fun v hs => ?_) nofun
    · rw [m.strike_state]
      exact .after hhoused
    · rw [Machine.hasStopped_iff, m.floor_strike]
      exact Machine.hasStopped_iff.mp hs
  | @proceed past m v q n h hm hq hk hn ih =>
    intro x hx
    rw [Machine.proceed_state hm] at hx
    obtain ⟨e, -, p⟩ := Machine.proceed_path hm hq hk n
    exact (ih hcause x hx).imp_left fun ⟨v, hv, hs⟩ => ⟨v, hv, hs.path p⟩
  | reorder _ hf => cases hf

/-- Every attempt to accept is reported once, and no loop reports anything after its end. -/
theorem accept_contract {reachable : Bool} {whims : List Whim} {past : List (Moment component)}
    {c : Config component} (h : Passage (opening reachable whims).config past c) :
    AcceptContract (opening reachable whims) past c where
  toAnnals := (ledger h).annals
  heard i x hx := ⟨((ledger h).tales i x hx).heard, ((ledger h).tales i x hx).delivered⟩
  delivered m hrun hm i x hx hcause hfirm := by
    subst hm
    rw [Machine.config_state] at hx
    exact (Socket.delivered hrun hcause x hx).resolve_left fun ⟨v, hv, hs⟩ => hfirm v hv hs
  stopped i x hx := ((ledger h).tales i x hx).stopped
  closed := (ledger h).closed
  ended i x hx hended := (((ledger h).tales i x hx).ended hended).imp_right mem_reports.mp
  rest hready _ _ hx := (ledger h).rest hready hx

/-- A socket is bound and listens. The first attempt to accept is interrupted, and after somebody has
connected the fourth one fails. Whom the fifth one brings cannot be watched. -/
def mishaps : List Whim :=
  [.obey, .obey, .fail 4, .obey, .obey, .obey, .obey, .fail 103, .obey, .fail 12]

/-- Two loops wait on one socket, and somebody comes. The first loop fails to accept and rests; the
other one accepts and loses the connection. It accepts again when somebody else comes, and is stopped.
Then the socket is closed. -/
def serving : Execution (opening false mishaps) :=
  let address : Address := .unix ((UnixPath.ofBytes? [112]).getD .unnamed)
  let served := (ExecutionBy.begin (opening false mishaps)).perform 16
    [.own (.socket "server" false [] default), .own (.bind "server" (.known address) .stream),
      .own (.listen "server" 1), .own (.accept "server" "first" ""),
      .own (.accept "server" "second" ""), .own (.socket "client" false [] default),
      .own (.connect "client" (.known address) .stream none ""),
      .own (.socket "other" false [] default),
      .own (.connect "other" (.known address) .stream none ""), .own (.stop "second"),
      .own (.close "server")]
  Nat.repeat ExecutionBy.advance 5 (Nat.repeat ExecutionBy.strike Sockets.restTime served)

set_option maxRecDepth 8000 in
theorem accept_contract_serving :
    serving.past.filterMap report? =
      [(0, .error (.ofOs .accept (.number 103))), (1, .error (.ofOs .accept (.number 12))),
        (1, .ok 2), (0, .error .closed)] ∧
    serving.machine.state.acceptors.map (fun x => (x.stopped, x.round)) =
      [(false, .ended), (true, .ended)] ∧
    AcceptContract (opening false mishaps) serving.past serving.machine.config :=
  ⟨rfl, rfl, accept_contract serving.run.passage⟩

end Conduit.Socket
