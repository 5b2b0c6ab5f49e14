import Conduit.Proofs.Cancel.Waiters
import Conduit.Proofs.Dispatch.Alike

/-!
Runs in which nobody attends to those who wait: they refer to their tickets as before, and that is all.
With the same cues the same handlers are registered and react as in the run in which waiters are served.
Only attempts that find a ticket cancelled already are made for other tickets, since those to which only
waiters refer are not given up.
-/

namespace Conduit.Cancel

open Dispatch

/-- All who have ever waited are waiting still. -/
def Tickets.hold (s : Tickets) : Tickets :=
  { s with waiters := s.waiters.map fun w => { w with finished := false } }

/-- States that differ in whether waiters have been served, and in nothing else. -/
def Held (s s' : Tickets) : Prop := s' = s.hold

/-- A way to serve tasks in which waiters are never attended to. -/
def unattended : Service component
  | s, .waiter _ => { state := s }
  | s, .timer k => poll s (.timer k)

/-- Whoever has been served waits for a ticket that has been cancelled. -/
def Tickets.Settled (s : Tickets) : Prop :=
  ∀ w ∈ s.waiters, w.finished = true → s.reason? w.ticket ≠ none

section Hold

variable {s : Tickets} {t : Nat}

theorem reason?_hold : s.hold.reason? t = s.reason? t := rfl

/-- All who wait for a ticket that has not been cancelled are waiting still. -/
theorem waitersOf_hold (hs : s.Settled) (hnone : s.reason? t = none) :
    s.hold.waitersOf t = s.waitersOf t := by
  unfold Tickets.waitersOf Tickets.hold
  rw [List.zipIdx_map, List.filterMap_map]
  refine List.filterMap_congr fun ⟨w, k⟩ hw => ?_
  have hmem := List.mem_of_getElem? (List.mk_mem_zipIdx_iff_getElem?.mp hw)
  by_cases ht : w.ticket = t
  · have hf : w.finished = false := by
      by_contra hf
      exact hs w hmem (by simpa using hf) (ht ▸ hnone)
    simp [ht, hf]
  · simp [ht]

theorem alive_hold (hs : s.Settled) (hnone : s.reason? t = none) : s.hold.Alive t ↔ s.Alive t := by
  refine or_congr Iff.rfl (or_congr Iff.rfl ⟨?_, ?_⟩)
  · rintro ⟨w, hw, ht, -⟩
    obtain ⟨v, hv, rfl⟩ := List.mem_map.mp hw
    refine ⟨v, hv, ht, ?_⟩
    by_contra hf
    exact hs v hv (by simpa using hf) (ht ▸ hnone)
  · rintro ⟨w, hw, ht, hf⟩
    exact ⟨_, List.mem_map_of_mem hw, ht, rfl⟩

/-- A turn after which all who have ever waited are waiting still. -/
def holdTurn (t : Turn signature) : Turn signature := { t with state := t.state.hold }

theorem cancel_hold (hs : s.Settled) (r : Reason) (k : List Frame) :
    cancel s.hold t r k = holdTurn (cancel s t r k) := by
  unfold cancel
  rw [reason?_hold]
  cases hr : s.reason? t with
  | some _ => rfl
  | none =>
    dsimp only
    rw [waitersOf_hold hs hr]
    rfl

theorem register_hold (c : Callback) (context : Option Context) :
    register s.hold t c context = holdTurn (register s t c context) := by
  unfold register
  rw [reason?_hold]
  cases s.reason? t <;> rfl

theorem link_hold (target : Nat) : s.hold.link target t = (s.link target t).hold := by
  unfold Tickets.link
  rw [reason?_hold, reason?_hold]
  cases s.reason? t with
  | none => rfl
  | some r =>
    dsimp only
    split <;> rfl

theorem links_hold (target : Nat) (ts : List Nat) :
    ts.foldl (fun s t => s.link target t) s.hold =
      (ts.foldl (fun s t => s.link target t) s).hold := by
  induction ts generalizing s with
  | nil => rfl
  | cons t ts ih => rw [List.foldl_cons, List.foldl_cons, link_hold, ih]

/-- An action does the same whether waiters are attended to or not. -/
theorem exec_hold (hs : s.Settled) (view : View) (a : Action) :
    exec view s.hold a = holdTurn (exec view s a) := by
  cases a with
  | source id | never id | drop id | timeout id ms => rfl
  | linked id ids =>
    have hlinks := links_hold (s := s.addTicket) s.tickets.length (ids.filterMap s.ticket?)
    exact congrArg (fun s' => reply (Tickets.nameSource s' id s.tickets.length)
      (.linked (ids.filterMap s.ticket?).length)) hlinks
  | keep id of =>
    simp only [exec, show s.hold.ticket? of = s.ticket? of from rfl]
    cases s.ticket? of <;> rfl
  | cancel id =>
    simp only [exec, show s.hold.sources = s.sources from rfl]
    cases s.sources.lookup id with
    | none => rfl
    | some t => exact cancel_hold hs ..
  | cancelAfter id ms =>
    simp only [exec, show s.hold.sources = s.sources from rfl]
    cases s.sources.lookup id <;> rfl
  | handler ticket label context script throws =>
    simp only [exec, show s.hold.ticket? ticket = s.ticket? ticket from rfl]
    cases s.ticket? ticket with
    | none => rfl
    | some t =>
      cases context with
      | none => exact register_hold ..
      | some name =>
        dsimp only
        cases view.context? name with
        | none => rfl
        | some c => exact register_hold ..
  | wait ticket label =>
    simp only [exec, show s.hold.ticket? ticket = s.ticket? ticket from rfl]
    cases s.ticket? ticket with
    | none => rfl
    | some t => simp [holdTurn, Tickets.addWaiter, Tickets.hold]
  | describe id =>
    simp only [exec, show describe? s.hold id = describe? s id from rfl]
    cases describe? s id <;> rfl

/-- Nothing is done about a ticket that has been cancelled. -/
theorem resume_link {target n : Nat} {r : Reason} {rest : List Handler} {after : Reply Answer}
    (hr : s.reason? target ≠ none) : resume s (.round t r (⟨n, .link target⟩ :: rest) after) =
      { state := s, next := .enter [.round t r rest after] } := by
  obtain ⟨r', hr'⟩ := Option.ne_none_iff_exists'.mp hr
  simp [resume, cancel, hr']

theorem resume_hold (hs : s.Settled) (f : Frame) : resume s.hold f = holdTurn (resume s f) := by
  rcases f with ⟨u, r, _ | ⟨⟨n, cb | target⟩, rest⟩, after⟩ | ⟨n, cb, r⟩
  · rfl
  · rfl
  · cases hr : s.reason? target with
    | some _ =>
      rw [resume_link (s := s) (by simp [hr]), resume_link (by simp [reason?_hold, hr])]
      rfl
    | none =>
      simp only [resume, alive_hold hs hr]
      split
      · exact cancel_hold hs ..
      · rfl
  · rfl

/-- Turns that leave the same behind, but for waiters and for the answer that nobody gets. -/
abbrev Same (t t' : Turn signature) : Prop := Agrees (C := component) Held t t'

theorem same_of_eq {t t' : Turn signature} (h : t' = holdTurn t) : Same t t' := by
  subst h
  exact ⟨rfl, rfl, .inl rfl⟩

theorem same_expire (hs : s.Settled) (k : Nat) (z : Timer) :
    Same (expire s k z) (expire s.hold k z) := by
  unfold expire
  dsimp only
  cases hr : s.reason? z.ticket with
  | none =>
    simp only [alive_hold hs hr]
    split
    · exact same_of_eq (cancel_hold
        (s := { s with timers := s.timers.set k { z with finished := true } }) hs ..)
    · exact same_of_eq rfl
  | some r =>
    -- The timer is over, whether or not it still finds its ticket.
    have hcancel (s' : Tickets) (hs' : s'.reason? z.ticket = some r) :
        cancel s' z.ticket .timeout [] = { state := s', next := .reply (.own (.fired false)) } := by
      simp [cancel, hs']
    rw [hcancel { s with timers := s.timers.set k { z with finished := true } } hr,
      hcancel { s.hold with timers := s.hold.timers.set k { z with finished := true } } hr]
    split <;> split <;> exact ⟨rfl, rfl, .inr ⟨_, _, rfl, rfl⟩⟩

theorem same_poll (hs : s.Settled) (task : Task) :
    Same (poll s task) (unattended s.hold task) := by
  cases task with
  | waiter k =>
    simp only [poll, unattended]
    cases hk : s.waiters[k]? with
    | none => exact same_of_eq rfl
    | some w =>
      dsimp only
      split
      · refine ⟨?_, rfl, .inl rfl⟩
        obtain ⟨hlt, rfl⟩ := List.getElem?_eq_some_iff.mp hk
        have hlt' : k < (s.waiters.map fun w => ({ w with finished := false } : Waiter)).length := by
          simpa using hlt
        simpa [Held, Tickets.hold, List.map_set] using (List.set_getElem_self hlt').symm
      · exact same_of_eq rfl
  | timer k =>
    simp only [poll, unattended, show s.hold.timers = s.timers from rfl,
      show s.hold.clock = s.clock from rfl]
    cases s.timers[k]? with
    | none => exact same_of_eq rfl
    | some z =>
      dsimp only
      split
      · exact same_of_eq rfl
      · split
        · exact same_expire hs k z
        · exact same_of_eq rfl

end Hold

/-- Whether waiters are attended to makes no difference to how the machine goes on. -/
theorem agreement :
    Agreement (C := component) Held Tickets.Settled unattended where
  exec view a h hs := h ▸ same_of_eq (exec_hold hs view a)
  resume f h hs := h ▸ same_of_eq (resume_hold hs f)
  poll t h hs := h ▸ same_poll hs t
  unwind _ h := ⟨h, rfl⟩
  tick h := by
    subst h
    exact ⟨rfl, rfl⟩

/-! ### What is done -/

/-- Whether a deed is an attempt that comes too late, or its answer. -/
def Deed.idle : Deed → Bool
  | .attempted _ _ first | .answered _ first => !first
  | _ => false

/-- What was done, but for the attempts that came too late. -/
def effects (h : List Deed) : List Deed := h.filter (!·.idle)

@[simp] theorem effects_append (h h' : List Deed) : effects (h ++ h') = effects h ++ effects h' :=
  List.filter_append ..

section Effects

variable {s : Tickets} {t : Nat}

theorem linkDeeds_hold (target : Nat) (ts : List Nat) :
    linkDeeds s.hold target ts = linkDeeds s target ts := by
  induction ts generalizing s with
  | nil => rfl
  | cons t ts ih =>
    simp only [linkDeeds, reason?_hold, link_hold, ih]
    rfl

/-- What is done when an action runs is the same. -/
theorem execDeeds_hold (hs : s.Settled) (view : View) (a : Action) :
    execDeeds view s.hold a = execDeeds view s a := by
  have hlinks := linkDeeds_hold (s := s.addTicket) s.tickets.length (links? s a)
  unfold execDeeds
  rw [exec_hold hs view a]
  exact congrArg (_ ++ ·) hlinks

theorem effects_follow (hs : s.Settled) (target : Nat) (r : Reason) :
    effects (followDeeds s.hold target r) = effects (followDeeds s target r) := by
  unfold followDeeds
  cases hr : s.reason? target with
  | none => simp only [reason?_hold, alive_hold hs hr, hr]
  | some r' =>
    -- An attempt that is made for a cancelled ticket comes too late.
    have hlate (alive : Prop) [Decidable alive] : effects (if alive then
        [.attempted target r false, .answered target false] else []) = [] := by
      split <;> rfl
    rw [reason?_hold, hr]
    exact (hlate _).trans (hlate _).symm

theorem effects_round (hs : s.Settled) (u : Nat) (r : Reason) (rest : List Handler)
    (after : Reply Answer) :
    effects (roundDeeds s.hold u r rest after) = effects (roundDeeds s u r rest after) := by
  unfold roundDeeds
  split
  · rfl
  · rfl
  · exact congrArg (_ :: ·) (effects_follow hs ..)

/-- What is done when a timer has come to its time. -/
theorem deeds_of_expires {k : Nat} (h : expires? s k = some t) :
    deedsAt ⟨s, .poll (.timer k)⟩ = .attempted t .timeout (s.reason? t).isNone ::
      if (s.reason? t).isSome then [.answered t false] else [] := by
  obtain ⟨z, hz, rfl⟩ := Option.map_eq_some_iff.mp h
  obtain ⟨hk, hdue⟩ := Option.filter_eq_some_iff.mp hz
  simp only [decide_eq_true_eq] at hdue
  have hnext : (poll s (.timer k)).next = (cancel
      { s with timers := s.timers.set k { z with finished := true } } z.ticket .timeout []).next := by
    simp [poll, hk, hdue, expire]
  show (expires? s k).toList.flatMap _ = _
  rw [h, Option.toList_some, List.flatMap_singleton, hnext, answer_cancel]
  rfl

theorem effects_timer (hs : s.Settled) (k : Nat) :
    effects (deedsAt ⟨s.hold, .poll (.timer k)⟩) = effects (deedsAt ⟨s, .poll (.timer k)⟩) := by
  have hnone {s : Tickets} (h : expires? s k = none) : deedsAt ⟨s, .poll (.timer k)⟩ = [] := by
    show (expires? s k).toList.flatMap _ = []
    rw [h]
    rfl
  cases hz : s.timers[k]? with
  | none =>
    rw [hnone (s := s) (by simp [expires?, hz]), hnone (by simp [expires?, Tickets.hold, hz])]
  | some z =>
    have hhold := expires?_eq (s := s.hold) (k := k) hz
    have hplain := expires?_eq hz
    cases hr : s.reason? z.ticket with
    | none =>
      have heq : expires? s.hold k = expires? s k := by
        rw [hhold, hplain]
        simp only [alive_hold hs hr]
        rfl
      cases he : expires? s k with
      | none => rw [hnone he, hnone (heq.trans he)]
      | some t => rw [deeds_of_expires he, deeds_of_expires (heq.trans he), reason?_hold]
    | some r =>
      -- The timer comes too late, whether or not it still finds its ticket.
      have hlate {s' : Tickets} (hr : s'.reason? z.ticket = some r)
          (h : expires? s' k = none ∨ expires? s' k = some z.ticket) :
          effects (deedsAt ⟨s', .poll (.timer k)⟩) = [] := by
        rcases h with h | h
        · rw [hnone h]
          rfl
        · rw [deeds_of_expires h, hr]
          rfl
      have hr' : s.hold.reason? z.ticket = some r := hr
      rw [hlate hr, hlate hr']
      · rw [hhold]
        split
        · exact .inr rfl
        · exact .inl rfl
      · rw [hplain]
        split
        · exact .inr rfl
        · exact .inl rfl

/-- What is done for the same cause is the same, but for the attempts that come too late. -/
theorem effects_deedsAt {q q' : Moment component}
    (h : SameCause Held Tickets.Settled q q') :
    effects (deedsAt q') = effects (deedsAt q) := by
  obtain ⟨s, cause⟩ := q
  obtain ⟨s', cause'⟩ := q'
  obtain ⟨hcause, hstate, hs⟩ := h
  dsimp only at hcause hstate hs
  subst hcause hstate
  cases cause' with
  | exec view a => exact congrArg effects (execDeeds_hold hs view a)
  | resume f =>
    cases f with
    | round t r rest after => exact effects_round hs t r rest after
    | call n c r => rfl
  | unwind f => cases f <;> rfl
  | poll task =>
    cases task with
    | waiter k => rfl
    | timer k => exact effects_timer hs k
  | tick => rfl

theorem effects_deeds {past past' : List (Moment component)}
    (h : List.Forall₂ (SameCause Held Tickets.Settled) past past') :
    effects (deeds past') = effects (deeds past) := by
  induction h with
  | nil => rfl
  | cons hq _ ih =>
    rw [deeds, deeds, List.flatMap_cons, List.flatMap_cons, effects_append, effects_append,
      effects_deedsAt hq]
    exact congrArg (_ ++ ·) ih

end Effects

/-- A run in which waiters are never attended to, and everything that matters to handlers is as in the
run `x`: the cues are the same, and so are all deeds but for attempts that come too late, and everything
that the tickets are left with. -/
structure Idle (x : Execution initial) (cues : List (Cue Action)) (past : List (Moment component))
    (m : Machine component) : Prop where
  plays : Plays initial cues x.past x.machine
  idle : PlaysBy unattended initial cues past m
  effects : effects (deeds past) = effects (history x)
  state : m.state = x.machine.state.hold

/-- Whether waiters are attended to makes no difference to handlers. -/
theorem exists_idle (x : Execution initial) : ∃ cues past m, Idle x cues past m := by
  obtain ⟨cues, hx⟩ := x.run.plays
  have hsettled (y : Execution initial) : y.machine.state.Settled := (awake y).served
  have hinitial : Alike Held initial initial := ⟨_, _, _, rfl, .same _, rfl⟩
  obtain ⟨past, m, hm, halike, hpast⟩ := hinitial.plays agreement hsettled hx
  exact ⟨cues, past, m, hx, hm, effects_deeds hpast, halike.state⟩

/-! ### The whole of it -/

/-- What becomes of those who wait in a run. -/
structure WaiterContract (x : Execution initial) : Prop where
  /-- When there is nothing left to do, everyone who waits for a cancelled ticket has been served, once and
  with its reason, and nobody else has. -/
  woken : x.machine.advance? = none → ∀ a ∈ x.past, ∀ k t label, Joins k t label a →
    told k x.past = ((x.machine.state.reason? t).map (Note.waited label)).toList
  /-- Nobody is served twice, with another reason, or before his ticket has been cancelled. -/
  once : ∀ a ∈ x.past, ∀ k t label, Joins k t label a → told k x.past = [] ∨
    ∃ r, x.machine.state.reason? t = some r ∧ told k x.past = [.waited label r]
  /-- Whoever is still to be served has been woken. -/
  awake : ∀ a ∈ x.past, ∀ k t label, Joins k t label a → x.machine.state.reason? t ≠ none →
    told k x.past = [] → .own (.waiter k) ∈ x.machine.ready
  /-- Waiting leaves tickets and their handlers alone. -/
  silent : ∀ q ∈ x.past, Waits q → deedsAt q = [] ∧ q.after.tickets = q.state.tickets ∧
    q.after.registered = q.state.registered
  /-- Handlers are registered and react as if nobody attended to those who wait. -/
  idle : ∃ cues past m, Idle x cues past m

/-- Whoever waits is served when his ticket has been cancelled, and that is all that comes of waiting. -/
theorem waiter_contract (x : Execution initial) : WaiterContract x where
  woken hm _ ha _ _ _ hjoins := told_at_rest x hm ha hjoins
  once _ ha _ _ _ hjoins := told_once x ha hjoins
  awake _ ha _ _ _ hjoins hr htold := ready_of_cancelled x ha hjoins hr htold
  silent _ _ hq := hq.silent
  idle := exists_idle x

/-- One waits for a ticket before it is cancelled, another one begins to wait in a handler of the ticket,
and a third one afterwards; nobody cancels the ticket for which the fourth one waits. -/
def crowd : Execution initial :=
  (ExecutionBy.begin initial).perform 20
    [.own (.source "a"), .own (.source "b"), .own (.wait "a" "first"), .own (.wait "b" "fourth"),
      .own (.handler "a" "handler" none [.own (.wait "a" "second")] false), .own (.cancel "a"),
      .own (.wait "a" "third")]

set_option maxRecDepth 4000 in
theorem waiter_contract_crowd : WaiterContract crowd ∧ crowd.machine.advance? = none ∧
    told 0 crowd.past = [.waited "first" .requested] ∧ told 1 crowd.past = [] ∧
    told 2 crowd.past = [.waited "second" .requested] ∧
    told 3 crowd.past = [.waited "third" .requested] :=
  ⟨waiter_contract crowd, rfl, rfl, rfl, rfl, rfl⟩

end Conduit.Cancel
