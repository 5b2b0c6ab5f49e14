import Conduit.Proofs.Socket.Abiding
import Conduit.Proofs.Socket.Settlement

/-!
How an attempt is decided. Whoever takes it up asks in turn whether it could be prepared, whether
its ticket has been cancelled, whether it has been told to stop, and only then the system; the first
of them that has an answer decides. What has been decided is not decided again.
-/

namespace Conduit.Socket

open Dispatch
open Kernel (System)

/-! ### The branches -/

/-- One of the branches of an attempt is ready, and is the first of those that are; it gives the
outcome. -/
inductive Sockets.Rules (s : Sockets) (x : Attempt) : Outcome → Prop where
  | unprepared {f} (hx : x.prepared = .error f) : Rules s x (.error f)
  | cancelled {d} (hx : x.prepared = .ok d) (ht : s.isCancelled x.ticket = true) :
      Rules s x (.error .cancelled)
  | closed {d} (hx : x.prepared = .ok d) (ht : s.isCancelled x.ticket = false)
      (hc : x.closed = true) : Rules s x (.error .closed)
  | refused {d e} (hx : x.prepared = .ok d) (ht : s.isCancelled x.ticket = false)
      (hc : x.closed = false) (hd : (s.dial x d).2 = .error e) :
      Rules s x (.error (.ofOs .connect e))
  | made {d} (hx : x.prepared = .ok d) (ht : s.isCancelled x.ticket = false)
      (hc : x.closed = false) (hd : (s.dial x d).2 = .ok true) : Rules s x (.ok s.connections.length)

/-- An attempt that has been told to stop, in one way or the other. -/
def Sockets.Halts (s : Sockets) (x : Attempt) : Prop :=
  s.isCancelled x.ticket = true ∨ x.closed = true

/-- What the receiver is told of an outcome: just that, unless it is a connection that comes too
late for a shared socket. -/
def Attempt.Tells (x : Attempt) (o o' : Outcome) : Prop :=
  o' = o ∨ x.slot.isSome ∧ (∃ k, o = .ok k) ∧ o' = .error .closed

/-- The attempt has come to an outcome, which is on its way, has been lost on it, or has arrived. -/
inductive Attempt.Comes (x : Attempt) (o : Outcome) : Prop where
  | decided (h : x.progress = .decided o)
  | lost (h : x.progress = .lost)
  | delivered {o'} (h : x.progress = .delivered o') (ho : x.Tells o o')

/-- How far an attempt is after a step in the state `s`. Only one that is open and is polled is
decided, as the branches say. -/
inductive Sockets.Fares (s : Sockets) (polled : Prop) (x : Attempt) : Progress → Prop where
  | stays (h : x.progress.isOpen = true → ¬polled) : Fares s polled x x.progress
  | waits (hpolled : polled) (hopen : x.progress.isOpen = true) (h : ∀ o, ¬s.Rules x o) :
      Fares s polled x .waiting
  | decides {o p} (hpolled : polled) (hopen : x.progress.isOpen = true) (h : s.Rules x o)
      (hp : p = .decided o ∨ p = .lost) : Fares s polled x p
  | delivers {o o'} (h : x.progress = .decided o) (ho : x.Tells o o') :
      Fares s polled x (.delivered o')
  | loses {o} (h : x.progress = .decided o) : Fares s polled x .lost

namespace Sockets

variable {s s' : Sockets} {x x' : Attempt} {a : Nat} {o o' : Outcome}

/-- The branches agree. -/
theorem Rules.unique (h : s.Rules x o) (h' : s.Rules x o') : o = o' := by
  cases h <;> cases h' <;> simp_all

/-- What comes of trying an attempt. -/
inductive Judges (s : Sockets) (x : Attempt) (a : Nat) : Sockets × Option Outcome → Prop where
  | waits {system} (h : ∀ o, ¬s.Rules x o) :
      Judges s x a ({ s with system }.setProgress a .waiting, none)
  | decides {o system connections} (h : s.Rules x o) :
      Judges s x a ({ s with system, connections }, some o)

theorem attempt_judges (s : Sockets) (x : Attempt) (a : Nat) : s.Judges x a (s.attempt x a) := by
  unfold attempt
  split
  · exact .decides (.unprepared ‹_›)
  · rename_i d hx
    split
    · exact .decides (.cancelled hx ‹_›)
    · rename_i ht
      split
      · exact .decides (.closed hx (by simpa using ht) ‹_›)
      · rename_i hc
        rw [Bool.not_eq_true] at ht hc
        split <;> rename_i hdial <;> replace hdial := congrArg Prod.snd hdial
        · exact .decides (.refused hx ht hc hdial)
        · refine .waits fun o ho => ?_
          cases ho <;> simp_all
        · exact .decides (.made hx ht hc hdial)

/-- An attempt that is not open is left alone. -/
theorem pursueTurn_of_not_open
    (h : ∀ x, s.attempts[a]? = some x → x.progress.isOpen = false) :
    s.pursueTurn a = { state := s } := by
  unfold pursueTurn pursue
  cases hx : s.attempts[a]? with
  | none => rfl
  | some x =>
    have hopen := h x hx
    cases hp : x.progress <;> simp_all [Progress.isOpen]

theorem pursueTurn_of_open (hx : s.attempts[a]? = some x) (hopen : x.progress.isOpen = true) :
    s.pursueTurn a = match s.attempt x a with
      | (t, none) => { state := t }
      | (t, some o) =>
        { state := t.setProgress a (.decided o), next := .perform x.context (.conclude a) [] } := by
  unfold pursueTurn pursue
  rw [hx]
  dsimp only
  cases hp : x.progress with
  | fresh | waiting => rcases s.attempt x a with ⟨t, _ | o⟩ <;> rfl
  | _ => simp [hp, Progress.isOpen] at hopen

/-! ### The system -/

/-- The same sockets over another system. -/
def onSystem (s : Sockets) (system : System) : Sockets := { s with system }

/-- Polling the attempt leaves the system alone, and comes to the same over any other. -/
def Apart (s : Sockets) (a : Nat) : Prop :=
  ∀ system, (s.onSystem system).poll (.attempt a) =
    { s.poll (.attempt a) with state := (s.poll (.attempt a)).state.onSystem system }

/-- An attempt that has been told to stop, or could not be prepared, fails over any system. -/
theorem Halts.attempt_onSystem (h : s.Halts x) (a : Nat) :
    ∃ f, ∀ system, (s.onSystem system).attempt x a = (s.onSystem system, some (.error f)) := by
  have hticket (system : System) :
      (s.onSystem system).isCancelled x.ticket = s.isCancelled x.ticket :=
    rfl
  cases hx : x.prepared with
  | error f => exact ⟨f, fun system => by simp [attempt, hx]⟩
  | ok d =>
    cases ht : s.isCancelled x.ticket with
    | true => exact ⟨.cancelled, fun system => by simp [attempt, hx, hticket, ht]⟩
    | false =>
      have hc := h.resolve_left (by simp [ht])
      exact ⟨.closed, fun system => by simp [attempt, hx, hticket, ht, hc]⟩

/-- The system is not asked for a link by an attempt that has been told to stop. -/
theorem apart_of_halts (h : ∀ x, s.attempts[a]? = some x → x.progress.isOpen = true → s.Halts x) :
    s.Apart a := by
  intro system
  show (s.onSystem system).pursueTurn a =
    { s.pursueTurn a with state := (s.pursueTurn a).state.onSystem system }
  by_cases hopen : ∃ x, s.attempts[a]? = some x ∧ x.progress.isOpen = true
  · obtain ⟨x, hx, hopen⟩ := hopen
    obtain ⟨f, hf⟩ := (h x hx hopen).attempt_onSystem a
    rw [pursueTurn_of_open (s := s.onSystem system) hx hopen, pursueTurn_of_open hx hopen, hf,
      show s.attempt x a = _ from hf s.system]
    rfl
  · have hclosed : ∀ x, s.attempts[a]? = some x → x.progress.isOpen = false := fun x hx =>
      Bool.eq_false_iff.mpr fun ho => hopen ⟨x, hx, ho⟩
    rw [pursueTurn_of_not_open (s := s.onSystem system) hclosed, pursueTurn_of_not_open hclosed]

end Sockets

/-! ### The outcome -/

section Outcome

variable {s : Sockets} {polled : Prop} {x x' : Attempt} {o : Outcome}

theorem Attempt.Comes.not_open (h : x.Comes o) : x.progress.isOpen = false := by
  cases h with
  | decided h | lost h | delivered h => rw [h]; rfl

/-- Whoever is polled with a branch ready is not open afterwards. -/
theorem Sockets.Fares.not_open {p : Progress} (h : s.Fares polled x p) (hpolled : polled)
    (hrules : s.Rules x o) : p.isOpen = false := by
  cases h with
  | stays hstays => exact Bool.eq_false_iff.mpr fun hopen => hstays hopen hpolled
  | waits _ _ hnone => exact absurd hrules (hnone o)
  | decides _ _ _ hp => rcases hp with rfl | rfl <;> rfl
  | delivers | loses => rfl

/-- An outcome that has been decided stays. -/
theorem Attempt.Comes.fares (h : x.Comes o) (hsame : x.Same x')
    (hfares : s.Fares polled x x'.progress) : x'.Comes o := by
  have hopen := h.not_open
  have tells {o₁ o₂ : Outcome} (ho : x.Tells o₁ o₂) : x'.Tells o₁ o₂ := by
    rwa [Tells, hsame.slot]
  generalize hp : x'.progress = p at hfares
  cases hfares with
  | stays =>
    cases h with
    | decided h => exact .decided (hp.trans h)
    | lost h => exact .lost (hp.trans h)
    | delivered h ho => exact .delivered (hp.trans h) (tells ho)
  | waits _ ho => exact absurd ho (by simp [hopen])
  | decides _ ho => exact absurd ho (by simp [hopen])
  | delivers h' ho =>
    cases h with
    | decided h =>
      obtain rfl := Progress.decided.inj (h'.symm.trans h)
      exact .delivered hp (tells ho)
    | lost h => exact nomatch h'.symm.trans h
    | delivered h => exact nomatch h'.symm.trans h
  | loses => exact .lost hp

end Outcome

/-! ### Steps -/

/-- What an attempt is made with: a new descriptor as planned, or the one that has been bound. -/
inductive Sockets.Prepares (s : Sockets) (target : Address) (type : SocketType) :
    Stage → Except Fault Nat → Prop where
  | made (p : Plan) :
      Prepares s target type (.unbound p) (p.prepare s.system target.family type).2
  | kept (b : Bound) : Prepares s target type (.bound b) (opened b.descriptor)

/-- The attempt `a` is begun by a call to connect a socket. -/
inductive Begins (q : Moment component) (a : Nat) (x : Attempt) : Prop where
  | intro {view id target type ticket context h}
      (cause : q.cause = .exec view (.connect id target type ticket context))
      (number : q.state.attempts.length = a)
      (handle : q.state.handle? id = some h)
      (address : q.state.resolve target = some x.target)
      (prepared : q.state.Prepares x.target type (q.state.stageOf h) x.prepared)
      (ticket : x.ticket = ticket.bind fun name => q.state.tickets.sources.lookup name)
      (context : view.context? context = some x.context)
      (slot : x.slot = h.slot?)

theorem Begins.same {q : Moment component} {a : Nat} {x x' : Attempt} (h : Begins q a x)
    (hx : x.Same x') : Begins q a x' := by
  obtain ⟨hcause, hnumber, hhandle, haddress, hprepared, hticket, hcontext, hslot⟩ := h
  refine ⟨hcause, hnumber, hhandle, ?_, ?_, hx.ticket.trans hticket, ?_, hx.slot.trans hslot⟩
  · rwa [hx.target]
  · rwa [hx.target, hx.prepared]
  · rwa [hx.context]

/-- The attempt `a` is taken up. -/
def Polls (q : Moment component) (a : Nat) : Prop := q.cause = .poll (.attempt a)

/-- What becomes of the attempts in a step with these moments. -/
structure Sockets.Furthers (s s' : Sockets) (moments : List (Moment component)) : Prop where
  kept : ∀ (a : Nat) x, s.attempts[a]? = some x → ∃ x', s'.attempts[a]? = some x' ∧ x.Same x' ∧
    s.Fares (∃ q ∈ moments, Polls q a) x x'.progress
  begun : ∀ (a : Nat) x', s.attempts[a]? = none → s'.attempts[a]? = some x' →
    x'.progress = .fresh ∧ ∃ q ∈ moments, Begins q a x'
  cancelled : ∀ t, s.isCancelled t = true → s'.isCancelled t = true

namespace Sockets

variable {s s' s'' : Sockets} {moments : List (Moment component)}

/-- In a step in which no attempt is polled that is open, those that abide stay. -/
theorem Abides.furthers (h : s.Abides s') (hpolls : ∀ a x, s.attempts[a]? = some x →
    x.progress.isOpen = true → ∀ q ∈ moments, ¬Polls q a) : s.Furthers s' moments where
  kept a x hx := by
    obtain ⟨x', hx', hsame, hp⟩ := h.attempts a x hx
    exact ⟨x', hx', hsame, hp ▸ .stays fun hopen ⟨q, hq, hpoll⟩ => hpolls a x hx hopen q hq hpoll⟩
  begun a x' hx hx' := by
    have hle := List.getElem?_eq_none_iff.mp hx
    rw [← h.length, ← List.getElem?_eq_none_iff, hx'] at hle
    cases hle
  cancelled := h.cancelled

theorem Furthers.abides (h : s.Furthers s' moments) (h' : s'.Abides s'') :
    s.Furthers s'' moments where
  kept a x hx := by
    obtain ⟨x', hx', hsame, hfares⟩ := h.kept a x hx
    obtain ⟨x'', hx'', hsame', hp⟩ := h'.attempts a x' hx'
    exact ⟨x'', hx'', hsame.trans hsame', hp ▸ hfares⟩
  begun a x'' hx hx'' := by
    cases hx' : s'.attempts[a]? with
    | none =>
      have hle := List.getElem?_eq_none_iff.mp hx'
      rw [← h'.length, ← List.getElem?_eq_none_iff, hx''] at hle
      cases hle
    | some x' =>
      obtain ⟨hp, q, hq, hbegins⟩ := h.begun a x' hx hx'
      obtain ⟨y, hy, hsame, hp'⟩ := h'.attempts a x' hx'
      obtain rfl := Option.some.inj (hx''.symm.trans hy)
      exact ⟨hp'.trans hp, q, hq, hbegins.same hsame⟩
  cancelled t ht := h'.cancelled t (h.cancelled t ht)

/-- One attempt comes further, and the others stay. -/
theorem Furthers.of_progress {a : Nat} {p : Progress} {x : Attempt} (hx : s.attempts[a]? = some x)
    (hattempts : s'.attempts = (s.setProgress a p).attempts) (htickets : s'.tickets = s.tickets)
    (hfares : s.Fares (∃ q ∈ moments, Polls q a) x p)
    (hothers : ∀ b, b ≠ a → ∀ q ∈ moments, ¬Polls q b) : s.Furthers s' moments where
  kept b y hy := by
    rw [hattempts, setProgress, List.getElem?_modify, hy]
    by_cases hb : a = b
    · subst hb
      obtain rfl := Option.some.inj (hx.symm.trans hy)
      exact ⟨{ x with progress := p }, by simp, ⟨rfl, rfl, rfl, rfl, rfl, rfl, id⟩, hfares⟩
    · refine ⟨y, by simp [hb], .refl y, .stays ?_⟩
      rintro - ⟨q, hq, hpoll⟩
      exact hothers b (fun he => hb he.symm) q hq hpoll
  begun b x' hb hx' := by
    have hle := List.getElem?_eq_none_iff.mp hb
    have hlen : s'.attempts.length = s.attempts.length := by
      rw [hattempts, setProgress, List.length_modify]
    rw [← hlen, ← List.getElem?_eq_none_iff, hx'] at hle
    cases hle
  cancelled t ht := by
    unfold isCancelled at ht ⊢
    rwa [htickets]

end Sockets

/-! ### Calls to connect -/

section Calls

variable {s : Sockets}

open Sockets (Abides Furthers)

/-- A new attempt is begun. -/
theorem startAttempt_furthers (system : System) {id : String} {h : Handle} {x : Attempt}
    (hx : x.progress = .fresh) {q : Moment component} (hq : Begins q s.attempts.length x)
    (hpolls : ∀ a, ¬Polls q a) :
    s.Furthers ((s.onSystem system).startAttempt id h x).state [q] := by
  have hattempts :
      ((s.onSystem system).startAttempt id h x).state.attempts = s.attempts ++ [x] := by
    cases h <;> rfl
  have htickets : ((s.onSystem system).startAttempt id h x).state.tickets = s.tickets := by
    cases h <;> rfl
  constructor
  · intro a y hy
    refine ⟨y, ?_, .refl y, .stays fun _ ⟨p, hp, hpoll⟩ => ?_⟩
    · rw [hattempts]
      exact (List.getElem?_append_left (List.getElem?_eq_some_iff.mp hy).1).trans hy
    · obtain rfl := List.mem_singleton.mp hp
      exact hpolls a hpoll
  · intro a y hnone hy
    rw [hattempts, List.getElem?_append_right (List.getElem?_eq_none_iff.mp hnone)] at hy
    obtain ⟨hlt, rfl⟩ := List.getElem?_eq_some_iff.mp hy
    have hle := List.getElem?_eq_none_iff.mp hnone
    rw [List.length_singleton] at hlt
    obtain rfl : a = s.attempts.length := by omega
    simpa using ⟨hx, hq⟩
  · intro t ht
    unfold Sockets.isCancelled at ht ⊢
    rwa [htickets]

theorem connect_furthers {view : View} {id : String} {target : Target} {type : SocketType}
    {ticket : Option String} {context : String} {h : Handle} {address : Address} {c : Context}
    {k : Option Nat} (hh : s.handle? id = some h) (ha : s.resolve target = some address)
    (hc : view.context? context = some c)
    (hk : k = ticket.bind fun name => s.tickets.sources.lookup name) :
    s.Furthers (s.connect id h address type k c).state
      [⟨s, .exec view (.connect id target type ticket context)⟩] := by
  have begins {x : Attempt} (hprepared : s.Prepares address type (s.stageOf h) x.prepared)
      (htarget : x.target = address) (hticket : x.ticket = k) (hcontext : x.context = c)
      (hslot : x.slot = h.slot?) :
      Begins ⟨s, .exec view (.connect id target type ticket context)⟩ s.attempts.length x :=
    ⟨rfl, rfl, hh, htarget ▸ ha, htarget ▸ hprepared, hticket.trans hk, hcontext ▸ hc, hslot⟩
  unfold Sockets.connect
  split
  · rename_i p hst
    have made : s.Prepares address type (s.stageOf h)
        (p.prepare s.system address.family type).2 := hst ▸ .made p
    exact startAttempt_furthers _ rfl (begins made rfl rfl rfl rfl) nofun
  · rename_i b hst
    have kept : s.Prepares address type (s.stageOf h) (opened b.descriptor) := hst ▸ .kept b
    exact startAttempt_furthers s.system rfl (begins kept rfl rfl rfl rfl) nofun
  · exact (Abides.refl s).furthers (by simp [Polls])

theorem run_connect_furthers (s : Sockets) (view : View) (id : String) (target : Target)
    (type : SocketType) (ticket : Option String) (context : String) :
    s.Furthers (s.run view (.connect id target type ticket context)).state
      [⟨s, .exec view (.connect id target type ticket context)⟩] := by
  have same : s.Furthers s [⟨s, .exec view (.connect id target type ticket context)⟩] :=
    (Abides.refl s).furthers (by simp [Polls])
  simp only [Sockets.run, Sockets.withAddress, Sockets.withHandle, Sockets.withContext]
  split
  · exact same
  · rename_i address ha
    split
    · exact same
    · rename_i h hh
      split
      · exact same
      · rename_i c hc
        cases ticket with
        | none => exact connect_furthers hh ha hc rfl
        | some name =>
          simp only [Sockets.withTicket]
          split
          · exact same
          · rename_i t ht
            exact connect_furthers hh ha hc ht.symm

end Calls

/-! ### Steps -/

section Steps

variable {s : Sockets} {c c' : Config component}

open Sockets (Abides Furthers)

theorem tickets_settle (s : Sockets) (i : Nat) (o : Outcome) :
    (s.settle i o).1.tickets = s.tickets := by
  unfold Sockets.settle
  split
  · rfl
  · rfl
  · obtain ⟨hub, connections, system, h, -, -⟩ := s.closeConnection_eq ‹Nat›
    dsimp only
    rw [h]
  · rfl

/-- What a slot makes of an outcome is what the receiver is told. -/
theorem tells_settle (s : Sockets) {i : Nat} {x : Attempt} (hx : x.slot = some i) (o : Outcome) :
    x.Tells o (s.settle i o).2.1 := by
  by_cases h : ∃ a, s.slots[i]? = some (.connecting a)
  · obtain ⟨a, h⟩ := h
    rw [settle_waiting s h]
    cases o <;> exact .inl rfl
  · rw [settle_late s fun a ha => h ⟨a, ha⟩]
    cases o with
    | ok k => exact .inr ⟨by simp [hx], ⟨k, rfl⟩, rfl⟩
    | error f => exact .inl rfl

/-- An outcome on its way arrives. -/
theorem conclude_furthers {a : Nat} {x : Attempt} {o : Outcome} (hx : s.attempts[a]? = some x)
    (ho : x.progress = .decided o) {moments : List (Moment component)}
    (hpolls : ∀ b, ∀ q ∈ moments, ¬Polls q b) : s.Furthers (s.conclude a).1 moments := by
  cases hslot : x.slot with
  | none =>
    have h : (s.conclude a).1 = s.setProgress a (.delivered o) := by
      simp [Sockets.conclude, hx, ho, hslot]
    rw [h]
    exact .of_progress hx rfl rfl (.delivers ho (.inl rfl)) fun b _ => hpolls b
  | some i =>
    rw [conclude_eq s hx ho hslot]
    refine .of_progress hx ?_ (tickets_settle s i o) (.delivers ho (tells_settle s hslot o))
      fun b _ => hpolls b
    simp only [Sockets.setProgress, attempts_settle]

/-- An attempt that is taken up waits, or is decided as the branches say. -/
theorem pursueTurn_furthers {a : Nat} {d : Config component}
    (h : d.Takes (Sockets.tidy (s.pursueTurn a)) c') (hn : d.next = none)
    {moments : List (Moment component)} (hpoll : ∃ q ∈ moments, Polls q a)
    (hothers : ∀ b, b ≠ a → ∀ q ∈ moments, ¬Polls q b) : s.Furthers c'.state moments := by
  by_cases hopen : ∃ x, s.attempts[a]? = some x ∧ x.progress.isOpen = true
  · obtain ⟨x, hx, hopen⟩ := hopen
    rw [Sockets.pursueTurn_of_open hx hopen] at h
    have decided {t : Sockets} {o : Outcome} (hattempts : t.attempts = s.attempts)
        (htickets : t.tickets = s.tickets) (ho : s.Rules x o)
        (h : d.Takes (Sockets.tidy
          { state := t.setProgress a (.decided o)
            next := .perform x.context (.conclude a) [] }) c') : s.Furthers c'.state moments := by
      have hnow : s.Furthers (t.setProgress a (.decided o)).reap moments :=
        .of_progress hx (congrArg (List.modify · a _) hattempts) htickets
          (.decides hpoll hopen ho (.inl rfl)) hothers
      rcases takes_cases h hn with ⟨-, hs⟩ | ⟨e, w, k, hnext, -, hs | hs⟩
      · exact hs ▸ hnow
      · exact hs ▸ hnow
      · -- The context does not take the outcome.
        obtain rfl : Frame.conclude a = w := (Next.perform.inj hnext).2.1
        rw [hs]
        refine .of_progress hx ?_ htickets (.decides hpoll hopen ho (.inr rfl)) hothers
        show ((t.attempts.modify a _).modify a _) = s.attempts.modify a _
        rw [List.modify_modify_eq, hattempts]
        rfl
    have hjudges := s.attempt_judges x a
    generalize s.attempt x a = result at h hjudges
    cases hjudges with
    | @waits system hnone =>
      have hwaits : s.Furthers ((s.onSystem system).setProgress a .waiting) moments :=
        .of_progress hx rfl rfl (.waits hpoll hopen hnone) hothers
      exact hwaits.abides (abides_takes h hn fun _ => List.not_mem_nil)
    | @decides o system connections hrules =>
      exact decided (t := { s with system, connections }) rfl rfl hrules h
  · have hclosed : ∀ x, s.attempts[a]? = some x → x.progress.isOpen = false := fun x hx =>
      Bool.eq_false_iff.mpr fun ho => hopen ⟨x, hx, ho⟩
    rw [Sockets.pursueTurn_of_not_open hclosed] at h
    have habides : s.Abides c'.state := abides_takes h hn fun _ => List.not_mem_nil
    refine habides.furthers fun b y hy hb q hq hpoll => hothers b ?_ q hq hpoll
    rintro rfl
    exact hopen ⟨y, hy, hb⟩

theorem poll_quiet (s : Sockets) {t : Task} (ht : ∀ a, t ≠ .attempt a) : Quiet (s.poll t) := by
  cases t with
  | request r => exact (serve_quietly s r).quiet
  | attempt a => exact absurd rfl (ht a)
  | acceptor c => exact (attendTurn_quietly s c).quiet
  | alarm i => exact fun _ => List.not_mem_nil

/-- Every step takes the attempts further. An outcome on its way has been decided. -/
theorem step_furthers {cause : Option (Dispatch.Cause component)} (h : c.Step cause c')
    (hpending : ∀ a, .conclude a ∈ todo c → ∃ x o, c.state.attempts[a]? = some x ∧
      x.progress = .decided o) : c.state.Furthers c'.state (c.moment cause) := by
  have abides {t : Sockets} (ht : c.state.Abides t)
      (hpolls : ∀ a, cause ≠ some (.poll (.attempt a))) :
      c.state.Furthers t (c.moment cause) := by
    refine ht.furthers fun a _ _ _ q hq hpoll => hpolls a ?_
    cases cause with
    | none => cases hq
    | some cause =>
      obtain rfl := List.mem_singleton.mp hq
      exact congrArg some hpoll
  cases h with
  | still hf => exact abides (.of_eq (by rw [hf.state_eq]) (by rw [hf.state_eq])) (by simp)
  | @exec view act _ hn ht =>
    obtain ⟨r, hr⟩ := (run_moving c.state view act).reply
    have hquiet : Quiet (c.state.run view act) := by
      intro a
      simp [hr, Next.left]
    have htakes := abides_takes ht hn hquiet
    by_cases hact : ∃ id target type ticket context, act = .connect id target type ticket context
    · obtain ⟨id, target, type, ticket, context, rfl⟩ := hact
      exact (run_connect_furthers c.state view id target type ticket context).abides htakes
    · have habides : c.state.Abides (c.state.run view act).state :=
        run_abides c.state view fun id target type ticket context ha =>
          hact ⟨id, target, type, ticket, context, ha⟩
      exact abides (habides.trans htakes) (by simp)
  | @resume f _ hn ht =>
    by_cases hf : ∃ a, f = .conclude a
    · obtain ⟨a, rfl⟩ := hf
      obtain ⟨x, o, hx, ho⟩ := hpending a (by
        rw [show todo c = _ from Config.frames_next hn]
        exact List.mem_cons_self)
      have htakes : (c.state.conclude a).1.Abides c'.state :=
        abides_takes ht rfl fun _ => List.not_mem_nil
      exact (conclude_furthers hx ho (by simp [Config.moment, Polls])).abides htakes
    · have hf : ∀ a, f ≠ .conclude a := fun a ha => hf ⟨a, ha⟩
      have htakes := abides_takes ht rfl (resume_quietly c.state hf).quiet
      exact abides ((resume_abides c.state hf).trans htakes) (by simp)
  | @unwind f k _ hn hk hd =>
    have hreap (t : Sockets) : t.Abides t.reap := .of_eq rfl rfl
    rw [← hd]
    by_cases hf : ∃ a, f = .conclude a
    · obtain ⟨a, rfl⟩ := hf
      obtain ⟨x, o, hx, ho⟩ := hpending a (by
        rw [show todo c = _ from Config.frames_pop hn hk]
        exact List.mem_cons_self)
      exact .of_progress hx rfl rfl (.loses ho) (by simp [Config.moment, Polls])
    · have hf : ∀ a, f ≠ .conclude a := fun a ha => hf ⟨a, ha⟩
      exact abides ((unwind_abides c.state hf).trans (hreap _)) (by simp)
  | @poll t ts _ hn hk hr ht =>
    by_cases hta : ∃ a, t = .attempt a
    · obtain ⟨a, rfl⟩ := hta
      refine pursueTurn_furthers ht hn ⟨_, List.mem_singleton_self _, rfl⟩ fun b hb q hq hpoll => ?_
      obtain rfl := List.mem_singleton.mp hq
      exact hb (Task.attempt.inj (Dispatch.Cause.poll.inj hpoll)).symm
    · have hta : ∀ a, t ≠ .attempt a := fun a ha => hta ⟨a, ha⟩
      have htakes := abides_takes ht hn (poll_quiet c.state hta)
      refine abides ((poll_abides c.state hta).trans htakes) fun a h => ?_
      exact hta a (Dispatch.Cause.poll.inj (Option.some.inj h))
  | tick hn => exact abides (.of_eq rfl rfl) (by simp)
  | begin hn hv => exact abides (.refl _) (by simp)
  | opened hn hf => exact abides (.of_eq (by rw [hf.state_eq]) (by rw [hf.state_eq])) (by simp)

end Steps

end Conduit.Socket
