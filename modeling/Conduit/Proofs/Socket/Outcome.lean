import Conduit.Proofs.Socket.Hangup
import Conduit.Proofs.Socket.Release
import Conduit.Proofs.Socket.Verdict

/-!
The outcome of connecting. It is decided when the attempt is first taken up with one of its branches
ready, by the first of them; it is told once at most, and nothing that happens later changes it. The
system is never asked for a link if the attempt was told to stop before it first ran, and a
descriptor that has not been linked is closed.
-/

namespace Conduit.Socket

open Dispatch
open Kernel (System Whim)

/-! ### The contract -/

/-- The attempt `a` is taken up, and is decided then. -/
structure Decides (q : Moment component) (a : Nat) (w : Attempt) (o : Outcome) : Prop where
  polled : Polls q a
  attempt : q.state.attempts[a]? = some w
  undecided : w.progress.isOpen = true
  rules : q.state.Rules w o

/-- The attempt `a` is decided at the moment `q`, and not before. -/
def DecidesFirst (past : List (Moment component)) (q : Moment component) (a : Nat) (w : Attempt)
    (o : Outcome) : Prop :=
  ∃ past₁ past₂, past = past₁ ++ q :: past₂ ∧ Decides q a w o ∧
    ∀ p ∈ past₁, ∀ w' o', ¬Decides p a w' o'

/-- The attempt `a` has not run yet and has been told to stop. -/
def Sockets.Forestalls (s : Sockets) (a : Nat) : Prop :=
  ∃ x, s.attempts[a]? = some x ∧ x.progress = .fresh ∧ s.Halts x

/-- Nobody has the descriptor `d`, and it is closed. -/
structure Sockets.Gone (s : Sockets) (d : Nat) : Prop where
  unclaimed : ∀ c, ¬s.Claims c d
  shut : s.system.isOpen d = false

/-- What is promised of an attempt that has come to the outcome `o`. -/
structure SettledContract {m : Machine component} (x : Execution m) (a : Nat) (z : Attempt)
    (o : Outcome) : Prop where
  /-- It was decided when it was first taken up with a branch ready, by the first such branch. -/
  first : ∃ q w, DecidesFirst x.past q a w o ∧ w.Same z
  /-- Nothing changes the outcome. -/
  fixed : ∀ y : Execution x.machine,
    ∃ z', y.machine.state.attempts[a]? = some z' ∧ z.Same z' ∧ z'.Comes o
  /-- A descriptor that has not been linked is closed, and stays so. -/
  released : ∀ f d, o = .error f → z.prepared = .ok d →
    ∀ y : Execution x.machine, y.machine.state.Gone d
  /-- A connection on its way to the receiver, or with it, is only closed with a socket that stands
  for it, or when it comes too late for the shared socket that the attempt was made for. -/
  kept : ∀ k, z.progress = .decided (.ok k) ∨ z.progress = .delivered (.ok k) →
    ¬x.machine.state.Shut k → ∀ y : Execution x.machine, y.machine.state.Shut k → ∃ q ∈ y.past,
    (∃ view id, q.cause = .exec view (.close id) ∧ q.state.connectionOf? id = some k) ∨
      z.slot.isSome ∧ q.cause = .resume (.conclude a) ∧ lateConnection? q.state a = some k

/-- What is promised of an attempt to connect, whatever happens to it. -/
structure OutcomeContract {m : Machine component} (x : Execution m) (a : Nat) (z : Attempt) :
    Prop where
  /-- It was begun by a call, with what had been prepared for it. -/
  begun : ∃ q ∈ x.past, Begins q a z
  /-- While it is open, no branch has been ready when it was taken up. -/
  undecided : z.progress.isOpen = true → ∀ q ∈ x.past, ∀ w o, ¬Decides q a w o
  settled : z.progress.isOpen = false → ∃ o, z.Comes o ∧ SettledContract x a z o
  /-- The failure to prepare it is what it comes to. -/
  unprepared : ∀ f, z.prepared = .error f → z.progress.isOpen = false → z.Comes (.error f)
  /-- The system is not asked for a link if the attempt was told to stop before it first ran. -/
  forestalled : (∃ q ∈ x.past, q.state.Forestalls a) → ∀ q ∈ x.past, Polls q a → q.state.Apart a
  /-- The handler is given to its context when the attempt is decided, and is run once at most. -/
  told : tale a (deeds x.past) = .asked a :: z.progress.told a z.context
  /-- When nothing is left to do, an attempt is open only as long as no branch is ready. -/
  patient : x.machine.advance? = none → z.progress.isOpen = true → ∀ o, ¬x.machine.state.Rules z o

/-! ### Stories -/

/-- The story of every attempt has been told since it was asked for. -/
def Desk.Storied (d : Desk) (h : List Deed) : Prop :=
  ∀ (a : Nat) x, d.courses[a]? = some x →
    ∃ h₁ h₂, h = h₁ ++ h₂ ∧ tale a h₁ = [.asked a] ∧ d.Story a x h₂

namespace Desk

variable {d d' : Desk} {h ds : List Deed}

/-- The story of a new attempt begins. -/
theorem begun_story (hd : d.Placed h) {x : Course} (hx : d'.courses = d.courses ++ [x])
    (hfresh : x.progress = .fresh) (hpending : d'.pending = d.pending)
    (hslot : ∀ i, x.slot = some i → d'.slots[i]? = some (.connecting d.courses.length)) :
    ∃ h₁ h₂, h ++ [.asked d.courses.length] = h₁ ++ h₂ ∧
      tale d.courses.length h₁ = [.asked d.courses.length] ∧ d'.Story d.courses.length x h₂ := by
  refine ⟨_, [], (List.append_nil _).symm, ?_, ?_, ?_, ?_, ?_, fun _ i hi => ?_⟩
  · rw [tale_append, hd.untold _ (Nat.le_refl _)]
    simp [tale, Deed.attempt?]
  · simp [hx]
  · rw [hfresh]
    rfl
  · rw [hpending, hd.unborn _ (Nat.le_refl _)]
    exact Nat.zero_le _
  · simp [hfresh]
  · simpa using hslot i hi

theorem Storied.move (hs : d.Storied h) (hd : d.Placed h) (m : d.Move ds d') :
    d'.Storied (h ++ ds) := by
  intro a x' hx'
  rcases Nat.lt_or_ge a d.courses.length with hlt | hge
  · obtain ⟨h₁, h₂, rfl, htale, hstory⟩ := hs a _ (List.getElem?_eq_getElem hlt)
    obtain ⟨x, -, -, hx⟩ := hstory.move hd m
    obtain rfl := Option.some.inj (hx'.symm.trans hx.course)
    exact ⟨h₁, h₂ ++ ds, List.append_assoc .., htale, hx⟩
  · have hlen := (List.getElem?_eq_some_iff.mp hx').1
    have grown {x : Course} (hx : d'.courses = d.courses ++ [x]) :
        a = d.courses.length ∧ x' = x := by
      rw [hx, List.length_append, List.length_singleton] at hlen
      obtain rfl : a = d.courses.length := by omega
      simp only [hx, List.getElem?_concat_length, Option.some.injEq] at hx'
      exact ⟨rfl, hx'.symm⟩
    cases m with
    | @connect i st c hi hst =>
      obtain ⟨rfl, rfl⟩ := grown rfl
      refine begun_story hd rfl rfl rfl fun j hj => ?_
      obtain rfl := Option.some.inj hj
      exact List.getElem?_set_self (List.getElem?_eq_some_iff.mp hi).1
    | connectSole c =>
      obtain ⟨rfl, rfl⟩ := grown rfl
      exact begun_story hd rfl rfl rfl nofun
    | _ =>
      -- No attempt is begun.
      exact absurd hlen (by simp [took, hge])

end Desk

/-! ### What the past says -/

/-- How far the attempt `a` is in the state `s`, after that past. -/
structure Attempt.Follows (x : Attempt) (a : Nat) (s : Sockets) (past : List (Moment component)) :
    Prop where
  begun : ∃ q ∈ past, Begins q a x
  /-- An attempt that has run is not fresh any more. -/
  fresh : x.progress = .fresh → ∀ q ∈ past, Polls q a → q.state.attempts[a]? = none
  undecided : x.progress.isOpen = true → ∀ q ∈ past, ∀ w o, ¬Decides q a w o
  decided : x.progress.isOpen = false →
    ∃ q w o, DecidesFirst past q a w o ∧ w.Same x ∧ x.Comes o
  forestalled : (∃ q ∈ past, q.state.Forestalls a) →
    (x.progress.isOpen = true → s.Halts x) ∧ ∀ q ∈ past, Polls q a → q.state.Apart a

theorem DecidesFirst.append {past : List (Moment component)} {q : Moment component} {a : Nat}
    {w : Attempt} {o : Outcome} (h : DecidesFirst past q a w o) (later : List (Moment component)) :
    DecidesFirst (past ++ later) q a w o := by
  obtain ⟨past₁, past₂, rfl, hq, hfirst⟩ := h
  exact ⟨past₁, past₂ ++ later, by simp, hq, hfirst⟩

theorem DecidesFirst.mem {past : List (Moment component)} {q : Moment component} {a : Nat}
    {w : Attempt} {o : Outcome} (h : DecidesFirst past q a w o) : q ∈ past ∧ Decides q a w o := by
  obtain ⟨past₁, past₂, rfl, hq, -⟩ := h
  exact ⟨by simp, hq⟩

theorem Sockets.Halts.same {s s' : Sockets} {x x' : Attempt} (h : s.Halts x) (hsame : x.Same x')
    (hcancelled : ∀ t, s.isCancelled t = true → s'.isCancelled t = true) : s'.Halts x' :=
  h.imp (fun ht => hsame.ticket ▸ hcancelled _ ht) hsame.closed

/-- An attempt that is not there yet is not forestalled, and nothing is decided. -/
theorem not_decides_of_none {q : Moment component} {a : Nat} (h : q.state.attempts[a]? = none)
    (w : Attempt) (o : Outcome) : ¬Decides q a w o := fun hd => by
  rw [hd.attempt] at h
  cases h

theorem not_forestalls_of_none {s : Sockets} {a : Nat} (h : s.attempts[a]? = none) :
    ¬s.Forestalls a := by
  rintro ⟨x, hx, -⟩
  rw [hx] at h
  cases h

section Follows

variable {s s' : Sockets} {x x' : Attempt} {a : Nat} {past moments : List (Moment component)}

/-- An attempt that is still open was so before, and no branch was ready if it was taken up. -/
theorem Sockets.Fares.of_open {polled : Prop} {p : Progress} (h : s.Fares polled x p)
    (hopen : p.isOpen = true) :
    x.progress.isOpen = true ∧ (polled → ∀ o, ¬s.Rules x o) := by
  cases h with
  | stays hp => exact ⟨hopen, fun hpolled => absurd hpolled (hp hopen)⟩
  | waits _ ho hnone => exact ⟨ho, fun _ => hnone⟩
  | decides _ _ _ hp => rcases hp with rfl | rfl <;> cases hopen
  | delivers | loses => cases hopen

/-- An attempt that is still fresh has not been taken up. -/
theorem Sockets.Fares.of_fresh {polled : Prop} {p : Progress} (h : s.Fares polled x p)
    (hfresh : p = .fresh) : x.progress = .fresh ∧ ¬polled := by
  cases h with
  | stays hp => exact ⟨hfresh, hp (by rw [hfresh]; rfl)⟩
  | decides _ _ _ hd => rcases hd with rfl | rfl <;> cases hfresh
  | waits | delivers | loses => cases hfresh

/-- The moments of one step. -/
def Momentary (s : Sockets) (moments : List (Moment component)) : Prop :=
  moments = [] ∨ ∃ e, moments = [⟨s, e⟩]

theorem Momentary.state (h : Momentary s moments) {q : Moment component} (hq : q ∈ moments) :
    q.state = s := by
  rcases h with rfl | ⟨e, rfl⟩
  · cases hq
  · rw [List.mem_singleton.mp hq]

/-- An attempt that is decided in a step is decided by the first poll that finds a branch ready. -/
theorem Attempt.Follows.decides (h : x.Follows a s past) (hx : s.attempts[a]? = some x)
    (hsame : x.Same x') (hfares : s.Fares (∃ q ∈ moments, Polls q a) x x'.progress)
    (hmoments : Momentary s moments) (hwas : x.progress.isOpen = true)
    (hclosed : x'.progress.isOpen = false) :
    ∃ q w o, DecidesFirst (past ++ moments) q a w o ∧ w.Same x' ∧ x'.Comes o := by
  generalize hp : x'.progress = p at hfares
  cases hfares with
  | stays => rw [hp, hwas] at hclosed; cases hclosed
  | waits => rw [hp] at hclosed; cases hclosed
  | @decides o p hpolled hopen hrules hd =>
    obtain ⟨q, hq, hpoll⟩ := hpolled
    rcases hmoments with rfl | ⟨e, rfl⟩
    · cases hq
    · obtain rfl := List.mem_singleton.mp hq
      refine ⟨_, x, o, ⟨past, [], rfl, ⟨hpoll, hx, hopen, hrules⟩, h.undecided hopen⟩, hsame, ?_⟩
      rcases hd with rfl | rfl
      · exact .decided hp
      · exact .lost hp
  | delivers hdecided => rw [hdecided] at hwas; cases hwas
  | loses hdecided => rw [hdecided] at hwas; cases hwas

/-- Whoever has been told to stop before it first ran is told so for good, and was never further. -/
theorem Attempt.Follows.halts (h : x.Follows a s past) (hx : s.attempts[a]? = some x)
    (hmoments : Momentary s moments)
    (hforestalled : ∃ q ∈ past ++ moments, q.state.Forestalls a) :
    (x.progress.isOpen = true → s.Halts x) ∧ ∀ q ∈ past, Polls q a → q.state.Apart a := by
  obtain ⟨q, hq, hf⟩ := hforestalled
  rcases List.mem_append.mp hq with hq | hq
  · exact h.forestalled ⟨q, hq, hf⟩
  · rw [hmoments.state hq] at hf
    obtain ⟨y, hy, hfresh, hhalts⟩ := hf
    obtain rfl := Option.some.inj (hx.symm.trans hy)
    refine ⟨fun _ => hhalts, fun q hq hpoll => Sockets.apart_of_halts fun y hy => ?_⟩
    rw [h.fresh hfresh q hq hpoll] at hy
    cases hy

/-- A step takes an attempt further. -/
theorem Attempt.Follows.step (h : x.Follows a s past) (hx : s.attempts[a]? = some x)
    (hsame : x.Same x') (hfares : s.Fares (∃ q ∈ moments, Polls q a) x x'.progress)
    (hcancelled : ∀ t, s.isCancelled t = true → s'.isCancelled t = true)
    (hmoments : Momentary s moments) : x'.Follows a s' (past ++ moments) := by
  refine ⟨?_, fun hfresh q hq hpoll => ?_, fun hopen q hq w o hd => ?_, fun hclosed => ?_,
    fun hforestalled => ?_⟩
  · obtain ⟨q, hq, hbegins⟩ := h.begun
    exact ⟨q, List.mem_append_left _ hq, hbegins.same hsame⟩
  · obtain ⟨hwas, hpolled⟩ := hfares.of_fresh hfresh
    rcases List.mem_append.mp hq with hq | hq
    · exact h.fresh hwas q hq hpoll
    · exact absurd ⟨q, hq, hpoll⟩ hpolled
  · obtain ⟨hwas, hnone⟩ := hfares.of_open hopen
    rcases List.mem_append.mp hq with hq | hq
    · exact h.undecided hwas q hq w o hd
    · have hw := hd.attempt
      have hrules := hd.rules
      rw [hmoments.state hq] at hw hrules
      obtain rfl := Option.some.inj (hx.symm.trans hw)
      exact hnone ⟨q, hq, hd.polled⟩ o hrules
  · cases hwas : x.progress.isOpen with
    | false =>
      obtain ⟨q, w, o, hfirst, hw, hcomes⟩ := h.decided hwas
      exact ⟨q, w, o, hfirst.append _, hw.trans hsame, hcomes.fares hsame hfares⟩
    | true => exact h.decides hx hsame hfares hmoments hwas hclosed
  · obtain ⟨hnow, hpast⟩ := h.halts hx hmoments hforestalled
    refine ⟨fun hopen => (hnow (hfares.of_open hopen).1).same hsame hcancelled,
      fun q hq hpoll => ?_⟩
    rcases List.mem_append.mp hq with hq | hq
    · exact hpast q hq hpoll
    · rw [hmoments.state hq]
      refine Sockets.apart_of_halts fun y hy hopen => ?_
      obtain rfl := Option.some.inj (hx.symm.trans hy)
      exact hnow hopen

/-- A new attempt follows a past in which it was not there. -/
theorem Attempt.Follows.begin (hfresh : x.progress = .fresh) (hbegun : ∃ q ∈ past, Begins q a x)
    (hnone : ∀ q ∈ past, q.state.attempts[a]? = none) : x.Follows a s past := by
  refine ⟨hbegun, fun _ q hq _ => hnone q hq, fun _ q hq => not_decides_of_none (hnone q hq),
    fun hclosed => ?_, fun ⟨q, hq, hf⟩ => absurd hf (not_forestalls_of_none (hnone q hq))⟩
  rw [hfresh] at hclosed
  cases hclosed

end Follows

/-! ### Runs -/

/-- Everything that has happened to attempts is on record. -/
structure Chronicle (past : List (Moment component)) (c : Config component) : Prop where
  placed : (desk c).Placed (deeds past)
  storied : (desk c).Storied (deeds past)
  grown : ∀ q ∈ past, q.state.attempts.length ≤ c.state.attempts.length
  follows : ∀ (a : Nat) x, c.state.attempts[a]? = some x → x.Follows a c.state past

namespace Chronicle

variable {past : List (Moment component)} {c c' : Config component}

/-- An outcome on its way has been decided. -/
theorem decided (h : Chronicle past c) {a : Nat} (ha : .conclude a ∈ todo c) :
    ∃ x o, c.state.attempts[a]? = some x ∧ x.progress = .decided o := by
  have hpos : 0 < (desk c).pending a := List.count_pos_iff.mpr ha
  have hlt : a < (desk c).courses.length := by
    refine Nat.lt_of_not_le fun hle => ?_
    have := h.placed.unborn a hle
    omega
  obtain ⟨_, h₂, -, -, hstory⟩ := h.storied a _ (List.getElem?_eq_getElem hlt)
  obtain ⟨o, ho, -⟩ := hstory.decided hpos
  have hcourse := hstory.course
  simp only [desk, Sockets.desk, List.getElem?_map, Option.map_eq_some_iff] at hcourse
  obtain ⟨x, hx, hxc⟩ := hcourse
  exact ⟨x, o, hx, (congrArg Course.progress hxc).trans ho⟩

theorem step (h : Chronicle past c) {cause : Option (Dispatch.Cause component)}
    (hstep : c.Step cause c') : Chronicle (past ++ c.moment cause) c' := by
  have hfurthers := step_furthers hstep fun a => h.decided
  have hmove := step_move hstep
  have hgrown : c.state.attempts.length ≤ c'.state.attempts.length := by
    refine Nat.le_of_not_lt fun hlt => ?_
    obtain ⟨x', hx', -⟩ := hfurthers.kept _ _ (List.getElem?_eq_getElem hlt)
    exact Nat.lt_irrefl _ (List.getElem?_eq_some_iff.mp hx').1
  have hmoments : Momentary c.state (c.moment cause) := by
    cases cause with
    | none => exact .inl rfl
    | some e => exact .inr ⟨e, rfl⟩
  refine ⟨?_, ?_, fun q hq => ?_, fun a x' hx' => ?_⟩
  · rw [deeds_append]
    exact h.placed.move hmove
  · rw [deeds_append]
    exact h.storied.move h.placed hmove
  · rcases List.mem_append.mp hq with hq | hq
    · exact Nat.le_trans (h.grown q hq) hgrown
    · exact hmoments.state hq ▸ hgrown
  · cases hx : c.state.attempts[a]? with
    | some x =>
      obtain ⟨y, hy, hsame, hfares⟩ := hfurthers.kept a x hx
      obtain rfl := Option.some.inj (hx'.symm.trans hy)
      exact (h.follows a x hx).step hx hsame hfares hfurthers.cancelled hmoments
    | none =>
      obtain ⟨hfresh, q, hq, hbegins⟩ := hfurthers.begun a x' hx hx'
      refine .begin hfresh ⟨q, List.mem_append_right _ hq, hbegins⟩ fun p hp => ?_
      rw [List.getElem?_eq_none_iff] at hx ⊢
      rcases List.mem_append.mp hp with hp | hp
      · exact Nat.le_trans (h.grown p hp) hx
      · exact hmoments.state hp ▸ hx

end Chronicle

variable {m : Machine component} [Blank m]

theorem chronicle (x : Execution m) : Chronicle x.past x.machine.config := by
  obtain ⟨reachable, whims, rfl⟩ := Blank.opens (m := m)
  refine x.run.config_induction (fun past c => Chronicle past c)
    ⟨placed (.begin (opening reachable whims)), ?_, ?_, ?_⟩ fun _ _ _ _ h hstep => h.step hstep
  · intro a z hz
    cases hz
  · intro q hq
    cases hq
  · intro a z hz
    cases hz

/-! ### Descriptors that have not been linked -/

/-- An attempt that fails lets a newcomer wait at most. -/
theorem attempt_of_fails {s : Sockets} {w : Attempt} {a : Nat} {f : Fault}
    (hrules : s.Rules w (.error f)) : ∃ system, s.system.Enlists system ∧
      s.attempt w a = ({ s with system }, some (.error f)) := by
  have hsame : s.system.Enlists s.system := (System.Thins.refl _).enlists
  cases hrules with
  | unprepared hw => exact ⟨s.system, hsame, by simp [Sockets.attempt, hw]⟩
  | cancelled hw ht => exact ⟨s.system, hsame, by simp [Sockets.attempt, hw, ht]⟩
  | closed hw ht hc => exact ⟨s.system, hsame, by simp [Sockets.attempt, hw, ht, hc]⟩
  | @refused d e hw ht hc he =>
    have hdial : s.dial w d = ((s.dial w d).1, .error e) := Prod.ext rfl he
    refine ⟨_, s.enlists_of_dial hdial, ?_⟩
    simp only [Sockets.attempt, hw, ht, hc]
    rw [hdial]
    rfl

/-- Nobody comes by a descriptor when an attempt fails, unless it is new. -/
theorem failed_withholds {c c' : Config component} {a : Nat} {w : Attempt} {f : Fault}
    (h : c.Step (some (.poll (.attempt a))) c') (hw : c.state.attempts[a]? = some w)
    (hopen : w.progress.isOpen = true) (hrules : c.state.Rules w (.error f)) {d : Nat}
    (hd : c.state.Present d) : c.state.Withholds c'.state d := by
  cases h with
  | @poll _ ts _ hn hk hr ht =>
    have ht : Config.Takes { c with ready := ts } (Sockets.tidy (c.state.pursueTurn a)) c' := ht
    obtain ⟨system, henlists, hattempt⟩ := attempt_of_fails (a := a) hrules
    rw [Sockets.pursueTurn_of_open hw hopen, hattempt] at ht
    have hend : c.state.Withholds
        (({ c.state with system } : Sockets).setProgress a (.decided (.error f))).reap d :=
      (Sockets.Withholds.enlists henlists hd).yields
        ((Sockets.Yields.endAttempt _ a rfl (by simp) (by simp)).trans (.reap _))
    rcases takes_cases ht hn with ⟨-, hs⟩ | ⟨_, v, k, -, -, hs | hs⟩
    · exact hs ▸ hend
    · exact hs ▸ hend
    · exact hs ▸ hend.yields ((unwind_yields _ v).trans (.reap _))

/-- The descriptor of an attempt that fails is closed with it. -/
theorem gone_of_failed {x : Execution m} {q : Moment component} (hq : q ∈ x.past) {a : Nat}
    {w : Attempt} {f : Fault} (hd : Decides q a w (.error f)) {d : Nat} (hw : w.prepared = .ok d) :
    x.machine.state.Gone d := by
  obtain ⟨past₁, m₁, m₂, past₂, h₁, hm₁, hadvance, h₂, -⟩ :=
    x.run.split hq (by rw [hd.polled]; nofun)
  obtain ⟨cause, hcause, rfl⟩ := Option.map_eq_some_iff.mp hm₁
  obtain rfl : cause = .poll (.attempt a) := hd.polled
  have hstep := Machine.advance?_config hadvance
  rw [hcause] at hstep
  have hattempt : m₁.config.state.attempts[a]? = some w := by
    rw [Machine.config_state]
    exact hd.attempt
  have hrules : m₁.config.state.Rules w (.error f) := by
    rw [Machine.config_state]
    exact hd.rules
  have ht : m₁.config.state.Titled := by
    rw [Machine.config_state]
    exact titled ⟨past₁, m₁, h₁⟩
  have howns : m₁.config.state.Claims (.owner (.attempt a)) d :=
    ⟨w, hattempt, descriptor?_of_open hw hd.undecided⟩
  have hpresent := ht.present _ d howns
  have hwithholds := failed_withholds hstep hattempt hd.undecided hrules hpresent
  have hlost : ¬m₂.config.state.Claims (.owner (.attempt a)) d := by
    rintro ⟨w', hw', hdescriptor⟩
    have hfurthers := step_furthers hstep fun _ => (chronicle ⟨past₁, m₁, h₁⟩).decided
    obtain ⟨y, hy, -, hfares⟩ := hfurthers.kept a w hattempt
    obtain rfl := Option.some.inj (hw'.symm.trans hy)
    have hclosed := hfares.not_open ⟨_, List.mem_singleton_self _, rfl⟩ hrules
    cases hp : w'.progress <;> simp_all [Attempt.descriptor?, Progress.isOpen]
  obtain ⟨hclaims, hunowned⟩ := ht.given_up hwithholds howns hlost
  have htied : m₂.config.state.Tied (fun _ => False) d :=
    ⟨(step_deals hstep).system.present d hpresent, fun c hc => absurd hc (hclaims c)⟩
  rw [Machine.config_state] at htied hclaims hunowned
  have hnow : m₂.state.system.isOpen d = false :=
    shut_of_unowned (x := ⟨_, m₂, h₁.advance hadvance⟩) hunowned hclaims
  have hdeals := deals_of_run h₂
  refine ⟨fun c hc => ((hdeals.tied (titled ⟨_, m₂, h₁.advance hadvance⟩) htied).2 c hc).1, ?_⟩
  refine Bool.eq_false_iff.mpr fun hopen => ?_
  have := hdeals.system.shut d htied.1 hopen
  rw [hnow] at this
  cases this

/-! ### Every attempt -/

section Contract

variable {x : Execution m} {a : Nat} {z : Attempt}

theorem follows (hz : x.machine.state.attempts[a]? = some z) :
    z.Follows a x.machine.state x.past := by
  have h := (chronicle x).follows a z
  rw [Machine.config_state] at h
  exact h hz

/-- An attempt stays, and so does its outcome. -/
theorem comes_onward (hz : x.machine.state.attempts[a]? = some z) (y : Execution x.machine) :
    ∃ z', y.machine.state.attempts[a]? = some z' ∧ z.Same z' ∧ ∀ o, z.Comes o → z'.Comes o := by
  have h := y.run.config_induction (fun past c => Chronicle (x.past ++ past) c ∧
    ∃ z', c.state.attempts[a]? = some z' ∧ z.Same z' ∧ ∀ o, z.Comes o → z'.Comes o) ?_ ?_
  · rw [Machine.config_state] at h
    exact h.2
  · rw [List.append_nil, Machine.config_state]
    exact ⟨chronicle x, z, hz, .refl z, fun _ => id⟩
  · rintro past c cause c' ⟨hc, z', hz', hsame, hcomes⟩ hstep
    rw [← List.append_assoc]
    obtain ⟨z'', hz'', hsame', hfares⟩ := (step_furthers hstep fun a => hc.decided).kept a z' hz'
    exact ⟨hc.step hstep, z'', hz'', hsame.trans hsame', fun o ho =>
      (hcomes o ho).fares hsame' hfares⟩

/-- An outcome that comes too late is that of an attempt for a shared socket. -/
theorem of_lateConnection? {s : Sockets} {b k : Nat} (h : lateConnection? s b = some k) :
    ∃ w i, s.attempts[b]? = some w ∧ w.progress = .decided (.ok k) ∧ w.slot = some i := by
  unfold lateConnection? at h
  split at h
  · rename_i hw
    split at h
    · cases h
    · obtain rfl := Option.some.inj h
      exact ⟨_, _, hw, rfl, rfl⟩
  · cases h

/-- A connection that is there is not made by anyone later on. -/
theorem pledged_onward {y : Execution x.machine} {b k : Nat}
    (hk : k < x.machine.state.connections.length) (hp : y.machine.state.Pledges b k) :
    x.machine.state.Pledges b k := by
  have h := y.run.config_induction (fun past c => Chronicle (x.past ++ past) c ∧
    k < (desk c).connections ∧ (c.state.Pledges b k → x.machine.state.Pledges b k)) ?_ ?_
  · rw [Machine.config_state] at h
    exact h.2.2 hp
  · rw [List.append_nil, Machine.config_state]
    exact ⟨chronicle x, by simpa [desk, Sockets.desk] using hk, id⟩
  · rintro past c cause c' ⟨hc, hlt, hpledges⟩ hstep
    rw [← List.append_assoc]
    refine ⟨hc.step hstep, Nat.lt_of_lt_of_le hlt (step_move hstep).connections_le, ?_⟩
    rintro ⟨w', hw', hdecided⟩
    refine hpledges ?_
    have hfurthers := step_furthers hstep fun _ => hc.decided
    cases hw : c.state.attempts[b]? with
    | none => cases hdecided.symm.trans (hfurthers.begun b w' hw hw').1
    | some w =>
      obtain ⟨v, hv, -, hfares⟩ := hfurthers.kept b w hw
      obtain rfl := Option.some.inj (hw'.symm.trans hv)
      generalize w'.progress = p at hfares hdecided
      cases hfares with
      | stays => exact ⟨w, hw, hdecided⟩
      | decides _ _ hrules hp =>
        -- A connection that is made now has a new number.
        rcases hp with rfl | rfl
        · obtain rfl := Progress.decided.inj hdecided
          cases hrules
          exact absurd hlt (Nat.lt_irrefl _)
        · cases hdecided
      | waits | delivers | loses => cases hdecided

/-- An open connection is that of one attempt only. -/
theorem eq_of_pledges (hz : x.machine.state.attempts[a]? = some z) {k : Nat}
    (hk : z.progress = .decided (.ok k) ∨ z.progress = .delivered (.ok k))
    (hlt : k < x.machine.state.connections.length) (hopen : ¬x.machine.state.Shut k) {b : Nat}
    (hb : x.machine.state.Pledges b k) : b = a := by
  have hconnection := List.getElem?_eq_getElem hlt
  obtain ⟨d, hd⟩ : ∃ d, x.machine.state.RunsOn k d := by
    have hwired := (recorded x).plumbed.wired
    rw [Machine.config_state] at hwired
    cases hd : x.machine.state.connections[k].descriptor with
    | some d => exact ⟨d, _, hconnection, hd⟩
    | none => exact absurd ⟨_, hconnection, (hwired.held k _ hconnection).mpr hd⟩ hopen
  have hpledge : x.machine.state.Claims (.pledge b) d := ⟨k, hb, hd⟩
  rcases hk with hk | hk
  · exact Claimant.pledge.inj ((titled x).alone _ _ d hpledge ⟨k, ⟨z, hz, hk⟩, hd⟩)
  · exact nomatch (titled x).alone _ (.connection k) d hpledge
      ⟨.outcome (List.mem_of_getElem? hz) hk, hd⟩

/-- No branch of an attempt is ready that waits for its link. -/
theorem not_rules_of_waiting {s : Sockets} (hz : z.progress.isOpen = true)
    (h : s.isAttemptReady z = false) (o : Outcome) : ¬s.Rules z o := by
  obtain ⟨hwaiting, d, hd, hticket, hclosed, hsettled⟩ := waits_of_not_ready hz h
  have hdial : (s.dial z d).2 = .ok false := by
    unfold System.isSettled at hsettled
    unfold Sockets.dial
    rw [hwaiting]
    cases hresume : s.system.resume d <;> simp_all
  intro ho
  cases ho <;> simp_all

theorem settled_contract (hz : x.machine.state.attempts[a]? = some z) {q : Moment component}
    {w : Attempt} {o : Outcome} (hfirst : DecidesFirst x.past q a w o) (hsame : w.Same z)
    (hcomes : z.Comes o) : SettledContract x a z o := by
  obtain ⟨hq, hd⟩ := hfirst.mem
  refine ⟨⟨q, w, hfirst, hsame⟩, fun y => ?_, fun f d ho hp y => ?_, fun k hk hopen y hshut => ?_⟩
  · obtain ⟨z', hz', hsame', hkept⟩ := comes_onward hz y
    exact ⟨z', hz', hsame', hkept o hcomes⟩
  · subst ho
    exact gone_of_failed (x := x.andThen y) (List.mem_append_left _ hq) hd
      (hsame.prepared.symm.trans hp)
  · have hlt : k < x.machine.state.connections.length := by
      rcases hk with hk | hk
      · exact (titled x).pledged a k ⟨z, hz, hk⟩
      · exact (titled x).reached k (.outcome (List.mem_of_getElem? hz) hk)
    obtain ⟨q, hq, hends⟩ := ends_of_shut hlt hopen hshut
    refine ⟨q, hq, hends.imp_right fun ⟨b, hb, hlate⟩ => ?_⟩
    obtain ⟨v, i, hv, hdecided, hi⟩ := of_lateConnection? hlate
    obtain ⟨past₁, m₁, -, -, h₁, hm₁, -, -, -⟩ := y.run.split hq (by rw [hb]; nofun)
    obtain ⟨cause, -, rfl⟩ := Option.map_eq_some_iff.mp hm₁
    have hbefore := pledged_onward (y := ⟨past₁, m₁, h₁⟩) hlt ⟨v, hv, hdecided⟩
    obtain rfl := eq_of_pledges hz hk hlt hopen hbefore
    obtain ⟨z', hz', hsame', -⟩ := comes_onward hz ⟨past₁, m₁, h₁⟩
    obtain rfl := Option.some.inj (hv.symm.trans hz')
    exact ⟨by rw [← hsame'.slot, hi]; rfl, hb, hlate⟩

/-- What an attempt to connect comes to. -/
theorem outcome_contract {reachable : Bool} {whims : List Whim}
    (x : Execution (opening reachable whims)) {a : Nat} {z : Attempt}
    (hz : x.machine.state.attempts[a]? = some z) : OutcomeContract x a z := by
  have hfollows := follows hz
  have settled (hclosed : z.progress.isOpen = false) : ∃ q w o, DecidesFirst x.past q a w o ∧
      w.Same z ∧ z.Comes o := hfollows.decided hclosed
  refine ⟨hfollows.begun, hfollows.undecided, fun hclosed => ?_, fun f hf hclosed => ?_,
    fun hforestalled => (hfollows.forestalled hforestalled).2, ?_, fun hrest hopen =>
      not_rules_of_waiting hopen (not_ready_of_rest x hrest hz)⟩
  · obtain ⟨q, w, o, hfirst, hsame, hcomes⟩ := settled hclosed
    exact ⟨o, hcomes, settled_contract hz hfirst hsame hcomes⟩
  · obtain ⟨q, w, o, hfirst, hsame, hcomes⟩ := settled hclosed
    have hrules := hfirst.mem.2.rules
    rwa [hrules.unique (.unprepared (hsame.prepared.symm.trans hf))] at hcomes
  · have hcourse : (desk x.machine.config).courses[a]? = some z.course := by
      simp [desk, Sockets.desk, hz]
    obtain ⟨h₁, h₂, hhistory, htale, hstory⟩ := (chronicle x).storied a _ hcourse
    have hsplit : deeds x.past = h₁ ++ h₂ := hhistory
    rw [hsplit, tale_append, htale, hstory.told]
    rfl

end Contract

/-- Two sockets connect with one ticket. There is room for the first, and the second waits; it is
told to stop, and then the ticket is cancelled. -/
def hurried : Execution (opening true []) :=
  let address : Address := .inet4 .loopback 80
  Nat.repeat ExecutionBy.advance 10 <|
    ((ExecutionBy.begin (opening true [])).perform 10
      [.own (.ticket "ticket"), .own (.socket "server" false [] default),
        .own (.bind "server" (.known address) .stream), .own (.listen "server" 0),
        .own (.socket "first" false [] default),
        .own (.connect "first" (.known address) .stream (some "ticket") ""),
        .own (.socket "second" false [] default),
        .own (.connect "second" (.known address) .stream (some "ticket") "")]).perform 1
      [.own (.abort "second"), .own (.cancel "ticket")]

set_option maxRecDepth 8000 in
theorem outcome_contract_hurried :
    hurried.machine.state.attempts.map (fun z => (z.closed, z.progress)) =
      [(false, .delivered (.ok 0)), (true, .delivered (.error .cancelled))] ∧
    (∃ z, hurried.machine.state.attempts[0]? = some z ∧ OutcomeContract hurried 0 z) ∧
    ∃ z, hurried.machine.state.attempts[1]? = some z ∧ OutcomeContract hurried 1 z :=
  ⟨rfl, ⟨_, rfl, outcome_contract hurried rfl⟩, ⟨_, rfl, outcome_contract hurried rfl⟩⟩

end Conduit.Socket
