import Conduit.Proofs.Socket.Moves
import Conduit.Proofs.Socket.Peripheral

/-!
Attempts abide. What an attempt was begun with stays as it was; who has been told to stop, and a
ticket that has been cancelled, stay so. No action makes an attempt come any further, and only a
call to connect begins one.
-/

namespace Conduit.Socket

open Dispatch
open Kernel (System)

/-- The attempt, later: it is made with the same, and may have been told to stop. -/
structure Attempt.Same (x x' : Attempt) : Prop where
  prepared : x'.prepared = x.prepared
  target : x'.target = x.target
  ticket : x'.ticket = x.ticket
  context : x'.context = x.context
  limits : x'.limits = x.limits
  slot : x'.slot = x.slot
  closed : x.closed = true → x'.closed = true

theorem Attempt.Same.refl (x : Attempt) : x.Same x := ⟨rfl, rfl, rfl, rfl, rfl, rfl, id⟩

theorem Attempt.Same.trans {x x' x'' : Attempt} (h : x.Same x') (h' : x'.Same x'') :
    x.Same x'' where
  prepared := h'.prepared.trans h.prepared
  target := h'.target.trans h.target
  ticket := h'.ticket.trans h.ticket
  context := h'.context.trans h.context
  limits := h'.limits.trans h.limits
  slot := h'.slot.trans h.slot
  closed hx := h'.closed (h.closed hx)

namespace Sockets

variable {s s' s'' : Sockets}

/-- The attempts stay, and come no further, and cancelled tickets stay cancelled. -/
structure Abides (s s' : Sockets) : Prop where
  attempts : ∀ (a : Nat) x, s.attempts[a]? = some x →
    ∃ x', s'.attempts[a]? = some x' ∧ x.Same x' ∧ x'.progress = x.progress
  length : s'.attempts.length = s.attempts.length
  cancelled : ∀ t, s.isCancelled t = true → s'.isCancelled t = true

namespace Abides

theorem trans (h : s.Abides s') (h' : s'.Abides s'') : s.Abides s'' where
  attempts a x hx := by
    obtain ⟨x', hx', hsame, hp⟩ := h.attempts a x hx
    obtain ⟨x'', hx'', hsame', hp'⟩ := h'.attempts a x' hx'
    exact ⟨x'', hx'', hsame.trans hsame', hp'.trans hp⟩
  length := h'.length.trans h.length
  cancelled t ht := h'.cancelled t (h.cancelled t ht)

/-- Attempts are as before, and tickets that have been cancelled stay so. -/
theorem of_tickets (hattempts : s'.attempts = s.attempts)
    (h : ∀ t, (s.tickets.reason? t).isSome → (s'.tickets.reason? t).isSome) : s.Abides s' where
  attempts _ x hx := ⟨x, hattempts ▸ hx, .refl x, rfl⟩
  length := by rw [hattempts]
  cancelled t ht := by
    cases t with
    | none => exact ht
    | some t => exact h t ht

theorem of_eq (hattempts : s'.attempts = s.attempts) (htickets : s'.tickets = s.tickets) :
    s.Abides s' := of_tickets hattempts fun _ h => htickets ▸ h

theorem refl (s : Sockets) : s.Abides s := of_eq rfl rfl

theorem withSystem (s : Sockets) (system : System) : s.Abides { s with system } := of_eq rfl rfl

theorem closeAttempt (s : Sockets) (a : Nat) : s.Abides (s.closeAttempt a) where
  attempts b x hx := by
    refine ⟨if a = b then { x with closed := true } else x, ?_, ?_, ?_⟩
    · simp only [Sockets.closeAttempt, List.getElem?_modify, hx]
      rfl
    · split
      · exact ⟨rfl, rfl, rfl, rfl, rfl, rfl, fun _ => rfl⟩
      · exact .refl x
    · split <;> rfl
  length := List.length_modify ..
  cancelled _ h := h

theorem setStage (s : Sockets) (id : String) (h : Handle) (st : Stage) :
    s.Abides (s.setStage id h st) := by
  cases h <;> exact of_eq rfl rfl

theorem fail (s : Sockets) (id : String) (h : Handle) (f : Fault) :
    s.Abides (s.fail id h f).state := by
  cases h <;> exact of_eq rfl rfl

theorem keep (s : Sockets) (name : Option String) (k : Nat) : s.Abides (s.keep name k) := by
  cases name <;> exact of_eq rfl rfl

theorem closeConnection (s : Sockets) (k : Nat) : s.Abides (s.closeConnection k).1 := by
  obtain ⟨hub, connections, system, h, -⟩ := s.closeConnection_eq k
  rw [h]
  exact of_eq rfl rfl

end Abides

theorem Peripheral.abides (h : s.Peripheral s') : s.Abides s' := by
  obtain ⟨_, _, _, _, _, _, _, _, heq⟩ := h.eq
  exact .of_tickets (congrArg (·.attempts) heq) h.cancelled

/-! ### Actions -/

theorem close_abides (s : Sockets) (id : String) (h : Handle) : s.Abides (s.close id h).1 := by
  have hbehind : s.Abides (s.closeBehind (s.stageOf h)).1 := by
    cases s.stageOf h with
    | connected k => exact .closeConnection s k
    | connecting a => exact .closeAttempt s a
    | _ => exact .of_eq rfl rfl
  exact hbehind.trans (.setStage _ id h _)

end Sockets

section Turns

variable {s : Sockets}

open Sockets (Abides)

/-- A turn in which the attempts abide. -/
def Abiding (s : Sockets) (t : Turn signature) : Prop := s.Abides t.state

theorem abiding_bind (id : String) (h : Handle) (a : Address) (type : SocketType) :
    Abiding s (s.bind id h a type) := by
  unfold Sockets.bind
  split
  · split
    · exact (Abides.withSystem s _).trans (.fail _ id h _)
    · cases h <;> exact Abides.of_eq rfl rfl
  · exact .refl s

theorem abiding_listen (id : String) (h : Handle) (backlog : Int32) :
    Abiding s (s.listen id h backlog) := by
  unfold Sockets.listen
  split
  · split
    · exact .fail s id h _
    · split
      · exact .fail s id h _
      · split
        · exact ((Abides.withSystem s _).trans (.setStage _ id h _)).trans (.fail _ id h _)
        · cases h <;> exact Abides.of_eq rfl rfl
  · exact .refl s

theorem abiding_next (c : Nat) (x : Acceptor) (name : Option String) (skipFaults : Bool) :
    Abiding s (s.next c x name skipFaults) := by
  have harrived (f : Acceptor → Acceptor) : s.Abides (s.modifyAcceptor c f) := .of_eq rfl rfl
  unfold Sockets.next
  dsimp only
  split
  · exact (harrived _).trans (.keep _ name _)
  · exact harrived _
  · exact harrived _

/-- Every action but a call to connect leaves the attempts where they are. -/
theorem run_abides (s : Sockets) (view : View) {act : Action}
    (hact : ∀ id target type ticket context, act ≠ .connect id target type ticket context) :
    Abiding s (s.run view act) := by
  have same : s.Abides s := .refl s
  have alone {s' : Sockets} (hattempts : s'.attempts = s.attempts)
      (htickets : s'.tickets = s.tickets) : s.Abides s' := .of_eq hattempts htickets
  by_cases hplain : act.isPeripheral = true
  · exact (s.run_peripheral view hplain).abides
  cases act with
  | connect id target type ticket context =>
    exact absurd rfl (hact id target type ticket context)
  | socket id shared options limits => cases shared <;> exact alone rfl rfl
  | bind id target type =>
    exact withAddress_cases (P := Abiding s) same fun a =>
      withHandle_cases (P := Abiding s) same fun h _ => abiding_bind id h a type
  | listen id backlog =>
    exact withHandle_cases (P := Abiding s) same fun h _ => abiding_listen id h backlog
  | accept id controller context =>
    refine withHandle_cases (P := Abiding s) same fun h _ =>
      withContext_cases (P := Abiding s) same fun c => ?_
    unfold Sockets.accept
    split
    · exact alone rfl rfl
    · exact same
  | next controller name skipFaults =>
    exact withController_cases (P := Abiding s) same fun c x => abiding_next c x name skipFaults
  | glance controller =>
    exact withController_cases (P := Abiding s) same fun c x => alone rfl rfl
  | stop controller =>
    exact withController_cases (P := Abiding s) same fun c x => alone rfl rfl
  | connected id name =>
    simp only [Sockets.run]
    split
    · exact same
    · unfold Sockets.connected
      split
      · have hcalls : s.Abides { s with calls := s.calls.filter (·.1 ≠ id) } := alone rfl rfl
        dsimp only
        split
        · exact hcalls.trans (.keep _ (some name) _)
        · exact hcalls
      · exact same
  | abort id =>
    show Abiding s (s.abort id)
    unfold Sockets.abort
    split
    · split
      · exact same
      · exact .closeAttempt s _
    · exact same
  | option id level name =>
    exact Sockets.askOption_cases (P := s.Abides) same fun d system value _ => alone rfl rfl
  | close id =>
    simp only [Sockets.run]
    split
    · exact same
    · exact Sockets.close_abides s id _
  | drop id => exact alone rfl rfl
  | copy id of =>
    show Abiding s (s.copy id of)
    unfold Sockets.copy
    split
    · exact alone rfl rfl
    · exact alone rfl rfl
    · exact alone rfl rfl
    · exact same
  | pipe id name =>
    refine withHandle_cases (P := Abiding s) same fun h _ => ?_
    unfold Sockets.pipe
    split
    · rename_i k _
      obtain ⟨hub, plugs, pipes, connections, he, -⟩ := s.addPipe_eq name k
      have : s.Abides (s.addPipe name k).1 := he ▸ alone rfl rfl
      exact this
    · exact same
  | limit on => exact alone rfl rfl
  | _ => exact absurd rfl hplain

end Turns

/-! ### Frames and tasks -/

section Tasks

open Sockets (Abides)

theorem finish_abides (s : Sockets) (r : Nat) : s.Abides (s.finishRequest r).1 := by
  obtain ⟨hub, collectors, h⟩ := s.finishRequest_eq r
  rw [h]
  exact .of_eq rfl rfl

theorem serve_abides (s : Sockets) (r : Nat) : s.Abides (s.advanceRequest r).1 := by
  obtain ⟨hub, collectors, system, h, -⟩ := s.advanceRequest_eq r
  rw [h]
  exact .of_eq rfl rfl

theorem attend_abides (s : Sockets) (c : Nat) : s.Abides (s.attendTurn c).state := by
  rw [s.attendTurn_state]
  obtain ⟨system, connections, acceptors, h⟩ := (s.attend_accepts c).eq
  rw [h]
  exact .of_eq rfl rfl

/-- Only the outcome of an attempt that arrives takes it further. -/
theorem resume_abides (s : Sockets) {f : Frame} (hf : ∀ a, f ≠ .conclude a) :
    s.Abides (s.resume f).state := by
  cases f with
  | serve r => exact serve_abides s r
  | finish r => exact finish_abides s r
  | conclude a => exact absurd rfl (hf a)
  | announce c => exact .of_eq rfl rfl
  | attend c => exact attend_abides s c

theorem unwind_abides (s : Sockets) {f : Frame} (hf : ∀ a, f ≠ .conclude a) :
    s.Abides (s.unwind f) := by
  cases f with
  | serve r => exact finish_abides s r
  | finish r => exact finish_abides s r
  | conclude a => exact absurd rfl (hf a)
  | announce c => exact .of_eq rfl rfl
  | attend c => exact .refl s

theorem poll_abides (s : Sockets) {t : Task} (ht : ∀ a, t ≠ .attempt a) :
    s.Abides (s.poll t).state := by
  cases t with
  | request r => exact serve_abides s r
  | attempt a => exact absurd rfl (ht a)
  | acceptor c => exact attend_abides s c
  | alarm i => exact (s.ring_peripheral i).abides

/-- A turn that leaves no outcome of an attempt behind is taken over as it is. -/
theorem abides_takes {c c' : Config component} {t : Turn signature}
    (h : c.Takes (Sockets.tidy t) c') (hn : c.next = none) (hq : Quiet t) :
    t.state.Abides c'.state := by
  have hreap : t.state.Abides t.state.reap := .of_eq rfl rfl
  rcases takes_cases h hn with ⟨-, hs⟩ | ⟨_, w, k, hnext, -, hs | hs⟩
  · exact hs ▸ hreap
  · exact hs ▸ hreap
  · have hw : ∀ a, w ≠ .conclude a := by
      rintro a rfl
      exact hq a (by simp [hnext, Next.left])
    exact hs ▸ hreap.trans ((unwind_abides _ hw).trans (.of_eq rfl rfl))

end Tasks

end Conduit.Socket
