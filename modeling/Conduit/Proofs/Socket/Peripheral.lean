import Conduit.Proofs.Socket.Actions

/-!
Actions beside the sockets: those on tickets, jobs and pipes, and the questions for addresses and
descriptions. They leave the system and every socket alone, and no ticket is cancelled any less.
-/

namespace Conduit.Socket

open Dispatch
open Kernel (System)

/-- Actions on tickets, jobs and pipes, and questions for addresses and descriptions. -/
def Action.isPeripheral : Action → Bool
  | .ticket _ | .cancel _ | .cancelAfter .. => true
  | .localAddress _ | .peerAddress _ | .save .. | .describe _ => true
  | .startRead .. | .startWrite .. | .finish _ => true
  | .closePipe _ | .closeEnd .. | .dropPipe _ => true
  | _ => false

theorem reason?_addSource {tickets : Cancel.Tickets} {id : String} {t : Nat}
    (h : (tickets.reason? t).isSome) : ((tickets.addSource id).reason? t).isSome := by
  unfold Cancel.Tickets.reason? at h ⊢
  cases ht : tickets.tickets[t]? with
  | none => simp [ht] at h
  | some k =>
    have : (tickets.addSource id).tickets[t]? = some k :=
      (List.getElem?_append_left (List.getElem?_eq_some_iff.mp ht).1).trans ht
    rw [this]
    rwa [ht] at h

theorem reason?_settle {tickets : Cancel.Tickets} {b t : Nat} {r : Cancel.Reason}
    (h : (tickets.reason? t).isSome) : ((tickets.settle b r).reason? t).isSome := by
  unfold Cancel.Tickets.reason? Cancel.Tickets.settle at *
  dsimp only
  rw [List.getElem?_set]
  split
  · rename_i hbt
    subst hbt
    cases ht : tickets.tickets[b]? with
    | none => simp [ht] at h
    | some k => simp [(List.getElem?_eq_some_iff.mp ht).1]
  · exact h

/-- Nothing is changed on which a socket depends, and no ticket is cancelled any less. -/
structure Sockets.Peripheral (s s' : Sockets) : Prop where
  eq : ∃ hub collectors jobs pipes tickets alarms saved shown,
    s' = { s with hub, collectors, jobs, pipes, tickets, alarms, saved, shown }
  cancelled : ∀ t, (s.tickets.reason? t).isSome → (s'.tickets.reason? t).isSome

namespace Sockets

variable {s s' : Sockets}

theorem Peripheral.same (eq : ∃ hub collectors jobs pipes alarms saved shown,
    s' = { s with hub, collectors, jobs, pipes, alarms, saved, shown }) : s.Peripheral s' := by
  obtain ⟨hub, collectors, jobs, pipes, alarms, saved, shown, rfl⟩ := eq
  exact ⟨⟨_, _, _, _, _, _, _, _, rfl⟩, fun _ => id⟩

theorem Peripheral.refl (s : Sockets) : s.Peripheral s := .same ⟨_, _, _, _, _, _, _, rfl⟩

theorem Peripheral.trans {s'' : Sockets} (h : s.Peripheral s') (h' : s'.Peripheral s'') :
    s.Peripheral s'' := by
  obtain ⟨⟨_, _, _, _, _, _, _, _, rfl⟩, hcancelled⟩ := h
  obtain ⟨⟨_, _, _, _, _, _, _, _, rfl⟩, hcancelled'⟩ := h'
  exact ⟨⟨_, _, _, _, _, _, _, _, rfl⟩, fun t ht => hcancelled' t (hcancelled t ht)⟩

theorem cancel_peripheral (s : Sockets) (t : Nat) : s.Peripheral (s.cancel t).1 := by
  unfold cancel
  split
  · exact .refl s
  · exact ⟨⟨_, _, _, _, _, _, _, _, rfl⟩, fun _ => reason?_settle⟩

theorem ring_peripheral (s : Sockets) (i : Nat) : s.Peripheral (s.ring i) := by
  unfold ring
  split
  · exact .refl s
  · split
    · exact .refl s
    · refine ⟨⟨_, _, _, _, _, _, _, _, rfl⟩, fun t ht => ?_⟩
      dsimp only
      split
      · exact ht
      · exact reason?_settle ht

theorem present_peripheral (s : Sockets) (a : Address) : s.Peripheral (s.present a).1 := by
  obtain ⟨shown, h⟩ := s.note_eq a
  exact .same ⟨_, _, _, _, _, _, shown, h⟩

theorem access_peripheral {id operation : String} {ask : Nat → Sockets × Answer}
    (hask : ∀ d, s.Peripheral (ask d).1) : s.Peripheral (s.access id operation ask).state := by
  unfold access
  split
  · exact .refl s
  · split
    · exact .refl s
    · exact .refl s
    · exact hask _

theorem askAddress_peripheral (s : Sockets) (id operation : String) (kind : FaultKind)
    (ask : System → Nat → Except OsError Address) :
    s.Peripheral (s.askAddress id operation kind ask).state := by
  refine access_peripheral fun d => ?_
  split
  · exact .refl s
  · exact s.present_peripheral _

theorem save_peripheral (s : Sockets) (id name : String) : s.Peripheral (s.save id name).state := by
  unfold save
  split
  · exact .refl s
  · rename_i a _
    exact (s.present_peripheral a).trans (.same ⟨_, _, _, _, _, _, _, rfl⟩)

theorem startJob_peripheral (s : Sockets) (job : Option String) (q : Nat) (work : Pipe.Job)
    (gathered : Pipe.Gathered) : s.Peripheral (s.startJob job q work gathered).1 := by
  obtain ⟨hub, collectors, jobs, h⟩ := s.startJob_eq job q work gathered
  exact .same ⟨hub, collectors, jobs, _, _, _, _, h⟩

theorem closePorts_peripheral (s : Sockets) (ps : List Nat) :
    s.Peripheral (s.closePorts ps).1 := by
  obtain ⟨hub, h⟩ := s.closePorts_eq ps
  exact .same ⟨hub, _, _, _, _, _, _, h⟩

/-- Asking for an option may change the system, and nothing else. -/
theorem askOption_cases {P : Sockets → Prop} {id : String} {level name : Int32} (same : P s)
    (asked : ∀ d system value, s.system.getOption d level name = .ok (system, value) →
      P { s with system }) : P (s.askOption id level name).state := by
  unfold askOption access
  split
  · exact same
  · split
    · exact same
    · exact same
    · dsimp only
      split
      · exact same
      · exact asked _ _ _ ‹_›

/-- Such an action changes nothing on which a socket depends. -/
theorem run_peripheral (s : Sockets) (view : View) {act : Action}
    (hact : act.isPeripheral = true) : s.Peripheral (s.run view act).state := by
  cases act with
  | ticket id => exact ⟨⟨_, _, _, _, _, _, _, _, rfl⟩, fun _ => reason?_addSource⟩
  | cancel id =>
    exact withTicket_cases (P := fun t => s.Peripheral t.state) (.refl s) s.cancel_peripheral
  | cancelAfter id ms =>
    exact withTicket_cases (P := fun t => s.Peripheral t.state) (.refl s) fun t =>
      .same ⟨_, _, _, _, _, _, _, rfl⟩
  | localAddress id => exact s.askAddress_peripheral ..
  | peerAddress id => exact s.askAddress_peripheral ..
  | save id name => exact s.save_peripheral id name
  | describe id =>
    simp only [run]
    split
    · exact .refl s
    · rename_i h _
      obtain ⟨shown, h⟩ := s.describe_eq h
      exact .same ⟨_, _, _, _, _, _, shown, h⟩
  | startRead pipe job length =>
    exact withPipe_cases (P := fun t => s.Peripheral t.state) (.refl s) fun ports =>
      s.startJob_peripheral job ports.1 _ _
  | startWrite pipe job data =>
    exact withPipe_cases (P := fun t => s.Peripheral t.state) (.refl s) fun ports =>
      s.startJob_peripheral job ports.2 _ _
  | finish job =>
    simp only [run]
    split
    · exact .refl s
    · split
      · exact .refl s
      · rename_i hfinish
        obtain ⟨o, -, ho⟩ := Option.map_eq_some_iff.mp hfinish
        cases ho
        exact .same ⟨_, _, _, _, _, _, _, rfl⟩
  | closePipe pipe =>
    exact withPipe_cases (P := fun t => s.Peripheral t.state) (.refl s) fun ports =>
      s.closePorts_peripheral [ports.1, ports.2]
  | closeEnd pipe writing =>
    exact withPipe_cases (P := fun t => s.Peripheral t.state) (.refl s) fun ports =>
      s.closePorts_peripheral [if writing then ports.2 else ports.1]
  | dropPipe pipe => exact .same ⟨_, _, _, _, _, _, _, rfl⟩
  | _ => cases hact

end Sockets

end Conduit.Socket
