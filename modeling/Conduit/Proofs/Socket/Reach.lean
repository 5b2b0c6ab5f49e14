import Conduit.Proofs.Kernel.Lines
import Conduit.Proofs.Pipe.Use
import Conduit.Proofs.Socket.Calls
import Conduit.Socket.Session

/-!
How far operations reach. Most of them leave most of the state alone: each lemma says what one of
them may change, and that it does no more to the system than to let newcomers wait.
-/

namespace Conduit.Socket

open Kernel (System)

namespace Sockets

variable (s : Sockets)

theorem note_eq (a : Address) : ∃ shown, s.note a = { s with shown } := by
  unfold note
  split
  · exact ⟨_, rfl⟩
  · split
    · exact ⟨_, rfl⟩
    · exact ⟨_, rfl⟩

theorem describeAddress_eq (a : Option Address) :
    ∃ shown, (s.describeAddress a).1 = { s with shown } := by
  cases a with
  | none => exact ⟨_, rfl⟩
  | some a => exact s.note_eq a

theorem describe_eq (h : Handle) : ∃ shown, (s.describe h).1 = { s with shown } := by
  cases h with
  | shared i => exact ⟨_, rfl⟩
  | sole st =>
    have near := s.describeAddress_eq (s.addressBehind st System.localAddress)
    cases st with
    | bound b => exact near
    | listening l => exact near
    | connected k =>
      obtain ⟨shown, hnear⟩ := near
      obtain ⟨shown', hfar⟩ := (s.describeAddress (s.addressBehind (.connected k)
        System.localAddress)).1.describeAddress_eq (s.addressBehind (.connected k) System.peerAddress)
      refine ⟨shown', hfar.trans ?_⟩
      rw [hnear]
    | _ => exact ⟨_, rfl⟩

theorem closePorts_eq (ps : List Nat) : ∃ hub, (s.closePorts ps).1 = { s with hub } := by
  unfold closePorts
  generalize ([] : List Nat) = wakes
  induction ps generalizing s wakes with
  | nil => exact ⟨s.hub, rfl⟩
  | cons q ps ih =>
    obtain ⟨hub, h⟩ := ih { s with hub := (s.hub.close q).1 } (wakes ++ (s.hub.close q).2)
    exact ⟨hub, h⟩

theorem closeConnection_eq (k : Nat) : ∃ hub connections system,
    (s.closeConnection k).1 = { s with hub, connections, system } ∧
      connections.length = s.connections.length ∧ s.system.Retains system := by
  unfold closeConnection
  split
  · exact ⟨_, _, _, rfl, rfl, .refl _⟩
  · split
    · exact ⟨_, _, _, rfl, rfl, .refl _⟩
    · rename_i x _ _
      obtain ⟨hub, h⟩ := s.closePorts_eq (x.pipes.flatMap fun p => [p.1, p.2])
      dsimp only
      rw [h]
      refine ⟨_, _, _, rfl, by simp, ?_⟩
      split
      · exact System.shutdown_retains ..
      · exact .refl _

theorem addPipe_eq (id : String) (k : Nat) : ∃ hub plugs pipes connections,
    (s.addPipe id k).1 = { s with hub, plugs, pipes, connections } ∧
      connections.length = s.connections.length := by
  unfold addPipe
  split
  · exact ⟨_, _, _, _, rfl, rfl⟩
  · dsimp only
    split
    · obtain ⟨hub, h⟩ := closePorts_eq _ _
      rw [h]
      exact ⟨_, _, _, _, rfl, rfl⟩
    · exact ⟨_, _, _, _, rfl, by simp [addPort]⟩

theorem startJob_eq (job : Option String) (q : Nat) (work : Pipe.Job) (gathered : Pipe.Gathered) :
    ∃ hub collectors jobs,
      (s.startJob job q work gathered).1 = { s with hub, collectors, jobs } := by
  unfold startJob
  dsimp only
  split
  · exact ⟨_, _, _, rfl⟩
  · exact ⟨_, _, _, rfl⟩

theorem finishRequest_eq (r : Nat) :
    ∃ hub collectors, (s.finishRequest r).1 = { s with hub, collectors } := by
  unfold finishRequest
  dsimp only
  split
  · exact ⟨_, _, rfl⟩
  · exact ⟨_, _, rfl⟩

theorem system_advanceRequest (r : Nat) : (s.advanceRequest r).1.system =
    (s.hub.advance devices (s.system, s.plugs) r).2.1.1 := by
  unfold advanceRequest
  dsimp only
  split
  · rfl
  · rfl
  · rfl
  · split <;> rfl

/-- A request takes the system along whatever relation reading and writing keep. -/
theorem advanceRequest_system {R : System → System → Prop} (refl : ∀ w, R w w)
    (reads : ∀ {w w' : System} {d bytes}, w.Reads d w' bytes → R w w')
    (writes : ∀ {w w' : System} {d bytes}, w.Writes d w' bytes → R w w') (r : Nat) :
    R s.system (s.advanceRequest r).1.system := by
  rw [system_advanceRequest]
  refine Pipe.Hub.advance_devices (R := fun w w' => R w.1 w'.1) (fun w => refl w.1)
    (fun w p want => ?_) (fun w p bytes => ?_) (fun w p => ?_) s.hub (s.system, s.plugs) r
  · unfold devices
    dsimp only
    split
    · exact reads (Calls.read_reads ..)
    · exact refl w.1
  · unfold devices
    dsimp only
    split
    · exact writes (Calls.write_writes ..)
    · exact refl w.1
  · exact refl w.1

/-- A request works descriptors, which lets nobody wait. -/
theorem advanceRequest_eq (r : Nat) : ∃ hub collectors system,
    (s.advanceRequest r).1 = { s with hub, collectors, system } ∧ s.system.Loosens system := by
  have hsystem : s.system.Loosens (s.advanceRequest r).1.system :=
    s.advanceRequest_system .refl (·.loosens) (·.loosens) r
  rw [system_advanceRequest] at hsystem
  unfold advanceRequest
  dsimp only
  split
  · exact ⟨_, _, _, rfl, hsystem⟩
  · exact ⟨_, _, _, rfl, hsystem⟩
  · exact ⟨_, _, _, rfl, hsystem⟩
  · dsimp only
    split
    · exact ⟨_, _, _, rfl, hsystem⟩
    · exact ⟨_, _, _, rfl, hsystem⟩

theorem ring_eq (i : Nat) : ∃ alarms tickets, s.ring i = { s with alarms, tickets } := by
  unfold ring
  split
  · exact ⟨_, _, rfl⟩
  · split
    · exact ⟨_, _, rfl⟩
    · exact ⟨_, _, rfl⟩

theorem cancel_eq (t : Nat) : ∃ tickets, (s.cancel t).1 = { s with tickets } := by
  unfold cancel
  split
  · exact ⟨_, rfl⟩
  · exact ⟨_, rfl⟩

/-- A connection is made at most. -/
def Meets (s s' : Sockets) : Prop :=
  s'.connections = s.connections ∨
    ∃ d limits, s'.connections = s.connections ++ [{ descriptor := some d, limits }]

/-- Whether a link is made, is known when an attempt does not fail over it. -/
theorem dial_connects (x : Attempt) (d : Nat) :
    ∃ made, s.system.Connects d (s.dial x d).1 made ∧ ∀ m, (s.dial x d).2 = .ok m → m = made := by
  unfold dial
  split
  · split
    · exact ⟨true, .already (.refl _), nofun⟩
    · rename_i system made hconnect
      refine ⟨made, (System.connect_connects hconnect).more system.heed_retains, fun m hm => ?_⟩
      obtain ⟨-, -, rfl⟩ := Kernel.exists_of_map_ok hm
      rfl
  · split
    · exact ⟨true, .already (.refl _), nofun⟩
    · rename_i system made hresume
      exact ⟨made, System.resume_connects hresume, fun m hm => (Except.ok.inj hm).symm⟩

theorem dial_loosens (x : Attempt) (d : Nat) : s.system.Loosens (s.dial x d).1 :=
  let ⟨_, h, _⟩ := s.dial_connects x d
  h.loosens

/-- A link that is made, or is still to come. -/
theorem connects_of_dial {x : Attempt} {d : Nat} {system : System} {made : Bool}
    (h : s.dial x d = (system, .ok made)) : s.system.Connects d system made := by
  obtain ⟨made', hconnects, heq⟩ := s.dial_connects x d
  rw [h] at hconnects heq
  exact heq made rfl ▸ hconnects

theorem enlists_of_dial {x : Attempt} {d : Nat} {system : System} {answer : Except OsError Bool}
    (h : s.dial x d = (system, answer)) : s.system.Enlists system := by
  obtain ⟨made, hconnects, -⟩ := s.dial_connects x d
  rw [h] at hconnects
  exact hconnects.enlists

/-- Nobody but the attempt's own descriptor is linked. -/
theorem goes_of_dial {x : Attempt} {d : Nat} {system : System} {answer : Except OsError Bool}
    (h : s.dial x d = (system, answer)) (hd : s.system.Single d) :
    s.system.Goes system (some d) := by
  obtain ⟨made, hconnects, -⟩ := s.dial_connects x d
  rw [h] at hconnects
  cases made with
  | false => exact (hconnects.goes hd).widen
  | true => exact hconnects.goes hd

/-- Trying an attempt lets newcomers wait at most, and makes a connection at most. -/
theorem attempt_eq (x : Attempt) (a : Nat) : ∃ system connections attempts,
    (s.attempt x a).1 = { s with system, connections, attempts } ∧ s.system.Loosens system ∧
      s.Meets (s.attempt x a).1 := by
  unfold attempt
  split
  · exact ⟨_, _, _, rfl, .refl _, .inl rfl⟩
  · split
    · exact ⟨_, _, _, rfl, .refl _, .inl rfl⟩
    · split
      · exact ⟨_, _, _, rfl, .refl _, .inl rfl⟩
      · have hdial := s.dial_loosens x ‹Nat›
        split <;> rename_i h <;> rw [h] at hdial
        · exact ⟨_, _, _, rfl, hdial, .inl rfl⟩
        · exact ⟨_, _, _, rfl, hdial, .inl rfl⟩
        · exact ⟨_, _, _, rfl, hdial, .inr ⟨_, _, rfl⟩⟩

/-- The state after an attempt has been tried, with the outcome kept if there is one. -/
def tried (a : Nat) : Sockets × Option Outcome → Sockets
  | (s, none) => s
  | (s, some o) => s.setProgress a (.decided o)

/-- An attempt that is open is tried, and nothing else is done. -/
theorem pursueTurn_tried (a : Nat) : (s.pursueTurn a).state = s ∨ ∃ x, s.attempts[a]? = some x ∧
    (x.progress = .fresh ∨ x.progress = .waiting) ∧
      (s.pursueTurn a).state = tried a (s.attempt x a) := by
  have hstate : (s.pursueTurn a).state = (s.pursue a).1 := by
    unfold pursueTurn
    split <;> simp_all
  rw [hstate]
  unfold pursue
  cases hx : s.attempts[a]? with
  | none => exact .inl rfl
  | some x =>
    dsimp only
    cases hp : x.progress with
    | fresh | waiting =>
      refine .inr ⟨x, rfl, by simp [hp], ?_⟩
      cases s.attempt x a with
      | mk t o => cases o <;> rfl
    | _ => exact .inl rfl

/-- What an accept loop may change: it accepts one descriptor at most, and makes one connection at
most. -/
structure Accepts (s s' : Sockets) : Prop where
  eq : ∃ system connections acceptors, s' = { s with system, connections, acceptors }
  system : ∃ d taken, s.system.Admits d taken s'.system
  meets : s.Meets s'

theorem Accepts.loosens {s' : Sockets} (h : s.Accepts s') : s.system.Loosens s'.system :=
  let ⟨_, _, hadmits⟩ := h.system
  hadmits.loosens

theorem Accepts.of_acceptors {s s' : Sockets} (h : ∃ acceptors, s' = { s with acceptors }) :
    s.Accepts s' := by
  obtain ⟨acceptors, rfl⟩ := h
  exact ⟨⟨_, _, _, rfl⟩, ⟨0, none, .nobody (.refl _)⟩, .inl rfl⟩

theorem endLoop_accepts (c : Nat) (x : Acceptor) : s.Accepts (s.endLoop c x).1 := by
  unfold endLoop
  split
  · exact .of_acceptors ⟨_, rfl⟩
  · exact .of_acceptors ⟨_, rfl⟩

theorem look_accepts (c : Nat) (x : Acceptor) (l : Listener) (d : Nat) :
    s.Accepts (s.look c x l d).1 := by
  have hadmits := Calls.accept_admits s.system d
  unfold look
  split
  · exact s.endLoop_accepts c x
  · split
    · rename_i haccept
      exact ⟨⟨_, _, _, rfl⟩, ⟨d, _, haccept ▸ hadmits⟩, .inl rfl⟩
    · rename_i system e haccept
      rw [haccept] at hadmits
      have hheed := hadmits.andThen system.heed_retains
      split
      · rename_i h
        exact ⟨⟨_, _, _, rfl⟩, ⟨d, _, h ▸ hheed⟩, .inr ⟨_, _, rfl⟩⟩
      · rename_i h
        exact ⟨⟨_, _, _, rfl⟩, ⟨d, _, h ▸ hheed⟩, .inl rfl⟩
    · rename_i haccept
      exact ⟨⟨_, _, _, rfl⟩, ⟨d, _, haccept ▸ hadmits⟩, .inl rfl⟩

theorem startRound_accepts (c : Nat) (x : Acceptor) (l : Listener) :
    s.Accepts (s.startRound c x l).1 := by
  unfold startRound
  split
  · exact s.look_accepts c x l _
  · exact s.endLoop_accepts c x

theorem attend_accepts (c : Nat) : s.Accepts (s.attend c).1 := by
  have idle : s.Accepts s := .of_acceptors ⟨_, rfl⟩
  unfold attend
  split
  · exact idle
  · split
    · exact idle
    · split
      · exact idle
      · exact s.startRound_accepts c _ _
      · exact s.look_accepts c _ _ _
      · split
        · exact idle
        · exact s.startRound_accepts c _ _

theorem attendTurn_state (c : Nat) : (s.attendTurn c).state = (s.attend c).1 := by
  unfold attendTurn
  split <;> simp_all

end Sockets

end Conduit.Socket
