import Conduit.Proofs.Socket.Desk
import Conduit.Proofs.Socket.Reach

/-!
The moves that actions make. Most operations leave the desk alone; the lemmas on them are for `simp`.
Every other action makes one move, and answers.
-/

namespace Conduit.Socket

open Dispatch
open Kernel (System)

namespace Sockets

variable (s : Sockets) (p : Nat → Nat)

/-! ### What leaves the desk alone -/

@[simp] theorem desk_reap : s.reap.desk p = s.desk p := rfl

@[simp] theorem desk_bindHandle (id : String) (h : Handle) : (s.bindHandle id h).desk p = s.desk p := rfl

@[simp] theorem desk_forget (id : String) : (s.forget id).desk p = s.desk p := rfl

@[simp] theorem desk_modifyAcceptor (c : Nat) (f : Acceptor → Acceptor) :
    (s.modifyAcceptor c f).desk p = s.desk p := rfl

@[simp] theorem desk_addAcceptor (id : String) (x : Acceptor) :
    (s.addAcceptor id x).desk p = s.desk p := rfl

@[simp] theorem desk_emit (c : Nat) (o : Outcome) (round : Round) :
    (s.emit c o round).desk p = s.desk p := rfl

@[simp] theorem desk_modifyCollector (k : Nat) (f : Pipe.Collector → Pipe.Collector) :
    (s.modifyCollector k f).desk p = s.desk p := rfl

@[simp] theorem desk_addPort (k : Nat) (d : Option Nat) (chunk : Nat) :
    (s.addPort k d chunk).desk p = s.desk p := rfl

@[simp] theorem desk_note (a : Address) : (s.note a).desk p = s.desk p := by
  obtain ⟨shown, h⟩ := s.note_eq a
  rw [h]
  rfl

@[simp] theorem desk_present (a : Address) : (s.present a).1.desk p = s.desk p := s.desk_note p a

@[simp] theorem desk_describe (h : Handle) : (s.describe h).1.desk p = s.desk p := by
  obtain ⟨shown, h⟩ := s.describe_eq h
  rw [h]
  rfl

@[simp] theorem desk_closePorts (ps : List Nat) : (s.closePorts ps).1.desk p = s.desk p := by
  obtain ⟨hub, h⟩ := s.closePorts_eq ps
  rw [h]
  rfl

@[simp] theorem desk_closeConnection (k : Nat) : (s.closeConnection k).1.desk p = s.desk p := by
  obtain ⟨hub, connections, system, h, hlen, -⟩ := s.closeConnection_eq k
  rw [h]
  simp [desk, hlen]

@[simp] theorem courses_modify (xs : List Attempt) (a : Nat) (f : Attempt → Attempt)
    (hf : ∀ x, (f x).course = x.course) : (xs.modify a f).map (·.course) = xs.map (·.course) := by
  induction xs generalizing a with
  | nil => simp
  | cons x xs ih => cases a <;> simp [hf, ih]

@[simp] theorem desk_closeAttempt (a : Nat) : (s.closeAttempt a).desk p = s.desk p := by
  have h := courses_modify s.attempts a (fun x => { x with closed := true }) fun _ => rfl
  exact congrArg (fun cs => { s.desk p with courses := cs }) h

@[simp] theorem desk_closeBehind (st : Stage) : (s.closeBehind st).1.desk p = s.desk p := by
  cases st with
  | connecting a => exact s.desk_closeAttempt p a
  | connected k => exact s.desk_closeConnection p k
  | _ => rfl

@[simp] theorem desk_addPipe (id : String) (k : Nat) : (s.addPipe id k).1.desk p = s.desk p := by
  obtain ⟨hub, plugs, pipes, connections, h, hlen⟩ := s.addPipe_eq id k
  rw [h]
  simp [desk, hlen]

@[simp] theorem desk_startJob (job : Option String) (q : Nat) (work : Pipe.Job)
    (gathered : Pipe.Gathered) : (s.startJob job q work gathered).1.desk p = s.desk p := by
  obtain ⟨hub, collectors, jobs, h⟩ := s.startJob_eq job q work gathered
  rw [h]
  rfl

@[simp] theorem desk_finishRequest (r : Nat) : (s.finishRequest r).1.desk p = s.desk p := by
  obtain ⟨hub, collectors, h⟩ := s.finishRequest_eq r
  rw [h]
  rfl

@[simp] theorem desk_advanceRequest (r : Nat) : (s.advanceRequest r).1.desk p = s.desk p := by
  obtain ⟨hub, collectors, system, h, -⟩ := s.advanceRequest_eq r
  rw [h]
  rfl

@[simp] theorem desk_ring (i : Nat) : (s.ring i).desk p = s.desk p := by
  obtain ⟨alarms, tickets, h⟩ := s.ring_eq i
  rw [h]
  rfl

@[simp] theorem desk_cancel (t : Nat) : (s.cancel t).1.desk p = s.desk p := by
  obtain ⟨tickets, h⟩ := s.cancel_eq t
  rw [h]
  rfl

@[simp] theorem desk_keep (name : Option String) (k : Nat) : (s.keep name k).desk p = s.desk p := by
  cases name <;> rfl

/-- The stage of a shared socket that is not closed is in its slot. -/
theorem slot_of_stage {i : Nat} {st : Stage} (h : s.stageOf (.shared i) = st) (hst : st ≠ .closed) :
    s.slots[i]? = some st := by
  cases hi : s.slots[i]? with
  | none => simp [stageOf, hi, hst.symm] at h
  | some st' => simpa [stageOf, hi] using h

end Sockets

/-! ### Turns -/

/-- A turn that answers and leaves the desk alone. -/
structure Plain (s : Sockets) (t : Turn signature) : Prop where
  desk : ∀ p, t.state.desk p = s.desk p
  reply : ∃ r, t.next = .reply r

/-- A turn that answers and makes a move. -/
structure Moving (s : Sockets) (ds : List Deed) (t : Turn signature) : Prop where
  move : ∀ p, (s.desk p).Move ds (t.state.desk p)
  reply : ∃ r, t.next = .reply r

section Turns

variable {s : Sockets} {t : Turn signature} {ds : List Deed}

theorem Plain.moving (h : Plain s t) : Moving s [] t where
  move p := h.desk p ▸ .still
  reply := h.reply

theorem Plain.of_reply {s' : Sockets} (h : ∀ p, s'.desk p = s.desk p) (a : Answer) :
    Plain s (s'.reply a) :=
  ⟨h, _, rfl⟩

theorem Plain.of_done {s' : Sockets} (h : ∀ p, s'.desk p = s.desk p) (wakes : List Nat) :
    Plain s (s'.done wakes) :=
  ⟨h, _, rfl⟩

theorem Plain.of_state {s' : Sockets} (h : ∀ p, s'.desk p = s.desk p) :
    Plain s { state := s' } :=
  ⟨h, _, rfl⟩

theorem plain_reply (s : Sockets) (a : Answer) : Plain s (s.reply a) := .of_reply (fun _ => rfl) a

@[simp] theorem Sockets.desk_fail (s : Sockets) (id : String) (h : Handle) (f : Fault)
    (p : Nat → Nat) : (s.fail id h f).state.desk p = s.desk p := by
  cases h with
  | sole st => exact s.desk_forget p id
  | shared i => rfl

/-- A step that fails is answered. -/
theorem Sockets.fail_next (s : Sockets) (id : String) (h : Handle) (f : Fault) :
    (s.fail id h f).next = .reply (.own (.failed f)) := by
  cases h <;> rfl

theorem fail_moving {s' : Sockets} {ds : List Deed} (id : String) (h : Handle) (f : Fault)
    (hm : ∀ p, (s.desk p).Move ds (s'.desk p)) : Moving s ds (s'.fail id h f) where
  move p := (s'.desk_fail id h f p).symm ▸ hm p
  reply := ⟨_, s'.fail_next id h f⟩

theorem plain_access (id operation : String) (ask : Nat → Sockets × Answer)
    (h : ∀ d p, (ask d).1.desk p = s.desk p) : Plain s (s.access id operation ask) := by
  unfold Sockets.access
  split
  · exact plain_reply s _
  · split
    · exact plain_reply s _
    · exact plain_reply s _
    · exact .of_reply (h _) _

theorem plain_askAddress (id operation : String) (kind : FaultKind)
    (ask : System → Nat → Except OsError Address) : Plain s (s.askAddress id operation kind ask) := by
  refine plain_access id operation _ fun d p => ?_
  split
  · rfl
  · exact s.desk_present p _

theorem plain_askOption (id : String) (level name : Int32) : Plain s (s.askOption id level name) := by
  refine plain_access id "get_option" _ fun d p => ?_
  split <;> rfl

theorem bind_moving (id : String) (h : Handle) (a : Address) (type : SocketType) :
    Moving s [] (s.bind id h a type) := by
  unfold Sockets.bind
  split
  · rename_i plan hst
    split
    · exact fail_moving id h _ fun p => .still
    · refine ⟨fun p => ?_, _, rfl⟩
      cases h with
      | sole => exact .still
      | shared i => exact .bind _ _ (s.slot_of_stage hst nofun)
  · exact (plain_reply s _).moving

theorem listen_moving (id : String) (h : Handle) (backlog : Int32) :
    Moving s (strippings s h backlog) (s.listen id h backlog) := by
  unfold Sockets.listen
  cases h with
  | sole st =>
    show Moving s [] _
    split
    · split
      · exact fail_moving id _ _ fun p => .still
      · split
        · exact fail_moving id _ _ fun p => .still
        · split
          · exact fail_moving id _ _ fun p => .still
          · exact ⟨fun p => .still, _, rfl⟩
    · exact (plain_reply s _).moving
  | shared i =>
    unfold strippings
    cases hst : s.stageOf (.shared i) with
    | bound b =>
      have hslot := s.slot_of_stage hst (by simp)
      dsimp only
      cases opened b.descriptor with
      | error f => exact fail_moving id _ _ fun p => .still
      | ok d =>
        dsimp only
        cases s.system.listen d backlog with
        | error e => exact fail_moving id _ _ fun p => .still
        | ok system =>
          dsimp only
          rcases system.heed with ⟨left, e | _⟩
          · exact fail_moving id _ _ fun p => .strip hslot
          · exact ⟨fun p => .listen _ hslot, _, rfl⟩
    | _ => exact (plain_reply s _).moving

theorem plain_accept (h : Handle) (controller : String) (context : Context) :
    Plain s (s.accept h controller context) := by
  unfold Sockets.accept
  split
  · exact .of_reply (s.desk_addAcceptor · controller _) _
  · exact plain_reply s _

/-- A slot whose stage has not gone past binding is there. -/
theorem slot_of_early {i : Nat} (hst : (s.stageOf (.shared i)).name = .unbound ∨
    (s.stageOf (.shared i)).name = .bound) : s.slots[i]? = some (s.stageOf (.shared i)) := by
  refine s.slot_of_stage rfl fun hclosed => ?_
  rw [hclosed] at hst
  simp [Stage.name] at hst

/-- An attempt for a shared socket takes its slot. -/
theorem startAttempt_desk (id : String) {i : Nat} {x : Attempt} (sys : System)
    (hx : x.slot = some i) (hp : x.progress = .fresh) (p : Nat → Nat) :
    ({ s with system := sys }.startAttempt id (.shared i) x).state.desk p = { s.desk p with
      slots := s.slots.set i (.connecting s.attempts.length)
      courses := (s.desk p).courses ++ [⟨some i, x.context, .fresh⟩] } := by
  simp [Sockets.startAttempt, Sockets.reply, Sockets.addAttempt, Sockets.setStage, Sockets.desk,
    Attempt.course, hx, hp]

/-- An attempt is started from a stage that permits it. -/
theorem startAttempt_moving (id : String) {h : Handle} {x : Attempt} (sys : System)
    (hx : x.slot = h.slot?) (hp : x.progress = .fresh)
    (hst : (s.stageOf h).name = .unbound ∨ (s.stageOf h).name = .bound) :
    Moving s [.asked s.attempts.length] ({ s with system := sys }.startAttempt id h x) := by
  refine ⟨fun p => ?_, _, rfl⟩
  have hlen : (s.desk p).courses.length = s.attempts.length := by simp [Sockets.desk]
  rw [← hlen]
  cases h with
  | sole st =>
    have hcourse : x.course = ⟨none, x.context, .fresh⟩ := by
      simp [Attempt.course, hx, hp, Handle.slot?]
    have hmove := Desk.Move.connectSole (d := s.desk p) x.context
    simpa [Sockets.startAttempt, Sockets.reply, Sockets.addAttempt, Sockets.forget, Sockets.desk,
      hcourse] using hmove
  | shared i =>
    rw [startAttempt_desk id sys hx hp p, ← hlen]
    exact .connect x.context (slot_of_early hst) hst

/-- Connecting a shared socket takes its slot, which was unbound or bound, if the answer is yes. -/
theorem connect_desk {id : String} {i : Nat} {target : Address} {type : SocketType}
    {ticket : Option Nat} {context : Context}
    (hyes : (s.connect id (.shared i) target type ticket context).next = .reply (.own .succeeded)) :
    ((s.stageOf (.shared i)).name = .unbound ∨ (s.stageOf (.shared i)).name = .bound) ∧
    ∀ p, (s.connect id (.shared i) target type ticket context).state.desk p = { s.desk p with
      slots := s.slots.set i (.connecting s.attempts.length)
      courses := (s.desk p).courses ++ [⟨some i, context, .fresh⟩] } := by
  cases hst : s.stageOf (.shared i) with
  | unbound plan =>
    refine ⟨.inl rfl, fun p => ?_⟩
    simp only [Sockets.connect, hst]
    exact startAttempt_desk id _ rfl rfl p
  | bound b =>
    refine ⟨.inr rfl, fun p => ?_⟩
    simp only [Sockets.connect, hst]
    exact startAttempt_desk id s.system rfl rfl p
  | _ => simp [Sockets.connect, hst, Sockets.refuse, Sockets.reply] at hyes

theorem connect_moving (id : String) (h : Handle) (target : Address) (type : SocketType)
    (ticket : Option Nat) (context : Context) :
    Moving s (started s (s.connect id h target type ticket context).next)
      (s.connect id h target type ticket context) := by
  unfold Sockets.connect
  split
  · rename_i plan hst
    have hname : (s.stageOf h).name = .unbound ∨ (s.stageOf h).name = .bound := by
      simp [hst, Stage.name]
    exact startAttempt_moving id _ rfl rfl hname
  · rename_i b hst
    have hname : (s.stageOf h).name = .unbound ∨ (s.stageOf h).name = .bound := by
      simp [hst, Stage.name]
    exact startAttempt_moving id s.system rfl rfl hname
  · cases h <;> exact (plain_reply s _).moving

theorem plain_connected (id name : String) (a : Nat) : Plain s (s.connected id name a) := by
  unfold Sockets.connected
  split
  · dsimp only
    split
    · exact ⟨fun p => (Sockets.desk_keep _ p _ _).trans rfl, _, rfl⟩
    · exact ⟨fun _ => rfl, _, rfl⟩
  · exact plain_reply s _

theorem plain_next (c : Nat) (x : Acceptor) (name : Option String) (skipFaults : Bool) :
    Plain s (s.next c x name skipFaults) := by
  unfold Sockets.next
  dsimp only
  split
  · exact ⟨fun p => (Sockets.desk_keep _ p _ _).trans rfl, _, rfl⟩
  · exact .of_reply (s.desk_modifyAcceptor · c _) _
  · exact .of_reply (s.desk_modifyAcceptor · c _) _

theorem plain_save (id name : String) : Plain s (s.save id name) := by
  unfold Sockets.save
  split
  · exact plain_reply s _
  · exact ⟨(s.desk_present · _), _, rfl⟩

theorem plain_copy (id of : String) : Plain s (s.copy id of) := by
  unfold Sockets.copy
  split
  · exact .of_state (s.desk_bindHandle · id _)
  · exact .of_state (s.desk_bindHandle · id _)
  · exact .of_state (s.desk_bindHandle · id _)
  · exact plain_reply s _

theorem plain_pipe (h : Handle) (name : String) : Plain s (s.pipe h name) := by
  unfold Sockets.pipe
  split
  · exact ⟨fun p => s.desk_addPipe p _ _, _, rfl⟩
  · exact plain_reply s _

theorem plain_abort (id : String) : Plain s (s.abort id) := by
  unfold Sockets.abort
  split
  · split
    · exact plain_reply s _
    · exact .of_reply (s.desk_closeAttempt · _) _
  · exact plain_reply s _

/-- Closing a shared socket empties its slot; a socket of its own leaves the desk alone. -/
theorem close_move (id : String) (h : Handle) (p : Nat → Nat) :
    (s.desk p).Move (closings (some h)) ((s.close id h).1.desk p) := by
  have hd := s.desk_closeBehind p (s.stageOf h)
  cases h with
  | sole st =>
    have : (s.close id (.sole st)).1.desk p = s.desk p := hd
    rw [this]
    exact .still
  | shared i =>
    have : (s.close id (.shared i)).1.desk p = { s.desk p with slots := s.slots.set i .closed } := by
      have hslots := congrArg (·.slots) hd
      rw [← hd]
      simp only [Sockets.desk] at hslots
      simp [Sockets.close, Sockets.setStage, Sockets.desk, hslots]
    rw [this]
    exact .close i

end Turns

section With

variable {s : Sockets} {P : Turn signature → Prop}

/-! An action that needs something of the script refuses without it, and else runs on it. -/

theorem withHandle_cases {id : String} {run : Handle → Turn signature}
    (hnone : P (s.reply .wrongStage)) (hsome : ∀ h, s.handle? id = some h → P (run h)) :
    P (s.withHandle id run) := by
  unfold Sockets.withHandle
  split
  · exact hnone
  · exact hsome _ ‹_›

theorem withAddress_cases {target : Target} {run : Address → Turn signature}
    (hnone : P (s.reply .unknownAddress)) (hsome : ∀ a, P (run a)) : P (s.withAddress target run) := by
  unfold Sockets.withAddress
  split
  · exact hnone
  · exact hsome _

theorem withContext_cases {view : View} {name : String} {run : Context → Turn signature}
    (hnone : P { state := s, next := .reply .unknownContext }) (hsome : ∀ c, P (run c)) :
    P (s.withContext view name run) := by
  unfold Sockets.withContext
  split
  · exact hnone
  · exact hsome _

theorem withController_cases {name : String} {run : Nat → Acceptor → Turn signature}
    (hnone : P (s.reply .unknownController)) (hsome : ∀ c x, P (run c x)) :
    P (s.withController name run) := by
  unfold Sockets.withController
  split
  · exact hnone
  · split
    · exact hnone
    · exact hsome _ _

theorem withTicket_cases {id : String} {run : Nat → Turn signature}
    (hnone : P (s.reply .unknownTicket)) (hsome : ∀ t, P (run t)) : P (s.withTicket id run) := by
  unfold Sockets.withTicket
  split
  · exact hnone
  · exact hsome _

theorem withPipe_cases {id : String} {run : Nat × Nat → Turn signature}
    (hnone : P (s.reply .unknownPipe)) (hsome : ∀ ports, P (run ports)) : P (s.withPipe id run) := by
  unfold Sockets.withPipe
  split
  · exact hnone
  · exact hsome _

end With

theorem run_connect_moving (s : Sockets) (view : View) (id : String) (target : Target)
    (type : SocketType) (ticket : Option String) (context : String) :
    Moving s (started s (s.run view (.connect id target type ticket context)).next)
      (s.run view (.connect id target type ticket context)) := by
  refine withAddress_cases (P := fun t => Moving s (started s t.next) t)
    (plain_reply s _).moving fun a => ?_
  refine withHandle_cases (P := fun t => Moving s (started s t.next) t)
    (plain_reply s _).moving fun h _ => ?_
  refine withContext_cases (P := fun t => Moving s (started s t.next) t)
    ⟨fun _ => .still, _, rfl⟩ fun c => ?_
  cases ticket with
  | none => exact connect_moving id h a type none c
  | some name =>
    exact withTicket_cases (P := fun t => Moving s (started s t.next) t)
      (plain_reply s _).moving fun t => connect_moving id h a type (some t) c

/-- Every action makes a move, and answers. -/
theorem run_moving (s : Sockets) (view : View) (act : Action) :
    Moving s (doneBy s (s.run view act).next act) (s.run view act) := by
  cases act with
  | socket id shared options limits =>
    cases shared with
    | true =>
      refine ⟨fun p => ?_, _, rfl⟩
      exact .openSlot { options, limits }
    | false => exact ⟨fun p => .still, _, rfl⟩
  | bind id target type =>
    exact withAddress_cases (plain_reply s _).moving fun a =>
      withHandle_cases (plain_reply s _).moving fun h _ => bind_moving id h a type
  | listen id backlog =>
    cases hi : s.handle? id with
    | none =>
      simp only [Sockets.run, Sockets.withHandle, doneBy, hi]
      exact (plain_reply s _).moving
    | some h =>
      simp only [Sockets.run, Sockets.withHandle, doneBy, hi]
      exact listen_moving id h backlog
  | accept id controller context =>
    exact withHandle_cases (plain_reply s _).moving fun h _ =>
      withContext_cases ⟨fun _ => .still, _, rfl⟩ fun c => (plain_accept h controller c).moving
  | next controller name skipFaults =>
    exact withController_cases (plain_reply s _).moving fun c x =>
      (plain_next c x name skipFaults).moving
  | glance controller =>
    exact withController_cases (plain_reply s _).moving fun c x => ⟨fun _ => .still, _, rfl⟩
  | stop controller =>
    exact withController_cases (plain_reply s _).moving fun c x => ⟨fun _ => .still, _, rfl⟩
  | connect id target type ticket context =>
    exact run_connect_moving s view id target type ticket context
  | connected id name =>
    simp only [Sockets.run]
    split
    · exact (plain_reply s _).moving
    · exact (plain_connected id name _).moving
  | abort id => exact (plain_abort id).moving
  | ticket id => exact ⟨fun _ => .still, _, rfl⟩
  | cancel id =>
    refine withTicket_cases (plain_reply s _).moving fun t => ?_
    exact (Plain.of_reply (s.desk_cancel · t) _).moving
  | cancelAfter id ms =>
    exact withTicket_cases (plain_reply s _).moving fun t => ⟨fun _ => .still, _, rfl⟩
  | localAddress id => exact (plain_askAddress id _ _ _).moving
  | peerAddress id => exact (plain_askAddress id _ _ _).moving
  | option id level name => exact (plain_askOption id level name).moving
  | save id name => exact (plain_save id name).moving
  | close id =>
    cases hi : s.handle? id with
    | none =>
      simp only [Sockets.run, doneBy, hi]
      exact (plain_reply s _).moving
    | some h =>
      simp only [Sockets.run, doneBy, hi]
      exact ⟨close_move id h, _, rfl⟩
  | drop id => exact ⟨fun _ => .still, _, rfl⟩
  | copy id of => exact (plain_copy id of).moving
  | describe id =>
    simp only [Sockets.run]
    split
    · exact (plain_reply s _).moving
    · exact (Plain.of_reply (s.desk_describe · _) _).moving
  | pipe id name =>
    exact withHandle_cases (plain_reply s _).moving fun h _ => (plain_pipe h name).moving
  | startRead pipe job length =>
    exact withPipe_cases (plain_reply s _).moving fun ports =>
      (Plain.of_done (s.desk_startJob · job ports.1 _ _) _).moving
  | startWrite pipe job data =>
    exact withPipe_cases (plain_reply s _).moving fun ports =>
      (Plain.of_done (s.desk_startJob · job ports.2 _ _) _).moving
  | finish job =>
    simp only [Sockets.run]
    split
    · exact (plain_reply s _).moving
    · split
      · exact (plain_reply s _).moving
      · rename_i hfinish
        obtain ⟨o, -, ho⟩ := Option.map_eq_some_iff.mp hfinish
        cases ho
        exact ⟨fun _ => .still, _, rfl⟩
  | closePipe pipe =>
    exact withPipe_cases (plain_reply s _).moving fun ports =>
      Plain.moving ⟨(s.desk_closePorts · [ports.1, ports.2]), _, rfl⟩
  | closeEnd pipe writing =>
    exact withPipe_cases (plain_reply s _).moving fun ports =>
      Plain.moving ⟨(s.desk_closePorts · [if writing then ports.2 else ports.1]), _, rfl⟩
  | dropPipe pipe => exact ⟨fun _ => .still, _, rfl⟩
  | limit on => exact ⟨fun _ => .still, _, rfl⟩

end Conduit.Socket
