import Conduit.Proofs.Socket.Awake
import Conduit.Proofs.Socket.Stages

/-!
What the stages of a shared socket promise. The stage of a slot moves forward only, whoever uses the
slot under whichever name; and an operation that the stage does not permit is refused by name and
leaves the machine as it was, with all that is under way.
-/

namespace Conduit.Socket

open Dispatch
open Kernel (Whim)

/-- What can be asked of a socket and depends on its stage. -/
inductive Operation where
  | bind | listen | accept | connect | localAddress | peerAddress | option | pipe
  deriving DecidableEq

namespace Operation

/-- The name of an operation in refusals. -/
def text : Operation → String
  | bind => "bind"
  | listen => "listen"
  | accept => "accept"
  | connect => "connect"
  | localAddress => "local_address"
  | peerAddress => "peer_address"
  | option => "get_option"
  | pipe => "pipe"

/-- Whether a stage has an operation. -/
def permitted : Operation → StageName → Bool
  | bind, n => n = .unbound
  | listen, n => n = .bound
  | accept, n => n = .listening
  | connect, n => n = .unbound || n = .bound
  | localAddress, n | peerAddress, n | option, n => n = .bound || n = .listening || n = .connected
  | pipe, n => n = .connected

/-- The failure of an operation in a stage that does not have it. -/
def refusal (op : Operation) (n : StageName) : Fault := .invalidState op.text n.text

end Operation

/-- An action asks for an operation of the shared socket in a slot, with everything else that it
needs. -/
inductive Asks (view : View) (s : Sockets) (i : Nat) : Action → Operation → Prop where
  | bind {id target type a} (hi : s.handle? id = some (.shared i)) (ha : s.resolve target = some a) :
      Asks view s i (.bind id target type) .bind
  | listen {id backlog} (hi : s.handle? id = some (.shared i)) :
      Asks view s i (.listen id backlog) .listen
  | accept {id controller context c} (hi : s.handle? id = some (.shared i))
      (hc : view.context? context = some c) : Asks view s i (.accept id controller context) .accept
  | connect {id target type ticket context a c} (hi : s.handle? id = some (.shared i))
      (ha : s.resolve target = some a) (hc : view.context? context = some c)
      (ht : ∀ name, ticket = some name → (s.tickets.sources.lookup name).isSome) :
      Asks view s i (.connect id target type ticket context) .connect
  | localAddress {id} (hi : s.handle? id = some (.shared i)) :
      Asks view s i (.localAddress id) .localAddress
  | peerAddress {id} (hi : s.handle? id = some (.shared i)) :
      Asks view s i (.peerAddress id) .peerAddress
  | option {id level name} (hi : s.handle? id = some (.shared i)) :
      Asks view s i (.option id level name) .option
  | pipe {id name} (hi : s.handle? id = some (.shared i)) : Asks view s i (.pipe id name) .pipe

section Refusals

variable {s : Sockets} {i : Nat}

theorem withHandle_eq {id : String} {h : Handle} (hi : s.handle? id = some h)
    (run : Handle → Turn signature) : s.withHandle id run = run h := by
  simp [Sockets.withHandle, hi]

theorem withAddress_eq {target : Target} {a : Address} (ha : s.resolve target = some a)
    (run : Address → Turn signature) : s.withAddress target run = run a := by
  simp [Sockets.withAddress, ha]

theorem withContext_eq {view : View} {name : String} {c : Context} (hc : view.context? name = some c)
    (run : Context → Turn signature) : s.withContext view name run = run c := by
  simp [Sockets.withContext, hc]

/-- With everything that it needs, a call is left to the socket. -/
theorem run_connect_eq {view : View} {id : String} {h : Handle} {target : Target}
    {type : SocketType} {ticket : Option String} {context : String} {a : Address} {c : Context}
    (hi : s.handle? id = some h) (ha : s.resolve target = some a)
    (hc : view.context? context = some c)
    (ht : ∀ name, ticket = some name → (s.tickets.sources.lookup name).isSome) :
    ∃ t, s.run view (.connect id target type ticket context) = s.connect id h a type t c := by
  simp only [Sockets.run, withAddress_eq ha, withHandle_eq hi, withContext_eq hc]
  cases ticket with
  | none => exact ⟨none, rfl⟩
  | some name =>
    obtain ⟨t, hticket⟩ := Option.isSome_iff_exists.mp (ht name rfl)
    simp only [Sockets.withTicket, hticket]
    exact ⟨some t, rfl⟩

/-- A stage that gives no access to a descriptor has none of the operations on one. -/
theorem access_refused {id : String} (op : Operation) (hi : s.handle? id = some (.shared i))
    (ask : Nat → Sockets × Answer) (hd : s.descriptor? (s.stageOf (.shared i)) = none) :
    s.access id op.text ask = s.reply (.failed (op.refusal (s.stageOf (.shared i)).name)) := by
  simp [Sockets.access, hi, hd, Sockets.refuse, Operation.refusal]

theorem descriptor?_eq_none {st : Stage} (h₁ : st.name ≠ .bound) (h₂ : st.name ≠ .listening)
    (h₃ : st.name ≠ .connected) : s.descriptor? st = none := by
  cases st with
  | bound b => exact absurd rfl h₁
  | listening l => exact absurd rfl h₂
  | connected k => exact absurd rfl h₃
  | _ => rfl

/-- An operation that the stage does not have is refused, and nothing else happens. -/
theorem run_refused {view : View} {act : Action} {op : Operation} (h : Asks view s i act op)
    (hop : op.permitted (s.stageOf (.shared i)).name = false) :
    s.run view act = s.reply (.failed (op.refusal (s.stageOf (.shared i)).name)) := by
  have access (op : Operation) {id : String} {ask : Nat → Sockets × Answer}
      (hi : s.handle? id = some (.shared i))
      (hop : (decide ((s.stageOf (.shared i)).name = .bound) ||
        decide ((s.stageOf (.shared i)).name = .listening) ||
        decide ((s.stageOf (.shared i)).name = .connected)) = false) :
      s.access id op.text ask = s.reply (.failed (op.refusal (s.stageOf (.shared i)).name)) := by
    simp only [Bool.or_eq_false_iff, decide_eq_false_iff_not] at hop
    obtain ⟨⟨h₁, h₂⟩, h₃⟩ := hop
    exact access_refused op hi ask (descriptor?_eq_none h₁ h₂ h₃)
  cases h with
  | bind hi ha =>
    simp only [Sockets.run, withAddress_eq ha, withHandle_eq hi, Sockets.bind]
    split
    · rename_i hst
      simp [Operation.permitted, hst, Stage.name] at hop
    · rfl
  | listen hi =>
    simp only [Sockets.run, withHandle_eq hi, Sockets.listen]
    split
    · rename_i hst
      simp [Operation.permitted, hst, Stage.name] at hop
    · rfl
  | accept hi hc =>
    simp only [Sockets.run, withHandle_eq hi, withContext_eq hc, Sockets.accept]
    split
    · rename_i hst
      simp [Operation.permitted, hst, Stage.name] at hop
    · rfl
  | @connect id target type ticket context a c hi ha hc ht =>
    have refused (t : Option Nat) : s.connect id (.shared i) a type t c =
        s.reply (.failed (Operation.connect.refusal (s.stageOf (.shared i)).name)) := by
      unfold Sockets.connect
      split
      · rename_i hst
        simp [Operation.permitted, hst, Stage.name] at hop
      · rename_i hst
        simp [Operation.permitted, hst, Stage.name] at hop
      · rfl
    obtain ⟨t, hturn⟩ := run_connect_eq hi ha hc ht
    exact hturn.trans (refused t)
  | localAddress hi => exact access .localAddress hi hop
  | peerAddress hi => exact access .peerAddress hi hop
  | option hi => exact access .option hi hop
  | pipe hi =>
    simp only [Sockets.run, withHandle_eq hi, Sockets.pipe]
    split
    · rename_i hst
      simp [Operation.permitted, hst, Stage.name] at hop
    · rfl

/-- The failure is not that of an operation at odds with the stage of its socket. -/
def Fits (f : Fault) : Prop := f.kind ≠ .invalidState

theorem applyOptions_fits {sys : Kernel.System} {d : Nat} {os : List SocketOption} {f : Fault}
    (h : Plan.applyOptions sys d os = .error f) : Fits f := by
  induction os generalizing sys with
  | nil => cases h
  | cons o os ih =>
    simp only [Plan.applyOptions] at h
    split at h
    · exact ih h
    · cases h
      exact fun h => by cases h

theorem prepare_fits {p : Plan} {sys sys' : Kernel.System} {family : Family} {type : SocketType}
    {f : Fault} (h : p.prepare sys family type = (sys', .error f)) : Fits f := by
  unfold Plan.prepare at h
  split at h
  · cases h
    nofun
  · split at h
    · rename_i f' hcheck
      cases h
      unfold Family.checkType at hcheck
      split at hcheck
      · cases hcheck
      · cases hcheck
        nofun
    · cases h
      nofun
    · split at h
      · rename_i happly
        cases h
        exact applyOptions_fits happly
      · split at h
        · cases h
        · cases h
          nofun

theorem bind_fits {p : Plan} {sys sys' : Kernel.System} {a : Address} {type : SocketType} {f : Fault}
    (h : p.bind sys a type = (sys', .error f)) : Fits f := by
  unfold Plan.bind at h
  split at h
  · cases h
    exact prepare_fits ‹_›
  · split at h
    · cases h
    · cases h
      nofun

/-- The turn does not refuse an operation because of the stage of its socket. -/
def Allowed (t : Turn signature) : Prop := ∀ f, t.next = .reply (.own (.failed f)) → Fits f

theorem allowed_failed {s' : Sockets} {f : Fault} (hf : Fits f) :
    Allowed (s'.reply (.failed f)) := by
  intro f' h
  obtain rfl : f = f' := Answer.failed.inj (Reply.own.inj (Next.reply.inj h))
  exact hf

/-- An answer other than a failure refuses nothing. -/
theorem allowed_reply {s' : Sockets} {a : Answer} (ha : ∀ f, a ≠ .failed f) :
    Allowed (s'.reply a) :=
  fun f h => absurd (Reply.own.inj (Next.reply.inj h)) (ha f)

theorem opened_fits {d : Option Nat} {f : Fault} (h : opened d = .error f) : Fits f := by
  cases d with
  | some d => cases h
  | none =>
    cases h
    nofun

theorem bind_allowed {p : Plan} (hst : s.stageOf (.shared i) = .unbound p) (id : String) (a : Address)
    (type : SocketType) : Allowed (s.bind id (.shared i) a type) := by
  simp only [Sockets.bind, hst]
  split
  · exact allowed_failed (bind_fits ‹_›)
  · exact allowed_reply (by simp)

theorem listen_allowed {b : Bound} (hst : s.stageOf (.shared i) = .bound b) (id : String)
    (backlog : Int32) : Allowed (s.listen id (.shared i) backlog) := by
  simp only [Sockets.listen, hst]
  split
  · exact allowed_failed (opened_fits ‹_›)
  · split
    · exact allowed_failed nofun
    · split
      · exact allowed_failed nofun
      · exact allowed_reply (by simp)

theorem connect_allowed (hst : (∃ p, s.stageOf (.shared i) = .unbound p) ∨
    ∃ b, s.stageOf (.shared i) = .bound b) (id : String) (a : Address) (type : SocketType)
    (ticket : Option Nat) (c : Context) : Allowed (s.connect id (.shared i) a type ticket c) := by
  obtain ⟨p, hst⟩ | ⟨b, hst⟩ := hst
  · simp only [Sockets.connect, hst]
    exact allowed_reply (by simp)
  · simp only [Sockets.connect, hst]
    exact allowed_reply (by simp)

/-- An operation on a descriptor is refused only in a stage without one. -/
theorem access_allowed {id operation : String} (hi : s.handle? id = some (.shared i))
    {ask : Nat → Sockets × Answer} (hask : ∀ d f, (ask d).2 = .failed f → Fits f)
    {d : Option Nat} (hd : s.descriptor? (s.stageOf (.shared i)) = some (opened d)) :
    Allowed (s.access id operation ask) := by
  simp only [Sockets.access, hi, hd]
  split
  · cases ‹some _ = none›
  · rename_i f hf
    exact allowed_failed (opened_fits (Option.some.inj hf))
  · exact fun f h => hask _ f (Reply.own.inj (Next.reply.inj h))

theorem askAddress_allowed {id operation : String} (hi : s.handle? id = some (.shared i))
    (kind : FaultKind) (hkind : kind ≠ .invalidState)
    (ask : Kernel.System → Nat → Except OsError Address) {d : Option Nat}
    (hd : s.descriptor? (s.stageOf (.shared i)) = some (opened d)) :
    Allowed (s.askAddress id operation kind ask) := by
  refine access_allowed hi (fun d f h => ?_) hd
  split at h
  · cases h
    exact hkind
  · cases h

theorem askOption_allowed {id : String} (hi : s.handle? id = some (.shared i)) (level name : Int32)
    {d : Option Nat} (hd : s.descriptor? (s.stageOf (.shared i)) = some (opened d)) :
    Allowed (s.askOption id level name) := by
  refine access_allowed hi (fun d f h => ?_) hd
  split at h
  · cases h
    nofun
  · cases h

/-- The stages that have an operation, each with what stands behind it. -/
theorem permitted_cases {op : Operation} {st : Stage} (h : op.permitted st.name = true) :
    match op with
    | .bind => ∃ p, st = .unbound p
    | .listen => ∃ b, st = .bound b
    | .accept => ∃ l, st = .listening l
    | .connect => (∃ p, st = .unbound p) ∨ ∃ b, st = .bound b
    | .localAddress | .peerAddress | .option => ∃ d, s.descriptor? st = some (opened d)
    | .pipe => ∃ k, st = .connected k := by
  cases op <;> cases st <;> first | exact ⟨_, rfl⟩ | simp [Operation.permitted, Stage.name] at h ⊢

/-- An operation that the stage has is not refused because of the stage. -/
theorem run_allowed {view : View} {act : Action} {op : Operation} (h : Asks view s i act op)
    (hop : op.permitted (s.stageOf (.shared i)).name = true) : Allowed (s.run view act) := by
  have hst := permitted_cases (s := s) hop
  cases h with
  | bind hi ha =>
    obtain ⟨p, hst⟩ := hst
    simp only [Sockets.run, withAddress_eq ha, withHandle_eq hi]
    exact bind_allowed hst _ _ _
  | listen hi =>
    obtain ⟨b, hst⟩ := hst
    simp only [Sockets.run, withHandle_eq hi]
    exact listen_allowed hst _ _
  | accept hi hc =>
    obtain ⟨l, hst⟩ := hst
    simp only [Sockets.run, withHandle_eq hi, withContext_eq hc, Sockets.accept, hst]
    exact allowed_reply (by simp)
  | @connect id target type ticket context a c hi ha hc ht =>
    obtain ⟨t, hturn⟩ := run_connect_eq hi ha hc ht
    rw [hturn]
    exact connect_allowed hst _ _ _ _ _
  | localAddress hi =>
    obtain ⟨d, hd⟩ := hst
    exact askAddress_allowed hi .fetchLocalAddress (by simp) _ hd
  | peerAddress hi =>
    obtain ⟨d, hd⟩ := hst
    exact askAddress_allowed hi .fetchPeerAddress (by simp) _ hd
  | option hi =>
    obtain ⟨d, hd⟩ := hst
    exact askOption_allowed hi _ _ hd
  | pipe hi =>
    obtain ⟨k, hst⟩ := hst
    simp only [Sockets.run, withHandle_eq hi, Sockets.pipe, hst]
    exact fun f h => absurd (Reply.own.inj (Next.reply.inj h)) (by simp)

end Refusals

/-- A turn that answers, and in which the system has done something of itself at most, leaves the
machine as it was otherwise: nothing has to be closed, and whoever can go on has been woken already. -/
theorem take_undone {m : Machine component} [Blank m] (x : Execution m) (t : Kernel.System)
    (a : Answer) :
    let s : Sockets := { x.machine.state with system := x.machine.state.system.undo t }
    x.machine.take (Sockets.tidy (s.reply a)) = { x.machine with state := s }.reply (.own a) := by
  intro s
  have hreap : s.reap = s := by
    have horphans : s.orphans = [] := (tidied x).orphans
    unfold Sockets.reap
    rw [horphans]
    rfl
  have hturn : Sockets.tidy (s.reply a) = { s.reply a with wakes := s.runnable } := by
    unfold Sockets.tidy Sockets.reply
    rw [hreap]
    rfl
  have hwake : { x.machine with state := s }.wakeAll s.runnable = { x.machine with state := s } :=
    Machine.wakeAll_of_mem fun r hr => mem_ready x (runnable_undone x.machine.state t ▸ hr)
  rw [hturn]
  show ({ x.machine with state := s }.wakeAll s.runnable).reply (.own a) = _
  rw [hwake]

/-- A turn that answers and changes nothing leaves the machine as it was. -/
theorem take_reply {m : Machine component} [Blank m] (x : Execution m) (a : Answer) :
    x.machine.take (Sockets.tidy (x.machine.state.reply a)) = x.machine.reply (.own a) :=
  take_undone x x.machine.state.system a

/-- What the stages of shared sockets promise in a run. -/
structure StageContract {m : Machine component} (x : Execution m) : Prop where
  /-- A stage stays as it is, or is bound without its descriptor from now on, or gives way to one that
  may follow it. -/
  onward : (states x).IsChain fun s s' => Onward s.slots s'.slots
  /-- A closed socket stays closed. -/
  closed : (states x).Pairwise StaysClosed
  /-- Every name of a shared socket stands for a slot that is there. -/
  known : ∀ id i, x.machine.state.handle? id = some (.shared i) → i < x.machine.state.slots.length
  /-- An operation that the stage does not have is refused, and the machine is as it was. -/
  refused : ∀ act i op, x.machine.control = .run (.own act) →
    Asks x.machine.view x.machine.state i act op →
    op.permitted (x.machine.state.stageOf (.shared i)).name = false →
    x.machine.step? = some (x.machine.reply
      (.own (.failed (op.refusal (x.machine.state.stageOf (.shared i)).name))))
  /-- One that the stage has is not refused because of it. -/
  allowed : ∀ act i op, x.machine.control = .run (.own act) →
    Asks x.machine.view x.machine.state i act op →
    op.permitted (x.machine.state.stageOf (.shared i)).name = true →
    ∃ t, x.machine.step? = some (x.machine.take t) ∧ Allowed t

/-- Shared sockets go from stage to stage in order, and refuse what their stage does not have. -/
theorem stage_contract {reachable : Bool} {whims : List Whim}
    (x : Execution (opening reachable whims)) : StageContract x := by
  refine ⟨states_onward x, states_closed x, fun id i hi => ?_, fun act i op hrun hasks hop => ?_,
    fun act i op hrun hasks hop => ?_⟩
  · exact (tidied x).grounded.known id i (Sockets.mem_of_handle? hi)
  · have hturn : component.exec x.machine.view x.machine.state act =
        Sockets.tidy (x.machine.state.reply
          (.failed (op.refusal (x.machine.state.stageOf (.shared i)).name))) :=
      congrArg Sockets.tidy (run_refused hasks hop)
    rw [Machine.step?_own hrun, hturn, take_reply x]
  · exact ⟨_, Machine.step?_own hrun, run_allowed hasks hop⟩

/-- A shared socket with two names is bound and listens; connecting it is about to be tried. -/
def outOfOrder : Execution (opening false []) :=
  ((ExecutionBy.begin (opening false [])).perform 3
    [.own (.socket "a" true [] default), .own (.copy "b" "a"),
      .own (.bind "a" (.known (.unix .unnamed)) .stream),
      .own (.listen "a" 1)]).request (.own (.connect "b" (.known (.unix .unnamed)) .stream none ""))

set_option maxRecDepth 4000 in
theorem stage_contract_outOfOrder :
    (states outOfOrder).map (fun s => s.slots.map (·.name)) =
      [[], [.unbound], [.unbound], [.bound], [.listening]] ∧
    outOfOrder.machine.step? = some (outOfOrder.machine.reply
      (.own (.failed (.invalidState "connect" "listening")))) := by
  have hasks : Asks outOfOrder.machine.view outOfOrder.machine.state 0
      (.connect "b" (.known (.unix .unnamed)) .stream none "") .connect :=
    .connect rfl rfl rfl nofun
  exact ⟨rfl, (stage_contract outOfOrder).refused _ 0 .connect rfl hasks rfl⟩

end Conduit.Socket
