import Conduit.Proofs.Socket.Awake
import Conduit.Proofs.Socket.Stories

/-!
Connecting a shared socket: what its handler is told agrees with the stage of the socket. The handler
is given to its context when the attempt is decided and runs once at most. It gets a connection only
if the socket has not been closed, and the socket then holds that connection; a connection that comes
too late is closed.
-/

namespace Conduit.Socket

open Dispatch
open Kernel (Whim)

/-! ### The call -/

/-- Connecting the shared socket in a slot is asked for, with a context for the handler, and the
answer is yes; the call starts the attempt `a`, and `m` is the machine after it. -/
structure Connects {m₀ : Machine component} (x : Execution m₀) (a i : Nat) (c : Context)
    (m : Machine component) : Prop where
  number : x.machine.state.attempts.length = a
  asked : ∃ id target type ticket context,
    x.machine.control = .run (.own (.connect id target type ticket context)) ∧
    x.machine.state.handle? id = some (.shared i) ∧ x.machine.view.context? context = some c
  step : x.machine.step? = some m
  answered : m.control = .back (.own .succeeded)

/-- The desk after a call to connect with the answer yes. -/
theorem run_connect_desk {s : Sockets} {view : View} {id : String} {target : Target}
    {type : SocketType} {ticket : Option String} {context : String} {i : Nat} {c : Context}
    (hi : s.handle? id = some (.shared i)) (hc : view.context? context = some c)
    (hyes : (s.run view (.connect id target type ticket context)).next = .reply (.own .succeeded)) :
    ((s.stageOf (.shared i)).name = .unbound ∨ (s.stageOf (.shared i)).name = .bound) ∧
    ∀ p, (s.run view (.connect id target type ticket context)).state.desk p = { s.desk p with
      slots := s.slots.set i (.connecting s.attempts.length)
      courses := (s.desk p).courses ++ [⟨some i, c, .fresh⟩] } := by
  cases ha : s.resolve target with
  | none => simp [Sockets.run, Sockets.withAddress, ha, Sockets.reply] at hyes
  | some a =>
    cases ticket with
    | none =>
      simp only [Sockets.run, Sockets.withAddress, ha, Sockets.withHandle, hi, Sockets.withContext,
        hc] at hyes ⊢
      exact connect_desk hyes
    | some name =>
      simp only [Sockets.run, Sockets.withAddress, ha, Sockets.withHandle, hi, Sockets.withContext,
        hc, Sockets.withTicket] at hyes ⊢
      cases ht : s.tickets.sources.lookup name with
      | none => simp [ht, Sockets.reply] at hyes
      | some t =>
        simp only [ht] at hyes ⊢
        exact connect_desk hyes

theorem placed {m : Machine component} [Blank m] (x : Execution m) :
    (desk x.machine.config).Placed (deeds x.past) := by
  obtain ⟨reachable, whims, rfl⟩ := Blank.opens (m := m)
  refine x.run.config_induction (fun past c => (desk c).Placed (deeds past)) ⟨?_, ?_, ?_, ?_⟩
    fun past c cause c' h hstep => ?_
  · intro a i ha
    cases ha
  · intro a b i ha
    cases ha
  · intro a _
    rfl
  · intro a _
    rfl
  · rw [deeds_append]
    exact h.move (step_move hstep)

namespace Connects

variable {m₀ m : Machine component} {x : Execution m₀} {a i : Nat} {c : Context}

/-- The run up to the end of the call. -/
theorem called (h : Connects x a i c m) :
    ∃ z : Execution m₀, z.machine = m ∧ z.past = x.past ++ x.machine.moment?.toList := by
  refine ⟨x.through h.step (.begin m), rfl, ?_⟩
  exact List.append_nil _

/-- The call takes the slot, which has not been closed, for a new attempt. -/
theorem taken (h : Connects x a i c m) :
    ((x.machine.state.stageOf (.shared i)).name = .unbound ∨
      (x.machine.state.stageOf (.shared i)).name = .bound) ∧
    desk m.config = { desk x.machine.config with
      slots := x.machine.state.slots.set i (.connecting a)
      courses := (desk x.machine.config).courses ++ [⟨some i, c, .fresh⟩] } := by
  obtain rfl := h.number
  obtain ⟨id, target, type, ticket, context, hrun, hi, hc⟩ := h.asked
  generalize hact : Action.connect id target type ticket context = act at hrun
  have hm : x.machine.take (Sockets.tidy (x.machine.state.run x.machine.view act)) = m :=
    Option.some.inj ((Machine.step?_own hrun).symm.trans h.step)
  have hmoving := run_moving x.machine.state x.machine.view act
  obtain ⟨r, hr⟩ := hmoving.reply
  have hyes : (x.machine.state.run x.machine.view act).next = .reply (.own .succeeded) := by
    have hcontrol := h.answered
    rw [← hm] at hcontrol
    obtain ⟨m', -, ht⟩ := x.machine.take_eq
      (Sockets.tidy (x.machine.state.run x.machine.view act))
    rw [ht] at hcontrol
    have hnext : (Sockets.tidy (x.machine.state.run x.machine.view act)).next = .reply r := hr
    rw [hnext] at hcontrol
    rw [hr]
    exact congrArg _ (Control.back.inj hcontrol)
  subst hact
  obtain ⟨hst, hdesk⟩ := run_connect_desk hi hc hyes
  refine ⟨hst, ?_⟩
  have htakes := x.machine.take_config (Sockets.tidy (x.machine.state.run x.machine.view
    (.connect id target type ticket context)))
  have hquiet : Quiet (x.machine.state.run x.machine.view
      (.connect id target type ticket context)) := by
    intro a
    simp [hyes, Next.left]
  have hbare : desk x.machine.config =
      x.machine.state.desk (pendingIn (todo x.machine.bare)) := by
    rw [Machine.config_run hrun]
    rfl
  rw [hm] at htakes
  rw [hbare]
  exact (desk_takes htakes rfl hquiet).trans (hdesk _)

/-- The number of the attempt has not been given before. -/
theorem courses_length (h : Connects x a i c m) : (desk x.machine.config).courses.length = a := by
  obtain rfl := h.number
  simp [desk, Sockets.desk]

variable [Blank m₀]

/-- The story of the attempt begins with the end of the call. -/
theorem begins (h : Connects x a i c m) : (desk m.config).Story a ⟨some i, c, .fresh⟩ [] := by
  obtain ⟨hst, hdesk⟩ := h.taken
  have hlen := h.courses_length
  rw [hdesk]
  refine ⟨?_, rfl, ?_, nofun, fun _ j hj => ?_⟩
  · simp [← hlen]
  · exact Nat.le_of_eq ((placed x).unborn _ (Nat.le_of_eq hlen))
  · obtain rfl : i = j := Option.some.inj hj
    exact List.getElem?_set_self (List.getElem?_eq_some_iff.mp (slot_of_early hst)).1

/-- The story of the attempt goes on with every run. -/
theorem story (h : Connects x a i c m) (y : Execution m) : ∃ z : Course, z.slot = some i ∧
    z.context = c ∧ (desk y.machine.config).Story a z (deeds y.past) := by
  obtain ⟨called, hm, -⟩ := h.called
  have := y.run.config_induction
    (fun past d => (∃ h₀, (desk d).Placed h₀) ∧
      ∃ z : Course, z.slot = some i ∧ z.context = c ∧ (desk d).Story a z (deeds past))
    ⟨⟨history called, hm ▸ placed called⟩, _, rfl, rfl, h.begins⟩
    fun past d cause d' ⟨⟨h₀, hplaced⟩, z, hslot, hcontext, hz⟩ hstep => ?_
  · exact this.2
  · have hmove := step_move hstep
    obtain ⟨z', hslot', hcontext', hz'⟩ := hz.move hplaced hmove
    rw [deeds_append]
    exact ⟨⟨_, hplaced.move hmove⟩, z', hslot'.trans hslot, hcontext'.trans hcontext, hz'⟩

end Connects

/-! ### The completion -/

/-- The handler of the attempt `a` for the slot `i` is run with `o'`, when the attempt has come to
`o`; the states are those before and after. -/
structure Hearing (s s' : Sockets) (a i : Nat) (closed : Prop) (o o' : Outcome) : Prop where
  decided : s.attempts[a]?.map (·.progress) = some (.decided o)
  delivered : s'.attempts[a]?.map (·.progress) = some (.delivered o')
  /-- The handler gets the connection that the socket holds, which has not been closed. -/
  success : ∀ k, o' = .ok k → s'.slots[i]? = some (.connected k) ∧ ¬closed
  failure : ∀ f, o' = .error f → s'.slots[i]? = some .closed
  /-- What an attempt for an open socket has come to, is what its handler gets. -/
  kept : ¬closed → o' = o
  /-- A connection that comes too late is closed and reported as closed. -/
  late : closed → ∀ k, o = .ok k →
    o' = .error .closed ∧ s'.connections[k]?.map (·.closed) = some true
  unchanged : closed → ∀ f, o = .error f → o' = .error f

section Hearing

variable {s : Sockets} {a i : Nat} {x : Attempt} {o : Outcome}

theorem attempts_settle (s : Sockets) (i : Nat) (o : Outcome) :
    (s.settle i o).1.attempts = s.attempts := by
  unfold Sockets.settle
  split
  · rfl
  · rfl
  · obtain ⟨hub, connections, system, h, -, -⟩ := s.closeConnection_eq ‹Nat›
    dsimp only
    rw [h]
  · rfl

/-- A connection that is there is closed when it is told to. -/
theorem closed_closeConnection {k : Nat} (hk : k < s.connections.length) :
    (s.closeConnection k).1.connections[k]?.map (·.closed) = some true := by
  unfold Sockets.closeConnection
  rw [List.getElem?_eq_getElem hk]
  dsimp only
  split
  · simp [*]
  · obtain ⟨hub, h⟩ := s.closePorts_eq ((s.connections[k].pipes).flatMap fun p => [p.1, p.2])
    rw [h]
    simp [hk]

/-- An outcome is delivered to an attempt for a slot that waits for it or has been closed. -/
theorem hears (hx : s.attempts[a]? = some x) (ho : x.progress = .decided o) (hi : x.slot = some i)
    (hmade : ∀ k, o = .ok k → k < s.connections.length) {closed : Prop} [Decidable closed]
    (hslot : s.slots[i]? = some (if closed then .closed else .connecting a)) :
    ∃ o', Hearing s (s.conclude a).1.reap a i closed o o' := by
  have hlt : i < s.slots.length := (List.getElem?_eq_some_iff.mp hslot).1
  have hdecided : s.attempts[a]?.map (·.progress) = some (.decided o) := by simp [hx, ho]
  have hdelivered : (s.conclude a).1.reap.attempts[a]?.map (·.progress) =
      some (.delivered (s.settle i o).2.1) := by
    rw [conclude_eq s hx ho hi]
    simp [Sockets.reap, Sockets.setProgress, attempts_settle, hx]
  have hslots : (s.conclude a).1.reap.slots = (s.settle i o).1.slots := by
    rw [conclude_eq s hx ho hi]
    rfl
  have hconnections : (s.conclude a).1.reap.connections = (s.settle i o).1.connections := by
    rw [conclude_eq s hx ho hi]
    rfl
  -- From here on only these parts of the state after matter.
  generalize (s.conclude a).1.reap = s' at hdelivered hslots hconnections ⊢
  refine ⟨(s.settle i o).2.1, ?_⟩
  by_cases hclosed : closed
  · rw [if_pos hclosed] at hslot
    rw [settle_late s (by simp [hslot])] at hdelivered hslots hconnections ⊢
    cases o with
    | ok k =>
      obtain ⟨hub, connections, system, hclose, -, -⟩ := s.closeConnection_eq k
      have hkept : s'.slots[i]? = some .closed := by
        rw [hslots]
        dsimp only
        rw [hclose]
        exact hslot
      have hlate : s'.connections[k]?.map (·.closed) = some true := by
        rw [hconnections]
        exact closed_closeConnection (hmade k rfl)
      refine ⟨hdecided, hdelivered, by simp, fun _ _ => hkept, absurd hclosed, fun _ k' hk' => ?_,
        by simp⟩
      obtain rfl : k = k' := Except.ok.inj hk'
      exact ⟨rfl, hlate⟩
    | error f =>
      have hkept : s'.slots[i]? = some .closed := by
        rw [hslots]
        exact hslot
      exact ⟨hdecided, hdelivered, by simp, fun _ _ => hkept, absurd hclosed, by simp,
        fun _ _ h => h⟩
  · rw [if_neg hclosed] at hslot
    rw [settle_waiting s hslot] at hdelivered hslots hconnections ⊢
    cases o with
    | ok k =>
      have htaken : s'.slots[i]? = some (.connected k) := by
        rw [hslots]
        exact List.getElem?_set_self hlt
      refine ⟨hdecided, hdelivered, fun k' hk' => ?_, by simp, fun _ => rfl,
        fun h => absurd h hclosed, fun h => absurd h hclosed⟩
      obtain rfl : k = k' := Except.ok.inj hk'
      exact ⟨htaken, hclosed⟩
    | error f =>
      have hgone : s'.slots[i]? = some .closed := by
        rw [hslots]
        exact List.getElem?_set_self hlt
      exact ⟨hdecided, hdelivered, by simp, fun _ _ => hgone, fun _ => rfl,
        fun h => absurd h hclosed, fun h => absurd h hclosed⟩

end Hearing

/-! ### The contract -/

/-- What a handler is promised that is given in a call to connect, whatever happens after it. -/
structure ConnectContract {m₀ m : Machine component} (x : Execution m₀) (y : Execution m)
    (a i : Nat) (c : Context) : Prop where
  /-- The socket had never been closed when it was connected. -/
  open_before : ∀ s ∈ states x, s.slots[i]? ≠ some .closed
  /-- Nothing is done with the handler before the call has returned. -/
  before : tale a (history x) = []
  /-- It is given to its context once at most, and is then run once at most. -/
  order : tale a (deeds y.past) <+: [.dispatched a c, .heard a]
  /-- It has been given to its context when the attempt has been decided, and no sooner. -/
  dispatched : ∃ z, y.machine.state.attempts[a]? = some z ∧
    (.dispatched a c ∈ deeds y.past ↔ z.progress.isOpen = false)
  /-- When nothing is left to do, an attempt is undecided only while there is nothing to decide it. -/
  patient : y.machine.advance? = none →
    ∀ z, y.machine.state.attempts[a]? = some z → z.progress.isOpen →
    z.progress = .waiting ∧ ∃ d, z.prepared = .ok d ∧
      y.machine.state.isCancelled z.ticket = false ∧ z.closed = false ∧
      y.machine.state.system.isSettled d = false
  /-- When the handler is run next, it is told what agrees with the socket. -/
  heard : y.machine.cause? = some (.resume (.conclude a)) → ∃ o o',
    Hearing y.machine.state (component.resume y.machine.state (.conclude a)).state a i
      (.closed i ∈ deeds y.past) o o'

/-- An attempt that is not ready waits for its link. -/
theorem waits_of_not_ready {s : Sockets} {z : Attempt} (hz : z.progress.isOpen)
    (h : s.isAttemptReady z = false) : z.progress = .waiting ∧ ∃ d, z.prepared = .ok d ∧
      s.isCancelled z.ticket = false ∧ z.closed = false ∧ s.system.isSettled d = false := by
  cases hp : z.progress with
  | fresh => simp [Sockets.isAttemptReady, hp] at h
  | waiting =>
    cases hd : z.prepared with
    | error f => simp [Sockets.isAttemptReady, hp, hd] at h
    | ok d =>
      simp only [Sockets.isAttemptReady, hp, hd, Bool.or_eq_false_iff] at h
      exact ⟨rfl, d, rfl, h.1.1, h.1.2, h.2⟩
  | _ => simp [hp, Progress.isOpen] at hz

/-- An outcome that is about to reach its receiver is on its way. -/
theorem pending_of_cause {m : Machine component} {a : Nat}
    (h : m.cause? = some (.resume (.conclude a))) : 0 < (desk m.config).pending a := by
  have hnext := (Machine.config_of_resume h).1
  exact (desk_taken m.config.state (Config.frames_next hnext)).2

/-- What the handler of an attempt is told agrees with the stage of its socket. -/
theorem connect_contract {reachable : Bool} {whims : List Whim}
    (x : Execution (opening reachable whims)) {a i : Nat} {c : Context} {m : Machine component}
    (h : Connects x a i c m) (y : Execution m) : ConnectContract x y a i c := by
  obtain ⟨z, hslot, rfl, hz⟩ := h.story y
  obtain ⟨w, hw, rfl⟩ : ∃ w, y.machine.state.attempts[a]? = some w ∧ w.course = z := by
    have := hz.course
    simpa [desk, Sockets.desk] using this
  have htold : tale a (deeds y.past) = w.progress.told a w.context := hz.told
  refine ⟨fun s hs hclosed => ?_, ?_, ?_, ⟨w, hw, ?_⟩, fun hrest v hv hopen => ?_, fun hcause => ?_⟩
  · -- A socket that had once been closed would still be so, and the call would have been refused.
    have hnow : x.machine.state.slots[i]? = some .closed := closed_now hs hclosed
    have hearly := h.taken.1
    simp [Sockets.stageOf, hnow, Stage.name] at hearly
  · exact (placed x).untold _ (Nat.le_of_eq h.courses_length)
  · rw [htold]
    cases w.progress <;> simp [Progress.told, Attempt.course]
  · have hmem : .dispatched a w.context ∈ deeds y.past ↔
        .dispatched a w.context ∈ w.progress.told a w.context := by
      rw [← htold]
      simp [tale, Deed.attempt?]
    refine hmem.trans ?_
    cases w.progress <;> simp [Progress.told, Progress.isOpen]
  · obtain ⟨called, rfl, -⟩ := h.called
    exact waits_of_not_ready hopen (not_ready_of_rest (called.andThen y) hrest hv)
  · obtain ⟨o, ho, -⟩ := hz.decided (pending_of_cause hcause)
    have hmade : ∀ k, o = .ok k → k < y.machine.state.connections.length := by
      intro k hk
      have := hz.made k (hk ▸ ho)
      simpa [desk, Sockets.desk] using this
    have hawaits : y.machine.state.slots[i]? =
        some (if .closed i ∈ deeds y.past then .closed else .connecting a) := by
      have := hz.awaits (by rw [ho]; rfl) i hslot
      simpa [desk, Sockets.desk] using this
    obtain ⟨o', hears⟩ := hears hw ho hslot hmade hawaits
    exact ⟨o, o', hears⟩

/-- A shared socket is about to be connected to one that listens, with a handler on a manual line. -/
def calling : Execution (opening false []) :=
  let address : Address := .unix ((UnixPath.ofBytes? [112]).getD .unnamed)
  ((ExecutionBy.begin (opening false [])).perform 3
    [.context (.make "line" .manual), .own (.socket "server" false [] default),
      .own (.bind "server" (.known address) .stream), .own (.listen "server" 1),
      .own (.socket "client" true [] default)]).request
    (.own (.connect "client" (.known address) .stream none "line"))

/-- The connection is made, then the socket is closed, and then the line is moved. -/
def closing : Execution calling.advance.machine :=
  (Nat.repeat ExecutionBy.advance 3 (ExecutionBy.begin calling.advance.machine)).perform 1
    [.own (.close "client"), .context (.drain "line" none)]

set_option maxRecDepth 8000 in
theorem connect_contract_closing :
    Connects calling 0 0 ⟨1, .venue 0⟩ calling.advance.machine ∧
    deeds closing.past = [.dispatched 0 ⟨1, .venue 0⟩, .closed 0] ∧
    Hearing closing.machine.state (component.resume closing.machine.state (.conclude 0)).state 0 0
      (.closed 0 ∈ deeds closing.past) (.ok 0) (.error .closed) := by
  have hcalls : Connects calling 0 0 ⟨1, .venue 0⟩ calling.advance.machine :=
    ⟨rfl, ⟨_, _, _, _, _, rfl, rfl, rfl⟩, rfl, rfl⟩
  have hdeeds : deeds closing.past = [.dispatched 0 ⟨1, .venue 0⟩, .closed 0] := rfl
  obtain ⟨o, o', h⟩ := (connect_contract calling hcalls closing).heard rfl
  have hdecided : closing.machine.state.attempts[0]?.map (·.progress) = some (.decided (.ok 0)) := rfl
  obtain rfl : o = .ok 0 := Progress.decided.inj (Option.some.inj (h.decided.symm.trans hdecided))
  obtain rfl : o' = .error .closed := (h.late (by simp [hdeeds]) 0 rfl).1
  exact ⟨hcalls, hdeeds, h⟩

end Conduit.Socket
