import Conduit.Proofs.Pipe.Close
import Conduit.Proofs.Socket.Actions

/-!
What sockets do with pipes. The part of a state that pipes are about is its bench: the ports, what
they are plugged into, the connections and the names of pipes. An operation makes one move of the
bench at most. What is done in it is told in the words that pipes use everywhere; in place of a
script, a port has the descriptor that it is plugged into.
-/

namespace Conduit.Pipe

open Dispatch

namespace Hub

/-- Closes ports one after the other; gives the requests to be woken. -/
def closeAll : Hub → List Nat → Hub × List Nat
  | h, [] => (h, [])
  | h, p :: ps => (((h.close p).1.closeAll ps).1, (h.close p).2 ++ ((h.close p).1.closeAll ps).2)

theorem length_close (h : Hub) (p : Nat) : (h.close p).1.ports.length = h.ports.length := by
  unfold close
  split
  · rfl
  · split
    · rfl
    · simp [submit, modifyPort]

theorem length_closeAll (h : Hub) (ps : List Nat) :
    (h.closeAll ps).1.ports.length = h.ports.length := by
  induction ps generalizing h with
  | nil => rfl
  | cons p ps ih => exact (ih _).trans (h.length_close p)

theorem isClosed_close (h : Hub) (p p' : Nat) :
    (h.close p).1.isClosed p' = (h.isClosed p' || decide (p' = p)) := by
  unfold close
  cases hp : h.ports[p]? with
  | none =>
    by_cases hpp : p' = p
    · simp [isClosed, hpp, hp]
    · simp [hpp]
  | some port =>
    dsimp only
    split
    · rename_i hc
      by_cases hpp : p' = p
      · simp [isClosed, hpp, hp, hc]
      · simp [hpp]
    · by_cases hpp : p' = p
      · simp [isClosed, submit, modifyPort, hpp, hp]
      · simp [isClosed, submit, modifyPort, hpp, Ne.symm hpp]

/-- The ports that are closed afterwards are those that were, and those that have been closed. -/
theorem isClosed_closeAll (h : Hub) (ps : List Nat) (p : Nat) :
    (h.closeAll ps).1.isClosed p = (h.isClosed p || decide (p ∈ ps)) := by
  induction ps generalizing h with
  | nil => simp [closeAll]
  | cons p' ps ih =>
    rw [closeAll, ih, isClosed_close, Bool.or_assoc, ← Bool.decide_or]
    simp

end Hub

/-- Ports are closed one after the other, while no turn of a request runs. -/
theorem Desk.closes {d : Desk} (hn : d.now = false) (ps : List Nat) : d.Moves [] { d with
    hub := (d.hub.closeAll ps).1
    ready := woken d.ready (d.hub.closeAll ps).2 } := by
  induction ps generalizing d with
  | nil => exact .none
  | cons p ps ih =>
    have hall := (Desk.Move.close (p := p) hn).moves.trans (ih hn)
    simpa only [Hub.closeAll, woken_append, List.nil_append] using hall

end Conduit.Pipe

namespace Conduit.Socket

open Dispatch
open Kernel (System)
open Pipe (Job Gathered)

/-- The part of a state that pipes are about. -/
structure Bench where
  hub : Pipe.Hub
  plugs : List Plug
  connections : List Connection
  pipes : List (String × Nat × Nat)
  collectors : Nat

def Sockets.bench (s : Sockets) : Bench where
  hub := s.hub
  plugs := s.plugs
  connections := s.connections
  pipes := s.pipes
  collectors := s.collectors.length

/-- The ports of the pipes that were made on a connection while it was open. -/
def Connection.ports (x : Connection) : List Nat := x.pipes.flatMap fun p => [p.1, p.2]

/-- The connection, closed. -/
def Connection.shut (x : Connection) : Connection :=
  { x with closed := true, descriptor := none, pipes := [] }

/-- What an operation closes. -/
inductive Cut where
  | nothing
  | ports (ps : List Nat)
  | connection (k : Nat)

/-- The ends of a new pipe. -/
def ends (limits : ChunkLimits) : List Pipe.Deed :=
  [.opened (.source {} limits), .opened (.sink {} limits)]

namespace Bench

/-- A new pipe under a name, plugged into the descriptor of a connection. -/
def plugged (b : Bench) (id : String) (k : Nat) (x : Connection) : Bench :=
  { b with
    hub := (b.hub.addPort x.limits.read).addPort x.limits.write
    plugs := b.plugs ++ [⟨x.descriptor, k⟩] ++ [⟨x.descriptor, k⟩]
    pipes := (id, b.hub.ports.length, b.hub.ports.length + 1) :: b.pipes.filter (·.1 ≠ id) }

/-- The moves of a bench: what is closed at most, what is done, and the requests that are woken. -/
inductive Move (b : Bench) : Cut → List Pipe.Deed → List Nat → Bench → Prop where
  | still (cut : Cut) : Move b cut [] [] b
  | forget {pipes} (h : ∀ e ∈ pipes, e ∈ b.pipes) : Move b .nothing [] [] { b with pipes }
  | meet (d : Nat) (limits : ChunkLimits) : Move b .nothing [] []
      { b with connections := b.connections ++ [{ descriptor := some d, limits }] }
  | plug (id : String) {k : Nat} {x : Connection} (hx : b.connections[k]? = some x)
      (ho : x.closed = false) : Move b .nothing (ends x.limits) [] { b.plugged id k x with
        connections := b.connections.set k
          { x with pipes := x.pipes ++ [(b.hub.ports.length, b.hub.ports.length + 1)] } }
  | plugShut (id : String) {k : Nat} {x : Connection} (hx : b.connections[k]? = some x)
      (hc : x.closed = true) : Move b .nothing (ends x.limits)
        ((b.plugged id k x).hub.closeAll [b.hub.ports.length, b.hub.ports.length + 1]).2
        { b.plugged id k x with
          hub := ((b.plugged id k x).hub.closeAll
            [b.hub.ports.length, b.hub.ports.length + 1]).1 }
  | shut {k : Nat} {x : Connection} (hx : b.connections[k]? = some x) (ho : x.closed = false) :
      Move b (.connection k) [] (b.hub.closeAll x.ports).2
        { b with
          hub := (b.hub.closeAll x.ports).1
          connections := b.connections.set k x.shut }
  | close (ps : List Nat) : Move b (.ports ps) [] (b.hub.closeAll ps).2
      { b with hub := (b.hub.closeAll ps).1 }
  | refuse {e p job} (he : e ∈ b.pipes) (hp : p = e.2.1 ∨ p = e.2.2) (hj : job.Initial)
      (hc : b.hub.isClosed p = true) :
      Move b .nothing [.asked b.collectors p job, .told b.collectors job.closedEvent] []
        { b with collectors := b.collectors + 1 }
  | ask {e p job} (he : e ∈ b.pipes) (hp : p = e.2.1 ∨ p = e.2.2) (hj : job.Initial)
      (hc : b.hub.isClosed p = false) :
      Move b .nothing [.asked b.collectors p job] [b.hub.requests.length]
        { b with
          hub := (b.hub.submit p job (some b.collectors)).1
          collectors := b.collectors + 1 }

end Bench

/-! ### What is done -/

/-- The request that a frame belongs to, and whether it has made its last report. -/
def Frame.request? : Frame → Option (Nat × Bool)
  | .serve r => some (r, false)
  | .finish r => some (r, true)
  | _ => none

/-- What is done when a request is issued. -/
def jobTraffic (s : Sockets) (p : Nat) (job : Job) : List Pipe.Deed :=
  .asked s.collectors.length p job ::
    if s.hub.isClosed p then [.told s.collectors.length job.closedEvent] else []

/-- The connection behind a name. -/
def Sockets.connectionOf? (s : Sockets) (id : String) : Option Nat :=
  match (s.handle? id).map s.stageOf with
  | some (.connected k) => some k
  | _ => none

/-- What is done when an action runs. -/
def execTraffic (s : Sockets) : Action → List Pipe.Deed
  | .pipe id _ =>
    match (s.connectionOf? id).bind (s.connections[·]?) with
    | some x => ends x.limits
    | none => []
  | .startRead pipe _ length =>
    match s.pipes.lookup pipe with
    | some ports => jobTraffic s ports.1 (.read length 0)
    | none => []
  | .startWrite pipe _ data =>
    match s.pipes.lookup pipe with
    | some ports => jobTraffic s ports.2 (.ofData data)
    | none => []
  | _ => []

/-- What an action closes. -/
def execCut (s : Sockets) : Action → Cut
  | .close id =>
    match s.connectionOf? id with
    | some k => .connection k
    | none => .nothing
  | .closePipe pipe =>
    match s.pipes.lookup pipe with
    | some ports => .ports [ports.1, ports.2]
    | none => .nothing
  | .closeEnd pipe writing =>
    match s.pipes.lookup pipe with
    | some ports => .ports [if writing then ports.2 else ports.1]
    | none => .nothing
  | _ => .nothing

/-- What a step of a request means to its collector. -/
def heardBy (k : Option Nat) : Pipe.Advance → List Pipe.Deed
  | .crash => k.toList.map (.lost · false)
  | .report e _ => k.toList.map (.told · e)
  | _ => []

/-- What is done when a request goes on. -/
def serveTraffic (s : Sockets) (r : Nat) : List Pipe.Deed :=
  (s.hub.uses devices (s.system, s.plugs) r).map (.used (s.collectorOf? r)) ++
    heardBy (s.collectorOf? r) (s.hub.advance devices (s.system, s.plugs) r).2.2.2

/-- What is done at a moment. -/
def trafficAt : Moment component → List Pipe.Deed
  | ⟨s, .exec _ a⟩ => execTraffic s a
  | ⟨s, .resume (.serve r)⟩ => serveTraffic s r
  | ⟨s, .poll (.request r)⟩ => serveTraffic s r
  | _ => []

/-- What was done with pipes at the moments of a run, in order. -/
def traffic (past : List (Moment component)) : List Pipe.Deed := past.flatMap trafficAt

@[simp] theorem traffic_append (past later : List (Moment component)) :
    traffic (past ++ later) = traffic past ++ traffic later := List.flatMap_append

/-- The connection that an outcome brings too late: the slot it was made for does not wait any
more. -/
def lateConnection? (s : Sockets) (a : Nat) : Option Nat :=
  match s.attempts[a]? with
  | some ⟨_, _, _, _, _, some i, _, .decided (.ok k)⟩ =>
    match s.slots[i]? with
    | some (.connecting _) => none
    | _ => some k
  | _ => none

/-- What is closed at a moment. -/
def cutAt : Moment component → Cut
  | ⟨s, .exec _ a⟩ => execCut s a
  | ⟨s, .resume (.conclude a)⟩ =>
    match lateConnection? s a with
    | some k => .connection k
    | none => .nothing
  | _ => .nothing

/-! ### The moves that actions make -/

namespace Sockets

variable (s : Sockets)

theorem closePorts_closeAll (ps : List Nat) : s.closePorts ps =
    ({ s with hub := (s.hub.closeAll ps).1 }, (s.hub.closeAll ps).2) := by
  have fold (ps : List Nat) (s : Sockets) (wakes : List Nat) : ps.foldl
      (fun acc p => ({ acc.1 with hub := (acc.1.hub.close p).1 }, acc.2 ++ (acc.1.hub.close p).2))
      (s, wakes) = ({ s with hub := (s.hub.closeAll ps).1 }, wakes ++ (s.hub.closeAll ps).2) := by
    induction ps generalizing s wakes with
    | nil => simp [Pipe.Hub.closeAll]
    | cons p ps ih => simp [Pipe.Hub.closeAll, ih]
  exact fold ps s []

/-- Closing a connection closes its ports, if it was open. -/
theorem closeConnection_move (k : Nat) :
    s.bench.Move (.connection k) [] (s.closeConnection k).2 (s.closeConnection k).1.bench := by
  unfold closeConnection
  split
  · exact .still _
  · rename_i x hx
    split
    · exact .still _
    · rename_i ho
      rw [Bool.not_eq_true] at ho
      dsimp only
      rw [closePorts_closeAll]
      exact .shut (b := s.bench) hx ho

theorem addPipe_move (id : String) (k : Nat) : s.bench.Move .nothing
    (match s.connections[k]? with | some x => ends x.limits | none => [])
    (s.addPipe id k).2 (s.addPipe id k).1.bench := by
  unfold addPipe
  cases hx : s.connections[k]? with
  | none => exact .still _
  | some x =>
    dsimp only
    split
    · rename_i hc
      rw [closePorts_closeAll]
      exact .plugShut (b := s.bench) id hx hc
    · rename_i ho
      rw [Bool.not_eq_true] at ho
      exact .plug (b := s.bench) id hx ho

theorem startJob_move {pipe : String} {ports : Nat × Nat} (hp : s.pipes.lookup pipe = some ports)
    (job : Option String) {p : Nat} (hpp : p = ports.1 ∨ p = ports.2) {work : Job}
    (hj : work.Initial) (gathered : Gathered) : s.bench.Move .nothing (jobTraffic s p work)
      (s.startJob job p work gathered).2 (s.startJob job p work gathered).1.bench := by
  have he : (pipe, ports) ∈ s.bench.pipes := by
    obtain ⟨l₁, l₂, he, -⟩ := List.lookup_eq_some_iff.mp hp
    show (pipe, ports) ∈ s.pipes
    exact he ▸ List.mem_append_right l₁ List.mem_cons_self
  unfold startJob jobTraffic
  dsimp only
  split
  · rename_i hc
    simpa [bench, modifyCollector] using Bench.Move.refuse (b := s.bench) he hpp hj hc
  · rename_i hc
    rw [Bool.not_eq_true] at hc
    simpa [bench, Pipe.Hub.submit] using Bench.Move.ask (b := s.bench) he hpp hj hc

end Sockets

/-- A turn that answers, leaves the bench alone and wakes nobody. -/
structure Apart (s : Sockets) (t : Turn signature) : Prop where
  bench : t.state.bench = s.bench
  wakes : t.wakes = []
  reply : ∃ r, t.next = .reply r

/-- A turn that makes a move of the bench and leaves no request to be gone on with. -/
structure Plies (s : Sockets) (cut : Cut) (ds : List Pipe.Deed) (t : Turn signature) : Prop where
  move : ∃ ws, s.bench.Move cut ds ws t.state.bench ∧ t.wakes = ws.map .request
  left : ∀ f ∈ t.next.left, f.request? = none

section Turns

variable {s : Sockets} {t : Turn signature}

theorem Plies.of_reply {cut : Cut} {ds : List Pipe.Deed}
    (h : ∃ ws, s.bench.Move cut ds ws t.state.bench ∧ t.wakes = ws.map .request)
    (hr : ∃ r, t.next = .reply r) : Plies s cut ds t := by
  obtain ⟨r, hr⟩ := hr
  exact ⟨h, by simp [hr, Next.left]⟩

theorem Apart.plies (h : Apart s t) (cut : Cut) : Plies s cut [] t :=
  .of_reply ⟨[], h.bench ▸ .still cut, h.wakes⟩ h.reply

theorem apart_reply {s' : Sockets} (h : s'.bench = s.bench) (a : Answer) : Apart s (s'.reply a) :=
  ⟨h, rfl, _, rfl⟩

theorem apart_state {s' : Sockets} (h : s'.bench = s.bench) : Apart s { state := s' } :=
  ⟨h, rfl, _, rfl⟩

theorem bench_setStage (s : Sockets) (id : String) (h : Handle) (st : Stage) :
    (s.setStage id h st).bench = s.bench := by
  cases h <;> rfl

theorem apart_fail {s' : Sockets} (hs : s'.bench = s.bench) (id : String) (h : Handle) (f : Fault) :
    Apart s (s'.fail id h f) := by
  cases h with
  | sole st =>
    have hforget : (s'.forget id).bench = s.bench := hs
    exact apart_reply hforget _
  | shared i => exact apart_reply hs _

theorem apart_bind (id : String) (h : Handle) (a : Address) (type : SocketType) :
    Apart s (s.bind id h a type) := by
  unfold Sockets.bind
  split
  · split
    · exact apart_fail (by rfl) id h _
    · exact ⟨(bench_setStage _ id h _).trans rfl, rfl, _, rfl⟩
  · exact apart_reply rfl _

theorem apart_listen (id : String) (h : Handle) (backlog : Int32) :
    Apart s (s.listen id h backlog) := by
  unfold Sockets.listen
  split
  · split
    · exact apart_fail rfl id h _
    · split
      · exact apart_fail rfl id h _
      · split
        · exact apart_fail (by exact (bench_setStage _ id h _).trans rfl) id h _
        · exact ⟨(bench_setStage _ id h _).trans rfl, rfl, _, rfl⟩
  · exact apart_reply rfl _

theorem apart_accept (h : Handle) (controller : String) (context : Context) :
    Apart s (s.accept h controller context) := by
  unfold Sockets.accept
  split <;> exact apart_reply (by rfl) _

theorem apart_startAttempt (sys : System) (id : String) (h : Handle) (x : Attempt) :
    Apart s ({ s with system := sys }.startAttempt id h x) := by
  cases h <;> exact apart_reply (by rfl) _

theorem apart_connect (id : String) (h : Handle) (target : Address) (type : SocketType)
    (ticket : Option Nat) (context : Context) :
    Apart s (s.connect id h target type ticket context) := by
  unfold Sockets.connect
  split
  · exact apart_startAttempt _ id h _
  · exact apart_startAttempt s.system id h _
  · exact apart_reply rfl _

theorem bench_keep (s : Sockets) (name : Option String) (k : Nat) :
    (s.keep name k).bench = s.bench := by
  cases name <;> rfl

theorem apart_connected (id name : String) (a : Nat) : Apart s (s.connected id name a) := by
  unfold Sockets.connected
  split
  · dsimp only
    split
    · exact ⟨(bench_keep _ (some name) _).trans rfl, rfl, _, rfl⟩
    · exact apart_reply (by rfl) _
  · exact apart_reply rfl _

theorem apart_next (c : Nat) (x : Acceptor) (name : Option String) (skipFaults : Bool) :
    Apart s (s.next c x name skipFaults) := by
  unfold Sockets.next
  dsimp only
  split
  · exact ⟨(bench_keep _ name _).trans rfl, rfl, _, rfl⟩
  · exact apart_reply (by rfl) _
  · exact apart_reply (by rfl) _

theorem apart_abort (id : String) : Apart s (s.abort id) := by
  unfold Sockets.abort
  split
  · split <;> exact apart_reply (by rfl) _
  · exact apart_reply rfl _

theorem bench_present (s : Sockets) (a : Address) : (s.present a).1.bench = s.bench := by
  obtain ⟨shown, h⟩ := s.note_eq a
  have hpresent : (s.present a).1 = { s with shown } := h
  rw [hpresent]
  rfl

theorem apart_access (id operation : String) {ask : Nat → Sockets × Answer}
    (h : ∀ d, (ask d).1.bench = s.bench) : Apart s (s.access id operation ask) := by
  unfold Sockets.access
  split
  · exact apart_reply rfl _
  · split
    · exact apart_reply rfl _
    · exact apart_reply rfl _
    · exact apart_reply (h _) _

theorem apart_askAddress (id operation : String) (kind : FaultKind)
    (ask : System → Nat → Except OsError Address) : Apart s (s.askAddress id operation kind ask) := by
  refine apart_access id operation fun d => ?_
  split
  · rfl
  · exact bench_present s _

theorem apart_askOption (id : String) (level name : Int32) :
    Apart s (s.askOption id level name) := by
  refine apart_access id "get_option" fun d => ?_
  split <;> rfl

theorem apart_save (id name : String) : Apart s (s.save id name) := by
  unfold Sockets.save
  split
  · exact apart_reply rfl _
  · exact ⟨(bench_present s _).trans rfl, rfl, _, rfl⟩

theorem apart_copy (id of : String) : Apart s (s.copy id of) := by
  unfold Sockets.copy
  split
  · exact apart_state rfl
  · exact apart_state rfl
  · exact apart_state rfl
  · exact apart_reply rfl _

theorem apart_describe (h : Handle) : Apart s ((s.describe h).1.reply (.text (s.describe h).2)) := by
  obtain ⟨shown, he⟩ := s.describe_eq h
  exact apart_reply (he ▸ rfl) _

theorem apart_cancel (t : Nat) : Apart s ((s.cancel t).1.reply (.flag (s.cancel t).2)) := by
  obtain ⟨tickets, h⟩ := s.cancel_eq t
  exact apart_reply (h ▸ rfl) _

/-- Closing a socket closes its connection, if it has one. -/
theorem close_plies {id : String} {h : Handle} (hh : s.handle? id = some h) :
    Plies s (execCut s (.close id)) [] ((s.close id h).1.done (s.close id h).2) := by
  refine .of_reply ⟨(s.close id h).2, ?_, rfl⟩ ⟨_, rfl⟩
  have hbench : (s.close id h).1.bench = (s.closeBehind (s.stageOf h)).1.bench :=
    bench_setStage _ id h _
  show s.bench.Move _ [] (s.close id h).2 (s.close id h).1.bench
  rw [hbench]
  show s.bench.Move _ [] (s.closeBehind (s.stageOf h)).2 _
  cases hst : s.stageOf h with
  | connected k =>
    simp only [execCut, Sockets.connectionOf?, hh, Option.map_some, hst]
    exact s.closeConnection_move k
  | _ => exact .still _

theorem pipe_plies {id : String} {h : Handle} (hh : s.handle? id = some h) (name : String) :
    Plies s .nothing (execTraffic s (.pipe id name)) (s.pipe h name) := by
  unfold Sockets.pipe
  cases hst : s.stageOf h with
  | connected k =>
    simp only [execTraffic, Sockets.connectionOf?, hh, Option.map_some, hst, Option.bind_some]
    exact .of_reply ⟨_, s.addPipe_move name k, rfl⟩ ⟨_, rfl⟩
  | _ =>
    simp only [execTraffic, Sockets.connectionOf?, hh, Option.map_some, hst, Option.bind_none]
    exact (apart_reply rfl _).plies _

end Turns

/-- Every action makes one move of the bench. -/
theorem run_plies (s : Sockets) (view : View) (act : Action) :
    Plies s (execCut s act) (execTraffic s act) (s.run view act) := by
  have apart {t : Turn signature} (cut : Cut) (h : Apart s t) : Plies s cut [] t := h.plies cut
  cases act with
  | socket id shared options limits =>
    cases shared <;> exact apart _ (apart_reply (by rfl) _)
  | bind id target type =>
    exact apart _ (withAddress_cases (P := Apart s) (apart_reply rfl _) fun a =>
      withHandle_cases (P := Apart s) (apart_reply rfl _) fun h _ => apart_bind id h a type)
  | listen id backlog =>
    exact apart _ (withHandle_cases (P := Apart s) (apart_reply rfl _) fun h _ =>
      apart_listen id h backlog)
  | accept id controller context =>
    exact apart _ (withHandle_cases (P := Apart s) (apart_reply rfl _) fun h _ =>
      withContext_cases (P := Apart s) ⟨rfl, rfl, _, rfl⟩ fun c => apart_accept h controller c)
  | next controller name skipFaults =>
    exact apart _ (withController_cases (P := Apart s) (apart_reply rfl _) fun c x =>
      apart_next c x name skipFaults)
  | glance controller =>
    exact apart _ (withController_cases (P := Apart s) (apart_reply rfl _) fun c x =>
      apart_reply (by rfl) _)
  | stop controller =>
    exact apart _ (withController_cases (P := Apart s) (apart_reply rfl _) fun c x =>
      apart_reply (by rfl) _)
  | connect id target type ticket context =>
    refine apart _ (withAddress_cases (P := Apart s) (apart_reply rfl _) fun a =>
      withHandle_cases (P := Apart s) (apart_reply rfl _) fun h _ =>
        withContext_cases (P := Apart s) ⟨rfl, rfl, _, rfl⟩ fun c => ?_)
    cases ticket with
    | none => exact apart_connect id h a type none c
    | some name =>
      exact withTicket_cases (P := Apart s) (apart_reply rfl _) fun t =>
        apart_connect id h a type (some t) c
  | connected id name =>
    refine apart _ ?_
    simp only [Sockets.run]
    split
    · exact apart_reply rfl _
    · exact apart_connected id name _
  | abort id => exact apart _ (apart_abort id)
  | ticket id => exact apart _ (apart_state (by rfl))
  | cancel id =>
    exact apart _ (withTicket_cases (P := Apart s) (apart_reply rfl _) fun t => apart_cancel t)
  | cancelAfter id ms =>
    exact apart _ (withTicket_cases (P := Apart s) (apart_reply rfl _) fun t =>
      apart_state (by rfl))
  | localAddress id => exact apart _ (apart_askAddress id _ _ _)
  | peerAddress id => exact apart _ (apart_askAddress id _ _ _)
  | option id level name => exact apart _ (apart_askOption id level name)
  | save id name => exact apart _ (apart_save id name)
  | close id =>
    cases hh : s.handle? id with
    | none =>
      have hrun : s.run view (.close id) = s.reply .unknownSocket := by simp [Sockets.run, hh]
      rw [hrun]
      exact apart _ (apart_reply rfl _)
    | some h =>
      have hrun : s.run view (.close id) = (s.close id h).1.done (s.close id h).2 := by
        simp [Sockets.run, hh]
      rw [hrun]
      exact close_plies hh
  | drop id => exact apart _ (apart_reply (by rfl) _)
  | copy id of => exact apart _ (apart_copy id of)
  | describe id =>
    refine apart _ ?_
    simp only [Sockets.run]
    split
    · exact apart_reply rfl _
    · exact apart_describe _
  | pipe id name =>
    cases hh : s.handle? id with
    | none =>
      have hrun : s.run view (.pipe id name) = s.reply .wrongStage := by
        simp [Sockets.run, Sockets.withHandle, hh]
      have hnone : execTraffic s (.pipe id name) = [] := by
        simp [execTraffic, Sockets.connectionOf?, hh]
      rw [hrun, hnone]
      exact apart _ (apart_reply rfl _)
    | some h =>
      have hrun : s.run view (.pipe id name) = s.pipe h name := by
        simp [Sockets.run, Sockets.withHandle, hh]
      rw [hrun]
      exact pipe_plies hh name
  | startRead pipe job length =>
    cases hp : s.pipes.lookup pipe with
    | none =>
      simp only [Sockets.run, Sockets.withPipe, execTraffic, hp]
      exact apart _ (apart_reply rfl _)
    | some ports =>
      simp only [Sockets.run, Sockets.withPipe, execTraffic, hp]
      exact .of_reply ⟨_, s.startJob_move hp job (.inl rfl) (Pipe.Job.initial_read length) _, rfl⟩
        ⟨_, rfl⟩
  | startWrite pipe job data =>
    cases hp : s.pipes.lookup pipe with
    | none =>
      simp only [Sockets.run, Sockets.withPipe, execTraffic, hp]
      exact apart _ (apart_reply rfl _)
    | some ports =>
      simp only [Sockets.run, Sockets.withPipe, execTraffic, hp]
      exact .of_reply ⟨_, s.startJob_move hp job (.inr rfl) (Pipe.Job.initial_ofData data) _, rfl⟩
        ⟨_, rfl⟩
  | finish job =>
    refine apart _ ?_
    simp only [Sockets.run]
    split
    · exact apart_reply rfl _
    · split
      · exact apart_reply rfl _
      · rename_i hfinish
        obtain ⟨o, -, ho⟩ := Option.map_eq_some_iff.mp hfinish
        cases ho
        exact apart_reply (by rfl) _
  | closePipe pipe =>
    cases hp : s.pipes.lookup pipe with
    | none =>
      simp only [Sockets.run, Sockets.withPipe, hp]
      exact apart _ (apart_reply rfl _)
    | some ports =>
      simp only [Sockets.run, Sockets.withPipe, execCut, hp, Sockets.closePorts_closeAll]
      exact .of_reply ⟨_, .close (b := s.bench) _, rfl⟩ ⟨_, rfl⟩
  | closeEnd pipe writing =>
    cases hp : s.pipes.lookup pipe with
    | none =>
      simp only [Sockets.run, Sockets.withPipe, hp]
      exact apart _ (apart_reply rfl _)
    | some ports =>
      simp only [Sockets.run, Sockets.withPipe, execCut, hp, Sockets.closePorts_closeAll]
      exact .of_reply ⟨_, .close (b := s.bench) _, rfl⟩ ⟨_, rfl⟩
  | dropPipe pipe =>
    exact .of_reply ⟨[], .forget (b := s.bench) fun e he => (List.mem_filter.mp he).1, rfl⟩ ⟨_, rfl⟩
  | limit on => exact apart _ (apart_state (by rfl))

end Conduit.Socket
