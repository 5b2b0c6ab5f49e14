import Conduit.Proofs.Pipe.Close
import Conduit.Proofs.Socket.Plumbing

/-!
Closing a connection. Every pipe made on it, before or afterwards and by whatever name, is closed
then; the requests on such a pipe end with the report that it is closed, and nothing is told of the
descriptor. Only a read that needs a larger buffer than there can be is lost: it ends without a
report, before the close or after it. Closing a pipe, or one end of it, closes neither the connection
nor another pipe.
-/

namespace Conduit.Socket

open Dispatch
open Kernel (Whim)
open Pipe (Closing)

/-- The connection `k` is closed. -/
def Sockets.Shut (s : Sockets) (k : Nat) : Prop :=
  ∃ x, s.connections[k]? = some x ∧ x.closed = true

/-- A pipe was made on the connection `k`, by one of its names: `p` is the port to read from, and
the next one that to write to. -/
def Made (past : List (Moment component)) (k p : Nat) : Prop :=
  ∃ s view id name, ⟨s, .exec view (.pipe id name)⟩ ∈ past ∧ s.connectionOf? id = some k ∧
    k < s.connections.length ∧ p = s.hub.ports.length

/-- An end of the pipe whose ports are `p` and the next one. -/
def IsEnd (p e : Nat) : Prop := e = p ∨ e = p + 1

/-- An action that asks a socket for something of its descriptor. -/
inductive Action.Asks (id : String) : Action → Prop where
  | localAddress : Asks id (.localAddress id)
  | peerAddress : Asks id (.peerAddress id)
  | option (level name : Int32) : Asks id (.option id level name)

/-- The connection `k` is closed at a moment: a socket that stands for it is, or it comes too late
for the socket that it was made for. -/
def Ends (k : Nat) (q : Moment component) : Prop :=
  (∃ view id, q.cause = .exec view (.close id) ∧ q.state.connectionOf? id = some k) ∨
    ∃ a, q.cause = .resume (.conclude a) ∧ lateConnection? q.state a = some k

/-- The port `e` is closed at a moment, with its pipe or alone. -/
def Unplugs (e : Nat) (q : Moment component) : Prop :=
  ∃ view name ports, q.state.pipes.lookup name = some ports ∧
    (q.cause = .exec view (.closePipe name) ∧ (e = ports.1 ∨ e = ports.2) ∨
      ∃ writing, q.cause = .exec view (.closeEnd name writing) ∧
        e = if writing then ports.2 else ports.1)

/-- What becomes of a connection that is closed, and of its pipes. -/
structure ShutContract {m : Machine component} (x : Execution m) (y : Execution x.machine)
    (k : Nat) : Prop where
  stays : y.machine.state.Shut k
  shuts : ∀ p e, Made (x.past ++ y.past) k p → IsEnd p e →
    ∃ port, y.machine.state.hub.ports[e]? = some port ∧ port.closed = true
  /-- When nothing is left to do, each request that was not over or lost has made one report. -/
  closing : ∀ p e, Made (x.past ++ y.past) k p → IsEnd p e →
    Closing (traffic x.past) (traffic y.past) e (y.machine.advance? = none)
  /-- A request is lost only if it needs a larger buffer than there can be. -/
  lost : ∀ p e, Made (x.past ++ y.past) k p → IsEnd p e → ∀ j job,
    .asked j e job ∈ traffic (x.past ++ y.past) → Pipe.Gone j (traffic (x.past ++ y.past)) →
    ∃ port, y.machine.state.hub.ports[e]? = some port ∧ Pipe.Hub.overflows port.chunk job = true
  refuses : ∀ id a view, y.machine.state.connectionOf? id = some k → a.Asks id →
    component.exec view y.machine.state a =
      Sockets.tidy (y.machine.state.reply (.failed .closed))
  opens : ∀ id name view, y.machine.state.connectionOf? id = some k →
    (component.exec view y.machine.state (.pipe id name)).next = .reply (.own (.opened true))

/-- How a connection and its pipes are closed. -/
structure ConnectionContract {m : Machine component} (x : Execution m) (y : Execution x.machine)
    (k : Nat) : Prop where
  shut : x.machine.state.Shut k → ShutContract x y k
  /-- A connection is closed by nothing that is done to a pipe. -/
  ended : k < x.machine.state.connections.length → ¬x.machine.state.Shut k →
    y.machine.state.Shut k → ∃ q ∈ y.past, Ends k q
  /-- An end of a pipe is closed with the connection, or by itself or with its pipe. -/
  unplugged : ∀ p e, Made x.past k p → IsEnd p e → x.machine.state.hub.isClosed e = false →
    y.machine.state.hub.isClosed e = true → ∃ q ∈ y.past, Ends k q ∨ Unplugs e q
  /-- Different pipes have no port in common. -/
  made : ∀ p, Made (x.past ++ y.past) k p → 2 ∣ p
  named : ∀ name ports, y.machine.state.pipes.lookup name = some ports →
    2 ∣ ports.1 ∧ ports.2 = ports.1 + 1

/-! ### Pipes as they are made -/

section Making

variable {c c' : Config component}

/-- An action has run: how it left the bench. -/
theorem Plumbed.bench_exec (hc : Plumbed c) {view : View} {a : Action}
    (h : c.Step (some (.exec view a)) c') :
    c'.state.bench = (c.state.run view a).state.bench := by
  cases h with
  | exec hn ht => exact (Passed.of_takes ht hn hc.idle (run_plies c.state view a).left).bench

theorem stage_of_connectionOf? {s : Sockets} {id : String} {k : Nat}
    (h : s.connectionOf? id = some k) :
    ∃ handle, s.handle? id = some handle ∧ s.stageOf handle = .connected k := by
  unfold Sockets.connectionOf? at h
  cases hh : s.handle? id with
  | none => simp [hh] at h
  | some handle =>
    rw [hh, Option.map_some] at h
    refine ⟨handle, rfl, ?_⟩
    cases hst : s.stageOf handle with
    | connected j => simpa [hst] using h
    | _ => simp [hst] at h

theorem run_pipe {s : Sockets} {id : String} {k : Nat} (h : s.connectionOf? id = some k)
    (view : View) (name : String) : s.run view (.pipe id name) =
      { state := (s.addPipe name k).1
        wakes := (s.addPipe name k).2.map .request
        next := .reply (.own (.opened (s.isClosed (.connected k)))) } := by
  obtain ⟨handle, hh, hst⟩ := stage_of_connectionOf? h
  simp [Sockets.run, Sockets.withHandle, hh, Sockets.pipe, hst]

theorem plugs_addPipe {s : Sockets} {k : Nat} {x : Connection} (hx : s.connections[k]? = some x)
    (name : String) : (s.addPipe name k).1.bench.plugs =
      s.plugs ++ [⟨x.descriptor, k⟩] ++ [⟨x.descriptor, k⟩] := by
  unfold Sockets.addPipe
  rw [hx]
  dsimp only
  split
  · rw [Sockets.closePorts_closeAll]
    rfl
  · rfl

/-- What a run leaves of a bench. -/
theorem Recorded.leaves {m₀ m : Machine component} {past : List (Moment component)}
    {h : List Pipe.Deed} (hc : Recorded m₀.config h) (hr : Run m₀ past m) :
    m₀.state.bench.Leaves (past.map cutAt) m.state.bench := by
  have := hc.induction hr (fun past c => m₀.state.bench.Leaves (past.map cutAt) c.state.bench) ?_ ?_
  · simpa using this.2
  · rw [Machine.config_state]
    exact .refl _ _
  · intro past c moments c' _ _ hp hl
    rw [List.map_append]
    exact hl.trans hp.leaves

theorem getElem?_pair {plugs later : List Plug} {plug : Plug} {n e : Nat}
    (hn : plugs.length = n) (he : IsEnd n e) :
    (plugs ++ [plug] ++ [plug] ++ later)[e]? = some plug := by
  subst hn
  rcases he with rfl | rfl <;> simp

variable {m : Machine component} [Blank m]

/-- The ports of a pipe are plugged into the connection that it was made on, and the descriptor that
this one had. -/
theorem plug_of_pipe (x : Execution m) {s : Sockets} {view : View} {id name : String}
    {k e : Nat} {connection : Connection} (hq : ⟨s, .exec view (.pipe id name)⟩ ∈ x.past)
    (hk : s.connectionOf? id = some k) (hconnection : s.connections[k]? = some connection)
    (he : IsEnd s.hub.ports.length e) : 2 ∣ s.hub.ports.length ∧
      x.machine.state.plugs[e]? = some ⟨connection.descriptor, k⟩ := by
  obtain ⟨past₁, m₁, m₂, past₂, h₁, hm, hstep, h₂, -⟩ := x.run.split hq (by simp)
  obtain ⟨_, hcause, heq⟩ := Option.map_eq_some_iff.mp hm
  cases heq
  have hc := recorded ⟨past₁, m₁, h₁⟩
  have hc' := recorded ⟨_, m₂, h₁.advance hstep⟩
  have hwired : m₁.state.bench.Wired := m₁.config_state ▸ hc.plumbed.wired
  have hconfig := Machine.advance?_config hstep
  rw [hcause] at hconfig
  have hbench := hc.plumbed.bench_exec hconfig
  rw [Machine.config_state, Machine.config_state, run_pipe hk] at hbench
  have hplugs : m₂.state.bench.plugs = _ := congrArg Bench.plugs hbench
  rw [plugs_addPipe hconnection] at hplugs
  obtain ⟨later, hlater⟩ := (hc'.leaves h₂).plugs
  have hlen : m₁.state.bench.plugs.length = m₁.state.bench.hub.ports.length := hwired.plugs
  refine ⟨hwired.even, ?_⟩
  show x.machine.state.bench.plugs[e]? = _
  rw [← hlater, hplugs]
  exact getElem?_pair hlen he

theorem plugged_of_made (x : Execution m) {k p e : Nat} (h : Made x.past k p)
    (he : IsEnd p e) : 2 ∣ p ∧ ∃ plug : Plug, x.machine.state.plugs[e]? = some plug ∧
      plug.connection = k := by
  obtain ⟨s, view, id, name, hq, hk, hlt, rfl⟩ := h
  obtain ⟨heven, hplug⟩ := plug_of_pipe x hq hk (List.getElem?_eq_getElem hlt) he
  exact ⟨heven, _, hplug, rfl⟩

/-- Named pipes stand for two ports that were made together. -/
theorem named_pair (x : Execution m) {name : String} {ports : Nat × Nat}
    (h : x.machine.state.pipes.lookup name = some ports) : 2 ∣ ports.1 ∧ ports.2 = ports.1 + 1 := by
  have hwired := (recorded x).plumbed.wired
  rw [Machine.config_state] at hwired
  obtain ⟨l₁, l₂, hl, -⟩ := List.lookup_eq_some_iff.mp h
  have hmem : (name, ports) ∈ x.machine.state.pipes :=
    hl ▸ List.mem_append_right l₁ List.mem_cons_self
  obtain ⟨heven, hnext, -⟩ := hwired.named _ hmem
  exact ⟨heven, hnext⟩

end Making

/-! ### What is done after a connection was closed -/

section Shut

/-- A machine with nothing to do serves no request and has none to serve. -/
theorem pipeDesk_of_settled {m : Machine component} (h : m.advance? = none) :
    (pipeDesk m.config).current = none ∧ (pipeDesk m.config).ready = [] := by
  obtain ⟨hnext, -, hready⟩ := Machine.config_of_settled h
  exact ⟨current_of_next hnext, congrArg (List.filterMap Task.request?) hready⟩

/-- A request is lost for want of a buffer alone. -/
theorem not_thrown (k : Nat) (past : List (Moment component)) : .lost k true ∉ traffic past := by
  have job (s : Sockets) (p : Nat) (job : Pipe.Job) : .lost k true ∉ jobTraffic s p job := by
    unfold jobTraffic
    split <;> simp
  have exec (s : Sockets) (a : Action) : .lost k true ∉ execTraffic s a := by
    unfold execTraffic
    split
    · split <;> simp [ends]
    · split
      · exact job _ _ _
      · simp
    · split
      · exact job _ _ _
      · simp
    · simp
  have serve (s : Sockets) (r : Nat) : .lost k true ∉ serveTraffic s r := by
    unfold serveTraffic heardBy
    split <;> simp
  intro h
  obtain ⟨q, -, h⟩ := List.mem_flatMap.mp h
  unfold trafficAt at h
  split at h
  · exact exec _ _ h
  · exact serve _ _ h
  · exact serve _ _ h
  · cases h

/-- A request that is lost needed a large buffer from the beginning. -/
theorem crashed {m : Machine component} [Blank m] (x : Execution m) :
    (pipeDesk x.machine.config).Crashed (traffic x.past) := by
  have := recorded_start.induction x.run (fun past c => (pipeDesk c).Crashed (traffic past)) ?_ ?_
  · exact this.2
  · simp [Pipe.Desk.Crashed, traffic]
  · intro past c moments c' hc _ hp hcrashed
    rw [traffic_append]
    exact hcrashed.moves hc.plumbed.sound hc.ledger hp.moves

theorem overflows_of_gone {m : Machine component} [Blank m] (x : Execution m) {j e : Nat}
    {job : Pipe.Job} (hasked : .asked j e job ∈ traffic x.past)
    (hgone : Pipe.Gone j (traffic x.past)) : ∃ port, x.machine.state.hub.ports[e]? = some port ∧
      Pipe.Hub.overflows port.chunk job = true := by
  obtain ⟨thrown, hlost⟩ := hgone
  cases thrown with
  | true => exact absurd hlost (not_thrown j x.past)
  | false => exact x.machine.config_state ▸ crashed x j e job hasked hlost

variable {c c' : Config component} {d₀ : Pipe.Desk} {h₀ later : List Pipe.Deed} {k : Nat}
  {moments : List (Moment component)}

/-- What is known while the connection `k` is closed, which it was when the desk was `d₀`: its ports
are stilled. -/
structure Hung (c : Config component) (k : Nat) (d₀ : Pipe.Desk) (h₀ later : List Pipe.Deed) :
    Prop where
  shut : c.state.Shut k
  keeps : c.state.hub.Keeps d₀.hub
  receivers : d₀.receivers ≤ c.state.collectors.length
  ports : ∀ (p : Nat) (plug : Plug), c.state.plugs[p]? = some plug → plug.connection = k →
    (pipeDesk c).Stilled p d₀.receivers h₀ later

/-- The ports of a closed connection are closed. -/
theorem Plumbed.shut (hc : Plumbed c) (hk : c.state.Shut k) {p : Nat} {plug : Plug}
    (hp : c.state.plugs[p]? = some plug) (hplug : plug.connection = k) : (pipeDesk c).Shut p := by
  obtain ⟨x, hx, hclosed⟩ := hk
  subst hplug
  obtain ⟨x', hx', hfits⟩ := hc.wired.plugged p plug hp
  obtain rfl : x = x' := Option.some.inj (hx.symm.trans hx')
  have hlt : p < c.state.hub.ports.length :=
    hc.wired.plugs ▸ (List.getElem?_eq_some_iff.mp hp).1
  have hshut : c.state.hub.isClosed p = true := hfits.shut hclosed
  refine ⟨_, List.getElem?_eq_getElem hlt, ?_⟩
  simpa [Pipe.Hub.isClosed, hlt] using hshut

theorem Recorded.hung (hc : Recorded c h₀) (hk : c.state.Shut k) :
    Hung c k (pipeDesk c) h₀ [] := by
  refine ⟨hk, .refl _, Nat.le_refl _, fun p plug hp hplug => ?_⟩
  have hshut := hc.plumbed.shut hk hp hplug
  exact ⟨hshut, Nat.le_refl _, rfl, by simp, by simp [Pipe.issued]⟩

/-- A closed connection stays closed. -/
theorem Bench.Leaves.shut {s s' : Sockets} {cuts : List Cut} (hl : s.bench.Leaves cuts s'.bench)
    (hk : s.Shut k) : s'.Shut k := by
  obtain ⟨x, hx, hclosed⟩ := hk
  obtain ⟨x', hx', h⟩ := hl.connections k x hx
  refine ⟨x', hx', ?_⟩
  rcases h with h | ⟨ho, -⟩
  · exact h.trans hclosed
  · exact absurd (ho.symm.trans hclosed) nofun

/-- A step leaves the ports of a closed connection stilled, and so are those that it makes. -/
theorem Hung.step (hh : Hung c k d₀ h₀ later) (hc : Recorded c (h₀ ++ later))
    (hc' : Recorded c' (h₀ ++ (later ++ traffic moments))) (hp : Proceeds c moments c') :
    Hung c' k d₀ h₀ (later ++ traffic moments) := by
  have hshut := hp.leaves.shut hh.shut
  have hreceivers : d₀.receivers ≤ c'.state.collectors.length :=
    Nat.le_trans hh.receivers hp.moves.receivers_le
  refine ⟨hshut, hp.moves.keeps.trans hh.keeps, hreceivers, fun p plug hplug hk => ?_⟩
  by_cases hlt : p < c.state.plugs.length
  · -- The port was there before.
    have hold : c.state.plugs[p]? = some plug := by
      obtain ⟨l, hl⟩ := hp.leaves.plugs
      have : c'.state.plugs[p]? = c.state.plugs[p]? := by
        rw [show c'.state.plugs = c.state.plugs ++ l from hl.symm, List.getElem?_append_left hlt]
      exact this ▸ hplug
    exact (hh.ports p plug hold hk).moves hc.plumbed.sound hc.ledger hp.moves
  · -- It is new; nothing can have been done on it.
    have hle : c.state.hub.ports.length ≤ p := hc.plumbed.wired.plugs ▸ Nat.not_lt.mp hlt
    obtain ⟨huses, hissued⟩ := (hc.silent.append hp.silent) p hle
    rw [List.append_assoc, Pipe.usesOf_append, List.append_eq_nil_iff] at huses
    rw [List.append_assoc] at hissued
    exact (hc'.plumbed.shut hshut hplug hk).stilled hreceivers huses.2 hissued

/-- Once a connection was closed, its ports are stilled. -/
theorem hung {m : Machine component} [Blank m] (x : Execution m) (y : Execution x.machine) {k : Nat}
    (hk : x.machine.state.Shut k) :
    Hung y.machine.config k (pipeDesk x.machine.config) (traffic x.past) (traffic y.past) := by
  have hx := recorded x
  rw [← x.machine.config_state] at hk
  refine (hx.induction y.run (fun past c =>
    Hung c k (pipeDesk x.machine.config) (traffic x.past) (traffic past)) (hx.hung hk) ?_).2
  intro past c moments c' hc hc' hp hh
  rw [traffic_append] at hc' ⊢
  exact hh.step hc hc' hp

end Shut

/-! ### What is asked of a closed connection -/

section Refusals

variable {s : Sockets} {id : String} {k : Nat}

/-- A closed connection gives no access to a descriptor. -/
theorem access_closed (hs : s.bench.Wired) (h : s.connectionOf? id = some k) (hk : s.Shut k)
    (operation : String) (ask : Nat → Sockets × Answer) :
    s.access id operation ask = s.reply (.failed .closed) := by
  obtain ⟨handle, hh, hst⟩ := stage_of_connectionOf? h
  obtain ⟨x, hx, hclosed⟩ := hk
  have hnone : x.descriptor = none := (hs.held k x hx).mp hclosed
  simp [Sockets.access, hh, hst, Sockets.descriptor?, hx, hnone, opened]

theorem run_asks (hs : s.bench.Wired) (h : s.connectionOf? id = some k) (hk : s.Shut k)
    {a : Action} (ha : a.Asks id) (view : View) : s.run view a = s.reply (.failed .closed) := by
  cases ha <;> exact access_closed hs h hk _ _

end Refusals

/-! ### What closes -/

section Cuts

theorem execCut_connection {s : Sockets} {a : Action} {k : Nat} (h : execCut s a = .connection k) :
    ∃ id, a = .close id ∧ s.connectionOf? id = some k := by
  unfold execCut at h
  split at h
  · split at h
    · rename_i hj
      cases h
      exact ⟨_, rfl, hj⟩
    · cases h
  · split at h <;> cases h
  · split at h <;> cases h
  · cases h

theorem execCut_ports {s : Sockets} {a : Action} {ps : List Nat} (h : execCut s a = .ports ps) :
    ∃ name ports, s.pipes.lookup name = some ports ∧
      (a = .closePipe name ∧ ps = [ports.1, ports.2] ∨
        ∃ writing, a = .closeEnd name writing ∧ ps = [if writing then ports.2 else ports.1]) := by
  unfold execCut at h
  split at h
  · split at h <;> cases h
  · split at h
    · rename_i hports
      cases h
      exact ⟨_, _, hports, .inl ⟨rfl, rfl⟩⟩
    · cases h
  · split at h
    · rename_i hports
      cases h
      exact ⟨_, _, hports, .inr ⟨_, rfl, rfl⟩⟩
    · cases h
  · cases h

variable {q : Moment component} {k e : Nat}

theorem ends_of_cut (h : cutAt q = .connection k) : Ends k q := by
  obtain ⟨s, cause⟩ := q
  unfold cutAt at h
  split at h
  · rename_i s view a heq
    cases heq
    obtain ⟨id, rfl, hid⟩ := execCut_connection h
    exact .inl ⟨view, id, rfl, hid⟩
  · rename_i s a heq
    cases heq
    split at h
    · rename_i hj
      cases h
      exact .inr ⟨a, rfl, hj⟩
    · cases h
  · cases h

theorem unplugs_of_cut (h : (cutAt q).Takes e k) : Ends k q ∨ Unplugs e q := by
  cases hcut : cutAt q with
  | nothing => simp [hcut, Cut.Takes] at h
  | connection j =>
    rw [hcut] at h
    obtain rfl : j = k := h
    exact .inl (ends_of_cut hcut)
  | ports ps =>
    rw [hcut] at h
    replace h : e ∈ ps := h
    obtain ⟨s, cause⟩ := q
    unfold cutAt at hcut
    split at hcut
    · rename_i s view a heq
      cases heq
      obtain ⟨name, ports, hports, ⟨rfl, rfl⟩ | ⟨writing, rfl, rfl⟩⟩ := execCut_ports hcut
      · exact .inr ⟨view, name, ports, hports, .inl ⟨rfl, by simpa using h⟩⟩
      · exact .inr ⟨view, name, ports, hports, .inr ⟨writing, rfl, by simpa using h⟩⟩
    · split at hcut <;> cases hcut
    · cases hcut

end Cuts

/-- A connection that is closed in a run is closed at one of its moments. -/
theorem ends_of_shut {m : Machine component} [Blank m] {x : Execution m} {y : Execution x.machine}
    {k : Nat} (hlt : k < x.machine.state.connections.length) (ho : ¬x.machine.state.Shut k)
    (hk : y.machine.state.Shut k) : ∃ q ∈ y.past, Ends k q := by
  have hleaves : x.machine.state.bench.Leaves (y.past.map cutAt) y.machine.state.bench :=
    (recorded x).leaves y.run
  obtain ⟨c', hc', hclosed⟩ := hk
  obtain ⟨c, hc, h⟩ := hleaves.connections k _ (List.getElem?_eq_getElem hlt)
  obtain rfl : c' = c := Option.some.inj (hc'.symm.trans hc)
  rcases h with h | ⟨-, h⟩
  · exact absurd ⟨_, List.getElem?_eq_getElem hlt, h.symm.trans hclosed⟩ ho
  · obtain ⟨q, hq, hcut⟩ := List.mem_map.mp h
    exact ⟨q, hq, ends_of_cut hcut⟩

/-! ### The contract -/

section Contract

variable {m : Machine component} [Blank m] {x : Execution m} {y : Execution x.machine} {k : Nat}

theorem shutContract (hk : x.machine.state.Shut k) : ShutContract x y k := by
  have hh := hung x y hk
  have hz := recorded (x.andThen y)
  have hwired : y.machine.state.bench.Wired := y.machine.config_state ▸ hz.plumbed.wired
  have hshut : y.machine.state.Shut k := y.machine.config_state ▸ hh.shut
  have stilled {p e : Nat} (hm : Made (x.past ++ y.past) k p) (he : IsEnd p e) :
      (pipeDesk y.machine.config).Stilled e (pipeDesk x.machine.config).receivers
        (traffic x.past) (traffic y.past) := by
    obtain ⟨-, plug, hplug, hk⟩ := plugged_of_made (x.andThen y) hm he
    rw [← (x.andThen y).machine.config_state] at hplug
    exact hh.ports e plug hplug hk
  refine ⟨hshut, fun p e hm he => ?_, fun p e hm he => ?_,
    fun p e _ _ j job => overflows_of_gone (x.andThen y), fun id a view h ha => ?_,
    fun id name view h => ?_⟩
  · obtain ⟨port, hport, hclosed⟩ := (stilled hm he).shut
    exact ⟨port, y.machine.config_state ▸ hport, hclosed⟩
  · have haccounts := hz.ledger.accounts
    rw [show traffic (x.andThen y).past = _ from traffic_append ..] at haccounts
    exact ((stilled hm he).closing hz.plumbed.sound (recorded x).ledger.accounts (Nat.le_refl _)
      haccounts hh.keeps (not_thrown · y.past)).mono pipeDesk_of_settled
  · exact congrArg Sockets.tidy (run_asks hwired h hshut ha view)
  · obtain ⟨c, hc, hclosed⟩ := hshut
    have hrun := congrArg (fun t : Turn signature => t.next) (run_pipe h view name)
    have : y.machine.state.isClosed (.connected k) = true := by
      simp [Sockets.isClosed, hc, hclosed]
    rw [this] at hrun
    exact hrun

/-- A connection and its pipes. When the connection is closed, all its pipes are, and everything on
them and on it is refused; nothing that is done to one of its pipes closes the connection or another
of them. -/
theorem connection_contract {reachable : Bool} {whims : List Whim}
    (x : Execution (opening reachable whims)) (y : Execution x.machine) (k : Nat) :
    ConnectionContract x y k := by
  have hleaves : x.machine.state.bench.Leaves (y.past.map cutAt) y.machine.state.bench :=
    (recorded x).leaves y.run
  refine ⟨shutContract, ends_of_shut, fun p e hm he ho hclosed => ?_, fun p hm =>
    (plugged_of_made (x.andThen y) hm (.inl rfl)).1, fun name ports => named_pair (x.andThen y)⟩
  · obtain ⟨-, plug, hplug, rfl⟩ := plugged_of_made x hm he
    rcases hleaves.ports e plug hplug with h | ⟨-, cut, hcut, h⟩
    · exact absurd (hclosed.symm.trans (h.trans ho)) nofun
    · obtain ⟨q, hq, rfl⟩ := List.mem_map.mp hcut
      exact ⟨q, hq, unplugs_of_cut h⟩

end Contract

/-- A socket connects and gets another name. A read waits on a pipe of it. -/
def waitingRead : Execution (opening false []) :=
  let address : Address := .unix ((UnixPath.ofBytes? [112]).getD .unnamed)
  (ExecutionBy.begin (opening false [])).perform 10
    [.own (.socket "server" false [] default), .own (.bind "server" (.known address) .stream),
      .own (.listen "server" 1), .own (.socket "client" false [] default),
      .own (.connect "client" (.known address) .stream none ""), .own (.connected "client" "one"),
      .own (.copy "other" "one"), .own (.pipe "one" "early"),
      .own (.startRead "early" (some "read") 4)]

/-- The socket is closed by its other name. -/
def hungUp : Execution (opening false []) := (waitingRead.request (.own (.close "other"))).advance

/-- Everything runs that is left to run; then a pipe is made, and a write is started on it. -/
def afterwards : Execution hungUp.machine :=
  (Nat.repeat ExecutionBy.advance 20 (.begin hungUp.machine)).perform 20
    [.own (.pipe "one" "late"), .own (.startWrite "late" (some "write") [1, 2])]

set_option maxRecDepth 8000 in
theorem traffic_hungUp : traffic hungUp.past = ends default ++
    [.asked 0 0 (.read 4 0), .used (some 0) (.read 0 4 (.pending false))] := rfl

set_option maxRecDepth 8000 in
theorem connection_contract_hungUp : hungUp.machine.state.Shut 0 ∧
    Made (hungUp.past ++ afterwards.past) 0 0 ∧ Made (hungUp.past ++ afterwards.past) 0 2 ∧
    (∃ e, Pipe.events 0 (traffic afterwards.past) = [e] ∧ Pipe.ClosedReport (.read 4 0) [] e) ∧
    ∃ e, Pipe.events 1 (traffic afterwards.past) = [e] ∧
      Pipe.ClosedReport (.write [1, 2]) [] e := by
  have hk : hungUp.machine.state.Shut 0 := ⟨_, rfl, rfl⟩
  have early : Made (hungUp.past ++ afterwards.past) 0 0 :=
    ⟨_, _, "one", "early", List.mem_append_left _ (List.mem_of_getElem? (i := 9) rfl), rfl,
      Nat.lt_succ_self _, rfl⟩
  have late : Made (hungUp.past ++ afterwards.past) 0 2 :=
    ⟨_, _, "one", "late", List.mem_append_right _ (List.mem_of_getElem? (i := 7) rfl), rfl,
      Nat.lt_succ_self _, rfl⟩
  have h := (connection_contract hungUp afterwards 0).shut hk
  refine ⟨hk, early, late, ?_, ?_⟩
  · have hpending := (h.closing 0 0 early (.inl rfl)).pending 0 (.read 4 0)
    rw [traffic_hungUp] at hpending
    refine (hpending (by simp) (by decide) (by simp [ends])).resolve_left fun hrest => ?_
    exact hrest.2 rfl
  · exact (h.closing 2 3 late (.inr rfl)).later 1 (.write [1, 2])
      (List.mem_of_getElem? (i := 3) rfl)

/-- The connection has read chunks that are larger than any buffer. A read is issued on a pipe of it,
then the socket is closed. -/
def hugeRead : Execution (opening false []) :=
  let address : Address := .unix ((UnixPath.ofBytes? [112]).getD .unnamed)
  (ExecutionBy.begin (opening false [])).perform 10
    [.own (.socket "server" false [] default), .own (.bind "server" (.known address) .stream),
      .own (.listen "server" 1),
      .own (.socket "client" false [] (.withRead default ((1 <<< 64) - 1))),
      .own (.connect "client" (.known address) .stream none ""), .own (.connected "client" "one"),
      .own (.pipe "one" "early"), .own (.startRead "early" (some "read") 0), .own (.close "one")]

/-- Everything runs that is left to run. -/
def hugeReadEnd : Execution hugeRead.machine :=
  Nat.repeat ExecutionBy.advance 20 (.begin hugeRead.machine)

set_option maxRecDepth 8000 in
/-- The read never makes a report, though the connection and its pipe are closed. -/
theorem hugeRead_hungUp : hugeRead.machine.state.Shut 0 ∧
    Made (hugeRead.past ++ hugeReadEnd.past) 0 0 ∧ .asked 0 0 (.read 0 0) ∈ traffic hugeRead.past ∧
    hugeReadEnd.machine.advance? = none ∧
    Pipe.events 0 (traffic (hugeRead.past ++ hugeReadEnd.past)) = [] := by
  refine ⟨⟨_, rfl, rfl⟩, ?_, ?_, rfl, rfl⟩
  · exact ⟨_, _, "one", "early", List.mem_append_left _ (List.mem_of_getElem? (i := 8) rfl), rfl,
      Nat.lt_succ_self _, rfl⟩
  · exact List.mem_of_getElem? (i := 2) rfl

end Conduit.Socket
