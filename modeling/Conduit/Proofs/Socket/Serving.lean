import Conduit.Proofs.Pipe.Carried
import Conduit.Proofs.Socket.Moves
import Conduit.Proofs.Socket.Wired

/-!
How requests on the pipes of sockets are served. The pipes of a configuration have a desk like any
others: every step is a few of its moves, in which the same is done, and at most one move of the
bench.
-/

namespace Conduit.Socket

open Dispatch
open Kernel (System)
open Pipe (Hub Served Leads Request Port)

def Task.request? : Task → Option Nat
  | .request r => some r
  | _ => none

/-- The desk of the pipes of a configuration. -/
def pipeDesk (c : Config component) : Pipe.Desk where
  hub := c.state.hub
  receivers := c.state.collectors.length
  current := c.next.bind Frame.request?
  now := (c.next.bind Frame.request?).isSome
  ready := c.ready.filterMap Task.request?

/-- Ports agree with their connections, requests are where they can be, and only the one whose turn
runs has a frame. -/
structure Plumbed (c : Config component) : Prop where
  wired : c.state.bench.Wired
  sound : (pipeDesk c).Sound
  idle : ∀ f ∈ c.stack ++ c.waiting.flatten, f.request? = none

theorem devices_bounded : devices.Bounded where
  read {w p want data w'} h := by
    unfold devices at h
    dsimp only at h
    split at h
    · simp only [Prod.mk.injEq] at h
      exact Calls.read_le (Prod.ext rfl h.2)
    · simp at h
  write {w p offered n w'} h := by
    unfold devices at h
    dsimp only at h
    split at h
    · simp only [Prod.mk.injEq] at h
      exact Calls.write_le (Prod.ext rfl h.2)
    · simp at h

/-! ### Turns -/

section Turns

variable (s : Sockets)

theorem bench_advanceRequest (r : Nat) : (s.advanceRequest r).1.bench =
    { s.bench with hub := (s.hub.advance devices (s.system, s.plugs) r).1 } := by
  unfold Sockets.advanceRequest
  dsimp only
  split
  · rfl
  · rfl
  · rfl
  · split <;> simp [Sockets.bench, Sockets.modifyCollector]

theorem bench_finishRequest (r : Nat) :
    (s.finishRequest r).1.bench = { s.bench with hub := (s.hub.finish r).1 } := by
  unfold Sockets.finishRequest
  dsimp only
  split <;> simp [Sockets.bench, Sockets.modifyCollector]

theorem bench_unwind {f : Frame} (hf : f.request? = none) : (s.unwind f).bench = s.bench := by
  cases f with
  | serve r => cases hf
  | finish r => cases hf
  | _ => rfl

/-- The requests that a tidy state wakes hold their ports. -/
theorem holding_of_runnable {r : Nat} (h : r ∈ s.runnable.filterMap Task.request?) :
    ∃ q, s.hub.requests[r]? = some q ∧ q.phase = .holding true := by
  obtain ⟨t, ht, hr⟩ := List.mem_filterMap.mp h
  cases t with
  | request r' =>
    obtain rfl : r' = r := Option.some.inj hr
    have hready : s.isRequestReady r' = true := by
      simp only [Sockets.runnable, List.mem_append, List.mem_filterMap] at ht
      grind
    unfold Sockets.isRequestReady at hready
    split at hready
    · rename_i hph
      obtain ⟨q, hq, hph⟩ := Option.map_eq_some_iff.mp hph
      exact ⟨q, hq, hph⟩
    · cases hready
  | _ => cases hr

end Turns

/-! ### Turns of requests -/

section Requests

variable (s : Sockets) {d : Pipe.Desk}

/-- How a request goes on after a step. -/
def Advanced.of : Pipe.Advance → Sockets.Advanced
  | .idle => .idle
  | .again => .again
  | .crash => .finished
  | .report _ last => if last then .finished else .again

theorem advanceRequest_snd (r : Nat) : (s.advanceRequest r).2 =
    ((s.hub.advance devices (s.system, s.plugs) r).2.2.1,
      Advanced.of (s.hub.advance devices (s.system, s.plugs) r).2.2.2) := by
  unfold Sockets.advanceRequest
  dsimp only
  split <;> simp_all [Advanced.of]

/-- What a request goes on with. -/
def goesOn (r : Nat) : Sockets.Advanced → Next signature
  | .idle => .reply .done
  | .again => .enter [.serve r]
  | .finished => .enter [.finish r]

/-- What a turn of a request comes to: a request to be gone on with, perhaps. -/
structure Turns (s : Sockets) (d : Pipe.Desk) (ds : List Pipe.Deed) (rest : List Nat)
    (t : Turn signature) (current : Option (Nat × Bool)) : Prop where
  alike : ∃ hub, t.state.bench = { s.bench with hub } ∧ Bench.Alike s.hub hub
  silent : Bench.Silent s.hub.ports.length ds
  next : current = none ∧ (∃ a, t.next = .reply a) ∨
    ∃ f, t.next = .enter [f] ∧ current = f.request?
  moves : d.Moves ds {
    hub := t.state.hub
    receivers := t.state.collectors.length
    current
    now := current.isSome
    ready := woken rest (t.wakes.filterMap Task.request?) }

theorem alike_put {h : Hub} {r : Nat} {q q' : Request} {port port' : Port} {us : List Pipe.Use}
    {wakes : List Nat} {adv : Pipe.Advance} (hp : h.ports[q.port]? = some port)
    (hv : Served r q port us q' port' wakes adv) : Bench.Alike h (h.put r q' port') :=
  Pipe.put_map (hv.port_eq ▸ hp) hv.closed_eq

/-- A request uses the device of its port alone. -/
theorem silent_served {h : Hub} {r : Nat} {q q' : Request} {port port' : Port} {us : List Pipe.Use}
    {wakes : List Nat} {adv : Pipe.Advance} (hp : h.ports[q.port]? = some port)
    (hv : Served r q port us q' port' wakes adv) {k : Option Nat} {current : Option (Nat × Bool)}
    {now : Bool} {ds : List Pipe.Deed} (hl : Leads r k adv current now ds) :
    Bench.Silent h.ports.length (us.map (.used k) ++ ds) := by
  obtain ⟨hlt, -⟩ := List.getElem?_eq_some_iff.mp hp
  refine .append (fun p hle => ?_) fun p _ => ⟨?_, hl.moves_nothing.2.2 p⟩
  · have hne : q.port ≠ p := by omega
    rcases hv.uses with rfl | ⟨u, w, rfl, hu, -⟩
    · exact ⟨rfl, rfl⟩
    · simp [Pipe.usesOf, Pipe.Deed.use?, Pipe.issued, Pipe.Deed.issue?, hu, hne]
  · cases hl with
    | crash => cases k <;> rfl
    | _ => rfl

theorem alike_finish (h : Hub) (r : Nat) : Bench.Alike h (h.finish r).1 :=
  Pipe.finish_map (fun _ _ _ _ => rfl) h r

/-- A request that is over, or was never there, is passed by. -/
theorem serve_skip (hh : d.hub = s.hub) (hr : d.receivers = s.collectors.length) {r : Nat}
    {rest : List Nat} (hs : d.Serves r rest)
    (h : ∀ (q : Request) (port : Port), s.hub.requests[r]? = some q →
      s.hub.ports[q.port]? = some port → q.phase = .finished) :
    Turns s d (serveTraffic s r) rest (s.serve r) none := by
  have hidle {D : Type} (dev : Pipe.Devices D) (d : D) :
      s.hub.advance dev d r = (s.hub, d, [], .idle) := by
    cases hq : s.hub.requests[r]? with
    | none => simp [Hub.advance, hq]
    | some q =>
      cases hp : s.hub.ports[q.port]? with
      | none => simp [Hub.advance, hq, hp]
      | some port => simp [Hub.advance, hq, hp, h q port hq hp]
  have hturn : s.serve r = { state := s } := by
    simp [Sockets.serve, Sockets.advanceRequest, hidle]
  have hds : serveTraffic s r = [] := by
    simp [serveTraffic, Hub.uses, hidle, heardBy]
  rw [hturn, hds]
  refine ⟨⟨s.hub, rfl, rfl⟩, .nil _, .inl ⟨rfl, _, rfl⟩, ?_⟩
  obtain ⟨hub, receivers, current, now, ready⟩ := d
  subst hh hr
  exact (Pipe.Desk.Move.skip hs h).moves

/-- A request that is not over is served. -/
theorem serve_served (hh : d.hub = s.hub) (hr : d.receivers = s.collectors.length)
    (hnamed : ∀ (r : Nat) (q : Request), s.hub.requests[r]? = some q → q.receiver = none →
      q.job = .release) {r : Nat} {rest : List Nat} (hs : d.Serves r rest) {q : Request}
    {port : Port} (hq : s.hub.requests[r]? = some q) (hp : s.hub.ports[q.port]? = some port)
    (hf : q.phase ≠ .finished) :
    ∃ current, Turns s d (serveTraffic s r) rest (s.serve r) current := by
  obtain ⟨us, q', port', wakes, adv, w, hv, hadv⟩ :=
    Hub.advance_served devices_bounded (s.system, s.plugs) hq hp hf
  have hstep : s.hub.advance devices (s.system, s.plugs) r =
      (s.hub.put r q' port', w, wakes, adv) := by
    rw [Hub.advance_recording devices s.hub _ [], hadv]
  have hbench : (s.serve r).state.bench = { s.bench with hub := s.hub.put r q' port' } := by
    rw [show (s.serve r).state.bench = _ from bench_advanceRequest s r, hstep]
  have hsnd : (s.advanceRequest r).2 = (wakes, Advanced.of adv) := by
    rw [advanceRequest_snd, hstep]
  have hwakes : (s.serve r).wakes.filterMap Task.request? = wakes := by
    show ((s.advanceRequest r).2.1.map Task.request).filterMap Task.request? = wakes
    rw [hsnd]
    simp [List.filterMap_map, Function.comp_def, Task.request?]
  have hk : s.collectorOf? r = q.receiver := by simp [Sockets.collectorOf?, hq]
  have hds : serveTraffic s r = us.map (.used q.receiver) ++ heardBy q.receiver adv := by
    simp only [serveTraffic, Hub.uses, hadv, hstep, hk]
  have hnext : (s.serve r).next = goesOn r (Advanced.of adv) := 
    congrArg (fun a : List Nat × Sockets.Advanced => goesOn r a.2) hsnd
  have turns {current : Option (Nat × Bool)} {ds : List Pipe.Deed}
      (hl : Leads r q.receiver adv current current.isSome ds)
      (hn : current = none ∧ (∃ a, (s.serve r).next = .reply a) ∨
        ∃ f, (s.serve r).next = .enter [f] ∧ current = f.request?) :
      Turns s d (us.map (.used q.receiver) ++ ds) rest (s.serve r) current := by
    refine ⟨⟨_, hbench, alike_put hp hv⟩, silent_served hp hv hl, hn, ?_⟩
    have hhub : (s.serve r).state.hub = s.hub.put r q' port' := congrArg Bench.hub hbench
    have hcollectors : (s.serve r).state.collectors.length = s.collectors.length :=
      congrArg Bench.collectors hbench
    rw [hhub, hcollectors, hwakes]
    obtain ⟨hub, receivers, current', now, ready⟩ := d
    subst hh hr
    exact (Pipe.Desk.Move.serve hs hq hp hf hv hl).moves
  cases adv with
  | idle =>
    rw [hds]
    exact ⟨none, turns .idle (.inl ⟨rfl, _, hnext⟩)⟩
  | again =>
    rw [hds]
    exact ⟨_, turns .again (.inr ⟨_, hnext, rfl⟩)⟩
  | crash =>
    rw [hds]
    exact ⟨_, turns .crash (.inr ⟨_, hnext, rfl⟩)⟩
  | report e last =>
    obtain ⟨k, hreceiver⟩ : ∃ k, q.receiver = some k := by
      cases hreceiver : q.receiver with
      | none => exact absurd (hnamed r q hq hreceiver) (hv.ne_release (by simp))
      | some k => exact ⟨k, rfl⟩
    have hheard : heardBy q.receiver (.report e last) = [.told k e] := by simp [heardBy, hreceiver]
    rw [hds, hheard]
    refine ⟨some (r, last), turns (.report true hreceiver) (.inr ?_)⟩
    rw [hnext]
    cases last <;> exact ⟨_, rfl, rfl⟩

theorem serve_turns (hh : d.hub = s.hub) (hr : d.receivers = s.collectors.length)
    (hnamed : ∀ (r : Nat) (q : Request), s.hub.requests[r]? = some q → q.receiver = none →
      q.job = .release) {r : Nat} {rest : List Nat} (hs : d.Serves r rest) :
    ∃ current, Turns s d (serveTraffic s r) rest (s.serve r) current := by
  cases hq : s.hub.requests[r]? with
  | none => exact ⟨_, serve_skip s hh hr hs (by simp [hq])⟩
  | some q =>
    cases hp : s.hub.ports[q.port]? with
    | none => exact ⟨_, serve_skip s hh hr hs (by grind)⟩
    | some port =>
      by_cases hf : q.phase = .finished
      · exact ⟨_, serve_skip s hh hr hs (by grind)⟩
      · exact serve_served s hh hr hnamed hs hq hp hf

/-- A request is over. -/
theorem finish_turns (hh : d.hub = s.hub) (hr : d.receivers = s.collectors.length) {r : Nat}
    (hc : d.current = some (r, true)) : Turns s d [] d.ready (s.finish r) none := by
  have hbench : (s.finish r).state.bench = { s.bench with hub := (s.hub.finish r).1 } :=
    bench_finishRequest s r
  refine ⟨⟨_, hbench, alike_finish s.hub r⟩, .nil _, .inl ⟨rfl, _, rfl⟩, ?_⟩
  have hhub : (s.finish r).state.hub = (s.hub.finish r).1 := congrArg Bench.hub hbench
  have hcollectors : (s.finish r).state.collectors.length = s.collectors.length :=
    congrArg Bench.collectors hbench
  have hwakes : (s.finish r).wakes.filterMap Task.request? = (s.hub.finish r).2 := by
    show ((s.hub.finish r).2.map Task.request).filterMap Task.request? = _
    simp [List.filterMap_map, Function.comp_def, Task.request?]
  rw [hhub, hcollectors, hwakes]
  obtain ⟨hub, receivers, current', now, ready⟩ := d
  subst hh hr
  exact (Pipe.Desk.Move.finish hc).moves

end Requests

/-! ### What becomes of a turn -/

section Passing

variable {c c' : Config component} {t : Turn signature}

theorem ready_woken (ready ts : List Task) :
    (woken ready ts).filterMap Task.request? =
      woken (ready.filterMap Task.request?) (ts.filterMap Task.request?) :=
  woken_filterMap _ (fun a b u ha hb => by cases a <;> cases b <;> simp_all [Task.request?]) ..

theorem filterMap_request (rs : List Nat) :
    (rs.map Task.request).filterMap Task.request? = rs := by
  simp [List.filterMap_map, Function.comp_def, Task.request?]

/-- The machine has taken over a turn that leaves the request `current` to be gone on with. Besides
those that the turn wakes, some requests are woken that hold their ports. -/
structure Passed (c : Config component) (t : Turn signature) (current : Option (Nat × Bool))
    (c' : Config component) : Prop where
  bench : c'.state.bench = t.state.bench
  next : c'.next.bind Frame.request? = current
  idle : ∀ f ∈ c'.stack ++ c'.waiting.flatten, f.request? = none
  ready : ∃ rs, (∀ r ∈ rs, ∃ q w, t.state.hub.requests[r]? = some q ∧ q.phase = .holding w) ∧
    c'.ready.filterMap Task.request? =
      woken (woken (c.ready.filterMap Task.request?) (t.wakes.filterMap Task.request?)) rs

theorem idle_of_frames (h : ∀ f ∈ c.frames, f.request? = none) :
    c.next.bind Frame.request? = none ∧
      ∀ f ∈ c.stack ++ c.waiting.flatten, f.request? = none := by
  simp only [Config.frames, List.append_assoc, List.mem_append] at h
  refine ⟨?_, fun f hf => h f (.inr (List.mem_append.mp hf))⟩
  cases hn : c.next with
  | none => rfl
  | some f => exact h f (.inl (by simp [hn]))

/-- A turn that leaves no request behind. -/
theorem Passed.of_takes (h : c.Takes (Sockets.tidy t) c') (hn : c.next = none)
    (hidle : ∀ f ∈ c.stack ++ c.waiting.flatten, f.request? = none)
    (hleft : ∀ f ∈ t.next.left, f.request? = none) : Passed c t none c' := by
  have hframes : ∀ f ∈ c.frames, f.request? = none := by simpa [Config.frames, hn] using hidle
  have holding : ∀ r ∈ t.state.reap.runnable.filterMap Task.request?,
      ∃ q w, t.state.hub.requests[r]? = some q ∧ q.phase = .holding w := fun r hr => by
    obtain ⟨q, hq, hph⟩ := holding_of_runnable t.state.reap hr
    exact ⟨q, true, hq, hph⟩
  have hready : (woken c.ready (Sockets.tidy t).wakes).filterMap Task.request? =
      woken (woken (c.ready.filterMap Task.request?) (t.wakes.filterMap Task.request?))
        (t.state.reap.runnable.filterMap Task.request?) := by
    refine (ready_woken c.ready (t.wakes ++ t.state.reap.runnable)).trans ?_
    rw [List.filterMap_append, woken_append]
  rcases h.frames hn with ⟨hf, hs, hr⟩ | ⟨d, w, k, hnext, hf, hs⟩
  · obtain ⟨hnext, hidle'⟩ := idle_of_frames (c := c') fun f hm => by
      rcases List.mem_append.mp (hf.mem_iff.mp hm) with hm | hm
      · exact hleft f hm
      · exact hframes f hm
    exact ⟨(congrArg Sockets.bench hs).trans rfl, hnext, hidle', _, holding, hr ▸ hready⟩
  · have hleft' : t.next.left = w :: k := by
      have : (Sockets.tidy t).next = t.next := rfl
      rw [← this, hnext]
      rfl
    have hw : w.request? = none := hleft w (hleft' ▸ List.mem_cons_self)
    obtain ⟨hnext, hidle'⟩ := idle_of_frames (c := c') fun f hm => by
      rcases List.mem_append.mp (hf ▸ hm) with hm | hm
      · exact hleft f (hleft' ▸ List.mem_cons_of_mem w hm)
      · exact hframes f hm
    rcases hs with ⟨hs, hr⟩ | ⟨hs, hr⟩
    · exact ⟨(congrArg Sockets.bench hs).trans rfl, hnext, hidle', _, holding, hr ▸ hready⟩
    · -- The work was dropped, which wakes once more.
      have hbench : c'.state.bench = t.state.bench :=
        (congrArg Sockets.bench hs).trans (bench_unwind t.state.reap hw)
      refine ⟨hbench, hnext, hidle', t.state.reap.runnable.filterMap Task.request? ++
        (t.state.reap.unwind w).reap.runnable.filterMap Task.request?, fun r hr => ?_, ?_⟩
      · rcases List.mem_append.mp hr with hr | hr
        · exact holding r hr
        · obtain ⟨q, hq, hph⟩ := holding_of_runnable _ hr
          have hhub : (t.state.reap.unwind w).reap.hub = t.state.hub :=
            congrArg Bench.hub (bench_unwind t.state.reap hw)
          exact ⟨q, true, hhub ▸ hq, hph⟩
      · rw [hr]
        exact (ready_woken _ (t.state.reap.unwind w).reap.runnable).trans
          ((congrArg (woken · _) hready).trans (woken_append ..).symm)

/-- A turn that goes on with one frame. -/
theorem Passed.of_enter (h : c.Takes (Sockets.tidy t) c')
    (hidle : ∀ f ∈ c.stack ++ c.waiting.flatten, f.request? = none) {f : Frame}
    (ht : t.next = .enter [f]) : Passed c t f.request? c' := by
  have hnext : (Sockets.tidy t).next = .enter [f] := ht
  cases h with
  | @enter f' k hr =>
    obtain ⟨rfl, rfl⟩ : f' = f ∧ k = [] := by
      have := hr.symm.trans hnext
      injection this with this
      exact List.cons.inj this
    refine ⟨rfl, rfl, by simpa [Config.after] using hidle,
      t.state.reap.runnable.filterMap Task.request?, fun r hr => ?_, ?_⟩
    · obtain ⟨q, hq, hph⟩ := holding_of_runnable t.state.reap hr
      exact ⟨q, true, hq, hph⟩
    · rw [← woken_append, ← List.filterMap_append]
      exact ready_woken ..
  | reply hr | throw hr | enterNil hr | script hr | inline hr | queued hr | dropped hr | lost hr =>
    cases hr.symm.trans hnext

/-- A turn whose moves are known, and what is woken afterwards. -/
theorem Passed.moves {current : Option (Nat × Bool)} (h : Passed c t current c') {d : Pipe.Desk}
    (hd : d.Sound) {ds : List Pipe.Deed} (m : d.Moves ds {
      hub := t.state.hub
      receivers := t.state.collectors.length
      current
      now := current.isSome
      ready := woken (c.ready.filterMap Task.request?) (t.wakes.filterMap Task.request?) }) :
    d.Moves ds (pipeDesk c') := by
  obtain ⟨rs, hrs, hready⟩ := h.ready
  have hfeeds := (m.sound hd).feeds hrs
  have hall := m.trans hfeeds
  rw [List.append_nil] at hall
  have hhub : c'.state.hub = t.state.hub := congrArg Bench.hub h.bench
  have hcollectors : c'.state.collectors.length = t.state.collectors.length :=
    congrArg Bench.collectors h.bench
  have hdesk : pipeDesk c' = {
      hub := t.state.hub
      receivers := t.state.collectors.length
      current
      now := current.isSome
      ready := woken (woken (c.ready.filterMap Task.request?)
        (t.wakes.filterMap Task.request?)) rs } := by
    simp only [pipeDesk, hhub, hcollectors, h.next, hready]
  rw [hdesk]
  exact hall

end Passing

end Conduit.Socket
