import Conduit.Proofs.Socket.Serving

/-!
What a run does with pipes. Every step of a configuration keeps its ports in agreement with its
connections, is a few moves of the desk of its pipes, and closes nothing but what its cut says. So
the ledger of pipes is right at every point of an execution.
-/

namespace Conduit.Socket

open Dispatch
open Pipe (Request)

/-! ### Turns of other frames and tasks -/

section Turns

variable (s : Sockets)

/-- A connection is made at most. -/
theorem Sockets.Meets.move {s s' : Sockets} (h : s.Meets s')
    (hb : s'.bench = { s.bench with connections := s'.connections }) :
    s.bench.Move .nothing [] [] s'.bench := by
  rw [hb]
  rcases h with h | ⟨d, limits, h⟩
  · rw [h]
    exact .still (b := s.bench) _
  · rw [h]
    exact .meet (b := s.bench) d limits

theorem attend_plies (c : Nat) : Plies s .nothing [] (s.attendTurn c) := by
  have hwakes : (s.attendTurn c).wakes = [] := by
    unfold Sockets.attendTurn
    split <;> rfl
  obtain ⟨⟨system, connections, acceptors, h⟩, -, hmeets⟩ := s.attend_accepts c
  refine ⟨⟨[], ?_, hwakes⟩, ?_⟩
  · rw [s.attendTurn_state]
    exact hmeets.move (by rw [h]; rfl)
  · unfold Sockets.attendTurn
    split <;> simp [Next.left, Frame.request?]

theorem pursue_plies (a : Nat) : Plies s .nothing [] (s.pursueTurn a) := by
  have hbench : ∃ s', s.Meets s' ∧ s'.bench = { s.bench with connections := s'.connections } ∧
      (s.pursueTurn a).state.bench = s'.bench := by
    rcases s.pursueTurn_tried a with hstate | ⟨x, -, -, hstate⟩
    · exact ⟨s, .inl rfl, rfl, congrArg Sockets.bench hstate⟩
    · obtain ⟨system, connections, attempts, h, -, hmeets⟩ := s.attempt_eq x a
      refine ⟨_, hmeets, by rw [h]; rfl, ?_⟩
      rw [hstate]
      rcases s.attempt x a with ⟨t, none | o⟩ <;> rfl
  obtain ⟨s', hmeets, hs', hstate⟩ := hbench
  refine ⟨⟨[], hstate ▸ hmeets.move hs', ?_⟩, ?_⟩
  · unfold Sockets.pursueTurn
    split <;> rfl
  · unfold Sockets.pursueTurn
    split <;> simp [Next.left, Frame.request?]

/-- An outcome that is settled closes a connection that comes too late. -/
theorem conclude_plies (a : Nat) :
    Plies s (cutAt ⟨s, .resume (.conclude a)⟩) [] (s.resume (.conclude a)) := by
  refine .of_reply ⟨(s.conclude a).2, ?_, rfl⟩ ⟨_, rfl⟩
  show s.bench.Move _ [] (s.conclude a).2 (s.conclude a).1.bench
  have still {cut : Cut} {s' : Sockets} (h : s'.bench = s.bench) : s.bench.Move cut [] [] s'.bench :=
    h ▸ .still cut
  unfold Sockets.conclude
  cases hx : s.attempts[a]? with
  | none => exact still rfl
  | some x =>
    obtain ⟨prepared, target, ticket, context, limits, slot, closed, progress⟩ := x
    cases progress with
    | decided o =>
      cases slot with
      | none => exact still rfl
      | some i =>
        dsimp only
        by_cases h : ∃ b, s.slots[i]? = some (.connecting b)
        · obtain ⟨b, h⟩ := h
          rw [settle_waiting s h]
          cases o <;> exact still rfl
        · have h : ∀ b, s.slots[i]? ≠ some (.connecting b) := fun b hb => h ⟨b, hb⟩
          rw [settle_late s h]
          cases o with
          | error f => exact still rfl
          | ok k =>
            have hcut : cutAt ⟨s, .resume (.conclude a)⟩ = .connection k := by
              have hlate : lateConnection? s a = some k := by simp [lateConnection?, hx]
              simp only [cutAt, hlate]
            rw [hcut]
            exact s.closeConnection_move k
    | _ => cases slot <;> exact still rfl

end Turns

/-! ### Steps -/

/-- What comes of a step: what is done in it, and what it closes at most. -/
structure Flows (d : Pipe.Desk) (s : Sockets) (ds : List Pipe.Deed) (cuts : List Cut)
    (c' : Config component) : Prop where
  plumbed : Plumbed c'
  moves : d.Moves ds (pipeDesk c')
  leaves : s.bench.Leaves cuts c'.state.bench
  silent : Bench.Silent s.hub.ports.length ds

/-- What comes of a step of a configuration at which the component takes part at `moments`. -/
abbrev Proceeds (c : Config component) (moments : List (Moment component))
    (c' : Config component) : Prop :=
  Flows (pipeDesk c) c.state (traffic moments) (moments.map cutAt) c'

/-- Only requests that let go of a device have no receiver. -/
def Named (c : Config component) : Prop :=
  ∀ (r : Nat) (q : Request), c.state.hub.requests[r]? = some q → q.receiver = none →
    q.job = .release

/-- What is known of a configuration after what was done with its pipes. -/
structure Recorded (c : Config component) (h : List Pipe.Deed) : Prop where
  plumbed : Plumbed c
  ledger : (pipeDesk c).Ledger h
  silent : Bench.Silent c.state.hub.ports.length h

section Steps

variable {c c' : Config component} {t : Turn signature} {d : Pipe.Desk} {ds : List Pipe.Deed}

theorem current_of_next {f : Option Frame} (hn : c.next = f) :
    (pipeDesk c).current = f.bind Frame.request? := by
  subst hn
  rfl

theorem now_of_next {f : Option Frame} (hn : c.next = f) :
    (pipeDesk c).now = (f.bind Frame.request?).isSome := by
  subst hn
  rfl

/-- A turn that makes a move of the bench. -/
theorem Plies.takes {cut : Cut} (hp : Plies c.state cut ds t) (hc : Plumbed c) (hn : c.next = none)
    (h : c.Takes (Sockets.tidy t) c') : Flows (pipeDesk c) c.state ds [cut] c' := by
  obtain ⟨⟨ws, m, hw⟩, hleft⟩ := hp
  have hpassed := Passed.of_takes h hn hc.idle hleft
  have hdesk := m.desk hc.wired (d := pipeDesk c) rfl rfl (now_of_next hn)
  have hwakes : t.wakes.filterMap Task.request? = ws := by rw [hw, filterMap_request]
  have hmoves : (pipeDesk c).Moves ds (pipeDesk c') := by
    refine hpassed.moves hc.sound ?_
    rw [hwakes]
    rw [current_of_next hn, now_of_next hn] at hdesk
    exact hdesk
  refine ⟨⟨?_, hmoves.sound hc.sound, hpassed.idle⟩, hmoves, ?_, m.silent hc.wired⟩
  · rw [hpassed.bench]
    exact m.wired hc.wired
  · rw [hpassed.bench]
    exact m.leaves hc.wired

/-- A turn of a request. -/
theorem Turns.takes {current : Option (Nat × Bool)}
    (ht : Turns c.state d ds (c.ready.filterMap Task.request?) t current)
    (hd : d.Sound) (hw : c.state.bench.Wired) (hn : c.next = none)
    (hidle : ∀ f ∈ c.stack ++ c.waiting.flatten, f.request? = none)
    (h : c.Takes (Sockets.tidy t) c') (cuts : List Cut) : Flows d c.state ds cuts c' := by
  have hpassed : Passed c t current c' := by
    rcases ht.next with ⟨rfl, a, ha⟩ | ⟨f, hf, rfl⟩
    · exact .of_takes h hn hidle (by simp [ha, Next.left])
    · exact .of_enter h hidle hf
  obtain ⟨hub, hbench, halike⟩ := ht.alike
  have hmoves := hpassed.moves hd ht.moves
  refine ⟨⟨?_, hmoves.sound hd, hpassed.idle⟩, hmoves, ?_, ht.silent⟩
  · rw [hpassed.bench, hbench]
    exact hw.of_alike halike
  · rw [hpassed.bench, hbench]
    exact .of_alike halike cuts

theorem pipeDesk_next {f : Frame} (hn : c.next = some f) (hf : f.request? = none) :
    pipeDesk { c with next := none } = pipeDesk c := by
  have hc : (pipeDesk c).current = none := (current_of_next hn).trans hf
  have hnow : (pipeDesk c).now = false := (now_of_next hn).trans (congrArg Option.isSome hf)
  calc pipeDesk { c with next := none }
      = { pipeDesk c with current := none, now := false } := rfl
    _ = pipeDesk c := by rw [← hc, ← hnow]

theorem Plumbed.next_none (hc : Plumbed c) {f : Frame} (hn : c.next = some f)
    (hf : f.request? = none) : Plumbed { c with next := none } :=
  ⟨hc.wired, pipeDesk_next hn hf ▸ hc.sound, hc.idle⟩

/-- The machine turns to the uppermost frame. -/
theorem Plumbed.faces (hc : Plumbed c) (h : c.Faces c') :
    Plumbed c' ∧ pipeDesk c' = pipeDesk c := by
  cases h with
  | stay => exact ⟨hc, rfl⟩
  | @face f k hn hk =>
    have hf : f.request? = none := hc.idle f (by simp [hk])
    have hdesk : pipeDesk { c with next := some f, stack := k } = pipeDesk c := by
      have := pipeDesk_next (c := { c with next := some f, stack := k }) rfl hf
      rw [← this]
      exact congrArg (fun next : Option Frame => pipeDesk { c with next }) hn.symm
    refine ⟨⟨hc.wired, hdesk ▸ hc.sound, fun g hg => hc.idle g ?_⟩, hdesk⟩
    rcases List.mem_append.mp hg with hg | hg
    · exact List.mem_append_left _ (hk ▸ List.mem_cons_of_mem f hg)
    · exact List.mem_append_right _ hg

/-- Requests that hold their ports are woken, and nothing else becomes of the bench. -/
theorem Plumbed.wake (hc : Plumbed c) {s : Sockets} (hs : s.bench = c.state.bench)
    {stack : List Frame} (hstack : ∀ f ∈ stack, f ∈ c.stack) :
    Plumbed { c with state := s, stack, ready := woken c.ready s.runnable } ∧
      (pipeDesk c).Moves []
        (pipeDesk { c with state := s, stack, ready := woken c.ready s.runnable }) := by
  have hhub : s.hub = c.state.hub := congrArg Bench.hub hs
  have hcollectors : s.collectors.length = c.state.collectors.length :=
    congrArg Bench.collectors hs
  have hholding : ∀ r ∈ s.runnable.filterMap Task.request?,
      ∃ q w, (pipeDesk c).hub.requests[r]? = some q ∧ q.phase = .holding w := fun r hr => by
    obtain ⟨q, hq, hph⟩ := holding_of_runnable s hr
    exact ⟨q, true, by rwa [hhub] at hq, hph⟩
  have hmoves := hc.sound.feeds hholding
  have hdesk : pipeDesk { c with state := s, stack, ready := woken c.ready s.runnable } =
      { pipeDesk c with ready := woken (pipeDesk c).ready (s.runnable.filterMap Task.request?) } := by
    simp only [pipeDesk, hhub, hcollectors]
    exact congrArg (fun ready => { pipeDesk c with ready }) (ready_woken ..)
  refine ⟨⟨?_, ?_, fun f hf => hc.idle f ?_⟩, hdesk ▸ hmoves⟩
  · exact hs ▸ hc.wired
  · exact hdesk ▸ hmoves.sound hc.sound
  · rcases List.mem_append.mp hf with hf | hf
    · exact List.mem_append_left _ (hstack f hf)
    · exact List.mem_append_right _ hf

/-- A frame goes on. -/
theorem Plumbed.resume (hc : Plumbed c) (hnamed : Named c) {f : Frame} (hn : c.next = some f)
    (h : Config.Takes { c with next := none } (component.resume c.state f) c') :
    Flows (pipeDesk c) c.state (trafficAt ⟨c.state, .resume f⟩) [cutAt ⟨c.state, .resume f⟩] c' := by
  have turn (hf : f.request? = none) (hp : Plies c.state (cutAt ⟨c.state, .resume f⟩)
      (trafficAt ⟨c.state, .resume f⟩) (c.state.resume f)) :
      Flows (pipeDesk c) c.state (trafficAt ⟨c.state, .resume f⟩) [cutAt ⟨c.state, .resume f⟩] c' :=
    pipeDesk_next hn hf ▸ hp.takes (c := { c with next := none }) (hc.next_none hn hf) rfl h
  cases f with
  | serve r =>
    obtain ⟨current, ht⟩ := serve_turns c.state (d := pipeDesk c) rfl rfl hnamed
      (.resume (current_of_next hn) (now_of_next hn))
    exact ht.takes (c := { c with next := none }) hc.sound hc.wired rfl hc.idle h _
  | finish r =>
    have ht := finish_turns c.state (d := pipeDesk c) rfl rfl (current_of_next hn)
    exact ht.takes (c := { c with next := none }) hc.sound hc.wired rfl hc.idle h _
  | conclude a => exact turn rfl (conclude_plies c.state a)
  | announce i =>
    refine turn rfl ((apart_state ?_).plies _)
    rfl
  | attend i => exact turn rfl (attend_plies c.state i)

/-- A task of the reactor is served. -/
theorem Plumbed.poll (hc : Plumbed c) (hnamed : Named c) (hn : c.next = none) {t : Task}
    {ts : List Task} (hr : c.ready = t :: ts)
    (h : Config.Takes { c with ready := ts } (component.poll c.state t) c') :
    Flows (pipeDesk c) c.state (trafficAt ⟨c.state, .poll t⟩) [cutAt ⟨c.state, .poll t⟩] c' := by
  have turn {ds : List Pipe.Deed} {cut : Cut} (ht : t.request? = none)
      (hp : Plies c.state cut ds (c.state.poll t)) : Flows (pipeDesk c) c.state ds [cut] c' := by
    have hdesk : pipeDesk { c with ready := ts } = pipeDesk c := by
      have : c.ready.filterMap Task.request? = ts.filterMap Task.request? := by
        rw [hr, List.filterMap_cons_none ht]
      simp only [pipeDesk, this]
    have hc₁ : Plumbed { c with ready := ts } := ⟨hc.wired, hdesk ▸ hc.sound, hc.idle⟩
    exact hdesk ▸ hp.takes (c := { c with ready := ts }) hc₁ hn h
  cases t with
  | request r =>
    have hready : (pipeDesk c).ready = r :: ts.filterMap Task.request? :=
      congrArg (fun ready : List Task => ready.filterMap Task.request?) hr
    obtain ⟨current, ht⟩ := serve_turns c.state (d := pipeDesk c) rfl rfl hnamed
      (.poll (current_of_next hn) hready)
    exact ht.takes (c := { c with ready := ts }) hc.sound hc.wired hn hc.idle h _
  | attempt a => exact turn rfl (pursue_plies c.state a)
  | acceptor i => exact turn rfl (attend_plies c.state i)
  | alarm i =>
    have hring : (c.state.ring i).bench = c.state.bench := by
      obtain ⟨alarms, tickets, he⟩ := c.state.ring_eq i
      rw [he]
      rfl
    exact turn rfl ((apart_state hring).plies _)

/-- Every step keeps ports in agreement with connections, is a few moves of the desk of pipes, and
closes nothing but what its cut says. -/
theorem Plumbed.step (hc : Plumbed c) (hnamed : Named c)
    {cause : Option (Dispatch.Cause component)} (h : c.Step cause c') :
    Proceeds c (c.moment cause) c' := by
  have single {q : Moment component}
      (h : Flows (pipeDesk c) c.state (trafficAt q) [cutAt q] c') : Proceeds c [q] c' := by
    have hq : trafficAt q = traffic [q] := (List.append_nil _).symm
    rw [hq] at h
    exact h
  have still {c' : Config component} {moments : List (Moment component)} (hc' : Plumbed c')
      (hd : (pipeDesk c).Moves [] (pipeDesk c')) (hs : c'.state.bench = c.state.bench)
      (hm : traffic moments = []) : Proceeds c moments c' := by
    refine ⟨hc', hm ▸ hd, ?_, hm ▸ .nil _⟩
    rw [hs]
    exact .refl _ _
  have same {c' : Config component} (hc' : Plumbed c') (hd : pipeDesk c' = pipeDesk c)
      (hs : c'.state = c.state) : Proceeds c [] c' :=
    still hc' (hd ▸ .none) (congrArg Sockets.bench hs) rfl
  cases h with
  | still hf =>
    obtain ⟨hc', hd⟩ := hc.faces hf
    exact same hc' hd hf.state_eq
  | @exec view a _ hn ht =>
    exact single (q := ⟨c.state, .exec view a⟩) ((run_plies c.state view a).takes hc hn ht)
  | @resume f _ hn ht => exact single (hc.resume hnamed hn ht)
  | @poll t _ _ hn hk hr ht => exact single (hc.poll hnamed hn hr ht)
  | @unwind f k _ hn hk hf =>
    subst hf
    have hbench : (c.state.unwind f).reap.bench = c.state.bench :=
      bench_unwind c.state (hc.idle f (by simp [hk]))
    obtain ⟨hc', hm⟩ := hc.wake hbench fun g (hg : g ∈ k) => hk ▸ List.mem_cons_of_mem f hg
    exact still hc' hm hbench rfl
  | tick hn =>
    obtain ⟨hc', hm⟩ := hc.wake (s := { c.state with clock := c.state.clock + 1 }) rfl
      fun f (hf : f ∈ c.stack) => hf
    exact still hc' hm rfl rfl
  | @begin v w rest hn hv =>
    have hline : ∀ f ∈ w :: rest, f.request? = none := fun f hf =>
      hc.idle f (List.mem_append_right _
        (List.mem_flatten_of_mem (List.mem_of_getElem? hv) hf))
    have hdesk := pipeDesk_next (c := { c with next := some w, waiting := c.waiting.set v rest }) rfl
      (hline w List.mem_cons_self)
    have hd : pipeDesk { c with next := some w, waiting := c.waiting.set v rest } = pipeDesk c :=
      hdesk.symm.trans (congrArg (fun next : Option Frame => pipeDesk { c with next }) hn.symm)
    refine same ⟨hc.wired, hd ▸ hc.sound, fun f hf => ?_⟩ hd rfl
    rcases List.mem_append.mp hf with hf | hf
    · exact hc.idle f (List.mem_append_left _ hf)
    · obtain ⟨line, hmem, hline'⟩ := List.mem_flatten.mp hf
      rcases List.mem_or_eq_of_mem_set hmem with hmem | rfl
      · exact hc.idle f (List.mem_append_right _ (List.mem_flatten_of_mem hmem hline'))
      · exact hline f (List.mem_cons_of_mem w hline')
  | opened hn hf =>
    have hc₁ : Plumbed { c with waiting := c.waiting ++ [[]] } :=
      ⟨hc.wired, hc.sound, by simpa using hc.idle⟩
    obtain ⟨hc', hd⟩ := hc₁.faces hf
    exact same hc' hd hf.state_eq

end Steps

/-! ### Runs -/

section Runs

variable {c c' : Config component} {h : List Pipe.Deed}

theorem Bench.Leaves.length_le {b b' : Bench} {cuts : List Cut} (hl : b.Leaves cuts b')
    (hb : b.Wired) (hb' : b'.Wired) : b.hub.ports.length ≤ b'.hub.ports.length := by
  rw [← hb.plugs, ← hb'.plugs]
  exact hl.plugs.length_le

theorem Recorded.step (hr : Recorded c h) {cause : Option (Dispatch.Cause component)}
    (hs : c.Step cause c') :
    Proceeds c (c.moment cause) c' ∧ Recorded c' (h ++ traffic (c.moment cause)) := by
  have hp := hr.plumbed.step hr.ledger.carried.named hs
  have hle : c.state.hub.ports.length ≤ c'.state.hub.ports.length :=
    hp.leaves.length_le hr.plumbed.wired hp.plumbed.wired
  exact ⟨hp, hp.plumbed, hp.moves.ledger hr.plumbed.sound hr.ledger,
    (hr.silent.append hp.silent).mono hle⟩

/-- What every step keeps of a configuration of which all is known, holds after a run. -/
theorem Recorded.induction {m₀ m : Machine component} {past : List (Moment component)}
    (hr : Run m₀ past m) {h₀ : List Pipe.Deed} (h : Recorded m₀.config h₀)
    (I : List (Moment component) → Config component → Prop) (begin : I [] m₀.config)
    (step : ∀ past c moments c', Recorded c (h₀ ++ traffic past) →
      Recorded c' (h₀ ++ traffic (past ++ moments)) → Proceeds c moments c' → I past c →
      I (past ++ moments) c') :
    Recorded m.config (h₀ ++ traffic past) ∧ I past m.config := by
  refine hr.config_induction (fun past c => Recorded c (h₀ ++ traffic past) ∧ I past c)
    ⟨by simpa [traffic] using h, begin⟩ ?_
  rintro past c cause c' ⟨hc, hi⟩ hs
  obtain ⟨hp, hc'⟩ := hc.step hs
  rw [List.append_assoc, ← traffic_append] at hc'
  exact ⟨hc', step past c _ c' hc hc' hp hi⟩

variable {m : Machine component} [Blank m]

theorem recorded_start : Recorded m.config [] := by
  obtain ⟨reachable, whims, rfl⟩ := Blank.opens (m := m)
  refine ⟨⟨⟨rfl, ?_, ?_, ?_, ?_, ?_⟩, ⟨?_, nofun, ?_⟩, ?_⟩,
    ⟨⟨by simp, ?_, ?_, ?_⟩, .empty _ rfl rfl rfl, ⟨?_, ?_, ?_, ?_, ?_⟩⟩, .nil _⟩
  all_goals simp [opening, Machine.config, Machine.bare, Sockets.bench, pipeDesk, Pipe.acts,
    Pipe.issued, Pipe.transferred, Pipe.usesOf]

/-- At every point of an execution all is known of what was done with the pipes of sockets. -/
theorem recorded (x : Execution m) : Recorded x.machine.config (traffic x.past) := by
  have := recorded_start.induction x.run (fun _ _ => True) trivial fun _ _ _ _ _ _ _ _ => trivial
  simpa using this.1

end Runs

end Conduit.Socket
