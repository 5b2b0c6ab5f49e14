import Conduit.Proofs.Socket.Dealing

/-!
Every turn deals out descriptors as it should. So in every state of every run each descriptor
belongs to one claimant at most, and one that belongs only to those who are done with it never comes
to anybody again.
-/

namespace Conduit.Socket

open Dispatch
open Kernel (System)

section Turns

variable {s : Sockets}

open Sockets (Yields Deals)

/-! ### Accept loops -/

theorem endLoop_yields (s : Sockets) (c : Nat) (x : Acceptor) : s.Yields (s.endLoop c x).1 := by
  unfold Sockets.endLoop
  split
  · exact .modifyAcceptor s c (fun _ => rfl) nofun fun _ _ _ h => h
  · exact .emit s c .closed (by simp)

theorem look_deals {c : Nat} {x : Acceptor} (hx : s.acceptors[c]? = some x) (l : Listener) {d : Nat}
    (hd : x.round = .waiting d ∨ s.ListensOn x.listener d) : s.Deals (s.look c x l d).1 := by
  have hadmits := Calls.accept_admits s.system d
  unfold Sockets.look
  split
  · exact (endLoop_yields s c x).deals
  · split
    · rename_i system again haccept
      rw [haccept] at hadmits
      refine (Yields.withSystem hadmits.thins).deals.trans
        (Yields.modifyAcceptor { s with system } c ?_ ?_ ?_).deals
      · exact fun _ => rfl
      · rintro y hy _ ⟨⟩
        obtain rfl := Option.some.inj (hx.symm.trans hy)
        exact hd
      · exact fun _ _ _ h => h
    · rename_i system e haccept
      rw [haccept] at hadmits
      have hheed := hadmits.andThen system.heed_retains
      split
      · rename_i h
        rw [h] at hheed
        exact .accepts hheed l.limits c
      · rename_i u f h
        rw [h] at hheed
        exact (Yields.withSystem hheed.thins).deals.trans
          (Yields.emit { s with system := u } c _ (by simp)).deals
    · rename_i system e haccept
      rw [haccept] at hadmits
      exact (Yields.withSystem hadmits.thins).deals.trans
        (Yields.emit { s with system } c _ (by simp)).deals

theorem startRound_deals {c : Nat} {x : Acceptor} (hx : s.acceptors[c]? = some x) {l : Listener}
    (hl : s.listeners[x.listener]? = some l) : s.Deals (s.startRound c x l).1 := by
  unfold Sockets.startRound
  split
  · rename_i d hopened
    refine look_deals hx l (.inr ⟨l, hl, ?_⟩)
    cases hd : l.descriptor with
    | none =>
      rw [hd] at hopened
      cases hopened
    | some d' =>
      rw [hd] at hopened
      cases hopened
      rfl
  · exact (endLoop_yields s c x).deals

theorem attend_deals (s : Sockets) (c : Nat) : s.Deals (s.attendTurn c).state := by
  rw [s.attendTurn_state]
  unfold Sockets.attend
  split
  · exact (Yields.refl s).deals
  · rename_i x hx
    split
    · exact (Yields.refl s).deals
    · rename_i l hl
      split
      · exact (Yields.refl s).deals
      · exact startRound_deals hx hl
      · rename_i d hround
        exact look_deals hx l (.inl hround)
      · split
        · exact (Yields.refl s).deals
        · exact startRound_deals hx hl

/-! ### Attempts -/

theorem attempt_deals {a : Nat} {x : Attempt} (hx : s.attempts[a]? = some x)
    (hopen : x.progress.isOpen = true) : s.Deals (Sockets.tried a (s.attempt x a)) := by
  have fails (t : Sockets) (f : Fault) : t.Deals (Sockets.tried a (t, some (.error f))) :=
    (Yields.endAttempt t a rfl (by simp) (by simp)).deals
  unfold Sockets.attempt
  split
  · exact fails s _
  · rename_i d hprepared
    have hd : x.descriptor? = some d := descriptor?_of_open hprepared hopen
    split
    · exact fails s _
    · split
      · exact fails s _
      · rename_i hclosed
        split
        · rename_i system e hdial
          have hlink : s.Deals { s with system } := .enlists (s.enlists_of_dial hdial)
          exact hlink.trans (fails _ _)
        · rename_i system hdial
          have hy : s.Yields { s with system } := .withSystem (s.connects_of_dial hdial).thins
          refine (hy.trans (.setProgress _ a (fun y e hy he => ?_) (by simp) (by simp))).deals
          obtain rfl := Option.some.inj (hx.symm.trans hy)
          have : x.prepared = .ok e := by
            cases hp : x.prepared <;> simp_all [Attempt.descriptor?]
          exact descriptor?_of_open this hopen
        · rename_i system hdial
          have hlink : s.Deals { s with system } := .enlists (s.enlists_of_dial hdial)
          exact hlink.trans
            (.connects (s := { s with system }) hx hd (by simpa using hclosed) x.limits)

theorem pursue_deals (s : Sockets) (a : Nat) : s.Deals (s.pursueTurn a).state := by
  rcases s.pursueTurn_tried a with hstate | ⟨x, hx, hprogress, hstate⟩
  · rw [hstate]
    exact (Yields.refl s).deals
  · have hopen : x.progress.isOpen = true := by
      rcases hprogress with hp | hp <;> rw [hp, Progress.isOpen]
    exact hstate ▸ attempt_deals hx hopen

/-- An outcome that reaches its receiver without a connection. -/
theorem delivered_yields (s : Sockets) (a : Nat) (f : Fault) :
    s.Yields (s.setProgress a (.delivered (.error f))) :=
  .endAttempt s a rfl (by simp) (by simp)

theorem conclude_deals (s : Sockets) (a : Nat) : s.Deals (s.conclude a).1 := by
  unfold Sockets.conclude
  split
  · exact (Yields.refl s).deals
  · rename_i x hx
    split
    · rename_i o hp hslot
      cases o with
      | error f => exact (delivered_yields s a f).deals
      | ok k =>
        refine .delivers hx hp ?_
        rintro ⟨y, i, hy, hi, -⟩
        obtain rfl := Option.some.inj (hx.symm.trans hy)
        rw [hslot] at hi
        cases hi
    · rename_i o i hp hslot
      by_cases h : ∃ b, s.slots[i]? = some (.connecting b)
      · obtain ⟨b, hb⟩ := h
        rw [settle_waiting s hb]
        cases o with
        | ok k =>
          -- The slot takes what has been delivered.
          have hgiven : s.Deals (s.setProgress a (.delivered (.ok k))) := by
            refine .delivers hx hp ?_
            rintro ⟨y, j, hy, hj, hclosed⟩
            obtain rfl := Option.some.inj (hx.symm.trans hy)
            obtain rfl := Option.some.inj (hslot.symm.trans hj)
            rw [hb] at hclosed
            cases hclosed
          have hx' : (s.setProgress a (.delivered (.ok k))).attempts[a]? =
              some { x with progress := .delivered (.ok k) } := by
            simp [Sockets.setProgress, hx]
          refine hgiven.trans (Yields.setSlot _ i rfl (fun j hj => ?_) fun hi => ?_).deals
          · obtain rfl := Stage.connected.inj hj
            exact .outcome (List.mem_of_getElem? hx') rfl
          · exact absurd (hb.symm.trans hi) (by simp)
        | error f => exact ((Yields.closeSlot s i).trans (delivered_yields _ a f)).deals
      · rw [settle_late s fun b hb => h ⟨b, hb⟩]
        cases o with
        | ok k => exact ((Yields.closeConnection s k).trans (delivered_yields _ a _)).deals
        | error f => exact (delivered_yields s a f).deals
    · exact (Yields.refl s).deals

/-! ### Frames and tasks -/

theorem announce_yields (s : Sockets) (c : Nat) : s.Yields (s.announce c) := by
  refine .modifyOutcomes s c (fun x => ?_) (fun x => ?_) fun x _ k hk => ?_
  · cases x.underway <;> rfl
  · cases x.underway <;> rfl
  · cases hu : x.underway with
    | nil => simpa [hu] using hk
    | cons o rest =>
      rw [Acceptor.Bears, hu] at hk ⊢
      dsimp only at hk
      split at hk
      · rw [List.mem_append, List.mem_singleton] at hk
        rcases hk with hk | hk | rfl
        · exact .inl (List.mem_cons_of_mem o hk)
        · exact .inr hk
        · exact .inl List.mem_cons_self
      · exact hk.imp_left (List.mem_cons_of_mem o)

theorem finish_yields (s : Sockets) (r : Nat) : s.Yields (s.finishRequest r).1 := by
  obtain ⟨hub, collectors, h⟩ := s.finishRequest_eq r
  rw [h]
  exact .same rfl rfl

/-- A request works descriptors, and lets nobody wait. -/
theorem serve_yields (s : Sockets) (r : Nat) : s.Yields (s.advanceRequest r).1 := by
  have hsystem : s.system.Thins (s.advanceRequest r).1.system :=
    s.advanceRequest_system .refl (·.thins) (·.thins) r
  obtain ⟨hub, collectors, system, h, -⟩ := s.advanceRequest_eq r
  rw [h] at hsystem ⊢
  exact .of_estate rfl hsystem

theorem resume_deals (s : Sockets) (f : Frame) : s.Deals (s.resume f).state := by
  cases f with
  | serve r => exact (serve_yields s r).deals
  | finish r => exact (finish_yields s r).deals
  | conclude a => exact conclude_deals s a
  | announce c => exact (announce_yields s c).deals
  | attend c => exact attend_deals s c

theorem unwind_yields (s : Sockets) (f : Frame) : s.Yields (s.unwind f) := by
  cases f with
  | serve r => exact finish_yields s r
  | finish r => exact finish_yields s r
  | conclude a => exact .endAttempt s a rfl (by simp) (by simp)
  | announce c =>
    refine .modifyOutcomes s c (fun _ => rfl) (fun _ => rfl) fun x _ k hk => ?_
    exact hk.imp_left fun h => (List.dropLast_sublist _).subset h
  | attend c => exact .refl s

theorem poll_deals (s : Sockets) (t : Task) : s.Deals (s.poll t).state := by
  cases t with
  | request r => exact (serve_yields s r).deals
  | attempt a => exact pursue_deals s a
  | acceptor c => exact attend_deals s c
  | alarm i =>
    obtain ⟨alarms, tickets, h⟩ := s.ring_eq i
    have hstate : (s.poll (.alarm i)).state = { s with alarms, tickets } := h
    rw [hstate]
    exact Yields.deals (.same rfl rfl)

/-! ### Actions -/

/-- What a turn does to descriptors is as it should be. -/
def Dealing (s : Sockets) (t : Turn signature) : Prop := s.Deals t.state

theorem dealing_bind (id : String) (h : Handle) (a : Address) (type : SocketType) :
    Dealing s (s.bind id h a type) := by
  unfold Sockets.bind
  split
  · rename_i p hst
    have hmakes := p.bind_makes s.system a type
    split <;> rename_i hbind <;> rw [hbind] at hmakes
    · exact ((Yields.withSystem hmakes.retains.thins).trans (.fail _ id h _)).deals
    · exact Deals.bound hmakes.creates id (by simp [hst]) _
  · exact (Yields.refl s).deals

theorem dealing_listen {id : String} {h : Handle} (hh : s.handle? id = some h) (backlog : Int32) :
    Dealing s (s.listen id h backlog) := by
  unfold Sockets.listen
  split
  · rename_i b hst
    have hopen : s.stageOf h ≠ .closed := by simp [hst]
    split
    · exact (Yields.fail s id h _).deals
    · rename_i d hopened
      split
      · exact (Yields.fail s id h _).deals
      · rename_i system hlisten
        have hy {system' : System} (hheed : system.Retains system') :
            s.Yields { s with system := system' } :=
          .withSystem ((System.listen_thins hlisten).trans hheed.thins)
        split
        · rename_i system' e hheed
          have hstrip := Yields.strip (s := { s with system := system' }) id hopen b.limits
          exact (((hy (System.retains_of_heed hheed)).trans hstrip).trans (.fail _ id h _)).deals
        · rename_i system' hheed
          exact (hy (System.retains_of_heed hheed)).deals.trans
            (Deals.listens (s := { s with system := system' }) hh hst hopened b.limits)
  · exact (Yields.refl s).deals

theorem dealing_connect {id : String} {h : Handle} (hh : s.handle? id = some h)
    (target : Address) (type : SocketType) (ticket : Option Nat) (context : Context) :
    Dealing s (s.connect id h target type ticket context) := by
  unfold Sockets.connect
  split
  · rename_i p hst
    have hopen : s.stageOf h ≠ .closed := by simp [hst]
    have hmakes := p.prepare_makes s.system target.family type
    generalize p.prepare s.system target.family type = made at hmakes ⊢
    cases hmakes with
    | @made system d hcreates =>
      refine Deals.start (t := { s with system }) (.withSystem hcreates.thins) hopen rfl rfl
        fun hs => hs.makes (q := .owner (.attempt s.attempts.length)) (n := d) ?_ ?_
          fun c b hc => ?_
      · simp [Sockets.Present, hcreates.fresh.absent]
      · rw [Sockets.Present, system_startAttempt]
        exact hcreates.fresh.present
      · rcases Sockets.claims_startAttempt rfl hc with ⟨hc, hb⟩ | ⟨hc, -⟩
        · exact .inl ⟨hc, (Option.some.inj hb).symm⟩
        · exact .inr ((Yields.withSystem hcreates.thins).claims hc)
    | undone t f =>
      -- Without a descriptor nothing is claimed.
      have hundone : s.Yields { s with system := s.system.undo t } :=
        .withSystem (s.system.undo_retains t).thins
      refine Deals.start hundone hopen rfl rfl fun _ d => .kept fun c hc => ?_
      rcases Sockets.claims_startAttempt rfl hc with ⟨-, hb⟩ | ⟨hc, -⟩
      · cases hb
      · exact hundone.claims hc
  · rename_i b hst
    have hopen : s.stageOf h ≠ .closed := by simp [hst]
    refine Deals.start (.refl s) hopen rfl rfl fun hs =>
      hs.passes (p := .owner (h.owner id)) (q := .owner (.attempt s.attempts.length))
        (Sockets.not_spent_socket id h) fun c e hc => ?_
    rcases Sockets.claims_startAttempt rfl hc with ⟨hc, he⟩ | ⟨hc, -⟩
    · refine .inl ⟨hc, ?_, fun hgone => ?_⟩
      · refine Sockets.owns_of_stage hh (hst ▸ held_of_opened ?_)
        unfold Attempt.descriptor? at he
        dsimp only at he
        cases hopened : opened b.descriptor with
        | ok d =>
          rw [hopened] at he
          exact congrArg Except.ok (Option.some.inj he)
        | error f =>
          rw [hopened] at he
          cases he
      · rcases Sockets.claims_startAttempt rfl hgone with ⟨heq, -⟩ | ⟨-, hne⟩
        · exact Sockets.owner_ne_attempt id h _ (Claimant.owner.inj heq)
        · exact hne rfl
    · exact .inr hc
  · exact (Yields.refl s).deals

theorem dealing_copy (id of : String) : Dealing s (s.copy id of) := by
  unfold Sockets.copy
  split
  · exact (Yields.bindShared s id _).deals
  · exact (Yields.bindSole s id rfl (by simp)).deals
  · rename_i k hk
    refine (Yields.bindSole s id rfl fun j hj => ?_).deals
    obtain rfl := Stage.connected.inj hj
    exact .name (Sockets.mem_of_handle? hk)
  · exact (Yields.refl s).deals

theorem closeBehind_yields (s : Sockets) (st : Stage) : s.Yields (s.closeBehind st).1 := by
  cases st with
  | connected k => exact .closeConnection s k
  | listening l => exact .closeListener s l
  | connecting a => exact .closeAttempt s a
  | _ => exact .refl s

theorem handles_closeBehind (s : Sockets) (st : Stage) :
    (s.closeBehind st).1.handles = s.handles := by
  cases st with
  | connected k =>
    obtain ⟨hub, connections, system, h, -⟩ := s.closeConnection_eq k
    have h : (s.closeBehind (.connected k)).1 = _ := h
    rw [h]
  | _ => rfl

theorem close_yields {id : String} {h : Handle} (hh : s.handle? id = some h) :
    s.Yields (s.close id h).1 := by
  refine (closeBehind_yields s (s.stageOf h)).trans ?_
  cases h with
  | sole st =>
    refine .bindSole _ id (harmless_closedStage _).held? fun k hk => ?_
    have hst : st = .connected k := by
      cases st with
      | connected j => exact hk
      | _ => cases hk
    have hmem : (id, .sole (.connected k)) ∈ (s.closeBehind (s.stageOf (.sole st))).1.handles := by
      rw [handles_closeBehind, ← hst]
      exact Sockets.mem_of_handle? hh
    exact .name hmem
  | shared i => exact .closeSlot _ i

/-- The connection in a stage can be reached. -/
theorem reaches_of_stage {id : String} {h : Handle} {k : Nat} (hh : s.handle? id = some h)
    (hst : s.stageOf h = .connected k) : s.Reaches k := by
  cases h with
  | sole st =>
    obtain rfl : st = .connected k := hst
    exact .name (Sockets.mem_of_handle? hh)
  | shared i => exact .slot (List.mem_of_getElem? (s.slot_of_stage hst (by simp)))

/-- The next outcome is one that has arrived. -/
theorem dealing_next {c : Nat} {x : Acceptor} (hx : s.acceptors[c]? = some x)
    (name : Option String) (skipFaults : Bool) : Dealing s (s.next c x name skipFaults) := by
  have later {t : Sockets} (ht : t.acceptors[c]? = some x) {arrived : List Outcome}
      (h : arrived ⊆ x.arrived) : t.Yields (t.modifyAcceptor c fun x => { x with arrived }) := by
    refine .modifyOutcomes t c (fun _ => rfl) (fun _ => rfl) fun y hy k hk => ?_
    obtain rfl := Option.some.inj (ht.symm.trans hy)
    exact hk.imp_right fun hk => h hk
  have hsub : (if skipFaults then x.arrived.dropWhile Sockets.isFault else x.arrived) ⊆
      x.arrived := by
    split
    · exact (List.dropWhile_sublist _).subset
    · exact List.Subset.refl _
  unfold Sockets.next
  dsimp only
  split
  · rename_i k rest hnext
    rw [hnext, List.cons_subset] at hsub
    have hkeep : s.Yields (s.keep name k) :=
      .keep s name (.arrival (List.mem_of_getElem? hx) (.inr hsub.1))
    have hlater := later (t := s.keep name k) (by cases name <;> exact hx) hsub.2
    have hstate : (s.modifyAcceptor c fun x => { x with arrived := rest }).keep name k =
        (s.keep name k).modifyAcceptor c fun x => { x with arrived := rest } := by
      cases name <;> rfl
    have := (hkeep.trans hlater).deals
    rw [← hstate] at this
    exact this
  · rename_i f rest hnext
    rw [hnext, List.cons_subset] at hsub
    exact (later hx hsub.2).deals
  · exact (later hx (List.nil_subset _)).deals

/-- Every action deals with descriptors as it should. -/
theorem run_deals (s : Sockets) (view : View) (act : Action) : Dealing s (s.run view act) := by
  have same : s.Deals s := (Yields.refl s).deals
  have alone {s' : Sockets} (he : s'.estate = s.estate) (hsystem : s'.system = s.system) :
      s.Deals s' := (Yields.same he hsystem).deals
  by_cases hact : act.isPeripheral = true
  · obtain ⟨_, _, _, _, _, _, _, _, h⟩ := (s.run_peripheral view hact).eq
    show s.Deals (s.run view act).state
    rw [h]
    exact alone rfl rfl
  cases act with
  | socket id shared options limits =>
    cases shared with
    | true => exact ((Yields.openSlot s _ rfl).trans (.bindShared _ id _)).deals
    | false => exact (Yields.bindSole s id rfl (by simp)).deals
  | bind id target type =>
    exact withAddress_cases (P := Dealing s) same fun a =>
      withHandle_cases (P := Dealing s) same fun h _ => dealing_bind id h a type
  | listen id backlog =>
    exact withHandle_cases (P := Dealing s) same fun h hh => dealing_listen hh backlog
  | accept id controller context =>
    refine withHandle_cases (P := Dealing s) same fun h _ =>
      withContext_cases (P := Dealing s) same fun c => ?_
    unfold Sockets.accept
    split
    · exact (Yields.addAcceptor s controller rfl rfl rfl).deals
    · exact same
  | next controller name skipFaults =>
    simp only [Sockets.run]
    unfold Sockets.withController
    split
    · exact same
    · split
      · exact same
      · exact dealing_next ‹_› name skipFaults
  | glance controller =>
    refine withController_cases (P := Dealing s) same fun c x => ?_
    refine Yields.deals (.modifyOutcomes s c (fun _ => rfl) (fun _ => rfl) fun y _ k hk => ?_)
    exact hk.imp_right List.mem_of_mem_drop
  | stop controller =>
    refine withController_cases (P := Dealing s) same fun c x => ?_
    exact Yields.deals (.modifyOutcomes s c (fun _ => rfl) (fun _ => rfl) fun _ _ _ h => h)
  | connect id target type ticket context =>
    refine withAddress_cases (P := Dealing s) same fun a =>
      withHandle_cases (P := Dealing s) same fun h hh =>
        withContext_cases (P := Dealing s) same fun c => ?_
    cases ticket with
    | none => exact dealing_connect hh a type none c
    | some name =>
      exact withTicket_cases (P := Dealing s) same fun t => dealing_connect hh a type (some t) c
  | connected id name =>
    simp only [Sockets.run]
    split
    · exact same
    · unfold Sockets.connected
      split
      · rename_i a _ o ho
        obtain ⟨x, hx, hp⟩ := Option.map_eq_some_iff.mp ho
        have hcalls : s.Yields { s with calls := s.calls.filter (·.1 ≠ id) } := .same rfl rfl
        dsimp only
        split
        · exact (hcalls.trans (.keep _ (some name) (.outcome (List.mem_of_getElem? hx) hp))).deals
        · exact hcalls.deals
      · exact same
  | abort id =>
    show Dealing s (s.abort id)
    unfold Sockets.abort
    split
    · split
      · exact same
      · exact (Yields.closeAttempt s _).deals
    · exact same
  | option id level name =>
    refine Sockets.askOption_cases (P := s.Deals) same fun d system value hoption => ?_
    exact (Yields.withSystem (System.getOption_retains hoption).thins).deals
  | close id =>
    simp only [Sockets.run]
    split
    · exact same
    · exact (close_yields ‹_›).deals
  | drop id => exact (Yields.forget s id).deals
  | copy id of => exact dealing_copy id of
  | pipe id name =>
    refine withHandle_cases (P := Dealing s) same fun h hh => ?_
    unfold Sockets.pipe
    split
    · exact (Yields.addPipe s name (reaches_of_stage hh ‹_›)).deals
    · exact same
  | limit on =>
    have hlimit : s.system.Retains { s.system with limited := on } := .of_descriptors rfl
    exact (Yields.withSystem hlimit.thins).deals
  | _ => exact absurd rfl hact

end Turns

/-! ### Runs -/

open Sockets (Yields Deals)

/-- Every step of a configuration deals with descriptors as it should. -/
theorem step_deals {c c' : Config component} {cause : Option (Dispatch.Cause component)}
    (h : c.Step cause c') : c.state.Deals c'.state := by
  have takes {d : Config component} {t : Turn signature} (ht : c.state.Deals t.state)
      (h : d.Takes (Sockets.tidy t) c') (hn : d.next = none) : c.state.Deals c'.state := by
    have hreap := ht.trans (Yields.reap t.state).deals
    rcases takes_cases h hn with ⟨-, hs⟩ | ⟨_, w, _, -, -, hs | hs⟩
    · exact hs ▸ hreap
    · exact hs ▸ hreap
    · exact hs ▸ hreap.trans ((unwind_yields _ w).trans (.reap _)).deals
  cases h with
  | still hf => exact hf.state_eq ▸ (Yields.refl _).deals
  | exec hn ht => exact takes (run_deals c.state _ _) ht hn
  | resume hn ht => exact takes (resume_deals c.state _) ht rfl
  | @unwind f k _ hn hk hf =>
    rw [← hf]
    exact ((unwind_yields c.state f).trans (.reap _)).deals
  | poll hn hk hr ht => exact takes (poll_deals c.state _) ht hn
  | tick hn =>
    have hclock : c.state.Yields { c.state with clock := c.state.clock + 1 } := .same rfl rfl
    exact hclock.deals
  | begin hn hv => exact (Yields.refl _).deals
  | opened hn hf => exact hf.state_eq ▸ (Yields.refl _).deals

theorem deals_of_run {m m' : Machine component} {past : List (Moment component)}
    (h : Run m past m') : m.state.Deals m'.state := by
  have h := h.config_induction (fun _ c => m.state.Deals c.state) ?_
    fun _ _ _ _ hc hstep => hc.trans (step_deals hstep)
  · rwa [Machine.config_state] at h
  · rw [Machine.config_state]
    exact (Yields.refl _).deals

variable {m : Machine component} [Blank m]

/-- In every state of a run each descriptor belongs to one claimant at most. -/
theorem titled (x : Execution m) : x.machine.state.Titled := by
  obtain ⟨reachable, whims, rfl⟩ := Blank.opens (m := m)
  have claims {c : Claimant} {d : Nat} (h : Sockets.Claims (opening reachable whims).state c d) :
      False := by
    cases c with
    | owner o =>
      cases o with
      | name id =>
        obtain ⟨st, hst, -⟩ := h
        cases hst
      | slot i =>
        obtain ⟨st, hst, -⟩ := h
        cases hst
      | attempt a =>
        obtain ⟨y, hy, -⟩ := h
        cases hy
    | pledge a =>
      obtain ⟨k, ⟨y, hy, -⟩, -⟩ := h
      cases hy
    | listener l =>
      obtain ⟨y, hy, -⟩ := h
      cases hy
    | connection k =>
      obtain ⟨-, y, hy, -⟩ := h
      cases hy
    | line e => cases h
  have lends {c : Claimant} {d : Nat} (h : Sockets.Lends (opening reachable whims).state c d) :
      False := by
    cases c with
    | listener l =>
      obtain ⟨y, hy, -⟩ := h
      cases hy
    | connection k => cases h
    | owner | pledge | line => exact h.elim
  refine (deals_of_run x.run).titled ⟨fun _ _ h => (claims h).elim, fun _ _ _ h => (claims h).elim,
    fun _ => List.nodup_nil, fun k h => ?_, fun a k h => ?_, fun _ _ h => (lends h).elim⟩
  · cases h with
    | slot h => cases h
    | name h => cases h
    | outcome h => cases h
    | arrival h => cases h
    | plug h => cases h
  · obtain ⟨y, hy, -⟩ := h
    cases hy

/-- In every state of a run slots are those of sockets that have not been closed, or are empty. -/
theorem lively (x : Execution m) : x.machine.state.Lively := by
  obtain ⟨reachable, whims, rfl⟩ := Blank.opens (m := m)
  refine (deals_of_run x.run).lively ⟨fun i p h => ?_, fun i a h => ?_⟩ <;> cases h

end Conduit.Socket
