import Conduit.Proofs.Socket.Owners

/-!
What a program does to those who own descriptors. Every turn leaves each descriptor that has not been
linked to one owner, who alone may link it, and streams go on carrying their bytes.
-/

namespace Conduit.Socket

open Dispatch
open Kernel (System Log)

section Turns

variable {s : Sockets}

open Sockets (Releases Respects)

/-- A turn that respects who owns what. -/
def Respectful (s : Sockets) (t : Turn signature) : Prop := s.Respects t.state

theorem respects_releases {s' : Sockets} (h : s.Releases s') (hsystem : s'.system = s.system) :
    s.Respects s' :=
  h.respects (hsystem ▸ .refl _ _)

theorem respects_of_eq {s' : Sockets} (hsystem : s'.system = s.system)
    (hhandles : s'.handles = s.handles) (hslots : s'.slots = s.slots)
    (hattempts : s'.attempts = s.attempts) : s.Respects s' :=
  .of_eq (hsystem ▸ .refl _ _) hhandles hslots hattempts

theorem fail_respects (s : Sockets) (id : String) (h : Handle) (f : Fault) :
    s.Respects (s.fail id h f).state := by
  cases h with
  | sole st => exact respects_releases (.forget s id) rfl
  | shared i => exact .refl s

theorem system_setStage (s : Sockets) (id : String) (h : Handle) (st : Stage) :
    (s.setStage id h st).system = s.system := by
  cases h <;> rfl

/-- A new descriptor belongs to the socket that it was made for. -/
theorem respects_bound {system : System} {d : Nat} (hd : s.system.Adds system d) (id : String)
    (h : Handle) (limits : ChunkLimits) :
    s.Respects ({ s with system }.setStage id h (.bound ⟨some d, limits⟩)) := by
  have hsystem : ({ s with system }.setStage id h (.bound ⟨some d, limits⟩)).system = system :=
    system_setStage ..
  constructor
  · intro hs
    refine hs.pass (o := h.owner id) (d := d) ?_ ?_ ?_ fun o' b hb => ?_
    · rw [hsystem]
      exact hd.present
    · rw [hsystem]
      exact hd.single
    · rw [hsystem]
      exact hd.stays.spares none
    · rcases Sockets.owns_setStage (s := { s with system }) hb with ⟨heq, hheld⟩ | ⟨hold, -⟩
      · exact .inl ⟨heq, (Option.some.inj hheld).symm⟩
      · refine .inr ⟨hold, fun heq => ?_⟩
        obtain ⟨t, ht⟩ := hs.present o' b hold
        rw [heq, hd.absent] at ht
        cases ht
  · intro _ log hl
    rw [hsystem]
    exact hd.stays.streams hl

theorem respectful_bind (id : String) (h : Handle) (a : Address) (type : SocketType) :
    Respectful s (s.bind id h a type) := by
  unfold Sockets.bind
  split
  · rename_i p _
    have hmakes := p.bind_makes s.system a type
    split <;> rename_i hbind <;> rw [hbind] at hmakes
    · have hundone : s.Respects { s with system := _ } :=
        .of_eq (hmakes.retains.stays.goes none) rfl rfl rfl
      exact hundone.trans (fail_respects _ id h _)
    · exact respects_bound hmakes.creates.adds id h _
  · exact .refl s

theorem held_of_opened {b : Bound} {d : Nat} (h : opened b.descriptor = .ok d) :
    (Stage.bound b).held? = some d := by
  obtain ⟨descriptor, limits⟩ := b
  cases descriptor with
  | none => cases h
  | some d' =>
    cases h
    rfl

theorem respectful_listen {id : String} {h : Handle} (hh : s.handle? id = some h)
    (backlog : Int32) : Respectful s (s.listen id h backlog) := by
  unfold Sockets.listen
  split
  · rename_i b hst
    split
    · exact fail_respects s id h _
    · rename_i d hopened
      split
      · exact fail_respects s id h _
      · rename_i system hlisten
        have howns : s.Owns (h.owner id) d :=
          Sockets.owns_of_stage hh (hst ▸ held_of_opened hopened)
        -- The socket gives its descriptor away, and whoever listens links nothing.
        have given {system' : System} (hheed : system.Retains system') (listeners : List Listener)
            {st : Stage} (hst : st.held? = none) :
            s.Respects ({ s with system := system', listeners }.setStage id h st) := by
          have hreleases : s.Releases ({ s with system := system', listeners }.setStage id h st) :=
            (Releases.of_eq rfl rfl rfl).trans (.setStage _ id h hst)
          have hgoes (hs : s.Exclusive) : s.system.Goes system' none :=
            ((System.listen_stays (hs.single _ d howns) hlisten).trans hheed.stays).goes none
          have hsystem := system_setStage { s with system := system', listeners } id h st
          exact ⟨fun hs => hreleases.exclusive (hsystem ▸ (hgoes hs).toSpares) hs,
            fun hs log hl => hsystem ▸ (hgoes hs).streams log hl⟩
        split
        · rename_i hheed
          exact (given (System.retains_of_heed hheed) s.listeners rfl).trans (fail_respects _ id h _)
        · rename_i hheed
          exact given (System.retains_of_heed hheed) _ rfl
  · exact .refl s

theorem system_startAttempt (s : Sockets) (id : String) (h : Handle) (x : Attempt) :
    (s.startAttempt id h x).state.system = s.system := by
  cases h <;> rfl

/-- An attempt gets what has been prepared for it. -/
theorem respects_startAttempt {s' : Sockets} {id : String} {h : Handle} {x : Attempt}
    (hsame : s'.handles = s.handles ∧ s'.slots = s.slots ∧ s'.attempts = s.attempts)
    (hstays : s.system.Stays s'.system)
    (hx : ∀ d, x.descriptor? = some d → s.Owns (h.owner id) d ∨ s.system.Adds s'.system d) :
    s.Respects (s'.startAttempt id h x).state := by
  have hsystem := system_startAttempt s' id h x
  have hspares := hstays.spares none
  have hold : s.Releases s' := .of_eq hsame.1 hsame.2.1 hsame.2.2
  refine ⟨fun hs => ?_, fun _ log hl => hsystem ▸ hstays.streams hl⟩
  cases hd : x.descriptor? with
  | none =>
    refine Releases.exclusive (fun o b hb => ?_) (hsystem ▸ hspares) hs
    rcases Sockets.owns_startAttempt hb with ⟨-, hb⟩ | ⟨hb, -⟩
    · rw [hd] at hb
      cases hb
    · exact hold o b hb
  | some d =>
    refine hs.pass (o := .attempt s'.attempts.length) (d := d) ?_ ?_ (hsystem ▸ hspares)
      fun o' b hb => ?_
    · rcases hx d hd with ho | hadds
      · obtain ⟨t, ht⟩ := hs.present _ d ho
        exact hsystem ▸ ⟨t, hspares.type d t ht⟩
      · exact hsystem ▸ hadds.present
    · rcases hx d hd with ho | hadds
      · exact hsystem ▸ hstays.single.mpr (hs.single _ d ho)
      · exact hsystem ▸ hadds.single
    · rcases Sockets.owns_startAttempt hb with ⟨heq, hxb⟩ | ⟨hb', hne⟩
      · exact .inl ⟨heq, Option.some.inj (hxb.symm.trans hd)⟩
      · refine .inr ⟨hold o' b hb', fun heq => ?_⟩
        subst heq
        -- The socket that had it gives it away, and nobody else can have one that is new.
        rcases hx b hd with ho | hadds
        · exact hne (hs.alone _ _ b (hold o' b hb') ho)
        · obtain ⟨t, ht⟩ := hs.present o' b (hold o' b hb')
          rw [hadds.absent] at ht
          cases ht

theorem respectful_connect {id : String} {h : Handle} (hh : s.handle? id = some h)
    (target : Address) (type : SocketType) (ticket : Option Nat) (context : Context) :
    Respectful s (s.connect id h target type ticket context) := by
  unfold Sockets.connect
  split
  · rename_i p _
    have hmakes := p.prepare_makes s.system target.family type
    generalize p.prepare s.system target.family type = made at hmakes ⊢
    cases hmakes with
    | made hcreates =>
      refine respects_startAttempt ⟨rfl, rfl, rfl⟩ hcreates.adds.stays fun d' hd' => .inr ?_
      cases hd'
      exact hcreates.adds
    | undone t =>
      have hundone := (s.system.undo_retains t).stays
      exact respects_startAttempt ⟨rfl, rfl, rfl⟩ hundone fun d' hd' => by cases hd'
  · rename_i b hst
    refine respects_startAttempt ⟨rfl, rfl, rfl⟩ (.refl _) fun d hd => .inl ?_
    refine Sockets.owns_of_stage hh (hst ▸ held_of_opened ?_)
    unfold Attempt.descriptor? at hd
    dsimp only at hd
    split at hd
    · rename_i hopened
      cases hd
      exact hopened
    · rename_i hopened
      cases hd
      exact hopened
    · cases hd
  · exact .refl s

theorem keep_respects (s : Sockets) (name : Option String) (k : Nat) :
    s.Respects (s.keep name k) := by
  cases name with
  | none => exact .refl s
  | some name => exact respects_releases (.bindHandle s name fun _ h => by cases h; rfl) rfl

theorem respectful_copy (id of : String) : Respectful s (s.copy id of) := by
  have bound {h : Handle} (hh : ∀ st, h = .sole st → st.held? = none) :
      s.Respects (s.bindHandle id h) := respects_releases (.bindHandle s id hh) rfl
  unfold Sockets.copy
  split
  · exact bound fun _ h => by cases h
  · exact bound fun _ h => by cases h; rfl
  · exact bound fun _ h => by cases h; rfl
  · exact .refl s

theorem closeAttempt_respects (s : Sockets) (a : Nat) : s.Respects (s.closeAttempt a) :=
  respects_releases (.modifyAttempt s a fun _ _ _ h => h) rfl

theorem closeConnection_respects (s : Sockets) (k : Nat) : s.Respects (s.closeConnection k).1 := by
  obtain ⟨hub, connections, system, h, -, hsystem⟩ := s.closeConnection_eq k
  rw [h]
  exact .of_eq (hsystem.stays.goes none) rfl rfl rfl

theorem close_respects (s : Sockets) (id : String) (h : Handle) : s.Respects (s.close id h).1 := by
  have hbehind : s.Respects (s.closeBehind (s.stageOf h)).1 := by
    cases s.stageOf h with
    | connected k => exact closeConnection_respects s k
    | listening l => exact respects_of_eq rfl rfl rfl rfl
    | connecting a => exact closeAttempt_respects s a
    | _ => exact .refl s
  refine hbehind.trans (respects_releases (.setStage _ id h ?_) (system_setStage ..))
  cases h with
  | sole st => exact (harmless_closedStage _).held?
  | shared i => rfl

/-- Every action respects who owns what. -/
theorem run_respects (s : Sockets) (view : View) (act : Action) :
    Respectful s (s.run view act) := by
  have same : s.Respects s := .refl s
  have alone {s' : Sockets} (hsystem : s'.system = s.system) (hhandles : s'.handles = s.handles)
      (hslots : s'.slots = s.slots) (hattempts : s'.attempts = s.attempts) : s.Respects s' :=
    respects_of_eq hsystem hhandles hslots hattempts
  by_cases hact : act.isPeripheral = true
  · obtain ⟨_, _, _, _, _, _, _, _, h⟩ := (s.run_peripheral view hact).eq
    show s.Respects (s.run view act).state
    rw [h]
    exact alone rfl rfl rfl rfl
  cases act with
  | socket id shared options limits =>
    cases shared with
    | true =>
      have hslot : s.Releases { s with slots := s.slots ++ [.unbound { options, limits }] } := by
        intro o d ho
        cases o with
        | slot i =>
          obtain ⟨st, hst, hd⟩ := ho
          have hst : (s.slots ++ [_])[i]? = some st := hst
          rw [List.getElem?_append] at hst
          split at hst
          · exact ⟨st, hst, hd⟩
          · obtain rfl := List.mem_singleton.mp (List.mem_of_getElem? hst)
            cases hd
        | _ => exact ho
      exact respects_releases (hslot.trans (.bindHandle _ id fun _ h => by cases h)) rfl
    | false => exact respects_releases (.bindHandle s id fun _ h => by cases h; rfl) rfl
  | bind id target type =>
    exact withAddress_cases (P := Respectful s) same fun a =>
      withHandle_cases (P := Respectful s) same fun h _ => respectful_bind id h a type
  | listen id backlog =>
    exact withHandle_cases (P := Respectful s) same fun h hh => respectful_listen hh backlog
  | accept id controller context =>
    refine withHandle_cases (P := Respectful s) same fun h _ =>
      withContext_cases (P := Respectful s) same fun c => ?_
    unfold Sockets.accept
    split
    · exact alone rfl rfl rfl rfl
    · exact same
  | next controller name skipFaults =>
    refine withController_cases (P := Respectful s) same fun c x => ?_
    have harrived (f : Acceptor → Acceptor) : s.Respects (s.modifyAcceptor c f) :=
      alone rfl rfl rfl rfl
    unfold Sockets.next
    dsimp only
    split
    · exact (harrived _).trans (keep_respects _ name _)
    · exact harrived _
    · exact harrived _
  | glance controller =>
    exact withController_cases (P := Respectful s) same fun c x => alone rfl rfl rfl rfl
  | stop controller =>
    exact withController_cases (P := Respectful s) same fun c x => alone rfl rfl rfl rfl
  | connect id target type ticket context =>
    refine withAddress_cases (P := Respectful s) same fun a =>
      withHandle_cases (P := Respectful s) same fun h hh =>
        withContext_cases (P := Respectful s) same fun c => ?_
    cases ticket with
    | none => exact respectful_connect hh a type none c
    | some name =>
      exact withTicket_cases (P := Respectful s) same fun t =>
        respectful_connect hh a type (some t) c
  | connected id name =>
    simp only [Sockets.run]
    split
    · exact same
    · unfold Sockets.connected
      split
      · have hcalls : s.Respects { s with calls := s.calls.filter (·.1 ≠ id) } :=
          alone rfl rfl rfl rfl
        dsimp only
        split
        · exact hcalls.trans (keep_respects _ (some name) _)
        · exact hcalls
      · exact same
  | abort id =>
    show Respectful s (s.abort id)
    unfold Sockets.abort
    split
    · split
      · exact same
      · exact closeAttempt_respects s _
    · exact same
  | option id level name =>
    refine Sockets.askOption_cases (P := s.Respects) same fun d system value hoption => ?_
    exact .of_eq ((System.getOption_retains hoption).stays.goes none) rfl rfl rfl
  | close id =>
    simp only [Sockets.run]
    split
    · exact same
    · exact close_respects s id _
  | drop id => exact respects_releases (.forget s id) rfl
  | copy id of => exact respectful_copy id of
  | pipe id name =>
    refine withHandle_cases (P := Respectful s) same fun h _ => ?_
    unfold Sockets.pipe
    split
    · rename_i k _
      obtain ⟨hub, plugs, pipes, connections, he, -⟩ := s.addPipe_eq name k
      have : s.Respects (s.addPipe name k).1 := he ▸ alone rfl rfl rfl rfl
      exact this
    · exact same
  | limit on =>
    have hlimit : s.system.Retains { s.system with limited := on } := .of_descriptors rfl
    exact .of_eq (hlimit.stays.goes none) rfl rfl rfl
  | _ => exact absurd rfl hact

theorem finish_respects (s : Sockets) (r : Nat) : s.Respects (s.finishRequest r).1 := by
  obtain ⟨hub, collectors, h⟩ := s.finishRequest_eq r
  rw [h]
  exact respects_of_eq rfl rfl rfl rfl

/-- An accept loop links nothing. -/
theorem attend_respects (s : Sockets) (c : Nat) : s.Respects (s.attendTurn c).state := by
  obtain ⟨d, taken, hadmits⟩ := (s.attend_accepts c).system
  have hstays := hadmits.stays
  obtain ⟨system, connections, acceptors, h⟩ := (s.attend_accepts c).eq
  rw [s.attendTurn_state]
  rw [h] at hstays ⊢
  exact .of_eq (hstays.goes none) rfl rfl rfl

theorem setProgress_respects (s : Sockets) (a : Nat) {progress : Progress}
    (h : progress.isOpen = false) : s.Respects (s.setProgress a progress) := by
  refine respects_releases (.modifyAttempt s a fun x d _ hd => ?_) rfl
  cases progress <;> simp_all [Attempt.descriptor?, Progress.isOpen]

theorem descriptor?_of_open {x : Attempt} {d : Nat} (hx : x.prepared = .ok d)
    (h : x.progress.isOpen = true) : x.descriptor? = some d := by
  cases hp : x.progress <;> simp_all [Attempt.descriptor?, Progress.isOpen]

/-- An attempt that is decided owns nothing. -/
theorem not_owns_decided (s : Sockets) (a : Nat) (o : Outcome) (d : Nat) :
    ¬(s.setProgress a (.decided o)).Owns (.attempt a) d := by
  rintro ⟨x, hx, hd⟩
  have hx : (s.attempts.modify a fun x => { x with progress := .decided o })[a]? = some x := hx
  rw [List.getElem?_modify_eq] at hx
  obtain ⟨y, -, rfl⟩ := Option.map_eq_some_iff.mp hx
  cases hd

/-- An attempt goes on to wait with its descriptor, or is decided; then it has linked its descriptor
perhaps, and owns it no more. -/
theorem attempt_respects {a : Nat} {x : Attempt} (hx : s.attempts[a]? = some x)
    (hopen : x.progress.isOpen = true) : s.Respects (Sockets.tried a (s.attempt x a)) := by
  have fails (f : Fault) : s.Respects (Sockets.tried a (s, some (.error f))) :=
    setProgress_respects s a rfl
  unfold Sockets.attempt
  split
  · exact fails _
  · rename_i d hprepared
    have howns : s.Owns (.attempt a) d := ⟨x, hx, descriptor?_of_open hprepared hopen⟩
    split
    · exact fails _
    · split
      · exact fails _
      · -- Whoever is decided owns its descriptor no more, and may have linked it.
        have links (s' : Sockets) {o : Outcome} (hsame : s'.handles = s.handles ∧
            s'.slots = s.slots ∧ s'.attempts = s.attempts)
            (hgoes : s.Exclusive → s.system.Goes s'.system (some d)) :
            s.Respects (s'.setProgress a (.decided o)) := by
          have hreleases : s.Releases (s'.setProgress a (.decided o)) := by
            refine (Releases.of_eq hsame.1 hsame.2.1 hsame.2.2).trans (.modifyAttempt _ a ?_)
            intro x' d' _ hd'
            cases hd'
          refine ⟨fun hs => hs.link howns (hgoes hs).toSpares fun o' b hb => ⟨hreleases o' b hb, ?_⟩,
            fun hs => (hgoes hs).streams⟩
          rintro rfl
          exact not_owns_decided _ a _ b hb
        split
        · rename_i system e hdial
          exact links _ ⟨rfl, rfl, rfl⟩ fun hs => s.goes_of_dial hdial (hs.single _ d howns)
        · -- The link is still to come, and the attempt keeps its descriptor.
          rename_i system hdial
          have hgoes (hs : s.Exclusive) : s.system.Goes system none :=
            (s.connects_of_dial hdial).goes (hs.single _ d howns)
          have hreleases : s.Releases ({ s with system }.setProgress a .waiting) := by
            refine (Releases.of_eq rfl rfl rfl).trans (.modifyAttempt { s with system } a ?_)
            intro x' d' hx' hd'
            obtain rfl : x = x' := Option.some.inj (hx.symm.trans hx')
            have hprepared' : x.prepared = .ok d' := by
              cases hp : x.prepared <;> simp_all [Attempt.descriptor?]
            exact descriptor?_of_open hprepared' hopen
          exact ⟨fun hs => hreleases.exclusive (hgoes hs).toSpares hs, fun hs => (hgoes hs).streams⟩
        · -- The link is made, and its descriptor belongs to a connection.
          rename_i system hdial
          exact links ({ s with system }.addConnection d x.limits).1 ⟨rfl, rfl, rfl⟩
            fun hs => s.goes_of_dial hdial (hs.single _ d howns)

theorem pursue_respects (s : Sockets) (a : Nat) : s.Respects (s.pursueTurn a).state := by
  rcases s.pursueTurn_tried a with hstate | ⟨x, hx, hprogress, hstate⟩
  · rw [hstate]
    exact .refl s
  · have hopen : x.progress.isOpen = true := by
      rcases hprogress with hp | hp <;> rw [hp, Progress.isOpen]
    exact hstate ▸ attempt_respects hx hopen

theorem settle_respects (s : Sockets) (i : Nat) (o : Outcome) : s.Respects (s.settle i o).1 := by
  by_cases h : ∃ a, s.slots[i]? = some (.connecting a)
  · obtain ⟨a, h⟩ := h
    rw [settle_waiting s h]
    cases o with
    | ok k => exact respects_releases (.setSlot s i rfl) rfl
    | error f => exact respects_releases (.setSlot s i rfl) rfl
  · rw [settle_late s fun a ha => h ⟨a, ha⟩]
    cases o with
    | ok k => exact closeConnection_respects s k
    | error f => exact .refl s

theorem conclude_respects (s : Sockets) (a : Nat) : s.Respects (s.conclude a).1 := by
  unfold Sockets.conclude
  split
  · exact .refl s
  · split
    · exact setProgress_respects s a rfl
    · exact (settle_respects s _ _).trans (setProgress_respects _ a rfl)
    · exact .refl s

theorem unwind_respects (s : Sockets) (f : Frame) : s.Respects (s.unwind f) := by
  cases f with
  | serve r => exact finish_respects s r
  | finish r => exact finish_respects s r
  | conclude a => exact setProgress_respects s a rfl
  | announce c => exact respects_of_eq rfl rfl rfl rfl
  | attend c => exact .refl s

theorem reap_respects (s : Sockets) : s.Respects s.reap :=
  .of_eq (System.closeAll_goes ..) rfl rfl rfl

end Turns

end Conduit.Socket
