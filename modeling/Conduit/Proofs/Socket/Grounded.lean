import Conduit.Proofs.Socket.Moves
import Conduit.Proofs.Socket.Peripheral

/-!
Nothing is left open that nobody owns. Those who wait in lines are other ends of links, and the
descriptor of a socket that may begin to listen waits nowhere; so what is closed at the end of a turn
leaves nothing behind that a later turn would have to close.
-/

namespace Conduit.Socket

open Dispatch
open Kernel (System)

/-- Nobody can begin to listen in this stage. -/
def Stage.Harmless (st : Stage) : Prop := ∀ b l, st ≠ .bound ⟨some b, l⟩

theorem harmless_of_name {st : Stage} (h : st.name ≠ .bound) : st.Harmless := by
  rintro b l rfl
  exact h rfl

/-- A closed socket does not begin to listen. -/
theorem harmless_closedStage (st : Stage) : (Sockets.closedStage st).Harmless := by
  intro b l
  cases st <;> simp [Sockets.closedStage]

namespace Sockets

variable {s s' s'' : Sockets}

/-- A socket that may begin to listen has the descriptor `b`. -/
def Holds (s : Sockets) (b : Nat) : Prop :=
  ∃ limits, Stage.bound ⟨some b, limits⟩ ∈ s.slots ∨
    ∃ id, (id, Handle.sole (.bound ⟨some b, limits⟩)) ∈ s.handles

/-- The slots that names stand for are there. -/
def Known (s : Sockets) : Prop := ∀ id i, (id, Handle.shared i) ∈ s.handles → i < s.slots.length

/-- Lines are as they should be, and those who may begin to listen wait in none. -/
structure Grounded (s : Sockets) : Prop where
  known : s.Known
  lined : s.system.Lined
  present : ∀ b, s.Holds b → (s.system.role? b).isSome
  apart : ∀ b, s.Holds b → ∀ d, b ∉ s.system.line d

/-- Newcomers wait at most, and nobody gets a descriptor who might listen with it. -/
structure Keeps (s s' : Sockets) : Prop where
  known : s.Known → s'.Known
  system : s.system.Loosens s'.system
  holds : ∀ b, s'.Holds b → s.Holds b

theorem Keeps.grounded (h : s.Keeps s') (hs : s.Grounded) : s'.Grounded where
  known := h.known hs.known
  lined := h.system.lined hs.lined
  present b hb := h.system.present b (hs.present b (h.holds b hb))
  apart b hb d hd := by
    rcases h.system.line d b hd with hd | ⟨hnone, -⟩
    · exact hs.apart b (h.holds b hb) d hd
    · have := hs.present b (h.holds b hb)
      simp [hnone] at this

theorem Keeps.trans (h : s.Keeps s') (h' : s'.Keeps s'') : s.Keeps s'' :=
  ⟨fun hk => h'.known (h.known hk), h.system.trans h'.system, fun b hb => h.holds b (h'.holds b hb)⟩

/-- Slots and names stay. -/
theorem Keeps.of_system (h : s.system.Loosens s'.system) (hslots : s'.slots = s.slots)
    (hhandles : s'.handles = s.handles) : s.Keeps s' :=
  ⟨fun hk => by simpa [Known, hslots, hhandles] using hk, h,
    fun b hb => by simpa [Holds, hslots, hhandles] using hb⟩

theorem Keeps.refl (s : Sockets) : s.Keeps s := ⟨id, .refl _, fun _ => id⟩

theorem Keeps.bindHandle (s : Sockets) (id : String) {h : Handle}
    (hh : ∀ st, h = .sole st → st.Harmless) (hi : ∀ i, h = .shared i → i < s.slots.length) :
    s.Keeps (s.bindHandle id h) := by
  refine ⟨fun hk id' i hmem => ?_, .refl _, fun b hb => ?_⟩
  · rcases List.mem_cons.mp hmem with hmem | hmem
    · exact hi i (Prod.mk.inj hmem).2.symm
    · exact hk id' i (List.mem_filter.mp hmem).1
  · obtain ⟨l, hb | ⟨id', hb⟩⟩ := hb
    · exact ⟨l, .inl hb⟩
    · rcases List.mem_cons.mp hb with hb | hb
      · exact absurd rfl (hh _ (Prod.mk.inj hb).2.symm b l)
      · exact ⟨l, .inr ⟨id', (List.mem_filter.mp hb).1⟩⟩

theorem Keeps.bindShared (s : Sockets) (id : String) {i : Nat} (hi : i < s.slots.length) :
    s.Keeps (s.bindHandle id (.shared i)) :=
  .bindHandle s id (by simp) (by simpa using hi)

theorem Keeps.bindSole (s : Sockets) (id : String) {st : Stage} (hst : st.Harmless) :
    s.Keeps (s.bindHandle id (.sole st)) := by
  refine .bindHandle s id (fun st' hst' => ?_) (by simp)
  obtain rfl := Handle.sole.inj hst'
  exact hst

theorem Keeps.forget (s : Sockets) (id : String) : s.Keeps (s.forget id) := by
  refine ⟨fun hk id' i hmem => hk id' i (List.mem_filter.mp hmem).1, .refl _, fun b hb => ?_⟩
  obtain ⟨l, hb | ⟨id', hb⟩⟩ := hb
  · exact ⟨l, .inl hb⟩
  · exact ⟨l, .inr ⟨id', (List.mem_filter.mp hb).1⟩⟩

theorem Known.setSlot {s : Sockets} (hs : s.Known) (i : Nat) (st : Stage) :
    Known { s with slots := s.slots.set i st } := by
  intro id j hmem
  simpa using hs id j hmem

theorem Keeps.setSlot (s : Sockets) (i : Nat) {st : Stage} (hst : st.Harmless) :
    s.Keeps { s with slots := s.slots.set i st } := by
  refine ⟨fun hk => hk.setSlot i st, .refl _, fun b hb => ?_⟩
  obtain ⟨l, hb | hb⟩ := hb
  · rcases List.mem_or_eq_of_mem_set hb with hb | hb
    · exact ⟨l, .inl hb⟩
    · exact absurd hb.symm (hst b l)
  · exact ⟨l, .inr hb⟩

theorem Keeps.setStage (s : Sockets) (id : String) (h : Handle) {st : Stage} (hst : st.Harmless) :
    s.Keeps (s.setStage id h st) := by
  cases h with
  | sole st₀ => exact .bindSole s id hst
  | shared i => exact .setSlot s i hst

theorem mem_of_handle? {id : String} {h : Handle} (hh : s.handle? id = some h) :
    (id, h) ∈ s.handles := by
  obtain ⟨l₁, l₂, he, -⟩ := List.lookup_eq_some_iff.mp hh
  exact he ▸ List.mem_append_right l₁ List.mem_cons_self

/-- The stage of a name is held. -/
theorem holds_of_stage {id : String} {h : Handle} {b : Nat} {l : ChunkLimits}
    (hh : s.handle? id = some h) (hst : s.stageOf h = .bound ⟨some b, l⟩) : s.Holds b := by
  cases h with
  | sole st =>
    obtain rfl : st = .bound ⟨some b, l⟩ := hst
    exact ⟨l, .inr ⟨id, mem_of_handle? hh⟩⟩
  | shared i => exact ⟨l, .inl (List.mem_of_getElem? (s.slot_of_stage hst nofun))⟩

/-- A socket that may begin to listen gets a new descriptor. -/
theorem Grounded.bound (hs : s.Grounded) {system : System} {d : Nat}
    (hd : s.system.Fresh system d) (id : String) (h : Handle) (l : ChunkLimits) :
    ({ s with system }.setStage id h (.bound ⟨some d, l⟩)).Grounded := by
  have hkeeps : s.Keeps { s with system } := .of_system hd.loosens rfl rfl
  have hg := hkeeps.grounded hs
  have hsystem : ({ s with system }.setStage id h (.bound ⟨some d, l⟩)).system = system := by
    cases h <;> rfl
  have holds (b : Nat) (hb : ({ s with system }.setStage id h (.bound ⟨some d, l⟩)).Holds b) :
      s.Holds b ∨ b = d := by
    cases h with
    | sole st =>
      obtain ⟨l', hb | ⟨id', hb⟩⟩ := hb
      · exact .inl ⟨l', .inl hb⟩
      · rcases List.mem_cons.mp hb with hb | hb
        · simp only [Prod.mk.injEq, Handle.sole.injEq, Stage.bound.injEq, Bound.mk.injEq,
            Option.some.injEq] at hb
          exact .inr hb.2.1
        · exact .inl ⟨l', .inr ⟨id', (List.mem_filter.mp hb).1⟩⟩
    | shared i =>
      obtain ⟨l', hb | hb⟩ := hb
      · rcases List.mem_or_eq_of_mem_set hb with hb | hb
        · exact .inl ⟨l', .inl hb⟩
        · simp only [Stage.bound.injEq, Bound.mk.injEq, Option.some.injEq] at hb
          exact .inr hb.1
      · exact .inl ⟨l', .inr hb⟩
  have hknown : ({ s with system }.setStage id h (.bound ⟨some d, l⟩)).Known := by
    cases h with
    | sole st =>
      intro id' i hmem
      rcases List.mem_cons.mp hmem with hmem | hmem
      · simp at hmem
      · exact hg.known id' i (List.mem_filter.mp hmem).1
    | shared i => exact hg.known.setSlot i _
  refine ⟨hknown, by rw [hsystem]; exact hg.lined, fun b hb => ?_, fun b hb x => ?_⟩
  · rw [hsystem]
    rcases holds b hb with hb | rfl
    · exact hg.present b hb
    · exact hd.present
  · rw [hsystem]
    rcases holds b hb with hb | rfl
    · exact hg.apart b hb x
    · exact hd.apart hs.lined x

/-- A socket begins to listen. -/
theorem Grounded.listened (hs : s.Grounded) {d : Nat} (hd : s.Holds d) {backlog : Int32}
    {system system' : System} (hlisten : s.system.listen d backlog = .ok system)
    (hheed : system.Retains system') (listeners : List Listener) :
    Grounded { s with system := system', listeners } := by
  obtain ⟨hpresent, hline, hlined⟩ := System.listen_lined hlisten
  have hg : Grounded { s with system, listeners } :=
    ⟨hs.known, hlined (hs.apart d hd) hs.lined, fun b hb => hpresent b (hs.present b hb),
      fun b hb x hx => hs.apart b hb x (hline x b hx)⟩
  have hkeeps : Keeps { s with system, listeners } { s with system := system', listeners } :=
    .of_system hheed.loosens rfl rfl
  exact hkeeps.grounded hg

/-! ### What turns keep -/

theorem closeBehind_keeps (s : Sockets) (st : Stage) : s.Keeps (s.closeBehind st).1 := by
  cases st with
  | connected k =>
    obtain ⟨hub, connections, system, h, -, hsystem⟩ := s.closeConnection_eq k
    have hclose : (s.closeBehind (.connected k)).1 = { s with hub, connections, system } := h
    rw [hclose]
    exact .of_system hsystem.loosens rfl rfl
  | listening l => exact .of_system (.refl _) rfl rfl
  | connecting a => exact .of_system (.refl _) rfl rfl
  | _ => exact .refl s

theorem close_keeps (s : Sockets) (id : String) (h : Handle) : s.Keeps (s.close id h).1 := by
  refine (s.closeBehind_keeps (s.stageOf h)).trans (.setStage _ id h ?_)
  cases h with
  | sole st => exact harmless_closedStage _
  | shared i => exact harmless_of_name (by simp [Stage.name])

theorem fail_keeps (s : Sockets) (id : String) (h : Handle) (f : Fault) :
    s.Keeps (s.fail id h f).state := by
  cases h with
  | sole st => exact .forget s id
  | shared i => exact .refl s

end Sockets

theorem Plan.applyOptions_retains {sys sys' : System} {d : Nat} {os : List SocketOption}
    (h : Plan.applyOptions sys d os = .ok sys') : sys.Retains sys' := by
  induction os generalizing sys with
  | nil =>
    cases h
    exact .refl _
  | cons o os ih =>
    unfold Plan.applyOptions at h
    split at h
    · rename_i hset
      exact (System.setOption_retains hset).trans (ih h)
    · cases h

/-- What comes of preparing a descriptor: it is made, or nothing is left of it. -/
inductive Plan.Makes (sys : System) : System × Except Fault Nat → Prop
  | made {sys' d} (h : sys.Creates sys' d) : Makes sys (sys', .ok d)
  | undone (t : System) (f : Fault) : Makes sys (sys.undo t, .error f)

theorem Plan.prepare_makes (p : Plan) (sys : System) (family : Family) (type : SocketType) :
    Plan.Makes sys (p.prepare sys family type) := by
  unfold Plan.prepare
  split
  · exact .undone sys _
  · split
    · exact .undone sys _
    · exact .undone sys _
    · rename_i made d _ hcreate
      split
      · exact .undone sys _
      · rename_i made' happly
        have hcreates := (System.create_creates hcreate).more (Plan.applyOptions_retains happly)
        split
        · rename_i hheed
          exact .made (hcreates.more (System.retains_of_heed hheed))
        · exact .undone _ _

theorem Plan.bind_makes (p : Plan) (sys : System) (a : Address) (type : SocketType) :
    Plan.Makes sys (p.bind sys a type) := by
  have hmakes := p.prepare_makes sys a.family type
  unfold Plan.bind
  split
  · rename_i hprepare
    exact hprepare ▸ hmakes
  · rename_i made d hprepare
    rw [hprepare] at hmakes
    cases hmakes with
    | made hcreates =>
      split
      · rename_i hbind
        exact .made (hcreates.more (System.bind_retains hbind))
      · exact .undone _ _

theorem Plan.Makes.creates {sys sys' : System} {d : Nat} (h : Plan.Makes sys (sys', .ok d)) :
    sys.Creates sys' d := by
  cases h with
  | made h => exact h

theorem Plan.Makes.retains {sys sys' : System} {f : Fault} (h : Plan.Makes sys (sys', .error f)) :
    sys.Retains sys' := by
  cases h with
  | undone t => exact sys.undo_retains t

theorem Plan.Makes.loosens {sys : System} {made : System × Except Fault Nat}
    (h : Plan.Makes sys made) : sys.Loosens made.1 := by
  cases h with
  | made h => exact h.fresh.loosens
  | undone t => exact (sys.undo_retains t).loosens

section Turns

variable {s : Sockets}

/-- The states of a turn stay as they should be. -/
def Grounds (t : Turn signature) : Prop := t.state.Grounded

theorem grounds_bind (hs : s.Grounded) (id : String) (h : Handle) (a : Address)
    (type : SocketType) : Grounds (s.bind id h a type) := by
  unfold Sockets.bind
  split
  · rename_i p _
    have hmakes := p.bind_makes s.system a type
    split <;> rename_i hbind <;> rw [hbind] at hmakes
    · have hkeeps : s.Keeps { s with system := _ } := .of_system hmakes.loosens rfl rfl
      exact (hkeeps.trans (Sockets.fail_keeps _ id h _)).grounded hs
    · exact hs.bound hmakes.creates.fresh id h _
  · exact hs

theorem grounds_listen (hs : s.Grounded) {id : String} {h : Handle} (hh : s.handle? id = some h)
    (backlog : Int32) : Grounds (s.listen id h backlog) := by
  unfold Sockets.listen
  split
  · rename_i b hst
    split
    · exact (s.fail_keeps id h _).grounded hs
    · rename_i d hopened
      split
      · exact (s.fail_keeps id h _).grounded hs
      · rename_i hlisten
        have hb : b = ⟨some d, b.limits⟩ := by
          obtain ⟨descriptor, limits⟩ := b
          cases descriptor with
          | none => cases hopened
          | some d' =>
            cases hopened
            rfl
        have hholds : s.Holds d := Sockets.holds_of_stage hh (hb ▸ hst)
        split <;> rename_i hheed <;>
          have hlistened := hs.listened hholds hlisten (System.retains_of_heed hheed)
        · have hst : (Stage.bound { b with descriptor := none }).Harmless := by
            simp [Stage.Harmless]
          exact ((Sockets.Keeps.setStage _ id h hst).trans (Sockets.fail_keeps _ id h _)).grounded
            (hlistened s.listeners)
        · exact (Sockets.Keeps.setStage _ id h (harmless_of_name (by simp [Stage.name]))).grounded
            (hlistened _)
  · exact hs

theorem grounds_startAttempt (hs : s.Grounded) (id : String) (h : Handle) (x : Attempt) :
    Grounds (s.startAttempt id h x) := by
  have hadd (t : Sockets) : t.Keeps (t.addAttempt id x) := .of_system (.refl _) rfl rfl
  cases h with
  | sole st => exact ((Sockets.Keeps.forget s id).trans (hadd _)).grounded hs
  | shared i =>
    have hst : (Stage.connecting s.attempts.length).Harmless :=
      harmless_of_name (by simp [Stage.name])
    exact ((Sockets.Keeps.setSlot s i hst).trans (hadd _)).grounded hs

theorem grounds_connect (hs : s.Grounded) (id : String) (h : Handle) (target : Address)
    (type : SocketType) (ticket : Option Nat) (context : Context) :
    Grounds (s.connect id h target type ticket context) := by
  unfold Sockets.connect
  split
  · rename_i p _
    have hkeeps : s.Keeps { s with system := _ } :=
      .of_system (p.prepare_makes s.system target.family type).loosens rfl rfl
    exact grounds_startAttempt (hkeeps.grounded hs) id h _
  · exact grounds_startAttempt hs id h _
  · exact hs

theorem keep_keeps (s : Sockets) (name : Option String) (k : Nat) : s.Keeps (s.keep name k) := by
  cases name with
  | none => exact .refl s
  | some name => exact .bindSole s name (harmless_of_name (by simp [Stage.name]))

theorem grounds_copy (hs : s.Grounded) (id of : String) : Grounds (s.copy id of) := by
  unfold Sockets.copy
  split
  · rename_i i hlookup
    have hi : i < s.slots.length := hs.known of i (Sockets.mem_of_handle? hlookup)
    exact (Sockets.Keeps.bindShared s id hi).grounded hs
  · exact (Sockets.Keeps.bindSole s id (harmless_of_name (by simp [Stage.name]))).grounded hs
  · exact (Sockets.Keeps.bindSole s id (harmless_of_name (by simp [Stage.name]))).grounded hs
  · exact hs

/-- What leaves the system, the slots and the names alone. -/
theorem grounds_of_eq {s' : Sockets} (hs : s.Grounded) (hsystem : s'.system = s.system)
    (hslots : s'.slots = s.slots) (hhandles : s'.handles = s.handles) : s'.Grounded :=
  (Sockets.Keeps.of_system (hsystem ▸ .refl _) hslots hhandles).grounded hs

/-- Every action leaves things as they should be. -/
theorem run_grounds (hs : s.Grounded) (view : View) (act : Action) : Grounds (s.run view act) := by
  by_cases hact : act.isPeripheral = true
  · obtain ⟨_, _, _, _, _, _, _, _, h⟩ := (s.run_peripheral view hact).eq
    show (s.run view act).state.Grounded
    rw [h]
    exact grounds_of_eq hs rfl rfl rfl
  cases act with
  | socket id shared options limits =>
    cases shared with
    | true =>
      have hslot : s.Keeps { s with slots := s.slots ++ [.unbound { options, limits }] } := by
        refine ⟨fun hk id' i hmem => ?_, .refl _, fun b hb => ?_⟩
        · have := hk id' i hmem
          simp only [List.length_append, List.length_singleton]
          omega
        · obtain ⟨l, hb | hb⟩ := hb
          · exact ⟨l, .inl (by simpa using hb)⟩
          · exact ⟨l, .inr hb⟩
      exact (hslot.trans (.bindShared _ id (by simp))).grounded hs
    | false =>
      exact (Sockets.Keeps.bindSole s id (harmless_of_name (by simp [Stage.name]))).grounded hs
  | bind id target type =>
    exact withAddress_cases (P := Grounds) hs fun a =>
      withHandle_cases (P := Grounds) hs fun h _ => grounds_bind hs id h a type
  | listen id backlog =>
    exact withHandle_cases (P := Grounds) hs fun h hh => grounds_listen hs hh backlog
  | accept id controller context =>
    refine withHandle_cases (P := Grounds) hs fun h _ =>
      withContext_cases (P := Grounds) hs fun c => ?_
    unfold Sockets.accept
    split
    · exact grounds_of_eq hs rfl rfl rfl
    · exact hs
  | next controller name skipFaults =>
    refine withController_cases (P := Grounds) hs fun c x => ?_
    have harrived (f : Acceptor → Acceptor) : (s.modifyAcceptor c f).Grounded :=
      grounds_of_eq hs rfl rfl rfl
    unfold Sockets.next
    dsimp only
    split
    · exact (keep_keeps _ name _).grounded (harrived _)
    · exact harrived _
    · exact harrived _
  | glance controller =>
    exact withController_cases (P := Grounds) hs fun c x => grounds_of_eq hs rfl rfl rfl
  | stop controller =>
    exact withController_cases (P := Grounds) hs fun c x => grounds_of_eq hs rfl rfl rfl
  | connect id target type ticket context =>
    refine withAddress_cases (P := Grounds) hs fun a =>
      withHandle_cases (P := Grounds) hs fun h _ =>
        withContext_cases (P := Grounds) hs fun c => ?_
    cases ticket with
    | none => exact grounds_connect hs id h a type none c
    | some name =>
      exact withTicket_cases (P := Grounds) hs fun t => grounds_connect hs id h a type (some t) c
  | connected id name =>
    simp only [Sockets.run]
    split
    · exact hs
    · unfold Sockets.connected
      split
      · dsimp only
        split
        · exact (keep_keeps _ (some name) _).grounded (grounds_of_eq hs rfl rfl rfl)
        · exact grounds_of_eq hs rfl rfl rfl
      · exact hs
  | abort id =>
    show Grounds (s.abort id)
    unfold Sockets.abort
    split
    · split
      · exact hs
      · exact grounds_of_eq hs rfl rfl rfl
    · exact hs
  | option id level name =>
    refine Sockets.askOption_cases (P := Sockets.Grounded) hs fun d system value hoption => ?_
    have hkeeps : s.Keeps { s with system } :=
      .of_system (System.getOption_retains hoption).loosens rfl rfl
    exact hkeeps.grounded hs
  | close id =>
    simp only [Sockets.run]
    split
    · exact hs
    · exact (s.close_keeps id _).grounded hs
  | drop id => exact (Sockets.Keeps.forget s id).grounded hs
  | copy id of => exact grounds_copy hs id of
  | pipe id name =>
    refine withHandle_cases (P := Grounds) hs fun h _ => ?_
    unfold Sockets.pipe
    split
    · rename_i k _
      obtain ⟨hub, plugs, pipes, connections, he, -⟩ := s.addPipe_eq name k
      have : (s.addPipe name k).1.Grounded := he ▸ grounds_of_eq hs rfl rfl rfl
      exact this
    · exact hs
  | limit on =>
    have hkeeps : s.Keeps { s with system := { s.system with limited := on } } :=
      .of_system (.of_roles fun _ => rfl) rfl rfl
    exact hkeeps.grounded hs
  | _ => exact absurd rfl hact

theorem serve_keeps (s : Sockets) (r : Nat) : s.Keeps (s.advanceRequest r).1 := by
  obtain ⟨hub, collectors, system, h, hsystem⟩ := s.advanceRequest_eq r
  rw [h]
  exact .of_system hsystem rfl rfl

theorem finish_keeps (s : Sockets) (r : Nat) : s.Keeps (s.finishRequest r).1 := by
  obtain ⟨hub, collectors, h⟩ := s.finishRequest_eq r
  rw [h]
  exact .of_system (.refl _) rfl rfl

theorem attend_keeps (s : Sockets) (c : Nat) : s.Keeps (s.attendTurn c).state := by
  rw [s.attendTurn_state]
  have hsystem := (s.attend_accepts c).loosens
  obtain ⟨system, connections, acceptors, h⟩ := (s.attend_accepts c).eq
  rw [h] at hsystem ⊢
  exact .of_system hsystem rfl rfl

theorem pursue_keeps (s : Sockets) (a : Nat) : s.Keeps (s.pursueTurn a).state := by
  have hprogress (t : Sockets) (progress : Progress) : t.Keeps (t.setProgress a progress) :=
    .of_system (.refl _) rfl rfl
  have hattempt (x : Attempt) : s.Keeps (s.attempt x a).1 := by
    obtain ⟨system, connections, attempts, h, hsystem, -⟩ := s.attempt_eq x a
    rw [h]
    exact .of_system hsystem rfl rfl
  rcases s.pursueTurn_tried a with hstate | ⟨x, -, -, hstate⟩
  · rw [hstate]
    exact .refl s
  · rw [hstate]
    have hx := hattempt x
    generalize s.attempt x a = result at hx ⊢
    rcases result with ⟨t, none | o⟩
    · exact hx
    · exact hx.trans (hprogress t _)

theorem settle_keeps (s : Sockets) (i : Nat) (o : Outcome) : s.Keeps (s.settle i o).1 := by
  by_cases h : ∃ a, s.slots[i]? = some (.connecting a)
  · obtain ⟨a, h⟩ := h
    rw [settle_waiting s h]
    cases o with
    | ok k => exact .setSlot s i (harmless_of_name (by simp [Stage.name]))
    | error f => exact .setSlot s i (harmless_of_name (by simp [Stage.name]))
  · rw [settle_late s fun a ha => h ⟨a, ha⟩]
    cases o with
    | ok k => exact s.closeBehind_keeps (.connected k)
    | error f => exact .refl s

theorem conclude_keeps (s : Sockets) (a : Nat) : s.Keeps (s.conclude a).1 := by
  have hprogress (t : Sockets) (progress : Progress) : t.Keeps (t.setProgress a progress) :=
    .of_system (.refl _) rfl rfl
  unfold Sockets.conclude
  split
  · exact .refl s
  · split
    · exact hprogress s _
    · exact (settle_keeps s _ _).trans (hprogress _ _)
    · exact .refl s

theorem resume_keeps (s : Sockets) (f : Frame) : s.Keeps (s.resume f).state := by
  cases f with
  | serve r => exact serve_keeps s r
  | finish r => exact finish_keeps s r
  | conclude a => exact conclude_keeps s a
  | announce c => exact .of_system (.refl _) rfl rfl
  | attend c => exact attend_keeps s c

theorem unwind_keeps (s : Sockets) (f : Frame) : s.Keeps (s.unwind f) := by
  cases f with
  | serve r => exact finish_keeps s r
  | finish r => exact finish_keeps s r
  | conclude a => exact .of_system (.refl _) rfl rfl
  | announce c => exact .of_system (.refl _) rfl rfl
  | attend c => exact .refl s

theorem poll_keeps (s : Sockets) (t : Task) : s.Keeps (s.poll t).state := by
  cases t with
  | request r => exact serve_keeps s r
  | attempt a => exact pursue_keeps s a
  | acceptor c => exact attend_keeps s c
  | alarm i =>
    obtain ⟨alarms, tickets, h⟩ := s.ring_eq i
    have hstate : (s.poll (.alarm i)).state = { s with alarms, tickets } := h
    rw [hstate]
    exact .of_system (.refl _) rfl rfl

end Turns

/-! ### The end of a turn -/

/-- Things are as they should be, and nothing is open that nobody owns. -/
structure Tidied (s : Sockets) : Prop where
  grounded : s.Grounded
  orphans : s.orphans = []

theorem reap_keeps (s : Sockets) : s.Keeps s.reap :=
  .of_system (System.closeAll_loosens ..) rfl rfl

/-- After a turn everything that nobody owns is closed. -/
theorem tidied_reap {s : Sockets} (hs : s.Grounded) : Tidied s.reap := by
  refine ⟨(reap_keeps s).grounded hs, List.filter_eq_nil_iff.mpr fun d hd => ?_⟩
  have howned : s.reap.owned = s.owned := rfl
  have hopen (x : Nat) : s.reap.system.isOpen x = true ↔
      s.system.isOpen x = true ∧ ∀ o ∈ s.orphans, x ≠ o ∧ x ∉ s.system.line o :=
    System.isOpen_closeAll ..
  have hline (x : Nat) : s.reap.system.line x = s.system.line x :=
    System.line_eq (System.role?_closeAll ..)
  intro horphan
  simp only [Bool.and_eq_true, Bool.not_eq_true', howned] at horphan
  obtain ⟨⟨hd_open, hd_owned⟩, hd_queued⟩ := horphan
  obtain ⟨hwas, hspared⟩ := (hopen d).mp hd_open
  by_cases hqueued : s.system.isQueued d = true
  · -- The listener for which it waits has been closed, so it has been closed as well.
    obtain ⟨l, hl, hdl⟩ := (System.isQueued_iff ..).mp hqueued
    have hl_closed : ¬ s.reap.system.isOpen l = true := by
      intro hl'
      have : s.reap.system.isQueued d = true :=
        (System.isQueued_iff ..).mpr ⟨l, hl', (hline l).symm ▸ hdl⟩
      rw [hd_queued] at this
      cases this
    rw [hopen] at hl_closed
    refine hl_closed ⟨hl, fun o ho => ⟨?_, fun hlo => ?_⟩⟩
    · rintro rfl
      exact (hspared l ho).2 hdl
    · obtain ⟨r, hr, hdeaf⟩ := hs.lined o l hlo
      rw [System.line_of_not_listens hr hdeaf] at hdl
      cases hdl
  · have hmem : d ∈ s.orphans := by
      refine List.mem_filter.mpr ⟨?_, ?_⟩
      · have hlt : d < s.system.descriptors.length := by
          unfold System.isOpen at hwas
          split at hwas
          · exact (List.getElem?_eq_some_iff.mp ‹_›).1
          · cases hwas
        exact List.mem_range.mpr hlt
      · simp only [Bool.and_eq_true, Bool.not_eq_true']
        exact ⟨⟨hwas, hd_owned⟩, by simpa using hqueued⟩
    exact (hspared d hmem).1 rfl

/-- Nothing has to be closed any more. -/
theorem Tidied.reap_eq {s : Sockets} (h : Tidied s) : s.reap = s := by
  unfold Sockets.reap
  rw [h.orphans]
  rfl

/-- Every step of a configuration leaves things tidy. -/
theorem step_tidied {c c' : Config component} {cause : Option (Dispatch.Cause component)}
    (hc : Tidied c.state) (h : c.Step cause c') : Tidied c'.state := by
  have takes {d : Config component} {t : Turn signature} (ht : t.state.Grounded)
      (h : d.Takes (Sockets.tidy t) c') (hn : d.next = none) : Tidied c'.state := by
    have hreap := tidied_reap ht
    rcases takes_cases h hn with ⟨-, hs⟩ | ⟨_, w, _, -, -, hs | hs⟩
    · exact hs ▸ hreap
    · exact hs ▸ hreap
    · exact hs ▸ tidied_reap ((unwind_keeps _ w).grounded hreap.grounded)
  cases h with
  | still hf => exact hf.state_eq ▸ hc
  | exec hn ht => exact takes (run_grounds hc.grounded _ _) ht hn
  | resume hn ht => exact takes ((resume_keeps c.state _).grounded hc.grounded) ht rfl
  | @unwind f k _ hn hk hf =>
    rw [← hf]
    exact tidied_reap ((unwind_keeps c.state f).grounded hc.grounded)
  | poll hn hk hr ht => exact takes ((poll_keeps c.state _).grounded hc.grounded) ht hn
  | tick hn => exact ⟨grounds_of_eq hc.grounded rfl rfl rfl, hc.orphans⟩
  | begin hn hv => exact hc
  | opened hn hf => exact hf.state_eq ▸ hc

theorem tidied {m : Machine component} [Blank m] (x : Execution m) : Tidied x.machine.state := by
  have h := x.run.config_induction (fun _ c => Tidied c.state) ?_ fun _ _ _ _ => step_tidied
  · rwa [Machine.config_state] at h
  · obtain ⟨reachable, whims, rfl⟩ := Blank.opens (m := m)
    refine ⟨⟨fun id i hmem => ?_, fun d e he => ?_, fun b hb => ?_, fun b hb => ?_⟩, rfl⟩
    · cases hmem
    · cases he
    · obtain ⟨l, hb | ⟨id, hb⟩⟩ := hb <;> cases hb
    · obtain ⟨l, hb | ⟨id, hb⟩⟩ := hb <;> cases hb

end Conduit.Socket
