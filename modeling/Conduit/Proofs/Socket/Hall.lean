import Conduit.Proofs.Socket.Grounded

/-!
What becomes of listeners and accept loops. A listener is closed once and for all, a loop is stopped
once and for all, and every loop is one of a listener that there is. Most operations leave listeners
and loops alone; none but the turns of a loop move it on.
-/

namespace Conduit.Socket

open Dispatch
open Kernel (System)

/-- The part of a state that accept loops are about. -/
structure Hall where
  listeners : List Listener
  loops : List Acceptor

namespace Sockets

variable {s s' s'' : Sockets}

def hall (s : Sockets) : Hall := ⟨s.listeners, s.acceptors⟩

/-- Some socket is that of the listener `l`. -/
def Shows (s : Sockets) (l : Nat) : Prop :=
  .listening l ∈ s.slots ∨ ∃ id, (id, Handle.sole (.listening l)) ∈ s.handles

theorem shows_of_stage {id : String} {h : Handle} {l : Nat} (hh : s.handle? id = some h)
    (hst : s.stageOf h = .listening l) : s.Shows l := by
  cases h with
  | sole st =>
    obtain rfl : st = .listening l := hst
    exact .inr ⟨id, mem_of_handle? hh⟩
  | shared i => exact .inl (List.mem_of_getElem? (s.slot_of_stage hst nofun))

/-- Listeners and loops are left alone, and no socket becomes that of a listener. -/
structure Aside (s s' : Sockets) : Prop where
  hall : s'.hall = s.hall
  shows : ∀ l, s'.Shows l → s.Shows l

namespace Aside

theorem refl (s : Sockets) : s.Aside s := ⟨rfl, fun _ => id⟩

theorem trans (h : s.Aside s') (h' : s'.Aside s'') : s.Aside s'' :=
  ⟨h'.hall.trans h.hall, fun l hl => h.shows l (h'.shows l hl)⟩

theorem of_eq (hhall : s'.hall = s.hall) (hslots : s'.slots = s.slots)
    (hhandles : s'.handles = s.handles) : s.Aside s' :=
  ⟨hhall, fun l hl => by simpa [Shows, hslots, hhandles] using hl⟩

theorem bindHandle (s : Sockets) (id : String) {h : Handle}
    (hh : ∀ l, h = .sole (.listening l) → s.Shows l) : s.Aside (s.bindHandle id h) := by
  refine ⟨rfl, fun l hl => ?_⟩
  obtain hl | ⟨id', hl⟩ := hl
  · exact .inl hl
  · rcases List.mem_cons.mp hl with hl | hl
    · exact hh l (Prod.mk.inj hl).2.symm
    · exact .inr ⟨id', (List.mem_filter.mp hl).1⟩

theorem forget (s : Sockets) (id : String) : s.Aside (s.forget id) := by
  refine ⟨rfl, fun l hl => ?_⟩
  obtain hl | ⟨id', hl⟩ := hl
  · exact .inl hl
  · exact .inr ⟨id', (List.mem_filter.mp hl).1⟩

/-- A socket gets to a stage that is not that of a listener, or was there already. -/
theorem setStage (s : Sockets) (id : String) (h : Handle) {st : Stage}
    (hst : ∀ l, st = .listening l → s.Shows l) : s.Aside (s.setStage id h st) := by
  cases h with
  | sole st₀ => exact bindHandle s id fun l hl => hst l (Handle.sole.inj hl)
  | shared i =>
    refine ⟨rfl, fun l hl => ?_⟩
    obtain hl | hl := hl
    · exact (List.mem_or_eq_of_mem_set hl).elim .inl fun he => hst l he.symm
    · exact .inr hl

theorem system (s : Sockets) (system : System) : s.Aside { s with system } := of_eq rfl rfl rfl

theorem reap (s : Sockets) : s.Aside s.reap := system s _

theorem fail (s : Sockets) (id : String) (h : Handle) (f : Fault) :
    s.Aside (s.fail id h f).state := by
  cases h with
  | sole st => exact forget s id
  | shared i => exact refl s

theorem keep (s : Sockets) (name : Option String) (k : Nat) : s.Aside (s.keep name k) := by
  cases name with
  | none => exact refl s
  | some name => exact bindHandle s name (by simp)

theorem access {id operation : String} {ask : Nat → Sockets × Answer}
    (hask : ∀ d, s.Aside (ask d).1) : s.Aside (s.access id operation ask).state := by
  unfold Sockets.access
  split
  · exact refl s
  · split
    · exact refl s
    · exact refl s
    · exact hask _

theorem present (s : Sockets) (a : Address) : s.Aside (s.present a).1 := by
  obtain ⟨shown, h⟩ := s.note_eq a
  have hpresent : (s.present a).1 = { s with shown } := h
  rw [hpresent]
  exact of_eq rfl rfl rfl

theorem closeConnection (s : Sockets) (k : Nat) : s.Aside (s.closeConnection k).1 := by
  obtain ⟨hub, connections, system, h, -, -⟩ := s.closeConnection_eq k
  rw [h]
  exact of_eq rfl rfl rfl

theorem closePorts (s : Sockets) (ps : List Nat) : s.Aside (s.closePorts ps).1 := by
  obtain ⟨hub, h⟩ := s.closePorts_eq ps
  rw [h]
  exact of_eq rfl rfl rfl

theorem startJob (s : Sockets) (job : Option String) (q : Nat) (work : Pipe.Job)
    (gathered : Pipe.Gathered) : s.Aside (s.startJob job q work gathered).1 := by
  obtain ⟨hub, collectors, jobs, h⟩ := s.startJob_eq job q work gathered
  rw [h]
  exact of_eq rfl rfl rfl

theorem startAttempt (s : Sockets) (id : String) (h : Handle) (x : Attempt) :
    s.Aside (s.startAttempt id h x).state := by
  have hadd (t : Sockets) : t.Aside (t.addAttempt id x) := of_eq rfl rfl rfl
  cases h with
  | sole st => exact (forget s id).trans (hadd _)
  | shared i => exact (setStage s id (.shared i) (by simp)).trans (hadd _)

theorem connect (s : Sockets) (id : String) (h : Handle) (target : Address) (type : SocketType)
    (ticket : Option Nat) (context : Context) :
    s.Aside (s.connect id h target type ticket context).state := by
  unfold Sockets.connect
  split
  · exact (system s _).trans (startAttempt _ id h _)
  · exact startAttempt s id h _
  · exact refl s

theorem bind (s : Sockets) (id : String) (h : Handle) (a : Address) (type : SocketType) :
    s.Aside (s.bind id h a type).state := by
  unfold Sockets.bind
  split
  · split
    · exact (system s _).trans (fail _ id h _)
    · exact (system s _).trans (setStage _ id h (by simp))
  · exact refl s

theorem copy (s : Sockets) (id of : String) : s.Aside (s.copy id of).state := by
  unfold Sockets.copy
  split
  · exact bindHandle s id (by simp)
  · rename_i l hlookup
    refine bindHandle s id fun k hk => ?_
    obtain rfl : l = k := by simpa using hk
    exact shows_of_stage hlookup rfl
  · exact bindHandle s id (by simp)
  · exact refl s

theorem settle (s : Sockets) (i : Nat) (o : Outcome) : s.Aside (s.settle i o).1 := by
  have hslot {st : Stage} (hst : ∀ l, st ≠ .listening l) :
      s.Aside { s with slots := s.slots.set i st } :=
    setStage s "" (.shared i) fun l hl => absurd hl (hst l)
  unfold Sockets.settle
  split
  · exact hslot (by simp)
  · exact hslot (by simp)
  · exact closeConnection s _
  · exact refl s

theorem conclude (s : Sockets) (a : Nat) : s.Aside (s.conclude a).1 := by
  have hprogress (t : Sockets) (progress : Progress) : t.Aside (t.setProgress a progress) :=
    of_eq rfl rfl rfl
  unfold Sockets.conclude
  split
  · exact refl s
  · split
    · exact hprogress s _
    · exact (settle s _ _).trans (hprogress _ _)
    · exact refl s

theorem pursueTurn (s : Sockets) (a : Nat) : s.Aside (s.pursueTurn a).state := by
  have hprogress (t : Sockets) (progress : Progress) : t.Aside (t.setProgress a progress) :=
    of_eq rfl rfl rfl
  have hattempt (x : Attempt) : s.Aside (s.attempt x a).1 := by
    obtain ⟨system, connections, attempts, h, -⟩ := s.attempt_eq x a
    rw [h]
    exact of_eq rfl rfl rfl
  rcases s.pursueTurn_tried a with hstate | ⟨x, -, -, hstate⟩
  · rw [hstate]
    exact refl s
  · rw [hstate]
    have hx := hattempt x
    generalize s.attempt x a = result at hx ⊢
    rcases result with ⟨t, none | o⟩
    · exact hx
    · exact hx.trans (hprogress t _)

/-- A new socket is not that of a listener. -/
theorem socket (s : Sockets) (view : View) (id : String) (shared : Bool)
    (options : List SocketOption) (limits : ChunkLimits) :
    s.Aside (s.run view (.socket id shared options limits)).state := by
  cases shared with
  | true =>
    have hslot : s.Aside { s with slots := s.slots ++ [.unbound { options, limits }] } :=
      ⟨rfl, fun l hl => hl.imp_left fun hl => by simpa using hl⟩
    exact hslot.trans (bindHandle _ id (by simp))
  | false => exact bindHandle s id (by simp)

theorem connected (s : Sockets) (id name : String) (a : Nat) :
    s.Aside (s.connected id name a).state := by
  have hcalls (calls : List (String × Nat)) : s.Aside { s with calls } := of_eq rfl rfl rfl
  unfold Sockets.connected
  split
  · dsimp only
    split
    · exact (hcalls _).trans (keep _ (some name) _)
    · exact hcalls _
  · exact refl s

theorem abort (s : Sockets) (id : String) : s.Aside (s.abort id).state := by
  unfold Sockets.abort
  split
  · split
    · exact refl s
    · exact of_eq rfl rfl rfl
  · exact refl s

theorem cancel (s : Sockets) (t : Nat) : s.Aside (s.cancel t).1 := by
  obtain ⟨tickets, h⟩ := s.cancel_eq t
  rw [h]
  exact of_eq rfl rfl rfl

theorem askAddress (s : Sockets) (id operation : String) (kind : FaultKind)
    (ask : System → Nat → Except OsError Address) :
    s.Aside (s.askAddress id operation kind ask).state := by
  refine access fun d => ?_
  split
  · exact refl s
  · exact present s _

theorem askOption (s : Sockets) (id : String) (level name : Int32) :
    s.Aside (s.askOption id level name).state := by
  refine access fun d => ?_
  split
  · exact refl s
  · exact system s _

theorem save (s : Sockets) (id name : String) : s.Aside (s.save id name).state := by
  unfold Sockets.save
  split
  · exact refl s
  · exact (present s _).trans (of_eq rfl rfl rfl)

theorem describe (s : Sockets) (h : Handle) : s.Aside (s.describe h).1 := by
  obtain ⟨shown, he⟩ := s.describe_eq h
  rw [he]
  exact of_eq rfl rfl rfl

theorem addPipe (s : Sockets) (name : String) (k : Nat) : s.Aside (s.addPipe name k).1 := by
  obtain ⟨hub, plugs, pipes, connections, h, -⟩ := s.addPipe_eq name k
  rw [h]
  exact of_eq rfl rfl rfl

theorem pipe (s : Sockets) (h : Handle) (name : String) : s.Aside (s.pipe h name).state := by
  unfold Sockets.pipe
  split
  · exact addPipe s name _
  · exact refl s

theorem finishJob {job : Option String} {k : Nat} {o : Pipe.Outcome}
    (h : s.finishJob job k = some (s', o)) : s.Aside s' := by
  obtain ⟨o', -, ho⟩ := Option.map_eq_some_iff.mp h
  cases ho
  exact of_eq rfl rfl rfl

theorem finishRequest (s : Sockets) (r : Nat) : s.Aside (s.finishRequest r).1 := by
  obtain ⟨hub, collectors, h⟩ := s.finishRequest_eq r
  rw [h]
  exact of_eq rfl rfl rfl

theorem advanceRequest (s : Sockets) (r : Nat) : s.Aside (s.advanceRequest r).1 := by
  obtain ⟨hub, collectors, system, h, -⟩ := s.advanceRequest_eq r
  rw [h]
  exact of_eq rfl rfl rfl

end Aside

/-- What an operation may do to listeners and loops that stops the loop `stop` and closes the
listener `shut`. -/
structure Stirs (stop shut : Option Nat) (s s' : Sockets) : Prop where
  listeners : ∀ (l : Nat) y, s.listeners[l]? = some y → ∃ y', s'.listeners[l]? = some y' ∧
    y' = if shut = some l then { y with closed := true, descriptor := none } else y
  /-- A new listener has its descriptor. -/
  opened : ∀ (l : Nat) y, s.listeners.length ≤ l → s'.listeners[l]? = some y →
    y.closed = false ∧ y.descriptor.isSome
  loops : ∀ (i : Nat) x, s.acceptors[i]? = some x → ∃ arrived, s'.acceptors[i]? =
    some { x with stopped := x.stopped || decide (stop = some i), arrived }
  /-- A new loop is one of a listener that there is. -/
  joined : ∀ (i : Nat) x, s.acceptors.length ≤ i → s'.acceptors[i]? = some x →
    s.Shows x.listener ∧ x.stopped = false ∧ x.round = .fresh ∧ x.underway = []
  shows : ∀ l, s'.Shows l → s.Shows l ∨ s.listeners.length ≤ l ∧ l < s'.listeners.length

namespace Stirs

variable {stop shut : Option Nat}

/-- Listeners and loops of the state before. -/
theorem of_same (hlisteners : s'.listeners = s.listeners) (hloops : s'.acceptors = s.acceptors)
    (hshows : ∀ l, s'.Shows l → s.Shows l) : Stirs none none s s' where
  listeners l y hy := ⟨y, hlisteners ▸ hy, by simp⟩
  opened l y hl hy := by simp [hlisteners, List.getElem?_eq_none hl] at hy
  loops i x hx := ⟨x.arrived, by simp [hloops, hx]⟩
  joined i x hi hx := by simp [hloops, List.getElem?_eq_none hi] at hx
  shows l hl := .inl (hshows l hl)

theorem aside (h : s.Aside s') : Stirs none none s s' :=
  of_same (congrArg Hall.listeners h.hall) (congrArg Hall.loops h.hall) h.shows

theorem followed (h : Stirs stop shut s s') (h' : s'.Aside s'') : Stirs stop shut s s'' := by
  have hlisteners : s''.listeners = s'.listeners := congrArg Hall.listeners h'.hall
  have hloops : s''.acceptors = s'.acceptors := congrArg Hall.loops h'.hall
  obtain ⟨hl, ho, hx, hj, hs⟩ := h
  rw [← hlisteners] at hl ho hs
  rw [← hloops] at hx hj
  exact ⟨hl, ho, hx, hj, fun l hl => hs l (h'.shows l hl)⟩

theorem modifyAcceptor (s : Sockets) (i : Nat) (f : Acceptor → Acceptor) {stop : Option Nat}
    (hf : ∀ x, s.acceptors[i]? = some x → ∃ arrived,
      f x = { x with stopped := x.stopped || decide (stop = some i), arrived })
    (hstop : ∀ j, stop = some j → j = i) : Stirs stop none s (s.modifyAcceptor i f) where
  listeners l y hy := ⟨y, hy, by simp⟩
  opened l y hl hy := by simp [Sockets.modifyAcceptor, List.getElem?_eq_none hl] at hy
  loops j x hx := by
    by_cases hij : i = j
    · subst hij
      obtain ⟨arrived, hfx⟩ := hf x hx
      exact ⟨arrived, by simp [Sockets.modifyAcceptor, hx, hfx]⟩
    · have hne : stop ≠ some j := fun h => hij (hstop j h).symm
      exact ⟨x.arrived, by simp [Sockets.modifyAcceptor, hij, hx, hne]⟩
  joined j x hj hx := by
    simp [Sockets.modifyAcceptor, List.getElem?_modify, List.getElem?_eq_none hj] at hx
  shows l := .inl

theorem fetch (s : Sockets) (i : Nat) (f : Acceptor → List Outcome) :
    Stirs none none s (s.modifyAcceptor i fun x => { x with arrived := f x }) :=
  modifyAcceptor s i _ (fun x _ => ⟨f x, by simp⟩) (by simp)

theorem stopAcceptor (s : Sockets) (i : Nat) :
    Stirs (some i) none s (s.modifyAcceptor i fun x => { x with stopped := true }) :=
  modifyAcceptor s i _ (fun x _ => ⟨x.arrived, by simp⟩) (by simp)

theorem closeListener (s : Sockets) (l : Nat) : Stirs none (some l) s (s.closeListener l) where
  listeners k y hy := by
    by_cases hlk : l = k
    · exact ⟨{ y with closed := true, descriptor := none },
        by simp [Sockets.closeListener, hlk, hy], by simp [hlk]⟩
    · exact ⟨y, by simp [Sockets.closeListener, hlk, hy], by simp [hlk]⟩
  opened k y hk hy := by
    simp [Sockets.closeListener, List.getElem?_modify, List.getElem?_eq_none hk] at hy
  loops i x hx := ⟨x.arrived, by simp [Sockets.closeListener, hx]⟩
  joined i x hi hx := by simp [Sockets.closeListener, List.getElem?_eq_none hi] at hx
  shows k := .inl

/-- A socket begins to listen. -/
theorem listened (s : Sockets) (id : String) (h : Handle) (system : System) {y : Listener}
    (hy : y.closed = false ∧ y.descriptor.isSome) : Stirs none none s
      ({ s with system, listeners := s.listeners ++ [y] }.setStage id h
        (.listening s.listeners.length)) := by
  have hsame (t : Sockets) (st : Stage) : (t.setStage id h st).hall = t.hall := by cases h <;> rfl
  generalize ht : { s with system, listeners := s.listeners ++ [y] }.setStage id h
    (.listening s.listeners.length) = t
  have hhall : t.hall = ⟨s.listeners ++ [y], s.acceptors⟩ := ht ▸ hsame _ _
  have hlisteners : t.listeners = s.listeners ++ [y] := congrArg Hall.listeners hhall
  have hloops : t.acceptors = s.acceptors := congrArg Hall.loops hhall
  refine ⟨fun l z hz => ?_, fun l z hl hz => ?_, fun i x hx => ?_, fun i x hi hx => ?_,
    fun l hl => ?_⟩
  · have hlt := (List.getElem?_eq_some_iff.mp hz).1
    exact ⟨z, by rw [hlisteners, List.getElem?_append_left hlt, hz], by simp⟩
  · rw [hlisteners, List.getElem?_append_right hl] at hz
    obtain rfl : y = z := by
      cases hk : l - s.listeners.length with
      | zero => simpa [hk] using hz
      | succ k => simp [hk] at hz
    exact hy
  · exact ⟨x.arrived, by simp [hloops, hx]⟩
  · simp [hloops, List.getElem?_eq_none hi] at hx
  · have hnew : s.listeners.length < t.listeners.length := by simp [hlisteners]
    -- The one socket that has changed is that of the new listener.
    by_cases hlen : l = s.listeners.length
    · exact .inr ⟨Nat.le_of_eq hlen.symm, hlen ▸ hnew⟩
    · refine .inl ?_
      subst ht
      cases h with
      | sole st =>
        obtain hl | ⟨id', hl⟩ := hl
        · exact .inl hl
        · rcases List.mem_cons.mp hl with hl | hl
          · simp at hl
            exact absurd hl.2 hlen
          · exact .inr ⟨id', (List.mem_filter.mp hl).1⟩
      | shared i =>
        obtain hl | hl := hl
        · rcases List.mem_or_eq_of_mem_set hl with hl | hl
          · exact .inl hl
          · simp at hl
            exact absurd hl hlen
        · exact .inr hl

/-- A loop is started on a listener. -/
theorem addAcceptor (s : Sockets) (id : String) {x : Acceptor} (hl : s.Shows x.listener)
    (hx : x.stopped = false ∧ x.round = .fresh ∧ x.underway = []) :
    Stirs none none s (s.addAcceptor id x) where
  listeners l y hy := ⟨y, hy, by simp⟩
  opened l y hl hy := by simp [Sockets.addAcceptor, List.getElem?_eq_none hl] at hy
  loops i z hz := by
    refine ⟨z.arrived, ?_⟩
    have hlt := (List.getElem?_eq_some_iff.mp hz).1
    simp [Sockets.addAcceptor, List.getElem?_append_left hlt, hz]
  joined i z hi hz := by
    obtain rfl : x = z := by
      simp only [Sockets.addAcceptor, List.getElem?_append_right hi] at hz
      cases hk : i - s.acceptors.length with
      | zero => simpa [hk] using hz
      | succ k => simp [hk] at hz
    exact ⟨hl, hx⟩
  shows l := .inl

end Stirs

/-- The listener of a stage. -/
def listener? : Stage → Option Nat
  | .listening l => some l
  | _ => none

theorem closedStage_ne {st : Stage} (hst : listener? st = none) (l : Nat) :
    closedStage st ≠ .listening l := by
  cases st with
  | listening k => simp [listener?] at hst
  | _ => simp [closedStage]

theorem close_eq (s : Sockets) (id : String) (h : Handle) :
    (s.close id h).1 = (s.closeBehind (s.stageOf h)).1.setStage id h
      (match h with | .sole _ => closedStage (s.stageOf h) | .shared _ => .closed) := rfl

theorem close_stirs {id : String} {h : Handle} (hh : s.handle? id = some h) :
    Stirs none (listener? (s.stageOf h)) s (s.close id h).1 := by
  rw [close_eq]
  by_cases hst : ∃ l, s.stageOf h = .listening l
  · obtain ⟨l, hst⟩ := hst
    rw [hst]
    refine (Stirs.closeListener s l).followed (.setStage _ id h fun k hk => ?_)
    cases h with
    | sole st =>
      obtain rfl : l = k := by simpa [closedStage] using hk
      exact shows_of_stage hh hst
    | shared i => simp at hk
  · have hnone : listener? (s.stageOf h) = none := by
      unfold listener?
      split
      · exact absurd ⟨_, ‹_›⟩ hst
      · rfl
    have hbehind : s.Aside (s.closeBehind (s.stageOf h)).1 := by
      unfold closeBehind
      split
      · exact absurd ⟨_, ‹_›⟩ hst
      · exact .of_eq rfl rfl rfl
      · exact .closeConnection s _
      · exact .refl s
    rw [hnone]
    refine .aside (hbehind.trans (.setStage _ id h fun l hl => ?_))
    cases h with
    | sole st => exact absurd hl (closedStage_ne hnone l)
    | shared i => simp at hl

theorem listen_stirs (s : Sockets) (id : String) (h : Handle) (backlog : Int32) :
    Stirs none none s (s.listen id h backlog).state := by
  unfold Sockets.listen
  split
  · split
    · exact .aside (.fail s id h _)
    · split
      · exact .aside (.fail s id h _)
      · split
        · exact .aside (((Aside.system s _).trans (.setStage _ id h (by simp))).trans
            (.fail _ id h _))
        · exact .listened s id h _ ⟨rfl, rfl⟩
  · exact .aside (.refl s)

theorem accept_stirs {id : String} {h : Handle} (hh : s.handle? id = some h) (controller : String)
    (context : Context) : Stirs none none s (s.accept h controller context).state := by
  unfold Sockets.accept
  split
  · exact .addAcceptor s controller (shows_of_stage hh ‹_›) ⟨rfl, rfl, rfl⟩
  · exact .aside (.refl s)

/-- The loop that an action stops. -/
def stopped? (s : Sockets) : Action → Option Nat
  | .stop name => (s.controllers.lookup name).filter (· < s.acceptors.length)
  | _ => none

/-- The listener that an action closes. -/
def shut? (s : Sockets) : Action → Option Nat
  | .close id => (s.handle? id).bind fun h => listener? (s.stageOf h)
  | _ => none

/-- A turn that stops no loop and closes no listener. -/
abbrev Calms (s : Sockets) (t : Turn signature) : Prop := Stirs none none s t.state

theorem next_calms (s : Sockets) (c : Nat) (x : Acceptor) (name : Option String)
    (skipFaults : Bool) : s.Calms (s.next c x name skipFaults) := by
  unfold Sockets.next
  dsimp only
  split
  · exact (Stirs.fetch s c _).followed (.keep _ name _)
  · exact .fetch s c _
  · exact .fetch s c _

theorem stop_stirs (s : Sockets) (view : View) (name : String) :
    Stirs (s.stopped? (.stop name)) none s (s.run view (.stop name)).state := by
  simp only [Sockets.run, stopped?, withController]
  cases hc : s.controllers.lookup name with
  | none => exact .aside (.refl s)
  | some c =>
    cases hx : s.acceptors[c]? with
    | none =>
      have hno : ¬c < s.acceptors.length := Nat.not_lt.mpr (List.getElem?_eq_none_iff.mp hx)
      rw [Option.filter_some_neg (by simpa using hno)]
      simp only [hx]
      exact .aside (.refl s)
    | some x =>
      have hlt : c < s.acceptors.length := (List.getElem?_eq_some_iff.mp hx).1
      rw [Option.filter_some_pos (by simpa using hlt)]
      simp only [hx]
      exact .stopAcceptor s c

/-- What every action does to listeners and loops. -/
theorem run_stirs (s : Sockets) (view : View) (act : Action) :
    Stirs (s.stopped? act) (s.shut? act) s (s.run view act).state := by
  have calm {s' : Sockets} (h : s.Aside s') : Stirs none none s s' := .aside h
  have same : Stirs none none s s := .aside (.refl s)
  cases act with
  | socket id shared options limits => exact calm (.socket s view id shared options limits)
  | bind id target type =>
    exact withAddress_cases (P := s.Calms) same fun a =>
      withHandle_cases (P := s.Calms) same fun h _ => calm (.bind s id h a type)
  | listen id backlog =>
    exact withHandle_cases (P := s.Calms) same fun h _ => listen_stirs s id h backlog
  | accept id controller context =>
    exact withHandle_cases (P := s.Calms) same fun h hh =>
      withContext_cases (P := s.Calms) same fun c => accept_stirs hh controller c
  | next controller name skipFaults =>
    exact withController_cases (P := s.Calms) same fun c x => next_calms s c x name skipFaults
  | glance controller =>
    exact withController_cases (P := s.Calms) same fun c x => .fetch s c _
  | stop controller => exact stop_stirs s view controller
  | connect id target type ticket context =>
    refine withAddress_cases (P := s.Calms) same fun a => withHandle_cases (P := s.Calms) same
      fun h _ => withContext_cases (P := s.Calms) same fun c => ?_
    cases ticket with
    | none => exact calm (.connect s id h a type none c)
    | some name =>
      exact withTicket_cases (P := s.Calms) same fun t => calm (.connect s id h a type (some t) c)
  | connected id name =>
    simp only [Sockets.run]
    split
    · exact same
    · exact calm (.connected s id name _)
  | abort id => exact calm (.abort s id)
  | ticket id => exact calm (.of_eq rfl rfl rfl)
  | cancel id => exact withTicket_cases (P := s.Calms) same fun t => calm (.cancel s t)
  | cancelAfter id ms =>
    exact withTicket_cases (P := s.Calms) same fun t => calm (.of_eq rfl rfl rfl)
  | localAddress id => exact calm (.askAddress s id _ _ _)
  | peerAddress id => exact calm (.askAddress s id _ _ _)
  | option id level name => exact calm (.askOption s id level name)
  | save id name => exact calm (.save s id name)
  | close id =>
    simp only [Sockets.run, shut?]
    cases hh : s.handle? id with
    | none => exact same
    | some h => exact close_stirs hh
  | drop id => exact calm (.forget s id)
  | copy id of => exact calm (.copy s id of)
  | describe id =>
    simp only [Sockets.run]
    split
    · exact same
    · exact calm (.describe s _)
  | pipe id name => exact withHandle_cases (P := s.Calms) same fun h _ => calm (.pipe s h name)
  | startRead pipe job length =>
    exact withPipe_cases (P := s.Calms) same fun ports => calm (.startJob s job ports.1 _ _)
  | startWrite pipe job data =>
    exact withPipe_cases (P := s.Calms) same fun ports => calm (.startJob s job ports.2 _ _)
  | finish job =>
    simp only [Sockets.run]
    split
    · exact same
    · split
      · exact same
      · rename_i hfinish
        exact calm (.finishJob hfinish)
  | closePipe pipe =>
    exact withPipe_cases (P := s.Calms) same fun ports => calm (.closePorts s [ports.1, ports.2])
  | closeEnd pipe writing =>
    exact withPipe_cases (P := s.Calms) same fun ports =>
      calm (.closePorts s [if writing then ports.2 else ports.1])
  | dropPipe pipe => exact calm (.of_eq rfl rfl rfl)
  | limit on => exact calm (.system s _)

end Sockets

end Conduit.Socket
