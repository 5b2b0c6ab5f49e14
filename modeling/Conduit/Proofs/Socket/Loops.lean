import Conduit.Proofs.Dispatch.Paths
import Conduit.Proofs.Socket.Attending
import Conduit.Proofs.Socket.Awake

/-!
How accept loops fare. A step stops a loop, closes a listener, takes a loop up again or tells its
handler what is on its way; all else leaves the loop where it was.
-/

namespace Conduit.Socket

open Dispatch
open Kernel (System)

/-! ### What happens at a moment -/

/-- The loop that is stopped at a moment. -/
def stopped? (q : Moment component) : Option Nat :=
  match q.cause with
  | .exec _ act => q.state.stopped? act
  | _ => none

/-- The listener that is closed at a moment. -/
def shut? (q : Moment component) : Option Nat :=
  match q.cause with
  | .exec _ act => q.state.shut? act
  | _ => none

/-- The loop that is taken up again at a moment. -/
def attended? (q : Moment component) : Option Nat :=
  match q.cause with
  | .poll (.acceptor i) => some i
  | .resume (.attend i) => some i
  | _ => none

/-- The loop and the outcome that is given to its context at a moment. -/
def report? (q : Moment component) : Option (Nat × Outcome) :=
  (attended? q).bind fun i =>
    match (q.state.attendTurn i).next with
    | .perform _ (.announce j) _ =>
      ((q.state.attendTurn i).state.acceptors[j]?.bind (·.underway.getLast?)).map (j, ·)
    | _ => none

/-- The loop and the outcome that its handler is told at a moment. -/
def heard? (q : Moment component) : Option (Nat × Outcome) :=
  match q.cause with
  | .resume (.announce i) => (q.state.acceptors[i]?.bind (·.underway.head?)).map (i, ·)
  | _ => none

/-- What of some outcomes is that of a loop. -/
def told (i : Nat) (rs : List (Nat × Outcome)) : List Outcome :=
  rs.filterMap fun r => if r.1 = i then some r.2 else none

/-- What has been given to the context of a loop, oldest first. -/
def reports (i : Nat) (past : List (Moment component)) : List Outcome :=
  told i (past.filterMap report?)

/-- What the handler of a loop has been told, oldest first. -/
def heard (i : Nat) (past : List (Moment component)) : List Outcome :=
  told i (past.filterMap heard?)

theorem reports_append (i : Nat) (past later : List (Moment component)) :
    reports i (past ++ later) = reports i past ++ reports i later := by
  simp [reports, told]

theorem heard_append (i : Nat) (past later : List (Moment component)) :
    heard i (past ++ later) = heard i past ++ heard i later := by
  simp [heard, told]

theorem reports_singleton (i : Nat) (q : Moment component) :
    reports i [q] = told i (report? q).toList := by
  cases h : report? q <;> simp [reports, h]

theorem heard_singleton (i : Nat) (q : Moment component) :
    heard i [q] = told i (heard? q).toList := by
  cases h : heard? q <;> simp [heard, h]

/-- An outcome that is not that of a loop. -/
theorem told_eq_nil {i : Nat} {r : Option (Nat × Outcome)} (h : ∀ o, r ≠ some (i, o)) :
    told i r.toList = [] := by
  match r with
  | none => rfl
  | some (j, o) =>
    have hne : j ≠ i := by
      rintro rfl
      exact h o rfl
    simp [told, hne]

/-- How one moment is for a loop, where contexts may drop what they are given if they are `fickle`. -/
structure Fares (fickle : Context → Prop) (q : Moment component) (i : Nat) (x x' : Acceptor) :
    Prop where
  listener : x'.listener = x.listener
  context : x'.context = x.context
  stopped : x'.stopped = (x.stopped || decide (stopped? q = some i))
  /-- What has been given to the context reaches the handler later, in order, or never. -/
  underway : (heard i [q] ++ x'.underway).Sublist (x.underway ++ reports i [q])
  delivered : ¬fickle x.context → q.cause ≠ .unwind (.announce i) →
    heard i [q] ++ x'.underway = x.underway ++ reports i [q]
  round : attended? q ≠ some i ∧ x'.round = x.round ∧ reports i [q] = [] ∨ attended? q = some i ∧
    ∃ l o taken, q.state.listeners[x.listener]? = some l ∧
      Attends q.state x l o taken x'.round ∧ reports i [q] = o.toList

/-- How one moment is for listeners and loops. -/
structure Passes (fickle : Context → Prop) (q : Moment component) (s' : Sockets) : Prop where
  listeners : ∀ (l : Nat) y, q.state.listeners[l]? = some y → ∃ y', s'.listeners[l]? = some y' ∧
    y' = if shut? q = some l then { y with closed := true, descriptor := none } else y
  opened : ∀ (l : Nat) y, q.state.listeners.length ≤ l → s'.listeners[l]? = some y →
    y.closed = false ∧ y.descriptor.isSome
  loops : ∀ (i : Nat) x, q.state.acceptors[i]? = some x →
    ∃ x', s'.acceptors[i]? = some x' ∧ Fares fickle q i x x'
  joined : ∀ (i : Nat) x, q.state.acceptors.length ≤ i → s'.acceptors[i]? = some x →
    q.state.Shows x.listener ∧ x.stopped = false ∧ x.round = .fresh ∧ x.underway = []
  shows : ∀ l, s'.Shows l → q.state.Shows l ∨
    q.state.listeners.length ≤ l ∧ l < s'.listeners.length

section Passes

variable {fickle : Context → Prop} {q : Moment component} {s' s'' : Sockets}

/-- A moment at which no loop is taken up again and no handler is told anything. -/
theorem Passes.of_stirs (h : Sockets.Stirs (stopped? q) (shut? q) q.state s')
    (ha : attended? q = none) (hh : heard? q = none) : Passes fickle q s' := by
  have hr : report? q = none := by simp [report?, ha]
  refine ⟨h.listeners, h.opened, fun i x hx => ?_, h.joined, h.shows⟩
  obtain ⟨arrived, hx'⟩ := h.loops i x hx
  have hkept : heard i [q] ++ x.underway = x.underway ++ reports i [q] := by
    simp [heard, reports, hh, hr, told]
  exact ⟨_, hx', rfl, rfl, rfl, hkept ▸ .refl _, fun _ _ => hkept,
    .inl ⟨by simp [ha], rfl, by simp [reports, hr, told]⟩⟩

theorem Passes.listeners_le (h : Passes fickle q s') :
    q.state.listeners.length ≤ s'.listeners.length := by
  refine Nat.le_of_not_lt fun hlt => ?_
  obtain ⟨y', hy', -⟩ := h.listeners _ _ (List.getElem?_eq_getElem hlt)
  exact Nat.lt_irrefl _ (List.getElem?_eq_some_iff.mp hy').1

theorem Passes.loops_le (h : Passes fickle q s') :
    q.state.acceptors.length ≤ s'.acceptors.length := by
  refine Nat.le_of_not_lt fun hlt => ?_
  obtain ⟨x', hx', -⟩ := h.loops _ _ (List.getElem?_eq_getElem hlt)
  exact Nat.lt_irrefl _ (List.getElem?_eq_some_iff.mp hx').1

/-- Listeners and loops are left alone afterwards. -/
theorem Passes.aside (h : Passes fickle q s') (h' : s'.Aside s'') : Passes fickle q s'' := by
  have hlisteners : s''.listeners = s'.listeners := congrArg Hall.listeners h'.hall
  have hloops : s''.acceptors = s'.acceptors := congrArg Hall.loops h'.hall
  obtain ⟨hl, ho, hx, hj, hs⟩ := h
  rw [← hlisteners] at hl ho hs
  rw [← hloops] at hx hj
  exact ⟨hl, ho, hx, hj, fun l hl => hs l (h'.shows l hl)⟩

/-- What is on its way to a handler is lost. -/
theorem Passes.lose (h : Passes fickle q s') {i : Nat} (hi : q.cause = .unwind (.announce i) ∨
    ∀ x, q.state.acceptors[i]? = some x → fickle x.context) : Passes fickle q (s'.loseNewest i) := by
  refine ⟨h.listeners, h.opened, fun j x hx => ?_, fun j x hj hx => ?_, h.shows⟩
  · obtain ⟨x', hx', hfares⟩ := h.loops j x hx
    by_cases hij : i = j
    · subst hij
      refine ⟨{ x' with underway := x'.underway.dropLast },
        by simp [Sockets.loseNewest, Sockets.modifyAcceptor, hx'], hfares.listener, hfares.context,
        hfares.stopped, ((List.dropLast_sublist _).append_left _).trans hfares.underway,
        fun hfirm hcause => ?_, hfares.round⟩
      exact absurd hi fun hi => hi.elim hcause fun hi => hfirm (hi x hx)
    · exact ⟨x', by simp [Sockets.loseNewest, Sockets.modifyAcceptor, hij, hx'], hfares⟩
  · by_cases hij : i = j
    · subst hij
      obtain ⟨x', hx', rfl⟩ : ∃ x', s'.acceptors[i]? = some x' ∧
          { x' with underway := x'.underway.dropLast } = x := by
        simpa [Sockets.loseNewest, Sockets.modifyAcceptor] using hx
      obtain ⟨hshows, hstopped, hround, hunderway⟩ := h.joined i x' hj hx'
      exact ⟨hshows, hstopped, hround, by simp [hunderway]⟩
    · exact h.joined j x hj (by simpa [Sockets.loseNewest, Sockets.modifyAcceptor, hij] using hx)

end Passes

/-- The part of a state that the turns of loops rely on. -/
structure Housed (s : Sockets) : Prop where
  listeners : ∀ (l : Nat) y, s.listeners[l]? = some y → y.closed = y.descriptor.isNone
  loops : ∀ (i : Nat) x, s.acceptors[i]? = some x → ∃ l, s.listeners[x.listener]? = some l ∧
    ∀ d, x.round = .waiting d → l.closed = true ∨ l.descriptor = some d
  shows : ∀ l, s.Shows l → l < s.listeners.length

theorem Housed.comesTo {s : Sockets} (hs : Housed s) {i : Nat} {x : Acceptor}
    (hx : s.acceptors[i]? = some x) :
    ∃ l, s.listeners[x.listener]? = some l ∧ s.ComesTo i x l (s.attendTurn i) := by
  obtain ⟨l, hl, hhand⟩ := hs.loops i x hx
  exact ⟨l, hl, Sockets.attendTurn_comesTo hx hl (hs.listeners _ l hl) hhand⟩

section Attended

variable {fickle : Context → Prop} {q : Moment component} {i : Nat}

/-- What a loop reports that is taken up again. -/
theorem report?_of_comesTo (ha : attended? q = some i) {x : Acceptor} {l : Listener}
    (hx : q.state.acceptors[i]? = some x) {o : Option Outcome} {taken : Option Nat} {round : Round}
    (hleaves : Leaves q.state i x l o taken round (q.state.attendTurn i).state)
    (hnext : (q.state.attendTurn i).next = x.reports i round o) : report? q = o.map (i, ·) := by
  have hlt : i < q.state.acceptors.length := (List.getElem?_eq_some_iff.mp hx).1
  obtain ⟨⟨system, hstate⟩, -, -⟩ := hleaves
  unfold report?
  rw [ha, Option.bind_some, hnext, hstate]
  cases o with
  | none => rfl
  | some o => simp [Acceptor.reports, hlt]

/-- A loop that does not exist is not taken up again. -/
theorem attendTurn_none {s : Sockets} (hi : s.acceptors[i]? = none) :
    s.attendTurn i = { state := s } := by
  simp [Sockets.attendTurn, Sockets.attend, hi]

/-- A loop other than the one that is taken up again does not notice. -/
theorem Fares.other (ha : attended? q = some i) (hstopped : stopped? q = none)
    (hheard : heard? q = none) (hr : ∀ r, report? q = some r → r.1 = i) {j : Nat} (hij : i ≠ j)
    (x : Acceptor) : Fares fickle q j x x := by
  have hreports : reports j [q] = [] := by
    rw [reports_singleton]
    exact told_eq_nil fun o h => hij (hr _ h).symm
  have hkept : heard j [q] ++ x.underway = x.underway ++ reports j [q] := by
    simp [heard, hheard, hreports, told]
  exact ⟨rfl, rfl, by simp [hstopped], hkept ▸ .refl _, fun _ _ => hkept,
    .inl ⟨by simp [ha, hij], rfl, hreports⟩⟩

theorem Passes.attended (hs : Housed q.state) (ha : attended? q = some i) :
    Passes fickle q (q.state.attendTurn i).state := by
  have hnone : stopped? q = none ∧ shut? q = none ∧ heard? q = none := by
    obtain ⟨s, cause⟩ := q
    cases cause with
    | poll t => cases t <;> simp_all [attended?, stopped?, shut?, heard?]
    | resume f => cases f <;> simp_all [attended?, stopped?, shut?, heard?]
    | _ => simp [attended?] at ha
  obtain ⟨hstopped, hshut, hheard⟩ := hnone
  cases hx : q.state.acceptors[i]? with
  | none =>
    have hturn := attendTurn_none hx
    have hr : report? q = none := by simp [report?, ha, hturn]
    rw [hturn]
    refine ⟨fun l y hy => ⟨y, hy, by simp [hshut]⟩, fun l y hl hy => ?_, fun j x hj => ?_,
      fun j x hj hx => ?_, fun l => .inl⟩
    · simp [List.getElem?_eq_none hl] at hy
    · refine ⟨x, hj, .other ha hstopped hheard (by simp [hr]) (fun hij => ?_) x⟩
      subst hij
      simp [hx] at hj
    · simp [List.getElem?_eq_none hj] at hx
  | some x =>
    obtain ⟨l, hl, o, taken, round, hattends, hleaves, hnext⟩ := hs.comesTo hx
    have hr := report?_of_comesTo ha hx hleaves hnext
    have hreports : reports i [q] = o.toList := by cases o <;> simp [reports, told, hr]
    have hlt : i < q.state.acceptors.length := (List.getElem?_eq_some_iff.mp hx).1
    obtain ⟨⟨system, hstate⟩, -, -⟩ := hleaves
    rw [hstate]
    refine ⟨fun l y hy => ⟨y, hy, by simp [hshut]⟩, fun l y hl hy => ?_, fun j z hj => ?_,
      fun j z hj hz => ?_, fun l => .inl⟩
    · dsimp only at hy
      simp [List.getElem?_eq_none hl] at hy
    · by_cases hij : i = j
      · subst hij
        obtain rfl : x = z := Option.some.inj (hx.symm.trans hj)
        have hkept : heard i [q] ++ (x.underway ++ o.toList) = x.underway ++ reports i [q] := by
          simp [heard, hheard, told, hreports]
        exact ⟨{ x with round, underway := x.underway ++ o.toList }, by simp [hlt], rfl, rfl,
          by simp [hstopped], hkept ▸ .refl _, fun _ _ => hkept,
          .inr ⟨ha, l, o, taken, hl, hattends, hreports⟩⟩
      · refine ⟨z, by simp [hij, hj], .other ha hstopped hheard (fun r h => ?_) hij z⟩
        rw [hr] at h
        obtain ⟨o', -, rfl⟩ := Option.map_eq_some_iff.mp h
        rfl
    · rw [List.getElem?_eq_none (by simpa using hj)] at hz
      cases hz

end Attended

/-- A handler is told the oldest outcome that is on its way to it. -/
theorem Passes.announced {fickle : Context → Prop} (s : Sockets) (i : Nat) :
    Passes fickle ⟨s, .resume (.announce i)⟩ (s.announce i) := by
  generalize hq : (⟨s, .resume (.announce i)⟩ : Moment component) = q
  have hstate : q.state = s := hq ▸ rfl
  have hheard : heard? q = (s.acceptors[i]?.bind (·.underway.head?)).map (i, ·) := hq ▸ rfl
  have ha : attended? q = none := hq ▸ rfl
  have hr : report? q = none := by simp [report?, ha]
  have hstopped : stopped? q = none := hq ▸ rfl
  have hshut : shut? q = none := hq ▸ rfl
  refine ⟨fun l y hy => ⟨y, hstate ▸ hy, by simp [hshut]⟩, fun l y hl hy => ?_, fun j x hj => ?_,
    fun j x hj hx => ?_, fun l hl => .inl (hstate ▸ hl)⟩
  · simp [Sockets.announce, Sockets.modifyAcceptor, List.getElem?_eq_none (hstate ▸ hl)] at hy
  · rw [hstate] at hj
    have hround : attended? q ≠ some j ∧ x.round = x.round ∧ reports j [q] = [] :=
      ⟨by simp [ha], rfl, by simp [reports, hr, told]⟩
    have kept (x' : Acceptor) (hx' : (s.announce i).acceptors[j]? = some x')
        (hsame : x' = { x with underway := x'.underway, arrived := x'.arrived })
        (hkept : heard j [q] ++ x'.underway = x.underway) :
        ∃ x', (s.announce i).acceptors[j]? = some x' ∧ Fares fickle q j x x' := by
      rw [← List.append_nil x.underway, ← hround.2.2] at hkept
      exact ⟨x', hx', by rw [hsame], by rw [hsame], by rw [hsame]; simp [hstopped], hkept ▸ .refl _,
        fun _ _ => hkept, .inl (by rw [hsame]; exact hround)⟩
    by_cases hij : i = j
    · subst hij
      cases hunder : x.underway with
      | nil =>
        refine kept x ?_ rfl (by simp [heard, hheard, hj, hunder, told])
        simp [Sockets.announce, Sockets.modifyAcceptor, hj, hunder]
      | cons o rest =>
        refine kept { x with
          underway := rest
          arrived := if s.controllers.any (·.2 = i) then x.arrived ++ [o] else x.arrived } ?_ rfl
          (by simp [heard, hheard, hj, hunder, told])
        simp [Sockets.announce, Sockets.modifyAcceptor, hj, hunder]
    · have hnone : heard j [q] = [] := by
        rw [heard_singleton]
        refine told_eq_nil fun o h => hij ?_
        obtain ⟨_, -, he⟩ := Option.map_eq_some_iff.mp (hheard.symm.trans h)
        exact congrArg Prod.fst he
      exact kept x (by simp [Sockets.announce, Sockets.modifyAcceptor, hij, hj]) rfl
        (by simp [hnone])
  · simp [Sockets.announce, Sockets.modifyAcceptor, List.getElem?_modify,
      List.getElem?_eq_none (hstate ▸ hj)] at hx

section Steps

variable {fickle : Context → Prop} {q : Moment component} {s' : Sockets}

/-- A frame is dropped without being run. -/
theorem Passes.unwound (h : Passes fickle q s') {f : Frame} (hf : ∀ i, f = .announce i →
    q.cause = .unwind f ∨ ∀ x, q.state.acceptors[i]? = some x → fickle x.context) :
    Passes fickle q (s'.unwind f) := by
  cases f with
  | serve r => exact h.aside (.finishRequest s' r)
  | finish r => exact h.aside (.finishRequest s' r)
  | conclude a => exact h.aside (.of_eq rfl rfl rfl)
  | announce i => exact h.lose (hf i rfl)
  | attend i => exact h

/-- The work of a turn that tells something to a handler is given to its context. -/
def Addressed (s : Sockets) (t : Turn signature) : Prop :=
  ∀ d i k, t.next = .perform d (.announce i) k → ∀ x, s.acceptors[i]? = some x → d = x.context

theorem Passes.of_aside (h : q.state.Aside s') (hstopped : stopped? q = none) (hshut : shut? q = none)
    (ha : attended? q = none) (hh : heard? q = none) : Passes fickle q s' :=
  .of_stirs (by rw [hstopped, hshut]; exact .aside h) ha hh

theorem attendTurn_addressed {s : Sockets} (hs : Housed s) (i : Nat) :
    Addressed s (s.attendTurn i) := by
  intro d j k hnext x hx
  cases hi : s.acceptors[i]? with
  | none => simp [attendTurn_none hi] at hnext
  | some y =>
    obtain ⟨l, -, o, taken, round, -, -, hreports⟩ := hs.comesTo hi
    rw [hreports] at hnext
    obtain ⟨rfl, rfl⟩ : y.context = d ∧ i = j := by
      cases o with
      | none => cases hnext
      | some o =>
        cases hnext
        exact ⟨rfl, rfl⟩
    rw [Option.some.inj (hi.symm.trans hx)]

/-- A turn that tells nothing to a handler. -/
theorem addressed_of_left {s : Sockets} {t : Turn signature} (h : ∀ i, .announce i ∉ t.next.left) :
    Addressed s t := by
  intro d i k hnext
  exact absurd (by simp [hnext, Next.left]) (h i)

theorem serve_addressed (s : Sockets) (r : Nat) : Addressed s (s.serve r) := by
  refine addressed_of_left fun i => ?_
  unfold Sockets.serve
  dsimp only
  split <;> simp [Next.left]

theorem turn_addressed (hs : Housed q.state) {t : Turn signature} (ht : q.turn? = some t) :
    Addressed q.state t := by
  obtain ⟨s, cause⟩ := q
  cases cause with
  | exec view act =>
    cases ht
    refine addressed_of_left fun i => ?_
    obtain ⟨r, hr⟩ := (run_moving s view act).reply
    show .announce i ∉ (s.run view act).next.left
    simp [hr, Next.left]
  | resume f =>
    cases ht
    cases f with
    | serve r => exact serve_addressed s r
    | attend i => exact attendTurn_addressed hs i
    | _ => exact fun _ _ _ h => by cases h
  | poll t =>
    cases ht
    cases t with
    | request r => exact serve_addressed s r
    | attempt a =>
      refine addressed_of_left fun i => ?_
      show .announce i ∉ (s.pursueTurn a).next.left
      cases pursueTurn_pursues s a with
      | rests _ hnext => simp [hnext, Next.left]
      | decides _ _ _ _ _ hnext => simp [hnext, Next.left]
    | acceptor i => exact attendTurn_addressed hs i
    | alarm i => exact fun _ _ _ h => by cases h
  | unwind | tick => cases ht

/-- What every moment is for listeners and loops. -/
theorem Passes.after (hs : Housed q.state) : Passes fickle q q.after := by
  obtain ⟨s, cause⟩ := q
  have aside {s' : Sockets} (h : Passes fickle ⟨s, cause⟩ s') : Passes fickle ⟨s, cause⟩ s'.reap :=
    h.aside (.reap s')
  cases cause with
  | exec view act => exact aside (.of_stirs (s.run_stirs view act) rfl rfl)
  | resume f =>
    refine aside ?_
    cases f with
    | serve r => exact .of_aside (.advanceRequest s r) rfl rfl rfl rfl
    | finish r => exact .of_aside (.finishRequest s r) rfl rfl rfl rfl
    | conclude a => exact .of_aside (.conclude s a) rfl rfl rfl rfl
    | announce i => exact .announced s i
    | attend i => exact .attended (q := ⟨s, .resume (.attend i)⟩) hs rfl
  | unwind f =>
    have hsame : Passes fickle ⟨s, .unwind f⟩ s := .of_aside (.refl _) rfl rfl rfl rfl
    exact aside (hsame.unwound fun _ _ => .inl rfl)
  | poll t =>
    refine aside ?_
    cases t with
    | request r => exact .of_aside (.advanceRequest s r) rfl rfl rfl rfl
    | attempt a => exact .of_aside (.pursueTurn s a) rfl rfl rfl rfl
    | acceptor i => exact .attended (q := ⟨s, .poll (.acceptor i)⟩) hs rfl
    | alarm i =>
      obtain ⟨alarms, tickets, h⟩ := s.ring_eq i
      have : s.Aside (s.ring i) := h ▸ .of_eq rfl rfl rfl
      exact .of_aside this rfl rfl rfl rfl
  | tick => exact .of_aside (.of_eq rfl rfl rfl) rfl rfl rfl rfl

/-- A context drops what it is given. -/
theorem Passes.dropped (hs : Housed q.state) {t : Turn signature} (ht : q.turn? = some t)
    {d : Context} {w : Frame} {k : List Frame} (hn : t.next = .perform d w k) (hd : fickle d) :
    Passes fickle q (component.unwind q.after w).1 := by
  refine ((Passes.after hs).unwound fun i hw => .inr fun x hx => ?_).aside (.reap _)
  subst hw
  obtain rfl := turn_addressed hs ht d i k hn x hx
  exact hd

/-- A context that does not run at once what it is given. -/
def Deferred (c : Context) : Prop := ∃ v, c.place = .venue v

/-- What every step is for listeners and loops. -/
theorem step_passes {c c' : Config component} {cause : Dispatch.Cause component}
    (hs : Housed c.state) (h : c.Step (some cause) c') :
    Passes Deferred ⟨c.state, cause⟩ c'.state := by
  rcases h.state_cases with hstate | ⟨t, d, w, k, v, ht, hn, hd, hstate⟩
  · exact hstate ▸ .after (q := ⟨c.state, cause⟩) hs
  · exact hstate ▸ .dropped (q := ⟨c.state, cause⟩) hs ht hn ⟨v, hd⟩

/-- In a step of the machine a context drops what it is given only if its venue has stopped. -/
theorem advance?_passes {m m' : Machine component} (hs : Housed m.state)
    (hq : m.moment? = some q) (hm : m.advance? = some m') :
    Passes (fun c => ∃ v, c.place = .venue v ∧ m.HasStopped v) q m'.state := by
  obtain ⟨cause, -, rfl⟩ := Option.map_eq_some_iff.mp hq
  rcases Machine.advance?_state hq hm with hstate | ⟨t, d, w, k, v, ht, hn, hd, hstopped, hstate⟩
  · exact hstate ▸ .after (q := ⟨m.state, cause⟩) hs
  · exact hstate ▸ .dropped (q := ⟨m.state, cause⟩) hs ht hn ⟨v, hd, hstopped⟩

/-- What the turns of loops rely on is kept. -/
theorem Passes.housed (h : Passes fickle q s') (hs : Housed q.state) : Housed s' := by
  have hlisteners {l : Nat} {y' : Listener} (hy' : s'.listeners[l]? = some y') :
      y'.closed = y'.descriptor.isNone := by
    rcases Nat.lt_or_ge l q.state.listeners.length with hl | hl
    · obtain ⟨y, hy⟩ : ∃ y, q.state.listeners[l]? = some y := ⟨_, List.getElem?_eq_getElem hl⟩
      obtain ⟨y₁, hy₁, rfl⟩ := h.listeners l y hy
      obtain rfl := Option.some.inj (hy₁.symm.trans hy')
      split
      · rfl
      · exact hs.listeners l y hy
    · obtain ⟨hclosed, hsome⟩ := h.opened l y' hl hy'
      rw [hclosed]
      cases hd : y'.descriptor with
      | none => simp [hd] at hsome
      | some d => rfl
  have hmore := h.listeners_le
  refine ⟨fun l y' => hlisteners, fun i x' hx' => ?_, fun l hl => ?_⟩
  · rcases Nat.lt_or_ge i q.state.acceptors.length with hi | hi
    · obtain ⟨x, hx⟩ : ∃ x, q.state.acceptors[i]? = some x := ⟨_, List.getElem?_eq_getElem hi⟩
      obtain ⟨x₁, hx₁, hfares⟩ := h.loops i x hx
      obtain rfl := Option.some.inj (hx₁.symm.trans hx')
      obtain ⟨y, hy, hhand⟩ := hs.loops i x hx
      obtain ⟨y', hy', rfl⟩ := h.listeners _ y hy
      refine ⟨_, hfares.listener ▸ hy', fun d hd => ?_⟩
      split
      · exact .inl rfl
      · rcases hfares.round with ⟨-, hround, -⟩ | ⟨-, y₁, o, taken, hy₁, hattends, -⟩
        · exact hhand d (hround ▸ hd)
        · obtain rfl := Option.some.inj (hy₁.symm.trans hy)
          generalize hround : x₁.round = round at hattends hd
          cases hattends with
          | idle => exact hhand d hd
          | waits _ _ _ hd' =>
            cases hd
            exact .inr hd'
          | _ => cases hd
    · obtain ⟨hshows, -, hround, -⟩ := h.joined i x' hi hx'
      obtain ⟨y, hy⟩ : ∃ y, s'.listeners[x'.listener]? = some y :=
        ⟨_, List.getElem?_eq_getElem (Nat.lt_of_lt_of_le (hs.shows _ hshows) hmore)⟩
      exact ⟨y, hy, by simp [hround]⟩
  · exact (h.shows l hl).elim (fun hl => Nat.lt_of_lt_of_le (hs.shows l hl) hmore) (·.2)

end Steps

end Conduit.Socket
