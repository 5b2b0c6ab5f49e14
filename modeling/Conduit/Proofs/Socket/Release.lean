import Conduit.Proofs.Socket.Accept
import Conduit.Proofs.Socket.Plumbing
import Conduit.Proofs.Socket.Titles

/-!
Closing a socket releases its descriptor. Once nothing is left to do and no outcome is on its way,
nobody owns the descriptor any more, whatever names, loops, attempts and pipes there were; it is
closed and stays closed, and whoever connects to where nobody else listens is refused.
-/

namespace Conduit.Socket

open Dispatch
open Kernel (System Whim)

/-- The descriptor `d` stands behind a socket: what it has bound, what it listens on, what an
attempt goes on with that it waits for or has made a connection of, or what it is connected by. -/
inductive Behind (s : Sockets) (h : Handle) (d : Nat) : Prop where
  | bound {b} (hst : s.stageOf h = .bound b) (hd : b.descriptor = some d)
  | listening {l} (hst : s.stageOf h = .listening l) (hd : s.ListensOn l d)
  /-- Only a shared socket has a name while it connects. -/
  | connecting {i a} (hh : h = .shared i) (hst : s.stageOf h = .connecting a)
      (hd : s.Owns (.attempt a) d ∨ ∃ k, s.Pledges a k ∧ s.RunsOn k d)
  | connected {k} (hst : s.stageOf h = .connected k) (hd : s.RunsOn k d)

/-- A socket is closed behind which the descriptor `d` stands, or an attempt is told to stop that
goes on with it. -/
inductive Shuts (q : Moment component) (d : Nat) : Prop where
  | close {view id h} (hcause : q.cause = .exec view (.close id)) (hh : q.state.handle? id = some h)
      (hd : Behind q.state h d)
  | abort {view id a x} (hcause : q.cause = .exec view (.abort id))
      (ha : q.state.calls.lookup id = some a) (hx : q.state.attempts[a]? = some x)
      (hslot : x.slot = none) (hd : x.descriptor? = some d)

/-- No outcome of an attempt waits to be told. -/
def Sockets.Told (s : Sockets) : Prop := ∀ x ∈ s.attempts, ∀ o, x.progress ≠ .decided o

/-- Nobody is left to whom the descriptor `d` belongs: no socket under any name and no attempt, no
listener and no loop, no connection that anybody can come by and no port of a pipe. -/
structure Sockets.Free (s : Sockets) (d : Nat) : Prop where
  sockets : ∀ o, ¬s.Owns o d
  listeners : ∀ l, ¬s.ListensOn l d
  loops : ∀ x ∈ s.acceptors, x.round ≠ .waiting d
  connections : ∀ k, s.Reaches k → ¬s.RunsOn k d
  pledges : ∀ a k, s.Pledges a k → ¬s.RunsOn k d
  ports : d ∉ s.portDescriptors
  unowned : d ∉ s.owned
  shut : s.system.isOpen d = false

/-- What closing a socket comes to when nothing is left to do. -/
structure ReleaseContract {m : Machine component} (x : Execution m) (d : Nat) : Prop where
  free : x.machine.state.Free d
  shut : ∀ y : Execution x.machine, y.machine.state.system.isOpen d = false
  /-- Whoever connects for a link from then on, to where nobody listens but on that descriptor, is
  refused, by the system if by nothing else. -/
  refused : ∀ (y : Execution x.machine) (a : Nat) (z : Attempt),
    y.machine.state.attempts[a]? = some z → z.progress = .fresh →
    (∀ e type, z.prepared = .ok e → y.machine.state.system.type? e = some type →
      type ≠ .datagram ∧ ∀ n, n ≠ d → ¬y.machine.state.system.Hears n type z.target) →
    ∃ f, y.machine.state.pursue a =
      (y.machine.state.setProgress a (.decided (.error f)), some z.context) ∧
      ∀ e, z.prepared = .ok e → y.machine.state.isCancelled z.ticket = false → z.closed = false →
        ∃ error, f = .ofOs .connect error

/-- Those who are on their way out: an attempt, and a connection that it has made. -/
def Claimant.Leaving : Claimant → Prop
  | .owner (.attempt _) | .pledge _ => True
  | _ => False

namespace Sockets

variable {s s' : Sockets}

/-! ### What closing leaves behind -/

/-- Nobody comes by the descriptor `d`, and whoever lends it had it. -/
structure Withholds (s s' : Sockets) (d : Nat) : Prop where
  claims : ∀ c, s'.Claims c d → s.Claims c d
  lends : ∀ c, s'.Lends c d → s.Lends c d ∨ s.Claims c d

theorem Yields.withholds (h : s.Yields s') (d : Nat) : s.Withholds s' d :=
  ⟨fun _ => h.claims, fun c => h.lends c d⟩

theorem Withholds.yields {t : Sockets} {d : Nat} (h : s.Withholds s' d) (h' : s'.Yields t) :
    s.Withholds t d where
  claims c hc := h.claims c (h'.claims hc)
  lends c hl := (h'.lends c d hl).elim (h.lends c) fun hc => .inr (h.claims c hc)

/-- Only a newcomer gets in line. -/
theorem Withholds.enlists {system : System} {d : Nat} (h : s.system.Enlists system)
    (hd : s.Present d) : s.Withholds { s with system } d where
  lends c hl := .inl hl
  claims c hc := by
    rcases h.line with hline | ⟨e, n, hn, -, hline⟩
    · exact (Yields.withSystem ⟨h.toLasts, hline⟩).claims hc
    · rcases claims_enlisted hline hc with ⟨-, rfl⟩ | hc
      · simp [Present, hn] at hd
      · exact hc

/-- Whoever alone has a descriptor and loses it leaves it to nobody. -/
theorem Titled.bare (hs : s.Titled) (hy : s.Yields s') {p : Claimant} {d : Nat}
    (hold : s.Claims p d) (hgone : ¬s'.Claims p d) (Q : Claimant → Prop) : s'.Tied Q d := by
  refine ⟨hy.system.present d (hs.present p d hold), fun c hc => ?_⟩
  obtain rfl := hs.alone c p d (hy.claims hc) hold
  exact absurd hc hgone

theorem not_owns_closed {id : String} {h : Handle} {t : Sockets} {d : Nat} {st : Stage}
    (hst : st.held? = none) : ¬(t.setStage id h st).Owns (h.owner id) d := by
  intro ho
  rcases owns_setStage ho with ⟨-, hd⟩ | ⟨-, hne⟩
  · rw [hst] at hd
    cases hd
  · exact hne rfl

theorem not_listens_closed (s : Sockets) (l d : Nat) : ¬(s.closeListener l).ListensOn l d := by
  rintro ⟨y, hy, hd⟩
  have hy : (s.listeners.modify l _)[l]? = some y := hy
  rw [List.getElem?_modify_eq] at hy
  obtain ⟨z, -, rfl⟩ := Option.map_eq_some_iff.mp hy
  cases hd

/-- A connection that has been closed has no descriptor. -/
theorem not_runs_closed (hs : s.bench.Wired) (k d : Nat) : ¬(s.closeConnection k).1.RunsOn k d := by
  rintro ⟨y, hy, hd⟩
  unfold Sockets.closeConnection at hy
  cases hx : s.connections[k]? with
  | none =>
    rw [hx] at hy
    exact nomatch hx.symm.trans hy
  | some x =>
    rw [hx] at hy
    dsimp only at hy
    split at hy
    · rename_i hclosed
      obtain rfl := Option.some.inj (hx.symm.trans hy)
      rw [(hs.held k x hx).mp hclosed] at hd
      cases hd
    · obtain ⟨hub, hports⟩ := s.closePorts_eq (x.pipes.flatMap fun p => [p.1, p.2])
      rw [hports] at hy
      rw [List.getElem?_set_self (List.getElem?_eq_some_iff.mp hx).1] at hy
      cases hy
      cases hd

theorem closed_of_closeAttempt {a : Nat} {x : Attempt}
    (hx : (s.closeAttempt a).attempts[a]? = some x) : x.closed = true := by
  have hx : (s.attempts.modify a fun x => { x with closed := true })[a]? = some x := hx
  rw [List.getElem?_modify_eq] at hx
  obtain ⟨y, -, rfl⟩ := Option.map_eq_some_iff.mp hx
  rfl

/-- An attempt that goes on with a descriptor and is told to stop gives it to nobody. -/
theorem tied_closeAttempt (hs : s.Titled) {a d : Nat} (hd : s.Owns (.attempt a) d) :
    (s.closeAttempt a).Tied Claimant.Leaving d := by
  refine ⟨hs.present (.owner (.attempt a)) d hd, fun c hc => ?_⟩
  obtain rfl := hs.alone c (.owner (.attempt a)) d ((Yields.closeAttempt s a).claims hc) hd
  obtain ⟨x, hx, -⟩ := hc
  exact ⟨trivial, x, hx, closed_of_closeAttempt hx⟩

/-- A connection on its way to a slot that is closed is given to nobody. -/
theorem tied_pledge (hs : s.Titled) {a d i : Nat} {x : Attempt} (hx : s.attempts[a]? = some x)
    (hi : x.slot = some i) (hclosed : s.slots[i]? = some .closed) (hd : s.Claims (.pledge a) d) :
    s.Tied Claimant.Leaving d := by
  refine ⟨hs.present _ d hd, fun c hc => ?_⟩
  obtain rfl := hs.alone c (.pledge a) d hc hd
  exact ⟨trivial, x, i, hx, hi, hclosed⟩

/-- Behind a socket that has been closed nobody has its descriptor but who is on the way out. -/
theorem tied_close (hs : s.Titled) (hlively : s.Lively) (hwired : s.bench.Wired) {id : String}
    {h : Handle} (hh : s.handle? id = some h) {d : Nat} (hd : Behind s h d) :
    (s.close id h).1.Tied Claimant.Leaving d := by
  have hy := close_yields hh
  cases hd with
  | @bound b hst hd =>
    have hold : s.Claims (.owner (h.owner id)) d := owns_of_stage hh (by rw [hst]; exact hd)
    refine hs.bare hy hold (not_owns_closed ?_) _
    cases h with
    | sole st => exact (harmless_closedStage _).held?
    | shared i => rfl
  | @listening l hst hd =>
    refine hs.bare hy (p := .listener l) hd (fun hgone => ?_) _
    have hgone : (s.closeBehind (s.stageOf h)).1.ListensOn l d := by cases h <;> exact hgone
    rw [hst] at hgone
    exact not_listens_closed s l d hgone
  | @connecting i a hi hst hd =>
    subst hi
    have hclose : (s.close id (.shared i)).1 =
        { s.closeAttempt a with slots := (s.closeAttempt a).slots.set i .closed } := by
      simp only [Sockets.close, hst]
      rfl
    have hset : Yields (s.closeAttempt a)
        { s.closeAttempt a with slots := (s.closeAttempt a).slots.set i .closed } := .closeSlot _ i
    rw [hclose] at hy ⊢
    rcases hd with hd | hd
    · exact hset.deals.tied ((Yields.closeAttempt s a).deals.titled hs) (tied_closeAttempt hs hd)
    · have hslot : s.slots[i]? = some (.connecting a) := s.slot_of_stage hst (by simp)
      obtain ⟨x, hx, hi⟩ := hlively.connecting i a hslot
      obtain ⟨k, ⟨x', hx', hp⟩, hr⟩ := hd
      obtain rfl := Option.some.inj (hx.symm.trans hx')
      have hx : (s.closeAttempt a).attempts[a]? = some { x with closed := true } := by
        simp [closeAttempt, hx]
      refine tied_pledge (hy.deals.titled hs) hx hi ?_ ⟨k, ⟨_, hx, hp⟩, hr⟩
      exact List.getElem?_set_self (List.getElem?_eq_some_iff.mp hslot).1
  | @connected k hst hd =>
    refine hs.bare hy (p := .connection k) ⟨reaches_of_stage hh hst, hd⟩ (fun hgone => ?_) _
    have hgone : (s.closeBehind (s.stageOf h)).1.RunsOn k d := by cases h <;> exact hgone.2
    rw [hst] at hgone
    exact not_runs_closed hwired k d hgone

/-! ### Who is left -/

theorem mem_stages {st : Stage} (h : st ∈ s.stages) :
    (∃ id, (id, Handle.sole st) ∈ s.handles) ∨ ∃ i : Nat, s.slots[i]? = some st := by
  rcases List.mem_append.mp h with h | h
  · obtain ⟨⟨id, handle⟩, hmem, h⟩ := List.mem_filterMap.mp h
    cases handle with
    | sole st' =>
      obtain rfl := Option.some.inj h
      exact .inl ⟨id, hmem⟩
    | shared i => cases h
  · obtain ⟨⟨st', i⟩, hmem, h⟩ := List.mem_filterMap.mp h
    dsimp only at h
    split at h
    · obtain rfl := Option.some.inj h
      exact .inr ⟨i, List.mk_mem_zipIdx_iff_getElem?.mp hmem⟩
    · cases h

theorem isConnection_iff {k : Nat} {o : Outcome} : isConnection k o = true ↔ o = .ok k := by
  cases o <;> simp [isConnection]

/-- A connection is used only if somebody can come by it, or an attempt has made it. -/
theorem reaches_of_uses {k : Nat} (h : s.usesConnection k = true) :
    s.Reaches k ∨ ∃ a, s.Pledges a k := by
  simp only [usesConnection, Bool.or_eq_true, List.contains_iff_mem, List.any_eq_true] at h
  rcases h with (h | ⟨⟨x, a⟩, hx, h⟩) | ⟨⟨x, c⟩, hx, h⟩
  · rcases mem_stages h with ⟨id, h⟩ | ⟨i, h⟩
    · exact .inl (.name h)
    · exact .inl (.slot (List.mem_of_getElem? h))
  · have hx := List.mk_mem_zipIdx_iff_getElem?.mp hx
    unfold attemptHolds at h
    split at h
    · rename_i o hp
      exact .inr ⟨a, x, hx, hp.trans (congrArg _ (isConnection_iff.mp h))⟩
    · rename_i o hp
      simp only [Bool.and_eq_true] at h
      exact .inl (.outcome (List.mem_of_getElem? hx)
        (hp.trans (congrArg _ (isConnection_iff.mp h.1))))
    · cases h
  · have hx := List.mem_of_getElem? (List.mk_mem_zipIdx_iff_getElem?.mp hx)
    simp only [acceptorHolds, Bool.or_eq_true, Bool.and_eq_true, List.any_eq_true] at h
    rcases h with ⟨o, ho, h⟩ | ⟨-, o, ho, h⟩
    · exact .inl (.arrival hx (.inl (isConnection_iff.mp h ▸ ho)))
    · exact .inl (.arrival hx (.inr (isConnection_iff.mp h ▸ ho)))

/-- A descriptor that nobody claims is owned by loops and ports at most. -/
theorem claims_of_owned {d : Nat} (hd : d ∈ s.owned) :
    (∃ c, s.Claims c d) ∨ (∃ x ∈ s.acceptors, x.round = .waiting d) ∨ d ∈ s.portDescriptors := by
  unfold owned at hd
  simp only [List.mem_append, List.mem_filterMap] at hd
  rcases hd with ((((hd | hd) | hd) | hd) | hd) | hd
  · obtain ⟨st, hst, hd⟩ := hd
    have hheld : st.held? = some d := by cases st <;> simp_all [Stage.held?]
    rcases mem_stages hst with ⟨id, hmem⟩ | ⟨i, hi⟩
    · exact .inl ⟨.owner (.name id), st, hmem, hheld⟩
    · exact .inl ⟨.owner (.slot i), st, hi, hheld⟩
  · obtain ⟨⟨y, l⟩, hy, hd⟩ := hd
    refine .inl ⟨.listener l, y, List.mk_mem_zipIdx_iff_getElem?.mp hy, ?_⟩
    dsimp only at hd
    split at hd
    · exact hd
    · cases hd
  · obtain ⟨x, hx, hd⟩ := hd
    refine .inr (.inl ⟨x, hx, ?_⟩)
    cases hround : x.round <;> simp_all
  · obtain ⟨x, hx, hd⟩ := hd
    obtain ⟨a, ha⟩ := List.getElem?_of_mem hx
    exact .inl ⟨.owner (.attempt a), x, ha, hd⟩
  · obtain ⟨⟨y, k⟩, hy, hd⟩ := hd
    have hy := List.mk_mem_zipIdx_iff_getElem?.mp hy
    dsimp only at hd
    split at hd
    · rename_i huses
      rcases reaches_of_uses huses with hk | ⟨a, hk⟩
      · exact .inl ⟨.connection k, hk, y, hy, hd⟩
      · exact .inl ⟨.pledge a, k, hk, y, hy, hd⟩
    · cases hd
  · exact .inr (.inr hd)

/-- What is lent by nobody and claimed by nobody is owned by nobody. -/
theorem not_owned {d : Nat} (hclaims : ∀ c, ¬s.Claims c d) (hlends : ∀ c, ¬s.Lends c d) :
    d ∉ s.owned := by
  intro hd
  rcases claims_of_owned hd with ⟨c, hc⟩ | ⟨z, hz, hround⟩ | hd
  · exact hclaims c hc
  · exact hlends (.listener z.listener) ⟨z, hz, rfl, hround⟩
  · obtain ⟨⟨plug, p⟩, hplug, hd⟩ := List.mem_filterMap.mp hd
    dsimp only at hd
    split at hd
    · cases hd
    · obtain ⟨descriptor, k⟩ := plug
      obtain rfl : descriptor = some d := hd
      exact hlends (.connection k) (List.mem_of_getElem? (List.mk_mem_zipIdx_iff_getElem?.mp hplug))

/-- What its owner gives up is owned by nobody. -/
theorem Titled.given_up (hs : s.Titled) {o : Owner} {d : Nat} (h : s.Withholds s' d)
    (hold : s.Claims (.owner o) d) (hgone : ¬s'.Claims (.owner o) d) :
    (∀ c, ¬s'.Claims c d) ∧ d ∉ s'.owned := by
  have hclaims : ∀ c, ¬s'.Claims c d := fun c hc => by
    obtain rfl := hs.alone c _ d (h.claims c hc) hold
    exact hgone hc
  refine ⟨hclaims, not_owned hclaims fun c hl => ?_⟩
  obtain rfl : Claimant.owner o = c := by
    rcases h.lends c hl with hl | hc
    · exact (hs.lent c d hl).2 _ hold
    · exact hs.alone _ _ d hold hc
  exact hl

/-- What nobody owns or claims is closed at the end of a turn. -/
theorem shut_reap {d : Nat} (hunowned : d ∉ s.owned) (hfree : ∀ c, ¬s.Claims c d) :
    s.reap.system.isOpen d = false := by
  refine Bool.eq_false_iff.mpr fun hopen => ?_
  obtain ⟨hwas, hspared⟩ := (System.isOpen_closeAll ..).mp hopen
  have horphan : d ∈ s.orphans := by
    refine List.mem_filter.mpr ⟨?_, ?_⟩
    · refine List.mem_range.mpr ?_
      unfold System.isOpen at hwas
      split at hwas
      · exact (List.getElem?_eq_some_iff.mp ‹_›).1
      · cases hwas
    · have hqueued : s.system.isQueued d = false := by
        refine Bool.eq_false_iff.mpr fun hqueued => ?_
        obtain ⟨e, -, he⟩ := (System.isQueued_iff ..).mp hqueued
        exact hfree (.line e) he
      simp [hwas, hunowned, hqueued]
  exact (hspared d horphan).1 rfl

end Sockets

section Contract

variable {m : Machine component} [Blank m] {x : Execution m} {d : Nat}

/-- The state after a turn that replies. -/
theorem state_of_exec {m m' : Machine component} {view : View} {act : Action}
    (hcause : m.cause? = some (.exec view act)) (hm : m.advance? = some m')
    {r : Reply Answer} (hnext : (m.state.run view act).next = .reply r) :
    m'.state = (m.state.run view act).state.reap := by
  have hstep := Machine.advance?_config hm
  rw [hcause] at hstep
  rw [← m'.config_state, ← m.config_state]
  rcases hstep.state_cases with hstate | ⟨t, c, w, k, v, ht, hn, -⟩
  · exact hstate
  · cases ht
    rw [m.config_state] at hn
    have hn : (m.state.run view act).next = .perform c w k := hn
    rw [hnext] at hn
    cases hn

/-- Ever since a descriptor was let go of, nobody has it but who is on the way out. -/
theorem tied_now {q : Moment component} (hq : q ∈ x.past) (hd : Shuts q d) :
    x.machine.state.Tied Claimant.Leaving d := by
  have hcause : q.cause ≠ .tick := by
    rcases hd with ⟨h, -⟩ | ⟨h, -⟩ <;> rw [h] <;> nofun
  obtain ⟨past₁, m₁, m₂, past₂, h₁, hm₁, hstep, h₂, -⟩ := x.run.split hq hcause
  obtain ⟨cause, hcause₁, rfl⟩ := Option.map_eq_some_iff.mp hm₁
  have ht := titled ⟨past₁, m₁, h₁⟩
  have hl := lively ⟨past₁, m₁, h₁⟩
  have hw : m₁.state.bench.Wired := by
    have := (recorded ⟨past₁, m₁, h₁⟩).plumbed.wired
    rwa [Machine.config_state] at this
  have onward {t : Sockets} (hy : m₁.state.Yields t) (htied : t.Tied Claimant.Leaving d)
      (hstate : m₂.state = t.reap) : x.machine.state.Tied Claimant.Leaving d := by
    have ht' := hy.deals.titled ht
    refine (deals_of_run h₂).tied ?_ ?_ <;> rw [hstate]
    · exact (Sockets.Yields.reap t).deals.titled ht'
    · exact (Sockets.Yields.reap t).deals.tied ht' htied
  cases hd with
  | @close view id h hq hh hd =>
    obtain rfl : cause = .exec view (.close id) := hq
    have hrun : m₁.state.run view (.close id) =
        (m₁.state.close id h).1.done (m₁.state.close id h).2 := by
      have hh : m₁.state.handle? id = some h := hh
      simp only [Sockets.run, hh]
    refine onward (close_yields hh) (Sockets.tied_close ht hl hw hh hd) ?_
    rw [state_of_exec hcause₁ hstep (r := .done) (by rw [hrun]; rfl), hrun]
    rfl
  | @abort view id a z hq ha hz hslot hd =>
    obtain rfl : cause = .exec view (.abort id) := hq
    have hrun : m₁.state.run view (.abort id) =
        (m₁.state.closeAttempt a).reply (.closing z.closed true) := by
      have ha : m₁.state.calls.lookup id = some a := ha
      have hz : m₁.state.attempts[a]? = some z := hz
      simp [Sockets.run, Sockets.abort, ha, hz, hslot]
    refine onward (.closeAttempt _ a) (Sockets.tied_closeAttempt ht ⟨z, hz, hd⟩) ?_
    rw [state_of_exec hcause₁ hstep (by rw [hrun]; rfl), hrun]
    rfl

/-- At rest nobody is on the way out any more. -/
theorem not_claimed (hrest : x.machine.advance? = none) (htold : x.machine.state.Told)
    (htied : x.machine.state.Tied Claimant.Leaving d) (c : Claimant) :
    ¬x.machine.state.Claims c d := by
  intro hc
  obtain ⟨hleaving, hspent⟩ := htied.2 c hc
  cases c with
  | owner o =>
    cases o with
    | attempt a =>
      obtain ⟨z, hz, hd⟩ := hc
      obtain ⟨z', hz', hclosed⟩ := hspent
      obtain rfl := Option.some.inj (hz.symm.trans hz')
      -- Who has been told to stop could be decided at once.
      have hready := not_ready_of_rest x hrest hz
      cases hp : z.progress <;> cases hprepared : z.prepared <;>
        simp_all [Attempt.descriptor?, Sockets.isAttemptReady]
    | _ => exact hleaving
  | pledge a =>
    obtain ⟨k, ⟨z, hz, hp⟩, -⟩ := hc
    exact htold z (List.mem_of_getElem? hz) _ hp
  | _ => exact hleaving

/-- At rest a loop that waits has the descriptor of its listener. -/
theorem not_waiting (hrest : x.machine.advance? = none)
    (hfree : ∀ c, ¬x.machine.state.Claims c d) {z : Acceptor} (hz : z ∈ x.machine.state.acceptors) :
    z.round ≠ .waiting d := by
  intro hround
  obtain ⟨i, hi⟩ := List.getElem?_of_mem hz
  have hready := (Machine.config_of_settled hrest).2.2
  have hcontract := (ledger x.run.passage).rest hready
    (show x.machine.config.state.acceptors[i]? = some z by rwa [Machine.config_state])
  rw [Machine.config_state] at hcontract
  rcases hcontract with h | ⟨w, h, -⟩ | ⟨l, d', h, hl, -, -, hd', -⟩
  · rw [hround] at h
    cases h
  · rw [hround] at h
    cases h
  · obtain rfl := Round.waiting.inj (hround.symm.trans h)
    exact hfree (.listener z.listener) ⟨l, hl, hd'⟩

/-- At rest a port works with the descriptor of a connection that is open. -/
theorem not_plugged (hrest : x.machine.advance? = none)
    (hfree : ∀ c, ¬x.machine.state.Claims c d) : d ∉ x.machine.state.portDescriptors := by
  intro hd
  obtain ⟨⟨plug, p⟩, hplug, hd⟩ := List.mem_filterMap.mp hd
  have hplug := List.mk_mem_zipIdx_iff_getElem?.mp hplug
  dsimp only at hd
  split at hd
  · cases hd
  · rename_i hkept
    rw [Bool.not_eq_true, Bool.or_eq_false_iff] at hkept
    have hplumbed := (recorded x).plumbed
    have hwired := hplumbed.wired
    rw [Machine.config_state] at hwired
    obtain ⟨y, hy, hfits⟩ := hwired.plugged p plug hplug
    cases hclosed : y.closed with
    | false =>
      have hrun : y.descriptor = some d := (hfits.shared hclosed).1 ▸ hd
      exact hfree (.connection plug.connection)
        ⟨.plug (List.mem_of_getElem? hplug) rfl, y, hy, hrun⟩
    | true =>
      -- The port has been closed, and nothing is left to be done with it.
      have hshut : (x.machine.state.hub.ports[p]?.map (·.closed)).getD true = true :=
        hfits.shut hclosed
      cases hport : x.machine.state.hub.ports[p]? with
      | none =>
        rw [hport] at hkept
        cases hkept.1
      | some port =>
        rw [hport] at hkept hshut
        obtain ⟨hnext, -, hready⟩ := Machine.config_of_settled hrest
        have hreleased : port.released = true := by
          refine hplumbed.sound.released (p := p) ?_ ?_ ?_ hshut
          · rw [pipeDesk, hnext]
            rfl
          · rw [pipeDesk, hready]
            rfl
          · simpa [pipeDesk, Machine.config_state] using hport
        cases hreleased.symm.trans hkept.1

/-- What nobody owns or claims has been closed. -/
theorem shut_of_unowned (hunowned : d ∉ x.machine.state.owned)
    (hfree : ∀ c, ¬x.machine.state.Claims c d) : x.machine.state.system.isOpen d = false := by
  have h := Sockets.shut_reap hunowned hfree
  rwa [(tidied x).reap_eq] at h

theorem free_of_unclaimed (hrest : x.machine.advance? = none)
    (hfree : ∀ c, ¬x.machine.state.Claims c d) : x.machine.state.Free d := by
  have hports := not_plugged hrest hfree
  have hunowned : d ∉ x.machine.state.owned := fun hd => by
    rcases Sockets.claims_of_owned hd with ⟨c, hc⟩ | ⟨z, hz, hround⟩ | hd
    · exact hfree c hc
    · exact not_waiting hrest hfree hz hround
    · exact hports hd
  exact ⟨fun o => hfree (.owner o), fun l => hfree (.listener l), fun z hz =>
    not_waiting hrest hfree hz, fun k hk hr => hfree (.connection k) ⟨hk, hr⟩,
    fun a k hp hr => hfree (.pledge a) ⟨k, hp, hr⟩, hports, hunowned,
    shut_of_unowned hunowned hfree⟩

theorem type_of_present {s : Sockets} {e : Nat} (h : s.Present e) :
    ∃ type, s.system.type? e = some type := by
  obtain ⟨role, hrole⟩ := Option.isSome_iff_exists.mp h
  obtain ⟨y, hy, -⟩ := Option.map_eq_some_iff.mp hrole
  exact ⟨y.type, by simp [System.type?, hy]⟩

/-- Where nobody listens, a connect for a link fails. -/
theorem attempt_refused {s : Sockets} {z : Attempt} (a : Nat) (hp : z.progress = .fresh)
    (htype : ∀ e, z.prepared = .ok e → ∃ type, s.system.type? e = some type ∧
      type ≠ .datagram ∧ ∀ n, ¬s.system.Hears n type z.target) :
    ∃ f, s.attempt z a = (s, some (.error f)) ∧
      ∀ e, z.prepared = .ok e → s.isCancelled z.ticket = false → z.closed = false →
        ∃ error, f = .ofOs .connect error := by
  unfold Sockets.attempt
  cases hprepared : z.prepared with
  | error f => exact ⟨f, rfl, by simp⟩
  | ok e =>
    dsimp only
    split
    · exact ⟨_, rfl, fun _ _ ht => by simp_all⟩
    · split
      · exact ⟨_, rfl, fun _ _ _ hclosed => by simp_all⟩
      · obtain ⟨type, htype, hlink, hnobody⟩ := htype e hprepared
        obtain ⟨error, herror⟩ := System.connect_refused htype hlink hnobody
        have hdial : s.dial z e = (s.system, .error error) := by
          unfold Sockets.dial
          rw [hp, herror]
        refine ⟨.ofOs .connect error, ?_, fun _ _ _ _ => ⟨error, rfl⟩⟩
        rw [hdial]

/-- A closed socket lets go of its descriptor. -/
theorem release_contract {reachable : Bool} {whims : List Whim}
    (x : Execution (opening reachable whims)) {q : Moment component} (hq : q ∈ x.past) {d : Nat}
    (hd : Shuts q d) (hrest : x.machine.advance? = none) (htold : x.machine.state.Told) :
    ReleaseContract x d := by
  have htied := tied_now hq hd
  have hfree := free_of_unclaimed hrest (not_claimed hrest htold htied)
  have hshut (y : Execution x.machine) : y.machine.state.system.isOpen d = false := by
    refine Bool.eq_false_iff.mpr fun hopen => ?_
    have := (deals_of_run y.run).system.shut d htied.1 hopen
    rw [hfree.shut] at this
    cases this
  refine ⟨hfree, hshut, fun y a z hz hp hnobody => ?_⟩
  obtain ⟨f, hf, hconnect⟩ := attempt_refused (s := y.machine.state) a hp fun e he => by
    have howns : y.machine.state.Claims (.owner (.attempt a)) e :=
      ⟨z, hz, by simp [Attempt.descriptor?, hp, he]⟩
    obtain ⟨type, htype⟩ := type_of_present ((titled (x.andThen y)).present _ e howns)
    obtain ⟨hlink, hothers⟩ := hnobody e type he htype
    refine ⟨type, htype, hlink, fun n hn => ?_⟩
    by_cases hnd : n = d
    · have := hn.isOpen
      rw [hnd, hshut y] at this
      cases this
    · exact hothers n hnd hn
  refine ⟨f, ?_, hconnect⟩
  simp only [Sockets.pursue, hz, hp, hf]

end Contract

/-- A listener has two names, and two loops wait on it. It is closed by one of its names; then
somebody comes. -/
def shutServer : Execution (opening false []) :=
  let address : Address := .unix ((UnixPath.ofBytes? [112]).getD .unnamed)
  (ExecutionBy.begin (opening false [])).perform 10
    [.own (.socket "server" false [] default), .own (.bind "server" (.known address) .stream),
      .own (.listen "server" 1), .own (.copy "other" "server"), .own (.accept "server" "first" ""),
      .own (.accept "other" "second" ""), .own (.close "other"),
      .own (.socket "client" false [] default),
      .own (.connect "client" (.known address) .stream none "")]

set_option maxRecDepth 8000 in
theorem release_contract_server :
    shutServer.machine.state.acceptors.length = 2 ∧ shutServer.machine.state.handles.length = 2 ∧
    shutServer.machine.state.attempts.map (·.progress) =
      [.delivered (.error (.ofOs .connect (.number 111)))] ∧
    ReleaseContract shutServer 0 := by
  refine ⟨rfl, rfl, rfl, release_contract shutServer (List.mem_of_getElem? (i := 8) rfl) ?_ rfl ?_⟩
  · exact .close rfl rfl (.listening rfl ⟨_, rfl, rfl⟩)
  · rintro x (_ | ⟨_, ⟨⟩⟩) o h
    cases h

end Conduit.Socket
