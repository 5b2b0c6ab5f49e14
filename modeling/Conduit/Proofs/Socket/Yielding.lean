import Conduit.Proofs.Pipe.Sound
import Conduit.Proofs.Socket.Claims

/-!
What gives no claim to anybody. Most of what is done to names, slots, loops, connections and ports
leaves descriptors with those who have them, or takes them away.
-/

namespace Conduit.Socket

open Dispatch
open Kernel (System)
open Pipe.Desk (getElem?_concat)

/-- All that claims to descriptors depend on, besides the system. -/
structure Estate where
  handles : List (String × Handle)
  slots : List Stage
  listeners : List Listener
  connections : List Connection
  attempts : List Attempt
  acceptors : List Acceptor
  plugs : List Plug

namespace Sockets

variable {s s' : Sockets}

def estate (s : Sockets) : Estate :=
  ⟨s.handles, s.slots, s.listeners, s.connections, s.attempts, s.acceptors, s.plugs⟩

namespace Yields

theorem of_estate (he : s'.estate = s.estate) (hsystem : s.system.Thins s'.system) :
    s.Yields s' := by
  have hhandles : s'.handles = s.handles := congrArg Estate.handles he
  have hslots : s'.slots = s.slots := congrArg Estate.slots he
  have hlisteners : s'.listeners = s.listeners := congrArg Estate.listeners he
  have hconnections : s'.connections = s.connections := congrArg Estate.connections he
  have hattempts : s'.attempts = s.attempts := congrArg Estate.attempts he
  have hacceptors : s'.acceptors = s.acceptors := congrArg Estate.acceptors he
  have hplugs : s'.plugs = s.plugs := congrArg Estate.plugs he
  refine ⟨hsystem, .of_eq hhandles hslots hattempts, fun l d h => ?_, fun k d h => ?_,
    fun a k h => ?_, fun k h => ?_, Nat.le_of_eq (by rw [hconnections]), fun c d h => .inl ?_,
    fun c h => ?_, fun h => ⟨fun i p hp => ?_, fun i a ha => ?_⟩⟩
  · rwa [ListensOn, hlisteners] at h
  · rwa [RunsOn, hconnections] at h
  · rwa [Pledges, hattempts] at h
  · exact h.of_eq hhandles hslots hattempts hacceptors hplugs
  · cases c <;> simp only [Lends, hacceptors, hplugs] at h ⊢ <;> exact h
  · cases c with
    | owner o =>
      cases o with
      | attempt a =>
        simp only [Spent, hattempts] at h ⊢
        exact h
      | _ => exact h
    | pledge a =>
      simp only [Spent, hattempts, hslots] at h ⊢
      exact h
    | _ => exact h
  · exact h.unbound i p (hslots ▸ hp)
  · simpa [hattempts] using h.connecting i a (hslots ▸ ha)

theorem withSystem {system : System} (h : s.system.Thins system) : s.Yields { s with system } :=
  of_estate rfl h

theorem same (he : s'.estate = s.estate) (hsystem : s'.system = s.system) : s.Yields s' :=
  of_estate he (hsystem ▸ .refl _)

theorem reap (s : Sockets) : s.Yields s.reap := withSystem (System.closeAll_thins ..)

/-! ### Names and slots -/

theorem bindHandle (s : Sockets) (id : String) {h : Handle}
    (hheld : ∀ st, h = .sole st → st.held? = none)
    (hreach : ∀ k, h = .sole (.connected k) → s.Reaches k) : s.Yields (s.bindHandle id h) where
  system := .refl _
  owns := .bindHandle s id hheld
  listens _ _ h := h
  runs _ _ h := h
  pledges _ _ h := h
  reaches k hk := by
    cases hk with
    | slot h => exact .slot h
    | name hmem =>
      rcases List.mem_cons.mp hmem with hmem | hmem
      · exact hreach k (Prod.mk.inj hmem).2.symm
      · exact .name (List.mem_filter.mp hmem).1
    | outcome h hx => exact .outcome h hx
    | arrival h hx => exact .arrival h hx
    | plug h hk => exact .plug h hk
  grows := Nat.le_refl _
  lends _ _ := .inl
  spent _ h := h
  lively h := ⟨h.unbound, h.connecting⟩

theorem bindShared (s : Sockets) (id : String) (i : Nat) : s.Yields (s.bindHandle id (.shared i)) :=
  bindHandle s id (by simp) (by simp)

theorem bindSole (s : Sockets) (id : String) {st : Stage} (hheld : st.held? = none)
    (hreach : ∀ k, st = .connected k → s.Reaches k) : s.Yields (s.bindHandle id (.sole st)) :=
  bindHandle s id (fun _ h => Handle.sole.inj h ▸ hheld) fun k h => hreach k (Handle.sole.inj h)

theorem forget (s : Sockets) (id : String) : s.Yields (s.forget id) where
  system := .refl _
  owns := .forget s id
  listens _ _ h := h
  runs _ _ h := h
  pledges _ _ h := h
  reaches k hk := by
    cases hk with
    | slot h => exact .slot h
    | name hmem => exact .name (List.mem_filter.mp hmem).1
    | outcome h hx => exact .outcome h hx
    | arrival h hx => exact .arrival h hx
    | plug h hk => exact .plug h hk
  grows := Nat.le_refl _
  lends _ _ := .inl
  spent _ h := h
  lively h := ⟨h.unbound, h.connecting⟩

theorem keep (s : Sockets) (name : Option String) {k : Nat} (hk : s.Reaches k) :
    s.Yields (s.keep name k) := by
  cases name with
  | none => exact refl s
  | some name =>
    refine bindSole s name rfl fun j hj => ?_
    obtain rfl := Stage.connected.inj hj
    exact hk

theorem fail (s : Sockets) (id : String) (h : Handle) (f : Fault) :
    s.Yields (s.fail id h f).state := by
  cases h with
  | sole st => exact forget s id
  | shared i => exact refl s

theorem held?_of_isLate {st : Stage} (h : st.isLate = true) : st.held? = none := by
  cases st <;> first | rfl | cases h

/-- A closed slot stays closed when another slot is set, or it itself is closed. -/
theorem closed_set {i j : Nat} {st : Stage} (hclosed : s.slots[i]? = some .closed → st = .closed)
    (hj : s.slots[j]? = some .closed) : (s.slots.set i st)[j]? = some .closed := by
  rw [List.getElem?_set]
  split
  · rename_i hij
    subst hij
    rw [if_pos (List.getElem?_eq_some_iff.mp hj).1, hclosed hj]
  · exact hj

theorem spent_setSlot {i : Nat} {st : Stage} (hclosed : s.slots[i]? = some .closed → st = .closed)
    {c : Claimant} (h : s.Spent c) : Spent { s with slots := s.slots.set i st } c := by
  cases c with
  | pledge a =>
    obtain ⟨x, j, hx, hslot, hj⟩ := h
    exact ⟨x, j, hx, hslot, closed_set hclosed hj⟩
  | owner o => cases o <;> exact h
  | _ => exact h

theorem setSlot (s : Sockets) (i : Nat) {st : Stage} (hlate : st.isLate = true)
    (hreach : ∀ k, st = .connected k → s.Reaches k)
    (hclosed : s.slots[i]? = some .closed → st = .closed) :
    s.Yields { s with slots := s.slots.set i st } where
  system := .refl _
  owns := .setSlot s i (held?_of_isLate hlate)
  listens _ _ h := h
  runs _ _ h := h
  pledges _ _ h := h
  reaches k hk := by
    cases hk with
    | slot hmem => exact (List.mem_or_eq_of_mem_set hmem).elim .slot fun he => hreach k he.symm
    | name h => exact .name h
    | outcome h hx => exact .outcome h hx
    | arrival h hx => exact .arrival h hx
    | plug h hk => exact .plug h hk
  grows := Nat.le_refl _
  lends _ _ := .inl
  spent _ := spent_setSlot hclosed
  lively h := by
    have old {j : Nat} {st' : Stage} (hst' : st'.isLate = false)
        (hj : (s.slots.set i st)[j]? = some st') : s.slots[j]? = some st' := by
      rw [List.getElem?_set] at hj
      split at hj
      · split at hj
        · cases hj
          exact absurd (hlate.symm.trans hst') nofun
        · cases hj
      · exact hj
    exact ⟨fun j p hj => h.unbound j p (old rfl hj), fun j a hj => h.connecting j a (old rfl hj)⟩

theorem closeSlot (s : Sockets) (i : Nat) : s.Yields { s with slots := s.slots.set i .closed } :=
  setSlot s i rfl nofun fun _ => rfl

/-- A new slot. -/
theorem openSlot (s : Sockets) (p : Plan) (hp : p.closed = false) :
    s.Yields { s with slots := s.slots ++ [.unbound p] } where
  system := .refl _
  owns o d ho := by
    cases o with
    | slot i =>
      obtain ⟨st, hst, hd⟩ := ho
      rcases getElem?_concat.mp hst with hst | ⟨-, rfl⟩
      · exact ⟨st, hst, hd⟩
      · cases hd
    | _ => exact ho
  listens _ _ h := h
  runs _ _ h := h
  pledges _ _ h := h
  reaches k hk := by
    cases hk with
    | slot hmem => exact .slot (by simpa using hmem)
    | name h => exact .name h
    | outcome h hx => exact .outcome h hx
    | arrival h hx => exact .arrival h hx
    | plug h hk => exact .plug h hk
  grows := Nat.le_refl _
  lends _ _ := .inl
  spent c h := by
    cases c with
    | pledge a =>
      obtain ⟨x, i, hx, hslot, hi⟩ := h
      exact ⟨x, i, hx, hslot, getElem?_concat.mpr (.inl hi)⟩
    | owner o => cases o <;> exact h
    | _ => exact h
  lively h := by
    refine ⟨fun i q hi => ?_, fun i a hi => ?_⟩
    · rcases getElem?_concat.mp hi with hi | ⟨-, hq⟩
      · exact h.unbound i q hi
      · exact Stage.unbound.inj hq ▸ hp
    · rcases getElem?_concat.mp hi with hi | ⟨-, ha⟩
      · exact h.connecting i a hi
      · cases ha

/-! ### Listeners and loops -/

theorem closeListener (s : Sockets) (l : Nat) : s.Yields (s.closeListener l) where
  system := .refl _
  owns := .refl s
  listens k d h := by
    obtain ⟨y, hy, hd⟩ := h
    have hy : (s.listeners.modify l _)[k]? = some y := hy
    rw [List.getElem?_modify] at hy
    obtain ⟨z, hz, rfl⟩ := Option.map_eq_some_iff.mp hy
    split at hd
    · cases hd
    · exact ⟨z, hz, hd⟩
  runs _ _ h := h
  pledges _ _ h := h
  reaches _ h := h.of_eq rfl rfl rfl rfl rfl
  grows := Nat.le_refl _
  lends _ _ := .inl
  spent _ h := h
  lively h := ⟨h.unbound, h.connecting⟩

/-- A loop changes, and has nothing in hand that its listener has not, nor a new outcome. -/
theorem modifyAcceptor (s : Sockets) (c : Nat) {f : Acceptor → Acceptor}
    (hlistener : ∀ x, (f x).listener = x.listener)
    (hround : ∀ x, s.acceptors[c]? = some x → ∀ d, (f x).round = .waiting d →
      x.round = .waiting d ∨ s.ListensOn x.listener d)
    (hbears : ∀ x, s.acceptors[c]? = some x → ∀ k, (f x).Bears k → x.Bears k) :
    s.Yields (s.modifyAcceptor c f) := by
  have old {x : Acceptor} (hx : x ∈ s.acceptors.modify c f) :
      x ∈ s.acceptors ∨ ∃ y, s.acceptors[c]? = some y ∧ x = f y := by
    obtain ⟨i, hi⟩ := List.getElem?_of_mem hx
    rw [List.getElem?_modify] at hi
    obtain ⟨y, hy, rfl⟩ := Option.map_eq_some_iff.mp hi
    split
    · rename_i hci
      exact .inr ⟨y, hci ▸ hy, rfl⟩
    · exact .inl (List.mem_of_getElem? hy)
  exact {
    system := .refl _
    owns := .refl s
    listens := fun _ _ => id
    runs := fun _ _ => id
    pledges := fun _ _ => id
    reaches := fun k hk => by
      cases hk with
      | slot h => exact .slot h
      | name h => exact .name h
      | outcome h hx => exact .outcome h hx
      | arrival h hx =>
        rcases old h with h | ⟨y, hy, rfl⟩
        · exact .arrival h hx
        · exact .arrival (List.mem_of_getElem? hy) (hbears y hy k hx)
      | plug h hk => exact .plug h hk
    grows := Nat.le_refl _
    lends := fun b d h => by
      cases b with
      | listener l =>
        obtain ⟨x, hx, rfl, hd⟩ := h
        rcases old hx with hx | ⟨y, hy, rfl⟩
        · exact .inl ⟨x, hx, rfl, hd⟩
        · rw [hlistener]
          exact (hround y hy d hd).imp (fun hd => ⟨y, List.mem_of_getElem? hy, rfl, hd⟩) id
      | _ => exact .inl h
    spent := fun _ => id
    lively := fun h => ⟨h.unbound, h.connecting⟩ }

/-- A loop loses outcomes, and stays where it is. -/
theorem modifyOutcomes (s : Sockets) (c : Nat) {f : Acceptor → Acceptor}
    (hlistener : ∀ x, (f x).listener = x.listener) (hround : ∀ x, (f x).round = x.round)
    (hbears : ∀ x, s.acceptors[c]? = some x → ∀ k, (f x).Bears k → x.Bears k) :
    s.Yields (s.modifyAcceptor c f) :=
  modifyAcceptor s c hlistener (fun x _ _ hd => .inl (hround x ▸ hd)) hbears

/-- A loop that does not wait tells of a failure. -/
theorem emit (s : Sockets) (c : Nat) (f : Fault) {round : Round}
    (hround : ∀ d, round ≠ .waiting d) :
    s.Yields (s.emit c (.error f) round) := by
  refine modifyAcceptor s c (fun _ => rfl) (fun x _ d hd => absurd hd (hround d)) fun x _ k hk => ?_
  simpa [Acceptor.Bears] using hk

theorem addAcceptor (s : Sockets) (id : String) {x : Acceptor} (hround : x.round = .fresh)
    (hunderway : x.underway = []) (harrived : x.arrived = []) :
    s.Yields (s.addAcceptor id x) where
  system := .refl _
  owns := .refl s
  listens _ _ h := h
  runs _ _ h := h
  pledges _ _ h := h
  reaches k hk := by
    cases hk with
    | slot h => exact .slot h
    | name h => exact .name h
    | outcome h hx => exact .outcome h hx
    | arrival h hy =>
      rcases List.mem_append.mp h with h | h
      · exact .arrival h hy
      · obtain rfl := List.mem_singleton.mp h
        simp [Acceptor.Bears, hunderway, harrived] at hy
    | plug h hk => exact .plug h hk
  grows := Nat.le_refl _
  lends c d h := by
    cases c with
    | listener l =>
      obtain ⟨y, hy, hl, hd⟩ := h
      rcases List.mem_append.mp hy with hy | hy
      · exact .inl ⟨y, hy, hl, hd⟩
      · obtain rfl := List.mem_singleton.mp hy
        rw [hround] at hd
        cases hd
    | _ => exact .inl h
  spent _ h := h
  lively h := ⟨h.unbound, h.connecting⟩

/-! ### Attempts -/

section ModifyAttempt

variable {a : Nat} {f : Attempt → Attempt}

theorem kept_modifyAttempt (hslot : ∀ x, (f x).slot = x.slot)
    (hclosed : ∀ x, x.closed = true → (f x).closed = true) {b : Nat} {x : Attempt}
    (hx : s.attempts[b]? = some x) : ∃ x', (s.attempts.modify a f)[b]? = some x' ∧
      x'.slot = x.slot ∧ (x.closed = true → x'.closed = true) := by
  refine ⟨if a = b then f x else x, by rw [List.getElem?_modify, hx]; rfl, ?_⟩
  split
  · exact ⟨hslot x, hclosed x⟩
  · exact ⟨rfl, id⟩

theorem spent_modifyAttempt (hslot : ∀ x, (f x).slot = x.slot)
    (hclosed : ∀ x, x.closed = true → (f x).closed = true) {c : Claimant} (h : s.Spent c) :
    Spent { s with attempts := s.attempts.modify a f } c := by
  cases c with
  | owner o =>
    cases o with
    | attempt b =>
      obtain ⟨x, hx, hc⟩ := h
      obtain ⟨x', hx', -, hc'⟩ := kept_modifyAttempt hslot hclosed hx
      exact ⟨x', hx', hc' hc⟩
    | _ => exact h
  | pledge b =>
    obtain ⟨x, i, hx, hi, hst⟩ := h
    obtain ⟨x', hx', hi', -⟩ := kept_modifyAttempt hslot hclosed hx
    exact ⟨x', i, hx', hi'.trans hi, hst⟩
  | _ => exact h

theorem lively_modifyAttempt (hslot : ∀ x, (f x).slot = x.slot)
    (hclosed : ∀ x, x.closed = true → (f x).closed = true) (h : s.Lively) :
    Lively { s with attempts := s.attempts.modify a f } where
  unbound := h.unbound
  connecting i b hb := by
    obtain ⟨x, hx, hi⟩ := h.connecting i b hb
    obtain ⟨x', hx', hi', -⟩ := kept_modifyAttempt hslot hclosed hx
    exact ⟨x', hx', hi'.trans hi⟩

end ModifyAttempt

/-- Who has come to a pledge by way of the progress of an attempt. -/
theorem pledges_setProgress {a b k : Nat} {p : Progress} (h : (s.setProgress a p).Pledges b k) :
    b = a ∧ p = .decided (.ok k) ∨ b ≠ a ∧ s.Pledges b k := by
  obtain ⟨x, hx, hp⟩ := h
  have hx : (s.attempts.modify a fun x => { x with progress := p })[b]? = some x := hx
  rw [List.getElem?_modify] at hx
  obtain ⟨y, hy, rfl⟩ := Option.map_eq_some_iff.mp hx
  split at hp
  · rename_i hab
    exact .inl ⟨hab.symm, hp⟩
  · rename_i hab
    exact .inr ⟨Ne.symm hab, y, hy, hp⟩

theorem reaches_setProgress {a k : Nat} {p : Progress} (h : (s.setProgress a p).Reaches k) :
    p = .delivered (.ok k) ∨ s.Reaches k := by
  cases h with
  | slot h => exact .inr (.slot h)
  | name h => exact .inr (.name h)
  | outcome h hx =>
    obtain ⟨b, hb⟩ := List.getElem?_of_mem h
    have hb : (s.attempts.modify a fun x => { x with progress := p })[b]? = _ := hb
    rw [List.getElem?_modify] at hb
    obtain ⟨y, hy, rfl⟩ := Option.map_eq_some_iff.mp hb
    split at hx
    · exact .inl hx
    · exact .inr (.outcome (List.mem_of_getElem? hy) hx)
  | arrival h hx => exact .inr (.arrival h hx)
  | plug h hk => exact .inr (.plug h hk)

theorem spent_setProgress {a : Nat} {p : Progress} {c : Claimant} (h : s.Spent c) :
    (s.setProgress a p).Spent c :=
  spent_modifyAttempt (f := fun x => { x with progress := p }) (fun _ => rfl) (fun _ h => h) h

theorem lively_setProgress {a : Nat} {p : Progress} (h : s.Lively) : (s.setProgress a p).Lively :=
  lively_modifyAttempt (f := fun x => { x with progress := p }) (fun _ => rfl) (fun _ h => h) h

/-- An attempt that is told to stop stays where it is. -/
theorem closeAttempt (s : Sockets) (a : Nat) : s.Yields (s.closeAttempt a) where
  system := .refl _
  owns := .modifyAttempt s a fun _ _ _ h => h
  listens _ _ h := h
  runs _ _ h := h
  pledges b k h := by
    obtain ⟨x, hx, hp⟩ := h
    have hx : (s.attempts.modify a fun x => { x with closed := true })[b]? = some x := hx
    rw [List.getElem?_modify] at hx
    obtain ⟨y, hy, rfl⟩ := Option.map_eq_some_iff.mp hx
    exact ⟨y, hy, by split at hp <;> exact hp⟩
  reaches k h := by
    cases h with
    | slot h => exact .slot h
    | name h => exact .name h
    | outcome h hx =>
      obtain ⟨b, hb⟩ := List.getElem?_of_mem h
      have hb : (s.attempts.modify a fun x => { x with closed := true })[b]? = _ := hb
      rw [List.getElem?_modify] at hb
      obtain ⟨y, hy, rfl⟩ := Option.map_eq_some_iff.mp hb
      exact .outcome (List.mem_of_getElem? hy) (by split at hx <;> exact hx)
    | arrival h hx => exact .arrival h hx
    | plug h hk => exact .plug h hk
  grows := Nat.le_refl _
  lends _ _ := .inl
  spent _ := spent_modifyAttempt (f := fun x => { x with closed := true }) (fun _ => rfl)
    fun _ _ => rfl
  lively := lively_modifyAttempt (fun _ => rfl) fun _ _ => rfl

/-- An attempt goes on to wait, or is over without a connection. -/
theorem setProgress (s : Sockets) (a : Nat) {p : Progress}
    (howns : ∀ (x : Attempt) d, s.attempts[a]? = some x →
      { x with progress := p }.descriptor? = some d → x.descriptor? = some d)
    (hdecided : ∀ k, p ≠ .decided (.ok k)) (hdelivered : ∀ k, p ≠ .delivered (.ok k)) :
    s.Yields (s.setProgress a p) where
  system := .refl _
  owns := .modifyAttempt s a howns
  listens _ _ h := h
  runs _ _ h := h
  pledges _ k h := (pledges_setProgress h).elim (fun h => absurd h.2 (hdecided k)) (·.2)
  reaches k h := (reaches_setProgress h).elim (fun h => absurd h (hdelivered k)) id
  grows := Nat.le_refl _
  lends _ _ := .inl
  spent _ := spent_setProgress
  lively := lively_setProgress

/-- An attempt is over without a connection. -/
theorem endAttempt (s : Sockets) (a : Nat) {p : Progress} (hopen : p.isOpen = false)
    (hdecided : ∀ k, p ≠ .decided (.ok k)) (hdelivered : ∀ k, p ≠ .delivered (.ok k)) :
    s.Yields (s.setProgress a p) := by
  refine setProgress s a (fun x d _ hd => ?_) hdecided hdelivered
  cases p <;> simp_all [Attempt.descriptor?, Progress.isOpen]

/-! ### Connections and ports -/

theorem closePorts (s : Sockets) (ps : List Nat) : s.Yields (s.closePorts ps).1 := by
  obtain ⟨hub, h⟩ := s.closePorts_eq ps
  rw [h]
  exact same rfl rfl

/-- A connection changes, and has no descriptor that it had not. -/
theorem setConnection (s : Sockets) (k : Nat) {x : Connection}
    (hx : ∀ d, x.descriptor = some d → s.RunsOn k d) :
    s.Yields { s with connections := s.connections.set k x } where
  system := .refl _
  owns := .refl s
  listens _ _ h := h
  runs j d h := by
    obtain ⟨y, hy, hd⟩ := h
    rw [List.getElem?_set] at hy
    split at hy
    · rename_i hkj
      split at hy
      · cases hy
        exact hkj ▸ hx d hd
      · cases hy
    · exact ⟨y, hy, hd⟩
  pledges _ _ h := h
  reaches _ h := h.of_eq rfl rfl rfl rfl rfl
  grows := Nat.le_of_eq (List.length_set ..).symm
  lends _ _ := .inl
  spent _ h := h
  lively h := ⟨h.unbound, h.connecting⟩

theorem closeConnection (s : Sockets) (k : Nat) : s.Yields (s.closeConnection k).1 := by
  unfold Sockets.closeConnection
  split
  · exact refl s
  · split
    · exact refl s
    · rename_i x _ _
      obtain ⟨hub, h⟩ := s.closePorts_eq (x.pipes.flatMap fun p => [p.1, p.2])
      dsimp only
      rw [h]
      have hhub : s.Yields { s with hub } := same rfl rfl
      have hset := setConnection { s with hub } k
        (x := { x with closed := true, descriptor := none, pipes := [] }) nofun
      refine (hhub.trans hset).trans ?_
      refine of_estate rfl ?_
      dsimp only
      split
      · exact (System.shutdown_retains ..).thins
      · exact .refl _

/-- A port is plugged into the descriptor of a connection that can be reached. -/
theorem addPort (s : Sockets) {k : Nat} {o : Option Nat} (chunk : Nat) (hk : s.Reaches k)
    (ho : ∀ d, o = some d → s.RunsOn k d) : s.Yields (s.addPort k o chunk) where
  system := .refl _
  owns := .refl s
  listens _ _ h := h
  runs _ _ h := h
  pledges _ _ h := h
  reaches j hj := by
    cases hj with
    | slot h => exact .slot h
    | name h => exact .name h
    | outcome h hx => exact .outcome h hx
    | arrival h hx => exact .arrival h hx
    | plug h hp =>
      rcases List.mem_append.mp h with h | h
      · exact .plug h hp
      · obtain rfl := List.mem_singleton.mp h
        exact hp ▸ hk
  grows := Nat.le_refl _
  lends c d h := by
    cases c with
    | connection j =>
      rcases List.mem_append.mp h with h | h
      · exact .inl h
      · obtain ⟨hd, rfl⟩ := Plug.mk.inj (List.mem_singleton.mp h)
        exact .inr ⟨hk, ho d hd.symm⟩
    | _ => exact .inl h
  spent _ h := h
  lively h := ⟨h.unbound, h.connecting⟩

theorem addPipe (s : Sockets) (id : String) {k : Nat} (hk : s.Reaches k) :
    s.Yields (s.addPipe id k).1 := by
  unfold Sockets.addPipe
  split
  · exact refl s
  · rename_i x hx
    have runs {d : Nat} (hd : x.descriptor = some d) : s.RunsOn k d := ⟨x, hx, hd⟩
    have hread := addPort s x.limits.read hk fun _ => runs
    have hreach : (s.addPort k x.descriptor x.limits.read).Reaches k :=
      .plug (List.mem_append_right _ List.mem_cons_self) rfl
    have hports := hread.trans (addPort _ x.limits.write hreach fun _ => runs)
    dsimp only
    split
    · refine Yields.trans ?_ (closePorts _ _)
      exact hports.trans (same rfl rfl)
    · refine (hports.trans (setConnection _ k ?_)).trans (same rfl rfl)
      exact fun d => runs

end Yields

end Sockets

end Conduit.Socket
