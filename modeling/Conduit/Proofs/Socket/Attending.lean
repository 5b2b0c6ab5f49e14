import Conduit.Proofs.Socket.Hall

/-!
The turns of accept loops. A loop that goes on makes one attempt to accept, unless it is to end or to
rest; what it takes from the line it reports. Nobody's descriptor is closed under the feet of those who
listen with it.
-/

namespace Conduit.Socket

open Dispatch
open Kernel (System)

/-- The descriptor of a listener that is used is not closed for want of an owner. -/
theorem Sockets.reap_spares {s : Sockets} (hs : s.Grounded) {k d : Nat} {y : Listener}
    (hk : s.listeners[k]? = some y) (hd : y.descriptor = some d) (huses : s.usesListener k = true)
    (hlistens : s.system.Listens d) (hopen : s.system.isOpen d = true) :
    s.reap.system.isOpen d = true := by
  -- It is neither one of those that are closed nor in line for one of them.
  refine (System.isOpen_closeAll ..).mpr ⟨hopen, fun o ho => ⟨?_, fun hline => ?_⟩⟩
  · rintro rfl
    have howned : d ∈ s.owned := by
      have hmem : d ∈ s.listeners.zipIdx.filterMap fun p =>
          if s.usesListener p.2 then p.1.descriptor else none :=
        List.mem_filterMap.mpr ⟨(y, k), List.mk_mem_zipIdx_iff_getElem?.mpr hk, by simp [huses, hd]⟩
      simp only [owned, List.mem_append]
      exact .inl (.inl (.inl (.inl (.inr hmem))))
    have := (List.mem_filter.mp ho).2
    simp [howned] at this
  · obtain ⟨r, hr, hdeaf⟩ := hs.lined o d hline
    obtain ⟨room, queue, h⟩ := hlistens
    obtain rfl : r = .listening room queue := Option.some.inj (hr.symm.trans h)
    cases hdeaf

/-- A loop that is taken up again at this time does something. -/
def Sockets.Due (s : Sockets) (x : Acceptor) : Prop :=
  match x.round with
  | .ended => False
  | .resting w => w ≤ s.clock
  | .fresh | .waiting _ => True

/-- What a loop `x` of a listener `l` comes to when it is taken up again: what it reports, whom it
takes from the line, and where it stands then. -/
inductive Attends (s : Sockets) (x : Acceptor) (l : Listener) :
    Option Outcome → Option Nat → Round → Prop where
  | idle (h : ¬s.Due x) : Attends s x l none none x.round
  | quits (h : s.Due x) (hs : x.stopped = true) : Attends s x l none none .ended
  | closes (h : s.Due x) (hs : x.stopped = false) (hl : l.closed = true) :
      Attends s x l (some (.error .closed)) none .ended
  | waits {d again} (h : s.Due x) (hs : x.stopped = false) (hl : l.closed = false)
      (hd : l.descriptor = some d) (ha : (Calls.accept s.system d).2 = .pending again) :
      Attends s x l none none (.waiting d)
  | takes {d e system} (h : s.Due x) (hs : x.stopped = false) (hl : l.closed = false)
      (hd : l.descriptor = some d) (ha : Calls.accept s.system d = (system, .ready (.ok e)))
      (hw : system.heed.2 = .ok ()) :
      Attends s x l (some (.ok s.connections.length)) (some e) .fresh
  | loses {d e system f} (h : s.Due x) (hs : x.stopped = false) (hl : l.closed = false)
      (hd : l.descriptor = some d) (ha : Calls.accept s.system d = (system, .ready (.ok e)))
      (hw : system.heed.2 = .error f) :
      Attends s x l (some (.error (.ofOs .accept f))) (some e) .fresh
  | fails {d e} (h : s.Due x) (hs : x.stopped = false) (hl : l.closed = false)
      (hd : l.descriptor = some d) (ha : (Calls.accept s.system d).2 = .ready (.error e)) :
      Attends s x l (some (.error (.ofOs .accept e))) none (.resting (s.clock + Sockets.restTime))

/-- The connection to whom a loop has taken from the line, if that is what it reports. -/
def Listener.gains (l : Listener) : Option Outcome → Option Nat → List Connection
  | some (.ok _), some e => [{ descriptor := some e, limits := l.limits }]
  | _, _ => []

@[simp] theorem Listener.gains_none (l : Listener) (o : Option Outcome) : l.gains o none = [] := by
  unfold gains
  split
  · contradiction
  · rfl

/-- What a loop leaves behind that comes to this: its own record, and the connection to whom it has
taken, have changed. -/
structure Leaves (s : Sockets) (i : Nat) (x : Acceptor) (l : Listener) (o : Option Outcome)
    (taken : Option Nat) (round : Round) (s' : Sockets) : Prop where
  state : ∃ system, s' = { s with
    system
    connections := s.connections ++ l.gains o taken
    acceptors := s.acceptors.set i { x with round, underway := x.underway ++ o.toList } }
  /-- The one who is taken was the first in line. -/
  lines : ∀ d, s.system.line d =
    (if l.descriptor = some d then taken.toList else []) ++ s'.system.line d
  /-- The descriptor of a listener stays open as long as somebody uses the listener. -/
  spares : ∀ k y d, s'.listeners[k]? = some y → y.descriptor = some d → s'.usesListener k = true →
    s'.system.Listens d → s.system.isOpen d = true → s'.system.isOpen d = true

/-- Only the record of the loop changes. -/
theorem Leaves.of_record {s s' : Sockets} {i : Nat} {x : Acceptor} {l : Listener}
    {o : Option Outcome} {round : Round} (h : s' = { s with
      acceptors := s.acceptors.set i { x with round, underway := x.underway ++ o.toList } }) :
    Leaves s i x l o none round s' := by
  subst h
  exact ⟨⟨s.system, by simp⟩, fun d => by simp, fun _ _ _ _ _ _ _ => id⟩

/-- The loop has made an attempt to accept. -/
theorem Leaves.of_admits {s s' : Sockets} {i : Nat} {x : Acceptor} {l : Listener}
    {o : Option Outcome} {taken : Option Nat} {round : Round} {d : Nat} {system : System}
    (hd : l.descriptor = some d) (h : s.system.Admits d taken system) (hs : s' = { s with
      system
      connections := s.connections ++ l.gains o taken
      acceptors := s.acceptors.set i { x with round, underway := x.underway ++ o.toList } }) :
    Leaves s i x l o taken round s' := by
  subst hs
  refine ⟨⟨system, rfl⟩, fun d' => ?_, fun _ _ d' _ _ _ _ hopen => (h.isOpen d').trans hopen⟩
  simp only [hd, Option.some.injEq]
  exact h.line d'

/-- What nobody owns is closed at the end of the turn. -/
theorem Leaves.reap {s s' : Sockets} {i : Nat} {x : Acceptor} {l : Listener} {o : Option Outcome}
    {taken : Option Nat} {round : Round} (h : Leaves s i x l o taken round s') (hs : s'.Grounded) :
    Leaves s i x l o taken round s'.reap := by
  obtain ⟨⟨system, hstate⟩, hlines, hspares⟩ := h
  have hrole (d : Nat) : s'.reap.system.role? d = s'.system.role? d := System.role?_closeAll ..
  refine ⟨⟨s'.reap.system, ?_⟩, fun d => ?_, fun k y d hk hd huses hlistens hopen => ?_⟩
  · subst hstate
    rfl
  · rw [System.line_eq (hrole d)]
    exact hlines d
  · have hlistens' : s'.system.Listens d := by
      obtain ⟨room, queue, h⟩ := hlistens
      exact ⟨room, queue, (hrole d).symm.trans h⟩
    exact Sockets.reap_spares hs hk hd huses hlistens' (hspares k y d hk hd huses hlistens' hopen)

/-- Whether the next round follows at once. -/
def Round.isFresh : Round → Bool
  | .fresh => true
  | _ => false

/-- How the loop goes on with what it reports. -/
def Acceptor.reports (x : Acceptor) (i : Nat) (round : Round) : Option Outcome → Next signature
  | none => .reply .done
  | some _ => .perform x.context (.announce i) (if round.isFresh then [.attend i] else [])

namespace Sockets

variable {s : Sockets} {i : Nat} {x : Acceptor} {l : Listener}

/-- The turn of a loop that has made its move. -/
def moved (x : Acceptor) (i : Nat) (t : Sockets × Move) : Turn signature :=
  match t.2 with
  | .idle => { state := t.1 }
  | .tell => { state := t.1, next := .perform x.context (.announce i) [] }
  | .tellAndGoOn => { state := t.1, next := .perform x.context (.announce i) [.attend i] }

/-- What a loop comes to in a turn. -/
def ComesTo (s : Sockets) (i : Nat) (x : Acceptor) (l : Listener) (t : Turn signature) : Prop :=
  ∃ o taken round, Attends s x l o taken round ∧ Leaves s i x l o taken round t.state ∧
    t.next = x.reports i round o

theorem modifyAcceptor_eq (hx : s.acceptors[i]? = some x) (f : Acceptor → Acceptor) :
    s.modifyAcceptor i f = { s with acceptors := s.acceptors.set i (f x) } := by
  have : Inhabited Acceptor := ⟨x⟩
  unfold modifyAcceptor
  rw [List.modify_eq_set, hx]
  rfl

theorem attendTurn_eq (hx : s.acceptors[i]? = some x) : s.attendTurn i = moved x i (s.attend i) := by
  unfold attendTurn moved
  rw [hx]
  cases s.attend i with
  | mk t m => cases m <;> rfl

theorem emit_eq (hx : s.acceptors[i]? = some x) (o : Outcome) (round : Round) :
    s.emit i o round = { s with
      acceptors := s.acceptors.set i { x with round, underway := x.underway ++ [o] } } :=
  modifyAcceptor_eq hx _

theorem setRound_eq (hx : s.acceptors[i]? = some x) (round : Round) :
    s.modifyAcceptor i (fun x => { x with round }) = { s with
      acceptors := s.acceptors.set i
        { x with round, underway := x.underway ++ (none : Option Outcome).toList } } := by
  rw [modifyAcceptor_eq hx]
  simp

theorem endLoop_comesTo (hx : s.acceptors[i]? = some x) (hdue : s.Due x)
    (hend : x.stopped = true ∨ l.closed = true) : s.ComesTo i x l (moved x i (s.endLoop i x)) := by
  unfold endLoop
  split
  · rename_i hs
    exact ⟨none, none, .ended, .quits hdue hs, .of_record (setRound_eq hx .ended), rfl⟩
  · rename_i hs
    have hclosed := hend.resolve_left hs
    exact ⟨some (.error .closed), none, .ended, .closes hdue (Bool.eq_false_iff.mpr hs) hclosed,
      .of_record (emit_eq hx _ .ended), rfl⟩

theorem look_comesTo (hx : s.acceptors[i]? = some x) (hdue : s.Due x) {d : Nat}
    (hd : l.closed = true ∨ l.descriptor = some d) : s.ComesTo i x l (moved x i (s.look i x l d)) := by
  unfold look
  split
  · rename_i hend
    exact endLoop_comesTo hx hdue (by simpa using hend)
  · rename_i hopen
    obtain ⟨hs, hl⟩ : x.stopped = false ∧ l.closed = false := by simpa using hopen
    have hd : l.descriptor = some d := hd.resolve_left (by simp [hl])
    have hadmits := Calls.accept_admits s.system d
    split
    · rename_i system again ha
      rw [ha] at hadmits
      refine ⟨none, none, .waiting d, .waits hdue hs hl hd (congrArg Prod.snd ha),
        .of_admits hd hadmits ?_, rfl⟩
      simpa [moved] using setRound_eq (s := { s with system }) hx (.waiting d)
    · rename_i system e ha
      rw [ha] at hadmits
      have hheed := hadmits.andThen system.heed_retains
      split
      · rename_i hw
        rw [hw] at hheed
        refine ⟨some (.ok s.connections.length), some e, .fresh,
          .takes hdue hs hl hd ha (congrArg Prod.snd hw), .of_admits hd hheed ?_, rfl⟩
        exact emit_eq (s := ({ s with system := _ }.addConnection e l.limits).1) hx _ _
      · rename_i u f hw
        rw [hw] at hheed
        refine ⟨some (.error (.ofOs .accept f)), some e, .fresh,
          .loses hdue hs hl hd ha (congrArg Prod.snd hw), .of_admits hd hheed ?_, rfl⟩
        simpa [moved, Listener.gains] using emit_eq (s := { s with system := u }) hx _ _
    · rename_i system e ha
      rw [ha] at hadmits
      refine ⟨some (.error (.ofOs .accept e)), none, _,
        .fails hdue hs hl hd (congrArg Prod.snd ha), .of_admits hd hadmits ?_, rfl⟩
      simpa [moved] using emit_eq (s := { s with system }) hx _ _

theorem startRound_comesTo (hx : s.acceptors[i]? = some x) (hdue : s.Due x)
    (hl : l.closed = l.descriptor.isNone) : s.ComesTo i x l (moved x i (s.startRound i x l)) := by
  unfold startRound
  cases hd : l.descriptor with
  | some d => exact look_comesTo hx hdue (.inr hd)
  | none => exact endLoop_comesTo hx hdue (.inr (by simp [hl, hd]))

/-- What comes of taking a loop up again. -/
theorem attendTurn_comesTo (hx : s.acceptors[i]? = some x) (hl : s.listeners[x.listener]? = some l)
    (hclosed : l.closed = l.descriptor.isNone)
    (hhand : ∀ d, x.round = .waiting d → l.closed = true ∨ l.descriptor = some d) :
    s.ComesTo i x l (s.attendTurn i) := by
  have idle (h : ¬s.Due x) : s.ComesTo i x l (moved x i (s, .idle)) := by
    refine ⟨none, none, x.round, .idle h, .of_record ?_, rfl⟩
    have hsame : s.acceptors.set i x = s.acceptors := by
      obtain ⟨hlt, rfl⟩ := List.getElem?_eq_some_iff.mp hx
      exact List.set_getElem_self hlt
    simp [moved, hsame]
  rw [attendTurn_eq hx]
  unfold attend
  simp only [hx, hl]
  cases hround : x.round with
  | ended => exact idle (by simp [Due, hround])
  | fresh => exact startRound_comesTo hx (by simp [Due, hround]) hclosed
  | waiting d => exact look_comesTo hx (by simp [Due, hround]) (hhand d hround)
  | resting w =>
    dsimp only
    split
    · exact idle (by simp only [Due, hround]; omega)
    · exact startRound_comesTo hx (by simp only [Due, hround]; omega) hclosed

end Sockets

/-! ### Stopping a loop -/

section Stop

theorem any_zipIdx_modify {α : Type} (l : List α) (i n : Nat) (f : α → α) (p : α × Nat → Bool)
    (hp : ∀ x j, p (f x, j) = p (x, j)) :
    ((l.modify i f).zipIdx n).any p = (l.zipIdx n).any p := by
  induction l generalizing i n with
  | nil => simp
  | cons x l ih => cases i <;> simp [hp, ih]

theorem filterMap_modify {α β : Type} (l : List α) (i : Nat) (f : α → α) (g : α → Option β)
    (hg : ∀ x, g (f x) = g x) : (l.modify i f).filterMap g = l.filterMap g := by
  induction l generalizing i with
  | nil => simp
  | cons x l ih => cases i <;> simp [List.filterMap_cons, hg, ih]

/-- Whether a loop is stopped makes no difference to what it owns. -/
theorem owned_stop (s : Sockets) (i : Nat) :
    (s.modifyAcceptor i fun x => { x with stopped := true }).owned = s.owned := by
  have hlistener (l : Nat) :
      (s.modifyAcceptor i fun x => { x with stopped := true }).usesListener l = s.usesListener l :=
    congrArg (s.stages.contains (.listening l) || ·)
      (any_zipIdx_modify s.acceptors i 0 (fun x => { x with stopped := true })
        (fun p => p.1.listener = l && (p.1.round ≠ .ended || s.controllers.any (·.2 = p.2)))
        fun _ _ => rfl)
  have hconnection (k : Nat) :
      (s.modifyAcceptor i fun x => { x with stopped := true }).usesConnection k =
        s.usesConnection k :=
    congrArg (s.stages.contains (.connected k) ||
        (s.attempts.zipIdx.any fun p => s.attemptHolds k p.2 p.1) || ·)
      (any_zipIdx_modify s.acceptors i 0 (fun x => { x with stopped := true })
        (fun p => s.acceptorHolds k p.2 p.1) fun _ _ => rfl)
  unfold Sockets.owned Sockets.portDescriptors Sockets.usesPort
  simp only [hlistener, hconnection]
  simp only [Sockets.modifyAcceptor]
  rw [filterMap_modify]
  · rfl
  · exact fun _ => rfl

/-- Nobody is closed when a loop is stopped. -/
theorem reap_stop {s : Sockets} (hs : Tidied s) (i : Nat) :
    (s.modifyAcceptor i fun x => { x with stopped := true }).reap =
      s.modifyAcceptor i fun x => { x with stopped := true } := by
  have horphans : (s.modifyAcceptor i fun x => { x with stopped := true }).orphans = [] := by
    unfold Sockets.orphans
    rw [owned_stop]
    exact hs.orphans
  unfold Sockets.reap
  rw [horphans]
  rfl

end Stop

end Conduit.Socket
