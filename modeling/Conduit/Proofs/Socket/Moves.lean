import Conduit.Proofs.Socket.Actions

/-!
The moves that frames and tasks make when they go on, and then the steps of a configuration: each of
them is one move of its desk.
-/

namespace Conduit.Socket

open Dispatch

/-! ### Frames and tasks -/

/-- A turn that leaves no outcome of an attempt behind. -/
def Quiet (t : Turn signature) : Prop := ∀ a, .conclude a ∉ t.next.left

/-- A turn that makes a move and leaves no outcome of an attempt behind. -/
structure Quietly (s : Sockets) (t : Turn signature) : Prop where
  quiet : Quiet t
  move : ∀ p, (s.desk p).Move [] (t.state.desk p)

section Tasks

variable (s : Sockets) (p : Nat → Nat)

theorem serve_quietly (r : Nat) : Quietly s (s.serve r) := by
  constructor
  · intro a
    unfold Sockets.serve
    dsimp only
    split <;> simp [Next.left]
  · intro p
    have : (s.serve r).state.desk p = s.desk p := s.desk_advanceRequest p r
    rw [this]
    exact .still

/-- An accept loop makes a connection at most. -/
theorem attend_move (c : Nat) : (s.desk p).Move [] ((s.attend c).1.desk p) := by
  obtain ⟨⟨system, connections, acceptors, h⟩, -, hmeets⟩ := s.attend_accepts c
  rw [h] at hmeets ⊢
  rcases hmeets with hmeets | ⟨d, limits, hmeets⟩
  · obtain rfl : connections = s.connections := hmeets
    exact .still
  · obtain rfl : connections = s.connections ++ [{ descriptor := some d, limits }] := hmeets
    simpa [Sockets.desk] using Desk.Move.meet (d := s.desk p)

theorem attendTurn_quietly (c : Nat) : Quietly s (s.attendTurn c) := by
  constructor
  · intro a
    unfold Sockets.attendTurn
    split <;> simp [Next.left]
  · intro p
    rw [s.attendTurn_state]
    exact attend_move s p c

theorem dispatches_of_quiet {t : Turn signature} (h : Quiet t) : dispatches t.next = [] := by
  unfold dispatches
  split
  · rename_i a k hn
    exact absurd (by simp [hn, Next.left]) (h a)
  · rfl

theorem courses_setProgress (a : Nat) (progress : Progress) :
    (s.setProgress a progress).desk p = (s.desk p).setProgress a progress := by
  have h : (s.attempts.modify a fun x => { x with progress }).map (·.course) =
      (s.attempts.map (·.course)).modify a fun x => { x with progress } := by
    generalize s.attempts = xs
    induction xs generalizing a with
    | nil => simp
    | cons x xs ih =>
      cases a with
      | zero => simp [Attempt.course]
      | succ a => simpa using ih a
  exact congrArg (fun cs => { s.desk p with courses := cs }) h

/-- What comes of trying an attempt: it waits, or it is decided, with a new connection perhaps. -/
inductive Tries (s : Sockets) (a : Nat) : Sockets × Option Outcome → Prop where
  | waits {s'} (h : ∀ p, s'.desk p = (s.desk p).setProgress a .waiting) : Tries s a (s', none)
  | decides {s' o n} (hn : s.connections.length ≤ n) (ho : ∀ k, o = .ok k → k < n)
      (h : ∀ p, s'.desk p = { s.desk p with connections := n }) : Tries s a (s', some o)

theorem attempt_tries (x : Attempt) (a : Nat) : Tries s a (s.attempt x a) := by
  have fails (f : Fault) : Tries s a (s, some (.error f)) :=
    .decides (Nat.le_refl _) nofun fun _ => rfl
  unfold Sockets.attempt
  split
  · exact fails _
  · split
    · exact fails _
    · split
      · exact fails _
      · split
        · exact .decides (Nat.le_refl _) nofun fun _ => rfl
        · exact .waits fun p => courses_setProgress _ p a .waiting
        · refine .decides (Nat.le_succ _) (fun k hk => ?_) fun p => ?_
          · cases hk
            exact Nat.lt_succ_self _
          · simp [Sockets.desk]

/-- What comes of taking an attempt up again. -/
inductive Pursues (s : Sockets) (a : Nat) : Turn signature → Prop where
  | rests {t} (hm : ∀ p, (s.desk p).Move [] (t.state.desk p)) (h : t.next = .reply .done) :
      Pursues s a t
  | decides {t o n x} (hx : s.attempts[a]? = some x) (hp : x.progress.isOpen)
      (hn : s.connections.length ≤ n) (ho : ∀ k, o = .ok k → k < n)
      (hd : ∀ p, t.state.desk p = { (s.desk p).setProgress a (.decided o) with connections := n })
      (h : t.next = .perform x.context (.conclude a) []) : Pursues s a t

theorem pursueTurn_pursues (a : Nat) : Pursues s a (s.pursueTurn a) := by
  cases hx : s.attempts[a]? with
  | none =>
    have h : s.pursueTurn a = { state := s } := by simp [Sockets.pursueTurn, Sockets.pursue, hx]
    rw [h]
    exact .rests (fun p => .still) rfl
  | some x =>
    have hcourse (p : Nat → Nat) : (s.desk p).courses[a]? = some x.course := by
      simp [Sockets.desk, hx]
    by_cases hopen : x.progress.isOpen = true
    · have hprogress : x.progress = .fresh ∨ x.progress = .waiting := by
        cases hp : x.progress <;> simp [hp, Progress.isOpen] at hopen ⊢
      cases htry : s.attempt x a with
      | mk s' o =>
        have htries := attempt_tries s x a
        rw [htry] at htries
        cases htries with
        | waits h =>
          have hturn : s.pursueTurn a = { state := s' } := by
            rcases hprogress with hp | hp <;>
              simp [Sockets.pursueTurn, Sockets.pursue, hx, hp, htry]
          rw [hturn]
          refine .rests (fun p => ?_) rfl
          rw [h p]
          exact .wait (hcourse p) hopen
        | @decides _ o _ hn ho h =>
          have hstate : (s.pursueTurn a).state = s'.setProgress a (.decided o) := by
            rcases hprogress with hp | hp <;>
              simp [Sockets.pursueTurn, Sockets.pursue, hx, hp, htry]
          have hnext : (s.pursueTurn a).next = .perform x.context (.conclude a) [] := by
            rcases hprogress with hp | hp <;>
              simp [Sockets.pursueTurn, Sockets.pursue, hx, hp, htry]
          refine .decides hx hopen hn ho (fun p => ?_) hnext
          rw [hstate, courses_setProgress, h p]
          rfl
    · have h : s.pursueTurn a = { state := s } := by
        unfold Sockets.pursueTurn Sockets.pursue
        rw [hx]
        cases hp : x.progress <;> simp_all [Progress.isOpen]
      rw [h]
      exact .rests (fun p => .still) rfl

/-- A slot that waits takes the connection, or is closed by a failure. -/
theorem settle_waiting {i a : Nat} (h : s.slots[i]? = some (.connecting a)) (o : Outcome) :
    s.settle i o = match o with
      | .ok k => ({ s with slots := s.slots.set i (.connected k) }, .ok k, [])
      | .error f => ({ s with slots := s.slots.set i .closed }, .error f, []) := by
  cases o <;> simp [Sockets.settle, h]

/-- A connection that comes too late is closed. -/
theorem settle_late {i : Nat} (h : ∀ a, s.slots[i]? ≠ some (.connecting a)) (o : Outcome) :
    s.settle i o = match o with
      | .ok k => ((s.closeConnection k).1, .error .closed, (s.closeConnection k).2)
      | .error f => (s, .error f, []) := by
  unfold Sockets.settle
  split
  · exact absurd ‹_› (h _)
  · exact absurd ‹_› (h _)
  · rfl
  · rfl

theorem settle_desk (i : Nat) (o : Outcome) :
    (s.settle i o).1.desk p = { s.desk p with slots := (Desk.settle s.slots i o).1 } ∧
      (s.settle i o).2.1 = (Desk.settle s.slots i o).2 := by
  by_cases h : ∃ a, s.slots[i]? = some (.connecting a)
  · obtain ⟨a, h⟩ := h
    rw [settle_waiting s h]
    cases o <;> simp [Desk.settle, h, Sockets.desk]
  · have h : ∀ a, s.slots[i]? ≠ some (.connecting a) := fun a ha => h ⟨a, ha⟩
    have hdesk : Desk.settle s.slots i o = (s.slots, match o with
        | .ok _ => .error .closed
        | .error f => .error f) := by
      unfold Desk.settle
      split
      · exact absurd ‹_› (h _)
      · exact absurd ‹_› (h _)
      · rfl
      · rfl
    rw [settle_late s h, hdesk]
    cases o with
    | ok k => exact ⟨s.desk_closeConnection p k, rfl⟩
    | error f => exact ⟨rfl, rfl⟩

/-- The outcome of an attempt for a slot is settled there, and is delivered. -/
theorem conclude_eq {a i : Nat} {x : Attempt} {o : Outcome} (hx : s.attempts[a]? = some x)
    (ho : x.progress = .decided o) (hi : x.slot = some i) :
    (s.conclude a).1 = (s.settle i o).1.setProgress a (.delivered (s.settle i o).2.1) := by
  simp [Sockets.conclude, hx, ho, hi]

/-- An outcome is settled with its slot. -/
theorem desk_conclude (a : Nat) : (s.conclude a).1.desk p = (s.desk p).conclude a := by
  have hcourse : (s.desk p).courses[a]? = s.attempts[a]?.map (·.course) := by simp [Sockets.desk]
  cases hx : s.attempts[a]? with
  | none =>
    rw [hx] at hcourse
    simp [Sockets.conclude, Desk.conclude, hx, hcourse]
  | some x =>
    rw [hx] at hcourse
    by_cases hdecided : ∃ o, x.progress = .decided o
    · obtain ⟨o, ho⟩ := hdecided
      have hx' : (s.desk p).courses[a]? = some ⟨x.slot, x.context, .decided o⟩ := by
        simp [hcourse, Attempt.course, ho]
      rw [Desk.conclude_decided hx']
      cases hslot : x.slot with
      | none =>
        have h : (s.conclude a).1 = s.setProgress a (.delivered o) := by
          simp [Sockets.conclude, hx, ho, hslot]
        rw [h, courses_setProgress]
        rfl
      | some i =>
        obtain ⟨hdesk, hout⟩ := settle_desk s p i o
        rw [conclude_eq s hx ho hslot, courses_setProgress, hdesk, hout]
        rfl
    · have h : s.conclude a = (s, []) := by
        unfold Sockets.conclude
        rw [hx]
        dsimp only
        split
        · exact absurd ⟨_, ‹_›⟩ hdecided
        · exact absurd ⟨_, ‹_›⟩ hdecided
        · rfl
      rw [h]
      unfold Desk.conclude
      rw [hcourse]
      split
      · rename_i hx'
        simp only [Option.map_some, Option.some.injEq, Attempt.course, Course.mk.injEq] at hx'
        exact absurd ⟨_, hx'.2.2⟩ hdecided
      · rfl

theorem desk_unwind (f : Frame) (h : ∀ a, f ≠ .conclude a) : (s.unwind f).desk p = s.desk p := by
  cases f with
  | serve r => exact s.desk_finishRequest p r
  | finish r => exact s.desk_finishRequest p r
  | conclude a => exact absurd rfl (h a)
  | announce c => rfl
  | attend c => rfl

end Tasks

/-! ### Steps -/

section Steps

variable {c c' : Config component} {t : Turn signature}

theorem pendingIn_perm {l l' : List Frame} (h : l.Perm l') : pendingIn l = pendingIn l' :=
  funext fun _ => h.count_eq _

theorem pendingIn_append {l l' : List Frame} (h : ∀ a, .conclude a ∉ l) :
    pendingIn (l ++ l') = pendingIn l' := by
  funext a
  simp [pendingIn, List.count_eq_zero_of_not_mem (h a)]

theorem desk_eq {s : Sockets} {p : Nat → Nat} (hs : c.state = s) (hp : pendingIn (todo c) = p) :
    desk c = s.desk p := by
  subst hs hp
  rfl

/-- The machine takes over a turn. Its work may be lost, or dropped, on the way to a context. -/
theorem takes_cases (h : c.Takes (Sockets.tidy t) c') (hn : c.next = none) :
    ((todo c').Perm (t.next.left ++ todo c) ∧ c'.state = t.state.reap) ∨
    ∃ d w k, t.next = .perform d w k ∧ todo c' = k ++ todo c ∧
      (c'.state = t.state.reap ∨ c'.state = (t.state.reap.unwind w).reap) := by
  rcases h.frames hn with ⟨hf, hs, -⟩ | ⟨d, w, k, hnext, hf, ⟨hs, -⟩ | ⟨hs, -⟩⟩
  · exact .inl ⟨hf, hs⟩
  · exact .inr ⟨d, w, k, hnext, hf, .inl hs⟩
  · exact .inr ⟨d, w, k, hnext, hf, .inr hs⟩

/-- A turn that leaves no outcome behind is taken over as it is. -/
theorem desk_takes (h : c.Takes (Sockets.tidy t) c') (hn : c.next = none) (hq : Quiet t) :
    desk c' = t.state.desk (pendingIn (todo c)) := by
  rcases takes_cases h hn with ⟨hf, hs⟩ | ⟨d, w, k, hnext, hf, hs⟩
  · have hp : pendingIn (todo c') = pendingIn (todo c) :=
      (pendingIn_perm hf).trans (pendingIn_append hq)
    exact (desk_eq hs hp).trans (t.state.desk_reap _)
  · have hleft : t.next.left = w :: k := by
      rw [hnext]
      rfl
    have hw : ∀ a, w ≠ .conclude a := by
      rintro a rfl
      exact hq a (hleft ▸ List.mem_cons_self)
    have hk : ∀ a, .conclude a ∉ k := fun a ha => hq a (hleft ▸ List.mem_cons_of_mem w ha)
    have hp : pendingIn (todo c') = pendingIn (todo c) :=
      (congrArg pendingIn hf).trans (pendingIn_append hk)
    rcases hs with hs | hs
    · exact (desk_eq hs hp).trans (t.state.desk_reap _)
    · exact (desk_eq hs hp).trans (desk_unwind t.state.reap _ w hw)

theorem desk_faces (h : c.Faces c') : desk c' = desk c :=
  desk_eq h.state_eq (congrArg pendingIn (h.frames_eq : todo c' = todo c))

/-- A turn that answers makes its move. -/
theorem Moving.takes {ds : List Deed} (hm : Moving c.state ds t)
    (h : c.Takes (Sockets.tidy t) c') (hn : c.next = none) : (desk c).Move ds (desk c') := by
  have hq : Quiet t := by
    obtain ⟨r, hr⟩ := hm.reply
    intro a
    simp [hr, Next.left]
  rw [desk_takes h hn hq]
  exact hm.move _

theorem Quietly.takes (hm : Quietly c.state t) (h : c.Takes (Sockets.tidy t) c')
    (hn : c.next = none) : (desk c).Move (dispatches t.next) (desk c') := by
  rw [dispatches_of_quiet hm.quiet, desk_takes h hn hm.quiet]
  exact hm.move _

/-- The outcome of an attempt is on its way once more. -/
theorem pendingIn_cons (a : Nat) (l : List Frame) :
    pendingIn (.conclude a :: l) = fun b => if b = a then pendingIn l b + 1 else pendingIn l b := by
  funext b
  by_cases hb : b = a
  · simp [pendingIn, hb]
  · have hne : Frame.conclude a ≠ Frame.conclude b := fun he => hb (Frame.conclude.inj he).symm
    simp [pendingIn, hb, hne]

/-- An attempt that is decided sends its outcome to its context, which may not take it. -/
theorem Pursues.takes {a : Nat} (hp : Pursues c.state a t) (h : c.Takes (Sockets.tidy t) c') (hn : c.next = none) :
    (desk c).Move (dispatches t.next) (desk c') := by
  cases hp with
  | rests hm hr =>
    rw [hr]
    exact Moving.takes ⟨hm, _, hr⟩ h hn
  | @decides o n x hx hopen hlen hk hd hr =>
    have hcourse : (desk c).courses[a]? = some x.course := by
      have := congrArg (Option.map Attempt.course) hx
      simpa [desk, Sockets.desk] using this
    have hds : dispatches t.next = [.dispatched a x.course.context] := by
      rw [hr]
      rfl
    rw [hds]
    rcases takes_cases h hn with ⟨hf, hs⟩ | ⟨d, w, k, hnext, hf, hs⟩
    · rw [hr] at hf
      have hp : pendingIn (todo c') = _ := (pendingIn_perm hf).trans (pendingIn_cons a (todo c))
      rw [(desk_eq hs hp).trans (t.state.desk_reap _), hd]
      exact .decide hcourse hopen hlen hk
    · obtain ⟨rfl, rfl, rfl⟩ : d = x.context ∧ w = .conclude a ∧ k = [] := by
        have he := hnext.symm.trans hr
        injection he with h₁ h₂ h₃
        exact ⟨h₁, h₂, h₃⟩
      have hp : pendingIn (todo c') = pendingIn (todo c) := congrArg pendingIn hf
      rcases hs with hs | hs
      · rw [(desk_eq hs hp).trans (t.state.desk_reap _), hd]
        exact .refuse hcourse hopen hlen hk (.inl rfl)
      · have hlost : (t.state.desk (pendingIn (todo c))).setProgress a .lost =
            { (desk c).setProgress a .lost with connections := n } := by
          rw [hd]
          exact congrArg (fun d : Desk => { d with connections := n })
            (Desk.setProgress_setProgress (desk c) a (.decided o) .lost)
        rw [(desk_eq hs hp).trans (courses_setProgress t.state _ a .lost), hlost]
        exact .refuse hcourse hopen hlen hk (.inr rfl)

theorem desk_next {f : Frame} (hn : c.next = some f) (hf : ∀ a, f ≠ .conclude a) :
    desk { c with next := none } = desk c := by
  have hp : pendingIn (todo c) = pendingIn (todo { c with next := none }) :=
    (congrArg pendingIn (Config.frames_next hn)).trans
      (pendingIn_append (l := [f]) (by simpa [eq_comm] using hf))
  exact (desk_eq rfl hp).symm

/-- An outcome on its way is taken out of it. -/
theorem desk_taken {a : Nat} {l l' : List Frame} (s : Sockets) (h : l = .conclude a :: l') :
    s.desk (pendingIn l') = (s.desk (pendingIn l)).took a ∧ 0 < pendingIn l a := by
  rw [h, pendingIn_cons]
  constructor
  · refine congrArg s.desk (funext fun b => ?_)
    dsimp only [Sockets.desk]
    split <;> simp
  · simp

/-- A frame other than an outcome goes on. -/
theorem resume_quietly (s : Sockets) {f : Frame} (hf : ∀ a, f ≠ .conclude a) :
    Quietly s (s.resume f) := by
  cases f with
  | serve r => exact serve_quietly s r
  | finish r =>
    refine ⟨fun a => List.not_mem_nil, fun p => ?_⟩
    have : (s.resume (.finish r)).state.desk p = s.desk p := s.desk_finishRequest p r
    rw [this]
    exact .still
  | conclude a => exact absurd rfl (hf a)
  | announce c => exact ⟨fun a => List.not_mem_nil, fun p => .still⟩
  | attend c => exact attendTurn_quietly s c

/-- A task of the reactor is served. -/
theorem poll_move (t : Task) (hn : c.next = none)
    (h : c.Takes (Sockets.tidy (c.state.poll t)) c') :
    (desk c).Move (dispatches (c.state.poll t).next) (desk c') := by
  cases t with
  | request r => exact (serve_quietly c.state r).takes h hn
  | attempt a => exact (pursueTurn_pursues c.state a).takes h hn
  | acceptor a => exact (attendTurn_quietly c.state a).takes h hn
  | alarm i =>
    have hring : Quietly c.state { state := c.state.ring i } :=
      ⟨fun a => List.not_mem_nil, fun p => Sockets.desk_ring c.state p i ▸ .still⟩
    exact hring.takes h hn

/-- An outcome reaches its receiver. -/
theorem conclude_move {a : Nat} (hn : c.next = some (.conclude a))
    (h : Config.Takes { c with next := none } (Sockets.tidy (c.state.resume (.conclude a))) c') :
    (desk c).Move [.heard a] (desk c') := by
  obtain ⟨htook, hpos⟩ := desk_taken (c.state.conclude a).1
    (show todo c = .conclude a :: todo { c with next := none } from Config.frames_next hn)
  have hdesk : desk c' = (c.state.conclude a).1.desk (pendingIn (todo { c with next := none })) :=
    desk_takes h rfl fun b => List.not_mem_nil
  have hdone : desk c' = ((desk c).conclude a).took a :=
    hdesk.trans (htook.trans (congrArg (·.took a) (desk_conclude c.state _ a)))
  rw [hdone]
  exact .conclude hpos

/-- A frame that a throw passes, is cleaned up after. -/
theorem unwind_move {f : Frame} {k : List Frame} (hn : c.next = none) (hk : c.stack = f :: k) :
    (desk c).Move [] (desk (Config.discard { c with stack := k } f)) := by
  have hpop : todo c = f :: todo { c with stack := k } := Config.frames_pop hn hk
  have hdesk : desk (Config.discard { c with stack := k } f) =
      (c.state.unwind f).desk (pendingIn (todo { c with stack := k })) := rfl
  rw [hdesk]
  by_cases hf : ∃ a, f = .conclude a
  · obtain ⟨a, rfl⟩ := hf
    obtain ⟨htook, hpos⟩ := desk_taken (c.state.loseOutcome a) hpop
    have hlost : (c.state.unwind (.conclude a)).desk (pendingIn (todo { c with stack := k })) =
        ((desk c).setProgress a .lost).took a :=
      htook.trans (congrArg (·.took a) (courses_setProgress c.state _ a .lost))
    rw [hlost]
    exact .lose hpos
  · have hf : ∀ a, f ≠ .conclude a := fun a ha => hf ⟨a, ha⟩
    have hp : pendingIn (todo c) = pendingIn (todo { c with stack := k }) :=
      (congrArg pendingIn hpop).trans (pendingIn_append (l := [f]) (by simpa [eq_comm] using hf))
    have hkept : (c.state.unwind f).desk (pendingIn (todo { c with stack := k })) = desk c :=
      (desk_unwind c.state _ f hf).trans (congrArg c.state.desk hp.symm)
    rw [hkept]
    exact .still

/-- Every step of a configuration is a move of its desk. -/
theorem step_move {cause : Option (Dispatch.Cause component)} (h : c.Step cause c') :
    (desk c).Move (deeds (c.moment cause)) (desk c') := by
  have single (cause : Dispatch.Cause component) :
      deeds (c.moment (some cause)) = deedsAt ⟨c.state, cause⟩ := by simp [deeds, Config.moment]
  cases h with
  | still hf =>
    rw [desk_faces hf]
    exact .still
  | @exec view act _ hn ht =>
    rw [single]
    exact Moving.takes (run_moving c.state view act) ht hn
  | @resume f _ hn ht =>
    rw [single]
    by_cases hf : ∃ a, f = .conclude a
    · obtain ⟨a, rfl⟩ := hf
      exact conclude_move hn ht
    · have hf : ∀ a, f ≠ .conclude a := fun a ha => hf ⟨a, ha⟩
      have hmove := Quietly.takes (c := { c with next := none }) (resume_quietly c.state hf) ht rfl
      rw [desk_next hn hf] at hmove
      cases f with
      | conclude a => exact absurd rfl (hf a)
      | _ => exact hmove
  | @unwind f k _ hn hk hf =>
    rw [single, ← hf]
    exact unwind_move hn hk
  | @poll t ts _ hn hk hr ht =>
    rw [single]
    exact poll_move (c := { c with ready := ts }) t hn ht
  | tick hn => exact .still
  | begin hn hv =>
    rw [desk_eq (c := { c with next := _, waiting := _ }) rfl
      (pendingIn_perm (Config.frames_begin hn hv))]
    exact .still
  | opened hn hf =>
    rw [desk_faces hf, desk_eq (c := { c with waiting := _ }) rfl
      (congrArg pendingIn Config.frames_opened)]
    exact .still

end Steps

end Conduit.Socket
