import Mathlib.Algebra.GroupWithZero.Nat
import Conduit.Proofs.Dispatch.Operated

/-!
Machines that come to an end. A tariff puts a price on the actions and frames of a component and on
what its state holds back. If no turn leaves more to pay than the action or frame that it was for,
every step of a machine is paid for out of what it has to do, and so whatever it runs is over after
as many steps.
-/

namespace Conduit.Dispatch

variable {C : Component}

/-- What the actions and frames of a component cost, and what is held back in its state. -/
structure Tariff (C : Component) where
  action : C.Action → Nat
  frame : C.Frame → Nat
  state : C.State → Nat

namespace Tariff

variable (T : Tariff C)

def op : Op C.Action → Nat
  | .context _ => 1
  | .own a => T.action a

/-- The operations of a script, each with the step that leads to it. -/
def script (ops : List (Op C.Action)) : Nat := (ops.map fun op => T.op op + 1).sum

def frames (k : List C.Frame) : Nat := (k.map T.frame).sum

/-- Work in line, with its turn and the one who begins it. -/
def queued (w : C.Frame) : Nat := T.frame w + 2

/-- What is to be paid after a turn. -/
def next : Next C.toSignature → Nat
  | .reply _ | .throw => 0
  | .enter k => T.frames k
  | .script _ ops _ k => T.script ops + T.frames k
  | .perform _ w k => T.queued w + T.frames k

def turn (t : Turn C.toSignature) : Nat := T.state t.state + T.next t.next

/-- Every turn is cheaper than what it is for. -/
structure Sound : Prop where
  exec : ∀ view s a, T.turn (C.exec view s a) < T.state s + T.action a
  resume : ∀ s f, T.turn (C.resume s f) < T.state s + T.frame f
  unwind : ∀ s f, T.state (C.unwind s f).1 ≤ T.state s
  frame : ∀ f, 0 < T.frame f

/-- The price of a frame of the stack. -/
def level : Frame C → Nat
  | .own f => T.frame f
  | .script _ rest _ => T.script rest + 1
  | _ => 1

def stack (s : List (Frame C)) : Nat := (s.map T.level).sum

def lines (venues : List (Venue C.Frame)) : Nat :=
  (venues.map fun q => (q.waiting.map T.queued).sum).sum

def control : Control C → Nat
  | .run op => T.op op
  | _ => 0

/-- What is held back: in the state, and in the lines of venues. -/
def held (m : Machine C) : Nat := T.state m.state + T.lines m.venues

/-- What a machine has left to pay but for the operation that it is about to run. -/
def load (m : Machine C) : Nat := T.stack m.stack + T.held m

/-- What a machine has left to pay. -/
def burden (m : Machine C) : Nat := T.control m.control + T.load m

@[simp] theorem script_nil : T.script [] = 0 := rfl

@[simp] theorem script_cons (op : Op C.Action) (ops : List (Op C.Action)) :
    T.script (op :: ops) = T.op op + 1 + T.script ops := by
  simp [script]

@[simp] theorem frames_nil : T.frames [] = 0 := rfl

@[simp] theorem frames_cons (f : C.Frame) (k : List C.Frame) :
    T.frames (f :: k) = T.frame f + T.frames k := by
  simp [frames]

@[simp] theorem stack_nil : T.stack [] = 0 := rfl

@[simp] theorem stack_cons (f : Frame C) (s : List (Frame C)) :
    T.stack (f :: s) = T.level f + T.stack s := by
  simp [stack]

@[simp] theorem stack_own (k : List C.Frame) (s : List (Frame C)) :
    T.stack (k.map .own ++ s) = T.frames k + T.stack s := by
  induction k with
  | nil => simp
  | cons f k ih => simp [ih, level, Nat.add_assoc]

/-- Frames that are told to serve their lines to the end cost the same. -/
theorem stack_kept {s s' : List (Frame C)} (h : AllKept s s') : T.stack s' = T.stack s := by
  induction h with
  | nil => rfl
  | cons hf _ ih =>
    rw [stack_cons, stack_cons, ih]
    cases hf <;> rfl

/-- One of several prices changes. -/
theorem sum_set {l : List Nat} {i a b : Nat} (h : l[i]? = some b) :
    (l.set i a).sum + b = l.sum + a := by
  induction l generalizing i with
  | nil => simp at h
  | cons c l ih =>
    cases i with
    | zero =>
      obtain rfl : c = b := by simpa using h
      simp only [List.set_cons_zero, List.sum_cons]
      omega
    | succ i =>
      have := ih (i := i) (by simpa using h)
      simp only [List.set_cons_succ, List.sum_cons]
      omega

section Lines

variable {venues : List (Venue C.Frame)} {v : Nat} {q p : Venue C.Frame}

theorem lines_set (hq : venues[v]? = some q) :
    T.lines (venues.set v p) + (q.waiting.map T.queued).sum =
      T.lines venues + (p.waiting.map T.queued).sum := by
  rw [lines, List.map_set]
  exact sum_set (by rw [List.getElem?_map, hq]; rfl)

/-- The lines are those of the work that waits. -/
theorem lines_eq (venues : List (Venue C.Frame)) :
    T.lines venues = ((venues.map (·.waiting)).map fun line => (line.map T.queued).sum).sum := by
  rw [List.map_map]
  rfl

end Lines

end Tariff

namespace Machine

variable {T : Tariff C} {m m' : Machine C}

/-! ### What is left to pay after a step -/

theorem load_wakeAll (ts : List C.Task) : T.load (m.wakeAll ts) = T.load m := by
  obtain ⟨ready, he, -⟩ := m.wakeAll_eq ts
  rw [he]
  rfl

theorem load_wake (t : Task C) : T.load (m.wake t) = T.load m := by
  unfold wake
  split <;> rfl

theorem load_discard (hT : T.Sound) (f : C.Frame) : T.load (m.discard f) ≤ T.load m := by
  rw [show m.discard f = wakeAll { m with state := (C.unwind m.state f).1 } _ from rfl, load_wakeAll]
  have h := hT.unwind m.state f
  simp only [Tariff.load, Tariff.held]
  omega

/-- Work that is given to a venue waits in its line, or is lost. -/
theorem load_enqueue (hT : T.Sound) (v : Nat) (w : C.Frame) :
    T.load (m.enqueue v w) ≤ T.load m + T.queued w := by
  unfold enqueue
  split
  · exact Nat.le_add_right ..
  · rename_i q hq
    split
    · exact Nat.le_trans (load_discard hT w) (Nat.le_add_right ..)
    · rename_i ha
      have hlines := Tariff.lines_set (T := T) (p := q.push w) hq
      have hpush : (q.push w).waiting = q.waiting ++ [w] := by simp_all [Venue.push]
      rw [hpush, List.map_append, List.sum_append] at hlines
      have hload : T.load (record { m with venues := m.venues.set v (q.push w) } (.queued v w)) =
          T.load m + T.queued w := by
        simp only [Tariff.load, Tariff.held, record]
        simp only [List.map_cons, List.map_nil, List.sum_cons, List.sum_nil] at hlines
        omega
      dsimp only
      split
      · exact Nat.le_of_eq ((load_wake _).trans hload)
      · exact Nat.le_of_eq hload

/-- A reply costs nothing. -/
theorem burden_reply (r : Reply C.Answer) : T.burden (m.reply r) = T.load m := Nat.zero_add _

theorem burden_handOver (hT : T.Sound) (c : Context) (w : C.Frame) :
    T.burden (m.handOver c w) ≤ T.load m + T.queued w := by
  unfold handOver
  split
  · simp only [Tariff.burden, Tariff.control, Tariff.load, Tariff.held, Tariff.stack_cons,
      Tariff.level, Tariff.queued]
    omega
  · simp only [Tariff.burden, Tariff.control, Tariff.load, Tariff.held, Tariff.stack_cons,
      Tariff.level, Tariff.queued]
    omega
  · rw [burden_reply]
    exact load_enqueue hT _ w

theorem burden_runScript (tag : C.Tag) (ops : List (Op C.Action)) (throws : Bool) :
    T.burden (m.runScript tag ops throws) ≤ T.load m + T.script ops := by
  cases ops with
  | nil => cases throws <;> simp [runScript, Tariff.burden, Tariff.control, Tariff.load, Tariff.held]
  | cons op ops =>
    simp only [runScript, Tariff.burden, Tariff.control, Tariff.load, Tariff.held, Tariff.stack_cons,
      Tariff.level, Tariff.script_cons]
    omega

/-- After a turn the machine has to pay for its state and for what it goes on with. -/
theorem burden_take (hT : T.Sound) (t : Turn C.toSignature) :
    T.burden (m.take t) + T.state m.state ≤ T.load m + T.turn t := by
  have hhear : T.load (m.hear t) + T.state m.state = T.load m + T.state t.state := by
    have h := m.hear_state t
    have hs := m.hear_stack t
    have hv : (m.hear t).venues = m.venues := congrArg Floor.venues (m.floor_hear t)
    simp only [Tariff.load, Tariff.held, h, hs, hv]
    omega
  have hpush (k : List C.Frame) : T.load ((m.hear t).pushOwn k) = T.load (m.hear t) + T.frames k := by
    simp only [Tariff.load, Tariff.held, pushOwn, Tariff.stack_own]
    omega
  have hrun : T.burden ((m.hear t).goOn t.next) ≤ T.load (m.hear t) + T.next t.next := by
    cases t.next with
    | reply r => exact Nat.le_of_eq (burden_reply r)
    | throw => exact Nat.le_of_eq (Nat.zero_add _)
    | enter k =>
      simp only [goOn, burden_reply, hpush, Tariff.next]
      exact Nat.le_refl _
    | script tag ops throws k =>
      have h := burden_runScript (T := T) (m := (m.hear t).pushOwn k) tag ops throws
      simp only [goOn, Tariff.next]
      rw [hpush] at h
      omega
    | perform c w k =>
      have h := burden_handOver (m := (m.hear t).pushOwn k) hT c w
      simp only [goOn, Tariff.next]
      rw [hpush] at h
      omega
  rw [take_eq_goOn, Tariff.turn]
  omega

/-- The oldest work of a line is paid for where it waits, with its turn and whoever begins it. -/
theorem load_next? {v : Nat} {w : C.Frame} (h : m.next? v = some (w, m')) :
    T.load m' + T.queued w = T.load m := by
  unfold next? at h
  split at h
  · cases h
  · rename_i q hq
    split at h
    · cases h
    · rename_i w rest hw
      cases h
      have hlines := Tariff.lines_set (T := T) (p := { q with waiting := rest }) hq
      simp only [hw, List.map_cons, List.sum_cons] at hlines
      simp only [Tariff.load, Tariff.held]
      omega

theorem burden_serve (v : Nat) (left : Option Nat) (after : Reply C.Answer) :
    T.burden (m.serve v left after) ≤ T.load m := by
  unfold serve
  split
  · exact Nat.le_of_eq (burden_reply _)
  split
  · exact Nat.le_of_eq (burden_reply _)
  · rename_i w m₁ hw
    have h := load_next? (T := T) hw
    simp only [Tariff.burden, Tariff.control, Tariff.load, Tariff.held, Tariff.stack_cons,
      Tariff.level, Tariff.queued] at h ⊢
    omega

theorem burden_drain (v : Nat) (left : Option Nat) (ran : Nat) :
    T.burden (m.drain v left ran) ≤ T.load m := by
  unfold drain
  split
  · exact Nat.le_of_eq (burden_reply _)
  split
  · exact Nat.le_of_eq (burden_reply _)
  · rename_i w m₁ hw
    have h := load_next? (T := T) hw
    simp only [Tariff.burden, Tariff.control, Tariff.load, Tariff.held, Tariff.stack_cons,
      Tariff.level, Tariff.queued] at h ⊢
    omega

theorem load_rearranged {m₁ : Machine C} (h : m.Rearranged m₁) : T.load m₁ = T.load m := by
  obtain ⟨n, hlines⟩ := h.lines
  simp only [Tariff.load, Tariff.held, h.state, T.stack_kept h.stack, T.lines_eq, hlines]
  simp

/-- An operation on contexts leaves nothing more to pay than there was before. -/
theorem burden_runContext (o : ContextOp) : T.burden (m.runContext o) ≤ T.load m := by
  have hoperated := runContext_operated (m := m) o
  generalize m.runContext o = m' at hoperated ⊢
  cases hoperated with
  | back h hc =>
    have hback : T.burden m' = T.load m' := by
      rw [Tariff.burden, hc]
      exact Nat.zero_add _
    exact Nat.le_of_eq (hback.trans (load_rearranged h))
  | drain h => exact Nat.le_trans (burden_drain ..) (Nat.le_of_eq (load_rearranged h))
  | serve h => exact Nat.le_trans (burden_serve ..) (Nat.le_of_eq (load_rearranged h))

/-! ### Every step is paid for -/

/-- A reply reaches a frame, which pays for what comes of it. -/
theorem burden_returnTo (hT : T.Sound) (r : Reply C.Answer) (f : Frame C) :
    T.burden (m.returnTo r f) < T.load m + T.level f := by
  cases f with
  | own f =>
    have htake := burden_take (m := m) hT (C.resume m.state f)
    have hturn := hT.resume m.state f
    simp only [returnTo, Tariff.level]
    omega
  | script tag rest throws =>
    have h := burden_runScript (T := T) (m := m.record (.answered m.lane tag r)) tag rest throws
    exact Nat.lt_succ_of_le h
  | turn | task => exact Nat.lt_succ_of_le (Nat.le_of_eq (burden_reply _))
  | drain v left ran => exact Nat.lt_succ_of_le (burden_drain ..)
  | serve v left after => exact Nat.lt_succ_of_le (burden_serve ..)

/-- A throw reaches a frame. -/
theorem burden_unwind (hT : T.Sound) (hc : m.control = .thrown) (f : Frame C) :
    T.burden (m.unwind f) < T.load m + T.level f := by
  have hsame : T.burden m = T.load m := by simp [Tariff.burden, hc, Tariff.control]
  cases f with
  | own f =>
    have hdiscard := load_discard (m := m) hT f
    have hpos := hT.frame f
    have hcontrol : (m.discard f).control = .thrown := (wakeAll_stack _ _).2.trans hc
    simp only [unwind, Tariff.level, Tariff.burden, hcontrol, Tariff.control]
    omega
  | turn | task => exact Nat.lt_succ_of_le (Nat.le_of_eq (burden_reply _))
  | script tag rest throws =>
    simp only [unwind, hsame, Tariff.level]
    omega
  | drain | serve => exact Nat.lt_succ_of_le (Nat.le_of_eq hsame)

theorem step?_burden (hT : T.Sound) (hm : m.step? = some m') : T.burden m' < T.burden m := by
  unfold step? at hm
  split at hm
  · rename_i a hc
    cases hm
    have htake := burden_take (m := m) hT (C.exec m.view m.state a)
    have hturn := hT.exec m.view m.state a
    have hop : T.burden m = T.action a + T.load m := by rw [Tariff.burden, hc]; rfl
    omega
  · rename_i o hc
    cases hm
    have hop : T.burden m = 1 + T.load m := by rw [Tariff.burden, hc]; rfl
    have h := burden_runContext (T := T) (m := m) o
    omega
  · rename_i r hc
    split at hm
    · cases hm
    · rename_i f rest hs
      cases hm
      have hburden : T.burden m = T.load { m with stack := rest } + T.level f := by
        simp only [Tariff.burden, hc, Tariff.control, Tariff.load, Tariff.held, hs, Tariff.stack_cons]
        omega
      exact hburden ▸ burden_returnTo hT r f
  · rename_i hc
    split at hm
    · cases hm
    · rename_i f rest hs
      cases hm
      have hburden : T.burden m = T.load { m with stack := rest } + T.level f := by
        simp only [Tariff.burden, hc, Tariff.control, Tariff.load, Tariff.held, hs, Tariff.stack_cons]
        omega
      exact hburden ▸ burden_unwind (m := { m with stack := rest }) hT hc f

/-! ### What is run comes to an end -/

variable {d : Nat} {ms : List (Machine C)} {op : Op C.Action}

/-- The steps of what is run are paid for. -/
theorem Within.burden (h : m.Within d ms m') (hT : T.Sound) :
    ms.length + T.burden m' ≤ T.burden m := by
  induction h with
  | enter hm =>
    have := step?_burden hT hm
    simp only [List.length_singleton]
    omega
  | next _ _ hm ih =>
    have := step?_burden hT hm
    simp only [List.length_append, List.length_singleton]
    omega

/-- Whatever is run comes to an end. -/
theorem within_ends (hT : T.Sound) (d : Nat) {m₁ : Machine C} (hm : m.step? = some m₁) :
    ∃ ms m', m.Within d ms m' ∧ m'.stack.length ≤ d := by
  induction hn : T.burden m using Nat.strongRecOn generalizing m m₁ with
  | _ n ih =>
    subst hn
    by_cases hd : m₁.stack.length ≤ d
    · exact ⟨_, _, .enter hm, hd⟩
    · have hpos : 0 < m₁.stack.length := Nat.zero_lt_of_lt (Nat.lt_of_not_le hd)
      obtain ⟨m₂, hm₂⟩ := step?_of_stack (List.ne_nil_of_length_pos hpos)
      obtain ⟨ms, m', hwithin, hend⟩ := ih _ (step?_burden hT hm) hm₂ rfl
      exact ⟨_, _, hwithin.cons hm (by omega), hend⟩

/-- The frames under an operation are left alone until it is over, and then no other operation is
about to run. -/
theorem Within.over (h : m.Within m.stack.length ms m') (hc : m.control = .run op) :
    ∃ above s, m'.stack = above ++ s ∧ AllKept m.stack s ∧
      (above = [] → ∀ op, m'.control ≠ .run op) := by
  generalize hd : m.stack.length = d at h
  induction h with
  | enter hm =>
    obtain ⟨k, s, hs, hkept, hrun, -⟩ := step?_keeps hm
    rw [show m.below = m.stack by simp [Machine.below, hc]] at hkept
    exact ⟨k, s, hs, hkept, hrun⟩
  | @next ms m₁ m₂ h hlt hm ih =>
    obtain ⟨above, s, hs, hkept, -⟩ := ih
    obtain ⟨k, s', hs', hkept', hrun, -⟩ := step?_keeps hm
    obtain ⟨f, above, rfl⟩ := List.exists_cons_of_ne_nil (l := above) (by
      rintro rfl
      simp [hs, ← hd, hkept.length_eq] at hlt)
    obtain ⟨ahead, hbelow⟩ : ∃ ahead, m₁.below = ahead ++ s := by
      unfold Machine.below
      split
      · exact ⟨f :: above, hs⟩
      · exact ⟨above, by rw [hs]; rfl⟩
    rw [hbelow] at hkept'
    have hdrop := (List.forall₂_drop_append _ _ _ hkept'.flip).flip
    refine ⟨k ++ s'.take ahead.length, s'.drop ahead.length, ?_, hkept.trans hdrop,
      fun h => hrun (List.append_eq_nil_iff.mp h).1⟩
    rw [hs', List.append_assoc, List.take_append_drop]

/-- Every operation comes to an end. Its steps are paid for by the operation and by what was held
back. -/
theorem call_ends (hT : T.Sound) (hc : m.control = .run op) :
    ∃ ms m', m.Within m.stack.length ms m' ∧ AllKept m.stack m'.stack ∧
      (∀ op', m'.control ≠ .run op') ∧ ms.length + T.held m' ≤ T.op op + T.held m := by
  obtain ⟨m₁, hm⟩ : ∃ m₁, m.step? = some m₁ := by
    cases op with
    | own a => exact ⟨_, step?_own hc⟩
    | context o => exact ⟨_, step?_context hc⟩
  obtain ⟨ms, m', hwithin, hend⟩ := within_ends hT m.stack.length hm
  obtain ⟨above, s, hs, hkept, hrun⟩ := hwithin.over hc
  obtain rfl : above = [] := by
    have := hkept.length_eq
    rw [hs, List.length_append] at hend
    exact List.length_eq_zero_iff.mp (by omega)
  obtain rfl : m'.stack = s := hs
  have hburden := hwithin.burden hT
  have hsame := T.stack_kept hkept
  have hop : T.control m.control = T.op op := by rw [hc]; rfl
  refine ⟨ms, m', hwithin, hkept, hrun rfl, ?_⟩
  simp only [Tariff.burden, Tariff.load, hop, hsame] at hburden
  omega

end Machine

end Conduit.Dispatch
