import Conduit.Proofs.Dispatch.Operated

/-!
How many callbacks are under way: each one that has been started leaves its script on the stack until
it is over. In a step there is one more only if the component starts a callback. A throw counts as a
callback that throws in the end; so a stretch in which no such callback starts is left without a throw
if it was entered without one.
-/

namespace Conduit.Dispatch

variable {C : Component} (g : Bool → Bool)

/-- The rest of a callback of a kind: `g` says whether callbacks count that throw in the end, and
whether the others do. -/
def Frame.isScript : Frame C → Bool
  | .script _ _ throws => g throws
  | _ => false

/-- How many callbacks of a kind are on a stack. -/
def scripts (s : List (Frame C)) : Nat := s.countP (·.isScript g)

/-- Whether a turn starts a callback of a kind. -/
def Next.launches : Next C.toSignature → Bool
  | .script _ _ throws _ => g throws
  | .throw => g true
  | _ => false

/-- A throw stands for the callback that it came from. -/
def Control.script : Control C → Bool
  | .thrown => g true
  | _ => false

section Stacks

variable {g} {s s' : List (Frame C)}

@[simp] theorem scripts_nil : scripts g ([] : List (Frame C)) = 0 := rfl

@[simp] theorem scripts_cons (f : Frame C) (s : List (Frame C)) :
    scripts g (f :: s) = scripts g s + (f.isScript g).toNat := by
  unfold scripts
  cases h : f.isScript g <;> simp [h]

@[simp] theorem scripts_own (k : List C.Frame) (s : List (Frame C)) :
    scripts g (k.map .own ++ s) = scripts g s := by
  induction k with
  | nil => rfl
  | cons f k ih => simp [ih, Frame.isScript]

theorem scripts_kept (h : AllKept s s') : scripts g s' = scripts g s := by
  induction h with
  | nil => rfl
  | cons hf _ ih =>
    rw [scripts_cons, scripts_cons, ih]
    cases hf <;> rfl

end Stacks

namespace Machine

/-- How many callbacks of a kind are under way. -/
def underway (m : Machine C) : Nat := scripts g m.stack + (m.control.script g).toNat

/-- Whether the next step starts a callback of a kind. -/
def launches (m : Machine C) : Bool := m.turn?.any (·.next.launches g)

variable {g} {m m' : Machine C}

theorem underway_back {r : Reply C.Answer} (hc : m.control = .back r) :
    m.underway g = scripts g m.stack := by
  rw [underway, hc]
  rfl

theorem underway_serve (v : Nat) (left : Option Nat) (after : Reply C.Answer) :
    (m.serve v left after).underway g = scripts g m.stack := by
  unfold serve
  split
  · rfl
  split
  · rfl
  · rename_i w m₁ hw
    rw [underway_back rfl]
    simp [next?_stack hw, Frame.isScript]

theorem underway_drain (v : Nat) (left : Option Nat) (ran : Nat) :
    (m.drain v left ran).underway g = scripts g m.stack := by
  unfold drain
  split
  · rfl
  split
  · rfl
  · rename_i w m₁ hw
    rw [underway_back rfl]
    simp [next?_stack hw, Frame.isScript]

/-- No operation on contexts starts a callback by itself. -/
theorem underway_runContext (o : ContextOp) :
    (m.runContext o).underway g = scripts g m.stack := by
  have hoperated := runContext_operated (m := m) o
  generalize m.runContext o = m' at hoperated ⊢
  cases hoperated with
  | back h hc => exact (underway_back hc).trans (scripts_kept h.stack)
  | drain h => exact (underway_drain ..).trans (scripts_kept h.stack)
  | serve h => exact (underway_serve ..).trans (scripts_kept h.stack)

theorem underway_runScript (tag : C.Tag) (ops : List (Op C.Action)) (throws : Bool) :
    (m.runScript tag ops throws).underway g = scripts g m.stack + (g throws).toNat ∨
      (m.runScript tag ops throws).underway g = scripts g m.stack := by
  cases ops with
  | nil =>
    cases throws with
    | false => exact .inr rfl
    | true => exact .inl rfl
  | cons op ops => exact .inl (scripts_cons ..)

theorem underway_goOn (next : Next C.toSignature) :
    (m.goOn next).underway g ≤ scripts g m.stack + (next.launches g).toNat := by
  have hpush (k : List C.Frame) : scripts g (m.pushOwn k).stack = scripts g m.stack :=
    scripts_own k m.stack
  cases next with
  | reply | throw => exact Nat.le_refl _
  | enter k => exact Nat.le_of_eq (hpush k)
  | script tag ops throws k =>
    have h := underway_runScript (g := g) (m := m.pushOwn k) tag ops throws
    rw [hpush] at h
    rcases h with h | h
    · exact Nat.le_of_eq h
    · exact Nat.le_trans (Nat.le_of_eq h) (Nat.le_add_right ..)
  | perform c w k =>
    simp only [goOn, handOver]
    split
    · rw [underway_back rfl, scripts_cons, hpush]
      exact Nat.le_refl _
    · rw [underway_back rfl, scripts_cons, scripts_cons, hpush]
      exact Nat.le_refl _
    · exact Nat.le_of_eq ((congrArg (scripts g) (enqueue_stack _ _ _)).trans (hpush k))

theorem underway_take (t : Turn C.toSignature) :
    (m.take t).underway g ≤ scripts g m.stack + (t.next.launches g).toNat := by
  rw [take_eq_goOn, ← m.hear_stack t]
  exact underway_goOn t.next

/-- A reply reaches a frame. -/
theorem underway_returnTo {f : Frame C} {k : List (Frame C)} {r : Reply C.Answer}
    (hc : m.control = .back r) (hs : m.stack = f :: k) :
    (({ m with stack := k } : Machine C).returnTo r f).underway g ≤
      m.underway g + (m.launches g).toNat := by
  rw [underway_back hc, hs, scripts_cons]
  generalize hn : ({ m with stack := k } : Machine C) = n
  have hk : k = n.stack := by rw [← hn]
  cases f with
  | own f =>
    have htake := underway_take (g := g) (m := n) (C.resume m.state f)
    have hstate : n.state = m.state := by rw [← hn]
    rw [launches, turn?_back hc hs, hk, returnTo, hstate]
    exact htake
  | script tag rest throws =>
    have h := underway_runScript (g := g) (m := n.record (.answered n.lane tag r)) tag rest throws
    rw [hk, Nat.add_assoc]
    rcases h with h | h
    · exact Nat.le_trans (Nat.le_of_eq h) (Nat.add_le_add_left (Nat.le_add_right ..) _)
    · exact Nat.le_trans (Nat.le_of_eq h) (Nat.le_add_right ..)
  | turn | task =>
    rw [hk, Nat.add_assoc]
    exact Nat.le_add_right ..
  | drain v left ran =>
    rw [hk, Nat.add_assoc]
    exact Nat.le_trans (Nat.le_of_eq (underway_drain ..)) (Nat.le_add_right ..)
  | serve v left after =>
    rw [hk, Nat.add_assoc]
    exact Nat.le_trans (Nat.le_of_eq (underway_serve ..)) (Nat.le_add_right ..)

/-- A throw reaches a frame. -/
theorem underway_unwind (f : Frame C) :
    (m.unwind f).underway g ≤ m.underway g := by
  cases f with
  | own f =>
    obtain ⟨hs, hcontrol⟩ := wakeAll_stack { m with state := (C.unwind m.state f).1 }
      (C.unwind m.state f).2
    rw [underway, show (m.unwind (.own f)).stack = m.stack from hs,
      show (m.unwind (.own f)).control = m.control from hcontrol]
    exact Nat.le_refl _
  | turn | task => exact Nat.le_add_right ..
  | _ => exact Nat.le_refl _

theorem step?_underway (hm : m.step? = some m') :
    m'.underway g ≤ m.underway g + (m.launches g).toNat := by
  unfold step? at hm
  split at hm
  · rename_i a hc
    cases hm
    have hturn : m.turn? = some (C.exec m.view m.state a) := by
      simp [turn?, moment?_eq (cause?_own hc), Moment.turn?]
    have hunder : m.underway g = scripts g m.stack := by
      rw [underway, hc]
      rfl
    rw [launches, hturn, hunder]
    exact underway_take _
  · cases hm
    rw [underway_runContext, underway, Nat.add_assoc]
    exact Nat.le_add_right ..
  · rename_i r hc
    split at hm
    · cases hm
    · rename_i f k hs
      cases hm
      exact underway_returnTo hc hs
  · rename_i hc
    split at hm
    · cases hm
    · rename_i f k hs
      cases hm
      have hless : ({ m with stack := k } : Machine C).underway g ≤ m.underway g := by
        simp only [underway, hs, scripts_cons]
        omega
      exact Nat.le_trans (underway_unwind (m := { m with stack := k }) f)
        (Nat.le_trans hless (Nat.le_add_right ..))

/-- In a step there is one more callback under way only if the component starts it. -/
theorem advance?_underway (hm : m.advance? = some m') :
    m'.underway g ≤ m.underway g + (m.launches g).toNat := by
  unfold advance? at hm
  split at hm
  · rename_i hstep
    cases hm
    exact step?_underway hstep
  · rename_i hstep
    unfold poll? at hm
    split at hm
    · cases hm
    · rename_i t rest hr
      have hcause := cause?_stopped hstep hr
      cases t with
      | serve v =>
        cases hm
        rw [underway_serve]
        exact Nat.zero_le _
      | own t =>
        cases hm
        have hturn : m.turn? = some (C.poll m.state t) := by
          simp [turn?, moment?_eq hcause, Moment.turn?]
        have htake := underway_take (g := g)
          (m := { m with ready := rest, stack := [.task], control := .back .done })
          (C.poll m.state t)
        rw [launches, hturn]
        exact Nat.le_trans htake (Nat.add_le_add_right (Nat.zero_le _) _)

/-! ### Stretches without a throw -/

/-- Nothing throws in a step of a calm stretch. -/
theorem launches_of_calm (hc : Calm m.moment?.toList) : m.launches id = false := by
  unfold launches turn?
  cases hq : m.moment? with
  | none => rfl
  | some q =>
    have hq := hc q (by simp [hq])
    simp only [Option.bind_some]
    cases ht : q.turn? with
    | none => rfl
    | some t =>
      rw [ht] at hq
      have hnext : t.next.throws = false := hq
      rw [Option.any_some]
      revert hnext
      cases t.next <;> exact id

/-- No more callbacks that throw in the end are under way after a calm stretch than before. -/
theorem Within.underway_le {d : Nat} {ms : List (Machine C)} (h : m.Within d ms m')
    (hc : Calm (ms.flatMap (·.moment?.toList))) : m'.underway id ≤ m.underway id := by
  induction h with
  | enter hm =>
    have hstep := step?_underway (g := id) hm
    rwa [launches_of_calm (by simpa using hc)] at hstep
  | next _ _ hm ih =>
    rw [List.flatMap_append] at hc
    have hstep := step?_underway (g := id) hm
    rw [launches_of_calm fun q hq => hc q (by simp [hq])] at hstep
    exact Nat.le_trans hstep (ih fun q hq => hc q (List.mem_append_left _ hq))

/-- An operation in which nothing throws does not end in a throw. -/
theorem Within.not_thrown {d : Nat} {ms : List (Machine C)} {op : Op C.Action}
    (h : m.Within d ms m') (hop : m.control = .run op) (hkept : AllKept m.stack m'.stack)
    (hc : Calm (ms.flatMap (·.moment?.toList))) : m'.control ≠ .thrown := by
  intro hthrown
  have hle := h.underway_le hc
  rw [underway, underway, hop, hthrown, scripts_kept hkept] at hle
  exact Nat.not_succ_le_self _ hle

end Machine

end Conduit.Dispatch
