import Conduit.Proofs.Dispatch.Fifo

/-!
Lines that are the same but for idle work, which one of them holds in addition. When both are moved, they
bring the same work in the same order; the one only takes longer.
-/

namespace Conduit.Dispatch

/-- The second list is the first one with idle elements put between. -/
inductive Padded {α : Type} (idle : α → Prop) : List α → List α → Prop where
  | nil : Padded idle [] []
  | keep (x : α) {l l'} (h : Padded idle l l') : Padded idle (x :: l) (x :: l')
  | pad {x l l'} (hx : idle x) (h : Padded idle l l') : Padded idle l (x :: l')

/-- How far two such lists are gone through: both to the end, or both up to the same place. -/
inductive Reaches {α : Type} (idle : α → Prop) :
    List α → List α → Option Nat → Option Nat → Prop where
  | all {l l'} (h : Padded idle l l') : Reaches idle l l' none none
  | upTo {l l' k k'} (h : Padded idle l l') (hk : Padded idle k k') :
      Reaches idle (l ++ k) (l' ++ k') (some l.length) (some l'.length)

/-- What two lists bring next: nothing more, the same element, or an idle one of the second list.
`goes` says how they go on. -/
inductive Brings {α : Type} (idle : α → Prop)
    (goes : List α → List α → Option Nat → Option Nat → Prop) :
    List α → List α → Option Nat → Option Nat → Prop where
  | finish {l l' left left'} (h : left = some 0 ∨ l = []) (h' : left' = some 0 ∨ l' = []) :
      Brings idle goes l l' left left'
  | both {x l l' left left'} (h : left ≠ some 0) (h' : left' ≠ some 0)
      (hgoes : goes l l' (left.map (· - 1)) (left'.map (· - 1))) :
      Brings idle goes (x :: l) (x :: l') left left'
  | pad {x l l' left left'} (hx : idle x) (h' : left' ≠ some 0)
      (hgoes : goes l l' left (left'.map (· - 1))) : Brings idle goes l (x :: l') left left'

section Lists

variable {α : Type} {idle idle' : α → Prop} {x : α} {l l' k k' : List α} {left left' : Option Nat}

namespace Padded

theorem refl (idle : α → Prop) (l : List α) : Padded idle l l := by
  induction l with
  | nil => exact .nil
  | cons x l ih => exact .keep x ih

theorem mono (h : Padded idle l l') (hi : ∀ x, idle x → idle' x) : Padded idle' l l' := by
  induction h with
  | nil => exact .nil
  | keep x _ ih => exact .keep x ih
  | pad hx _ ih => exact .pad (hi _ hx) ih

theorem append (h : Padded idle l l') (hk : Padded idle k k') : Padded idle (l ++ k) (l' ++ k') := by
  induction h with
  | nil => exact hk
  | keep x _ ih => exact .keep x ih
  | pad hx _ ih => exact .pad hx ih

theorem length_le (h : Padded idle l l') : l.length ≤ l'.length := by
  induction h with
  | nil => exact Nat.le_refl _
  | keep _ _ ih => exact Nat.succ_le_succ ih
  | pad _ _ ih => exact Nat.le_succ_of_le ih

theorem idle_of_nil (h : Padded idle [] (x :: l)) : idle x ∧ Padded idle [] l := by
  cases h with
  | pad hx h => exact ⟨hx, h⟩

/-- Lists are gone through up to the same number, or to the end: if there is a number, they are the
same. -/
theorem brings (h : Padded idle l l') (left : Option Nat) (heven : left ≠ none → l' = l) :
    Brings idle (fun k k' n n' => Padded idle k k' ∧ n' = n) l l' left left := by
  by_cases hl : left = some 0
  · exact .finish (.inl hl) (.inl hl)
  cases left with
  | none =>
    cases h with
    | nil => exact .finish (.inr rfl) (.inr rfl)
    | keep x h => exact .both hl hl ⟨h, rfl⟩
    | pad hx h => exact .pad hx hl ⟨h, rfl⟩
  | some n =>
    obtain rfl := heven nofun
    cases l' with
    | nil => exact .finish (.inr rfl) (.inr rfl)
    | cons x l => exact .both hl hl ⟨.refl idle l, rfl⟩

end Padded

namespace Reaches

theorem padded (h : Reaches idle l l' left left') : Padded idle l l' := by
  cases h with
  | all h => exact h
  | upTo h hk => exact h.append hk

theorem mono (h : Reaches idle l l' left left') (hi : ∀ x, idle x → idle' x) :
    Reaches idle' l l' left left' := by
  cases h with
  | all h => exact .all (h.mono hi)
  | upTo h hk => exact .upTo (h.mono hi) (hk.mono hi)

/-- What joins later is behind the place up to which they are gone through, or is met as well. -/
theorem append (h : Reaches idle l l' left left') (hk : Padded idle k k') :
    Reaches idle (l ++ k) (l' ++ k') left left' := by
  cases h with
  | all h => exact .all (h.append hk)
  | upTo h h₂ =>
    rw [List.append_assoc, List.append_assoc]
    exact .upTo h (h₂.append hk)

/-- Lists are gone through up to where they end now. -/
theorem whole (h : Padded idle l l') : Reaches idle l l' (some l.length) (some l'.length) := by
  simpa using Reaches.upTo h .nil

theorem keep {n n' : Nat} (h : Reaches idle l l' (some n) (some n')) (x : α) :
    Reaches idle (x :: l) (x :: l') (some (n + 1)) (some (n' + 1)) := by
  cases h with
  | upTo h hk => exact .upTo (.keep x h) hk

theorem pad {n n' : Nat} (h : Reaches idle l l' (some n) (some n')) (hx : idle x) :
    Reaches idle l (x :: l') (some n) (some (n' + 1)) := by
  cases h with
  | upTo h hk => exact .upTo (.pad hx h) hk

theorem brings (h : Reaches idle l l' left left') : Brings idle (Reaches idle) l l' left left' := by
  cases h with
  | all h =>
    cases h with
    | nil => exact .finish (.inr rfl) (.inr rfl)
    | keep x h => exact .both nofun nofun (.all h)
    | pad hx h => exact .pad hx nofun (.all h)
  | upTo h hk =>
    cases h with
    | nil => exact .finish (.inl rfl) (.inl rfl)
    | keep x h => exact .both (by simp) (by simp) (by simpa using upTo h hk)
    | pad hx h => exact .pad hx (by simp) (by simpa using upTo h hk)

end Reaches

/-- How far the first list is gone through, the second one can be gone through as well. -/
theorem Padded.reaches (h : Padded idle l l') {n : Nat} (hn : n ≤ l.length) :
    ∃ n', n' ≤ l'.length ∧ Reaches idle l l' (some n) (some n') := by
  induction h generalizing n with
  | nil =>
    obtain rfl := Nat.le_zero.mp hn
    exact ⟨0, Nat.le_refl _, .upTo .nil .nil⟩
  | keep x h ih =>
    cases n with
    | zero => exact ⟨0, Nat.zero_le _, .upTo .nil (.keep x h)⟩
    | succ n =>
      obtain ⟨n', hn', hr⟩ := ih (Nat.le_of_succ_le_succ hn)
      exact ⟨n' + 1, Nat.succ_le_succ hn', hr.keep x⟩
  | pad hx _ ih =>
    obtain ⟨n', hn', hr⟩ := ih hn
    exact ⟨n' + 1, Nat.succ_le_succ hn', hr.pad hx⟩

/-- How far the second list is gone through, the first one can be gone through as well. -/
theorem Padded.reached (h : Padded idle l l') {n' : Nat} (hn : n' ≤ l'.length) :
    ∃ n, n ≤ l.length ∧ Reaches idle l l' (some n) (some n') := by
  induction h generalizing n' with
  | nil =>
    obtain rfl := Nat.le_zero.mp hn
    exact ⟨0, Nat.le_refl _, .upTo .nil .nil⟩
  | keep x h ih =>
    cases n' with
    | zero => exact ⟨0, Nat.zero_le _, .upTo .nil (.keep x h)⟩
    | succ n' =>
      obtain ⟨n, hn, hr⟩ := ih (Nat.le_of_succ_le_succ hn)
      exact ⟨n + 1, Nat.succ_le_succ hn, hr.keep x⟩
  | pad hx h ih =>
    cases n' with
    | zero => exact ⟨0, Nat.zero_le _, .upTo .nil (.pad hx h)⟩
    | succ n' =>
      obtain ⟨n, hn, hr⟩ := ih (Nat.le_of_succ_le_succ hn)
      exact ⟨n, hn, hr.pad hx⟩

end Lists

end Conduit.Dispatch
