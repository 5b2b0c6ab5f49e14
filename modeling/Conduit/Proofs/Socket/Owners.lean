import Conduit.Proofs.Kernel.Operations
import Conduit.Proofs.Socket.Grounded

/-!
Who may link a descriptor. A descriptor that has not been linked belongs to one owner, who may make a
listener or a connection of it: a socket of its own, a slot, or an attempt. So no descriptor is ever
linked twice, and whatever sockets do, streams go on carrying their bytes.
-/

namespace Conduit.Socket

open Dispatch
open Kernel (System Log)

/-- Those to whom a descriptor may belong that has not been linked. -/
inductive Owner where
  | name (id : String)
  | slot (i : Nat)
  | attempt (a : Nat)
  deriving DecidableEq

/-- The descriptor of a socket that neither listens nor connects yet. -/
def Stage.held? : Stage → Option Nat
  | .bound b => b.descriptor
  | _ => none

theorem Stage.Harmless.held? {st : Stage} (h : st.Harmless) : st.held? = none := by
  cases st with
  | bound b =>
    obtain ⟨descriptor, limits⟩ := b
    cases descriptor with
    | none => rfl
    | some d => exact absurd rfl (h d limits)
  | _ => rfl

/-- The owner that a name stands for. -/
def Handle.owner (id : String) : Handle → Owner
  | .sole _ => .name id
  | .shared i => .slot i

namespace Sockets

variable {s s' s'' : Sockets}

def Owns (s : Sockets) : Owner → Nat → Prop
  | .name id, d => ∃ st : Stage, (id, Handle.sole st) ∈ s.handles ∧ st.held? = some d
  | .slot i, d => ∃ st, s.slots[i]? = some st ∧ st.held? = some d
  | .attempt a, d => ∃ x, s.attempts[a]? = some x ∧ x.descriptor? = some d

/-- Descriptors that may be linked have one owner each, and have not been. -/
structure Exclusive (s : Sockets) : Prop where
  present : ∀ o d, s.Owns o d → ∃ t, s.system.type? d = some t
  single : ∀ o d, s.Owns o d → s.system.Single d
  alone : ∀ o o' d, s.Owns o d → s.Owns o' d → o = o'

/-- Owners keep what they own at most. -/
def Releases (s s' : Sockets) : Prop := ∀ o d, s'.Owns o d → s.Owns o d

/-- What is done to a state in which descriptors have one owner each. -/
structure Respects (s s' : Sockets) : Prop where
  exclusive : s.Exclusive → s'.Exclusive
  streams : s.Exclusive → ∀ log, s.system.Streams log → s'.system.Streams log

theorem Respects.refl (s : Sockets) : s.Respects s := ⟨id, fun _ _ => id⟩

theorem Respects.trans (h : s.Respects s') (h' : s'.Respects s'') : s.Respects s'' :=
  ⟨fun hs => h'.exclusive (h.exclusive hs),
    fun hs log hl => h'.streams (h.exclusive hs) log (h.streams hs log hl)⟩

theorem Releases.exclusive (h : s.Releases s') (hg : s.system.Spares s'.system none)
    (hs : s.Exclusive) : s'.Exclusive where
  present o d ho := by
    obtain ⟨t, ht⟩ := hs.present o d (h o d ho)
    exact ⟨t, hg.type d t ht⟩
  single o d ho := by
    obtain ⟨t, ht⟩ := hs.present o d (h o d ho)
    exact hg.single d t ht nofun (hs.single o d (h o d ho))
  alone o o' d ho ho' := hs.alone o o' d (h o d ho) (h o' d ho')

theorem Releases.respects (h : s.Releases s') (hg : s.system.Goes s'.system none) :
    s.Respects s' :=
  ⟨h.exclusive hg.toSpares, fun _ => hg.streams⟩

theorem Releases.refl (s : Sockets) : s.Releases s := fun _ _ => id

theorem Releases.trans (h : s.Releases s') (h' : s'.Releases s'') : s.Releases s'' :=
  fun o d ho => h o d (h' o d ho)

/-- Names, slots and attempts stay. -/
theorem Releases.of_eq (hhandles : s'.handles = s.handles) (hslots : s'.slots = s.slots)
    (hattempts : s'.attempts = s.attempts) : s.Releases s' := by
  intro o d ho
  cases o <;> simpa [Owns, hhandles, hslots, hattempts] using ho

/-- Nothing changes that owners or descriptors are about. -/
theorem Respects.of_eq (hsystem : s.system.Goes s'.system none) (hhandles : s'.handles = s.handles)
    (hslots : s'.slots = s.slots) (hattempts : s'.attempts = s.attempts) : s.Respects s' :=
  (Releases.of_eq hhandles hslots hattempts).respects hsystem

/-- A descriptor passes to an owner; whoever had it before has it no more. -/
theorem Exclusive.pass (hs : s.Exclusive) {o : Owner} {d : Nat}
    (hpresent : ∃ t, s'.system.type? d = some t) (hsingle : s'.system.Single d)
    (hg : s.system.Spares s'.system none)
    (howns : ∀ o' b, s'.Owns o' b → o' = o ∧ b = d ∨ s.Owns o' b ∧ b ≠ d) : s'.Exclusive where
  present o' b hb := by
    rcases howns o' b hb with ⟨-, rfl⟩ | ⟨hb, -⟩
    · exact hpresent
    · obtain ⟨t, ht⟩ := hs.present o' b hb
      exact ⟨t, hg.type b t ht⟩
  single o' b hb := by
    rcases howns o' b hb with ⟨-, rfl⟩ | ⟨hb, -⟩
    · exact hsingle
    · obtain ⟨t, ht⟩ := hs.present o' b hb
      exact hg.single b t ht nofun (hs.single o' b hb)
  alone o₁ o₂ b h₁ h₂ := by
    -- Either it has just passed to both, or both had it before.
    rcases howns o₁ b h₁ with ⟨rfl, rfl⟩ | ⟨h₁, hne⟩
    · rcases howns o₂ b h₂ with ⟨rfl, -⟩ | ⟨-, hne⟩
      · rfl
      · exact absurd rfl hne
    · rcases howns o₂ b h₂ with ⟨-, rfl⟩ | ⟨h₂, -⟩
      · exact absurd rfl hne
      · exact hs.alone o₁ o₂ b h₁ h₂

/-- An owner links its descriptor, and owns it no more. -/
theorem Exclusive.link (hs : s.Exclusive) {o : Owner} {d : Nat} (hd : s.Owns o d)
    (hg : s.system.Spares s'.system (some d))
    (howns : ∀ o' b, s'.Owns o' b → s.Owns o' b ∧ o' ≠ o) : s'.Exclusive where
  present o' b hb := by
    obtain ⟨t, ht⟩ := hs.present o' b (howns o' b hb).1
    exact ⟨t, hg.type b t ht⟩
  single o' b hb := by
    obtain ⟨hb, hne⟩ := howns o' b hb
    obtain ⟨t, ht⟩ := hs.present o' b hb
    refine hg.single b t ht (fun heq => ?_) (hs.single o' b hb)
    -- Nobody else had the descriptor that is linked.
    cases heq
    exact hne (hs.alone o' o d hb hd)
  alone o₁ o₂ b h₁ h₂ := hs.alone o₁ o₂ b (howns o₁ b h₁).1 (howns o₂ b h₂).1

/-! ### Names, slots and attempts -/

theorem Releases.bindHandle (s : Sockets) (id : String) {h : Handle}
    (hh : ∀ st, h = .sole st → st.held? = none) : s.Releases (s.bindHandle id h) := by
  intro o d ho
  cases o with
  | name id' =>
    obtain ⟨st, hst, hd⟩ := ho
    rcases List.mem_cons.mp hst with hst | hst
    · have := hh st (Prod.mk.inj hst).2.symm
      rw [this] at hd
      cases hd
    · exact ⟨st, (List.mem_filter.mp hst).1, hd⟩
  | _ => exact ho

theorem Releases.forget (s : Sockets) (id : String) : s.Releases (s.forget id) := by
  intro o d ho
  cases o with
  | name id' =>
    obtain ⟨st, hst, hd⟩ := ho
    exact ⟨st, (List.mem_filter.mp hst).1, hd⟩
  | _ => exact ho

/-- A socket in another stage owns what that stage holds, and nothing else. -/
theorem owns_setStage {id : String} {h : Handle} {st : Stage} {o : Owner} {d : Nat}
    (ho : (s.setStage id h st).Owns o d) :
    o = h.owner id ∧ st.held? = some d ∨ s.Owns o d ∧ o ≠ h.owner id := by
  cases h with
  | sole st₀ =>
    cases o with
    | name id' =>
      obtain ⟨st', hst', hd⟩ := ho
      rcases List.mem_cons.mp hst' with hnew | hst'
      · obtain ⟨hid, hsole⟩ := Prod.mk.inj hnew
        obtain rfl := Handle.sole.inj hsole
        exact .inl ⟨congrArg Owner.name hid, hd⟩
      · obtain ⟨hmem, hne⟩ := List.mem_filter.mp hst'
        refine .inr ⟨⟨st', hmem, hd⟩, fun heq => ?_⟩
        exact of_decide_eq_true hne (Owner.name.inj heq)
    | slot j => exact .inr ⟨ho, nofun⟩
    | attempt a => exact .inr ⟨ho, nofun⟩
  | shared i =>
    cases o with
    | slot j =>
      obtain ⟨st', hst', hd⟩ := ho
      rw [show (s.setStage id (.shared i) st).slots = s.slots.set i st from rfl,
        List.getElem?_set] at hst'
      split at hst'
      · rename_i hij
        subst hij
        split at hst'
        · cases hst'
          exact .inl ⟨rfl, hd⟩
        · cases hst'
      · rename_i hij
        exact .inr ⟨⟨st', hst', hd⟩, fun heq => hij (Owner.slot.inj heq).symm⟩
    | name id' => exact .inr ⟨ho, nofun⟩
    | attempt a => exact .inr ⟨ho, nofun⟩

theorem Releases.setStage (s : Sockets) (id : String) (h : Handle) {st : Stage}
    (hst : st.held? = none) : s.Releases (s.setStage id h st) := by
  intro o d ho
  rcases owns_setStage ho with ⟨-, hd⟩ | ⟨ho, -⟩
  · rw [hst] at hd
    cases hd
  · exact ho

theorem Releases.setSlot (s : Sockets) (i : Nat) {st : Stage} (hst : st.held? = none) :
    s.Releases { s with slots := s.slots.set i st } :=
  .setStage s "" (.shared i) hst

/-- The stage of a name is held by its owner. -/
theorem owns_of_stage {id : String} {h : Handle} {d : Nat} (hh : s.handle? id = some h)
    (hd : (s.stageOf h).held? = some d) : s.Owns (h.owner id) d := by
  cases h with
  | sole st => exact ⟨st, mem_of_handle? hh, hd⟩
  | shared i =>
    refine ⟨s.stageOf (.shared i), s.slot_of_stage rfl fun hclosed => ?_, hd⟩
    rw [hclosed] at hd
    cases hd

theorem owns_addAttempt {id : String} {x : Attempt} {o : Owner} {d : Nat}
    (ho : (s.addAttempt id x).Owns o d) :
    o = .attempt s.attempts.length ∧ x.descriptor? = some d ∨ s.Owns o d := by
  cases o with
  | attempt b =>
    obtain ⟨y, hy, hd⟩ := ho
    have hy : (s.attempts ++ [x])[b]? = some y := hy
    rw [List.getElem?_append] at hy
    split at hy
    · exact .inr ⟨y, hy, hd⟩
    · obtain ⟨hb, rfl⟩ : b - s.attempts.length = 0 ∧ x = y := by
        simpa [List.getElem?_singleton, and_comm] using hy
      have : b = s.attempts.length := by omega
      exact .inl ⟨this ▸ rfl, hd⟩
  | name id' => exact .inr ho
  | slot j => exact .inr ho

/-- What is prepared for an attempt belongs to it, and no more to the socket that is connected. -/
theorem owns_startAttempt {id : String} {h : Handle} {x : Attempt} {o : Owner} {d : Nat}
    (ho : (s.startAttempt id h x).state.Owns o d) :
    o = .attempt s.attempts.length ∧ x.descriptor? = some d ∨ s.Owns o d ∧ o ≠ h.owner id := by
  cases h with
  | sole st =>
    rcases owns_addAttempt (s := s.forget id) ho with ho | ho
    · exact .inl ho
    · refine .inr ⟨Releases.forget s id o d ho, fun heq => ?_⟩
      subst heq
      obtain ⟨st', hst', -⟩ := ho
      exact of_decide_eq_true (List.mem_filter.mp hst').2 rfl
  | shared i =>
    rcases owns_addAttempt (s := s.setStage id (.shared i) (.connecting s.attempts.length)) ho
      with ho | ho
    · exact .inl ho
    · rcases owns_setStage ho with ⟨-, hd⟩ | ho
      · cases hd
      · exact .inr ho

theorem Releases.modifyAttempt (s : Sockets) (a : Nat) {f : Attempt → Attempt}
    (hf : ∀ x d, s.attempts[a]? = some x → (f x).descriptor? = some d → x.descriptor? = some d) :
    s.Releases { s with attempts := s.attempts.modify a f } := by
  intro o d ho
  cases o with
  | attempt b =>
    obtain ⟨x, hx, hd⟩ := ho
    rw [List.getElem?_modify] at hx
    obtain ⟨x', hx', rfl⟩ := Option.map_eq_some_iff.mp hx
    split at hd
    · rename_i hab
      subst hab
      exact ⟨x', hx', hf x' d hx' hd⟩
    · exact ⟨x', hx', hd⟩
  | _ => exact ho

end Sockets

end Conduit.Socket
