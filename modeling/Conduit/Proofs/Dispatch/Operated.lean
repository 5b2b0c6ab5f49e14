import Conduit.Proofs.Dispatch.Within

/-!
What operations on contexts come to. Such an operation does nothing to the component, to the frames
that are left to run and to the work that waits, but that it may open lines in which nothing waits,
and may have a line served to its end. Then it gives a reply, or begins to move a line.
-/

namespace Conduit.Dispatch.Machine

variable {C : Component} {m m₁ : Machine C}

/-- There is the same to do as before; new lines are empty. -/
structure Rearranged (m m₁ : Machine C) : Prop where
  state : m₁.state = m.state
  stack : AllKept m.stack m₁.stack
  lines : ∃ n, m₁.venues.map (·.waiting) = m.venues.map (·.waiting) ++ List.replicate n []

/-- There is the same to do as before, and then a reply is given or a line is moved. -/
inductive Operated (m : Machine C) : Machine C → Prop where
  | back {m₁ : Machine C} (h : m.Rearranged m₁) {r : Reply C.Answer} (hc : m₁.control = .back r) :
      Operated m m₁
  | drain {m₁ : Machine C} (h : m.Rearranged m₁) (v : Nat) (left : Option Nat) (ran : Nat) :
      Operated m (m₁.drain v left ran)
  | serve {m₁ : Machine C} (h : m.Rearranged m₁) (v : Nat) (left : Option Nat) (after : Reply C.Answer) :
      Operated m (m₁.serve v left after)

theorem Rearranged.of_eq (hs : m₁.state = m.state) (hk : m₁.stack = m.stack)
    (hv : m₁.venues = m.venues) : m.Rearranged m₁ :=
  ⟨hs, hk ▸ .refl _, 0, by simp [hv]⟩

theorem Rearranged.refl (m : Machine C) : m.Rearranged m := .of_eq rfl rfl rfl

variable (m) in
theorem openVenue_rearranged (id : String) (kind : VenueKind) (name : String) :
    m.Rearranged (m.openVenue id kind name) :=
  ⟨rfl, .refl _, 1, by simp [openVenue, bind]⟩

variable (m) in
theorem close_rearranged (v : Nat) : m.Rearranged (m.close v) := by
  have hwaiting : (m.close v).bare.waiting = m.bare.waiting := by rw [bare_close]
  exact ⟨rfl, .refl _, 0, by rw [List.replicate_zero, List.append_nil]; exact hwaiting⟩

theorem widen_rearranged (v : Nat) : m.Rearranged (m.widen v) :=
  ⟨rfl, m.widen_stack v ▸ .widen v m.stack, 0, by simp [widen]⟩

theorem Rearranged.wake (h : m.Rearranged m₁) (t : Task C) : m.Rearranged (m₁.wake t) := by
  obtain ⟨hs, hk, hv⟩ := h
  unfold Machine.wake
  split <;> exact ⟨hs, hk, hv⟩

theorem Rearranged.reply (h : m.Rearranged m₁) (r : Reply C.Answer) : m.Operated (m₁.reply r) := by
  obtain ⟨hs, hk, hv⟩ := h
  exact .back ⟨hs, hk, hv⟩ rfl

theorem make_operated (id : String) (kind : ContextKind) : m.Operated (m.make id kind) := by
  have hopened (kind : VenueKind) (name : String) := m.openVenue_rearranged id kind name
  cases kind with
  | direct | pool => exact .back (.of_eq rfl rfl rfl) rfl
  | manual => exact (hopened .manual id).reply .done
  | concurrent => exact (hopened .pool id).reply .done
  | thread name => exact (hopened .thread name).reply .done
  | serial label => exact ((hopened .serial label).wake _).reply .done
  | defaultThread =>
    simp only [make]
    split
    · exact .back (.of_eq rfl rfl rfl) rfl
    · obtain ⟨hs, hk, hv⟩ := hopened .thread "tether-runloop"
      exact .back ⟨hs, hk, hv⟩ rfl
  | copy of =>
    simp only [make]
    split
    · exact .back (.of_eq rfl rfl rfl) rfl
    · split <;> split <;> exact .back (.of_eq rfl rfl rfl) rfl

theorem forget_operated (id : String) : m.Operated (m.forget id) := by
  have hnames : m.Rearranged { m with names := m.names.filter (·.1 ≠ id) } := .of_eq rfl rfl rfl
  unfold forget
  dsimp only
  split
  · exact .back (.of_eq rfl rfl rfl) rfl
  split
  · exact .back (.of_eq rfl rfl rfl) rfl
  split
  · rename_i v _ _ _
    obtain ⟨hs, hk, hv⟩ := widen_rearranged (m := { m with names := m.names.filter (·.1 ≠ id) }) v
    exact .back ⟨hs, hk, hv⟩ rfl
  · exact .serve hnames ..

theorem stop_operated (v : Nat) : m.Operated (m.stop v) := by
  have hclosed := m.close_rearranged v
  unfold stop
  dsimp only
  split
  · exact hclosed.reply _
  split
  · exact (hclosed.wake _).reply _
  · exact .serve hclosed ..

/-- Every operation on contexts is of this kind. -/
theorem runContext_operated (o : ContextOp) : m.Operated (m.runContext o) := by
  have hreply (r : Reply C.Answer) : m.Operated (m.reply r) := .back (.of_eq rfl rfl rfl) rfl
  cases o with
  | make id kind => exact make_operated id kind
  | drain id limit =>
    simp only [runContext]
    split
    · exact hreply _
    · exact .drain (.refl m) ..
  | flush id =>
    simp only [runContext]
    split
    · exact hreply _
    split
    · exact hreply _
    split
    · exact hreply _
    split
    · exact hreply _
    · exact .serve (.refl m) ..
  | stop id =>
    simp only [runContext]
    split
    · exact hreply _
    · exact stop_operated _
  | forget id => exact forget_operated id
  | discipline id =>
    simp only [runContext]
    split <;> exact hreply _
  | same a b =>
    simp only [runContext]
    split <;> exact hreply _
  | inspect id =>
    simp only [runContext]
    split
    · exact hreply _
    split
    · split <;> exact hreply _
    · exact hreply _

end Conduit.Dispatch.Machine
