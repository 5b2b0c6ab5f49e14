import Conduit.Proofs.Dispatch.Run

/-!
Runs in which nothing throws. No frame is ever passed by a throw in such a run: a machine is tame
while no throw is under way and no callback on its stack will throw, and every step keeps it tame.
-/

namespace Conduit.Dispatch

variable {C : Component}

/-- A callback that has been started and will throw. -/
def Frame.throws : Frame C → Bool
  | .script _ _ throws => throws
  | _ => false

namespace Machine

/-- No throw is under way, and none will start from the stack. -/
structure Tame (m : Machine C) : Prop where
  control : m.control ≠ .thrown
  stack : ∀ f ∈ m.stack, f.throws = false

variable {m m' : Machine C}

theorem Tame.of_stack (h : m.Tame) (hs : m'.stack = m.stack) (hc : m'.control ≠ .thrown) :
    m'.Tame :=
  ⟨hc, hs ▸ h.stack⟩

/-- A reply that leaves the stack alone keeps a machine tame. -/
theorem Tame.back (h : m.Tame) {r : Reply C.Answer} (hc : m'.control = .back r)
    (hs : m'.stack = m.stack) : m'.Tame :=
  h.of_stack hs (by simp [hc])

/-- Frames that do not throw are put on the stack. -/
theorem Tame.push (h : m.Tame) (k : List (Frame C)) (hk : ∀ f ∈ k, f.throws = false)
    (hs : m'.stack = k ++ m.stack) (hc : m'.control ≠ .thrown) : m'.Tame := by
  refine ⟨hc, fun f hf => ?_⟩
  rw [hs] at hf
  rcases List.mem_append.mp hf with hf | hf
  · exact hk f hf
  · exact h.stack f hf

theorem wake_stack (m : Machine C) (t : Task C) :
    (m.wake t).stack = m.stack ∧ (m.wake t).control = m.control := by
  unfold wake
  split <;> exact ⟨rfl, rfl⟩

theorem wakeAll_stack (m : Machine C) (ts : List C.Task) :
    (m.wakeAll ts).stack = m.stack ∧ (m.wakeAll ts).control = m.control := by
  induction ts generalizing m with
  | nil => exact ⟨rfl, rfl⟩
  | cons t ts ih =>
    obtain ⟨hs, hc⟩ := ih (m.wake (.own t))
    obtain ⟨hs', hc'⟩ := m.wake_stack (.own t)
    exact ⟨hs.trans hs', hc.trans hc'⟩

theorem enqueue_stack (m : Machine C) (v : Nat) (work : C.Frame) :
    (m.enqueue v work).stack = m.stack := by
  unfold enqueue
  split
  · rfl
  split
  · exact (wakeAll_stack _ _).1
  · dsimp only
    split
    · exact (wake_stack _ _).1
    · rfl

theorem next?_stack {v : Nat} {work : C.Frame} (h : m.next? v = some (work, m')) :
    m'.stack = m.stack := by
  unfold next? at h
  split at h
  · cases h
  split at h
  · cases h
  · cases h
    rfl

theorem Tame.drain (h : m.Tame) (v : Nat) (left : Option Nat) (ran : Nat) :
    (m.drain v left ran).Tame := by
  unfold Machine.drain
  split
  · exact h.back rfl rfl
  split
  · exact h.back rfl rfl
  · rename_i work m' hn
    refine h.push [.own work, .drain v (left.map (· - 1)) (ran + 1)] ?_ ?_ (by simp)
    · simp [Frame.throws]
    · simp [next?_stack hn]

theorem Tame.serve (h : m.Tame) (v : Nat) (left : Option Nat) (after : Reply C.Answer) :
    (m.serve v left after).Tame := by
  unfold Machine.serve
  split
  · exact h.back rfl rfl
  split
  · exact h.back rfl rfl
  · rename_i work m' hn
    refine h.push [.own work, .turn (.venue v), .serve v (left.map (· - 1)) after] ?_ ?_ (by simp)
    · simp [Frame.throws]
    · simp [next?_stack hn]

theorem Tame.widen (h : m.Tame) (v : Nat) : (m.widen v).Tame := by
  refine ⟨h.control, fun f hf => ?_⟩
  obtain ⟨g, hg, rfl⟩ := List.mem_map.mp hf
  have := h.stack g hg
  cases g <;> simp_all [Frame.throws]

theorem Tame.make (h : m.Tame) (id : String) (kind : ContextKind) : (m.make id kind).Tame := by
  cases kind with
  | serial label => exact h.back rfl (wake_stack _ _).1
  | defaultThread =>
    unfold Machine.make
    dsimp only
    split <;> exact h.back rfl rfl
  | copy =>
    unfold Machine.make
    dsimp only
    split
    · exact h.back rfl rfl
    · split <;> split <;> exact h.back rfl rfl
  | _ => exact h.back rfl rfl

theorem Tame.forget (h : m.Tame) (id : String) : (m.forget id).Tame := by
  have hn : Tame { m with names := m.names.filter (·.1 ≠ id) } := ⟨h.control, h.stack⟩
  unfold Machine.forget
  dsimp only
  split
  · exact h.back rfl rfl
  split
  · exact h.back rfl rfl
  split
  · exact (hn.widen _).back rfl rfl
  · exact hn.serve _ _ _

theorem Tame.stop (h : m.Tame) (v : Nat) : (m.stop v).Tame := by
  unfold Machine.stop
  dsimp only
  split
  · exact h.back rfl rfl
  split
  · exact h.back rfl (wake_stack (m.close v) _).1
  · exact Tame.serve (m := m.close v) ⟨h.control, h.stack⟩ _ _ _

theorem Tame.runContext (h : m.Tame) (o : ContextOp) : (m.runContext o).Tame := by
  cases o with
  | make id kind => exact h.make id kind
  | drain id limit =>
    simp only [Machine.runContext]
    split
    · exact h.back rfl rfl
    · exact h.drain _ _ _
  | flush id =>
    simp only [Machine.runContext]
    split
    · exact h.back rfl rfl
    split
    · exact h.back rfl rfl
    split
    · exact h.back rfl rfl
    split
    · exact h.back rfl rfl
    · exact h.serve _ _ _
  | stop id =>
    simp only [Machine.runContext]
    split
    · exact h.back rfl rfl
    · exact h.stop _
  | forget id => exact h.forget id
  | discipline id =>
    simp only [Machine.runContext]
    split <;> exact h.back rfl rfl
  | same a b =>
    simp only [Machine.runContext]
    split <;> exact h.back rfl rfl
  | inspect id =>
    simp only [Machine.runContext]
    split
    · exact h.back rfl rfl
    split
    · split
      all_goals exact h.back rfl rfl
    · exact h.back rfl rfl

theorem Tame.runScript (h : m.Tame) (hs : m'.stack = m.stack) (tag : C.Tag)
    (ops : List (Op C.Action)) : (m'.runScript tag ops false).Tame := by
  cases ops with
  | nil => exact h.back rfl hs
  | cons op rest =>
    refine h.push [.script tag rest false] (by simp [Frame.throws]) ?_ (by simp [Machine.runScript])
    simp [Machine.runScript, hs]

theorem Tame.pushOwn (h : m.Tame) (k : List C.Frame) : (m.pushOwn k).Tame :=
  h.push (k.map .own) (by simp [Frame.throws]) rfl h.control

/-- A turn that does not throw keeps a machine tame. -/
theorem Tame.take (h : m.Tame) (t : Turn C.toSignature) (ht : t.next.throws = false) :
    (m.take t).Tame := by
  have hw : Tame (wakeAll { m with
      state := t.state
      journal := (t.notes.map fun n => Entry.note m.lane n).reverse ++ m.journal } t.wakes) := by
    obtain ⟨hs, hc⟩ := wakeAll_stack { m with
      state := t.state
      journal := (t.notes.map fun n => Entry.note m.lane n).reverse ++ m.journal } t.wakes
    exact h.of_stack hs (hc.symm ▸ h.control)
  unfold Machine.take
  dsimp only
  split
  · exact hw.back rfl rfl
  · rename_i hn
    simp [hn, Next.throws] at ht
  · exact (hw.pushOwn _).back rfl rfl
  · rename_i hn
    rw [hn] at ht
    obtain rfl := ht
    exact (hw.pushOwn _).runScript rfl _ _
  · unfold handOver
    split
    · exact (hw.pushOwn _).push [.own _] (by simp [Frame.throws]) rfl (by simp)
    · exact (hw.pushOwn _).push [.own _, .turn .pool] (by simp [Frame.throws]) rfl (by simp)
    · exact (hw.pushOwn _).back rfl (enqueue_stack _ _ _)

theorem Tame.returnTo (h : m.Tame) (r : Reply C.Answer) {f : Frame C} (hf : f.throws = false)
    (ht : ∀ g, f = .own g → (C.resume m.state g).next.throws = false) : (m.returnTo r f).Tame := by
  cases f with
  | own g => exact h.take _ (ht g rfl)
  | script tag rest throws =>
    obtain rfl : throws = false := hf
    have hm : (m.record (.answered m.lane tag r)).Tame := ⟨h.control, h.stack⟩
    exact hm.runScript rfl tag rest
  | turn => exact h.back rfl rfl
  | task => exact h.back rfl rfl
  | drain v left ran => exact h.drain v left ran
  | serve v left after => exact h.serve v left after

/-- No throw passes a frame in a step of a tame machine. -/
theorem Tame.undisturbed (h : m.Tame) : Undisturbed m.moment?.toList := by
  intro q hq
  simp only [moment?, Option.mem_toList, Option.map_eq_some_iff] at hq
  obtain ⟨cause, hcause, rfl⟩ := hq
  cases cause with
  | unwind f =>
    have := h.control
    unfold cause? at hcause
    split at hcause <;> simp_all
  | _ => rfl

/-- A step in which nothing throws keeps a machine tame. -/
theorem Tame.advance (h : m.Tame) (hm : m.advance? = some m') (hc : Calm m.moment?.toList) :
    m'.Tame := by
  have turn (cause : Cause C) {t : Turn C.toSignature} (hq : m.cause? = some cause)
      (ht : (Moment.mk m.state cause).turn? = some t) : t.next.throws = false := by
    have := hc ⟨m.state, cause⟩ (by simp [moment?, hq])
    simpa [ht] using this
  unfold advance? at hm
  split at hm
  · rename_i m₁ hs
    cases hm
    unfold step? at hs
    split at hs
    · rename_i a hctl
      cases hs
      exact h.take _ (turn (.exec m.view a) (cause?_own hctl) rfl)
    · cases hs
      exact h.runContext _
    · rename_i r hctl
      split at hs
      · cases hs
      · rename_i f rest hst
        cases hs
        have hrest : Tame { m with stack := rest } :=
          ⟨h.control, fun g hg => h.stack g (hst ▸ List.mem_cons_of_mem f hg)⟩
        refine hrest.returnTo r (h.stack f (hst ▸ List.mem_cons_self)) ?_
        rintro g rfl
        exact turn (.resume g) (cause?_back hctl hst) rfl
    · rename_i hctl
      exact absurd hctl h.control
  · rename_i hs
    unfold poll? at hm
    split at hm
    · cases hm
    · rename_i t rest hr
      have htask : Tame { m with ready := rest, stack := [.task], control := .back .done } :=
        ⟨by simp, by simp [Frame.throws]⟩
      cases t with
      | serve v =>
        cases hm
        exact htask.serve v none .done
      | own t =>
        cases hm
        exact htask.take _ (turn (.poll t) (cause?_stopped hs hr) rfl)

end Machine

/-- In a run in which nothing throws, no throw passes a frame. -/
theorem RunBy.tame {free : Bool} {m₀ m : Machine C} {past : List (Moment C)} (h : RunBy free m₀ past m)
    (h₀ : m₀.Tame) (hc : Calm past) : m.Tame ∧ Undisturbed past := by
  induction h with
  | start => exact ⟨h₀, by simp [Undisturbed]⟩
  | @advance past m m' _ hm ih =>
    obtain ⟨ht, hu⟩ := ih fun q hq => hc q (List.mem_append_left _ hq)
    refine ⟨ht.advance hm fun q hq => hc q (List.mem_append_right _ hq), fun q hq => ?_⟩
    rcases List.mem_append.mp hq with hq | hq
    · exact hu q hq
    · exact ht.undisturbed q hq
  | request _ _ op ih =>
    obtain ⟨ht, hu⟩ := ih hc
    exact ⟨⟨by simp [Machine.request], by simp [Machine.request]⟩, hu⟩
  | @strike past m _ hm ih =>
    obtain ⟨ht, hu⟩ := ih fun q hq => hc q (List.mem_append_left _ hq)
    obtain ⟨hs, hctl⟩ := Machine.wakeAll_stack { m with state := (C.tick m.state).1 }
      (C.tick m.state).2
    refine ⟨ht.of_stack hs ?_, fun q hq => ?_⟩
    · exact hctl ▸ ht.control
    · rcases List.mem_append.mp hq with hq | hq
      · exact hu q hq
      · rw [List.mem_singleton.mp hq]
        rfl
  | @proceed past m v _ n _ hm _ _ _ ih =>
    have hback : Machine.Tame { m with stack := [], control := .back .done } := ⟨by simp, by simp⟩
    exact ⟨hback.serve v (some n) .done, (ih hc).2⟩
  | reorder _ _ _ _ ih =>
    obtain ⟨ht, hu⟩ := ih hc
    exact ⟨ht.of_stack rfl ht.control, hu⟩

end Conduit.Dispatch
