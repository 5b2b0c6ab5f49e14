import Conduit.Proofs.Dispatch.Config

/-!
The frames of a configuration: what is left to do, on the stack and in the lines. When the machine
takes over a turn, the frames that the turn leaves join the others, unless it gives its work to a
context that does not take it.
-/

namespace Conduit.Dispatch

variable {C : Component}

/-- The frames that a turn leaves. -/
def Next.left {S : Signature} : Next S → List S.Frame
  | .reply _ | .throw => []
  | .enter k => k
  | .script _ _ _ k => k
  | .perform _ w k => w :: k

namespace Config

variable {c c' : Config C} {t : Turn C.toSignature}

/-- Everything that is left to do. -/
def frames (c : Config C) : List C.Frame := c.next.toList ++ c.stack ++ c.waiting.flatten

theorem Faces.state_eq (h : c.Faces c') : c'.state = c.state := by
  cases h <;> rfl

theorem Faces.ready_eq (h : c.Faces c') : c'.ready = c.ready := by
  cases h <;> rfl

theorem Faces.frames_eq (h : c.Faces c') : c'.frames = c.frames := by
  cases h with
  | stay => rfl
  | face hn hk => simp [frames, hn, hk]

/-- What a component keeps when frames are dropped is as the turn left it. -/
theorem Takes.state_eq {β : Type} (h : c.Takes t c') (g : C.State → β)
    (hg : ∀ s f, g (C.unwind s f).1 = g s) : g c'.state = g t.state := by
  cases h with
  | reply _ hf => rw [hf.state_eq]; rfl
  | enterNil _ hf => rw [hf.state_eq]; rfl
  | script _ hf => rw [hf.state_eq]; rfl
  | queued _ _ _ hf => rw [hf.state_eq]; rfl
  | dropped _ _ hf =>
    rw [hf.state_eq]
    exact hg ..
  | lost _ _ hf => rw [hf.state_eq]; rfl
  | _ => rfl

/-- The state is as the turn left it, unless a venue drops the work that it is given. -/
theorem Takes.state_cases (h : c.Takes t c') : c'.state = t.state ∨
    ∃ d w k v, t.next = .perform d w k ∧ d.place = .venue v ∧ c'.state = (C.unwind t.state w).1 := by
  cases h with
  | reply _ hf => exact .inl hf.state_eq
  | enterNil _ hf => exact .inl hf.state_eq
  | script _ hf => exact .inl hf.state_eq
  | queued _ _ _ hf => exact .inl hf.state_eq
  | dropped hn hd hf => exact .inr ⟨_, _, _, _, hn, hd, hf.state_eq⟩
  | lost _ _ hf => exact .inl hf.state_eq
  | _ => exact .inl rfl

/-- A step in which the component takes no part leaves its state alone. -/
theorem Step.state_eq (h : c.Step none c') : c'.state = c.state := by
  cases h with
  | still hf => exact hf.state_eq
  | begin => rfl
  | opened _ hf => exact hf.state_eq

/-- After a step the state is what the component has made of it, unless a venue drops the work that
it is given. -/
theorem Step.state_cases {cause : Cause C} (h : c.Step (some cause) c') :
    c'.state = (Moment.mk c.state cause).after ∨
    ∃ t d w k v, (Moment.mk c.state cause).turn? = some t ∧ t.next = .perform d w k ∧
      d.place = .venue v ∧ c'.state = (C.unwind (Moment.mk c.state cause).after w).1 := by
  cases h with
  | exec _ ht => exact ht.state_cases.imp_right fun ⟨d, w, k, v, h⟩ => ⟨_, d, w, k, v, rfl, h⟩
  | resume _ ht => exact ht.state_cases.imp_right fun ⟨d, w, k, v, h⟩ => ⟨_, d, w, k, v, rfl, h⟩
  | unwind _ _ hf => exact .inl (congrArg Config.state hf.symm)
  | poll _ _ _ ht => exact ht.state_cases.imp_right fun ⟨d, w, k, v, h⟩ => ⟨_, d, w, k, v, rfl, h⟩
  | tick => exact .inl rfl

/-- Work that joins a line is one frame more. -/
theorem frames_push {v : Nat} (hv : v < c.waiting.length) (w : C.Frame) :
    (c.push v w).frames.Perm (w :: c.frames) := by
  have hline : (c.waiting.modify v (· ++ [w])).flatten.Perm (w :: c.waiting.flatten) := by
    generalize c.waiting = lines at hv
    induction lines generalizing v with
    | nil => simp at hv
    | cons line lines ih =>
      cases v with
      | zero => simp
      | succ v =>
        have hv : v < lines.length := by simpa using hv
        simpa using ((ih hv).append_left line).trans List.perm_middle
  exact (hline.append_left _).trans List.perm_middle

/-- Work that leaves a line is gone on with. -/
theorem frames_begin {v : Nat} {w : C.Frame} {rest : List C.Frame} (hn : c.next = none)
    (hv : c.waiting[v]? = some (w :: rest)) :
    Config.frames { c with next := some w, waiting := c.waiting.set v rest } |>.Perm c.frames := by
  have hline : (w :: (c.waiting.set v rest).flatten).Perm c.waiting.flatten := by
    generalize c.waiting = lines at hv
    induction lines generalizing v with
    | nil => simp at hv
    | cons line lines ih =>
      cases v with
      | zero =>
        obtain rfl : line = w :: rest := by simpa using hv
        simp
      | succ v =>
        have hv : lines[v]? = some (w :: rest) := by simpa using hv
        simpa using List.perm_middle.symm.trans ((ih hv).append_left line)
  simpa [frames, hn] using List.perm_middle.symm.trans (hline.append_left c.stack)

/-- The frame that comes next is done with. -/
theorem frames_next {f : C.Frame} (hn : c.next = some f) :
    c.frames = f :: Config.frames { c with next := none } := by
  simp [frames, hn]

/-- A throw passes the uppermost frame. -/
theorem frames_pop {f : C.Frame} {k : List C.Frame} (hn : c.next = none) (hk : c.stack = f :: k) :
    c.frames = f :: Config.frames { c with stack := k } := by
  simp [frames, hn, hk]

theorem frames_opened : Config.frames { c with waiting := c.waiting ++ [[]] } = c.frames := by
  simp [frames]

theorem frames_after (hn : c.next = none) (k : List C.Frame) :
    (c.after t k).frames = k ++ c.frames := by
  simp [frames, after, hn]

/-- The machine takes over a turn. Its work may be lost, or dropped, on the way to a context. -/
theorem Takes.frames (h : c.Takes t c') (hn : c.next = none) :
    (c'.frames.Perm (t.next.left ++ c.frames) ∧ c'.state = t.state ∧
      c'.ready = woken c.ready t.wakes) ∨
    ∃ d w k, t.next = .perform d w k ∧ c'.frames = k ++ c.frames ∧
      (c'.state = t.state ∧ c'.ready = woken c.ready t.wakes ∨
        c'.state = (C.unwind t.state w).1 ∧
          c'.ready = woken (woken c.ready t.wakes) (C.unwind t.state w).2) := by
  cases h with
  | reply hr hf =>
    refine .inl ⟨?_, hf.state_eq, hf.ready_eq⟩
    rw [hf.frames_eq, frames_after hn, hr]
    exact .rfl
  | throw hr =>
    refine .inl ⟨?_, rfl, rfl⟩
    rw [frames_after hn, hr]
    exact .rfl
  | enterNil hr hf =>
    refine .inl ⟨?_, hf.state_eq, hf.ready_eq⟩
    rw [hf.frames_eq, frames_after hn, hr]
    exact .rfl
  | @enter f k hr =>
    refine .inl ⟨?_, rfl, rfl⟩
    simp [hr, Next.left, Config.frames, after, hn]
  | script hr hf =>
    refine .inl ⟨?_, hf.state_eq, hf.ready_eq⟩
    rw [hf.frames_eq, frames_after hn, hr]
    exact .rfl
  | @inline d w k hr =>
    refine .inl ⟨?_, rfl, rfl⟩
    simp [hr, Next.left, Config.frames, after, hn]
  | @queued d w k v _ hr hd hv hf =>
    refine .inl ⟨?_, hf.state_eq, hf.ready_eq⟩
    rw [hf.frames_eq, hr]
    have := frames_push (c := c.after t k) hv w
    rwa [frames_after hn] at this
  | @dropped d w k v _ hr hd hf =>
    refine .inr ⟨d, w, k, hr, ?_, .inr ⟨hf.state_eq, hf.ready_eq⟩⟩
    rw [hf.frames_eq]
    exact frames_after (t := t) hn k
  | @lost d w k v _ hr hd hf =>
    refine .inr ⟨d, w, k, hr, ?_, .inl ⟨hf.state_eq, hf.ready_eq⟩⟩
    rw [hf.frames_eq]
    exact frames_after (t := t) hn k

/-- Nothing is left to do that has not been before, but for what a turn leaves. -/
theorem Takes.mem_frames (h : c.Takes t c') (hn : c.next = none) {f : C.Frame} (hf : f ∈ c'.frames) :
    f ∈ c.frames ∨ f ∈ t.next.left := by
  rcases h.frames hn with ⟨hperm, -, -⟩ | ⟨d, w, k, hnext, hk, -⟩
  · exact (List.mem_append.mp (hperm.mem_iff.mp hf)).symm
  · rw [hk] at hf
    refine (List.mem_append.mp hf).symm.imp_right fun hmem => ?_
    rw [hnext]
    exact List.mem_cons_of_mem w hmem

theorem Step.mem_frames {cause : Option (Cause C)} (h : c.Step cause c') {f : C.Frame}
    (hf : f ∈ c'.frames) :
    f ∈ c.frames ∨ ∃ q ∈ c.moment cause, ∃ t, q.turn? = some t ∧ f ∈ t.next.left := by
  cases h with
  | still hfaces => exact .inl (hfaces.frames_eq ▸ hf)
  | exec hn ht =>
    exact (ht.mem_frames hn hf).imp_right fun hleft => ⟨_, List.mem_singleton_self _, _, rfl, hleft⟩
  | resume hn ht =>
    refine (ht.mem_frames rfl hf).imp (fun hmem => ?_) fun hleft =>
      ⟨_, List.mem_singleton_self _, _, rfl, hleft⟩
    rw [frames_next hn]
    exact List.mem_cons_of_mem _ hmem
  | unwind hn hk hd =>
    subst hd
    rw [frames_pop hn hk]
    exact .inl (List.mem_cons_of_mem _ hf)
  | poll hn _ _ ht =>
    exact (ht.mem_frames hn hf).imp_right fun hleft => ⟨_, List.mem_singleton_self _, _, rfl, hleft⟩
  | tick => exact .inl hf
  | begin hn hv => exact .inl ((frames_begin hn hv).mem_iff.mp hf)
  | opened _ hfaces =>
    rw [hfaces.frames_eq, frames_opened] at hf
    exact .inl hf

end Config

/-- Whoever takes up a line by himself leaves the state of the component alone. -/
theorem Machine.proceed_state {m : Machine C} (hm : m.step? = none) (v n : Nat) :
    (m.proceed v n).state = m.state := by
  have := (proceed_config hm v n).state_eq
  rwa [config_state, config_state] at this

end Conduit.Dispatch
