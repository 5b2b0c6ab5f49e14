import Mathlib.Data.List.Forall2
import Conduit.Proofs.Dispatch.Calm
import Conduit.Proofs.Dispatch.Cues
import Conduit.Proofs.Dispatch.Paths

/-!
What a machine runs on behalf of an operation. An operation is over when the stack is as low again as
it was when it was called; until then the machine works above the frames that were there, and leaves
them alone but for one thing: somebody who serves a line up to some point may be told to serve it to
the end.
-/

namespace Conduit.Dispatch

variable {C : Component}

/-- A frame is left alone, or is told to serve its line to the end. -/
inductive Frame.Kept : Frame C → Frame C → Prop where
  | same {f : Frame C} : Kept f f
  | widened {v : Nat} {left : Option Nat} {after : Reply C.Answer} :
      Kept (.serve v left after) (.serve v none after)

namespace Frame.Kept

variable {f g h : Frame C}

theorem trans (hf : f.Kept g) (hg : g.Kept h) : f.Kept h := by
  cases hf with
  | same => exact hg
  | widened =>
    cases hg with
    | same | widened => exact .widened

theorem widen (v : Nat) (f : Frame C) : f.Kept (f.widen v) := by
  cases f with
  | serve w left after =>
    unfold Frame.widen
    dsimp only
    split
    · exact .widened
    · exact .same
  | _ => exact .same

theorem serves?_eq (h : f.Kept g) : g.serves? = f.serves? := by
  cases h <;> rfl

theorem turns_eq (h : f.Kept g) (v : Nat) : g.turns v = f.turns v := by
  cases h <;> rfl

end Frame.Kept

/-- Frames are left alone, but for those that are told to serve their lines to the end. -/
abbrev AllKept (s s' : List (Frame C)) : Prop := List.Forall₂ Frame.Kept s s'

namespace AllKept

variable {s s' t : List (Frame C)}

theorem refl (s : List (Frame C)) : AllKept s s := List.forall₂_same.mpr fun _ _ => .same

theorem widen (v : Nat) (s : List (Frame C)) : AllKept s (s.map (·.widen v)) :=
  List.forall₂_map_right_iff.mpr (List.forall₂_same.mpr fun f _ => .widen v f)

theorem trans (h : AllKept s s') (h' : AllKept s' t) : AllKept s t := by
  induction h generalizing t with
  | nil => exact h'
  | cons hf _ ih =>
    cases h' with
    | cons hg h' => exact .cons (hf.trans hg) (ih h')

theorem servings_eq (h : AllKept s s') : servings s' = servings s := by
  induction h with
  | nil => rfl
  | cons hf _ ih => rw [servings_cons, servings_cons, hf.serves?_eq, ih]

theorem countP_turns (h : AllKept s s') (v : Nat) :
    s'.countP (·.turns v) = s.countP (·.turns v) := by
  induction h with
  | nil => rfl
  | cons hf _ ih => rw [List.countP_cons, List.countP_cons, hf.turns_eq, ih]

theorem eq_task (h : AllKept [.task] s) : s = [.task] := by
  cases h with
  | cons hf hnil =>
    cases hf
    cases hnil
    rfl

end AllKept

/-- The frames that come on the stack when a turn goes on. -/
def Next.frames : Next C.toSignature → List (Frame C)
  | .reply _ | .throw => []
  | .enter k => k.map .own
  | .script _ [] _ k => k.map .own
  | .script tag (_ :: rest) throws k => .script tag rest throws :: k.map .own
  | .perform c w k =>
    match c.place with
    | .direct => .own w :: k.map .own
    | .pool => .own w :: .turn .pool :: k.map .own
    | .venue _ => k.map .own

namespace Machine

variable {m m' : Machine C}

/-- The frames that the next step does not take from the stack. -/
def below (m : Machine C) : List (Frame C) :=
  match m.control with
  | .run _ => m.stack
  | _ => m.stack.tail

/-- The frames `s` are left alone under what comes on top of them, of which `P` holds; an operation is
not run directly above them. -/
def Keeps (P : List (Frame C) → Prop) (s : List (Frame C)) (m' : Machine C) : Prop :=
  ∃ k s', m'.stack = k ++ s' ∧ AllKept s s' ∧ (k = [] → ∀ op, m'.control ≠ .run op) ∧ P k

theorem keeps_of_push {P : List (Frame C) → Prop} {s : List (Frame C)} (k : List (Frame C))
    (hs : m'.stack = k ++ s) (hc : k = [] → ∀ op, m'.control ≠ .run op) (hk : P k) :
    Keeps P s m' :=
  ⟨k, s, hs, .refl s, hc, hk⟩

theorem keeps_of_back {P : List (Frame C) → Prop} {s : List (Frame C)} {r : Reply C.Answer}
    (hs : m'.stack = s) (hc : m'.control = .back r) (hnil : P []) : Keeps P s m' :=
  keeps_of_push [] hs (fun _ op h => by cases hc.symm.trans h) hnil

theorem Keeps.mono {P Q : List (Frame C) → Prop} {s : List (Frame C)} (h : Keeps P s m')
    (hPQ : ∀ k, P k → Q k) : Keeps Q s m' := by
  obtain ⟨k, s', hs, hkept, hrun, hk⟩ := h
  exact ⟨k, s', hs, hkept, hrun, hPQ k hk⟩

/-- What comes on the stack when the component takes no turn: no frame of the component, or the oldest
work of a line, above whoever moves the line. -/
inductive Lifted (line : Nat → List C.Frame) : List (Frame C) → Prop where
  | bare {k} (hk : owned k = []) : Lifted line k
  | served {v w rest left after} (hl : line v = w :: rest) :
      Lifted line [.own w, .turn (.venue v), .serve v left after]
  | drained {v w rest left ran} (hl : line v = w :: rest) :
      Lifted line [.own w, .drain v left ran]

/-- What comes on the stack in the next step. -/
def Raised (m : Machine C) (k : List (Frame C)) : Prop :=
  (∃ t, m.turn? = some t ∧ k = t.next.frames) ∨ m.turn? = none ∧ Lifted m.floor.line k

section

variable (m)

theorem goOn_keeps (next : Next C.toSignature) :
    Keeps (· = next.frames) m.stack (m.goOn next) := by
  cases next with
  | reply => exact keeps_of_back rfl rfl rfl
  | throw => exact keeps_of_push [] rfl (fun _ _ h => by cases h) rfl
  | enter k => exact keeps_of_push (k.map .own) rfl (fun _ _ h => by cases h) rfl
  | script tag ops throws k =>
    cases ops with
    | nil => exact keeps_of_push (k.map .own) rfl (fun _ _ h => by cases throws <;> cases h) rfl
    | cons op ops =>
      exact keeps_of_push (.script tag ops throws :: k.map .own) rfl (fun h => by cases h) rfl
  | perform c w k =>
    simp only [goOn, handOver, Next.frames]
    cases c.place with
    | direct => exact keeps_of_push (.own w :: k.map .own) rfl (fun h => by cases h) rfl
    | pool => exact keeps_of_push (.own w :: .turn .pool :: k.map .own) rfl (fun h => by cases h) rfl
    | venue v => exact keeps_of_push (k.map .own) (enqueue_stack _ _ _) (fun _ _ h => by cases h) rfl

theorem take_keeps (t : Turn C.toSignature) : Keeps (· = t.next.frames) m.stack (m.take t) := by
  rw [m.take_eq_goOn t, ← m.hear_stack t]
  exact (m.hear t).goOn_keeps t.next

variable {m} in
theorem line_of_next? {v : Nat} {w : C.Frame} (h : m.next? v = some (w, m')) :
    ∃ rest, m.floor.line v = w :: rest := by
  unfold next? at h
  split at h
  · cases h
  · rename_i q hq
    split at h
    · cases h
    · rename_i w rest hw
      cases h
      exact ⟨rest, (Floor.line_of (f := m.floor) hq).trans hw⟩

theorem drain_keeps (v : Nat) (left : Option Nat) (ran : Nat) :
    Keeps (Lifted m.floor.line) m.stack (m.drain v left ran) := by
  unfold drain
  split
  · exact keeps_of_back rfl rfl (.bare rfl)
  split
  · exact keeps_of_back rfl rfl (.bare rfl)
  · rename_i w m₁ hw
    obtain ⟨rest, hl⟩ := line_of_next? hw
    exact keeps_of_push [.own w, _] (congrArg (_ :: _ :: ·) (next?_stack hw)) nofun (.drained hl)

theorem serve_keeps (v : Nat) (left : Option Nat) (after : Reply C.Answer) :
    Keeps (Lifted m.floor.line) m.stack (m.serve v left after) := by
  unfold serve
  split
  · exact keeps_of_back rfl rfl (.bare rfl)
  split
  · exact keeps_of_back rfl rfl (.bare rfl)
  · rename_i w m₁ hw
    obtain ⟨rest, hl⟩ := line_of_next? hw
    exact keeps_of_push [.own w, _, _] (congrArg (_ :: _ :: _ :: ·) (next?_stack hw)) nofun
      (.served hl)

theorem widen_keeps (v : Nat) (r : Reply C.Answer) :
    Keeps (Lifted m.floor.line) m.stack ((m.widen v).reply r) :=
  ⟨[], _, m.widen_stack v, .widen v m.stack, fun _ => nofun, .bare rfl⟩

theorem forget_keeps (id : String) : Keeps (Lifted m.floor.line) m.stack (m.forget id) := by
  unfold forget
  dsimp only
  split
  · exact keeps_of_back rfl rfl (.bare rfl)
  split
  · exact keeps_of_back rfl rfl (.bare rfl)
  split
  · exact widen_keeps { m with names := m.names.filter (·.1 ≠ id) } _ .done
  · exact serve_keeps { m with names := m.names.filter (·.1 ≠ id) } _ none .done

theorem make_keeps (id : String) (kind : ContextKind) :
    Keeps (Lifted m.floor.line) m.stack (m.make id kind) := by
  have hback {m' : Machine C} {r : Reply C.Answer} (hs : m'.stack = m.stack)
      (hc : m'.control = .back r) : Keeps (Lifted m.floor.line) m.stack m' :=
    keeps_of_back hs hc (.bare rfl)
  cases kind with
  | serial label => exact hback (wake_stack _ _).1 rfl
  | defaultThread =>
    simp only [make]
    split <;> exact hback rfl rfl
  | copy of =>
    simp only [make]
    split
    · exact hback rfl rfl
    · split <;> split <;> exact hback rfl rfl
  | _ => exact hback rfl rfl

theorem stop_keeps (v : Nat) : Keeps (Lifted m.floor.line) m.stack (m.stop v) := by
  unfold stop
  dsimp only
  split
  · exact keeps_of_back rfl rfl (.bare rfl)
  split
  · exact keeps_of_back (wake_stack (m.close v) _).1 rfl (.bare rfl)
  · exact m.line_close v ▸ (m.close v).serve_keeps v none .stopped

theorem runContext_keeps (o : ContextOp) :
    Keeps (Lifted m.floor.line) m.stack (m.runContext o) := by
  have hback {m' : Machine C} {r : Reply C.Answer} (hs : m'.stack = m.stack)
      (hc : m'.control = .back r) : Keeps (Lifted m.floor.line) m.stack m' :=
    keeps_of_back hs hc (.bare rfl)
  cases o with
  | make id kind => exact m.make_keeps id kind
  | drain id limit =>
    simp only [runContext]
    split
    · exact hback rfl rfl
    · exact m.drain_keeps _ _ _
  | flush id =>
    simp only [runContext]
    split
    · exact hback rfl rfl
    split
    · exact hback rfl rfl
    split
    · exact hback rfl rfl
    split
    · exact hback rfl rfl
    · exact m.serve_keeps _ _ _
  | stop id =>
    simp only [runContext]
    split
    · exact hback rfl rfl
    · exact m.stop_keeps _
  | forget id => exact m.forget_keeps id
  | discipline id =>
    simp only [runContext]
    split <;> exact hback rfl rfl
  | same a b =>
    simp only [runContext]
    split <;> exact hback rfl rfl
  | inspect id =>
    simp only [runContext]
    split
    · exact hback rfl rfl
    split
    · split <;> exact hback rfl rfl
    · exact hback rfl rfl

end

/-- A step leaves alone what is below the uppermost frame. -/
theorem step?_keeps (hm : m.step? = some m') : Keeps m.Raised m.below m' := by
  have hlifted (ht : m.cause? = none) (k : List (Frame C)) (hk : Lifted m.floor.line k) :
      m.Raised k := .inr ⟨turn?_of_no_cause ht, hk⟩
  unfold below
  unfold step? at hm
  split at hm
  · rename_i a hc
    cases hm
    rw [hc]
    refine (m.take_keeps _).mono fun k hk => .inl ⟨_, ?_, hk⟩
    simp [turn?, moment?_eq (cause?_own hc), Moment.turn?]
  · rename_i o hc
    cases hm
    rw [hc]
    exact (m.runContext_keeps o).mono (hlifted (cause?_context hc))
  · rename_i r hc
    rw [hc]
    split at hm
    · cases hm
    · rename_i f k hs
      cases hm
      have hcause := cause?_back hc hs
      rw [hs]
      cases f with
      | own g =>
        exact (take_keeps { m with stack := k } _).mono fun k hk => .inl ⟨_, turn?_back hc hs, hk⟩
      | script tag rest throws =>
        cases rest with
        | nil =>
          refine keeps_of_push [] rfl (fun _ op h => ?_) (hlifted hcause _ (.bare rfl))
          cases throws <;> cases h
        | cons op rest =>
          exact keeps_of_push [.script tag rest throws] rfl (fun h => by cases h)
            (hlifted hcause _ (.bare rfl))
      | turn site => exact keeps_of_back rfl rfl (hlifted hcause _ (.bare rfl))
      | task => exact keeps_of_back rfl rfl (hlifted hcause _ (.bare rfl))
      | drain v left ran =>
        exact (drain_keeps { m with stack := k } v left ran).mono (hlifted hcause)
      | serve v left after =>
        exact (serve_keeps { m with stack := k } v left after).mono (hlifted hcause)
  · rename_i hc
    rw [hc]
    split at hm
    · cases hm
    · rename_i f k hs
      cases hm
      have hbare : m.Raised [] := .inr ⟨turn?_thrown hc hs, .bare rfl⟩
      rw [hs]
      cases f with
      | own g =>
        obtain ⟨hstack, hcontrol⟩ := wakeAll_stack
          { m with stack := k, state := (C.unwind m.state g).1 } (C.unwind m.state g).2
        exact keeps_of_push [] hstack
          (fun _ op h => by cases hc.symm.trans (hcontrol.symm.trans h)) hbare
      | turn | task => exact keeps_of_back rfl rfl hbare
      | _ => exact keeps_of_push [] rfl (fun _ op h => by cases hc.symm.trans h) hbare

/-- The reactor works above the frame of a task. -/
theorem poll?_keeps (hstep : m.step? = none) (hm : m.poll? = some m') :
    Keeps m.Raised [.task] m' := by
  unfold poll? at hm
  split at hm
  · cases hm
  · rename_i t rest hr
    have hcause := cause?_stopped hstep hr
    cases t with
    | serve v =>
      cases hm
      exact (serve_keeps { m with ready := rest, stack := [.task], control := .back .done } v none
        .done).mono fun k hk => .inr ⟨turn?_of_no_cause hcause, hk⟩
    | own t =>
      cases hm
      refine (take_keeps { m with ready := rest, stack := [.task], control := .back .done } _).mono
        fun k hk => .inl ⟨_, ?_, hk⟩
      simp [turn?, moment?_eq hcause, Moment.turn?]

/-- A frame that is not the uppermost, or above which an operation is run, is still there after a
step. -/
theorem step?_frame {above lower : List (Frame C)} {f : Frame C}
    (hs : m.stack = above ++ f :: lower) (ha : above ≠ [] ∨ ∃ op, m.control = .run op)
    (hm : m.step? = some m') : ∃ above' f' lower', m'.stack = above' ++ f' :: lower' ∧ f.Kept f' ∧
      AllKept lower lower' ∧ (above' = [] → ∀ op, m'.control ≠ .run op) := by
  obtain ⟨k, s, hk, hkept, hrun, -⟩ := step?_keeps hm
  -- Either way the step leaves the frame among those that it does not take.
  obtain ⟨ahead, hbelow⟩ : ∃ ahead, m.below = ahead ++ f :: lower := by
    unfold below
    split
    · exact ⟨above, hs⟩
    · rename_i hc
      obtain ⟨g, ahead, rfl⟩ := List.exists_cons_of_ne_nil (ha.resolve_right fun ⟨op, h⟩ => hc op h)
      exact ⟨ahead, by rw [hs]; rfl⟩
  rw [hbelow] at hkept
  -- What was kept is parted where the frame stood: `k` and the first part are above it now.
  obtain ⟨f', lower', hf, hlower, hdrop⟩ :=
    List.forall₂_cons_right_iff.mp (List.forall₂_drop_append _ _ _ hkept.flip)
  refine ⟨k ++ s.take ahead.length, f', lower', ?_, hf, hlower.flip,
    fun h => hrun (List.append_eq_nil_iff.mp h).1⟩
  rw [hk, List.append_assoc, ← hdrop, List.take_append_drop]

/-- A machine that has something on its stack can go on. -/
theorem step?_of_stack (hs : m.stack ≠ []) : ∃ m', m.step? = some m' := by
  cases h : m.step? with
  | none => exact absurd (stack_of_step? h) hs
  | some m' => exact ⟨m', rfl⟩

/-- What a machine runs above its `d` lowest frames: the machines from which it has taken steps, and
where it stands now. -/
inductive Within (d : Nat) (m : Machine C) : List (Machine C) → Machine C → Prop where
  | enter {m₁ : Machine C} (hm : m.step? = some m₁) : Within d m [m] m₁
  | next {ms : List (Machine C)} {m₁ m₂ : Machine C} (h : Within d m ms m₁)
      (hd : d < m₁.stack.length) (hm : m₁.step? = some m₂) : Within d m (ms ++ [m₁]) m₂

/-- Whatever changes is changed by one of the steps. -/
theorem Within.changed {β : Type} {d : Nat} {ms : List (Machine C)} (h : m.Within d ms m')
    (g : C.State → β) (hne : g m'.state ≠ g m.state) :
    ∃ m₁ ∈ ms, ∃ m₂, m₁.step? = some m₂ ∧ g m₂.state ≠ g m₁.state := by
  induction h with
  | @enter m₁ hm => exact ⟨m, List.mem_singleton.mpr rfl, m₁, hm, hne⟩
  | @next ms m₁ m₂ _ _ hm ih =>
    by_cases hstep : g m₂.state = g m₁.state
    · obtain ⟨a, ha, b, hb⟩ := ih (hstep ▸ hne)
      exact ⟨a, List.mem_append_left _ ha, b, hb⟩
    · exact ⟨m₁, by simp, m₂, hm, hstep⟩

/-- A frame that is not the uppermost, and all below it, stay where they are until they are
reached. -/
theorem Within.frame {lower : List (Frame C)} {f : Frame C} {d : Nat} {ms : List (Machine C)}
    (h : m.Within d ms m') (above : List (Frame C)) (hs : m.stack = above ++ f :: lower)
    (ha : above ≠ []) (hd : d = lower.length + 1) :
    ∃ above' f' lower', m'.stack = above' ++ f' :: lower' ∧ f.Kept f' ∧ AllKept lower lower' := by
  induction h with
  | enter hm =>
    obtain ⟨above', f', lower', hs', hf, hlower, -⟩ := step?_frame hs (.inl ha) hm
    exact ⟨above', f', lower', hs', hf, hlower⟩
  | next _ hlt hm ih =>
    obtain ⟨above', f', lower', hs', hf, hlower⟩ := ih
    have ha' : above' ≠ [] := by
      rintro rfl
      simp [hs', hd, hlower.length_eq] at hlt
    obtain ⟨above'', f'', lower'', hs'', hf', hlower', -⟩ := step?_frame hs' (.inl ha') hm
    exact ⟨above'', f'', lower'', hs'', hf.trans hf', hlower.trans hlower'⟩

theorem Within.run {d : Nat} {ms : List (Machine C)} (h : m.Within d ms m') :
    Run m (ms.flatMap (·.moment?.toList)) m' := by
  induction h with
  | enter hm => simpa using RunBy.start.advance (advance?_of_step hm)
  | next _ _ hm ih => simpa using ih.advance (advance?_of_step hm)

theorem Within.cons {d : Nat} {ms : List (Machine C)} {m₁ : Machine C} (hm : m.step? = some m₁)
    (hd : d < m₁.stack.length) (h : m₁.Within d ms m') : m.Within d (m :: ms) m' := by
  induction h with
  | enter hm' => exact .next (.enter hm) hd hm'
  | next _ hd' hm' ih => exact .next ih hd' hm'

/-- The first step, and what comes after it. -/
theorem Within.first {d : Nat} {ms : List (Machine C)} (h : m.Within d ms m') :
    ∃ ns, ms = m :: ns ∧ ∃ m₁, m.step? = some m₁ ∧
      (ns = [] ∧ m' = m₁ ∨ d < m₁.stack.length ∧ m₁.Within d ns m') := by
  induction h with
  | enter hm => exact ⟨[], rfl, _, hm, .inl ⟨rfl, rfl⟩⟩
  | @next ms m₁ m₂ _ hd hm ih =>
    obtain ⟨ns, rfl, n, hn, ⟨rfl, rfl⟩ | ⟨hlt, hwithin⟩⟩ := ih
    · exact ⟨_, rfl, m₁, hn, .inr ⟨hd, .enter hm⟩⟩
    · exact ⟨_, rfl, n, hn, .inr ⟨hlt, .next hwithin hd hm⟩⟩

/-- What is run until the `d` lowest frames are reached is always the same. -/
theorem Within.unique {d : Nat} {ms ns : List (Machine C)} {n : Machine C} (h : m.Within d ms m')
    (h' : m.Within d ns n) (hm : m'.stack.length ≤ d) (hn : n.stack.length ≤ d) :
    ms = ns ∧ m' = n := by
  induction ms generalizing m ns with
  | nil =>
    obtain ⟨_, he, -⟩ := h.first
    cases he
  | cons _ ms ih =>
    obtain ⟨_, he, m₁, hm₁, hrest⟩ := h.first
    obtain ⟨ns, rfl, n₁, hn₁, hrest'⟩ := h'.first
    obtain ⟨rfl, rfl⟩ := List.cons.inj he
    obtain rfl := Option.some.inj (hm₁.symm.trans hn₁)
    rcases hrest with ⟨rfl, rfl⟩ | ⟨hlt, hw⟩
    · rcases hrest' with ⟨rfl, rfl⟩ | ⟨hlt, -⟩
      · exact ⟨rfl, rfl⟩
      · exact absurd hm (Nat.not_le_of_lt hlt)
    · rcases hrest' with ⟨rfl, rfl⟩ | ⟨-, hw'⟩
      · exact absurd hn (Nat.not_le_of_lt hlt)
      · obtain ⟨rfl, rfl⟩ := ih hw hw'
        exact ⟨rfl, rfl⟩

/-- A run comes to each of the machines from which steps are taken, and goes on from there. -/
theorem Within.run_of_mem {d : Nat} {ms : List (Machine C)} (h : m.Within d ms m') {n : Machine C}
    (hn : n ∈ ms) : (∃ past, Run m past n) ∧ ∃ later, Run n later m' := by
  induction h with
  | enter hm =>
    obtain rfl := List.mem_singleton.mp hn
    exact ⟨⟨_, .start⟩, _, .advance .start (advance?_of_step hm)⟩
  | next h _ hm ih =>
    rcases List.mem_append.mp hn with hn | hn
    · obtain ⟨hpast, later, hlater⟩ := ih hn
      exact ⟨hpast, _, hlater.advance (advance?_of_step hm)⟩
    · obtain rfl := List.mem_singleton.mp hn
      exact ⟨⟨_, h.run⟩, _, .advance .start (advance?_of_step hm)⟩

/-- Runs above the `d` lowest frames until they are reached, for at most `n` steps. -/
def within? (d : Nat) : Nat → Machine C → Option (List (Machine C) × Machine C)
  | 0, _ => none
  | n + 1, m =>
    match m.step? with
    | none => none
    | some m₁ =>
      if d < m₁.stack.length then (within? d n m₁).map fun (ms, m') => (m :: ms, m')
      else some ([m], m₁)

theorem within_of_within? {d n : Nat} {m m' : Machine C} {ms : List (Machine C)}
    (h : within? d n m = some (ms, m')) : m.Within d ms m' := by
  induction n generalizing m ms with
  | zero => cases h
  | succ n ih =>
    unfold within? at h
    split at h
    · cases h
    · rename_i m₁ hm
      split at h
      · rename_i hd
        obtain ⟨⟨ns, n'⟩, hns, he⟩ := Option.map_eq_some_iff.mp h
        cases he
        exact .cons hm hd (ih hns)
      · cases h
        exact .enter hm

end Machine

end Conduit.Dispatch
