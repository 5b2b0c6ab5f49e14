import Conduit.Proofs.Dispatch.Within

/-!
Serving a line. Whoever serves the line of a venue stays on the stack until as much of its work as is
due has been begun and has ended, whatever this work performs, throws or runs in between.
-/

namespace Conduit.Dispatch

variable {C : Component}

namespace Machine

/-- The work that waits for a venue. -/
def line (m : Machine C) (v : Nat) : List C.Frame := m.floor.line v

/-- As much of the work of a venue as is due has been begun: `n` pieces, or else everything that has
joined its line. -/
def Enough (m : Machine C) (v : Nat) (due : Option Nat) : Prop :=
  m.line v = [] ∨ ∃ n, due = some n ∧ n ≤ (begun v m.journal).length

/-- Above the frames `s` somebody serves the line of a venue until enough has been begun, and then
gives `after`. -/
def Serves (m : Machine C) (s : List (Frame C)) (v : Nat) (due : Option Nat)
    (after : Reply C.Answer) : Prop :=
  ∃ above left lower, m.stack = above ++ .serve v left after :: lower ∧ AllKept s lower ∧
    ∀ l, left = some l → ∃ n, due = some n ∧ n ≤ (begun v m.journal).length + l

/-- Above the frames `s` somebody has served the line of a venue until enough had been begun. -/
structure Served (m : Machine C) (s : List (Frame C)) (v : Nat) (due : Option Nat)
    (after : Reply C.Answer) : Prop where
  below : AllKept s m.stack
  control : m.control = .back after
  enough : m.Enough v due

variable {m m' : Machine C} {s : List (Frame C)} {v : Nat} {due : Option Nat}
  {after : Reply C.Answer}

/-- Somebody begins to serve a line, or goes on with it. -/
theorem serve_serves {left : Option Nat} (hs : AllKept s m.stack)
    (hl : ∀ l, left = some l → ∃ n, due = some n ∧ n ≤ (begun v m.journal).length + l) :
    (m.serve v left after).Serves s v due after ∨ (m.serve v left after).Served s v due after := by
  unfold serve
  split
  · rename_i h
    exact .inr ⟨hs, rfl, .inr (hl 0 h)⟩
  · unfold next?
    cases hq : m.venues[v]? with
    | none => exact .inr ⟨hs, rfl, .inl (by simp [line, floor, Floor.line, reply, hq])⟩
    | some q =>
      cases hw : q.waiting with
      | nil =>
        simp only [hw]
        exact .inr ⟨hs, rfl, .inl (by simp [line, floor, Floor.line, reply, hq, hw])⟩
      | cons w rest =>
        simp only [hw]
        refine .inl ⟨[.own w, .turn (.venue v)], _, m.stack, rfl, hs, fun l hleft => ?_⟩
        obtain ⟨k, rfl, rfl⟩ := Option.map_eq_some_iff.mp hleft
        obtain ⟨n, hn, hle⟩ := hl k rfl
        refine ⟨n, hn, ?_⟩
        simp only [begun_cons, Entry.begins, if_true, Option.toList_some, List.length_append,
          List.length_singleton]
        omega

theorem Serves.height (h : m.Serves s v due after) : s.length < m.stack.length := by
  obtain ⟨above, left, lower, hs, hkept, -⟩ := h
  rw [hs, List.length_append, List.length_cons, hkept.length_eq]
  omega

/-- Whoever serves a line goes on until he is done with it. -/
theorem Serves.step (h : m.Serves s v due after) (ho : m.floor.Orderly) (hm : m.step? = some m') :
    m'.Serves s v due after ∨ m'.Served s v due after := by
  obtain ⟨above, left, lower, hs, hkept, hl⟩ := h
  by_cases hfar : above ≠ [] ∨ ∃ op, m.control = .run op
  · obtain ⟨above', f, lower', hs', hf, hlower, -⟩ := step?_frame hs hfar hm
    have hgrow := ((step?_paces ho hm).begun_grows v).length_le
    refine .inl ?_
    cases hf with
    | same =>
      refine ⟨above', left, lower', hs', hkept.trans hlower, fun l hleft => ?_⟩
      obtain ⟨n, hn, hle⟩ := hl l hleft
      exact ⟨n, hn, by omega⟩
    | widened => exact ⟨above', none, lower', hs', hkept.trans hlower, nofun⟩
  · obtain ⟨habove, hrun⟩ := not_or.mp hfar
    obtain rfl : above = [] := not_not.mp habove
    -- A throw never meets the one who serves.
    obtain ⟨r, hc⟩ : ∃ r, m.control = .back r := by
      cases hc : m.control with
      | run op => exact absurd ⟨op, hc⟩ hrun
      | back r => exact ⟨r, rfl⟩
      | thrown => exact absurd (ho.replying_of_serve hs) (by simp [floor, hc])
    rw [step?_back hc hs] at hm
    cases hm
    exact serve_serves (m := { m with stack := lower }) hkept hl

/-- What is run on behalf of someone who serves a line ends when he is done. -/
theorem Within.serves {ms : List (Machine C)} (h : m.Within s.length ms m')
    (ho : m.floor.Orderly)
    (hfirst : ∀ m₁, m.step? = some m₁ → m₁.Serves s v due after ∨ m₁.Served s v due after) :
    m'.Serves s v due after ∨ m'.Served s v due after := by
  induction h with
  | enter hm => exact hfirst _ hm
  | next h hd hm ih =>
    rcases ih with ih | ih
    · exact ih.step (h.run.orderly ho) hm
    · have := ih.below.length_eq
      omega

/-- Who served a line is done with it when the stack is as low again as it was before. -/
theorem Within.served {ms : List (Machine C)} (h : m.Within s.length ms m') (ho : m.floor.Orderly)
    (hfirst : ∀ m₁, m.step? = some m₁ → m₁.Serves s v due after ∨ m₁.Served s v due after)
    (hd : m'.stack.length ≤ s.length) : m'.Served s v due after :=
  (h.serves ho hfirst).resolve_left fun hserves => absurd hserves.height (Nat.not_lt.mpr hd)

end Machine

end Conduit.Dispatch
