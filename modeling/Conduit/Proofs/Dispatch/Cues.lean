import Conduit.Proofs.Dispatch.Run

/-!
What is left to choice in a run: when the machine has nothing to run, the reactor may turn to the task
that was woken first, an operation may be called, a thread or the pool may take up its next piece of
work, or a millisecond may pass. These cues determine the run. Between them the machine takes its
steps by itself, and as many as there are.
-/

namespace Conduit.Dispatch

variable {C : Component}

inductive Cue (Action : Type) where
  | turn
  | request (op : Op Action)
  | strike
  | proceed (v n : Nat)

/-- A machine with nothing to run gets a cue, and its component takes part at these moments. -/
inductive Cued (m : Machine C) : Cue C.Action → List (Moment C) → Machine C → Prop where
  | turn {m'} (h : m.poll? = some m') : Cued m .turn m.moment?.toList m'
  | request (op : Op C.Action) : Cued m (.request op) [] (m.request op)
  | strike : Cued m .strike [⟨m.state, .tick⟩] m.strike
  | proceed {v q n} (hq : m.venues[v]? = some q) (hk : q.kind.isParallel = true)
      (hn : n ≤ q.waiting.length) : Cued m (.proceed v n) [] (m.proceed v n)

/-- The runs from a machine that get some cues, in this order. -/
inductive Plays (m₀ : Machine C) : List (Cue C.Action) → List (Moment C) → Machine C → Prop where
  | start : Plays m₀ [] [] m₀
  | step {cues past m m'} (h : Plays m₀ cues past m) (hm : m.step? = some m') :
      Plays m₀ cues (past ++ m.moment?.toList) m'
  | cue {cues past m c qs m'} (h : Plays m₀ cues past m) (hm : m.step? = none)
      (hc : Cued m c qs m') : Plays m₀ (cues ++ [c]) (past ++ qs) m'

/-- What a machine runs by itself. -/
inductive Steps : Machine C → List (Moment C) → Machine C → Prop where
  | stay (m) : Steps m [] m
  | step {m m₁ later m₂} (hm : m.step? = some m₁) (h : Steps m₁ later m₂) :
      Steps m (m.moment?.toList ++ later) m₂

section

variable {m₀ m m' m₁ m₂ : Machine C} {cues : List (Cue C.Action)} {past past' later : List (Moment C)}

theorem Machine.advance?_of_step {m m' : Machine C} (h : m.step? = some m') :
    m.advance? = some m' := by
  unfold advance?
  rw [h]

theorem Machine.advance?_of_poll {m m' : Machine C} (hm : m.step? = none) (h : m.poll? = some m') :
    m.advance? = some m' := by
  unfold advance?
  rw [hm, h]

theorem Plays.run (h : Plays m₀ cues past m) : Run m₀ past m := by
  induction h with
  | start => exact .start
  | step _ hm ih => exact ih.advance (Machine.advance?_of_step hm)
  | cue _ hm hc ih =>
    cases hc with
    | turn hp => exact ih.advance (Machine.advance?_of_poll hm hp)
    | request op =>
      rw [List.append_nil]
      exact ih.request hm op
    | strike => exact ih.strike hm
    | proceed hq hk hn =>
      rw [List.append_nil]
      exact ih.proceed hm hq hk hn

/-- Every run gets some cues. -/
theorem RunBy.plays (h : Run m₀ past m) : ∃ cues, Plays m₀ cues past m := by
  induction h with
  | start => exact ⟨[], .start⟩
  | @advance past m m' _ hm ih =>
    obtain ⟨cues, ih⟩ := ih
    unfold Machine.advance? at hm
    split at hm
    · rename_i hstep
      cases hm
      exact ⟨cues, ih.step hstep⟩
    · rename_i hstep
      exact ⟨_, ih.cue hstep (.turn hm)⟩
  | request _ hm op ih =>
    obtain ⟨cues, ih⟩ := ih
    have := ih.cue hm (.request op)
    rw [List.append_nil] at this
    exact ⟨_, this⟩
  | strike _ hm ih =>
    obtain ⟨cues, ih⟩ := ih
    exact ⟨_, ih.cue hm .strike⟩
  | proceed _ hm hq hk hn ih =>
    obtain ⟨cues, ih⟩ := ih
    have := ih.cue hm (.proceed hq hk hn)
    rw [List.append_nil] at this
    exact ⟨_, this⟩
  | reorder _ hf => cases hf

theorem Steps.concat (h : Steps m later m₁) (hm : m₁.step? = some m₂) :
    Steps m (later ++ m₁.moment?.toList) m₂ := by
  induction h with
  | stay m =>
    rw [List.nil_append, ← List.append_nil m.moment?.toList]
    exact .step hm (.stay _)
  | step hm' _ ih =>
    rw [List.append_assoc]
    exact .step hm' (ih hm)

/-- A machine that has nothing to run takes no step. -/
theorem Steps.of_stopped (h : Steps m later m₁) (hm : m.step? = none) : later = [] ∧ m₁ = m := by
  cases h with
  | stay => exact ⟨rfl, rfl⟩
  | step hm' =>
    rw [hm] at hm'
    cases hm'

theorem Cued.unique {c : Cue C.Action} {qs qs' : List (Moment C)} (h : Cued m c qs m₁)
    (h' : Cued m c qs' m₂) : qs = qs' ∧ m₁ = m₂ := by
  cases h with
  | turn hp =>
    cases h' with
    | turn hp' => exact ⟨rfl, Option.some.inj (hp.symm.trans hp')⟩
  | request op =>
    cases h'
    exact ⟨rfl, rfl⟩
  | strike =>
    cases h'
    exact ⟨rfl, rfl⟩
  | proceed =>
    cases h'
    exact ⟨rfl, rfl⟩

/-- Before its last cue a play has come to a point at which nothing was left to run. -/
theorem Plays.last_cue {c : Cue C.Action} (h : Plays m₀ (cues ++ [c]) past m) :
    ∃ past₁ m₁ qs m₂ later, Plays m₀ cues past₁ m₁ ∧ m₁.step? = none ∧ Cued m₁ c qs m₂ ∧
      Steps m₂ later m ∧ past = past₁ ++ qs ++ later := by
  generalize hall : cues ++ [c] = all at h
  induction h with
  | start => simp at hall
  | step _ hm ih =>
    obtain ⟨past₁, m₁, qs, m₂, later, h₁, hstop, hc, hs, rfl⟩ := ih hall
    exact ⟨past₁, m₁, qs, m₂, _, h₁, hstop, hc, hs.concat hm, List.append_assoc ..⟩
  | @cue cues' past m c' qs m' h hm hc =>
    obtain ⟨rfl, hc'⟩ := List.append_inj' hall rfl
    obtain rfl : c = c' := by simpa using hc'
    exact ⟨past, m, qs, m', [], h, hm, hc, .stay _, (List.append_nil _).symm⟩

theorem Plays.no_cue (h : Plays m₀ [] past m) : Steps m₀ past m := by
  generalize hnil : ([] : List (Cue C.Action)) = cues at h
  induction h with
  | start => exact .stay _
  | step _ hm ih => exact (ih hnil).concat hm
  | cue => simp at hnil

/-- A play leads to where another one with the same cues has come to an end. -/
theorem Plays.leads (h : Plays m₀ cues past m) (h' : Plays m₀ cues past' m') (hm' : m'.step? = none) :
    ∃ later, Steps m later m' ∧ past' = past ++ later := by
  -- Along the first play, which may be under way still.
  induction h generalizing past' m' with
  | start => exact ⟨past', h'.no_cue, rfl⟩
  | @step cues past m n _ hm ih =>
    obtain ⟨later, hs, rfl⟩ := ih h' hm'
    cases hs with
    | stay =>
      rw [hm'] at hm
      cases hm
    | @step _ n' later _ hn hs =>
      obtain rfl : n = n' := Option.some.inj (hm.symm.trans hn)
      exact ⟨later, hs, (List.append_assoc ..).symm⟩
  | cue _ hm hc ih =>
    -- Both had nothing left to run when they got the cue, so they stood at the same point.
    obtain ⟨past₁, m₁, qs, m₂, later, h₁, hstop, hc', hs, rfl⟩ := h'.last_cue
    obtain ⟨l, hl, rfl⟩ := ih h₁ hstop
    obtain ⟨rfl, rfl⟩ := hl.of_stopped hm
    obtain ⟨rfl, rfl⟩ := hc.unique hc'
    exact ⟨later, hs, by rw [List.append_nil]⟩

/-- What a machine runs by itself comes first in every play from it. -/
theorem Steps.plays (hs : Steps m₀ later m₁) (h : Plays m₁ cues past m) :
    Plays m₀ cues (later ++ past) m := by
  have hrun : ∀ {n later m₁}, Steps n later m₁ → ∀ {past₀}, Plays m₀ [] past₀ n →
      Plays m₀ [] (past₀ ++ later) m₁ := by
    intro n later m₁ hs
    induction hs with
    | stay => exact fun h => by simpa using h
    | step hm _ ih =>
      intro past₀ h
      rw [← List.append_assoc]
      exact ih (h.step hm)
  induction h with
  | start => simpa using hrun hs .start
  | step _ hm ih =>
    rw [← List.append_assoc]
    exact ih.step hm
  | cue _ hm hc ih =>
    rw [← List.append_assoc]
    exact ih.cue hm hc

/-- A play goes through the point to which the machine comes by itself, or is on its way there. -/
theorem Plays.through (h : Plays m₀ cues past m) (hs : Steps m₀ past' m₁) :
    (cues = [] ∧ ∃ later, Steps m later m₁ ∧ past' = past ++ later) ∨
      ∃ later, Plays m₁ cues later m ∧ past = past' ++ later := by
  induction h with
  | start => exact .inl ⟨rfl, past', hs, rfl⟩
  | step _ hm ih =>
    rcases ih with ⟨rfl, later, hleft, rfl⟩ | ⟨later, h, rfl⟩
    · cases hleft with
      | stay => exact .inr ⟨_, Plays.start.step hm, by simp⟩
      | step hm' hleft =>
        obtain rfl := Option.some.inj (hm.symm.trans hm')
        exact .inl ⟨rfl, _, hleft, (List.append_assoc ..).symm⟩
    · exact .inr ⟨_, h.step hm, List.append_assoc ..⟩
  | cue _ hm hc ih =>
    rcases ih with ⟨rfl, later, hleft, rfl⟩ | ⟨later, h, rfl⟩
    · obtain ⟨rfl, rfl⟩ := hleft.of_stopped hm
      exact .inr ⟨_, Plays.start.cue hm hc, by simp⟩
    · exact .inr ⟨_, h.cue hm hc, List.append_assoc ..⟩

/-- Cues determine a play that has come to an end. -/
theorem Plays.unique (h : Plays m₀ cues past m) (h' : Plays m₀ cues past' m') (hm : m.step? = none)
    (hm' : m'.step? = none) : past' = past ∧ m' = m := by
  obtain ⟨later, hs, rfl⟩ := h.leads h' hm'
  obtain ⟨rfl, rfl⟩ := hs.of_stopped hm
  exact ⟨List.append_nil _, rfl⟩

end

end Conduit.Dispatch
