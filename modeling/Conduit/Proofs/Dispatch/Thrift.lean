import Conduit.Proofs.Dispatch.Roaming

/-!
A component that spares itself work which would do nothing, and the same component without this thrift.
Whatever the one comes to, the other one can come to as well, and what happens on the way is the same but
for the work that does nothing.
-/

namespace Conduit.Dispatch

variable {C : Component}

/-- Which work a component spares itself. -/
structure Thrift (C : Component) where
  /-- How frames are gone on with if nothing is spared. -/
  lavish : Manner C
  spares? : Savings C
  /-- Work that does nothing in a state, and will do nothing. -/
  idle : C.State → C.Frame → Prop

/-- The component goes on with work that does nothing. -/
def Thrift.Silent (T : Thrift C) (q : Moment C) : Prop := ∃ w, q.cause = .resume w ∧ T.idle q.state w

/-- Only work is spared that does nothing, in configurations `Inv` and whatever follows. -/
structure Thrift.Sound (T : Thrift C) (Inv : Config C → Prop) : Prop where
  lavish : ∀ {s f}, T.spares? s f = none → T.lavish s f = C.resume s f
  given : ∀ {s f d w k}, T.spares? s f = some (d, w, k) →
    T.lavish s f = { state := s, next := .perform d w k }
  spared : ∀ {s f d w k}, T.spares? s f = some (d, w, k) →
    C.resume s f = { state := s, next := .enter k }
  idle : ∀ {c f d w k}, Inv c → c.next = some f → T.spares? c.state f = some (d, w, k) →
    T.idle c.state w
  resume : ∀ {s w}, T.idle s w → T.lavish s w = { state := s }
  spares : ∀ {s w}, T.idle s w → T.spares? s w = none
  unwind : ∀ {s w}, T.idle s w → (C.unwind s w).1 = s
  lasts : ∀ {c cause c' w}, Inv c → c.Step cause c' → T.idle c.state w → T.idle c'.state w
  inv : ∀ {c cause c'}, Inv c → c.Step cause c' → Inv c'

variable {T : Thrift C} {Inv : Config C → Prop} {held : List Nat} {a b b' : Machine C}
  {above below : List (Frame C)}

namespace Machine

variable {m : Machine C}

theorem spared?_of_control (h : ∀ r, m.control ≠ .back r) : m.spared? T.spares? = none := by
  unfold spared?
  split
  · rename_i r f k hc hs
    exact absurd hc (h r)
  · rfl

theorem spared?_of_stack (h : ∀ f k, m.stack ≠ .own f :: k) : m.spared? T.spares? = none := by
  unfold spared?
  split
  · rename_i r f k hc hs
    exact absurd hs (h f k)
  · rfl

theorem holding_of_spared? (h : m.spared? T.spares? = none) (held : List Nat) :
    m.holding T.spares? held = m.clearing held := by
  rw [holding, h]

/-- A machine that has a reply to give and spares nothing is fair. -/
theorem fair_of_back {r : Reply C.Answer} (hc : m.control = .back r) (h : m.spared? T.spares? = none) :
    m.Fair T.spares? held where
  counted id n v hrun := by simp [hc] at hrun
  spared v hv := by simp [h] at hv

theorem step?_eq_none : m.step? = none ↔ m.stack = [] ∧ ∀ op, m.control ≠ .run op := by
  refine ⟨fun h => ⟨stack_of_step? h, fun op hc => ?_⟩, fun ⟨hs, hc⟩ => ?_⟩
  · cases op <;> simp [step?, hc] at h
  · unfold step?
    split
    · exact absurd ‹_› (hc _)
    · exact absurd ‹_› (hc _)
    · rw [hs]
    · rw [hs]

theorem advance?_eq_none : m.advance? = none ↔ m.step? = none ∧ m.ready = [] := by
  refine ⟨fun hm => ⟨?_, ready_of_advance? hm⟩, fun ⟨hm, hready⟩ => ?_⟩
  · unfold advance? at hm
    split at hm
    · cases hm
    · assumption
  · rw [advance?, hm]
    simp [poll?, hready]

theorem cause?_nil [IsEmpty C.Task] (hs : m.stack = []) (hc : ∀ op, m.control ≠ .run op) :
    m.cause? = none := by
  unfold cause?
  split
  · exact absurd ‹_› (hc _)
  · simp [hs] at *
  · simp [hs] at *
  · rename_i t _ _ _ _
    exact isEmptyElim t
  · rename_i t _ _ _ _
    exact isEmptyElim t
  · rfl

/-- Where nothing comes back to the one who moves a line, no queue is cleared. -/
theorem clearing_of_stack {r : Reply C.Answer} (hc : m.control = .back r) {f : Frame C}
    {k : List (Frame C)} (hs : m.stack = f :: k) (hf : ∀ v left ran, f ≠ .drain v left ran) :
    m.clearing held = held := by
  unfold clearing
  rw [hc, hs]
  cases f with
  | drain v left ran => exact absurd rfl (hf v left ran)
  | _ => rfl

end Machine

open Machine

/-! ### Idle work -/

/-- A step of a machine that changes nothing but itself. -/
structure Vain (T : Thrift C) (held : List Nat) (b b' : Machine C) : Prop where
  step : b.stepBy T.lavish = some b'
  fair : b.Fair T.spares? held
  holding : b.holding T.spares? held = held
  silent : ∀ q, b.moment? = some q → T.Silent q
  weight : b'.weight < b.weight

theorem Poised.reply {k : List (Frame C)} {c : Control C} {r r' : Reply C.Answer}
    (h : Poised k c (.back r)) : Poised k c (.back r') := by
  cases h with
  | back r => exact .back r r'
  | rest hk h => exact .rest hk h nofun

/-- Frames that run idle work are left behind in vain. -/
theorem Tarrying.leave {f : Frame C} (h : Tarrying (T.idle a.state) held a b (f :: above) below)
    {r : Reply C.Answer} {j : List (Entry C)} :
    Tarrying (T.idle a.state) held a
      { b with stack := above ++ below, control := .back r, journal := j } above below where
  stack := rfl
  quiet g hg := h.quiet g (List.mem_cons_of_mem f hg)
  control _ := ⟨r, rfl⟩
  beside := by
    obtain ⟨r', hr'⟩ := h.control (List.cons_ne_nil f above)
    have hc := h.beside.control
    dsimp only at hc
    rw [hr'] at hc
    exact h.beside.go h.beside.stack hc.reply a.journal j

/-- A frame of the machine itself is left behind, and nothing is heard of it. -/
theorem Vain.of_frame {r : Reply C.Answer} {f : Frame C} {k : List (Frame C)} (hc : b.control = .back r)
    (hs : b.stack = f :: k) (hown : ∀ w, f ≠ .own w)
    (hclear : b.clearing held = held)
    (hw : (({ b with stack := k } : Machine C).returnTo r f).weight < b.weight) :
    Vain T held b (({ b with stack := k } : Machine C).returnTo r f) := by
  have hspared : b.spared? T.spares? = none :=
    spared?_of_stack fun g k' hs' => hown g (List.cons.inj (hs.symm.trans hs')).1
  refine ⟨?_, fair_of_back hc hspared, ?_, ?_, hw⟩
  · rw [stepBy_other fun _ g _ _ hs' => hown g (List.cons.inj (hs.symm.trans hs')).1]
    exact step?_back hc hs
  · rw [holding_of_spared? hspared, hclear]
  · intro q hq
    rw [moment?_eq (cause?_back hc hs)] at hq
    cases f with
    | own w => exact absurd rfl (hown w)
    | _ => cases hq

/-- Idle work is run in vain. -/
theorem Tarrying.vain (hT : T.Sound Inv) {f : Frame C}
    (h : Tarrying (T.idle a.state) held a b (f :: above) below) :
    ∃ b', Vain T held b b' ∧ Tarries (T.idle a.state) held a b' := by
  obtain ⟨r, hc⟩ := h.control (List.cons_ne_nil f above)
  have hs : b.stack = f :: (above ++ below) := h.stack
  have hquiet := h.quiet f List.mem_cons_self
  have hstate : b.state = a.state := h.beside.state
  cases f with
  | own w =>
    have hidle : T.idle b.state w := hstate.symm ▸ hquiet
    have hspared : b.spared? T.spares? = none := by
      simp [spared?, hc, hs, hT.spares hidle]
    have hstep : b.stepBy T.lavish = _ := stepBy_own hc hs
    rw [hT.resume hidle] at hstep
    refine ⟨_, ⟨hstep, fair_of_back hc hspared, ?_, ?_, ?_⟩, above, below, h.leave⟩
    · rw [holding_of_spared? hspared, clearing_of_stack hc hs (by simp)]
    · intro q hq
      rw [moment?_eq (cause?_back hc hs)] at hq
      cases hq
      exact ⟨w, rfl, hidle⟩
    · simp [Machine.weight, hs, take, wakeAll, Machine.reply]
  | turn site =>
    refine ⟨_, .of_frame hc hs (by simp) (clearing_of_stack hc hs (by simp)) ?_, above, below, h.leave⟩
    simp [Machine.weight, hs, returnTo, Machine.reply, record]
  | task =>
    refine ⟨_, .of_frame hc hs (by simp) (clearing_of_stack hc hs (by simp)) ?_, above, below, h.leave⟩
    simp [Machine.weight, hs, returnTo, Machine.reply]
  | serve v left after =>
    have hclear : b.clearing held = held := clearing_of_stack hc hs (by simp)
    have hvain := Vain.of_frame (T := T) hc hs (by simp) hclear
    have hleft := h.leave (r := after) (j := b.journal)
    by_cases hover : left = some 0 ∨ b.line v = []
    · have hreply : ({ b with stack := above ++ below } : Machine C).returnTo r (.serve v left after) =
          { b with stack := above ++ below, control := .back after } := serve_over hover
      rw [hreply] at hvain
      exact ⟨_, hvain (by simp [Machine.weight, hs]), above, below, hleft⟩
    · obtain ⟨hl, hne⟩ := not_or.mp hover
      obtain ⟨w, rest, hline⟩ := List.exists_cons_of_ne_nil hne
      have hbegin : ({ b with stack := above ++ below } : Machine C).returnTo r (.serve v left after) =
          _ := serve_begin hl hline
      rw [hbegin] at hvain
      have hline' : ({ b with stack := below } : Machine C).line v = w :: rest := hline
      have hpadded := h.beside.lines v
      rw [hline', hquiet.1] at hpadded
      obtain ⟨hidle, hrest⟩ := hpadded.idle_of_nil
      have heven : v ∉ held → rest = a.line v := fun hheld => by
        have hsame := h.beside.even v hheld
        rw [hline', hquiet.1] at hsame
        cases hsame
      obtain ⟨hlevel, hstack, -⟩ := h.beside.relieve (l := a.line v) (by simp [hline'])
        (hquiet.1.symm ▸ hrest) heven h.beside.stack hquiet.2
      rw [refill_line] at hlevel hstack
      refine ⟨_, hvain ?_, .own w :: .turn (.venue v) :: .serve v (left.map (· - 1)) after :: above,
        below, rfl, fun g hg => ?_, fun _ => ⟨_, rfl⟩, ?_⟩
      · exact weight_begin hline (by simp [hs]) _ _
      · simp only [List.mem_cons] at hg
        rcases hg with rfl | rfl | rfl | hg
        · exact hidle
        · trivial
        · exact hquiet
        · exact h.quiet g (List.mem_cons_of_mem _ hg)
      · exact ⟨hlevel.go _ _ _ _ _ _, hstack, hleft.beside.control.reply⟩
  | script tag rest throws => exact hquiet.elim
  | drain v left ran => exact hquiet.elim

/-! ### Machines side by side -/

namespace Poised

variable {k : List (Frame C)} {c c' : Control C}

theorem of_run {op : Op C.Action} (h : Poised k (.run op) c') : c' = .run op := by
  cases h with
  | run => rfl
  | rest _ h => exact absurd rfl (h op)

theorem of_back {r : Reply C.Answer} (h : Poised k (.back r) c') (hk : k ≠ []) : ∃ r', c' = .back r' := by
  cases h with
  | back r r' => exact ⟨r', rfl⟩
  | rest hk' => exact absurd hk' hk

theorem of_thrown (h : Poised k .thrown c') (hk : k ≠ []) : c' = .thrown := by
  cases h with
  | thrown => rfl
  | rest hk' => exact absurd hk' hk

theorem reply_left {r r' : Reply C.Answer} (h : Poised k (.back r) c) : Poised k (.back r') c := by
  cases h with
  | back _ r => exact .back r' r
  | rest hk _ h => exact .rest hk nofun h

end Poised

/-- The answer that comes back does not matter. -/
theorem Tarries.of_back {idle : C.Frame → Prop} {r r' : Reply C.Answer}
    (h : Tarries idle held { a with control := .back r' } b) (hc : a.control = .back r) :
    Tarries idle held a b := by
  obtain ⟨above, below, h⟩ := h
  refine ⟨above, below, h.stack, h.quiet, h.control, ?_⟩
  have hcontrol : Poised a.stack (.back r) _ := h.beside.control.reply_left
  rw [← hc] at hcontrol
  exact h.beside.go h.beside.stack hcontrol a.journal b.journal

namespace Beside

variable {idle : C.Frame → Prop} (h : Beside idle held a b)
include h

theorem spared?_eq (spares? : Savings C) : b.spared? spares? = a.spared? spares? := by
  unfold spared?
  rw [h.state]
  have hs := h.stack
  have hc := h.control
  generalize a.control = c, b.control = c', a.stack = s, b.stack = s', a.line = line,
    b.line = line' at hs hc ⊢
  cases hc with
  | run op => rfl
  | thrown => rfl
  | back r r' =>
    cases hs with
    | nil => rfl
    | @cons f _ _ _ hf _ =>
      cases hf with
      | same => cases f <;> rfl
      | _ => rfl
  | rest hk =>
    subst hk
    cases hs
    cases c <;> cases c' <;> rfl

/-- The frames on top belong together. -/
theorem uppermost {f : Frame C} {k : List (Frame C)} (hs : a.stack = f :: k) :
    ∃ g k', b.stack = g :: k' ∧ Abreast idle held a.line b.line f g ∧
      List.Forall₂ (Abreast idle held a.line b.line) k k' := by
  have hstack := h.stack
  rw [hs] at hstack
  obtain ⟨g, k', hf, hk, hs'⟩ := List.forall₂_cons_left_iff.mp hstack
  exact ⟨g, k', hs', hf, hk⟩

theorem nil_iff : b.stack = [] ↔ a.stack = [] := by
  rw [← List.length_eq_zero_iff, ← List.length_eq_zero_iff, h.stack.length_eq]

theorem run_iff (op : Op C.Action) : b.control = .run op ↔ a.control = .run op := by
  have hcontrol := h.control
  generalize a.control = c, b.control = c' at hcontrol
  cases hcontrol with
  | run op => exact Iff.rfl
  | back r r' => exact ⟨nofun, nofun⟩
  | thrown => exact Iff.rfl
  | rest _ hc hc' => exact ⟨fun h => absurd h (hc' op), fun h => absurd h (hc op)⟩

/-- Both machines have nothing to run, or none has. -/
theorem atRest_iff : b.step? = none ↔ a.step? = none := by
  rw [step?_eq_none, step?_eq_none, h.nil_iff]
  exact and_congr_right fun _ => forall_congr' fun op => not_congr (h.run_iff op)

theorem cause?_eq [IsEmpty C.Task] : b.cause? = a.cause? := by
  have hcontrol := h.control
  cases hs : a.stack with
  | nil =>
    have hs' := h.nil_iff.mpr hs
    generalize hc : a.control = c, hc' : b.control = c' at hcontrol
    cases hcontrol with
    | run op =>
      cases op with
      | own x => rw [cause?_own hc, cause?_own hc', view_of_shell h.shell]
      | context o => rw [cause?_context hc, cause?_context hc']
    | back r r' => rw [cause?_nil hs (by simp [hc]), cause?_nil hs' (by simp [hc'])]
    | thrown => rw [cause?_nil hs (by simp [hc]), cause?_nil hs' (by simp [hc'])]
    | rest _ h h' => rw [cause?_nil hs (hc ▸ h), cause?_nil hs' (hc' ▸ h')]
  | cons f k =>
    obtain ⟨g, k', hs', hf, -⟩ := h.uppermost hs
    have hne : a.stack ≠ [] := by simp [hs]
    cases hc : a.control with
    | run op =>
      rw [hc] at hcontrol
      have hc' := hcontrol.of_run
      cases op with
      | own x => rw [cause?_own hc, cause?_own hc', view_of_shell h.shell]
      | context o => rw [cause?_context hc, cause?_context hc']
    | back r =>
      rw [hc] at hcontrol
      obtain ⟨r', hc'⟩ := hcontrol.of_back hne
      rw [cause?_back hc hs, cause?_back hc' hs']
      cases hf with
      | @same f => cases f <;> rfl
      | _ => rfl
    | thrown =>
      rw [hc] at hcontrol
      have hc' := hcontrol.of_thrown hne
      rw [cause?_thrown hc hs, cause?_thrown hc' hs']
      cases hf with
      | @same f => cases f <;> rfl
      | _ => rfl

/-- The same queues are moved by a number. -/
theorem counted_iff (v n : Nat) :
    (∃ ran, .drain v (some n) ran ∈ b.stack) ↔ ∃ ran, .drain v (some n) ran ∈ a.stack := by
  have hs := h.stack
  generalize a.line = line, b.line = line', a.stack = s, b.stack = s' at hs
  induction hs with
  | nil => simp
  | cons hf _ ih =>
    simp only [List.mem_cons, exists_or, ih]
    refine or_congr_left ?_
    cases hf with
    | same => rfl
    | drain => simp
    | serve => simp

/-- Where pieces of work may be counted in the one machine, they may be in the other one. -/
theorem fair_iff (spares? : Savings C) : b.Fair spares? held ↔ a.Fair spares? held := by
  have hcounted (v n : Nat) :
      (∀ ran, .drain v (some n) ran ∉ b.stack) ↔ ∀ ran, .drain v (some n) ran ∉ a.stack := by
    simpa using not_congr (h.counted_iff v n)
  constructor
  · intro hf
    refine ⟨fun id n v hc hv => ?_, fun v hv n => ?_⟩
    · exact hf.counted id n v ((h.run_iff _).mpr hc) ((h.venue?_eq id .manual).trans hv)
    · exact (hcounted v n).mp (hf.spared v ((h.spared?_eq spares?).trans hv) n)
  · intro hf
    refine ⟨fun id n v hc hv => ?_, fun v hv n => ?_⟩
    · exact hf.counted id n v ((h.run_iff _).mp hc) ((h.venue?_eq id .manual).symm.trans hv)
    · exact (hcounted v n).mpr (hf.spared v ((h.spared?_eq spares?).symm.trans hv) n)

end Beside

end Conduit.Dispatch
