import Conduit.Proofs.Socket.Moves
import Mathlib.Data.List.Chain

/-!
The stage of a slot moves forward only. One step of a configuration leaves a slot in its stage or takes
it one stage further, so a run takes it along the order of the stages, and a closed slot stays closed.
-/

namespace Conduit.Socket

open Dispatch

/-- A slot stays as it is, is bound without its descriptor from now on, or gets to a stage that may
follow. -/
inductive Stage.Next (st : Stage) : Stage → Prop where
  | stays : Next st st
  | strips {b} (h : st = .bound b) : Next st (.bound { b with descriptor := none })
  | goes {st'} (h : st.name.Step st'.name) : Next st st'

/-- The slots after a step: those that were there have kept their stage or have gone on, new ones
are unbound. -/
structure Onward (slots slots' : List Stage) : Prop where
  kept : ∀ (i : Nat) (st : Stage), slots[i]? = some st → ∃ st', slots'[i]? = some st' ∧ st.Next st'
  fresh : ∀ (i : Nat) (st : Stage), slots.length ≤ i → slots'[i]? = some st → st.name = .unbound

variable {slots slots' : List Stage}

theorem Onward.refl (slots : List Stage) : Onward slots slots :=
  ⟨fun _ st h => ⟨st, h, .stays⟩, fun i st hi h => by simp [List.getElem?_eq_none hi] at h⟩

/-- One slot changes. -/
theorem Onward.change {i : Nat} {st : Stage} (h : ∀ st₀, slots[i]? = some st₀ → st₀.Next st) :
    Onward slots (slots.set i st) := by
  constructor
  · intro j st₀ hj
    by_cases hij : i = j
    · subst hij
      obtain ⟨hlt, -⟩ := List.getElem?_eq_some_iff.mp hj
      exact ⟨st, by simp [hlt], h st₀ hj⟩
    · exact ⟨st₀, by simp [hij, hj], .stays⟩
  · intro j st₀ hj h
    rw [List.getElem?_eq_none (by simpa using hj)] at h
    cases h

/-- One slot goes on. -/
theorem Onward.set {i : Nat} {st : Stage}
    (h : ∀ st₀, slots[i]? = some st₀ → st₀.name.Step st.name) : Onward slots (slots.set i st) :=
  .change fun st₀ h₀ => .goes (h st₀ h₀)

theorem Onward.append (p : Plan) : Onward slots (slots ++ [.unbound p]) := by
  constructor
  · intro i st hi
    obtain ⟨hlt, -⟩ := List.getElem?_eq_some_iff.mp hi
    exact ⟨st, by rw [List.getElem?_append_left hlt, hi], .stays⟩
  · intro i st hi h
    rw [List.getElem?_append_right hi] at h
    cases hk : i - slots.length with
    | zero =>
      obtain rfl : Stage.unbound p = st := by simpa [hk] using h
      rfl
    | succ k => simp [hk] at h

/-- A stage that is written leaves the other bound slots. -/
theorem bound_of_set {i j : Nat} {st : Stage} {b : Bound} (hst : st ≠ .bound b)
    (hi : (slots.set j st)[i]? = some (.bound b)) : slots[i]? = some (.bound b) := by
  rw [List.getElem?_set] at hi
  grind

namespace Desk

variable {d d' : Desk} {ds : List Deed}

/-- The slots of a delivery. -/
theorem deliver_onward (slots : List Stage) (slot : Option Nat) (o : Outcome) :
    Onward slots (deliver slots slot o).1 := by
  cases slot with
  | none => exact .refl _
  | some i =>
    show Onward slots (settle slots i o).1
    unfold settle
    split
    · rename_i h
      refine .set fun st₀ h₀ => ?_
      obtain rfl := Option.some.inj (h.symm.trans h₀)
      exact .settle
    · exact .set fun st₀ _ => .close st₀.name
    · exact .refl _
    · exact .refl _

/-- Every move of a desk takes its slots onward. -/
theorem Move.onward (m : d.Move ds d') : Onward d.slots d'.slots := by
  cases m with
  | openSlot p => exact .append p
  | bind e limits h =>
    refine .set fun st₀ h₀ => ?_
    obtain rfl := Option.some.inj (h.symm.trans h₀)
    exact .bind
  | listen l h =>
    refine .set fun st₀ h₀ => ?_
    obtain rfl := Option.some.inj (h.symm.trans h₀)
    exact .listen
  | strip h =>
    refine .change fun st₀ h₀ => ?_
    obtain rfl := Option.some.inj (h.symm.trans h₀)
    exact .strips rfl
  | close i => exact .set fun st₀ _ => .close _
  | @connect i st c h hst =>
    refine .set fun st₀ h₀ => ?_
    obtain rfl := Option.some.inj (h.symm.trans h₀)
    rcases hst with hst | hst
    · rw [hst]
      exact .connect
    · rw [hst]
      exact .connectBound
  | @conclude a =>
    show Onward d.slots (d.conclude a).slots
    unfold Desk.conclude
    split
    · exact deliver_onward ..
    · exact .refl _
  | _ => exact .refl _

/-- A delivery binds no slot. -/
theorem deliver_bound {slots : List Stage} {slot : Option Nat} {o : Outcome} {i : Nat} {b : Bound}
    (hi : (deliver slots slot o).1[i]? = some (.bound b)) : slots[i]? = some (.bound b) := by
  cases slot with
  | none => exact hi
  | some j =>
    change (settle slots j o).1[i]? = _ at hi
    unfold settle at hi
    split at hi
    · exact bound_of_set (by simp) hi
    · exact bound_of_set (by simp) hi
    · exact hi
    · exact hi

/-- A slot is bound without a descriptor only if it was before, or has just lost it. -/
theorem Move.bare (m : d.Move ds d') {i : Nat} {b : Bound} (hi : d'.slots[i]? = some (.bound b))
    (hb : b.descriptor = none) : d.slots[i]? = some (.bound b) ∨ .stripped i ∈ ds := by
  cases m with
  | openSlot p =>
    rw [List.getElem?_append] at hi
    grind
  | bind e limits h =>
    refine .inl (bound_of_set (fun h => ?_) hi)
    cases Stage.bound.inj h
    cases hb
  | listen l h => exact .inl (bound_of_set (by simp) hi)
  | close j => exact .inl (bound_of_set (by simp) hi)
  | connect c h hst => exact .inl (bound_of_set (by simp) hi)
  | @strip j b' h =>
    by_cases hij : j = i
    · exact .inr (by simp [hij])
    · exact .inl (by simpa [hij] using hi)
  | @conclude a =>
    refine .inl ?_
    change (d.conclude a).slots[i]? = _ at hi
    unfold Desk.conclude at hi
    split at hi
    · exact deliver_bound hi
    · exact hi
  | _ => exact .inl hi

end Desk

variable {m : Machine component}

/-- The states of a run, one after the other. -/
def states (x : Execution m) : List Sockets := x.past.map (·.state) ++ [x.machine.state]

/-- The machine and the world leave the state alone while the component takes no part. -/
theorem step_onward {c c' : Config component} {cause : Option (Dispatch.Cause component)}
    (h : c.Step cause c') : Onward c.state.slots c'.state.slots :=
  (step_move h).onward

/-- Every step of a run takes the slots onward. -/
theorem states_onward (x : Execution m) :
    (states x).IsChain fun s s' => Onward s.slots s'.slots := by
  have h := x.run.config_induction
    (fun past c => (past.map (·.state) ++ [c.state]).IsChain
      fun s s' : Sockets => Onward s.slots s'.slots) ?_ fun past c cause c' h hstep => ?_
  · rw [Machine.config_state] at h
    exact h
  · exact .singleton _
  · cases cause with
    | none =>
      have : c.moment none = [] := rfl
      rw [this, List.append_nil, hstep.state_eq]
      exact h
    | some cause =>
      have : (past ++ c.moment (some cause)).map (·.state) = past.map (·.state) ++ [c.state] := by
        simp [Config.moment]
      rw [this]
      refine h.append (.singleton _) fun s hs s' hs' => ?_
      obtain rfl : c.state = s := Option.some.inj (List.getLast?_concat.symm.trans hs)
      obtain rfl : c'.state = s' := Option.some.inj hs'
      exact step_onward hstep

/-- The stages of slots that stay as they are: a closed slot is closed later. -/
def StaysClosed (s s' : Sockets) : Prop :=
  ∀ i : Nat, s.slots[i]? = some .closed → s'.slots[i]? = some .closed

instance : Trans StaysClosed StaysClosed StaysClosed where
  trans h h' i hi := h' i (h i hi)

theorem Onward.closed {i : Nat} (h : Onward slots slots') (hi : slots[i]? = some .closed) :
    slots'[i]? = some .closed := by
  obtain ⟨st, hst, hnext⟩ := h.kept i _ hi
  cases hnext with
  | stays => exact hst
  | strips h => cases h
  | goes hstep =>
    cases st with
    | closed => exact hst
    | _ => nomatch hstep

/-- A closed slot stays closed. -/
theorem states_closed (x : Execution m) : (states x).Pairwise StaysClosed := by
  have h : (states x).IsChain StaysClosed := (states_onward x).imp fun _ _ h _ hi => h.closed hi
  exact h.pairwise

/-- A slot that has been closed at any time is closed now. -/
theorem closed_now {x : Execution m} {s : Sockets} (hs : s ∈ states x) {i : Nat}
    (hi : s.slots[i]? = some .closed) : x.machine.state.slots[i]? = some .closed := by
  have hpairs := states_closed x
  rcases List.mem_append.mp hs with hs | hs
  · exact (List.pairwise_append.mp hpairs).2.2 s hs _ List.mem_cons_self i hi
  · obtain rfl := List.mem_singleton.mp hs
    exact hi

end Conduit.Socket
