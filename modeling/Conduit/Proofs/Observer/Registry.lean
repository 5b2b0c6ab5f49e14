import Mathlib.Data.List.Perm.Basic
import Mathlib.Data.List.Nodup
import Conduit.Observer.Registry

/-!
The registry of observers by itself. Tokens are told apart and pairs of observer and context are
registered once, whatever is added, removed and pruned; and each change does what it says, no more.
-/

namespace Conduit.Observer

open Dispatch

/-- The observer and the context of a registration, as far as they can be told apart. -/
def Registration.pair (e : Registration) : Nat × Nat := (e.observer, e.context.identity)

namespace Registry

/-- Tokens are given out in order, and nobody is registered twice. -/
structure Sound (r : Registry) : Prop where
  tokens : (r.entries.map (·.token)).Nodup
  below : ∀ e ∈ r.entries, e.token < r.nextToken
  pairs : (r.entries.map (·.pair)).Nodup

variable {r : Registry} {alive : Nat → Bool} {o t : Nat} {c : Context} {e : Registration}

theorem mem_prune :
    e ∈ (r.prune alive).entries ↔ e ∈ r.entries ∧ alive e.observer = true :=
  List.mem_filter

theorem find?_eq_none : r.find? o c = none ↔ ∀ e ∈ r.entries, e.pair ≠ (o, c.identity) := by
  simp [find?, Registration.pair]

theorem find?_eq_some (h : r.find? o c = some e) : e ∈ r.entries ∧ e.pair = (o, c.identity) := by
  have hp := List.find?_some h
  exact ⟨List.mem_of_find?_eq_some h, by simpa [Registration.pair] using hp⟩

/-- Somebody is registered already, or gets the next token. -/
theorem add_eq (r : Registry) (alive : Nat → Bool) (o : Nat) (c : Context) :
    (∃ e ∈ (r.prune alive).entries, e.pair = (o, c.identity) ∧
      r.add alive o c = (r.prune alive, e.token)) ∨
    (∀ e ∈ (r.prune alive).entries, e.pair ≠ (o, c.identity)) ∧
      r.add alive o c = ({ nextToken := r.nextToken + 1
                           entries := (r.prune alive).entries ++ [⟨r.nextToken, o, c⟩] },
        r.nextToken) := by
  unfold add
  cases h : (r.prune alive).find? o c with
  | none => exact .inr ⟨find?_eq_none.mp h, by simp [h]; rfl⟩
  | some e =>
    obtain ⟨he, hp⟩ := find?_eq_some h
    exact .inl ⟨e, he, hp, by simp [h]⟩

theorem mem_remove : e ∈ (r.remove alive o).1.entries ↔
    e ∈ r.entries ∧ e.observer ≠ o ∧ alive e.observer = true := by
  simp only [remove, mem_prune, List.mem_filter, decide_eq_true_eq, and_assoc]

/-- The last element takes the place of one that is removed: the others stay. -/
theorem swapRemove_perm {α : Type} (l : List α) {i : Nat} (hi : i < l.length) :
    (swapRemove l i).Perm (l.eraseIdx i) := by
  obtain ⟨l, x, rfl⟩ : ∃ l' x, l = l' ++ [x] :=
    ⟨_, _, (List.dropLast_concat_getLast (List.ne_nil_of_length_pos (Nat.zero_lt_of_lt hi))).symm⟩
  unfold swapRemove
  rw [List.getLast?_concat]
  dsimp only
  rcases Nat.lt_succ_iff_lt_or_eq.mp (by simpa using hi) with hi | rfl
  · rw [List.set_append_left _ _ hi, List.dropLast_concat, List.eraseIdx_append_of_lt_length hi]
    exact (List.set_perm_cons_eraseIdx hi x).trans (List.perm_append_singleton x _).symm
  · simp [List.eraseIdx_append_of_length_le]

theorem removeToken_nextToken (r : Registry) (alive : Nat → Bool) (t : Nat) :
    (r.removeToken alive t).1.nextToken = r.nextToken := by
  unfold removeToken
  split <;> rfl

theorem mem_removeToken (h : r.Sound) : e ∈ (r.removeToken alive t).1.entries ↔
    e ∈ r.entries ∧ e.token ≠ t ∧ alive e.observer = true := by
  unfold removeToken
  cases hi : r.entries.findIdx? (·.token = t) with
  | none =>
    have hno : ∀ e ∈ r.entries, e.token ≠ t := by simpa using List.findIdx?_eq_none_iff.mp hi
    dsimp only
    rw [mem_prune]
    exact ⟨fun ⟨he, ha⟩ => ⟨he, hno e he, ha⟩, fun ⟨he, _, ha⟩ => ⟨he, ha⟩⟩
  | some i =>
    obtain ⟨hlt, htoken, -⟩ := List.findIdx?_eq_some_iff_getElem.mp hi
    have htoken : r.entries[i].token = t := by simpa using htoken
    dsimp only
    rw [mem_prune, (swapRemove_perm _ hlt).mem_iff, List.mem_eraseIdx_iff_getElem, ← and_assoc]
    refine and_congr_left fun _ => ?_
    -- Tokens tell registrations apart, and so the one at the position is the only one to go.
    have hinj {j : Nat} (hj : j < r.entries.length) : j ≠ i ↔ r.entries[j].token ≠ t := by
      refine not_congr ⟨fun hji => ?_, fun hjt => ?_⟩
      · subst hji
        exact htoken
      · refine (List.getElem?_inj (by simpa using hj) h.tokens).mp ?_
        simp [hj, hlt, hjt, htoken]
    constructor
    · rintro ⟨j, hj, hne, rfl⟩
      exact ⟨List.getElem_mem hj, (hinj hj).mp hne⟩
    · rintro ⟨he, hne⟩
      obtain ⟨j, hj, rfl⟩ := List.getElem_of_mem he
      exact ⟨j, hj, (hinj hj).mpr hne, rfl⟩

namespace Sound

/-- Registrations may go, and change their order. -/
theorem shrink (h : r.Sound) {entries left : List Registration} (hl : left.Sublist r.entries)
    (hp : entries.Perm left) : Sound { r with entries } where
  tokens := (hp.map _).nodup_iff.mpr ((hl.map _).nodup h.tokens)
  below e he := h.below e (hl.subset (hp.mem_iff.mp he))
  pairs := (hp.map _).nodup_iff.mpr ((hl.map _).nodup h.pairs)

theorem prune (h : r.Sound) (alive : Nat → Bool) : (r.prune alive).Sound :=
  h.shrink List.filter_sublist (.refl _)

theorem remove (h : r.Sound) (alive : Nat → Bool) (o : Nat) : (r.remove alive o).1.Sound :=
  (h.shrink List.filter_sublist (.refl _)).prune alive

theorem removeToken (h : r.Sound) (alive : Nat → Bool) (t : Nat) :
    (r.removeToken alive t).1.Sound := by
  unfold Registry.removeToken
  cases hi : r.entries.findIdx? (·.token = t) with
  | none => exact h.prune alive
  | some i =>
    obtain ⟨hlt, -⟩ := List.findIdx?_eq_some_iff_getElem.mp hi
    exact (h.shrink (List.eraseIdx_sublist _ i) (swapRemove_perm _ hlt)).prune alive

theorem add (h : r.Sound) (alive : Nat → Bool) (o : Nat) (c : Context) :
    (r.add alive o c).1.Sound := by
  rcases add_eq r alive o c with ⟨e, -, -, he⟩ | ⟨hnew, he⟩
  · rw [he]
    exact h.prune alive
  · rw [he]
    have hp := h.prune alive
    refine ⟨?_, fun e he => ?_, ?_⟩
    · rw [List.map_append, List.nodup_append]
      refine ⟨hp.tokens, List.nodup_singleton _, fun t ht t' ht' => ?_⟩
      obtain ⟨e, he, rfl⟩ := List.mem_map.mp ht
      rw [List.mem_singleton.mp ht']
      exact Nat.ne_of_lt (hp.below e he)
    · rcases List.mem_append.mp he with he | he
      · exact Nat.lt_succ_of_lt (hp.below e he)
      · rw [List.mem_singleton.mp he]
        exact Nat.lt_succ_self _
    · rw [List.map_append, List.nodup_append]
      refine ⟨hp.pairs, List.nodup_singleton _, fun t ht t' ht' => ?_⟩
      obtain ⟨e, he, rfl⟩ := List.mem_map.mp ht
      rw [List.mem_singleton.mp ht']
      exact hnew e he

end Sound

end Registry

end Conduit.Observer
