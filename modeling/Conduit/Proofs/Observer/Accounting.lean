import Conduit.Proofs.Observer.Tokens

/-!
How the number of live registrations changes. Whoever is registered anew makes it one more, and whoever
is removed makes it as many less as the answer tells. Only the answer to the removal of a token may tell
of a registration that does not count any more: one whose observer has gone since the registrations were
last pruned.
-/

namespace Conduit.Observer

open Dispatch

namespace Registry

variable {r : Registry} {alive : Nat → Bool} {o t : Nat}

theorem count_eq (r : Registry) (alive : Nat → Bool) :
    r.count alive = r.entries.countP (alive ·.observer) :=
  List.countP_eq_length_filter.symm

/-- Whoever is pruned did not count. -/
theorem count_prune (r : Registry) (alive : Nat → Bool) :
    (r.prune alive).count alive = r.count alive := by
  simp only [count, prune, List.filter_filter, Bool.and_self]

/-- All registrations of an observer that is there count, and so as many are gone as are told. -/
theorem count_remove (ho : alive o = true) :
    (r.remove alive o).1.count alive + (r.remove alive o).2 = r.count alive := by
  have hall := List.countP_eq_countP_filter_add r.entries (alive ·.observer) (·.observer ≠ o)
  have hlen := List.length_eq_length_filter_add (l := r.entries) (·.observer ≠ o)
  have hgone : (r.entries.filter fun e => !decide (e.observer ≠ o)).countP (alive ·.observer) =
      (r.entries.filter fun e => !decide (e.observer ≠ o)).length := by
    refine List.countP_eq_length.mpr fun e he => ?_
    obtain rfl : e.observer = o := by simpa using (List.mem_filter.mp he).2
    exact ho
  rw [remove, count_prune, count_eq, count_eq]
  dsimp only
  omega

theorem removeToken_eq_true :
    (r.removeToken alive t).2 = true ↔ ∃ e ∈ r.entries, e.token = t := by
  unfold removeToken
  cases hi : r.entries.findIdx? (·.token = t) with
  | none =>
    have hno : ∀ e ∈ r.entries, e.token ≠ t := by simpa using List.findIdx?_eq_none_iff.mp hi
    simpa using hno
  | some i =>
    obtain ⟨hlt, htoken, -⟩ := List.findIdx?_eq_some_iff_getElem.mp hi
    exact iff_of_true rfl ⟨r.entries[i], List.getElem_mem hlt, by simpa using htoken⟩

/-- One registration less counts if the token is that of one that is live. -/
theorem count_removeToken (h : r.Sound) : (r.removeToken alive t).1.count alive +
    (if ∃ e ∈ r.entries, e.token = t ∧ alive e.observer = true then 1 else 0) = r.count alive := by
  unfold removeToken
  cases hi : r.entries.findIdx? (·.token = t) with
  | none =>
    have hno : ∀ e ∈ r.entries, e.token ≠ t := by simpa using List.findIdx?_eq_none_iff.mp hi
    rw [if_neg fun ⟨e, he, het, _⟩ => hno e he het]
    exact count_prune r alive
  | some i =>
    obtain ⟨hlt, htoken, -⟩ := List.findIdx?_eq_some_iff_getElem.mp hi
    have htoken : r.entries[i].token = t := by simpa using htoken
    -- Tokens tell registrations apart, and so nobody else has this one.
    have hlive : (∃ e ∈ r.entries, e.token = t ∧ alive e.observer = true) ↔
        alive r.entries[i].observer = true := by
      constructor
      · rintro ⟨e, he, het, halive⟩
        have same := List.inj_on_of_nodup_map h.tokens he (List.getElem_mem hlt) (het.trans htoken.symm)
        exact same ▸ halive
      · exact fun halive => ⟨_, List.getElem_mem hlt, htoken, halive⟩
    dsimp only
    rw [count_prune, count_eq, count_eq, (swapRemove_perm _ hlt).countP_eq,
      ← (List.getElem_cons_eraseIdx_perm hlt).countP_eq, List.countP_cons]
    simp only [hlive]

end Registry

variable {free : Bool}

/-- A call that looks for registrations: that of an observer or a token that it knows, or of all. -/
def prunes (q : Moment component) : Prop :=
  match q.cause with
  | .exec _ (.add ..) => (joins? q).isSome
  | .exec _ (.remove id) => (q.state.names.lookup id).isSome
  | .exec _ (.removeToken token) => (q.state.tokens.lookup token).isSome
  | .exec _ (.callEach ..) => True
  | _ => False

/-- What the answers of a set of observers tell of the number of live registrations. -/
structure Accounted (x : ExecutionBy free initial) : Prop where
  /-- There is one more exactly when the token that is told has never been told before. -/
  added : ∀ id context token o c, x.machine.control = .run (.own (.add id context token)) →
    x.machine.state.names.lookup id = some o → x.machine.context? context = some c →
    ∃ m' n, x.machine.step? = some m' ∧ m'.control = .back (.own (.token n)) ∧
      m'.state.count = x.machine.state.count + if n ∈ tokens x.past then 0 else 1
  /-- There are as many less as have been removed. -/
  removed : ∀ id o, x.machine.control = .run (.own (.remove id)) →
    x.machine.state.names.lookup id = some o →
    ∃ m' n, x.machine.step? = some m' ∧ m'.control = .back (.own (.removed n)) ∧
      m'.state.count + n = x.machine.state.count
  /-- There is one less exactly when the token is told to be removed, unless its observer is gone. -/
  tokenRemoved : ∀ token n, x.machine.control = .run (.own (.removeToken token)) →
    x.machine.state.tokens.lookup token = some n →
    ∃ m' b, x.machine.step? = some m' ∧ m'.control = .back (.own (.tokenRemoved b)) ∧
      ((∀ e ∈ x.machine.state.registry.entries, e.token = n →
          x.machine.state.alive e.observer = true) →
        (b = true ↔ m'.state.count + 1 = x.machine.state.count) ∧
        (b = false ↔ m'.state.count = x.machine.state.count)) ∧
      ((∃ e ∈ x.machine.state.registry.entries, e.token = n ∧
          x.machine.state.alive e.observer = false) →
        b = true ∧ m'.state.count = x.machine.state.count)
  /-- A call that looks for registrations leaves none whose observer is gone. -/
  pruned : ∀ q m', x.machine.moment? = some q → prunes q → x.machine.step? = some m' →
    m'.state.live = m'.state.registry.entries

/-! ### Calls -/

section Calls

variable {m : Machine component}

theorem exec_remove {view : View} {s : Observers} {id : String} {o : Nat}
    (ho : s.names.lookup id = some o) : (exec view s (.remove id)).next =
      .reply (.own (.removed (s.registry.remove s.alive o).2)) := by
  simp [exec, ho, reply]

theorem exec_removeToken {view : View} {s : Observers} {token : String} {n : Nat}
    (hn : s.tokens.lookup token = some n) : (exec view s (.removeToken token)).next =
      .reply (.own (.tokenRemoved (s.registry.removeToken s.alive n).2)) := by
  simp [exec, hn, reply]

theorem count_added (x : ExecutionBy free initial) {id context token : String} {o : Nat}
    {c : Context} (hc : x.machine.control = .run (.own (.add id context token)))
    (ho : x.machine.state.names.lookup id = some o) (hcon : x.machine.context? context = some c) :
    ∃ m' n, x.machine.step? = some m' ∧ m'.control = .back (.own (.token n)) ∧
      m'.state.count = x.machine.state.count + if n ∈ tokens x.past then 0 else 1 := by
  obtain ⟨m', n, hstep, hreply, hcases⟩ := added x hc ho hcon
  refine ⟨m', n, hstep, hreply, ?_⟩
  rcases hcases with ⟨e, he, -, rfl, hlive⟩ | ⟨-, hnew, hlive⟩
  · have hold : e.token ∈ tokens x.past :=
      (tokens_iff x _).mpr ((sound x).registry.below e (Observers.mem_live.mp he).1)
    rw [if_pos hold]
    exact congrArg List.length hlive
  · rw [if_neg hnew]
    exact (congrArg List.length hlive).trans List.length_append

theorem count_removed {id : String} {o : Nat} (hc : m.control = .run (.own (.remove id)))
    (ho : m.state.names.lookup id = some o) :
    ∃ m' n, m.step? = some m' ∧ m'.control = .back (.own (.removed n)) ∧
      m'.state.count + n = m.state.count := by
  obtain ⟨m', hstep, hstate, hreply⟩ := step?_own_state hc
  refine ⟨m', _, hstep, hreply _ (exec_remove ho), ?_⟩
  rw [hstate, after_remove ho]
  exact Registry.count_remove (Observers.alive_of_lookup ho)

/-- What the removal of a token tells, and whether one less counts then. -/
theorem count_tokenRemoved (hs : m.state.Sound) {token : String} {n : Nat}
    (hc : m.control = .run (.own (.removeToken token)))
    (hn : m.state.tokens.lookup token = some n) :
    ∃ m' b, m.step? = some m' ∧ m'.control = .back (.own (.tokenRemoved b)) ∧
      (b = true ↔ ∃ e ∈ m.state.registry.entries, e.token = n) ∧
      m'.state.count + (if ∃ e ∈ m.state.registry.entries, e.token = n ∧
        m.state.alive e.observer = true then 1 else 0) = m.state.count := by
  obtain ⟨m', hstep, hstate, hreply⟩ := step?_own_state hc
  refine ⟨m', _, hstep, hreply _ (exec_removeToken hn), Registry.removeToken_eq_true, ?_⟩
  rw [hstate, after_removeToken hn]
  exact Registry.count_removeToken hs.registry

/-- Whoever looks for registrations leaves none whose observer is gone. -/
theorem live_of_prunes {q : Moment component} (hs : q.state.Sound) (h : prunes q) :
    (after q).live = (after q).registry.entries := by
  obtain ⟨s, cause⟩ := q
  refine List.filter_eq_self.mpr fun e he => ?_
  cases cause with
  | exec view a =>
    cases a with
    | add id context token =>
      rcases (exec_cases hs (.add id context token) : Quiet ⟨s, .exec view _⟩ ∨ _) with
        hq | ⟨o, c, hj⟩
      · simp [prunes, hq.joins] at h
      · exact (Observers.mem_live.mp (hj.live_eq.symm ▸ he)).2
    | remove id =>
      obtain ⟨o, ho⟩ := Option.isSome_iff_exists.mp h
      rw [after_remove ho] at he ⊢
      exact (Registry.mem_remove.mp he).2.2
    | removeToken token =>
      obtain ⟨n, hn⟩ := Option.isSome_iff_exists.mp h
      rw [after_removeToken hn] at he ⊢
      exact ((Registry.mem_removeToken hs.registry).mp he).2.2
    | callEach => exact (Registry.mem_prune.mp he).2
    | _ => exact h.elim
  | _ => exact h.elim

end Calls

/-- The answers of a set of observers account for the number of its live registrations, but for the
removal of a registration whose observer is gone. -/
theorem accounting_contract (x : ExecutionBy free initial) : Accounted x where
  added _ _ _ _ _ hc ho hcon := count_added x hc ho hcon
  removed _ _ hc ho := count_removed hc ho
  tokenRemoved token n hc hn := by
    obtain ⟨m', b, hstep, hreply, hfound, hcount⟩ := count_tokenRemoved (sound x) hc hn
    refine ⟨m', b, hstep, hreply, fun hthere => ?_, ?_⟩
    · -- The token is found exactly if the registration counts.
      have hsame : (∃ e ∈ x.machine.state.registry.entries, e.token = n ∧
          x.machine.state.alive e.observer = true) ↔ b = true := by
        rw [hfound]
        exact exists_congr fun e => and_congr_right fun he =>
          and_iff_left_of_imp fun het => hthere e he het
      simp only [hsame] at hcount
      cases b <;> simp at hcount ⊢ <;> omega
    · rintro ⟨e, he, het, hgone⟩
      -- Nobody else has the token, and so nobody who counts has it.
      have hnone : ¬∃ f ∈ x.machine.state.registry.entries, f.token = n ∧
          x.machine.state.alive f.observer = true := by
        rintro ⟨f, hf, hft, halive⟩
        have same := List.inj_on_of_nodup_map (sound x).registry.tokens hf he (hft.trans het.symm)
        rw [same, hgone] at halive
        cases halive
      rw [if_neg hnone] at hcount
      exact ⟨hfound.mpr ⟨e, he, het⟩, hcount⟩
  pruned q m' hq hp hstep := by
    have hstate := advance?_state (Machine.advance?_of_step hstep)
    rw [hq] at hstate
    obtain ⟨cause, -, rfl⟩ := Option.map_eq_some_iff.mp hq
    rw [hstate]
    exact live_of_prunes (sound x) hp

/-- An observer that was registered is gone, and the token of his registration is about to be removed. -/
def forgotten : Execution initial :=
  ((ExecutionBy.begin initial).perform 1
    [.own (.create "clerk" false), .own (.add "clerk" "" "c"), .own (.drop "clerk")]).request
    (.own (.removeToken "c"))

/-- The removal is told, although nobody less counts than before: nobody did. -/
theorem forgotten_removed : forgotten.machine.control = .run (.own (.removeToken "c")) ∧
    forgotten.machine.state.tokens.lookup "c" = some 0 ∧
    ∃ m', forgotten.machine.step? = some m' ∧ m'.control = .back (.own (.tokenRemoved true)) ∧
      m'.state.count = forgotten.machine.state.count :=
  ⟨rfl, by decide, _, rfl, rfl, by decide⟩

end Conduit.Observer
