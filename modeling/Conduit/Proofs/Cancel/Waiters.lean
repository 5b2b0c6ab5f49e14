import Conduit.Proofs.Cancel.Timers

/-!
Waiters. Whoever waits for a ticket is served once, after the ticket has been cancelled and before the
machine comes to rest; it does not matter whether he came before or after that. Waiting does nothing to
tickets and their handlers.
-/

namespace Conduit.Cancel

open Dispatch

/-- What is told of the waiter `k` at this moment. -/
def toldAt (k : Nat) (q : Moment component) : List Note :=
  match q.cause with
  | .poll (.waiter j) => if j = k then (poll q.state (.waiter j)).notes else []
  | _ => []

/-- What is told of the waiter `k`. -/
def told (k : Nat) (past : List (Moment component)) : List Note := past.flatMap (toldAt k)

/-- Someone begins to wait at this moment, or is served who waits. -/
inductive Waits : Moment component → Prop where
  | join {s view id label} : Waits ⟨s, .exec view (.wait id label)⟩
  | serve {s k} : Waits ⟨s, .poll (.waiter k)⟩

/-- A waiter adds nothing to what happens to tickets. -/
theorem Waits.silent {q : Moment component} (h : Waits q) : deedsAt q = [] ∧
    q.after.tickets = q.state.tickets ∧ q.after.registered = q.state.registered := by
  cases h with
  | @join s view id label =>
    have hstate : (exec view s (.wait id label)).state.tickets = s.tickets ∧
        (exec view s (.wait id label)).state.registered = s.registered := by
      simp only [exec]
      split <;> exact ⟨rfl, rfl⟩
    exact ⟨rfl, hstate⟩
  | @serve s k =>
    have hstate : (poll s (.waiter k)).state.tickets = s.tickets ∧
        (poll s (.waiter k)).state.registered = s.registered := by
      simp only [poll]
      split
      · exact ⟨rfl, rfl⟩
      · split <;> exact ⟨rfl, rfl⟩
    exact ⟨rfl, hstate⟩

/-! ### Where a waiter stands -/

/-- What the past tells of the waiter `k` that stands as `w`. -/
inductive Waited (past : List (Moment component)) (s : Tickets) (k : Nat) (w : Waiter) : Prop where
  | waiting (hf : w.finished = false) (htold : told k past = [])
  | served {r} (hf : w.finished = true) (hr : s.reason? w.ticket = some r)
      (htold : told k past = [.waited w.label r])

@[simp] theorem told_append (k : Nat) (past later : List (Moment component)) :
    told k (past ++ later) = told k past ++ told k later := List.flatMap_append

theorem told_served (s : Tickets) (k j : Nat) : told j [⟨s, .poll (.waiter k)⟩] =
    if k = j then (poll s (.waiter k)).notes else [] := by
  simp [told, toldAt]

/-- What a run keeps of those who wait. -/
structure Attended (past : List (Moment component)) (c : Config component) : Prop where
  shape : Shape c
  listed : ∀ a ∈ past, ∀ k t label, Joins k t label a →
    ∃ w, c.state.waiters[k]? = some w ∧ w.ticket = t ∧ w.label = label
  unborn : ∀ k, c.state.waiters.length ≤ k → told k past = []
  waited : ∀ k w, c.state.waiters[k]? = some w → Waited past c.state k w

section Steps

variable {past : List (Moment component)} {c c' : Config component}
  {cause : Option (Cause component)}

theorem waiters_of_joins {q : Moment component} {k t : Nat} {label : String}
    (h : Joins k t label q) : k = q.state.waiters.length ∧
      q.after.waiters = q.state.waiters ++ [{ ticket := t, label }] := by
  cases h with
  | wait hk h => exact ⟨hk, by simp [Moment.after, exec, h, Tickets.addWaiter]⟩

/-- A step in which no waiter is served adds one at most. -/
theorem waiters_step (hs : c.state.Housed) (h : c.Step cause c')
    (hp : ∀ k, cause ≠ some (.poll (.waiter k))) : c'.state.waiters = c.state.waiters ∨
      ∃ t label, c'.state.waiters = c.state.waiters ++ [{ ticket := t, label }] := by
  have onward {q : Moment component} {w : Turn signature} (hw : Onward q w) :
      w.state.waiters = q.state.waiters ∨
        ∃ t label, w.state.waiters = q.state.waiters ++ [{ ticket := t, label }] :=
    hw.waiters.imp_right fun ⟨t, label, _, _, he, _⟩ => ⟨t, label, he⟩
  cases cause with
  | none => exact .inl (by rw [h.state_eq])
  | some cause =>
    rw [after_of_step h]
    cases cause with
    | exec view a => exact onward (.exec hs view a)
    | resume f => exact onward (q := ⟨c.state, .resume f⟩) (.resume f)
    | unwind f => exact .inl rfl
    | tick => exact .inl rfl
    | poll task =>
      cases task with
      | waiter k => exact absurd rfl (hp k)
      | timer k =>
        refine .inl ?_
        simp only [Moment.after, poll]
        split
        · rfl
        · split
          · rfl
          · split
            · unfold expire
              dsimp only
              split
              · unfold cancel
                split <;> rfl
              · rfl
            · rfl

theorem toldAt_eq_nil {k : Nat} {q : Moment component} (h : q.cause ≠ .poll (.waiter k)) :
    toldAt k q = [] := by
  obtain ⟨s, cause⟩ := q
  cases cause with
  | poll task =>
    cases task with
    | timer j => rfl
    | waiter j =>
      have hj : j ≠ k := fun hj => h (by rw [hj])
      simp [toldAt, hj]
  | _ => rfl

theorem told_moment_eq_nil {k : Nat} (h : cause ≠ some (.poll (.waiter k))) :
    told k (c.moment cause) = [] := by
  refine List.flatMap_eq_nil_iff.mpr fun q hq => toldAt_eq_nil fun hcause => ?_
  obtain ⟨cause, rfl, rfl⟩ := mem_moment.mp hq
  exact h (congrArg some hcause)

namespace Attended

/-- A waiter is left alone. -/
theorem later (hc : Attended past c) (h : c.Step cause c') {k : Nat} {w : Waiter}
    (hw : c.state.waiters[k]? = some w) (hk : cause ≠ some (.poll (.waiter k))) :
    Waited (past ++ c.moment cause) c'.state k w := by
  have htold : told k (past ++ c.moment cause) = told k past := by
    rw [told_append, told_moment_eq_nil hk, List.append_nil]
  cases hc.waited k w hw with
  | waiting hf ht => exact .waiting hf (htold.trans ht)
  | served hf hr ht => exact .served hf ((hc.shape.moves h).2.stays hr) (htold.trans ht)

/-- A step in which no waiter is served. -/
theorem join (hc : Attended past c) (h : c.Step cause c')
    (hp : ∀ k, cause ≠ some (.poll (.waiter k))) : Attended (past ++ c.moment cause) c' := by
  have hwaiters := waiters_step hc.shape.housed h hp
  have hlen : c.state.waiters.length ≤ c'.state.waiters.length := by
    rcases hwaiters with he | ⟨t, label, he⟩ <;> simp [he]
  have hunborn (k : Nat) (hk : c.state.waiters.length ≤ k) :
      told k (past ++ c.moment cause) = [] := by
    rw [told_append, told_moment_eq_nil (hp k), hc.unborn k hk, List.append_nil]
  refine ⟨(hc.shape.moves h).1, fun a ha k t label hjoins => ?_,
    fun k hk => hunborn k (Nat.le_trans hlen hk), fun k w hw => ?_⟩
  · rcases List.mem_append.mp ha with ha | ha
    · obtain ⟨w, hw, hsame⟩ := hc.listed a ha k t label hjoins
      refine ⟨w, ?_, hsame⟩
      rcases hwaiters with he | ⟨u, l, he⟩
      · rwa [he]
      · rwa [he, List.getElem?_append_left (List.getElem?_eq_some_iff.mp hw).1]
    · obtain ⟨cause, rfl, rfl⟩ := mem_moment.mp ha
      obtain ⟨rfl, he⟩ := waiters_of_joins hjoins
      rw [after_of_step h, he]
      exact ⟨_, List.getElem?_concat_length, rfl, rfl⟩
  · rcases hwaiters with he | ⟨t, label, he⟩
    · exact hc.later h (he ▸ hw) (hp k)
    · rw [he] at hw
      rcases getElem?_concat_cases hw with hw | ⟨rfl, rfl⟩
      · exact hc.later h hw (hp k)
      · exact .waiting rfl (hunborn _ (Nat.le_refl _))

/-- A step in which a waiter is served. -/
theorem serve (hc : Attended past c) {k : Nat} (h : c.Step (some (.poll (.waiter k))) c') :
    Attended (past ++ [⟨c.state, .poll (.waiter k)⟩]) c' := by
  have hstate : c'.state = (Cancel.poll c.state (.waiter k)).state := after_of_step h
  have hothers {j : Nat} {w : Waiter} (hj : k ≠ j) (hw : c.state.waiters[j]? = some w) :
      Waited (past ++ [⟨c.state, .poll (.waiter k)⟩]) c'.state j w :=
    hc.later h hw (by simp [hj])
  have hshape := (hc.shape.moves h).1
  have hnone {j : Nat} (hj : k ≠ j) (hlen : c.state.waiters.length ≤ j) :
      told j (past ++ [⟨c.state, .poll (.waiter k)⟩]) = [] := by
    rw [told_append, hc.unborn j hlen, told_served, if_neg hj, List.append_nil]
  have hnoJoin {a : Moment component} {j t : Nat} {label : String}
      (ha : a ∈ past ++ [⟨c.state, .poll (.waiter k)⟩]) (hjoins : Joins j t label a) : a ∈ past := by
    refine (List.mem_append.mp ha).resolve_right fun ha => ?_
    rw [List.mem_singleton.mp ha] at hjoins
    cases hjoins
  -- Nobody is told anything and nobody moves.
  have idle (hs : (Cancel.poll c.state (.waiter k)).state = c.state)
      (hnotes : (Cancel.poll c.state (.waiter k)).notes = []) :
      Attended (past ++ [⟨c.state, .poll (.waiter k)⟩]) c' := by
    have hsame (j : Nat) : told j (past ++ [⟨c.state, .poll (.waiter k)⟩]) = told j past := by
      rw [told_append, told_served, hnotes, ite_self, List.append_nil]
    rw [hs] at hstate
    refine ⟨hshape, fun a ha j t label hjoins => ?_, fun j hj => ?_, fun j w hw => ?_⟩
    · rw [hstate]
      exact hc.listed a (hnoJoin ha hjoins) j t label hjoins
    · rw [hstate] at hj
      exact (hsame j).trans (hc.unborn j hj)
    · rw [hstate] at hw
      cases hc.waited j w hw with
      | waiting hf ht => exact .waiting hf ((hsame j).trans ht)
      | served hf hr ht => exact .served hf (hstate ▸ hr) ((hsame j).trans ht)
  cases hw : c.state.waiters[k]? with
  | none => exact idle (by simp [Cancel.poll, hw]) (by simp [Cancel.poll, hw])
  | some w =>
    cases hc.waited k w hw with
    | served hf _ _ => exact idle (by simp [Cancel.poll, hw, hf]) (by simp [Cancel.poll, hw, hf])
    | waiting hf ht =>
      cases hr : c.state.reason? w.ticket with
      | none =>
        exact idle (by simp [Cancel.poll, hw, hf, hr]) (by simp [Cancel.poll, hw, hf, hr])
      | some r =>
        have hlt := (List.getElem?_eq_some_iff.mp hw).1
        have hserved : c'.state.waiters = c.state.waiters.set k { w with finished := true } := by
          simp [hstate, Cancel.poll, hw, hf, hr]
        have hnotes : (Cancel.poll c.state (.waiter k)).notes = [.waited w.label r] := by
          simp [Cancel.poll, hw, hf, hr]
        refine ⟨hshape, fun a ha j t label hjoins => ?_, fun j hj => ?_, fun j v hv => ?_⟩
        · obtain ⟨v, hv, hsame⟩ := hc.listed a (hnoJoin ha hjoins) j t label hjoins
          rw [hserved]
          by_cases hj : k = j
          · subst hj
            obtain rfl : w = v := Option.some.inj (hw.symm.trans hv)
            exact ⟨{ w with finished := true }, List.getElem?_set_self hlt, hsame⟩
          · exact ⟨v, by rwa [List.getElem?_set_ne hj], hsame⟩
        · rw [hserved, List.length_set] at hj
          exact hnone (by omega) hj
        · rw [hserved] at hv
          by_cases hj : k = j
          · subst hj
            rw [List.getElem?_set_self hlt] at hv
            cases hv
            refine .served rfl ((hc.shape.moves h).2.stays hr) ?_
            rw [told_append, ht, told_served, if_pos rfl, hnotes, List.nil_append]
          · rw [List.getElem?_set_ne hj] at hv
            exact hothers hj hv

theorem step (hc : Attended past c) (h : c.Step cause c') :
    Attended (past ++ c.moment cause) c' := by
  by_cases hp : ∃ k, cause = some (.poll (.waiter k))
  · obtain ⟨k, rfl⟩ := hp
    exact hc.serve h
  · exact hc.join h fun k hk => hp ⟨k, hk⟩

end Attended

end Steps

/-- Every run keeps account of its waiters. -/
theorem attended (x : Execution initial) : Attended x.past x.machine.config :=
  x.run.config_induction Attended ⟨(sound (.begin initial)).1, nofun, fun _ _ => rfl, nofun⟩
    fun _ _ _ _ hc hstep => hc.step hstep

section Served

variable (x : Execution initial) {a : Moment component} {k t : Nat} {label : String}

/-- A waiter stands as the past tells of him. -/
theorem waited_of_joins (ha : a ∈ x.past) (hjoins : Joins k t label a) :
    ∃ w, x.machine.state.waiters[k]? = some w ∧ w.ticket = t ∧ w.label = label ∧
      Waited x.past x.machine.state k w := by
  obtain ⟨w, hw, ht, hl⟩ := (attended x).listed a ha k t label hjoins
  have hwaited := (attended x).waited k w hw
  rw [Machine.config_state] at hw hwaited
  exact ⟨w, hw, ht, hl, hwaited⟩

theorem told_once (ha : a ∈ x.past) (hjoins : Joins k t label a) : told k x.past = [] ∨
    ∃ r, x.machine.state.reason? t = some r ∧ told k x.past = [.waited label r] := by
  obtain ⟨w, -, rfl, rfl, hwaited⟩ := waited_of_joins x ha hjoins
  cases hwaited with
  | waiting _ ht => exact .inl ht
  | served _ hr ht => exact .inr ⟨_, hr, ht⟩

theorem ready_of_cancelled (ha : a ∈ x.past) (hjoins : Joins k t label a)
    (hr : x.machine.state.reason? t ≠ none) (htold : told k x.past = []) :
    .own (.waiter k) ∈ x.machine.ready := by
  obtain ⟨w, hw, rfl, rfl, hwaited⟩ := waited_of_joins x ha hjoins
  cases hwaited with
  | waiting hf _ => exact mem_ownTasks.mp ((Cancel.awake x).waiter k w hw hf hr)
  | served _ _ ht => simp [htold] at ht

theorem told_at_rest (hm : x.machine.advance? = none) (ha : a ∈ x.past)
    (hjoins : Joins k t label a) :
    told k x.past = ((x.machine.state.reason? t).map (Note.waited label)).toList := by
  rcases told_once x ha hjoins with htold | ⟨r, hr, htold⟩
  · cases hr : x.machine.state.reason? t with
    | none => simpa using htold
    | some r =>
      have hready := ready_of_cancelled x ha hjoins (by simp [hr]) htold
      simp [Machine.ready_of_advance? hm] at hready
  · simpa [hr] using htold

end Served

end Conduit.Cancel
