import Conduit.Proofs.Dispatch.Within
import Conduit.Proofs.Observer.Roll

/-!
What a set of observers promises about its registrations. Every registration has a token of its own,
which was never given before and is never given again once the registration is gone; a pair of observer
and context is registered once; and registrations go only when they are removed or their observer is
gone. It holds at every point of every run, also within the blocks of enumerations, and in whatever
order the reactor serves what has been woken.
-/

namespace Conduit.Observer

open Dispatch

variable {free : Bool}

/-- How often somebody was to be registered in a run. -/
def additions (past : List (Moment component)) : Nat := past.countP fun q => (joins? q).isSome

/-- What is true of the registrations after every run. -/
structure Registered (x : ExecutionBy free initial) : Prop where
  /-- Tokens tell the registrations apart. -/
  tokens : (x.machine.state.registry.entries.map (·.token)).Nodup
  /-- Nobody is registered twice on the same context. -/
  pairs : (x.machine.state.registry.entries.map (·.pair)).Nodup
  /-- The token of a registration was given to whoever made it. -/
  issued : ∀ e ∈ x.machine.state.registry.entries, e.token ∈ Observer.tokens x.past
  /-- No token reaches the number of calls that could have made one. -/
  bounded : ∀ n ∈ Observer.tokens x.past, n < additions x.past
  /-- Whoever is to be registered is told the token of the registration that is there, or gets a token
  that nobody has ever had. -/
  added : ∀ id context token o c, x.machine.control = .run (.own (.add id context token)) →
    x.machine.state.names.lookup id = some o → x.machine.context? context = some c →
    ∃ m' n, x.machine.step? = some m' ∧ m'.control = .back (.own (.token n)) ∧
      ((∃ e ∈ x.machine.state.live, e.pair = (o, c.identity) ∧ e.token = n ∧
          m'.state.live = x.machine.state.live) ∨
        (∀ e ∈ x.machine.state.live, e.pair ≠ (o, c.identity)) ∧ n ∉ Observer.tokens x.past ∧
          m'.state.live = x.machine.state.live ++ [⟨n, o, c⟩])
  /-- All registrations of an observer are removed, and no others that are live. -/
  removed : ∀ id o, x.machine.control = .run (.own (.remove id)) →
    x.machine.state.names.lookup id = some o →
    ∃ m', x.machine.step? = some m' ∧ (∀ e ∈ m'.state.registry.entries, e.observer ≠ o) ∧
      ∀ e, e ∈ m'.state.live ↔ e ∈ x.machine.state.live ∧ e.observer ≠ o
  /-- The registration with a token is removed, and no other one that is live. -/
  tokenRemoved : ∀ token n, x.machine.control = .run (.own (.removeToken token)) →
    x.machine.state.tokens.lookup token = some n →
    ∃ m', x.machine.step? = some m' ∧ (∀ e ∈ m'.state.registry.entries, e.token ≠ n) ∧
      ∀ e, e ∈ m'.state.live ↔ e ∈ x.machine.state.live ∧ e.token ≠ n
  /-- Whatever happens, a registration goes only if it is removed or its observer is gone. -/
  kept : ∀ m', x.machine.advance? = some m' → ∀ e ∈ x.machine.state.registry.entries,
    e ∈ m'.state.registry.entries ∨ x.machine.state.alive e.observer = false ∨
      ∃ q, x.machine.moment? = some q ∧ removes q e
  /-- A registration comes only with a token that is given for it and is new. -/
  came : ∀ m', x.machine.advance? = some m' → ∀ e ∈ m'.state.registry.entries,
    e ∈ x.machine.state.registry.entries ∨ e.token ∉ Observer.tokens x.past ∧
      ∃ q, x.machine.moment? = some q ∧ joins? q = some (e.observer, e.context) ∧
        token? q = some e.token
  /-- Once a registration is gone, its token is never given again and it never comes back. -/
  never : ∀ n ∈ Observer.tokens x.past, (∀ e ∈ x.machine.state.live, e.token ≠ n) →
    ∀ y : ExecutionBy free x.machine, n ∉ Observer.tokens y.past ∧
      ∀ e ∈ y.machine.state.live, e.token ≠ n

/-! ### Tokens along a run -/

/-- At each moment a token is given that is known, or the next one. -/
theorem token_cases {q : Moment component} (hs : q.state.Sound) :
    token? q = none ∧ (after q).registry.nextToken = q.state.registry.nextToken ∨
    (∃ e ∈ q.state.live, token? q = some e.token ∧
      (after q).registry.nextToken = q.state.registry.nextToken) ∨
    token? q = some q.state.registry.nextToken ∧
      (after q).registry.nextToken = q.state.registry.nextToken + 1 := by
  rcases moment_cases hs with h | ⟨o, c, h⟩
  · exact .inl ⟨by simp [token?, h.joins], h.next⟩
  · rcases h.cases with ⟨e, he, -, ht, hr⟩ | ⟨-, ht, hr⟩
    · exact .inr (.inl ⟨e, he, ht, by rw [hr]; rfl⟩)
    · exact .inr (.inr ⟨ht, by rw [hr]⟩)

/-- The tokens that were given are those before the next one. -/
theorem tokens_iff (x : ExecutionBy free initial) (n : Nat) :
    n ∈ tokens x.past ↔ n < x.machine.state.registry.nextToken := by
  -- That the registrations are sound goes along: a token that is told again is below the next one.
  refine (run_induction x.run (fun past s => s.Sound ∧ ∀ n, n ∈ tokens past ↔ n < s.registry.nextToken)
    ⟨initial_sound, by simp [tokens, initial]⟩ fun past s cause ⟨hs, hn⟩ =>
      ⟨sound_after hs, fun n => ?_⟩).2 n
  rw [tokens_append, List.mem_append, hn n, show tokens [⟨s, cause⟩] = (token? ⟨s, cause⟩).toList by
    cases h : token? ⟨s, cause⟩ <;> simp [tokens, h]]
  rcases token_cases (q := ⟨s, cause⟩) hs with ⟨ht, hnext⟩ | ⟨e, he, ht, hnext⟩ | ⟨ht, hnext⟩
  · rw [ht, hnext]
    simp
  · rw [ht, hnext]
    have := hs.registry.below e (Observers.mem_live.mp he).1
    simp
    omega
  · rw [ht, hnext]
    simp
    omega

theorem nextToken_le (x : ExecutionBy free initial) :
    x.machine.state.registry.nextToken ≤ additions x.past := by
  refine (run_induction x.run (fun past s => s.Sound ∧ s.registry.nextToken ≤ additions past)
    ⟨initial_sound, Nat.zero_le _⟩ fun past s cause ⟨hs, hle⟩ => ⟨sound_after hs, ?_⟩).2
  have hadd : additions (past ++ [⟨s, cause⟩]) =
      additions past + (joins? ⟨s, cause⟩).isSome.toNat := by
    unfold additions
    rw [List.countP_append, List.countP_singleton]
    cases (joins? ⟨s, cause⟩).isSome <;> rfl
  rw [hadd]
  rcases token_cases (q := ⟨s, cause⟩) hs with ⟨-, hnext⟩ | ⟨-, -, -, hnext⟩ | ⟨ht, hnext⟩
  · rw [hnext]
    exact Nat.le_add_right_of_le hle
  · rw [hnext]
    exact Nat.le_add_right_of_le hle
  · have hsome : (joins? ⟨s, cause⟩).isSome = true := by
      unfold token? at ht
      exact Option.isSome_iff_exists.mpr ((Option.map_eq_some_iff.mp ht).imp fun _ h => h.1)
    rw [hnext, hsome]
    exact Nat.succ_le_succ hle

/-- Later on only new tokens are given, and those of registrations that are there now. -/
theorem tokens_later {m m' : Machine component} {past : List (Moment component)}
    (h : RunBy free m past m') (hs : m.state.Sound) {n : Nat} (hn : n ∈ tokens past) :
    m.state.registry.nextToken ≤ n ∨ ∃ e ∈ m.state.live, e.token = n := by
  refine (run_induction h (fun past s => s.Sound ∧ m.state.Later s ∧ ∀ n ∈ tokens past,
    m.state.registry.nextToken ≤ n ∨ ∃ e ∈ m.state.live, e.token = n)
    ⟨hs, .refl _, by simp [tokens]⟩ fun past s cause ⟨hs, hl, hn⟩ =>
      ⟨sound_after hs, hl.trans (later_after (q := ⟨s, cause⟩) hs), fun n hmem => ?_⟩).2.2 n hn
  rw [tokens_append, List.mem_append] at hmem
  rcases hmem with hmem | hmem
  · exact hn n hmem
  · have ht : token? ⟨s, cause⟩ = some n := by simpa [tokens] using hmem
    rcases token_cases (q := ⟨s, cause⟩) hs with ⟨hno, -⟩ | ⟨e, he, hsome, -⟩ | ⟨hsome, -⟩
    · simp [hno] at ht
    · obtain rfl := Option.some.inj (hsome.symm.trans ht)
      rcases hl.live e he with he | hle
      · exact .inr ⟨e, he, rfl⟩
      · exact .inl hle
    · obtain rfl := Option.some.inj (hsome.symm.trans ht)
      exact .inl hl.tokens

/-! ### Single steps -/

variable {m : Machine component}

theorem step?_own_state {a : Action} (hc : m.control = .run (.own a)) :
    ∃ m', m.step? = some m' ∧ m'.state = after ⟨m.state, .exec m.view a⟩ ∧
      ∀ r, (exec m.view m.state a).next = .reply r → m'.control = .back r := by
  have hstep := Machine.step?_own hc
  refine ⟨_, hstep, ?_, fun r hr => ?_⟩
  · have hmoment : m.moment? = some ⟨m.state, .exec m.view a⟩ := by
      rw [Machine.moment?_eq (Machine.cause?_own hc)]
      rfl
    rw [advance?_state (Machine.advance?_of_step hstep), hmoment]
    rfl
  · rw [Machine.take_eq_goOn, show (component.exec m.view m.state a).next = .reply r from hr]
    rfl

theorem added (x : ExecutionBy free initial) {id context token : String} {o : Nat} {c : Context}
    (hc : x.machine.control = .run (.own (.add id context token)))
    (ho : x.machine.state.names.lookup id = some o) (hcon : x.machine.context? context = some c) :
    ∃ m' n, x.machine.step? = some m' ∧ m'.control = .back (.own (.token n)) ∧
      ((∃ e ∈ x.machine.state.live, e.pair = (o, c.identity) ∧ e.token = n ∧
          m'.state.live = x.machine.state.live) ∨
        (∀ e ∈ x.machine.state.live, e.pair ≠ (o, c.identity)) ∧ n ∉ tokens x.past ∧
          m'.state.live = x.machine.state.live ++ [⟨n, o, c⟩]) := by
  obtain ⟨m', hstep, hstate, hreply⟩ := step?_own_state hc
  have hjoins : joins? ⟨x.machine.state, .exec x.machine.view (.add id context token)⟩ =
      some (o, c) := joins?_add ho hcon
  have hj : Joined ⟨x.machine.state, .exec x.machine.view (.add id context token)⟩ o c := by
    rcases exec_cases (sound x) (.add id context token) with h | ⟨o', c', h⟩
    · exact absurd (h.joins.symm.trans hjoins) nofun
    · obtain ⟨rfl, rfl⟩ := Prod.mk.inj (Option.some.inj (h.joins.symm.trans hjoins))
      exact h
  have hlive : m'.state.live = m'.state.registry.entries := by
    rw [hstate]
    exact hj.live_eq
  rcases hj.cases with ⟨e, he, hp, ht, hr⟩ | ⟨hnew, ht, hr⟩
  · refine ⟨m', e.token, hstep, hreply _ (exec_add ho hcon ht), .inl ⟨e, he, hp, rfl, ?_⟩⟩
    rw [hlive, hstate, hr]
    rfl
  · refine ⟨m', _, hstep, hreply _ (exec_add ho hcon ht), .inr ⟨hnew, ?_, ?_⟩⟩
    · rw [tokens_iff]
      exact Nat.lt_irrefl _
    · rw [hlive, hstate, hr]

theorem live_remove {view : View} {s : Observers} {id : String} {o : Nat}
    (ho : s.names.lookup id = some o) :
    (∀ e ∈ (after ⟨s, .exec view (.remove id)⟩).registry.entries, e.observer ≠ o) ∧
      ∀ e, e ∈ (after ⟨s, .exec view (.remove id)⟩).live ↔ e ∈ s.live ∧ e.observer ≠ o := by
  rw [after_remove ho]
  refine ⟨fun e he => (Registry.mem_remove.mp he).2.1, fun e => ?_⟩
  rw [Observers.mem_live, Observers.mem_live, Registry.mem_remove]
  simp only [Observers.alive]
  tauto

theorem live_removeToken {view : View} {s : Observers} (hs : s.Sound) {token : String} {n : Nat}
    (hn : s.tokens.lookup token = some n) :
    (∀ e ∈ (after ⟨s, .exec view (.removeToken token)⟩).registry.entries, e.token ≠ n) ∧
      ∀ e, e ∈ (after ⟨s, .exec view (.removeToken token)⟩).live ↔ e ∈ s.live ∧ e.token ≠ n := by
  rw [after_removeToken hn]
  refine ⟨fun e he => ((Registry.mem_removeToken hs.registry).mp he).2.1, fun e => ?_⟩
  rw [Observers.mem_live, Observers.mem_live, Registry.mem_removeToken hs.registry]
  simp only [Observers.alive]
  tauto

theorem removed (x : ExecutionBy free initial) {id : String} {o : Nat}
    (hc : x.machine.control = .run (.own (.remove id)))
    (ho : x.machine.state.names.lookup id = some o) :
    ∃ m', x.machine.step? = some m' ∧ (∀ e ∈ m'.state.registry.entries, e.observer ≠ o) ∧
      ∀ e, e ∈ m'.state.live ↔ e ∈ x.machine.state.live ∧ e.observer ≠ o := by
  obtain ⟨m', hstep, hstate, -⟩ := step?_own_state hc
  refine ⟨m', hstep, ?_⟩
  rw [hstate]
  exact live_remove ho

theorem tokenRemoved (x : ExecutionBy free initial) {token : String} {n : Nat}
    (hc : x.machine.control = .run (.own (.removeToken token)))
    (hn : x.machine.state.tokens.lookup token = some n) :
    ∃ m', x.machine.step? = some m' ∧ (∀ e ∈ m'.state.registry.entries, e.token ≠ n) ∧
      ∀ e, e ∈ m'.state.live ↔ e ∈ x.machine.state.live ∧ e.token ≠ n := by
  obtain ⟨m', hstep, hstate, -⟩ := step?_own_state hc
  refine ⟨m', hstep, ?_⟩
  rw [hstate]
  exact live_removeToken (sound x) hn

/-- The registry changes at moments of the component only. -/
theorem advance?_cases {m' : Machine component} (hm : m.advance? = some m') :
    m'.state = m.state ∨ ∃ q, m.moment? = some q ∧ q.state = m.state ∧ m'.state = after q := by
  have hstate := advance?_state hm
  cases hq : m.moment? with
  | none => exact .inl (by rw [hstate, hq]; rfl)
  | some q =>
    obtain ⟨cause, -, rfl⟩ := Option.map_eq_some_iff.mp hq
    exact .inr ⟨_, rfl, rfl, by rw [hstate, hq]; rfl⟩

theorem kept (x : ExecutionBy free initial) {m' : Machine component}
    (hm : x.machine.advance? = some m') {e : Registration} (he : e ∈ x.machine.state.registry.entries) :
    e ∈ m'.state.registry.entries ∨ x.machine.state.alive e.observer = false ∨
      ∃ q, x.machine.moment? = some q ∧ removes q e := by
  rcases advance?_cases hm with hsame | ⟨q, hq, hs, hstate⟩
  · exact .inl (hsame ▸ he)
  · rw [hstate, ← hs]
    rw [← hs] at he
    exact (kept_after (hs.symm ▸ sound x) he).imp_right (.imp_right fun hr => ⟨q, hq, hr⟩)

theorem came (x : ExecutionBy free initial) {m' : Machine component}
    (hm : x.machine.advance? = some m') {e : Registration} (he : e ∈ m'.state.registry.entries) :
    e ∈ x.machine.state.registry.entries ∨ e.token ∉ tokens x.past ∧
      ∃ q, x.machine.moment? = some q ∧ joins? q = some (e.observer, e.context) ∧
        token? q = some e.token := by
  rcases advance?_cases hm with hsame | ⟨q, hq, hs, hstate⟩
  · exact .inl (hsame ▸ he)
  · rw [hstate] at he
    rw [← hs, tokens_iff, ← hs]
    refine (came_after (hs.symm ▸ sound x) he).imp_right fun ⟨hjoins, ht, hnext⟩ => ?_
    exact ⟨Nat.not_lt.mpr (Nat.le_of_eq hnext.symm), q, hq, hjoins, ht⟩

theorem never (x : ExecutionBy free initial) {n : Nat} (hn : n ∈ tokens x.past)
    (hgone : ∀ e ∈ x.machine.state.live, e.token ≠ n) (y : ExecutionBy free x.machine) :
    n ∉ tokens y.past ∧ ∀ e ∈ y.machine.state.live, e.token ≠ n := by
  have hlt := (tokens_iff x n).mp hn
  refine ⟨fun hmem => ?_, fun e he hen => ?_⟩
  · rcases tokens_later y.run (sound x) hmem with hle | ⟨e, he, hen⟩
    · exact Nat.not_lt.mpr hle hlt
    · exact hgone e he hen
  · rcases (later y.run (sound x)).2.live e he with he | hle
    · exact hgone e he hen
    · exact Nat.not_lt.mpr hle (hen ▸ hlt)

/-- Registrations are told apart, are not doubled, go only for a reason, and do not come back. -/
theorem registry_contract (x : ExecutionBy free initial) : Registered x where
  tokens := (sound x).registry.tokens
  pairs := (sound x).registry.pairs
  issued e he := (tokens_iff x _).mpr ((sound x).registry.below e he)
  bounded n hn := Nat.lt_of_lt_of_le ((tokens_iff x n).mp hn) (nextToken_le x)
  added _ _ _ _ _ hc ho hcon := added x hc ho hcon
  removed _ _ hc ho := removed x hc ho
  tokenRemoved _ _ hc hn := tokenRemoved x hc hn
  kept _ hm _ he := kept x hm he
  came _ hm _ he := came x hm he
  never _ hn hgone y := never x hn hgone y

end Conduit.Observer
