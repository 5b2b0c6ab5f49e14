import Conduit.Observer.Enumeration
import Conduit.Proofs.Dispatch.Frames
import Conduit.Proofs.Observer.Registry

/-!
What a set of observers does at one moment: which registrations go and which come, and that no
observer comes back.
-/

namespace Conduit.Observer

open Dispatch

/-- A set without observers, before anything happens. -/
def initial : Machine component := { state := ({} : Observers) }

/-- The state after a moment. -/
def after (q : Moment component) : Observers :=
  match q.cause with
  | .exec view a => (exec view q.state a).state
  | .resume f => (resume q.state f).state
  | .unwind f => unwind q.state f
  | .poll _ | .tick => q.state

theorem after_eq (q : Moment component) : q.after = after q := by
  obtain ⟨s, cause⟩ := q
  cases cause <;> rfl

/-- A moment at which a registration is removed, by its observer or by its token. -/
def removes (q : Moment component) (e : Registration) : Prop :=
  match q.cause with
  | .exec _ (.remove id) => q.state.names.lookup id = some e.observer
  | .exec _ (.removeToken token) => q.state.tokens.lookup token = some e.token
  | _ => False

instance (q : Moment component) (e : Registration) : Decidable (removes q e) := by
  unfold removes
  split <;> infer_instance

/-- A moment at which somebody is to be registered on a context. -/
def joins? (q : Moment component) : Option (Nat × Context) :=
  match q.cause with
  | .exec view (.add id context _) =>
    match q.state.names.lookup id, view.context? context with
    | some o, some c => some (o, c)
    | _, _ => none
  | _ => none

/-- The token that is given at a moment. -/
def token? (q : Moment component) : Option Nat :=
  (joins? q).map fun (o, c) => (q.state.registry.add q.state.alive o c).2

/-- The tokens that were given in a run, oldest first. -/
def tokens (past : List (Moment component)) : List Nat := past.filterMap token?

@[simp] theorem tokens_append (past later : List (Moment component)) :
    tokens (past ++ later) = tokens past ++ tokens later :=
  List.filterMap_append

namespace Observers

/-- The registrations whose observer is still there. -/
def live (s : Observers) : List Registration := s.registry.entries.filter (s.alive ·.observer)

/-- Names and registrations are those of observers that there have been. -/
structure Sound (s : Observers) : Prop where
  registry : s.registry.Sound
  entries : ∀ e ∈ s.registry.entries, e.observer < s.subjects.length
  names : ∀ p ∈ s.names, p.2 < s.subjects.length
  held : ∀ o ∈ s.held, o < s.subjects.length

/-- What may have become of a state. -/
structure Later (s s' : Observers) : Prop where
  subjects : s.subjects.length ≤ s'.subjects.length
  tokens : s.registry.nextToken ≤ s'.registry.nextToken
  /-- An observer that is gone does not come back. -/
  gone : ∀ o < s.subjects.length, s.alive o = false → s'.alive o = false
  /-- Nor does a registration, but for new ones. -/
  live : ∀ e ∈ s'.live, e ∈ s.live ∨ s.registry.nextToken ≤ e.token

variable {s s' s'' : Observers} {o : Nat} {e : Registration}

theorem mem_live : e ∈ s.live ↔ e ∈ s.registry.entries ∧ s.alive e.observer = true :=
  List.mem_filter

theorem alive_iff : s.alive o = true ↔ (∃ p ∈ s.names, p.2 = o) ∨ o ∈ s.held := by
  simp [alive]

theorem alive_of_lookup {id : String} (h : s.names.lookup id = some o) : s.alive o = true := by
  obtain ⟨l₁, l₂, he, -⟩ := List.lookup_eq_some_iff.mp h
  exact alive_iff.mpr (.inl ⟨(id, o), he ▸ List.mem_append_right l₁ List.mem_cons_self, rfl⟩)

/-- Whoever is there is one of those that there have been. -/
theorem Sound.lt_of_alive (h : s.Sound) (ho : s.alive o = true) : o < s.subjects.length := by
  rcases alive_iff.mp ho with ⟨p, hp, rfl⟩ | hheld
  · exact h.names p hp
  · exact h.held o hheld

namespace Later

theorem refl (s : Observers) : Later s s :=
  ⟨Nat.le_refl _, Nat.le_refl _, fun _ _ h => h, fun _ h => .inl h⟩

theorem trans (h : Later s s') (h' : Later s' s'') : Later s s'' where
  subjects := Nat.le_trans h.subjects h'.subjects
  tokens := Nat.le_trans h.tokens h'.tokens
  gone o ho hs := h'.gone o (Nat.lt_of_lt_of_le ho h.subjects) (h.gone o ho hs)
  live e he := (h'.live e he).elim (h.live e) fun hle => .inr (Nat.le_trans h.tokens hle)

/-- Nobody joins, and nobody comes back. -/
theorem of_shrink (hsub : s.subjects.length ≤ s'.subjects.length)
    (hnext : s'.registry.nextToken = s.registry.nextToken)
    (hgone : ∀ o < s.subjects.length, s.alive o = false → s'.alive o = false)
    (hs : s.Sound) (hentries : ∀ e ∈ s'.registry.entries, e ∈ s.registry.entries) :
    Later s s' where
  subjects := hsub
  tokens := Nat.le_of_eq hnext.symm
  gone := hgone
  live e he := by
    obtain ⟨he, ha⟩ := mem_live.mp he
    have hmem := hentries e he
    refine .inl (mem_live.mpr ⟨hmem, ?_⟩)
    by_contra hdead
    simp [hgone e.observer (hs.entries e hmem) (Bool.eq_false_iff.mpr hdead)] at ha

end Later

end Observers

/-! ### Moments -/

/-- A moment at which nobody joins: registrations only go, those that are removed and those whose
observer is gone. -/
structure Quiet (q : Moment component) : Prop where
  joins : joins? q = none
  registry : (after q).registry.Sound
  next : (after q).registry.nextToken = q.state.registry.nextToken
  subset : ∀ e ∈ (after q).registry.entries, e ∈ q.state.registry.entries
  kept : ∀ e ∈ q.state.registry.entries,
    e ∈ (after q).registry.entries ∨ q.state.alive e.observer = false ∨ removes q e
  subjects : q.state.subjects.length ≤ (after q).subjects.length
  gone : ∀ o < q.state.subjects.length, q.state.alive o = false → (after q).alive o = false
  names : ∀ p ∈ (after q).names, p.2 < (after q).subjects.length
  held : ∀ o ∈ (after q).held, o < (after q).subjects.length

/-- A moment at which an observer joins that is there. -/
structure Joined (q : Moment component) (o : Nat) (c : Context) : Prop where
  joins : joins? q = some (o, c)
  alive : q.state.alive o = true
  registry : (after q).registry = (q.state.registry.add q.state.alive o c).1
  subjects : (after q).subjects = q.state.subjects
  names : (after q).names = q.state.names
  held : (after q).held = q.state.held

namespace Quiet

variable {q : Moment component}

/-- The registry is left alone. -/
theorem of_same (hs : q.state.Sound) (hj : joins? q = none)
    (hr : (after q).registry = q.state.registry)
    (hsub : q.state.subjects.length ≤ (after q).subjects.length)
    (hgone : ∀ o < q.state.subjects.length, q.state.alive o = false → (after q).alive o = false)
    (hnames : ∀ p ∈ (after q).names, p.2 < (after q).subjects.length)
    (hheld : ∀ o ∈ (after q).held, o < (after q).subjects.length) : Quiet q where
  joins := hj
  registry := hr ▸ hs.registry
  next := by rw [hr]
  subset e he := hr ▸ he
  kept e he := .inl (hr ▸ he)
  subjects := hsub
  gone := hgone
  names := hnames
  held := hheld

/-- Observers and names are left alone. -/
theorem of_registry (hs : q.state.Sound) (hj : joins? q = none) {r : Registry}
    (hr : after q = { q.state with registry := r }) (hsound : r.Sound)
    (hnext : r.nextToken = q.state.registry.nextToken)
    (hsub : ∀ e ∈ r.entries, e ∈ q.state.registry.entries)
    (hkept : ∀ e ∈ q.state.registry.entries,
      e ∈ r.entries ∨ q.state.alive e.observer = false ∨ removes q e) : Quiet q where
  joins := hj
  registry := by rwa [hr]
  next := by rwa [hr]
  subset := by rwa [hr]
  kept := by rwa [hr]
  subjects := Nat.le_of_eq (by rw [hr])
  gone o _ h := by
    rw [hr]
    exact h
  names := by
    rw [hr]
    exact hs.names
  held := by
    rw [hr]
    exact hs.held

/-- Nothing happens to the state. -/
theorem of_still (hs : q.state.Sound) (hj : joins? q = none) (ha : after q = q.state) : Quiet q :=
  of_same hs hj (by rw [ha]) (Nat.le_of_eq (by rw [ha])) (fun o _ h => by rw [ha]; exact h)
    (by rw [ha]; exact hs.names) (by rw [ha]; exact hs.held)

/-- Nobody is let go of whom nobody held. -/
theorem of_erase (hs : q.state.Sound) (hj : joins? q = none) {o : Nat}
    (ha : after q = { q.state with held := q.state.held.erase o }) : Quiet q := by
  refine of_same hs hj (by rw [ha]) (Nat.le_of_eq (by rw [ha])) (fun u _ h => ?_)
    (by rw [ha]; exact hs.names) fun u hu => ?_
  · rw [ha, Bool.eq_false_iff] at *
    refine fun halive => h (Observers.alive_iff.mpr ?_)
    exact (Observers.alive_iff.mp halive).imp_right List.mem_of_mem_erase
  · rw [ha] at hu ⊢
    exact hs.held u (List.mem_of_mem_erase hu)

theorem pruned (hs : q.state.Sound) (hj : joins? q = none)
    (ha : after q = { q.state with registry := q.state.registry.prune q.state.alive }) : Quiet q :=
  of_registry hs hj ha (hs.registry.prune _) rfl (fun _ he => (Registry.mem_prune.mp he).1)
    fun e he => by
      cases halive : q.state.alive e.observer with
      | false => exact .inr (.inl rfl)
      | true => exact .inl (Registry.mem_prune.mpr ⟨he, halive⟩)

end Quiet

section Actions

variable {view : View} {s : Observers} {o t : Nat} {c : Context} {id context token : String}

theorem after_remove (ho : s.names.lookup id = some o) :
    after ⟨s, .exec view (.remove id)⟩ =
      { s with registry := (s.registry.remove s.alive o).1 } := by
  simp [after, exec, ho, reply]

theorem after_removeToken (ht : s.tokens.lookup token = some t) :
    after ⟨s, .exec view (.removeToken token)⟩ =
      { s with registry := (s.registry.removeToken s.alive t).1 } := by
  simp [after, exec, ht, reply]

theorem joins?_add (ho : s.names.lookup id = some o) (hc : view.context? context = some c) :
    joins? ⟨s, .exec view (.add id context token)⟩ = some (o, c) := by
  simp [joins?, ho, hc]

/-- Whoever joins is told his token. -/
theorem exec_add (ho : s.names.lookup id = some o) (hc : view.context? context = some c) {n : Nat}
    (hn : token? ⟨s, .exec view (.add id context token)⟩ = some n) :
    (exec view s (.add id context token)).next = .reply (.own (.token n)) := by
  obtain rfl : (s.registry.add s.alive o c).2 = n := by
    simpa [token?, joins?_add ho hc] using hn
  simp [exec, ho, hc, reply]

/-- A new observer is none of those that there have been. -/
theorem Quiet.observe (hs : s.Sound) (id : String) (views : List String) :
    Quiet ⟨s, .exec view (.observe id views)⟩ := by
  refine .of_same hs rfl rfl ?_ (fun o ho h => ?_) (fun p hp => ?_) fun o ho => ?_
  · simp [after, exec]
  · rw [Bool.eq_false_iff] at h ⊢
    refine fun halive => h (Observers.alive_iff.mpr ?_)
    rcases Observers.alive_iff.mp halive with ⟨p, hp, rfl⟩ | hheld
    · rcases List.mem_cons.mp hp with rfl | hp
      · exact absurd ho (Nat.lt_irrefl _)
      · exact .inl ⟨p, (List.mem_filter.mp hp).1, rfl⟩
    · exact .inr hheld
  · rcases List.mem_cons.mp hp with rfl | hp
    · simp [after, exec]
    · have := hs.names p (List.mem_filter.mp hp).1
      simp [after, exec]
      omega
  · have := hs.held o ho
    simp [after, exec]
    omega

theorem Quiet.drop (hs : s.Sound) (id : String) : Quiet ⟨s, .exec view (.drop id)⟩ := by
  refine .of_same hs rfl rfl (Nat.le_refl _) (fun o _ h => ?_) (fun p hp => ?_) hs.held
  · rw [Bool.eq_false_iff] at h ⊢
    refine fun halive => h (Observers.alive_iff.mpr ?_)
    refine (Observers.alive_iff.mp halive).imp_left fun ⟨p, hp, hpo⟩ => ⟨p, ?_, hpo⟩
    exact (List.mem_filter.mp hp).1
  · exact hs.names p (List.mem_filter.mp hp).1

theorem Quiet.remove (hs : s.Sound) (id : String) : Quiet ⟨s, .exec view (.remove id)⟩ := by
  cases ho : s.names.lookup id with
  | none => exact .of_still hs rfl (by simp [after, exec, ho, reply])
  | some o =>
    refine .of_registry hs rfl (after_remove ho) (hs.registry.remove _ o) rfl
      (fun e he => (Registry.mem_remove.mp he).1) fun e he => ?_
    by_cases heo : e.observer = o
    · exact .inr (.inr (ho.trans (by rw [heo])))
    · cases halive : s.alive e.observer with
      | false => exact .inr (.inl rfl)
      | true => exact .inl (Registry.mem_remove.mpr ⟨he, heo, halive⟩)

theorem Quiet.removeToken (hs : s.Sound) (token : String) :
    Quiet ⟨s, .exec view (.removeToken token)⟩ := by
  cases ht : s.tokens.lookup token with
  | none => exact .of_still hs rfl (by simp [after, exec, ht, reply])
  | some t =>
    refine .of_registry hs rfl (after_removeToken ht) (hs.registry.removeToken _ t)
      (Registry.removeToken_nextToken ..)
      (fun e he => ((Registry.mem_removeToken hs.registry).mp he).1) fun e he => ?_
    by_cases het : e.token = t
    · exact .inr (.inr (ht.trans (by rw [het])))
    · cases halive : s.alive e.observer with
      | false => exact .inr (.inl rfl)
      | true => exact .inl ((Registry.mem_removeToken hs.registry).mpr ⟨he, het, halive⟩)

/-- Without an observer or a context nothing happens. -/
theorem add_cases (hs : s.Sound) (id context token : String) :
    Quiet ⟨s, .exec view (.add id context token)⟩ ∨
      ∃ o c, Joined ⟨s, .exec view (.add id context token)⟩ o c := by
  cases ho : s.names.lookup id with
  | none => exact .inl (.of_still hs (by simp [joins?, ho]) (by simp [after, exec, ho, reply]))
  | some o =>
    cases hc : view.context? context with
    | none => exact .inl (.of_still hs (by simp [joins?, hc]) (by simp [after, exec, hc, reply]))
    | some c =>
      refine .inr ⟨o, c, joins?_add ho hc, Observers.alive_of_lookup ho, ?_, ?_, ?_, ?_⟩
      all_goals simp [after, exec, ho, hc, reply]

end Actions

theorem exec_cases {view : View} {s : Observers} (hs : s.Sound) (a : Action) :
    Quiet ⟨s, .exec view a⟩ ∨ ∃ o c, Joined ⟨s, .exec view a⟩ o c := by
  cases a with
  | observe id views => exact .inl (.observe hs id views)
  | drop id => exact .inl (.drop hs id)
  | add id context token => exact add_cases hs id context token
  | remove id => exact .inl (.remove hs id)
  | removeToken token => exact .inl (.removeToken hs token)
  | callEach asks tag script throws => exact .inl (.pruned hs rfl rfl)
  | describe => exact .inl (.of_still hs rfl rfl)

/-- A block holds nobody who is not there. -/
theorem Quiet.visit {s : Observers} (hs : s.Sound) (block : Block) (e : Registration) :
    Quiet ⟨s, .resume (.visit block e)⟩ := by
  by_cases hv : s.registry.IsActive e ∧ s.alive e.observer ∧ block.Suits s e.observer
  · have ha : after ⟨s, .resume (.visit block e)⟩ = { s with held := e.observer :: s.held } := by
      simp only [after, resume, if_pos hv]
    refine .of_same hs rfl (by rw [ha]) (Nat.le_of_eq (by rw [ha])) (fun o _ h => ?_)
      (by rw [ha]; exact hs.names) fun o ho => ?_
    · rw [ha]
      rw [Bool.eq_false_iff] at h ⊢
      refine fun halive => h (Observers.alive_iff.mpr ?_)
      rcases Observers.alive_iff.mp halive with hnamed | hheld
      · exact .inl hnamed
      · rcases List.mem_cons.mp hheld with rfl | hheld
        · exact Observers.alive_iff.mp hv.2.1
        · exact .inr hheld
    · rw [ha] at ho ⊢
      rcases List.mem_cons.mp ho with rfl | ho
      · exact hs.lt_of_alive hv.2.1
      · exact hs.held o ho
  · refine .of_still hs rfl ?_
    simp only [after, resume, if_neg hv]

/-- At every moment somebody joins, or registrations only go. -/
theorem moment_cases {q : Moment component} (hs : q.state.Sound) :
    Quiet q ∨ ∃ o c, Joined q o c := by
  obtain ⟨s, cause⟩ := q
  cases cause with
  | exec view a => exact exec_cases hs a
  | resume f =>
    refine .inl ?_
    cases f with
    | deliver block rest =>
      refine .of_still hs rfl ?_
      cases rest with
      | nil => rfl
      | cons e rest =>
        simp only [after, resume]
        split <;> rfl
    | visit block e => exact .visit hs block e
    | release o => exact .of_erase hs rfl rfl
  | unwind f =>
    refine .inl ?_
    cases f with
    | release o => exact .of_erase hs rfl rfl
    | _ => exact .of_still hs rfl rfl
  | poll t => exact .inl (.of_still hs rfl rfl)
  | tick => exact .inl (.of_still hs rfl rfl)

theorem Quiet.sound {q : Moment component} (h : Quiet q) (hs : q.state.Sound) :
    (after q).Sound where
  registry := h.registry
  entries e he := Nat.lt_of_lt_of_le (hs.entries e (h.subset e he)) h.subjects
  names := h.names
  held := h.held

theorem Quiet.later {q : Moment component} (h : Quiet q) (hs : q.state.Sound) :
    q.state.Later (after q) :=
  .of_shrink h.subjects h.next h.gone hs h.subset

namespace Joined

variable {q : Moment component} {o : Nat} {c : Context}

theorem alive_eq (h : Joined q o c) (u : Nat) : (after q).alive u = q.state.alive u := by
  simp [Observers.alive, h.names, h.held]

/-- Whoever joins is registered already, or gets a new token. -/
theorem cases (h : Joined q o c) :
    (∃ e ∈ q.state.live, e.pair = (o, c.identity) ∧ token? q = some e.token ∧
      (after q).registry = q.state.registry.prune q.state.alive) ∨
    (∀ e ∈ q.state.live, e.pair ≠ (o, c.identity)) ∧
      token? q = some q.state.registry.nextToken ∧
      (after q).registry = { nextToken := q.state.registry.nextToken + 1
                             entries := q.state.live ++ [⟨q.state.registry.nextToken, o, c⟩] } := by
  have htoken : token? q = some (q.state.registry.add q.state.alive o c).2 := by
    simp [token?, h.joins]
  rw [h.registry, htoken]
  rcases Registry.add_eq q.state.registry q.state.alive o c with ⟨e, he, hp, heq⟩ | ⟨hnew, heq⟩
  · exact .inl ⟨e, he, hp, by rw [heq], by rw [heq]⟩
  · exact .inr ⟨hnew, by rw [heq], by rw [heq]; rfl⟩

theorem sound (h : Joined q o c) (hs : q.state.Sound) : (after q).Sound where
  registry := h.registry ▸ hs.registry.add _ o c
  entries e he := by
    rw [h.subjects]
    rcases h.cases with ⟨-, -, -, -, hr⟩ | ⟨-, -, hr⟩
    · rw [hr] at he
      exact hs.entries e (Registry.mem_prune.mp he).1
    · rw [hr] at he
      rcases List.mem_append.mp he with he | he
      · exact hs.entries e (Observers.mem_live.mp he).1
      · rw [List.mem_singleton.mp he]
        exact hs.lt_of_alive h.alive
  names := by
    rw [h.names, h.subjects]
    exact hs.names
  held := by
    rw [h.held, h.subjects]
    exact hs.held

/-- The registrations that are there after somebody has joined. -/
theorem live_eq (h : Joined q o c) : (after q).live = (after q).registry.entries := by
  refine List.filter_eq_self.mpr fun e he => ?_
  rw [h.alive_eq]
  rcases h.cases with ⟨-, -, -, -, hr⟩ | ⟨-, -, hr⟩
  · rw [hr] at he
    exact (Registry.mem_prune.mp he).2
  · rw [hr] at he
    rcases List.mem_append.mp he with he | he
    · exact (Observers.mem_live.mp he).2
    · rw [List.mem_singleton.mp he]
      exact h.alive

theorem later (h : Joined q o c) : q.state.Later (after q) where
  subjects := Nat.le_of_eq (by rw [h.subjects])
  tokens := by
    rcases h.cases with ⟨-, -, -, -, hr⟩ | ⟨-, -, hr⟩
    · exact Nat.le_of_eq (by rw [hr]; rfl)
    · rw [hr]
      exact Nat.le_succ _
  gone u _ hu := (h.alive_eq u).trans hu
  live e he := by
    rw [h.live_eq] at he
    rcases h.cases with ⟨-, -, -, -, hr⟩ | ⟨-, -, hr⟩
    · rw [hr] at he
      exact .inl he
    · rw [hr] at he
      rcases List.mem_append.mp he with he | he
      · exact .inl he
      · rw [List.mem_singleton.mp he]
        exact .inr (Nat.le_refl _)

end Joined

/-! ### Steps and runs -/

theorem sound_after {q : Moment component} (hs : q.state.Sound) : (after q).Sound := by
  rcases moment_cases hs with h | ⟨o, c, h⟩
  · exact h.sound hs
  · exact h.sound hs

theorem later_after {q : Moment component} (hs : q.state.Sound) : q.state.Later (after q) := by
  rcases moment_cases hs with h | ⟨o, c, h⟩
  · exact h.later hs
  · exact h.later

/-- A registration goes only if it is removed or its observer is gone. -/
theorem kept_after {q : Moment component} (hs : q.state.Sound) {e : Registration}
    (he : e ∈ q.state.registry.entries) : e ∈ (after q).registry.entries ∨
      q.state.alive e.observer = false ∨ removes q e := by
  rcases moment_cases hs with h | ⟨o, c, h⟩
  · exact h.kept e he
  · cases halive : q.state.alive e.observer with
    | false => exact .inr (.inl rfl)
    | true =>
      have hlive : e ∈ q.state.live := Observers.mem_live.mpr ⟨he, halive⟩
      rcases h.cases with ⟨-, -, -, -, hr⟩ | ⟨-, -, hr⟩
      · exact .inl (by rw [hr]; exact hlive)
      · exact .inl (by rw [hr]; exact List.mem_append_left _ hlive)

/-- A registration comes only with the next token, which is given for it. -/
theorem came_after {q : Moment component} (hs : q.state.Sound) {e : Registration}
    (he : e ∈ (after q).registry.entries) : e ∈ q.state.registry.entries ∨
      joins? q = some (e.observer, e.context) ∧ token? q = some e.token ∧
        e.token = q.state.registry.nextToken := by
  rcases moment_cases hs with h | ⟨o, c, h⟩
  · exact .inl (h.subset e he)
  · rcases h.cases with ⟨-, -, -, -, hr⟩ | ⟨-, ht, hr⟩
    · rw [hr] at he
      exact .inl (Registry.mem_prune.mp he).1
    · rw [hr] at he
      rcases List.mem_append.mp he with he | he
      · exact .inl (Observers.mem_live.mp he).1
      · obtain rfl := List.mem_singleton.mp he
        exact .inr ⟨h.joins, ht, rfl⟩

/-- All that a set of observers gives to contexts are the blocks of an enumeration. -/
theorem perform_of_resume {s : Observers} {f w : Frame} {d : Context} {k : List Frame}
    (h : (resume s f).next = .perform d w k) : ∃ block e rest, f = .deliver block (e :: rest) ∧
      d = e.context ∧ w = .visit block e ∧ k = [.deliver block rest] ∧ (resume s f).state = s := by
  cases f with
  | deliver block rest =>
    cases rest with
    | nil => cases h
    | cons e rest =>
      refine ⟨block, e, rest, rfl, ?_⟩
      simp only [resume] at h ⊢
      split at h
      · cases h
      · cases h
        exact ⟨rfl, rfl, rfl, by split <;> rfl⟩
  | visit block e =>
    simp only [resume] at h
    split at h <;> cases h
  | release o => cases h

theorem exec_not_perform {view : View} {s : Observers} {a : Action} {w : Frame} {d : Context}
    {k : List Frame} : (exec view s a).next ≠ .perform d w k := by
  cases a <;> simp only [exec] <;> (try split) <;> nofun

theorem visit_of_perform {q : Moment component} {t : Turn signature} (ht : q.turn? = some t)
    {d : Context} {w : Frame} {k : List Frame} (hn : t.next = .perform d w k) :
    ∃ block e, w = .visit block e := by
  obtain ⟨s, cause⟩ := q
  cases cause with
  | exec view a =>
    cases ht
    exact absurd hn exec_not_perform
  | resume f =>
    cases ht
    obtain ⟨block, e, -, -, -, rfl, -⟩ := perform_of_resume hn
    exact ⟨block, e, rfl⟩
  | poll t =>
    cases ht
    cases hn
  | unwind | tick => cases ht

/-- The state after a step is that after its moment: a block that is dropped leaves nothing behind. -/
theorem state_of_step {c c' : Config component} {cause : Cause component}
    (h : c.Step (some cause) c') : c'.state = after ⟨c.state, cause⟩ := by
  rw [← after_eq]
  rcases h.state_cases with hstate | ⟨t, d, w, k, v, ht, hn, -, hstate⟩
  · exact hstate
  · obtain ⟨block, e, rfl⟩ := visit_of_perform ht hn
    exact hstate

instance : IsEmpty component.Task := inferInstanceAs (IsEmpty Empty)

section Runs

variable {free : Bool} {m m' : Machine component} {past : List (Moment component)}

/-- What the states and the moments of a run have to do with each other: what is kept at every moment
holds after every run. The order of the reactor does not matter. -/
theorem run_induction (h : RunBy free m past m') (I : List (Moment component) → Observers → Prop)
    (start : I [] m.state)
    (step : ∀ past s cause, I past s → I (past ++ [⟨s, cause⟩]) (after ⟨s, cause⟩)) :
    I past m'.state := by
  have := h.config_induction_of (fun _ => inferInstance) (fun past c => I past c.state)
    (by simpa using start) fun past c cause c' hc hstep => by
      cases cause with
      | none =>
        rw [hstep.state_eq]
        simpa [Config.moment] using hc
      | some cause =>
        rw [state_of_step hstep]
        exact step past c.state cause hc
  simpa using this

theorem initial_sound : initial.state.Sound := by
  refine ⟨⟨?_, ?_, ?_⟩, ?_, ?_, ?_⟩ <;> simp [initial]

theorem sound (x : ExecutionBy free initial) : x.machine.state.Sound :=
  run_induction x.run (fun _ s => s.Sound) initial_sound fun _ _ _ hs => sound_after hs

/-- Whatever happens later, no observer comes back, and no registration. -/
theorem later (h : RunBy free m past m') (hs : m.state.Sound) :
    m'.state.Sound ∧ m.state.Later m'.state :=
  run_induction h (fun _ s => s.Sound ∧ m.state.Later s) ⟨hs, .refl _⟩ fun _ _ _ ⟨hs, hl⟩ =>
    ⟨sound_after hs, hl.trans (later_after (q := ⟨_, _⟩) hs)⟩

end Runs

theorem advance?_state {m m' : Machine component} (hm : m.advance? = some m') :
    m'.state = m.moment?.elim m.state after := by
  have hstep := Machine.advance?_config hm
  unfold Machine.moment?
  cases hc : m.cause? with
  | none =>
    rw [hc] at hstep
    have := hstep.state_eq
    rwa [Machine.config_state, Machine.config_state] at this
  | some cause =>
    rw [hc] at hstep
    have := state_of_step hstep
    rwa [Machine.config_state, Machine.config_state] at this

end Conduit.Observer
