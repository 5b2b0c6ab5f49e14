import Conduit.Proofs.Dispatch.Frames
import Conduit.Proofs.Dispatch.Stop

/-!
Emitters on serial contexts and threads. What is emitted for a handler, through whichever copy of its
emitter, joins the line of its venue, and from there alone the handler is called. So it is called with
each event once, in the order in which the events were emitted, and never within another call.
-/

namespace Conduit.Dispatch.Emitter

open Machine

variable {Event : Type}

/-- The event with which a frame calls a handler. -/
def call? (h : Nat) : (component Event).Frame → Option Event
  | .call k e => if k = h then some e else none
  | .task .. | .unlock _ => none

/-- The event that is emitted for a handler at a moment. -/
def emittedAt (h : Nat) : Moment (component Event) → List Event
  | ⟨s, .exec _ (.emit id e)⟩ =>
    match s.emitters.lookup id with
    | some (k, _) => if k = h then [e] else []
    | none => []
  | _ => []

/-- The event with which a handler is called at a moment; whoever finds it locked calls it later. -/
def calledAt (h : Nat) : Moment (component Event) → List Event
  | ⟨s, .resume f⟩ => if s.isLocked h then [] else (call? h f).toList
  | _ => []

/-- The events that are emitted for a handler, through all copies of its emitter. -/
def emitted (h : Nat) (past : List (Moment (component Event))) : List Event :=
  past.flatMap (emittedAt h)

/-- The events with which a handler is called. -/
def called (h : Nat) (past : List (Moment (component Event))) : List Event :=
  past.flatMap (calledAt h)

/-- The event with which a handler is called next. -/
def calling (h : Nat) (m : Machine (component Event)) : List Event := called h m.moment?.toList

@[simp] theorem called_append (h : Nat) (past later : List (Moment (component Event))) :
    called h (past ++ later) = called h past ++ called h later := List.flatMap_append

@[simp] theorem emitted_append (h : Nat) (past later : List (Moment (component Event))) :
    emitted h (past ++ later) = emitted h past ++ emitted h later := List.flatMap_append

section Bound

variable {h v : Nat} {c c' : Config (component Event)}

/-! ### Where calls of a handler are -/

/-- The emitters of a handler are bound to a venue. -/
structure Homed (h v : Nat) (s : State Event) : Prop where
  emitters : ∀ e ∈ s.emitters, e.2.1 = h → e.2.2.place = .venue v
  known : h < s.handlers.length

/-- Calls of a handler wait in the line of its venue, and nowhere else. -/
structure Bound (h v : Nat) (c : Config (component Event)) : Prop where
  homed : Homed h v c.state
  stack : ∀ f ∈ c.stack, call? h f = none
  waiting : ∀ u line, u ≠ v → c.waiting[u]? = some line → ∀ f ∈ line, call? h f = none

/-- Calls of a handler are given to its venue alone; one that is stuck is tried again. -/
inductive Hands (h v : Nat) (stuck : Frame Event → Prop) :
    Next (component Event).toSignature → Prop where
  | reply (r) : Hands h v stuck (.reply r)
  | script (tag ops throws k) (hk : ∀ f ∈ k, call? h f = none) :
      Hands h v stuck (.script tag ops throws k)
  | enter (f) (hf : call? h f = none ∨ stuck f) : Hands h v stuck (.enter [f])
  | perform (d w) (hd : d.place ≠ .venue v → call? h w = none) : Hands h v stuck (.perform d w [])

structure Fits (h v : Nat) (stuck : Frame Event → Prop) (t : Turn (component Event).toSignature) :
    Prop where
  homed : Homed h v t.state
  next : Hands h v stuck t.next

/-- A call finds its handler locked. -/
def Stuck (h : Nat) (s : State Event) (f g : Frame Event) : Prop := g = f ∧ s.isLocked h = true

theorem Homed.bind {s : State Event} (hs : Homed h v s) {id : String} {k : Nat} {d : Context}
    (hk : k = h → d.place = .venue v) : Homed h v (s.bind id k d) where
  emitters e he := by
    rcases List.mem_cons.mp he with rfl | he
    · exact hk
    · exact hs.emitters e (List.mem_filter.mp he).1
  known := hs.known

theorem Homed.lookup {s : State Event} (hs : Homed h v s) {id : String} {k : Nat} {d : Context}
    (hd : s.emitters.lookup id = some (k, d)) (hk : k = h) : d.place = .venue v := by
  obtain ⟨l₁, l₂, hl, -⟩ := List.lookup_eq_some_iff.mp hd
  exact hs.emitters (id, k, d) (by simp [hl]) hk

theorem exec_fits (view : View) {s : State Event} (hs : Homed h v s) (a : Action Event) :
    Fits h v (fun _ => False) (exec view s a) := by
  cases a with
  | perform context label script throws =>
    simp only [exec]
    split
    · exact ⟨hs, .reply _⟩
    · exact ⟨hs, .perform _ _ fun _ => rfl⟩
  | handle id context script throws =>
    simp only [exec]
    split
    · exact ⟨hs, .reply _⟩
    · rename_i d _
      have hmore : Homed h v { s with handlers := s.handlers ++ [{ name := id, script, throws }] } :=
        ⟨hs.emitters, by simpa using Nat.lt_succ_of_lt hs.known⟩
      exact ⟨hmore.bind fun hk => absurd hk (Nat.ne_of_gt hs.known), .reply _⟩
  | emit id event =>
    simp only [exec]
    split
    · exact ⟨hs, .reply _⟩
    · rename_i k d hlookup
      exact ⟨hs, .perform _ _ fun hd => if_neg fun hk => hd (hs.lookup hlookup hk)⟩
  | copy id source =>
    simp only [exec]
    split
    · exact ⟨hs, .reply _⟩
    · rename_i k d hlookup
      exact ⟨hs.bind (hs.lookup hlookup), .reply _⟩
  | drop id =>
    exact ⟨⟨fun e he => hs.emitters e (List.mem_filter.mp he).1, hs.known⟩, .reply _⟩
  | describe id =>
    simp only [exec]
    split <;> exact ⟨hs, .reply _⟩

theorem Homed.unlock {s : State Event} (hs : Homed h v s) (k : Nat) : Homed h v (s.unlock k) :=
  ⟨hs.emitters, by simpa [State.unlock] using hs.known⟩

theorem unwind_homed {s : State Event} (hs : Homed h v s) (f : Frame Event) :
    Homed h v (unwind s f).1 := by
  cases f with
  | unlock k => exact hs.unlock k
  | task | call => exact hs

theorem resume_fits {s : State Event} (hs : Homed h v s) (f : Frame Event) :
    Fits h v (Stuck h s f) (resume s f) := by
  cases f with
  | task => exact ⟨hs, .script _ _ _ [] nofun⟩
  | call k e =>
    simp only [resume]
    split
    · exact ⟨hs, .reply _⟩
    · rename_i g hg
      split
      · rename_i hlocked
        refine ⟨hs, .enter _ ?_⟩
        by_cases hk : k = h
        · exact .inr ⟨rfl, by simp [State.isLocked, ← hk, hg, hlocked]⟩
        · exact .inl (if_neg hk)
      · refine ⟨⟨hs.emitters, by simpa using hs.known⟩, .script _ _ _ [.unlock k] fun f hf => ?_⟩
        rw [List.mem_singleton.mp hf]
        rfl
  | unlock k => exact ⟨hs.unlock k, .reply _⟩

theorem Bound.faces (hc : Bound h v c) (hf : c.Faces c') :
    Bound h v c' ∧ ∀ f, c'.next = some f → c.next = some f ∨ call? h f = none := by
  cases hf with
  | stay => exact ⟨hc, fun f hf => .inl hf⟩
  | face hn hk =>
    have hstack := hk ▸ hc.stack
    refine ⟨⟨hc.homed, fun f hf => hstack f (List.mem_cons_of_mem _ hf), hc.waiting⟩, ?_⟩
    intro f hf
    obtain rfl := Option.some.inj hf
    exact .inr (hstack _ List.mem_cons_self)

/-- What a configuration goes on with is no call of the handler, unless it is stuck. -/
def Apart (h : Nat) (stuck : Frame Event → Prop) (c : Config (component Event)) : Prop :=
  ∀ f, c.next = some f → call? h f = none ∨ stuck f

theorem Bound.faces_apart {stuck : Frame Event → Prop} (hc : Bound h v c) (hn : c.next = none)
    (hf : c.Faces c') : Bound h v c' ∧ Apart h stuck c' := by
  obtain ⟨hc', hnext⟩ := hc.faces hf
  exact ⟨hc', fun f hf => .inl ((hnext f hf).resolve_left (by simp [hn]))⟩

theorem Bound.push (hc : Bound h v c) {u : Nat} {w : Frame Event}
    (hw : u ≠ v → call? h w = none) : Bound h v (c.push u w) := by
  refine ⟨hc.homed, hc.stack, fun u' line hne hline => ?_⟩
  simp only [Config.push, List.getElem?_modify] at hline
  obtain ⟨line₀, hline₀, rfl⟩ := Option.map_eq_some_iff.mp hline
  have hold := hc.waiting u' line₀ hne hline₀
  split
  · rename_i hsame
    intro f hf
    rcases List.mem_append.mp hf with hf | hf
    · exact hold f hf
    · rw [List.mem_singleton.mp hf]
      exact hw (hsame ▸ hne)
  · exact hold

/-- After a turn the calls of the handler are still in the line of its venue. -/
theorem Bound.takes {stuck : Frame Event → Prop} {t : Turn (component Event).toSignature}
    (hc : Bound h v c) (hn : c.next = none) (ht : Fits h v stuck t) (htakes : c.Takes t c') :
    Bound h v c' ∧ Apart h stuck c' := by
  have hafter : Bound h v (c.after t []) := ⟨ht.homed, hc.stack, hc.waiting⟩
  have hnext := ht.next
  cases htakes with
  | reply _ hf => exact hafter.faces_apart hn hf
  | throw hr | enterNil hr =>
    rw [hr] at hnext
    cases hnext
  | enter hr =>
    rw [hr] at hnext
    cases hnext with
    | enter f hf =>
      refine ⟨⟨ht.homed, hc.stack, hc.waiting⟩, fun g hg => ?_⟩
      obtain rfl := Option.some.inj hg
      exact hf
  | @script _ _ _ k _ hr hf =>
    rw [hr] at hnext
    cases hnext with
    | script _ _ _ _ hk =>
      have hpushed : Bound h v (c.after t k) := by
        refine ⟨ht.homed, fun f hf => ?_, hc.waiting⟩
        exact (List.mem_append.mp hf).elim (hk f) (hc.stack f)
      exact hpushed.faces_apart hn hf
  | inline hr hd =>
    rw [hr] at hnext
    cases hnext with
    | perform _ _ hplace =>
      refine ⟨⟨ht.homed, hc.stack, hc.waiting⟩, fun f hf => .inl ?_⟩
      obtain rfl := Option.some.inj hf
      exact hplace (by rcases hd with hd | hd <;> simp [hd])
  | queued hr hd hu hf =>
    rw [hr] at hnext
    cases hnext with
    | perform _ _ hplace =>
      exact (hafter.push fun hne => hplace (by simpa [hd] using hne)).faces_apart hn hf
  | @dropped _ w _ _ _ hr hd hf =>
    rw [hr] at hnext
    cases hnext
    have hdiscard : Bound h v ((c.after t []).discard w) :=
      ⟨unwind_homed ht.homed w, hc.stack, hc.waiting⟩
    exact hdiscard.faces_apart hn hf
  | lost hr hd hf =>
    rw [hr] at hnext
    cases hnext
    exact hafter.faces_apart hn hf

/-- In a step the calls of the handler stay in the line of its venue. One that comes up is the first
of this line, and leaves it, or it has come up before and is stuck. -/
theorem Bound.step {cause : Option (Cause (component Event))} (hc : Bound h v c)
    (hstep : c.Step cause c') : Bound h v c' ∧ ∀ f, c'.next = some f → call? h f = none ∨
      cause = some (.resume f) ∧ c.state.isLocked h = true ∨
      cause = none ∧ (c.next = some f ∨ ∃ rest, c.waiting[v]? = some (f :: rest) ∧
        c'.waiting = c.waiting.set v rest) := by
  cases hstep with
  | still hf =>
    obtain ⟨hc', hnext⟩ := hc.faces hf
    exact ⟨hc', fun f hf => (hnext f hf).symm.imp_right fun h => .inr ⟨rfl, .inl h⟩⟩
  | exec hn ht =>
    obtain ⟨hc', hapart⟩ := hc.takes hn (exec_fits _ hc.homed _) ht
    exact ⟨hc', fun f hf => .inl ((hapart f hf).resolve_right id)⟩
  | resume hn ht =>
    have hrest : Bound h v { c with next := none } := ⟨hc.homed, hc.stack, hc.waiting⟩
    obtain ⟨hc', hapart⟩ := hrest.takes rfl (resume_fits hc.homed _) ht
    refine ⟨hc', fun f hf => (hapart f hf).imp_right fun hstuck => .inl ?_⟩
    obtain ⟨rfl, hlocked⟩ := hstuck
    exact ⟨rfl, hlocked⟩
  | unwind hn hk hf =>
    subst hf
    refine ⟨⟨unwind_homed hc.homed _, fun f hf => hc.stack f (hk ▸ List.mem_cons_of_mem _ hf),
      hc.waiting⟩, ?_⟩
    intro f hf
    simp [Config.discard, hn] at hf
  | @poll t => cases t
  | tick hn =>
    refine ⟨⟨hc.homed, hc.stack, hc.waiting⟩, fun f hf => ?_⟩
    simp [hn] at hf
  | @begin u w rest hn hu =>
    constructor
    · refine ⟨hc.homed, hc.stack, fun u' line hne hline f hf => ?_⟩
      rw [List.getElem?_set] at hline
      split at hline
      · rename_i hsame
        obtain ⟨-, rfl⟩ : u < c.waiting.length ∧ rest = line := by simpa using hline
        exact hc.waiting u _ (hsame ▸ hne) hu f (List.mem_cons_of_mem _ hf)
      · exact hc.waiting u' line hne hline f hf
    · intro f hf
      obtain rfl := Option.some.inj hf
      by_cases hv : u = v
      · subst hv
        exact .inr (.inr ⟨rfl, .inr ⟨rest, hu, rfl⟩⟩)
      · exact .inl (hc.waiting u _ hv hu w List.mem_cons_self)
  | opened hn hf =>
    have hopened : Bound h v { c with waiting := c.waiting ++ [[]] } := by
      refine ⟨hc.homed, hc.stack, fun u line hne hline f hf => ?_⟩
      rw [List.getElem?_append] at hline
      split at hline
      · exact hc.waiting u line hne hline f hf
      · simp [List.mem_singleton.mp (List.mem_of_getElem? hline)] at hf
    obtain ⟨hc', hnext⟩ := hopened.faces hf
    exact ⟨hc', fun f hf => .inl ((hnext f hf).resolve_left (by simp [hn]))⟩

/-- What is given to the venue of a handler at a moment calls it with what is emitted for it. -/
theorem gives_emitted {q : Moment (component Event)} (hs : Homed h v q.state) :
    (q.gives v).filterMap (call? h) = emittedAt h q := by
  obtain ⟨s, cause⟩ := q
  have hs : Homed h v s := hs
  cases cause with
  | exec view a =>
    simp only [Moment.gives, Moment.turn?, component]
    cases a with
    | emit id e =>
      simp only [exec, emittedAt]
      cases hlookup : s.emitters.lookup id with
      | none => rfl
      | some b =>
        obtain ⟨k, d⟩ := b
        by_cases hk : k = h
        · simp only [hs.lookup hlookup hk, hk, if_true]
          exact List.filterMap_cons_some (if_pos rfl)
        · simp only [hk, if_false]
          split
          · exact List.filterMap_cons_none (if_neg hk)
          · rfl
    | perform context label script throws =>
      simp only [exec, emittedAt]
      cases view.context? context with
      | none => rfl
      | some d =>
        dsimp only
        split <;> rfl
    | handle id context script throws =>
      simp only [exec, emittedAt]
      cases view.context? context <;> rfl
    | copy id source =>
      simp only [exec, emittedAt]
      cases s.emitters.lookup source <;> rfl
    | drop id => rfl
    | describe id =>
      simp only [exec, emittedAt]
      cases s.emitters.lookup id <;> rfl
  | resume f =>
    simp only [Moment.gives, Moment.turn?, component, emittedAt]
    cases f with
    | task | unlock => rfl
    | call k e =>
      simp only [resume]
      cases s.handlers[k]? with
      | none => rfl
      | some g => cases hlocked : g.locked <;> simp [hlocked] <;> rfl
  | unwind f => rfl
  | poll t => cases t
  | tick => rfl

/-- Neither tasks nor emitters are served by the reactor themselves. -/
instance : IsEmpty (component Event).Task := inferInstanceAs (IsEmpty Empty)

theorem bound_run {free : Bool} {m₀ m : Machine (component Event)}
    {past : List (Moment (component Event))} (hrun : RunBy free m₀ past m)
    (hb : Bound h v m₀.config) :
    Bound h v m.config ∧ (performed v past).filterMap (call? h) = emitted h past := by
  refine hrun.config_induction_of (fun _ => inferInstance) (fun past c => Bound h v c ∧
    (performed v past).filterMap (call? h) = emitted h past) ⟨hb, rfl⟩ ?_
  rintro past c cause c' ⟨hc, hpast⟩ hstep
  refine ⟨(hc.step hstep).1, ?_⟩
  rw [performed_append, List.filterMap_append, hpast, emitted_append]
  congr 1
  cases cause with
  | none => rfl
  | some cause =>
    have h := gives_emitted (q := ⟨c.state, cause⟩) hc.homed
    simpa [Config.moment, performed, emitted] using h

end Bound

/-! ### Calls that come up -/

section Calls

variable {h v : Nat} {m m' : Machine (component Event)} {f : (component Event).Frame}

theorem calling_of_resume (hf : m.cause? = some (.resume f)) :
    calling h m = if m.state.isLocked h then [] else (call? h f).toList := by
  simp [calling, called, moment?, hf, calledAt]

theorem calling_eq_nil (hm : ∀ f, m.cause? = some (.resume f) → call? h f = none) :
    calling h m = [] := by
  cases hc : m.cause? with
  | none => simp [calling, called, moment?, hc]
  | some cause =>
    cases cause with
    | resume f => rw [calling_of_resume hc, hm f hc, Option.toList_none, ite_self]
    | _ => simp [calling, called, moment?, hc, calledAt]

theorem calling_of_empty (hs : m.stack = []) : calling h m = [] :=
  calling_eq_nil fun f hf => by
    obtain ⟨-, k, hk⟩ := stack_of_resume hf
    simp [hs] at hk

theorem config_waiting (m : Machine (component Event)) :
    m.config.waiting = m.venues.map (·.waiting) := by
  unfold config
  split <;> rfl

theorem line_eq (m : Machine (component Event)) (v : Nat) :
    m.line v = m.config.waiting[v]?.getD [] := by
  rw [config_waiting, List.getElem?_map]
  rfl

/-- While nothing runs, the component does not take part. -/
theorem cause?_of_idle (hm : m.step? = none) : m.cause? = none := by
  have hs := stack_of_step? hm
  unfold cause?
  split
  · rename_i hc
    simp [step?, hc] at hm
  · simp_all
  · simp_all
  · rename_i t _ _ _ _
    exact t.elim
  · rename_i t _ _ _ _
    exact t.elim
  · rfl

theorem next_of_no_cause (hm : m.cause? = none) : m.config.next = none := by
  unfold config
  split
  · rename_i hc hs
    simp [cause?_back hc hs] at hm
  · rfl

/-- A call of the handler that comes up is work of its venue that is begun, unless it has come up before
and is stuck. -/
theorem begun_of_call {cause : Option (Cause (component Event))} (ho : m.floor.Orderly)
    (ho' : m'.floor.Orderly) (hb : Bound h v m.config) (hstep : m.config.Step cause m'.config)
    (hquiet : cause = none → m.config.next = none ∧ accepted v m'.journal = accepted v m.journal)
    (hopen : cause = some (.resume f) → m.state.isLocked h = false)
    (hf : m'.cause? = some (.resume f)) (hcall : call? h f ≠ none) :
    begun v m'.journal = begun v m.journal ++ [f] := by
  rcases (hb.step hstep).2 f (config_of_resume hf).1 with
    hnone | ⟨hcause, hlocked⟩ | ⟨hcause, hold | ⟨rest, hline, hrest⟩⟩
  · exact absurd hnone hcall
  · rw [config_state, hopen hcause] at hlocked
    cases hlocked
  · simp [(hquiet hcause).1] at hold
  · -- The line is shorter by this call, and nothing has joined it.
    have hsame := (hquiet hcause).2
    rw [Machine.lines ho v, Machine.lines ho' v, line_eq m, line_eq m', hline, hrest] at hsame
    have hlen : v < m.config.waiting.length := (List.getElem?_eq_some_iff.mp hline).1
    refine (List.append_left_inj rest).mp ?_
    simpa [hlen] using hsame

end Calls

/-! ### The lock of a handler -/

section Lock

variable {h v : Nat} {m m' : Machine (component Event)} {s : State Event}

theorem isLocked_of {g : Handler Event} (hg : s.handlers[h]? = some g) : s.isLocked h = g.locked := by
  simp [State.isLocked, hg]

theorem exec_isLocked (view : View) (s : State Event) (a : Action Event) (h : Nat) :
    (exec view s a).state.isLocked h = s.isLocked h := by
  cases a with
  | handle id context script throws =>
    simp only [exec]
    split
    · rfl
    · simp only [State.isLocked, State.bind, List.getElem?_append]
      split
      · rfl
      · rename_i hlen
        rw [List.getElem?_eq_none (Nat.le_of_not_lt hlen)]
        cases h - s.handlers.length <;> rfl
  | perform | emit | copy | drop | describe =>
    simp only [exec]
    first | rfl | split <;> rfl

theorem unlock_isLocked (k : Nat) :
    (s.unlock k).isLocked h = (s.isLocked h && decide (k ≠ h)) := by
  simp only [State.isLocked, State.unlock, List.getElem?_modify]
  cases s.handlers[h]? with
  | none => rfl
  | some g => by_cases hk : k = h <;> simp [hk]

/-- A call that finds its handler open. -/
theorem resume_open {g : Handler Event} (hg : s.handlers[h]? = some g) (hopen : g.locked = false)
    (e : Event) : resume s (.call h e) =
      { state := { s with handlers := s.handlers.set h { g with calls := g.calls + 1, locked := true } }
        notes := [.heard g.name (g.calls + 1) e]
        next := .script g.name (g.script (g.calls + 1)) (g.throws (g.calls + 1)) [.unlock h] } := by
  simp [resume, hg, hopen]

/-- A call that finds its handler locked is tried again. -/
theorem resume_locked (hlocked : s.isLocked h = true) (e : Event) :
    resume s (.call h e) = { state := s, next := .enter [.call h e] } := by
  cases hg : s.handlers[h]? with
  | none => simp [State.isLocked, hg] at hlocked
  | some g => simp [resume, hg, (isLocked_of hg).symm.trans hlocked]

/-- A handler is locked by a call that finds it open. -/
theorem resume_isLocked {f : Frame Event} (hlocked : (resume s f).state.isLocked h = true) :
    s.isLocked h = true ∧ f ≠ .unlock h ∨
      ∃ e g, f = .call h e ∧ s.handlers[h]? = some g ∧ g.locked = false := by
  cases f with
  | task => exact .inl ⟨hlocked, nofun⟩
  | unlock k =>
    obtain ⟨hs, hk⟩ : s.isLocked h = true ∧ k ≠ h := by
      simpa [resume, unlock_isLocked] using hlocked
    exact .inl ⟨hs, by simpa using hk⟩
  | call k e =>
    simp only [resume] at hlocked
    split at hlocked
    · exact .inl ⟨hlocked, nofun⟩
    · rename_i g hg
      split at hlocked
      · exact .inl ⟨hlocked, nofun⟩
      · rename_i hopen
        by_cases hk : k = h
        · subst hk
          exact .inr ⟨e, g, rfl, hg, by simpa using hopen⟩
        · refine .inl ⟨?_, nofun⟩
          simpa [State.isLocked, List.getElem?_set_ne hk] using hlocked

theorem unwind_isLocked {f : Frame Event} (hlocked : (unwind s f).1.isLocked h = true) :
    s.isLocked h = true ∧ f ≠ .unlock h := by
  cases f with
  | task | call => exact ⟨hlocked, nofun⟩
  | unlock k =>
    obtain ⟨hs, hk⟩ : s.isLocked h = true ∧ k ≠ h := by
      simpa [unwind, unlock_isLocked] using hlocked
    exact ⟨hs, by simpa using hk⟩

/-- What is given to a context is not the end of a call, so nothing is lost with it. -/
theorem unwind_given {q : Moment (component Event)} {t : Turn (component Event).toSignature}
    {d : Context} {w : Frame Event} {k : List (Frame Event)} (ht : q.turn? = some t)
    (hn : t.next = .perform d w k) (s : State Event) : unwind s w = (s, []) := by
  obtain ⟨s₀, cause⟩ := q
  cases cause with
  | exec view a =>
    cases ht
    simp only [component] at hn
    cases a with
    | perform | emit =>
      simp only [exec] at hn
      split at hn <;> cases hn
      rfl
    | handle | copy | describe =>
      simp only [exec] at hn
      split at hn <;> cases hn
    | drop => cases hn
  | resume f =>
    cases ht
    simp only [component] at hn
    cases f with
    | task | unlock => cases hn
    | call =>
      simp only [resume] at hn
      split at hn
      · cases hn
      · split at hn <;> cases hn
  | poll t => cases t
  | unwind | tick => cases ht

/-- After a step the state is what the component has made of it. -/
theorem step_state {c c' : Config (component Event)} {cause : Option (Cause (component Event))}
    (hstep : c.Step cause c') :
    cause = none ∧ c'.state = c.state ∨
      ∃ q, c.moment cause = [q] ∧ q.state = c.state ∧ c'.state = q.after := by
  cases cause with
  | none => exact .inl ⟨rfl, hstep.state_eq⟩
  | some cause =>
    refine .inr ⟨_, rfl, rfl, ?_⟩
    rcases hstep.state_cases with hstate | ⟨t, d, w, k, u, ht, hn, -, hstate⟩
    · exact hstate
    · rw [hstate]
      exact congrArg Prod.fst (unwind_given ht hn _)

/-- A handler that is locked after a step has been locked before and is not unlocked in the step, or it
is called. -/
theorem isLocked_step {c c' : Config (component Event)} {cause : Option (Cause (component Event))}
    (hstep : c.Step cause c') (hlocked : c'.state.isLocked h = true) :
    c.state.isLocked h = true ∧ cause ≠ some (.resume (.unlock h)) ∧
        cause ≠ some (.unwind (.unlock h)) ∨
      ∃ e g, cause = some (.resume (.call h e)) ∧ c.state.handlers[h]? = some g ∧ g.locked = false := by
  rcases step_state hstep with ⟨rfl, hstate⟩ | ⟨⟨s, cause'⟩, hq, hqs, hstate⟩
  · exact .inl ⟨hstate ▸ hlocked, nofun, nofun⟩
  · obtain rfl : s = c.state := hqs
    obtain rfl : cause = some cause' := by
      cases cause with
      | none => cases hq
      | some => exact congrArg (some ∘ Moment.cause) (List.singleton_injective hq)
    rw [hstate] at hlocked
    cases cause' with
    | exec view a => exact .inl ⟨(exec_isLocked view _ a h).symm.trans hlocked, nofun, nofun⟩
    | resume f =>
      rcases resume_isLocked hlocked with ⟨hs, hf⟩ | ⟨e, g, rfl, hg⟩
      · exact .inl ⟨hs, fun heq => hf (by cases heq; rfl), nofun⟩
      · exact .inr ⟨e, g, rfl, hg⟩
    | unwind f =>
      obtain ⟨hs, hf⟩ := unwind_isLocked hlocked
      exact .inl ⟨hs, nofun, fun heq => hf (by cases heq; rfl)⟩
    | tick => exact .inl ⟨hlocked, nofun, nofun⟩
    | poll t => cases t

/-- Whoever calls a handler that is locked stays where he is. -/
theorem step?_locked {e : Event} (hf : m.cause? = some (.resume (.call h e)))
    (hlocked : m.state.isLocked h = true) : m.step? = some { m with control := .back .done } := by
  obtain ⟨⟨r, hc⟩, k, hs⟩ := stack_of_resume hf
  have hresume : (component Event).resume m.state (.call h e) = _ := resume_locked hlocked e
  rw [step?_back hc hs]
  simp only [returnTo, hresume]
  have hsame : ({ m with stack := .own (.call h e) :: k, control := .back .done } :
      Machine (component Event)) = { m with control := .back .done } := by rw [← hs]
  exact congrArg some hsame

/-- A handler that calls itself directly never returns: he who waits for the lock is the one who holds
it. -/
theorem run_locked {e : Event} (hf : m.cause? = some (.resume (.call h e)))
    (hlocked : m.state.isLocked h = true) (n : Nat) :
    (m.run n).stack = m.stack ∧ (m.run n).cause? = m.cause? ∧ (m.run n).state = m.state := by
  induction n generalizing m with
  | zero => exact ⟨rfl, rfl, rfl⟩
  | succ n ih =>
    obtain ⟨-, k, hs⟩ := stack_of_resume hf
    have hcause : ({ m with control := .back .done } : Machine (component Event)).cause? =
        some (.resume (.call h e)) := by simp [cause?, hs]
    rw [run, step?_locked hf hlocked]
    obtain ⟨hstack, hcause', hstate⟩ := ih hcause hlocked
    exact ⟨hstack, (hcause'.trans hcause).trans hf.symm, hstate⟩

/-- While a handler is locked, work of its venue runs that will unlock it. -/
def Guarded (h v : Nat) (m : Machine (component Event)) : Prop :=
  m.state.isLocked h = true →
    ∃ above k, m.stack = above ++ .own (.unlock h) :: .turn (.venue v) :: k

theorem Guarded.open_of_empty (hg : Guarded h v m) (hs : m.stack = []) : m.state.isLocked h = false := by
  by_contra hlocked
  obtain ⟨above, k, habove⟩ := hg (by simpa using hlocked)
  simp [hs] at habove

/-- A call that comes up in a turn of the venue finds the handler open, since no other work of the venue
runs. -/
theorem Guarded.open_of_call (hg : Guarded h v m) (ho : m.floor.Orderly) {f : Frame Event}
    {k : List (Dispatch.Frame (component Event))} (hs : m.stack = .own f :: .turn (.venue v) :: k)
    (hf : call? h f ≠ none) : m.state.isLocked h = false := by
  by_contra hlocked
  obtain ⟨above, k', habove⟩ := hg (by simpa using hlocked)
  have hone : m.stack.countP (·.turns v) ≤ 1 := ho.turns_le v
  rw [hs] at habove hone
  match above, habove with
  | [], habove =>
    cases (List.cons.inj habove).1
    exact hf rfl
  | [_], habove => simp at habove
  | _ :: _ :: rest, habove =>
    obtain ⟨-, rfl⟩ := List.cons.inj (List.cons.inj habove).2
    rw [List.countP_cons, List.countP_cons, List.append_eq, List.countP_append, List.countP_cons,
      List.countP_cons] at hone
    simp only [Frame.turns_turn, decide_true, if_true] at hone
    omega

/-- Nothing that happens while nothing runs locks a handler. -/
theorem Guarded.of_empty (hg : Guarded h v m) (hs : m.stack = [])
    (hstep : m.config.Step m.cause? m'.config) : Guarded h v m' := by
  intro hlocked
  rw [← m'.config_state] at hlocked
  rcases isLocked_step hstep hlocked with ⟨hbefore, -⟩ | ⟨e, g, hcause, -⟩
  · rw [config_state, hg.open_of_empty hs] at hbefore
    cases hbefore
  · obtain ⟨-, k, hk⟩ := stack_of_resume hcause
    simp [hs] at hk

theorem script_frames (tag : String) (ops : List (Op (Action Event))) (throws : Bool)
    (k : List (Frame Event)) : ∃ above,
      (Next.script tag ops throws k : Next (component Event).toSignature).frames =
        above ++ k.map (@Dispatch.Frame.own (component Event)) := by
  cases ops with
  | nil => exact ⟨[], rfl⟩
  | cons op rest => exact ⟨[.script tag rest throws], rfl⟩

theorem Guarded.step (hg : Guarded h v m)
    (hturn : ∀ f, m.cause? = some (.resume f) → call? h f ≠ none →
      ∃ k, m.stack = .own f :: .turn (.venue v) :: k)
    (hm : m.step? = some m') : Guarded h v m' := by
  intro hlocked
  rw [← m'.config_state] at hlocked
  rcases isLocked_step (step?_config hm) hlocked with
    ⟨hbefore, hresume, hunwind⟩ | ⟨e, g, hcause, hg', hopen⟩
  · rw [config_state] at hbefore
    obtain ⟨above, k, hs⟩ := hg hbefore
    have hfar : above ≠ [] ∨ ∃ op, m.control = .run op := by
      by_contra hnear
      obtain ⟨habove, hrun⟩ := not_or.mp hnear
      obtain rfl : above = [] := not_not.mp habove
      cases hc : m.control with
      | run op => exact hrun ⟨op, hc⟩
      | back r => exact hresume (cause?_back hc hs)
      | thrown => exact hunwind (cause?_thrown hc hs)
    obtain ⟨above', f, lower, hs', hf, hlower, -⟩ := step?_frame hs hfar hm
    cases hf
    cases hlower with
    | cons hsite _ =>
      cases hsite
      exact ⟨above', _, hs'⟩
  · rw [config_state] at hg'
    obtain ⟨k, hs⟩ := hturn _ hcause (by simp [call?])
    obtain ⟨⟨r, hc⟩, -⟩ := stack_of_resume hcause
    obtain ⟨frames, lower, hs', hlower, -, hraised⟩ := step?_keeps hm
    have hbelow : m.below = .turn (.venue v) :: k := by simp [below, hc, hs]
    rw [hbelow] at hlower
    have ht : m.turn? = some (resume m.state (.call h e)) := turn?_back hc hs
    obtain ⟨t, ht', rfl⟩ | ⟨hnone, -⟩ := hraised
    · obtain rfl := Option.some.inj (ht.symm.trans ht')
      rw [resume_open hg' hopen] at hs'
      obtain ⟨above, habove⟩ := script_frames g.name (g.script (g.calls + 1)) (g.throws (g.calls + 1))
        [.unlock h]
      cases hlower with
      | @cons _ _ _ k' hsite _ =>
        cases hsite
        refine ⟨above, k', (hs'.trans (congrArg (· ++ _) habove)).trans ?_⟩
        exact List.append_assoc ..
    · simp [ht] at hnone

end Lock

/-! ### Runs -/

section Runs

variable {free : Bool} {h v : Nat} {m m' : Machine (component Event)} {f : (component Event).Frame}
  {past : List (Moment (component Event))} {kind : VenueKind}

/-- Calls of a handler are begun in the turns of its venue. -/
structure Calls (h v : Nat) (past : List (Moment (component Event)))
    (m : Machine (component Event)) : Prop where
  begun : (begun v m.journal).filterMap (call? h) = called h past ++ calling h m
  turn : ∀ f, m.cause? = some (.resume f) → call? h f ≠ none →
    ∃ k, m.stack = .own f :: .turn (.venue v) :: k
  guarded : Guarded h v m

/-- No call finds the handler locked. -/
theorem Calls.opened (hc : Calls h v past m) (ho : m.floor.Orderly)
    (hf : m.cause? = some (.resume f)) (hcall : call? h f ≠ none) : m.state.isLocked h = false := by
  obtain ⟨k, hs⟩ := hc.turn f hf hcall
  exact hc.guarded.open_of_call ho hs hcall

/-- In a step a call of the handler is made that has come up before, and one comes up if it is begun. -/
theorem Calls.step (hc : Calls h v past m) (ho : m.floor.Orderly) (hb : Bound h v m.config)
    (hv : m.floor.kind? v = some kind) (hk : kind ≠ .manual) (hp : m.Paces m')
    (hstep : m.config.Step m.cause? m'.config) (hguarded : Guarded h v m') :
    Calls h v (past ++ m.moment?.toList) m' := by
  have ho' : m'.floor.Orderly := by
    obtain ⟨e, -, p⟩ := hp
    exact ho.path p
  have hcall {f : (component Event).Frame} (hf : m'.cause? = some (.resume f))
      (hne : call? h f ≠ none) : Dispatch.begun v m'.journal = Dispatch.begun v m.journal ++ [f] := by
    refine begun_of_call ho ho' hb hstep (fun hnone => ⟨next_of_no_cause hnone, ?_⟩)
      (fun hf => hc.opened ho hf hne) hf hne
    rw [hp.accepted_eq v, joins_of_no_turn (turn?_of_no_cause hnone), List.append_nil]
  have hpast : called h (past ++ m.moment?.toList) = called h past ++ calling h m :=
    called_append ..
  rcases hp.started ho hv hk with hsame | ⟨w, hbegun, -, -, hcause, k, hs⟩
  · have hnone (f : (component Event).Frame) (hf : m'.cause? = some (.resume f)) : call? h f = none := by
      by_contra hne
      have := congrArg List.length (hsame.symm.trans (hcall hf hne))
      simp at this
    refine ⟨?_, fun f hf hne => absurd (hnone f hf) hne, hguarded⟩
    rw [hpast, ← hc.begun, hsame, calling_eq_nil hnone, List.append_nil]
  · refine ⟨?_, fun f hf _ => ?_, hguarded⟩
    · have hcalling : calling h m' = (call? h w).toList := by
        rw [calling_of_resume hcause]
        by_cases hne : call? h w = none
        · simp [hne]
        · simp [hguarded.open_of_call ho' hs hne]
      rw [hpast, ← hc.begun, hbegun, hcalling, List.filterMap_append]
      cases hw : call? h w <;> simp [hw]
    · obtain rfl : w = f := by simpa using hcause.symm.trans hf
      exact ⟨k, hs⟩

/-- While nothing runs, nobody calls the handler. -/
theorem Calls.of_empty {later : List (Moment (component Event))} (hc : Calls h v past m)
    (hs : m.stack = []) (hs' : m'.stack = []) (hj : m'.journal = m.journal)
    (hlater : called h later = []) (hstate : m'.state = m.state) : Calls h v (past ++ later) m' where
  begun := by
    rw [hj, hc.begun, calling_of_empty hs, calling_of_empty hs', called_append, hlater,
      List.append_nil, List.append_nil]
  turn f hf := by
    obtain ⟨-, k, hk⟩ := stack_of_resume hf
    simp [hs'] at hk
  guarded hlocked := by
    rw [hstate, hc.guarded.open_of_empty hs] at hlocked
    cases hlocked

theorem calls_run {m₀ : Machine (component Event)} (hrun : RunBy free m₀ past m)
    (ho : m₀.floor.Orderly) (hv : m₀.floor.kind? v = some kind) (hk : kind ≠ .manual)
    (hb : Bound h v m₀.config) (hstart : Calls h v [] m₀) : Calls h v past m := by
  induction hrun with
  | start => exact hstart
  | @advance past m m' hrun hm ih =>
    have hm₀ := hrun.orderly ho
    have hguarded : Guarded h v m' := by
      cases hstep : m.step? with
      | some m₁ =>
        obtain rfl := Option.some.inj ((advance?_of_step hstep).symm.trans hm)
        exact ih.guarded.step ih.turn hstep
      | none => exact ih.guarded.of_empty (stack_of_step? hstep) (advance?_config hm)
    exact ih.step hm₀ (bound_run hrun hb).1 (hrun.kind? ho hv) hk (advance?_paces hm₀ hm)
      (advance?_config hm) hguarded
  | @request past m _ hm op ih =>
    rw [← List.append_nil past]
    exact ih.of_empty (stack_of_step? hm) rfl rfl rfl rfl
  | strike _ hm ih => exact ih.of_empty (stack_of_step? hm) (stack_of_step? hm) rfl rfl rfl
  | @proceed past m u q n hrun hm hq hparallel _ ih =>
    have hs := stack_of_step? hm
    have hcause := cause?_of_idle hm
    have hstep : m.config.Step m.cause? (m.proceed u n).config := hcause ▸ proceed_config hm u n
    have hpaces : m.Paces (m.proceed u n) := by
      obtain ⟨e, he, p⟩ := proceed_path hm hq hparallel n
      exact ⟨e, fun v => by rw [he, joins_of_no_turn (turn?_of_no_cause hcause)], p⟩
    have := ih.step (hrun.orderly ho) (bound_run hrun hb).1 (hrun.kind? ho hv) hk hpaces hstep
      (ih.guarded.of_empty hs hstep)
    simpa [moment?, hcause] using this
  | @reorder past m ready _ _ hm _ ih =>
    rw [← List.append_nil past]
    exact ih.of_empty (stack_of_step? hm) (show m.stack = [] from stack_of_step? hm) rfl rfl rfl

end Runs

end Conduit.Dispatch.Emitter
