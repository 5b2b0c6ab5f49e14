import Conduit.Proofs.Dispatch.Emission

/-!
What emitters on serial contexts and threads promise: every event that is emitted, through any copy
of the emitter, is delivered to the handler once, in order, and in a turn of the context that no other
call of the handler shares, so that none finds it locked. What the handler emits, drops or throws
changes nothing in this.
-/

namespace Conduit.Dispatch.Emitter

open Machine

variable {Event : Type}

/-! ### Handlers that have been made -/

section Known

/-- A frame calls none but the first `n` handlers. -/
def Knows (n : Nat) (f : (component Event).Frame) : Prop := ∀ h, n ≤ h → call? h f = none

theorem Knows.mono {n n' : Nat} (hn : n ≤ n') {f : (component Event).Frame} (hf : Knows n f) :
    Knows n' f := fun h hh => hf h (Nat.le_trans hn hh)

theorem knows_call {n k : Nat} (hk : k < n) (e : Event) : @Knows Event n (.call k e) :=
  fun _ hh => if_neg (Nat.ne_of_lt (Nat.lt_of_lt_of_le hk hh))

/-- The emitters of a state are those of handlers that have been made. -/
def Owned (s : State Event) : Prop := ∀ e ∈ s.emitters, e.2.1 < s.handlers.length

theorem Owned.lookup {s : State Event} (hs : Owned s) {id : String} {k : Nat} {d : Context}
    (hd : s.emitters.lookup id = some (k, d)) : k < s.handlers.length := by
  obtain ⟨l₁, l₂, hl, -⟩ := List.lookup_eq_some_iff.mp hd
  exact hs (id, k, d) (by simp [hl])

theorem Owned.bind {s : State Event} (hs : Owned s) {id : String} {k : Nat} {d : Context}
    (hk : k < s.handlers.length) : Owned (s.bind id k d) := by
  intro e he
  rcases List.mem_cons.mp he with rfl | he
  · exact hk
  · exact hs e (List.mem_filter.mp he).1

theorem Owned.unlock {s : State Event} (hs : Owned s) (k : Nat) : Owned (s.unlock k) :=
  fun e he => by simpa [State.unlock] using hs e he

/-- A turn keeps to handlers that have been made. -/
structure Heeds (s : State Event) (t : Turn (component Event).toSignature) : Prop where
  owned : Owned t.state
  handlers : s.handlers.length ≤ t.state.handlers.length
  left : ∀ f ∈ t.next.left, Knows s.handlers.length f

/-- A turn that leaves no frame calls no handler. -/
theorem Heeds.of_no_frames {s : State Event} {t : Turn (component Event).toSignature}
    (hs : Owned t.state) (hle : s.handlers.length ≤ t.state.handlers.length)
    (hn : t.next.left = []) : Heeds s t :=
  ⟨hs, hle, fun _ hf => absurd hf (hn ▸ List.not_mem_nil)⟩

theorem exec_heeds (view : View) {s : State Event} (hs : Owned s) (a : Action Event) :
    Heeds s (exec view s a) := by
  cases a with
  | perform context label script throws =>
    simp only [exec]
    split
    · exact .of_no_frames hs (Nat.le_refl _) rfl
    · refine ⟨hs, Nat.le_refl _, fun f hf => ?_⟩
      rw [List.mem_singleton.mp hf]
      exact fun _ _ => rfl
  | handle id context script throws =>
    simp only [exec]
    split
    · exact .of_no_frames hs (Nat.le_refl _) rfl
    · have hmore : Owned { s with handlers := s.handlers ++ [{ name := id, script, throws }] } :=
        fun e he => by simpa using Nat.lt_succ_of_lt (hs e he)
      exact .of_no_frames (hmore.bind (by simp)) (by simp [State.bind]) rfl
  | emit id event =>
    simp only [exec]
    split
    · exact .of_no_frames hs (Nat.le_refl _) rfl
    · rename_i k d hlookup
      refine ⟨hs, Nat.le_refl _, fun f hf => ?_⟩
      rw [List.mem_singleton.mp hf]
      exact knows_call (hs.lookup hlookup) event
  | copy id source =>
    simp only [exec]
    split
    · exact .of_no_frames hs (Nat.le_refl _) rfl
    · rename_i k d hlookup
      exact .of_no_frames (hs.bind (hs.lookup hlookup)) (Nat.le_refl _) rfl
  | drop id =>
    exact .of_no_frames (fun e he => hs e (List.mem_filter.mp he).1) (Nat.le_refl _) rfl
  | describe id =>
    simp only [exec]
    split <;> exact .of_no_frames hs (Nat.le_refl _) rfl

theorem resume_heeds {s : State Event} (hs : Owned s) (f : Frame Event) : Heeds s (resume s f) := by
  cases f with
  | task => exact .of_no_frames hs (Nat.le_refl _) rfl
  | call k e =>
    simp only [resume]
    split
    · exact .of_no_frames hs (Nat.le_refl _) rfl
    · rename_i g hg
      split
      · refine ⟨hs, Nat.le_refl _, fun f hf => ?_⟩
        rw [List.mem_singleton.mp hf]
        exact knows_call (List.getElem?_eq_some_iff.mp hg).1 e
      · refine ⟨fun e he => by simpa using hs e he, by simp, fun f hf => ?_⟩
        rw [List.mem_singleton.mp hf]
        exact fun _ _ => rfl
  | unlock k => exact .of_no_frames (hs.unlock k) (Nat.le_of_eq (List.length_modify ..).symm) rfl

/-- Nothing that is left to do, or has been given to a context, calls a handler that has not been
made. -/
structure Known (past : List (Moment (component Event))) (c : Config (component Event)) : Prop where
  owned : Owned c.state
  frames : ∀ f ∈ c.frames, Knows c.state.handlers.length f
  given : ∀ q ∈ past, ∀ t, q.turn? = some t → ∀ f ∈ t.next.left, Knows c.state.handlers.length f

theorem turn_heeds {q : Moment (component Event)} {t : Turn (component Event).toSignature}
    (hs : Owned q.state) (ht : q.turn? = some t) : Heeds q.state t := by
  obtain ⟨s, cause⟩ := q
  cases cause with
  | exec view a =>
    cases ht
    exact exec_heeds view hs a
  | resume f =>
    cases ht
    exact resume_heeds hs f
  | poll t => cases t
  | unwind | tick => cases ht

/-- What the component makes of its state keeps to handlers that have been made. -/
theorem after_owned {q : Moment (component Event)} (hs : Owned q.state) :
    Owned q.after ∧ q.state.handlers.length ≤ q.after.handlers.length := by
  obtain ⟨s, cause⟩ := q
  cases cause with
  | exec view a => exact ⟨(exec_heeds view hs a).owned, (exec_heeds view hs a).handlers⟩
  | resume f => exact ⟨(resume_heeds hs f).owned, (resume_heeds hs f).handlers⟩
  | unwind f =>
    cases f with
    | task | call => exact ⟨hs, Nat.le_refl _⟩
    | unlock k =>
      refine ⟨hs.unlock k, Nat.le_of_eq ?_⟩
      exact (List.length_modify ..).symm
  | poll t => cases t
  | tick => exact ⟨hs, Nat.le_refl _⟩

theorem Known.step {past : List (Moment (component Event))} {c c' : Config (component Event)}
    {cause : Option (Cause (component Event))} (hc : Known past c) (h : c.Step cause c') :
    Known (past ++ c.moment cause) c' := by
  have hq : Owned c'.state ∧ c.state.handlers.length ≤ c'.state.handlers.length ∧
      ∀ q ∈ c.moment cause, ∀ t, q.turn? = some t →
        ∀ f ∈ t.next.left, Knows c.state.handlers.length f := by
    rcases step_state h with ⟨rfl, hstate⟩ | ⟨q, hq, hqs, hstate⟩
    · rw [hstate]
      exact ⟨hc.owned, Nat.le_refl _, nofun⟩
    · have hs : Owned q.state := hqs ▸ hc.owned
      rw [hq, hstate, ← hqs]
      refine ⟨(after_owned hs).1, (after_owned hs).2, fun q' hq' t ht => ?_⟩
      obtain rfl := List.mem_singleton.mp hq'
      exact (turn_heeds hs ht).left
  obtain ⟨howned, hle, hleft⟩ := hq
  refine ⟨howned, fun f hf => ?_, fun q hq t ht f hf => ?_⟩
  · rcases h.mem_frames hf with hf | ⟨q, hq, t, ht, hf⟩
    · exact (hc.frames f hf).mono hle
    · exact (hleft q hq t ht f hf).mono hle
  · rcases List.mem_append.mp hq with hq | hq
    · exact (hc.given q hq t ht f hf).mono hle
    · exact (hleft q hq t ht f hf).mono hle

/-- Up to any point of a run, no handler is called that has not been made. -/
theorem known_run {free : Bool} {m : Machine (component Event)} {past : List (Moment (component Event))}
    (hrun : RunBy free (fresh (C := component Event) {}) past m) : Known past m.config :=
  have hstart : @Known Event [] (fresh (C := component Event) {}).config :=
    ⟨fun _ he => (nomatch he), fun _ hf => (nomatch hf), fun _ hq => (nomatch hq)⟩
  hrun.config_induction_of (fun _ => inferInstance) Known hstart fun _ _ _ _ hc h => hc.step h

/-- Before a handler is made it is not called, and nothing that it would be called with waits. -/
theorem known_accepted {free : Bool} {m : Machine (component Event)}
    {past : List (Moment (component Event))} (hrun : RunBy free (fresh (C := component Event) {}) past m) (v : Nat) :
    ∀ w ∈ accepted v m.journal, Knows m.state.handlers.length w := by
  intro w hw
  rcases hrun.of_accepted (fresh_orderly _) hw with hw | ⟨q, hq, t, d, k, ht, hn, -⟩
  · cases hw
  · have h := (known_run hrun).given q hq t ht w (by rw [hn]; exact List.mem_cons_self)
    rwa [config_state] at h

end Known

/-! ### The count of calls -/

section Count

variable {h : Nat} {g : Handler Event}

theorem exec_handlers (view : View) {s : State Event} (hs : s.handlers[h]? = some g)
    (a : Action Event) : (exec view s a).state.handlers[h]? = some g := by
  cases a with
  | handle id context script throws =>
    simp only [exec]
    split
    · exact hs
    · exact (List.getElem?_append_left (List.getElem?_eq_some_iff.mp hs).1).trans hs
  | perform | emit | copy | drop | describe =>
    simp only [exec]
    first | exact hs | split <;> exact hs

theorem unlock_handlers {s : State Event} (hs : s.handlers[h]? = some g) (k : Nat) :
    (s.unlock k).handlers[h]? = some { g with locked := g.locked && decide (k ≠ h) } := by
  simp only [State.unlock, List.getElem?_modify, hs]
  by_cases hk : k = h <;> simp [hk]

/-- A call is counted by its handler alone. -/
theorem resume_handlers {s : State Event} (hs : s.handlers[h]? = some g) (f : Frame Event) :
    ∃ locked, (resume s f).state.handlers[h]? =
      some { g with calls := g.calls + (calledAt h ⟨s, .resume f⟩).length, locked } := by
  have hlocked := isLocked_of hs
  cases f with
  | task => exact ⟨g.locked, hs.trans (by simp [calledAt, call?])⟩
  | unlock k => 
    refine ⟨g.locked && decide (k ≠ h), (unlock_handlers hs k).trans ?_⟩
    simp [calledAt, call?]
  | call k e =>
    by_cases hk : k = h
    · subst hk
      have hlt := (List.getElem?_eq_some_iff.mp hs).1
      cases hg : g.locked with
      | true => 
        rw [hg] at hlocked
        rw [resume_locked hlocked]
        exact ⟨g.locked, hs.trans (by simp [calledAt, hlocked])⟩
      | false =>
        refine ⟨true, ?_⟩
        rw [resume_open hs hg]
        simp [hlt, calledAt, hlocked, hg, call?]
    · refine ⟨g.locked, ?_⟩
      simp only [resume]
      split
      · simpa [calledAt, call?, hk] using hs
      · split <;> simpa [calledAt, call?, hk, List.getElem?_set_ne hk] using hs

theorem counts_run {free : Bool} {m₀ m : Machine (component Event)}
    {past : List (Moment (component Event))} (hrun : RunBy free m₀ past m)
    (hs : m₀.state.handlers[h]? = some g) : m.state.handlers[h]? =
      some { g with calls := g.calls + (called h past).length, locked := m.state.isLocked h } := by
  suffices hcount : ∃ locked, m.config.state.handlers[h]? =
      some { g with calls := g.calls + (called h past).length, locked } by
    rw [m.config_state] at hcount
    obtain ⟨locked, hcount⟩ := hcount
    rw [isLocked_of hcount]
    exact hcount
  refine hrun.config_induction_of (fun _ => inferInstance) (fun past c => ∃ locked,
    c.state.handlers[h]? = some { g with calls := g.calls + (called h past).length, locked })
    ⟨g.locked, m₀.config_state ▸ hs⟩ ?_
  rintro past c cause c' ⟨locked, hc⟩ hstep
  rw [called_append, List.length_append]
  rcases step_state hstep with ⟨rfl, hstate⟩ | ⟨⟨s, cause⟩, hq, hqs, hstate⟩
  · rw [hstate]
    exact ⟨locked, hc⟩
  · obtain rfl : s = c.state := hqs
    rw [hq, hstate]
    cases cause with
    | exec view a => exact ⟨locked, exec_handlers view hc a⟩
    | resume f =>
      obtain ⟨locked, h⟩ := resume_handlers hc f
      exact ⟨locked, h.trans (by simp [called, Nat.add_assoc])⟩
    | unwind f =>
      cases f with
      | task | call => exact ⟨locked, hc⟩
      | unlock k => exact ⟨_, unlock_handlers hc k⟩
    | tick => exact ⟨locked, hc⟩
    | poll t => cases t

end Count

/-! ### A new emitter -/

/-- A machine right after a handler has been made, with its first emitter. -/
structure Made (g : Handler Event) (h v : Nat) (m : Machine (component Event)) : Prop where
  orderly : m.floor.Orderly
  bound : Bound h v m.config
  handler : m.state.handlers[h]? = some g
  calls : Calls h v [] m
  accepted : (accepted v m.journal).filterMap (call? h) = []

theorem made {free : Bool} (x : ExecutionBy free (Machine.fresh (C := component Event) {})) {id context : String}
    {script : Nat → List (Op (Action Event))} {throws : Nat → Bool} {c : Context} {v : Nat}
    {m₁ : Machine (component Event)}
    (hc : x.machine.control = .run (.own (.handle id context script throws)))
    (hcontext : x.machine.context? context = some c) (hplace : c.place = .venue v)
    (hm : x.machine.step? = some m₁) :
    Made { name := id, script, throws } x.machine.state.handlers.length v m₁ := by
  have ho := x.run.orderly (fresh_orderly _)
  have hadvance := advance?_of_step hm
  have ho₁ := (x.run.advance hadvance).orderly (fresh_orderly _)
  have hknown := known_run x.run
  have hcause := cause?_own hc
  let s : State Event := x.machine.state
  let g : Handler Event := { name := id, script, throws }
  let t : Turn (component Event).toSignature :=
    { state := { s with handlers := s.handlers ++ [g] }.bind id s.handlers.length c }
  have hexec : exec x.machine.view s (.handle id context script throws) = t := by
    have hview : x.machine.view.context? context = some c := hcontext
    simp only [exec, hview]
    rfl
  obtain rfl : x.machine.take t = m₁ := by
    rw [← hexec]
    exact Option.some.inj ((step?_own hc).symm.trans hm)
  have hstate : (x.machine.take t).state = t.state := by
    rw [take_reply (t := t) rfl]
    exact x.machine.hear_state t
  -- Nothing that is left to do calls the new handler.
  have hframes : ∀ f ∈ (x.machine.take t).config.frames, call? s.handlers.length f = none := by
    intro f hf
    rw [config_run hc] at hknown
    have hold := (x.machine.take_config t).mem_frames rfl hf
    exact hknown.frames f (hold.resolve_right List.not_mem_nil) _ (Nat.le_refl _)
  have haccepted : ∀ w ∈ accepted v (x.machine.take t).journal, call? s.handlers.length w = none := by
    intro w hw
    rw [(advance?_paces ho hadvance).accepted_eq v,
      joins_of_cause (t := t) hcause (congrArg some hexec), List.mem_append] at hw
    exact known_accepted x.run v w (hw.resolve_right List.not_mem_nil) _ (Nat.le_refl _)
  have hnone (f : (component Event).Frame) (hf : (x.machine.take t).cause? = some (.resume f)) :
      call? s.handlers.length f = none := by
    refine hframes f ?_
    simp [Config.frames, (config_of_resume hf).1]
  have hhandler : (x.machine.take t).state.handlers[s.handlers.length]? = some g := by
    rw [hstate]
    exact List.getElem?_concat_length
  refine ⟨ho₁, ⟨?_, ?_, ?_⟩, hhandler,
    ⟨?_, fun f hf hne => absurd (hnone f hf) hne, fun hlocked => ?_⟩, ?_⟩
  · rw [config_state, hstate]
    refine ⟨fun e he hk => ?_, by simp [t, s, State.bind]⟩
    rcases List.mem_cons.mp he with rfl | he
    · exact hplace
    · have hlt := hknown.owned e (by simpa using (List.mem_filter.mp he).1)
      exact absurd hk (Nat.ne_of_lt (by simpa using hlt))
  · intro f hf
    exact hframes f (by simp [Config.frames, hf])
  · intro u line _ hline f hf
    refine hframes f (List.mem_append_right _ ?_)
    exact List.mem_flatten.mpr ⟨line, List.mem_of_getElem? hline, hf⟩
  · rw [calling_eq_nil hnone]
    refine List.filterMap_eq_nil_iff.mpr fun w hw => haccepted w ?_
    rw [Machine.lines ho₁ v]
    exact List.mem_append_left _ hw
  · rw [isLocked_of hhandler] at hlocked
    cases hlocked
  · exact List.filterMap_eq_nil_iff.mpr haccepted

/-! ### The contract -/

section Contract

variable {free : Bool} {g : Handler Event} {h v : Nat} {m₁ m m' : Machine (component Event)}
  {past : List (Moment (component Event))} {kind : VenueKind}

/-- What is promised of the emitters of a handler `g` on a venue, when a run since it was made has
come to `m`. -/
structure EmissionContract (free : Bool) (g : Handler Event) (h v : Nat)
    (past : List (Moment (component Event))) (m : Machine (component Event)) : Prop where
  /-- A serial context always takes work. -/
  accepting : m.floor.kind? v = some .serial → m.accepts v = true
  /-- Whatever is emitted has been delivered, is about to be, or waits in line, in this order and
  once each. -/
  delivered : m.accepts v = true → emitted h past =
    called h past ++ calling h m ++ (m.line v).filterMap (call? h)
  /-- To emit through any of the emitters adds to the end of the line and returns at once; nothing
  is begun by it. -/
  emits : ∀ id e c, m.control = .run (.own (.emit id e)) → m.state.emitters.lookup id = some (h, c) →
    m.accepts v = true → ∃ m', m.step? = some m' ∧ m'.control = .back .done ∧
      begun v m'.journal = begun v m.journal ∧ m'.line v = m.line v ++ [.call h e]
  /-- A copy of an emitter is one of the emitters of its handler. -/
  shares : ∀ id source c, m.control = .run (.own (.copy id source)) →
    m.state.emitters.lookup source = some (h, c) →
      ∃ m', m.step? = some m' ∧ m'.state.emitters.lookup id = some (h, c)
  /-- The handler counts its calls, and is as it was made but for its lock. -/
  counted : m.state.handlers[h]? =
    some { g with calls := (called h past).length, locked := m.state.isLocked h }
  /-- The `n`-th call is told as such, with its event, and runs the script that the handler has for it
  to its end or to its throw; then the handler is unlocked. -/
  calls : ∀ e, m.cause? = some (.resume (.call h e)) → ∃ t, m.turn? = some t ∧
    t.notes = [.heard g.name ((called h past).length + 1) e] ∧
    t.next = .script g.name (g.script ((called h past).length + 1))
      (g.throws ((called h past).length + 1)) [.unlock h]
  /-- A call begins in a turn of the venue, and no other work of the venue runs then. -/
  alone : ∀ e, m.cause? = some (.resume (.call h e)) → m.runs v = 1 ∧
    ∃ k, m.stack = .own (.call h e) :: .turn (.venue v) :: k
  /-- Nobody who calls the handler finds it locked: it is locked while work of its venue runs. -/
  opened : ∀ e, m.cause? = some (.resume (.call h e)) → m.state.isLocked h = false
  released : m.runs v = 0 → m.state.isLocked h = false
  /-- The work of the venue runs one piece at a time, and a throw ends no more than the one that it
  comes from. -/
  inLine : m.InLine v
  /-- When the venue has run to completion, every event has been delivered. -/
  complete : m.accepts v = true → m.Done v → called h past = emitted h past
  /-- A serial context runs to completion by itself. -/
  settled : m.floor.kind? v = some .serial → m.advance? = none → called h past = emitted h past
  /-- A thread that is flushed delivers all that has been emitted before. -/
  flushed : ∀ id, m.control = .run (.context (.flush id)) → m.venue? id .thread = some v →
    m.accepts v = true → m.isServing v = false → m.Yields m.stack.length fun m' =>
      m'.control = .back .flushed ∧ ∀ later, RunBy free m later m' →
        emitted h past <+: called h (past ++ later)
  /-- When the last reference to a thread is dropped, it delivers all that has been emitted, also
  while it does so. -/
  dropped : ∀ id, m.control = .run (.context (.forget id)) → m.IsLast id v →
    m.isServing v = false → m.Yields m.stack.length fun m' =>
      m'.control = .back .done ∧ ∀ later, RunBy free m later m' → m'.accepts v = true →
        called h (past ++ later) = emitted h (past ++ later)

/-- What a handler is called with is what has been begun. -/
theorem begun_of_idle (hcalls : Calls h v past m) (hruns : m.runs v = 0) :
    (begun v m.journal).filterMap (call? h) = called h past := by
  rw [hcalls.begun, calling_eq_nil, List.append_nil]
  intro f hf
  by_contra hne
  obtain ⟨k, hs⟩ := hcalls.turn f hf hne
  simp [runs, hs] at hruns

theorem copy_shares {id source : String} {c : Context}
    (hc : m.control = .run (.own (.copy id source)))
    (hs : m.state.emitters.lookup source = some (h, c)) :
    ∃ m', m.step? = some m' ∧ m'.state.emitters.lookup id = some (h, c) := by
  let s : State Event := m.state
  let t : Turn (component Event).toSignature := { state := s.bind id h c }
  have hexec : exec m.view s (.copy id source) = t := by
    simp only [exec, show s.emitters.lookup source = some (h, c) from hs]
    rfl
  refine ⟨m.take t, hexec ▸ step?_own hc, ?_⟩
  rw [take_reply (t := t) rfl]
  exact (congrArg (fun s : State Event => s.emitters.lookup id) (m.hear_state t)).trans
    List.lookup_cons_self

namespace Made

variable (hmade : Made g h v m₁) (hv : m₁.floor.kind? v = some kind)
include hmade hv

theorem calls_run (hk : kind ≠ .manual) (hrun : RunBy free m₁ past m) : Calls h v past m :=
  Emitter.calls_run hrun hmade.orderly hv hk hmade.bound hmade.calls

/-- A venue that takes work has taken all that was emitted. -/
theorem accepted_run (hrun : RunBy free m₁ past m) (ha : m.accepts v = true) :
    (Dispatch.accepted v m.journal).filterMap (call? h) = emitted h past := by
  have hopen : m₁.accepts v = true := by
    by_contra hclosed
    have := (hrun.closed hmade.orderly hv (by simpa using hclosed)).1
    simp [ha] at this
  rcases hrun.parts hmade.orderly hv hopen with ⟨-, haccepted⟩ | ⟨hclosed, -⟩
  · rw [haccepted, List.filterMap_append, hmade.accepted, List.nil_append]
    exact (bound_run hrun hmade.bound).2
  · simp [ha] at hclosed

theorem complete_run (hk : kind ≠ .manual) (hrun : RunBy free m₁ past m) (ha : m.accepts v = true)
    (hdone : m.Done v) : called h past = emitted h past := by
  have hrunning := running (hrun.orderly hmade.orderly) (hrun.kind? hmade.orderly hv) hk
  have hruns : m.runs v = 0 := by
    rw [hdone.begun, hdone.ended] at hrunning
    omega
  rw [← hmade.accepted_run hv hrun ha, ← hdone.begun,
    begun_of_idle (hmade.calls_run hv hk hrun) hruns]

omit hv in
theorem emits_run (hrun : RunBy free m₁ past m) {id : String} {e : Event} {c : Context}
    (hc : m.control = .run (.own (.emit id e))) (hid : m.state.emitters.lookup id = some (h, c))
    (ha : m.accepts v = true) : ∃ m', m.step? = some m' ∧ m'.control = .back .done ∧
      begun v m'.journal = begun v m.journal ∧ m'.line v = m.line v ++ [.call h e] := by
  have ho := hrun.orderly hmade.orderly
  have hplace : c.place = .venue v := by
    have hhomed := (bound_run hrun hmade.bound).1.homed
    rw [config_state] at hhomed
    exact hhomed.lookup hid rfl
  have hstep := step?_own hc
  have hexec : exec m.view m.state (.emit id e) =
      { state := m.state, next := .perform c (.call h e) [] } := by
    simp only [exec, hid]
  have hjoins : m.joins v = [.call h e] := by
    rw [joins_of_cause (t := { state := m.state, next := .perform c (.call h e) [] })
      (cause?_own hc) (congrArg some hexec)]
    simp [joined, hplace, ha]
  have hm := advance?_of_step hstep
  obtain ⟨hbegun, hcontrol, -⟩ := returned ho hm (hjoins ▸ List.mem_singleton_self _)
  refine ⟨_, hstep, hcontrol, hbegun, ?_⟩
  have haccepted := (advance?_paces ho hm).accepted_eq v
  have ho' := (hrun.advance hm).orderly hmade.orderly
  rw [Machine.lines ho' v, Machine.lines ho v, hbegun, hjoins, List.append_assoc] at haccepted
  exact List.append_cancel_left haccepted

end Made

end Contract

/-- The events that are emitted through an emitter and its copies reach their handler in order, once
each and one at a time. -/
theorem emission_contract {free : Bool} (x : ExecutionBy free (Machine.fresh (C := component Event) {}))
    {id context : String} {script : Nat → List (Op (Action Event))} {throws : Nat → Bool} {c : Context}
    {v : Nat} {q : Venue (component Event).Frame} {m₁ : Machine (component Event)}
    (hc : x.machine.control = .run (.own (.handle id context script throws)))
    (hcontext : x.machine.context? context = some c) (hplace : c.place = .venue v)
    (hq : x.machine.venues[v]? = some q) (hk : q.kind = .serial ∨ q.kind = .thread)
    (hm : x.machine.step? = some m₁) (y : ExecutionBy free m₁) :
    EmissionContract free { name := id, script, throws } x.machine.state.handlers.length v y.past
      y.machine := by
  have hmade := made x hc hcontext hplace hm
  have hv : m₁.floor.kind? v = some q.kind :=
    advance?_kind (x.run.orderly (fresh_orderly _)) (Floor.kind?_of hq) (advance?_of_step hm)
  have ho := y.run.orderly hmade.orderly
  have hv' := y.run.kind? hmade.orderly hv
  have hmanual : q.kind ≠ .manual := by
    rcases hk with h | h <;> simp [h]
  have hcalls := hmade.calls_run hv hmanual y.run
  have hopened (e : Event) (hcause : y.machine.cause? = some
      (.resume (.call x.machine.state.handlers.length e))) :=
    hcalls.opened ho hcause (by simp [call?])
  have hcounted := counts_run y.run hmade.handler
  rw [Nat.zero_add] at hcounted
  constructor
  case accepting => exact fun hserial => (prompt ho hserial).1
  case delivered =>
    intro ha
    rw [← hmade.accepted_run hv y.run ha, Machine.lines ho v, List.filterMap_append, hcalls.begun]
  case emits => exact fun _ _ _ hemit hid ha => hmade.emits_run y.run hemit hid ha
  case shares =>
    intro id source c hcopy hsource
    exact copy_shares hcopy hsource
  case counted => exact hcounted
  case calls =>
    intro e hcause
    refine ⟨resume y.machine.state (.call x.machine.state.handlers.length e), ?_, ?_⟩
    · rw [turn?, moment?_eq hcause]
      rfl
    · rw [resume_open hcounted (hopened e hcause)]
      exact ⟨rfl, rfl⟩
  case alone =>
    intro e hcause
    obtain ⟨k, hs⟩ := hcalls.turn _ hcause (by simp [call?])
    refine ⟨Nat.le_antisymm (ho.turns_le v) ?_, k, hs⟩
    simp [runs, hs]
  case opened => exact hopened
  case released =>
    intro hruns
    by_contra hlocked
    obtain ⟨above, k, hs⟩ := hcalls.guarded (by simpa using hlocked)
    simp [runs, hs] at hruns
  case inLine => exact Machine.inLine ho hv' hmanual
  case complete => exact fun ha hdone => hmade.complete_run hv hmanual y.run ha hdone
  case settled =>
    intro hserial hrest
    exact hmade.complete_run hv hmanual y.run (prompt ho hserial).1
      (Machine.settled ho hserial (by simp) (goesOn_of_serial hserial) hrest)
  case flushed =>
    intro id hflush hid ha hs
    obtain ⟨hbegins, hgoesOn, hfinishes⟩ := Machine.flushed ho hflush hid ha hs
    refine ⟨hbegins, hgoesOn, fun ms m' hwithin hd => ?_⟩
    obtain ⟨hcontrol, hruns, hbegun⟩ := hfinishes ms m' hwithin hd
    refine ⟨hcontrol, fun later hlater => ?_⟩
    rw [← hmade.accepted_run hv y.run ha,
      ← begun_of_idle (hmade.calls_run hv hmanual (y.run.trans hlater)) hruns]
    exact hbegun.filterMap _
  case dropped =>
    intro id hforget hlast hs
    obtain ⟨hbegins, hgoesOn, hfinishes⟩ := Machine.dropped ho hforget hlast hs
    refine ⟨hbegins, hgoesOn, fun ms m' hwithin hd => ?_⟩
    obtain ⟨hcontrol, hdone⟩ := hfinishes ms m' hwithin hd
    exact ⟨hcontrol, fun later hlater ha =>
      hmade.complete_run hv hmanual (y.run.trans hlater) ha hdone⟩

/-- The first emitter of a handler is about to be made, on a serial context. The handler emits
through a copy at its first call, and throws at every call but the second. -/
def making : Execution (Machine.fresh (C := component String) {}) :=
  ((ExecutionBy.begin _).perform 5 [.context (.make "s" (.serial "line"))]).request
    (.own (.handle "a" "s" (fun n => if n = 1 then [.own (.emit "b" "again")] else []) (· ≠ 2)))

/-- The emitter is copied; a task emits through both, and in between through that of another handler
on the same context, and drops the first one. -/
def emitting : Execution making.advance.machine :=
  (ExecutionBy.begin _).perform 60
    [.own (.copy "b" "a"), .own (.make "c" "s" [] none),
      .own (.perform "" "caller" [.own (.emit "a" "one"), .own (.emit "c" "aside"),
        .own (.emit "b" "two"), .own (.drop "a")] false)]

set_option maxRecDepth 8000 in
theorem emission_contract_emitting :
    emitted 0 emitting.past = ["one", "two", "again"] ∧
    called 0 emitting.past = emitted 0 emitting.past ∧
    emitting.machine.state.handlers[0]?.map (·.calls) = some 3 := by
  have h := emission_contract making (c := ⟨1, .venue 0⟩) rfl rfl rfl rfl (by decide) rfl emitting
  exact ⟨rfl, h.settled rfl rfl, congrArg _ h.counted⟩

end Conduit.Dispatch.Emitter
