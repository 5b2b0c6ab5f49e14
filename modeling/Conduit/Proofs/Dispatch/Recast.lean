import Conduit.Proofs.Dispatch.Frames

/-!
Two machines side by side that differ in how their actions are written and in their states, and in
nothing else. Contexts do not look at actions or states, and so whatever the one machine does apart
from the turns of its component, the other one does as well; and if turns agree, so do the machines
that take them over.
-/

namespace Conduit.Dispatch

variable {C : Component}

/-- Another way to write actions, and the states that belong together then. -/
structure Recast (C : Component) where
  action : C.Action → C.Action
  kin : C.State → C.State → Prop

namespace Recast

variable (ρ : Recast C)

def op : Op C.Action → Op C.Action
  | .own a => .own (ρ.action a)
  | .context o => .context o

def frame : Frame C → Frame C
  | .script tag rest throws => .script tag (rest.map ρ.op) throws
  | f => f

def control : Control C → Control C
  | .run op => .run (ρ.op op)
  | c => c

def next : Next C.toSignature → Next C.toSignature
  | .script tag ops throws k => .script tag (ops.map ρ.op) throws k
  | n => n

/-- The machine with its actions written in the other way, and the state `s`. -/
def machine (m : Machine C) (s : C.State) : Machine C :=
  { m with state := s, stack := m.stack.map ρ.frame, control := ρ.control m.control }

/-- Machines that differ in the way in which their actions are written. -/
def Twin (m m' : Machine C) : Prop := ∃ s, ρ.kin m.state s ∧ m' = ρ.machine m s

/-- Turns that differ in the way in which the actions of their scripts are written. -/
structure Turns (t t' : Turn C.toSignature) : Prop where
  state : ρ.kin t.state t'.state
  notes : t'.notes = t.notes
  wakes : t'.wakes = t.wakes
  next : t'.next = ρ.next t.next

section Machines

variable (m : Machine C) (s : C.State)

theorem machine_ite {p q : Prop} [Decidable p] [Decidable q] (h : p ↔ q) {a b a' b' : Machine C}
    (ha : a = ρ.machine a' s) (hb : b = ρ.machine b' s) :
    (if p then a else b) = ρ.machine (if q then a' else b') s := by
  by_cases hp : p
  · rw [if_pos hp, if_pos (h.mp hp), ha]
  · rw [if_neg hp, if_neg (fun hq => hp (h.mpr hq)), hb]

@[simp] theorem machine_venues : (ρ.machine m s).venues = m.venues := rfl

@[simp] theorem machine_names : (ρ.machine m s).names = m.names := rfl

@[simp] theorem machine_defaultThread : (ρ.machine m s).defaultThread = m.defaultThread := rfl

@[simp] theorem machine_context? (id : String) : (ρ.machine m s).context? id = m.context? id := rfl

@[simp] theorem machine_venue? (id : String) (kind : VenueKind) :
    (ρ.machine m s).venue? id kind = m.venue? id kind := rfl

@[simp] theorem machine_view : (ρ.machine m s).view = m.view := rfl

theorem machine_reply (r : Reply C.Answer) : (ρ.machine m s).reply r = ρ.machine (m.reply r) s := rfl

theorem machine_wake (t : Task C) : (ρ.machine m s).wake t = ρ.machine (m.wake t) s := by
  unfold Machine.wake
  show (if t ∈ m.ready then _ else _) = _
  split <;> rfl

theorem machine_wakeAll (ts : List C.Task) : (ρ.machine m s).wakeAll ts = ρ.machine (m.wakeAll ts) s := by
  unfold Machine.wakeAll
  induction ts generalizing m with
  | nil => rfl
  | cons t ts ih =>
    rw [List.foldl_cons, List.foldl_cons, machine_wake]
    exact ih (m.wake (.own t))

theorem machine_site : (ρ.machine m s).site? = m.site? := by
  unfold Machine.site? machine
  dsimp only
  induction m.stack with
  | nil => rfl
  | cons f k ih =>
    rw [List.map_cons, List.findSome?_cons, List.findSome?_cons, ih]
    cases f <;> rfl

theorem machine_lane : (ρ.machine m s).lane = m.lane := by
  unfold Machine.lane
  rw [machine_site]
  rfl

theorem machine_isServing (v : Nat) : (ρ.machine m s).isServing v = m.isServing v := by
  unfold Machine.isServing machine
  dsimp only
  induction m.stack with
  | nil => rfl
  | cons f k ih =>
    rw [List.map_cons, List.any_cons, List.any_cons, ih]
    cases f <;> rfl

theorem machine_widen (v : Nat) : (ρ.machine m s).widen v = ρ.machine (m.widen v) s := by
  unfold Machine.widen machine
  dsimp only
  rw [List.map_map, List.map_map]
  congr 1
  apply List.map_congr_left
  rintro f -
  cases f <;> rfl

theorem machine_drain (v : Nat) (left : Option Nat) (ran : Nat) :
    (ρ.machine m s).drain v left ran = ρ.machine (m.drain v left ran) s := by
  unfold Machine.drain Machine.next?
  show (if left = some 0 then _ else _) = _
  split
  · rfl
  · cases hv : m.venues[v]? with
    | none => simp only [machine, hv]; rfl
    | some q => cases hw : q.waiting <;> simp only [machine, hv, hw] <;> rfl

theorem machine_serve (v : Nat) (left : Option Nat) (after : Reply C.Answer) :
    (ρ.machine m s).serve v left after = ρ.machine (m.serve v left after) s := by
  unfold Machine.serve Machine.next?
  show (if left = some 0 then _ else _) = _
  split
  · rfl
  · cases hv : m.venues[v]? with
    | none => simp only [machine, hv]; rfl
    | some q => cases hw : q.waiting <;> simp only [machine, hv, hw] <;> rfl

theorem machine_make (id : String) (kind : ContextKind) :
    (ρ.machine m s).make id kind = ρ.machine (m.make id kind) s := by
  cases kind with
  | direct | pool | concurrent | manual | thread => rfl
  | serial label =>
    unfold Machine.make
    dsimp only
    rw [← machine_reply, ← machine_wake]
    rfl
  | defaultThread =>
    cases hd : m.defaultThread with
    | none =>
      simp only [Machine.make, machine_defaultThread, hd]
      rfl
    | some v =>
      simp only [Machine.make, machine_defaultThread, hd]
      rfl
  | copy of =>
    cases hc : m.context? of with
    | none =>
      simp only [Machine.make, machine_context?, hc]
      rfl
    | some c =>
      simp only [Machine.make, machine_context?, hc]
      exact ρ.machine_ite s .rfl rfl rfl

theorem machine_forget (id : String) : (ρ.machine m s).forget id = ρ.machine (m.forget id) s := by
  cases hv : m.venue? id .thread with
  | none =>
    simp only [Machine.forget, machine_venue?, hv]
    rfl
  | some v =>
    let n : Machine C := { m with names := m.names.filter (·.1 ≠ id) }
    simp only [Machine.forget, machine_venue?, hv]
    refine ρ.machine_ite s .rfl rfl (ρ.machine_ite s ?_ ?_ ?_)
    · show (ρ.machine n s).isServing v = _ ↔ _
      rw [machine_isServing]
    · exact congrArg (·.reply .done) (ρ.machine_widen n s v)
    · exact ρ.machine_serve n s v none .done

theorem machine_stop (v : Nat) : (ρ.machine m s).stop v = ρ.machine (m.stop v) s := by
  unfold Machine.stop
  rw [machine_site, machine_isServing]
  refine ρ.machine_ite s .rfl ?_ (ρ.machine_ite s .rfl ?_ (ρ.machine_serve (m.close v) s v none _))
  · split <;> rfl
  · have hwake := ρ.machine_wake (m.close v) s (.serve v)
    split
    · exact congrArg (·.reply .selfStopped) hwake
    · exact congrArg (·.reply .stopped) hwake

theorem machine_runContext (o : ContextOp) :
    (ρ.machine m s).runContext o = ρ.machine (m.runContext o) s := by
  cases o with
  | make id kind => exact ρ.machine_make m s id kind
  | drain id limit =>
    simp only [Machine.runContext, machine_venue?]
    split
    · rfl
    · apply machine_drain
  | flush id =>
    simp only [Machine.runContext, machine_venue?, machine_venues, machine_isServing]
    split
    · rfl
    · split
      · rfl
      · split
        · rfl
        · split
          · rfl
          · apply machine_serve
  | stop id =>
    simp only [Machine.runContext, machine_venue?]
    split
    · rfl
    · exact ρ.machine_stop m s _
  | forget id => exact ρ.machine_forget m s id
  | discipline id =>
    simp only [Machine.runContext, machine_context?]
    split <;> rfl
  | same a b =>
    simp only [Machine.runContext, machine_context?]
    split <;> rfl
  | inspect id =>
    simp only [Machine.runContext, machine_context?, machine_venues, machine_site, machine_view]
    split
    · rfl
    · split
      · split <;> rfl
      · rfl

end Machines

section Twins

variable {ρ} {m m' m₁ : Machine C} {t t' : Turn C.toSignature}

theorem Twin.state (h : ρ.Twin m m') : ρ.kin m.state m'.state := by
  obtain ⟨s, hs, rfl⟩ := h
  exact hs

theorem Twin.goOn (h : ρ.Twin m m') (c : Control C) :
    ρ.Twin { m with control := c } { m' with control := ρ.control c } := by
  obtain ⟨s, hs, rfl⟩ := h
  exact ⟨s, hs, rfl⟩

theorem Twin.wakeAll (h : ρ.Twin m m') (ts : List C.Task) :
    ρ.Twin (m.wakeAll ts) (m'.wakeAll ts) := by
  obtain ⟨s, hs, rfl⟩ := h
  obtain ⟨ready, he, -⟩ := Machine.wakeAll_eq m ts
  refine ⟨s, ?_, ρ.machine_wakeAll m s ts⟩
  rw [he]
  exact hs

theorem Twin.pushOwn (h : ρ.Twin m m') (k : List C.Frame) :
    ρ.Twin (m.pushOwn k) (m'.pushOwn k) := by
  obtain ⟨s, hs, rfl⟩ := h
  refine ⟨s, hs, ?_⟩
  have hk : (k.map Frame.own).map ρ.frame = k.map Frame.own := by
    rw [List.map_map]
    rfl
  simp only [Machine.pushOwn, machine, List.map_append, hk]

/-- What the component takes no part in leaves its state alone. -/
theorem twin_of_still {s : C.State} {n : Machine C} (hs : ρ.kin m.state s)
    (h : m.bare.Step none n.config) : ρ.Twin n (ρ.machine n s) := by
  refine ⟨s, ?_, rfl⟩
  rw [← Machine.config_state n]
  generalize n.config = c at h
  cases h with
  | still hf | opened _ hf =>
    rw [hf.state_eq]
    exact hs
  | begin => exact hs

theorem Twin.runContext (h : ρ.Twin m m') (o : ContextOp) :
    ρ.Twin (m.runContext o) (m'.runContext o) := by
  obtain ⟨s, hs, rfl⟩ := h
  rw [machine_runContext]
  exact twin_of_still hs (m.runContext_step o)

theorem Twin.drain (h : ρ.Twin m m') (v : Nat) (left : Option Nat) (ran : Nat) :
    ρ.Twin (m.drain v left ran) (m'.drain v left ran) := by
  obtain ⟨s, hs, rfl⟩ := h
  rw [machine_drain]
  exact twin_of_still hs (m.drain_step v left ran)

theorem Twin.serve (h : ρ.Twin m m') (v : Nat) (left : Option Nat) (after : Reply C.Answer) :
    ρ.Twin (m.serve v left after) (m'.serve v left after) := by
  obtain ⟨s, hs, rfl⟩ := h
  rw [machine_serve]
  exact twin_of_still hs (m.serve_step v left after)

theorem Twin.record (h : ρ.Twin m m') (e : Entry C) : ρ.Twin (m.record e) (m'.record e) := by
  obtain ⟨s, hs, rfl⟩ := h
  exact ⟨s, hs, rfl⟩

theorem Twin.runScript (h : ρ.Twin m m') (tag : C.Tag) (ops : List (Op C.Action)) (throws : Bool) :
    ρ.Twin (m.runScript tag ops throws) (m'.runScript tag (ops.map ρ.op) throws) := by
  obtain ⟨s, hs, rfl⟩ := h
  cases ops with
  | nil => cases throws <;> exact ⟨s, hs, rfl⟩
  | cons op rest => exact ⟨s, hs, rfl⟩

variable (hunwind : ∀ s s' f, ρ.kin s s' → ρ.kin (C.unwind s f).1 (C.unwind s' f).1 ∧
  (C.unwind s' f).2 = (C.unwind s f).2)
include hunwind

theorem Twin.discard (h : ρ.Twin m m') (f : C.Frame) : ρ.Twin (m.discard f) (m'.discard f) := by
  obtain ⟨s, hs, rfl⟩ := h
  obtain ⟨hs', hwakes⟩ := hunwind _ _ f hs
  have h : ρ.Twin { m with state := (C.unwind m.state f).1 }
      { ρ.machine m s with state := (C.unwind s f).1 } := ⟨_, hs', rfl⟩
  show ρ.Twin (Machine.wakeAll _ _) (Machine.wakeAll _ (C.unwind s f).2)
  rw [hwakes]
  exact h.wakeAll _

theorem Twin.enqueue (h : ρ.Twin m m') (v : Nat) (w : C.Frame) :
    ρ.Twin (m.enqueue v w) (m'.enqueue v w) := by
  have hvenues : m'.venues = m.venues := by
    obtain ⟨s, -, rfl⟩ := h
    rfl
  unfold Machine.enqueue
  rw [hvenues]
  cases m.venues[v]? with
  | none => exact h
  | some q =>
    dsimp only
    split
    · exact h.discard hunwind w
    · obtain ⟨s, hs, rfl⟩ := h
      split
      · have h : ρ.Twin (Machine.record { m with venues := m.venues.set v (q.push w) } (.queued v w))
            (Machine.record { ρ.machine m s with venues := m.venues.set v (q.push w) } (.queued v w)) :=
          ⟨s, hs, rfl⟩
        obtain ⟨s', hs', he⟩ := h
        rw [he, machine_wake]
        refine ⟨s', ?_, rfl⟩
        unfold Machine.wake
        split <;> exact hs'
      · exact ⟨s, hs, rfl⟩

theorem Twin.handOver (h : ρ.Twin m m') (c : Context) (w : C.Frame) :
    ρ.Twin (m.handOver c w) (m'.handOver c w) := by
  unfold Machine.handOver
  split
  · obtain ⟨s, hs, rfl⟩ := h
    exact ⟨s, hs, rfl⟩
  · obtain ⟨s, hs, rfl⟩ := h
    exact ⟨s, hs, rfl⟩
  · exact (h.enqueue hunwind _ w).goOn (.back .done)

/-- Machines take over turns that agree alike. -/
theorem Twin.take (h : ρ.Twin m m') (ht : ρ.Turns t t') : ρ.Twin (m.take t) (m'.take t') := by
  obtain ⟨s, -, rfl⟩ := h
  obtain ⟨s', notes, wakes, next⟩ := t'
  obtain ⟨hs, hnotes, hwakes, hnext⟩ := ht
  dsimp only at hs hnotes hwakes hnext
  subst hnotes hwakes hnext
  have h : ρ.Twin { m with
        state := t.state
        journal := (t.notes.map fun n => Entry.note m.lane n).reverse ++ m.journal }
      { ρ.machine m s with
        state := s'
        journal := (t.notes.map fun n => Entry.note (ρ.machine m s).lane n).reverse ++ m.journal } := by
    rw [machine_lane]
    exact ⟨s', hs, rfl⟩
  have h := h.wakeAll t.wakes
  unfold Machine.take
  dsimp only
  cases t.next with
  | reply r => exact h.goOn (.back r)
  | throw => exact h.goOn .thrown
  | enter k => exact (h.pushOwn k).goOn (.back .done)
  | script tag ops throws k => exact (h.pushOwn k).runScript tag ops throws
  | perform c w k => exact (h.pushOwn k).handOver hunwind c w

end Twins

end Recast

end Conduit.Dispatch
