import Mathlib.Logic.IsEmpty.Basic
import Conduit.Proofs.Dispatch.Run

/-!
Configurations: a machine as its component sees it, and the steps between them. Which operation runs
next and which venue moves is left open; what a step does to the frames and tasks of the component
is not. `RunBy.config_induction` carries an invariant of configurations along every run.
-/

namespace Conduit.Dispatch

variable {C : Component}

/-- The frames of the component among those of a stack. -/
def owned (stack : List (Frame C)) : List C.Frame :=
  stack.filterMap fun
    | .own f => some f
    | _ => none

/-- The tasks of the component among those that have been woken. -/
def ownTasks (ready : List (Task C)) : List C.Task :=
  ready.filterMap fun
    | .own t => some t
    | .serve _ => none

/-- Tasks are woken in order; one that is awake stays where it is. -/
def woken {T : Type} [DecidableEq T] (ready ts : List T) : List T :=
  ts.foldl (fun r t => if t ∈ r then r else r ++ [t]) ready

section Woken

variable {T U : Type} [DecidableEq T] [DecidableEq U]

theorem woken_append (ready ts ts' : List T) :
    woken ready (ts ++ ts') = woken (woken ready ts) ts' :=
  List.foldl_append

theorem woken_cons (ready : List T) (t : T) (ts : List T) :
    woken ready (t :: ts) = woken (if t ∈ ready then ready else ready ++ [t]) ts :=
  rfl

theorem mem_woken {ready ts : List T} {t : T} : t ∈ woken ready ts ↔ t ∈ ready ∨ t ∈ ts := by
  induction ts generalizing ready with
  | nil => simp [woken]
  | cons u ts ih =>
    rw [woken_cons, ih]
    split <;> grind

/-- Tasks that tell apart what matters are woken in step with it. -/
theorem woken_filterMap (g : T → Option U) (hg : ∀ a b u, g a = some u → g b = some u → a = b)
    (ready ts : List T) :
    (woken ready ts).filterMap g = woken (ready.filterMap g) (ts.filterMap g) := by
  induction ts generalizing ready with
  | nil => rfl
  | cons t ts ih =>
    rw [woken_cons, ih]
    cases ht : g t with
    | none => split <;> simp [ht]
    | some u =>
      have hm : t ∈ ready ↔ u ∈ ready.filterMap g := by
        rw [List.mem_filterMap]
        constructor
        · intro h
          exact ⟨t, h, ht⟩
        · rintro ⟨a, ha, hu⟩
          exact hg a t u hu ht ▸ ha
      rw [List.filterMap_cons_some ht, woken_cons]
      by_cases h : t ∈ ready
      · rw [if_pos h, if_pos (hm.mp h)]
      · rw [if_neg h, if_neg fun hu => h (hm.mpr hu)]
        simp [ht]

end Woken

/-- What a component sees of a machine. -/
structure Config (C : Component) where
  state : C.State
  /-- The frame with which the machine goes on now. -/
  next : Option C.Frame := none
  /-- The frames below, the uppermost first. -/
  stack : List C.Frame := []
  /-- The lines of the venues. -/
  waiting : List (List C.Frame) := []
  /-- The tasks that have been woken. -/
  ready : List C.Task := []

namespace Config

variable (c : Config C)

/-- A frame is dropped without being run. -/
def discard (f : C.Frame) : Config C :=
  { c with
    state := (C.unwind c.state f).1
    ready := woken c.ready (C.unwind c.state f).2 }

/-- Work joins a line. -/
def push (v : Nat) (w : C.Frame) : Config C :=
  { c with waiting := c.waiting.modify v (· ++ [w]) }

/-- A turn is over and leaves the frames `k`. -/
def after (t : Turn C.toSignature) (k : List C.Frame) : Config C :=
  { c with state := t.state, stack := k ++ c.stack, ready := woken c.ready t.wakes }

/-- The machine turns to the uppermost frame, unless something else is above it. -/
inductive Faces : Config C → Config C → Prop where
  | stay (c : Config C) : Faces c c
  | face (c : Config C) {f k} (hn : c.next = none) (hk : c.stack = f :: k) :
      Faces c { c with next := some f, stack := k }

/-- What becomes of a configuration when the machine takes over a turn. -/
inductive Takes (t : Turn C.toSignature) : Config C → Prop where
  | reply {r c'} (h : t.next = .reply r) (hf : Faces (c.after t []) c') : Takes t c'
  | throw (h : t.next = .throw) : Takes t (c.after t [])
  | enterNil {c'} (h : t.next = .enter []) (hf : Faces (c.after t []) c') : Takes t c'
  | enter {f k} (h : t.next = .enter (f :: k)) : Takes t { c.after t k with next := some f }
  | script {tag ops throws k c'} (h : t.next = .script tag ops throws k)
      (hf : Faces (c.after t k) c') : Takes t c'
  | inline {d w k} (h : t.next = .perform d w k) (hd : d.place = .direct ∨ d.place = .pool) :
      Takes t { c.after t k with next := some w }
  | queued {d w k v c'} (h : t.next = .perform d w k) (hd : d.place = .venue v)
      (hv : v < c.waiting.length) (hf : Faces ((c.after t k).push v w) c') : Takes t c'
  | dropped {d w k v c'} (h : t.next = .perform d w k) (hd : d.place = .venue v)
      (hf : Faces ((c.after t k).discard w) c') : Takes t c'
  | lost {d w k v c'} (h : t.next = .perform d w k) (hd : d.place = .venue v)
      (hf : Faces (c.after t k) c') : Takes t c'

/-- What a move of the machine can do to a configuration, and why the component takes part in it. -/
inductive Step : Option (Cause C) → Config C → Prop where
  | still {c'} (hf : Faces c c') : Step none c'
  | exec {view a c'} (hn : c.next = none) (ht : c.Takes (C.exec view c.state a) c') :
      Step (some (.exec view a)) c'
  | resume {f c'} (hn : c.next = some f)
      (ht : { c with next := none }.Takes (C.resume c.state f) c') : Step (some (.resume f)) c'
  | unwind {f k c'} (hn : c.next = none) (hk : c.stack = f :: k)
      (hf : { c with stack := k }.discard f = c') : Step (some (.unwind f)) c'
  | poll {t ts c'} (hn : c.next = none) (hk : c.stack = []) (hr : c.ready = t :: ts)
      (ht : { c with ready := ts }.Takes (C.poll c.state t) c') : Step (some (.poll t)) c'
  | tick (hn : c.next = none) :
      Step (some .tick) { c with
        state := (C.tick c.state).1
        ready := woken c.ready (C.tick c.state).2 }
  | begin {v w rest} (hn : c.next = none) (hv : c.waiting[v]? = some (w :: rest)) :
      Step none { c with next := some w, waiting := c.waiting.set v rest }
  | opened {c'} (hn : c.next = none) (hf : Faces { c with waiting := c.waiting ++ [[]] } c') :
      Step none c'

end Config

@[simp] theorem owned_nil : owned ([] : List (Frame C)) = [] := rfl

@[simp] theorem owned_own (f : C.Frame) (k : List (Frame C)) :
    owned (.own f :: k) = f :: owned k := rfl

@[simp] theorem owned_map_own (k : List C.Frame) (s : List (Frame C)) :
    owned (k.map .own ++ s) = k ++ owned s := by
  induction k with
  | nil => rfl
  | cons f k ih => simp [ih]

@[simp] theorem ownTasks_append_own (r : List (Task C)) (t : C.Task) :
    ownTasks (r ++ [.own t]) = ownTasks r ++ [t] := by
  simp [ownTasks]

@[simp] theorem ownTasks_append_serve (r : List (Task C)) (v : Nat) :
    ownTasks (r ++ [.serve v]) = ownTasks r := by
  simp [ownTasks]

@[simp] theorem mem_ownTasks {r : List (Task C)} {t : C.Task} :
    t ∈ ownTasks r ↔ .own t ∈ r := by
  simp only [ownTasks, List.mem_filterMap]
  constructor
  · rintro ⟨u, hu, h⟩
    cases u <;> simp_all
  · intro h
    exact ⟨_, h, rfl⟩

namespace Machine

/-- A machine with nothing to go on with. -/
def bare (m : Machine C) : Config C where
  state := m.state
  stack := owned m.stack
  waiting := m.venues.map (·.waiting)
  ready := ownTasks m.ready

/-- What the component sees of a machine. -/
def config (m : Machine C) : Config C :=
  match m.control, m.stack with
  | .back _, .own f :: rest => { m.bare with next := some f, stack := owned rest }
  | _, _ => m.bare

theorem bare_faces (m : Machine C) : m.bare.Faces m.config := by
  unfold config
  split
  · rename_i f rest _ hs
    exact .face _ rfl (by simp [bare, hs])
  · exact .stay _

theorem config_run {m : Machine C} {op : Op C.Action} (h : m.control = .run op) :
    m.config = m.bare := by
  simp [config, h]

theorem config_thrown {m : Machine C} (h : m.control = .thrown) : m.config = m.bare := by
  simp [config, h]

theorem config_nil {m : Machine C} (h : m.stack = []) : m.config = m.bare := by
  simp [config, h]

theorem wakeAll_eq (m : Machine C) (ts : List C.Task) :
    ∃ ready, m.wakeAll ts = { m with ready } ∧ ownTasks ready = woken (ownTasks m.ready) ts := by
  induction ts generalizing m with
  | nil => exact ⟨m.ready, rfl, rfl⟩
  | cons t ts ih =>
    obtain ⟨ready, he, hr⟩ := ih (m.wake (.own t))
    refine ⟨ready, ?_, ?_⟩
    · rw [show m.wakeAll (t :: ts) = (m.wake (.own t)).wakeAll ts from rfl, he]
      unfold wake
      split <;> rfl
    · rw [hr]
      simp only [woken, List.foldl_cons, mem_ownTasks]
      unfold wake
      split <;> simp

/-- What waking tasks does to a machine. -/
theorem wakeAll_woken (m : Machine C) (ts : List C.Task) :
    m.wakeAll ts = { m with ready := woken m.ready (ts.map .own) } := by
  induction ts generalizing m with
  | nil => rfl
  | cons t ts ih =>
    rw [show m.wakeAll (t :: ts) = (m.wake (.own t)).wakeAll ts from rfl, ih, List.map_cons, woken_cons]
    unfold wake
    split <;> rfl

theorem bare_discard (m : Machine C) (f : C.Frame) : (m.discard f).bare = m.bare.discard f := by
  obtain ⟨ready, he, hr⟩ := wakeAll_eq { m with state := (C.unwind m.state f).1 } (C.unwind m.state f).2
  rw [show m.discard f = wakeAll { m with state := (C.unwind m.state f).1 } (C.unwind m.state f).2
    from rfl, he]
  simp [bare, Config.discard, hr]

@[simp] theorem bare_wake_serve (m : Machine C) (v : Nat) : (m.wake (.serve v)).bare = m.bare := by
  unfold wake
  split <;> simp [bare]

theorem faces_of_bare {m : Machine C} {c : Config C} (h : m.bare = c) : c.Faces m.config :=
  h ▸ m.bare_faces

/-- Waking tasks that are awake changes nothing. -/
theorem wakeAll_of_mem {m : Machine C} {ts : List C.Task} (h : ∀ t ∈ ts, .own t ∈ m.ready) :
    m.wakeAll ts = m := by
  induction ts with
  | nil => rfl
  | cons t ts ih =>
    have ht : m.wake (.own t) = m := by
      unfold wake
      exact if_pos (h t List.mem_cons_self)
    rw [show m.wakeAll (t :: ts) = (m.wake (.own t)).wakeAll ts from rfl, ht]
    exact ih fun u hu => h u (List.mem_cons_of_mem t hu)

theorem bare_enqueue (m : Machine C) (v : Nat) (w : C.Frame) :
    (m.enqueue v w).bare = m.bare ∨ (m.enqueue v w).bare = m.bare.discard w ∨
      v < m.bare.waiting.length ∧ (m.enqueue v w).bare = m.bare.push v w := by
  unfold enqueue
  split
  · exact .inl rfl
  · rename_i q hq
    obtain ⟨hv, rfl⟩ := List.getElem?_eq_some_iff.mp hq
    split
    · exact .inr (.inl (m.bare_discard w))
    · rename_i ha
      have hw : (m.venues.set v (m.venues[v].push w)).map (·.waiting) =
          (m.venues.map (·.waiting)).modify v (· ++ [w]) := by
        rw [List.modify_eq_set, List.map_set]
        simp_all [Venue.push]
      have hb : (record { m with venues := m.venues.set v (m.venues[v].push w) }
          (.queued v w)).bare = m.bare.push v w := by
        simp [bare, Config.push, record, hw]
      refine .inr (.inr ⟨by simpa [bare] using hv, ?_⟩)
      dsimp only
      split
      · rw [bare_wake_serve, hb]
      · exact hb

/-- The machine that has taken over what a turn leaves behind, but does not go on yet. -/
theorem take_eq (m : Machine C) (t : Turn C.toSignature) :
    ∃ m' : Machine C, (∀ k, (m'.pushOwn k).bare = m.bare.after t k) ∧
      m.take t = match t.next with
        | .reply r => m'.reply r
        | .throw => { m' with control := .thrown }
        | .enter k => (m'.pushOwn k).reply .done
        | .script tag ops throws k => (m'.pushOwn k).runScript tag ops throws
        | .perform c work k => (m'.pushOwn k).handOver c work := by
  obtain ⟨ready, he, hr⟩ := wakeAll_eq { m with
    state := t.state
    journal := (t.notes.map fun n => Entry.note m.lane n).reverse ++ m.journal } t.wakes
  refine ⟨_, fun k => ?_, rfl⟩
  rw [he]
  simp [bare, pushOwn, Config.after, hr]

theorem take_config (m : Machine C) (t : Turn C.toSignature) :
    m.bare.Takes t (m.take t).config := by
  obtain ⟨m', hb, ht⟩ := m.take_eq t
  rw [ht]
  cases hn : t.next with
  | reply r => exact .reply hn (faces_of_bare (hb []))
  | throw =>
    rw [config_thrown rfl]
    exact (hb []) ▸ .throw hn
  | enter k =>
    cases k with
    | nil => exact .enterNil hn (faces_of_bare (hb []))
    | cons f k =>
      have := Config.Takes.enter (c := m.bare) hn
      rw [← hb k] at this
      exact this
  | script tag ops throws k =>
    refine .script hn (faces_of_bare ?_)
    rw [← hb k]
    cases ops <;> rfl
  | perform d w k =>
    cases hd : d.place with
    | direct =>
      have := Config.Takes.inline (c := m.bare) hn (.inl hd)
      rw [← hb k] at this
      simp only [handOver, hd]
      exact this
    | pool =>
      have := Config.Takes.inline (c := m.bare) hn (.inr hd)
      rw [← hb k] at this
      simp only [handOver, hd]
      exact this
    | venue v =>
      simp only [handOver, hd]
      rcases bare_enqueue (m'.pushOwn k) v w with h | h | ⟨hv, h⟩
      · exact .lost hn hd (faces_of_bare (h.trans (hb k)))
      · exact .dropped hn hd (faces_of_bare (h.trans (congrArg (·.discard w) (hb k))))
      · rw [hb k] at hv h
        exact .queued hn hd hv (faces_of_bare h)

/-- Work that leaves a line is what the machine goes on with. -/
theorem next?_begin {m m' : Machine C} {v : Nat} {w : C.Frame} (h : m.next? v = some (w, m'))
    {s : List (Frame C)} (hs : owned s = owned m'.stack) :
    m.bare.Step none { m' with stack := .own w :: s, control := .back .done }.config := by
  unfold next? at h
  split at h
  · cases h
  · rename_i q hq
    split at h
    · cases h
    · rename_i work rest hw
      cases h
      have hv : m.bare.waiting[v]? = some (w :: rest) := by simp [bare, hq, hw]
      have := Config.Step.begin (c := m.bare) rfl hv
      simpa [config, bare, List.map_set, hs] using this

theorem drain_step (m : Machine C) (v : Nat) (left : Option Nat) (ran : Nat) :
    m.bare.Step none (m.drain v left ran).config := by
  unfold drain
  split
  · exact .still (faces_of_bare rfl)
  · split
    · exact .still (faces_of_bare rfl)
    · rename_i w m' h
      exact next?_begin h (s := _ :: m'.stack) rfl

theorem serve_step (m : Machine C) (v : Nat) (left : Option Nat) (after : Reply C.Answer) :
    m.bare.Step none (m.serve v left after).config := by
  unfold serve
  split
  · exact .still (faces_of_bare rfl)
  · split
    · exact .still (faces_of_bare rfl)
    · rename_i w m' h
      exact next?_begin h (s := _ :: _ :: m'.stack) rfl

theorem make_step (m : Machine C) (id : String) (kind : ContextKind) :
    m.bare.Step none (m.make id kind).config := by
  have ho (n : String) (k : VenueKind) :
      (m.openVenue id k n).bare = { m.bare with waiting := m.bare.waiting ++ [[]] } := by
    simp [bare, openVenue, bind]
  cases kind with
  | direct => exact .still (faces_of_bare rfl)
  | pool => exact .still (faces_of_bare rfl)
  | concurrent => exact .opened rfl (faces_of_bare (ho id .pool))
  | manual => exact .opened rfl (faces_of_bare (ho id .manual))
  | serial label =>
    refine .opened rfl (faces_of_bare (m := reply _ .done) ?_)
    exact (bare_wake_serve _ _).trans (ho label .serial)
  | thread name => exact .opened rfl (faces_of_bare (ho name .thread))
  | defaultThread =>
    cases hd : m.defaultThread with
    | none =>
      simp only [make, hd]
      exact .opened rfl (faces_of_bare (ho _ .thread))
    | some v =>
      simp only [make, hd]
      exact .still (faces_of_bare rfl)
  | copy of =>
    cases hc : m.context? of with
    | none =>
      simp only [make, hc]
      exact .still (faces_of_bare rfl)
    | some c =>
      simp only [make, hc]
      split <;> split <;> exact .still (faces_of_bare rfl)

@[simp] theorem bare_close (m : Machine C) (v : Nat) : (m.close v).bare = m.bare := by
  have h : (m.venues.modify v fun q => { q with accepting := false, handle := false }).map
      (·.waiting) =
      m.venues.map (·.waiting) := by
    apply List.ext_getElem?
    intro i
    simp only [List.getElem?_map, List.getElem?_modify]
    cases m.venues[i]? <;> simp
    split <;> rfl
  simp [bare, close, h]

@[simp] theorem bare_widen (m : Machine C) (v : Nat) : (m.widen v).bare = m.bare := by
  have h : owned (m.widen v).stack = owned m.stack := by
    unfold widen
    dsimp only
    induction m.stack with
    | nil => rfl
    | cons f s ih => cases f <;> simpa [owned] using ih
  exact congrArg (fun s => { m.bare with stack := s }) h

theorem forget_step (m : Machine C) (id : String) :
    m.bare.Step none (m.forget id).config := by
  cases hv : m.venue? id .thread with
  | none =>
    simp only [forget, hv]
    exact .still (faces_of_bare rfl)
  | some v =>
    simp only [forget, hv]
    split
    · exact .still (faces_of_bare rfl)
    · split
      · exact .still (faces_of_bare (m := reply _ .done) (bare_widen { m with
          names := m.names.filter (·.1 ≠ id) } v))
      · exact serve_step { m with names := m.names.filter (·.1 ≠ id) } v none .done

theorem stop_step (m : Machine C) (v : Nat) : m.bare.Step none (m.stop v).config := by
  unfold stop
  dsimp only
  split
  · exact .still (faces_of_bare (m := reply _ _) (bare_close m v))
  split
  · exact .still (faces_of_bare (m := reply _ _)
      ((bare_wake_serve (m.close v) v).trans (bare_close m v)))
  · rw [← bare_close m v]
    exact (m.close v).serve_step ..

theorem runContext_step (m : Machine C) (o : ContextOp) :
    m.bare.Step none (m.runContext o).config := by
  have still (m' : Machine C) (h : m'.bare = m.bare) : m.bare.Step none m'.config :=
    .still (faces_of_bare h)
  cases o with
  | make id kind => exact m.make_step id kind
  | drain id limit =>
    simp only [runContext]
    split
    · exact still _ rfl
    · exact m.drain_step ..
  | flush id =>
    simp only [runContext]
    split
    · exact still _ rfl
    · split
      · exact still _ rfl
      · split
        · exact still _ rfl
        · split
          · exact still _ rfl
          · exact m.serve_step ..
  | stop id =>
    simp only [runContext]
    split
    · exact still _ rfl
    · exact m.stop_step _
  | forget id => exact m.forget_step id
  | discipline id =>
    simp only [runContext]
    split <;> exact still _ rfl
  | same a b =>
    simp only [runContext]
    split <;> exact still _ rfl
  | inspect id =>
    simp only [runContext]
    split
    · exact still _ rfl
    · split
      · split <;> exact still _ rfl
      · exact still _ rfl

theorem returnTo_step (m : Machine C) (r : Reply C.Answer) (f : Frame C)
    (hf : ∀ g, f ≠ .own g) : m.bare.Step none (m.returnTo r f).config := by
  cases f with
  | own g => exact absurd rfl (hf g)
  | script tag rest throws =>
    cases rest <;> exact .still (faces_of_bare rfl)
  | turn site => exact .still (faces_of_bare rfl)
  | task => exact .still (faces_of_bare rfl)
  | drain v left ran => exact m.drain_step v left ran
  | serve v left after => exact m.serve_step v left after

theorem config_own {m : Machine C} {r : Reply C.Answer} {f : C.Frame} {rest : List (Frame C)}
    (hc : m.control = .back r) (hs : m.stack = .own f :: rest) :
    m.config = { m.bare with next := some f, stack := owned rest } := by
  simp [config, hc, hs]

theorem config_other {m : Machine C} {f : Frame C} {rest : List (Frame C)}
    (hs : m.stack = f :: rest) (hf : ∀ g, f ≠ .own g) :
    m.config = m.bare ∧ m.bare = { m with stack := rest }.bare := by
  constructor
  · unfold config
    split
    · rename_i g _ _ hs'
      exact absurd (List.cons.inj (hs.symm.trans hs')).1 (hf g)
    · rfl
  · have h : owned m.stack = owned rest := by
      rw [hs]
      cases f with
      | own g => exact absurd rfl (hf g)
      | _ => rfl
    simp [bare, h]

/-- A frame is gone on with when it is the uppermost. -/
theorem config_of_resume {m : Machine C} {f : C.Frame} (h : m.cause? = some (.resume f)) :
    m.config.next = some f ∧ ∃ m', m.step? = some m' := by
  unfold cause? at h
  split at h
  · cases h
  · rename_i hc hs
    cases h
    rw [config_own hc hs]
    exact ⟨rfl, _, step?_back hc hs⟩
  all_goals cases h

/-- A step of what is running is a step of the configuration. -/
theorem step?_config {m m' : Machine C} (h : m.step? = some m') :
    m.config.Step m.cause? m'.config := by
  unfold step? at h
  split at h
  · rename_i a hc
    cases h
    rw [cause?_own hc, config_run hc]
    exact .exec rfl (take_config m _)
  · rename_i o hc
    cases h
    rw [cause?_context hc, config_run hc]
    exact runContext_step m o
  · rename_i r hc
    split at h
    · cases h
    · rename_i f rest hs
      cases h
      by_cases hf : ∃ g, f = .own g
      · obtain ⟨g, rfl⟩ := hf
        rw [cause?_back hc hs, config_own hc hs]
        exact .resume rfl (take_config { m with stack := rest } _)
      · have hf' : ∀ g, f ≠ .own g := fun g hg => hf ⟨g, hg⟩
        have hq : m.cause? = none := by
          rw [cause?_back hc hs]
          cases f with
          | own g => exact absurd rfl (hf' g)
          | _ => rfl
        rw [hq, (config_other hs hf').1, (config_other hs hf').2]
        exact returnTo_step { m with stack := rest } r f hf'
  · rename_i hc
    split at h
    · cases h
    · rename_i f rest hs
      cases h
      rw [config_thrown hc]
      by_cases hf : ∃ g, f = .own g
      · obtain ⟨g, rfl⟩ := hf
        have hm : (discard { m with stack := rest } g).control = .thrown := by
          obtain ⟨ready, he, -⟩ := wakeAll_eq
            { m with stack := rest, state := (C.unwind m.state g).1 } (C.unwind m.state g).2
          exact (congrArg Machine.control he).trans hc
        rw [cause?_thrown hc hs]
        refine .unwind (f := g) (k := owned rest) rfl (by simp [bare, hs]) ?_
        exact (bare_discard { m with stack := rest } g).symm.trans (config_thrown hm).symm
      · have hf' : ∀ g, f ≠ .own g := fun g hg => hf ⟨g, hg⟩
        rw [cause?_thrown hc hs, (config_other hs hf').2]
        cases f with
        | own g => exact absurd rfl (hf' g)
        | _ => exact .still (faces_of_bare rfl)

/-- A machine at rest has nothing left to serve. -/
theorem ready_of_advance? {m : Machine C} (h : m.advance? = none) : m.ready = [] := by
  unfold advance? at h
  split at h
  · cases h
  · unfold poll? at h
    split at h
    · assumption
    · split at h <;> cases h

/-- A machine with nothing left to do has no frame of the component and no task of it. -/
theorem config_of_settled {m : Machine C} (h : m.advance? = none) :
    m.config.next = none ∧ m.config.stack = [] ∧ m.config.ready = [] := by
  have hstep : m.step? = none := by
    unfold advance? at h
    split at h
    · cases h
    · assumption
  have hs := stack_of_step? hstep
  rw [config_nil hs]
  simp [bare, hs, ready_of_advance? h, ownTasks]

/-- A turn of the reactor is a step of the configuration. -/
theorem poll?_config {m m' : Machine C} (hm : m.step? = none) (h : m.poll? = some m') :
    m.config.Step m.cause? m'.config := by
  have hs := stack_of_step? hm
  rw [config_nil hs]
  unfold poll? at h
  split at h
  · cases h
  · rename_i t rest hr
    cases t with
    | serve v =>
      cases h
      have hb : m.bare = bare { m with ready := rest, stack := [.task], control := .back .done } := by
        simp [bare, hr, hs, ownTasks, owned]
      rw [cause?_stopped hm hr, hb]
      exact serve_step ..
    | own t =>
      cases h
      rw [cause?_stopped hm hr]
      have hown : m.bare.ready = t :: ownTasks rest := by simp [bare, hr, ownTasks]
      refine .poll rfl (by simp [bare, hs]) hown ?_
      have := take_config { m with ready := rest, stack := [.task], control := .back .done }
        (C.poll m.state t)
      simpa [bare, hs, owned] using this

/-- Whoever takes up a line by himself does not involve the component yet. -/
theorem proceed_config {m : Machine C} (hm : m.step? = none) (v n : Nat) :
    m.config.Step none (m.proceed v n).config := by
  have hs := stack_of_step? hm
  have hb : m.bare = bare { m with stack := [], control := .back .done } := by simp [bare, hs]
  rw [config_nil hs, hb]
  exact serve_step ..

theorem advance?_config {m m' : Machine C} (h : m.advance? = some m') :
    m.config.Step m.cause? m'.config := by
  unfold advance? at h
  split at h
  · rename_i m'' hm
    cases h
    exact step?_config hm
  · rename_i hm
    exact poll?_config hm h

end Machine

/-- What the component makes of its state at a moment. -/
def Moment.after (q : Moment C) : C.State :=
  match q.cause with
  | .exec view a => (C.exec view q.state a).state
  | .resume f => (C.resume q.state f).state
  | .unwind f => (C.unwind q.state f).1
  | .poll t => (C.poll q.state t).state
  | .tick => (C.tick q.state).1

theorem Moment.after_of_turn? {q : Moment C} {t : Turn C.toSignature} (h : q.turn? = some t) :
    q.after = t.state := by
  obtain ⟨s, cause⟩ := q
  cases cause <;> cases h <;> rfl

/-- The moment of a step, if the component takes part in it. -/
def Config.moment (c : Config C) (cause : Option (Cause C)) : List (Moment C) :=
  cause.toList.map fun cause => ⟨c.state, cause⟩

@[simp] theorem Machine.config_state (m : Machine C) : m.config.state = m.state := by
  unfold config
  split <;> rfl

theorem Machine.config_ready (m : Machine C) : m.config.ready = ownTasks m.ready := by
  unfold config
  split <;> rfl

theorem Machine.moment_config (m : Machine C) :
    m.moment?.toList = m.config.moment m.cause? := by
  cases hc : m.cause? <;> simp [moment?, Config.moment, hc]

theorem tasks_eq_nil [IsEmpty C.Task] (ts : List C.Task) : ts = [] := by
  cases ts with
  | nil => rfl
  | cons t => exact isEmptyElim t

/-- What holds of the configuration of a machine and of no moments, and is kept by every step, holds
after every run; after every free run if the component has no tasks, whose order would matter. -/
theorem RunBy.config_induction_of {free : Bool} {m₀ m : Machine C} {past : List (Moment C)}
    (h : RunBy free m₀ past m) (hfree : free = true → IsEmpty C.Task)
    (I : List (Moment C) → Config C → Prop) (start : I [] m₀.config)
    (step : ∀ past c cause c', I past c → c.Step cause c' → I (past ++ c.moment cause) c') :
    I past m.config := by
  induction h with
  | start => exact start
  | advance _ hm ih =>
    rw [Machine.moment_config]
    exact step _ _ _ _ ih (Machine.advance?_config hm)
  | @request past m _ hm op ih =>
    have hb : m.config = (m.request op).config := by
      rw [Machine.config_nil (Machine.stack_of_step? hm), Machine.config_run rfl]
      simp [Machine.bare, Machine.request, Machine.stack_of_step? hm]
    exact hb ▸ ih
  | @strike past m _ hm ih =>
    have hs := Machine.stack_of_step? hm
    have := step _ _ _ _ ih (.tick (by rw [Machine.config_nil hs]; rfl))
    obtain ⟨ready, he, hr⟩ := Machine.wakeAll_eq { m with state := (C.tick m.state).1 }
      (C.tick m.state).2
    rw [Machine.config_nil hs] at this
    rw [show m.strike = Machine.wakeAll _ _ from rfl, he, Machine.config_nil (by exact hs)]
    simpa [Machine.bare, hr, Config.moment] using this
  | @proceed _ _ v _ n _ hm _ _ _ ih =>
    have := step _ _ _ _ ih (Machine.proceed_config hm v n)
    simpa [Config.moment] using this
  | @reorder past m ready _ hf hm _ ih =>
    have := hfree hf
    have hs := Machine.stack_of_step? hm
    rw [Machine.config_nil hs] at ih
    rw [Machine.config_nil (by exact hs)]
    simpa [Machine.bare, tasks_eq_nil] using ih

theorem RunBy.config_induction {m₀ m : Machine C} {past : List (Moment C)} (h : Run m₀ past m)
    (I : List (Moment C) → Config C → Prop) (start : I [] m₀.config)
    (step : ∀ past c cause c', I past c → c.Step cause c' → I (past ++ c.moment cause) c') :
    I past m.config :=
  h.config_induction_of nofun I start step

/-- The steps of configurations one after the other, with the moments at which the component takes
part. Any operation may come up between two of them, from within a callback as well. -/
inductive Passage (c₀ : Config C) : List (Moment C) → Config C → Prop where
  | start : Passage c₀ [] c₀
  | step {past c cause c'} (h : Passage c₀ past c) (hs : c.Step cause c') :
      Passage c₀ (past ++ c.moment cause) c'

theorem RunBy.passage {m₀ m : Machine C} {past : List (Moment C)} (h : Run m₀ past m) :
    Passage m₀.config past m.config :=
  h.config_induction (Passage m₀.config) .start fun _ _ _ _ h hs => h.step hs

end Conduit.Dispatch
