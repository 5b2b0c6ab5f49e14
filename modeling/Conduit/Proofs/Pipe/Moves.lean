import Conduit.Proofs.Pipe.Desk

/-!
Every step of a configuration of pipes keeps its shape and is a few moves of its desk. A step is
taken apart into the turn of the component, which moves the desk, and what the machine makes of the
frames that the turn leaves behind, which does not.
-/

namespace Conduit.Pipe

open Dispatch

variable {c c' : Config component} {t : Turn signature}

/-- The frames that a turn leaves behind. -/
def left : Next signature → List Frame
  | .enter k | .script _ _ _ k => k
  | .perform _ w k => w :: k
  | _ => []

/-- Only requests are left on the stack, below a report or on their own. -/
def Tame : Next signature → Prop
  | .enter (_ :: k) | .script _ _ _ k => ∀ f ∈ k, f.request?.isSome
  | .perform _ w k => w.request? = none ∧ ∀ f ∈ k, f.request?.isSome
  | _ => True

theorem Shape.faces (hc : Shape c) (h : c.Faces c') :
    Shape c' ∧ ∃ now, ((desk c).now = true → now = true) ∧ desk c' = { desk c with now } := by
  cases h with
  | stay => exact ⟨hc, _, id, rfl⟩
  | @face f k hn hk =>
    have hh : held { c with next := some f, stack := k } = held c := by
      simp [held, hn, hk]
    refine ⟨⟨by rw [hh]; exact hc.alone, ?_, hc.waiting, hc.addressed⟩, f.request?.isSome, ?_, ?_⟩
    · intro g hg
      exact hc.stack g (hk ▸ List.mem_cons_of_mem f hg)
    · simp [desk, hn]
    · simp [desk, hh]

/-- The requests among the tasks that are woken. -/
theorem ready_woken (ready ts : List Task) :
    (woken ready ts).filterMap Task.request? =
      woken (ready.filterMap Task.request?) (ts.filterMap Task.request?) :=
  woken_filterMap _ (fun a b u ha hb => by cases a <;> cases b <;> simp_all [Task.request?]) ..

theorem filterMap_request (rs : List Nat) :
    (rs.map Task.request).filterMap Task.request? = rs := by
  simp [List.filterMap_map, Function.comp_def, Task.request?]

/-- The desk after a turn that leaves the requests `rs` behind. -/
def Desk.after (d : Desk) (t : Turn signature) (rs : List (Nat × Bool)) (now : Bool) : Desk where
  hub := t.state.hub
  receivers := t.state.receivers.length
  current := rs.head?.or d.current
  now := now
  ready := woken d.ready (t.wakes.filterMap Task.request?)

theorem Shape.after (hc : Shape c) (hn : c.next = none) (ha : t.state.Addressed) {k : List Frame}
    (hk : ∀ f ∈ k, f.request?.isSome) (hl : (k.filterMap Frame.request? ++ held c).length ≤ 1) :
    Shape (c.after t k) ∧
      desk (c.after t k) = (desk c).after t (k.filterMap Frame.request?) false := by
  have hh : held (c.after t k) = k.filterMap Frame.request? ++ held c := by
    simp [held, Config.after, hn]
  refine ⟨⟨by rw [hh]; exact hl, ?_, hc.waiting, ha⟩, ?_⟩
  · intro f hf
    rcases List.mem_append.mp hf with hf | hf
    · exact hk f hf
    · exact hc.stack f hf
  · simp only [desk, hh, List.head?_append, Desk.after]
    simp [Config.after, hn, ready_woken]

/-- The machine takes over a turn. -/
theorem Shape.takes (hc : Shape c) (hn : c.next = none) (ht : Tame t.next)
    (ha : t.state.Addressed)
    (hl : ((left t.next).filterMap Frame.request? ++ held c).length ≤ 1) (h : c.Takes t c') :
    Shape c' ∧ ∃ now, ((∃ r k, t.next = .enter (.serve r :: k)) → now = true) ∧
      desk c' = (desk c).after t ((left t.next).filterMap Frame.request?) now := by
  have settle {c₁ : Config component} {rs : List (Nat × Bool)} (h₁ : Shape c₁)
      (hd : desk c₁ = (desk c).after t rs false) (hf : c₁.Faces c')
      (he : ¬ ∃ r k, t.next = .enter (.serve r :: k)) :
      Shape c' ∧ ∃ now, ((∃ r k, t.next = .enter (.serve r :: k)) → now = true) ∧
        desk c' = (desk c).after t rs now := by
    obtain ⟨hc', now, -, hd'⟩ := h₁.faces hf
    refine ⟨hc', now, fun h => absurd h he, ?_⟩
    rw [hd', hd]
    rfl
  cases h with
  | reply h hf =>
    have hk : left t.next = [] := by simp [left, h]
    rw [hk] at hl ⊢
    obtain ⟨h₁, hd⟩ := hc.after hn ha (k := []) (by simp) hl
    exact settle h₁ hd hf (by simp [h])
  | throw h =>
    have hk : left t.next = [] := by simp [left, h]
    rw [hk] at hl ⊢
    obtain ⟨h₁, hd⟩ := hc.after hn ha (k := []) (by simp) hl
    exact settle h₁ hd (.stay _) (by simp [h])
  | enterNil h hf =>
    have hk : left t.next = [] := by simp [left, h]
    rw [hk] at hl ⊢
    obtain ⟨h₁, hd⟩ := hc.after hn ha (k := []) (by simp) hl
    exact settle h₁ hd hf (by simp [h])
  | @enter f k h =>
    have hk : left t.next = f :: k := by simp [left, h]
    rw [hk] at hl ⊢
    rw [h] at ht
    have hh : held { c.after t k with next := some f } =
        (f :: k).filterMap Frame.request? ++ held c := by
      simp [held, Config.after, hn, List.filterMap_cons]
      cases f.request? <;> simp
    refine ⟨⟨by rw [hh]; exact hl, ?_, hc.waiting, ha⟩, f.request?.isSome, ?_, ?_⟩
    · intro g hg
      rcases List.mem_append.mp hg with hg | hg
      · exact ht g hg
      · exact hc.stack g hg
    · rintro ⟨r, k', h'⟩
      obtain ⟨rfl, -⟩ := List.cons.inj (Next.enter.inj (h.symm.trans h'))
      rfl
    · simp only [desk, hh, List.head?_append, Desk.after]
      simp [Config.after, ready_woken]
  | @script _ _ _ k _ h hf =>
    have hk : left t.next = k := by simp [left, h]
    rw [h] at ht
    rw [hk] at hl ⊢
    obtain ⟨h₁, hd⟩ := hc.after hn ha ht hl
    exact settle h₁ hd hf (by simp [h])
  | @inline d w k h hd =>
    have hk : left t.next = w :: k := by simp [left, h]
    rw [h] at ht
    rw [hk, List.filterMap_cons_none ht.1] at hl ⊢
    obtain ⟨h₁, hd⟩ := hc.after hn ha ht.2 hl
    have hh : held { c.after t k with next := some w } = held (c.after t k) := by
      simp [held, Config.after, hn, ht.1]
    have hs : Shape { c.after t k with next := some w } :=
      ⟨by rw [hh]; exact h₁.alone, h₁.stack, h₁.waiting, h₁.addressed⟩
    refine settle hs ?_ (.stay _) (by simp [h])
    rw [← hd]
    simp only [desk, hh]
    simp [Config.after, hn, ht.1]
  | @queued d w k v _ h hd hv hf =>
    have hk : left t.next = w :: k := by simp [left, h]
    rw [h] at ht
    rw [hk, List.filterMap_cons_none ht.1] at hl ⊢
    obtain ⟨h₁, hd⟩ := hc.after hn ha ht.2 hl
    have hs : Shape ((c.after t k).push v w) := by
      refine ⟨h₁.alone, h₁.stack, ?_, h₁.addressed⟩
      intro line hline f hfl
      obtain ⟨i, hi, rfl⟩ := List.mem_iff_getElem.mp hline
      simp only [Config.push, List.getElem_modify] at hfl
      split at hfl
      · rcases List.mem_append.mp hfl with hfl | hfl
        · exact h₁.waiting _ (List.getElem_mem _) f hfl
        · rw [List.mem_singleton.mp hfl]
          exact ht.1
      · exact h₁.waiting _ (List.getElem_mem _) f hfl
    exact settle hs hd hf (by simp [h])
  | @dropped d w k v _ h hd hf =>
    have hk : left t.next = w :: k := by simp [left, h]
    rw [h] at ht
    rw [hk, List.filterMap_cons_none ht.1] at hl ⊢
    obtain ⟨h₁, hd⟩ := hc.after hn ha ht.2 hl
    have hw : (c.after t k).discard w = c.after t k := by
      cases w with
      | deliver => rfl
      | _ => exact absurd ht.1 (by simp [Frame.request?])
    rw [hw] at hf
    exact settle h₁ hd hf (by simp [h])
  | @lost d w k v _ h hd hf =>
    have hk : left t.next = w :: k := by simp [left, h]
    rw [h] at ht
    rw [hk, List.filterMap_cons_none ht.1] at hl ⊢
    obtain ⟨h₁, hd⟩ := hc.after hn ha ht.2 hl
    exact settle h₁ hd hf (by simp [h])

section Exec

variable {s : Session} {d : Desk}

/-- A report to a receiver that is there is handed over. -/
theorem report_eq {k : Nat} (hk : k < s.receivers.length) (e : Event) (ks : List Frame) :
    (∃ context, report s k e ks = .perform context (.deliver k e) ks) ∨
      report s k e ks = .enter (.deliver k e :: ks) := by
  unfold report
  rw [List.getElem?_eq_getElem hk]
  cases s.receivers[k] with
  | callback => exact .inl ⟨_, rfl⟩
  | collector => exact .inr rfl

theorem reports_report {k : Nat} (hk : k < s.receivers.length) (e : Event) (ks : List Frame) :
    reports (report s k e ks) = [.told k e] := by
  rcases report_eq hk e ks with ⟨_, h⟩ | h <;> rw [h] <;> rfl

theorem left_report {k : Nat} (hk : k < s.receivers.length) (e : Event) (ks : List Frame) :
    left (report s k e ks) = .deliver k e :: ks := by
  rcases report_eq hk e ks with ⟨_, h⟩ | h <;> rw [h] <;> rfl

theorem tame_report {k : Nat} (hk : k < s.receivers.length) (e : Event) {ks : List Frame}
    (hks : ∀ f ∈ ks, f.request?.isSome) : Tame (report s k e ks) := by
  rcases report_eq hk e ks with ⟨_, h⟩ | h
  · rw [h]
    exact ⟨rfl, hks⟩
  · rw [h]
    exact hks

/-- A turn in which no request takes part: it leaves none behind, and its session is in order. -/
structure Outer (t : Turn signature) : Prop where
  tame : Tame t.next
  left : (left t.next).filterMap Frame.request? = []
  addressed : t.state.Addressed

theorem Outer.of_plain {t : Turn signature} (h : Pipe.left t.next = []) (ht : Tame t.next)
    (ha : t.state.Addressed) : Outer t :=
  ⟨ht, by rw [h]; rfl, ha⟩

theorem Session.Addressed.append (ha : s.Addressed) {s' : Session} {q : Request}
    (hs : s'.hub.requests = s.hub.requests ++ [q]) (hr : s.receivers.length ≤ s'.receivers.length)
    (hq : q.receiver = none ↔ q.job = .release)
    (hk : ∀ k, q.receiver = some k → k < s'.receivers.length) : s'.Addressed := by
  intro r q' h
  rw [hs, List.getElem?_append] at h
  split at h
  · obtain ⟨h₁, h₂⟩ := ha r q' h
    exact ⟨h₁, fun k hk => Nat.lt_of_lt_of_le (h₂ k hk) hr⟩
  · rw [List.getElem?_singleton] at h
    split at h
    · cases h
      exact ⟨hq, hk⟩
    · cases h

theorem Session.Addressed.mono (ha : s.Addressed) {s' : Session} (hs : s'.hub.requests = s.hub.requests)
    (hr : s.receivers.length ≤ s'.receivers.length) : s'.Addressed := by
  intro r q h
  rw [hs] at h
  obtain ⟨h₁, h₂⟩ := ha r q h
  exact ⟨h₁, fun k hk => Nat.lt_of_lt_of_le (h₂ k hk) hr⟩

theorem request_outer (ha : s.Addressed) (p : Nat) {job : Job} (hj : job.Initial)
    (receiver : Receiver) (more : List Task) : Outer (request s p job receiver more) := by
  have hk : s.receivers.length < (s.addReceiver receiver).receivers.length := by
    simp [Session.addReceiver]
  have hr : job ≠ .release := by
    rintro rfl
    exact hj
  unfold request
  dsimp only
  split
  · refine ⟨tame_report hk _ (by simp), ?_, ha.mono rfl (Nat.le_of_lt hk)⟩
    rw [left_report hk]
    rfl
  · exact .of_plain rfl trivial (ha.append rfl (Nat.le_of_lt hk) (by simp [hr]) (by
      intro k h
      cases h
      exact hk))

theorem request_moves (hh : d.hub = s.hub) (hr : d.receivers = s.receivers.length) {p : Nat}
    (hp : p < s.hub.ports.length) {job : Job} (hj : job.Initial) (receiver : Receiver) {more : List Task}
    (hm : more.filterMap Task.request? = []) :
    d.Move (.asked s.receivers.length p job :: reports (request s p job receiver more).next)
      (d.after (request s p job receiver more) [] d.now) := by
  obtain ⟨hub, receivers, current, now, ready⟩ := d
  subst hh hr
  have hk : s.receivers.length < (s.addReceiver receiver).receivers.length := by
    simp [Session.addReceiver]
  unfold request
  dsimp only
  split
  · rename_i hc
    rw [reports_report hk]
    have hp := List.getElem?_eq_getElem hp
    have hc : s.hub.ports[p].closed = true := by simpa [Hub.isClosed, Session.addReceiver, hp] using hc
    have := Desk.Move.refuse (d := ⟨s.hub, s.receivers.length, current, now, ready⟩) hj hp hc
    simpa [Desk.after, hm, woken, Session.addReceiver] using this
  · rename_i hc
    rw [Bool.not_eq_true] at hc
    have := Desk.Move.ask (d := ⟨s.hub, s.receivers.length, current, now, ready⟩) hj hc
    simpa [Desk.after, hm, reports, Session.addReceiver, Hub.submit, List.filterMap_cons,
      Task.request?] using this

theorem close_requests (h : Hub) (p : Nat) :
    (h.close p).1.requests = h.requests ∨
      (h.close p).1.requests = h.requests ++ [⟨p, .release, none, .fresh⟩] := by
  unfold Hub.close
  split
  · exact .inl rfl
  · split
    · exact .inl rfl
    · exact .inr rfl

theorem Session.Addressed.close (ha : s.Addressed) (p : Nat) :
    ({ s with hub := (s.hub.close p).1 } : Session).Addressed := by
  rcases close_requests s.hub p with h | h
  · exact ha.mono h (Nat.le_refl _)
  · exact ha.append h (Nat.le_refl _) (by simp) (by simp)

theorem close_one (s : Session) (p : Nat) :
    s.close [p] = ({ s with hub := (s.hub.close p).1 }, (s.hub.close p).2) := by
  simp [Session.close]

theorem close_two (s : Session) (p p' : Nat) :
    s.close [p, p'] =
      ({ s with hub := ((s.hub.close p).1.close p').1 },
        (s.hub.close p).2 ++ ((s.hub.close p).1.close p').2) := by
  simp [Session.close]

/-- The ports of a handle are closed in one move each. -/
theorem close_moves (hh : d.hub = s.hub) (hr : d.receivers = s.receivers.length)
    (hn : d.now = false) (h : Handle) {t : Turn signature} (hs : t.state = (s.close h.ports).1)
    (hw : t.wakes = (s.close h.ports).2.map .request) : d.Moves [] (d.after t [] d.now) := by
  obtain ⟨hub, receivers, current, now, ready⟩ := d
  subst hh hr
  have one (p : Nat) (hub : Hub) (ready : List Nat) :=
    Desk.Move.close (d := ⟨hub, s.receivers.length, current, now, ready⟩) (p := p) hn
  cases h with
  | source p | sink p =>
    simp only [Desk.after, hs, hw, Handle.ports, close_one, filterMap_request]
    exact (one p s.hub ready).moves
  | pair p p' =>
    simp only [Desk.after, hs, hw, Handle.ports, close_two, filterMap_request, woken_append]
    exact (one p s.hub ready).moves.more (one p' _ _)

theorem Session.Addressed.close_ports (ha : s.Addressed) (h : Handle) :
    (s.close h.ports).1.Addressed := by
  cases h with
  | source p | sink p =>
    simp only [Handle.ports, close_one]
    exact ha.close p
  | pair p p' =>
    simp only [Handle.ports, close_two]
    exact (ha.close p).close p'

theorem exec_outer (view : View) (ha : s.Addressed) (a : Action) : Outer (exec view s a) := by
  have plain {t : Turn signature} (hl : left t.next = []) (ht : Tame t.next)
      (h : t.state.hub.requests = s.hub.requests) (hr : t.state.receivers = s.receivers) : Outer t :=
    .of_plain hl ht (ha.mono h (by simp [hr]))
  have hcollect (cs : List (String × Collector)) :
      ({ s with collectors := cs } : Session).Addressed := ha
  cases a with
  | source | sink | drop => exact plain rfl trivial rfl rfl
  | feed | pair | split | describe =>
    simp only [exec]
    split <;> exact plain rfl trivial rfl rfl
  | requestRead id req context length =>
    simp only [exec]
    split
    · exact plain rfl trivial rfl rfl
    · exact plain rfl trivial rfl rfl
    · exact request_outer ha _ (Job.initial_read length) _ _
  | requestWrite id req context data =>
    simp only [exec]
    split
    · exact plain rfl trivial rfl rfl
    · exact plain rfl trivial rfl rfl
    · exact request_outer ha _ (Job.initial_ofData data) _ _
  | readAll id req length =>
    simp only [exec]
    split
    · exact plain rfl trivial rfl rfl
    · exact request_outer (hcollect _) _ (Job.initial_read length) _ _
  | writeAll id req data =>
    simp only [exec]
    split
    · exact plain rfl trivial rfl rfl
    · exact request_outer (hcollect _) _ (Job.initial_ofData data) _ _
  | close id =>
    simp only [exec]
    split
    · exact plain rfl trivial rfl rfl
    · rename_i h _
      exact .of_plain rfl trivial (ha.close_ports h)

theorem Session.Housed.source (hs : s.Housed) {id : String} {p : Nat} (h : s.source? id = some p) :
    p < s.hub.ports.length := by
  obtain ⟨a, ha, hp⟩ := Option.bind_eq_some_iff.mp h
  refine hs id a ha p ?_
  cases a <;> simp_all [Handle.source?, Handle.ports]

theorem Session.Housed.sink (hs : s.Housed) {id : String} {p : Nat} (h : s.sink? id = some p) :
    p < s.hub.ports.length := by
  obtain ⟨a, ha, hp⟩ := Option.bind_eq_some_iff.mp h
  refine hs id a ha p ?_
  cases a <;> simp_all [Handle.sink?, Handle.ports]

/-- An action moves the desk; no turn of a request runs meanwhile. -/
theorem exec_moves (view : View) (hh : d.hub = s.hub) (hr : d.receivers = s.receivers.length)
    (hn : d.now = false) (hs : s.Housed) (a : Action) :
    d.Moves (execDeeds view s a) (d.after (exec view s a) [] d.now) := by
  have same {t : Turn signature} (h : t.state.hub = s.hub) (h' : t.state.receivers = s.receivers)
      (hw : t.wakes = []) : d.Moves [] (d.after t [] d.now) := by
    obtain ⟨hub, receivers, current, now, ready⟩ := d
    subst hh hr
    have := (Desk.Move.quiet (d := ⟨s.hub, s.receivers.length, current, now, ready⟩) _ id).moves
    simpa [Desk.after, h, h', hw, woken] using this
  have issue {s' : Session} (h : s'.hub = s.hub) (h' : s'.receivers = s.receivers) {p : Nat}
      (hp : p < s.hub.ports.length) {job : Job} (hj : job.Initial) (receiver : Receiver) {more : List Task}
      (hm : more.filterMap Task.request? = []) :
      d.Moves (.asked s.receivers.length p job :: reports (request s' p job receiver more).next)
        (d.after (request s' p job receiver more) [] d.now) :=
    h' ▸ (request_moves (hh.trans h.symm) (by rw [hr, h']) (h ▸ hp) hj receiver hm).moves
  cases a with
  | source id device limits =>
    obtain ⟨hub, receivers, current, now, ready⟩ := d
    subst hh hr
    exact (Desk.Move.opens (.source device limits)).moves
  | sink id device limits =>
    obtain ⟨hub, receivers, current, now, ready⟩ := d
    subst hh hr
    exact (Desk.Move.opens (.sink device limits)).moves
  | drop => exact same rfl rfl rfl
  | pair id source sink | describe id =>
    simp only [execDeeds, exec, issue?, open?]
    split <;> exact same rfl rfl rfl
  | split id source sink =>
    simp only [execDeeds, exec, issue?, open?]
    split <;> exact same rfl rfl rfl
  | feed id items flushes =>
    simp only [execDeeds, exec, issue?, open?]
    split
    · exact same rfl rfl rfl
    · rename_i p _
      cases hp : s.hub.ports[p]? with
      | none => exact same rfl rfl rfl
      | some port =>
        obtain ⟨hub, receivers, current, now, ready⟩ := d
        subst hh hr
        have := (Desk.Move.feed (d := ⟨s.hub, s.receivers.length, current, now, ready⟩) hp).moves
        cases hq : port.holder <;> simpa [Desk.after, reports, hq, Task.request?] using this
  | requestRead id req context length =>
    cases hp : s.source? id with
    | none => simp only [execDeeds, exec, issue?, open?, hp]; exact same rfl rfl rfl
    | some p =>
      cases hv : view.context? context with
      | none => simp only [execDeeds, exec, issue?, open?, hp, hv]; exact same rfl rfl rfl
      | some =>
        simp only [execDeeds, exec, issue?, open?, hp, hv]
        exact issue (by rfl) (by rfl) (hs.source hp) (Job.initial_read length) _ (by rfl)
  | requestWrite id req context data =>
    cases hp : s.sink? id with
    | none => simp only [execDeeds, exec, issue?, open?, hp]; exact same rfl rfl rfl
    | some p =>
      cases hv : view.context? context with
      | none => simp only [execDeeds, exec, issue?, open?, hp, hv]; exact same rfl rfl rfl
      | some =>
        simp only [execDeeds, exec, issue?, open?, hp, hv]
        exact issue (by rfl) (by rfl) (hs.sink hp) (Job.initial_ofData data) _ (by rfl)
  | readAll id req length =>
    cases hp : s.source? id with
    | none => simp only [execDeeds, exec, issue?, open?, hp]; exact same rfl rfl rfl
    | some p =>
      simp only [execDeeds, exec, collect, issue?, open?, hp]
      exact issue (by rfl) (by rfl) (hs.source hp) (Job.initial_read length) _ (by rfl)
  | writeAll id req data =>
    cases hp : s.sink? id with
    | none => simp only [execDeeds, exec, issue?, open?, hp]; exact same rfl rfl rfl
    | some p =>
      simp only [execDeeds, exec, collect, issue?, open?, hp]
      exact issue (by rfl) (by rfl) (hs.sink hp) (Job.initial_ofData data) _ (by rfl)
  | close id =>
    simp only [execDeeds, exec, issue?, open?]
    split
    · exact same rfl rfl rfl
    · rename_i h _
      exact close_moves hh hr hn h rfl rfl

end Exec

section Serve

variable {s : Session} {d : Desk}

theorem finish_hub (s : Session) (r : Nat) : (finish s r).1.hub = (s.hub.finish r).1 := by
  simp only [finish, endCollector]
  split <;> rfl

theorem finish_receivers (s : Session) (r : Nat) : (finish s r).1.receivers = s.receivers := by
  simp only [finish, endCollector]
  split <;> rfl

theorem finish_wakes (s : Session) (r : Nat) :
    (finish s r).2.filterMap Task.request? = (s.hub.finish r).2 := by
  simp only [finish, endCollector]
  split <;> rw [List.filterMap_append, filterMap_request] <;> simp [Task.request?]

theorem Session.Addressed.finish (ha : s.Addressed) (r : Nat) : (finish s r).1.Addressed := by
  intro r' q h
  rw [finish_hub, Hub.finish_requests, List.getElem?_modify] at h
  rw [finish_receivers]
  obtain ⟨q₀, hq₀, rfl⟩ := Option.map_eq_some_iff.mp h
  have := ha r' q₀ hq₀
  split <;> exact this

/-- A request that is served changes, but it keeps its receiver. -/
theorem Session.Addressed.put (ha : s.Addressed) {r : Nat} {q q' : Request} {port port' : Port}
    {us : List Use} {wakes : List Nat} {adv : Advance} (hq : s.hub.requests[r]? = some q)
    (hv : Served r q port us q' port' wakes adv) (devices : List Scripted) :
    ({ s with hub := s.hub.put r q' port', devices } : Session).Addressed := by
  intro r' q₀ h
  simp only [Hub.put, List.getElem?_set] at h
  split at h
  · rename_i hr
    subst hr
    split at h
    · cases h
      rw [hv.receiver_eq, hv.release_iff]
      exact ha r q hq
    · cases h
  · exact ha r' q₀ h

theorem receiver_of_served (ha : s.Addressed) {r : Nat} {q q' : Request} {port port' : Port}
    {us : List Use} {wakes : List Nat} {adv : Advance} (hq : s.hub.requests[r]? = some q)
    (hv : Served r q port us q' port' wakes adv) (h : adv ≠ .idle ∧ adv ≠ .again) :
    ∃ k, q.receiver = some k ∧ k < s.receivers.length := by
  obtain ⟨hn, hk⟩ := ha r q hq
  cases hr : q.receiver with
  | none => exact absurd (hn.mp hr) (hv.ne_release h)
  | some k => exact ⟨k, rfl, hk k hr⟩

/-- The turn of a request whose step is known. -/
theorem serve_eq {r : Nat} {hub : Hub} {devices : List Scripted} {wakes : List Nat} {adv : Advance}
    (h : s.hub.advance Scripted.devices s.devices r = (hub, devices, wakes, adv)) :
    serve s r =
      let s' := { s with hub, devices }
      match adv with
      | .idle => { state := s', wakes := wakes.map .request }
      | .again => { state := s', wakes := wakes.map .request, next := .enter [.serve r] }
      | .crash => { state := (finish s' r).1, wakes := wakes.map .request ++ (finish s' r).2 }
      | .report e last =>
        match receiver? s' r with
        | none => { state := s', wakes := wakes.map .request }
        | some k =>
          { state := s', wakes := wakes.map .request
            next := report s' k e [if last then .finish r else .serve r] } := by
  simp only [serve, h, receiver?]
  cases adv <;> rfl

/-- What it is that a turn of a request comes to, whatever runs above it afterwards. -/
structure Turns (d : Desk) (ds : List Deed) (rest : List Nat) (t : Turn signature) : Prop where
  tame : Tame t.next
  addressed : t.state.Addressed
  alone : ((left t.next).filterMap Frame.request?).length ≤ 1
  moves : ∀ now, ((∃ r k, t.next = .enter (.serve r :: k)) → now = true) →
    d.Moves ds ({ d with current := none, ready := rest }.after t
      ((left t.next).filterMap Frame.request?) now)

/-- A request that is over, or was never there, is passed by. -/
theorem serve_skip (ha : s.Addressed) (hh : d.hub = s.hub) (hr : d.receivers = s.receivers.length)
    {r : Nat} {rest : List Nat} (hd : d.Serves r rest)
    (h : ∀ (q : Request) (port : Port), s.hub.requests[r]? = some q →
      s.hub.ports[q.port]? = some port → q.phase = .finished) :
    Turns d (serveDeeds s r) rest (serve s r) := by
  have hidle {D : Type} (dev : Devices D) (d : D) :
      s.hub.advance dev d r = (s.hub, d, [], .idle) := by
    cases hq : s.hub.requests[r]? with
    | none => simp [Hub.advance, hq]
    | some q =>
      cases hp : s.hub.ports[q.port]? with
      | none => simp [Hub.advance, hq, hp]
      | some port => simp [Hub.advance, hq, hp, h q port hq hp]
  have hs : serve s r = { state := s } := serve_eq (hidle ..)
  have hdeeds : serveDeeds s r = [] := by
    simp [serveDeeds, Hub.uses, hidle, hs, reports]
  rw [hs, hdeeds]
  refine ⟨trivial, ha, by simp [left], fun now _ => ?_⟩
  obtain ⟨hub, receivers, current, now', ready⟩ := d
  subst hh hr
  exact (Desk.Move.skip hd h).moves.more (.quiet now (by simp))

/-- A request that is not over is served. -/
theorem serve_served (ha : s.Addressed) (hh : d.hub = s.hub) (hr : d.receivers = s.receivers.length)
    {r : Nat} {rest : List Nat} (hd : d.Serves r rest) {q : Request} {port : Port}
    (hq : s.hub.requests[r]? = some q) (hp : s.hub.ports[q.port]? = some port)
    (hf : q.phase ≠ .finished) : Turns d (serveDeeds s r) rest (serve s r) := by
  obtain ⟨us, q', port', wakes, adv, devices, hv, hadv⟩ :=
    Hub.advance_served Scripted.devices_bounded s.devices hq hp hf
  have hstep : s.hub.advance Scripted.devices s.devices r =
      (s.hub.put r q' port', devices, wakes, adv) := by
    rw [Hub.advance_recording Scripted.devices s.hub s.devices [], hadv]
  have hs := serve_eq hstep
  have hk : receiver? s r = q.receiver := by simp [receiver?, hq]
  have hk' : receiver? { s with hub := s.hub.put r q' port', devices } r = q.receiver := by
    simp [receiver?, Hub.getElem?_put_requests hq, hv.receiver_eq]
  have hput := ha.put hq hv devices
  have hdeeds : serveDeeds s r = us.map (.used q.receiver) ++
      (if adv = .crash then q.receiver.toList.map (.lost · false) else []) ++ reports (serve s r).next := by
    simp [serveDeeds, Hub.uses, hadv, hstep, hk]
  obtain ⟨hub, receivers, current, now', ready⟩ := d
  subst hh hr
  have hmove {current' : Option (Nat × Bool)} {now : Bool} {ds : List Deed}
      (hl : Leads r q.receiver adv current' now ds) :=
    (Desk.Move.serve hd hq hp hf hv hl).moves
  cases adv with
  | idle =>
    rw [hdeeds, hs]
    refine ⟨trivial, hput, by simp [left], fun now _ => ?_⟩
    have := (hmove .idle).more (.quiet now (by simp))
    simpa [reports, left, Desk.after, -List.filterMap_map, filterMap_request] using this
  | again =>
    rw [hdeeds, hs]
    refine ⟨by simp [Tame], hput, by simp [left, Frame.request?], fun now hnow => ?_⟩
    obtain rfl := hnow ⟨r, [], rfl⟩
    simpa [reports, left, Desk.after, -List.filterMap_map, filterMap_request, Frame.request?]
      using hmove .again
  | crash =>
    rw [hdeeds, hs]
    refine ⟨trivial, hput.finish r, by simp [left], fun now _ => ?_⟩
    have := ((hmove .crash).more (.finish rfl)).more (.quiet now (by simp))
    simpa [reports, left, Desk.after, -List.filterMap_map, filterMap_request, finish_hub,
      finish_receivers, finish_wakes, woken_append] using this
  | report e last =>
    obtain ⟨k, hr, hlt⟩ := receiver_of_served ha hq hv (by simp)
    have hs' : serve s r =
        { state := { s with hub := s.hub.put r q' port', devices }
          wakes := wakes.map .request
          next := report { s with hub := s.hub.put r q' port', devices } k e
            [if last then .finish r else .serve r] } := by
      rw [hs]
      simp only [hk', hr]
    have hframe : (if last then Frame.finish r else .serve r).request? = some (r, last) := by
      cases last <;> rfl
    have hleft : (left (serve s r).next).filterMap Frame.request? = [(r, last)] := by
      rw [hs', left_report (by exact hlt), List.filterMap_cons_none rfl,
        List.filterMap_cons_some hframe, List.filterMap_nil]
    have hreports : reports (serve s r).next = [.told k e] := by
      rw [hs', reports_report (by exact hlt)]
    rw [hreports] at hdeeds
    rw [hdeeds]
    refine ⟨?_, by rw [hs']; exact hput, by rw [hleft]; simp, fun now _ => ?_⟩
    · rw [hs']
      exact tame_report hlt e (by simp [hframe])
    · rw [hleft, hs']
      simpa [Desk.after, -List.filterMap_map, filterMap_request] using hmove (.report now hr)

theorem serve_turns (ha : s.Addressed) (hh : d.hub = s.hub) (hr : d.receivers = s.receivers.length)
    {r : Nat} {rest : List Nat} (hd : d.Serves r rest) :
    Turns d (serveDeeds s r) rest (serve s r) := by
  cases hq : s.hub.requests[r]? with
  | none => exact serve_skip ha hh hr hd (by simp [hq])
  | some q =>
    cases hp : s.hub.ports[q.port]? with
    | none => exact serve_skip ha hh hr hd (by grind)
    | some port =>
      by_cases hf : q.phase = .finished
      · exact serve_skip ha hh hr hd (by grind)
      · exact serve_served ha hh hr hd hq hp hf

end Serve

section Step

/-- A turn that is no turn of a request keeps the desk as far as it keeps the hub. -/
theorem Outer.takes {t : Turn signature} (ho : Outer t) (hc : Shape c) (hn : c.next = none)
    {ds : List Deed} (hm : (desk c).Moves ds ((desk c).after t [] (desk c).now))
    (h : c.Takes t c') : Shape c' ∧ (desk c).Moves ds (desk c') := by
  obtain ⟨hc', now, -, hd⟩ := hc.takes hn ho.tame ho.addressed
    (by rw [ho.left, List.nil_append]; exact hc.alone) h
  refine ⟨hc', ?_⟩
  rw [hd, ho.left, ← List.append_nil ds]
  exact hm.more (.quiet now (by simp [Desk.after, desk, hn]))

/-- The turn of a request, on an empty stack. -/
theorem Turns.takes {d : Desk} {ds : List Deed} {t : Turn signature} (hc : Shape c)
    (hn : c.next = none) (hs : c.stack = []) (ht : Turns d ds (desk c).ready t)
    (h : c.Takes t c') : Shape c' ∧ d.Moves ds (desk c') := by
  have hh : held c = [] := by simp [held, hn, hs]
  obtain ⟨hc', now, hnow, hd⟩ := hc.takes hn ht.tame ht.addressed
    (by rw [hh, List.append_nil]; exact ht.alone) h
  have hcurrent : (desk c).current = none := by simp [desk, hh]
  refine ⟨hc', ?_⟩
  have hm := ht.moves now hnow
  rw [← hcurrent] at hm
  rw [hd]
  exact hm

/-- The desk of a configuration whose next frame is a report, or is taken away. -/
theorem desk_next {f : Frame} (hn : c.next = some f) (hf : f.request? = none) :
    desk { c with next := none } = desk c := by
  simp [desk, held, hn, hf]

theorem Shape.next_none (hc : Shape c) : Shape { c with next := none } where
  alone := by
    refine Nat.le_trans ?_ hc.alone
    simp [held, List.filterMap_append]
  stack := hc.stack
  waiting := hc.waiting
  addressed := hc.addressed

/-- With a request before it, nothing else is on the stack. -/
theorem Shape.stack_nil (hc : Shape c) {f : Frame} (hn : c.next = some f)
    (hf : f.request?.isSome) : c.stack = [] := by
  have h := hc.alone
  obtain ⟨x, hx⟩ := Option.isSome_iff_exists.mp hf
  cases hs : c.stack with
  | nil => rfl
  | cons g k =>
    obtain ⟨y, hy⟩ := Option.isSome_iff_exists.mp (hc.stack g (by simp [hs]))
    simp [held, hn, hs, hx, hy] at h

theorem Shape.deliver (hc : Shape c) {k : Nat} {e : Event} (hn : c.next = some (.deliver k e))
    (h : { c with next := none }.Takes (Pipe.deliver c.state k e) c') :
    Shape c' ∧ (desk c).Moves [] (desk c') := by
  have ho : Outer (Pipe.deliver c.state k e) ∧ (Pipe.deliver c.state k e).state.hub = c.state.hub ∧
      (Pipe.deliver c.state k e).state.receivers.length = c.state.receivers.length ∧
      (Pipe.deliver c.state k e).wakes.filterMap Task.request? = [] := by
    unfold Pipe.deliver
    split
    · exact ⟨.of_plain rfl trivial hc.addressed, rfl, rfl, rfl⟩
    · exact ⟨.of_plain rfl trivial hc.addressed, rfl, rfl, rfl⟩
    · exact ⟨.of_plain rfl (by simp [Tame]) (hc.addressed.mono rfl (by simp)), rfl, by simp, rfl⟩
  obtain ⟨ho, hh, hr, hw⟩ := ho
  rw [← desk_next hn rfl]
  refine ho.takes hc.next_none rfl ?_ h
  have := (Desk.Move.quiet (d := desk { c with next := none }) _ id).moves
  simpa [Desk.after, desk, hh, hr, hw, woken] using this

theorem Shape.collect (hc : Shape c) {k : Nat} {ts : List Task} (hn : c.next = none)
    (hr : c.ready = .collector k :: ts)
    (h : { c with ready := ts }.Takes (Pipe.poll c.state (.collector k)) c') :
    Shape c' ∧ (desk c).Moves [] (desk c') := by
  have ho : Outer (Pipe.poll c.state (.collector k)) ∧
      (Pipe.poll c.state (.collector k)).state.hub = c.state.hub ∧
      (Pipe.poll c.state (.collector k)).state.receivers = c.state.receivers ∧
      (Pipe.poll c.state (.collector k)).wakes = [] := by
    simp only [Pipe.poll]
    split
    · exact ⟨.of_plain rfl trivial hc.addressed, rfl, rfl, rfl⟩
    · split <;> exact ⟨.of_plain rfl trivial hc.addressed, rfl, rfl, rfl⟩
  obtain ⟨ho, hh, hr', hw⟩ := ho
  have hd : desk { c with ready := ts } = desk c := by
    simp only [desk, hr]
    rw [List.filterMap_cons_none rfl]
    rfl
  have hc' : Shape { c with ready := ts } := ⟨hc.alone, hc.stack, hc.waiting, hc.addressed⟩
  rw [← hd]
  refine ho.takes hc' hn ?_ h
  have := (Desk.Move.quiet (d := desk { c with ready := ts }) _ id).moves
  simpa [Desk.after, desk, hh, hr', hw, woken] using this

theorem Shape.serve (hc : Shape c) {r : Nat} (hn : c.next = some (.serve r))
    (h : { c with next := none }.Takes (Pipe.serve c.state r) c') :
    Shape c' ∧ (desk c).Moves (serveDeeds c.state r) (desk c') := by
  have hs : (desk c).Serves r (desk c).ready :=
    .resume (by simp [desk, held, hn, Frame.request?]) (by simp [desk, hn, Frame.request?])
  exact (serve_turns hc.addressed rfl rfl hs).takes hc.next_none rfl (hc.stack_nil hn rfl) h

theorem Shape.poll (hc : Shape c) {r : Nat} {ts : List Task} (hn : c.next = none)
    (hk : c.stack = []) (hr : c.ready = .request r :: ts)
    (h : { c with ready := ts }.Takes (Pipe.serve c.state r) c') :
    Shape c' ∧ (desk c).Moves (serveDeeds c.state r) (desk c') := by
  have hs : (desk c).Serves r (desk { c with ready := ts }).ready :=
    .poll (by simp [desk, held, hn, hk]) (by simp [desk, hr, Task.request?])
  have hc' : Shape { c with ready := ts } := ⟨hc.alone, hc.stack, hc.waiting, hc.addressed⟩
  exact (serve_turns hc.addressed rfl rfl hs).takes hc' hn hk h

theorem Shape.finish (hc : Shape c) {r : Nat} (hn : c.next = some (.finish r))
    (h : { c with next := none }.Takes (Pipe.resume c.state (.finish r)) c') :
    Shape c' ∧ (desk c).Moves [] (desk c') := by
  have hk := hc.stack_nil hn rfl
  have ho : Outer (Pipe.resume c.state (.finish r)) :=
    .of_plain rfl trivial (hc.addressed.finish r)
  obtain ⟨hc', now, -, hd⟩ := hc.next_none.takes rfl ho.tame ho.addressed
    (by rw [ho.left, List.nil_append]; exact hc.next_none.alone) h
  refine ⟨hc', ?_⟩
  have hm := (Desk.Move.finish (d := desk c) (r := r)
    (by simp [desk, held, hn, Frame.request?])).moves.more (.quiet now (by simp))
  rw [hd, ho.left]
  simpa [Desk.after, desk, held, hk, Pipe.resume, finish_hub, finish_receivers, finish_wakes] using hm

theorem Shape.unwind (hc : Shape c) {f : Frame} {k : List Frame} (hn : c.next = none)
    (hk : c.stack = f :: k) :
    Shape ({ c with stack := k }.discard f) ∧
      (desk c).Moves (deedsAt ⟨c.state, .unwind f⟩) (desk ({ c with stack := k }.discard f)) := by
  have hk' : k = [] := by
    have h := hc.alone
    cases k with
    | nil => rfl
    | cons g k =>
      obtain ⟨x, hx⟩ := Option.isSome_iff_exists.mp (hc.stack f (by simp [hk]))
      obtain ⟨y, hy⟩ := Option.isSome_iff_exists.mp (hc.stack g (by simp [hk]))
      simp [held, hn, hk, hx, hy] at h
  subst hk'
  cases f with
  | deliver k e =>
    have := hc.stack (.deliver k e) (by simp [hk])
    cases this
  | serve r =>
    refine ⟨⟨by simp [held, Config.discard, hn], by simp [Config.discard], hc.waiting,
      hc.addressed.finish r⟩, ?_⟩
    have hm := (Desk.Move.unwind (d := desk c) (r := r)
      (by simp [desk, held, hn, hk, Frame.request?]) (by simp [desk, hn])).moves
    simpa [Config.discard, desk, held, hn, hk, deedsAt, receiver?, Pipe.unwind, finish_hub,
      finish_receivers, finish_wakes, ready_woken] using hm
  | finish r =>
    refine ⟨⟨by simp [held, Config.discard, hn], by simp [Config.discard], hc.waiting,
      hc.addressed.finish r⟩, ?_⟩
    have hm := (Desk.Move.finish (d := desk c) (r := r)
      (by simp [desk, held, hn, hk, Frame.request?])).moves
    simpa [Config.discard, desk, held, hn, hk, deedsAt, receiver?, Pipe.unwind, finish_hub,
      finish_receivers, finish_wakes, ready_woken] using hm

/-- A step keeps the shape of a configuration and is a few moves of its desk, in which the same is
done. -/
theorem Shape.moves (hc : Shape c) (hs : c.state.Housed) {cause : Option (Cause component)} (h : c.Step cause c') :
    Shape c' ∧ (desk c).Moves (deeds (c.moment cause)) (desk c') := by
  cases h with
  | still hf =>
    obtain ⟨hc', now, hnow, hd⟩ := hc.faces hf
    exact ⟨hc', hd ▸ (Desk.Move.quiet now hnow).moves⟩
  | @exec view a _ hn ht =>
    have hm := exec_moves (d := desk c) view rfl rfl (by simp [desk, hn]) hs a
    have := (exec_outer view hc.addressed a).takes hc hn hm ht
    simpa [deeds, Config.moment, deedsAt] using this
  | @resume f _ hn ht =>
    cases f with
    | serve r => simpa [deeds, Config.moment, deedsAt] using hc.serve hn ht
    | finish r => simpa [deeds, Config.moment, deedsAt] using hc.finish hn ht
    | deliver k e => simpa [deeds, Config.moment, deedsAt] using hc.deliver hn ht
  | @unwind f k _ hn hk hf =>
    subst hf
    simpa [deeds, Config.moment] using hc.unwind hn hk
  | @poll t ts _ hn hk hr ht =>
    cases t with
    | request r => simpa [deeds, Config.moment, deedsAt] using hc.poll hn hk hr ht
    | collector k => simpa [deeds, Config.moment, deedsAt] using hc.collect hn hr ht
  | tick hn => exact ⟨⟨hc.alone, hc.stack, hc.waiting, hc.addressed⟩, (Desk.Move.quiet _ id).moves⟩
  | @begin v w rest hn hv =>
    have hw : w.request? = none ∧ ∀ f ∈ rest, f.request? = none := by
      have := hc.waiting _ (List.mem_of_getElem? hv)
      simpa using this
    have hh : held { c with next := some w, waiting := c.waiting.set v rest } = held c := by
      simp [held, hn, hw.1]
    refine ⟨⟨by rw [hh]; exact hc.alone, hc.stack, ?_, hc.addressed⟩, ?_⟩
    · intro line hline
      rcases List.mem_or_eq_of_mem_set hline with hl | rfl
      · exact hc.waiting line hl
      · exact hw.2
    · have hm := (Desk.Move.quiet (d := desk c) _ id).moves
      simpa [desk, hh, hn, hw.1, deeds, Config.moment] using hm
  | @opened _ hn hf =>
    have h₁ : Shape { c with waiting := c.waiting ++ [[]] } := by
      refine ⟨hc.alone, hc.stack, ?_, hc.addressed⟩
      intro line hline
      rcases List.mem_append.mp hline with hl | hl
      · exact hc.waiting line hl
      · simp_all
    obtain ⟨hc', now, hnow, hd⟩ := h₁.faces hf
    exact ⟨hc', hd ▸ (Desk.Move.quiet now hnow).moves⟩

end Step

end Conduit.Pipe
