import Conduit.Proofs.Dispatch.Frames
import Conduit.Proofs.Pipe.Desk

/-!
The ends that were opened. Port `p` is the `p`-th end, a name stands for ends of its kind, and so
reads are issued on sources only, writes and flushes on sinks.
-/

namespace Conduit.Pipe

open Dispatch

/-- A name stands for ends of its kind. -/
structure Handle.Fits (es : List End) (h : Handle) : Prop where
  source : ∀ p, h.source? = some p → ∃ device limits, es[p]? = some (.source device limits)
  sink : ∀ p, h.sink? = some p → ∃ device limits, es[p]? = some (.sink device limits)

/-- A request is issued on an end of its kind. -/
def End.Takes : End → Job → Prop
  | .source _ _, job => ∃ n, job = .read n 0
  | .sink _ _, job => ∃ data, job = .ofData data

theorem Handle.Fits.mono {es : List End} {h : Handle} (hf : h.Fits es) (es' : List End) :
    h.Fits (es ++ es') := by
  constructor
  · intro p hp
    obtain ⟨device, limits, he⟩ := hf.source p hp
    obtain ⟨hlt, -⟩ := List.getElem?_eq_some_iff.mp he
    exact ⟨device, limits, by rw [List.getElem?_append_left hlt, he]⟩
  · intro p hp
    obtain ⟨device, limits, he⟩ := hf.sink p hp
    obtain ⟨hlt, -⟩ := List.getElem?_eq_some_iff.mp he
    exact ⟨device, limits, by rw [List.getElem?_append_left hlt, he]⟩

namespace Session

variable {s : Session} {es : List End}

/-- The names of a session stand for the ends that were opened. -/
def Fits (s : Session) (es : List End) : Prop := ∀ x ∈ s.handles, x.2.Fits es

theorem Fits.lookup (hs : s.Fits es) {id : String} {h : Handle}
    (hl : s.handles.lookup id = some h) : h.Fits es := by
  obtain ⟨l₁, l₂, he, -⟩ := List.lookup_eq_some_iff.mp hl
  exact hs (id, h) (he ▸ List.mem_append_right l₁ List.mem_cons_self)

theorem Fits.bind (hs : s.Fits es) {h : Handle} (hh : h.Fits es) (id : String) :
    (s.bind id h).Fits es := by
  intro x hx
  rcases List.mem_cons.mp hx with rfl | hx
  · exact hh
  · exact hs x (List.mem_filter.mp hx).1

theorem Fits.unbind (hs : s.Fits es) (id : String) : (s.unbind id).Fits es :=
  fun x hx => hs x (List.mem_filter.mp hx).1

theorem Fits.mono (hs : s.Fits es) (es' : List End) : s.Fits (es ++ es') :=
  fun x hx => (hs x hx).mono es'

theorem Fits.source (hs : s.Fits es) {id : String} {p : Nat} (h : s.source? id = some p) :
    ∃ device limits, es[p]? = some (.source device limits) := by
  obtain ⟨a, ha, hp⟩ := Option.bind_eq_some_iff.mp h
  exact (hs.lookup ha).source p hp

theorem Fits.sink (hs : s.Fits es) {id : String} {p : Nat} (h : s.sink? id = some p) :
    ∃ device limits, es[p]? = some (.sink device limits) := by
  obtain ⟨a, ha, hp⟩ := Option.bind_eq_some_iff.mp h
  exact (hs.lookup ha).sink p hp

theorem request_handles (s : Session) (p : Nat) (job : Job) (receiver : Receiver)
    (more : List Task) : (request s p job receiver more).state.handles = s.handles := by
  unfold request
  dsimp only
  split <;> rfl

theorem close_handles (s : Session) (ps : List Nat) : (s.close ps).1.handles = s.handles := by
  unfold Session.close
  generalize ([] : List Nat) = ws
  induction ps generalizing s ws with
  | nil => rfl
  | cons p ps ih =>
    rw [List.foldl_cons, ih]

/-- Actions bind names to ends of their kind only. -/
theorem Fits.exec (hs : s.Fits es) (hlen : s.hub.ports.length = es.length) (view : View)
    (a : Action) : (exec view s a).state.Fits (es ++ (open? a).toList) := by
  have keep {s' : Session} (h : s'.handles = s.handles) (es' : List End) : s'.Fits (es ++ es') := by
    intro x hx
    exact (hs x (h ▸ hx)).mono es'
  have hnew (e : End) : (es ++ [e])[s.hub.ports.length]? = some e := by simp [hlen]
  cases a with
  | source id device limits =>
    refine Fits.bind (s := s.addPort id device limits.read) (hs.mono _) ⟨?_, by simp [Handle.sink?]⟩ id
    intro p hp
    cases hp
    exact ⟨device, limits, hnew _⟩
  | sink id device limits =>
    refine Fits.bind (s := s.addPort id device limits.write) (hs.mono _) ⟨by simp [Handle.source?], ?_⟩
      id
    intro p hp
    cases hp
    exact ⟨device, limits, hnew _⟩
  | pair id source sink =>
    simp only [Pipe.exec]
    split
    · rename_i p p' hp hp'
      refine (hs.mono _).bind ⟨fun i hi => ?_, fun i hi => ?_⟩ id
      · cases hi
        exact ((hs.lookup hp).mono _).source p rfl
      · cases hi
        exact ((hs.lookup hp').mono _).sink p' rfl
    · exact keep rfl _
  | split id source sink =>
    simp only [Pipe.exec]
    split
    · rename_i p p' hp
      have hf := (hs.lookup hp).mono (open? (.split id source sink)).toList
      refine (((hs.mono _).unbind id).bind ⟨fun i hi => ?_, by simp [Handle.sink?]⟩ source).bind
        ⟨by simp [Handle.source?], fun i hi => ?_⟩ sink
      · cases hi
        exact hf.source p rfl
      · cases hi
        exact hf.sink p' rfl
    · exact (hs.mono _).unbind id
  | feed | describe =>
    simp only [Pipe.exec]
    split <;> exact keep rfl _
  | drop id => exact (hs.mono _).unbind id
  | requestRead | requestWrite =>
    simp only [Pipe.exec]
    split
    · exact keep rfl _
    · exact keep rfl _
    · exact keep (request_handles ..) _
  | readAll | writeAll =>
    simp only [Pipe.exec]
    split
    · exact keep rfl _
    · refine keep ?_ _
      exact request_handles ..
  | close id =>
    simp only [Pipe.exec]
    split
    · exact keep rfl _
    · exact keep (close_handles ..) _

/-- Actions issue requests on ends of their kind only. -/
theorem Fits.issue (hs : s.Fits es) {view : View} {a : Action} {p : Nat} {job : Job}
    (h : issue? view s a = some (p, job)) : ∃ e, es[p]? = some e ∧ e.Takes job := by
  have hread {id : String} {n : Nat} (hp : s.source? id = some p) (hj : job = .read n 0) :
      ∃ e, es[p]? = some e ∧ e.Takes job := by
    obtain ⟨device, limits, he⟩ := hs.source hp
    exact ⟨_, he, n, hj⟩
  have hwrite {id : String} {data : Bytes} (hp : s.sink? id = some p) (hj : job = .ofData data) :
      ∃ e, es[p]? = some e ∧ e.Takes job := by
    obtain ⟨device, limits, he⟩ := hs.sink hp
    exact ⟨_, he, data, hj⟩
  cases a with
  | requestRead =>
    simp only [issue?] at h
    split at h
    · rename_i hp _
      cases h
      exact hread hp rfl
    · cases h
  | requestWrite =>
    simp only [issue?] at h
    split at h
    · rename_i hp _
      cases h
      exact hwrite hp rfl
    · cases h
  | readAll =>
    obtain ⟨p', hp, he⟩ := Option.map_eq_some_iff.mp h
    cases he
    exact hread hp rfl
  | writeAll =>
    obtain ⟨p', hp, he⟩ := Option.map_eq_some_iff.mp h
    cases he
    exact hwrite hp rfl
  | _ => cases h

end Session

/-- The ports of a desk are those of the ends that were opened. -/
def Desk.Opened (d : Desk) (es : List End) : Prop :=
  d.hub.ports.map (·.chunk) = es.map (·.chunk)

theorem opened_nil_of_reports (n : Next signature) : opened (reports n) = [] := by
  unfold reports
  split <;> rfl

theorem opened_exec (view : View) (s : Session) (a : Action) :
    opened (execDeeds view s a) = (open? a).toList := by
  simp only [execDeeds, opened_append, opened_nil_of_reports, List.append_nil]
  cases open? a <;> cases issue? view s a <;> rfl

theorem opened_serve (s : Session) (r : Nat) : opened (serveDeeds s r) = [] := by
  have huse (o : Option Nat) (us : List Use) : opened (us.map (.used o)) = [] := by
    simp [opened, List.filterMap_map, Deed.end?]
  have hlost (o : Option Nat) : opened (o.toList.map (.lost · false)) = [] := by
    cases o <;> rfl
  simp only [serveDeeds, opened_append, opened_nil_of_reports, huse, List.append_nil,
    List.nil_append]
  split
  · exact hlost _
  · rfl

section Fields

variable {β : Type} {g : Port → β}

theorem modifyPort_map (h : Hub) (p : Nat) {f : Port → Port} (hf : ∀ q, g (f q) = g q) :
    (h.modifyPort p f).ports.map g = h.ports.map g := by
  apply List.ext_getElem?
  intro i
  simp only [Hub.modifyPort, List.getElem?_map, List.getElem?_modify]
  split
  · simp [Function.comp_def, hf]
  · simp

theorem put_map {h : Hub} {r : Nat} {q : Request} {port port' : Port}
    (hp : h.ports[q.port]? = some port) (hg : g port' = g port) :
    (h.put r q port').ports.map g = h.ports.map g := by
  obtain ⟨hlt, rfl⟩ := List.getElem?_eq_some_iff.mp hp
  rw [Hub.put, List.map_set, hg]
  have := @List.set_getElem_self _ (h.ports.map g) q.port (by simpa using hlt)
  rwa [List.getElem_map] at this

/-- The end of a request changes only who holds its port and who waits for it. -/
theorem finish_map (hg : ∀ (q : Port) (holder : Option Nat) (line watchers : List Nat),
    g { q with holder, line, watchers } = g q) (h : Hub) (r : Nat) :
    (h.finish r).1.ports.map g = h.ports.map g := by
  have leave (h : Hub) (p : Nat) : (h.leave p r).ports.map g = h.ports.map g :=
    modifyPort_map h p fun q => hg q q.holder _ _
  unfold Hub.finish
  split
  · rfl
  · unfold Hub.unlock
    split
    · exact leave ..
    · split
      · refine (modifyPort_map _ _ ?_).trans (leave ..)
        exact fun q => hg q _ _ q.watchers
      · exact leave ..

end Fields

theorem close_chunks (h : Hub) (p : Nat) :
    (h.close p).1.ports.map (·.chunk) = h.ports.map (·.chunk) := by
  unfold Hub.close
  split
  · rfl
  · split
    · rfl
    · exact modifyPort_map h p fun _ => rfl

theorem Desk.Opened.move {d d' : Desk} {h ds : List Deed} (ho : d.Opened (opened h))
    (m : d.Move ds d') : d'.Opened (opened (h ++ ds)) := by
  have same {d' : Desk} {ds : List Deed} (hp : d'.hub.ports.map (·.chunk) =
      d.hub.ports.map (·.chunk)) (hds : opened ds = []) : d'.Opened (opened (h ++ ds)) := by
    rw [Desk.Opened, hp, opened_append, hds, List.append_nil]
    exact ho
  cases m with
  | quiet | feed | refuse | ask | skip => exact same rfl rfl
  | opens e =>
    simp only [Desk.Opened, Hub.addPort, opened_append, List.map_append]
    rw [ho]
    rfl
  | close => exact same (close_chunks ..) rfl
  | serve _ _ hp _ hv hl =>
    refine same (put_map (hv.port_eq ▸ hp) hv.chunk_eq) ?_
    rw [opened_append]
    cases hl <;> simp [opened, List.filterMap_map, Deed.end?]
  | finish => exact same (finish_map (fun _ _ _ _ => rfl) ..) rfl
  | unwind =>
    refine same (finish_map (fun _ _ _ _ => rfl) ..) ?_
    simp [opened, List.filterMap_map, Deed.end?]

/-- What names stand for and what requests were issued agrees with the ends that were opened. -/
structure Fitting (s : Session) (h : List Deed) : Prop where
  names : s.Fits (opened h)
  asked : ∀ k p job, .asked k p job ∈ h → ∃ e, (opened h)[p]? = some e ∧ e.Takes job

theorem Fitting.exec {s s' : Session} {h : List Deed} (hf : Fitting s h)
    (hlen : s.hub.ports.length = (opened h).length) (view : View) (a : Action)
    (hs : s'.handles = (exec view s a).state.handles) :
    Fitting s' (h ++ execDeeds view s a) := by
  constructor
  · intro x hx
    rw [opened_append, opened_exec]
    exact hf.names.exec hlen view a x (hs ▸ hx)
  · intro k p job hm
    have hasked : ∃ e, (opened h)[p]? = some e ∧ e.Takes job := by
      rcases List.mem_append.mp hm with hm | hm
      · exact hf.asked k p job hm
      · refine @Session.Fits.issue _ _ hf.names view a _ _ ?_
        have hopen : Deed.asked k p job ∉ (open? a).toList.map Deed.opened := by
          cases open? a <;> simp
        have hreport : Deed.asked k p job ∉ reports (Pipe.exec view s a).next := by
          unfold reports
          split <;> simp
        simp only [execDeeds, List.mem_append, hopen, hreport, or_false, false_or,
          List.mem_map, Option.mem_toList] at hm
        obtain ⟨⟨p', job'⟩, hi, he⟩ := hm
        cases he
        exact hi
    obtain ⟨e, he, ht⟩ := hasked
    obtain ⟨hlt, -⟩ := List.getElem?_eq_some_iff.mp he
    exact ⟨e, by rw [opened_append, List.getElem?_append_left hlt, he], ht⟩

theorem Fitting.still {s s' : Session} {h ds : List Deed} (hf : Fitting s h)
    (hs : s'.handles = s.handles) (ho : opened ds = []) (ha : ∀ k p job, Deed.asked k p job ∉ ds) :
    Fitting s' (h ++ ds) := by
  have he : opened (h ++ ds) = opened h := by rw [opened_append, ho, List.append_nil]
  refine ⟨?_, fun k p job hm => ?_⟩
  · rw [he]
    exact fun x hx => hf.names x (hs ▸ hx)
  · rw [he]
    exact hf.asked k p job ((List.mem_append.mp hm).resolve_right (ha k p job))

theorem finish_handles (s : Session) (r : Nat) : (finish s r).1.handles = s.handles := by
  simp only [finish, endCollector]
  split <;> rfl

theorem serve_handles (s : Session) (r : Nat) : (serve s r).state.handles = s.handles := by
  unfold serve
  dsimp only
  split
  · rfl
  · rfl
  · exact finish_handles ..
  · split <;> rfl

theorem resume_handles (s : Session) (f : Frame) : (resume s f).state.handles = s.handles := by
  cases f with
  | serve r => exact serve_handles s r
  | finish r => exact finish_handles s r
  | deliver k e =>
    simp only [resume, deliver]
    split <;> rfl

theorem unwind_handles (s : Session) (f : Frame) : (unwind s f).1.handles = s.handles := by
  cases f with
  | serve r => exact finish_handles s r
  | finish r => exact finish_handles s r
  | deliver => rfl

theorem poll_handles (s : Session) (t : Task) : (poll s t).state.handles = s.handles := by
  cases t with
  | request r => exact serve_handles s r
  | collector k =>
    simp only [poll]
    split
    · rfl
    · split <;> rfl

theorem asked_serve (s : Session) (r k p : Nat) (job : Job) :
    Deed.asked k p job ∉ serveDeeds s r := by
  have hreport : Deed.asked k p job ∉ reports (serve s r).next := by
    unfold reports
    split <;> simp
  simp only [serveDeeds, List.mem_append, hreport, or_false, not_or]
  refine ⟨by simp, ?_⟩
  split <;> simp

theorem Fitting.step {c c' : Config component} {cause : Option (Cause component)} {h : List Deed}
    (hf : Fitting c.state h) (hlen : c.state.hub.ports.length = (opened h).length)
    (hs : c.Step cause c') : Fitting c'.state (h ++ deeds (c.moment cause)) := by
  have takes {c : Config component} {t : Turn signature} (ht : c.Takes t c') :
      c'.state.handles = t.state.handles :=
    ht.state_eq (fun s : Session => s.handles) unwind_handles
  have lost (o : Option Nat) : opened (o.toList.map (.lost · true)) = [] ∧
      ∀ k p job, Deed.asked k p job ∉ o.toList.map (Deed.lost · true) := by
    cases o <;> simp [opened, Deed.end?]
  cases hs with
  | still hface | opened _ hface =>
    exact hf.still (by rw [hface.state_eq]) rfl (by simp [deeds, Config.moment])
  | begin | tick => exact hf.still rfl rfl (by simp [deeds, Config.moment, deedsAt])
  | @exec view a _ _ ht =>
    have := hf.exec hlen view a (takes ht)
    simpa [deeds, Config.moment, deedsAt] using this
  | @resume f _ _ ht =>
    have hs : c'.state.handles = c.state.handles := (takes ht).trans (resume_handles ..)
    cases f with
    | serve r =>
      simpa [deeds, Config.moment, deedsAt] using
        hf.still hs (opened_serve c.state r) (asked_serve c.state r)
    | finish | deliver =>
      simpa [deeds, Config.moment, deedsAt] using @Fitting.still _ _ _ [] hf hs rfl (by simp)
  | @unwind f _ _ _ _ hd =>
    have hs : c'.state.handles = c.state.handles := by
      rw [← hd]
      exact unwind_handles c.state f
    cases f with
    | serve r =>
      simpa [deeds, Config.moment, deedsAt] using hf.still hs (lost _).1 (lost _).2
    | finish | deliver =>
      simpa [deeds, Config.moment, deedsAt] using @Fitting.still _ _ _ [] hf hs rfl (by simp)
  | @poll t _ _ _ _ _ ht =>
    have hs : c'.state.handles = c.state.handles := (takes ht).trans (poll_handles ..)
    cases t with
    | request r =>
      simpa [deeds, Config.moment, deedsAt] using
        hf.still hs (opened_serve c.state r) (asked_serve c.state r)
    | collector =>
      simpa [deeds, Config.moment, deedsAt] using @Fitting.still _ _ _ [] hf hs rfl (by simp)

theorem Fitting.housed {s : Session} {h : List Deed} (hf : Fitting s h)
    (hlen : s.hub.ports.length = (opened h).length) : s.Housed := by
  intro id a ha p hp
  have hfit := hf.names.lookup ha
  have hport : ∃ e, (opened h)[p]? = some e := by
    cases a with
    | source p' =>
      obtain ⟨_, _, he⟩ := hfit.source p' rfl
      exact ⟨_, List.mem_singleton.mp hp ▸ he⟩
    | sink p' =>
      obtain ⟨_, _, he⟩ := hfit.sink p' rfl
      exact ⟨_, List.mem_singleton.mp hp ▸ he⟩
    | pair p' p'' =>
      obtain ⟨_, _, he⟩ := hfit.source p' rfl
      obtain ⟨_, _, he'⟩ := hfit.sink p'' rfl
      rcases List.mem_cons.mp hp with rfl | hp
      · exact ⟨_, he⟩
      · exact ⟨_, List.mem_singleton.mp hp ▸ he'⟩
  obtain ⟨e, he⟩ := hport
  rw [hlen]
  exact (List.getElem?_eq_some_iff.mp he).1

end Conduit.Pipe
