import Conduit.Proofs.Dispatch.Calm
import Conduit.Proofs.Pipe.Shut

/-!
Closing is final. Once a name has been closed, nothing more is asked of the devices behind it. Every
request on them makes one last report, that its port is closed, and the devices are let go of. Only a
read whose buffer could not be had before is left without a report.
-/

namespace Conduit.Pipe

open Dispatch

/-- The report of a request that finds its port closed, when its device has moved `taken`. -/
inductive ClosedReport : Job → Bytes → Event → Prop where
  | read {n taken} : ClosedReport (.read n 0) taken (.read (.failed .closed))
  | write {taken rest} : ClosedReport (.write (taken ++ rest)) taken (.write (.failed rest .closed))
  | flush {taken} : ClosedReport .flush taken (.write (.failed [] .closed))

/-- What is done after a port was closed. -/
structure CloseContract (x : Execution start) (y : Execution x.machine) (p : Nat) : Prop where
  closed : y.machine.state.hub.isClosed p = true
  /-- Nothing is taken from the device, offered to it or flushed. -/
  untouched : usesOf p (history y) = []
  /-- When nothing is left to do, each request that was not over has made one report. -/
  pending : y.machine.advance? = none → ∀ k job, .asked k p job ∈ history x →
    (∀ e ∈ events k (history x), e.done = false) → ¬Gone k (history x) →
    ∃ e, events k (history y) = [e] ∧ ClosedReport job (moved k (history x)) e
  finished : ∀ k ∈ issued p (history x), (∃ e ∈ events k (history x), e.done = true) ∨
    Gone k (history x) → events k (history y) = []
  later : ∀ k job, .asked k p job ∈ history y →
    ∃ e, events k (history y) = [e] ∧ ClosedReport job [] e
  /-- When nothing is left to do, the device has been let go of. -/
  released : y.machine.advance? = none →
    ∃ port, y.machine.state.hub.ports[p]? = some port ∧ port.released = true
  /-- Only a read whose buffer could not be had ends without a report. -/
  gone : ∀ k job, .asked k p job ∈ history x ++ history y → Gone k (history x ++ history y) →
    ∃ e, (opened (history x))[p]? = some e ∧ Hub.overflows e.chunk job = true

section Reports

variable {chunk p : Nat} {closed : Prop} {job : Job} {a : List Act}

/-- The report of a request on a closed port says what its device has not moved. -/
theorem Tale.closedReport (h : Tale chunk p closed job a (.running (job.left a)))
    (hj : job.Initial) : ClosedReport job (a.flatMap (·.moved)) (job.left a).closedEvent := by
  cases job with
  | read n d =>
    obtain rfl : d = 0 := hj
    obtain ⟨d, hd, -⟩ := h.read
    rw [hd]
    exact .read
  | write data =>
    obtain ⟨rest, hrest, hw⟩ := h.write hj
    rw [hrest]
    have := hw.account
    generalize a.flatMap (·.moved) = taken at this ⊢
    subst this
    exact .write
  | flush =>
    rw [h.flush.2 _ rfl]
    exact .flush
  | release => exact hj.elim

theorem closedReport_issued (job : Job) (hj : job.Initial) :
    ClosedReport job [] job.closedEvent := by
  cases job with
  | read n d =>
    obtain rfl : d = 0 := hj
    exact .read
  | write data => exact @ClosedReport.write [] data
  | flush => exact .flush
  | release => exact hj.elim

end Reports

theorem events_eq {k : Nat} {h : List Deed} {e : Event} (ha : acts k h = [.tell e]) :
    events k h = [e] := by
  simp [events, ha, Act.event?]

theorem mem_reports {d : Deed} {n : Next signature} (h : d ∈ reports n) : ∃ k e, d = .told k e := by
  unfold reports at h
  split at h
  · exact ⟨_, _, List.mem_singleton.mp h⟩
  · exact ⟨_, _, List.mem_singleton.mp h⟩
  · cases h

/-- A request is lost to a throw only when a throw passes its frame. -/
theorem unwind_of_lost {q : Moment component} {k : Nat} (h : .lost k true ∈ deedsAt q) :
    ∃ r, q.cause = .unwind (.serve r) := by
  have serve (s : Session) (r : Nat) : .lost k true ∉ serveDeeds s r := by
    intro h
    rcases List.mem_append.mp h with h | h
    · rcases List.mem_append.mp h with h | h
      · simp at h
      · split at h
        · simp at h
        · cases h
    · obtain ⟨_, _, h⟩ := mem_reports h
      cases h
  obtain ⟨s, cause⟩ := q
  cases cause with
  | exec view a =>
    rcases List.mem_append.mp h with h | h
    · simp at h
    · obtain ⟨_, _, h⟩ := mem_reports h
      cases h
  | resume f =>
    cases f with
    | serve r => exact absurd h (serve s r)
    | _ => cases h
  | unwind f =>
    cases f with
    | serve r => exact ⟨r, rfl⟩
    | _ => cases h
  | poll t =>
    cases t with
    | request r => exact absurd h (serve s r)
    | collector => cases h
  | tick => cases h

theorem start_tame : start.Tame := ⟨by simp [start], by simp [start]⟩

/-- When nothing throws, no request is lost to a throw. -/
theorem not_thrown (x : Execution start) (hc : Calm x.past) (k : Nat) :
    .lost k true ∉ history x := by
  intro h
  obtain ⟨q, hq, h⟩ := List.mem_flatMap.mp h
  obtain ⟨r, hr⟩ := unwind_of_lost h
  have := (x.run.tame start_tame hc).2 q hq
  simp [Moment.passed, hr] at this

/-- A machine with nothing to do serves no request and has none to serve. -/
theorem desk_of_settled {m : Machine component} (h : m.advance? = none) :
    (desk m.config).current = none ∧ (desk m.config).ready = [] := by
  obtain ⟨hnext, hstack, hready⟩ := Machine.config_of_settled h
  simp [desk, held, hnext, hstack, hready]

/-- What is known after a port was closed. -/
theorem stilled (x : Execution start) (y : Execution x.machine) {p : Nat}
    (hs : (desk x.machine.config).Shut p) :
    (desk y.machine.config).Stilled p x.machine.state.receivers.length (history x) (history y) ∧
      (desk y.machine.config).hub.Keeps (desk x.machine.config).hub := by
  obtain ⟨hk, hl⟩ := ledger x
  have := run_induction y.run hk
    (fun h d => d.Ledger h ∧ d.hub.Keeps (desk x.machine.config).hub ∧ ∃ later,
      h = history x ++ later ∧
        d.Stilled p x.machine.state.receivers.length (history x) later)
    ⟨hl, .refl _, [], by simp, hs, by simp [desk], rfl, by simp, by simp [issued]⟩ ?_
  · obtain ⟨-, -, hkeeps, later, he, hstill⟩ := this
    obtain rfl := List.append_cancel_left he
    exact ⟨hstill, hkeeps⟩
  · rintro h d ds d' hd - ⟨hl, hkeeps, later, rfl, hstill⟩ m
    exact ⟨hl.move hd m, m.keeps.trans hkeeps, later ++ ds, List.append_assoc ..,
      hstill.move hd hl.accounts m⟩

/-- A request without a report, though nothing threw, needs a larger buffer than there can be. -/
theorem overflows_of_gone (x : Execution start) (hc : Calm x.past) {k p : Nat} {job : Job}
    (hasked : .asked k p job ∈ history x) (hgone : Gone k (history x)) :
    ∃ e, (opened (history x))[p]? = some e ∧ Hub.overflows e.chunk job = true := by
  have := run_induction x.run known_start (fun h d => d.Ledger h ∧ d.Crashed h) ?_
    fun h d ds d' hd _ hi m => ⟨hi.1.move hd m, hi.2.move hi.1.accounts m⟩
  · obtain ⟨thrown, hlost⟩ := hgone
    cases thrown with
    | true => exact absurd hlost (not_thrown x hc k)
    | false =>
      rw [List.nil_append] at this
      obtain ⟨port, hp, hv⟩ := this.2.2 k p job hasked hlost
      have hmap := congrArg (·[p]?) this.1.opened
      simp only [List.getElem?_map, hp, Option.map_some, eq_comm (a := some _),
        Option.map_eq_some_iff] at hmap
      obtain ⟨e, he, hchunk⟩ := hmap
      exact ⟨e, he, hchunk ▸ hv⟩
  · exact ⟨(ledger (.begin start)).2, by simp [Desk.Crashed]⟩

theorem mem_usesOf {k p : Nat} {u : Use} {h : List Deed} (hu : .use u ∈ acts k h)
    (hp : u.port = p) : u ∈ usesOf p h := by
  obtain ⟨d, hd, he⟩ := List.mem_filterMap.mp hu
  refine List.mem_filterMap.mpr ⟨d, hd, ?_⟩
  cases d with
  | used o v =>
    cases o with
    | none => cases he
    | some j =>
      simp only [Deed.act?, Option.ite_none_right_eq_some, Option.some.injEq, Act.use.injEq] at he
      obtain ⟨-, rfl⟩ := he
      exact if_pos hp
  | told j e => simp [Deed.act?] at he
  | _ => cases he

theorem tell_of_mem_events {k : Nat} {h : List Deed} {e : Event} (he : e ∈ events k h) :
    ∃ b c, acts k h = b ++ .tell e :: c := by
  obtain ⟨x, hx, he⟩ := List.mem_filterMap.mp he
  cases x with
  | use => cases he
  | tell =>
    cases he
    exact List.append_of_mem hx

/-- A request that was issued before its port was closed: how it stood then, how it stands now, and
what it did meanwhile. -/
structure Outlived (h₀ later : List Deed) (rest : Prop) (chunk k p : Nat) (job : Job) : Prop where
  initial : job.Initial
  stood : ∃ f, Tale chunk p True job (acts k h₀) f ∧ (f = .lost ↔ Gone k h₀)
  stands : ∃ f, Tale chunk p True job (acts k h₀ ++ acts k later) f ∧
    (f = .lost ↔ Gone k h₀) ∧ (rest → ∀ job', f ≠ .running job')
  unused : ∀ u, .use u ∉ acts k later

namespace Outlived

variable {h₀ later : List Deed} {rest : Prop} {chunk k p : Nat} {job : Job}

/-- A request that was not over makes at most one report, that its port is closed, and has made it
when nothing is left to do. -/
theorem pending (h : Outlived h₀ later rest chunk k p job)
    (hdone : ∀ e ∈ events k h₀, e.done = false) (hgone : ¬Gone k h₀) :
    (events k later = [] ∧ ¬rest) ∨
      ∃ e, events k later = [e] ∧ ClosedReport job (moved k h₀) e := by
  obtain ⟨f₀, ht₀, hl₀⟩ := h.stood
  obtain ⟨f₁, ht₁, hl₁, hr₁⟩ := h.stands
  cases f₀ with
  | lost => exact absurd (hl₀.mp rfl) hgone
  | ended =>
    obtain ⟨b, e, ha, he⟩ := ht₀.done_of_ended
    have := hdone e (by simp [events, ha, Act.event?])
    simp [he] at this
  | running job' =>
    obtain rfl := ht₀.eq_left _ rfl
    cases f₁ with
    | running job'' =>
      have hacts := ht₀.nil_of_running ht₁ h.unused
      exact .inl ⟨by simp [events, hacts], fun hrest => hr₁ hrest job'' rfl⟩
    | lost => exact absurd (hl₁.mp rfl) hgone
    | ended =>
      exact .inr ⟨_, events_eq (ht₀.eq_closed ht₁ h.unused), ht₀.closedReport h.initial⟩

/-- A request that was over reports nothing. -/
theorem finished (h : Outlived h₀ later rest chunk k p job)
    (hover : (∃ e ∈ events k h₀, e.done = true) ∨ Gone k h₀) : events k later = [] := by
  obtain ⟨f₀, ht₀, hl₀⟩ := h.stood
  obtain ⟨f₁, ht₁, hl₁, hr₁⟩ := h.stands
  have hacts : acts k later = [] := by
    rcases hover with ⟨e, he, hd⟩ | hgone
    · obtain ⟨b, c, ha⟩ := tell_of_mem_events he
      obtain ⟨-, rfl⟩ := ht₀.nil_of_done ha hd
      exact ht₀.nil_of_ended ht₁
    · obtain rfl := hl₁.mpr hgone
      exact ht₀.nil_of_lost ht₁ h.unused
  simp [events, hacts]

end Outlived

/-- What comes of the requests on a port that was closed after `h₀`, while what is done is `later`;
when `rest` holds nothing is left to do. -/
structure Closing (h₀ later : List Deed) (p : Nat) (rest : Prop) : Prop where
  untouched : usesOf p later = []
  pending : ∀ k job, .asked k p job ∈ h₀ → (∀ e ∈ events k h₀, e.done = false) → ¬Gone k h₀ →
    (events k later = [] ∧ ¬rest) ∨ ∃ e, events k later = [e] ∧ ClosedReport job (moved k h₀) e
  finished : ∀ k ∈ issued p h₀, (∃ e ∈ events k h₀, e.done = true) ∨ Gone k h₀ →
    events k later = []
  later : ∀ k job, .asked k p job ∈ later →
    ∃ e, events k later = [e] ∧ ClosedReport job [] e

theorem Closing.mono {h₀ later : List Deed} {p : Nat} {rest rest' : Prop}
    (h : Closing h₀ later p rest) (hr : rest' → rest) : Closing h₀ later p rest' where
  untouched := h.untouched
  pending k job hasked hdone hgone :=
    (h.pending k job hasked hdone hgone).imp_left fun ⟨he, hn⟩ => ⟨he, mt hr hn⟩
  finished := h.finished
  later := h.later

namespace Desk

variable {d₀ d : Desk} {h₀ later : List Deed} {n k p : Nat} {job : Job}

theorem Stilled.outlived (hs : d.Stilled p n h₀ later) (hd : d.Sound) (hl₀ : d₀.Accounts h₀)
    (hl : d.Accounts (h₀ ++ later)) (hkeeps : d.hub.Keeps d₀.hub)
    (hcalm : ∀ k, .lost k true ∉ later) (hasked : .asked k p job ∈ h₀) :
    ∃ chunk, Outlived h₀ later (d.current = none ∧ d.ready = []) chunk k p job := by
  obtain ⟨-, hj, hacc₀⟩ := hl₀.asked k p job hasked
  obtain ⟨-, -, hacc⟩ := hl.asked k p job (List.mem_append_left _ hasked)
  obtain ⟨port₀, f₀, hp₀, ht₀, hl₀, -⟩ := hacc₀.tale
  obtain ⟨port, f₁, hp, ht₁, hl₁, hr₁⟩ := hacc.tale
  obtain ⟨port', hp', hchunk, -⟩ := hkeeps p port₀ hp₀
  obtain rfl : port = port' := by simpa [hp] using hp'
  obtain ⟨port', hp', hcl⟩ := hs.shut
  obtain rfl : port = port' := by simpa [hp] using hp'
  have hgone : ¬Gone k later := by
    rintro ⟨thrown, hlost⟩
    cases thrown with
    | true => exact hcalm k hlost
    | false =>
      refine hs.unlost k ?_ hlost
      rw [issued_append]
      exact List.mem_append_left _ (mem_issued.mpr ⟨job, hasked⟩)
  rw [hchunk, acts_append] at ht₁
  refine ⟨port₀.chunk, hj, ⟨f₀, ht₀.mono fun _ => trivial, hl₀⟩,
    ⟨f₁, ht₁.mono fun _ => trivial, by simpa [hgone] using hl₁, ?_⟩, ?_⟩
  · rintro ⟨hcur, hready⟩ job' rfl
    obtain ⟨r, q, hq, hport, hph⟩ := hr₁ job' rfl
    exact hph (hd.finished hcur hready hq (hport ▸ hp) hcl).1
  · intro u hu
    have := mem_usesOf hu (ht₁.port_eq (List.mem_append_right _ hu))
    rw [hs.untouched] at this
    cases this

/-- A request that is issued on a closed port makes one report, at once. -/
theorem Stilled.issued_later (hs : d.Stilled p n h₀ later) (hl₀ : d₀.Accounts h₀)
    (hn : d₀.receivers ≤ n) (hl : d.Accounts (h₀ ++ later)) (hasked : .asked k p job ∈ later) :
    ∃ e, events k later = [e] ∧ ClosedReport job [] e := by
  obtain ⟨hle, hno⟩ := hs.refused k (mem_issued.mpr ⟨job, hasked⟩)
  obtain ⟨-, hj, hacc⟩ := hl.asked k p job (List.mem_append_right _ hasked)
  have hsilent := (hl₀.silent k (Nat.le_trans hn hle)).1
  cases hacc with
  | request hq hk => exact absurd hk (hno _ _ hq)
  | refused _ _ _ ha =>
    rw [acts_append, hsilent, List.nil_append] at ha
    exact ⟨_, events_eq ha, closedReport_issued job hj⟩

/-- After a port was closed, every request on it comes to its end as it should. -/
theorem Stilled.closing (hs : d.Stilled p n h₀ later) (hd : d.Sound) (hl₀ : d₀.Accounts h₀)
    (hn : d₀.receivers ≤ n) (hl : d.Accounts (h₀ ++ later)) (hkeeps : d.hub.Keeps d₀.hub)
    (hcalm : ∀ k, .lost k true ∉ later) :
    Closing h₀ later p (d.current = none ∧ d.ready = []) := by
  refine ⟨hs.untouched, fun k job hasked => ?_, fun k hk => ?_, fun k job =>
    hs.issued_later hl₀ hn hl⟩
  · obtain ⟨chunk, h⟩ := hs.outlived hd hl₀ hl hkeeps hcalm hasked
    exact h.pending
  · obtain ⟨job, hasked⟩ := mem_issued.mp hk
    obtain ⟨chunk, h⟩ := hs.outlived hd hl₀ hl hkeeps hcalm hasked
    exact h.finished

end Desk

section Contract

variable {x : Execution start} {y : Execution x.machine} {p : Nat}

/-- After a port was closed, everything on it comes to its end as it should. -/
theorem closeContract (hs : (desk x.machine.config).Shut p) (hc : Calm (x.past ++ y.past)) :
    CloseContract x y p := by
  have hz : history (x.andThen y) = history x ++ history y := deeds_append ..
  have hcalm (k : Nat) : .lost k true ∉ history y := fun hlost =>
    not_thrown (x.andThen y) hc k (hz ▸ List.mem_append_right _ hlost)
  obtain ⟨hstill, hkeeps⟩ := stilled x y hs
  have hall := ledger (x.andThen y)
  rw [hz] at hall
  have hclosing := hstill.closing hall.1.sound (ledger x).2.accounts (by simp [desk])
    hall.2.accounts hkeeps hcalm
  obtain ⟨port, hp, hcl⟩ := hstill.shut
  refine ⟨by simpa [desk] using hstill.shut.isClosed, hstill.untouched, ?_, hclosing.finished,
    hclosing.later, ?_, ?_⟩
  · intro hsettled k job hasked hdone hgone
    exact (hclosing.pending k job hasked hdone hgone).resolve_left fun h =>
      h.2 (desk_of_settled hsettled)
  · intro hsettled
    obtain ⟨hcur, hready⟩ := desk_of_settled hsettled
    exact ⟨port, by simpa [desk] using hp, hall.1.sound.released hcur hready hp hcl⟩
  · intro k job hasked hgone
    obtain ⟨e', he', hv⟩ := overflows_of_gone (x.andThen y) hc (hz ▸ hasked) (hz ▸ hgone)
    have hlt : p < (opened (history x)).length := by
      obtain ⟨port, hp, -⟩ := hs
      rw [← (ledger x).1.length_ports]
      exact (List.getElem?_eq_some_iff.mp hp).1
    rw [hz, opened_append, List.getElem?_append_left hlt] at he'
    exact ⟨e', he', hv⟩

end Contract

/-- A port that is closed is closed. -/
theorem Hub.close_closed {h : Hub} {p : Nat} {port : Port} (hp : h.ports[p]? = some port) :
    ∃ port', (h.close p).1.ports[p]? = some port' ∧ port'.closed = true := by
  unfold Hub.close
  rw [hp]
  dsimp only
  split
  · rename_i hc
    exact ⟨port, hp, hc⟩
  · exact ⟨{ port with closed := true, watchers := [] }, by simp [submit, modifyPort, hp], rfl⟩

/-- Closing a name closes all ports behind it. -/
theorem close_ports {s : Session} {h : Handle} (hh : ∀ p ∈ h.ports, p < s.hub.ports.length)
    {p : Nat} (hp : p ∈ h.ports) :
    ∃ port, (s.close h.ports).1.hub.ports[p]? = some port ∧ port.closed = true := by
  have port {p : Nat} (hp : p ∈ h.ports) : ∃ port, s.hub.ports[p]? = some port :=
    ⟨_, List.getElem?_eq_getElem (hh p hp)⟩
  cases h with
  | source p' | sink p' =>
    obtain rfl : p = p' := List.mem_singleton.mp hp
    rw [Handle.ports, close_one]
    exact Hub.close_closed (port hp).choose_spec
  | pair p₁ p₂ =>
    rw [Handle.ports, close_two]
    obtain ⟨port₁, h₁⟩ := port (p := p₁) (by simp [Handle.ports])
    obtain ⟨port₂, h₂⟩ := port (p := p₂) (by simp [Handle.ports])
    obtain ⟨port₂', h₂', -⟩ := Desk.close_spares h₂ p₁
    obtain ⟨port₁', h₁', hc₁⟩ := Hub.close_closed h₁
    obtain ⟨port₁'', h₁'', -, hc₁', -⟩ := Desk.close_spares h₁' p₂
    simp only [Handle.ports, List.mem_cons, List.not_mem_nil, or_false] at hp
    rcases hp with rfl | rfl
    · exact ⟨port₁'', h₁'', hc₁' hc₁⟩
    · exact Hub.close_closed h₂'

theorem exec_close {s : Session} {id : String} {h : Handle} (hh : s.handles.lookup id = some h)
    (view : View) : exec view s (.close id) =
      { state := (s.close h.ports).1, wakes := (s.close h.ports).2.map .request } := by
  simp [exec, hh]

/-- Once a name has been closed, all ports behind it stay closed. -/
theorem shut_of_close (x : Execution start) {s : Session} {view : View} {id : String} {h : Handle}
    (hq : ⟨s, .exec view (.close id)⟩ ∈ x.past) (hh : s.handles.lookup id = some h) {p : Nat}
    (hp : p ∈ h.ports) : (desk x.machine.config).Shut p := by
  obtain ⟨past₁, m₁, m₂, past₂, h₁, hm₁, hstep, h₂, -⟩ := x.run.split hq (by simp)
  have hk₁ := (ledger ⟨past₁, m₁, h₁⟩).1
  have hk₂ := (ledger ⟨_, m₂, h₁.advance hstep⟩).1
  simp only [Machine.moment?, Option.map_eq_some_iff, Moment.mk.injEq] at hm₁
  obtain ⟨cause, hcause, hs, rfl⟩ := hm₁
  have hhoused := hk₁.fitting.housed hk₁.length_ports
  rw [Machine.config_state, hs] at hhoused
  have hstate : m₂.state = (s.close h.ports).1 := by
    have hconfig := Machine.advance?_config hstep
    rw [hcause] at hconfig
    rw [← m₂.config_state]
    generalize m₂.config = c at hconfig ⊢
    cases hconfig with
    | exec hn ht =>
      rw [Machine.config_state, hs, show component.exec view s (.close id) = _ from
        exec_close hh view] at ht
      cases ht with
      | reply _ hf => exact hf.state_eq
      | _ => simp_all
  have hshut : (desk m₂.config).Shut p := by
    simpa [Desk.Shut, desk, hstate] using close_ports (hhoused id h hh) hp
  exact (run_induction h₂ hk₂ (fun _ d => d.Shut p) hshut fun _ _ _ _ _ _ hs m => m.shut hs).2

theorem Hub.close_of_closed {h : Hub} {p : Nat} (hc : h.isClosed p = true) :
    h.close p = (h, []) := by
  unfold close
  unfold isClosed at hc
  split
  · rfl
  · rename_i port hp
    rw [hp] at hc
    exact if_pos hc

/-- Closing what is closed changes nothing. -/
theorem close_again {s : Session} {h : Handle} (hc : ∀ p ∈ h.ports, s.hub.isClosed p = true) :
    s.close h.ports = (s, []) := by
  cases h with
  | source p | sink p =>
    rw [Handle.ports, close_one, Hub.close_of_closed (hc p (by simp [Handle.ports]))]
  | pair p₁ p₂ =>
    rw [Handle.ports, close_two, Hub.close_of_closed (hc p₁ (by simp [Handle.ports])),
      Hub.close_of_closed (hc p₂ (by simp [Handle.ports]))]
    rfl

/-- Closing is final: it does to each port behind a name what `CloseContract` says, and to close any
of them again changes nothing. -/
theorem close_terminal (x : Execution start) (y : Execution x.machine) {s : Session} {view : View}
    {id : String} {h : Handle} (hq : ⟨s, .exec view (.close id)⟩ ∈ x.past)
    (hh : s.handles.lookup id = some h) (hc : Calm (x.past ++ y.past)) :
    (∀ p ∈ h.ports, CloseContract x y p) ∧
    ∀ view' id' h', y.machine.state.handles.lookup id' = some h' → (∀ p ∈ h'.ports, p ∈ h.ports) →
      exec view' y.machine.state (.close id') = { state := y.machine.state } := by
  have hcontract : ∀ p ∈ h.ports, CloseContract x y p :=
    fun p hp => closeContract (shut_of_close x hq hh hp) hc
  refine ⟨hcontract, fun view' id' h' hh' hsub => ?_⟩
  rw [exec_close hh', close_again fun p hp => (hcontract p (hsub p hp)).closed]
  rfl

/-- A write waits for a device that has accepted two of its five bytes. -/
def halfWritten : Execution start :=
  (ExecutionBy.begin start).perform 12
    [.own (.sink "out" { items := [.accept 2] } default),
      .own (.writeAll "out" "five" [1, 2, 3, 4, 5])]

/-- The sink is closed. -/
def halfWrittenClosed : Execution start := (halfWritten.request (.own (.close "out"))).advance

/-- Then everything runs that is left to run. -/
def halfWrittenEnd : Execution halfWrittenClosed.machine :=
  (12).repeat .advance (.begin halfWrittenClosed.machine)

theorem history_halfWritten : history halfWrittenClosed =
    [.opened (.sink { items := [.accept 2] } default), .asked 0 0 (.write [1, 2, 3, 4, 5]),
      .used (some 0) (.write 0 [1, 2, 3, 4, 5] (.ready (.ok 2))),
      .told 0 (.write (.progress [3, 4, 5])),
      .used (some 0) (.write 0 [3, 4, 5] (.pending false))] := rfl

set_option maxRecDepth 2000 in
theorem close_terminal_halfWritten : halfWrittenEnd.machine.advance? = none ∧
    ∃ e, events 0 (history halfWrittenEnd) = [e] ∧
      ClosedReport (.write [1, 2, 3, 4, 5]) [1, 2] e := by
  have hq : ⟨halfWritten.machine.state, .exec halfWritten.machine.view (.close "out")⟩ ∈
      halfWrittenClosed.past :=
    List.mem_append_right halfWritten.past (List.mem_singleton_self _)
  have hh : halfWritten.machine.state.handles.lookup "out" = some (.sink 0) := rfl
  have hc : Calm (halfWrittenClosed.past ++ halfWrittenEnd.past) := by decide
  have hsettled : halfWrittenEnd.machine.advance? = none := rfl
  have hasked : .asked 0 0 (.write [1, 2, 3, 4, 5]) ∈ history halfWrittenClosed := by
    simp [history_halfWritten]
  have hdone : ∀ e ∈ events 0 (history halfWrittenClosed), e.done = false := by decide
  have hgone : ¬Gone 0 (history halfWrittenClosed) := by simp [history_halfWritten]
  have h := (close_terminal halfWrittenClosed halfWrittenEnd hq hh hc).1 0 (List.mem_singleton_self 0)
  exact ⟨hsettled, h.pending hsettled 0 _ hasked hdone hgone⟩

/-- A read is issued on a source whose chunks are larger than any buffer. -/
def hugeRead : Execution start :=
  (ExecutionBy.begin start).perform 12
    [.own (.source "in" {} (.withRead default ((1 <<< 64) - 1))), .own (.readAll "in" "all" 0)]

/-- The source is closed. -/
def hugeReadClosed : Execution start := (hugeRead.request (.own (.close "in"))).advance

/-- Then everything runs that is left to run. -/
def hugeReadEnd : Execution hugeReadClosed.machine :=
  (12).repeat .advance (.begin hugeReadClosed.machine)

/-- The read never makes a report, though its source is closed and nothing throws. -/
theorem hugeRead_unanswered :
    ⟨hugeRead.machine.state, .exec hugeRead.machine.view (.close "in")⟩ ∈ hugeReadClosed.past ∧
    hugeRead.machine.state.handles.lookup "in" = some (.source 0) ∧
    Calm (hugeReadClosed.past ++ hugeReadEnd.past) ∧ hugeReadEnd.machine.advance? = none ∧
    .asked 0 0 (.read 0 0) ∈ history hugeReadClosed ∧
    events 0 (history hugeReadClosed) = [] ∧ events 0 (history hugeReadEnd) = [] := by
  refine ⟨List.mem_append_right hugeRead.past (List.mem_singleton_self _), rfl, by decide, rfl, ?_,
    rfl, rfl⟩
  exact List.mem_cons_of_mem _ List.mem_cons_self

end Conduit.Pipe
