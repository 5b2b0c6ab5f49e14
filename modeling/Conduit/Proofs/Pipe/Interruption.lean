import Conduit.Proofs.Pipe.Retry

/-!
Interruptions of devices. A request whose device is interrupted while it reads or writes tries again
and reports nothing, and so a run tells what the run tells over the devices that are not interrupted
there. A flush is not tried again: its report carries the interruption.
-/

namespace Conduit.Pipe

open Dispatch

/-- The failure of the device that a report carries. -/
def Event.cause? : Event → Option OsError
  | .read e => e.fault.bind (·.cause)
  | .write e => e.fault.bind (·.cause)

/-! ### Reports -/

section Reports

variable {chunk p : Nat} {job job' job₀ : Job} {u : Use} {adv : Advance} {err : OsError}

theorem Works.flush_iff (h : Works chunk p job u job' adv) : job' = .flush ↔ job = .flush := by
  cases h <;> simp

/-- Only a flush reports an interruption. -/
theorem Works.surfaces {e : Event} {last : Bool} (h : Works chunk p job u job' (.report e last))
    (he : e.cause? = some err) (hi : err.kind = .interrupted) :
    job = .flush ∧ u = .flush p (.ready (.error err)) ∧ e = .write (.failed [] (.ofOs err .write)) := by
  cases h with
  | readFailed hk | writeFailed hk =>
    obtain rfl := Option.some.inj he
    exact absurd hi hk
  | zero =>
    obtain rfl := Option.some.inj he
    cases hi
  | flushFailed =>
    obtain rfl := Option.some.inj he
    exact ⟨rfl, rfl, rfl⟩
  | ended | chunk | progress | flushed => cases he

/-- A flush reports what its device failed with. -/
theorem Works.flush_failed {p' : Nat} (h : Works chunk p job (.flush p' (.ready (.error err))) job' adv) :
    adv = .report (.write (.failed [] (.ofOs err .write))) true := by
  cases h
  rfl

theorem Job.closedEvent_cause (job : Job) : job.closedEvent.cause? = none := by
  cases job <;> rfl

variable {closed : Prop} {a : List Act} {f : Fate}

theorem Tale.flush_iff (h : Tale chunk p closed job₀ a f) (hf : f = .running job) :
    job = .flush ↔ job₀ = .flush := by
  induction h generalizing job with
  | issued =>
    cases hf
    rfl
  | waits _ _ ih => exact ih hf
  | again _ hu ih =>
    cases hf
    exact hu.flush_iff.trans (ih rfl)
  | @reports _ _ _ _ _ last _ hu ih =>
    cases last with
    | true => cases hf
    | false =>
      cases hf
      exact hu.flush_iff.trans (ih rfl)
  | closed | lost => cases hf

/-- A report that carries an interruption is the one of a flush whose device was interrupted. -/
theorem Tale.surfaces (h : Tale chunk p closed job₀ a f) {e : Event} (he : .tell e ∈ a)
    (hc : e.cause? = some err) (hi : err.kind = .interrupted) :
    job₀ = .flush ∧ .use (.flush p (.ready (.error err))) ∈ a ∧
      e = .write (.failed [] (.ofOs err .write)) := by
  induction h with
  | issued => cases he
  | waits _ _ ih | again _ _ ih =>
    obtain ⟨hjob, hu, he⟩ := ih (by simpa using he)
    exact ⟨hjob, List.mem_append_left _ hu, he⟩
  | reports h hu ih =>
    rcases List.mem_append.mp he with he | he
    · obtain ⟨hjob, hu, he⟩ := ih he
      exact ⟨hjob, List.mem_append_left _ hu, he⟩
    · obtain rfl : e = _ := by simpa using he
      obtain ⟨hjob, rfl, he'⟩ := hu.surfaces hc hi
      exact ⟨(h.flush_iff rfl).mp hjob, by simp, he'⟩
  | closed _ _ ih =>
    rcases List.mem_append.mp he with he | he
    · obtain ⟨hjob, hu, he⟩ := ih he
      exact ⟨hjob, List.mem_append_left _ hu, he⟩
    · obtain rfl : e = _ := by simpa using he
      rw [Job.closedEvent_cause] at hc
      cases hc
  | lost _ ih => exact ih he

/-- Every failure of a flush is reported, interruptions too. -/
theorem Tale.flush_failed (h : Tale chunk p closed job₀ a f) {p' : Nat}
    (hu : .use (.flush p' (.ready (.error err))) ∈ a) :
    .tell (.write (.failed [] (.ofOs err .write))) ∈ a := by
  induction h with
  | issued => cases hu
  | waits _ hw ih =>
    rcases List.mem_append.mp hu with hu | hu
    · exact List.mem_append_left _ (ih hu)
    · obtain rfl : Use.flush p' (.ready (.error err)) = _ := by simpa using hu
      cases hw
  | again _ hw ih =>
    rcases List.mem_append.mp hu with hu | hu
    · exact List.mem_append_left _ (ih hu)
    · obtain rfl : Use.flush p' (.ready (.error err)) = _ := by simpa using hu
      cases hw.flush_failed
  | reports _ hw ih =>
    rcases List.mem_append.mp hu with hu | hu
    · exact List.mem_append_left _ (ih hu)
    · obtain rfl : Use.flush p' (.ready (.error err)) = _ := by simpa using hu
      cases hw.flush_failed
      simp
  | closed _ _ ih => exact List.mem_append_left _ (ih (by simpa using hu))
  | lost _ ih => exact ih hu

/-- All receivers are numbered by the requests that were issued for them. -/
theorem asked_of_lt (x : Execution start) {k : Nat} (hk : k < (desk x.machine.config).receivers) :
    ∃ p job, .asked k p job ∈ history x := by
  have hall : ∀ k < (desk x.machine.config).receivers, ∃ p job, .asked k p job ∈ [] ++ deeds x.past := by
    refine (run_induction x.run known_start
      (fun h d => ∀ k < d.receivers, ∃ p job, .asked k p job ∈ h) ?_ ?_).2
    · intro k hk
      cases hk
    · intro h d ds d' _ _ ih m k hk
      have hold (hk : k < d.receivers) : ∃ p job, .asked k p job ∈ h ++ ds := by
        obtain ⟨p, job, hm⟩ := ih k hk
        exact ⟨p, job, List.mem_append_left _ hm⟩
      cases m with
      | @refuse p job | @ask p job =>
        rcases Nat.lt_succ_iff_lt_or_eq.mp hk with hk | rfl
        · exact hold hk
        · exact ⟨p, job, by simp⟩
      | _ => exact hold hk
  exact hall k hk

theorem mem_events {k : Nat} {e : Event} {h : List Deed} : e ∈ events k h ↔ .tell e ∈ acts k h := by
  unfold events
  rw [List.mem_filterMap]
  constructor
  · rintro ⟨act, hact, he⟩
    cases act with
    | tell e' =>
      obtain rfl := Option.some.inj he
      exact hact
    | use => cases he
  · exact fun h => ⟨_, h, rfl⟩

/-- Whatever a request has done has a tale. -/
theorem tale_of_act (x : Execution start) {k : Nat} {act : Act} (h : act ∈ acts k (history x)) :
    ∃ p job chunk closed f, .asked k p job ∈ history x ∧
      Tale chunk p closed job (acts k (history x)) f := by
  obtain ⟨hk, hl⟩ := ledger x
  have hlt : k < (desk x.machine.config).receivers := by
    apply Nat.lt_of_not_le
    intro hle
    rw [(hl.accounts.silent k hle).1] at h
    cases h
  obtain ⟨p, job, hasked⟩ := asked_of_lt x hlt
  obtain ⟨e, he, -⟩ := hk.fitting.asked k p job hasked
  obtain ⟨-, -, f, htale, -⟩ := tale_of_asked x he hasked
  exact ⟨p, job, _, _, f, hasked, htale⟩

end Reports

/-! ### Runs -/

/-- Deeds that are no reports. -/
theorem events_map {k : Nat} {α : Type} {f : α → Deed} (hf : ∀ x j e, f x ≠ .told j e) (l : List α) :
    events k (l.map f) = [] := by
  rw [List.eq_nil_iff_forall_not_mem]
  intro e he
  obtain ⟨d, hd, hact⟩ := List.mem_filterMap.mp (mem_events.mp he)
  obtain ⟨x, -, rfl⟩ := List.mem_map.mp hd
  unfold Deed.act? at hact
  split at hact
  · split at hact <;> cases hact
  · rename_i hx
    exact hf x _ _ hx
  · cases hact

theorem events_serveDeeds (k : Nat) (s : Session) (r : Nat) :
    events k (serveDeeds s r) = events k (reports (serve s r).next) := by
  have hlost : events k (if (s.hub.advance Scripted.devices s.devices r).2.2.2 = .crash
      then (receiver? s r).toList.map (.lost · false) else []) = [] := by
    split
    · exact events_map (by simp) _
    · rfl
  rw [serveDeeds, events_append, events_append, events_map (by simp), hlost]
  rfl

/-- What a receiver is told at a moment are the reports of the turn. -/
theorem events_deedsAt (k : Nat) (q : Moment component) :
    events k (deedsAt q) = events k ((q.turn?.map fun t => reports t.next).getD []) := by
  obtain ⟨s, cause⟩ := q
  cases cause with
  | exec view a =>
    show events k (execDeeds view s a) = _
    rw [execDeeds, events_append, events_append, events_map (by simp), events_map (by simp)]
    rfl
  | resume f =>
    cases f with
    | serve r => exact events_serveDeeds k s r
    | finish r => rfl
    | deliver j e =>
      have hreports : reports (deliver s j e).next = [] := by
        unfold deliver
        split <;> rfl
      exact congrArg (events k) hreports.symm
  | poll t =>
    cases t with
    | request r => exact events_serveDeeds k s r
    | collector j =>
      have hreports : reports (poll s (.collector j)).next = [] := by
        unfold poll
        dsimp only
        split
        · rfl
        · split <;> rfl
      exact congrArg (events k) hreports.symm
  | unwind f =>
    cases f with
    | serve r => exact events_map (by simp) _
    | finish | deliver => rfl
  | tick => rfl

theorem events_deeds (k : Nat) (past : List (Moment component)) :
    events k (deeds past) = events k (seen reports past) := by
  induction past with
  | nil => rfl
  | cons q past ih =>
    show events k (deedsAt q ++ deeds past) =
      events k ((q.turn?.map fun t => reports t.next).getD [] ++ seen reports past)
    rw [events_append, events_append, events_deedsAt, ih]

/-- What two runs have in common that get the same cues, of which the second one is over devices that
are not interrupted when they read or write, nor when they are flushed if `all`. -/
structure Steadied (all : Bool) (cues : List (Cue Action)) (x x' : Execution start) : Prop where
  plays : Plays start (cues.map (steadying all).cue) x'.past x'.machine
  /-- Until it has caught up, the first one has told less. -/
  ahead : ∀ k, events k (history x) <+: events k (history x')
  /-- When nothing is left to run, they have told the same and stand at the same point. -/
  rest : x.machine.step? = none → x'.machine.step? = none ∧
    (∀ k, events k (history x') = events k (history x)) ∧
    x'.machine.journal = x.machine.journal ∧ (steadying all).Twin x.machine x'.machine
  /-- There is no other run like the second one. -/
  only : x.machine.step? = none → ∀ y : Execution start,
    Plays start (cues.map (steadying all).cue) y.past y.machine → y.machine.step? = none →
    y.past = x'.past ∧ y.machine = x'.machine

theorem steadied (all : Bool) (x : Execution start) {cues : List (Cue Action)}
    (hx : Plays start cues x.past x.machine) (hc : Unclosed x.past)
    (hs : all = true → Smooth (history x)) : ∃ x', Steadied all cues x x' := by
  have hstart : (steadying all).Twin start start :=
    ⟨({} : Session), ⟨⟨rfl, rfl, rfl, rfl, rfl⟩, rfl⟩, rfl⟩
  have hallowed : ∀ q ∈ x.past, closes q = false ∧ (all = true → Smooth (deedsAt q)) := by
    refine fun q hq => ⟨hc q hq, fun hall o p e hu => hs hall o p e ?_⟩
    exact List.mem_flatMap.mpr ⟨q, hq, hu⟩
  obtain ⟨past', m', hplays, later, n, hsteps, htwin, hseen⟩ :=
    (steadying_follows all).plays hstart fit hx hallowed
  have hevents (k : Nat) : events k (history x) ++ events k (deeds later) = events k (deeds past') := by
    rw [events_deeds k past', ← hseen, ← events_deeds, deeds_append, events_append]
    rfl
  -- A machine that has nothing to run is not behind its twin.
  have hrest (hm : x.machine.step? = none) : later = [] ∧ m'.step? = none ∧
      (steadying all).Twin x.machine m' := by
    obtain ⟨rfl, rfl⟩ := hsteps.of_stopped hm
    exact ⟨rfl, Recast.Follows.stopped htwin hm, htwin⟩
  refine ⟨⟨past', m', hplays.run⟩, hplays, fun k => ⟨_, hevents k⟩, fun hm => ?_,
    fun hm y hy hy' => hplays.unique hy (hrest hm).2.1 hy'⟩
  obtain ⟨rfl, hm', htwin⟩ := hrest hm
  refine ⟨hm', fun k => ?_, ?_, htwin⟩
  · have h := hevents k
    rw [show events k (deeds []) = [] from rfl, List.append_nil] at h
    exact h.symm
  · obtain ⟨_, -, rfl⟩ := htwin
    rfl

/-- No report of a read or a write carries an interruption of the device, and in runs in which nothing
is closed the reports are those over devices that are not interrupted when they read or write. A flush
reports every failure of its device; while none of these is an interruption, the reports are those
over devices that are never interrupted. -/
theorem interruption_contract (x : Execution start) :
    (∀ k e err, e ∈ events k (history x) → e.cause? = some err → err.kind = .interrupted →
      e = .write (.failed [] (.ofOs err .write)) ∧ ∃ p, .asked k p .flush ∈ history x ∧
        .use (.flush p (.ready (.error err))) ∈ acts k (history x)) ∧
    (∀ k p err, .use (.flush p (.ready (.error err))) ∈ acts k (history x) →
      .write (.failed [] (.ofOs err .write)) ∈ events k (history x)) ∧
    ∀ cues, Plays start cues x.past x.machine → Unclosed x.past →
      (∃ x', Steadied false cues x x') ∧ (Smooth (history x) → ∃ x', Steadied true cues x x') := by
  refine ⟨fun k e err he hc hi => ?_, fun k p err hu => ?_, fun cues hx hc => ⟨?_, fun hs => ?_⟩⟩
  · have he := mem_events.mp he
    obtain ⟨p, job, chunk, closed, f, hasked, htale⟩ := tale_of_act x he
    obtain ⟨rfl, hu, rfl⟩ := htale.surfaces he hc hi
    exact ⟨rfl, p, hasked, hu⟩
  · obtain ⟨_, _, _, _, _, -, htale⟩ := tale_of_act x hu
    exact mem_events.mpr (htale.flush_failed hu)
  · exact steadied false x hx hc (by simp)
  · exact steadied true x hx hc fun _ => hs

/-- A device is interrupted when it is written to, before and after it accepts a byte. -/
def interruptedWrite : Execution start :=
  (ExecutionBy.begin start).perform 16
    [.own (.sink "out" { items := [.fault (.simple .interrupted), .accept 1,
        .fault (.simple .interrupted)], auto := 9 } default),
      .own (.write "out" "data" "" [1, 2, 3] [] none)]

/-- A device is interrupted when it is flushed. -/
def interruptedFlush : Execution start :=
  (ExecutionBy.begin start).perform 12
    [.own (.sink "out" { flushes := [.fault (.simple .interrupted)] } default),
      .own (.write "out" "flush" "" [] [] none)]

theorem history_interruptedWrite : history interruptedWrite =
    [.opened (.sink { items := [.fault (.simple .interrupted), .accept 1,
        .fault (.simple .interrupted)], auto := 9 } default),
      .asked 0 0 (.write [1, 2, 3]),
      .used (some 0) (.write 0 [1, 2, 3] (.ready (.error (.simple .interrupted)))),
      .used (some 0) (.write 0 [1, 2, 3] (.ready (.ok 1))),
      .told 0 (.write (.progress [2, 3])),
      .used (some 0) (.write 0 [2, 3] (.ready (.error (.simple .interrupted)))),
      .used (some 0) (.write 0 [2, 3] (.ready (.ok 2))),
      .told 0 (.write (.progress []))] := rfl

theorem interruption_contract_interruptedWrite :
    (∃ cues x', Plays start cues interruptedWrite.past interruptedWrite.machine ∧
      Steadied true cues interruptedWrite x' ∧
      events 0 (history x') = [.write (.progress [2, 3]), .write (.progress [])]) ∧
    ∃ p, .asked 0 p .flush ∈ history interruptedFlush ∧
      .use (.flush p (.ready (.error (.simple .interrupted)))) ∈ acts 0 (history interruptedFlush) := by
  constructor
  · obtain ⟨cues, hx⟩ := interruptedWrite.run.plays
    have hc : Unclosed interruptedWrite.past := by decide
    have hs : Smooth (history interruptedWrite) := by simp [Smooth, history_interruptedWrite]
    obtain ⟨x', hx'⟩ := ((interruption_contract interruptedWrite).2.2 cues hx hc).2 hs
    exact ⟨cues, x', hx, hx', (hx'.rest rfl).2.1 0⟩
  · have he : .write (.failed [] (.ofOs (.simple .interrupted) .write)) ∈
        events 0 (history interruptedFlush) := List.mem_singleton_self _
    exact ((interruption_contract interruptedFlush).1 0 _ _ he rfl rfl).2

/-- The report of a flush carries the interruption of its device. -/
theorem interruptedFlush_surfaces :
    ¬∀ (x : Execution start) k e err, e ∈ events k (history x) → e.cause? = some err →
      err.kind ≠ .interrupted := by
  intro h
  have he : .write (.failed [] (.ofOs (.simple .interrupted) .write)) ∈
      events 0 (history interruptedFlush) := List.mem_singleton_self _
  exact h interruptedFlush 0 _ _ he rfl rfl

end Conduit.Pipe
