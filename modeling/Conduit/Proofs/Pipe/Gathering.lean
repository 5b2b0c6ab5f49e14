import Conduit.Proofs.Pipe.Close
import Conduit.Proofs.Pipe.Collectors

/-!
Requests whose reports are collected. A collector is what the reports that have reached it have made
of it, and it tells their verdict once: when the first final report has come, or when its request is
over and no report can come any more. In the second case the verdict may be that of a stream that
was cut off.
-/

namespace Conduit.Pipe

open Dispatch

/-- The collectors are what a run has made of them. -/
structure Collected (past : List (Moment component)) (s : Session) : Prop where
  collectors : s.collectors =
    (gatherings past).mapIdx fun k g => (g.1, collectorAfter past k g.2)
  known : ∀ j k, collectorOf s j = some k → k < s.collectors.length
  silent : ∀ k, s.collectors.length ≤ k →
    given k past = [] ∧ cutOff k past = false ∧ verdicts k past = []
  once : ∀ k, (verdicts k past).length ≤ 1

/-- Who tells something at a moment has not done so before, and has heard the last report or cannot
hear any more. -/
theorem Collected.tells {past : List (Moment component)} {s : Session} (h : Collected past s)
    {k : Nat} {p : String × Collector} {o : Outcome} (hp : s.collectors[k]? = some p)
    (ho : p.2.outcome? = some o) : verdicts k past = [] ∧
      ∃ side, (gatherings past)[k]? = some (p.1, side) ∧ side.Amounts (given k past) o ∧
        (side.Final (given k past) ∨ cutOff k past = true) := by
  rw [h.collectors, List.getElem?_mapIdx] at hp
  obtain ⟨⟨req, side⟩, hside, rfl⟩ := Option.map_eq_some_iff.mp hp
  unfold Collector.outcome? at ho
  split at ho
  · rename_i hsettled
    obtain ⟨htold, hsettled⟩ := Bool.and_eq_true_iff.mp hsettled
    refine ⟨by simpa [collectorAfter] using htold, side, hside, ?_, ?_⟩
    · obtain rfl := Option.some.inj ho
      exact amounts_gathered ..
    · rw [← complete_iff]
      exact (Bool.or_eq_true_iff.mp hsettled).symm
  · cases ho

/-- A collector that is not there gets nothing and tells nothing. -/
theorem silentAt {q : Moment component}
    (h : ∀ j k, collectorOf q.state j = some k → k < q.state.collectors.length) {k : Nat}
    (hk : q.state.collectors.length ≤ k) :
    givenAt k q = [] ∧ endedAt k q = false ∧ tellsAt k q = [] := by
  have hne (j : Nat) : collectorOf q.state j ≠ some k := fun hj => by
    have := h j k hj
    omega
  refine ⟨?_, ?_, ?_⟩
  · unfold givenAt
    split
    · exact if_neg (hne _)
    · rfl
  · unfold endedAt
    rw [beq_eq_false_iff_ne]
    intro hk
    obtain ⟨r, -, hr⟩ := Option.bind_eq_some_iff.mp hk
    obtain ⟨j, -, hj⟩ := Option.bind_eq_some_iff.mp hr
    exact hne j hj
  · unfold tellsAt
    split
    · rw [List.getElem?_eq_none hk]
      simp
    · rfl

theorem verdicts_concat (k : Nat) (past : List (Moment component)) (q : Moment component) :
    verdicts k (past ++ [q]) = verdicts k past ++ tellsAt k q := by
  simp [verdicts]

theorem length_tellsAt (k : Nat) (q : Moment component) : (tellsAt k q).length ≤ 1 := by
  unfold tellsAt
  split
  · split
    · exact Option.length_toList_le
    · exact Nat.zero_le 1
  · exact Nat.zero_le 1

/-- What is told at a moment is the outcome of a collector whose turn it is. -/
theorem mem_tellsAt {q : Moment component} {k : Nat} {o : Outcome} :
    o ∈ tellsAt k q ↔ q.cause = .poll (.collector k) ∧
      ∃ p, q.state.collectors[k]? = some p ∧ p.2.outcome? = some o := by
  obtain ⟨s, cause⟩ := q
  unfold tellsAt
  split
  · rename_i s' j h
    obtain ⟨rfl, rfl⟩ := h
    by_cases hk : j = k
    · simp [hk, Option.bind_eq_some_iff]
    · simp [hk]
  · rename_i h
    simp only [List.not_mem_nil, false_iff, not_and]
    rintro rfl
    exact absurd rfl (h s k)

theorem Collected.concat {past : List (Moment component)} {q : Moment component}
    (h : Collected past q.state) : Collected (past ++ [q]) q.after := by
  have hlen : q.after.collectors.length = q.state.collectors.length + (gathersAt q).length := by
    rw [after_collectors]
    simp
  have hsilent : ∀ k, q.state.collectors.length ≤ k →
      givenAt k q = [] ∧ endedAt k q = false ∧ tellsAt k q = [] :=
    fun k hk => silentAt h.known hk
  -- A collector that is new has got nothing yet.
  have hnew (i : Nat) (side : Side) :
      collectorAfter (past ++ [q]) (i + (gatherings past).length) side =
        { gathered := side.empty } := by
    have hi : q.state.collectors.length ≤ i + (gatherings past).length := by
      simp [h.collectors]
    obtain ⟨hg, he, ht⟩ := h.silent _ hi
    rw [collectorAfter_concat, after_eq (hsilent _ hi).1 (hsilent _ hi).2.1 (hsilent _ hi).2.2]
    simp [collectorAfter, hg, he, ht]
  refine ⟨?_, fun j k hk => ?_, fun k hk => ?_, fun k => ?_⟩
  · rw [after_collectors, h.collectors, gatherings_concat, List.mapIdx_append, List.mapIdx_mapIdx]
    refine congrArg₂ (· ++ ·) ?_ ?_
    · simp only [collectorAfter_concat]
      rfl
    · refine List.ext_getElem? fun i => ?_
      simp [hnew]
  · rcases after_collectorOf hk with hk | hk
    · have := h.known j k hk
      omega
    · exact hk
  · obtain ⟨hg, he, ht⟩ := hsilent k (by omega)
    obtain ⟨hg', he', ht'⟩ := h.silent k (by omega)
    simp_all [given, cutOff, verdicts]
  · rw [verdicts_concat]
    cases ht : tellsAt k q with
    | nil => simpa using h.once k
    | cons o os =>
      obtain ⟨-, p, hp, ho⟩ := mem_tellsAt.mp (ht ▸ List.mem_cons_self)
      rw [(h.tells hp ho).1, List.nil_append, ← ht]
      exact length_tellsAt k q

/-- A collector that has something to tell. -/
def Pending (s : Session) (k : Nat) : Prop :=
  ∃ p, s.collectors[k]? = some p ∧ p.2.outcome?.isSome

/-- The tasks that a moment wakes. -/
def wakesAt (q : Moment component) : List Task :=
  match q.cause with
  | .unwind f => (unwind q.state f).2
  | _ => (q.turn?.map (·.wakes)).getD []

theorem collector_mem_finish {s : Session} {r k : Nat} (h : collector? s r = some k) :
    .collector k ∈ (finish s r).2 := by
  rw [finish_eq, h]
  simp

/-- A collector whose request ends is woken. -/
theorem wakes_of_endedAt {q : Moment component} {k : Nat} (h : endedAt k q = true) :
    .collector k ∈ wakesAt q := by
  obtain ⟨r, hr, hk⟩ := Option.bind_eq_some_iff.mp (beq_iff_eq.mp h)
  obtain ⟨s, cause⟩ := q
  have hserve (hr : (if (s.hub.advance Scripted.devices s.devices r).2.2.2 = .crash then some r
      else none) = some r) : .collector k ∈ (serve s r).wakes := by
    obtain ⟨⟨hub, devices, wakes, adv⟩, hadv⟩ :
      ∃ a, s.hub.advance Scripted.devices s.devices r = a := ⟨_, rfl⟩
    have hk' : collector? { s with hub, devices } r = some k := by
      rw [← hk]
      have h := receiver?_advance s r
      rw [hadv] at h
      exact congrArg (Option.bind · (collectorOf s)) h
    obtain rfl : adv = .crash := by simpa [hadv] using hr
    rw [serve_eq hadv]
    exact List.mem_append_right _ (collector_mem_finish hk')
  match cause with
  | .resume (.serve r') | .poll (.request r') =>
    obtain rfl : r' = r := by
      simp only [endsAt] at hr
      split at hr <;> simp_all
    exact hserve hr
  | .resume (.finish r') | .unwind (.serve r') | .unwind (.finish r') =>
    obtain rfl : r' = r := Option.some.inj hr
    exact collector_mem_finish hk
  | .resume (.deliver j e) | .unwind (.deliver j e) | .poll (.collector j) | .tick | .exec view a =>
    cases hr

/-- A collector that a report reaches is woken. -/
theorem wakes_of_givenAt {q : Moment component} {k : Nat} (h : givenAt k q ≠ []) :
    .collector k ∈ wakesAt q := by
  unfold givenAt at h
  split at h
  · rename_i s j e
    have hk : collectorOf s j = some k := by
      by_contra hk
      exact h (if_neg hk)
    obtain ⟨w, hw, hk⟩ := Option.bind_eq_some_iff.mp hk
    cases w with
    | callback => cases hk
    | collector k' =>
      cases hk
      simp [wakesAt, Moment.turn?, resume, deliver, hw]
  · exact absurd rfl h

/-- Who tells something has nothing to tell any more. -/
theorem outcome?_told {c : Collector} {os : List Outcome} :
    ({ c with told := c.told || !os.isEmpty } : Collector).outcome?.isSome ↔
      c.outcome?.isSome ∧ os = [] := by
  cases os <;> simp [Collector.outcome?, Gathered.outcome]

/-- Who has something to tell after a moment has had it before, or is woken. -/
theorem pending_after {q : Moment component} {k : Nat} (h : Pending q.after k) :
    Pending q.state k ∧ q.cause ≠ .poll (.collector k) ∨ .collector k ∈ wakesAt q := by
  by_cases hg : givenAt k q = []
  · cases he : endedAt k q with
    | true => exact .inr (wakes_of_endedAt he)
    | false =>
      refine .inl ?_
      obtain ⟨p, hp, ho⟩ := h
      rw [after_collectors, List.getElem?_append, List.length_mapIdx] at hp
      split at hp
      · rw [List.getElem?_mapIdx] at hp
        obtain ⟨p₀, hp₀, rfl⟩ := Option.map_eq_some_iff.mp hp
        rw [after_told hg he, outcome?_told] at ho
        refine ⟨⟨p₀, hp₀, ho.1⟩, fun hq => ?_⟩
        obtain ⟨o, ho'⟩ := Option.isSome_iff_exists.mp ho.1
        obtain ⟨s, cause⟩ := q
        obtain rfl : cause = .poll (.collector k) := hq
        simp [tellsAt, show s.collectors[k]? = some p₀ from hp₀, ho'] at ho
      · obtain ⟨g, -, rfl⟩ := List.mem_map.mp (List.mem_of_getElem? hp)
        cases hside : g.2 <;> simp [Collector.outcome?, hside, Side.empty, Gathered.isComplete] at ho
  · exact .inr (wakes_of_givenAt hg)

/-- What the machine makes of a turn. -/
theorem takes_kept {c c' : Config component} {q : Moment component} {t : Turn signature}
    (ht : q.turn? = some t) (h : c.Takes t c') (hn : c.next = none) :
    c'.state = q.after ∧ c'.ready = woken c.ready t.wakes := by
  rw [Moment.after_of_turn? ht]
  rcases h.frames hn with ⟨-, hs, hr⟩ | ⟨d, f, k, hp, -, ⟨hs, hr⟩ | ⟨hs, hr⟩⟩
  · exact ⟨hs, hr⟩
  · exact ⟨hs, hr⟩
  · obtain ⟨j, e, rfl, -⟩ := (turn_goes ht).perform hp
    exact ⟨hs, hr⟩

/-- Who has something to tell has been woken. -/
def Prompted (c : Config component) : Prop := ∀ k, Pending c.state k → .collector k ∈ c.ready

theorem prompted_faces {c c' : Config component} (hf : c.Faces c') (h : Prompted c) : Prompted c' := by
  unfold Prompted at *
  rwa [hf.state_eq, hf.ready_eq]

theorem collected_step {past : List (Moment component)} {c c' : Config component}
    {cause : Option (Cause component)} (h : Collected past c.state ∧ Prompted c)
    (hstep : c.Step cause c') : Collected (past ++ c.moment cause) c'.state ∧ Prompted c' := by
  obtain ⟨hc, hp⟩ := h
  have hown {q : Moment component} (hq : q.state = c.state) {r : List Task} (hs : c'.state = q.after)
      (hr : c'.ready = woken r (wakesAt q))
      (hold : ∀ k, Pending c.state k → q.cause ≠ .poll (.collector k) → .collector k ∈ r) :
      Collected (past ++ [q]) c'.state ∧ Prompted c' := by
    rw [← hq] at hc hold
    refine ⟨hs ▸ hc.concat, fun k hk => ?_⟩
    rw [hr, mem_woken]
    rw [hs] at hk
    exact (pending_after hk).imp_left fun h => hold k h.1 h.2
  cases hstep with
  | still hf => exact ⟨by simpa [Config.moment, hf.state_eq] using hc, prompted_faces hf hp⟩
  | exec hn ht =>
    obtain ⟨hs, hr⟩ := takes_kept (q := ⟨c.state, .exec _ _⟩) rfl ht hn
    exact hown rfl hs hr fun k hk _ => hp k hk
  | resume hn ht => 
    obtain ⟨hs, hr⟩ := takes_kept (q := ⟨c.state, .resume _⟩) rfl ht rfl
    exact hown rfl hs hr fun k hk _ => hp k hk
  | unwind hn hk hf =>
    subst hf
    exact hown (q := ⟨c.state, .unwind _⟩) rfl rfl rfl fun k hk _ => hp k hk
  | @poll t ts _ hn hk hr ht =>
    obtain ⟨hs, hr'⟩ := takes_kept (q := ⟨c.state, .poll _⟩) rfl ht hn
    refine hown rfl hs hr' fun k hk hne => ?_
    have := hp k hk
    rw [hr] at this
    refine (List.mem_cons.mp this).resolve_left fun h => hne (h ▸ rfl)
  | tick => exact hown (q := ⟨c.state, .tick⟩) rfl rfl rfl fun k hk _ => hp k hk
  | begin => exact ⟨by simpa [Config.moment] using hc, hp⟩
  | opened hn hf =>
    exact ⟨by simpa [Config.moment, hf.state_eq] using hc, prompted_faces hf hp⟩

/-- Collectors are what a run has made of them, and those that have something to tell are woken. -/
theorem collected (x : Execution start) :
    Collected x.past x.machine.state ∧ Prompted x.machine.config := by
  have h := x.run.config_induction (fun past c => Collected past c.state ∧ Prompted c) ?_
    fun _ _ _ _ h hstep => collected_step h hstep
  · rwa [Machine.config_state] at h
  · exact ⟨⟨rfl, nofun, fun _ _ => ⟨rfl, rfl, rfl⟩, fun _ => Nat.zero_le 1⟩, nofun⟩

theorem serve_notes (s : Session) (r : Nat) : (serve s r).notes = [] := by
  unfold serve
  dsimp only
  split
  · rfl
  · rfl
  · rfl
  · split <;> rfl

/-- An outcome is told only by a collector whose turn it is. -/
theorem told_by_collector {q : Moment component} {t : Turn signature} {req : String} {o : Outcome}
    (ht : q.turn? = some t) (ho : .outcome req o ∈ t.notes) :
    ∃ k c, q.cause = .poll (.collector k) ∧ q.state.collectors[k]? = some (req, c) ∧
      c.outcome? = some o := by
  obtain ⟨s, cause⟩ := q
  have hsilent {t : Turn signature} (h : t.notes = []) : .outcome req o ∉ t.notes := by simp [h]
  match cause with
  | .exec view a =>
    cases ht
    exact absurd ho (hsilent (exec_gathers view s a).silent)
  | .resume (.serve r) | .poll (.request r) =>
    cases ht
    exact absurd ho (hsilent (serve_notes s r))
  | .resume (.finish r) =>
    cases ht
    exact absurd ho (hsilent rfl)
  | .resume (.deliver j e) =>
    cases ht
    simp only [resume, deliver] at ho
    split at ho <;> simp at ho
  | .unwind f | .tick => cases ht
  | .poll (.collector k) =>
    cases ht
    simp only [poll] at ho
    split at ho
    · simp at ho
    · rename_i req' c hc
      split at ho
      · simp at ho
      · rename_i o' ho'
        obtain ⟨rfl, rfl⟩ : req = req' ∧ o = o' := by simpa using ho
        exact ⟨k, c, rfl, hc, ho'⟩

/-- What a collector tells after `past`: once, and only when the last report has come or none can
come any more, what the reports amount to that have reached it. -/
structure Tells (past : List (Moment component)) (k : Nat) (req : String) (o : Outcome) : Prop where
  once : verdicts k past = []
  verdict : ∃ side, (gatherings past)[k]? = some (req, side) ∧ side.Amounts (given k past) o ∧
    (side.Final (given k past) ∨ cutOff k past = true)

/-- How reads and writes that are collected end, and what of it is told in a run. -/
structure GatheringContract (x : Execution start) : Prop where
  /-- All data is there if a last report without a fault has come and no fault before it, or if no
  final report has come at all; else there is a first fault, and the data up to it. -/
  read : ∀ es r, readAll [] es = r ↔ readAccount.Verdict es r
  /-- A write is done if a last report without a fault has come and no fault before it, or if no
  final report has come at all; else there is a first fault, and what it left. -/
  write : ∀ es r, writeAll es = r ↔ writeAccount.Verdict es r
  /-- Whatever is told is told once, and is what the reports amount to. -/
  told : ∀ before q after t req o, x.past = before ++ q :: after → q.turn? = some t →
    .outcome req o ∈ t.notes → ∃ k, q.cause = .poll (.collector k) ∧ Tells before k req o
  /-- When everything has come to rest, whoever could tell something has done so. -/
  answered : ∀ k req side, (gatherings x.past)[k]? = some (req, side) →
    x.machine.advance? = none → side.Final (given k x.past) ∨ cutOff k x.past = true →
    ∃ o, verdicts k x.past = [o]

theorem gathering_contract (x : Execution start) : GatheringContract x where
  read := readAll_eq_iff
  write := writeAll_eq_iff
  told before q after t req o hx ht ho := by
    obtain ⟨m, hrun, hm⟩ := x.run.before hx
    obtain ⟨k, c, hq, hc, ho⟩ := told_by_collector ht ho
    have h := (collected ⟨before, m, hrun⟩).1
    rw [hm] at h
    exact ⟨k, hq, (h.tells hc ho).1, (h.tells hc ho).2⟩
  answered k req side hside hsettled hover := by
    obtain ⟨h, hprompted⟩ := collected x
    have hc : x.machine.state.collectors[k]? = some (req, collectorAfter x.past k side) := by
      rw [h.collectors, List.getElem?_mapIdx, hside, Option.map_some]
    have htold : verdicts k x.past ≠ [] := by
      intro hnone
      refine absurd (hprompted k ⟨_, by rwa [Machine.config_state], ?_⟩) ?_
      · have hover : (cutOff k x.past || (collectorAfter x.past k side).gathered.isComplete) = true := by
          rw [Bool.or_eq_true_iff, or_comm]
          exact hover.imp_left (complete_iff _ _).mpr
        have htold : (collectorAfter x.past k side).told = false := by simp [collectorAfter, hnone]
        unfold Collector.outcome?
        rw [htold, show (collectorAfter x.past k side).ended = cutOff k x.past from rfl, hover]
        rfl
      · rw [(Machine.config_of_settled hsettled).2.2]
        exact List.not_mem_nil
    exact List.length_eq_one_iff.mp
      (Nat.le_antisymm (h.once k) (List.length_pos_iff.mpr htold))

/-- A write of five bytes, of which the device has taken two before it failed. Its collector is about
to have its turn. -/
def brokenWrite : Execution start :=
  (8).repeat .advance (((ExecutionBy.begin start).perform 12
    [.own (.sink "out" { items := [.accept 2, .fault (.simple .brokenPipe)] } default)]).request
      (.own (.writeAll "out" "five" [1, 2, 3, 4, 5])))

/-- Then everything runs that is left to run. -/
def brokenWriteEnd : Execution start := (4).repeat .advance brokenWrite

theorem gathering_contract_brokenWrite :
    Tells brokenWrite.past 0 "five"
      (.write (.error ([3, 4, 5], .ofOs (.simple .brokenPipe) .write))) ∧
    brokenWriteEnd.machine.advance? = none ∧ ∃ o, verdicts 0 brokenWriteEnd.past = [o] := by
  have hpast : brokenWrite.advance.past =
      brokenWrite.past ++ [⟨brokenWrite.machine.state, .poll (.collector 0)⟩] := rfl
  have hsettled : brokenWriteEnd.machine.advance? = none := rfl
  have hcut : cutOff 0 brokenWriteEnd.past = true := rfl
  obtain ⟨k, hk, htells⟩ := (gathering_contract brokenWrite.advance).told _ _ _ _ "five"
    (.write (.error ([3, 4, 5], .ofOs (.simple .brokenPipe) .write))) hpast rfl
    (List.mem_singleton_self _)
  cases hk
  exact ⟨htells, hsettled,
    (gathering_contract brokenWriteEnd).answered 0 "five" .writing rfl hsettled (.inr hcut)⟩

/-- The read whose buffer cannot be had never gets a report, yet it is told that all data is there.
So it is for any stream that ends before its first report, of a write as well. -/
theorem hugeRead_whole : given 0 hugeRead.past = [] ∧ verdicts 0 hugeRead.past = [.read (.ok [])] ∧
    readAll [] [] = .ok [] ∧ writeAll [] = .ok () :=
  ⟨rfl, rfl, rfl, rfl⟩

end Conduit.Pipe
