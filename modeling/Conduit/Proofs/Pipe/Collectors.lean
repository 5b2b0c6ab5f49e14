import Conduit.Proofs.Pipe.Stack
import Conduit.Proofs.Pipe.Verdict

/-!
Collectors, moment by moment: reports reach them, their requests end, and they tell what the reports
amount to. A moment does to each collector what `Collector.after` says, and it may bring one more.
-/

namespace Conduit.Pipe

open Dispatch

/-- What is collected: the reports of a read or those of a write. -/
inductive Side where
  | reading
  | writing
  deriving DecidableEq

def Event.read? : Event → Option ReadEvent
  | .read e => some e
  | .write _ => none

def Event.write? : Event → Option WriteEvent
  | .read _ => none
  | .write e => some e

namespace Side

def empty : Side → Gathered
  | .reading => .read []
  | .writing => .write []

/-- The last report of a request is among these. -/
def Final : Side → List Event → Prop
  | .reading, es => ∃ e ∈ es.filterMap (·.read?), e.isFinal = true
  | .writing, es => ∃ e ∈ es.filterMap (·.write?), e.isFinal = true

/-- What the reports of a request amount to. -/
inductive Amounts : Side → List Event → Outcome → Prop where
  | reading {es r} (h : readAccount.Verdict (es.filterMap (·.read?)) r) :
      Amounts .reading es (.read r)
  | writing {es r} (h : writeAccount.Verdict (es.filterMap (·.write?)) r) :
      Amounts .writing es (.write r)

end Side

theorem push_reading (es : List Event) (l : List ReadEvent) :
    es.foldl Gathered.push (.read l) = .read ((es.filterMap (·.read?)).reverse ++ l) := by
  induction es generalizing l with
  | nil => rfl
  | cons e es ih => cases e <;> simp [Gathered.push, Event.read?, ih]

theorem push_writing (es : List Event) (l : List WriteEvent) :
    es.foldl Gathered.push (.write l) = .write ((es.filterMap (·.write?)).reverse ++ l) := by
  induction es generalizing l with
  | nil => rfl
  | cons e es ih => cases e <;> simp [Gathered.push, Event.write?, ih]

/-- The outcome of gathered reports is what they amount to. -/
theorem amounts_gathered (es : List Event) (side : Side) :
    side.Amounts es (es.foldl Gathered.push side.empty).outcome := by
  cases side with
  | reading =>
    rw [Side.empty, push_reading, List.append_nil]
    refine .reading ?_
    rw [List.reverse_reverse]
    exact (readAll_eq_iff _ _).mp rfl
  | writing =>
    rw [Side.empty, push_writing, List.append_nil]
    refine .writing ?_
    rw [List.reverse_reverse]
    exact (writeAll_eq_iff _ _).mp rfl

theorem complete_iff (es : List Event) (side : Side) :
    (es.foldl Gathered.push side.empty).isComplete = true ↔ side.Final es := by
  cases side with
  | reading =>
    rw [Side.empty, push_reading, List.append_nil, Gathered.isComplete, List.any_reverse,
      List.any_eq_true, Side.Final]
  | writing =>
    rw [Side.empty, push_writing, List.append_nil, Gathered.isComplete, List.any_reverse,
      List.any_eq_true, Side.Final]

/-! ### What reaches collectors in a run -/

def Receiver.collector? : Receiver → Option Nat
  | .callback .. => none
  | .collector k => some k

/-- The collector that a receiver is. -/
def collectorOf (s : Session) (j : Nat) : Option Nat := s.receivers[j]?.bind (·.collector?)

/-- The collector of a request. -/
def collector? (s : Session) (r : Nat) : Option Nat := (receiver? s r).bind (collectorOf s)

/-- The collector that a moment brings, and for which request. -/
def gathersAt : Moment component → List (String × Side)
  | ⟨s, .exec _ (.readAll id req _)⟩ => (s.source? id).toList.map fun _ => (req, .reading)
  | ⟨s, .exec _ (.writeAll id req _)⟩ => (s.sink? id).toList.map fun _ => (req, .writing)
  | _ => []

/-- The report that reaches a collector at a moment. -/
def givenAt (k : Nat) : Moment component → List Event
  | ⟨s, .resume (.deliver j e)⟩ => if collectorOf s j = some k then [e] else []
  | _ => []

/-- The request that ends at a moment. -/
def endsAt : Moment component → Option Nat
  | ⟨_, .resume (.finish r)⟩ | ⟨_, .unwind (.serve r)⟩ | ⟨_, .unwind (.finish r)⟩ => some r
  | ⟨s, .resume (.serve r)⟩ | ⟨s, .poll (.request r)⟩ =>
    if (s.hub.advance Scripted.devices s.devices r).2.2.2 = .crash then some r else none
  | _ => none

/-- Whether the request of a collector ends at a moment. -/
def endedAt (k : Nat) (q : Moment component) : Bool :=
  (endsAt q).bind (collector? q.state) == some k

/-- What a collector tells at a moment. -/
def tellsAt (k : Nat) : Moment component → List Outcome
  | ⟨s, .poll (.collector j)⟩ => if j = k then ((s.collectors[k]?).bind (·.2.outcome?)).toList else []
  | _ => []

/-- The collectors of a run, with their requests; collector `k` is the one at place `k`. -/
def gatherings (past : List (Moment component)) : List (String × Side) := past.flatMap gathersAt

/-- The reports that reached a collector, in order. -/
def given (k : Nat) (past : List (Moment component)) : List Event := past.flatMap (givenAt k)

/-- Whether the request of a collector is over, so that no report can come any more. -/
def cutOff (k : Nat) (past : List (Moment component)) : Bool := past.any (endedAt k)

/-- What a collector has told. -/
def verdicts (k : Nat) (past : List (Moment component)) : List Outcome := past.flatMap (tellsAt k)

/-- A collector whose request may have come to its end. -/
def Collector.stop (c : Collector) (b : Bool) : Collector := { c with ended := c.ended || b }

/-- A collector after a moment. -/
def Collector.after (c : Collector) (k : Nat) (q : Moment component) : Collector where
  gathered := (givenAt k q).foldl Gathered.push c.gathered
  ended := c.ended || endedAt k q
  told := c.told || !(tellsAt k q).isEmpty

/-- What a run has made of a collector. -/
def collectorAfter (past : List (Moment component)) (k : Nat) (side : Side) : Collector where
  gathered := (given k past).foldl Gathered.push side.empty
  ended := cutOff k past
  told := !(verdicts k past).isEmpty

theorem gatherings_concat (past : List (Moment component)) (q : Moment component) :
    gatherings (past ++ [q]) = gatherings past ++ gathersAt q := by
  simp [gatherings]

theorem collectorAfter_concat (past : List (Moment component)) (q : Moment component) (k : Nat)
    (side : Side) :
    collectorAfter (past ++ [q]) k side = (collectorAfter past k side).after k q := by
  have htold : (verdicts k (past ++ [q])).isEmpty = ((verdicts k past).isEmpty && (tellsAt k q).isEmpty) := by
    simp only [verdicts, List.flatMap_append, List.flatMap_singleton]
    cases past.flatMap (tellsAt k) <;> rfl
  simp [collectorAfter, Collector.after, given, cutOff, htold]

/-! ### What a turn does to collectors -/

section Turns

variable {s : Session} {q : Moment component} {k : Nat} {c : Collector}

theorem after_eq (hg : givenAt k q = []) (he : endedAt k q = false) (ht : tellsAt k q = []) :
    c.after k q = c := by
  simp [Collector.after, hg, he, ht]

theorem after_gathered (he : endedAt k q = false) (ht : tellsAt k q = []) :
    c.after k q = { c with gathered := (givenAt k q).foldl Gathered.push c.gathered } := by
  simp [Collector.after, he, ht]

theorem after_ended (hg : givenAt k q = []) (ht : tellsAt k q = []) :
    c.after k q = c.stop (endedAt k q) := by
  simp [Collector.after, Collector.stop, hg, ht]

theorem after_told (hg : givenAt k q = []) (he : endedAt k q = false) :
    c.after k q = { c with told := c.told || !(tellsAt k q).isEmpty } := by
  simp [Collector.after, hg, he]

theorem request_collectors (s : Session) (p : Nat) (job : Job) (receiver : Receiver)
    (more : List Task) : (request s p job receiver more).state.collectors = s.collectors := by
  unfold request
  dsimp only
  split <;> rfl

theorem close_collectors (s : Session) (ps : List Nat) :
    (s.close ps).1.collectors = s.collectors := by
  unfold Session.close
  generalize ([] : List Nat) = ws
  induction ps generalizing s ws with
  | nil => rfl
  | cons p ps ih => rw [List.foldl_cons, ih]

/-- A request keeps its receiver to its end. -/
theorem receiver?_finish (s : Session) (r : Nat) :
    (s.hub.finish r).1.requests[r]?.bind (·.receiver) = receiver? s r := by
  rw [Hub.finish_requests, List.getElem?_modify, receiver?]
  cases s.hub.requests[r]? <;> simp

theorem finish_eq (s : Session) (r : Nat) :
    finish s r =
      match collector? s r with
      | some k =>
        ({ s with
            hub := (s.hub.finish r).1
            collectors := s.collectors.modify k fun c => (c.1, { c.2 with ended := true }) },
          (s.hub.finish r).2.map .request ++ [.collector k])
      | none => ({ s with hub := (s.hub.finish r).1 }, (s.hub.finish r).2.map .request) := by
  simp only [finish, endCollector, receiver?_finish, collector?]
  cases receiver? s r with
  | none => simp
  | some j =>
    simp only [Option.bind_some, collectorOf]
    cases s.receivers[j]? with
    | none => simp
    | some w => cases w <;> simp [Receiver.collector?]

/-- The collector of a request that ends gets no report any more. -/
theorem finish_collectors (s : Session) (r k : Nat) :
    (finish s r).1.collectors[k]? = s.collectors[k]?.map fun p =>
      (p.1, p.2.stop (collector? s r == some k)) := by
  rw [finish_eq]
  cases hk : collector? s r with
  | none => simp [Collector.stop]
  | some j =>
    simp only [List.getElem?_modify]
    by_cases h : j = k
    · simp [h, Collector.stop]
    · simp [h, beq_false_of_ne h, Collector.stop]

/-- A request that goes on keeps its receiver. -/
theorem receiver?_advance (s : Session) (r : Nat) :
    (s.hub.advance Scripted.devices s.devices r).1.requests[r]?.bind (·.receiver) =
      receiver? s r := by
  unfold receiver?
  cases hq : s.hub.requests[r]? with
  | none => simp [Hub.advance, hq]
  | some q =>
    cases hp : s.hub.ports[q.port]? with
    | none => simp [Hub.advance, hq, hp]
    | some port =>
      by_cases hf : q.phase = .finished
      · simp [Hub.advance, hq, hp, hf]
      · obtain ⟨us, q', port', wakes, adv, devices, hv, hadv⟩ :=
          Hub.advance_served Scripted.devices_bounded s.devices hq hp hf
        rw [Hub.advance_recording Scripted.devices s.hub s.devices [], hadv]
        simp [Hub.getElem?_put_requests hq, hv.receiver_eq]

/-- What becomes of the collectors when a request goes on. -/
theorem serve_collectors (s : Session) (r k : Nat) :
    (serve s r).state.collectors[k]? = s.collectors[k]?.map fun p => (p.1, p.2.stop
      ((s.hub.advance Scripted.devices s.devices r).2.2.2 = .crash && collector? s r == some k)) := by
  obtain ⟨⟨hub, devices, wakes, adv⟩, hadv⟩ :
    ∃ a, s.hub.advance Scripted.devices s.devices r = a := ⟨_, rfl⟩
  have hk : collector? { s with hub, devices } r = collector? s r := by
    have h := receiver?_advance s r
    rw [hadv] at h
    exact congrArg (Option.bind · (collectorOf s)) h
  have hlast : (s.hub.advance Scripted.devices s.devices r).2.2.2 = adv := by rw [hadv]
  rw [hlast, serve_eq hadv]
  cases adv with
  | idle | again => simp [Collector.stop]
  | crash => simp [finish_collectors, hk]
  | report e last =>
    dsimp only
    split <;> simp [Collector.stop]

/-- What an action does to collectors: it may bring some, and tells nothing. -/
structure Gathers (s : Session) (brought : List (String × Collector)) (t : Turn signature) :
    Prop where
  collectors : t.state.collectors = s.collectors ++ brought
  /-- A receiver that is a collector has been so before, or has come with it. -/
  receivers : ∀ j k, collectorOf t.state j = some k →
    collectorOf s j = some k ∨ k < t.state.collectors.length
  silent : t.notes = []

theorem Gathers.plain {t : Turn signature} (hc : t.state.collectors = s.collectors)
    (hr : t.state.receivers = s.receivers) (hn : t.notes = []) : Gathers s [] t where
  collectors := by rw [hc, List.append_nil]
  receivers j k h := by
    unfold collectorOf at *
    exact .inl (hr ▸ h)
  silent := hn

theorem collectorOf_concat {s s' : Session} {w : Receiver} (h : s'.receivers = s.receivers ++ [w])
    {j k : Nat} (hk : collectorOf s' j = some k) : collectorOf s j = some k ∨ w = .collector k := by
  unfold collectorOf at *
  rw [h, List.getElem?_append] at hk
  split at hk
  · exact .inl hk
  · rw [List.getElem?_singleton] at hk
    split at hk
    · refine .inr ?_
      cases w <;> simp_all [Receiver.collector?]
    · cases hk

theorem request_notes (s : Session) (p : Nat) (job : Job) (receiver : Receiver) (more : List Task) :
    (request s p job receiver more).notes = [] := by
  unfold request
  dsimp only
  split <;> rfl

theorem exec_gathers (view : View) (s : Session) (a : Action) :
    Gathers s ((gathersAt ⟨s, .exec view a⟩).map fun g => (g.1, { gathered := g.2.empty }))
      (exec view s a) := by
  cases a with
  | source | sink | drop => exact .plain rfl rfl rfl
  | feed | pair | split | describe =>
    simp only [exec]
    split <;> exact .plain rfl rfl rfl
  | requestRead | requestWrite =>
    simp only [exec]
    split
    · exact .plain rfl rfl rfl
    · exact .plain rfl rfl rfl
    · refine ⟨(request_collectors ..).trans (List.append_nil _).symm, fun j k hk => ?_,
        request_notes ..⟩
      exact (collectorOf_concat (request_receivers ..) hk).imp_right fun h => by cases h
  | readAll | writeAll =>
    simp only [exec, gathersAt]
    split
    · rename_i h
      rw [h]
      exact .plain rfl rfl rfl
    · rename_i p h
      refine ⟨by simp [h, collect, request_collectors, Side.empty], fun j k hk => ?_,
        request_notes ..⟩
      refine (collectorOf_concat (request_receivers ..) hk).imp_right fun h => ?_
      cases h
      simp [collect, request_collectors]
  | close id =>
    simp only [exec]
    split
    · exact .plain rfl rfl rfl
    · exact .plain (close_collectors ..) (close_receivers ..) rfl

end Turns

/-- A moment does to each collector what `Collector.after` says, and may bring one more. -/
theorem after_collectors (q : Moment component) :
    q.after.collectors = q.state.collectors.mapIdx (fun k p => (p.1, p.2.after k q)) ++
      (gathersAt q).map fun g => (g.1, { gathered := g.2.empty }) := by
  have hsame {q : Moment component} (hg : gathersAt q = []) (hs : ∀ k, ∃ f : Collector → Collector,
      (∀ c, c.after k q = f c) ∧
        q.after.collectors[k]? = q.state.collectors[k]?.map fun p => (p.1, f p.2)) :
      q.after.collectors = q.state.collectors.mapIdx (fun k p => (p.1, p.2.after k q)) ++
        (gathersAt q).map fun g => (g.1, { gathered := g.2.empty }) := by
    rw [hg, List.map_nil, List.append_nil]
    refine List.ext_getElem? fun k => ?_
    obtain ⟨f, hf, h⟩ := hs k
    rw [h, List.getElem?_mapIdx]
    simp only [hf]
  obtain ⟨s, cause⟩ := q
  match cause with
  | .resume (.serve r) | .poll (.request r) =>
    refine hsame rfl fun k => ⟨_, fun c => after_ended rfl rfl, ?_⟩
    refine (serve_collectors s r k).trans (congrArg (Option.map · _) (funext fun p => ?_))
    simp only [endedAt, endsAt]
    split <;> simp_all
  | .resume (.finish r) | .unwind (.serve r) | .unwind (.finish r) =>
    refine hsame rfl fun k => ⟨_, fun c => after_ended rfl rfl, ?_⟩
    exact finish_collectors s r k
  | .resume (.deliver j e) =>
    refine hsame rfl fun k => ⟨_, fun c => after_gathered rfl rfl, ?_⟩
    simp only [Moment.after, resume, deliver, givenAt, collectorOf]
    split
    · rename_i h
      simp [h]
    · rename_i k' h
      simp only [h, List.getElem?_modify]
      by_cases hk : k' = k <;> simp [hk, Receiver.collector?, Collector.push]
    · rename_i h
      simp [h, Receiver.collector?]
  | .unwind (.deliver j e) | .tick =>
    refine hsame rfl fun k => ⟨_, fun c => after_eq rfl rfl rfl, ?_⟩
    simp [Moment.after, unwind]
  | .poll (.collector j) =>
    refine hsame rfl fun k => ⟨_, fun c => after_told rfl rfl, ?_⟩
    simp only [Moment.after, poll, tellsAt]
    by_cases hk : j = k
    · subst hk
      cases hc : s.collectors[j]? with
      | none => simp [hc]
      | some p =>
        cases ho : p.2.outcome? with
        | none => simp [hc, ho]
        | some o => simp [ho, (List.getElem?_eq_some_iff.mp hc).1]
    · simp only [hk, if_false, List.isEmpty_nil, Bool.not_true, Bool.or_false]
      split
      · simp
      · split <;> simp [List.getElem?_set_ne hk]
  | .exec view a =>
    have hmap : s.collectors.mapIdx (fun k p => (p.1, p.2.after k ⟨s, .exec view a⟩)) =
        s.collectors := by
      refine List.ext_getElem? fun k => ?_
      simp [after_eq (q := ⟨s, .exec view a⟩) rfl rfl rfl]
    rw [hmap]
    exact (exec_gathers view s a).collectors

theorem after_collectorOf {q : Moment component} {j k : Nat} (hk : collectorOf q.after j = some k) :
    collectorOf q.state j = some k ∨ k < q.after.collectors.length := by
  obtain ⟨s, cause⟩ := q
  have hsame {s' : Session} (h : s'.receivers = s.receivers) (hk : collectorOf s' j = some k) :
      collectorOf s j = some k := by
    unfold collectorOf at *
    exact h ▸ hk
  match cause with
  | .exec view a => exact (exec_gathers view s a).receivers j k hk
  | .resume (.serve r) | .poll (.request r) => exact .inl (hsame (serve_goes s r).1 hk)
  | .resume (.finish r) | .unwind (.serve r) | .unwind (.finish r) =>
    exact .inl (hsame (finish_receivers s r) hk)
  | .resume (.deliver i e) =>
    refine .inl ?_
    simp only [Moment.after, resume, deliver] at hk
    split at hk
    · exact hk
    · exact hk
    · rename_i h
      unfold collectorOf at *
      by_cases hi : i = j
      · subst hi
        simp [(List.getElem?_eq_some_iff.mp h).1, Receiver.collector?] at hk
      · rwa [List.getElem?_set_ne hi] at hk
  | .unwind (.deliver i e) | .tick => exact .inl hk
  | .poll (.collector i) =>
    refine .inl (hsame ?_ hk)
    simp only [Moment.after, poll]
    split
    · rfl
    · split <;> rfl

end Conduit.Pipe
