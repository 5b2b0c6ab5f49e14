import Conduit.Proofs.Pipe.Over
import Conduit.Proofs.Pipe.Reported
import Conduit.Proofs.Pipe.Sink
import Conduit.Proofs.Pipe.Source

/-!
Throws out of callbacks. A callback that throws on the stack of its request ends the request, as if
the report that it was called with had been the last one; whatever comes then is the same for all
other requests. A throw out of a serial context or a thread changes nothing at all.
-/

namespace Conduit.Pipe

open Dispatch Machine

/-- The callback of the receiver `k` is called with the report `e`. It runs through the machines
`ms` until it throws. -/
structure Mishap (x : Execution start) (k : Nat) (e : Event) (ms : List (Machine component))
    (m : Machine component) : Prop where
  calls : x.machine.cause? = some (.resume (.deliver k e))
  within : x.machine.Within (x.machine.stack.length - 1) ms m
  height : m.stack.length = x.machine.stack.length - 1
  thrown : m.control = .thrown

/-- While a request has its turn no other request does anything, nor does the request itself as long
as something runs above it. -/
theorem acts_above {m : Machine component} (hc : Shape m.config)
    {above lower : List (Dispatch.Frame component)} {f : Frame}
    (hs : m.stack = above ++ .own f :: lower) (ha : above ≠ []) (hf : f.request?.isSome) {k : Nat}
    (hk : k < m.state.receivers.length) : acts k (deeds m.moment?.toList) = [] := by
  -- Of all frames only `f` belongs to a request.
  have honly {g : Frame} {k : List (Dispatch.Frame component)} (hg : m.stack = .own g :: k)
      (hheld : held m.config = (g :: owned k).filterMap Frame.request?) : g.request? = none := by
    by_contra hne
    obtain ⟨a, ha'⟩ := Option.ne_none_iff_exists'.mp hne
    obtain ⟨b, hb⟩ := Option.isSome_iff_exists.mp hf
    obtain ⟨above, rfl⟩ : ∃ above', above = .own g :: above' := by
      cases above with
      | nil => exact absurd rfl ha
      | cons g' above =>
        rw [hs] at hg
        exact ⟨above, by simpa using (List.cons.inj hg).1⟩
    obtain rfl : above ++ .own f :: lower = k := by
      rw [hs] at hg
      exact (List.cons.inj hg).2
    have := hc.alone
    rw [hheld] at this
    simp [owned, ha', hb] at this
  cases hcause : m.cause? with
  | none => simp [moment?_eq hcause, deeds, acts_nil]
  | some cause =>
    rw [show deeds m.moment?.toList = deedsAt ⟨m.state, cause⟩ by simp [moment?_eq hcause, deeds]]
    cases cause with
    | exec view a => exact acts_exec a hk
    | resume g =>
      obtain ⟨⟨b, hb⟩, rest, hg⟩ := stack_of_resume hcause
      have := honly hg (by simp [held, config_own hb hg])
      cases g with
      | deliver => rfl
      | serve | finish => cases this
    | unwind g =>
      obtain ⟨hb, rest, hg⟩ := stack_of_unwind hcause
      have := honly hg (by simp [held, config_thrown hb, bare, hg])
      cases g with
      | deliver => rfl
      | serve | finish => cases this
    | poll t => simp [stack_of_step? (step?_of_poll hcause)] at hs
    | tick => rfl

namespace Mishap

variable {x : Execution start} {k : Nat} {e : Event} {ms : List (Machine component)}
  {m : Machine component}

/-- The run until the callback throws. -/
def execution (w : Mishap x k e ms m) : Execution start :=
  x.andThen ⟨ms.flatMap (·.moment?.toList), m, w.within.run⟩

/-- Where the callback has thrown, the frame below it is the uppermost. -/
theorem frame (w : Mishap x k e ms m) {f : Dispatch.Frame component}
    {lower : List (Dispatch.Frame component)}
    (hs : x.machine.stack = .own (.deliver k e) :: f :: lower) :
    ∃ f' lower', m.stack = f' :: lower' ∧ f.Kept f' ∧ AllKept lower lower' := by
  obtain ⟨above, f', lower', hs', hf, hlower⟩ := w.within.frame [_] hs (by simp)
    (by simp [hs])
  obtain rfl : above = [] := by
    have := w.height
    rw [hs, hs'] at this
    simpa [hlower.length_eq] using this
  exact ⟨f', lower', hs', hf, hlower⟩

/-- A callback on the stack of its request throws at the request. -/
theorem stack (w : Mishap x k e ms m) {r : Nat} {last : Bool}
    (h : OnStack x.machine r k e last) : m.stack = [.own (restOf r last), .task] := by
  obtain ⟨f', lower', hs, hf, hlower⟩ := w.frame h.stack
  cases hf
  rw [hs, hlower.eq_task]

/-- Meanwhile the request does nothing. -/
theorem acts_eq (w : Mishap x k e ms m) {r : Nat} {last : Bool}
    (h : OnStack x.machine r k e last) : acts k (history w.execution) = acts k (history x) := by
  obtain ⟨c, hcontext, -⟩ := h.direct
  have hquiet {n : Machine component} {past : List (Moment component)} (hrun : Run x.machine past n)
      (above : List (Dispatch.Frame component))
      (hs : n.stack = above ++ [.own (restOf r last), .task]) (ha : above ≠ []) :
      acts k (deeds n.moment?.toList) = [] := by
    refine acts_above (ledger ⟨_, n, x.run.trans hrun⟩).1.shape hs ha (by simp [restOf_request?]) ?_
    rw [← n.state.length_contexts]
    exact Nat.lt_of_lt_of_le (Session.lt_of_context? hcontext) (run_contexts hrun).length_le
  have hall {d : Nat} {n : Machine component} (hw : x.machine.Within d ms n) (hd : d = 2) :
      acts k (deeds (ms.flatMap (·.moment?.toList))) = [] := by
    clear w
    induction hw with
    | enter hm => simpa using hquiet .start [_] h.stack (by simp)
    | next hw hlt hm ih =>
      obtain ⟨above, f', lower', hs, hf, hlower⟩ := hw.frame [_] h.stack (by simp)
        (by simp [hd])
      cases hf
      rw [hlower.eq_task] at hs
      have ha : above ≠ [] := by
        rintro rfl
        simp [hs, hd] at hlt
      simp [ih, hquiet hw.run above hs ha]
  simp [history, execution, ExecutionBy.andThen, hall w.within (by simp [h.stack])]

end Mishap

/-! ### Alike -/

/-- Whatever run there is from `a`, in some run from `b` with the same cues requests do and are told
the same, and both come to rest in the same place. -/
def Follows (a b : Machine component) : Prop :=
  ∀ cues past m, Plays a cues past m → ∃ past' m', Plays b cues past' m' ∧
    (∀ j, acts j (deeds past') = acts j (deeds past)) ∧ (m.step? = none → m' = m)

/-- Each follows the other. -/
def SameRuns (a b : Machine component) : Prop := Follows a b ∧ Follows b a

/-- Machines that come to the same point by themselves, while no request does anything. -/
theorem follows_of_steps {a b n : Machine component} {qs qs' : List (Moment component)}
    (ha : Steps a qs n) (hb : Steps b qs' n) (hqs : ∀ j, acts j (deeds qs) = [])
    (hqs' : ∀ j, acts j (deeds qs') = []) : Follows a b := by
  intro cues past m h
  rcases h.through ha with ⟨rfl, later, hleft, rfl⟩ | ⟨later, hn, rfl⟩
  · refine ⟨_, n, hb.plays .start, fun j => ?_, fun hm => (hleft.of_stopped hm).2⟩
    have hnone := hqs j
    rw [deeds_append, acts_append, List.append_eq_nil_iff] at hnone
    rw [List.append_nil, hqs' j, hnone.1]
  · refine ⟨_, m, hb.plays hn, fun j => ?_, fun _ => rfl⟩
    rw [deeds_append, deeds_append, acts_append, acts_append, hqs, hqs']

/-- The machine at which the callback has returned, after the last report of the request `r`. -/
def ended (m : Machine component) (r : Nat) : Machine component :=
  { m with control := .back .done, stack := .own (.finish r) :: m.stack.tail }

/-- The machine at which the callback has returned. -/
def returned (m : Machine component) : Machine component := { m with control := .back .done }

/-- The machine after a request is over, which stands at the task that served it. -/
def afterEnd (m : Machine component) (r : Nat) (control : Control component) : Machine component :=
  { m with
    state := (finish m.state r).1
    ready := woken m.ready ((finish m.state r).2.map .own)
    stack := [.task]
    control }

section Ends

variable {m : Machine component} {r : Nat} {last : Bool}

theorem unwind_restOf (s : Session) (r : Nat) (last : Bool) :
    unwind s (restOf r last) = finish s r := by
  cases last <;> rfl

theorem step?_throw (hs : m.stack = [.own (restOf r last), .task]) (hc : m.control = .thrown) :
    m.step? = some (afterEnd m r .thrown) := by
  rw [step?_thrown hc hs]
  simp only [Machine.unwind, Machine.discard, wakeAll_woken, hc, unwind_restOf]
  rfl

theorem step?_ended (hs : m.stack = [.own (restOf r last), .task]) :
    (ended m r).step? = some (afterEnd m r (.back .done)) := by
  have hs' : (ended m r).stack = [.own (.finish r), .task] := by simp [ended, hs]
  rw [step?_back (m := ended m r) rfl hs']
  simp only [returnTo, take, wakeAll_woken]
  rfl

theorem step?_afterEnd (control : Control component)
    (hc : control = .thrown ∨ control = .back .done) :
    (afterEnd m r control).step? = some { afterEnd m r (.back .done) with stack := [] } := by
  rcases hc with rfl | rfl
  · rw [step?_thrown (m := afterEnd m r .thrown) rfl rfl]
    rfl
  · rw [step?_back (m := afterEnd m r (.back .done)) rfl rfl]
    rfl

theorem acts_throw (hs : m.stack = [.own (restOf r last), .task]) (hc : m.control = .thrown)
    (j : Nat) : acts j (deeds m.moment?.toList) = [] := by
  rw [moment?_eq (cause?_thrown hc hs)]
  cases last with
  | false => simpa [deeds, deedsAt, restOf] using acts_lost _
  | true => rfl

theorem acts_ended (j : Nat) : acts j (deeds (ended m r).moment?.toList) = [] := rfl

theorem acts_afterEnd (control : Control component)
    (hc : control = .thrown ∨ control = .back .done) (j : Nat) :
    acts j (deeds (afterEnd m r control).moment?.toList) = [] := by
  rcases hc with rfl | rfl <;> rfl

end Ends

/-- A throw that passes a request ends it, and nothing more. -/
theorem sameRuns_ended {m : Machine component} {r : Nat} {last : Bool}
    (hs : m.stack = [.own (restOf r last), .task]) (hc : m.control = .thrown) :
    SameRuns m (ended m r) := by
  have hthrow := Steps.step (step?_throw hs hc)
    (.step (step?_afterEnd (m := m) (r := r) .thrown (.inl rfl)) (.stay _))
  have hended := Steps.step (step?_ended hs)
    (.step (step?_afterEnd (m := m) (r := r) (.back .done) (.inr rfl)) (.stay _))
  have hacts (j : Nat) : acts j (deeds (m.moment?.toList ++
      ((afterEnd m r .thrown).moment?.toList ++ []))) = [] := by
    simp [acts_throw hs hc, acts_afterEnd]
  have hacts' (j : Nat) : acts j (deeds ((ended m r).moment?.toList ++
      ((afterEnd m r (.back .done)).moment?.toList ++ []))) = [] := by
    simp [acts_ended, acts_afterEnd]
  exact ⟨follows_of_steps hthrow hended hacts hacts', follows_of_steps hended hthrow hacts' hacts⟩

/-- A throw that comes to the turn of a venue goes no further. -/
theorem sameRuns_returned {m : Machine component} {v : Nat}
    {lower : List (Dispatch.Frame component)} (hs : m.stack = .turn (.venue v) :: lower)
    (hc : m.control = .thrown) : SameRuns m (returned m) := by
  have hthrow := Steps.step (step?_thrown hc hs) (.stay _)
  have hreturn := Steps.step (step?_back (m := returned m) rfl hs) (.stay _)
  have hacts (j : Nat) : acts j (deeds (m.moment?.toList ++ [])) = [] := by
    rw [moment?_eq (cause?_thrown hc hs)]
    rfl
  have hacts' (j : Nat) : acts j (deeds ((returned m).moment?.toList ++ [])) = [] := by
    rw [moment?_eq (cause?_back (m := returned m) rfl hs)]
    rfl
  exact ⟨follows_of_steps hthrow hreturn hacts hacts', follows_of_steps hreturn hthrow hacts' hacts⟩

/-! ### The whole of it -/

/-- The request `r` lets go of its port, which is not closed for that. -/
structure Freed (m b : Machine component) (r : Nat) : Prop where
  finished : ∃ q, b.state.hub.requests[r]? = some q ∧ q.phase = .finished
  gone : ∀ y : Execution b, ∀ (p : Nat) (port : Port), y.machine.state.hub.ports[p]? = some port →
    r ∉ port.queue
  closed : ∀ p, b.state.hub.isClosed p = m.state.hub.isClosed p
  /-- The first one in line holds the port instead, and is woken. -/
  heir : ∀ (p : Nat) (port : Port), m.state.hub.ports[p]? = some port → port.holder = some r →
    ∃ port', b.state.hub.ports[p]? = some port' ∧ port'.holder = port.line.head? ∧
      ∀ s, port'.holder = some s → .own (.request s) ∈ b.ready

/-- Where a run has come to `z`, the report `e` is still the last one of the receiver `k`, which had
it when the run stood at `x` and not yet at `x₀`. -/
structure Settled (x₀ x z : Execution start) (k : Nat) (e : Event) : Prop where
  last : events k (history z) = events k (history x₀) ++ [e]
  /-- What the request moved up to the report has its place among what the device of its port moved,
  before what later requests move. -/
  carried : ∀ (p : Nat) (before after : List Nat), issued p (history z) = before ++ k :: after →
    transferred p (history z) = before.flatMap (moved · (history z)) ++ moved k (history x) ++
      after.flatMap (moved · (history z))

/-- What a throw out of the callback of a request does, which has been called directly. -/
structure EndsAlone {x : Execution start} {k : Nat} {e : Event} {ms : List (Machine component)}
    {m : Machine component} (w : Mishap x k e ms m) (x₀ : Execution start) (r : Nat) : Prop where
  /-- The report stays the last one of the request. -/
  settled : ∀ y : Execution w.execution.machine, Settled x₀ x (w.execution.andThen y) k e
  /-- Its callback is not called again. -/
  uncalled : ∀ y : Execution w.execution.machine, ∀ q ∈ y.past, ∀ e',
    q.cause ≠ .resume (.deliver k e')
  /-- For all others it is as if the request had ended with the report. -/
  others : SameRuns m (ended m r)
  freed : ∃ b, m.step? = some b ∧ Freed m b r
  /-- The bytes of a read were delivered, those of the report included. -/
  delivered : ∀ p n, .asked k p (.read n 0) ∈ history x →
    moved k (history x) = (events k (history x₀)).flatMap (·.data) ++ e.data
  /-- The bytes of a write were accepted, but for those that the report says are left. -/
  accepted : ∀ p data, .asked k p (.write data) ∈ history x →
    ∃ e', e = .write e' ∧ moved k (history x) ++ e'.remaining = data

namespace Mishap

variable {x x₀ : Execution start} {k r : Nat} {e : Event} {ms : List (Machine component)}
  {m : Machine component} {last : Bool}

/-- After the throw the request is over. -/
theorem over_afterEnd (w : Mishap x k e ms m) (h : OnStack x.machine r k e last) :
    (desk (afterEnd m r .thrown).config).Over r k := by
  obtain ⟨q, hq, hk⟩ := Option.bind_eq_some_iff.mp h.receiver
  obtain ⟨-, q', hq', hk'⟩ := run_induction w.within.run (ledger x).1
    (fun _ d => ∃ q, d.hub.requests[r]? = some q ∧ q.receiver = some k)
    ⟨q, by simpa [desk] using hq, hk⟩ fun _ _ _ _ _ _ ⟨q, hq, hk⟩ m =>
      have ⟨q', hq', hk', _⟩ := m.request hq
      ⟨q', hq', hk'.trans hk⟩
  refine ⟨{ q' with phase := .finished }, ?_, hk', rfl⟩
  have hq' : m.state.hub.requests[r]? = some q' := by simpa [desk] using hq'
  simp [desk, afterEnd, finish_hub, Hub.finish_requests, hq']

/-- Whatever comes after the throw, the request has done nothing more since the report. -/
theorem acts_later (w : Mishap x k e ms m) (h : OnStack x.machine r k e last)
    (y : Execution w.execution.machine) :
    acts k (history (w.execution.andThen y)) = acts k (history x) := by
  rw [← w.acts_eq h]
  have hstep := step?_throw (w.stack h) w.thrown
  rcases y.run.after_step hstep with ⟨hp, -⟩ | ⟨later, hp, hrun⟩
  · simp [history, ExecutionBy.andThen, hp]
  · obtain ⟨-, hacts⟩ := over_stays (x := ⟨_, _, w.execution.run.advance (advance?_of_step hstep)⟩)
      ⟨later, y.machine, hrun⟩ (w.over_afterEnd h)
    have hquiet : acts k (deeds w.execution.machine.moment?.toList) = [] :=
      acts_throw (w.stack h) w.thrown k
    simp only [history, ExecutionBy.andThen, hp, deeds_append, acts_append] at hacts ⊢
    rw [← List.append_assoc, hacts]
    simpa using hquiet

theorem settled (w : Mishap x k e ms m) (hx : Reported x₀ x r k e)
    (h : OnStack x.machine r k e last) (y : Execution w.execution.machine) :
    Settled x₀ x (w.execution.andThen y) k e := by
  have hacts := w.acts_later h y
  refine ⟨?_, fun p before after hissued => ?_⟩
  · rw [← hx.events_eq, events, events, hacts]
  · have hcarried := (ledger (w.execution.andThen y)).2.carried.carried p
    rw [← hcarried, hissued]
    simp [moved, hacts]

/-- A callback that has thrown is not called again. -/
theorem uncalled (w : Mishap x k e ms m) (h : OnStack x.machine r k e last)
    (y : Execution w.execution.machine) :
    ∀ q ∈ y.past, ∀ e', q.cause ≠ .resume (.deliver k e') := by
  have hacts : acts k (deeds y.past) = [] := by
    have hall := w.acts_later h y
    rw [← w.acts_eq h] at hall
    simpa [history, ExecutionBy.andThen] using hall
  refine Unsent.run (fun e' hf => ?_) y.run hacts
  -- Below the callback there was its request, and no line has reports for a direct context.
  obtain ⟨c, hcontext, hplace⟩ := h.direct
  have hframes : w.execution.machine.config.frames = restOf r last :: m.bare.waiting.flatten := by
    rw [show w.execution.machine.config = m.bare from config_thrown w.thrown]
    simp [Config.frames, bare, w.stack h, owned]
  rw [hframes] at hf
  rcases List.mem_cons.mp hf with hf | hf
  · cases last <;> cases hf
  · obtain ⟨line, hline, hmem⟩ := List.mem_flatten.mp hf
    obtain ⟨v, hv, rfl⟩ := List.mem_iff_getElem.mp hline
    have hv : v < m.venues.length := by simpa [bare] using hv
    have hw : .deliver k e' ∈ m.line v := by
      rw [line, Floor.line_of (f := m.floor) (List.getElem?_eq_getElem hv)]
      simpa [bare] using hmem
    obtain ⟨j, e'', c', hj, hc', hvenue⟩ := mem_line w.execution.run hw
    obtain rfl : k = j := (Frame.deliver.inj hj).1
    have hsame : m.state.context? k = some c :=
      (Session.context?_mono (run_contexts w.within.run) (Session.lt_of_context? hcontext)).trans
        hcontext
    obtain rfl := Option.some.inj (hsame.symm.trans hc')
    simp [hplace] at hvenue

/-- The request lets go of its port. -/
theorem freed (w : Mishap x k e ms m) (h : OnStack x.machine r k e last) :
    Freed m (afterEnd m r .thrown) r := by
  have hover := w.over_afterEnd h
  have hstep := step?_throw (w.stack h) w.thrown
  have hhub : (afterEnd m r .thrown).state.hub = (m.state.hub.finish r).1 := finish_hub m.state r
  have hsound : (desk m.config).Sound := (ledger w.execution).1.sound
  refine ⟨?_, fun y p port hp => ?_, fun p => ?_, fun p port hp hh => ?_⟩
  · obtain ⟨q, hq, -, hph⟩ := hover
    exact ⟨q, by simpa [desk] using hq, hph⟩
  · let z : Execution start := ⟨_, _, w.execution.run.advance (advance?_of_step hstep)⟩
    have hstays := (over_stays (x := z) y hover).1
    exact hstays.not_mem (ledger (z.andThen y)).1.sound (by simpa [desk] using hp)
  · have hmap := finish_map (g := (·.closed)) (fun _ _ _ _ => rfl) m.state.hub r
    have hclosed (hub : Hub) : hub.isClosed p = ((hub.ports.map (·.closed))[p]?).getD true := by
      simp [Hub.isClosed]
    rw [hclosed, hclosed, hhub, hmap]
  · have hp' : (desk m.config).hub.ports[p]? = some port := by simpa [desk] using hp
    have hkept := hsound.port p port hp'
    obtain ⟨q, hq, rfl⟩ := hkept.member r (by simp [Port.queue, hh])
    have hq : m.state.hub.requests[r]? = some q := by simpa [desk] using hq
    have hfinish := Hub.finish_eq hq hp
    have hline : (port.without r).line = port.line :=
      List.erase_of_not_mem (hkept.tidy.not_mem_line hh)
    have hheir : (port.without r).heir r = port.line.head?.toList := by
      rw [← hline]
      exact if_pos hh
    have hholder : (port.quit r).holder = port.line.head? := by
      rw [← hline]
      exact congrArg Port.holder (if_pos hh)
    refine ⟨port.quit r, ?_, hholder, fun s hs => ?_⟩
    · rw [hhub, hfinish]
      exact Hub.getElem?_put_ports (q := { q with phase := .finished }) hp
    · refine mem_woken.mpr (.inr (List.mem_map.mpr ⟨_, ?_, rfl⟩))
      have hwakes := finish_wakes m.state r
      have hs : s ∈ (m.state.hub.finish r).2 := by
        rw [hfinish]
        simp [hheir, ← hholder, hs]
      rw [← hwakes, List.mem_filterMap] at hs
      obtain ⟨t, ht, hts⟩ := hs
      cases t with
      | request =>
        cases hts
        exact ht
      | collector => cases hts

end Mishap

/-- A request that was issued has a tale. -/
theorem tale_of_issue {x : Execution start} {k p : Nat} {job : Job}
    (hasked : .asked k p job ∈ history x) :
    job.Initial ∧ ∃ chunk closed f, Tale chunk p closed job (acts k (history x)) f := by
  obtain ⟨_, hend, -⟩ := (ledger x).1.fitting.asked k p job hasked
  obtain ⟨hj, -, f, htale, -⟩ := tale_of_asked x hend hasked
  exact ⟨hj, _, _, f, htale⟩

namespace Reported

variable {x₀ x : Execution start} {r k : Nat} {e : Event}

theorem delivered (h : Reported x₀ x r k e) {p n : Nat}
    (hasked : .asked k p (.read n 0) ∈ history x) :
    moved k (history x) = (events k (history x₀)).flatMap (·.data) ++ e.data := by
  obtain ⟨-, _, _, f, htale⟩ := tale_of_issue hasked
  have hreceived := htale.read.contract.received
  rw [show received (acts k (history x)) = (events k (history x)).flatMap (·.data) from rfl,
    h.events_eq] at hreceived
  rw [moved, ← hreceived]
  simp

theorem accepted (h : Reported x₀ x r k e) {p : Nat} {data : Bytes}
    (hasked : .asked k p (.write data) ∈ history x) :
    ∃ e', e = .write e' ∧ moved k (history x) ++ e'.remaining = data := by
  obtain ⟨hdata, _, _, f, htale⟩ := tale_of_issue hasked
  obtain ⟨us, hacts⟩ := h.acts_eq
  obtain ⟨e', rfl, haccount⟩ := (htale.write hdata).contract.account _ e [] hacts
  refine ⟨e', rfl, ?_⟩
  rw [moved, hacts, List.flatMap_append]
  simpa [Act.moved] using haccount

end Reported

/-- What a throw out of a callback does. -/
structure MishapContract {x : Execution start} {k : Nat} {e : Event} {ms : List (Machine component)}
    {m : Machine component} (w : Mishap x k e ms m) : Prop where
  /-- A callback that has been called on the stack of its request ends that request alone. -/
  direct : ∀ x₀ r, Reported x₀ x r k e → EndsAlone w x₀ r
  /-- Out of a serial context or a thread a throw changes nothing. -/
  serial : ∀ c v kind, x.machine.state.context? k = some c → c.place = .venue v →
    x.machine.floor.kind? v = some kind → kind ≠ .manual → SameRuns m (returned m)

/-- A throw out of a callback does harm to no request but its own. -/
theorem mishap_contract {x : Execution start} {k : Nat} {e : Event} {ms : List (Machine component)}
    {m : Machine component} (w : Mishap x k e ms m) : MishapContract w := by
  refine ⟨fun x₀ r hx => ?_, fun c v kind hcontext hplace hkind hmanual => ?_⟩
  · obtain ⟨last, h⟩ := hx.onStack
    exact {
      settled := w.settled hx h
      uncalled := w.uncalled h
      others := sameRuns_ended (w.stack h) w.thrown
      freed := ⟨_, step?_throw (w.stack h) w.thrown, w.freed h⟩
      delivered := fun p n => hx.delivered
      accepted := fun p data => hx.accepted }
  · obtain ⟨-, lower, hs⟩ := stack_of_resume w.calls
    have hseat := seated x.run
    rw [hs] at hseat
    have ho := x.run.orderly (fresh_orderly (C := component) ({} : Session))
    cases hseat.1.2 c v hcontext hplace with
    | turn =>
      obtain ⟨f', lower', hs', hf, -⟩ := w.frame hs
      cases hf
      exact sameRuns_returned hs' w.thrown
    | @drain left ran =>
      have := ho.drains v left ran (by simp [floor, hs])
      rw [hkind] at this
      exact absurd (Option.some.inj this) hmanual

/-- Two reads are served one after the other. The callback of the first one, which reads all there
is, throws at its first chunk; its task is about to report it. -/
def clumsy : Execution start :=
  ((ExecutionBy.begin start).perform 1
    [.own (.source "in" { items := [.bytes [1, 2, 3, 4]] } (.withRead default 2)),
      .own (.read "in" "first" "direct" 0 [] (some 1)),
      .own (.read "in" "second" "direct" 2 [] none)]).advance

/-- The same on a serial context, which is about to call back. -/
def clumsyInLine : Execution start :=
  (11).repeat .advance ((ExecutionBy.begin start).perform 1
    [.context (.make "line" (.serial "line")),
      .own (.source "in" { items := [.bytes [1, 2, 3, 4]] } (.withRead default 2)),
      .own (.read "in" "first" "line" 2 [] (some 1)),
      .own (.read "in" "second" "line" 2 [] none)])

set_option maxRecDepth 4000 in
theorem mishap_contract_clumsy :
    (∃ w : Mishap clumsy.advance 0 (.read (.chunk [1, 2] false)) [clumsy.advance.machine]
        clumsy.advance.advance.machine,
      EndsAlone w clumsy 0 ∧
        events 1 (history ((8).repeat .advance clumsy)) = [.read (.chunk [3, 4] true)]) ∧
    Mishap clumsyInLine 0 (.read (.chunk [1, 2] true)) [clumsyInLine.machine]
        clumsyInLine.advance.machine ∧
      SameRuns clumsyInLine.advance.machine (returned clumsyInLine.advance.machine) := by
  have w : Mishap clumsy.advance 0 (.read (.chunk [1, 2] false)) [clumsy.advance.machine]
      clumsy.advance.advance.machine :=
    { calls := rfl, within := .enter rfl, height := rfl, thrown := rfl }
  have hx : Reported clumsy clumsy.advance 0 0 (.read (.chunk [1, 2] false)) :=
    { turn := ⟨_, _, _, _, rfl, rfl, rfl, rfl⟩, step := rfl, past := rfl }
  have w' : Mishap clumsyInLine 0 (.read (.chunk [1, 2] true)) [clumsyInLine.machine]
      clumsyInLine.advance.machine :=
    { calls := rfl, within := .enter rfl, height := rfl, thrown := rfl }
  exact ⟨⟨w, (mishap_contract w).direct _ _ hx, rfl⟩,
    w', (mishap_contract w').serial _ 0 .serial rfl rfl rfl (by decide)⟩

end Conduit.Pipe
