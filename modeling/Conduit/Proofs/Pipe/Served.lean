import Conduit.Proofs.Pipe.Use

/-!
All that one step of a request can do. The step changes the request and its port and nothing else of
a hub; `Served` lists the ways, and `advance_served` says that there are no others.
-/

namespace Conduit.Pipe

namespace Port

/-- The holder of a port and then the requests in line. -/
def queue (q : Port) : List Nat := q.holder.toList ++ q.line

/-- A request stops waiting. -/
def without (q : Port) (r : Nat) : Port :=
  { q with line := q.line.erase r, watchers := q.watchers.erase r }

/-- A request starts to watch. -/
def watched (q : Port) (r : Nat) : Port := { q with watchers := q.watchers.erase r ++ [r] }

/-- The port goes to the first one in line if `r` held it. -/
def yield (q : Port) (r : Nat) : Port :=
  if q.holder = some r then { q with holder := q.line.head?, line := q.line.tail } else q

/-- The one that gets the port when `r` lets go of it. -/
def heir (q : Port) (r : Nat) : List Nat :=
  if q.holder = some r then q.line.head?.toList else []

/-- A request is done with the port. -/
def quit (q : Port) (r : Nat) : Port := (q.without r).yield r

theorem quit_chunk (q : Port) (r : Nat) : (q.quit r).chunk = q.chunk := by
  unfold quit yield
  split <;> rfl

theorem quit_watchers (q : Port) (r : Nat) : (q.quit r).watchers = q.watchers.erase r := by
  unfold quit yield
  split <;> rfl

theorem quit_closed (q : Port) (r : Nat) : (q.quit r).closed = q.closed := by
  unfold quit yield
  split <;> rfl

theorem quit_released (q : Port) (r : Nat) : (q.quit r).released = q.released := by
  unfold quit yield
  split <;> rfl

/-- A request that is not `free` joins the line and watches. -/
def joined (q : Port) (r : Nat) (free : Bool) : Port :=
  let q := { q with line := q.line ++ [r] }
  if free then q else q.watched r

end Port

/-- What a request that holds its port asks of the device when it has to wait for the answer. -/
inductive Waits (chunk p : Nat) : Job → Use → Bool → Prop where
  | read {n d again} :
      Waits chunk p (.read n d) (.read p (Hub.want chunk n d) (.pending again)) again
  | write {rest again} :
      Waits chunk p (.write rest) (.write p (rest.take chunk) (.pending again)) again
  | flush {again} : Waits chunk p .flush (.flush p (.pending again)) again

/-- What a request that holds its port asks of the device when there is an answer, what is left of
the request then, and what that leads to. -/
inductive Works (chunk p : Nat) : Job → Use → Job → Advance → Prop where
  | ended {n d} :
      Works chunk p (.read n d) (.read p (Hub.want chunk n d) (.ready (.ok []))) (.read n d)
        (.report (.read .ended) true)
  | chunk {n d data} (h : data ≠ []) (hw : data.length ≤ Hub.want chunk n d) :
      Works chunk p (.read n d) (.read p (Hub.want chunk n d) (.ready (.ok data)))
        (.read n (d + data.length))
        (.report (.read (.chunk data (n ≠ 0 ∧ n ≤ d + data.length)))
          (decide (n ≠ 0 ∧ n ≤ d + data.length)))
  | readAgain {n d e} (h : e.kind = .interrupted) :
      Works chunk p (.read n d) (.read p (Hub.want chunk n d) (.ready (.error e))) (.read n d) .again
  | readFailed {n d e} (h : e.kind ≠ .interrupted) :
      Works chunk p (.read n d) (.read p (Hub.want chunk n d) (.ready (.error e))) (.read n d)
        (.report (.read (.failed (.ofOs e .read))) true)
  | zero {rest} :
      Works chunk p (.write rest) (.write p (rest.take chunk) (.ready (.ok 0))) (.write rest)
        (.report (.write (.failed rest (.ofOs (.simple .writeZero) .write))) true)
  | progress {rest k} (h : k ≠ 0) (hk : k ≤ (rest.take chunk).length) :
      Works chunk p (.write rest) (.write p (rest.take chunk) (.ready (.ok k)))
        (.write (rest.drop k))
        (.report (.write (.progress (rest.drop k))) (rest.drop k).isEmpty)
  | writeAgain {rest e} (h : e.kind = .interrupted) :
      Works chunk p (.write rest) (.write p (rest.take chunk) (.ready (.error e))) (.write rest) .again
  | writeFailed {rest e} (h : e.kind ≠ .interrupted) :
      Works chunk p (.write rest) (.write p (rest.take chunk) (.ready (.error e))) (.write rest)
        (.report (.write (.failed rest (.ofOs e .write))) true)
  | flushed : Works chunk p .flush (.flush p (.ready (.ok ()))) .flush
      (.report (.write (.progress [])) true)
  | flushFailed {e} : Works chunk p .flush (.flush p (.ready (.error e))) .flush
      (.report (.write (.failed [] (.ofOs e .write))) true)

/-- What a step does to a request `r` that is not over and to its port: what is asked of the device,
the request and the port after the step, the requests that are woken and what the step leads to. -/
inductive Served (r : Nat) (q : Request) (port : Port) :
    List Use → Request → Port → List Nat → Advance → Prop where
  | refused (hq : q.phase = .fresh) (hj : q.job ≠ .release) (hc : port.closed = true) :
      Served r q port [] q port [] (.report q.job.closedEvent true)
  | taken (hq : q.phase = .fresh) (hj : q.job = .release ∨ port.closed = false)
      (he : port.queue = []) :
      Served r q port [] { q with phase := .holding false } { port with holder := some r } [] .again
  | lined (hq : q.phase = .fresh) (hj : q.job = .release ∨ port.closed = false)
      (he : port.queue ≠ []) :
      Served r q port [] { q with phase := .queued } (port.joined r (q.job = .release)) [] .idle
  | dismissed (hq : q.phase = .queued) (hj : q.job ≠ .release) (hc : port.closed = true) :
      Served r q port [] q (port.quit r) ((port.without r).heir r) (.report q.job.closedEvent true)
  | granted (hq : q.phase = .queued) (hj : q.job = .release ∨ port.closed = false)
      (hh : port.holder = some r) :
      Served r q port [] { q with phase := .holding false } (port.without r) [] .again
  | stays (hq : q.phase = .queued) (hj : q.job = .release ∨ port.closed = false)
      (hh : port.holder ≠ some r) : Served r q port [] q port [] .idle
  | released {w} (hq : q.phase = .holding w) (hj : q.job = .release) :
      Served r q port [] { q with phase := .finished }
        ({ port with released := true }.quit r) ((port.without r).heir r) .idle
  | ended {w} (hq : q.phase = .holding w) (hj : q.job ≠ .release)
      (hc : port.released = true ∨ port.closed = true) :
      Served r q port [] q port [] (.report q.job.closedEvent true)
  | crashed (hq : q.phase = .holding false) (hj : q.job ≠ .release)
      (hr : port.released = false) (hv : Hub.overflows port.chunk q.job = true) :
      Served r q port [] q port [] .crash
  | waits {w u again} (hq : q.phase = .holding w) (hc : port.closed = false)
      (hr : port.released = false) (hv : w = true ∨ Hub.overflows port.chunk q.job = false)
      (hu : Waits port.chunk q.port q.job u again) :
      Served r q port [u] { q with phase := .holding true } (if w then port else port.watched r)
        (if again then [r] else []) .idle
  | works {w u job adv} (hq : q.phase = .holding w) (hc : port.closed = false)
      (hr : port.released = false) (hv : w = true ∨ Hub.overflows port.chunk q.job = false)
      (hu : Works port.chunk q.port q.job u job adv) :
      Served r q port [u] { q with phase := .holding false, job } (port.without r) [] adv

theorem Waits.port_eq {chunk p : Nat} {job : Job} {u : Use} {again : Bool}
    (h : Waits chunk p job u again) : u.port = p := by
  cases h <;> rfl

theorem Works.port_eq {chunk p : Nat} {job job' : Job} {u : Use} {adv : Advance}
    (h : Works chunk p job u job' adv) : u.port = p := by
  cases h <;> rfl

theorem Works.ne_release {chunk p : Nat} {job job' : Job} {u : Use} {adv : Advance}
    (h : Works chunk p job u job' adv) : job ≠ .release ∧ job' ≠ .release := by
  cases h <;> simp

namespace Served

variable {r : Nat} {q q' : Request} {port port' : Port} {us : List Use} {wakes : List Nat}
  {adv : Advance}

theorem port_eq (h : Served r q port us q' port' wakes adv) : q'.port = q.port := by
  cases h <;> rfl

theorem receiver_eq (h : Served r q port us q' port' wakes adv) : q'.receiver = q.receiver := by
  cases h <;> rfl

theorem chunk_eq (h : Served r q port us q' port' wakes adv) : port'.chunk = port.chunk := by
  cases h with
  | lined =>
    unfold Port.joined
    split <;> rfl
  | dismissed => exact port.quit_chunk r
  | released => exact Port.quit_chunk { port with released := true } r
  | waits => split <;> rfl
  | _ => rfl

theorem closed_eq (h : Served r q port us q' port' wakes adv) : port'.closed = port.closed := by
  cases h with
  | lined =>
    unfold Port.joined
    split <;> rfl
  | dismissed => exact port.quit_closed r
  | released => exact Port.quit_closed { port with released := true } r
  | waits => split <;> rfl
  | _ => rfl

theorem release_iff (h : Served r q port us q' port' wakes adv) :
    q'.job = .release ↔ q.job = .release := by
  cases h with
  | works _ _ _ _ hu => simp [hu.ne_release]
  | _ => rfl

/-- A request that lets go of a device neither reports nor ends without a report. -/
theorem ne_release (h : Served r q port us q' port' wakes adv)
    (ha : adv ≠ .idle ∧ adv ≠ .again) : q.job ≠ .release := by
  cases h with
  | works _ _ _ _ hu => exact hu.ne_release.1
  | _ => simp_all

end Served

namespace Hub

variable {D : Type}

/-- The hub with a request and its port replaced. -/
def put (h : Hub) (r : Nat) (q : Request) (port : Port) : Hub where
  ports := h.ports.set q.port port
  requests := h.requests.set r q

theorem put_self {h : Hub} {r : Nat} {q : Request} {port : Port} (hq : h.requests[r]? = some q)
    (hp : h.ports[q.port]? = some port) : h.put r q port = h := by
  obtain ⟨_, rfl⟩ := List.getElem?_eq_some_iff.mp hq
  obtain ⟨_, rfl⟩ := List.getElem?_eq_some_iff.mp hp
  simp [put]

theorem getElem?_put_ports {h : Hub} {r : Nat} {q : Request} {port old : Port}
    (hp : h.ports[q.port]? = some old) : (h.put r q port).ports[q.port]? = some port := by
  obtain ⟨hp, -⟩ := List.getElem?_eq_some_iff.mp hp
  simp [put, hp]

theorem getElem?_put_requests {h : Hub} {r : Nat} {q old : Request} {port : Port}
    (hq : h.requests[r]? = some old) : (h.put r q port).requests[r]? = some q := by
  obtain ⟨hq, -⟩ := List.getElem?_eq_some_iff.mp hq
  simp [put, hq]

theorem modify_set_self {α : Type} (l : List α) (i : Nat) (a : α) (f : α → α) :
    (l.set i a).modify i f = l.set i (f a) := by
  apply List.ext_getElem?
  intro j
  by_cases hj : i = j
  · subst hj
    simp [List.getElem?_set]
  · simp [hj]

@[simp] theorem setPhase_put (h : Hub) (r : Nat) (q : Request) (port : Port) (phase : Phase) :
    (h.put r q port).setPhase r phase = h.put r { q with phase } port := by
  simp [put, setPhase, modify_set_self]

@[simp] theorem setJob_put (h : Hub) (r : Nat) (q : Request) (port : Port) (job : Job) :
    (h.put r q port).setJob r job = h.put r { q with job } port := by
  simp [put, setJob, modify_set_self]

theorem modifyPort_put (h : Hub) (r : Nat) (q : Request) (port : Port) (f : Port → Port) :
    (h.put r q port).modifyPort q.port f = h.put r q (f port) := by
  simp [put, modifyPort, modify_set_self]

theorem leave_put (h : Hub) (r : Nat) (q : Request) (port : Port) :
    (h.put r q port).leave q.port r = h.put r q (port.without r) :=
  modifyPort_put ..

theorem watch_put (h : Hub) (r : Nat) (q : Request) (port : Port) :
    (h.put r q port).watch q.port r = h.put r q (port.watched r) :=
  modifyPort_put ..

theorem unlock_put {h : Hub} {r : Nat} {q : Request} {port old : Port}
    (hp : h.ports[q.port]? = some old) :
    (h.put r q port).unlock q.port r = (h.put r q (port.yield r), port.heir r) := by
  simp only [unlock, getElem?_put_ports hp, Port.yield, Port.heir]
  split
  · rw [modifyPort_put]
  · rfl

/-- The end of a request as a change of the request and its port. -/
theorem finish_put {h : Hub} {r : Nat} {q old : Request} {port port' : Port}
    (hq : h.requests[r]? = some old) (hp : h.ports[q.port]? = some port') :
    (h.put r q port).finish r =
      (h.put r { q with phase := .finished } (port.quit r), (port.without r).heir r) := by
  simp only [finish, getElem?_put_requests hq, setPhase_put]
  rw [show q.port = { q with phase := Phase.finished }.port from rfl, leave_put,
    unlock_put (by exact hp)]
  rfl

theorem finish_eq {h : Hub} {r : Nat} {q : Request} {port : Port} (hq : h.requests[r]? = some q)
    (hp : h.ports[q.port]? = some port) :
    h.finish r = (h.put r { q with phase := .finished } (port.quit r), (port.without r).heir r) := by
  have := @finish_put h r q q port port hq hp
  rwa [put_self hq hp] at this

theorem finish_requests (h : Hub) (r : Nat) :
    (h.finish r).1.requests = h.requests.modify r fun q => { q with phase := .finished } := by
  unfold finish
  split
  · rename_i hr
    rw [List.modify_eq_self (List.getElem?_eq_none_iff.mp hr)]
  · unfold unlock
    split
    · rfl
    · split <;> rfl

/-- A step that has an answer leaves the port to the request. -/
theorem answered_ready {α : Type} {h : Hub} {r : Nat} {q : Request} {port : Port} (waiting : Bool)
    (a : α) (go : Hub → α → Hub × Advance) :
    (h.put r q port).answered q.port r waiting (.ready a) go =
      ((go (h.put r { q with phase := .holding false } (port.without r)) a).1, [],
        (go (h.put r { q with phase := .holding false } (port.without r)) a).2) := by
  simp only [answered, leave_put, setPhase_put]

theorem answered_pending {α : Type} {h : Hub} {r : Nat} {q : Request} {port : Port} (waiting : Bool)
    (again : Bool) (go : Hub → α → Hub × Advance) :
    (h.put r q port).answered q.port r waiting (.pending again) go =
      (h.put r { q with phase := .holding true } (if waiting then port else port.watched r),
        if again then [r] else [], .idle) := by
  cases waiting <;> simp [answered, watch_put]

/-- What working the device does to the request and the port, with what is asked of the device. -/
theorem work_recording {dev : Devices D} (hb : dev.Bounded) (h : Hub) (d : D) (r : Nat)
    {q : Request} (port : Port) (w : Bool) (hj : q.job ≠ .release) :
    (∃ u again d', Waits port.chunk q.port q.job u again ∧
      work dev.recording (h.put r q port) (d, []) r q.port port.chunk w q.job =
        (h.put r { q with phase := .holding true } (if w then port else port.watched r), (d', [u]),
          if again then [r] else [], .idle)) ∨
    ∃ u job adv d', Works port.chunk q.port q.job u job adv ∧
      work dev.recording (h.put r q port) (d, []) r q.port port.chunk w q.job =
        (h.put r { q with phase := .holding false, job } (port.without r), (d', [u]), [], adv) := by
  obtain ⟨p, job, k, phase⟩ := q
  cases job with
  | release => exact absurd rfl hj
  | read n m =>
    rcases ha : dev.read d p (want port.chunk n m) with ⟨d', answer⟩
    simp only [work, Devices.recording, ha, List.nil_append]
    match answer with
    | .pending again =>
      rw [answered_pending]
      exact .inl ⟨_, again, d', .read, rfl⟩
    | .ready (.ok []) =>
      rw [answered_ready]
      exact .inr ⟨_, _, _, d', .ended, rfl⟩
    | .ready (.ok (b :: data)) =>
      rw [answered_ready]
      refine .inr ⟨_, _, _, d', .chunk (by simp) (hb.read ha), ?_⟩
      simp only [readAnswered, setJob_put]
    | .ready (.error e) =>
      rw [answered_ready]
      by_cases he : e.kind = .interrupted
      · exact .inr ⟨_, _, _, d', .readAgain he, by simp [readAnswered, he]⟩
      · exact .inr ⟨_, _, _, d', .readFailed he, by simp [readAnswered, he]⟩
  | write rest =>
    rcases ha : dev.write d p (rest.take port.chunk) with ⟨d', answer⟩
    simp only [work, Devices.recording, ha, List.nil_append]
    match answer with
    | .pending again =>
      rw [answered_pending]
      exact .inl ⟨_, again, d', .write, rfl⟩
    | .ready (.ok 0) =>
      rw [answered_ready]
      exact .inr ⟨_, _, _, d', .zero, rfl⟩
    | .ready (.ok (k + 1)) =>
      rw [answered_ready]
      refine .inr ⟨_, _, _, d', .progress (by simp) (hb.write ha), ?_⟩
      simp only [writeAnswered, setJob_put]
    | .ready (.error e) =>
      rw [answered_ready]
      by_cases he : e.kind = .interrupted
      · exact .inr ⟨_, _, _, d', .writeAgain he, by simp [writeAnswered, he]⟩
      · exact .inr ⟨_, _, _, d', .writeFailed he, by simp [writeAnswered, he]⟩
  | flush =>
    rcases ha : dev.flush d p with ⟨d', answer⟩
    simp only [work, Devices.recording, ha, List.nil_append]
    match answer with
    | .pending again =>
      rw [answered_pending]
      exact .inl ⟨_, again, d', .flush, rfl⟩
    | .ready (.ok ()) =>
      rw [answered_ready]
      exact .inr ⟨_, _, _, d', .flushed, rfl⟩
    | .ready (.error e) =>
      rw [answered_ready]
      exact .inr ⟨_, _, _, d', .flushFailed, rfl⟩

/-- Every step of a request that is not over is one of those that `Served` lists. -/
theorem advance_served {dev : Devices D} (hb : dev.Bounded) {h : Hub} (d : D) {r : Nat}
    {q : Request} {port : Port} (hq : h.requests[r]? = some q) (hp : h.ports[q.port]? = some port)
    (hf : q.phase ≠ .finished) :
    ∃ us q' port' wakes adv d', Served r q port us q' port' wakes adv ∧
      advance dev.recording h (d, []) r = (h.put r q' port', (d', us), wakes, adv) := by
  have hself := put_self hq hp
  have hmod (f : Port → Port) : h.modifyPort q.port f = h.put r q (f port) := by
    simpa only [hself] using modifyPort_put h r q port f
  have hleave : h.leave q.port r = h.put r q (port.without r) := hmod _
  unfold advance
  simp only [hq, hp]
  cases hph : q.phase with
  | finished => exact absurd hph hf
  | fresh =>
    dsimp only
    split
    · rename_i hc
      exact ⟨_, _, _, _, _, d, .refused hph hc.1 hc.2, by rw [hself]⟩
    · rename_i hc
      have ho : q.job = .release ∨ port.closed = false := by
        by_cases hj : q.job = .release
        · exact .inl hj
        · exact .inr (by simpa [hj] using hc)
      split
      · rename_i he
        refine ⟨_, _, _, _, _, d, .taken hph ho ?_, ?_⟩
        · rw [Option.isNone_iff_eq_none, List.isEmpty_iff] at he
          simp [Port.queue, he]
        · rw [hmod, setPhase_put]
      · rename_i he
        refine ⟨_, _, _, _, _, d, .lined hph ho ?_, ?_⟩
        · intro hn
          simp only [Port.queue, List.append_eq_nil_iff, Option.toList_eq_nil_iff] at hn
          exact he (by simp [hn])
        · by_cases hj : q.job = .release
          · have hw : port.joined r (q.job = .release) = { port with line := port.line ++ [r] } := by
              simp [Port.joined, hj]
            rw [if_pos hj, hmod, setPhase_put, hw]
          · have hw : port.joined r (q.job = .release) =
                { port with line := port.line ++ [r] }.watched r := by
              simp [Port.joined, hj]
            rw [if_neg hj, hmod, watch_put, setPhase_put, hw]
  | queued =>
    dsimp only
    split
    · rename_i hc
      refine ⟨_, _, _, _, _, d, .dismissed hph hc.1 hc.2, ?_⟩
      rw [hleave, unlock_put hp]
      rfl
    · rename_i hc
      have ho : q.job = .release ∨ port.closed = false := by
        by_cases hj : q.job = .release
        · exact .inl hj
        · exact .inr (by simpa [hj] using hc)
      split
      · rename_i hh
        refine ⟨_, _, _, _, _, d, .granted hph ho hh, ?_⟩
        rw [hleave, setPhase_put]
      · rename_i hh
        exact ⟨_, _, _, _, _, d, .stays hph ho hh, by rw [hself]⟩
  | holding w =>
    dsimp only
    split
    · rename_i hj
      refine ⟨_, _, _, _, _, d, .released hph hj, ?_⟩
      rw [release, hmod, finish_put hq hp]
      rfl
    rename_i hj
    split
    · rename_i hr
      exact ⟨_, _, _, _, _, d, .ended hph hj (.inl hr), by rw [hself]⟩
    rename_i hr
    rw [Bool.not_eq_true] at hr
    split
    · rename_i hv
      rw [Bool.and_eq_true, Bool.not_eq_true'] at hv
      obtain ⟨rfl, hv⟩ := hv
      exact ⟨_, _, _, _, _, d, .crashed hph hj hr hv, by rw [hself]⟩
    rename_i hv
    split
    · rename_i hc
      exact ⟨_, _, _, _, _, d, .ended hph hj (.inr hc), by rw [hself]⟩
    rename_i hc
    rw [Bool.not_eq_true] at hc
    have hv' : w = true ∨ overflows port.chunk q.job = false := by
      cases w <;> simp_all
    have hw := work_recording hb h d r port w hj
    rw [hself] at hw
    rcases hw with ⟨u, again, d', hu, he⟩ | ⟨u, job, adv, d', hu, he⟩
    · exact ⟨_, _, _, _, _, d', .waits hph hc hr hv' hu, he⟩
    · exact ⟨_, _, _, _, _, d', .works hph hc hr hv' hu, he⟩

end Hub

end Conduit.Pipe
