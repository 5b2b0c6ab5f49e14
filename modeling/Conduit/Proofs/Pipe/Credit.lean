import Conduit.Proofs.Pipe.Carried

/-!
Reports and devices. What the reports on some ports bring and what they say was written is, in the
same order, what the devices of these ports handed out and what they accepted.
-/

namespace Conduit.Pipe

open Dispatch

/-- The bytes that a request has left to write. -/
def Job.rest : Job → Bytes
  | .write rest => rest
  | _ => []

/-- The bytes that a device handed out. -/
def Use.handed : Use → Bytes
  | .read _ _ (.ready (.ok data)) => data
  | _ => []

/-- The bytes that a device accepted. -/
def Use.taken : Use → Bytes
  | .write _ offered (.ready (.ok n)) => offered.take n
  | _ => []

/-- Where a request stands by what was told of it: its port, and the bytes that it has left to write
by its last report. -/
structure Standing where
  port : Nat
  rest : Bytes
  deriving DecidableEq

def Standing.after (k : Nat) (st : Option Standing) : Deed → Option Standing
  | .asked j p job => if j = k then some ⟨p, job.rest⟩ else st
  | .told j (.write e) => if j = k then st.map ({ · with rest := e.remaining }) else st
  | _ => st

/-- Where the request of the receiver `k` stands after what was done. -/
def standing (k : Nat) (h : List Deed) : Option Standing := h.foldl (Standing.after k) none

/-- The bytes that a report brings, if its request is on one of some ports. -/
def delivers (on : Nat → Bool) (seen : List Deed) : Deed → Bytes
  | .told k e => if ((standing k seen).map (on ·.port)).getD false then e.data else []
  | _ => []

/-- The bytes that a report no longer counts as left, if its request is on one of some ports. -/
def credits (on : Nat → Bool) (seen : List Deed) : Deed → Bytes
  | .told k (.write e) =>
    match standing k seen with
    | some st => if on st.port then st.rest.take (st.rest.length - e.remaining.length) else []
    | none => []
  | _ => []

/-- What deeds bring one after the other, each after all those before it. -/
def along (f : List Deed → Deed → Bytes) : List Deed → List Deed → Bytes
  | _, [] => []
  | seen, d :: ds => f seen d ++ along f (seen ++ [d]) ds

/-- The bytes that the reports on some ports brought, in the order of the reports. -/
def delivered (on : Nat → Bool) (h : List Deed) : Bytes := along (delivers on) [] h

/-- The bytes that the reports on some ports said were accepted, in the order of the reports. -/
def credited (on : Nat → Bool) (h : List Deed) : Bytes := along (credits on) [] h

/-- What the uses of the devices of some ports brought, in order. -/
def gained (f : Use → Bytes) (on : Nat → Bool) (h : List Deed) : Bytes :=
  h.flatMap fun
    | .used _ u => if on u.port then f u else []
    | _ => []

/-- The bytes that the devices of some ports handed out, in order. -/
abbrev handed (on : Nat → Bool) (h : List Deed) : Bytes := gained Use.handed on h

/-- The bytes that the devices of some ports accepted, in order. -/
abbrev taken (on : Nat → Bool) (h : List Deed) : Bytes := gained Use.taken on h

section Append

variable (f : List Deed → Deed → Bytes) (seen h h' : List Deed)

theorem along_append : along f seen (h ++ h') = along f seen h ++ along f (seen ++ h) h' := by
  induction h generalizing seen with
  | nil => simp [along]
  | cons d h ih => simp [along, ih]

theorem gained_append (g : Use → Bytes) (on : Nat → Bool) :
    gained g on (h ++ h') = gained g on h ++ gained g on h' := List.flatMap_append

theorem standing_append (k : Nat) :
    standing k (h ++ h') = h'.foldl (Standing.after k) (standing k h) := List.foldl_append

end Append

/-- Deeds that say nothing about requests that use their devices. -/
def Mute (ds : List Deed) : Prop := ∀ d ∈ ds, (∃ e, d = .opened e) ∨ ∃ k b, d = .lost k b

section Mute

variable {ds : List Deed}

theorem Mute.standing (h : Mute ds) (k : Nat) (st : Option Standing) :
    ds.foldl (Standing.after k) st = st := by
  induction ds generalizing st with
  | nil => rfl
  | cons d ds ih =>
    obtain ⟨e, rfl⟩ | ⟨j, b, rfl⟩ := h d List.mem_cons_self
    all_goals exact ih (fun d hd => h d (List.mem_cons_of_mem _ hd)) st

theorem Mute.along (h : Mute ds) {f : List Deed → Deed → Bytes}
    (hf : ∀ seen e, f seen (.opened e) = []) (hf' : ∀ seen k b, f seen (.lost k b) = [])
    (seen : List Deed) : along f seen ds = [] := by
  induction ds generalizing seen with
  | nil => rfl
  | cons d ds ih =>
    have htail := ih (fun d hd => h d (List.mem_cons_of_mem _ hd)) (seen ++ [d])
    obtain ⟨e, rfl⟩ | ⟨j, b, rfl⟩ := h d List.mem_cons_self
    · simp [Pipe.along, hf, htail]
    · simp [Pipe.along, hf', htail]

theorem Mute.gained (h : Mute ds) (g : Use → Bytes) (on : Nat → Bool) : gained g on ds = [] := by
  rw [Pipe.gained, List.flatMap_eq_nil_iff]
  intro d hd
  obtain ⟨e, rfl⟩ | ⟨j, b, rfl⟩ := h d hd <;> rfl

end Mute

/-! ### One step of a request -/

/-- What a step that makes a report `e` does to what a request has left to write. -/
structure Reports (job job' : Job) (us : List Use) (e : Event) : Prop where
  data : e.data = us.flatMap (·.handed)
  credit : ∀ w, e = .write w →
    job.rest.take (job.rest.length - w.remaining.length) = us.flatMap (·.taken) ∧
      job'.rest = w.remaining
  read : ∀ w, e = .read w → job'.rest = job.rest ∧ us.flatMap (·.taken) = []

section Steps

variable {chunk p : Nat} {job job' : Job} {u : Use} {e : Event} {last again : Bool}

theorem Waits.nothing (h : Waits chunk p job u again) : u.handed = [] ∧ u.taken = [] := by
  cases h <;> exact ⟨rfl, rfl⟩

theorem Works.nothing (h : Works chunk p job u job' .again) :
    u.handed = [] ∧ u.taken = [] ∧ job' = job := by
  cases h <;> exact ⟨rfl, rfl, rfl⟩

theorem Works.reports (h : Works chunk p job u job' (.report e last)) : Reports job job' [u] e := by
  cases h with
  | @progress rest n hn hle =>
    rw [List.length_take] at hle
    have hlen : rest.length - (rest.drop n).length = n := by
      rw [List.length_drop]
      omega
    refine ⟨rfl, fun w hw => ?_, fun w hw => Event.noConfusion hw⟩
    cases hw
    refine ⟨?_, rfl⟩
    simp only [Job.rest, WriteEvent.progress, hlen, Use.taken, List.flatMap_cons, List.flatMap_nil,
      List.append_nil, List.take_take]
    congr 1
    omega
  | ended | chunk | readFailed =>
    exact ⟨by simp [Use.handed, Event.data, ReadEvent.ended, ReadEvent.failed, ReadEvent.chunk],
      fun w hw => Event.noConfusion hw, fun _ _ => ⟨rfl, rfl⟩⟩
  | zero | writeFailed | flushed | flushFailed =>
    refine ⟨rfl, fun w hw => ?_, fun w hw => Event.noConfusion hw⟩
    cases hw
    simp [Job.rest, WriteEvent.failed, WriteEvent.progress, Use.taken]

/-- A request that finds its port closed keeps what it has left. -/
theorem closedEvent_reports (job : Job) : Reports job job [] job.closedEvent := by
  cases job with
  | read | release => exact ⟨rfl, fun w hw => Event.noConfusion hw, fun _ _ => ⟨rfl, rfl⟩⟩
  | write | flush =>
    refine ⟨rfl, fun w hw => ?_, fun w hw => Event.noConfusion hw⟩
    cases hw
    simp [Job.rest, WriteEvent.failed]

variable {r : Nat} {q q' : Request} {port port' : Port} {us : List Use} {wakes : List Nat}
  {adv : Advance}

theorem Served.reports (h : Served r q port us q' port' wakes (.report e last)) :
    Reports q.job q'.job us e := by
  cases h with
  | refused | dismissed | ended => exact closedEvent_reports _
  | works _ _ _ _ hu => exact hu.reports

/-- Without a report nothing is transferred. -/
theorem Served.nothing (h : Served r q port us q' port' wakes adv)
    (hadv : ∀ e last, adv ≠ .report e last) :
    (∀ u ∈ us, u.handed = [] ∧ u.taken = []) ∧ q'.job = q.job := by
  cases h with
  | waits _ _ _ _ hu => exact ⟨by simpa using hu.nothing, rfl⟩
  | @works w u job adv _ _ _ _ hu =>
    cases adv with
    | again => exact ⟨by simpa using ⟨hu.nothing.1, hu.nothing.2.1⟩, hu.nothing.2.2⟩
    | report e last => exact absurd rfl (hadv e last)
    | idle => exact absurd rfl hu.goes_on.1
    | crash => exact absurd rfl hu.goes_on.2
  | _ => exact ⟨by simp, rfl⟩

end Steps

/-! ### Moves -/

/-- What is reported in `ds`, after `seen`, is what the devices do. -/
structure Balanced (on : Nat → Bool) (seen ds : List Deed) : Prop where
  delivered : along (delivers on) seen ds = handed on ds
  credited : along (credits on) seen ds = taken on ds

section Balanced

variable {on : Nat → Bool} {seen ds ds' : List Deed}

theorem Balanced.append (h : Balanced on seen ds) (h' : Balanced on (seen ++ ds) ds') :
    Balanced on seen (ds ++ ds') where
  delivered := by rw [along_append, handed, gained_append, h.delivered, h'.delivered]
  credited := by rw [along_append, taken, gained_append, h.credited, h'.credited]

theorem Mute.balanced (h : Mute ds) : Balanced on seen ds where
  delivered := by rw [h.along (fun _ _ => rfl) (fun _ _ _ => rfl), handed, h.gained]
  credited := by rw [h.along (fun _ _ => rfl) (fun _ _ _ => rfl), taken, h.gained]

theorem standing_uses (k : Nat) (o : Option Nat) (us : List Use) :
    standing k (seen ++ us.map (.used o)) = standing k seen := by
  rw [standing_append]
  induction us with
  | nil => rfl
  | cons u us ih => exact ih

theorem along_uses {f : List Deed → Deed → Bytes} (hf : ∀ seen o u, f seen (.used o u) = [])
    (o : Option Nat) (us : List Use) : along f seen (us.map (.used o)) = [] := by
  induction us generalizing seen with
  | nil => rfl
  | cons u us ih => simp [along, hf, ih]

theorem gained_uses (g : Use → Bytes) (o : Option Nat) {us : List Use} {p : Nat}
    (hp : ∀ u ∈ us, u.port = p) :
    gained g on (us.map (.used o)) = if on p then us.flatMap g else [] := by
  induction us with
  | nil => simp [gained]
  | cons u us ih =>
    have htail := ih fun v hv => hp v (List.mem_cons_of_mem _ hv)
    have hu := hp u List.mem_cons_self
    rw [List.map_cons, ← List.singleton_append, gained_append, htail]
    cases hon : on p <;> simp [gained, hu, hon]

/-- Uses that transfer nothing, and nothing reported. -/
theorem balanced_uses (o : Option Nat) {us : List Use} {p : Nat} (hp : ∀ u ∈ us, u.port = p)
    (hus : ∀ u ∈ us, u.handed = [] ∧ u.taken = []) : Balanced on seen (us.map (.used o)) where
  delivered := by
    have : us.flatMap (·.handed) = [] := List.flatMap_eq_nil_iff.mpr fun u hu => (hus u hu).1
    rw [along_uses (fun _ _ _ => rfl), handed, gained_uses _ _ hp, this, ite_self]
  credited := by
    have : us.flatMap (·.taken) = [] := List.flatMap_eq_nil_iff.mpr fun u hu => (hus u hu).2
    rw [along_uses (fun _ _ _ => rfl), taken, gained_uses _ _ hp, this, ite_self]

/-- A step of a request that stands as it was told of, with its report. -/
theorem Reports.balanced {job job' : Job} {us : List Use} {e : Event} (h : Reports job job' us e)
    (on : Nat → Bool) {k p : Nat} (hk : standing k seen = some ⟨p, job.rest⟩) (hp : ∀ u ∈ us, u.port = p) :
    Balanced on seen (us.map (.used (some k)) ++ [.told k e]) ∧
      standing k (seen ++ (us.map (.used (some k)) ++ [.told k e])) = some ⟨p, job'.rest⟩ := by
  have hseen : standing k (seen ++ us.map (.used (some k))) = some ⟨p, job.rest⟩ :=
    (standing_uses k _ us).trans hk
  refine ⟨⟨?_, ?_⟩, ?_⟩
  · rw [along_append, along_uses (fun _ _ _ => rfl), handed, gained_append, gained_uses _ _ hp,
      ← h.data]
    simp [along, delivers, hseen, gained]
  · rw [along_append, along_uses (fun _ _ _ => rfl), taken, gained_append, gained_uses _ _ hp]
    cases e with
    | read w => simp [along, credits, gained, (h.read w rfl).2]
    | write w => simp [along, credits, hseen, gained, ← (h.credit w rfl).1]
  · rw [← List.append_assoc, standing_append, hseen]
    cases e with
    | read w => simp [Standing.after, (h.read w rfl).1]
    | write w => simp [Standing.after, (h.credit w rfl).2]

end Balanced

namespace Desk

variable {d d' : Desk} {h ds : List Deed} {on : Nat → Bool}

/-- Requests stand as they were told of. -/
def Tallied (d : Desk) (h : List Deed) : Prop :=
  ∀ (r : Nat) (q : Request) (k : Nat), d.hub.requests[r]? = some q → q.receiver = some k →
    standing k h = some ⟨q.port, q.job.rest⟩

/-- A move that tells of no request. -/
theorem Tallied.still (ht : d.Tallied h) (hds : Mute ds)
    (hnew : ∀ (r : Nat) (q : Request), d'.hub.requests[r]? = some q → q.receiver = none ∨
      ∃ q', d.hub.requests[r]? = some q' ∧ q'.receiver = q.receiver ∧ q'.port = q.port ∧
        q'.job = q.job) : d'.Tallied (h ++ ds) := by
  intro r q k hq hk
  rw [standing_append, hds.standing]
  rcases hnew r q hq with hnone | ⟨q', hq', hrec, hport, hjob⟩
  · simp [hk] at hnone
  · rw [ht r q' k hq' (hrec.trans hk), hport, hjob]

/-- A request that a receiver makes, on a desk where all stand as they were told of. -/
theorem Tallied.issue (ht : d.Tallied h) (ha : d.Accounts h) (p : Nat) (job : Job)
    (hds : ∀ k, k ≠ d.receivers → ∀ st, ds.foldl (Standing.after k) st = st)
    (hstand : ∀ st, ds.foldl (Standing.after d.receivers) st = some ⟨p, job.rest⟩)
    (hnew : ∀ (r : Nat) (q : Request), d'.hub.requests[r]? = some q →
      d.hub.requests[r]? = some q ∨
        q.receiver = some d.receivers ∧ q.port = p ∧ q.job = job) : d'.Tallied (h ++ ds) := by
  intro r q k hq hk
  rw [standing_append]
  rcases hnew r q hq with hq | ⟨hrec, rfl, rfl⟩
  · rw [hds k (Nat.ne_of_lt (ha.known r q k hq hk))]
    exact ht r q k hq hk
  · obtain rfl : d.receivers = k := Option.some.inj (hrec.symm.trans hk)
    exact hstand _

theorem Tallied.serve (ht : d.Tallied h) (ha : d.Accounts h) {r : Nat} {q q' : Request}
    {port port' : Port} (hq : d.hub.requests[r]? = some q) {us : List Use} {wakes : List Nat}
    {adv : Advance} (hv : Served r q port us q' port' wakes adv) {current : Option (Nat × Bool)}
    {now : Bool} (hl : Leads r q.receiver adv current now ds)
    (hhub : d'.hub = d.hub.put r q' port') :
    d'.Tallied (h ++ (us.map (.used q.receiver) ++ ds)) ∧
      Balanced on h (us.map (.used q.receiver) ++ ds) := by
  have hports : ∀ u ∈ us, u.port = q.port := fun u hu => by
    rcases hv.uses with rfl | ⟨v, w, rfl, hport, -⟩
    · cases hu
    · rw [List.mem_singleton.mp hu, hport]
  -- Whoever is served stands somewhere else perhaps; all others stand as before.
  have tallied (hself : ∀ k, q.receiver = some k →
        standing k (h ++ (us.map (.used q.receiver) ++ ds)) = some ⟨q.port, q'.job.rest⟩)
      (hothers : ∀ k, q.receiver ≠ some k →
        standing k (h ++ (us.map (.used q.receiver) ++ ds)) = standing k h) :
      d'.Tallied (h ++ (us.map (.used q.receiver) ++ ds)) := by
    intro s q₁ k hs hk
    rw [hhub, show (d.hub.put r q' port').requests = d.hub.requests.set r q' from rfl,
      List.getElem?_set] at hs
    split at hs
    · split at hs
      · cases hs
        rw [hself k (hv.receiver_eq ▸ hk), hv.port_eq]
      · cases hs
    · rename_i hne
      rw [hothers k fun hrec => hne (ha.distinct r s q q₁ k hq hs hrec hk)]
      exact ht s q₁ k hs hk
  -- Without a report, nothing is transferred.
  have quiet (hds : Mute ds) (hadv : ∀ e last, adv ≠ .report e last) :
      d'.Tallied (h ++ (us.map (.used q.receiver) ++ ds)) ∧
        Balanced on h (us.map (.used q.receiver) ++ ds) := by
    obtain ⟨hus, hjob⟩ := hv.nothing hadv
    have hstand (k : Nat) :
        standing k (h ++ (us.map (.used q.receiver) ++ ds)) = standing k h := by
      rw [← List.append_assoc, standing_append, hds.standing, standing_uses]
    refine ⟨tallied (fun k hk => ?_) fun k _ => hstand k,
      (balanced_uses _ hports hus).append hds.balanced⟩
    rw [hstand, hjob]
    exact ht r q k hq hk
  cases hl with
  | idle | again => exact quiet (by simp [Mute]) fun _ _ he => Advance.noConfusion he
  | crash => exact quiet (by simp [Mute]) fun _ _ he => Advance.noConfusion he
  | @report j e last _ hk =>
    rw [hk]
    rw [hk] at tallied
    obtain ⟨hbalanced, hself⟩ := hv.reports.balanced on (ht r q j hq hk) hports
    refine ⟨tallied (fun k hjk => ?_) fun k hjk => ?_, hbalanced⟩
    · obtain rfl := Option.some.inj hjk
      exact hself
    · have hne : j ≠ k := fun hjk' => hjk (congrArg some hjk')
      rw [← List.append_assoc, standing_append, standing_uses]
      cases e <;> simp [Standing.after, hne]

/-- Every move tells what the devices do. -/
theorem Tallied.move (ht : d.Tallied h) (ha : d.Accounts h) (on : Nat → Bool) (m : d.Move ds d') :
    d'.Tallied (h ++ ds) ∧ Balanced on h ds := by
  have still (hds : Mute ds) (hnew : ∀ (r : Nat) (q : Request), d'.hub.requests[r]? = some q →
      q.receiver = none ∨ ∃ q', d.hub.requests[r]? = some q' ∧ q'.receiver = q.receiver ∧
        q'.port = q.port ∧ q'.job = q.job) : d'.Tallied (h ++ ds) ∧ Balanced on h ds :=
    ⟨ht.still hds hnew, hds.balanced⟩
  have finish (r s : Nat) (q : Request) (hq : (d.hub.finish r).1.requests[s]? = some q) :
      ∃ q', d.hub.requests[s]? = some q' ∧ q'.receiver = q.receiver ∧ q'.port = q.port ∧
        q'.job = q.job := by
    rw [Hub.finish_requests, List.getElem?_modify] at hq
    obtain ⟨q', hq', rfl⟩ := Option.map_eq_some_iff.mp hq
    exact ⟨q', hq', by split <;> simp⟩
  cases m with
  | quiet | feed | skip =>
    exact still (by simp [Mute]) fun _ q hq => .inr ⟨q, hq, rfl, rfl, rfl⟩
  | opens e => exact still (by simp [Mute]) fun _ q hq => .inr ⟨q, hq, rfl, rfl, rfl⟩
  | @close p hn =>
    refine still (by simp [Mute]) fun r q hq => ?_
    rcases close_requests d.hub p with he | he
    · exact .inr ⟨q, he ▸ hq, rfl, rfl, rfl⟩
    · rw [he] at hq
      rcases getElem?_concat.mp hq with hq | ⟨-, rfl⟩
      · exact .inr ⟨q, hq, rfl, rfl, rfl⟩
      · exact .inl rfl
  | @finish r => exact still (by simp [Mute]) fun s q hq => .inr (finish r s q hq)
  | @unwind r => exact still (by simp [Mute]) fun s q hq => .inr (finish r s q hq)
  | @refuse p job port hj hp hc =>
    have hstand (st : Option Standing) :
        [.asked d.receivers p job].foldl (Standing.after d.receivers) st = some ⟨p, job.rest⟩ := by
      simp [Standing.after]
    have hasked : standing d.receivers (h ++ [.asked d.receivers p job]) = some ⟨p, job.rest⟩ := by
      rw [standing_append, hstand]
    obtain ⟨hbalanced, hself⟩ :=
      (closedEvent_reports job).balanced on hasked (by simp)
    have hmute : Balanced on h [.asked d.receivers p job] := ⟨rfl, rfl⟩
    refine ⟨ht.issue ha p job (fun k hk st => ?_) (fun st => ?_) fun _ _ => .inl,
      hmute.append hbalanced⟩
    · cases job <;> simp [Standing.after, Job.closedEvent, hk.symm]
    · cases job <;> simp [Standing.after, Job.closedEvent, Job.rest, WriteEvent.failed]
  | @ask p job hj hc =>
    refine ⟨ht.issue ha p job (fun k hk st => by simp [Standing.after, hk.symm])
      (fun st => by simp [Standing.after]) fun r q hq => ?_, ⟨rfl, rfl⟩⟩
    refine (getElem?_concat.mp hq).imp_right ?_
    rintro ⟨-, rfl⟩
    exact ⟨rfl, rfl, rfl⟩
  | serve _ hq _ _ hv hl => exact ht.serve ha hq hv hl rfl

theorem Tallied.moves (ht : d.Tallied h) (hd : d.Sound) (hl : d.Ledger h) (on : Nat → Bool)
    (m : d.Moves ds d') : d'.Tallied (h ++ ds) ∧ Balanced on h ds := by
  induction m with
  | none => exact ⟨by simpa using ht, ⟨rfl, rfl⟩⟩
  | more ms m ih =>
    obtain ⟨ht', hb⟩ := ih
    obtain ⟨ht'', hb'⟩ := ht'.move (ms.ledger hd hl).accounts on m
    exact ⟨List.append_assoc .. ▸ ht'', hb.append hb'⟩

end Desk

end Conduit.Pipe
