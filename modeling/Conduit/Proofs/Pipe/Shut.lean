import Conduit.Proofs.Pipe.Carried
import Conduit.Proofs.Pipe.Ending

/-!
Closed ports. A port that is closed stays closed; its device is left alone, and no request on it is
lost for want of a buffer. When no request has its turn and none has been woken, all requests on a
closed port are over, and one of them has let go of the device.
-/

namespace Conduit.Pipe

open Dispatch

theorem Hub.Keeps.of_map {h h' : Hub}
    (he : h'.ports.map (fun q => (q.chunk, q.closed)) = h.ports.map fun q => (q.chunk, q.closed)) :
    h'.Keeps h := by
  intro p port hp
  have hmap := congrArg (·[p]?) he
  simp only [List.getElem?_map, hp, Option.map_some, Option.map_eq_some_iff, Prod.mk.injEq] at hmap
  obtain ⟨port', hp', hchunk, hclosed⟩ := hmap
  exact ⟨port', hp', hchunk, hclosed.trans⟩

/-- What is left of a request that needed no large buffer needs none. -/
theorem Tale.overflows {chunk p : Nat} {closed : Prop} {job₀ : Job} {a : List Act} {f : Fate}
    (h : Tale chunk p closed job₀ a f) (hv : Hub.overflows chunk job₀ = false) :
    ∀ job, f = .running job → Hub.overflows chunk job = false := by
  induction h with
  | issued =>
    intro job h
    cases h
    exact hv
  | waits _ _ ih => exact ih
  | again _ hu ih =>
    intro job h
    cases h
    exact hu.fits (ih _ rfl)
  | @reports _ _ _ _ _ last _ hu ih =>
    intro job h
    cases last with
    | true => cases h
    | false =>
      cases h
      exact hu.fits (ih _ rfl)
  | closed => simp
  | lost => simp

namespace Desk

variable {d d' : Desk} {h h₀ ds : List Deed} {p n : Nat}

/-- A move keeps all ports, and those that are closed stay closed. -/
theorem Move.keeps (m : d.Move ds d') : d'.hub.Keeps d.hub := by
  cases m with
  | quiet | feed | refuse | ask | skip => exact .of_ports rfl
  | opens => exact fun p port hp => ⟨port, getElem?_concat.mpr (.inl hp), rfl, id⟩
  | close =>
    intro p port hp
    obtain ⟨port', hp', hchunk, hclosed, -⟩ := close_spares hp _
    exact ⟨port', hp', hchunk, hclosed⟩
  | serve _ _ hp _ hv =>
    exact .of_map (put_map (hv.port_eq ▸ hp) (by rw [hv.chunk_eq, hv.closed_eq]))
  | finish | unwind => exact .of_map (finish_map (fun _ _ _ _ => rfl) _ _)

theorem Moves.keeps (m : d.Moves ds d') : d'.hub.Keeps d.hub := by
  induction m with
  | none => exact .refl _
  | more _ m ih => exact m.keeps.trans ih

theorem Moves.receivers_le (m : d.Moves ds d') : d.receivers ≤ d'.receivers := by
  induction m with
  | none => exact Nat.le_refl _
  | more _ m ih =>
    refine Nat.le_trans ih ?_
    cases m with
    | refuse | ask => exact Nat.le_succ _
    | _ => exact Nat.le_refl _

/-- A port is closed. -/
def Shut (d : Desk) (p : Nat) : Prop := ∃ port, d.hub.ports[p]? = some port ∧ port.closed = true

theorem Move.shut (m : d.Move ds d') (hs : d.Shut p) : d'.Shut p := by
  obtain ⟨port, hp, hc⟩ := hs
  obtain ⟨port', hp', -, hc'⟩ := m.keeps p port hp
  exact ⟨port', hp', hc' hc⟩

theorem Shut.isClosed (hs : d.Shut p) : d.hub.isClosed p = true := by
  obtain ⟨port, hp, hc⟩ := hs
  simp [Hub.isClosed, hp, hc]

/-- While a port is closed, what is done `later` leaves its device alone, loses no request on it for
want of a buffer, and issues only requests that are refused. Receivers below `n` are older. -/
structure Stilled (d : Desk) (p n : Nat) (h₀ later : List Deed) : Prop where
  shut : d.Shut p
  count : n ≤ d.receivers
  untouched : usesOf p later = []
  unlost : ∀ k ∈ issued p (h₀ ++ later), .lost k false ∉ later
  refused : ∀ k ∈ issued p later, n ≤ k ∧
    ∀ (r : Nat) (q : Request), d.hub.requests[r]? = some q → q.receiver ≠ some k

/-- A move that neither issues requests nor loses any, and does not use the device. -/
theorem Stilled.quiet (hs : d.Stilled p n h₀ h) (m : d.Move ds d') (hr : d'.receivers = d.receivers)
    (huses : usesOf p ds = []) (hissued : issued p ds = [])
    (hlost : ∀ k ∈ issued p (h₀ ++ h), .lost k false ∉ ds)
    (hnew : ∀ (r : Nat) (q : Request), d'.hub.requests[r]? = some q →
      q.receiver = none ∨ ∃ q', d.hub.requests[r]? = some q' ∧ q'.receiver = q.receiver) :
    d'.Stilled p n h₀ (h ++ ds) := by
  refine ⟨m.shut hs.shut, hr ▸ hs.count, ?_, fun k hk hm => ?_, fun k hk => ?_⟩
  · rw [usesOf_append, hs.untouched, huses, List.append_nil]
  · rw [← List.append_assoc, issued_append, hissued, List.append_nil] at hk
    rcases List.mem_append.mp hm with hm | hm
    · exact hs.unlost k hk hm
    · exact hlost k hk hm
  · rw [issued_append, hissued, List.append_nil] at hk
    obtain ⟨hle, hno⟩ := hs.refused k hk
    refine ⟨hle, fun r q hq hrec => ?_⟩
    rcases hnew r q hq with hnone | ⟨q', hq', he⟩
    · simp [hrec] at hnone
    · exact hno r q' hq' (he.trans hrec)

/-- A request is issued for a receiver that is new. -/
theorem Stilled.issue (hs : d.Stilled p n h₀ h) (ha : d.Accounts (h₀ ++ h)) (m : d.Move ds d')
    (hr : d'.receivers = d.receivers + 1) (huses : usesOf p ds = [])
    (hlost : ∀ k, .lost k false ∉ ds) (hissued : ∀ k ∈ issued p ds, k = d.receivers ∧
      d'.hub.requests = d.hub.requests)
    (hnew : ∀ (r : Nat) (q : Request), d'.hub.requests[r]? = some q →
      d.hub.requests[r]? = some q ∨ q.receiver = some d.receivers) :
    d'.Stilled p n h₀ (h ++ ds) := by
  have hlt {k : Nat} (hk : k ∈ issued p (h₀ ++ h)) : k < d.receivers := by
    obtain ⟨job, hm⟩ := mem_issued.mp hk
    exact (ha.asked k p job hm).1
  refine ⟨m.shut hs.shut, hr ▸ Nat.le_succ_of_le hs.count, ?_, fun k hk hm => ?_, fun k hk => ?_⟩
  · rw [usesOf_append, hs.untouched, huses, List.append_nil]
  · replace hm := (List.mem_append.mp hm).resolve_right (hlost k)
    rw [← List.append_assoc, issued_append] at hk
    rcases List.mem_append.mp hk with hk | hk
    · exact hs.unlost k hk hm
    · obtain ⟨rfl, -⟩ := hissued k hk
      exact (ha.silent d.receivers (Nat.le_refl _)).2 ⟨false, List.mem_append_right h₀ hm⟩
  · rw [issued_append] at hk
    rcases List.mem_append.mp hk with hk | hk
    · obtain ⟨hle, hno⟩ := hs.refused k hk
      refine ⟨hle, fun r q hq hrec => ?_⟩
      have := hlt (issued_append p h₀ h ▸ List.mem_append_right _ hk)
      rcases hnew r q hq with hq | hrec'
      · exact hno r q hq hrec
      · cases hrec.symm.trans hrec'
        exact Nat.lt_irrefl _ this
    · obtain ⟨rfl, hreq⟩ := hissued k hk
      exact ⟨hs.count, fun r q hq hrec =>
        Nat.lt_irrefl _ (ha.known r q _ (hreq ▸ hq) hrec)⟩

theorem Stilled.serve (hs : d.Stilled p n h₀ h) (hd : d.Sound) (ha : d.Accounts (h₀ ++ h))
    {r : Nat} {rest : List Nat} (hserves : d.Serves r rest) {q q' : Request} {port port' : Port}
    (hq : d.hub.requests[r]? = some q) (hp : d.hub.ports[q.port]? = some port) {us : List Use}
    {wakes : List Nat} {adv : Advance} (hv : Served r q port us q' port' wakes adv)
    {current : Option (Nat × Bool)} {now : Bool} (hl : Leads r q.receiver adv current now ds)
    (m : d.Move (us.map (.used q.receiver) ++ ds)
      { d with hub := d.hub.put r q' port', current, now, ready := woken rest wakes }) :
    Stilled { d with hub := d.hub.put r q' port', current, now, ready := woken rest wakes } p n h₀
      (h ++ (us.map (.used q.receiver) ++ ds)) := by
  obtain ⟨port₀, hp₀, hclosed⟩ := hs.shut
  have hopen (hqp : q.port = p) : port.closed = true := by
    obtain rfl : port = port₀ := by simpa [hqp, hp₀] using hp.symm
    exact hclosed
  refine hs.quiet m rfl ?_ ?_ (fun k hk hm => ?_) fun s q₁ hs => ?_
  · have hds : usesOf p ds = [] := by
      cases hl with
      | crash => cases q.receiver <;> rfl
      | _ => rfl
    rw [usesOf_append, hds, List.append_nil]
    rcases hv.uses with rfl | ⟨u, w, rfl, hu, -, hno, -⟩
    · rfl
    · have hne : u.port ≠ p := fun hup => by simp [hopen (hu ▸ hup)] at hno
      simp [usesOf, Deed.use?, hne]
  · rw [issued_append, hl.moves_nothing.2.2, List.append_nil]
    simp [Pipe.issued, List.filterMap_map, Deed.issue?]
  · replace hm : Deed.lost k false ∈ ds := (List.mem_append.mp hm).resolve_left (by simp)
    -- Only a request that has its turn, and whose port is open, is without a buffer.
    cases hl with
    | crash =>
      have hk' : q.receiver = some k := by
        cases hrec : q.receiver <;> simp_all
      have hcl := hopen (ha.port_eq hq hk' hk)
      cases hv with
      | crashed hph hj hrel hover =>
        obtain ⟨port₁, hp₁, hplace, -⟩ := hd.place r q hq
        obtain rfl : port = port₁ := by simpa [hp] using hp₁
        cases hplace with
        | active _ _ hcur _ hfit =>
          cases hserves with
          | poll hnone => simp [hnone] at hcur
          | resume hcur' =>
            cases hcur.symm.trans hcur'
            simp [hfit rfl (.inr hcl)] at hover
        | _ => simp_all
      | works _ _ _ _ hu => exact absurd rfl hu.goes_on.2
    | _ => simp at hm
  · rw [show (d.hub.put r q' port').requests = d.hub.requests.set r q' from rfl,
      List.getElem?_set] at hs
    split at hs
    · rename_i hrs
      split at hs
      · cases hs
        exact .inr ⟨q, hrs ▸ hq, hv.receiver_eq.symm⟩
      · cases hs
    · exact .inr ⟨q₁, hs, rfl⟩

/-- Every move leaves the device of a closed port alone. -/
theorem Stilled.move (hs : d.Stilled p n h₀ h) (hd : d.Sound) (ha : d.Accounts (h₀ ++ h))
    (m : d.Move ds d') : d'.Stilled p n h₀ (h ++ ds) := by
  have finish (r s : Nat) (q : Request) (hq : (d.hub.finish r).1.requests[s]? = some q) :
      ∃ q', d.hub.requests[s]? = some q' ∧ q'.receiver = q.receiver := by
    rw [Hub.finish_requests, List.getElem?_modify] at hq
    obtain ⟨q', hq', rfl⟩ := Option.map_eq_some_iff.mp hq
    exact ⟨q', hq', by split <;> rfl⟩
  cases m with
  | quiet _ hn => exact hs.quiet (.quiet _ hn) rfl rfl rfl (by simp) fun _ q hq => .inr ⟨q, hq, rfl⟩
  | opens e => exact hs.quiet (.opens e) rfl rfl rfl (by simp) fun _ q hq => .inr ⟨q, hq, rfl⟩
  | feed hp => exact hs.quiet (.feed hp) rfl rfl rfl (by simp) fun _ q hq => .inr ⟨q, hq, rfl⟩
  | skip h₁ h₂ =>
    exact hs.quiet (.skip h₁ h₂) rfl rfl rfl (by simp) fun _ q hq => .inr ⟨q, hq, rfl⟩
  | @close p' hn =>
    refine hs.quiet (.close hn) rfl rfl rfl (by simp) fun r q hq => ?_
    rcases close_requests d.hub p' with he | he
    · exact .inr ⟨q, he ▸ hq, rfl⟩
    · rw [he] at hq
      rcases getElem?_concat.mp hq with hq | ⟨-, rfl⟩
      · exact .inr ⟨q, hq, rfl⟩
      · exact .inl rfl
  | refuse hj hp hc =>
    refine hs.issue ha (.refuse hj hp hc) rfl rfl (by simp) (fun k hk => ?_) fun _ _ => .inl
    obtain ⟨job, hm⟩ := mem_issued.mp hk
    simp only [List.mem_cons, Deed.asked.injEq, reduceCtorEq, List.not_mem_nil, or_self,
      or_false] at hm
    exact ⟨hm.1, rfl⟩
  | @ask p' job hj hc =>
    refine hs.issue ha (.ask hj hc) rfl rfl (by simp) (fun k hk => ?_) fun r q hq => ?_
    · obtain ⟨job, hm⟩ := mem_issued.mp hk
      obtain ⟨-, rfl, -⟩ : k = d.receivers ∧ p = p' ∧ job = _ := by simpa using hm
      simp [hs.shut.isClosed] at hc
    · refine (getElem?_concat.mp hq).imp_right ?_
      rintro ⟨-, rfl⟩
      rfl
  | serve h₁ hq hp hf hv hl => exact hs.serve hd ha h₁ hq hp hv hl (.serve h₁ hq hp hf hv hl)
  | @finish r hc =>
    exact hs.quiet (.finish hc) rfl rfl rfl (by simp) fun s q hq => .inr (finish r s q hq)
  | @unwind r hc hn =>
    refine hs.quiet (.unwind hc hn) rfl ?_ ?_ (by simp) fun s q hq => .inr (finish r s q hq)
    all_goals cases d.hub.requests[r]?.bind (·.receiver) <;> rfl

theorem Stilled.moves (hs : d.Stilled p n h₀ h) (hd : d.Sound) (hl : d.Ledger (h₀ ++ h))
    (m : d.Moves ds d') : d'.Stilled p n h₀ (h ++ ds) := by
  induction m with
  | none => simpa using hs
  | more ms m ih =>
    have hl' := ms.ledger hd hl
    rw [List.append_assoc] at hl'
    rw [← List.append_assoc]
    exact ih.move (ms.sound hd) hl'.accounts m

/-- A closed port on which nothing has been done. -/
theorem Shut.stilled (hs : d.Shut p) (hn : n ≤ d.receivers) (huses : usesOf p h = [])
    (hissued : issued p (h₀ ++ h) = []) : d.Stilled p n h₀ h := by
  refine ⟨hs, hn, huses, by simp [hissued], fun k hk => ?_⟩
  rw [issued_append, List.append_eq_nil_iff] at hissued
  simp [hissued.2] at hk

/-- A request that was lost for want of a buffer needed a large one from the beginning. -/
def Crashed (d : Desk) (h : List Deed) : Prop :=
  ∀ k p job, .asked k p job ∈ h → .lost k false ∈ h →
    ∃ port, d.hub.ports[p]? = some port ∧ Hub.overflows port.chunk job = true

theorem Crashed.move (hc : d.Crashed h) (ha : d.Accounts h) (m : d.Move ds d') :
    d'.Crashed (h ++ ds) := by
  intro k p job hasked hlost
  have keep (h' : ∃ port, d.hub.ports[p]? = some port ∧ Hub.overflows port.chunk job = true) :
      ∃ port, d'.hub.ports[p]? = some port ∧ Hub.overflows port.chunk job = true := by
    obtain ⟨port, hp, hv⟩ := h'
    obtain ⟨port', hp', hchunk, -⟩ := m.keeps p port hp
    exact ⟨port', hp', hchunk ▸ hv⟩
  have fresh (hm : .asked k p job ∈ ds) : False := by
    obtain ⟨rfl, hl⟩ : k = d.receivers ∧ .lost k false ∉ ds := by
      cases m with
      | refuse | ask => exact ⟨by simp_all, by simp⟩
      | serve _ _ _ _ _ hl => exact absurd hm (asked_turn hl k p job)
      | _ => simp at hm
    exact (ha.silent _ (Nat.le_refl _)).2 ⟨false, (List.mem_append.mp hlost).resolve_right hl⟩
  replace hasked := (List.mem_append.mp hasked).resolve_right fresh
  rcases List.mem_append.mp hlost with hl | hl
  · exact keep (hc k p job hasked hl)
  cases m with
  | @serve r rest us wakes adv current now ds q q' port port' hs hq hp hf hv hlead =>
    replace hl : Deed.lost k false ∈ ds := (List.mem_append.mp hl).resolve_left (by simp)
    cases hlead with
    | crash =>
      have hk : q.receiver = some k := by
        cases hrec : q.receiver <;> simp_all
      obtain ⟨-, -, hacc⟩ := ha.asked k p job hasked
      cases hacc with
      | refused _ _ hno => exact absurd hk (hno r q hq)
      | @request r₁ q₁ port₁ f hq₁ hk₁ hqp hp₁ ht hfate =>
        obtain rfl := ha.distinct r₁ r q₁ q k hq₁ hq hk₁ hk
        obtain rfl : q = q₁ := by simpa [hq] using hq₁
        subst hqp
        obtain rfl : port = port₁ := by simpa [hp] using hp₁
        refine keep ⟨port, hp, ?_⟩
        cases hv with
        | crashed hph hj hrel hover =>
          cases f with
          | running job' =>
            obtain ⟨rfl, -, -⟩ := hfate
            refine (Bool.eq_false_or_eq_true _).resolve_right fun hfit => ?_
            simp [ht.overflows hfit _ rfl] at hover
          | _ =>
            refine absurd hfate ?_
            cases hs <;> simp_all [Fated]
        | works _ _ _ _ hu => exact absurd rfl hu.goes_on.2
    | _ => simp at hl
  | _ => simp at hl

theorem Crashed.moves (hc : d.Crashed h) (hd : d.Sound) (hl : d.Ledger h) (m : d.Moves ds d') :
    d'.Crashed (h ++ ds) := by
  induction m with
  | none => simpa using hc
  | more ms m ih =>
    have hl' := ms.ledger hd hl
    rw [← List.append_assoc]
    exact ih.move hl'.accounts m

/-- When nothing is left to do, every request on a closed port is over. -/
theorem Sound.finished (hd : d.Sound) (hc : d.current = none) (hr : d.ready = []) {r : Nat}
    {q : Request} {port : Port} (hq : d.hub.requests[r]? = some q)
    (hp : d.hub.ports[q.port]? = some port) (hcl : port.closed = true) :
    q.phase = .finished ∧ (q.job = .release → port.released = true) := by
  have hk := hd.port q.port port hp
  -- Whoever holds the port is over, and then nobody stands in line.
  have place {s : Nat} {q₁ : Request} (hs : d.hub.requests[s]? = some q₁)
      (hport : q₁.port = q.port) : q₁.phase = .finished ∧ s ∉ port.queue ∧
        (q₁.job = .release → port.released = true) ∨
      q₁.phase = .queued ∧ s ∈ port.queue ∧ port.holder ≠ some s := by
    obtain ⟨port₁, hp₁, hplace, -⟩ := hd.place s q₁ hs
    obtain rfl : port = port₁ := by simpa [hport, hp] using hp₁
    cases hplace with
    | fresh _ _ _ hready => simp [hr] at hready
    | lined hph hm _ _ hh =>
      refine .inr ⟨hph, hm, fun h => ?_⟩
      simpa [hr] using hh h
    | waiting _ _ _ hj ha => simpa [hr] using (ha hj).2 hcl
    | active _ _ hcur => simp [hc] at hcur
    | closing _ hcur => simp [hc] at hcur
    | finished hph hm _ hrel => exact .inl ⟨hph, hm, hrel⟩
  rcases place hq rfl with ⟨hph, -, hrel⟩ | ⟨-, hm, hh⟩
  · exact ⟨hph, hrel⟩
  · cases hholder : port.holder with
    | none => simp [Port.queue, hholder, hk.tidy.free hholder] at hm
    | some s =>
      have hqueue : s ∈ port.queue := by simp [Port.queue, hholder]
      obtain ⟨q₁, hq₁, hport⟩ := hk.member s hqueue
      rcases place hq₁ hport with ⟨-, hno, -⟩ | ⟨-, -, hno⟩
      · exact absurd hqueue hno
      · exact absurd hholder hno

/-- When nothing is left to do, the device of a closed port has been let go of. -/
theorem Sound.released (hd : d.Sound) (hc : d.current = none) (hr : d.ready = []) {port : Port}
    (hp : d.hub.ports[p]? = some port) (hcl : port.closed = true) : port.released = true := by
  obtain ⟨r, q, hq, hport, hj⟩ := (hd.port p port hp).release hcl
  exact (hd.finished hc hr hq (hport ▸ hp) hcl).2 hj

end Desk

end Conduit.Pipe
