import Conduit.Proofs.Pipe.Sound
import Conduit.Proofs.Pipe.Tale

/-!
Every request that was issued has a tale, and the desk knows how it stands. Requests that nobody has
served yet have done nothing.
-/

namespace Conduit.Pipe

open Dispatch

/-- A hub keeps the ports of another one, and those that are closed stay closed. -/
def Hub.Keeps (h' h : Hub) : Prop :=
  ∀ (p : Nat) (port : Port), h.ports[p]? = some port →
    ∃ port', h'.ports[p]? = some port' ∧ port'.chunk = port.chunk ∧
      (port.closed = true → port'.closed = true)

theorem Hub.Keeps.of_ports {h h' : Hub} (he : h'.ports = h.ports) : h'.Keeps h :=
  fun _ port hp => ⟨port, he ▸ hp, rfl, id⟩

theorem Hub.Keeps.refl (h : Hub) : h.Keeps h := .of_ports rfl

theorem Hub.Keeps.trans {h h' h'' : Hub} (hk : h''.Keeps h') (hk' : h'.Keeps h) : h''.Keeps h := by
  intro p port hp
  obtain ⟨port', hp', hchunk', hclosed'⟩ := hk' p port hp
  obtain ⟨port'', hp'', hchunk'', hclosed''⟩ := hk p port' hp'
  exact ⟨port'', hp'', hchunk''.trans hchunk', fun h => hclosed'' (hclosed' h)⟩

namespace Desk

/-- How a request stands on a desk. -/
def Fated (d : Desk) (r : Nat) (q : Request) : Fate → Prop
  | .running job => job = q.job ∧ q.phase ≠ .finished ∧ d.current ≠ some (r, true)
  | _ => q.phase = .finished ∨ d.current = some (r, true)

/-- A request that was issued is told of, or it found its port closed at once. -/
inductive Accounted (d : Desk) (h : List Deed) (k p : Nat) (job : Job) : Prop where
  | request {r : Nat} {q : Request} {port : Port} {f : Fate} (hq : d.hub.requests[r]? = some q)
      (hk : q.receiver = some k) (hqp : q.port = p) (hp : d.hub.ports[p]? = some port)
      (ht : Tale port.chunk p (port.closed = true) job (acts k h) f) (hf : d.Fated r q f)
      (hl : f = .lost ↔ Gone k h)
      (hn : q.phase = .fresh ∨ q.phase = .queued → d.current ≠ some (r, true) → acts k h = [])
  | refused {port : Port} (hp : d.hub.ports[p]? = some port) (hcl : port.closed = true)
      (hq : ∀ (r : Nat) (q : Request), d.hub.requests[r]? = some q → q.receiver ≠ some k)
      (ha : acts k h = [.tell job.closedEvent]) (hl : ¬Gone k h)

/-- Every request is accounted for; receivers are shared by no requests, and new ones are unheard
of. -/
structure Accounts (d : Desk) (h : List Deed) : Prop where
  asked : ∀ k p job, .asked k p job ∈ h → k < d.receivers ∧ job.Initial ∧ d.Accounted h k p job
  distinct : ∀ (r r' : Nat) (q q' : Request) (k : Nat), d.hub.requests[r]? = some q →
    d.hub.requests[r']? = some q' → q.receiver = some k → q'.receiver = some k → r = r'
  known : ∀ (r : Nat) (q : Request) (k : Nat), d.hub.requests[r]? = some q →
    q.receiver = some k → k < d.receivers
  silent : ∀ k, d.receivers ≤ k → acts k h = [] ∧ ¬Gone k h

variable {d d' : Desk} {h ds : List Deed} {k p : Nat} {job : Job}

/-- A request that was issued has a tale; while it goes on, it is not over. -/
theorem Accounted.tale (ha : d.Accounted h k p job) : ∃ port f, d.hub.ports[p]? = some port ∧
    Tale port.chunk p (port.closed = true) job (acts k h) f ∧ (f = .lost ↔ Gone k h) ∧
    ∀ job', f = .running job' → ∃ (r : Nat) (q : Request), d.hub.requests[r]? = some q ∧
      q.port = p ∧ q.phase ≠ .finished := by
  cases ha with
  | @request r q port f hq _ hqp hp ht hf hl =>
    refine ⟨port, f, hp, ht, hl, ?_⟩
    rintro job' rfl
    exact ⟨r, q, hq, hqp, hf.2.1⟩
  | refused hp hcl _ ha hl =>
    exact ⟨_, .ended, hp, ha ▸ Tale.issued.closed hcl, by simp [hl], by simp⟩

/-- A move that does nothing for a receiver, and changes no request of its, keeps its account. -/
theorem Accounted.frame (ha : d.Accounted h k p job) (hacts : acts k ds = []) (hlost : ¬Gone k ds)
    (hports : d'.hub.Keeps d.hub)
    (hold : ∀ (r : Nat) (q : Request), d.hub.requests[r]? = some q → q.receiver = some k →
      d'.hub.requests[r]? = some q ∧ (d'.current = some (r, true) ↔ d.current = some (r, true)))
    (hnew : ∀ (r : Nat) (q : Request), d'.hub.requests[r]? = some q → q.receiver = some k →
      ∃ q', d.hub.requests[r]? = some q' ∧ q'.receiver = some k) :
    d'.Accounted (h ++ ds) k p job := by
  have hacts' : acts k (h ++ ds) = acts k h := by rw [acts_append, hacts, List.append_nil]
  have hlost' : Gone k (h ++ ds) ↔ Gone k h := by simp [hlost]
  cases ha with
  | @request r q port f hq hk hqp hp ht hf hl hn =>
    obtain ⟨hq', hc⟩ := hold r q hq hk
    obtain ⟨port', hp', hchunk, hcl⟩ := hports p port hp
    refine .request hq' hk hqp hp' ?_ ?_ (by rwa [hlost']) ?_
    · rw [hacts', hchunk]
      exact ht.mono hcl
    · cases f with
      | running => exact ⟨hf.1, hf.2.1, fun h => hf.2.2 (hc.mp h)⟩
      | ended => exact hf.imp_right hc.mpr
      | lost => exact hf.imp_right hc.mpr
    · rw [hacts']
      exact fun hph hcur => hn hph fun h => hcur (hc.mpr h)
  | @refused port hp hcl hq ha hl =>
    obtain ⟨port', hp', -, hcl'⟩ := hports p port hp
    refine .refused hp' (hcl' hcl) (fun r q hr hk => ?_) (by rw [hacts', ha]) (by rwa [hlost'])
    obtain ⟨q', hq', hk'⟩ := hnew r q hr hk
    exact hq r q' hq' hk'

end Desk

theorem acts_nil (k : Nat) : acts k [] = [] := rfl

/-- What requests do is done for their receivers. -/
theorem acts_uses {j k : Nat} (us : List Use) :
    acts k (us.map (.used (some j))) = if j = k then us.map .use else [] := by
  induction us with
  | nil => simp [acts]
  | cons u us ih =>
    simp only [acts, List.map_cons, List.filterMap_cons, Deed.act?] at ih ⊢
    split <;> simp_all

theorem acts_uses_none {k : Nat} (us : List Use) : acts k (us.map (.used none)) = [] := by
  simp [acts, List.filterMap_map, Deed.act?]

theorem acts_told {j k : Nat} (e : Event) :
    acts k [.told j e] = if j = k then [.tell e] else [] := by
  simp only [acts, List.filterMap_cons, Deed.act?]
  split <;> simp_all

theorem acts_lost {k : Nat} {b : Bool} (o : Option Nat) :
    acts k (o.toList.map (.lost · b)) = [] := by
  cases o <;> simp [acts, Deed.act?]

namespace Desk

variable {d d' : Desk} {h ds : List Deed}

/-- A move in which nothing is done for receivers, and that adds only requests without one. -/
theorem Accounts.still (ha : d.Accounts h) (hds : ∀ k, acts k ds = [] ∧ ¬Gone k ds)
    (hasked : ∀ k p job, .asked k p job ∉ ds)
    (hports : d'.hub.Keeps d.hub)
    (hold : ∀ (r : Nat) (q : Request), d.hub.requests[r]? = some q → d'.hub.requests[r]? = some q)
    (hnew : ∀ (r : Nat) (q : Request), d'.hub.requests[r]? = some q →
      d.hub.requests[r]? = some q ∨ q.receiver = none)
    (hc : ∀ r, d'.current = some (r, true) ↔ d.current = some (r, true))
    (hr : d'.receivers = d.receivers) : d'.Accounts (h ++ ds) := by
  have hnew' (k r : Nat) (q : Request) (hq : d'.hub.requests[r]? = some q)
      (hk : q.receiver = some k) : d.hub.requests[r]? = some q :=
    (hnew r q hq).resolve_right (by simp [hk])
  refine ⟨?_, ?_, ?_, ?_⟩
  · intro k p job hm
    obtain ⟨hlt, hj, hacc⟩ := ha.asked k p job
      ((List.mem_append.mp hm).resolve_right (hasked k p job))
    exact ⟨hr ▸ hlt, hj, hacc.frame (hds k).1 (hds k).2 hports
      (fun r q hq _ => ⟨hold r q hq, hc r⟩) fun r q hq hk => ⟨q, hnew' k r q hq hk, hk⟩⟩
  · intro r r' q q' k hq hq' hk hk'
    exact ha.distinct r r' q q' k (hnew' k r q hq hk) (hnew' k r' q' hq' hk') hk hk'
  · intro r q k hq hk
    exact hr ▸ ha.known r q k (hnew' k r q hq hk) hk
  · intro k hk
    obtain ⟨h₁, h₂⟩ := ha.silent k (hr ▸ hk)
    exact ⟨by rw [acts_append, h₁, (hds k).1, List.append_nil], by simp [h₂, (hds k).2]⟩

/-- A move in which one request changes and only its receiver hears of it. -/
theorem Accounts.local (ha : d.Accounts h) {r : Nat} {q q' : Request} {port port' : Port}
    (hq : d.hub.requests[r]? = some q) (hp : d.hub.ports[q.port]? = some port)
    (hport : q'.port = q.port) (hrec : q'.receiver = q.receiver) (hchunk : port'.chunk = port.chunk)
    (hclosed : port'.closed = port.closed)
    (hhub : d'.hub = d.hub.put r q' port') (hr : d'.receivers = d.receivers)
    (hc : ∀ s b, s ≠ r → d.current ≠ some (s, b)) (hc' : ∀ s b, s ≠ r → d'.current ≠ some (s, b))
    (hds : ∀ k, q.receiver ≠ some k → acts k ds = [] ∧ ¬Gone k ds)
    (hasked : ∀ k p job, .asked k p job ∉ ds)
    (hown : ∀ k job f, q.receiver = some k → job.Initial →
      Tale port.chunk q.port (port.closed = true) job (acts k h) f → d.Fated r q f → (f = .lost ↔ Gone k h) →
      (q.phase = .fresh ∨ q.phase = .queued → d.current ≠ some (r, true) → acts k h = []) →
      ∃ f', Tale port.chunk q.port (port.closed = true) job (acts k (h ++ ds)) f' ∧ d'.Fated r q' f' ∧
        (f' = .lost ↔ Gone k (h ++ ds)) ∧
        (q'.phase = .fresh ∨ q'.phase = .queued → d'.current ≠ some (r, true) →
          acts k (h ++ ds) = [])) : d'.Accounts (h ++ ds) := by
  obtain ⟨hr', -⟩ := List.getElem?_eq_some_iff.mp hq
  obtain ⟨hp', -⟩ := List.getElem?_eq_some_iff.mp hp
  have hrequest (s : Nat) : d'.hub.requests[s]? = if s = r then some q' else d.hub.requests[s]? := by
    rw [hhub, Hub.put, List.getElem?_set]
    grind
  have hports (p : Nat) : d'.hub.ports[p]? = if p = q.port then some port' else d.hub.ports[p]? := by
    rw [hhub, Hub.put, List.getElem?_set, hport]
    grind
  have hback (s : Nat) (q₁ : Request) (hs : d'.hub.requests[s]? = some q₁) :
      ∃ q₂, d.hub.requests[s]? = some q₂ ∧ q₂.receiver = q₁.receiver := by
    rw [hrequest] at hs
    split at hs
    · rename_i hsr
      cases hs
      exact ⟨q, hsr ▸ hq, hrec.symm⟩
    · exact ⟨q₁, hs, rfl⟩
  refine ⟨?_, ?_, ?_, ?_⟩
  · intro k p job hm
    obtain ⟨hlt, hj, hacc⟩ := ha.asked k p job
      ((List.mem_append.mp hm).resolve_right (hasked k p job))
    refine ⟨hr ▸ hlt, hj, ?_⟩
    by_cases hk : q.receiver = some k
    · cases hacc with
      | refused _ _ hno => exact absurd hk (hno r q hq)
      | @request r₁ q₁ port₁ f hq₁ hk₁ hqp₁ hp₁ ht hf hl hn =>
        obtain rfl := ha.distinct r₁ r q₁ q k hq₁ hq hk₁ hk
        obtain rfl : q = q₁ := by simpa [hq] using hq₁
        subst hqp₁
        obtain rfl : port = port₁ := by simpa [hp] using hp₁
        obtain ⟨f', ht', hf', hl', hn'⟩ := hown k job f hk hj ht hf hl hn
        have hp₂ : d'.hub.ports[q.port]? = some port' := by simp [hports]
        exact .request (by simp [hrequest]) (hrec.trans hk) hport hp₂ (by rwa [hchunk, hclosed]) hf'
          hl' hn'
    · refine hacc.frame (hds k hk).1 (hds k hk).2 (fun p₁ port₁ hp₁ => ?_) ?_ ?_
      · rw [hports]
        split
        · rename_i hpp
          obtain rfl : port = port₁ := by simpa [hpp, hp] using hp₁
          exact ⟨port', rfl, hchunk, hclosed.trans⟩
        · exact ⟨port₁, hp₁, rfl, id⟩
      · intro s q₁ hs hks
        have hsr : s ≠ r := by
          rintro rfl
          obtain rfl : q = q₁ := by simpa [hq] using hs
          exact hk hks
        exact ⟨by simp [hrequest, hsr, hs],
          iff_of_false (hc' s true hsr) (hc s true hsr)⟩
      · intro s q₁ hs hks
        obtain ⟨q₂, h₂, hrec₂⟩ := hback s q₁ hs
        exact ⟨q₂, h₂, hrec₂.trans hks⟩
  · intro s s' q₁ q₁' k hs hs' hk hk'
    obtain ⟨q₂, h₂, e₂⟩ := hback s q₁ hs
    obtain ⟨q₂', h₂', e₂'⟩ := hback s' q₁' hs'
    exact ha.distinct s s' q₂ q₂' k h₂ h₂' (e₂.trans hk) (e₂'.trans hk')
  · intro s q₁ k hs hk
    obtain ⟨q₂, h₂, e₂⟩ := hback s q₁ hs
    exact hr ▸ ha.known s q₂ k h₂ (e₂.trans hk)
  · intro k hk
    rw [hr] at hk
    obtain ⟨h₁, h₂⟩ := ha.silent k hk
    have hne : q.receiver ≠ some k := fun h => Nat.lt_irrefl _ (Nat.lt_of_lt_of_le (ha.known r q k hq h) hk)
    exact ⟨by rw [acts_append, h₁, (hds k hne).1, List.append_nil], by simp [h₂, (hds k hne).2]⟩

/-- What is done in a turn of a request is done for its receiver alone. -/
theorem acts_turn {us : List Use} {ds : List Deed} {r : Nat} {o : Option Nat} {adv : Advance}
    {current : Option (Nat × Bool)} {now : Bool} (hl : Leads r o adv current now ds) {k : Nat}
    (hk : o ≠ some k) : acts k (us.map (.used o) ++ ds) = [] ∧
      ¬Gone k (us.map (.used o) ++ ds) := by
  have hus : acts k (us.map (.used o)) = [] := by
    cases o with
    | none => exact acts_uses_none us
    | some j => rw [acts_uses, if_neg (by simpa using hk)]
  rw [acts_append, hus]
  cases hl with
  | idle | again => simp [acts]
  | crash =>
    refine ⟨acts_lost o, ?_⟩
    cases o <;> simp_all [Ne.symm]
  | @report j e last _ h =>
    subst h
    rw [acts_told, if_neg (by simpa using hk)]
    simp

theorem asked_turn {us : List Use} {ds : List Deed} {r : Nat} {o : Option Nat} {adv : Advance}
    {current : Option (Nat × Bool)} {now : Bool} (hl : Leads r o adv current now ds) (k p : Nat)
    (job : Job) : .asked k p job ∉ us.map (.used o) ++ ds := by
  cases hl <;> simp

theorem Accounts.serve (ha : d.Accounts h) (hd : d.Sound) {r : Nat} {rest : List Nat}
    (hs : d.Serves r rest)
    {q q' : Request} {port port' : Port} (hq : d.hub.requests[r]? = some q)
    (hp : d.hub.ports[q.port]? = some port) (hf : q.phase ≠ .finished) {us : List Use}
    {wakes : List Nat} {adv : Advance} (hv : Served r q port us q' port' wakes adv)
    {current : Option (Nat × Bool)} {now : Bool} (hl : Leads r q.receiver adv current now ds) :
    Accounts { d with hub := d.hub.put r q' port', current, now, ready := woken rest wakes }
      (h ++ (us.map (.used q.receiver) ++ ds)) := by
  have hcur : d.current ≠ some (r, true) := by cases hs <;> simp_all
  refine ha.local hq hp hv.port_eq hv.receiver_eq hv.chunk_eq hv.closed_eq rfl rfl hs.current
    hl.current (fun k hk => acts_turn hl hk) (asked_turn hl) ?_
  intro k job f hk hj ht hfate hlost hn
  cases f with
  | ended => exact absurd hfate (by simp [Fated, hf, hcur])
  | lost => exact absurd hfate (by simp [Fated, hf, hcur])
  | running job' =>
    obtain ⟨rfl, -, -⟩ := hfate
    have hlost' : ¬Gone k h := fun h => by cases hlost.mpr h
    rw [hk] at hl ⊢
    have hacts (us : List Use) (ds : List Deed) : acts k (h ++ (us.map (.used (some k)) ++ ds)) =
        acts k h ++ (us.map .use ++ acts k ds) := by
      rw [acts_append, acts_append, acts_uses, if_pos rfl]
    have hclosed {e : Event} (he : e = q.job.closedEvent) (hcl : port.closed = true)
        {q₁ : Request} {d₁ : Desk} (hc : d₁.current = some (r, true)) :
        ∃ f', Tale port.chunk q.port (port.closed = true) job (acts k (h ++ [.told k e])) f' ∧
          d₁.Fated r q₁ f' ∧
          (f' = .lost ↔ Gone k (h ++ [.told k e])) ∧
          (q₁.phase = .fresh ∨ q₁.phase = .queued → d₁.current ≠ some (r, true) →
            acts k (h ++ [.told k e]) = []) := by
      refine ⟨.ended, ?_, .inr hc, by simp [hlost'], fun _ h => absurd hc h⟩
      rw [acts_append, acts_told, if_pos rfl, he]
      exact ht.closed hcl
    cases hv with
    | refused hph hj' hc | dismissed hph hj' hc =>
      cases hl with
      | report _ hk =>
        cases hk
        exact hclosed rfl hc rfl
    | ended hph hj' hc =>
      cases hl with
      | report _ hk =>
        cases hk
        exact hclosed rfl (hc.elim (hd.port q.port port hp).released id) rfl
    | taken hph hj' he | granted hph hj' hh =>
      cases hl
      refine ⟨.running q.job, ?_, ⟨rfl, by simp, by simp⟩, by simp [hlost'], by simp⟩
      simpa [acts] using ht
    | lined hph hj' he | stays hph hj' hh =>
      cases hl
      have hnone := hn (by simp [hph]) hcur
      refine ⟨.running q.job, ?_, ⟨rfl, by simp [hph], by simp⟩, by simp [hlost'], ?_⟩
      · simpa [acts] using ht
      · rw [hacts, hnone, acts_nil]
        simp
    | released hph hj' => exact absurd hj' (ht.ne_release hj)
    | crashed hph hj' hr hv =>
      cases hl
      refine ⟨.lost, ?_, .inr rfl, by simp, fun _ h => absurd rfl h⟩
      simpa [acts, Deed.act?] using ht.lost
    | waits hph hc hr hv hu =>
      cases hl
      refine ⟨.running q.job, ?_, ⟨rfl, by simp, by simp⟩, by simp [hlost'], by simp⟩
      rw [hacts, acts_nil]
      exact ht.waits hu
    | @works w u job' adv hph hc hr hv hu =>
      cases hl with
      | idle => exact absurd rfl hu.goes_on.1
      | crash => exact absurd rfl hu.goes_on.2
      | again =>
        refine ⟨.running job', ?_, ⟨rfl, by simp, by simp⟩, by simp [hlost'], by simp⟩
        rw [hacts, acts_nil]
        exact ht.again hu
      | @report _ e last _ hk =>
        cases hk
        have ht' := ht.reports hu
        rw [List.append_cons, List.append_assoc] at ht'
        refine ⟨if last then .ended else .running job', ?_, ?_, ?_, by simp⟩
        · rw [hacts, acts_told, if_pos rfl]
          exact ht'
        · cases last with
          | true => exact .inr rfl
          | false => exact ⟨rfl, by simp, by simp⟩
        · cases last <;> simp [hlost']

/-- A request is issued on a closed port. -/
theorem Accounts.refuse (ha : d.Accounts h) {p : Nat} {job : Job} {port : Port} (hj : job.Initial)
    (hp : d.hub.ports[p]? = some port) (hc : port.closed = true) :
    Accounts { d with receivers := d.receivers + 1 }
      (h ++ [.asked d.receivers p job, .told d.receivers job.closedEvent]) := by
  have hds {k : Nat} (hk : k ≠ d.receivers) :
      acts k [.asked d.receivers p job, .told d.receivers job.closedEvent] = [] := by
    simp [acts, Deed.act?, hk.symm]
  obtain ⟨hnone, hlost⟩ := ha.silent d.receivers (Nat.le_refl _)
  refine ⟨?_, ha.distinct, fun r q k hq hk => Nat.lt_succ_of_lt (ha.known r q k hq hk), ?_⟩
  · intro k p' job' hm
    rcases List.mem_append.mp hm with hm | hm
    · obtain ⟨hlt, hj, hacc⟩ := ha.asked k p' job' hm
      exact ⟨Nat.lt_succ_of_lt hlt, hj, hacc.frame (hds (Nat.ne_of_lt hlt)) (by simp)
        (.of_ports rfl) (fun _ _ hq _ => ⟨hq, .rfl⟩) fun _ q hq hk => ⟨q, hq, hk⟩⟩
    · obtain ⟨rfl, rfl, rfl⟩ : k = d.receivers ∧ p' = p ∧ job' = job := by simpa using hm
      refine ⟨Nat.lt_succ_self _, hj, .refused hp hc ?_ ?_ (by simp [hlost])⟩
      · intro r q hq hk
        exact Nat.lt_irrefl _ (ha.known r q _ hq hk)
      · rw [acts_append, hnone]
        simp [acts, Deed.act?]
  · intro k hk
    obtain ⟨h₁, h₂⟩ := ha.silent k (Nat.le_of_succ_le hk)
    exact ⟨by rw [acts_append, h₁, hds (Nat.ne_of_gt hk), List.append_nil], by simp [h₂]⟩

/-- A request is issued on an open port. -/
theorem Accounts.ask (ha : d.Accounts h) (hd : d.Sound) {p : Nat} {job : Job} (hj : job.Initial)
    (hc : d.hub.isClosed p = false) :
    Accounts { d with
      hub := (d.hub.submit p job (some d.receivers)).1
      receivers := d.receivers + 1
      ready := woken d.ready [d.hub.requests.length] } (h ++ [.asked d.receivers p job]) := by
  obtain ⟨port, hp⟩ : ∃ port, d.hub.ports[p]? = some port := by
    cases hp : d.hub.ports[p]? with
    | none => simp [Hub.isClosed, hp] at hc
    | some port => exact ⟨port, rfl⟩
  have hds (k : Nat) : acts k [.asked d.receivers p job] = [] := by simp [acts, Deed.act?]
  obtain ⟨hnone, hlost⟩ := ha.silent d.receivers (Nat.le_refl _)
  refine ⟨?_, ?_, ?_, ?_⟩
  · intro k p' job' hm
    rcases List.mem_append.mp hm with hm | hm
    · obtain ⟨hlt, hj, hacc⟩ := ha.asked k p' job' hm
      refine ⟨Nat.lt_succ_of_lt hlt, hj, hacc.frame (hds k) (by simp)
        (.of_ports rfl)
        (fun _ _ hq _ => ⟨getElem?_concat.mpr (.inl hq), .rfl⟩) fun r q hq hk => ?_⟩
      rcases getElem?_concat.mp hq with hq | ⟨-, rfl⟩
      · exact ⟨q, hq, hk⟩
      · cases hk
        exact absurd hlt (Nat.lt_irrefl _)
    · obtain ⟨rfl, rfl, rfl⟩ : k = d.receivers ∧ p' = p ∧ job' = job := by simpa using hm
      have hacts : acts d.receivers (h ++ [.asked d.receivers p' job']) = [] := by
        rw [acts_append, hnone, hds, List.append_nil]
      have hcur : d.current ≠ some (d.hub.requests.length, true) := fun hcur =>
        Nat.lt_irrefl _ (hd.current _ _ hcur)
      exact ⟨Nat.lt_succ_self _, hj, .request (f := .running job')
        (getElem?_concat.mpr (.inr ⟨rfl, rfl⟩)) rfl rfl hp (by rw [hacts]; exact .issued)
        ⟨rfl, by simp, hcur⟩ (by simp [hlost]) fun _ _ => hacts⟩
  · intro r r' q q' k hq hq' hk hk'
    have hold (s : Nat) (q : Request) (hs : d.hub.requests[s]? = some q)
        (hk : q.receiver = some d.receivers) : False := Nat.lt_irrefl _ (ha.known s q _ hs hk)
    rcases getElem?_concat.mp hq with hq | ⟨rfl, rfl⟩ <;>
      rcases getElem?_concat.mp hq' with hq' | ⟨rfl, rfl⟩
    · exact ha.distinct r r' q q' k hq hq' hk hk'
    · cases hk'
      exact (hold r q hq hk).elim
    · cases hk
      exact (hold r' q' hq' hk').elim
    · rfl
  · intro r q k hq hk
    rcases getElem?_concat.mp hq with hq | ⟨-, rfl⟩
    · exact Nat.lt_succ_of_lt (ha.known r q k hq hk)
    · cases hk
      exact Nat.lt_succ_self _
  · intro k hk
    obtain ⟨h₁, h₂⟩ := ha.silent k (Nat.le_of_succ_le hk)
    exact ⟨by rw [acts_append, h₁, hds, List.append_nil], by simp [h₂]⟩

/-- The end of a request that has its turn: it has made its last report, or it is lost. -/
theorem Accounts.finish (ha : d.Accounts h) (hd : d.Sound) {r : Nat} {b : Bool}
    (hc : d.current = some (r, b)) :
    Accounts { d with
      hub := (d.hub.finish r).1
      current := none
      now := false
      ready := woken d.ready (d.hub.finish r).2 }
      (h ++ if b then [] else (d.hub.requests[r]?.bind (·.receiver)).toList.map (.lost · true)) := by
  obtain ⟨q, hq⟩ : ∃ q, d.hub.requests[r]? = some q :=
    ⟨_, List.getElem?_eq_getElem (hd.current r b hc)⟩
  obtain ⟨port, hp, hplace, -⟩ := hd.place r q hq
  have hfinish := Hub.finish_eq hq hp
  refine @Accounts.local d _ h _ ha r q { q with phase := .finished } port (port.quit r) hq hp rfl rfl
    (Port.quit_chunk ..) (Port.quit_closed ..) (by rw [hfinish]) rfl ?_ (by simp) ?_ ?_ ?_
  · intro s b' hs h
    cases hc.symm.trans h
    exact hs rfl
  · intro k hk
    rw [hq]
    cases b with
    | true => simp [acts_nil]
    | false =>
      refine ⟨acts_lost _, ?_⟩
      cases hr : q.receiver <;> simp_all [Ne.symm]
  · intro k p job
    cases b <;> simp
  · intro k job f hk hj ht hfate hlost _
    rw [hq]
    cases b with
    | true =>
      refine ⟨f, by simpa using ht, ?_, by simpa using hlost, by simp⟩
      cases f with
      | running => exact absurd hc hfate.2.2
      | _ => exact .inl rfl
    | false =>
      have hph : q.phase = .holding false := by
        cases hplace <;> simp_all
      cases f with
      | running job' =>
        refine ⟨.lost, ?_, .inl rfl, by simp [hk], by simp⟩
        simpa [hk, acts, Deed.act?] using ht.lost
      | ended => exact absurd hfate (by simp [Fated, hph, hc])
      | lost => exact absurd hfate (by simp [Fated, hph, hc])

theorem Accounts.move (hd : d.Sound) (ha : d.Accounts h) (m : d.Move ds d') :
    d'.Accounts (h ++ ds) := by
  cases m with
  | quiet | feed =>
    exact ha.still (by simp [acts]) (by simp) (.of_ports rfl) (fun _ _ => id) (fun _ _ => .inl)
      (fun _ => .rfl) rfl
  | opens e =>
    refine ha.still (by simp [acts, Deed.act?]) (by simp) (fun p port hp => ?_) (fun _ _ => id)
      (fun _ _ => .inl) (fun _ => .rfl) rfl
    exact ⟨port, getElem?_concat.mpr (.inl hp), rfl, id⟩
  | refuse hj hp hc => exact ha.refuse hj hp hc
  | ask hj hc => exact ha.ask hd hj hc
  | @close p hn =>
    refine ha.still (by simp [acts]) (by simp) ?_ ?_ ?_ (fun _ => .rfl) rfl
    · intro p' port hp
      obtain ⟨port', hp', hs⟩ := close_spares hp p
      exact ⟨port', hp', hs.1, hs.2.1⟩
    · intro r q hq
      rcases close_requests d.hub p with h | h
      · rwa [h]
      · rw [h]
        exact getElem?_concat.mpr (.inl hq)
    · intro r q hq
      rcases close_requests d.hub p with h | h
      · exact .inl (h ▸ hq)
      · rw [h] at hq
        exact (getElem?_concat.mp hq).imp_right fun h => by rw [← h.2]
  | serve hs hq hp hf hv hl => exact ha.serve hd hs hq hp hf hv hl
  | skip hs h =>
    refine ha.still (by simp [acts]) (by simp) (.of_ports rfl) (fun _ _ => id) (fun _ _ => .inl) ?_ rfl
    intro r
    refine iff_of_false (by simp) fun hcur => ?_
    cases hs <;> simp_all
  | finish hc => simpa using ha.finish hd hc
  | unwind hc hn => simpa [hn] using ha.finish hd hc

end Desk

end Conduit.Pipe
