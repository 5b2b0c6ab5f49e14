import Conduit.Proofs.Pipe.Order

/-!
What the device of a port moved is what the requests on the port moved, one request after the other
in the order of their issue.
-/

namespace Conduit.Pipe

open Dispatch

theorem mem_issued {p k : Nat} {h : List Deed} : k ∈ issued p h ↔ ∃ job, .asked k p job ∈ h := by
  simp only [issued, List.mem_filterMap]
  constructor
  · rintro ⟨d, hd, he⟩
    cases d <;> simp only [Deed.issue?, Option.ite_none_right_eq_some, Option.some.injEq,
      reduceCtorEq] at he
    obtain ⟨rfl, rfl⟩ := he
    exact ⟨_, hd⟩
  · rintro ⟨job, hd⟩
    exact ⟨_, hd, by simp [Deed.issue?]⟩

theorem moved_of_acts {k : Nat} {h : List Deed} (ha : acts k h = []) : moved k h = [] := by
  simp [moved, ha]

/-- Bytes that one of several receivers moves last are moved after all others. -/
theorem flatMap_last {l : List Nat} (hl : l.Pairwise (· < ·)) {k : Nat} (hk : k ∈ l)
    {f g : Nat → Bytes} {u : Bytes} (hg : ∀ j, g j = if k = j then u else [])
    (hf : u ≠ [] → ∀ j ∈ l, k < j → f j = []) :
    l.flatMap (fun j => f j ++ g j) = l.flatMap f ++ u := by
  induction l with
  | nil => cases hk
  | cons i l ih =>
    obtain ⟨hi, hl⟩ := List.pairwise_cons.mp hl
    rw [List.flatMap_cons, List.flatMap_cons]
    rcases List.mem_cons.mp hk with rfl | hk
    · have hrest : l.flatMap (fun j => f j ++ g j) = l.flatMap f := by
        rw [List.flatMap_def, List.flatMap_def]
        congr 1
        refine List.map_congr_left fun j hj => ?_
        rw [hg, if_neg (Nat.ne_of_lt (hi j hj)), List.append_nil]
      rw [hrest, hg, if_pos rfl]
      by_cases hu : u = []
      · simp [hu]
      · have hnil : l.flatMap f = [] :=
          List.flatMap_eq_nil_iff.mpr fun j hj => hf hu j (List.mem_cons_of_mem _ hj) (hi j hj)
        simp [hnil]
    · rw [hg i, if_neg (Nat.ne_of_gt (hi k hk)), List.append_nil,
        ih hl hk fun hu j hj => hf hu j (List.mem_cons_of_mem i hj), List.append_assoc]

namespace Desk

variable {d d' : Desk} {h ds : List Deed} {r s : Nat} {q q' : Request} {port port' : Port}

/-- Receivers follow the order in which requests were issued, and what the device of a port moved is
what the requests on the port moved. -/
structure Carried (d : Desk) (h : List Deed) : Prop where
  named : ∀ (r : Nat) (q : Request), d.hub.requests[r]? = some q → q.receiver = none →
    q.job = .release
  rising : ∀ (r s : Nat) (q q' : Request) (j k : Nat), r < s → d.hub.requests[r]? = some q →
    d.hub.requests[s]? = some q' → q.receiver = some j → q'.receiver = some k → j < k
  listed : ∀ (r : Nat) (q : Request) (k : Nat), d.hub.requests[r]? = some q →
    q.receiver = some k → k ∈ issued q.port h
  issued : ∀ p, (issued p h).Pairwise (· < ·)
  carried : ∀ p, (Pipe.issued p h).flatMap (moved · h) = transferred p h

/-- The requests of a receiver are issued on one port. -/
theorem Accounts.port_eq (ha : d.Accounts h) (hq : d.hub.requests[r]? = some q) {k p : Nat}
    (hk : q.receiver = some k) (hm : k ∈ issued p h) : q.port = p := by
  obtain ⟨job, hm⟩ := mem_issued.mp hm
  obtain ⟨-, -, hacc⟩ := ha.asked k p job hm
  cases hacc with
  | refused _ _ hno => exact absurd hk (hno r q hq)
  | @request r₁ q₁ _ _ hq₁ hk₁ hqp =>
    obtain rfl := ha.distinct r₁ r q₁ q k hq₁ hq hk₁ hk
    obtain rfl : q = q₁ := by simpa [hq] using hq₁
    exact hqp

/-- While a request holds an open port, no later one has moved anything. -/
theorem Carried.moved_nil (hc : d.Carried h) (ha : d.Accounts h) (ho : d.Ordered) (hd : d.Sound)
    (hq : d.hub.requests[r]? = some q) (hp : d.hub.ports[q.port]? = some port)
    (hopen : port.closed = false) {w : Bool} (hph : q.phase = .holding w) {k : Nat}
    (hk : q.receiver = some k) {j : Nat} (hj : j ∈ Pipe.issued q.port h) (hkj : k < j) :
    moved j h = [] := by
  obtain ⟨job, hm⟩ := mem_issued.mp hj
  obtain ⟨-, -, hacc⟩ := ha.asked j q.port job hm
  cases hacc with
  | refused _ _ _ hacts => simp [moved, hacts, Act.moved]
  | @request s q₁ port₁ f hq₁ hj₁ hqp hp₁ _ _ _ hnone =>
    have hrs : r < s := by
      rcases Nat.lt_trichotomy r s with hrs | rfl | hsr
      · exact hrs
      · obtain rfl : q = q₁ := by simpa [hq] using hq₁
        rw [hk, Option.some.injEq] at hj₁
        omega
      · have := hc.rising s r q₁ q j k hsr hq₁ hq hj₁ hk
        omega
    obtain rfl : port = port₁ := by simpa [hp] using hp₁
    obtain ⟨port₂, hp₂, hplace₁, -⟩ := hd.place s q₁ hq₁
    obtain rfl : port = port₂ := by simpa [hqp, hp] using hp₂
    obtain ⟨port₃, hp₃, hplace, -⟩ := hd.place r q hq
    obtain rfl : port = port₃ := by simpa [hp] using hp₃
    have hstage := ho.stages r s q q₁ port hrs hq hq₁ hqp hp hopen
    have hturn : d.current ≠ some (s, true) ∨ q₁.phase = .holding false := by
      cases hplace₁ <;> simp_all
    have hholder := hplace.holder hph
    cases hph₁ : q₁.phase with
    | fresh => exact moved_of_acts (hnone (.inl hph₁) (hturn.resolve_right (by simp [hph₁])))
    | queued => exact moved_of_acts (hnone (.inr hph₁) (hturn.resolve_right (by simp [hph₁])))
    | holding w₁ =>
      have := (hplace₁.holder hph₁).symm.trans hholder
      simp only [Option.some.injEq] at this
      omega
    | finished => simp [hph, hph₁, Phase.stage] at hstage

/-- Nothing is issued or moved, and new requests have no receiver. -/
theorem Carried.still (hc : d.Carried h) (hissued : ∀ p, Pipe.issued p ds = [])
    (hmoved : ∀ k, moved k ds = []) (htransferred : ∀ p, transferred p ds = [])
    (hnew : ∀ (r : Nat) (q : Request), d'.hub.requests[r]? = some q →
      d.hub.requests[r]? = some q ∨ q.receiver = none ∧ q.job = .release) :
    d'.Carried (h ++ ds) := by
  have hold {r k : Nat} {q : Request} (hq : d'.hub.requests[r]? = some q)
      (hk : q.receiver = some k) : d.hub.requests[r]? = some q :=
    (hnew r q hq).resolve_right (by simp [hk])
  refine ⟨?_, ?_, ?_, ?_, ?_⟩
  · intro r q hq hk
    rcases hnew r q hq with hq | ⟨-, hj⟩
    · exact hc.named r q hq hk
    · exact hj
  · intro r s q q' j k hrs hq hq' hj hk
    exact hc.rising r s q q' j k hrs (hold hq hj) (hold hq' hk) hj hk
  · intro r q k hq hk
    rw [issued_append]
    exact List.mem_append_left _ (hc.listed r q k (hold hq hk) hk)
  · intro p
    rw [issued_append, hissued, List.append_nil]
    exact hc.issued p
  · intro p
    simp only [issued_append, hissued, moved_append, hmoved, transferred_append, htransferred,
      List.append_nil]
    exact hc.carried p

/-- A request is issued, whether it is refused or not. -/
theorem Carried.issue (hc : d.Carried h) (ha : d.Accounts h) (p : Nat)
    (hissued : ∀ p', Pipe.issued p' ds = if p' = p then [d.receivers] else [])
    (hmoved : ∀ k, moved k ds = []) (htransferred : ∀ p, transferred p ds = [])
    (hnew : ∀ (r : Nat) (q : Request), d'.hub.requests[r]? = some q →
      d.hub.requests[r]? = some q ∨
        r = d.hub.requests.length ∧ q.receiver = some d.receivers ∧ q.port = p) :
    d'.Carried (h ++ ds) := by
  have hlt (p' k : Nat) (hk : k ∈ Pipe.issued p' h) : k < d.receivers := by
    obtain ⟨job, hm⟩ := mem_issued.mp hk
    exact (ha.asked k p' job hm).1
  refine ⟨?_, ?_, ?_, ?_, ?_⟩
  · intro r q hq hk
    rcases hnew r q hq with hq | ⟨-, hk', -⟩
    · exact hc.named r q hq hk
    · simp [hk] at hk'
  · intro r s q q' j k hrs hq hq' hj hk
    rcases hnew r q hq with hq | ⟨rfl, -⟩ <;> rcases hnew s q' hq' with hq' | ⟨rfl, hk', -⟩
    · exact hc.rising r s q q' j k hrs hq hq' hj hk
    · obtain rfl : k = d.receivers := Option.some.inj (hk.symm.trans hk')
      exact ha.known r q j hq hj
    · have := (List.getElem?_eq_some_iff.mp hq').1
      omega
    · omega
  · intro r q k hq hk
    rw [issued_append, List.mem_append]
    rcases hnew r q hq with hq | ⟨rfl, hk', rfl⟩
    · exact .inl (hc.listed r q k hq hk)
    · obtain rfl : k = d.receivers := Option.some.inj (hk.symm.trans hk')
      simp [hissued]
  · intro p'
    rw [issued_append, hissued]
    refine List.pairwise_append.mpr ⟨hc.issued p', by split <;> simp, fun j hj k hk => ?_⟩
    split at hk
    · rw [List.mem_singleton.mp hk]
      exact hlt p' j hj
    · cases hk
  · intro p'
    have hnone : moved d.receivers h = [] := moved_of_acts (ha.silent _ (Nat.le_refl _)).1
    simp only [issued_append, hissued, moved_append, hmoved, transferred_append, htransferred,
      List.append_nil, List.flatMap_append]
    rw [hc.carried p']
    split <;> simp [hnone]

/-- One request moves bytes that its device moves, and no later request has moved any. -/
theorem Carried.local (hc : d.Carried h) (ha : d.Accounts h) (hq : d.hub.requests[r]? = some q)
    (hreq : d'.hub.requests = d.hub.requests.set r q') (hport : q'.port = q.port)
    (hrec : q'.receiver = q.receiver) (hjob : q.job = .release → q'.job = .release)
    (hissued : ∀ p, Pipe.issued p ds = []) {u : Bytes}
    (hmoved : ∀ j, moved j ds = if q.receiver = some j then u else [])
    (htransferred : ∀ p, transferred p ds = if q.port = p then u else [])
    (hlast : u ≠ [] → ∃ k, q.receiver = some k ∧
      ∀ j ∈ Pipe.issued q.port h, k < j → moved j h = []) : d'.Carried (h ++ ds) := by
  obtain ⟨hr', -⟩ := List.getElem?_eq_some_iff.mp hq
  have hback (s : Nat) (q₁ : Request) (hs : d'.hub.requests[s]? = some q₁) :
      ∃ q₂, d.hub.requests[s]? = some q₂ ∧ q₂.receiver = q₁.receiver ∧ q₂.port = q₁.port ∧
        (q₂.job = .release → q₁.job = .release) := by
    rw [hreq, List.getElem?_set] at hs
    by_cases hsr : r = s
    · subst hsr
      obtain rfl : q' = q₁ := by simpa [hr'] using hs
      exact ⟨q, hq, hrec.symm, hport.symm, hjob⟩
    · rw [if_neg hsr] at hs
      exact ⟨q₁, hs, rfl, rfl, id⟩
  refine ⟨?_, ?_, ?_, ?_, ?_⟩
  · intro s q₁ hs hk
    obtain ⟨q₂, h₂, e₂, -, hj⟩ := hback s q₁ hs
    exact hj (hc.named s q₂ h₂ (e₂.trans hk))
  · intro s s' q₁ q₁' j k hss hs hs' hj hk
    obtain ⟨q₂, h₂, e₂, -⟩ := hback s q₁ hs
    obtain ⟨q₂', h₂', e₂', -⟩ := hback s' q₁' hs'
    exact hc.rising s s' q₂ q₂' j k hss h₂ h₂' (e₂.trans hj) (e₂'.trans hk)
  · intro s q₁ k hs hk
    obtain ⟨q₂, h₂, e₂, hp₂, -⟩ := hback s q₁ hs
    rw [issued_append, ← hp₂]
    exact List.mem_append_left _ (hc.listed s q₂ k h₂ (e₂.trans hk))
  · intro p
    rw [issued_append, hissued, List.append_nil]
    exact hc.issued p
  · intro p
    simp only [issued_append, hissued, moved_append, transferred_append, List.append_nil]
    rw [htransferred, ← hc.carried p]
    -- Another port and another request move nothing.
    have hnil (hu : (if q.port = p then u else []) = [])
        (hno : ∀ j ∈ Pipe.issued p h, moved j ds = []) :
        (Pipe.issued p h).flatMap (fun j => moved j h ++ moved j ds) =
          (Pipe.issued p h).flatMap (moved · h) ++ if q.port = p then u else [] := by
      rw [hu, List.append_nil, List.flatMap_def, List.flatMap_def]
      congr 1
      exact List.map_congr_left fun j hj => by rw [hno j hj, List.append_nil]
    by_cases hu : u = []
    · exact hnil (by simp [hu]) fun j _ => by simp [hmoved, hu]
    obtain ⟨k, hk, hlater⟩ := hlast hu
    by_cases hp : q.port = p
    · subst hp
      rw [if_pos rfl]
      refine flatMap_last (hc.issued _) (hc.listed r q k hq hk) (fun j => ?_) fun _ => hlater
      simp [hmoved, hk]
    · refine hnil (if_neg hp) fun j hj => ?_
      rw [hmoved, if_neg]
      exact fun hkj => hp (ha.port_eq hq hkj hj)

end Desk

theorem moved_uses (o : Option Nat) (us : List Use) (j : Nat) :
    moved j (us.map (.used o)) = if o = some j then us.flatMap (·.moved) else [] := by
  cases o with
  | none => simp [moved, acts_uses_none]
  | some k =>
    rw [moved, acts_uses]
    by_cases hk : k = j
    · simp [hk, List.flatMap_map, Act.moved]
    · simp [hk]

theorem transferred_uses (o : Option Nat) {us : List Use} {p : Nat} (hus : ∀ u ∈ us, u.port = p)
    (p' : Nat) : transferred p' (us.map (.used o)) = if p = p' then us.flatMap (·.moved) else [] := by
  have hof : usesOf p' (us.map (.used o)) = if p = p' then us else [] := by
    induction us with
    | nil => simp [usesOf]
    | cons u us ih =>
      have hu := hus u List.mem_cons_self
      have ih := ih fun v hv => hus v (List.mem_cons_of_mem u hv)
      simp only [usesOf, List.map_cons, List.filterMap_cons, Deed.use?, hu] at ih ⊢
      split <;> simp_all
  rw [transferred, hof]
  split <;> rfl

/-- What a step leads to moves nothing and issues nothing. -/
theorem Leads.moves_nothing {r : Nat} {o : Option Nat} {adv : Advance}
    {current : Option (Nat × Bool)} {now : Bool} {ds : List Deed} (hl : Leads r o adv current now ds) :
    (∀ k, moved k ds = []) ∧ (∀ p, transferred p ds = []) ∧ ∀ p, issued p ds = [] := by
  cases hl with
  | idle | again => simp [moved, acts, transferred, usesOf, issued]
  | crash => cases o <;> simp [moved, acts, Deed.act?, transferred, usesOf, Deed.use?, issued,
      Deed.issue?]
  | @report j e =>
    refine ⟨fun k => ?_, by simp [transferred, usesOf, Deed.use?], by simp [issued, Deed.issue?]⟩
    rw [moved, acts_told]
    split <;> simp [Act.moved]

namespace Desk

variable {d d' : Desk} {h ds : List Deed}

theorem Carried.serve (hc : d.Carried h) (ha : d.Accounts h) (ho : d.Ordered) (hd : d.Sound)
    {r : Nat} {q q' : Request} {port port' : Port} (hq : d.hub.requests[r]? = some q)
    (hp : d.hub.ports[q.port]? = some port) {us : List Use} {wakes : List Nat} {adv : Advance}
    (hv : Served r q port us q' port' wakes adv) {current : Option (Nat × Bool)} {now : Bool}
    (hl : Leads r q.receiver adv current now ds) {d' : Desk}
    (hh : d'.hub = d.hub.put r q' port') :
    d'.Carried (h ++ (us.map (.used q.receiver) ++ ds)) := by
  obtain ⟨hmoved, htransferred, hissued⟩ := hl.moves_nothing
  have hus : ∀ u ∈ us, u.port = q.port := by
    rcases hv.uses with rfl | ⟨u, w, rfl, hu, -⟩
    · simp
    · simpa using hu
  refine hc.local ha hq (by rw [hh]; rfl) hv.port_eq hv.receiver_eq hv.release_iff.mpr
    (u := us.flatMap (·.moved)) ?_ ?_ ?_ ?_
  · intro p
    rw [issued_append, hissued, List.append_nil]
    simp [Pipe.issued, List.filterMap_map, Deed.issue?]
  · intro j
    rw [moved_append, hmoved, List.append_nil, moved_uses]
  · intro p
    rw [transferred_append, htransferred, List.append_nil, transferred_uses _ hus]
  · intro hu
    rcases hv.uses with rfl | ⟨u, w, rfl, -, hph, hopen, hj⟩
    · exact absurd rfl hu
    · cases hk : q.receiver with
      | none => exact absurd (hc.named r q hq hk) hj
      | some k =>
        exact ⟨k, rfl, fun j hm hkj => hc.moved_nil ha ho hd hq hp hopen hph hk hm hkj⟩

theorem Carried.finish (hc : d.Carried h) (ha : d.Accounts h) {r : Nat} {d' : Desk}
    (hh : d'.hub = (d.hub.finish r).1) (o : Option Nat) :
    d'.Carried (h ++ o.toList.map (.lost · true)) := by
  have hmoved (k : Nat) : moved k (o.toList.map (.lost · true)) = [] := moved_of_acts (acts_lost o)
  have htransferred (p : Nat) : transferred p (o.toList.map (.lost · true)) = [] := by
    cases o <;> simp [transferred, usesOf, Deed.use?]
  have hissued (p : Nat) : Pipe.issued p (o.toList.map (.lost · true)) = [] := by
    cases o <;> simp [Pipe.issued, Deed.issue?]
  have hreq := Hub.finish_requests d.hub r
  cases hq : d.hub.requests[r]? with
  | none =>
    refine hc.still hissued hmoved htransferred fun s q hs => .inl ?_
    rwa [hh, hreq, List.modify_eq_self (List.getElem?_eq_none_iff.mp hq)] at hs
  | some q =>
    obtain ⟨hr', he⟩ := List.getElem?_eq_some_iff.mp hq
    have hset : d'.hub.requests = d.hub.requests.set r { q with phase := .finished } := by
      rw [hh, hreq, List.modify_eq_set, hq]
      rfl
    exact hc.local ha hq hset rfl rfl id hissued (u := []) (by simp [hmoved])
      (by simp [htransferred]) (by simp)

/-- Every move keeps what is carried. -/
theorem Carried.move (hc : d.Carried h) (ha : d.Accounts h) (ho : d.Ordered) (hd : d.Sound)
    (m : d.Move ds d') : d'.Carried (h ++ ds) := by
  cases m with
  | quiet | feed | skip =>
    exact hc.still (fun _ => rfl) (fun _ => rfl) (fun _ => rfl) fun _ _ => .inl
  | opens => exact hc.still (fun _ => rfl) (fun _ => rfl) (fun _ => rfl) fun _ _ => .inl
  | @close p =>
    refine hc.still (fun _ => rfl) (fun _ => rfl) (fun _ => rfl) fun r q hq => ?_
    rcases close_requests d.hub p with he | he
    · exact .inl (he ▸ hq)
    · rw [he] at hq
      refine (getElem?_concat.mp hq).imp_right ?_
      rintro ⟨-, rfl⟩
      exact ⟨rfl, rfl⟩
  | @refuse p job =>
    refine hc.issue ha p (fun p' => ?_) (fun k => ?_) (fun p' => ?_) fun _ _ => .inl
    · by_cases hp : p = p' <;> simp [Pipe.issued, Deed.issue?, hp, eq_comm]
    · by_cases hk : d.receivers = k <;> simp [moved, acts, Deed.act?, hk, Act.moved]
    · simp [transferred, usesOf, Deed.use?]
  | @ask p job =>
    refine hc.issue ha p (fun p' => ?_) (fun k => rfl) (fun p' => rfl) fun r q hq => ?_
    · by_cases hp : p = p' <;> simp [Pipe.issued, Deed.issue?, hp, eq_comm]
    · refine (getElem?_concat.mp hq).imp_right ?_
      rintro ⟨rfl, rfl⟩
      exact ⟨rfl, rfl, rfl⟩
  | serve _ hq hp _ hv hl => exact hc.serve ha ho hd hq hp hv hl rfl
  | @finish r => exact hc.finish ha (r := r) rfl none
  | @unwind r => exact hc.finish ha (r := r) rfl _

end Desk

/-- All that is known of a desk after what was done. -/
structure Desk.Ledger (d : Desk) (h : List Deed) : Prop where
  accounts : d.Accounts h
  ordered : d.Ordered
  carried : d.Carried h

theorem Desk.Ledger.move {d d' : Desk} {h ds : List Deed} (hl : d.Ledger h) (hd : d.Sound)
    (m : d.Move ds d') : d'.Ledger (h ++ ds) :=
  ⟨hl.accounts.move hd m, hl.ordered.move hd m, hl.carried.move hl.accounts hl.ordered hd m⟩

theorem Desk.Moves.ledger {d d' : Desk} {h ds : List Deed} (m : d.Moves ds d') (hd : d.Sound)
    (hl : d.Ledger h) : d'.Ledger (h ++ ds) := by
  induction m with
  | none => simpa using hl
  | more ms m ih =>
    rw [← List.append_assoc]
    exact ih.move (ms.sound hd) m

/-- The ledger of the desk of pipes is right at every point of an execution. -/
theorem ledger (x : Execution start) :
    Known x.machine.config (history x) ∧ (desk x.machine.config).Ledger (history x) := by
  have := run_induction x.run known_start (fun h d => d.Ledger h) ?_
    fun h d ds d' hd _ hl m => hl.move hd m
  · simpa [history] using this
  refine ⟨⟨by simp, ?_, ?_, ?_⟩, .empty _ rfl rfl rfl, ⟨?_, ?_, ?_, ?_, ?_⟩⟩
  all_goals simp [desk, Machine.config, Machine.bare, start, acts, issued, transferred, usesOf]

/-- A request that was issued on an end has a tale there; while it goes on, it is not over. -/
theorem tale_of_asked (x : Execution start) {k p : Nat} {job : Job} {e : End}
    (hp : (opened (history x))[p]? = some e) (h : .asked k p job ∈ history x) :
    job.Initial ∧ e.Takes job ∧ ∃ f,
      Tale e.chunk p (x.machine.state.hub.isClosed p = true) job (acts k (history x)) f ∧
      (f = .lost ↔ Gone k (history x)) ∧ ∀ job', f = .running job' →
        ∃ (r : Nat) (q : Request), x.machine.state.hub.requests[r]? = some q ∧ q.port = p ∧
          q.phase ≠ .finished := by
  obtain ⟨hk, hl⟩ := ledger x
  obtain ⟨-, hj, hacc⟩ := hl.accounts.asked k p job h
  obtain ⟨e', he', ht⟩ := hk.fitting.asked k p job h
  obtain rfl : e = e' := by simpa [hp] using he'
  obtain ⟨port, f, hport, htale, hlost, hgoes⟩ := hacc.tale
  have hport : x.machine.state.hub.ports[p]? = some port := by simpa [desk] using hport
  have hchunk : port.chunk = e.chunk := by
    have := congrArg (·[p]?) hk.opened
    simpa [desk, hport, hp] using this
  refine ⟨hj, ht, f, ?_, hlost, by simpa [desk] using hgoes⟩
  rw [← hchunk]
  simpa [Hub.isClosed, hport] using htale

end Conduit.Pipe
