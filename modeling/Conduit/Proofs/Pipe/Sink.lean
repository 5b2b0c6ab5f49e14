import Conduit.Proofs.Pipe.Carried

/-!
What a sink promises to those who write to it. Every report of a write tells exactly the bytes that
the device has not accepted, fewer each time, and the last one comes with the last byte, with a
fault, or with the end of the sink. The device accepts the bytes of one request after the other.
-/

namespace Conduit.Pipe

open Dispatch

/-- What a write of `data` on a port with the limit `chunk` has done. -/
structure WriteContract (chunk p : Nat) (data : Bytes) (closed : Prop) (a : List Act) : Prop where
  /-- At every report, what has been accepted and what the report says is left are the data. -/
  account : ∀ a₁ e a₂, a = a₁ ++ .tell e :: a₂ →
    ∃ e', e = .write e' ∧ a₁.flatMap (·.moved) ++ e'.remaining = data
  accepted : ∃ rest, a.flatMap (·.moved) ++ rest = data
  /-- Each report without a fault tells fewer bytes than the one before. -/
  falls : (data.length :: a.filterMap (·.left?)).Pairwise (· > ·)
  offers : ∀ u, .use u ∈ a →
    ∃ offered answer, u = .write p offered answer ∧ offered.length ≤ chunk
  done : ∀ e, .tell (.write e) ∈ a → (e.done = true ∧ e.fault = none ↔ e.remaining = [])
  complete : (∃ e, .tell (.write e) ∈ a ∧ e.done = true ∧ e.fault = none) ↔
    a.flatMap (·.moved) = data
  /-- Nothing follows a report that is `done`. -/
  last : ∀ a₁ e a₂, a = a₁ ++ .tell (.write e) :: a₂ → e.done = true → a₂ = []
  /-- Why there is a fault. -/
  cause : ∀ e f, .tell (.write e) ∈ a → e.fault = some f → e.done = true ∧
    (closed ∧ f = .closed ∨
      (∃ offered, .use (.write p offered (.ready (.ok 0))) ∈ a) ∧
        f = .ofOs (.simple .writeZero) .write ∨
      ∃ offered err, err.kind ≠ .interrupted ∧
        .use (.write p offered (.ready (.error err))) ∈ a ∧ f = .ofOs err .write)

section Contract

variable {chunk p : Nat} {data rest : Bytes} {closed : Prop} {a b : List Act} {us : List Use}
  {e : WriteEvent}

namespace WriteEnd

theorem done (h : WriteEnd chunk p rest closed us e) : e.done = true := by
  cases h <;> rfl

theorem account (h : WriteEnd chunk p rest closed us e) :
    us.flatMap (·.moved) ++ e.remaining = rest := by
  cases h with
  | all hk => simpa [Use.moved, WriteEvent.progress] using hk
  | _ => rfl

theorem offers (h : WriteEnd chunk p rest closed us e) {u : Use} (hu : u ∈ us) :
    ∃ offered answer, u = .write p offered answer ∧ offered.length ≤ chunk := by
  cases h with
  | closed => cases hu
  | all _ hc => exact ⟨_, _, List.mem_singleton.mp hu, hc⟩
  | zero hc => exact ⟨_, _, List.mem_singleton.mp hu, hc⟩
  | failed _ hc => exact ⟨_, _, List.mem_singleton.mp hu, hc⟩

theorem fault_iff (h : WriteEnd chunk p rest closed us e) (hr : rest ≠ []) :
    e.fault = none ↔ e.remaining = [] := by
  cases h with
  | all => exact iff_of_true rfl rfl
  | _ => exact iff_of_false (by simp [WriteEvent.failed]) hr

theorem cause (h : WriteEnd chunk p rest closed us e) {f : Fault} (hf : e.fault = some f) :
    closed ∧ f = .closed ∨
      (∃ offered, .write p offered (.ready (.ok 0)) ∈ us) ∧
        f = .ofOs (.simple .writeZero) .write ∨
      ∃ offered err, err.kind ≠ .interrupted ∧ .write p offered (.ready (.error err)) ∈ us ∧
        f = .ofOs err .write := by
  cases h with
  | all => cases hf
  | zero =>
    cases hf
    exact .inr (.inl ⟨⟨_, List.mem_singleton_self _⟩, rfl⟩)
  | failed he =>
    cases hf
    exact .inr (.inr ⟨_, _, he, List.mem_singleton_self _, rfl⟩)
  | closed hc =>
    cases hf
    exact .inl ⟨hc, rfl⟩

end WriteEnd

/-- A report of a write that goes on is one of progress. -/
theorem Writing.progress_of_tell (h : Writing chunk p data a rest) {e : Event}
    (he : .tell e ∈ a) : ∃ rest', e = .write (.progress rest') ∧ rest' ≠ [] := by
  obtain ⟨a₁, a₂, ha⟩ := List.append_of_mem he
  obtain ⟨rest', he, hne, -⟩ := h.told a₁ e a₂ ha
  exact ⟨rest', he, hne⟩

theorem Writing.not_done (h : Writing chunk p data a rest) {e : WriteEvent}
    (he : .tell (.write e) ∈ a) : e.done = false ∧ e.fault = none ∧ e.remaining ≠ [] := by
  obtain ⟨rest', he, hne⟩ := h.progress_of_tell he
  cases he
  exact ⟨by simpa [WriteEvent.progress] using hne, rfl, hne⟩

/-- A write that goes on keeps the contract. -/
theorem Writing.contract (h : Writing chunk p data a rest) :
    WriteContract chunk p data closed a := by
  refine ⟨?_, ⟨rest, h.account⟩, h.falls, h.offers, ?_, ?_, ?_, ?_⟩
  · intro a₁ e a₂ ha
    obtain ⟨rest', he, -, hacc⟩ := h.told a₁ e a₂ ha
    exact ⟨_, he, hacc⟩
  · intro e he
    obtain ⟨hd, -, hr⟩ := h.not_done he
    exact iff_of_false (by simp [hd]) hr
  · refine iff_of_false ?_ ?_
    · rintro ⟨e, he, hd, -⟩
      simp [(h.not_done he).1] at hd
    · intro hall
      have := h.account
      rw [← hall, List.append_right_eq_self] at this
      exact h.left this
  · intro a₁ e a₂ ha hd
    simp [(h.not_done (ha ▸ List.mem_append_right a₁ List.mem_cons_self)).1] at hd
  · intro e f he hf
    simp [(h.not_done he).2.1] at hf

/-- A write that has made its last report keeps the contract. -/
theorem WriteEnd.contract (h : Writing chunk p data b rest)
    (hc : WriteEnd chunk p rest closed us e) :
    WriteContract chunk p data closed (b ++ (us.map .use ++ [.tell (.write e)])) := by
  generalize ha : b ++ (us.map .use ++ [.tell (.write e)]) = a
  have hmoved : a.flatMap (·.moved) = b.flatMap (·.moved) ++ us.flatMap (·.moved) := by
    simp [← ha, List.flatMap_append, List.flatMap_map, Act.moved]
  have hacc : b.flatMap (·.moved) ++ us.flatMap (·.moved) ++ e.remaining = data := by
    rw [List.append_assoc, hc.account, h.account]
  have hsplit {a₁ a₂ : List Act} {e' : Event} (he : a = a₁ ++ .tell e' :: a₂) :
      a₁ = b ++ us.map .use ∧ e' = .write e ∧ a₂ = [] ∨ ∃ a₃, b = a₁ ++ .tell e' :: a₃ := by
    rw [← ha, ← List.append_assoc] at he
    rcases concat_eq_tell he with h₃ | ⟨a₃, h₃⟩
    · exact .inl h₃
    · exact .inr (append_eq_tell us h₃)
  have hmem {e' : WriteEvent} (he : .tell (.write e') ∈ a) : .tell (.write e') ∈ b ∨ e' = e := by
    simpa [← ha] using he
  refine ⟨?_, ⟨e.remaining, by rw [hmoved, hacc]⟩, ?_, ?_, ?_, ?_, ?_, ?_⟩
  · intro a₁ e' a₂ he
    rcases hsplit he with ⟨rfl, rfl, -⟩ | ⟨a₃, hb⟩
    · exact ⟨e, rfl, by simpa [List.flatMap_append, List.flatMap_map, Act.moved] using hacc⟩
    · obtain ⟨rest', he, -, hacc⟩ := h.told a₁ e' a₃ hb
      exact ⟨_, he, hacc⟩
  · have huses : us.filterMap (fun u => (Act.use u).left?) = [] := by simp [Act.left?]
    rw [← ha, List.filterMap_append, List.filterMap_append, List.filterMap_map,
      show (Act.left? ∘ Act.use) = fun u => (Act.use u).left? from rfl, huses, List.nil_append,
      ← List.cons_append, List.pairwise_append]
    refine ⟨h.falls, ?_, fun k hk j hj => ?_⟩
    · cases hl : (Act.tell (.write e)).left? <;> simp [hl]
    · have hf : e.fault = none ∧ e.remaining.length = j := by
        obtain ⟨done, remaining, _ | f⟩ := e <;> simp_all [Act.left?]
      rw [(hc.fault_iff h.left).mp hf.1, List.length_nil] at hf
      have := h.least k hk
      have := List.length_pos_iff.mpr h.left
      omega
  · intro u hu
    have hu : .use u ∈ b ∨ u ∈ us := by simpa [← ha] using hu
    exact hu.elim (h.offers u) hc.offers
  · intro e' he
    rcases hmem he with he | rfl
    · obtain ⟨hd, -, hr⟩ := h.not_done he
      exact iff_of_false (by simp [hd]) hr
    · simp [hc.done, hc.fault_iff h.left]
  · rw [hmoved]
    constructor
    · rintro ⟨e', he, hd, hf⟩
      rcases hmem he with he | rfl
      · simp [(h.not_done he).1] at hd
      · rw [(hc.fault_iff h.left).mp hf, List.append_nil] at hacc
        exact hacc
    · intro hall
      rw [hall, List.append_right_eq_self] at hacc
      exact ⟨e, by simp [← ha], hc.done, (hc.fault_iff h.left).mpr hacc⟩
  · intro a₁ e' a₂ he hd
    rcases hsplit he with ⟨-, -, h₂⟩ | ⟨a₃, hb⟩
    · exact h₂
    · simp [(h.not_done (hb ▸ List.mem_append_right a₁ List.mem_cons_self)).1] at hd
  · intro e' f he hf
    rcases hmem he with he | rfl
    · simp [(h.not_done he).2.1] at hf
    · refine ⟨hc.done, ?_⟩
      have huse {u : Use} (hu : u ∈ us) : .use u ∈ a := by simp [← ha, hu]
      rcases hc.cause hf with hcl | ⟨⟨offered, hu⟩, hf⟩ | ⟨offered, err, hk, hu, hf⟩
      · exact .inl hcl
      · exact .inr (.inl ⟨⟨offered, huse hu⟩, hf⟩)
      · exact .inr (.inr ⟨offered, err, hk, huse hu, hf⟩)

theorem WriteFate.contract {f : Fate} (h : WriteFate chunk p data closed a f) :
    WriteContract chunk p data closed a := by
  cases f with
  | running =>
    obtain ⟨rest, -, h⟩ := h
    exact h.contract
  | ended =>
    obtain ⟨b, us, e, rest, rfl, h, hc⟩ := h
    exact hc.contract h
  | lost =>
    obtain ⟨rest, h⟩ := h
    exact h.contract

end Contract

/-- A device accepts what the requests on its sink wrote, one request after the other in the order
in which they were issued. Every write keeps the contract, and a flush moves nothing. -/
theorem sink_contract (x : Execution start) {p : Nat} {device : Scripted} {limits : ChunkLimits}
    (hp : (opened (history x))[p]? = some (.sink device limits)) :
    (issued p (history x)).flatMap (moved · (history x)) = transferred p (history x) ∧
    ∀ k ∈ issued p (history x),
      (∃ data, data ≠ [] ∧ .asked k p (.write data) ∈ history x ∧
        WriteContract limits.write p data (x.machine.state.hub.isClosed p = true)
          (acts k (history x))) ∨
      .asked k p .flush ∈ history x ∧ moved k (history x) = [] := by
  refine ⟨(ledger x).2.carried.carried p, fun k hk => ?_⟩
  obtain ⟨job, hm⟩ := mem_issued.mp hk
  obtain ⟨-, ⟨data, rfl⟩, f, ht, -⟩ := tale_of_asked x hp hm
  by_cases hdata : data = []
  · subst hdata
    exact .inr ⟨hm, ht.flush.1⟩
  · have hjob : Job.ofData data = .write data := by simp [Job.ofData, hdata]
    rw [hjob] at hm ht
    exact .inl ⟨data, hdata, hm, (ht.write hdata).contract⟩

/-- Two writes to a device that accepts a byte, is interrupted, and then takes what it gets. -/
def twoWrites : Execution start :=
  (ExecutionBy.begin start).perform 12
    [.own (.sink "out" { items := [.accept 1, .fault (.simple .interrupted)], auto := 9 }
        (.withWrite default 2)),
      .own (.writeAll "out" "first" [1, 2, 3]), .own (.writeAll "out" "second" [4])]

set_option maxRecDepth 1000 in
theorem sink_contract_twoWrites :
    (issued 0 (history twoWrites)).flatMap (moved · (history twoWrites)) = [1, 2, 3, 4] ∧
    ∀ k ∈ issued 0 (history twoWrites),
      (∃ data, data ≠ [] ∧ .asked k 0 (.write data) ∈ history twoWrites ∧
        WriteContract 2 0 data (twoWrites.machine.state.hub.isClosed 0 = true)
          (acts k (history twoWrites))) ∨
      .asked k 0 .flush ∈ history twoWrites ∧ moved k (history twoWrites) = [] := by
  have hp : (opened (history twoWrites))[0]? = some (.sink
      { items := [.accept 1, .fault (.simple .interrupted)], auto := 9 } (.withWrite default 2)) := rfl
  have h := sink_contract twoWrites hp
  exact ⟨h.1.trans rfl, h.2⟩

end Conduit.Pipe
