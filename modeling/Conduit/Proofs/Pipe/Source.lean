import Conduit.Proofs.Pipe.Carried

/-!
What a source promises to those who read from it. All data that the reports bring, request by
request, is what the device handed out. A read of `n` bytes is told of chunks and at most one report
more; it gets no byte too many, and ends well with its last byte or with the stream.
-/

namespace Conduit.Pipe

open Dispatch

/-- The bytes that reports brought. -/
def received (a : List Act) : Bytes := (a.filterMap (·.event?)).flatMap (·.data)

theorem flatMap_data (a : List Act) : a.flatMap (·.data) = received a := by
  induction a with
  | nil => rfl
  | cons x a ih =>
    cases x with
    | use => simpa [received, Act.data, Act.event?] using ih
    | tell e => simpa [received, Act.data, Act.event?] using ih

/-- The device told this request the end of the stream. -/
def SawEnd (a : List Act) : Prop := ∃ u, .use u ∈ a ∧ u.IsEnd

/-- A report of a read that goes on. -/
def IsChunk (chunk : Nat) (e : Event) : Prop :=
  ∃ data, e = .read (.chunk data false) ∧ data ≠ [] ∧ data.length ≤ chunk

/-- What a read of `n` bytes from a port with the limit `chunk` has done. -/
structure ReadContract (chunk p n : Nat) (closed : Prop) (a : List Act) : Prop where
  /-- There are chunks, and then at most one report that is `done`. -/
  form : ∃ chunks last, a.filterMap (·.event?) = chunks ++ last ∧
    (∀ e ∈ chunks, IsChunk chunk e) ∧ last.length ≤ 1 ∧
    ∀ e ∈ last, ∃ e', e = .read e' ∧ e'.done = true ∧ e'.data.length ≤ chunk
  /-- The reports bring what the request took from the device. -/
  received : received a = a.flatMap (·.moved)
  bounded : 0 < n → (Pipe.received a).length ≤ n
  /-- It ends without a fault when all bytes have come or the stream has ended. -/
  complete : 0 < n → ((∃ e, .tell (.read e) ∈ a ∧ e.done = true ∧ e.fault = none) ↔
    (Pipe.received a).length = n ∨ SawEnd a)
  full : 0 < n → (Pipe.received a).length = n →
    ∃ data, data ≠ [] ∧ (a.filterMap (·.event?)).getLast? = some (.read (.chunk data true))
  ended : SawEnd a → (a.filterMap (·.event?)).getLast? = some (.read .ended)
  /-- Why a report is `done`. -/
  cause : ∀ e, .tell (.read e) ∈ a → e.done = true →
    0 < n ∧ (Pipe.received a).length = n ∧ e.fault = none ∨ SawEnd a ∧ e = .ended ∨
      closed ∧ e = .failed .closed ∨
      ∃ w err, err.kind ≠ .interrupted ∧ .use (.read p w (.ready (.error err))) ∈ a ∧
        e = .failed (.ofOs err .read)

section Contract

variable {chunk p n d : Nat} {closed : Prop} {a b : List Act}

theorem Reading.isChunk (h : Reading chunk n a d) {e : Event}
    (he : e ∈ a.filterMap (·.event?)) : IsChunk chunk e := by
  obtain ⟨x, hx, he⟩ := List.mem_filterMap.mp he
  cases x with
  | use => cases he
  | tell e' =>
    cases he
    exact h.chunks e hx

theorem Reading.not_done (h : Reading chunk n a d) {e : ReadEvent} (he : .tell (.read e) ∈ a) :
    e.done = false := by
  obtain ⟨data, hd, -⟩ := h.chunks _ he
  cases hd
  rfl

theorem Reading.length_received (h : Reading chunk n a d) : (received a).length = d := by
  rw [← flatMap_data, h.data, h.delivered]

theorem Reading.not_sawEnd (h : Reading chunk n a d) : ¬SawEnd a := by
  rintro ⟨u, hu, he⟩
  exact h.endless u hu he

/-- A read that goes on keeps the contract. -/
theorem Reading.contract (h : Reading chunk n a d) : ReadContract chunk p n closed a := by
  have hd := h.length_received
  refine ⟨⟨_, [], (List.append_nil _).symm, fun e => h.isChunk, by simp, by simp⟩, ?_, ?_, ?_, ?_,
    ?_, ?_⟩
  · rw [← flatMap_data, h.data]
  · intro hn
    have := h.short hn
    omega
  · intro hn
    refine iff_of_false ?_ ?_
    · rintro ⟨e, he, hdone, -⟩
      simp [h.not_done he] at hdone
    · have := h.short hn
      rintro (he | he)
      · omega
      · exact h.not_sawEnd he
  · intro hn he
    have := h.short hn
    omega
  · exact fun he => absurd he h.not_sawEnd
  · intro e he hdone
    simp [h.not_done he] at hdone

namespace ReadEnd

variable {us : List Use} {e : ReadEvent}

theorem done (h : ReadEnd chunk p n d closed us e) : e.done = true := by
  cases h <;> rfl

theorem data_le (h : ReadEnd chunk p n d closed us e) : e.data.length ≤ chunk := by
  cases h with
  | full _ hc => exact hc
  | _ => exact Nat.zero_le _

theorem moved (h : ReadEnd chunk p n d closed us e) : us.flatMap (·.moved) = e.data := by
  cases h with
  | full => exact List.append_nil _
  | _ => rfl

/-- The last report has data when it completes the read, and only then. -/
theorem data_iff (h : ReadEnd chunk p n d closed us e) (hd : 0 < n → d < n) :
    e.data ≠ [] ↔ 0 < n ∧ d + e.data.length = n := by
  cases h with
  | full h _ hn hd => exact iff_of_true h ⟨hn, hd⟩
  | _ =>
    refine iff_of_false (fun h => h rfl) ?_
    rintro ⟨hn, he⟩
    exact absurd he (Nat.ne_of_lt (hd hn))

theorem bounded (h : ReadEnd chunk p n d closed us e) (hd : 0 < n → d < n) (hn : 0 < n) :
    d + e.data.length ≤ n := by
  cases h with
  | full _ _ _ hd => exact Nat.le_of_eq hd
  | _ => exact Nat.le_of_lt (hd hn)

theorem chunk_of_data (h : ReadEnd chunk p n d closed us e) (hne : e.data ≠ []) :
    e = .chunk e.data true := by
  cases h with
  | full => rfl
  | _ => exact absurd rfl hne

theorem ended_of_isEnd (h : ReadEnd chunk p n d closed us e) (he : ∃ u ∈ us, u.IsEnd) :
    e = .ended := by
  cases h <;> simp_all [Use.IsEnd]

theorem fault_iff (h : ReadEnd chunk p n d closed us e) :
    e.fault = none ↔ e.data ≠ [] ∨ ∃ u ∈ us, u.IsEnd := by
  cases h with
  | full h => exact iff_of_true rfl (.inl h)
  | ended => exact iff_of_true rfl (.inr ⟨_, List.mem_singleton_self _, rfl⟩)
  | failed => simp [ReadEvent.failed, Use.IsEnd]
  | closed => simp [ReadEvent.failed]

theorem cause (h : ReadEnd chunk p n d closed us e) :
    e.data ≠ [] ∨ (∃ u ∈ us, u.IsEnd) ∨ closed ∧ e = .failed .closed ∨
      ∃ w err, err.kind ≠ .interrupted ∧ .read p w (.ready (.error err)) ∈ us ∧
        e = .failed (.ofOs err .read) := by
  cases h with
  | full h => exact .inl h
  | ended => exact .inr (.inl ⟨_, List.mem_singleton_self _, rfl⟩)
  | failed he => exact .inr (.inr (.inr ⟨_, _, he, List.mem_singleton_self _, rfl⟩))
  | closed h => exact .inr (.inr (.inl ⟨h, rfl⟩))

end ReadEnd

/-- A read that has made its last report keeps the contract. -/
theorem ReadEnd.contract {us : List Use} {e : ReadEvent} (h : Reading chunk n b d)
    (hc : ReadEnd chunk p n d closed us e) :
    ReadContract chunk p n closed (b ++ (us.map .use ++ [.tell (.read e)])) := by
  generalize ha : b ++ (us.map .use ++ [.tell (.read e)]) = a
  have hevents : a.filterMap (·.event?) = b.filterMap (·.event?) ++ [.read e] := by
    simp [← ha, List.filterMap_append, List.filterMap_map, Act.event?]
  have hreceived : received a = received b ++ e.data := by
    simp [received, hevents, Event.data]
  have hlength : (received a).length = d + e.data.length := by
    rw [hreceived, List.length_append, h.length_received]
  have hall (hn : 0 < n) : (received a).length = n ↔ e.data ≠ [] := by
    rw [hlength, hc.data_iff h.short]
    exact ⟨fun he => ⟨hn, he⟩, And.right⟩
  have hsaw : SawEnd a ↔ ∃ u ∈ us, u.IsEnd := by
    constructor
    · rintro ⟨u, hu, he⟩
      simp only [← ha, List.mem_append, List.mem_map, Act.use.injEq, exists_eq_right,
        List.mem_singleton, reduceCtorEq, or_false] at hu
      rcases hu with hu | hu
      · exact absurd he (h.endless u hu)
      · exact ⟨u, hu, he⟩
    · rintro ⟨u, hu, he⟩
      exact ⟨u, by simp [← ha, hu], he⟩
  have hlast {e' : ReadEvent} (he : .tell (.read e') ∈ a) (hd : e'.done = true) : e' = e := by
    simp only [← ha, List.mem_append, List.mem_map, reduceCtorEq, and_false, exists_false,
      false_or, List.mem_singleton, Act.tell.injEq, Event.read.injEq] at he
    rcases he with he | he
    · simp [h.not_done he] at hd
    · exact he
  refine ⟨⟨_, [.read e], hevents, fun e => h.isChunk, by simp, ?_⟩, ?_, ?_, ?_, ?_, ?_, ?_⟩
  · intro e' he
    exact ⟨e, List.mem_singleton.mp he, hc.done, hc.data_le⟩
  · rw [hreceived, ← flatMap_data, h.data, ← ha]
    simp [List.flatMap_append, List.flatMap_map, Act.moved, hc.moved]
  · intro hn
    rw [hlength]
    exact hc.bounded h.short hn
  · intro hn
    rw [hall hn, hsaw, ← hc.fault_iff]
    constructor
    · rintro ⟨e', he, hd, hf⟩
      exact hlast he hd ▸ hf
    · intro hf
      exact ⟨e, by simp [← ha], hc.done, hf⟩
  · intro hn he
    have hne := (hall hn).mp he
    rw [hevents, List.getLast?_concat]
    exact ⟨e.data, hne, congrArg (fun e => some (Event.read e)) (hc.chunk_of_data hne)⟩
  · intro he
    rw [hevents, List.getLast?_concat, hc.ended_of_isEnd (hsaw.mp he)]
  · intro e' he hd
    obtain rfl := hlast he hd
    rcases hc.cause with hdata | hend | hclosed | ⟨w, err, hk, hu, hf⟩
    · have hn := ((hc.data_iff h.short).mp hdata).1
      exact .inl ⟨hn, (hall hn).mpr hdata, hc.fault_iff.mpr (.inl hdata)⟩
    · exact .inr (.inl ⟨hsaw.mpr hend, hc.ended_of_isEnd hend⟩)
    · exact .inr (.inr (.inl hclosed))
    · exact .inr (.inr (.inr ⟨w, err, hk, by simp [← ha, hu], hf⟩))

theorem ReadFate.contract {f : Fate} (h : ReadFate chunk p n closed a f) :
    ReadContract chunk p n closed a := by
  cases f with
  | running =>
    obtain ⟨d, -, h⟩ := h
    exact h.contract
  | ended =>
    obtain ⟨b, us, e, d, rfl, h, hc⟩ := h
    exact hc.contract h
  | lost =>
    obtain ⟨d, h⟩ := h
    exact h.contract

end Contract

/-- The data of all reports on a source, taken request by request in the order in which they were
issued, is what its device handed out, and every request keeps the contract. -/
theorem source_contract (x : Execution start) {p : Nat} {device : Scripted} {limits : ChunkLimits}
    (hp : (opened (history x))[p]? = some (.source device limits)) :
    ((issued p (history x)).flatMap fun k => (events k (history x)).flatMap (·.data)) =
      transferred p (history x) ∧
    ∀ k ∈ issued p (history x), ∃ n, .asked k p (.read n 0) ∈ history x ∧
      ReadContract limits.read p n (x.machine.state.hub.isClosed p = true)
        (acts k (history x)) := by
  have hcontract : ∀ k ∈ issued p (history x), ∃ n, .asked k p (.read n 0) ∈ history x ∧
      ReadContract limits.read p n (x.machine.state.hub.isClosed p = true)
        (acts k (history x)) := by
    intro k hk
    obtain ⟨job, hm⟩ := mem_issued.mp hk
    obtain ⟨-, ⟨n, rfl⟩, f, ht, -⟩ := tale_of_asked x hp hm
    exact ⟨n, hm, ht.read.contract⟩
  refine ⟨?_, hcontract⟩
  rw [← (ledger x).2.carried.carried p, List.flatMap_def, List.flatMap_def]
  congr 1
  refine List.map_congr_left fun k hk => ?_
  obtain ⟨n, -, hc⟩ := hcontract k hk
  exact hc.received

/-- Two reads, of three bytes and of all the rest, from a source that hands out two at a time. -/
def twoReads : Execution start :=
  (ExecutionBy.begin start).perform 12
    [.own (.source "in" { items := [.bytes [1, 2, 3, 4], .ended true] } (.withRead default 2)),
      .own (.readAll "in" "first" 3), .own (.readAll "in" "rest" 0)]

set_option maxRecDepth 1000 in
theorem source_contract_twoReads :
    ((issued 0 (history twoReads)).flatMap fun k => (events k (history twoReads)).flatMap (·.data)) =
      [1, 2, 3, 4] ∧
    ∀ k ∈ issued 0 (history twoReads), ∃ n, .asked k 0 (.read n 0) ∈ history twoReads ∧
      ReadContract 2 0 n (twoReads.machine.state.hub.isClosed 0 = true)
        (acts k (history twoReads)) := by
  have hp : (opened (history twoReads))[0]? =
      some (.source { items := [.bytes [1, 2, 3, 4], .ended true] } (.withRead default 2)) := rfl
  have h := source_contract twoReads hp
  exact ⟨h.1.trans rfl, h.2⟩

end Conduit.Pipe
