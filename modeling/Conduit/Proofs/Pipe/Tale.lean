import Conduit.Proofs.Pipe.Desk

/-!
The life of one request: it uses its device and reports, until it makes its last report or is lost.
What a read has delivered and what a write has left follow from what it did, at every point.
-/

namespace Conduit.Pipe

theorem want_le_chunk (chunk n d : Nat) : Hub.want chunk n d ≤ chunk := by
  unfold Hub.want
  split
  · exact Nat.le_refl _
  · exact Nat.min_le_left ..

theorem want_le_left (chunk : Nat) {n : Nat} (hn : n ≠ 0) (d : Nat) :
    Hub.want chunk n d ≤ n - d := by
  rw [Hub.want, if_neg hn]
  exact Nat.min_le_right ..

/-- How a request stands: what is left of it, that it has made its last report, or that it ended
without one. -/
inductive Fate where
  | running (job : Job)
  | ended
  | lost

/-- What a request on a port can have done, and how it stands then. It finds the port closed only if
the port is `closed`. -/
inductive Tale (chunk p : Nat) (closed : Prop) (job₀ : Job) : List Act → Fate → Prop where
  | issued : Tale chunk p closed job₀ [] (.running job₀)
  | waits {a job u again} (h : Tale chunk p closed job₀ a (.running job))
      (hu : Waits chunk p job u again) : Tale chunk p closed job₀ (a ++ [.use u]) (.running job)
  | again {a job u job'} (h : Tale chunk p closed job₀ a (.running job))
      (hu : Works chunk p job u job' .again) :
      Tale chunk p closed job₀ (a ++ [.use u]) (.running job')
  | reports {a job u job' e last} (h : Tale chunk p closed job₀ a (.running job))
      (hu : Works chunk p job u job' (.report e last)) :
      Tale chunk p closed job₀ (a ++ [.use u, .tell e]) (if last then .ended else .running job')
  | closed {a job} (h : Tale chunk p closed job₀ a (.running job)) (hc : closed) :
      Tale chunk p closed job₀ (a ++ [.tell job.closedEvent]) .ended
  | lost {a job} (h : Tale chunk p closed job₀ a (.running job)) : Tale chunk p closed job₀ a .lost

/-- A tale stays true when the port is closed. -/
theorem Tale.mono {chunk p : Nat} {closed closed' : Prop} (hc : closed → closed') {job₀ : Job}
    {a : List Act} {f : Fate} (h : Tale chunk p closed job₀ a f) :
    Tale chunk p closed' job₀ a f := by
  induction h with
  | issued => exact .issued
  | waits _ hu ih => exact ih.waits hu
  | again _ hu ih => exact ih.again hu
  | reports _ hu ih => exact ih.reports hu
  | closed _ h ih => exact ih.closed (hc h)
  | lost _ ih => exact ih.lost

/-- A request that was issued never lets go of a device. -/
theorem Tale.ne_release {chunk p : Nat} {closed : Prop} {job₀ job : Job} {a : List Act}
    (h : Tale chunk p closed job₀ a (.running job)) (hj : job₀.Initial) : job ≠ .release := by
  generalize hf : Fate.running job = f at h
  induction h generalizing job with
  | issued =>
    cases hf
    rintro rfl
    exact hj
  | waits _ _ ih => exact ih hf
  | again _ hu =>
    cases hf
    exact hu.ne_release.2
  | @reports _ _ _ _ _ last _ hu =>
    cases last with
    | true => cases hf
    | false =>
      cases hf
      exact hu.ne_release.2
  | closed => cases hf
  | lost => cases hf

/-- Whether a report is marked as the last one of its request. -/
def Event.done : Event → Bool
  | .read e => e.done
  | .write e => e.done

/-- The bytes that a report brings. -/
def Event.data : Event → Bytes
  | .read e => e.data
  | .write _ => []

namespace Act

/-- The bytes that a report brings. -/
def data : Act → Bytes
  | .tell e => e.data
  | .use _ => []

end Act

/-- A read that has delivered `d` bytes, so far only in chunks. -/
structure Reading (chunk n : Nat) (a : List Act) (d : Nat) : Prop where
  chunks : ∀ e, .tell e ∈ a →
    ∃ data, e = .read (.chunk data false) ∧ data ≠ [] ∧ data.length ≤ chunk
  data : a.flatMap (·.data) = a.flatMap (·.moved)
  delivered : (a.flatMap (·.moved)).length = d
  short : 0 < n → d < n
  endless : ∀ u, .use u ∈ a → ¬u.IsEnd

/-- The last report of a read that has delivered `d` bytes, and how it used its device before. -/
inductive ReadEnd (chunk p n d : Nat) (closed : Prop) : List Use → ReadEvent → Prop where
  | full {w data} (h : data ≠ []) (hc : data.length ≤ chunk) (hn : 0 < n)
      (hd : d + data.length = n) :
      ReadEnd chunk p n d closed [.read p w (.ready (.ok data))] (.chunk data true)
  | ended {w} : ReadEnd chunk p n d closed [.read p w (.ready (.ok []))] .ended
  | failed {w e} (he : e.kind ≠ .interrupted) :
      ReadEnd chunk p n d closed [.read p w (.ready (.error e))] (.failed (.ofOs e .read))
  | closed (h : closed) : ReadEnd chunk p n d closed [] (.failed .closed)

/-- How a read stands, by what it did. -/
def ReadFate (chunk p n : Nat) (closed : Prop) (a : List Act) : Fate → Prop
  | .running job => ∃ d, job = .read n d ∧ Reading chunk n a d
  | .ended => ∃ b us e d, a = b ++ (us.map .use ++ [.tell (.read e)]) ∧ Reading chunk n b d ∧
      ReadEnd chunk p n d closed us e
  | .lost => ∃ d, Reading chunk n a d

theorem Reading.use {chunk n d : Nat} {a : List Act} (h : Reading chunk n a d) {u : Use}
    (hm : u.moved = []) (he : ¬u.IsEnd) : Reading chunk n (a ++ [.use u]) d := by
  refine ⟨fun e h' => h.chunks e (by simpa using h'), ?_, ?_, h.short, ?_⟩
  · simpa [Act.data, Act.moved, hm] using h.data
  · simpa [Act.moved, hm] using h.delivered
  · intro v hv
    rcases List.mem_append.mp hv with hv | hv
    · exact h.endless v hv
    · cases List.mem_singleton.mp hv
      exact he

theorem Reading.chunk {chunk n d p w : Nat} {a : List Act} (h : Reading chunk n a d) {data : Bytes}
    (hne : data ≠ []) (hc : data.length ≤ chunk) (hn : 0 < n → d + data.length < n) :
    Reading chunk n
      (a ++ [.use (.read p w (.ready (.ok data))), .tell (.read (.chunk data false))])
      (d + data.length) := by
  refine ⟨?_, ?_, ?_, hn, ?_⟩
  · intro e he
    rcases List.mem_append.mp he with he | he
    · exact h.chunks e he
    · obtain rfl : e = .read (.chunk data false) := by simpa using he
      exact ⟨data, rfl, hne, hc⟩
  · simpa [Act.data, Act.moved, Use.moved, Event.data, ReadEvent.chunk] using h.data
  · have := h.delivered
    simp only [List.flatMap_append, List.length_append, this]
    simp [Act.moved, Use.moved]
  · intro u hu
    rcases List.mem_append.mp hu with hu | hu
    · exact h.endless u hu
    · obtain rfl : u = .read p w (.ready (.ok data)) := by simpa using hu
      exact hne

theorem Tale.read {chunk p n : Nat} {closed : Prop} {a : List Act} {f : Fate}
    (h : Tale chunk p closed (.read n 0) a f) : ReadFate chunk p n closed a f := by
  induction h with
  | issued => exact ⟨0, rfl, by simp, by simp, by simp, id, by simp⟩
  | @waits a job u again _ hu ih =>
    obtain ⟨d, rfl, ih⟩ := ih
    cases hu
    exact ⟨d, rfl, ih.use rfl id⟩
  | @again a job u job' _ hu ih =>
    obtain ⟨d, rfl, ih⟩ := ih
    cases hu
    exact ⟨d, rfl, ih.use rfl id⟩
  | @reports a job u job' e last _ hu ih =>
    obtain ⟨d, rfl, ih⟩ := ih
    cases hu with
    | ended => exact ⟨_, _, _, d, rfl, ih, .ended⟩
    | readFailed he => exact ⟨_, _, _, d, rfl, ih, .failed he⟩
    | @chunk _ _ data hne hw =>
      by_cases hn : n ≠ 0 ∧ n ≤ d + data.length
      · have hd := ih.short (Nat.pos_of_ne_zero hn.1)
        have := want_le_left chunk hn.1 d
        rw [decide_eq_true hn]
        exact ⟨_, _, _, d, rfl, ih, .full hne (Nat.le_trans hw (want_le_chunk ..))
          (Nat.pos_of_ne_zero hn.1) (by omega)⟩
      · rw [decide_eq_false hn]
        exact ⟨_, rfl, ih.chunk hne (Nat.le_trans hw (want_le_chunk ..)) (by omega)⟩
  | @closed a job _ hc ih =>
    obtain ⟨d, rfl, ih⟩ := ih
    exact ⟨_, [], _, d, rfl, ih, .closed hc⟩
  | lost _ ih =>
    obtain ⟨d, -, ih⟩ := ih
    exact ⟨d, ih⟩

/-- How many bytes a report without a fault says are left. -/
def Act.left? : Act → Option Nat
  | .tell (.write ⟨_, remaining, none⟩) => some remaining.length
  | _ => none

/-- A write that has `rest` left to do, and has only told of its progress. -/
structure Writing (chunk p : Nat) (data : Bytes) (a : List Act) (rest : Bytes) : Prop where
  left : rest ≠ []
  account : a.flatMap (·.moved) ++ rest = data
  told : ∀ a₁ e a₂, a = a₁ ++ .tell e :: a₂ →
    ∃ rest', e = .write (.progress rest') ∧ rest' ≠ [] ∧ a₁.flatMap (·.moved) ++ rest' = data
  offers : ∀ u, .use u ∈ a → ∃ offered answer, u = .write p offered answer ∧ offered.length ≤ chunk
  falls : (data.length :: a.filterMap (·.left?)).Pairwise (· > ·)
  least : ∀ k ∈ data.length :: a.filterMap (·.left?), rest.length ≤ k

/-- The last report of a write that has `rest` left to do, and how it used its device before. -/
inductive WriteEnd (chunk p : Nat) (rest : Bytes) (closed : Prop) : List Use → WriteEvent → Prop where
  | all {k offered} (hk : offered.take k = rest) (hc : offered.length ≤ chunk) :
      WriteEnd chunk p rest closed [.write p offered (.ready (.ok k))] (.progress [])
  | zero {offered} (hc : offered.length ≤ chunk) :
      WriteEnd chunk p rest closed [.write p offered (.ready (.ok 0))]
        (.failed rest (.ofOs (.simple .writeZero) .write))
  | failed {offered e} (he : e.kind ≠ .interrupted) (hc : offered.length ≤ chunk) :
      WriteEnd chunk p rest closed [.write p offered (.ready (.error e))]
        (.failed rest (.ofOs e .write))
  | closed (h : closed) : WriteEnd chunk p rest closed [] (.failed rest .closed)

/-- How a write stands, by what it did. -/
def WriteFate (chunk p : Nat) (data : Bytes) (closed : Prop) (a : List Act) : Fate → Prop
  | .running job => ∃ rest, job = .write rest ∧ Writing chunk p data a rest
  | .ended => ∃ b us e rest, a = b ++ (us.map .use ++ [.tell (.write e)]) ∧
      Writing chunk p data b rest ∧ WriteEnd chunk p rest closed us e
  | .lost => ∃ rest, Writing chunk p data a rest

theorem append_eq_tell {a a₁ a₂ : List Act} (us : List Use) {e : Event}
    (h : a ++ us.map .use = a₁ ++ .tell e :: a₂) : ∃ a₃, a = a₁ ++ .tell e :: a₃ := by
  rcases List.append_eq_append_iff.mp h with ⟨c, -, hd⟩ | ⟨c, hc, hd⟩
  · have : Act.tell e ∈ us.map Act.use := hd ▸ List.mem_append_right c List.mem_cons_self
    simp at this
  · cases c with
    | nil =>
      have : Act.tell e ∈ [] ++ us.map Act.use := hd ▸ List.mem_cons_self
      simp at this
    | cons x c =>
      cases hd
      exact ⟨c, hc⟩

theorem Writing.use {chunk p : Nat} {data rest offered : Bytes} {a : List Act}
    (h : Writing chunk p data a rest) {answer : Poll (Except OsError Nat)}
    (hm : (Use.write p offered answer).moved = []) (hc : offered.length ≤ chunk) :
    Writing chunk p data (a ++ [.use (.write p offered answer)]) rest := by
  refine ⟨h.left, ?_, ?_, ?_, ?_, ?_⟩
  · simpa [Act.moved, hm] using h.account
  · intro a₁ e a₂ he
    obtain ⟨a₃, ha⟩ := append_eq_tell [_] he
    exact h.told a₁ e a₃ ha
  · intro u hu
    rcases List.mem_append.mp hu with hu | hu
    · exact h.offers u hu
    · cases List.mem_singleton.mp hu
      exact ⟨offered, answer, rfl, hc⟩
  · simpa [Act.left?] using h.falls
  · simpa [Act.left?] using h.least

theorem concat_eq_tell {a a₁ a₂ : List Act} {e e' : Event}
    (h : a ++ [.tell e] = a₁ ++ .tell e' :: a₂) :
    a₁ = a ∧ e' = e ∧ a₂ = [] ∨ ∃ a₃, a = a₁ ++ .tell e' :: a₃ := by
  rcases List.append_eq_append_iff.mp h with ⟨c, hc, hd⟩ | ⟨c, hc, hd⟩
  · cases c with
    | nil =>
      simp only [List.nil_append, List.cons.injEq, Act.tell.injEq] at hd
      exact .inl ⟨by simpa using hc, hd.1.symm, hd.2.symm⟩
    | cons x c => simp at hd
  · cases c with
    | nil =>
      simp only [List.nil_append, List.cons.injEq, Act.tell.injEq] at hd
      exact .inl ⟨by simpa using hc.symm, hd.1, hd.2⟩
    | cons x c =>
      simp only [List.cons_append, List.cons.injEq] at hd
      exact .inr ⟨c, by rw [hc, hd.1]⟩

theorem Writing.progress {chunk p k : Nat} {data rest : Bytes} {a : List Act}
    (h : Writing chunk p data a rest) (hk : k ≠ 0) (hk' : k ≤ (rest.take chunk).length)
    (hne : rest.drop k ≠ []) :
    Writing chunk p data
      (a ++ [.use (.write p (rest.take chunk) (.ready (.ok k))), .tell (.write (.progress (rest.drop k)))])
      (rest.drop k) := by
  rw [List.length_take] at hk'
  have htake : (rest.take chunk).take k = rest.take k := by
    rw [List.take_take]
    congr 1
    omega
  have hacc : a.flatMap (·.moved) ++ (rest.take chunk).take k ++ rest.drop k = data := by
    rw [htake, List.append_assoc, List.take_append_drop, h.account]
  have hlt : (rest.drop k).length < rest.length := by
    rw [List.length_drop]
    omega
  refine ⟨hne, ?_, ?_, ?_, ?_, ?_⟩
  · simpa [Act.moved, Use.moved] using hacc
  · intro a₁ e a₂ he
    rw [List.append_cons] at he
    rcases concat_eq_tell he with ⟨rfl, rfl, -⟩ | ⟨a₃, ha⟩
    · exact ⟨_, rfl, hne, by simpa [Act.moved, Use.moved] using hacc⟩
    · obtain ⟨a₄, ha⟩ := append_eq_tell [_] ha
      exact h.told a₁ e a₄ ha
  · intro u hu
    rcases List.mem_append.mp hu with hu | hu
    · exact h.offers u hu
    · obtain rfl : u = .write p (rest.take chunk) (.ready (.ok k)) := by simpa using hu
      exact ⟨_, _, rfl, by rw [List.length_take]; omega⟩
  · have hleft : (Act.tell (.write (.progress (rest.drop k)))).left? = some (rest.drop k).length := rfl
    rw [List.filterMap_append, List.filterMap_cons_none rfl, List.filterMap_cons_some hleft,
      List.filterMap_nil, ← List.cons_append, List.pairwise_append]
    refine ⟨h.falls, by simp, fun x hx y hy => ?_⟩
    have := h.least x hx
    rw [List.mem_singleton.mp hy]
    omega
  · intro x hx
    simp only [List.filterMap_append, List.mem_cons, List.mem_append] at hx
    rcases hx with hx | hx | hx
    · have := h.least x (by simp [hx])
      omega
    · have := h.least x (by simp [hx])
      omega
    · have : x = (rest.drop k).length := by simpa [Act.left?, WriteEvent.progress] using hx
      omega

theorem Tale.write {chunk p : Nat} {closed : Prop} {data : Bytes} (hdata : data ≠ []) {a : List Act}
    {f : Fate} (h : Tale chunk p closed (.write data) a f) : WriteFate chunk p data closed a f := by
  have htake (rest : Bytes) : (rest.take chunk).length ≤ chunk := by
    rw [List.length_take]
    omega
  induction h with
  | issued => exact ⟨data, rfl, hdata, by simp, by simp, by simp, by simp, by simp⟩
  | @waits a job u again _ hu ih =>
    obtain ⟨rest, rfl, ih⟩ := ih
    cases hu
    exact ⟨rest, rfl, ih.use rfl (htake rest)⟩
  | @again a job u job' _ hu ih =>
    obtain ⟨rest, rfl, ih⟩ := ih
    cases hu
    exact ⟨rest, rfl, ih.use rfl (htake rest)⟩
  | @reports a job u job' e last _ hu ih =>
    obtain ⟨rest, rfl, ih⟩ := ih
    cases hu with
    | zero => exact ⟨_, _, _, rest, rfl, ih, .zero (htake rest)⟩
    | writeFailed he => exact ⟨_, _, _, rest, rfl, ih, .failed he (htake rest)⟩
    | @progress _ k hk hk' =>
      by_cases hne : rest.drop k = []
      · have hall : (rest.take chunk).take k = rest := by
          rw [List.length_take] at hk'
          rw [List.take_take, List.take_of_length_le]
          have := List.drop_eq_nil_iff.mp hne
          omega
        rw [hne]
        exact ⟨_, _, _, rest, rfl, ih, .all hall (htake rest)⟩
      · have hb : (rest.drop k).isEmpty = false := by simpa using hne
        rw [hb]
        exact ⟨_, rfl, ih.progress hk hk' hne⟩
  | @closed a job _ hc ih =>
    obtain ⟨rest, rfl, ih⟩ := ih
    exact ⟨_, [], _, rest, rfl, ih, .closed hc⟩
  | lost _ ih =>
    obtain ⟨rest, -, ih⟩ := ih
    exact ⟨rest, ih⟩

/-- A flush moves nothing. -/
theorem Tale.flush {chunk p : Nat} {closed : Prop} {a : List Act} {f : Fate}
    (h : Tale chunk p closed .flush a f) :
    a.flatMap (·.moved) = [] ∧ ∀ job, f = .running job → job = .flush := by
  induction h with
  | issued =>
    refine ⟨rfl, fun job h => ?_⟩
    cases h
    rfl
  | waits _ hu ih =>
    obtain rfl := ih.2 _ rfl
    cases hu
    refine ⟨by rw [List.flatMap_append, ih.1]; rfl, fun job h => ?_⟩
    cases h
    rfl
  | again _ hu ih =>
    obtain rfl := ih.2 _ rfl
    cases hu
  | reports _ hu ih =>
    obtain rfl := ih.2 _ rfl
    cases hu <;> exact ⟨by rw [List.flatMap_append, ih.1]; rfl, by simp⟩
  | closed _ _ ih => exact ⟨by rw [List.flatMap_append, ih.1]; rfl, by simp⟩
  | lost _ ih => exact ⟨ih.1, by simp⟩

end Conduit.Pipe
