import Conduit.Proofs.Pipe.Tale

/-!
A tale says once how it ends: nothing follows a last report. What is left of a request follows from
what it did; and a request that uses its device no more can only find its port closed.
-/

namespace Conduit.Pipe

/-- What is left of a request after an act. -/
def Job.after : Job → Act → Job
  | .read n d, .use (.read _ _ (.ready (.ok data))) => .read n (d + data.length)
  | .write rest, .use (.write _ _ (.ready (.ok k))) => .write (rest.drop k)
  | job, _ => job

theorem Job.after_tell (job : Job) (e : Event) : job.after (.tell e) = job := by
  cases job <;> rfl

/-- What is left of a request after some acts. -/
def Job.left (job : Job) (a : List Act) : Job := a.foldl Job.after job

/-- After such an answer a device is asked once more. -/
def Use.IsRetry : Use → Prop
  | .read _ _ (.pending _) | .write _ _ (.pending _) | .flush _ (.pending _) => True
  | .read _ _ (.ready (.error e)) | .write _ _ (.ready (.error e)) => e.kind = .interrupted
  | _ => False

section Steps

variable {chunk p : Nat} {job job' : Job} {u : Use} {e : Event} {last again : Bool} {adv : Advance}

theorem Waits.after_eq (h : Waits chunk p job u again) : job.after (.use u) = job := by
  cases h <;> rfl

theorem Works.after_eq (h : Works chunk p job u job' adv) : job.after (.use u) = job' := by
  cases h <;> rfl

theorem Waits.isRetry (h : Waits chunk p job u again) : u.IsRetry := by
  cases h <;> trivial

theorem Works.isRetry (h : Works chunk p job u job' .again) : u.IsRetry := by
  cases h <;> assumption

theorem Works.not_isRetry (h : Works chunk p job u job' (.report e last)) : ¬u.IsRetry := by
  cases h <;> first | exact id | assumption

/-- The last report of a request is marked as such, and no other one is. -/
theorem Works.done_eq (h : Works chunk p job u job' (.report e last)) : e.done = last := by
  cases h <;> rfl

theorem Job.closedEvent_done (job : Job) : job.closedEvent.done = true := by
  cases job <;> rfl

end Steps

theorem append_eq_concat {α : Type} {l l' k : List α} {x : α} (h : l ++ l' = k ++ [x]) :
    l' = [] ∨ ∃ t, l' = t ++ [x] ∧ l ++ t = k := by
  rcases l'.eq_nil_or_concat with rfl | ⟨t, y, rfl⟩
  · exact .inl rfl
  · rw [List.concat_eq_append, ← List.append_assoc] at h
    obtain ⟨hk, hy⟩ := List.append_inj' h rfl
    exact .inr ⟨t, by rw [List.concat_eq_append, hy], hk⟩

namespace Tale

variable {chunk p : Nat} {closed : Prop} {job₀ job : Job} {a a₀ a₁ : List Act} {f f₀ : Fate}

theorem eq_left (h : Tale chunk p closed job₀ a f) : ∀ job, f = .running job → job = job₀.left a := by
  have step (a : List Act) (x : Act) : job₀.left (a ++ [x]) = (job₀.left a).after x :=
    by simp [Job.left]
  induction h with
  | issued =>
    intro job h
    cases h
    rfl
  | waits _ hu ih =>
    intro job h
    cases h
    rw [step, ← ih _ rfl, hu.after_eq]
  | again _ hu ih =>
    intro job h
    cases h
    rw [step, ← ih _ rfl, hu.after_eq]
  | @reports a job u job' e last _ hu ih =>
    intro job h
    cases last with
    | true => cases h
    | false =>
      cases h
      rw [List.append_cons, step, step, ← ih _ rfl, hu.after_eq, Job.after_tell]
  | closed => simp
  | lost => simp

/-- A request uses the device of its own port. -/
theorem port_eq (h : Tale chunk p closed job₀ a f) {u : Use} (hu : .use u ∈ a) : u.port = p := by
  induction h with
  | issued => cases hu
  | waits _ hw ih =>
    rcases List.mem_append.mp hu with hu | hu
    · exact ih hu
    · cases List.mem_singleton.mp hu
      exact hw.port_eq
  | again _ hw ih =>
    rcases List.mem_append.mp hu with hu | hu
    · exact ih hu
    · cases List.mem_singleton.mp hu
      exact hw.port_eq
  | reports _ hw ih =>
    rcases List.mem_append.mp hu with hu | hu
    · exact ih hu
    · simp only [List.mem_cons, Act.use.injEq, reduceCtorEq, List.not_mem_nil, or_false] at hu
      exact hu ▸ hw.port_eq
  | closed _ _ ih => exact ih (by simpa using hu)
  | lost _ ih => exact ih hu

/-- Nothing follows a last report. -/
theorem nil_of_done (h : Tale chunk p closed job₀ a f) {e : Event} (ha : a = a₀ ++ .tell e :: a₁)
    (he : e.done = true) : a₁ = [] ∧ f = .ended := by
  induction h generalizing a₁ with
  | issued => simp at ha
  | waits _ _ ih | again _ _ ih =>
    obtain ⟨a₂, ha⟩ := append_eq_tell [_] ha
    exact absurd (ih ha).2 (by simp)
  | @reports a job u job' e' last _ hu ih =>
    rw [List.append_cons] at ha
    rcases concat_eq_tell ha with ⟨-, rfl, rfl⟩ | ⟨a₂, ha⟩
    · rw [← hu.done_eq, he]
      exact ⟨rfl, rfl⟩
    · obtain ⟨a₃, ha⟩ := append_eq_tell [_] ha
      exact absurd (ih ha).2 (by simp)
  | closed _ _ ih =>
    rcases concat_eq_tell ha with ⟨-, -, h⟩ | ⟨a₂, ha⟩
    · exact ⟨h, rfl⟩
    · exact absurd (ih ha).2 (by simp)
  | lost _ ih => exact absurd (ih ha).2 (by simp)

/-- A request that has ended made a last report. -/
theorem done_of_ended (h : Tale chunk p closed job₀ a .ended) :
    ∃ b e, a = b ++ [.tell e] ∧ e.done = true := by
  generalize hf : Fate.ended = f at h
  cases h with
  | @reports a job u job' e last _ hu =>
    cases last with
    | false => cases hf
    | true => exact ⟨a ++ [.use u], e, by simp, hu.done_eq⟩
  | closed => exact ⟨_, _, rfl, Job.closedEvent_done _⟩
  | _ => cases hf

theorem isRetry (h : Tale chunk p closed job₀ a f) {u : Use} (ha : a = a₀ ++ [.use u]) :
    u.IsRetry := by
  induction h with
  | issued => simp at ha
  | waits _ hu =>
    obtain ⟨-, he⟩ := List.append_inj' ha rfl
    cases he
    exact hu.isRetry
  | again _ hu =>
    obtain ⟨-, he⟩ := List.append_inj' ha rfl
    cases he
    exact hu.isRetry
  | reports =>
    rw [List.append_cons] at ha
    obtain ⟨-, he⟩ := List.append_inj' ha rfl
    cases he
  | closed =>
    obtain ⟨-, he⟩ := List.append_inj' ha rfl
    cases he
  | lost _ ih => exact ih ha

/-- A report does not come without the use of the device before it. -/
theorem nil_of_report (h : Tale chunk p closed job₀ a₀ f₀) {b : List Act} {u : Use} {e : Event}
    {job' : Job} {last : Bool} (hu : Works chunk p job u job' (.report e last))
    (ha : a₀ ++ a₁ = b ++ [.use u, .tell e]) (hno : ∀ u, .use u ∉ a₁) : a₁ = [] := by
  rw [List.append_cons] at ha
  rcases append_eq_concat ha with h' | ⟨a₂, rfl, hb⟩
  · exact h'
  rcases append_eq_concat hb with rfl | ⟨a₃, rfl, -⟩
  · rw [List.append_nil] at hb
    exact absurd (h.isRetry hb) hu.not_isRetry
  · exact absurd (by simp) (hno u)

/-- A request that goes on and does not use its device does nothing. -/
theorem nil_of_running (h : Tale chunk p closed job₀ a₀ f₀)
    (h' : Tale chunk p closed job₀ (a₀ ++ a₁) (.running job)) (hno : ∀ u, .use u ∉ a₁) :
    a₁ = [] := by
  generalize hf : Fate.running job = f at h'
  generalize ha : a₀ ++ a₁ = a at h'
  cases h' with
  | issued => exact (List.append_eq_nil_iff.mp ha).2
  | waits | again =>
    rcases append_eq_concat ha with h' | ⟨a₂, rfl, -⟩
    · exact h'
    · exact absurd (List.mem_append_right a₂ (List.mem_singleton_self _)) (hno _)
  | reports _ hu => exact h.nil_of_report hu ha hno
  | closed => cases hf
  | lost => cases hf

/-- A request that ends and does not use its device finds its port closed. -/
theorem eq_closed (h : Tale chunk p closed job₀ a₀ (.running job))
    (h' : Tale chunk p closed job₀ (a₀ ++ a₁) .ended) (hno : ∀ u, .use u ∉ a₁) :
    a₁ = [.tell (job₀.left a₀).closedEvent] := by
  have hne : a₁ ≠ [] := by
    rintro rfl
    obtain ⟨b, e, ha, he⟩ := h'.done_of_ended
    rw [List.append_nil] at ha
    exact absurd (h.nil_of_done ha he).2 (by simp)
  generalize hf : Fate.ended = f at h'
  generalize ha : a₀ ++ a₁ = a at h'
  cases h' with
  | reports _ hu => exact absurd (h.nil_of_report hu ha hno) hne
  | @closed a job' h' =>
    rcases append_eq_concat ha with rfl | ⟨a₂, rfl, rfl⟩
    · exact absurd rfl hne
    · obtain rfl := h.nil_of_running h' fun u hu => hno u (List.mem_append_left _ hu)
      rw [h'.eq_left _ rfl, List.append_nil, List.nil_append]
  | _ => cases hf

/-- A request that is over does nothing. -/
theorem nil_of_ended (h : Tale chunk p closed job₀ a₀ .ended)
    (h' : Tale chunk p closed job₀ (a₀ ++ a₁) f) : a₁ = [] := by
  obtain ⟨b, e, rfl, he⟩ := h.done_of_ended
  rw [List.append_assoc] at h'
  exact (h'.nil_of_done rfl he).1

/-- A request that is lost and does not use its device does nothing. -/
theorem nil_of_lost (h : Tale chunk p closed job₀ a₀ f₀)
    (h' : Tale chunk p closed job₀ (a₀ ++ a₁) .lost) (hno : ∀ u, .use u ∉ a₁) : a₁ = [] := by
  generalize hf : Fate.lost = f at h'
  generalize ha : a₀ ++ a₁ = a at h'
  cases h' with
  | lost h' => exact h.nil_of_running (ha ▸ h') hno
  | @reports _ _ _ _ _ last => cases last <;> cases hf
  | _ => cases hf

end Tale

end Conduit.Pipe
