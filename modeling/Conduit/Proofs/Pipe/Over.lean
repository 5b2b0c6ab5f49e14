import Conduit.Proofs.Pipe.Carried

/-!
Requests that are over. Nothing brings one back: it stands in no queue, uses its device no more, and
its receiver is told of nothing.
-/

namespace Conduit.Pipe

open Dispatch

namespace Desk

variable {d d' : Desk} {h ds : List Deed} {r k : Nat}

/-- A request keeps its receiver, and stays over when it is. -/
theorem Move.request (m : d.Move ds d') {q : Request} (hq : d.hub.requests[r]? = some q) :
    ∃ q', d'.hub.requests[r]? = some q' ∧ q'.receiver = q.receiver ∧
      (q.phase = .finished → q'.phase = .finished) := by
  have hsame (h : d'.hub.requests[r]? = some q) : ∃ q', d'.hub.requests[r]? = some q' ∧
      q'.receiver = q.receiver ∧ (q.phase = .finished → q'.phase = .finished) :=
    ⟨q, h, rfl, id⟩
  have hfinish (s : Nat) (h : d'.hub = (d.hub.finish s).1) : ∃ q', d'.hub.requests[r]? = some q' ∧
      q'.receiver = q.receiver ∧ (q.phase = .finished → q'.phase = .finished) := by
    rw [h, Hub.finish_requests, List.getElem?_modify, hq]
    split <;> exact ⟨_, rfl, rfl, fun hph => by simp [hph]⟩
  cases m with
  | quiet | opens | feed | refuse | skip => exact hsame hq
  | ask => exact hsame (getElem?_concat.mpr (.inl hq))
  | @close p =>
    refine hsame ?_
    rcases close_requests d.hub p with h | h <;> simp only [h]
    · exact hq
    · exact getElem?_concat.mpr (.inl hq)
  | @serve s _ _ _ _ _ _ _ q₁ q₁' _ port' _ hq₁ _ hf hv =>
    by_cases hrs : s = r
    · subst hrs
      obtain rfl := Option.some.inj (hq₁.symm.trans hq)
      exact ⟨q₁', Hub.getElem?_put_requests hq₁, hv.receiver_eq, fun hph => absurd hph hf⟩
    · exact hsame ((List.getElem?_set_ne hrs).trans hq)
  | finish => exact hfinish _ rfl
  | unwind => exact hfinish _ rfl

/-- The request of a receiver is over. -/
def Over (d : Desk) (r k : Nat) : Prop :=
  ∃ q, d.hub.requests[r]? = some q ∧ q.receiver = some k ∧ q.phase = .finished

theorem Over.move (ho : d.Over r k) (m : d.Move ds d') : d'.Over r k := by
  obtain ⟨q, hq, hk, hph⟩ := ho
  obtain ⟨q', hq', hk', hph'⟩ := m.request hq
  exact ⟨q', hq', hk'.trans hk, hph' hph⟩

/-- Nothing is done for the receiver of a request that is over. -/
theorem Over.silent (ho : d.Over r k) (ha : d.Accounts h) (m : d.Move ds d') : acts k ds = [] := by
  obtain ⟨q, hq, hk, hph⟩ := ho
  cases m with
  | @refuse p job =>
    have : d.receivers ≠ k := (Nat.ne_of_lt (ha.known r q k hq hk)).symm
    simp [acts, Deed.act?, this]
  | @serve s _ _ _ _ _ _ _ q₁ q₁' _ port' _ hq₁ _ hf hv hl =>
    refine (acts_turn hl fun hk₁ => hf ?_).1
    obtain rfl := ha.distinct s r q₁ q k hq₁ hq hk₁ hk
    obtain rfl := Option.some.inj (hq₁.symm.trans hq)
    exact hph
  | unwind => exact acts_lost _
  | _ => rfl

/-- A request that is over stands in no queue. -/
theorem Over.not_mem (ho : d.Over r k) (hd : d.Sound) {p : Nat} {port : Port}
    (hp : d.hub.ports[p]? = some port) : r ∉ port.queue := by
  obtain ⟨q, hq, -, hph⟩ := ho
  intro hr
  obtain ⟨q', hq', rfl⟩ := (hd.port p port hp).member r hr
  obtain rfl := Option.some.inj (hq.symm.trans hq')
  obtain ⟨port', hp', hplace, -⟩ := hd.place r q hq
  obtain rfl := Option.some.inj (hp.symm.trans hp')
  cases hplace with
  | finished _ hno => exact hno hr
  | closing h =>
    rcases h with ⟨h, -⟩ | ⟨h, -⟩ | ⟨h, -⟩ <;> simp [hph] at h
  | fresh h | lined h | waiting h | active h => simp [hph] at h

end Desk

/-- Once its request is over, a receiver gets nothing more, and the request stands in no queue. -/
theorem over_stays {x : Execution start} (y : Execution x.machine) {r k : Nat}
    (ho : (desk x.machine.config).Over r k) : (desk y.machine.config).Over r k ∧
      acts k (history (x.andThen y)) = acts k (history x) := by
  obtain ⟨hk, hl⟩ := ledger x
  obtain ⟨-, -, ho', ha⟩ := run_induction y.run hk
    (fun h d => d.Ledger h ∧ d.Over r k ∧ acts k h = acts k (history x)) ⟨hl, ho, rfl⟩
    fun h d ds d' hd _ ⟨hl, ho, ha⟩ m =>
      ⟨hl.move hd m, ho.move m, by rw [acts_append, ho.silent hl.accounts m, List.append_nil, ha]⟩
  refine ⟨ho', ?_⟩
  rw [← ha]
  simp [history, ExecutionBy.andThen]

end Conduit.Pipe
