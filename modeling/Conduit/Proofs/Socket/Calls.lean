import Conduit.Proofs.Kernel.Whims
import Conduit.Socket.Calls

/-!
Calls on a descriptor. One that is interrupted changes nothing that others rely on, so all that is done
is what the last call does; and whatever the system has in mind, the last call is neither interrupted
nor would it block.
-/

namespace Conduit.Socket.Calls

open Kernel (System brought accepted)
open Pipe (Poll)

section Retry

variable {α : Type} {call : System → System × Poll (Except OsError α)} {d : Nat}

/-- One call, which is not made again, decides what comes of it. -/
theorem retry_eq (hcall : ∀ s t e, call s = (t, .ready (.error e)) → e.kind = .interrupted →
    s.Interrupts d e t) (n : Nat) (s : System) :
    ∃ t, s.Retains t ∧ retry call n s = ((call t).1, settle (call t).2) := by
  induction n generalizing s with
  | zero => exact ⟨s, .refl s, rfl⟩
  | succ n ih =>
    unfold retry
    split
    · rename_i t e h
      split
      · rename_i he
        obtain ⟨u, hu, heq⟩ := ih t
        exact ⟨u, (hcall s t e h he).retains.trans hu, heq⟩
      · exact ⟨s, .refl s, by rw [h]⟩
    · rename_i t answer _ h
      exact ⟨s, .refl s, by rw [h]⟩

/-- Only a failure is waited for. -/
theorem settle_cases (answer : Poll (Except OsError α)) :
    (settle answer = answer ∧ ∀ e, answer = .ready (.error e) → e.kind ≠ .wouldBlock) ∨
    ∃ e, answer = .ready (.error e) ∧ settle answer = .pending true := by
  rcases answer with (e | a) | again
  · by_cases hblock : e.kind = .wouldBlock
    · exact .inr ⟨e, rfl, if_pos hblock⟩
    · refine .inl ⟨if_neg hblock, fun e' he => ?_⟩
      obtain rfl := Except.error.inj (Poll.ready.inj he)
      exact hblock
  · exact .inl ⟨rfl, nofun⟩
  · exact .inl ⟨rfl, nofun⟩

theorem settle_error {answer : Poll (Except OsError α)} {e : OsError}
    (h : settle answer = .ready (.error e)) :
    answer = .ready (.error e) ∧ e.kind ≠ .wouldBlock := by
  rcases settle_cases answer with ⟨hsame, hblock⟩ | ⟨e', -, hwaits⟩
  · exact ⟨hsame.symm.trans h, hblock e (hsame.symm.trans h)⟩
  · cases hwaits.symm.trans h

/-- What is moved is moved by the call. -/
theorem settle_ok {answer : Poll (Except OsError α)} {a : α} (h : settle answer = .ready (.ok a)) :
    answer = .ready (.ok a) := by
  rcases settle_cases answer with ⟨hsame, -⟩ | ⟨e, -, hwaits⟩
  · exact hsame.symm.trans h
  · cases hwaits.symm.trans h

/-- A descriptor at which no interruption waits. -/
def Clear (s : System) (d : Nat) : Prop := ∀ e, s.Awaits d e → e.kind ≠ .interrupted

/-- With as many calls to make again as there are whims, the last one is not interrupted. -/
theorem retry_error (hcall : ∀ s t e, call s = (t, .ready (.error e)) → e.kind = .interrupted →
    s.Interrupts d e t) {n : Nat} {s : System} (hn : s.whims.length ≤ n) (hd : Clear s d)
    {e : OsError} (h : (retry call n s).2 = .ready (.error e)) :
    e.kind ≠ .wouldBlock ∧ e.kind ≠ .interrupted := by
  induction n generalizing s with
  | zero =>
    obtain ⟨hlast, hblock⟩ := settle_error h
    refine ⟨hblock, fun he => ?_⟩
    cases hcall s _ e (Prod.ext rfl hlast) he with
    | whim _ hwhims => exact absurd hwhims (by omega)
    | failure hawaits => exact hd e hawaits he
  | succ n ih =>
    unfold retry at h
    split at h
    · rename_i t e' hagain
      split at h
      · rename_i he'
        cases hcall s t e' hagain he' with
        | whim ht hwhims => exact ih (by omega) (fun e => by simpa [System.Awaits, ht] using hd e) h
        | failure hawaits => exact absurd he' (hd e' hawaits)
      · rename_i he'
        have hlast : settle (.ready (.error e') : Poll (Except OsError α)) = .ready (.error e) := h
        obtain ⟨hanswer, hblock⟩ := settle_error hlast
        obtain rfl := Except.error.inj (Poll.ready.inj hanswer)
        exact ⟨hblock, he'⟩
    · rename_i t answer hnot hcalled
      have hlast : settle answer = .ready (.error e) := h
      obtain ⟨rfl, -⟩ := settle_error hlast
      exact (hnot e rfl).elim

end Retry

variable {s s' : System} {d : Nat}

/-! ### Reading -/

/-- Reading is receiving once, after a few interruptions. -/
theorem read_eq (s : System) (d want : Nat) : ∃ t, s.Retains t ∧
    read s d want = ((t.receive d want).1, settle (t.receive d want).2) :=
  retry_eq (fun _ _ _ => System.receive_interrupts) _ s

theorem brought_settle (answer : Poll (Except OsError Bytes)) :
    brought (settle answer) = brought answer := by
  rcases settle_cases answer with ⟨hsame, -⟩ | ⟨e, rfl, hwaits⟩
  · rw [hsame]
  · rw [hwaits]
    rfl

theorem read_reads (s : System) (d want : Nat) :
    s.Reads d (read s d want).1 (brought (read s d want).2) := by
  obtain ⟨t, ht, h⟩ := read_eq s d want
  rw [h, brought_settle]
  exact .after ht (t.receive_reads d want)

/-- No read takes more than it asks for. -/
theorem read_le {want : Nat} {bytes : Bytes} (h : read s d want = (s', .ready (.ok bytes))) :
    bytes.length ≤ want := by
  obtain ⟨t, -, heq⟩ := read_eq s d want
  obtain ⟨-, hanswer⟩ := Prod.mk.inj (heq.symm.trans h)
  exact System.receive_le (Prod.ext rfl (settle_ok hanswer))

/-- Whatever the system has in mind, a reader hears of no interruption, and of nothing to come back
for. -/
theorem read_error {want : Nat} {e : OsError} (hd : Clear s d)
    (h : (read s d want).2 = .ready (.error e)) : e.kind ≠ .wouldBlock ∧ e.kind ≠ .interrupted :=
  retry_error (fun _ _ _ => System.receive_interrupts) (Nat.le_refl _) hd h

/-! ### Writing -/

/-- Writing is sending once, after a few interruptions. -/
theorem write_eq (s : System) (d : Nat) (bytes : Bytes) : ∃ t, s.Retains t ∧
    write s d bytes = ((t.send d bytes).1, settle (t.send d bytes).2) :=
  retry_eq (fun _ _ _ => System.send_interrupts) _ s

theorem accepted_settle (bytes : Bytes) (answer : Poll (Except OsError Nat)) :
    accepted bytes (settle answer) = accepted bytes answer := by
  rcases settle_cases answer with ⟨hsame, -⟩ | ⟨e, rfl, hwaits⟩
  · rw [hsame]
  · rw [hwaits]
    rfl

theorem write_writes (s : System) (d : Nat) (bytes : Bytes) :
    s.Writes d (write s d bytes).1 (accepted bytes (write s d bytes).2) := by
  obtain ⟨t, ht, h⟩ := write_eq s d bytes
  rw [h, accepted_settle]
  exact .after ht (t.send_writes d bytes)

/-- No write accepts more than it is offered. -/
theorem write_le {n : Nat} {bytes : Bytes} (h : write s d bytes = (s', .ready (.ok n))) :
    n ≤ bytes.length := by
  obtain ⟨t, -, heq⟩ := write_eq s d bytes
  obtain ⟨-, hanswer⟩ := Prod.mk.inj (heq.symm.trans h)
  exact System.send_le (Prod.ext rfl (settle_ok hanswer))

/-- Nor does a writer hear of an interruption. -/
theorem write_error {bytes : Bytes} {e : OsError} (hd : Clear s d)
    (h : (write s d bytes).2 = .ready (.error e)) :
    e.kind ≠ .wouldBlock ∧ e.kind ≠ .interrupted :=
  retry_error (fun _ _ _ => System.send_interrupts) (Nat.le_refl _) hd h

/-! ### Accepting -/

theorem admitted_settle (answer : Poll (Except OsError Nat)) :
    System.admitted (settle answer) = System.admitted answer := by
  rcases settle_cases answer with ⟨hsame, -⟩ | ⟨e, rfl, hwaits⟩
  · rw [hsame]
  · rw [hwaits]
    rfl

/-- Accepting is one attempt, after a few interruptions. -/
theorem accept_admits (s : System) (d : Nat) :
    s.Admits d (System.admitted (accept s d).2) (accept s d).1 := by
  obtain ⟨t, ht, h⟩ := retry_eq (fun _ _ _ => System.letIn_interrupts (b := d)) s.whims.length s
  rw [accept, h, admitted_settle]
  exact .after ht (t.letIn_admits d)

/-- Nor does a loop, wherever failures may wait. -/
theorem accept_error {e : OsError} (h : (accept s d).2 = .ready (.error e)) :
    e.kind ≠ .wouldBlock ∧ e.kind ≠ .interrupted := by
  -- At a descriptor that does not exist no failure waits.
  have hclear : Clear s s.descriptors.length := by
    rintro e ⟨x, -, hx, -⟩
    simp at hx
  exact retry_error (fun _ _ _ => System.letIn_interrupts) (Nat.le_refl _) hclear h

end Conduit.Socket.Calls
