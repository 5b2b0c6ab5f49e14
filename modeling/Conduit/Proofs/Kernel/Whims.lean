import Conduit.Kernel.Whims
import Conduit.Proofs.Kernel.Operations
import Conduit.Proofs.Kernel.Queues

/-!
What the system may do of itself. Whatever whim it follows, it reads, writes and accepts as it does
otherwise; and a call can only be interrupted by a whim, which is gone then, or by a failure that has
waited at the descriptor.
-/

namespace Conduit.Kernel.System

open Pipe (Poll)

variable {s s' s'' : System} {d : Nat}

theorem takeWhim_cases (s : System) : s.takeWhim = (s, .obey) ∨
    ∃ w whims, s.whims = w :: whims ∧ s.takeWhim = ({ s with whims }, w) := by
  unfold takeWhim
  split
  · exact .inl rfl
  · rename_i w whims hw
    exact .inr ⟨w, whims, hw, rfl⟩

/-- Nobody else relies on whims. -/
theorem takeWhim_retains (s : System) : s.Retains s.takeWhim.1 := by
  rcases s.takeWhim_cases with h | ⟨w, whims, -, h⟩
  · rw [h]
    exact .refl s
  · rw [h]
    exact .of_descriptors rfl

/-- A whim concerns streams; taking it changes nothing else. -/
theorem whimAt_cases (s : System) (d : Nat) : s.whimAt d = (s, .obey) ∨
    s.type? d = some .stream ∧ ∃ t w, s.whimAt d = (t, w) ∧ t.descriptors = s.descriptors ∧
      t.whims.length < s.whims.length := by
  unfold whimAt
  split
  · rename_i x hx
    split
    · rename_i htype
      refine s.takeWhim_cases.imp_right fun ⟨w, whims, hw, h⟩ => ?_
      exact ⟨by simp [type?, hx, htype], _, _, h, rfl, by simp [hw]⟩
    · exact .inl rfl
  · exact .inl rfl

/-! ### Moving bytes -/

theorem writePart_le {s s' : System} {d m n : Nat} {bytes : Bytes}
    (h : s.writePart d m bytes = (s', .ready (.ok n))) : n ≤ bytes.length := by
  unfold writePart at h
  split at h
  · exact write_le h
  · split at h
    · simp only [Prod.mk.injEq, Poll.ready.injEq, Except.ok.injEq] at h
      rw [← h.2]
      exact List.length_take_le' ..
    · exact write_le h

/-- The system has no whim to accept more than it is offered. -/
theorem send_le {s s' : System} {d n : Nat} {bytes : Bytes}
    (h : s.send d bytes = (s', .ready (.ok n))) : n ≤ bytes.length := by
  unfold send at h
  split at h
  · exact write_le h
  · exact writePart_le h
  · simp at h

/-- Nor has it one to hand out more than it is asked for. -/
theorem receive_le {s s' : System} {d want : Nat} {bytes : Bytes}
    (h : s.receive d want = (s', .ready (.ok bytes))) : bytes.length ≤ want := by
  unfold receive at h
  split at h
  · exact read_le h
  · exact Nat.le_trans (read_le h) (Nat.min_le_left ..)
  · simp at h

theorem writePart_writes (n : Nat) (bytes : Bytes) (htype : s.type? d = some .stream) :
    s.Writes d (s.writePart d n bytes).1 (accepted bytes (s.writePart d n bytes).2) := by
  unfold writePart
  split
  · exact write_writes ..
  · rename_i x hx
    split
    · rename_i e a hrole hended
      have hd : s.role? d = some (.connected (some e) a) := by simp [role?, hx, hrole]
      have hopen : ¬(s.setStalled d false).Ended d := by
        simpa [Ended, setStalled, modify, hx] using hended
      -- The part lies in the parcel, if there is any.
      have hpart : accepted bytes (.ready (.ok (bytes.take n).length)) = contents
          (if (bytes.take n).isEmpty then [] else
            [Parcel.ofBytes Parcel.streamHead d (bytes.take n)]) := by
        rw [accepted, ← List.prefix_iff_eq_take.mp (List.take_prefix n bytes)]
        split
        · simp_all
        · simp [Parcel.ofBytes]
      dsimp only
      rw [hpart]
      exact .bytes _ htype hd hopen (setStalled_retains s d false)
    · exact write_writes ..

theorem send_writes (s : System) (d : Nat) (bytes : Bytes) :
    s.Writes d (s.send d bytes).1 (accepted bytes (s.send d bytes).2) := by
  unfold send
  rcases s.whimAt_cases d with h | ⟨htype, t, w, h, hsame, -⟩
  · rw [h]
    exact s.write_writes d bytes
  · rw [h]
    have ht : s.Retains t := .of_descriptors hsame
    cases w with
    | obey => exact .after ht (t.write_writes d bytes)
    | partly n => exact .after ht (writePart_writes n bytes ((ht.type d).trans htype))
    | fail number => exact .nothing ht

theorem receive_reads (s : System) (d want : Nat) :
    s.Reads d (s.receive d want).1 (brought (s.receive d want).2) := by
  unfold receive
  rcases s.whimAt_cases d with h | ⟨-, t, w, h, hsame, -⟩
  · rw [h]
    exact s.read_reads d want
  · rw [h]
    have ht : s.Retains t := .of_descriptors hsame
    cases w with
    | obey => exact .after ht (t.read_reads d want)
    | partly n => exact .after ht (t.read_reads d _)
    | fail number => exact .nothing ht

/-! ### Accepting -/

/-- Whom an attempt to accept has brought. -/
def admitted : Poll (Except OsError Nat) → Option Nat
  | .ready (.ok e) => some e
  | _ => none

/-- What an attempt to accept at the descriptor `d` does, and whom it takes from the line. -/
inductive Admits (s : System) (d : Nat) : Option Nat → System → Prop
  | nobody {t} (ht : s.Retains t) : s.Admits d none t
  | first {t t' u e} (ht : s.Retains t) (h : t.accept d = .ok (some (t', e))) (hu : t'.Retains u) :
    s.Admits d (some e) u

namespace Admits

variable {taken : Option Nat}

/-- Whatever has happened before that others do not rely on. -/
theorem after (hs : s.Retains s') (h : s'.Admits d taken s'') : s.Admits d taken s'' := by
  cases h with
  | nobody ht => exact .nobody (hs.trans ht)
  | first ht h hu => exact .first (hs.trans ht) h hu

/-- Whatever happens next that others do not rely on. -/
theorem andThen (h : s.Admits d taken s') (hs : s'.Retains s'') : s.Admits d taken s'' := by
  cases h with
  | nobody ht => exact .nobody (ht.trans hs)
  | first ht h hu => exact .first ht h (hu.trans hs)

theorem stays (h : s.Admits d taken s') : s.Stays s' := by
  cases h with
  | nobody ht => exact ht.stays
  | first ht h hu => exact (ht.stays.trans (accept_stays h)).trans hu.stays

theorem thins (h : s.Admits d taken s') : s.Thins s' := by
  cases h with
  | nobody ht => exact ht.thins
  | first ht h hu => exact (ht.thins.trans (accept_thins h)).trans hu.thins

theorem loosens (h : s.Admits d taken s') : s.Loosens s' := by
  cases h with
  | nobody ht => exact ht.loosens
  | first ht h hu => exact (ht.loosens.trans (accept_loosens h)).trans hu.loosens

/-- The one who is taken was the first in line. -/
theorem line (h : s.Admits d taken s') (x : Nat) :
    s.line x = (if d = x then taken.toList else []) ++ s'.line x := by
  cases h with
  | nobody ht => simp [line_eq (ht.role x)]
  | first ht h hu =>
    rw [← line_eq (ht.role x), line_eq (hu.role x)]
    exact line_accept h x

theorem isOpen (h : s.Admits d taken s') (x : Nat) : s'.isOpen x = s.isOpen x := by
  cases h with
  | nobody ht => exact ht.isOpen x
  | first ht h hu => exact ((hu.isOpen x).trans (isOpen_accept h x)).trans (ht.isOpen x)

end Admits

theorem letIn_admits (s : System) (d : Nat) :
    s.Admits d (admitted (s.letIn d).2) (s.letIn d).1 := by
  unfold letIn
  split
  · rename_i t number h
    exact .nobody (by simpa [h] using s.takeWhim_retains)
  · rename_i t w _ h
    have ht : s.Retains t := by simpa [h] using s.takeWhim_retains
    split
    · exact .nobody ht
    · rename_i haccept
      exact .first ht haccept (.refl _)
    · exact .nobody ht

theorem undo_retains (s t : System) : s.Retains (s.undo t) := .of_descriptors rfl

theorem heed_retains (s : System) : s.Retains s.heed.1 := by
  unfold heed
  split
  · rename_i h
    simpa [h] using s.takeWhim_retains
  · rename_i h
    simpa [h] using s.takeWhim_retains

theorem retains_of_heed {answer : Except OsError Unit} (h : s.heed = (s', answer)) :
    s.Retains s' := by
  simpa [h] using s.heed_retains

/-! ### Interruptions -/

/-- A failure that waits at the descriptor `d`. -/
def Awaits (s : System) (d : Nat) (e : OsError) : Prop :=
  ∃ x n, s.descriptors[d]? = some x ∧ x.failure = some n ∧ e = .number n

/-- How a call on the descriptor `d` is interrupted: for a whim, or by a failure that waited. Nothing
that others rely on has changed. -/
inductive Interrupts (s : System) (d : Nat) (e : OsError) : System → Prop
  | whim {t : System} (ht : t.descriptors = s.descriptors)
      (hwhims : t.whims.length < s.whims.length) : s.Interrupts d e t
  | failure {t : System} (he : s.Awaits d e) (ht : s.Retains t) : s.Interrupts d e t

theorem Interrupts.retains {e : OsError} (h : s.Interrupts d e s') : s.Retains s' := by
  cases h with
  | whim ht => exact .of_descriptors ht
  | failure _ ht => exact ht

/-- The same call is interrupted after a whim has been taken. -/
theorem Interrupts.after {e : OsError} (ht : s'.descriptors = s.descriptors)
    (hwhims : s'.whims.length < s.whims.length) (h : s'.Interrupts d e s'') :
    s.Interrupts d e s'' := by
  cases h with
  | whim h hless => exact .whim (h.trans ht) (Nat.lt_trans hless hwhims)
  | failure he h =>
    obtain ⟨x, n, hx, hn, rfl⟩ := he
    exact .failure ⟨x, n, ht ▸ hx, hn, rfl⟩ ((Retains.of_descriptors ht).trans h)

/-- An answer that is no interruption. -/
theorem not_interrupted {α : Type} {n : Int} {e : OsError}
    (h : (s, (.ready (.error (.number n)) : Poll (Except OsError α))) = (s', .ready (.error e)))
    (he : e.kind = .interrupted) (hn : OsErrorKind.ofNumber n ≠ .interrupted) : False := by
  obtain ⟨-, hanswer⟩ := Prod.mk.inj h
  obtain rfl := Except.error.inj (Poll.ready.inj hanswer)
  exact hn he

theorem read_interrupts {want : Nat} {e : OsError} (h : s.read d want = (s', .ready (.error e)))
    (he : e.kind = .interrupted) : s.Interrupts d e s' := by
  unfold read at h
  split at h
  · exact (not_interrupted h he (by decide)).elim
  · rename_i x hx
    dsimp only at h
    split at h
    · simp at h
    · rename_i n hn _
      obtain ⟨rfl, hanswer⟩ := Prod.mk.inj h
      obtain rfl := Except.error.inj (Poll.ready.inj hanswer)
      exact .failure ⟨x, n, hx, hn, rfl⟩ (clear_retains s d)
    · split at h <;> simp at h
    · simp at h

theorem writeMessage_interrupts {e : Nat} {x y : Descriptor} {bytes : Bytes} {error : OsError}
    (hx : s.descriptors[d]? = some x)
    (h : s.writeMessage d e x y bytes = (s', .ready (.error error)))
    (he : error.kind = .interrupted) : s.Interrupts d error s' := by
  unfold writeMessage at h
  split at h
  · exact (not_interrupted h he (by decide)).elim
  · split at h
    · rename_i n hn
      obtain ⟨rfl, hanswer⟩ := Prod.mk.inj h
      obtain rfl := Except.error.inj (Poll.ready.inj hanswer)
      exact .failure ⟨x, n, hx, hn, rfl⟩ (clear_retains s d)
    · split at h
      · exact (not_interrupted h he (by decide)).elim
      · split at h
        · simp at h
        · split at h
          · exact (not_interrupted h he (by decide)).elim
          · split at h
            · exact (not_interrupted h he (by decide)).elim
            · split at h
              · exact (not_interrupted h he (by decide)).elim
              · split at h <;> simp at h

theorem write_interrupts {bytes : Bytes} {e : OsError}
    (h : s.write d bytes = (s', .ready (.error e))) (he : e.kind = .interrupted) :
    s.Interrupts d e s' := by
  unfold write at h
  split at h
  · exact (not_interrupted h he (by decide)).elim
  · rename_i x hx
    split at h
    · split at h
      · exact (not_interrupted h he (by decide)).elim
      · split at h
        · unfold writeStream at h
          split at h
          · exact (not_interrupted h he (by decide)).elim
          · split at h <;> simp at h
        · exact writeMessage_interrupts hx h he
    · simp at h
    · exact (not_interrupted h he (by decide)).elim

theorem writePart_interrupts {n : Nat} {bytes : Bytes} {e : OsError}
    (h : s.writePart d n bytes = (s', .ready (.error e))) (he : e.kind = .interrupted) :
    s.Interrupts d e s' := by
  unfold writePart at h
  split at h
  · exact write_interrupts h he
  · split at h
    · simp at h
    · exact write_interrupts h he

theorem send_interrupts {bytes : Bytes} {e : OsError}
    (h : s.send d bytes = (s', .ready (.error e))) (he : e.kind = .interrupted) :
    s.Interrupts d e s' := by
  unfold send at h
  rcases s.whimAt_cases d with hw | ⟨-, t, w, hw, ht, hwhims⟩
  · rw [hw] at h
    exact write_interrupts h he
  · rw [hw] at h
    cases w with
    | obey => exact (write_interrupts h he).after ht hwhims
    | partly n => exact (writePart_interrupts h he).after ht hwhims
    | fail number =>
      obtain ⟨rfl, -⟩ := Prod.mk.inj h
      exact .whim ht hwhims

theorem receive_interrupts {want : Nat} {e : OsError}
    (h : s.receive d want = (s', .ready (.error e))) (he : e.kind = .interrupted) :
    s.Interrupts d e s' := by
  unfold receive at h
  rcases s.whimAt_cases d with hw | ⟨-, t, w, hw, ht, hwhims⟩
  · rw [hw] at h
    exact read_interrupts h he
  · rw [hw] at h
    cases w with
    | obey => exact (read_interrupts h he).after ht hwhims
    | partly n => exact (read_interrupts h he).after ht hwhims
    | fail number =>
      obtain ⟨rfl, -⟩ := Prod.mk.inj h
      exact .whim ht hwhims

theorem accept_interrupts {e : OsError} (h : s.accept d = .error e) : e.kind ≠ .interrupted := by
  unfold accept at h
  split at h
  · split at h <;> cases h
    decide
  · cases h
  · cases h
    decide

/-- An attempt to accept is interrupted for a whim only; no failure waits for it at any descriptor. -/
theorem letIn_interrupts {e : OsError} {b : Nat} (h : s.letIn d = (s', .ready (.error e)))
    (he : e.kind = .interrupted) : s.Interrupts b e s' := by
  unfold letIn at h
  split at h
  · rename_i t number hfail
    obtain ⟨rfl, -⟩ := Prod.mk.inj h
    rcases s.takeWhim_cases with hw | ⟨w, whims, hwhims, hw⟩
    · simp [hw] at hfail
    · obtain ⟨rfl, -⟩ := Prod.mk.inj (hw.symm.trans hfail)
      exact .whim rfl (by simp [hwhims])
  · split at h
    · simp at h
    · simp at h
    · rename_i haccept
      obtain ⟨-, hanswer⟩ := Prod.mk.inj h
      obtain rfl := Except.error.inj (Poll.ready.inj hanswer)
      exact absurd he (accept_interrupts haccept)

/-! ### What does not depend on whims

A connect comes to the same, however it leaves the system.
-/

section Undo

variable (s t : System) (d : Nat)

theorem connectFile_undo (e : Nat) (x y : Descriptor) :
    (((s.undo t).connectFile d e x y).map fun s => (s, true)).map (·.2) =
      ((s.connectFile d e x y).map fun s => (s, true)).map (·.2) := by
  unfold connectFile
  split
  · rfl
  · split
    · rfl
    · split
      · split <;> rfl
      · split
        · split <;> rfl
        · rfl

theorem connectPath_undo (x : Descriptor) (p : UnixPath) :
    (((s.undo t).connectPath d x p).map fun s => (s, true)).map (·.2) =
      ((s.connectPath d x p).map fun s => (s, true)).map (·.2) := by
  have hfind : (s.undo t).find p = s.find p := rfl
  have hdescriptors : (s.undo t).descriptors = s.descriptors := rfl
  unfold connectPath
  rw [hfind, hdescriptors]
  split
  · rfl
  · split
    · rfl
    · rfl
    · rfl
    · rfl
    · split
      · rfl
      · split
        · rfl
        · exact s.connectFile_undo t d ..

theorem connectInet_undo (x : Descriptor) (target : Address) :
    ((s.undo t).connectInet d x target).map (·.2) = (s.connectInet d x target).map (·.2) := by
  have hholder : (s.undo t).holder? x.type target = s.holder? x.type target := rfl
  have hreachable : (s.undo t).reachable = s.reachable := rfl
  unfold connectInet
  rw [hholder, hreachable]
  split
  · rfl
  · split
    · rfl
    · split
      · split
        · split <;> rfl
        · rfl
      · rfl

theorem connect_undo (target : Address) :
    ((s.undo t).connect d target).map (·.2) = (s.connect d target).map (·.2) := by
  have hdescriptors : (s.undo t).descriptors = s.descriptors := rfl
  unfold connect
  rw [hdescriptors]
  split
  · rfl
  · split
    · exact s.connectPath_undo t d ..
    · rfl
    · rfl
    · split
      · rfl
      · exact s.connectInet_undo t d ..

/-- Whether a link is still to come does not depend on what the system does of itself. -/
@[simp] theorem isSettled_undo : (s.undo t).isSettled d = s.isSettled d := by
  have hrole : (s.undo t).role? d = s.role? d := rfl
  have hresume : ((s.undo t).resume d).map (·.2) = (s.resume d).map (·.2) := by
    unfold resume
    rw [hrole]
    split
    · exact s.connect_undo t d _
    · rfl
    · rfl
  unfold isSettled
  cases h : (s.undo t).resume d <;> cases h' : s.resume d <;> simp_all [Except.map]

end Undo

end Conduit.Kernel.System
