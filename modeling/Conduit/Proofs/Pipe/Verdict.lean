import Conduit.Pipe.Collector

/-!
What all the reports of a request amount to. The first final report decides: with a fault the request
has failed, and what it has brought so far or left undone is kept, without one it is done. A stream
that ends before any final report decides nothing, and is taken for one that is done.
-/

namespace Conduit.Pipe

section Account

variable {E α β : Type}

/-- How reports of one kind are taken account of. -/
structure Account (E α β : Type) where
  done : E → Bool
  fault : E → Option Fault
  /-- What has been achieved with some reports. -/
  whole : List E → α
  /-- What is kept when a report fails, after some others. -/
  kept : List E → E → β

/-- A read has brought the data of all its reports, the failed one included. -/
def readAccount : Account ReadEvent Bytes Bytes where
  done := (·.done)
  fault := (·.fault)
  whole es := es.flatMap (·.data)
  kept before e := (before ++ [e]).flatMap (·.data)

/-- A write leaves what its failed report says is left. -/
def writeAccount : Account WriteEvent Unit Bytes where
  done := (·.done)
  fault := (·.fault)
  whole _ := ()
  kept _ e := e.remaining

namespace Account

variable (A : Account E α β)

/-- None of the reports is final. -/
def Open (es : List E) : Prop := ∀ e ∈ es, A.done e = false ∧ A.fault e = none

/-- What the reports of a request amount to, of which all after the first final one are of no
matter. -/
inductive Verdict : List E → Except (β × Fault) α → Prop where
  /-- The first final report is the last one, and has no fault. -/
  | done {before e rest} (hb : A.Open before) (hf : A.fault e = none) (hd : A.done e = true) :
      Verdict (before ++ e :: rest) (.ok (A.whole (before ++ [e])))
  /-- The first final report has a fault. -/
  | failed {before e rest f} (hb : A.Open before) (hf : A.fault e = some f) :
      Verdict (before ++ e :: rest) (.error (A.kept before e, f))
  /-- There is no final report. -/
  | cut {es} (h : A.Open es) : Verdict es (.ok (A.whole es))

/-- What reports amount to that follow others, none of which was final. -/
def settle (before : List E) : List E → Except (β × Fault) α
  | [] => .ok (A.whole before)
  | e :: rest =>
    match A.fault e with
    | some f => .error (A.kept before e, f)
    | none => if A.done e then .ok (A.whole (before ++ [e])) else settle (before ++ [e]) rest

variable {A}

theorem Open.concat {before : List E} {e : E} (hb : A.Open before) (hd : A.done e = false)
    (hf : A.fault e = none) : A.Open (before ++ [e]) := by
  intro x hx
  rcases List.mem_append.mp hx with hx | hx
  · exact hb x hx
  · exact List.mem_singleton.mp hx ▸ ⟨hd, hf⟩

/-- Reports that are not final are passed by. -/
theorem settle_append {es : List E} (h : A.Open es) (before rest : List E) :
    A.settle before (es ++ rest) = A.settle (before ++ es) rest := by
  induction es generalizing before with
  | nil => simp
  | cons e es ih =>
    obtain ⟨hd, hf⟩ := h e List.mem_cons_self
    have hes : A.Open es := fun x hx => h x (List.mem_cons_of_mem e hx)
    simp only [List.cons_append, settle, hf, hd, Bool.false_eq_true, if_false]
    rw [ih hes, List.append_assoc, List.singleton_append]

theorem verdict_settle {before : List E} (hb : A.Open before) (es : List E) :
    A.Verdict (before ++ es) (A.settle before es) := by
  induction es generalizing before with
  | nil => simpa [settle] using Verdict.cut hb
  | cons e rest ih =>
    unfold settle
    cases hf : A.fault e with
    | some f => exact .failed hb hf
    | none =>
      cases hd : A.done e with
      | true => exact .done hb hf hd
      | false => simpa using ih (hb.concat hd hf)

/-- The verdict on the reports of a request is what they are settled to. -/
theorem settle_eq_iff (es : List E) (r : Except (β × Fault) α) :
    A.settle [] es = r ↔ A.Verdict es r := by
  constructor
  · rintro rfl
    have hnil : A.Open [] := by simp [Open]
    exact verdict_settle hnil es
  · intro h
    cases h with
    | done hb hf hd => simp [settle_append hb, settle, hf, hd]
    | failed hb hf => simp [settle_append hb, settle, hf]
    | cut h => simpa [settle] using settle_append h [] []

end Account

end Account

theorem readAll_eq_settle (before es : List ReadEvent) :
    readAll (before.flatMap (·.data)) es = readAccount.settle before es := by
  induction es generalizing before with
  | nil => rfl
  | cons e rest ih =>
    have hdata : before.flatMap (·.data) ++ e.data = (before ++ [e]).flatMap (·.data) := by simp
    simp only [readAll, Account.settle, hdata, ih]
    rfl

theorem writeAll_eq_settle (before es : List WriteEvent) :
    writeAll es = writeAccount.settle before es := by
  induction es generalizing before with
  | nil => rfl
  | cons e rest ih =>
    simp only [writeAll, Account.settle, ← ih]
    rfl

/-- What a read amounts to. -/
theorem readAll_eq_iff (es : List ReadEvent) (r : Except (Bytes × Fault) Bytes) :
    readAll [] es = r ↔ readAccount.Verdict es r :=
  readAll_eq_settle [] es ▸ Account.settle_eq_iff es r

/-- What a write amounts to. -/
theorem writeAll_eq_iff (es : List WriteEvent) (r : Except (Bytes × Fault) Unit) :
    writeAll es = r ↔ writeAccount.Verdict es r :=
  writeAll_eq_settle [] es ▸ Account.settle_eq_iff es r

end Conduit.Pipe
