import Conduit.Kernel.Transfer

/-!
Bytes in parcels. Taking bytes out of parcels and packing them keeps their order and loses none, and
no transfer moves more than was asked for or offered.
-/

namespace Conduit.Kernel

open Pipe (Poll)

/-- The bytes that lie in parcels, in order. -/
def contents (ps : List Parcel) : Bytes := ps.flatMap (·.rest)

@[simp] theorem contents_nil : contents [] = [] := rfl

@[simp] theorem contents_cons (p : Parcel) (ps : List Parcel) :
    contents (p :: ps) = p.rest ++ contents ps := rfl

@[simp] theorem contents_append (ps ps' : List Parcel) :
    contents (ps ++ ps') = contents ps ++ contents ps' := List.flatMap_append

/-- What is taken out of parcels and what is left of them is what lay in them. -/
theorem unpack_append (want : Nat) (ps : List Parcel) :
    (Parcel.unpack want ps).1 ++ contents (Parcel.unpack want ps).2 = contents ps := by
  induction ps generalizing want with
  | nil => rfl
  | cons p ps ih =>
    unfold Parcel.unpack
    split
    · simp [ih]
    · simp [← List.append_assoc]

theorem length_unpack_le (want : Nat) (ps : List Parcel) :
    (Parcel.unpack want ps).1.length ≤ want := by
  induction ps generalizing want with
  | nil => exact Nat.zero_le _
  | cons p ps ih =>
    unfold Parcel.unpack
    split
    · have := ih (want - p.rest.length)
      rw [List.length_append]
      omega
    · exact List.length_take_le ..

namespace System

/-- Bytes are packed from the first one on. -/
theorem contents_pack (sender n used : Nat) (bytes : Bytes) :
    contents (pack sender n used bytes) <+: bytes := by
  induction n generalizing used bytes with
  | zero => exact List.nil_prefix
  | succ n ih =>
    cases bytes with
    | nil => exact List.nil_prefix
    | cons b bytes =>
      simp only [pack]
      split
      · exact List.nil_prefix
      · rw [contents_cons]
        refine ((List.prefix_append_right_inj _).mpr (ih _ _)).trans ?_
        exact (List.take_append_drop Parcel.largest (b :: bytes)).symm ▸ List.prefix_rfl

/-- The size of parcels is that of the bytes in them. -/
theorem length_contents (ps : List Parcel) :
    ps.foldl (fun n p => n + p.rest.length) 0 = (contents ps).length := by
  have fold (n : Nat) : ps.foldl (fun n p => n + p.rest.length) n = n + (contents ps).length := by
    induction ps generalizing n with
    | nil => rfl
    | cons p ps ih => simp [ih, Nat.add_assoc]
  simpa using fold 0

/-- No write accepts more than it is offered. -/
theorem write_le {s s' : System} {d n : Nat} {bytes : Bytes}
    (h : s.write d bytes = (s', .ready (.ok n))) : n ≤ bytes.length := by
  unfold write at h
  split at h
  · simp at h
  · split at h
    · split at h
      · simp at h
      · split at h
        · unfold writeStream at h
          split at h
          · simp at h
          · split at h
            · simp at h
            · simp only [Prod.mk.injEq, Poll.ready.injEq, Except.ok.injEq] at h
              rw [← h.2, length_contents]
              exact (contents_pack ..).length_le
        · unfold writeMessage at h
          grind
    · simp only [Prod.mk.injEq, Poll.ready.injEq, Except.ok.injEq] at h
      omega
    · simp at h

/-- No read takes more than it asks for. -/
theorem read_le {s s' : System} {d want : Nat} {bytes : Bytes}
    (h : s.read d want = (s', .ready (.ok bytes))) : bytes.length ≤ want := by
  unfold read at h
  split at h
  · simp at h
  · dsimp only at h
    split at h
    · simp only [Prod.mk.injEq, Poll.ready.injEq, Except.ok.injEq] at h
      rw [← h.2]
      exact length_unpack_le ..
    · simp at h
    · split at h
      · simp only [Prod.mk.injEq, Poll.ready.injEq, Except.ok.injEq] at h
        simp [← h.2]
      · simp at h
    · simp only [Prod.mk.injEq, Poll.ready.injEq, Except.ok.injEq] at h
      rw [← h.2]
      exact List.length_take_le ..

end System

end Conduit.Kernel
