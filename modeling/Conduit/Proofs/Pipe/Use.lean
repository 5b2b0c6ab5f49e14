import Conduit.Pipe.Hub

/-!
What is asked of devices. Devices can keep a record of everything that is asked of them; nothing
else changes when they do. One step of a request asks its device at most once.
-/

namespace Conduit.Pipe

/-- Something asked of the device of a port, and the answer. -/
inductive Use where
  | read (port want : Nat) (answer : Poll (Except OsError Bytes))
  | write (port : Nat) (offered : Bytes) (answer : Poll (Except OsError Nat))
  | flush (port : Nat) (answer : Poll (Except OsError Unit))

namespace Use

def port : Use → Nat
  | .read p _ _ | .write p _ _ | .flush p _ => p

/-- The bytes that the device handed out or accepted. -/
def moved : Use → Bytes
  | .read _ _ (.ready (.ok data)) => data
  | .write _ offered (.ready (.ok n)) => offered.take n
  | _ => []

/-- The device told the end of its stream. -/
def IsEnd : Use → Prop
  | .read _ _ (.ready (.ok data)) => data = []
  | _ => False

end Use

namespace Devices

variable {D : Type}

/-- The devices with a record of what has been asked of them, the latest last. -/
def recording (dev : Devices D) : Devices (D × List Use) where
  read d p want :=
    let (d', a) := dev.read d.1 p want
    ((d', d.2 ++ [.read p want a]), a)
  write d p offered :=
    let (d', a) := dev.write d.1 p offered
    ((d', d.2 ++ [.write p offered a]), a)
  flush d p :=
    let (d', a) := dev.flush d.1 p
    ((d', d.2 ++ [.flush p a]), a)

/-- Devices that hand out no more than what is asked for, and accept no more than what is offered. -/
structure Bounded (dev : Devices D) : Prop where
  read : ∀ {d p want data d'}, dev.read d p want = (d', .ready (.ok data)) → data.length ≤ want
  write : ∀ {d p offered n d'}, dev.write d p offered = (d', .ready (.ok n)) → n ≤ offered.length

end Devices

namespace Scripted

theorem read_length_le {d d' : Scripted} {want : Nat} {data : Bytes}
    (h : d.read want = (d', .ready (.ok data))) : data.length ≤ want := by
  unfold read at h
  split at h
  case h_2 b rest _ =>
    split at h
    · rename_i hb
      simp_all [List.drop_eq_nil_iff]
    · simp only [Prod.mk.injEq, Poll.ready.injEq, Except.ok.injEq] at h
      rw [← h.2, List.length_take]
      omega
  all_goals simp_all

theorem write_le_length {d d' : Scripted} {offered : Bytes} {n : Nat}
    (h : d.write offered = (d', .ready (.ok n))) : n ≤ offered.length := by
  unfold write accept at h
  split at h
  case h_1 =>
    split at h
    · cases h
    · simp only [Prod.mk.injEq, Poll.ready.injEq, Except.ok.injEq] at h
      omega
  case h_2 =>
    simp only [Prod.mk.injEq, Poll.ready.injEq, Except.ok.injEq] at h
    omega
  all_goals
    simp only [Prod.mk.injEq, Poll.ready.injEq, Except.ok.injEq] at h
    first
    | omega
    | exact absurd h.2 (by simp)

theorem asked_ready {α : Type} {f : Scripted → Scripted × Poll α} {ds ds' : List Scripted} {p : Nat}
    {a : α} (h : asked f ds p = (ds', .ready a)) : ∃ d d', f d = (d', .ready a) := by
  unfold asked at h
  split at h
  · cases h
  · rename_i d _
    have ha : (f d).2 = .ready a := (Prod.mk.inj h).2
    exact ⟨d, (f d).1, Prod.ext rfl ha⟩

theorem devices_bounded : devices.Bounded where
  read h := by
    obtain ⟨_, _, h⟩ := asked_ready h
    exact read_length_le h
  write h := by
    obtain ⟨_, _, h⟩ := asked_ready h
    exact write_le_length h

end Scripted

namespace Hub

variable {D : Type}

/-- What one step of a request asks of the devices. -/
def uses (dev : Devices D) (h : Hub) (d : D) (r : Nat) : List Use :=
  (advance dev.recording h (d, []) r).2.1.2

/-- A step is the same when the devices keep a record. -/
theorem advance_recording (dev : Devices D) (h : Hub) (d : D) (us : List Use) (r : Nat) :
    advance dev h d r =
      let (h', (d', _), wakes, adv) := advance dev.recording h (d, us) r
      (h', d', wakes, adv) := by
  unfold advance
  split
  · rfl
  rename_i q _
  split
  · rfl
  rename_i port _
  cases q.phase with
  | finished => rfl
  | fresh | queued =>
    dsimp only
    split
    · rfl
    · split <;> rfl
  | holding waiting =>
    dsimp only
    split
    · rfl
    split
    · rfl
    split
    · rfl
    split
    · rfl
    cases q.job <;> rfl

/-- A step takes the devices along whatever relation each of their answers keeps. -/
theorem advance_devices {dev : Devices D} {R : D → D → Prop} (refl : ∀ d, R d d)
    (read : ∀ d p want, R d (dev.read d p want).1)
    (write : ∀ d p offered, R d (dev.write d p offered).1)
    (flush : ∀ d p, R d (dev.flush d p).1) (h : Hub) (d : D) (r : Nat) :
    R d (advance dev h d r).2.1 := by
  unfold advance
  split
  · exact refl d
  rename_i q _
  split
  · exact refl d
  rename_i port _
  cases q.phase with
  | finished => exact refl d
  | fresh | queued =>
    dsimp only
    split
    · exact refl d
    · split <;> exact refl d
  | holding waiting =>
    dsimp only
    split
    · exact refl d
    split
    · exact refl d
    split
    · exact refl d
    split
    · exact refl d
    cases q.job with
    | read length delivered => exact read ..
    | write rest => exact write ..
    | flush => exact flush ..
    | release => exact refl d

end Hub

end Conduit.Pipe
