import Conduit.Proofs.Address.Reading
import Conduit.Socket.Stage
import Mathlib.Algebra.Group.Int.Defs
import Mathlib.Data.List.Forall2

/-!
The two forms of an option. A number and the four bytes that spell it are handed to the system as the
same bytes, so the system cannot tell the forms apart: on any descriptor it does the same with both or
refuses both. Bytes are a number exactly if there are four of them, and they are the bytes that this
number is handed over as.
-/

namespace Conduit

namespace Bytes

/-- Bytes are those of the number that they spell. -/
theorem ofNatLE_toNatLE (bytes : Bytes) : ofNatLE bytes.length (toNatLE bytes) = bytes := by
  induction bytes with
  | nil => rfl
  | cons b rest ih =>
    have hb : b.toNat < 256 := b.toNat_lt
    have hlow : (b.toNat + 256 * toNatLE rest).toUInt8 = b := by
      rw [← UInt8.toNat_inj, Nat.toUInt8_eq, UInt8.toNat_ofNat']
      omega
    have hrest : (b.toNat + 256 * toNatLE rest) / 256 = toNatLE rest := by omega
    rw [List.length_cons, ofNatLE, toNatLE, hlow, hrest, ih]

theorem readUInt32LE?_ofUInt32LE (x : UInt32) : (ofUInt32LE x).readUInt32LE? 0 = some x := by
  simpa using readUInt32LE?_append [] rfl x []

theorem toNatLE_ofUInt32LE (x : UInt32) : toNatLE (ofUInt32LE x) = x.toNat :=
  (readUInt32LE?_eq_some.mp (readUInt32LE?_ofUInt32LE x)).2

theorem ofUInt32LE_eq (x : UInt32) : ofUInt32LE x = ofNatLE 4 x.toNat := by
  rw [← toNatLE_ofUInt32LE x]
  exact (ofNatLE_toNatLE (ofUInt32LE x)).symm

theorem isSome_readUInt32LE? {raw : Bytes} {i : Nat} :
    (raw.readUInt32LE? i).isSome ↔ i + 4 ≤ raw.length := by
  rw [readUInt32LE?, add_le_length (by decide)]
  generalize raw.drop i = there
  rcases there with _ | ⟨a, _ | ⟨b, _ | ⟨c, _ | ⟨d, rest⟩⟩⟩⟩ <;> simp

end Bytes

namespace SocketOption

/-- The four bytes of a number in two's complement, low byte first. -/
def spelling (n : Int32) : Bytes := Bytes.ofNatLE 4 (n.toInt % 2 ^ 32).toNat

theorem encodeInt_eq_spelling (n : Int32) : encodeInt n = spelling n := by
  have hwhole : n.toInt % 2 ^ 32 = n.toUInt32.toNat := by
    have hbits : n.toInt = (n.toUInt32.toNat : Int).bmod (2 ^ 32) := n.toBitVec.toInt_eq_toNat_bmod
    calc n.toInt % 2 ^ 32 = (n.toUInt32.toNat : Int) % (2 ^ 32 : Nat) := by
          rw [hbits]
          exact Int.bmod_emod
      _ = n.toUInt32.toNat := Int.emod_eq_of_lt (by omega) (by exact_mod_cast n.toUInt32.toNat_lt)
  rw [encodeInt, Bytes.ofUInt32LE_eq, spelling, hwhole, Int.toNat_natCast]

/-- Two options that are handed to the system alike: the level, the name and the bytes. -/
structure Agrees (o o' : SocketOption) : Prop where
  level : o.level = o'.level
  name : o.name = o'.name
  payload : o.payload = o'.payload

theorem Agrees.refl (o : SocketOption) : o.Agrees o := ⟨rfl, rfl, rfl⟩

/-- A number and its spelling are two forms of one option. -/
theorem int_agrees_raw (level name n : Int32) :
    (int level name n).Agrees (raw level name (spelling n)) where
  level := rfl
  name := rfl
  payload := encodeInt_eq_spelling n

@[simp] theorem length_encodeInt (n : Int32) : (encodeInt n).length = 4 := rfl

theorem decodeInt?_encodeInt (n : Int32) : decodeInt? (encodeInt n) = some n := by
  rw [decodeInt?, encodeInt, Bytes.readUInt32LE?_ofUInt32LE, Option.map_some, n.toInt32_toUInt32]

/-- Four bytes are those of the number that is read from them. More bytes would not be: the number is
read from the first four. -/
theorem eq_encodeInt_of_decodeInt? {bytes : Bytes} {n : Int32} (hlength : bytes.length = 4)
    (h : decodeInt? bytes = some n) : bytes = encodeInt n := by
  obtain ⟨x, hread, rfl⟩ := Option.map_eq_some_iff.mp h
  have hx : Bytes.toNatLE bytes = x.toNat := by
    have hfirst := (Bytes.readUInt32LE?_eq_some.mp hread).2
    rwa [List.drop_zero, List.take_of_length_le (by omega)] at hfirst
  calc bytes = Bytes.ofNatLE bytes.length (Bytes.toNatLE bytes) :=
        (Bytes.ofNatLE_toNatLE bytes).symm
    _ = Bytes.ofNatLE 4 x.toNat := by rw [hlength, hx]
    _ = encodeInt x.toInt32 := (Bytes.ofUInt32LE_eq x).symm

theorem intValue?_raw_eq (level name : Int32) (bytes : Bytes) :
    (raw level name bytes).intValue? = if bytes.length = 4 then decodeInt? bytes else none := rfl

/-- Bytes are the number that is handed over as these bytes, and no other number. -/
theorem intValue?_raw {level name : Int32} {bytes : Bytes} {n : Int32} :
    (raw level name bytes).intValue? = some n ↔ bytes = encodeInt n := by
  rw [intValue?_raw_eq]
  refine ⟨fun h => ?_, ?_⟩
  · split at h
    · exact eq_encodeInt_of_decodeInt? ‹_› h
    · cases h
  · rintro rfl
    rw [if_pos (length_encodeInt n), decodeInt?_encodeInt]

theorem isSome_intValue?_raw {level name : Int32} {bytes : Bytes} :
    (raw level name bytes).intValue?.isSome ↔ bytes.length = 4 := by
  rw [intValue?_raw_eq]
  split
  · simp [decodeInt?, Bytes.isSome_readUInt32LE?, *]
  · simp [*]

/-- More bytes start with a number but are none. -/
example : decodeInt? [7, 0, 0, 0, 9] = some 7 ∧ (raw 1 2 [7, 0, 0, 0, 9]).intValue? = none := by
  decide

end SocketOption

open SocketOption

theorem Kernel.Settings.set_congr {o o' : SocketOption} (h : o.Agrees o') (s : Kernel.Settings)
    (family : Family) (type : SocketType) : s.set family type o = s.set family type o' := by
  unfold set
  rw [h.level, h.name, h.payload]

theorem Kernel.System.setOption_congr {o o' : SocketOption} (h : o.Agrees o') (s : Kernel.System)
    (d : Nat) : s.setOption d o = s.setOption d o' := by
  unfold setOption
  simp only [h.payload, Kernel.Settings.set_congr h]

namespace Socket

open Kernel (System)

/-- Options in other forms are set alike, up to the same one that is refused. -/
theorem applyOptions_congr {os os' : List SocketOption} (h : List.Forall₂ Agrees os os')
    (system : System) (d : Nat) :
    Plan.applyOptions system d os = Plan.applyOptions system d os' := by
  induction h generalizing system with
  | nil => rfl
  | cons ho _ ih =>
    unfold Plan.applyOptions
    rw [System.setOption_congr ho, ho.level, ho.name]
    split
    · exact ih _
    · rfl

/-- A single option comes to what the system answers, with its level and its name on a failure. -/
theorem applyOptions_singleton (system : System) (d : Nat) (o : SocketOption) :
    Plan.applyOptions system d [o] =
      (system.setOption d o).mapError (.ofOs (.setOption o.level o.name)) := by
  unfold Plan.applyOptions
  cases system.setOption d o <;> rfl

/-- What the two forms of an option have in common. -/
structure FormContract (level name : Int32) : Prop where
  /-- Either form of a number is handed over as the bytes that spell it. -/
  payload : ∀ n, (int level name n).payload = spelling n ∧
    (raw level name (spelling n)).payload = spelling n
  /-- The system answers both alike, on any descriptor. -/
  answered : ∀ n (system : System) d,
    system.setOption d (int level name n) = system.setOption d (raw level name (spelling n))
  /-- In whichever form it is, an option that is refused is reported with its level and its name. -/
  reported : ∀ value (system : System) d,
    Plan.applyOptions system d [⟨level, name, value⟩] =
      (system.setOption d ⟨level, name, value⟩).mapError (.ofOs (.setOption level name))
  /-- So both forms come to the same, whichever options are set before and behind. -/
  applied : ∀ n (system : System) d before rest,
    Plan.applyOptions system d (before ++ int level name n :: rest) =
      Plan.applyOptions system d (before ++ raw level name (spelling n) :: rest)
  /-- Either form is the number. -/
  number : ∀ n, (int level name n).intValue? = some n ∧
    (raw level name (spelling n)).intValue? = some n
  /-- Four bytes are a number, and no other bytes are. -/
  sized : ∀ bytes, (raw level name bytes).intValue?.isSome ↔ bytes.length = 4
  /-- They are the number that is handed over as these very bytes. -/
  spelled : ∀ bytes n, (raw level name bytes).intValue? = some n ↔
    (int level name n).payload = bytes

/-- An option is the same in both of its forms. -/
theorem form_contract (level name : Int32) : FormContract level name where
  payload n := ⟨encodeInt_eq_spelling n, rfl⟩
  answered n := System.setOption_congr (int_agrees_raw level name n)
  reported value system d := applyOptions_singleton system d ⟨level, name, value⟩
  applied n system d before rest := by
    have hrefl (os : List SocketOption) : List.Forall₂ Agrees os os :=
      List.forall₂_same.mpr fun o _ => .refl o
    exact applyOptions_congr
      (List.rel_append (hrefl before) (.cons (int_agrees_raw level name n) (hrefl rest))) system d
  number n := ⟨rfl, intValue?_raw.mpr (encodeInt_eq_spelling n).symm⟩
  sized bytes := isSome_intValue?_raw
  spelled bytes n := intValue?_raw.trans eq_comm

end Socket

end Conduit
