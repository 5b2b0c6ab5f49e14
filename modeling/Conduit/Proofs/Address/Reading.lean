import Conduit.Proofs.Address.RoundTrip
import Mathlib.Algebra.Group.Nat.Defs

/-!
What is read of any bytes whatever. A family reads an address exactly if the bytes open with its number
and the fields of the address stand there, each at its place. So no two families read the same bytes,
what stands behind the last field does not count, and whatever has been read is read again from its own
name. A name that is cut off is not read, with one exception: of version 4 nothing behind the octets is
asked for.
-/

namespace Conduit

namespace Bytes

/-- The number that bytes spell, high byte first. -/
def toNatBE (bytes : Bytes) : Nat := toNatLE bytes.reverse

/-- Bits that are put above others are added to them. -/
theorem or_shiftLeft {x k : Nat} (hx : x < 2 ^ k) (y : Nat) : x ||| y <<< k = x + 2 ^ k * y := by
  rw [Nat.or_comm, ← Nat.shiftLeft_add_eq_or_of_lt hx, Nat.shiftLeft_eq, Nat.add_comm, Nat.mul_comm]

theorem toNat_toUInt16BE (high low : UInt8) :
    (toUInt16BE high low).toNat = low.toNat + 256 * high.toNat := by
  have hlow := low.toNat_lt
  have hhigh := high.toNat_lt
  have hfits : high.toNat <<< 8 % 2 ^ 16 = high.toNat <<< 8 :=
    Nat.mod_eq_of_lt (by rw [Nat.shiftLeft_eq]; omega)
  simp only [toUInt16BE, UInt16.toNat_or, UInt16.toNat_shiftLeft, UInt8.toNat_toUInt16]
  rw [show UInt16.toNat 8 % 16 = 8 from rfl, hfits, Nat.or_comm]
  exact or_shiftLeft hlow _

theorem toNat_toUInt32LE (a b c d : UInt8) :
    (toUInt32LE a b c d).toNat =
      a.toNat + 256 * (b.toNat + 256 * (c.toNat + 256 * d.toNat)) := by
  have ha := a.toNat_lt
  have hb := b.toNat_lt
  have hc := c.toNat_lt
  have hd := d.toNat_lt
  have hfits {x : Nat} (hx : x < 256) {k : Nat} (hk : k ≤ 24) : x <<< k % 2 ^ 32 = x <<< k := by
    refine Nat.mod_eq_of_lt ?_
    calc x <<< k = x * 2 ^ k := Nat.shiftLeft_eq ..
      _ < 2 ^ 8 * 2 ^ k := Nat.mul_lt_mul_of_pos_right hx (Nat.two_pow_pos k)
      _ ≤ 2 ^ 8 * 2 ^ 24 := Nat.mul_le_mul_left _ (Nat.pow_le_pow_right (by decide) hk)
  simp only [toUInt32LE, UInt32.toNat_or, UInt32.toNat_shiftLeft, UInt8.toNat_toUInt32]
  rw [show UInt32.toNat 8 % 32 = 8 from rfl, show UInt32.toNat 16 % 32 = 16 from rfl,
    show UInt32.toNat 24 % 32 = 24 from rfl, hfits hb (by decide), hfits hc (by decide),
    hfits hd (by decide)]
  have two : a.toNat ||| b.toNat <<< 8 = a.toNat + 2 ^ 8 * b.toNat := or_shiftLeft ha _
  have three : (a.toNat ||| b.toNat <<< 8) ||| c.toNat <<< 16 =
      a.toNat + 2 ^ 8 * b.toNat + 2 ^ 16 * c.toNat := by
    rw [two]
    exact or_shiftLeft (by omega) _
  rw [three, or_shiftLeft (by omega)]
  omega

variable {raw : Bytes} {i n : Nat}

/-- There are as many bytes behind a place as there are in all, less those before it. -/
theorem add_le_length (hn : 0 < n) : i + n ≤ raw.length ↔ n ≤ (raw.drop i).length := by
  rw [List.length_drop]
  omega

theorem readUInt16LE?_eq_some {x : UInt16} : raw.readUInt16LE? i = some x ↔
    i + 2 ≤ raw.length ∧ toNatLE ((raw.drop i).take 2) = x.toNat := by
  rw [readUInt16LE?, add_le_length (by decide)]
  generalize raw.drop i = there
  rcases there with _ | ⟨low, _ | ⟨high, rest⟩⟩
  · simp
  · simp
  · simp [toNatLE, ← UInt16.toNat_inj, toNat_toUInt16BE]

theorem readUInt16BE?_eq_some {x : UInt16} : raw.readUInt16BE? i = some x ↔
    i + 2 ≤ raw.length ∧ toNatBE ((raw.drop i).take 2) = x.toNat := by
  rw [readUInt16BE?, add_le_length (by decide)]
  generalize raw.drop i = there
  rcases there with _ | ⟨high, _ | ⟨low, rest⟩⟩
  · simp
  · simp
  · simp [toNatBE, toNatLE, ← UInt16.toNat_inj, toNat_toUInt16BE]

theorem readUInt32LE?_eq_some {x : UInt32} : raw.readUInt32LE? i = some x ↔
    i + 4 ≤ raw.length ∧ toNatLE ((raw.drop i).take 4) = x.toNat := by
  rw [readUInt32LE?, add_le_length (by decide)]
  generalize raw.drop i = there
  rcases there with _ | ⟨a, _ | ⟨b, _ | ⟨c, _ | ⟨d, rest⟩⟩⟩⟩
  · simp
  · simp
  · simp
  · simp
  · simp [toNatLE, ← UInt32.toNat_inj, toNat_toUInt32LE]

theorem slice?_eq_some {part : Octets n} :
    slice? raw i n = some part ↔ (raw.drop i).take n = part.val := by
  constructor
  · intro h
    rw [slice?] at h
    split at h
    · exact congrArg Subtype.val (Option.some.inj h)
    · cases h
  · intro h
    rw [slice?, dif_pos (by rw [h, part.property])]
    exact congrArg some (Subtype.ext h)

theorem slice_append (h : i + n ≤ raw.length) (extra : Bytes) :
    ((raw ++ extra).drop i).take n = (raw.drop i).take n := by
  rw [List.drop_append_of_le_length (by omega), List.take_append_of_le_length]
  rw [List.length_drop]
  omega

end Bytes

namespace Family

/-- A socket name opens with the number of a family. -/
def Opens (f : Family) (raw : Bytes) : Prop :=
  2 ≤ raw.length ∧ Bytes.toNatLE (raw.take 2) = f.number.toNatClampNeg

theorem opens_iff {f : Family} {raw : Bytes} : f.Opens raw ↔
    ∃ tag, raw.readUInt16LE? 0 = some tag ∧ tag.toNat = f.number.toNatClampNeg := by
  have read {x : UInt16} : raw.readUInt16LE? 0 = some x ↔
      2 ≤ raw.length ∧ Bytes.toNatLE (raw.take 2) = x.toNat := by
    simpa using (Bytes.readUInt16LE?_eq_some : raw.readUInt16LE? 0 = some x ↔ _)
  constructor
  · rintro ⟨hlen, hnumber⟩
    have own : f.number.toNatClampNeg.toUInt16.toNat = f.number.toNatClampNeg := by
      cases f <;> rfl
    exact ⟨_, read.mpr ⟨hlen, hnumber.trans own.symm⟩, own⟩
  · rintro ⟨tag, htag, own⟩
    obtain ⟨hlen, hnumber⟩ := read.mp htag
    exact ⟨hlen, hnumber.trans own⟩

/-- No name opens with the numbers of two families. -/
theorem Opens.unique {f g : Family} {raw : Bytes} (h : f.Opens raw) (h' : g.Opens raw) : f = g := by
  have same : f.number.toNatClampNeg = g.number.toNatClampNeg := h.2.symm.trans h'.2
  cases f <;> cases g <;> first | rfl | exact absurd same (by decide)

theorem opens_append {f : Family} {raw : Bytes} (h : 2 ≤ raw.length) (extra : Bytes) :
    f.Opens (raw ++ extra) ↔ f.Opens raw := by
  have same := Bytes.slice_append (i := 0) (n := 2) (by simpa using h) extra
  simp only [List.drop_zero] at same
  have hlen : 2 ≤ (raw ++ extra).length := by
    rw [List.length_append]
    omega
  rw [Opens, Opens, same]
  exact and_congr_left fun _ => iff_of_true hlen h

/-- How far the fields of an Internet family reach into a socket name. -/
def reach : Family → Nat
  | inet4 => 8
  | inet6 => 28
  | unix => 2

end Family

namespace Address

/-- The fields of an address stand in a socket name, each at the place that its family has for it. -/
def FieldsIn : Address → Bytes → Prop
  | inet4 ip port, raw =>
    8 ≤ raw.length ∧ Bytes.toNatBE ((raw.drop 2).take 2) = port.toNat ∧
      (raw.drop 4).take 4 = ip.octets.val
  | inet6 ip port flow scope, raw =>
    28 ≤ raw.length ∧ Bytes.toNatBE ((raw.drop 2).take 2) = port.toNat ∧
      Bytes.toNatLE ((raw.drop 4).take 4) = flow.toNat ∧
      (raw.drop 8).take 16 = ip.octets.val ∧
      Bytes.toNatLE ((raw.drop 24).take 4) = scope.toNat
  | unix p, raw => (raw.drop 2).takeWhile (· ≠ 0) = p.bytes ∧ Utf8.isValid p.bytes

variable {f : Family} {raw : Bytes} {a : Address}

theorem UnixPath.ofBytes?_eq_some {bytes : Bytes} {p : UnixPath} :
    UnixPath.ofBytes? bytes = some p ↔ bytes = p.bytes := by
  constructor
  · intro h
    unfold UnixPath.ofBytes? at h
    split at h
    · exact congrArg UnixPath.bytes (Option.some.inj h)
    · cases h
  · rintro rfl
    exact UnixPath.ofBytes?_bytes p

/-- A path is read of the bytes up to the first zero; that of an unnamed socket is no exception. -/
theorem unixOfRaw?_eq_some {body : Bytes} : unixOfRaw? body = some a ↔
    ∃ p, a = unix p ∧ body.takeWhile (· ≠ 0) = p.bytes ∧ Utf8.isValid p.bytes := by
  have plain : unixOfRaw? body = if Utf8.isValid (body.takeWhile (· ≠ 0)) then
      (UnixPath.ofBytes? (body.takeWhile (· ≠ 0))).map unix else none := by
    rw [unixOfRaw?]
    split
    · rename_i hnil
      rw [hnil]
      rfl
    · rfl
  rw [plain]
  constructor
  · intro h
    split at h
    · rename_i hvalid
      obtain ⟨p, hp, rfl⟩ := Option.map_eq_some_iff.mp h
      rw [UnixPath.ofBytes?_eq_some] at hp
      exact ⟨p, rfl, hp, hp ▸ hvalid⟩
    · cases h
  · rintro ⟨p, rfl, hbytes, hvalid⟩
    rw [hbytes, if_pos hvalid, UnixPath.ofBytes?_bytes]
    rfl

/-- What a family reads behind its tag. -/
def fields? (f : Family) (raw : Bytes) : Option Address :=
  match f with
  | .inet4 => do
    let port ← raw.readUInt16BE? 2
    let octets ← raw.slice? 4 4
    return inet4 ⟨octets⟩ port
  | .inet6 => do
    if raw.length < 28 then none
    let port ← raw.readUInt16BE? 2
    let flow ← raw.readUInt32LE? 4
    let octets ← raw.slice? 8 16
    let scope ← raw.readUInt32LE? 24
    return inet6 ⟨octets⟩ port flow scope
  | .unix => unixOfRaw? (raw.drop 2)

theorem ofRaw?_of_opens (h : f.Opens raw) : ofRaw? f raw = fields? f raw := by
  obtain ⟨tag, read, own⟩ := Family.opens_iff.mp h
  cases f <;> simp [ofRaw?, fields?, read, own]

theorem opens_of_ofRaw? (h : ofRaw? f raw = some a) : f.Opens raw := by
  obtain ⟨tag, read, -⟩ := Option.bind_eq_some_iff.mp h
  by_cases own : tag.toNat = f.number.toNatClampNeg
  · exact Family.opens_iff.mpr ⟨tag, read, own⟩
  · simp [ofRaw?, read, own] at h

/-- What a family reads behind its tag are the fields that stand there. -/
theorem fields?_sound (h : fields? f raw = some a) : a.family = f ∧ a.FieldsIn raw := by
  cases f with
  | inet4 =>
    obtain ⟨port, hport, h⟩ := Option.bind_eq_some_iff.mp h
    obtain ⟨octets, hoctets, h⟩ := Option.bind_eq_some_iff.mp h
    cases h
    have hip := Bytes.slice?_eq_some.mp hoctets
    have hlen : 8 ≤ raw.length := by
      have := octets.property
      rw [← hip, List.length_take, List.length_drop] at this
      omega
    exact ⟨rfl, hlen, (Bytes.readUInt16BE?_eq_some.mp hport).2, hip⟩
  | inet6 =>
    by_cases short : raw.length < 28
    · simp [fields?, short] at h
    · simp only [fields?, if_neg short] at h
      obtain ⟨port, hport, h⟩ := Option.bind_eq_some_iff.mp h
      obtain ⟨flow, hflow, h⟩ := Option.bind_eq_some_iff.mp h
      obtain ⟨octets, hoctets, h⟩ := Option.bind_eq_some_iff.mp h
      obtain ⟨scope, hscope, h⟩ := Option.bind_eq_some_iff.mp h
      cases h
      exact ⟨rfl, Nat.not_lt.mp short, (Bytes.readUInt16BE?_eq_some.mp hport).2,
        (Bytes.readUInt32LE?_eq_some.mp hflow).2, Bytes.slice?_eq_some.mp hoctets,
        (Bytes.readUInt32LE?_eq_some.mp hscope).2⟩
  | unix =>
    obtain ⟨p, rfl, hp⟩ := unixOfRaw?_eq_some.mp h
    exact ⟨rfl, hp⟩

/-- All fields that stand behind the tag are read. -/
theorem fields?_complete (h : a.FieldsIn raw) : fields? a.family raw = some a := by
  cases a with
  | inet4 ip port =>
    obtain ⟨hlen, hport, hip⟩ := h
    have hport := Bytes.readUInt16BE?_eq_some.mpr ⟨by omega, hport⟩
    have hip := Bytes.slice?_eq_some.mpr hip
    simp [family, fields?, hport, hip]
  | inet6 ip port flow scope =>
    obtain ⟨hlen, hport, hflow, hip, hscope⟩ := h
    have hport := Bytes.readUInt16BE?_eq_some.mpr ⟨by omega, hport⟩
    have hflow := Bytes.readUInt32LE?_eq_some.mpr ⟨by omega, hflow⟩
    have hip := Bytes.slice?_eq_some.mpr hip
    have hscope := Bytes.readUInt32LE?_eq_some.mpr ⟨by omega, hscope⟩
    simp [family, fields?, hport, hflow, hip, hscope, Nat.not_lt.mpr hlen]
  | unix p => exact unixOfRaw?_eq_some.mpr ⟨p, rfl, h⟩

/-- A family reads an address exactly if it is one of its own, the name opens with its number, and the
fields stand behind it. -/
theorem ofRaw?_eq_some :
    ofRaw? f raw = some a ↔ a.family = f ∧ f.Opens raw ∧ a.FieldsIn raw := by
  constructor
  · intro h
    have opens := opens_of_ofRaw? h
    rw [ofRaw?_of_opens opens] at h
    obtain ⟨own, hfields⟩ := fields?_sound h
    exact ⟨own, opens, hfields⟩
  · rintro ⟨rfl, opens, hfields⟩
    rw [ofRaw?_of_opens opens]
    exact fields?_complete hfields

/-! ### What does not count -/

theorem FieldsIn.reach_le (h : a.FieldsIn raw) (ha : a.family ≠ .unix) : a.family.reach ≤ raw.length := by
  cases a with
  | inet4 | inet6 => exact h.1
  | unix => exact absurd rfl ha

theorem fieldsIn_append (ha : a.family ≠ .unix) (h : a.family.reach ≤ raw.length)
    (extra : Bytes) : a.FieldsIn (raw ++ extra) ↔ a.FieldsIn raw := by
  have hlen : a.family.reach ≤ (raw ++ extra).length := by
    rw [List.length_append]
    exact Nat.le_add_right_of_le h
  have slice {i n : Nat} (hin : i + n ≤ a.family.reach) :
      ((raw ++ extra).drop i).take n = (raw.drop i).take n :=
    Bytes.slice_append (Nat.le_trans hin h) extra
  cases a with
  | inet4 ip port =>
    have port : 2 + 2 ≤ 8 := by decide
    have octets : 4 + 4 ≤ 8 := by decide
    rw [FieldsIn, FieldsIn, slice port, slice octets]
    exact and_congr_left fun _ => iff_of_true hlen h
  | inet6 ip port flow scope =>
    have port : 2 + 2 ≤ 28 := by decide
    have flow : 4 + 4 ≤ 28 := by decide
    have octets : 8 + 16 ≤ 28 := by decide
    have scope : 24 + 4 ≤ 28 := by decide
    rw [FieldsIn, FieldsIn, slice port, slice flow, slice octets, slice scope]
    exact and_congr_left fun _ => iff_of_true hlen h
  | unix => exact absurd rfl ha

/-- A path ends at its first zero. -/
theorem takeWhile_append_of_mem {path : Bytes} (h : 0 ∈ path) (extra : Bytes) :
    (path ++ extra).takeWhile (· ≠ 0) = path.takeWhile (· ≠ 0) := by
  induction path with
  | nil => cases h
  | cons b path ih =>
    rw [List.cons_append, List.takeWhile_cons, List.takeWhile_cons]
    by_cases hb : b = 0
    · simp [hb]
    · have : 0 ∈ path := (List.mem_cons.mp h).resolve_left fun zero => hb zero.symm
      simp only [hb, ne_eq, not_false_eq_true, decide_true, if_true, ih this]

/-! ### The contract -/

theorem unique_of_ofRaw? {g : Family} {b : Address} (h : ofRaw? f raw = some a)
    (h' : ofRaw? g raw = some b) : g = f :=
  (opens_of_ofRaw? h').unique (opens_of_ofRaw? h)

/-- An address that has been read is read again from its own name. -/
theorem ofRaw?_toRaw (h : ofRaw? f raw = some a) : ofRaw? f a.toRaw = some a := by
  obtain ⟨rfl, -, hfields⟩ := ofRaw?_eq_some.mp h
  have textual : a.Textual := by
    cases a with
    | inet4 | inet6 => trivial
    | unix p => exact hfields.2
  rw [ofRaw?_own, if_pos textual]

/-- Bytes behind the fields of an Internet address do not count. -/
theorem ofRaw?_append (hf : f ≠ .unix) (h : f.reach ≤ raw.length) (extra : Bytes) :
    ofRaw? f (raw ++ extra) = ofRaw? f raw := by
  have hlen : 2 ≤ raw.length := Nat.le_trans (by cases f <;> decide) h
  refine Option.ext fun a => ?_
  rw [ofRaw?_eq_some, ofRaw?_eq_some, Family.opens_append hlen]
  refine and_congr_right fun own => and_congr_right fun _ => ?_
  subst own
  exact fieldsIn_append hf h extra

theorem reach_le_of_ofRaw? (hf : f ≠ .unix) (h : ofRaw? f raw = some a) : f.reach ≤ raw.length := by
  obtain ⟨rfl, -, hfields⟩ := ofRaw?_eq_some.mp h
  exact hfields.reach_le hf

theorem ofRaw?_terminated (h : 0 ∈ raw.drop 2) (extra : Bytes) :
    ofRaw? .unix (raw ++ extra) = ofRaw? .unix raw := by
  have hlen : 2 ≤ raw.length := by
    have := List.length_pos_of_mem h
    rw [List.length_drop] at this
    omega
  refine Option.ext fun a => ?_
  rw [ofRaw?_eq_some, ofRaw?_eq_some, Family.opens_append hlen]
  refine and_congr_right fun own => and_congr_right fun _ => ?_
  cases a with
  | inet4 | inet6 => cases own
  | unix p =>
    rw [FieldsIn, FieldsIn, List.drop_append_of_le_length hlen, takeWhile_append_of_mem h]

/-- What it comes to when a family reads bytes as a socket name. -/
structure Reading (f : Family) (raw : Bytes) : Prop where
  /-- What is read are the fields that stand there, and they are read whenever they do. -/
  exactly : ∀ a, ofRaw? f raw = some a ↔ a.family = f ∧ f.Opens raw ∧ a.FieldsIn raw
  /-- No other family reads anything of the same bytes. -/
  alone : ∀ g, (ofRaw? f raw).isSome → (ofRaw? g raw).isSome → g = f
  /-- The name of what has been read is read as the same address. -/
  again : ∀ a, ofRaw? f raw = some a → ofRaw? f a.toRaw = some a
  /-- Bytes behind the fields of an Internet address do not count. -/
  trailing : f ≠ .unix → ∀ a, ofRaw? f raw = some a → ∀ extra, ofRaw? f (raw ++ extra) = some a
  /-- Nor do bytes behind the zero that ends a path. -/
  terminated : f = .unix → 0 ∈ raw.drop 2 → ∀ extra, ofRaw? f (raw ++ extra) = ofRaw? f raw

/-- Whatever the bytes are, they are read as the address whose fields stand there, or not at all. -/
theorem reading_contract (f : Family) (raw : Bytes) : Reading f raw where
  exactly _ := ofRaw?_eq_some
  alone _ h h' := by
    obtain ⟨a, ha⟩ := Option.isSome_iff_exists.mp h
    obtain ⟨b, hb⟩ := Option.isSome_iff_exists.mp h'
    exact unique_of_ofRaw? ha hb
  again _ h := ofRaw?_toRaw h
  trailing hf _ h extra := (ofRaw?_append hf (reach_le_of_ofRaw? hf h) extra).trans h
  terminated hf h extra := by
    subst hf
    exact ofRaw?_terminated h extra

/-- A path is read up to the zero inside, whatever stands behind it. -/
example : ofRaw? .unix [1, 0, 47, 97, 0, 255] = some (unix ⟨[47, 97], by decide, by decide⟩) := by
  decide

/-! ### Names that are cut off -/

/-- Of a name that is cut off before its end nothing is read, as long as fields are missing. Only a name
of version 4 has bytes behind its fields, and is read without them. -/
theorem truncated_contract (a : Address) (ha : a.family ≠ .unix) (raw : Bytes)
    (hcut : raw <+: a.toRaw) (hstrict : raw ≠ a.toRaw) :
    a.toRaw.length = (if a.family = .inet4 then 16 else 28) ∧
      ofRaw? a.family raw = if a.family = .inet4 ∧ 8 ≤ raw.length then some a else none := by
  have hshort : raw.length < a.toRaw.length :=
    Nat.lt_of_le_of_ne hcut.length_le fun same => hstrict (hcut.eq_of_length same)
  have missing (h : raw.length < a.family.reach) : ofRaw? a.family raw = none :=
    Option.eq_none_iff_forall_ne_some.mpr fun _ hread =>
      Nat.not_lt.mpr (reach_le_of_ofRaw? ha hread) h
  obtain ⟨rest, hrest⟩ := hcut
  cases a with
  | inet4 ip port =>
    refine ⟨length_toRaw (inet4 ip port), ?_⟩
    by_cases hreach : 8 ≤ raw.length
    · have hread : ofRaw? .inet4 (raw ++ rest) = some (inet4 ip port) := hrest ▸ ofRaw?_own _
      rw [if_pos ⟨rfl, hreach⟩]
      exact (ofRaw?_append ha hreach rest).symm.trans hread
    · rw [if_neg fun h => hreach h.2]
      exact missing (Nat.not_le.mp hreach)
  | inet6 ip port flow scope =>
    have hwhole := length_toRaw (inet6 ip port flow scope)
    exact ⟨hwhole, missing (Nat.lt_of_lt_of_eq hshort hwhole)⟩
  | unix => exact absurd rfl ha

/-- The name of a port on this machine, without its last byte: of version 6 nothing is read. -/
theorem truncated_contract_loopback :
    (inet6 .loopback 80 0 0).family ≠ .unix ∧
    (inet6 .loopback 80 0 0).toRaw.take 27 <+: (inet6 .loopback 80 0 0).toRaw ∧
    (inet6 .loopback 80 0 0).toRaw.take 27 ≠ (inet6 .loopback 80 0 0).toRaw ∧
    ofRaw? .inet6 ((inet6 .loopback 80 0 0).toRaw.take 27) = none := by
  have ha : (inet6 .loopback 80 0 0).family ≠ .unix := by decide
  have hcut := List.take_prefix 27 (inet6 .loopback 80 0 0).toRaw
  have hstrict : (inet6 .loopback 80 0 0).toRaw.take 27 ≠ (inet6 .loopback 80 0 0).toRaw := by
    decide
  exact ⟨ha, hcut, hstrict, (truncated_contract _ ha _ hcut hstrict).2⟩

/-- Of version 4 the address is read, although half of the name is missing. -/
theorem halfName_read :
    (inet4 .loopback 80).toRaw.take 8 <+: (inet4 .loopback 80).toRaw ∧
    (inet4 .loopback 80).toRaw.take 8 ≠ (inet4 .loopback 80).toRaw ∧
    ofRaw? (inet4 .loopback 80).family ((inet4 .loopback 80).toRaw.take 8) =
      some (inet4 .loopback 80) :=
  ⟨List.take_prefix .., by decide, by decide⟩

end Address

end Conduit
