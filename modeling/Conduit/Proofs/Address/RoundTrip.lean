import Conduit.Address.Raw

/-!
Reading back what was written: the numbers inside a socket name, then whole socket names. A name is
read by its own family alone, and gives the address it was made of with every field the same. The one
exception are local paths that are not text: they can be written but not read.
-/

namespace Conduit

namespace Bytes

/-! Numbers of fixed width, at the places where they are written. -/

theorem toUInt16BE_halves (x : UInt16) : toUInt16BE (x >>> 8).toUInt8 x.toUInt8 = x := by
  apply UInt16.toBitVec_inj.1
  ext i hi
  simp [toUInt16BE, -UInt16.toUInt16_toUInt8]
  grind

theorem toUInt32LE_quarters (x : UInt32) :
    toUInt32LE x.toUInt8 (x >>> 8).toUInt8 (x >>> 16).toUInt8 (x >>> 24).toUInt8 = x := by
  apply UInt32.toBitVec_inj.1
  ext i hi
  simp [toUInt32LE, -UInt32.toUInt32_toUInt8]
  grind

@[simp] theorem length_ofUInt16BE (x : UInt16) : (ofUInt16BE x).length = 2 := rfl

@[simp] theorem length_ofUInt16LE (x : UInt16) : (ofUInt16LE x).length = 2 := rfl

@[simp] theorem length_ofUInt32LE (x : UInt32) : (ofUInt32LE x).length = 4 := rfl

theorem readUInt16BE?_append {i : Nat} (front : Bytes) (h : front.length = i) (x : UInt16)
    (rest : Bytes) : readUInt16BE? (front ++ (ofUInt16BE x ++ rest)) i = some x := by
  rw [readUInt16BE?, List.drop_left' h]
  simp [ofUInt16BE, toUInt16BE_halves]

theorem readUInt16LE?_append (x : UInt16) (rest : Bytes) :
    readUInt16LE? (ofUInt16LE x ++ rest) 0 = some x := by
  simp [readUInt16LE?, ofUInt16LE, toUInt16BE_halves]

theorem readUInt32LE?_append {i : Nat} (front : Bytes) (h : front.length = i) (x : UInt32)
    (rest : Bytes) : readUInt32LE? (front ++ (ofUInt32LE x ++ rest)) i = some x := by
  rw [readUInt32LE?, List.drop_left' h]
  simp [ofUInt32LE, toUInt32LE_quarters]

theorem slice?_append {i n : Nat} (front : Bytes) (h : front.length = i) (part : Octets n)
    (rest : Bytes) : slice? (front ++ (part.val ++ rest)) i n = some part := by
  have cut : ((front ++ (part.val ++ rest)).drop i).take n = part.val := by
    rw [List.drop_left' h, List.take_left' part.property]
  rw [slice?, dif_pos (by rw [cut, part.property])]
  exact congrArg some (Subtype.ext cut)

end Bytes

namespace Family

@[simp] theorem length_tag (f : Family) : f.tag.length = 2 := rfl

/-- The tag at the head of a name is the number of its own family and of no other. -/
theorem readTag (f g : Family) (rest : Bytes) :
    ∃ tag, Bytes.readUInt16LE? (g.tag ++ rest) 0 = some tag ∧
      (tag.toNat = f.number.toNatClampNeg ↔ f = g) := by
  refine ⟨_, Bytes.readUInt16LE?_append _ rest, ?_⟩
  cases f <;> cases g <;> decide

end Family

namespace Address

/-- An address whose name holds nothing but numbers, or a path that is text. -/
def Textual : Address → Prop
  | unix p => Utf8.isValid p.bytes
  | inet4 .. | inet6 .. => True

instance : (a : Address) → Decidable a.Textual
  | unix p => inferInstanceAs (Decidable (Utf8.isValid p.bytes = true))
  | inet4 .. | inet6 .. => inferInstanceAs (Decidable True)

/-- The length of a socket name is told without making it. -/
theorem length_toRaw (a : Address) : a.toRaw.length = a.rawLength := by
  cases a with
  | inet4 ip port => simp [toRaw, rawLength, ip.octets.property]
  | inet6 ip port flow scope => simp [toRaw, rawLength, ip.octets.property]
  | unix p =>
    simp only [toRaw, rawLength, List.length_append, Family.length_tag]
    split <;> simp
    omega

/-- A name that opens with the tag of another family is not read. -/
theorem ofRaw?_foreign {f g : Family} (h : f ≠ g) (rest : Bytes) :
    ofRaw? f (g.tag ++ rest) = none := by
  obtain ⟨tag, read, own⟩ := Family.readTag f g rest
  have foreign : tag.toNat ≠ f.number.toNatClampNeg := fun same => h (own.1 same)
  simp [ofRaw?, read, foreign]

/-- The bytes of a path end where its terminator stands, since none of them is zero. -/
theorem takeWhile_terminated {path : Bytes} (h : 0 ∉ path) :
    (path ++ [0]).takeWhile (· ≠ 0) = path := by
  have all : ∀ b ∈ path, decide (b ≠ 0) = true := by
    intro b hb
    have : b ≠ 0 := fun zero => h (zero ▸ hb)
    simpa using this
  rw [List.takeWhile_append_of_pos all]
  simp

theorem UnixPath.ofBytes?_bytes (p : UnixPath) : UnixPath.ofBytes? p.bytes = some p := by
  simp [UnixPath.ofBytes?, p.no_zero, p.short]

/-- A path that is text is read back; one that is not gives no address. -/
theorem unixOfRaw?_body (p : UnixPath) :
    unixOfRaw? (if p.isUnnamed then [] else p.bytes ++ [0]) =
      if (unix p).Textual then some (unix p) else none := by
  by_cases named : p.bytes = []
  · have unnamed : p = .unnamed := by
      cases p
      cases named
      rfl
    subst unnamed
    decide
  · have body : (if p.isUnnamed then [] else p.bytes ++ [0]) = p.bytes ++ [0] := by
      simp [UnixPath.isUnnamed, named]
    rw [body, unixOfRaw?, takeWhile_terminated p.no_zero, if_neg named, UnixPath.ofBytes?_bytes]
    rfl

/-- Its own family reads an address back with every field the same, unless its path is not text. -/
theorem ofRaw?_own (a : Address) :
    ofRaw? a.family a.toRaw = if a.Textual then some a else none := by
  cases a with
  | inet4 ip port =>
    obtain ⟨tag, readTag, own⟩ := Family.readTag .inet4 .inet4
      (Bytes.ofUInt16BE port ++ (ip.octets.val ++ List.replicate 8 0))
    have readPort := Bytes.readUInt16BE?_append _ (Family.length_tag .inet4) port
      (ip.octets.val ++ List.replicate 8 0)
    have readIp := Bytes.slice?_append (i := 4) (Family.inet4.tag ++ Bytes.ofUInt16BE port)
      rfl ip.octets (List.replicate 8 0)
    simp only [List.append_assoc] at readIp
    simp only [ofRaw?, toRaw, family, List.append_assoc, readTag, readPort, readIp]
    simp [own.2 rfl, Textual]
  | inet6 ip port flow scope =>
    have whole := length_toRaw (inet6 ip port flow scope)
    obtain ⟨tag, readTag, own⟩ := Family.readTag .inet6 .inet6 (Bytes.ofUInt16BE port ++
      (Bytes.ofUInt32LE flow ++ (ip.octets.val ++ Bytes.ofUInt32LE scope)))
    have readPort := Bytes.readUInt16BE?_append _ (Family.length_tag .inet6) port
      (Bytes.ofUInt32LE flow ++ (ip.octets.val ++ Bytes.ofUInt32LE scope))
    have readFlow := Bytes.readUInt32LE?_append (i := 4)
      (Family.inet6.tag ++ Bytes.ofUInt16BE port) rfl flow
      (ip.octets.val ++ Bytes.ofUInt32LE scope)
    have readIp := Bytes.slice?_append (i := 8)
      (Family.inet6.tag ++ (Bytes.ofUInt16BE port ++ Bytes.ofUInt32LE flow)) rfl
      ip.octets (Bytes.ofUInt32LE scope)
    have readScope := Bytes.readUInt32LE?_append (i := 24)
      (Family.inet6.tag ++
        (Bytes.ofUInt16BE port ++ (Bytes.ofUInt32LE flow ++ ip.octets.val)))
      (by simp [ip.octets.property]) scope []
    simp only [List.append_assoc, List.append_nil] at readFlow readIp readScope
    simp only [toRaw, family, rawLength, List.append_assoc] at whole
    simp only [ofRaw?, toRaw, family, List.append_assoc, readTag, whole, readPort, readFlow, readIp,
      readScope]
    simp [own.2 rfl, Textual]
  | unix p =>
    obtain ⟨tag, readTag, own⟩ := Family.readTag .unix .unix
      (if p.isUnnamed then [] else p.bytes ++ [0])
    have behind : (Family.unix.tag ++ if p.isUnnamed then [] else p.bytes ++ [0]).drop 2 =
        if p.isUnnamed then [] else p.bytes ++ [0] :=
      List.drop_left' (Family.length_tag .unix)
    rw [← unixOfRaw?_body]
    simp only [ofRaw?, toRaw, family, readTag, behind]
    simp [own.2 rfl]

/-- What can be read of a written address: the length of the name is the one foretold; its own family
reads every field back unless the path is not text, and no other family reads anything. -/
theorem roundTrip (a : Address) :
    a.toRaw.length = a.rawLength ∧
      ∀ f, ofRaw? f a.toRaw = if f = a.family ∧ a.Textual then some a else none := by
  refine ⟨length_toRaw a, fun f => ?_⟩
  by_cases own : f = a.family
  · subst own
    simpa using ofRaw?_own a
  · rw [if_neg fun both => own both.1]
    exact ofRaw?_foreign own _

/-- A path of one byte that no text has. -/
def strayPath : UnixPath := ⟨[0xff], by decide, by decide⟩

/-- Such a path makes an address whose name its own family does not read. -/
theorem strayPath_lost : ofRaw? (unix strayPath).family (unix strayPath).toRaw = none := by
  decide

end Address

end Conduit
