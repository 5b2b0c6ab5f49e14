import Conduit.Proofs.Kernel.Changes

/-!
Streams. Linked descriptors come in pairs, and a descriptor that is linked stays so. What one end of
a stream accepts is handed out by the other end in the same order, or lies there; it can be lost only
once nothing more can be sent.
-/

namespace Conduit.Kernel

open Pipe (Poll)

/-- The bytes that descriptors have accepted and handed out. -/
structure Log where
  accepted : Nat → Bytes := fun _ => []
  handed : Nat → Bytes := fun _ => []

namespace Log

/-- The descriptor `d` accepts more bytes. -/
def accept (log : Log) (d : Nat) (bytes : Bytes) : Log :=
  { log with accepted := fun b => log.accepted b ++ if b = d then bytes else [] }

/-- The descriptor `d` hands out more bytes. -/
def hand (log : Log) (d : Nat) (bytes : Bytes) : Log :=
  { log with handed := fun b => log.handed b ++ if b = d then bytes else [] }

variable (log : Log) (d : Nat) (bytes : Bytes)

@[simp] theorem handed_accept : (log.accept d bytes).handed = log.handed := rfl

@[simp] theorem accepted_accept (b : Nat) :
    (log.accept d bytes).accepted b = log.accepted b ++ if b = d then bytes else [] := rfl

@[simp] theorem handed_hand (b : Nat) :
    (log.hand d bytes).handed b = log.handed b ++ if b = d then bytes else [] := rfl

@[simp] theorem accept_nil : log.accept d [] = log := by simp [accept]

@[simp] theorem hand_nil : log.hand d [] = log := by simp [hand]

end Log

namespace System

variable {s s' s'' : System} {log : Log}

/-- A stream that is linked to the descriptor `e`. -/
def Joined (s : System) (d e : Nat) : Prop :=
  s.type? d = some .stream ∧ ∃ a, s.role? d = some (.connected (some e) a)

/-- A descriptor that is no linked stream. -/
def Single (s : System) (d : Nat) : Prop := ∀ e, ¬s.Joined d e

/-- A descriptor that is there and is no stream. -/
def Messages (s : System) (d : Nat) : Prop := ∃ t, s.type? d = some t ∧ t ≠ .stream

/-- Those that are connected are of the same type, and a stream has a partner then. -/
def Matched (s : System) : Prop :=
  ∀ d t o a, s.type? d = some t → s.role? d = some (.connected o a) →
    (∀ e, o = some e → s.type? e = some t) ∧ (o = none → t ≠ .stream)

/-- What was accepted by `d` has been handed out by `e` or lies there. -/
def Carried (s : System) (log : Log) (d e : Nat) : Prop :=
  log.handed e ++ contents (s.inbox e) = log.accepted d ∨
    s.Ended d ∧ s.inbox e = [] ∧ log.handed e <+: log.accepted d

/-- All streams carry their bytes. -/
structure Streams (s : System) (log : Log) : Prop where
  matched : s.Matched
  paired : ∀ d e, s.Joined d e → s.Joined e d
  carried : ∀ d e, s.Joined d e → s.Carried log d e
  single : ∀ d, ¬s.Messages d → s.Single d →
    log.accepted d = [] ∧ log.handed d = [] ∧ s.inbox d = []

theorem Joined.unique {d e e' : Nat} (h : s.Joined d e) (h' : s.Joined d e') : e = e' := by
  obtain ⟨-, a, ha⟩ := h
  obtain ⟨-, b, hb⟩ := h'
  rw [ha] at hb
  injection hb with hb
  injection hb with hb
  injection hb

/-- What a stream hands out is what its partner accepted. -/
theorem Streams.in_order (h : s.Streams log) {d e : Nat} (hj : s.Joined d e) :
    log.handed e <+: log.accepted d := by
  rcases h.carried d e hj with h | h
  · exact h ▸ List.prefix_append ..
  · exact h.2.2

theorem partner?_of_joined {d e : Nat} (h : s.Joined d e) : s.partner? d = some e := by
  obtain ⟨ht, a, ha⟩ := h
  obtain ⟨x, hx, htype⟩ := Option.map_eq_some_iff.mp ht
  have hrole : x.role = .connected (some e) a := by simpa [role?, hx] using ha
  simp [partner?, hx, hrole, htype, SocketType.stream, SocketType.datagram]

/-! ### What leaves streams alone -/

/-- No descriptor is linked or parted, and none is revived. -/
structure Alike (s s' : System) : Prop where
  type : ∀ d t, s.type? d = some t → s'.type? d = some t
  joined : ∀ d e, s'.Joined d e ↔ s.Joined d e
  matched : s.Matched → s'.Matched
  ended : ∀ d, s.Ended d → s'.Ended d

/-- Besides, what lies at a stream stays there, unless nothing more can be sent to it. -/
structure Stays (s s' : System) : Prop extends s.Alike s' where
  inbox : ∀ d, ¬s'.Messages d →
    s'.inbox d = s.inbox d ∨ s'.inbox d = [] ∧ ∀ e, s.Joined e d → s'.Ended e

theorem Alike.refl (s : System) : s.Alike s :=
  ⟨fun _ _ => id, fun _ _ => .rfl, id, fun _ => id⟩

theorem Alike.trans (h : s.Alike s') (h' : s'.Alike s'') : s.Alike s'' where
  type d t ht := h'.type d t (h.type d t ht)
  joined d e := (h'.joined d e).trans (h.joined d e)
  matched hs := h'.matched (h.matched hs)
  ended d hd := h'.ended d (h.ended d hd)

theorem Alike.messages (h : s.Alike s') {d : Nat} (hd : s.Messages d) : s'.Messages d := by
  obtain ⟨t, ht, hne⟩ := hd
  exact ⟨t, h.type d t ht, hne⟩

theorem Alike.single (h : s.Alike s') {d : Nat} : s'.Single d ↔ s.Single d :=
  forall_congr' fun e => not_congr (h.joined d e)

theorem Stays.refl (s : System) : s.Stays s := ⟨.refl s, fun _ _ => .inl rfl⟩

theorem Stays.trans (h : s.Stays s') (h' : s'.Stays s'') : s.Stays s'' := by
  refine ⟨h.toAlike.trans h'.toAlike, fun d hd => ?_⟩
  have hd' : ¬s'.Messages d := fun hm => hd (h'.messages hm)
  rcases h'.inbox d hd with heq | ⟨hnil, hended⟩
  · rcases h.inbox d hd' with heq' | ⟨hnil, hended⟩
    · exact .inl (heq.trans heq')
    · exact .inr ⟨heq.trans hnil, fun e he => h'.ended e (hended e he)⟩
  · exact .inr ⟨hnil, fun e he => hended e ((h.joined e d).mpr he)⟩

theorem Stays.streams (h : s.Stays s') (hs : s.Streams log) : s'.Streams log where
  matched := h.matched hs.matched
  paired d e hj := (h.joined e d).mpr (hs.paired d e ((h.joined d e).mp hj))
  carried d e hj := by
    have hold := (h.joined d e).mp hj
    have hstream : ¬s'.Messages e := by
      rintro ⟨t, ht, hne⟩
      obtain ⟨hte, -⟩ := (h.joined e d).mpr (hs.paired d e hold)
      exact hne (Option.some.inj (ht.symm.trans hte))
    have hcarried := hs.carried d e hold
    rcases h.inbox e hstream with heq | ⟨hnil, hended⟩
    · rcases hcarried with hc | ⟨he, hnil, hc⟩
      · exact .inl (heq ▸ hc)
      · exact .inr ⟨h.ended d he, heq.trans hnil, hc⟩
    · exact .inr ⟨hended d hold, hnil, hs.in_order hold⟩
  single d hd hsingle := by
    have hold : ¬s.Messages d := fun hm => hd (h.messages hm)
    obtain ⟨ha, hh, hi⟩ := hs.single d hold (h.single.mp hsingle)
    refine ⟨ha, hh, ?_⟩
    rcases h.inbox d hd with heq | ⟨hnil, -⟩
    · exact heq.trans hi
    · exact hnil

theorem Retains.stays (h : s.Retains s') : s.Stays s' where
  type d t ht := (h.type d).trans ht
  joined d e := by rw [Joined, Joined, h.type, h.role]
  matched hm d t o a ht hr := by
    rw [h.type] at ht
    rw [h.role] at hr
    exact (hm d t o a ht hr).imp_left fun hall e he => (h.type e).trans (hall e he)
  ended := h.ended
  inbox d _ := .inl (h.inbox d)

section Modify

variable {d : Nat} {f : Descriptor → Descriptor}

/-- A descriptor that is no linked stream gets another role, or every role stays. -/
theorem Alike.modify (htype : ∀ x, (f x).type = x.type)
    (hended : ∀ x, x.writeEnded = true → (f x).writeEnded = true)
    (hrole : ∀ x, s.descriptors[d]? = some x → (f x).role = x.role ∨ s.Single d ∧
      ∀ o a, (f x).role = .connected o a → x.type ≠ .stream ∧
        ∀ e, o = some e → s.type? e = some x.type) : s.Alike (s.modify d f) := by
  -- A stream that gets another role was linked to nobody, and is so in its new role.
  have hjoined (b e : Nat) : (s.modify d f).Joined b e ↔ s.Joined b e := by
    rw [Joined, Joined, type?_modify htype, role?_modify]
    by_cases hdb : d = b
    · subst hdb
      rw [if_pos rfl]
      cases hx : s.descriptors[d]? with
      | none => simp [role?, hx]
      | some x =>
        rcases hrole x hx with heq | ⟨hsingle, hnew⟩
        · simp [role?, hx, heq]
        · constructor
          · rintro ⟨ht, a, ha⟩
            obtain ⟨hne, -⟩ := hnew (some e) a (by simpa using ha)
            exact absurd (by simpa [type?, hx] using ht) hne
          · exact fun h => absurd h (hsingle e)
    · rw [if_neg hdb]
  refine ⟨fun b t ht => (type?_modify htype b).trans ht, hjoined, fun hm b t o a ht hr => ?_,
    fun b hb => ended_modify hended hb⟩
  simp only [type?_modify htype] at ht ⊢
  rw [role?_modify] at hr
  by_cases hdb : d = b
  · subst hdb
    rw [if_pos rfl] at hr
    obtain ⟨x, hx, hr⟩ := Option.map_eq_some_iff.mp hr
    obtain rfl : x.type = t := by simpa [type?, hx] using ht
    rcases hrole x hx with heq | ⟨-, hnew⟩
    · exact hm d _ o a ht (by simp [role?, hx, ← hr, heq])
    · obtain ⟨hne, htypes⟩ := hnew o a hr
      exact ⟨htypes, fun _ => hne⟩
  · rw [if_neg hdb] at hr
    exact hm b t o a ht hr

/-- As before, with what lies there left alone. -/
theorem Stays.modify (htype : ∀ x, (f x).type = x.type) (hinbox : ∀ x, (f x).inbox = x.inbox)
    (hended : ∀ x, x.writeEnded = true → (f x).writeEnded = true)
    (hrole : ∀ x, s.descriptors[d]? = some x → (f x).role = x.role ∨ s.Single d ∧
      ∀ o a, (f x).role = .connected o a → x.type ≠ .stream ∧
        ∀ e, o = some e → s.type? e = some x.type) : s.Stays (s.modify d f) :=
  ⟨.modify htype hended hrole, fun b _ => .inl (inbox_modify hinbox b)⟩

end Modify

/-! ### New descriptors and new links -/

theorem getElem?_appended (s : System) (y : Descriptor) (b : Nat) :
    (s.descriptors ++ [y])[b]? =
      if b = s.descriptors.length then some y else s.descriptors[b]? := by
  rcases Nat.lt_trichotomy b s.descriptors.length with hlt | rfl | hgt
  · rw [List.getElem?_append_left hlt, if_neg (Nat.ne_of_lt hlt)]
  · simp
  · rw [if_neg (Nat.ne_of_gt hgt), List.getElem?_eq_none (Nat.le_of_lt hgt),
      List.getElem?_eq_none (by simp; omega)]

theorem ne_length_of_type? {b : Nat} {t : SocketType} (h : s.type? b = some t) :
    b ≠ s.descriptors.length := by
  rintro rfl
  simp [type?] at h

/-- A new descriptor that is linked to nothing. -/
theorem Stays.append (s : System) {y : Descriptor} (hrole : y.role = .idle) (hinbox : y.inbox = []) :
    s.Stays { s with descriptors := s.descriptors ++ [y] } := by
  have hjoined (b e : Nat) :
      Joined { s with descriptors := s.descriptors ++ [y] } b e ↔ s.Joined b e := by
    simp only [Joined, type?, role?, getElem?_appended]
    split
    · rename_i hb
      simp [hb, hrole]
    · rfl
  refine ⟨⟨fun b t ht => ?_, hjoined, fun hm b t o a ht hr => ?_, fun b hb => ?_⟩,
    fun b _ => .inl ?_⟩
  · rw [type?, getElem?_appended, if_neg (ne_length_of_type? ht)]
    exact ht
  · rw [type?, getElem?_appended] at ht
    rw [role?, getElem?_appended] at hr
    split at ht
    · rename_i hb
      simp [hb, hrole] at hr
    · rename_i hb
      rw [if_neg hb] at hr
      refine (hm b t o a ht hr).imp_left fun h e he => ?_
      rw [type?, getElem?_appended, if_neg (ne_length_of_type? (h e he))]
      exact h e he
  · obtain ⟨x, hx, -⟩ := Option.map_eq_some_iff.mp hb
    rw [Ended, getElem?_appended, if_neg (Nat.ne_of_lt (List.getElem?_eq_some_iff.mp hx).1)]
    exact hb
  · simp only [System.inbox, getElem?_appended]
    split
    · rename_i hb
      simp [hb, hinbox]
    · rfl

/-- Nobody is linked who was there, but `o` perhaps. -/
structure Spares (s s' : System) (o : Option Nat) : Prop where
  type : ∀ b t, s.type? b = some t → s'.type? b = some t
  single : ∀ b t, s.type? b = some t → o ≠ some b → s.Single b → s'.Single b

/-- Besides, streams go on carrying their bytes. -/
structure Goes (s s' : System) (o : Option Nat) : Prop extends s.Spares s' o where
  streams : ∀ log, s.Streams log → s'.Streams log

variable {o : Option Nat}

theorem Alike.spares (h : s.Alike s') (o : Option Nat) : s.Spares s' o :=
  ⟨h.type, fun _ _ _ _ hb => h.single.mpr hb⟩

theorem Stays.goes (h : s.Stays s') (o : Option Nat) : s.Goes s' o :=
  ⟨h.spares o, fun _ => h.streams⟩

theorem Goes.refl (s : System) (o : Option Nat) : s.Goes s o := (Stays.refl s).goes o

/-- Where nobody is linked, `d` is at most. -/
theorem Goes.widen {d : Nat} (h : s.Goes s' none) : s.Goes s' (some d) :=
  ⟨⟨h.type, fun b t hb _ => h.single b t hb nofun⟩, h.streams⟩

theorem Goes.trans (h : s.Goes s' o) (h' : s'.Goes s'' o) : s.Goes s'' o where
  type b t hb := h'.type b t (h.type b t hb)
  single b t hb ho hs := h'.single b t (h.type b t hb) ho (h.single b t hb ho hs)
  streams log hs := h'.streams log (h.streams log hs)

/-- The new descriptor `n`, and `d` that was linked to nothing, are linked to each other. -/
structure Couples (s s' : System) (d n : Nat) (t : SocketType) : Prop where
  new : s.type? n = none
  old : s.type? d = some t
  single : s.Single d
  type : ∀ b, s'.type? b = if b = n then some t else s.type? b
  role : ∃ near far, ∀ b, s'.role? b = if b = n then some (.connected (some d) near)
    else if b = d then some (.connected (some n) far) else s.role? b
  inbox : ∀ b, s'.inbox b = s.inbox b
  ended : ∀ b, s.Ended b → s'.Ended b

section Couples

variable {d n : Nat} {t : SocketType}

theorem Couples.ne (h : s.Couples s' d n t) {b : Nat} {t' : SocketType}
    (hb : s.type? b = some t') : b ≠ n := by
  rintro rfl
  simp [h.new] at hb

theorem Couples.type_old (h : s.Couples s' d n t) {b : Nat} {t' : SocketType}
    (hb : s.type? b = some t') : s'.type? b = some t' := by
  rw [h.type, if_neg (h.ne hb), hb]

theorem Couples.joined (h : s.Couples s' d n t) (b e : Nat) : s'.Joined b e ↔
    t = .stream ∧ (b = n ∧ e = d ∨ b = d ∧ e = n) ∨ b ≠ d ∧ s.Joined b e := by
  obtain ⟨near, far, hrole⟩ := h.role
  have hdn : d ≠ n := h.ne h.old
  have habsent (e : Nat) : ¬s.Joined n e := fun hn => h.ne hn.1 rfl
  rw [Joined, h.type, hrole]
  by_cases hbn : b = n
  · subst hbn
    simp [habsent, Ne.symm hdn, eq_comm]
  · by_cases hbd : b = d
    · subst hbd
      simp [hbn, h.old, eq_comm]
    · simp [hbn, hbd, Joined]

theorem Couples.matched (h : s.Couples s' d n t) (hs : s.Matched) : s'.Matched := by
  obtain ⟨near, far, hrole⟩ := h.role
  intro b t' o a ht hr
  rw [h.type] at ht
  rw [hrole] at hr
  by_cases hbn : b = n
  · rw [if_pos hbn] at ht hr
    cases ht
    cases hr
    refine ⟨fun e he => ?_, nofun⟩
    cases he
    exact h.type_old h.old
  · rw [if_neg hbn] at ht hr
    by_cases hbd : b = d
    · rw [if_pos hbd] at hr
      cases hr
      refine ⟨fun e he => ?_, nofun⟩
      cases he
      rw [h.type, if_pos rfl, ← h.old, ← hbd, ht]
    · rw [if_neg hbd] at hr
      exact (hs b t' o a ht hr).imp_left fun hold e he => h.type_old (hold e he)

/-- Neither of the two has moved anything yet. -/
theorem Couples.still (h : s.Couples s' d n t) (hs : s.Streams log) (ht : t = .stream) {b : Nat}
    (hb : b = n ∨ b = d) : log.accepted b = [] ∧ log.handed b = [] ∧ s.inbox b = [] := by
  rcases hb with rfl | rfl
  · exact hs.single _ (fun ⟨t', ht', _⟩ => h.ne ht' rfl) fun e he => h.ne he.1 rfl
  · refine hs.single _ (fun ⟨t', ht', hne⟩ => hne ?_) h.single
    exact Option.some.inj (ht'.symm.trans (h.old.trans (congrArg some ht)))

theorem Couples.paired (h : s.Couples s' d n t) (hs : ∀ b e, s.Joined b e → s.Joined e b) (b e : Nat)
    (he : s'.Joined b e) : s'.Joined e b := by
  rcases (h.joined b e).mp he with ⟨ht, hb⟩ | ⟨hbd, he⟩
  · refine (h.joined e b).mpr (.inl ⟨ht, ?_⟩)
    rcases hb with ⟨rfl, rfl⟩ | ⟨rfl, rfl⟩
    · exact .inr ⟨rfl, rfl⟩
    · exact .inl ⟨rfl, rfl⟩
  · refine (h.joined e b).mpr (.inr ⟨?_, hs b e he⟩)
    rintro rfl
    exact h.single b (hs b e he)

theorem Couples.streams (h : s.Couples s' d n t) (hs : s.Streams log) : s'.Streams log where
  matched := h.matched hs.matched
  paired := h.paired hs.paired
  carried b e he := by
    rcases (h.joined b e).mp he with ⟨ht, hb⟩ | ⟨-, he⟩
    · have hboth : (b = n ∨ b = d) ∧ (e = n ∨ e = d) := by
        rcases hb with ⟨rfl, rfl⟩ | ⟨rfl, rfl⟩ <;> simp
      obtain ⟨hacc, -, -⟩ := h.still hs ht hboth.1
      obtain ⟨-, hhand, hin⟩ := h.still hs ht hboth.2
      exact .inl (by simp [hacc, hhand, h.inbox, hin])
    · rw [Carried, h.inbox]
      exact (hs.carried b e he).imp_right (.imp_left (h.ended b))
  single b hm hsingle := by
    rw [h.inbox]
    by_cases hb : t = .stream ∧ (b = n ∨ b = d)
    · exact h.still hs hb.1 hb.2
    · have hbn : b ≠ n := by
        rintro rfl
        exact hm ⟨t, by rw [h.type, if_pos rfl], fun ht => hb ⟨ht, .inl rfl⟩⟩
      refine hs.single b (fun ⟨t', ht', hne⟩ => hm ⟨t', h.type_old ht', hne⟩) fun e he => ?_
      by_cases hbd : b = d
      · subst hbd
        exact h.single e he
      · exact hsingle e ((h.joined b e).mpr (.inr ⟨hbd, he⟩))

theorem Couples.goes (h : s.Couples s' d n t) : s.Goes s' (some d) where
  type _ _ := h.type_old
  single b t' hb hbd hsingle e he := by
    rcases (h.joined b e).mp he with ⟨-, ⟨rfl, -⟩ | ⟨rfl, -⟩⟩ | ⟨-, he⟩
    · exact h.ne hb rfl
    · exact hbd rfl
    · exact hsingle e he
  streams _ := h.streams

end Couples

/-- A descriptor gets a new one at its other end. -/
theorem couples_append {d : Nat} {far near : Address} {other : Descriptor} (hd : s.Single d)
    (htype : s.type? d = some other.type) (hother : other.role = .connected (some d) near)
    (hinbox : other.inbox = []) :
    s.Couples (modify { s with descriptors := s.descriptors ++ [other] } d fun x =>
      { x with role := .connected (some s.descriptors.length) far }) d s.descriptors.length
      other.type where
  new := by simp [type?]
  old := htype
  single := hd
  type b := by
    rw [type?_modify (by intro; rfl), type?, getElem?_appended]
    split <;> rfl
  role := by
    refine ⟨near, far, fun b => ?_⟩
    have hdn : d ≠ s.descriptors.length := ne_length_of_type? htype
    rw [role?_modify]
    by_cases hbd : d = b
    · subst hbd
      obtain ⟨x, hx, -⟩ := Option.map_eq_some_iff.mp htype
      rw [if_pos rfl, if_neg hdn, if_pos rfl, getElem?_appended, if_neg hdn, hx]
      rfl
    · rw [if_neg hbd, if_neg (Ne.symm hbd), role?, getElem?_appended]
      split
      · exact congrArg some hother
      · rfl
  inbox b := by
    rw [inbox_modify (by intro; rfl), System.inbox, getElem?_appended]
    split
    · rename_i hb
      simp [hb, hinbox, System.inbox]
    · rfl
  ended b hb := by
    refine ended_modify (by intro _ h; exact h) ?_
    obtain ⟨x, hx, -⟩ := Option.map_eq_some_iff.mp hb
    rw [Ended, getElem?_appended, if_neg (Nat.ne_of_lt (List.getElem?_eq_some_iff.mp hx).1)]
    exact hb

end System

end Conduit.Kernel
