import Conduit.Proofs.Kernel.Transfer

/-!
What an operation changes of descriptors, said once for each: most change nothing that others rely
on, and of the rest it is told which descriptor is made, which link, which bytes are taken and where
bytes arrive. What lines and streams keep follows from this alone.
-/

namespace Conduit.Kernel

open Pipe (Poll)

/-- The bytes that a write accepted. -/
def accepted (bytes : Bytes) : Poll (Except OsError Nat) → Bytes
  | .ready (.ok n) => bytes.take n
  | _ => []

/-- The bytes that a read brought. -/
def brought : Poll (Except OsError Bytes) → Bytes
  | .ready (.ok bytes) => bytes
  | _ => []

theorem exists_of_map_ok {ε α β : Type} {f : α → β} {r : Except ε α} {b : β}
    (h : r.map f = .ok b) : ∃ a, r = .ok a ∧ f a = b := by
  cases r with
  | error e => cases h
  | ok a => exact ⟨a, rfl, Except.ok.inj h⟩

namespace System

variable {s s' s'' : System} {d : Nat}

def type? (s : System) (d : Nat) : Option SocketType := s.descriptors[d]?.map (·.type)

/-- What lies at a descriptor. -/
def inbox (s : System) (d : Nat) : List Parcel := (s.descriptors[d]?.map (·.inbox)).getD []

/-- Nothing more can be sent by a descriptor. -/
def Ended (s : System) (d : Nat) : Prop := s.descriptors[d]?.map (·.writeEnded) = some true

/-- Descriptors keep their type, their role and what lies there; none is closed, and none is
revived. -/
structure Retains (s s' : System) : Prop where
  type : ∀ d, s'.type? d = s.type? d
  role : ∀ d, s'.role? d = s.role? d
  inbox : ∀ d, s'.inbox d = s.inbox d
  isOpen : ∀ d, s'.isOpen d = s.isOpen d
  ended : ∀ d, s.Ended d → s'.Ended d

theorem Retains.refl (s : System) : s.Retains s :=
  ⟨fun _ => rfl, fun _ => rfl, fun _ => rfl, fun _ => rfl, fun _ => id⟩

theorem Retains.trans (h : s.Retains s') (h' : s'.Retains s'') : s.Retains s'' where
  type d := (h'.type d).trans (h.type d)
  role d := (h'.role d).trans (h.role d)
  inbox d := (h'.inbox d).trans (h.inbox d)
  isOpen d := (h'.isOpen d).trans (h.isOpen d)
  ended d hd := h'.ended d (h.ended d hd)

theorem Retains.of_descriptors (h : s'.descriptors = s.descriptors) : s.Retains s' where
  type d := by rw [type?, type?, h]
  role d := by rw [role?, role?, h]
  inbox d := by rw [System.inbox, System.inbox, h]
  isOpen d := by rw [System.isOpen, System.isOpen, h]
  ended d hd := by rwa [Ended, h]

/-! ### One descriptor -/

section Modify

variable {f : Descriptor → Descriptor}

theorem role?_modify (s : System) (d e : Nat) (f : Descriptor → Descriptor) :
    (s.modify d f).role? e =
      if d = e then s.descriptors[e]?.map fun x => (f x).role else s.role? e := by
  simp only [role?, modify, List.getElem?_modify]
  split <;> simp [Function.comp_def]

theorem role?_modify_of_eq (hf : ∀ x, (f x).role = x.role) (s : System) (d e : Nat) :
    (s.modify d f).role? e = s.role? e := by
  rw [role?_modify]
  split
  · simp [role?, hf]
  · rfl

theorem type?_modify (hf : ∀ x, (f x).type = x.type) (e : Nat) :
    (s.modify d f).type? e = s.type? e := by
  simp only [type?, modify, List.getElem?_modify]
  split <;> simp [Function.comp_def, hf]

theorem inbox_modify (hf : ∀ x, (f x).inbox = x.inbox) (e : Nat) :
    (s.modify d f).inbox e = s.inbox e := by
  simp only [System.inbox, modify, List.getElem?_modify]
  split <;> simp [Function.comp_def, hf]

theorem inbox_modify_self {x : Descriptor} (hx : s.descriptors[d]? = some x) :
    (s.modify d f).inbox d = (f x).inbox := by
  simp [System.inbox, modify, hx]

theorem inbox_modify_of_ne {e : Nat} (h : d ≠ e) (f : Descriptor → Descriptor) :
    (s.modify d f).inbox e = s.inbox e := by
  simp [System.inbox, modify, h]

theorem ended_modify (hf : ∀ x, x.writeEnded = true → (f x).writeEnded = true) {e : Nat}
    (h : s.Ended e) : (s.modify d f).Ended e := by
  obtain ⟨x, hx, hended⟩ := Option.map_eq_some_iff.mp h
  by_cases hde : d = e
  · simp [Ended, modify, hde, hx, hf x hended]
  · simp [Ended, modify, hde, hx, hended]

theorem isOpen_modify_of_eq (hf : ∀ x, (f x).closed = x.closed) (s : System) (d e : Nat) :
    (s.modify d f).isOpen e = s.isOpen e := by
  simp only [isOpen, modify, List.getElem?_modify]
  cases s.descriptors[e]? <;> simp
  split <;> simp [hf]

/-- A descriptor changes in nothing of this. -/
theorem Retains.modify (hf : ∀ x, (f x).type = x.type ∧ (f x).role = x.role ∧
      (f x).inbox = x.inbox ∧ (f x).closed = x.closed ∧
      (x.writeEnded = true → (f x).writeEnded = true)) (s : System) (d : Nat) :
    s.Retains (s.modify d f) where
  type := type?_modify fun x => (hf x).1
  role := role?_modify_of_eq (fun x => (hf x).2.1) s d
  inbox := inbox_modify fun x => (hf x).2.2.1
  isOpen := isOpen_modify_of_eq (fun x => (hf x).2.2.2.1) s d
  ended _ := ended_modify fun x => (hf x).2.2.2.2

end Modify

/-! ### Setting up -/

theorem setAddress_retains (s : System) (d : Nat) (a : Address) : s.Retains (s.setAddress d a) :=
  .modify (by simp) s d

theorem withPort_retains (s : System) (a : Address) : s.Retains (s.withPort a).1 := by
  unfold withPort
  split <;> exact .of_descriptors rfl

theorem giveAddress_retains (s : System) (d : Nat) (a : Address) :
    s.Retains (s.giveAddress d a) := by
  unfold giveAddress
  split
  · exact (withPort_retains s (.inet4 .loopback 0)).trans (setAddress_retains _ d _)
  · exact (withPort_retains s (.inet6 .loopback 0 0 0)).trans (setAddress_retains _ d _)
  · exact .refl s

theorem bindInet_retains {x : Descriptor} {own : Bool} {a : Address}
    (h : s.bindInet d x own a = .ok s') : s.Retains s' := by
  unfold bindInet at h
  split at h
  · cases h
  · dsimp only at h
    split at h
    · cases h
    · cases h
      exact (withPort_retains s a).trans (setAddress_retains ..)

theorem bind_retains {a : Address} (h : s.bind d a = .ok s') : s.Retains s' := by
  unfold bind at h
  split at h
  · cases h
  · split at h
    · cases h
    · split at h
      · exact bindInet_retains h
      · exact bindInet_retains h
      · split at h
        · cases h
          exact setAddress_retains ..
        · split at h
          · cases h
            exact (setAddress_retains s d _).trans (.of_descriptors rfl)
          all_goals cases h

theorem setOption_retains {o : SocketOption} (h : s.setOption d o = .ok s') : s.Retains s' := by
  unfold setOption at h
  split at h
  · cases h
  · split at h
    · cases h
    · obtain ⟨settings, -, rfl⟩ := exists_of_map_ok h
      exact .modify (by simp) s d

/-- A failure that was met is gone. -/
theorem clear_retains (s : System) (d : Nat) :
    s.Retains (s.modify d fun x => { x with failure := none }) :=
  .modify (by simp) s d

theorem getOption_retains {level name : Int32} {value : Bytes}
    (h : s.getOption d level name = .ok (s', value)) : s.Retains s' := by
  unfold getOption at h
  split at h
  · cases h
  · obtain ⟨k, -, hk⟩ := exists_of_map_ok h
    cases k with
    | failure =>
      cases hk
      exact clear_retains s d
    | _ =>
      cases hk
      exact .refl s

/-- The descriptor `d` is made, and is still to be used. -/
def Creates (s s' : System) (d : Nat) : Prop :=
  d = s.descriptors.length ∧ ∃ y : Descriptor, y.role = .idle ∧ y.inbox = [] ∧
    Retains { s with descriptors := s.descriptors ++ [y] } s'

theorem Creates.more (h : s.Creates s' d) (h' : s'.Retains s'') : s.Creates s'' d := by
  obtain ⟨hd, y, hrole, hinbox, hretains⟩ := h
  exact ⟨hd, y, hrole, hinbox, hretains.trans h'⟩

theorem create_creates {family : Family} {type : SocketType}
    (h : s.create family type = .ok (s', d)) : s.Creates s' d := by
  unfold create at h
  split at h
  · cases h
  · cases h
    exact ⟨rfl, _, rfl, rfl, .refl _⟩

theorem listen_eq {backlog : Int32} (h : s.listen d backlog = .ok s') :
    ∃ room, s' = s.modify d fun x => { x with role := .listening room [] } := by
  unfold listen at h
  split at h
  · cases h
  · split at h
    · cases h
    · cases h
      exact ⟨_, rfl⟩

theorem accept_eq {e : Nat} (h : s.accept d = .ok (some (s', e))) : ∃ room queue,
    s.role? d = some (.listening room (e :: queue)) ∧
      s' = s.modify d fun x => { x with role := .listening room queue } := by
  unfold accept at h
  split at h
  · rename_i hrole
    split at h
    · cases h
    · cases h
      exact ⟨_, _, hrole, rfl⟩
  · cases h
  · cases h

/-! ### Connecting -/

/-- What connecting the descriptor `d` does, and whether its link has been made. -/
inductive Connects (s : System) (d : Nat) (s' : System) : Bool → Prop
  /-- It waits for a listener to have room. -/
  | waits (a : Address) (h : (s.modify d fun x => { x with role := .connecting a }).Retains s') :
    s.Connects d s' false
  /-- A listener gets its other end in line. -/
  | links {t : System} {e : Nat} (ht : s.Retains t) (htype : s.type? d = s.type? e)
      (h : (t.link d e).Retains s') : s.Connects d s' true
  /-- Its messages go to one place from now on. -/
  | aims {t : System} (o : SocketType → Option Nat) (a : Address) (ht : s.Retains t)
      (htype : s.type? d = some .datagram)
      (ho : ∀ e, o .datagram = some e → s.type? e = some .datagram)
      (h : (t.modify d fun x => { x with role := .connected (o x.type) a }).Retains s') :
    s.Connects d s' true
  /-- It has been linked before, or is not linked. -/
  | already (h : s.Retains s') : s.Connects d s' true

theorem Connects.more {made : Bool} (h : s.Connects d s' made) (h' : s'.Retains s'') :
    s.Connects d s'' made := by
  cases h with
  | waits a h => exact .waits a (h.trans h')
  | links ht htype h => exact .links ht htype (h.trans h')
  | aims o a ht htype ho h => exact .aims o a ht htype ho (h.trans h')
  | already h => exact .already (h.trans h')

theorem connectFile_connects {e : Nat} {x y : Descriptor} (hx : s.descriptors[d]? = some x)
    (hy : s.descriptors[e]? = some y) (h : s.connectFile d e x y = .ok s') :
    s.Connects d s' true := by
  unfold connectFile at h
  split at h
  · cases h
  · split at h
    · cases h
    · rename_i htype
      rw [ne_eq, Decidable.not_not] at htype
      split at h
      · rename_i hdatagram
        split at h
        · cases h
          refine .aims (fun _ => some e) _ (.refl s) (by simp [type?, hx, hdatagram]) (fun e' he => ?_)
            (.refl _)
          cases he
          simp [type?, hy, htype, hdatagram]
        · cases h
      · split at h
        · split at h
          · cases h
          · cases h
            exact .links (.refl s) (by simp [type?, hx, hy, htype]) (.refl _)
        · cases h

theorem connectPath_connects {x : Descriptor} {p : UnixPath} (hx : s.descriptors[d]? = some x)
    (h : s.connectPath d x p = .ok s') : s.Connects d s' true := by
  unfold connectPath at h
  split at h
  · cases h
  · split at h
    · cases h
    · cases h
    · cases h
    · cases h
    · split at h
      · cases h
      · rename_i hy
        split at h
        · cases h
        · exact connectFile_connects hx hy h

theorem type?_holder {type : SocketType} {a : Address} {e : Nat} {y : Descriptor}
    (h : s.holder? type a = some (e, y)) : s.type? e = some type := by
  unfold holder? at h
  obtain ⟨⟨y', e'⟩, hfind, heq⟩ := Option.map_eq_some_iff.mp h
  cases heq
  have hmem := List.mem_zipIdx_iff_getElem?.mp (List.mem_of_find?_eq_some hfind)
  have hprop := List.find?_some hfind
  simp only [Bool.and_eq_true, decide_eq_true_eq] at hprop
  simp only [type?]
  rw [hmem]
  exact congrArg some hprop.1.2

theorem connectInet_connects {x : Descriptor} {a : Address} {made : Bool}
    (hx : s.descriptors[d]? = some x) (h : s.connectInet d x a = .ok (s', made)) :
    s.Connects d s' made := by
  have hgive := giveAddress_retains s d a
  have htype : s.type? d = some x.type := by simp [type?, hx]
  unfold connectInet at h
  split at h
  · cases h
  · split at h
    · rename_i hdatagram
      cases h
      -- The other one is looked for when `d` has its address; that changes no type.
      refine .aims (fun type => ((s.giveAddress d a).holder? type a).map (·.1)) a hgive
        (hdatagram ▸ htype) (fun e he => ?_) (.refl _)
      obtain ⟨⟨e', y⟩, hy, rfl⟩ := Option.map_eq_some_iff.mp he
      exact (hgive.type e').symm.trans (type?_holder hy)
    · split at h
      · rename_i e y hholder
        split at h
        · split at h
          · cases h
            exact .waits a (.refl _)
          · cases h
            exact .links hgive (htype.trans (type?_holder hholder).symm) (.refl _)
        · cases h
      · cases h

/-- Whatever becomes of a link, it is made by the descriptor that connects. -/
theorem connect_connects {a : Address} {made : Bool} (h : s.connect d a = .ok (s', made)) :
    s.Connects d s' made := by
  unfold connect at h
  split at h
  · cases h
  · rename_i x hx
    split at h
    · obtain ⟨t, hpath, heq⟩ := exists_of_map_ok h
      cases heq
      exact connectPath_connects hx hpath
    · cases h
    · cases h
    · split at h
      · cases h
      · exact connectInet_connects hx h

theorem resume_connects {made : Bool} (h : s.resume d = .ok (s', made)) : s.Connects d s' made := by
  unfold resume at h
  split at h
  · exact connect_connects h
  · cases h
    exact .already (.refl s)
  · cases h

/-! ### Closing -/

theorem cut_retains (s : System) (d : Nat) : s.Retains (s.cut d) := .modify (by simp) s d

theorem ended_cut {t : SocketType} (h : s.type? d = some t) : (s.cut d).Ended d := by
  obtain ⟨x, hx, -⟩ := Option.map_eq_some_iff.mp h
  simp [Ended, cut, modify, hx]

theorem shutdown_retains (s : System) (d : Nat) : s.Retains (s.shutdown d) := by
  unfold shutdown
  split
  · exact (cut_retains s d).trans (cut_retains ..)
  · exact cut_retains s d

/-- A descriptor is closed, and what lies there is lost. -/
def shut (s : System) (d : Nat) : System :=
  s.modify d fun x => { x with closed := true, inbox := [] }

theorem inbox_shut (s : System) (d e : Nat) :
    (s.shut d).inbox e = if d = e then [] else s.inbox e := by
  simp only [System.inbox, shut, modify, List.getElem?_modify]
  split <;> cases s.descriptors[e]? <;> simp

theorem isOpen_shut (s : System) (d e : Nat) :
    (s.shut d).isOpen e = true ↔ s.isOpen e = true ∧ e ≠ d := by
  simp only [System.isOpen, shut, modify, List.getElem?_modify]
  cases s.descriptors[e]? with
  | none => simp
  | some x =>
    by_cases hde : d = e
    · simp [hde]
    · simp [hde, Ne.symm hde]

/-- Before a descriptor is shut, its partner is kept from sending more. -/
theorem drop_eq (s : System) (d : Nat) (accepted : Bool) : ∃ t, s.drop d accepted = t.shut d ∧
    s.Retains t ∧ ∀ e t', s.type? e = some t' → s.partner? d = some e → t.Ended e := by
  unfold drop
  cases hd : s.partner? d with
  | none => exact ⟨s, rfl, .refl s, fun _ _ _ he => by cases he⟩
  | some e =>
    refine ⟨_, rfl, (cut_retains s e).trans (.modify (by simp) _ e), fun e' t' ht heq => ?_⟩
    cases heq
    exact ended_modify (by simp) (ended_cut ht)

/-! ### Reading and writing -/

theorem setStalled_retains (s : System) (d : Nat) (stalled : Bool) :
    s.Retains (s.setStalled d stalled) :=
  .modify (by simp) s d

/-- What reading from the descriptor `d` does, and the bytes that it brings. -/
inductive Reads (s : System) (d : Nat) : System → Bytes → Prop
  | nothing {t : System} (ht : s.Retains t) : s.Reads d t []
  /-- Bytes are taken out of what lies at a stream. -/
  | bytes {t : System} {x : Descriptor} {ps : List Parcel} {bs : Bytes} (ht : s.Retains t)
      (hx : t.descriptors[d]? = some x) (htype : x.type = .stream) (hin : x.inbox ≠ [])
      (hbs : bs ++ contents ps = contents x.inbox) :
    s.Reads d (t.modify d fun x => { x with inbox := ps }) bs
  /-- A message is taken. -/
  | message {t : System} {x : Descriptor} (ps : List Parcel) (bs : Bytes) (ht : s.Retains t)
      (hx : t.descriptors[d]? = some x) (htype : x.type ≠ .stream) :
    s.Reads d (t.modify d fun x => { x with inbox := ps }) bs

/-- The same is read after a change that others do not rely on. -/
theorem Reads.after {bs : Bytes} (ht : s.Retains s') (h : s'.Reads d s'' bs) : s.Reads d s'' bs := by
  cases h with
  | nothing h => exact .nothing (ht.trans h)
  | bytes h hx htype hin hbs => exact .bytes (ht.trans h) hx htype hin hbs
  | message ps bs h hx htype => exact .message ps bs (ht.trans h) hx htype

theorem read_reads (s : System) (d want : Nat) :
    s.Reads d (s.read d want).1 (brought (s.read d want).2) := by
  unfold read
  split
  · exact .nothing (.refl s)
  · rename_i x hx
    dsimp only
    split
    · rename_i p ps htype hin
      exact .bytes (.refl s) hx htype (by simp [hin]) (hin ▸ unpack_append want (p :: ps))
    · exact .nothing (clear_retains s d)
    · split <;> exact .nothing (.refl s)
    · rename_i hne
      exact .message _ _ (.refl s) hx hne

/-- What writing to the descriptor `d` does, and the bytes that are accepted. -/
inductive Writes (s : System) (d : Nat) : System → Bytes → Prop
  | nothing {t : System} (ht : s.Retains t) : s.Writes d t []
  /-- Bytes go to the partner of a stream. -/
  | bytes {t : System} {e : Nat} {a : Address} (ps : List Parcel)
      (htype : s.type? d = some .stream) (hrole : s.role? d = some (.connected (some e) a))
      (hopen : ¬t.Ended d) (ht : s.Retains t) : s.Writes d (t.deliver e ps) (contents ps)
  /-- A message goes to a receiver. -/
  | message {t : System} {e : Nat} {a : Address} {y : SocketType} (p : Parcel) (bs : Bytes)
      (htype : s.type? d = some y) (hne : y ≠ .stream)
      (hrole : s.role? d = some (.connected (some e) a)) (ht : s.Retains t) :
    s.Writes d (t.deliver e [p]) bs
  /-- A message goes nowhere. -/
  | nowhere {t : System} {a : Address} (bs : Bytes)
      (hrole : s.role? d = some (.connected none a)) (ht : s.Retains t) : s.Writes d t bs
  /-- The receiver has gone, and is given up. -/
  | adrift {t : System} {y : SocketType} (htype : s.type? d = some y) (hne : y ≠ .stream)
      (ht : s.Retains t) :
    s.Writes d (t.modify d fun x => { x with role := .idle, inbox := [] }) []

/-- The same is written after a change that others do not rely on. -/
theorem Writes.after {bs : Bytes} (ht : s.Retains s') (h : s'.Writes d s'' bs) :
    s.Writes d s'' bs := by
  cases h with
  | nothing h => exact .nothing (ht.trans h)
  | bytes ps htype hrole hopen h =>
    exact .bytes ps (ht.type d ▸ htype) (ht.role d ▸ hrole) hopen (ht.trans h)
  | message p bs htype hne hrole h =>
    exact .message p bs (ht.type d ▸ htype) hne (ht.role d ▸ hrole) (ht.trans h)
  | nowhere bs hrole h => exact .nowhere bs (ht.role d ▸ hrole) (ht.trans h)
  | adrift htype hne h => exact .adrift (ht.type d ▸ htype) hne (ht.trans h)

theorem writeStream_writes {e : Nat} {a : Address} {x : Descriptor} (bytes : Bytes)
    (hx : s.descriptors[d]? = some x) (htype : x.type = .stream)
    (hrole : x.role = .connected (some e) a) :
    s.Writes d (s.writeStream d e x bytes).1 (accepted bytes (s.writeStream d e x bytes).2) := by
  unfold writeStream
  split
  · exact .nothing (.refl s)
  · rename_i hended
    split
    · exact .nothing (setStalled_retains s d true)
    · have hopen : ¬(s.setStalled d false).Ended d := by
        simpa [Ended, setStalled, modify, hx] using hended
      -- What is packed is what was offered up to some byte, so its size tells which bytes went.
      have hpack := contents_pack d bytes.length (s.usedRoom d) bytes
      have hd : s.role? d = some (.connected (some e) a) := by simp [role?, hx, hrole]
      dsimp only
      rw [accepted, length_contents, ← List.prefix_iff_eq_take.mp hpack]
      exact .bytes _ (by simp [type?, hx, htype]) hd hopen (setStalled_retains s d false)

theorem writeMessage_writes {e : Nat} {a : Address} {x y : Descriptor} (bytes : Bytes)
    (hx : s.descriptors[d]? = some x) (htype : x.type ≠ .stream)
    (hrole : x.role = .connected (some e) a) :
    s.Writes d (s.writeMessage d e x y bytes).1
      (accepted bytes (s.writeMessage d e x y bytes).2) := by
  have hd : s.type? d = some x.type := by simp [type?, hx]
  have hto : s.role? d = some (.connected (some e) a) := by simp [role?, hx, hrole]
  unfold writeMessage
  split
  · exact .nothing (.refl s)
  · split
    · exact .nothing (clear_retains s d)
    · split
      · exact .nothing (.refl s)
      · split
        · exact .nothing (setStalled_retains s d true)
        · split
          · exact .adrift hd htype (.refl s)
          · split
            · exact .nothing (.refl s)
            · split
              · exact .nothing (.refl s)
              · split
                · exact .nothing (setStalled_retains s d true)
                · exact .message _ _ hd htype hto (setStalled_retains s d false)

theorem write_writes (s : System) (d : Nat) (bytes : Bytes) :
    s.Writes d (s.write d bytes).1 (accepted bytes (s.write d bytes).2) := by
  unfold write
  split
  · exact .nothing (.refl s)
  · rename_i x hx
    split
    · rename_i hrole
      split
      · exact .nothing (.refl s)
      · split
        · rename_i htype
          exact writeStream_writes bytes hx htype hrole
        · rename_i htype
          exact writeMessage_writes bytes hx htype hrole
    · rename_i a hrole
      have hd : s.role? d = some (.connected none a) := by simp [role?, hx, hrole]
      exact .nowhere _ hd (.refl s)
    · exact .nothing (.refl s)

end System

end Conduit.Kernel
