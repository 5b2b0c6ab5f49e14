import Conduit.Proofs.Kernel.Lines

/-!
Lines one by one. What the system does revives no descriptor and lets nobody wait twice; only a link
lets somebody wait, in one line, who is new. Whoever connects to where nobody listens is refused.
-/

namespace Conduit.Kernel.System

variable {s s' s'' : System} {d : Nat}

/-- Descriptors stay there, and none that is closed is opened again. -/
structure Lasts (s s' : System) : Prop where
  present : ∀ d, (s.role? d).isSome → (s'.role? d).isSome
  shut : ∀ d, (s.role? d).isSome → s'.isOpen d = true → s.isOpen d = true

/-- Nobody begins to wait. -/
structure Thins (s s' : System) : Prop extends Lasts s s' where
  line : ∀ e, (s'.line e).Sublist (s.line e)

/-- One descriptor at most begins to wait, which is new. -/
structure Enlists (s s' : System) : Prop extends Lasts s s' where
  line : (∀ e, (s'.line e).Sublist (s.line e)) ∨ ∃ e n, s.role? n = none ∧ (s'.role? n).isSome ∧
    ∀ x, (s'.line x).Sublist (s.line x ++ if x = e then [n] else [])

theorem Lasts.refl (s : System) : s.Lasts s := ⟨fun _ => id, fun _ _ => id⟩

theorem Lasts.trans (h : s.Lasts s') (h' : s'.Lasts s'') : s.Lasts s'' :=
  ⟨fun d hd => h'.present d (h.present d hd),
    fun d hd ho => h.shut d hd (h'.shut d (h.present d hd) ho)⟩

theorem Thins.refl (s : System) : s.Thins s := ⟨.refl s, fun _ => .refl _⟩

theorem Thins.trans (h : s.Thins s') (h' : s'.Thins s'') : s.Thins s'' :=
  ⟨h.toLasts.trans h'.toLasts, fun e => (h'.line e).trans (h.line e)⟩

/-- Roles stay as they are. -/
theorem Thins.of_roles (h : ∀ e, s'.role? e = s.role? e)
    (ho : ∀ e, s'.isOpen e = true → s.isOpen e = true) : s.Thins s' where
  present e he := (h e).symm ▸ he
  shut e _ := ho e
  line e := line_eq (h e) ▸ .refl _

theorem Retains.thins (h : s.Retains s') : s.Thins s' := .of_roles h.role fun e => h.isOpen e ▸ id

theorem Lasts.modify {f : Descriptor → Descriptor} (hf : ∀ x, (f x).closed = x.closed) (s : System)
    (d : Nat) : s.Lasts (s.modify d f) where
  present e he := by
    rw [role?_modify]
    split
    · simpa [role?] using he
    · exact he
  shut e _ ho := by rwa [isOpen_modify_of_eq hf] at ho

/-- A descriptor changes, and its line does not grow. -/
theorem Thins.modify {f : Descriptor → Descriptor} (hf : ∀ x, (f x).closed = x.closed)
    (hline : ((s.modify d f).line d).Sublist (s.line d)) : s.Thins (s.modify d f) where
  toLasts := .modify hf s d
  line e := by
    by_cases hde : d = e
    · exact hde ▸ hline
    · have : (s.modify d f).role? e = s.role? e := by simp [role?_modify, hde]
      exact line_eq this ▸ .refl _

theorem line_setRole {f : Descriptor → Descriptor} (hf : ∀ x, (f x).role.listens = false)
    (s : System) (d : Nat) : (s.modify d f).line d = [] := by
  cases hx : s.descriptors[d]? with
  | none => simp [System.line, role?_modify, hx]
  | some x =>
    have : (s.modify d f).role? d = some (f x).role := by simp [role?_modify, hx]
    exact line_of_not_listens this (hf x)

/-- A descriptor gets a role in which it does not listen. -/
theorem Thins.setRole {f : Descriptor → Descriptor} (hf : ∀ x, (f x).role.listens = false)
    (hc : ∀ x, (f x).closed = x.closed) (s : System) (d : Nat) : s.Thins (s.modify d f) :=
  .modify hc (line_setRole hf s d ▸ List.nil_sublist _)

theorem isOpen_append (s : System) (y : Descriptor) {e : Nat} (he : (s.role? e).isSome) :
    isOpen { s with descriptors := s.descriptors ++ [y] } e = s.isOpen e := by
  have : e < s.descriptors.length := by simpa [role?] using he
  simp [isOpen, List.getElem?_append_left this]

/-- A new descriptor that does not listen. -/
theorem Thins.append (s : System) {y : Descriptor} (hy : y.role.listens = false) :
    s.Thins { s with descriptors := s.descriptors ++ [y] } where
  present _ he := (role?_append s y he).symm ▸ he
  shut _ he ho := isOpen_append s y he ▸ ho
  line e := line_append s hy e ▸ .refl _

theorem Creates.thins (h : s.Creates s' d) : s.Thins s' := by
  obtain ⟨-, y, hrole, -, hretains⟩ := h
  exact (Thins.append s (hrole ▸ rfl)).trans hretains.thins

theorem listen_thins {backlog : Int32} (h : s.listen d backlog = .ok s') : s.Thins s' := by
  obtain ⟨room, rfl⟩ := listen_eq h
  refine .modify (by simp) ?_
  have : (s.modify d fun x => { x with role := .listening room [] }).line d = [] := by
    cases hx : s.descriptors[d]? <;> simp [System.line, role?_modify, hx]
  rw [this]
  exact List.nil_sublist _

theorem accept_thins {e : Nat} (h : s.accept d = .ok (some (s', e))) : s.Thins s' where
  present := (accept_loosens h).present
  shut x _ ho := isOpen_accept h x ▸ ho
  line x := line_accept h x ▸ List.sublist_append_right ..

theorem closeAll_thins (l : List Nat) (s : System) : s.Thins (l.foldl close s) :=
  .of_roles (role?_closeAll l s) fun e he => ((isOpen_closeAll l s e).mp he).1

theorem setInbox_thins (s : System) (d : Nat) (f : Descriptor → List Parcel) :
    s.Thins (s.modify d fun x => { x with inbox := f x }) :=
  .of_roles (role?_modify_of_eq (by simp) s d) fun e he => by
    rwa [isOpen_modify_of_eq (by simp)] at he

theorem Reads.thins {bytes : Bytes} (h : s.Reads d s' bytes) : s.Thins s' := by
  cases h with
  | nothing ht => exact ht.thins
  | bytes ht => exact ht.thins.trans (setInbox_thins _ d _)
  | message ps _ ht => exact ht.thins.trans (setInbox_thins _ d _)

theorem Writes.thins {bytes : Bytes} (h : s.Writes d s' bytes) : s.Thins s' := by
  cases h with
  | nothing ht => exact ht.thins
  | bytes ps _ _ _ ht => exact ht.thins.trans (setInbox_thins _ _ _)
  | message p _ _ _ _ ht => exact ht.thins.trans (setInbox_thins _ _ _)
  | nowhere _ _ ht => exact ht.thins
  | adrift _ _ ht => exact ht.thins.trans (.setRole (by simp [Role.listens]) (by simp) _ d)

/-! ### Connecting -/

theorem Thins.enlists (h : s.Thins s') : s.Enlists s' := ⟨h.toLasts, .inl h.line⟩

theorem Thins.before (h : s.Thins s') (h' : s'.Enlists s'') : s.Enlists s'' where
  toLasts := h.toLasts.trans h'.toLasts
  line := by
    rcases h'.line with hline | ⟨e, n, hn, hpresent, hline⟩
    · exact .inl fun e => (hline e).trans (h.line e)
    · refine .inr ⟨e, n, ?_, hpresent, fun x => (hline x).trans ((h.line x).append_right _)⟩
      have := h.present n
      rw [hn] at this
      exact Option.not_isSome_iff_eq_none.mp fun hn => nomatch this hn

theorem Enlists.after (h : s.Enlists s') (h' : s'.Thins s'') : s.Enlists s'' where
  toLasts := h.toLasts.trans h'.toLasts
  line := by
    rcases h.line with hline | ⟨e, n, hn, hpresent, hline⟩
    · exact .inl fun e => (h'.line e).trans (hline e)
    · exact .inr ⟨e, n, hn, h'.present n hpresent, fun x => (h'.line x).trans (hline x)⟩

/-- The line of the listener `e` grows by one at most. -/
theorem line_enqueue (s : System) (e n x : Nat) :
    ((s.modify e fun y =>
      match y.role with
      | .listening room queue => { y with role := .listening room (queue ++ [n]) }
      | _ => y).line x).Sublist (s.line x ++ if x = e then [n] else []) := by
  by_cases hxe : x = e
  · subst hxe
    simp only [System.line, role?_modify, if_true]
    cases hy : s.descriptors[x]? with
    | none => simp
    | some y => cases hr : y.role <;> simp [role?, hy, hr]
  · have : (s.modify e fun y =>
        match y.role with
        | .listening room queue => { y with role := .listening room (queue ++ [n]) }
        | _ => y).role? x = s.role? x := by simp [role?_modify, Ne.symm hxe]
    simp [line_eq this, hxe]

theorem link_enlists (s : System) (d e : Nat) : s.Enlists (s.link d e) := by
  unfold link
  split
  · dsimp only
    rename_i x y _ _
    generalize hother : Descriptor.mk .. = other
    have hdeaf : other.role.listens = false := by
      rw [← hother]
      rfl
    generalize hrole : Role.connected .. = role
    have hthins : s.Thins (modify { s with descriptors := s.descriptors ++ [other] } d fun x =>
        { x with role }) :=
      (Thins.append s hdeaf).trans (.setRole (fun _ => hrole ▸ rfl) (by simp) _ d)
    have hlasts := Lasts.modify (f := fun y => match y.role with
      | .listening room queue =>
        { y with role := .listening room (queue ++ [s.descriptors.length]) }
      | _ => y) (fun y => by cases y.role <;> rfl) (modify
        { s with descriptors := s.descriptors ++ [other] } d fun x => { x with role }) e
    refine ⟨hthins.toLasts.trans hlasts, .inr ⟨e, s.descriptors.length, role?_length s, ?_, fun z =>
      (line_enqueue ..).trans ((hthins.line z).append_right _)⟩⟩
    refine hlasts.present _ ?_
    exact (Lasts.modify (by simp) { s with descriptors := s.descriptors ++ [other] } d).present _
      (by simp [role?_appended])
  · exact (Thins.refl s).enlists

/-- Connecting lets one wait at most, and nobody as long as the link is still to come. -/
theorem Connects.enlists {made : Bool} (h : s.Connects d s' made) : s.Enlists s' := by
  cases h with
  | waits a h =>
    exact ((Thins.setRole (by simp [Role.listens]) (by simp) s d).trans h.thins).enlists
  | links ht _ h => exact (ht.thins.before (link_enlists ..)).after h.thins
  | aims o a ht _ _ h =>
    refine Thins.enlists (.trans (ht.thins.trans ?_) h.thins)
    exact .setRole (by simp [Role.listens]) (by simp) _ d
  | already h => exact h.thins.enlists

theorem Connects.thins (h : s.Connects d s' false) : s.Thins s' := by
  cases h with
  | waits a h => exact (Thins.setRole (by simp [Role.listens]) (by simp) s d).trans h.thins

/-! ### Nobody listens -/

/-- The open descriptor `e` listens for connections of a type to an address. -/
def Hears (s : System) (e : Nat) (type : SocketType) (a : Address) : Prop :=
  ∃ y, s.descriptors[e]? = some y ∧ y.closed = false ∧ y.type = type ∧ y.role.listens = true ∧
    match a with
    | .unix p => s.find p = .file e
    | a => ∃ b, y.address = some b ∧ overlap a b = true

theorem Hears.isOpen {e : Nat} {type : SocketType} {a : Address} (h : s.Hears e type a) :
    s.isOpen e = true := by
  obtain ⟨y, hy, hopen, -⟩ := h
  simp [System.isOpen, hy, hopen]

theorem connectPath_refused {x : Descriptor} {p : UnixPath} (htype : x.type ≠ .datagram)
    (h : ∀ e, ¬s.Hears e x.type (.unix p)) : ∃ e, s.connectPath d x p = .error e := by
  unfold connectPath
  split
  · exact ⟨_, rfl⟩
  · split
    · exact ⟨_, rfl⟩
    · exact ⟨_, rfl⟩
    · exact ⟨_, rfl⟩
    · exact ⟨_, rfl⟩
    · rename_i e hfind
      split
      · exact ⟨_, rfl⟩
      · rename_i y hy
        split
        · exact ⟨_, rfl⟩
        · unfold connectFile
          split
          · exact ⟨_, rfl⟩
          · rename_i hopen
            split
            · exact ⟨_, rfl⟩
            · rename_i hsame
              split
              · rename_i room queue hrole
                refine absurd ⟨y, hy, by simpa using hopen, by simpa using hsame, ?_, hfind⟩ (h e)
                simp [hrole, Role.listens]
              · exact ⟨_, rfl⟩

theorem connectInet_refused {x : Descriptor} {a : Address} (htype : x.type ≠ .datagram)
    (ha : ∀ p, a ≠ .unix p) (h : ∀ e, ¬s.Hears e x.type a) :
    ∃ e, s.connectInet d x a = .error e := by
  unfold connectInet
  split
  · exact ⟨_, rfl⟩
  · split
    · rename_i e y hholder
      split
      · rename_i room queue hrole
        obtain ⟨⟨y', e'⟩, hfind, heq⟩ := Option.map_eq_some_iff.mp hholder
        cases heq
        have hy := List.mem_zipIdx_iff_getElem?.mp (List.mem_of_find?_eq_some hfind)
        have hholds := List.find?_some hfind
        simp only [Bool.and_eq_true, Bool.not_eq_true', decide_eq_true_eq] at hholds
        obtain ⟨⟨hopen, hsame⟩, haddress⟩ := hholds
        refine absurd ⟨y, hy, hopen, hsame, by simp [hrole, Role.listens], ?_⟩ (h e)
        cases a with
        | unix p => exact absurd rfl (ha p)
        | _ => cases hb : y.address <;> simp_all
      · exact ⟨_, rfl⟩
    · exact ⟨_, rfl⟩

/-- Who connects for a link is refused if nobody listens there. -/
theorem connect_refused {a : Address} {type : SocketType} (hd : s.type? d = some type)
    (htype : type ≠ .datagram) (h : ∀ e, ¬s.Hears e type a) : ∃ e, s.connect d a = .error e := by
  obtain ⟨x, hx, rfl⟩ := Option.map_eq_some_iff.mp hd
  unfold connect
  rw [hx]
  dsimp only
  split
  · obtain ⟨e, he⟩ := connectPath_refused (d := d) htype h
    exact ⟨e, by rw [he]; rfl⟩
  · exact ⟨_, rfl⟩
  · exact ⟨_, rfl⟩
  · rename_i hpath _ _
    split
    · exact ⟨_, rfl⟩
    · exact connectInet_refused htype hpath h

end Conduit.Kernel.System
