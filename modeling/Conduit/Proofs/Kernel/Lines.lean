import Conduit.Proofs.Kernel.Changes

/-!
Who waits in the line of a listener. It is always the other end of a link, which listens to nobody
itself: what the system does lets nobody else wait, except that a descriptor may begin to listen that
waits nowhere.
-/

namespace Conduit.Kernel

open Pipe (Poll)

def Role.listens : Role → Bool
  | .listening _ _ => true
  | _ => false

namespace System

variable {s s' s'' : System}

/-- A descriptor that is there and does not listen. -/
def Deaf (s : System) (e : Nat) : Prop := ∃ r, s.role? e = some r ∧ r.listens = false

/-- A descriptor that listens. -/
def Listens (s : System) (d : Nat) : Prop := ∃ room queue, s.role? d = some (.listening room queue)

/-- Those who wait in lines do not listen themselves. -/
def Lined (s : System) : Prop := ∀ d, ∀ e ∈ s.line d, s.Deaf e

/-- Nobody begins to listen, and those who begin to wait are new. -/
structure Loosens (s s' : System) : Prop where
  present : ∀ e, (s.role? e).isSome → (s'.role? e).isSome
  deaf : ∀ e, s.Deaf e → s'.Deaf e
  line : ∀ d, ∀ e ∈ s'.line d, e ∈ s.line d ∨ s.role? e = none ∧ s'.Deaf e

theorem Loosens.refl (s : System) : s.Loosens s := ⟨fun _ => id, fun _ => id, fun _ _ => .inl⟩

theorem Loosens.trans (h : s.Loosens s') (h' : s'.Loosens s'') : s.Loosens s'' where
  present e he := h'.present e (h.present e he)
  deaf e he := h'.deaf e (h.deaf e he)
  line d e he := by
    rcases h'.line d e he with he | ⟨hnone, hdeaf⟩
    · rcases h.line d e he with he | ⟨hnone, hdeaf⟩
      · exact .inl he
      · exact .inr ⟨hnone, h'.deaf e hdeaf⟩
    · refine .inr ⟨?_, hdeaf⟩
      have := h.present e
      rw [hnone] at this
      exact Option.not_isSome_iff_eq_none.mp fun he => nomatch this he

theorem Loosens.lined (h : s.Loosens s') (hs : s.Lined) : s'.Lined := by
  intro d e he
  rcases h.line d e he with he | ⟨-, hdeaf⟩
  · exact h.deaf e (hs d e he)
  · exact hdeaf

theorem line_eq {d : Nat} (h : s'.role? d = s.role? d) : s'.line d = s.line d := by
  simp [line, h]

theorem line_of_not_listens {d : Nat} {r : Role} (h : s.role? d = some r) (hr : r.listens = false) :
    s.line d = [] := by
  cases r with
  | listening => simp [Role.listens] at hr
  | _ => simp [line, h]

/-- The roles stay as they are. -/
theorem Loosens.of_roles (h : ∀ e, s'.role? e = s.role? e) : s.Loosens s' where
  present e he := (h e).symm ▸ he
  deaf e := by simp [Deaf, h]
  line d e he := .inl (line_eq (h d) ▸ he)

theorem Retains.loosens (h : s.Retains s') : s.Loosens s' := .of_roles h.role

theorem Loosens.modify {f : Descriptor → Descriptor} (hf : ∀ x, (f x).role = x.role) (s : System)
    (d : Nat) : s.Loosens (s.modify d f) :=
  .of_roles (role?_modify_of_eq hf s d)

/-- A descriptor gets a role in which it does not listen. -/
theorem Loosens.setRole {f : Descriptor → Descriptor} (hf : ∀ x, (f x).role.listens = false)
    (s : System) (d : Nat) : s.Loosens (s.modify d f) := by
  refine ⟨fun e he => ?_, fun e he => ?_, fun x e he => ?_⟩
  · rw [role?_modify]
    split
    · simpa [role?] using he
    · exact he
  · obtain ⟨r, hr, hdeaf⟩ := he
    obtain ⟨x, hx, rfl⟩ := Option.map_eq_some_iff.mp hr
    by_cases hde : d = e
    · exact ⟨(f x).role, by simp [role?_modify, hde, hx], hf x⟩
    · exact ⟨x.role, by simpa [role?_modify, hde] using hr, hdeaf⟩
  · by_cases hdx : d = x
    · cases hx : s.descriptors[x]? with
      | none =>
        have : (s.modify d f).role? x = none := by simp [role?_modify, hdx, hx]
        simp [System.line, this] at he
      | some y =>
        have : (s.modify d f).role? x = some (f y).role := by simp [role?_modify, hdx, hx]
        rw [line_of_not_listens this (hf y)] at he
        cases he
    · have : (s.modify d f).role? x = s.role? x := by simp [role?_modify, hdx]
      exact .inl (line_eq this ▸ he)

theorem role?_append (s : System) (y : Descriptor) {e : Nat} (he : (s.role? e).isSome) :
    role? { s with descriptors := s.descriptors ++ [y] } e = s.role? e := by
  have : e < s.descriptors.length := by simpa [role?] using he
  simp [role?, List.getElem?_append_left this]

/-- Nobody waits for a new descriptor that does not listen. -/
theorem line_append (s : System) {y : Descriptor} (hy : y.role.listens = false) (d : Nat) :
    System.line { s with descriptors := s.descriptors ++ [y] } d = s.line d := by
  cases hd : s.role? d with
  | some r => exact line_eq (role?_append s y (by simp [hd]))
  | none =>
    have hlen : s.descriptors.length ≤ d := by simpa [role?] using hd
    have hold : s.line d = [] := by simp [System.line, hd]
    rw [hold]
    cases hk : d - s.descriptors.length with
    | zero =>
      refine line_of_not_listens (r := y.role) ?_ hy
      simp [role?, List.getElem?_append_right hlen, hk]
    | succ k => simp [System.line, role?, List.getElem?_append_right hlen, hk]

/-- A new descriptor that does not listen. -/
theorem Loosens.append (s : System) {y : Descriptor} (hy : y.role.listens = false) :
    s.Loosens { s with descriptors := s.descriptors ++ [y] } where
  present e he := (role?_append s y he).symm ▸ he
  deaf e he := by
    obtain ⟨r, hr, hdeaf⟩ := he
    exact ⟨r, (role?_append s y (by simp [hr])).trans hr, hdeaf⟩
  line d e he := .inl (line_append s hy d ▸ he)

theorem role?_appended (s : System) (y : Descriptor) :
    role? { s with descriptors := s.descriptors ++ [y] } s.descriptors.length = some y.role := by
  simp [role?]

theorem role?_length (s : System) : s.role? s.descriptors.length = none := by
  simp [role?]

/-- A newcomer joins the line of a listener. -/
theorem Loosens.enlist (h : s.Loosens s') {n : Nat} (hn : s.role? n = none) (hdeaf : s'.Deaf n)
    (e : Nat) : s.Loosens (s'.modify e fun y =>
      match y.role with
      | .listening room queue => { y with role := .listening room (queue ++ [n]) }
      | _ => y) := by
  have hrole (x : Nat) (r : Role) (hr : s'.role? x = some r) (hd : r.listens = false) :
      (s'.modify e fun y =>
        match y.role with
        | .listening room queue => { y with role := .listening room (queue ++ [n]) }
        | _ => y).role? x = some r := by
    rw [role?_modify]
    split
    · obtain ⟨y, hy, rfl⟩ := Option.map_eq_some_iff.mp hr
      rw [hy]
      cases hyr : y.role <;> simp_all [Role.listens]
    · exact hr
  refine ⟨fun x hx => ?_, fun x hx => ?_, fun d x hx => ?_⟩
  · rw [role?_modify]
    split
    · simpa [role?] using h.present x hx
    · exact h.present x hx
  · obtain ⟨r, hr, hd⟩ := h.deaf x hx
    exact ⟨r, hrole x r hr hd, hd⟩
  · obtain ⟨r, hr, hd⟩ := hdeaf
    by_cases hed : e = d
    · have hmem : x ∈ s'.line d ∨ x = n := by
        simp only [System.line, role?_modify, hed, if_true] at hx ⊢
        cases hy : s'.descriptors[d]? with
        | none => simp [hy] at hx
        | some y => cases hyr : y.role <;> simp_all [role?]
      rcases hmem with hmem | rfl
      · rcases h.line d x hmem with hmem | ⟨hnone, r', hr', hd'⟩
        · exact .inl hmem
        · exact .inr ⟨hnone, r', hrole x r' hr' hd', hd'⟩
      · exact .inr ⟨hn, r, hrole x r hr hd, hd⟩
    · have : x ∈ s'.line d := by
        simpa [System.line, role?_modify, hed] using hx
      rcases h.line d x this with hmem | ⟨hnone, r', hr', hd'⟩
      · exact .inl hmem
      · exact .inr ⟨hnone, r', hrole x r' hr' hd', hd'⟩

/-- A listener serves the first in its line. -/
theorem Loosens.dequeue {d e room : Nat} {queue : List Nat}
    (h : s.role? d = some (.listening room (e :: queue))) :
    s.Loosens (s.modify d fun x => { x with role := .listening room queue }) := by
  have hline : s.line d = e :: queue := by simp [System.line, h]
  refine ⟨fun x hx => ?_, fun x hx => ?_, fun x y hy => ?_⟩
  · rw [role?_modify]
    split
    · simpa [role?] using hx
    · exact hx
  · obtain ⟨r, hr, hdeaf⟩ := hx
    refine ⟨r, ?_, hdeaf⟩
    rw [role?_modify]
    split
    · rename_i hdx
      subst hdx
      obtain rfl := Option.some.inj (h.symm.trans hr)
      cases hdeaf
    · exact hr
  · left
    by_cases hdx : d = x
    · subst hdx
      obtain ⟨z, hz, -⟩ := Option.map_eq_some_iff.mp h
      have : y ∈ queue := by simpa [System.line, role?_modify, hz] using hy
      rw [hline]
      exact List.mem_cons_of_mem e this
    · simpa [System.line, role?_modify, hdx] using hy

/-! ### What the system does -/

/-- A descriptor that is new since the system was `s`. -/
structure Fresh (s s' : System) (d : Nat) : Prop where
  loosens : s.Loosens s'
  absent : s.role? d = none
  present : (s'.role? d).isSome
  apart : s.Lined → ∀ x, d ∉ s'.line x

theorem Fresh.more {d : Nat} (h : s.Fresh s' d) (h' : s'.Loosens s'') : s.Fresh s'' d where
  loosens := h.loosens.trans h'
  absent := h.absent
  present := h'.present d h.present
  apart hs x hx := by
    rcases h'.line x d hx with hx | ⟨hnone, -⟩
    · exact h.apart hs x hx
    · have := h.present
      simp [hnone] at this

theorem Creates.fresh {d : Nat} (h : s.Creates s' d) : s.Fresh s' d := by
  obtain ⟨rfl, y, hrole, -, hretains⟩ := h
  have hy : y.role.listens = false := hrole ▸ rfl
  refine Fresh.more ⟨.append s hy, role?_length s, by simp [role?_appended], fun hs x hx => ?_⟩
    hretains.loosens
  rw [line_append s hy] at hx
  obtain ⟨r, hr, -⟩ := hs x _ hx
  rw [role?_length] at hr
  cases hr

/-- A descriptor that waits nowhere begins to listen. -/
theorem listen_lined {d : Nat} {backlog : Int32} (h : s.listen d backlog = .ok s') :
    (∀ e, (s.role? e).isSome → (s'.role? e).isSome) ∧ (∀ x, ∀ e ∈ s'.line x, e ∈ s.line x) ∧
      ((∀ x, d ∉ s.line x) → s.Lined → s'.Lined) := by
  obtain ⟨room, rfl⟩ := listen_eq h
  have hline (x : Nat) : ∀ e ∈ (s.modify d fun x => { x with role := .listening room [] }).line x,
      e ∈ s.line x := by
    intro e he
    by_cases hdx : d = x
    · simp only [System.line, role?_modify, hdx, if_true] at he
      cases hx : s.descriptors[x]? <;> simp [hx] at he
    · simpa [System.line, role?_modify, hdx] using he
  refine ⟨fun e he => ?_, hline, fun hd hs x e he => ?_⟩
  · rw [role?_modify]
    split
    · simpa [role?] using he
    · exact he
  · have hold := hline x e he
    obtain ⟨r, hr, hdeaf⟩ := hs x e hold
    have hde : d ≠ e := by
      rintro rfl
      exact hd x hold
    exact ⟨r, by simpa [role?_modify, hde] using hr, hdeaf⟩

theorem link_loosens (s : System) (d e : Nat) : s.Loosens (s.link d e) := by
  unfold link
  split
  · dsimp only
    -- The other end comes first, then `d` has its role, and only then the other end waits.
    refine Loosens.enlist ((Loosens.append s ?_).trans (.setRole (by intro; rfl) _ d))
      (role?_length s) ((Loosens.setRole (by intro; rfl) _ d).deaf _ ?_) e
    · rfl
    · exact ⟨_, role?_appended s _, rfl⟩
  · exact .refl s

theorem Connects.loosens {d : Nat} {made : Bool} (h : s.Connects d s' made) : s.Loosens s' := by
  cases h with
  | waits a h => exact (Loosens.setRole (by intro; rfl) s d).trans h.loosens
  | links ht _ h => exact (ht.loosens.trans (link_loosens ..)).trans h.loosens
  | aims o a ht _ _ h => exact (ht.loosens.trans (.setRole (by intro; rfl) _ d)).trans h.loosens
  | already h => exact h.loosens

theorem accept_loosens {d e : Nat} (h : s.accept d = .ok (some (s', e))) : s.Loosens s' := by
  obtain ⟨room, queue, hrole, rfl⟩ := accept_eq h
  exact .dequeue hrole

/-- The first in line is taken, and nobody else. -/
theorem line_accept {d e : Nat} (h : s.accept d = .ok (some (s', e))) (x : Nat) :
    s.line x = (if d = x then [e] else []) ++ s'.line x := by
  obtain ⟨room, queue, hrole, rfl⟩ := accept_eq h
  obtain ⟨y, hy, -⟩ := Option.map_eq_some_iff.mp hrole
  by_cases hdx : d = x
  · subst hdx
    simp [System.line, role?_modify, hrole, hy]
  · simp [System.line, role?_modify, hdx]

theorem Reads.loosens {d : Nat} {bytes : Bytes} (h : s.Reads d s' bytes) : s.Loosens s' := by
  cases h with
  | nothing ht => exact ht.loosens
  | bytes ht => exact ht.loosens.trans (.modify (by intro; rfl) _ d)
  | message ps _ ht => exact ht.loosens.trans (.modify (by intro; rfl) _ d)

theorem Writes.loosens {d : Nat} {bytes : Bytes} (h : s.Writes d s' bytes) : s.Loosens s' := by
  cases h with
  | nothing ht => exact ht.loosens
  | bytes ps _ _ _ ht => exact ht.loosens.trans (.modify (by intro; rfl) _ _)
  | message p _ _ _ _ ht => exact ht.loosens.trans (.modify (by intro; rfl) _ _)
  | nowhere _ _ ht => exact ht.loosens
  | adrift _ _ ht => exact ht.loosens.trans (.setRole (by intro; rfl) _ d)

/-! ### Closing -/

theorem role?_drop (s : System) (d : Nat) (accepted : Bool) (e : Nat) :
    (s.drop d accepted).role? e = s.role? e := by
  obtain ⟨t, ht, hretains, -⟩ := s.drop_eq d accepted
  rw [ht, shut, role?_modify_of_eq (by intro; rfl), hretains.role]

theorem role?_close (s : System) (d e : Nat) : (s.close d).role? e = s.role? e := by
  have hdrops (l : List Nat) (t : System) :
      (l.foldl (fun s e => s.drop e false) t).role? e = t.role? e := by
    induction l generalizing t with
    | nil => rfl
    | cons x l ih => exact (ih _).trans (role?_drop t x false e)
  exact (hdrops _ _).trans (role?_drop s d true e)

/-- Whoever is taken from a line, nobody is closed. -/
theorem isOpen_accept {d e : Nat} (h : s.accept d = .ok (some (s', e))) (x : Nat) :
    s'.isOpen x = s.isOpen x := by
  obtain ⟨room, queue, -, rfl⟩ := accept_eq h
  exact isOpen_modify_of_eq (by intro; rfl) s d x

theorem isOpen_drop (s : System) (d : Nat) (accepted : Bool) (e : Nat) :
    (s.drop d accepted).isOpen e = true ↔ s.isOpen e = true ∧ e ≠ d := by
  obtain ⟨t, ht, hretains, -⟩ := s.drop_eq d accepted
  rw [ht, isOpen_shut, hretains.isOpen]

/-- A descriptor that is closed takes those in its line along. -/
theorem isOpen_close (s : System) (d e : Nat) :
    (s.close d).isOpen e = true ↔ s.isOpen e = true ∧ e ≠ d ∧ e ∉ s.line d := by
  have hdrops (l : List Nat) (t : System) :
      (l.foldl (fun s e => s.drop e false) t).isOpen e = true ↔ t.isOpen e = true ∧ e ∉ l := by
    induction l generalizing t with
    | nil => simp
    | cons x l ih =>
      rw [List.foldl_cons, ih, isOpen_drop, List.mem_cons, not_or, and_assoc]
  unfold close
  rw [hdrops, isOpen_drop, and_assoc]

/-- Several descriptors are closed, one after the other. -/
theorem isOpen_closeAll (l : List Nat) (s : System) (e : Nat) :
    (l.foldl close s).isOpen e = true ↔
      s.isOpen e = true ∧ ∀ d ∈ l, e ≠ d ∧ e ∉ s.line d := by
  induction l generalizing s with
  | nil => simp
  | cons d l ih =>
    have hline (x : Nat) : (s.close d).line x = s.line x := line_eq (role?_close s d x)
    simp [ih, isOpen_close, hline, and_assoc]

theorem role?_closeAll (l : List Nat) (s : System) (e : Nat) :
    (l.foldl close s).role? e = s.role? e := by
  induction l generalizing s with
  | nil => rfl
  | cons d l ih => exact (ih _).trans (role?_close s d e)

theorem closeAll_loosens (l : List Nat) (s : System) : s.Loosens (l.foldl close s) :=
  .of_roles (role?_closeAll l s)

theorem isQueued_iff (s : System) (e : Nat) :
    s.isQueued e = true ↔ ∃ d, s.isOpen d = true ∧ e ∈ s.line d := by
  simp only [isQueued, List.any_eq_true]
  constructor
  · rintro ⟨x, hx, hqueue⟩
    obtain ⟨d, hd⟩ := List.getElem?_of_mem hx
    refine ⟨d, ?_⟩
    cases hrole : x.role <;> simp_all [isOpen, System.line, role?]
  · rintro ⟨d, hopen, he⟩
    cases hd : s.descriptors[d]? with
    | none => simp [isOpen, hd] at hopen
    | some x =>
      refine ⟨x, List.mem_of_getElem? hd, ?_⟩
      cases hrole : x.role <;> simp_all [isOpen, System.line, role?]

end System

end Conduit.Kernel
