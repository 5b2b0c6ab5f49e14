import Conduit.Proofs.Kernel.Streams

/-!
What operations do to streams. Only connecting links descriptors, and only reading and writing move
bytes.
-/

namespace Conduit.Kernel

open Pipe (Poll)

namespace System

variable {s s' s'' : System} {log : Log}

/-! ### Setting up -/

/-- The descriptor `d` is new, and linked to nothing. -/
structure Adds (s s' : System) (d : Nat) : Prop where
  stays : s.Stays s'
  absent : s.type? d = none
  present : ∃ t, s'.type? d = some t
  single : s'.Single d

theorem Creates.adds {d : Nat} (h : s.Creates s' d) : s.Adds s' d := by
  obtain ⟨rfl, y, hrole, hinbox, hretains⟩ := h
  have hstays := (Stays.append s hrole hinbox).trans hretains.stays
  have htype : s'.type? s.descriptors.length = some y.type := by
    rw [hretains.type]
    simp [type?]
  refine ⟨hstays, by simp [type?], ⟨_, htype⟩, ?_⟩
  rintro e ⟨-, a, ha⟩
  rw [hretains.role] at ha
  simp [role?, hrole] at ha

/-- A descriptor that is linked to nothing gets a role in which it is linked to nothing. -/
theorem Stays.setRole {d : Nat} (hd : s.Single d) {r : Role} (hr : ∀ o a, r ≠ .connected o a) :
    s.Stays (s.modify d fun x => { x with role := r }) :=
  .modify (by intro; rfl) (by intro; rfl) (by intro _ h; exact h)
    fun _ _ => .inr ⟨hd, fun o a h => absurd h (hr o a)⟩

theorem listen_stays {d : Nat} {backlog : Int32} (hd : s.Single d)
    (h : s.listen d backlog = .ok s') : s.Stays s' := by
  obtain ⟨room, rfl⟩ := listen_eq h
  exact .setRole hd nofun

theorem single_of_role {d : Nat} {r : Role} (h : s.role? d = some r)
    (hr : ∀ o a, r ≠ .connected o a) : s.Single d := by
  rintro e ⟨-, a, ha⟩
  exact hr _ a (Option.some.inj (h.symm.trans ha))

theorem accept_stays {d e : Nat} (h : s.accept d = .ok (some (s', e))) : s.Stays s' := by
  obtain ⟨room, queue, hrole, rfl⟩ := accept_eq h
  exact .setRole (single_of_role hrole nofun) nofun

/-! ### Connecting -/

/-- A newcomer joins the line of a listener. -/
theorem enlist_stays (s : System) (n e : Nat) : s.Stays (s.modify e fun y =>
    match y.role with
    | .listening room queue => { y with role := .listening room (queue ++ [n]) }
    | _ => y) := by
  refine .modify (fun y => ?_) (fun y => ?_) (fun y hy => ?_) fun y hy => ?_
  · split <;> rfl
  · split <;> rfl
  · split <;> exact hy
  · split
    · rename_i room queue hrole
      refine .inr ⟨single_of_role (r := .listening room queue) ?_ nofun, nofun⟩
      simp [role?, hy, hrole]
    · exact .inl rfl

theorem link_goes {d e : Nat} (hd : s.Single d) (htype : s.type? d = s.type? e) :
    s.Goes (s.link d e) (some d) := by
  unfold link
  split
  · rename_i x y hx hy
    dsimp only
    refine (couples_append hd ?_ rfl rfl).goes.trans ((enlist_stays ..).goes _)
    rw [htype, type?, hy]
    rfl
  · exact .refl s _

/-- Only the descriptor that connects is linked, and only if its link is made. -/
theorem Connects.goes {d : Nat} {made : Bool} (hd : s.Single d) (h : s.Connects d s' made) :
    s.Goes s' (if made then some d else none) := by
  cases h with
  | waits a h => exact ((Stays.setRole hd (by simp)).trans h.stays).goes _
  | links ht htype h =>
    refine ((ht.stays.goes _).trans (link_goes (ht.stays.single.mpr hd) ?_)).trans (h.stays.goes _)
    rw [ht.type, ht.type, htype]
  | aims o a ht htype ho h =>
    have hdt := ht.stays.single.mpr hd
    refine ((ht.stays.trans (.modify (by simp) (by simp) (by simp)
      fun x hx => .inr ⟨hdt, fun o' b hb => ?_⟩)).trans h.stays).goes _
    have hxtype : x.type = .datagram := by simpa [type?, hx] using (ht.type d).trans htype
    obtain ⟨rfl, -⟩ := Role.connected.inj hb
    rw [hxtype]
    exact ⟨by simp [SocketType.datagram, SocketType.stream],
      fun e he => (ht.type e).trans (ho e he)⟩
  | already h => exact h.stays.goes _

/-! ### Closing -/

theorem shut_alike (s : System) (d : Nat) : s.Alike (s.shut d) :=
  .modify (by intro; rfl) (by intro _ h; exact h) fun _ _ => .inl rfl

/-- What lies at a descriptor may be lost once its partner sends no more. -/
theorem drop_stays (hs : ∀ d e, s.Joined d e → s.Joined e d) (d : Nat) (accepted : Bool) :
    s.Stays (s.drop d accepted) := by
  obtain ⟨t, ht, hretains, hended⟩ := s.drop_eq d accepted
  have hstays := hretains.stays
  have hshut := shut_alike t d
  rw [ht]
  refine ⟨hstays.toAlike.trans hshut, fun b hb => ?_⟩
  rw [inbox_shut]
  -- What lies at `d` itself is lost, but nobody can send to it any more.
  split
  · rename_i hdb
    subst hdb
    exact .inr ⟨rfl, fun e he => hshut.ended e (hended e _ he.1 (partner?_of_joined (hs e d he)))⟩
  · exact (hstays.inbox b fun hm => hb (hshut.messages hm)).imp_right
      (.imp_right fun hall e he => hshut.ended e (hall e he))

theorem drop_alike (s : System) (d : Nat) (accepted : Bool) : s.Alike (s.drop d accepted) := by
  obtain ⟨t, ht, hretains, -⟩ := s.drop_eq d accepted
  exact ht ▸ hretains.stays.toAlike.trans (shut_alike t d)

theorem drop_goes (s : System) (d : Nat) (accepted : Bool) (o : Option Nat) :
    s.Goes (s.drop d accepted) o :=
  ⟨(drop_alike s d accepted).spares o, fun _ hs => (drop_stays hs.paired d accepted).streams hs⟩

theorem close_goes (s : System) (d : Nat) (o : Option Nat) : s.Goes (s.close d) o := by
  have hdrops (l : List Nat) (t : System) :
      t.Goes (l.foldl (fun s e => s.drop e false) t) o := by
    induction l generalizing t with
    | nil => exact .refl t o
    | cons x l ih => exact (drop_goes t x false o).trans (ih _)
  exact (drop_goes s d true o).trans (hdrops _ _)

theorem closeAll_goes (l : List Nat) (s : System) (o : Option Nat) :
    s.Goes (l.foldl close s) o := by
  induction l generalizing s with
  | nil => exact .refl s o
  | cons d l ih => exact (close_goes s d o).trans (ih _)

/-! ### Reading and writing -/

/-- What the log says of descriptors that are no streams does not matter. -/
theorem Streams.relog {log' : Log} (hs : s.Streams log)
    (h : ∀ b, ¬s.Messages b → log'.accepted b = log.accepted b ∧ log'.handed b = log.handed b) :
    s.Streams log' where
  matched := hs.matched
  paired := hs.paired
  carried d e hj := by
    have hstream {b : Nat} (hb : s.type? b = some .stream) : ¬s.Messages b := by
      rintro ⟨t, ht, hne⟩
      exact hne (Option.some.inj (ht.symm.trans hb))
    rw [Carried, (h d (hstream hj.1)).1, (h e (hstream (hs.paired d e hj).1)).2]
    exact hs.carried d e hj
  single d hd hsingle := by
    rw [(h d hd).1, (h d hd).2]
    exact hs.single d hd hsingle

theorem messages_of_type {d : Nat} {x : Descriptor} (hx : s.descriptors[d]? = some x)
    (h : x.type ≠ .stream) : s.Messages d :=
  ⟨x.type, by simp [type?, hx], h⟩

theorem ne_of_messages {d b : Nat} (hd : s.Messages d) (hb : ¬s.Messages b) : b ≠ d := by
  rintro rfl
  exact hb hd

/-- A descriptor that is no stream moves bytes of no stream. -/
theorem Streams.accept_messages (hs : s.Streams log) {d : Nat} (hd : s.Messages d) (bytes : Bytes) :
    s.Streams (log.accept d bytes) :=
  hs.relog fun _ hb => ⟨by simp [ne_of_messages hd hb], rfl⟩

theorem Streams.hand_messages (hs : s.Streams log) {d : Nat} (hd : s.Messages d) (bytes : Bytes) :
    s.Streams (log.hand d bytes) :=
  hs.relog fun _ hb => ⟨rfl, by simp [ne_of_messages hd hb]⟩

theorem setInbox_alike (s : System) (d : Nat) (f : Descriptor → List Parcel) :
    s.Alike (s.modify d fun x => { x with inbox := f x }) :=
  .modify (by intro; rfl) (by intro _ h; exact h) fun _ _ => .inl rfl

/-- What lies at a descriptor that is no stream does not matter. -/
theorem Alike.stays {d : Nat} {f : Descriptor → Descriptor} (h : s.Alike (s.modify d f))
    (hd : s.Messages d) : s.Stays (s.modify d f) := by
  refine ⟨h, fun b hb => .inl (inbox_modify_of_ne ?_ f)⟩
  rintro rfl
  exact hb (h.messages hd)

/-- Bytes are taken out of what lies at a stream. -/
theorem Streams.take (hs : s.Streams log) {d : Nat} {x : Descriptor} {ps ps' : List Parcel}
    {bytes : Bytes} (hx : s.descriptors[d]? = some x) (htype : x.type = .stream) (hin : x.inbox = ps)
    (hbytes : bytes ++ contents ps' = contents ps) (hne : ps ≠ []) :
    (s.modify d fun x => { x with inbox := ps' }).Streams (log.hand d bytes) := by
  have halike := setInbox_alike s d fun _ => ps'
  have hinbox : s.inbox d = ps := by simp [System.inbox, hx, hin]
  have hself : (s.modify d fun x => { x with inbox := ps' }).inbox d = ps' := inbox_modify_self hx
  have hstream : ¬s.Messages d := by
    rintro ⟨t, ht, hne⟩
    exact hne (by simpa [type?, hx, htype, eq_comm] using ht)
  refine ⟨halike.matched hs.matched, fun b e hj => ?_, fun b e hj => ?_, fun b hb hsingle => ?_⟩
  · exact (halike.joined e b).mpr (hs.paired b e ((halike.joined b e).mp hj))
  · have hcarried := hs.carried b e ((halike.joined b e).mp hj)
    by_cases hed : e = d
    · subst hed
      rw [Carried, hinbox] at hcarried
      -- As bytes lie there, none has been lost.
      rcases hcarried with hc | ⟨-, hnil, -⟩
      · refine .inl ?_
        rw [hself, Log.handed_hand, if_pos rfl, List.append_assoc, hbytes]
        exact hc
      · exact absurd hnil hne
    · rw [Carried, inbox_modify_of_ne (Ne.symm hed), Log.handed_hand, if_neg hed, List.append_nil]
      exact hcarried.imp_right (.imp_left (halike.ended b))
  · have hold := hs.single b (fun hm => hb (halike.messages hm)) (halike.single.mp hsingle)
    have hbd : b ≠ d := by
      rintro rfl
      exact hne (hinbox.symm.trans hold.2.2)
    rw [inbox_modify_of_ne (Ne.symm hbd), Log.handed_hand, if_neg hbd, List.append_nil]
    exact hold

/-- What is read lay there before. -/
theorem Reads.streams {d : Nat} {bytes : Bytes} (h : s.Reads d s' bytes) (hs : s.Streams log) :
    s'.Streams (log.hand d bytes) := by
  cases h with
  | nothing ht =>
    rw [Log.hand_nil]
    exact ht.stays.streams hs
  | bytes ht hx htype hin hbytes => exact (ht.stays.streams hs).take hx htype rfl hbytes hin
  | message ps _ ht hx hne =>
    have hd := messages_of_type hx hne
    exact ((setInbox_alike _ d _).stays hd).streams ((ht.stays.streams hs).hand_messages hd _)

theorem Reads.alike {d : Nat} {bytes : Bytes} (h : s.Reads d s' bytes) : s.Alike s' := by
  cases h with
  | nothing ht => exact ht.stays.toAlike
  | bytes ht => exact ht.stays.toAlike.trans (setInbox_alike _ d _)
  | message ps _ ht => exact ht.stays.toAlike.trans (setInbox_alike _ d _)

/-- Bytes arrive at the partner of a stream. -/
theorem Streams.deliver (hs : s.Streams log) {d e : Nat} (hj : s.Joined d e)
    (hended : ¬s.Ended d) (ps : List Parcel) :
    (s.deliver e ps).Streams (log.accept d (contents ps)) := by
  have halike : s.Alike (s.deliver e ps) := setInbox_alike s e fun y => y.inbox ++ ps
  have hback := hs.paired d e hj
  have hself : (s.deliver e ps).inbox e = s.inbox e ++ ps := by
    obtain ⟨y, hy, -⟩ := Option.map_eq_some_iff.mp hback.1
    simp [System.inbox, System.deliver, System.modify, hy]
  refine ⟨halike.matched hs.matched, fun b f hb => ?_, fun b f hb => ?_, fun b hb hsingle => ?_⟩
  · exact (halike.joined f b).mpr (hs.paired b f ((halike.joined b f).mp hb))
  · replace hb := (halike.joined b f).mp hb
    have hcarried := hs.carried b f hb
    by_cases hbd : b = d
    · subst hbd
      obtain rfl : e = f := hj.unique hb
      rcases hcarried with hc | ⟨h, -, -⟩
      · refine .inl ?_
        rw [hself, contents_append, Log.handed_accept, Log.accepted_accept, if_pos rfl, ← hc,
          List.append_assoc]
      · exact absurd h hended
    · -- Nobody else sends to `e`.
      have hfe : e ≠ f := by
        rintro rfl
        exact hbd ((hs.paired b e hb).unique hback)
      rw [Carried, System.deliver, inbox_modify_of_ne hfe, Log.accepted_accept, if_neg hbd,
        List.append_nil]
      exact hcarried.imp_right (.imp_left (halike.ended b))
  · have hold := halike.single.mp hsingle
    have hbd : b ≠ d := fun h => hold e (h ▸ hj)
    have hbe : e ≠ b := fun h => hold d (h ▸ hback)
    rw [System.deliver, inbox_modify_of_ne hbe, Log.accepted_accept, if_neg hbd, List.append_nil]
    exact hs.single b (fun hm => hb (halike.messages hm)) hold

theorem adrift_alike {d : Nat} (hd : s.Messages d) :
    s.Alike (s.modify d fun x => { x with role := .idle, inbox := [] }) := by
  refine .modify (by intro; rfl) (by intro _ h; exact h) fun _ _ => .inr ⟨fun e hj => ?_, nofun⟩
  obtain ⟨t, ht, hne⟩ := hd
  exact hne (Option.some.inj (ht.symm.trans hj.1))

/-- What a write accepts lies at the partner afterwards. -/
theorem Writes.streams {d : Nat} {bytes : Bytes} (h : s.Writes d s' bytes) (hs : s.Streams log) :
    s'.Streams (log.accept d bytes) := by
  cases h with
  | nothing ht =>
    rw [Log.accept_nil]
    exact ht.stays.streams hs
  | bytes ps htype hrole hopen ht =>
    exact (ht.stays.streams hs).deliver ((ht.stays.joined ..).mpr ⟨htype, _, hrole⟩) hopen ps
  | @message t e a y p _ htype hne hrole ht =>
    -- The receiver is no stream either.
    have he : t.Messages e :=
      ⟨y, (ht.type e).trans ((hs.matched d y (some e) a htype hrole).1 e rfl), hne⟩
    exact (ht.stays.trans ((setInbox_alike t e _).stays he)).streams
      (hs.accept_messages ⟨y, htype, hne⟩ _)
  | @nowhere t a _ hrole ht =>
    obtain ⟨x, hx, -⟩ := Option.map_eq_some_iff.mp hrole
    have hne := (hs.matched d x.type none a (by simp [type?, hx]) hrole).2 rfl
    exact ht.stays.streams (hs.accept_messages (messages_of_type hx hne) _)
  | @adrift t y htype hne ht =>
    rw [Log.accept_nil]
    have hd : t.Messages d := ⟨y, (ht.type d).trans htype, hne⟩
    exact (ht.stays.trans ((adrift_alike hd).stays hd)).streams hs

theorem Writes.alike {d : Nat} {bytes : Bytes} (h : s.Writes d s' bytes) : s.Alike s' := by
  cases h with
  | nothing ht => exact ht.stays.toAlike
  | bytes ps _ _ _ ht => exact ht.stays.toAlike.trans (setInbox_alike _ _ _)
  | message p _ _ _ _ ht => exact ht.stays.toAlike.trans (setInbox_alike _ _ _)
  | nowhere _ _ ht => exact ht.stays.toAlike
  | adrift htype hne ht =>
    exact ht.stays.toAlike.trans (adrift_alike ⟨_, (ht.type _).trans htype, hne⟩)

end System

end Conduit.Kernel
