import Conduit.Proofs.Dispatch.Fifo

/-!
Which venues take work, and which of them is the default thread. A thread stops taking work when it
is stopped, and for no other reason; the default thread is one that has not been stopped.
-/

namespace Conduit.Dispatch

variable {C : Component}

namespace Machine

variable (m : Machine C)

/-- Whether each venue takes work, and the default thread. -/
def doors : List Bool × Option Nat := (m.venues.map (·.accepting), m.defaultThread)

/-- A thread is about to be stopped. -/
def IsStopping (v : Nat) : Prop :=
  ∃ id, m.control = .run (.context (.stop id)) ∧ m.venue? id .thread = some v

theorem accepts_eq (v : Nat) : m.accepts v = (m.doors.1[v]?).getD false := by
  simp [accepts, doors]

/-! ### What leaves the doors as they are -/

section Same

@[simp] theorem doors_reply (r : Reply C.Answer) : (m.reply r).doors = m.doors := rfl

@[simp] theorem doors_record (e : Entry C) : (m.record e).doors = m.doors := rfl

@[simp] theorem doors_pushOwn (k : List C.Frame) : (m.pushOwn k).doors = m.doors := rfl

@[simp] theorem doors_widen (v : Nat) : (m.widen v).doors = m.doors := rfl

@[simp] theorem doors_bind (id : String) (place : Place) : (m.bind id place).doors = m.doors := rfl

@[simp] theorem doors_wake (t : Task C) : (m.wake t).doors = m.doors := by
  unfold wake
  split <;> rfl

@[simp] theorem doors_wakeAll (ts : List C.Task) : (m.wakeAll ts).doors = m.doors := by
  induction ts generalizing m with
  | nil => rfl
  | cons t ts ih => exact (ih (m.wake (.own t))).trans (m.doors_wake _)

@[simp] theorem doors_discard (f : C.Frame) : (m.discard f).doors = m.doors := by
  unfold discard
  simp only [doors_wakeAll]
  rfl

/-- Whatever else happens to a venue, it goes on taking work or not. -/
theorem doors_set {v : Nat} {q q' : Venue C.Frame} (hq : m.venues[v]? = some q)
    (ha : q'.accepting = q.accepting) : doors { m with venues := m.venues.set v q' } = m.doors := by
  obtain ⟨hlt, rfl⟩ := List.getElem?_eq_some_iff.mp hq
  have hlt' : v < (m.venues.map (·.accepting)).length := by simpa using hlt
  have hsame : (m.venues.map (·.accepting)).set v m.venues[v].accepting =
      m.venues.map (·.accepting) := by
    simpa using List.set_getElem_self hlt'
  simp [doors, List.map_set, ha, hsame]

@[simp] theorem doors_enqueue (v : Nat) (w : C.Frame) : (m.enqueue v w).doors = m.doors := by
  unfold enqueue
  split
  · rfl
  · rename_i q hq
    split
    · exact m.doors_discard w
    · have hpush : doors { m with venues := m.venues.set v (q.push w) } = m.doors :=
        m.doors_set hq (by unfold Venue.push; split <;> rfl)
      dsimp only
      split
      · exact (doors_wake _ _).trans hpush
      · exact hpush

@[simp] theorem doors_handOver (c : Context) (w : C.Frame) : (m.handOver c w).doors = m.doors := by
  unfold handOver
  split
  · rfl
  · rfl
  · exact m.doors_enqueue _ w

@[simp] theorem doors_runScript (tag : C.Tag) (ops : List (Op C.Action)) (throws : Bool) :
    (m.runScript tag ops throws).doors = m.doors := by
  cases ops <;> rfl

@[simp] theorem doors_take (t : Turn C.toSignature) : (m.take t).doors = m.doors := by
  have hhear : (m.hear t).doors = m.doors := doors_wakeAll _ _
  rw [take_eq_goOn]
  cases t.next with
  | reply r => exact hhear
  | throw => exact hhear
  | enter k => exact hhear
  | script tag ops throws k => exact (doors_runScript _ tag ops throws).trans hhear
  | perform c w k => exact (doors_handOver _ c w).trans hhear

theorem doors_next? {v : Nat} {w : C.Frame} {m' : Machine C} (h : m.next? v = some (w, m')) :
    m'.doors = m.doors := by
  unfold next? at h
  split at h
  · cases h
  · rename_i q hq
    split at h
    · cases h
    · cases h
      exact m.doors_set hq rfl

@[simp] theorem doors_drain (v : Nat) (left : Option Nat) (ran : Nat) :
    (m.drain v left ran).doors = m.doors := by
  unfold drain
  split
  · rfl
  · split
    · rfl
    · rename_i w m' hnext
      exact (m.doors_next? hnext : m'.doors = m.doors)

@[simp] theorem doors_serve (v : Nat) (left : Option Nat) (after : Reply C.Answer) :
    (m.serve v left after).doors = m.doors := by
  unfold serve
  split
  · rfl
  · split
    · rfl
    · rename_i w m' hnext
      exact (m.doors_next? hnext : m'.doors = m.doors)

@[simp] theorem doors_forget (id : String) : (m.forget id).doors = m.doors := by
  unfold forget
  dsimp only
  split
  · rfl
  · split
    · rfl
    · split
      · rfl
      · exact doors_serve _ _ _ _

end Same

/-! ### What changes them -/

/-- A new venue takes work, and may be the default thread. -/
theorem doors_make (id : String) (kind : ContextKind) : (m.make id kind).doors = m.doors ∨
    (m.make id kind).doors = (m.doors.1 ++ [true], m.doors.2) ∨
    (m.make id kind).doors = (m.doors.1 ++ [true], some m.venues.length) := by
  have hopen (kind : VenueKind) (name : String) :
      (m.openVenue id kind name).doors = (m.doors.1 ++ [true], m.doors.2) := by
    simp [openVenue, doors, bind]
  cases kind with
  | direct => exact .inl rfl
  | pool => exact .inl rfl
  | concurrent => exact .inr (.inl (hopen .pool id))
  | manual => exact .inr (.inl (hopen .manual id))
  | serial label => exact .inr (.inl ((doors_wake _ _).trans (hopen .serial label)))
  | thread name => exact .inr (.inl (hopen .thread name))
  | defaultThread =>
    simp only [make]
    split
    · exact .inl rfl
    · refine .inr (.inr ?_)
      simp [openVenue, doors, bind, reply]
  | copy of =>
    simp only [make]
    split
    · exact .inl rfl
    · split <;> split <;> exact .inl rfl

/-- What a step does to the doors in which no thread is stopped: a venue is made, or nothing. -/
inductive Opens (m : Machine C) (m' : Machine C) : Prop where
  | same (h : m'.doors = m.doors)
  | made (h : m'.doors = (m.doors.1 ++ [true], m.doors.2))
  | madeDefault (h : m'.doors = (m.doors.1 ++ [true], some m.venues.length))

variable {m} {m' : Machine C} {v : Nat}

theorem runContext_stop {id : String} (hv : m.venue? id .thread = some v) :
    m.runContext (.stop id) = m.stop v := by
  simp only [runContext, hv]

theorem doors_stop (m : Machine C) (v : Nat) : (m.stop v).doors = (m.close v).doors := by
  unfold stop
  dsimp only
  split
  · rfl
  split
  · exact doors_wake (m.close v) _
  · exact doors_serve _ v none _

theorem step?_stopping (hv : m.IsStopping v) (hm : m.step? = some m') :
    m'.doors = (m.close v).doors := by
  obtain ⟨id, hc, hid⟩ := hv
  rw [step?_context hc, runContext_stop hid] at hm
  obtain rfl := Option.some.inj hm
  exact m.doors_stop v

/-- Operations on contexts that make none and stop no thread leave the doors as they are. -/
theorem runContext_doors {o : ContextOp} (hc : m.control = .run (.context o))
    (hno : ∀ v, ¬m.IsStopping v) (hmake : ∀ id kind, o ≠ .make id kind) :
    (m.runContext o).doors = m.doors := by
  cases o with
  | make id kind => exact absurd rfl (hmake id kind)
  | drain id limit =>
    simp only [runContext]
    split
    · rfl
    · exact m.doors_drain _ limit 0
  | flush id =>
    simp only [runContext]
    split
    · rfl
    · split
      · rfl
      · split
        · rfl
        · split
          · rfl
          · exact m.doors_serve _ _ _
  | stop id =>
    cases hv : m.venue? id .thread with
    | none => simp [runContext, hv]
    | some v => exact absurd ⟨id, hc, hv⟩ (hno v)
  | forget id => exact m.doors_forget id
  | discipline id =>
    simp only [runContext]
    split <;> rfl
  | same a b =>
    simp only [runContext]
    split <;> rfl
  | inspect id =>
    simp only [runContext]
    split
    · rfl
    · split
      · split <;> rfl
      · rfl

theorem doors_returnTo (m : Machine C) (r : Reply C.Answer) (f : Frame C) :
    (m.returnTo r f).doors = m.doors := by
  cases f with
  | own g => exact m.doors_take _
  | script tag rest throws => exact doors_runScript _ tag rest throws
  | turn site => rfl
  | task => rfl
  | drain v left ran => exact m.doors_drain v left ran
  | serve v left after => exact m.doors_serve v left after

theorem doors_unwind (m : Machine C) (f : Frame C) : (m.unwind f).doors = m.doors := by
  cases f with
  | own g => exact m.doors_discard g
  | _ => rfl

theorem step?_doors (hno : ∀ v, ¬m.IsStopping v)
    (hmake : ∀ id kind, m.control ≠ .run (.context (.make id kind))) (hm : m.step? = some m') :
    m'.doors = m.doors := by
  unfold step? at hm
  split at hm
  · cases hm
    exact m.doors_take _
  · rename_i o hc
    cases hm
    exact runContext_doors hc hno fun id kind ho => hmake id kind (ho ▸ hc)
  · split at hm
    · cases hm
    · cases hm
      exact doors_returnTo _ _ _
  · split at hm
    · cases hm
    · cases hm
      exact doors_unwind _ _

theorem poll?_doors (hm : m.poll? = some m') : m'.doors = m.doors := by
  unfold poll? at hm
  split at hm
  · cases hm
  · split at hm
    · cases hm
      exact doors_serve _ _ none .done
    · cases hm
      exact doors_take _ _

theorem doors_proceed (m : Machine C) (v n : Nat) : (m.proceed v n).doors = m.doors :=
  doors_serve _ _ _ _

theorem advance?_doors (hno : ∀ v, ¬m.IsStopping v)
    (hmake : ∀ id kind, m.control ≠ .run (.context (.make id kind))) (hm : m.advance? = some m') :
    m'.doors = m.doors := by
  unfold advance? at hm
  split at hm
  · rename_i hstep
    cases hm
    exact step?_doors hno hmake hstep
  · exact poll?_doors hm

theorem advance?_make {id : String} {kind : ContextKind}
    (hc : m.control = .run (.context (.make id kind))) : m.advance? = some (m.make id kind) := by
  rw [advance?, step?_context hc]
  rfl

theorem step?_of_stopping (hv : m.IsStopping v) (hm : m.advance? = some m') :
    m.step? = some m' := by
  obtain ⟨id, hc, -⟩ := hv
  rw [step?_context hc]
  rwa [advance?, step?_context hc] at hm

theorem advance?_opens (hno : ∀ v, ¬m.IsStopping v) (hm : m.advance? = some m') : m.Opens m' := by
  by_cases hmake : ∃ id kind, m.control = .run (.context (.make id kind))
  · obtain ⟨id, kind, hc⟩ := hmake
    obtain rfl : m.make id kind = m' := Option.some.inj ((advance?_make hc).symm.trans hm)
    rcases m.doors_make id kind with h | h | h
    · exact .same h
    · exact .made h
    · exact .madeDefault h
  · exact .same (advance?_doors hno (fun id kind hc => hmake ⟨id, kind, hc⟩) hm)

/-! ### What a step means for a venue -/

theorem IsStopping.eq {u : Nat} (hv : m.IsStopping v) (hu : m.IsStopping u) : u = v := by
  obtain ⟨id, hc, hid⟩ := hv
  obtain ⟨id', hc', hid'⟩ := hu
  obtain rfl : id = id' := by simpa using hc.symm.trans hc'
  exact Option.some.inj (hid'.symm.trans hid)

/-- A venue goes on taking work until it is stopped. -/
theorem accepts_advance {kind : VenueKind} (hv : m.floor.kind? v = some kind)
    (hm : m.advance? = some m') :
    m'.accepts v = true ↔ m.accepts v = true ∧ ¬m.IsStopping v := by
  have hlt : v < m.doors.1.length := by simpa [doors, floor] using Floor.lt_of_kind? hv
  by_cases hstop : ∃ u, m.IsStopping u
  · obtain ⟨u, hu⟩ := hstop
    have hsame : m'.accepts v = (m.close u).accepts v := by
      rw [accepts_eq, accepts_eq, step?_stopping hu (step?_of_stopping hu hm)]
    have hiff : m.IsStopping v ↔ v = u := ⟨hu.eq, fun h => h ▸ hu⟩
    rw [hsame, accepts_close, hiff]
    simp
  · have hno : ∀ u, ¬m.IsStopping u := fun u hu => hstop ⟨u, hu⟩
    have hsame : m'.doors.1[v]? = m.doors.1[v]? := by
      cases advance?_opens hno hm with
      | same h => rw [h]
      | made h | madeDefault h => rw [h, List.getElem?_append_left hlt]
    rw [accepts_eq, accepts_eq, hsame]
    simp [hno v]

/-- The default thread takes work. -/
def Greets (m : Machine C) : Prop := ∀ v, m.defaultThread = some v → m.accepts v = true

theorem fresh_greets (s : C.State) : (Machine.fresh s).Greets := by
  intro v hv
  cases hv

theorem Greets.of_doors (h : m'.doors = m.doors) (hm : m.Greets) : m'.Greets := by
  intro v hv
  rw [accepts_eq, h, ← accepts_eq]
  exact hm v ((congrArg Prod.snd h).symm.trans hv)

theorem Greets.close (hm : m.Greets) (v : Nat) : (m.close v).Greets := by
  intro u hu
  obtain ⟨hu, hne⟩ := Option.filter_eq_some_iff.mp hu
  rw [accepts_close, hm u hu]
  simpa using hne

theorem Greets.advance (hm : m.Greets) (h : m.advance? = some m') : m'.Greets := by
  by_cases hstop : ∃ u, m.IsStopping u
  · obtain ⟨u, hu⟩ := hstop
    exact .of_doors (step?_stopping hu (step?_of_stopping hu h)) (hm.close u)
  · have hno : ∀ u, ¬m.IsStopping u := fun u hu => hstop ⟨u, hu⟩
    have hlen : m.doors.1.length = m.venues.length := by simp [doors]
    -- Those that took work before still do, and a new venue does.
    have hold {u : Nat} (hu : m.defaultThread = some u) :
        (m.doors.1 ++ [true])[u]? = some true := by
      have ha := hm u hu
      rw [accepts_eq] at ha
      cases hd : m.doors.1[u]? with
      | none => simp [hd] at ha
      | some b =>
        obtain rfl : b = true := by simpa [hd] using ha
        rw [List.getElem?_append_left (List.getElem?_eq_some_iff.mp hd).1, hd]
    cases advance?_opens hno h with
    | same h => exact .of_doors h hm
    | made h =>
      intro u hu
      have hu : m.defaultThread = some u := (congrArg Prod.snd h).symm.trans hu
      rw [accepts_eq, h, hold hu]
      rfl
    | madeDefault h =>
      intro u hu
      obtain rfl : m.venues.length = u := Option.some.inj ((congrArg Prod.snd h).symm.trans hu)
      rw [accepts_eq, h, ← hlen]
      simp

/-- To stop a thread that has been stopped changes nothing. -/
theorem close_of_closed (ho : m.floor.Orderly) (hm : m.Greets) (ha : m.accepts v = false) :
    m.close v = m := by
  have hvenues : (m.venues.modify v fun q => { q with accepting := false, handle := false }) =
      m.venues := by
    refine List.ext_getElem? fun u => ?_
    rw [List.getElem?_modify]
    by_cases h : v = u
    · subst h
      cases hq : m.venues[v]? with
      | none => rfl
      | some q =>
        obtain ⟨kind, name, accepting, handle, waiting⟩ := q
        obtain rfl : accepting = false := by simpa [accepts, hq] using ha
        obtain rfl : handle = false := (ho.sound v _ hq).handle
        simp
    · simp [h]
  have hdefault : m.defaultThread.filter (· ≠ v) = m.defaultThread := by
    cases hd : m.defaultThread with
    | none => rfl
    | some u =>
      have hne : u ≠ v := by
        rintro rfl
        simp [hm u hd] at ha
      simp [hne]
  unfold close
  rw [hvenues, hdefault]

end Machine

/-- In every run the default thread takes work. -/
theorem RunBy.greets {free : Bool} {m₀ m : Machine C} {past : List (Moment C)} (h : RunBy free m₀ past m)
    (h₀ : m₀.Greets) : m.Greets := by
  induction h with
  | start => exact h₀
  | advance _ hm ih => exact ih.advance hm
  | request _ _ op ih => exact ih
  | strike _ _ ih => exact .of_doors (Machine.doors_wakeAll _ _) ih
  | proceed _ _ _ _ _ ih => exact .of_doors (Machine.doors_proceed _ _ _) ih
  | reorder _ _ _ _ ih => exact ih

end Conduit.Dispatch
