import Conduit.Proofs.Dispatch.Stop

/-!
The default thread. Whoever asks for it gets a thread that has not been stopped: the same one as
before until that one is stopped, and a new one after that. Stopping a thread that has been the
default thread before does nothing to the one that is it now.
-/

namespace Conduit.Dispatch

variable {C : Component}

namespace Machine

/-- A call for the default thread is answered with a reference to the venue `v`. -/
structure Obtains (m : Machine C) (v : Nat) (m' : Machine C) : Prop where
  named : ∃ id, m.control = .run (.context (.make id .defaultThread)) ∧
    m'.names.head? = some (id, ⟨m.identities, .venue v⟩)
  step : m.advance? = some m'
  done : m'.control = .back .done

variable {m m' : Machine C} {u v n : Nat}

/-! ### Steps -/

theorem make_obtains {id : String} (hc : m.control = .run (.context (.make id .defaultThread))) :
    m.Obtains (m.defaultThread.getD m.venues.length) (m.make id .defaultThread) := by
  refine ⟨⟨id, hc, ?_⟩, advance?_make hc, ?_⟩
  all_goals
    unfold make
    cases m.defaultThread <;> rfl

/-- What is obtained is the default thread, or becomes it. -/
theorem Obtains.eq (h : m.Obtains v m') : v = m.defaultThread.getD m.venues.length := by
  obtain ⟨id, hc, hnamed⟩ := h.named
  have hmade := make_obtains hc
  obtain rfl : m.make id .defaultThread = m' := Option.some.inj (hmade.step.symm.trans h.step)
  obtain ⟨id', -, hnamed'⟩ := hmade.named
  have heq := hnamed.symm.trans hnamed'
  simp only [Option.some.injEq, Prod.mk.injEq, Context.mk.injEq, Place.venue.injEq, true_and] at heq
  exact heq.2

theorem Obtains.default (h : m.Obtains v m') : m'.defaultThread = some v := by
  obtain ⟨id, hc, -⟩ := h.named
  obtain rfl : m.make id .defaultThread = m' :=
    Option.some.inj ((advance?_make hc).symm.trans h.step)
  rw [h.eq]
  cases hd : m.defaultThread <;> simp [make, hd, reply, bind]

/-- What becomes of the default thread in a step. -/
inductive Shifts (m m' : Machine C) : Prop where
  | stays (h : m'.defaultThread = m.defaultThread)
  /-- It is stopped. -/
  | stopped (v : Nat) (hv : m.IsStopping v) (hd : m.defaultThread = some v) (h : m'.defaultThread = none)
  /-- There is none, and a new thread becomes it. -/
  | made (hd : m.defaultThread = none) (h : m'.defaultThread = some m.venues.length)
      (hk : m'.floor.kind? m.venues.length = some .thread)

theorem make_shifts (id : String) (kind : ContextKind) : m.Shifts (m.make id kind) := by
  cases kind with
  | direct | pool | concurrent | manual | thread => exact .stays rfl
  | serial label => exact .stays (congrArg Prod.snd (doors_wake _ _))
  | defaultThread =>
    cases hd : m.defaultThread with
    | some v => exact .stays (by simp [make, hd, bind, reply])
    | none =>
      refine .made hd ?_ ?_
      · simp [make, hd, reply]
      · simp [make, hd, reply, openVenue, bind, floor, Floor.kind?]
  | copy of =>
    refine .stays ?_
    simp only [make]
    split
    · rfl
    · split <;> split <;> rfl

theorem close_default (hd : m.defaultThread ≠ some v) :
    (m.close v).defaultThread = m.defaultThread := by
  unfold close
  cases h : m.defaultThread with
  | none => rfl
  | some u =>
    have hne : u ≠ v := fun he => hd (he ▸ h)
    simp [hne]

theorem advance?_shifts (hm : m.advance? = some m') : m.Shifts m' := by
  by_cases hstop : ∃ v, m.IsStopping v
  · obtain ⟨v, hv⟩ := hstop
    have h : m'.defaultThread = (m.close v).defaultThread :=
      congrArg Prod.snd (step?_stopping hv (step?_of_stopping hv hm))
    by_cases hd : m.defaultThread = some v
    · exact .stopped v hv hd (by simp [h, close, hd])
    · exact .stays (h.trans (close_default hd))
  · have hno : ∀ v, ¬m.IsStopping v := fun v hv => hstop ⟨v, hv⟩
    by_cases hmake : ∃ id kind, m.control = .run (.context (.make id kind))
    · obtain ⟨id, kind, hc⟩ := hmake
      obtain rfl : m.make id kind = m' := Option.some.inj ((advance?_make hc).symm.trans hm)
      exact make_shifts id kind
    · exact .stays (congrArg Prod.snd (advance?_doors hno (fun id kind hc => hmake ⟨id, kind, hc⟩) hm))

/-- Venues are made, and are never taken away. -/
theorem advance?_venues (hm : m.advance? = some m') : m.venues.length ≤ m'.venues.length := by
  have hlen (m : Machine C) : m.venues.length = m.doors.1.length := by simp [doors]
  rw [hlen m, hlen m']
  by_cases hstop : ∃ v, m.IsStopping v
  · obtain ⟨v, hv⟩ := hstop
    rw [step?_stopping hv (step?_of_stopping hv hm)]
    simp [doors, close]
  · cases advance?_opens (fun v hv => hstop ⟨v, hv⟩) hm with
    | same h => exact Nat.le_of_eq (by rw [h])
    | made h | madeDefault h => simp [h]

/-- Stopping a thread that is not the default thread leaves the default thread and all other venues
as they are. -/
theorem stop_other (hv : m.IsStopping v) (hd : m.defaultThread ≠ some v)
    (hm : m.advance? = some m') :
    m'.defaultThread = m.defaultThread ∧ ∀ u, u ≠ v → m'.accepts u = m.accepts u := by
  have hdoors := step?_stopping hv (step?_of_stopping hv hm)
  refine ⟨(congrArg Prod.snd hdoors).trans (close_default hd), fun u hu => ?_⟩
  rw [accepts_eq, hdoors, ← accepts_eq, accepts_close]
  simp [hu]

theorem doors_strike (m : Machine C) : m.strike.doors = m.doors := doors_wakeAll _ _

/-- The default thread is a thread. -/
def Threaded (m : Machine C) : Prop := ∀ v, m.defaultThread = some v → m.floor.kind? v = some .thread

theorem Threaded.advance (ht : m.Threaded) (ho : m.floor.Orderly) (hm : m.advance? = some m') :
    m'.Threaded := by
  intro v hv
  cases advance?_shifts hm with
  | stays h => exact advance?_kind ho (ht v (h ▸ hv)) hm
  | stopped _ _ _ h => simp [h] at hv
  | made _ h hk =>
    obtain rfl := Option.some.inj (h.symm.trans hv)
    exact hk

/-- The default thread is none of the first `n` venues. -/
def Newer (n : Nat) (m : Machine C) : Prop :=
  n ≤ m.venues.length ∧ ∀ v, m.defaultThread = some v → n ≤ v

theorem Newer.advance (hn : m.Newer n) (hm : m.advance? = some m') : m'.Newer n := by
  refine ⟨Nat.le_trans hn.1 (advance?_venues hm), fun v hv => ?_⟩
  cases advance?_shifts hm with
  | stays h => exact hn.2 v (h ▸ hv)
  | stopped _ _ _ h => simp [h] at hv
  | made _ h =>
    obtain rfl := Option.some.inj (h.symm.trans hv)
    exact hn.1

theorem Newer.of_doors (h : m'.doors = m.doors) (hn : m.Newer n) : m'.Newer n := by
  have hlen : m'.venues.length = m.venues.length := by
    simpa [doors] using congrArg (·.1.length) h
  exact ⟨hlen ▸ hn.1, fun v hv => hn.2 v ((congrArg Prod.snd h).symm.trans hv)⟩

end Machine

/-! ### Runs -/

section Run

variable {free : Bool} {m₀ m m' : Machine C} {past : List (Moment C)} {v w n : Nat}

theorem RunBy.threaded (h : RunBy free m₀ past m) (ho : m₀.floor.Orderly) (ht : m₀.Threaded) :
    m.Threaded := by
  induction h with
  | start => exact ht
  | advance h hm ih => exact ih.advance (h.orderly ho) hm
  | request _ _ op ih => exact ih
  | @strike _ m _ _ ih =>
    intro v hv
    rw [m.floor_strike]
    exact ih v ((congrArg Prod.snd m.doors_strike).symm.trans hv)
  | @proceed _ m u _ n _ hm hq hk _ ih =>
    intro v hv
    obtain ⟨e, -, p⟩ := Machine.proceed_path hm hq hk n
    exact p.kind? (ih v ((congrArg Prod.snd (m.doors_proceed u n)).symm.trans hv))
  | reorder _ _ _ _ ih => exact ih

theorem RunBy.newer (h : RunBy free m₀ past m) (hn : m₀.Newer n) : m.Newer n := by
  induction h with
  | start => exact hn
  | advance _ hm ih => exact ih.advance hm
  | request _ _ op ih => exact ih
  | @strike _ m _ _ ih => exact ih.of_doors m.doors_strike
  | @proceed _ m u _ k _ _ _ _ _ ih => exact ih.of_doors (m.doors_proceed u k)
  | reorder _ _ _ _ ih => exact ih

/-- A default thread stays the default thread until it is stopped. -/
theorem RunBy.stays_default (h : RunBy free m₀ past m) (ho : m₀.floor.Orderly)
    (hk : m₀.floor.kind? v = some .thread) (hd : m₀.defaultThread = some v) :
    m.defaultThread = some v ∨ m.accepts v = false := by
  induction h with
  | start => exact .inl hd
  | @advance _ m m' h hm ih =>
    have hopen := Machine.accepts_advance (h.kind? ho hk) hm
    rcases ih with ih | ih
    · cases Machine.advance?_shifts hm with
      | stays h => exact .inl (h.trans ih)
      | stopped u hu hd' =>
        obtain rfl := Option.some.inj (hd'.symm.trans ih)
        exact .inr (by simp [← Bool.not_eq_true, hopen, hu])
      | made hd' => simp [hd'] at ih
    · exact .inr (by simp [← Bool.not_eq_true, hopen, ih])
  | request _ _ op ih => exact ih
  | @strike _ m _ _ ih =>
    have hdoors := m.doors_strike
    rwa [Machine.accepts_eq, hdoors, ← Machine.accepts_eq,
      show m.strike.defaultThread = m.defaultThread from congrArg Prod.snd hdoors]
  | @proceed _ m u _ k _ _ _ _ _ ih =>
    have hdoors := m.doors_proceed u k
    rwa [Machine.accepts_eq, hdoors, ← Machine.accepts_eq,
      show (m.proceed u k).defaultThread = m.defaultThread from congrArg Prod.snd hdoors]
  | reorder _ _ _ _ ih => exact ih

/-- A thread is stopped in a run from one machine to another. -/
def HasHalted (free : Bool) (m₀ : Machine C) (v : Nat) (m : Machine C) : Prop :=
  ∃ past₁ m₁ m₂ past₂, RunBy free m₀ past₁ m₁ ∧ m₁.IsStopping v ∧ m₁.advance? = some m₂ ∧
    RunBy free m₂ past₂ m

/-- A thread that takes work has not been stopped. -/
theorem not_hasHalted (ho : m₀.floor.Orderly) (ha : m.accepts v = true) :
    ¬HasHalted free m₀ v m := by
  rintro ⟨past₁, m₁, m₂, past₂, h₁, hstop, hm, h₂⟩
  obtain ⟨id, -, hid⟩ := id hstop
  have ho₁ := h₁.orderly ho
  have hk := Machine.kind?_of_thread hid
  have hclosed : m₂.accepts v = false := by
    simp [← Bool.not_eq_true, Machine.accepts_advance hk hm, hstop]
  have hstays := h₂.closed (Machine.orderly_advance ho₁ hm) (Machine.advance?_kind ho₁ hk hm) hclosed
  simp [hstays.1] at ha

end Run

/-! ### The contract -/

/-- What is promised of the default thread at any point of a run. -/
structure DefaultThreadContract (free : Bool) (s : C.State) (m : Machine C) : Prop where
  /-- Every call for it is answered with a thread that takes work: it has never been stopped. -/
  usable : ∀ id, m.control = .run (.context (.make id .defaultThread)) → ∃ v m', m.Obtains v m' ∧
    m'.floor.kind? v = some .thread ∧ m'.accepts v = true ∧ ¬HasHalted free (.fresh s) v m'
  /-- A later call is answered with the same thread, unless that one is stopped in between. -/
  same : ∀ v m' past m₁ w m₂, m.Obtains v m' → RunBy free m' past m₁ →
    m₁.Obtains w m₂ →
      w = v ∨ ∃ before after, past = before ++ after ∧ Parted free m' v before after m₁
  /-- After the default thread has been stopped, the next call is answered with a thread that is
  made after the stop. -/
  renewed : ∀ v m' past m₁ w m₂, m.defaultThread = some v → m.IsStopping v →
    m.advance? = some m' → RunBy free m' past m₁ → m₁.Obtains w m₂ → m.venues.length ≤ w ∧ w ≠ v
  /-- Stopping any other thread leaves the default thread, and that it takes work, as it is. -/
  kept : ∀ u v m', m.defaultThread = some u → m.IsStopping v → v ≠ u → m.advance? = some m' →
    m'.defaultThread = some u ∧ m'.accepts u = true
  /-- A thread that has been stopped is no longer the default thread, so to stop it again is to stop
  another one. -/
  former : ∀ v, HasHalted free (.fresh s) v m → m.defaultThread ≠ some v

theorem default_thread_contract {free : Bool} (s : C.State)
    (x : ExecutionBy free (Machine.fresh s)) : DefaultThreadContract free s x.machine := by
  have ho₀ := Machine.fresh_orderly s
  have ho := x.run.orderly ho₀
  have hgreets := x.run.greets (Machine.fresh_greets s)
  have hthreaded : x.machine.Threaded := x.run.threaded ho₀ fun v hv => nomatch hv
  constructor
  case usable =>
    intro id hc
    have h := Machine.make_obtains hc
    have hrun := x.run.advance h.step
    have ha := hrun.greets (Machine.fresh_greets s) _ h.default
    exact ⟨_, _, h, hthreaded.advance ho h.step _ h.default, ha, not_hasHalted ho₀ ha⟩
  case same =>
    intro v m' past m₁ w m₂ h hrun h'
    have hrun₀ := x.run.advance h.step
    have ho' := hrun₀.orderly ho₀
    have ha := hrun₀.greets (Machine.fresh_greets s) v h.default
    have hk := hthreaded.advance ho h.step v h.default
    rcases hrun.parts ho' hk ha with ⟨ha₁, -⟩ | ⟨-, before, after, hpast, hparted, -⟩
    · have hd := (hrun.stays_default ho' hk h.default).resolve_right (by simp [ha₁])
      exact .inl (by rw [h'.eq, hd, Option.getD_some])
    · exact .inr ⟨before, after, hpast, hparted⟩
  case renewed =>
    intro v m' past m₁ w m₂ hd hstop hm hrun h'
    have hnone : m'.defaultThread = none := by
      cases Machine.advance?_shifts hm with
      | stays h =>
        have ha := (x.run.advance hm).greets (Machine.fresh_greets s) v (h.trans hd)
        simp [Machine.accepts_advance (hthreaded v hd) hm, hstop] at ha
      | stopped _ _ _ h => exact h
      | made hd' => simp [hd] at hd'
    have hnewer : m₁.Newer x.machine.venues.length :=
      hrun.newer ⟨Machine.advance?_venues hm, by simp [hnone]⟩
    have hw : x.machine.venues.length ≤ w := by
      rw [h'.eq]
      cases hd₁ : m₁.defaultThread with
      | none => exact hnewer.1
      | some u => exact hnewer.2 u hd₁
    have hv := Floor.lt_of_kind? (hthreaded v hd)
    exact ⟨hw, Nat.ne_of_gt (Nat.lt_of_lt_of_le hv hw)⟩
  case kept =>
    intro u v m' hd hstop hne hm
    have hne' : x.machine.defaultThread ≠ some v := by simpa [hd] using hne.symm
    obtain ⟨hdefault, haccepts⟩ := Machine.stop_other hstop hne' hm
    exact ⟨hdefault.trans hd, (haccepts u hne.symm).trans (hgreets u hd)⟩
  case former =>
    intro v hhalted hd
    exact not_hasHalted ho₀ (hgreets v hd) hhalted

/-- The default thread is stopped by its own work through one of two references to it, a new one is
made, and the old one is stopped once more through the other reference. -/
def restarted : Execution (Machine.fresh (C := Emitter.component String) {}) :=
  (ExecutionBy.begin _).perform 30
    [.context (.make "a" .defaultThread), .context (.make "b" .defaultThread),
      .own (.perform "a" "last" [.context (.stop "a")] false), .context (.flush "b"),
      .context (.make "c" .defaultThread), .context (.stop "b")]

/-- Then it is asked for again. -/
def restartedAgain : Execution (Machine.fresh (C := Emitter.component String) {}) :=
  restarted.request (.context (.make "d" .defaultThread))

set_option maxRecDepth 4000 in
theorem default_thread_contract_restarted :
    restarted.machine.names.map (fun n => (n.1, n.2.place)) =
      [("c", .venue 1), ("b", .venue 0), ("a", .venue 0), ("direct", .direct)] ∧
    restarted.machine.accepts 0 = false ∧
    ∃ m', restartedAgain.machine.Obtains 1 m' ∧ m'.accepts 1 = true := by
  refine ⟨rfl, rfl, ?_⟩
  have hcontract := default_thread_contract (C := Emitter.component String) {} restartedAgain
  obtain ⟨v, m', h, -, ha, -⟩ := hcontract.usable "d" rfl
  obtain rfl : v = 1 := h.eq
  exact ⟨m', h, ha⟩

end Conduit.Dispatch
