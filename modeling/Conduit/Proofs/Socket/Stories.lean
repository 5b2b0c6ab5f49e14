import Conduit.Proofs.Socket.Stages

/-!
The story of an attempt to connect. Once the call has returned, the handler is given to its context
when the outcome is decided, and is run later or never; until then the slot waits for the attempt,
unless the socket is closed. No two attempts are made for one slot.
-/

namespace Conduit.Socket

open Dispatch

namespace Progress

def isDecided : Progress → Bool
  | .decided _ => true
  | _ => false

def isDelivered : Progress → Bool
  | .delivered _ => true
  | _ => false

/-- What has been done with a handler since the call. -/
def told (progress : Progress) (a : Nat) (c : Context) : List Deed :=
  match progress with
  | .fresh | .waiting => []
  | .decided _ | .lost => [.dispatched a c]
  | .delivered _ => [.dispatched a c, .heard a]

end Progress

/-- A stage from which connecting is not begun. -/
def Stage.Past (st : Stage) : Prop := st.name ≠ .unbound ∧ st.name ≠ .bound

theorem Stage.Next.past {st st' : Stage} (h : st.Next st') (hst : st.Past) : st'.Past := by
  cases h with
  | stays => exact hst
  | strips h =>
    subst h
    exact hst
  | goes h =>
    obtain ⟨h₁, h₂⟩ := hst
    generalize st.name = n at h h₁ h₂
    generalize hn : st'.name = n' at h
    unfold Past
    rw [hn]
    cases h with
    | bind => exact absurd rfl h₁
    | connect => exact absurd rfl h₁
    | listen => exact absurd rfl h₂
    | connectBound => exact absurd rfl h₂
    | settle => exact ⟨nofun, nofun⟩
    | close => exact ⟨nofun, nofun⟩

namespace Desk

/-- The slots that attempts are made for. -/
def sites (d : Desk) : List (Option Nat) := d.courses.map (·.slot)

theorem courses_setProgress (d : Desk) (a b : Nat) (p : Progress) :
    (d.setProgress a p).courses[b]? =
      (d.courses[b]?).map fun x => if a = b then { x with progress := p } else x := by
  simp only [setProgress, List.getElem?_modify]
  split <;> simp

@[simp] theorem sites_setProgress (d : Desk) (a : Nat) (p : Progress) :
    (d.setProgress a p).sites = d.sites := by
  refine List.ext_getElem? fun b => ?_
  simp only [sites, List.getElem?_map, courses_setProgress]
  cases d.courses[b]? with
  | none => rfl
  | some x => by_cases h : a = b <;> simp [h]

@[simp] theorem courses_length_setProgress (d : Desk) (a : Nat) (p : Progress) :
    (d.setProgress a p).courses.length = d.courses.length := by
  simp [setProgress]

@[simp] theorem sites_conclude (d : Desk) (a : Nat) : (d.conclude a).sites = d.sites := by
  unfold conclude
  split
  · exact sites_setProgress ..
  · rfl

@[simp] theorem courses_length_conclude (d : Desk) (a : Nat) :
    (d.conclude a).courses.length = d.courses.length := by
  unfold conclude
  split
  · exact courses_length_setProgress ..
  · rfl

@[simp] theorem pending_conclude (d : Desk) (a : Nat) : (d.conclude a).pending = d.pending := by
  unfold conclude
  split <;> rfl

/-- Attempts are made for slots of their own, and nothing is told of those that do not exist. -/
structure Placed (d : Desk) (h : List Deed) : Prop where
  past : ∀ a i : Nat, d.sites[a]? = some (some i) → ∃ st, d.slots[i]? = some st ∧ st.Past
  apart : ∀ a b i : Nat, d.sites[a]? = some (some i) → d.sites[b]? = some (some i) → a = b
  unborn : ∀ a, d.courses.length ≤ a → d.pending a = 0
  untold : ∀ a, d.courses.length ≤ a → tale a h = []

variable {d d' : Desk} {h ds : List Deed}

/-- A move that begins no attempt. -/
theorem Placed.go (hd : d.Placed h) (m : d.Move ds d') (hsites : d'.sites = d.sites)
    (hpending : ∀ a, d.courses.length ≤ a → d'.pending a = 0)
    (htold : ∀ a, d.courses.length ≤ a → tale a ds = []) : d'.Placed (h ++ ds) := by
  have hlen : d'.courses.length = d.courses.length := by
    simpa [sites] using congrArg List.length hsites
  constructor
  · intro a i ha
    obtain ⟨st, hst, hpast⟩ := hd.past a i (hsites ▸ ha)
    obtain ⟨st', hst', hnext⟩ := m.onward.kept i st hst
    exact ⟨st', hst', hnext.past hpast⟩
  · exact hsites ▸ hd.apart
  · exact hlen ▸ hpending
  · intro a ha
    rw [tale_append, hd.untold a (hlen ▸ ha), htold a (hlen ▸ ha)]
    rfl

/-- A new attempt, for a slot for which there has been none. -/
theorem Placed.begin (hd : d.Placed h) (m : d.Move [.asked d.courses.length] d') {x : Course}
    (hcourses : d'.courses = d.courses ++ [x]) (hpending : d'.pending = d.pending)
    (hnew : ∀ i, x.slot = some i →
      some i ∉ d.sites ∧ ∃ st, d'.slots[i]? = some st ∧ st.Past) :
    d'.Placed (h ++ [.asked d.courses.length]) := by
  have hsites : d'.sites = d.sites ++ [x.slot] := by simp [sites, hcourses]
  have hlen : d.sites.length = d.courses.length := List.length_map ..
  have cases (a i : Nat) (ha : d'.sites[a]? = some (some i)) :
      d.sites[a]? = some (some i) ∨ a = d.courses.length ∧ x.slot = some i := by
    rw [hsites] at ha
    rcases Nat.lt_or_ge a d.sites.length with hlt | hge
    · rw [List.getElem?_append_left hlt] at ha
      exact .inl ha
    · rw [List.getElem?_append_right hge] at ha
      obtain ⟨hzero, hx⟩ : a - d.sites.length = 0 ∧ x.slot = some i := by
        cases hk : a - d.sites.length with
        | zero => exact ⟨rfl, by simpa [hk] using ha⟩
        | succ k => simp [hk] at ha
      exact .inr ⟨by omega, hx⟩
  constructor
  · intro a i ha
    rcases cases a i ha with ha | ⟨-, hx⟩
    · obtain ⟨st, hst, hpast⟩ := hd.past a i ha
      obtain ⟨st', hst', hnext⟩ := m.onward.kept i st hst
      exact ⟨st', hst', hnext.past hpast⟩
    · exact (hnew i hx).2
  · intro a b i ha hb
    rcases cases a i ha with ha | ⟨rfl, hx⟩
    · rcases cases b i hb with hb | ⟨-, hx⟩
      · exact hd.apart a b i ha hb
      · exact absurd (List.mem_of_getElem? ha) (hnew i hx).1
    · rcases cases b i hb with hb | ⟨rfl, -⟩
      · exact absurd (List.mem_of_getElem? hb) (hnew i hx).1
      · rfl
  · intro a ha
    rw [hcourses, List.length_append, List.length_singleton] at ha
    rw [hpending]
    exact hd.unborn a (by omega)
  · intro a ha
    rw [hcourses, List.length_append, List.length_singleton] at ha
    have hne : d.courses.length ≠ a := by omega
    rw [tale_append, hd.untold a (by omega)]
    simp [tale, Deed.attempt?, hne]

theorem lt_of_course {a : Nat} {x : Course} (h : d.courses[a]? = some x) : a < d.courses.length :=
  (List.getElem?_eq_some_iff.mp h).1

/-- The deeds of another attempt. -/
theorem tale_of_ne {a : Nat} {e : Deed} (he : e.attempt? ≠ some a) : tale a [e] = [] := by
  simp [tale, he]

theorem Placed.move (hd : d.Placed h) (m : d.Move ds d') : d'.Placed (h ++ ds) := by
  have hlt {a : Nat} (ha : 0 < d.pending a) : a < d.courses.length := by
    rcases Nat.lt_or_ge a d.courses.length with hlt | hge
    · exact hlt
    · have := hd.unborn a hge
      omega
  have hne {a b : Nat} (ha : a < d.courses.length) (hb : d.courses.length ≤ b) : a ≠ b := by omega
  have m' := m
  cases m with
  | still | meet | openSlot | bind | listen | strip | close => exact hd.go m' rfl hd.unborn fun _ _ => rfl
  | @connect i st c hi hst =>
    refine hd.begin m' rfl rfl fun j hj => ?_
    obtain rfl : i = j := Option.some.inj hj
    refine ⟨fun hmem => ?_, .connecting d.courses.length, ?_, nofun, nofun⟩
    · obtain ⟨a, ha⟩ := List.getElem?_of_mem hmem
      obtain ⟨st', hst', hpast⟩ := hd.past a i ha
      obtain rfl : st = st' := Option.some.inj (hi.symm.trans hst')
      rcases hst with hst | hst
      · exact hpast.1 hst
      · exact hpast.2 hst
    · exact List.getElem?_set_self (List.getElem?_eq_some_iff.mp hi).1
  | connectSole c => exact hd.begin m' rfl rfl nofun
  | wait => exact hd.go m' (sites_setProgress ..) hd.unborn fun _ _ => rfl
  | @decide a x o n ha =>
    refine hd.go m' (sites_setProgress ..) (fun b hb => ?_) fun b hb => ?_
    · have := hne (lt_of_course ha) hb
      simpa [this.symm] using hd.unborn b hb
    · exact tale_of_ne (by simpa [Deed.attempt?] using hne (lt_of_course ha) hb)
  | @refuse a x o n progress ha =>
    refine hd.go m' (sites_setProgress ..) hd.unborn fun b hb => ?_
    exact tale_of_ne (by simpa [Deed.attempt?] using hne (lt_of_course ha) hb)
  | @conclude a ha =>
    refine hd.go m' (sites_conclude ..) (fun b hb => ?_) fun b hb => ?_
    · simp [took, hd.unborn b hb]
    · exact tale_of_ne (by simpa [Deed.attempt?] using hne (hlt ha) hb)
  | @lose a ha =>
    refine hd.go m' (sites_setProgress ..) (fun b hb => ?_) fun _ _ => rfl
    simp [took, setProgress, hd.unborn b hb]

/-- How far an attempt has come, `h` after it was begun. -/
structure Story (d : Desk) (a : Nat) (x : Course) (h : List Deed) : Prop where
  course : d.courses[a]? = some x
  told : tale a h = x.progress.told a x.context
  pending : d.pending a ≤ if x.progress.isDecided then 1 else 0
  made : ∀ k, x.progress = .decided (.ok k) → k < d.connections
  /-- The slot waits for the attempt, unless the socket has been closed. -/
  awaits : x.progress.isDelivered = false → ∀ i, x.slot = some i →
    d.slots[i]? = some (if .closed i ∈ h then .closed else .connecting a)

variable {a : Nat} {x : Course}

/-- A move that does not touch the attempt, nor its slot. -/
theorem Story.spared (hs : d.Story a x h) (hcourse : d'.courses[a]? = d.courses[a]?)
    (hpending : d'.pending a = d.pending a) (hmade : d.connections ≤ d'.connections)
    (htold : tale a ds = []) (hslot : ∀ i, x.slot = some i →
      .closed i ∉ ds ∧ (d.slots[i]? ≠ none → d'.slots[i]? = d.slots[i]?)) :
    d'.Story a x (h ++ ds) := by
  refine ⟨hcourse.trans hs.course, ?_, hpending ▸ hs.pending,
    fun k hk => Nat.lt_of_lt_of_le (hs.made k hk) hmade, fun hx i hi => ?_⟩
  · rw [tale_append, htold, List.append_nil, hs.told]
  · obtain ⟨hopen, hkept⟩ := hslot i hi
    have hwas := hs.awaits hx i hi
    rw [hkept (by simp [hwas]), hwas]
    simp [hopen]

/-- The attempt comes further, and its slot stays as it is. -/
theorem Story.further (hs : d.Story a x h) (hx : x.progress.isDelivered = false) {p : Progress}
    (hcourse : d'.courses[a]? = some { x with progress := p })
    (htold : x.progress.told a x.context ++ tale a ds = p.told a x.context)
    (hpending : d'.pending a ≤ if p.isDecided then 1 else 0)
    (hmade : ∀ k, p = .decided (.ok k) → k < d'.connections) (hslots : d'.slots = d.slots)
    (hopen : ∀ i, .closed i ∉ ds) : d'.Story a { x with progress := p } (h ++ ds) := by
  refine ⟨hcourse, ?_, hpending, hmade, fun _ i hi => ?_⟩
  · rw [tale_append, hs.told, htold]
  · rw [hslots, hs.awaits hx i hi]
    simp [hopen]

theorem isDelivered_of_isOpen {p : Progress} (h : p.isOpen) : p.isDelivered = false := by
  cases p <;> simp_all [Progress.isOpen, Progress.isDelivered]

theorem told_of_isOpen {p : Progress} (h : p.isOpen) (a : Nat) (c : Context) : p.told a c = [] := by
  cases p <;> simp_all [Progress.isOpen, Progress.told]

theorem isDecided_of_isOpen {p : Progress} (h : p.isOpen) : p.isDecided = false := by
  cases p <;> simp_all [Progress.isOpen, Progress.isDecided]

theorem courses_setProgress_self (hx : d.courses[a]? = some x) (p : Progress) :
    (d.setProgress a p).courses[a]? = some { x with progress := p } := by
  simp [courses_setProgress, hx]

theorem courses_setProgress_ne {b : Nat} (hb : b ≠ a) (p : Progress) :
    (d.setProgress b p).courses[a]? = d.courses[a]? := by
  simp [courses_setProgress, hb]

/-- An attempt with an outcome on its way has been decided, and has one on its way only. -/
theorem Story.decided (hs : d.Story a x h) (ha : 0 < d.pending a) :
    ∃ o, x.progress = .decided o ∧ d.pending a = 1 := by
  have hle := hs.pending
  cases hx : x.progress with
  | decided o =>
    rw [hx] at hle
    exact ⟨o, rfl, Nat.le_antisymm hle ha⟩
  | _ =>
    rw [hx] at hle
    exact absurd ha (Nat.not_lt.mpr hle)

/-- An attempt for another slot settles its outcome there. -/
theorem slots_conclude {b : Nat} {i : Nat} (hb : d.sites[b]? ≠ some (some i)) :
    (d.conclude b).slots[i]? = d.slots[i]? := by
  unfold conclude
  split
  · rename_i slot c o hcourse
    have hsite : d.sites[b]? = some slot := by simp [sites, hcourse]
    cases slot with
    | none => rfl
    | some j =>
      have hne : j ≠ i := by
        rintro rfl
        exact hb hsite
      show (settle d.slots j o).1[i]? = d.slots[i]?
      unfold settle
      split <;> simp [hne]
  · rfl

theorem courses_conclude_ne {b : Nat} (hb : b ≠ a) :
    (d.conclude b).courses[a]? = d.courses[a]? := by
  unfold conclude
  split
  · exact courses_setProgress_ne hb _
  · rfl

/-! The moves of the attempt itself, one after the other. -/

theorem Story.wait (hs : d.Story a x h) (hopen : x.progress.isOpen) :
    (d.setProgress a .waiting).Story a { x with progress := .waiting } (h ++ []) := by
  refine hs.further (isDelivered_of_isOpen hopen) (courses_setProgress_self hs.course .waiting) ?_ ?_
    nofun rfl (by simp)
  · rw [told_of_isOpen hopen]
    rfl
  · have := hs.pending
    rw [isDecided_of_isOpen hopen] at this
    exact this

theorem Story.decide (hs : d.Story a x h) (hopen : x.progress.isOpen) {o : Outcome} {n : Nat}
    (ho : ∀ k, o = .ok k → k < n) :
    Story { d.setProgress a (.decided o) with
      connections := n
      pending := fun b => if b = a then d.pending b + 1 else d.pending b } a
      { x with progress := .decided o } (h ++ [.dispatched a x.context]) := by
  refine hs.further (isDelivered_of_isOpen hopen) (courses_setProgress_self hs.course (.decided o))
    ?_ ?_ (fun k hk => ho k (Progress.decided.inj hk)) rfl (by simp)
  · rw [told_of_isOpen hopen]
    simp [tale, Deed.attempt?, Progress.told]
  · have := hs.pending
    rw [isDecided_of_isOpen hopen] at this
    simpa [Progress.isDecided] using this

theorem Story.refuse (hs : d.Story a x h) (hopen : x.progress.isOpen) {o : Outcome} {n : Nat}
    (ho : ∀ k, o = .ok k → k < n) {p : Progress} (hp : p = .decided o ∨ p = .lost) :
    Story { d.setProgress a p with connections := n } a { x with progress := p }
      (h ++ [.dispatched a x.context]) := by
  have hzero := hs.pending
  rw [isDecided_of_isOpen hopen] at hzero
  refine hs.further (isDelivered_of_isOpen hopen) (courses_setProgress_self hs.course p) ?_ ?_ ?_ rfl
    (by simp)
  · rw [told_of_isOpen hopen]
    rcases hp with rfl | rfl <;> simp [tale, Deed.attempt?, Progress.told]
  · exact Nat.le_trans hzero (Nat.zero_le _)
  · intro k hk
    rcases hp with rfl | rfl
    · exact ho k (Progress.decided.inj hk)
    · cases hk

theorem Story.conclude (hs : d.Story a x h) (hpos : 0 < d.pending a) :
    ∃ o, ((d.conclude a).took a).Story a { x with progress := .delivered o } (h ++ [.heard a]) := by
  obtain ⟨o, ho, hone⟩ := hs.decided hpos
  obtain ⟨slot, c, progress⟩ := x
  obtain rfl : progress = .decided o := ho
  have hdone := conclude_decided hs.course
  refine ⟨(deliver d.slots slot o).2, ?_, ?_, ?_, nofun, nofun⟩
  · show (d.conclude a).courses[a]? = _
    rw [hdone]
    exact courses_setProgress_self hs.course _
  · rw [tale_append, hs.told]
    simp [tale, Deed.attempt?, Progress.told]
  · simp [took, hone]

theorem Story.lose (hs : d.Story a x h) (hpos : 0 < d.pending a) :
    ((d.setProgress a .lost).took a).Story a { x with progress := .lost } (h ++ []) := by
  obtain ⟨o, ho, hone⟩ := hs.decided hpos
  have hx : x.progress.isDelivered = false := by rw [ho]; rfl
  refine hs.further hx (courses_setProgress_self hs.course .lost) ?_ ?_ nofun rfl (by simp)
  · rw [ho]
    rfl
  · simp [took, setProgress, hone]

/-- Every move continues the story of an attempt. -/
theorem Story.move (hs : d.Story a x h) {h₀ : List Deed} (hd : d.Placed h₀) (m : d.Move ds d') :
    ∃ x', x'.slot = x.slot ∧ x'.context = x.context ∧ d'.Story a x' (h ++ ds) := by
  have hsite : d.sites[a]? = some x.slot := by simp [sites, hs.course]
  -- A slot in a stage before the attempt is not the slot of the attempt.
  have hother {j : Nat} {st : Stage} (hj : d.slots[j]? = some st) (hst : ¬st.Past) :
      x.slot ≠ some j := by
    intro hx
    obtain ⟨st', hst', hpast⟩ := hd.past a j (hsite.trans (congrArg some hx))
    obtain rfl := Option.some.inj (hj.symm.trans hst')
    exact hst hpast
  have hset {j : Nat} (hj : x.slot ≠ some j) (st : Stage) (i : Nat) (hi : x.slot = some i) :
      (d.slots.set j st)[i]? = d.slots[i]? := by
    refine List.getElem?_set_ne ?_
    rintro rfl
    exact hj hi
  cases m with
  | still => exact ⟨x, rfl, rfl, hs.spared rfl rfl (Nat.le_refl _) rfl fun i _ => ⟨nofun, fun _ => rfl⟩⟩
  | meet =>
    exact ⟨x, rfl, rfl, hs.spared rfl rfl (Nat.le_succ _) rfl fun i _ => ⟨nofun, fun _ => rfl⟩⟩
  | openSlot p =>
    refine ⟨x, rfl, rfl, hs.spared rfl rfl (Nat.le_refl _) rfl fun i _ => ⟨nofun, fun hi => ?_⟩⟩
    obtain ⟨st, hst⟩ := Option.ne_none_iff_exists'.mp hi
    exact List.getElem?_append_left (List.getElem?_eq_some_iff.mp hst).1
  | bind e limits hj =>
    have hne := hother hj fun hpast => hpast.1 rfl
    exact ⟨x, rfl, rfl, hs.spared rfl rfl (Nat.le_refl _) rfl fun i hi =>
      ⟨nofun, fun _ => hset hne _ i hi⟩⟩
  | listen l hj =>
    have hne := hother hj fun hpast => hpast.2 rfl
    exact ⟨x, rfl, rfl, hs.spared rfl rfl (Nat.le_refl _) rfl fun i hi =>
      ⟨nofun, fun _ => hset hne _ i hi⟩⟩
  | strip hj =>
    have hne := hother hj fun hpast => hpast.2 rfl
    exact ⟨x, rfl, rfl, hs.spared rfl rfl (Nat.le_refl _) (tale_of_ne (by simp [Deed.attempt?]))
      fun i hi => ⟨by simp, fun _ => hset hne _ i hi⟩⟩
  | close j =>
    by_cases hj : x.slot = some j
    · refine ⟨x, rfl, rfl, hs.course, ?_, hs.pending, hs.made, fun hx i hi => ?_⟩
      · rw [tale_append, hs.told, tale_of_ne (by simp [Deed.attempt?]), List.append_nil]
      · obtain rfl : j = i := Option.some.inj (hj.symm.trans hi)
        have hlt := (List.getElem?_eq_some_iff.mp (hs.awaits hx j hi)).1
        simp [hlt]
    · refine ⟨x, rfl, rfl, hs.spared rfl rfl (Nat.le_refl _)
        (tale_of_ne (by simp [Deed.attempt?])) fun i hi =>
        ⟨fun hmem => ?_, fun _ => hset hj _ i hi⟩⟩
      obtain rfl := Deed.closed.inj (List.mem_singleton.mp hmem)
      exact hj hi
  | @connect j st c hj hst =>
    have hne := hother hj fun hpast => hst.elim hpast.1 hpast.2
    have hlt := lt_of_course hs.course
    refine ⟨x, rfl, rfl, hs.spared (List.getElem?_append_left hlt) rfl (Nat.le_refl _)
      (tale_of_ne ?_) fun i hi => ⟨by simp, fun _ => hset hne _ i hi⟩⟩
    simpa [Deed.attempt?] using Nat.ne_of_gt hlt
  | connectSole c =>
    have hlt := lt_of_course hs.course
    refine ⟨x, rfl, rfl, hs.spared (List.getElem?_append_left hlt) rfl (Nat.le_refl _)
      (tale_of_ne ?_) fun i hi => ⟨by simp, fun _ => rfl⟩⟩
    simpa [Deed.attempt?] using Nat.ne_of_gt hlt
  | @wait b y hy hopen =>
    by_cases hb : b = a
    · subst hb
      obtain rfl : y = x := Option.some.inj (hy.symm.trans hs.course)
      exact ⟨{ y with progress := .waiting }, rfl, rfl, hs.wait hopen⟩
    · exact ⟨x, rfl, rfl, hs.spared (courses_setProgress_ne hb _) rfl (Nat.le_refl _) rfl
        fun i _ => ⟨nofun, fun _ => rfl⟩⟩
  | @decide b y o n hy hopen hn ho =>
    by_cases hb : b = a
    · subst hb
      obtain rfl : y = x := Option.some.inj (hy.symm.trans hs.course)
      exact ⟨{ y with progress := .decided o }, rfl, rfl, hs.decide hopen ho⟩
    · refine ⟨x, rfl, rfl, hs.spared (courses_setProgress_ne hb _) ?_ hn (tale_of_ne ?_)
        fun i _ => ⟨by simp, fun _ => rfl⟩⟩
      · simp [Ne.symm hb]
      · simpa [Deed.attempt?] using hb
  | @refuse b y o n p hy hopen hn ho hp =>
    by_cases hb : b = a
    · subst hb
      obtain rfl : y = x := Option.some.inj (hy.symm.trans hs.course)
      exact ⟨{ y with progress := p }, rfl, rfl, hs.refuse hopen ho hp⟩
    · refine ⟨x, rfl, rfl, hs.spared (courses_setProgress_ne hb _) rfl hn (tale_of_ne ?_)
        fun i _ => ⟨by simp, fun _ => rfl⟩⟩
      simpa [Deed.attempt?] using hb
  | @conclude b hpos =>
    by_cases hb : b = a
    · subst hb
      obtain ⟨o, hconclude⟩ := hs.conclude hpos
      exact ⟨{ x with progress := .delivered o }, rfl, rfl, hconclude⟩
    · refine ⟨x, rfl, rfl, hs.spared (courses_conclude_ne hb) ?_ ?_ (tale_of_ne ?_)
        fun i hi => ⟨by simp, fun _ => slots_conclude fun hsite' => hb ?_⟩⟩
      · simp [took, Ne.symm hb]
      · show d.connections ≤ (d.conclude b).connections
        unfold Desk.conclude
        split <;> exact Nat.le_refl _
      · simpa [Deed.attempt?] using hb
      · -- Two attempts do not share a slot.
        exact hd.apart b a i hsite' (hsite.trans (congrArg some hi))
  | @lose b hpos =>
    by_cases hb : b = a
    · subst hb
      exact ⟨{ x with progress := .lost }, rfl, rfl, hs.lose hpos⟩
    · refine ⟨x, rfl, rfl, hs.spared (courses_setProgress_ne hb _) ?_ (Nat.le_refl _) rfl
        fun i _ => ⟨nofun, fun _ => rfl⟩⟩
      simp [took, setProgress, Ne.symm hb]

end Desk

end Conduit.Socket
