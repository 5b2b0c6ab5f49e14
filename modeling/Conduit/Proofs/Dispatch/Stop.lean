import Conduit.Proofs.Dispatch.Doors

/-!
What stopping a thread promises. The first stop parts the work that is given to a thread: what has
been performed before it is run, in order and once each, by the time the thread has come to its end;
what is performed after it never is. To stop once more changes nothing. This holds in every run of
every component, wherever the stops come from and in whatever order the reactor serves.

A stop from outside waits for the end of the thread if it is the first one. If the thread has been
stopped by its own work before, nobody waits for its end: the handle with which it could be waited for
is gone, and the stop gives its answer while work still waits in the line.
-/

namespace Conduit.Dispatch

variable {C : Component}

/-- The work that is given to a venue at a moment. -/
def Moment.gives (v : Nat) (q : Moment C) : List C.Frame :=
  match q.turn? with
  | some t =>
    match t.next with
    | .perform c w _ => if c.place = .venue v then [w] else []
    | _ => []
  | none => []

/-- The work that is performed on a venue, through whichever reference, oldest first. -/
def performed (v : Nat) (past : List (Moment C)) : List C.Frame := past.flatMap (·.gives v)

@[simp] theorem performed_append (v : Nat) (past later : List (Moment C)) :
    performed v (past ++ later) = performed v past ++ performed v later :=
  List.flatMap_append

/-- A run in which a thread has been stopped: what comes before its first stop, and what comes
after. -/
inductive Parted (free : Bool) (m₀ : Machine C) (v : Nat) (before after : List (Moment C))
    (m : Machine C) : Prop
  | intro {m₁ m₂} (h₁ : RunBy free m₀ before m₁) (ha : m₁.accepts v = true) (hv : m₁.IsStopping v)
      (hm : m₁.step? = some m₂) (h₂ : RunBy free m₂ after m)

namespace Machine

variable {m m' : Machine C} {v : Nat} {kind : VenueKind}

/-- A venue that takes work takes all that is performed on it. -/
theorem joins_of_open (ha : m.accepts v = true) : m.joins v = performed v m.moment?.toList := by
  unfold joins turn?
  cases hq : m.moment? with
  | none => rfl
  | some q =>
    cases ht : q.turn? with
    | none => simp [performed, Moment.gives, ht]
    | some t =>
      have hgives : q.gives v = m.joined v t.next := by
        unfold Moment.gives joined
        cases hn : t.next <;> simp [ht, hn, ha]
      simpa [performed, ht] using hgives.symm

theorem moment?_of_stopping (hv : m.IsStopping v) : m.moment? = none := by
  obtain ⟨id, hc, -⟩ := hv
  rw [moment?_eq (cause?_context hc)]
  rfl

end Machine

namespace RunBy

variable {free : Bool} {m₀ m : Machine C} {past : List (Moment C)} {v : Nat} {kind : VenueKind}

/-- The work of a thread is what has been performed on it, up to its first stop. -/
theorem parts (h : RunBy free m₀ past m) (ho : m₀.floor.Orderly)
    (hv : m₀.floor.kind? v = some kind) (ha : m₀.accepts v = true) :
    m.accepts v = true ∧ accepted v m.journal = accepted v m₀.journal ++ performed v past ∨
    m.accepts v = false ∧ ∃ before after, past = before ++ after ∧ Parted free m₀ v before after m ∧
      accepted v m.journal = accepted v m₀.journal ++ performed v before := by
  induction h with
  | start => exact .inl ⟨ha, by simp [performed]⟩
  | @advance past m m' h hm ih =>
    have hgrows := (Machine.advance?_paces (h.orderly ho) hm).accepted_eq v
    have hopen := Machine.accepts_advance (h.kind? ho hv) hm
    rcases ih with ⟨ha, hacc⟩ | ⟨ha, before, after, rfl, ⟨h₁, ha₁, hstop, hm₁, h₂⟩, hacc⟩
    · rw [hacc, List.append_assoc, Machine.joins_of_open ha, ← performed_append] at hgrows
      by_cases hstop : m.IsStopping v
      · -- This is the first stop: nothing is performed in it.
        have hnone := Machine.moment?_of_stopping hstop
        rw [hnone, Option.toList_none, List.append_nil] at hgrows ⊢
        have ha' : m'.accepts v = false := by simp [← Bool.not_eq_true, hopen, hstop]
        exact .inr ⟨ha', past, [], by simp,
          ⟨h, ha, hstop, Machine.step?_of_stopping hstop hm, .start⟩, hgrows⟩
      · exact .inl ⟨hopen.mpr ⟨ha, hstop⟩, hgrows⟩
    · have ha' : m'.accepts v = false := by simp [← Bool.not_eq_true, hopen, ha]
      rw [Machine.joins_of_closed ha, List.append_nil, hacc] at hgrows
      exact .inr ⟨ha', before, _, List.append_assoc .., ⟨h₁, ha₁, hstop, hm₁, h₂.advance hm⟩,
        hgrows⟩
  | request h hm op ih =>
    rcases ih with ih | ⟨ha, before, after, rfl, ⟨h₁, ha₁, hstop, hm₁, h₂⟩, hacc⟩
    · exact .inl ih
    · exact .inr ⟨ha, before, after, rfl, ⟨h₁, ha₁, hstop, hm₁, h₂.request hm op⟩, hacc⟩
  | @strike past m h hm ih =>
    have haccepts : m.strike.accepts v = m.accepts v :=
      congrArg (Floor.accepts · v) m.floor_strike
    rw [haccepts, m.accepted_strike v]
    rcases ih with ⟨ha, hacc⟩ | ⟨ha, before, after, rfl, ⟨h₁, ha₁, hstop, hm₁, h₂⟩, hacc⟩
    · exact .inl ⟨ha, by simpa [performed, Moment.gives, Moment.turn?] using hacc⟩
    · exact .inr ⟨ha, before, _, List.append_assoc .., ⟨h₁, ha₁, hstop, hm₁, h₂.strike hm⟩, hacc⟩
  | @proceed past m u q n h hm hq hk hn ih =>
    have haccepts : (m.proceed u n).accepts v = m.accepts v := by
      rw [Machine.accepts_eq, Machine.doors_proceed, ← Machine.accepts_eq]
    rw [haccepts, Machine.accepted_proceed hm hq hk]
    rcases ih with ih | ⟨ha, before, after, rfl, ⟨h₁, ha₁, hstop, hm₁, h₂⟩, hacc⟩
    · exact .inl ih
    · exact .inr ⟨ha, before, after, rfl, ⟨h₁, ha₁, hstop, hm₁, h₂.proceed hm hq hk hn⟩, hacc⟩
  | reorder h hf hm hr ih =>
    rcases ih with ih | ⟨ha, before, after, rfl, ⟨h₁, ha₁, hstop, hm₁, h₂⟩, hacc⟩
    · exact .inl ih
    · exact .inr ⟨ha, before, after, rfl, ⟨h₁, ha₁, hstop, hm₁, h₂.reorder hf hm hr⟩, hacc⟩

end RunBy

/-! ### The contract -/

/-- A thread to which there are two references. -/
def shared : Execution (Machine.fresh (C := Emitter.component String) {}) :=
  (ExecutionBy.begin _).perform 10
    [.context (.make "a" (.thread "worker")), .context (.make "b" (.copy "a"))]

/-- Its own work stops the thread while the line is flushed, and goes on to give it work; then the
thread is stopped twice from outside, and given work after each. -/
def halted : Execution shared.machine :=
  (ExecutionBy.begin _).perform 60
    [.own (.perform "a" "first" [.own (.perform "b" "third" [] false), .context (.stop "b"),
        .own (.perform "a" "late" [] false)] false),
      .own (.perform "b" "second" [] true), .context (.flush "a"), .context (.stop "a"),
      .own (.perform "b" "later" [] false), .context (.stop "b"),
      .own (.perform "a" "latest" [] false)]

/-- Two pieces of work wait for the thread. -/
def queued : Execution shared.machine :=
  (ExecutionBy.begin _).perform 4
    [.own (.perform "a" "first" [.context (.stop "a")] false), .own (.perform "a" "second" [] false)]

end Conduit.Dispatch
