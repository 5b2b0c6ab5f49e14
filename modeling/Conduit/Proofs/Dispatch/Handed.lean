import Conduit.Proofs.Dispatch.Fifo

/-!
What an operation gives to contexts while it runs, and how the lines of the venues take it. What a
venue takes of an operation stands in its line before all that it takes of a later one, and is run
before it.
-/

namespace Conduit.Dispatch

variable {C : Component}

namespace Machine

/-- The work that the frame above the `d` lowest ones gives to a context in the next step. -/
def hands? (m : Machine C) (d : Nat) : Option (Context × C.Frame) :=
  if m.stack.length = d + 1 then
    m.turn?.bind fun t => match t.next with
      | .perform c w _ => some (c, w)
      | _ => none
  else none

/-- What of it joins the line of a venue. -/
def takes (m : Machine C) (v d : Nat) : List C.Frame :=
  if m.stack.length = d + 1 then m.joins v else []

end Machine

/-- The work that an operation above the `d` lowest frames has given to contexts. -/
def handed (d : Nat) (ms : List (Machine C)) : List (Context × C.Frame) :=
  ms.filterMap (·.hands? d)

/-- What of it a venue has taken. -/
def taken (v d : Nat) (ms : List (Machine C)) : List C.Frame := ms.flatMap (·.takes v d)

/-- The work that is meant for a venue. -/
def meantFor (v : Nat) (given : List (Context × C.Frame)) : List C.Frame :=
  given.filterMap fun g => if g.1.place = .venue v then some g.2 else none

section Handed

variable (v d : Nat) (ms : List (Machine C)) (m : Machine C)

theorem handed_cons : handed d (m :: ms) = (m.hands? d).toList ++ handed d ms := by
  cases h : m.hands? d <;> simp [handed, h]

theorem handed_concat : handed d (ms ++ [m]) = handed d ms ++ (m.hands? d).toList := by
  cases h : m.hands? d <;> simp [handed, h]

theorem taken_cons : taken v d (m :: ms) = m.takes v d ++ taken v d ms := List.flatMap_cons

theorem taken_concat : taken v d (ms ++ [m]) = taken v d ms ++ m.takes v d := by
  simp [taken]

theorem meantFor_append (given later : List (Context × C.Frame)) :
    meantFor v (given ++ later) = meantFor v given ++ meantFor v later :=
  List.filterMap_append

theorem takes_eq : m.takes v d = if m.accepts v then meantFor v (m.hands? d).toList else [] := by
  unfold Machine.takes Machine.hands? Machine.joins
  split
  · cases m.turn? with
    | none => simp [meantFor]
    | some t =>
      cases hn : t.next with
      | perform c w k =>
        by_cases hc : c.place = .venue v <;> simp [Machine.joined, meantFor, hn, hc]
      | _ => simp [Machine.joined, meantFor, hn]
  · simp [meantFor]

/-- A venue takes no more than the work that is meant for it, in its order. -/
theorem taken_sublist_meant : (taken v d ms).Sublist (meantFor v (handed d ms)) := by
  induction ms with
  | nil => exact .slnil
  | cons m ms ih =>
    rw [taken_cons, handed_cons, meantFor_append, takes_eq]
    refine List.Sublist.append ?_ ih
    split
    · exact .refl _
    · exact List.nil_sublist _

theorem taken_sublist_joins : (taken v d ms).Sublist (ms.flatMap (·.joins v)) := by
  induction ms with
  | nil => exact .slnil
  | cons m ms ih =>
    rw [taken_cons, List.flatMap_cons]
    refine List.Sublist.append ?_ ih
    unfold Machine.takes
    split
    · exact .refl _
    · exact List.nil_sublist _

end Handed

namespace Machine

variable {m m₁ m₂ n : Machine C} {d v : Nat} {ms ns : List (Machine C)}

/-- A serial venue takes all work that is meant for it. -/
theorem Within.taken_serial (h : m.Within d ms n) (ho : m.floor.Orderly)
    (hv : m.floor.kind? v = some .serial) : taken v d ms = meantFor v (handed d ms) := by
  have htakes {past : List (Moment C)} {m' : Machine C} (h : Run m past m') :
      m'.takes v d = meantFor v (m'.hands? d).toList := by
    rw [takes_eq, if_pos (prompt (h.orderly ho) (h.kind? ho hv)).1]
  induction h with
  | enter hm =>
    rw [show [m] = [] ++ [m] from rfl, taken_concat, handed_concat, meantFor_append, htakes .start]
    rfl
  | next h hd hm ih => rw [taken_concat, handed_concat, meantFor_append, ih, htakes h.run]

/-- The line of a venue after two operations, of which the second has been called when the first was
over: `early` has joined during the first, `late` during the second. -/
structure InTurn (v d d' : Nat) (ms ns : List (Machine C)) (m n m₂ : Machine C)
    (early between late : List C.Frame) : Prop where
  first : (taken v d ms).Sublist early
  second : (taken v d' ns).Sublist late
  before : accepted v n.journal = accepted v m.journal ++ early ++ between
  after : accepted v m₂.journal = accepted v n.journal ++ late
  /-- The line only grows at its end, and work is begun in its order. -/
  grows : ∀ z : ExecutionBy true m₂, accepted v m₂.journal <+: accepted v z.machine.journal ∧
    begun v z.machine.journal <+: accepted v z.machine.journal
  /-- When any work is begun that has joined since the second operation was called, all work that had
  joined before has been begun, and has ended if the line is not moved by hand. -/
  ran : ∀ z : ExecutionBy true m₂,
    (accepted v n.journal).length < (begun v z.machine.journal).length →
      accepted v n.journal <+: begun v z.machine.journal ∧
      ∀ q, z.machine.venues[v]? = some q → q.kind ≠ .manual →
        (accepted v n.journal).length ≤ ended v z.machine.journal

theorem Within.inTurn {free : Bool} {d' : Nat} {past : List (Moment C)} (ho : m.floor.Orderly)
    (h : m.Within d ms m₁) (hbetween : RunBy free m₁ past n) (h' : n.Within d' ns m₂) (v : Nat) :
    ∃ early between late, InTurn v d d' ms ns m n m₂ early between late := by
  have ho₁ := h.run.orderly ho
  have hn := hbetween.orderly ho₁
  have ho₂ := h'.run.orderly hn
  obtain ⟨between, hmid⟩ := hbetween.accepted_grows ho₁ v
  refine ⟨_, between, _, taken_sublist_joins v d ms, taken_sublist_joins v d' ns, ?_,
    h'.accepted_eq hn v, fun z => ⟨z.run.accepted_grows ho₂ v, ?_⟩, fun z hlt => ?_⟩
  · rw [← hmid, h.accepted_eq ho v]
  · rw [lines (z.run.orderly ho₂) v]
    exact List.prefix_append ..
  · have hz := z.run.orderly ho₂
    have hlines := lines hz v
    have hgrow : accepted v n.journal <+: accepted v z.machine.journal :=
      (h'.run.loosen.trans z.run).accepted_grows hn v
    have hbegun : begun v z.machine.journal <+: accepted v z.machine.journal :=
      hlines ▸ List.prefix_append _ _
    -- Both are first parts of the same history, and the one is longer than the other.
    refine ⟨List.prefix_of_prefix_length_le hgrow hbegun (Nat.le_of_lt hlt), fun q hq hk => ?_⟩
    have hrun := running hz (Floor.kind?_of (f := z.machine.floor) hq) hk
    -- One piece of work may still be running, and that is one that has joined later.
    have hone : z.machine.runs v ≤ 1 := hz.turns_le v
    omega

end Machine

end Conduit.Dispatch
