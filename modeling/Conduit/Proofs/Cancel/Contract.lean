import Conduit.Proofs.Cancel.Book
import Conduit.Proofs.Cancel.Tally

/-!
What a run of tickets promises. A ticket gets its reason once, from the first attempt to cancel it;
handlers start once, with that reason; and while no throw passes a round, nobody is left out of it.
All of it is kept by every step and so holds after every run, in whatever order handlers register,
cancel, link and drop in between.
-/

namespace Conduit.Cancel

open Dispatch

/-- All that the moves of a desk keep. -/
structure Desk.Sound (d : Desk) (h : List Deed) : Prop where
  book : ∀ t, d.Book h t
  tally : d.Tally h
  prompt : Prompt d.now h

theorem Desk.Sound.move {d d' : Desk} {h ds : List Deed} (hs : d.Sound h) (m : d.Move ds d') :
    d'.Sound (h ++ ds) :=
  ⟨fun t => (hs.book t).move m, hs.tally.move m, hs.prompt.append m.prompt fun _ _ => m.now⟩

/-- Every run of tickets is sound. -/
theorem sound (x : Execution initial) :
    Shape x.machine.config ∧ (desk x.machine.config).Sound (history x) := by
  refine x.run.config_induction
    (fun past c => Shape c ∧ (desk c).Sound (deeds past)) ⟨?_, ?_⟩ fun past c cause c' h hstep => ?_
  · refine ⟨⟨?_, ?_, ?_, ?_⟩, ?_, ?_, ?_⟩
    all_goals simp [initial, Machine.config, Machine.bare, owned]
  · exact ⟨fun t => .live rfl rfl rfl rfl rfl (fun _ => rfl) rfl rfl,
      ⟨rfl, by simp [desk, initial, Machine.config, Machine.bare, owned], by simp [deeds],
        ⟨[], .refl _, .refl _⟩⟩, trivial⟩
  · obtain ⟨hc, m⟩ := h.1.moves hstep
    rw [deeds_append]
    exact ⟨hc, m.keep (fun h d => d.Sound h) Desk.Sound.move h.2⟩

theorem book (x : Execution initial) (t : Nat) : (desk x.machine.config).Book (history x) t :=
  (sound x).2.book t

theorem desk_reason? (m : Machine component) (t : Nat) :
    (desk m.config).reason? t = m.state.reason? t := by
  simp [desk, Desk.reason?, Tickets.reason?]

theorem reason_eq (x : Execution initial) (t : Nat) :
    x.machine.state.reason? t = (attempts t (history x)).head?.map (·.1) := by
  rw [← desk_reason?]
  cases book x t with
  | live hr _ ha => simp [hr, ha]
  | cancelled hr _ ha => simp [hr, ha]

/-- A ticket keeps its reason, whatever happens later. -/
theorem reason_stays (x : Execution initial) (y : Execution x.machine) {t : Nat} {r : Reason}
    (hr : x.machine.state.reason? t = some r) : y.machine.state.reason? t = some r := by
  have hy : history (x.andThen y) = history x ++ history y := deeds_append x.past y.past
  have hlater : y.machine.state.reason? t = (attempts t (history x ++ history y)).head?.map (·.1) :=
    hy ▸ reason_eq (x.andThen y) t
  rw [reason_eq, Option.map_eq_some_iff] at hr
  obtain ⟨a, ha, rfl⟩ := hr
  simp [hlater, ha]

theorem numbers_nodup (x : Execution initial) : (numbers (history x)).Nodup :=
  (sound x).2.tally.numbers ▸ List.nodup_range

theorem reaction_registered (x : Execution initial) {t n : Nat} {l : Bool}
    (hn : n ∈ reactions t l (history x)) :
    ∃ found, .registered t n found ∈ history x ∧ found.isSome = l := by
  obtain ⟨hearly, hlate⟩ := (book x t).reacts
  cases l with
  | false => exact ⟨none, mem_early.mp (hearly.subset hn), rfl⟩
  | true =>
    obtain ⟨r, hr⟩ := mem_late.mp (hlate ▸ hn)
    exact ⟨some r, hr, rfl⟩

/-- Every handler reacts once at most. -/
theorem responses_once (x : Execution initial) : ((responses (history x)).map (·.1)).Nodup := by
  refine responses_nodup (fun t l => ?_) fun t l t' l' n hn hn' => ?_
  · obtain ⟨hearly, hlate⟩ := (book x t).reacts
    cases l with
    | false => exact (hearly.trans (early_sublist t _)).nodup (numbers_nodup x)
    | true => exact hlate ▸ (late_sublist t _).nodup (numbers_nodup x)
  · obtain ⟨found, hr, rfl⟩ := reaction_registered x hn
    obtain ⟨found', hr', rfl⟩ := reaction_registered x hn'
    obtain ⟨rfl, rfl⟩ := registered_unique (numbers_nodup x) hr hr'
    exact ⟨rfl, rfl⟩

/-- A ticket gets its reason once, from the first attempt to cancel it. -/
structure OneShot (x : Execution initial) (t : Nat) : Prop where
  /-- The reason is that of the first attempt. -/
  reason : x.machine.state.reason? t = (attempts t (history x)).head?.map (·.1)
  /-- It stays, whatever is done later. -/
  stays : ∀ r, x.machine.state.reason? t = some r →
    ∀ y : Execution x.machine, y.machine.state.reason? t = some r
  /-- Of all attempts only the first finds no reason. -/
  first : ∀ i a, (attempts t (history x))[i]? = some a → (a.2 = true ↔ i = 0)
  /-- Every other one gets the answer no at once. -/
  refused : ∀ h₁ r h₂, history x = h₁ ++ .attempted t r false :: h₂ →
    ∃ h₃, h₂ = .answered t false :: h₃
  /-- The answer no is given to nobody else. -/
  refusals : (answers t (history x)).count false = (attempts t (history x)).length - 1
  /-- The answer yes is given once at most. -/
  won : (answers t (history x)).count true ≤ 1

/-- Callbacks start once at most, and with the reason of the ticket. -/
structure StartedOnce (x : Execution initial) : Prop where
  once : ((starts (history x)).map (·.1)).Nodup
  winning : ∀ n r, .started n r ∈ history x →
    ∃ t found, .registered t n found ∈ history x ∧ x.machine.state.reason? t = some r

/-- All handlers of a ticket with the reason `r` have been run or handed to their contexts. -/
structure NoneLost (x : Execution initial) (t : Nat) (r : Reason) : Prop where
  /-- The first attempt got the answer yes. -/
  won : (answers t (history x)).count true = 1
  /-- Handlers that were registered before react in order. -/
  early : reactions t false (history x) = early t (history x)
  late : reactions t true (history x) = late t (history x)
  /-- Every handler reacts once, and to the reason. -/
  once : ∀ n found, .registered t n found ∈ history x →
    ((responses (history x)).map (·.1)).count n = 1 ∧ ∃ way l, .reacted t n r way l ∈ history x
  /-- Handlers that are registered later react at once. -/
  within : ∀ h₁ n r' h₂, history x = h₁ ++ .registered t n (some r') :: h₂ →
    ∃ way h₃, h₂ = .reacted t n r way true :: h₃
  /-- A callback that is run in line starts at once. -/
  inLine : ∀ h₁ n r' l h₂, history x = h₁ ++ .reacted t n r' .inLine l :: h₂ →
    ∃ h₃, h₂ = .started n r :: h₃

theorem oneShot (x : Execution initial) (t : Nat) : OneShot x t := by
  refine ⟨reason_eq x t, fun r hr y => reason_stays x y hr, fun i a hi => ?_, fun h₁ r h₂ he => ?_,
    ?_, ?_⟩
  · cases book x t with
    | live _ _ ha => simp [ha] at hi
    | cancelled _ _ ha hlater =>
      rw [ha] at hi
      cases i with
      | zero =>
        cases hi
        simp
      | succ i => simpa using hlater a (List.mem_of_getElem? hi)
  · have hp := (sound x).2.prompt
    rw [he] at hp
    exact hp.heeded
  · cases book x t with
    | live _ _ ha han => simp [ha, han]
    | cancelled _ _ ha _ _ hf => simp [ha, hf]
  · cases book x t with
    | live _ _ _ han => simp [han]
    | cancelled _ _ _ _ ht => omega

theorem startedOnce (x : Execution initial) : StartedOnce x := by
  have htally := (sound x).2.tally
  constructor
  · obtain ⟨given, hsub, hperm⟩ := htally.calls
    have hgiven : (given.map (·.1)).Nodup := (hsub.map _).nodup (responses_once x)
    have := (hperm.map (·.1)).nodup_iff.mpr hgiven
    rw [List.map_append, List.nodup_append] at this
    exact this.1
  · intro n r hstart
    obtain ⟨t, way, l, hr⟩ := htally.origin (List.mem_append_left _ (mem_starts.mpr hstart))
    obtain ⟨found, hreg, -⟩ := reaction_registered x (mem_reactions.mpr ⟨r, way, hr⟩)
    exact ⟨t, found, hreg, (desk_reason? ..).symm.trans (htally.reasons t n r way l hr)⟩

/-- Between operations no round is under way, and no callback is about to start. -/
theorem desk_of_stopped {m : Machine component} (hm : m.step? = none) :
    (desk m.config).rounds = [] ∧ (desk m.config).now = none := by
  have hs := Machine.stack_of_step? hm
  rw [Machine.config_nil hs]
  simp [desk, Machine.bare, hs]

/-- Handlers react to the reason of their ticket. -/
theorem reason_of_reacted (x : Execution initial) {t : Nat} {r : Reason}
    (hr : x.machine.state.reason? t = some r) {n : Nat} {r' : Reason} {way : Way} {l : Bool}
    (h : .reacted t n r' way l ∈ history x) : r' = r := by
  have := (sound x).2.tally.reasons t n r' way l h
  rw [desk_reason?, hr] at this
  exact (Option.some.inj this).symm

theorem noneLost (x : Execution initial) (hu : Undisturbed x.past) (hm : x.machine.step? = none)
    {t : Nat} {r : Reason} (hr : x.machine.state.reason? t = some r) : NoneLost x t r := by
  obtain ⟨hrounds, hnow⟩ := desk_of_stopped hm
  obtain ⟨hbook, -, hprompt⟩ := (sound x).2
  have hbreaks : breaks t (history x) = [] := breaks_of_undisturbed hu t
  have hno : (desk x.machine.config).roundsOf t = [] := by simp [Desk.roundsOf, hrounds]
  have hreason {n : Nat} {r' : Reason} {way : Way} {l : Bool}
      (h : .reacted t n r' way l ∈ history x) : r' = r := reason_of_reacted x hr h
  cases hbook t with
  | live hnone => simp [desk_reason?, hr] at hnone
  | cancelled _ _ _ _ htrue _ hearly hlate =>
    rw [Desk.restOf, hno, hbreaks] at hearly
    simp only [List.flatMap_nil, List.append_nil, List.flatten_nil] at hearly
    refine ⟨by simpa [hno, hbreaks] using htrue, hearly.symm, hlate.symm, fun n found hreg => ?_,
      fun h₁ n r' h₂ he => ?_, fun h₁ n r' l h₂ he => ?_⟩
    · have hreacted : ∃ l, n ∈ reactions t l (history x) := by
        cases found with
        | none => exact ⟨false, hearly ▸ mem_early.mpr hreg⟩
        | some r' => exact ⟨true, hlate ▸ mem_late.mpr ⟨r', hreg⟩⟩
      obtain ⟨l, hl⟩ := hreacted
      obtain ⟨r', way, h⟩ := mem_reactions.mp hl
      obtain rfl := hreason h
      have hmem : n ∈ (responses (history x)).map (·.1) :=
        List.mem_map.mpr ⟨_, mem_responses.mpr ⟨t, way, l, h⟩, rfl⟩
      exact ⟨(responses_once x).count.trans (if_pos hmem), way, l, h⟩
    · rw [he] at hprompt
      obtain ⟨way, h₃, rfl⟩ := hprompt.heeded
      have hmem : .reacted t n r' way true ∈ history x := by simp [he]
      exact ⟨way, h₃, by rw [hreason hmem]⟩
    · have hmem : .reacted t n r' .inLine l ∈ history x := by simp [he]
      rw [he, hnow] at hprompt
      rcases hprompt.heeded with ⟨h₃, rfl⟩ | ⟨-, hsome⟩
      · exact ⟨h₃, by rw [hreason hmem]⟩
      · cases hsome

/-- Cancellation happens once, and handlers are neither lost nor doubled. -/
theorem cancel_contract (x : Execution initial) :
    (∀ t, OneShot x t) ∧ StartedOnce x ∧
    (Undisturbed x.past → x.machine.step? = none →
      ∀ t r, x.machine.state.reason? t = some r → NoneLost x t r) :=
  ⟨oneShot x, startedOnce x, fun hu hm _ _ => noneLost x hu hm⟩

/-- A ticket is cancelled that has a link, a callback in line, which registers another one and tries
to cancel the ticket again, and a callback on a manual line. -/
def cascade : Execution initial :=
  (ExecutionBy.begin initial).perform 20
    [.own (.source "a"), .own (.linked "b" ["a"]), .context (.make "line" .manual),
      .own (.handler "a" "first" none
        [.own (.handler "a" "late" none [] false), .own (.cancel "a")] false),
      .own (.handler "a" "second" (some "line") [] false), .own (.cancel "a")]

set_option maxRecDepth 4000 in
theorem cancel_contract_cascade :
    attempts 0 (history cascade) = [(.requested, true), (.requested, false)] ∧
    reactions 0 false (history cascade) = [0, 1, 2] ∧
    reactions 0 true (history cascade) = [3] ∧ answers 0 (history cascade) = [false, true] ∧
    OneShot cascade 0 ∧ StartedOnce cascade ∧ NoneLost cascade 0 .requested ∧
    NoneLost cascade 1 .requested := by
  have hu : Undisturbed cascade.past := by decide
  have hm : cascade.machine.step? = none := rfl
  have hr : cascade.machine.state.reason? 0 = some .requested := rfl
  have hr' : cascade.machine.state.reason? 1 = some .requested := rfl
  have h := cancel_contract cascade
  have hnone := h.2.2 hu hm 0 .requested hr
  have hearly : early 0 (history cascade) = [0, 1, 2] := rfl
  have hlate : late 0 (history cascade) = [3] := rfl
  exact ⟨rfl, hnone.early.trans hearly, hnone.late.trans hlate, rfl, h.1 0, h.2.1, hnone,
    h.2.2 hu hm 1 .requested hr'⟩

end Conduit.Cancel
