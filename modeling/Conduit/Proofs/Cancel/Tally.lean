import Conduit.Proofs.Cancel.Desk

/-!
The tally of a run: handlers are numbered one by one, and the callbacks that start, or still will,
are those of handlers that reacted, each no more than once. What a deed demands, to be answered or to
be started, comes right after it.
-/

namespace Conduit.Cancel

open Dispatch

/-- A handler is registered no more than once, on one ticket. -/
theorem registered_unique {h : List Deed} (hn : (numbers h).Nodup) {t t' n : Nat}
    {found found' : Option Reason} (hr : .registered t n found ∈ h)
    (hr' : .registered t' n found' ∈ h) : t = t' ∧ found = found' := by
  obtain ⟨h₁, h₂, rfl⟩ := List.append_of_mem hr
  have mem {u : Option Reason} {k : Nat} {l : List Deed} (hu : .registered k n u ∈ l) :
      n ∈ numbers l := List.mem_filterMap.mpr ⟨_, hu, rfl⟩
  rw [numbers_append, numbers_cons, List.nodup_append] at hn
  obtain ⟨-, hn₂, hdisjoint⟩ := hn
  rcases List.mem_append.mp hr' with hr' | hr'
  · exact absurd rfl (hdisjoint n (mem hr') n (by simp))
  rcases List.mem_cons.mp hr' with hr' | hr'
  · cases hr'
    exact ⟨rfl, rfl⟩
  · simp [mem hr'] at hn₂

theorem early_sublist (t : Nat) (h : List Deed) : (early t h).Sublist (numbers h) := by
  induction h with
  | nil => exact .slnil
  | cons e h ih =>
    rw [early_cons, numbers_cons]
    refine List.Sublist.append ?_ ih
    cases e with
    | registered t' n found =>
      cases found with
      | none => by_cases ht : t' = t <;> simp [ht]
      | some r => simp
    | _ => simp

theorem late_sublist (t : Nat) (h : List Deed) : (late t h).Sublist (numbers h) := by
  induction h with
  | nil => exact .slnil
  | cons e h ih =>
    rw [late_cons, numbers_cons]
    refine List.Sublist.append ?_ ih
    cases e with
    | registered t' n found =>
      cases found with
      | none => simp
      | some r => by_cases ht : t' = t <;> simp [ht]
    | _ => simp

/-- If handlers of one ticket react once, and those of several are different, all of them do. -/
theorem responses_nodup {h : List Deed} (hone : ∀ t l, (reactions t l h).Nodup)
    (hsame : ∀ t l t' l' n, n ∈ reactions t l h → n ∈ reactions t' l' h → t = t' ∧ l = l') :
    ((responses h).map (·.1)).Nodup := by
  induction h with
  | nil => exact List.nodup_nil
  | cons e h ih =>
    have htail : ((responses h).map (·.1)).Nodup := by
      refine ih (fun t l => ?_) fun t l t' l' n hn hn' => ?_
      · have := hone t l
        rw [reactions_cons] at this
        exact (List.nodup_append.mp this).2.1
      · refine hsame t l t' l' n ?_ ?_
        · exact reactions_cons t l e h ▸ List.mem_append_right _ hn
        · exact reactions_cons t' l' e h ▸ List.mem_append_right _ hn'
    cases e with
    | reacted t n r way l =>
      have hhead : reactions t l (.reacted t n r way l :: h) = n :: reactions t l h := by simp
      have hnew : n ∉ (responses h).map (·.1) := by
        intro hmem
        obtain ⟨⟨_, r'⟩, hr', rfl⟩ := List.mem_map.mp hmem
        obtain ⟨t', way', l', hr'⟩ := mem_responses.mp hr'
        have hagain := mem_reactions.mpr ⟨r', way', hr'⟩
        obtain ⟨rfl, rfl⟩ := hsame t l t' l' _ (hhead ▸ List.mem_cons_self) (by
          rw [reactions_cons]
          exact List.mem_append_right _ hagain)
        have := hone t l
        rw [hhead] at this
        exact (List.nodup_cons.mp this).1 hagain
      simpa using ⟨by simpa using hnew, htail⟩
    | _ => simpa using htail

namespace Desk

/-- The callbacks that are to start. -/
def calls (d : Desk) : List (Nat × Reason) := d.now.toList ++ d.waiting

/-- What was done agrees with the numbers, the rounds and the callbacks of a desk. -/
structure Tally (d : Desk) (h : List Deed) : Prop where
  numbers : numbers h = List.range d.registered
  rounds : ∀ a ∈ d.rounds, d.reason? a.ticket = some a.reason
  reasons : ∀ t n r way l, .reacted t n r way l ∈ h → d.reason? t = some r
  /-- A callback that a context dropped is in none of the lists. -/
  calls : ∃ given, given.Sublist (responses h) ∧ (starts h ++ d.calls).Perm given

variable {d d' : Desk} {h ds : List Deed} {t : Nat} {r : Reason}

/-- A ticket that has a reason keeps it. -/
theorem Move.stays (m : d.Move ds d') (hr : d.reason? t = some r) : d'.reason? t = some r := by
  cases m with
  | create =>
    have hlt : t < d.tickets.length := by
      refine Nat.lt_of_not_le fun h => ?_
      simp [reason?, List.getElem?_eq_none h] at hr
    rwa [reason?, List.getElem?_append_left hlt]
  | @register u a =>
    by_cases hut : u = t
    · subst hut
      simpa [reason?, Option.bind_map, Function.comp_def] using hr
    · simpa [reason?, hut] using hr
  | registerLate _ _ hg =>
    rw [reason?, hg.tickets.1]
    exact hr
  | @win u r' k _ hu hnone =>
    by_cases hut : u = t
    · subst hut
      simp [reason?, hu, hnone] at hr
    · simpa [reason?, hut] using hr
  | react _ _ hg =>
    rw [reason?, hg.tickets.1]
    exact hr
  | _ => exact hr

/-- A handler that is registered takes the next number. -/
theorem Move.numbers (m : d.Move ds d') :
    numbers ds = [] ∧ d'.registered = d.registered ∨
      numbers ds = [d.registered] ∧ d'.registered = d.registered + 1 := by
  cases m with
  | register => exact .inr ⟨rfl, rfl⟩
  | registerLate _ _ hg => exact .inr ⟨rfl, hg.tickets.2.1⟩
  | linkLate => exact .inr ⟨rfl, rfl⟩
  | react _ _ hg => exact .inl ⟨rfl, hg.tickets.2.1⟩
  | _ => exact .inl ⟨rfl, rfl⟩

/-- A round that starts or goes on has the reason of its ticket. -/
theorem Move.rounds (m : d.Move ds d') (hd : ∀ a ∈ d.rounds, d.reason? a.ticket = some a.reason) :
    ∀ a ∈ d'.rounds, d'.reason? a.ticket = some a.reason := by
  have kept {rs : List Round} (hrs : ∀ a ∈ rs, ∃ b ∈ d.rounds, b.ticket = a.ticket ∧
      b.reason = a.reason) : ∀ a ∈ rs, d'.reason? a.ticket = some a.reason := by
    intro a ha
    obtain ⟨b, hb, ht, hr⟩ := hrs a ha
    exact ht ▸ hr ▸ m.stays (hd b hb)
  have same : ∀ a ∈ d.rounds, d'.reason? a.ticket = some a.reason := fun a ha => m.stays (hd a ha)
  -- The uppermost round goes on.
  have shorter {t : Nat} {r : Reason} {handler : Handler} {rest : List Handler} {rs : List Round}
      (he : d.rounds = ⟨t, r, handler :: rest⟩ :: rs) :
      ∀ a ∈ (⟨t, r, rest⟩ :: rs : List Round), d'.reason? a.ticket = some a.reason := by
    refine kept fun a ha => ?_
    rcases List.mem_cons.mp ha with rfl | ha
    · exact ⟨⟨t, r, handler :: rest⟩, he ▸ List.mem_cons_self, rfl, rfl⟩
    · exact ⟨a, he ▸ List.mem_cons_of_mem _ ha, rfl, rfl⟩
  -- The uppermost round ends.
  have fewer {a : Round} {rs : List Round} (he : d.rounds = a :: rs) :
      ∀ b ∈ rs, d'.reason? b.ticket = some b.reason :=
    fun b hb => same b (he ▸ List.mem_cons_of_mem a hb)
  cases m with
  | registerLate _ _ hg =>
    rw [hg.tickets.2.2]
    exact same
  | @win t r k _ hu =>
    intro a ha
    rcases List.mem_cons.mp ha with rfl | ha
    · simp [reason?, (List.getElem?_eq_some_iff.mp hu).1]
    · exact same a ha
  | react _ hr hg =>
    rw [hg.tickets.2.2]
    exact shorter hr
  | follow _ hr => exact shorter hr
  | finish _ hr => exact fewer hr
  | leave _ hr => exact fewer hr
  | _ => exact same

/-- Handlers react to the reason of their ticket. -/
theorem Move.reasons (m : d.Move ds d') (hd : ∀ a ∈ d.rounds, d.reason? a.ticket = some a.reason)
    {n : Nat} {way : Way} {l : Bool} (hmem : .reacted t n r way l ∈ ds) : d.reason? t = some r := by
  cases m with
  | registerLate _ hr =>
    obtain ⟨rfl, -, rfl, -, -⟩ : _ ∧ _ ∧ _ ∧ _ ∧ _ := by simpa using hmem
    exact hr
  | linkLate _ hr =>
    obtain ⟨rfl, -, rfl, -, -⟩ : _ ∧ _ ∧ _ ∧ _ ∧ _ := by simpa using hmem
    exact hr
  | react _ hr =>
    obtain ⟨rfl, -, rfl, -, -⟩ : _ ∧ _ ∧ _ ∧ _ ∧ _ := by simpa using hmem
    exact hd _ (hr ▸ List.mem_cons_self)
  | follow _ hr =>
    obtain ⟨rfl, -, rfl, -, -⟩ : _ ∧ _ ∧ _ ∧ _ ∧ _ := by simpa using hmem
    exact hd _ (hr ▸ List.mem_cons_self)
  | _ => simp at hmem

theorem Gives.calls {n : Nat} {way : Way} (hg : d.Gives n r way d') (hn : d.now = none) :
    ∃ given, given.Sublist [(n, r)] ∧ d'.calls.Perm (d.calls ++ given) := by
  cases hg with
  | inLine =>
    refine ⟨_, .refl _, ?_⟩
    simpa [calls, hn] using (List.perm_append_singleton (n, r) d.waiting).symm
  | direct =>
    refine ⟨_, .refl _, ?_⟩
    simpa [calls, hn] using (List.perm_append_singleton (n, r) d.waiting).symm
  | @queued _ a b hw =>
    refine ⟨_, .refl _, ?_⟩
    simpa [calls, hn, hw] using List.perm_middle.trans
      (List.perm_append_singleton (n, r) (a ++ b)).symm
  | dropped => exact ⟨[], List.nil_sublist _, by simp⟩

/-- A callback that starts, or is to start, was to start before or is that of a handler that
reacts. -/
theorem Move.calls (m : d.Move ds d') :
    ∃ given, given.Sublist (responses ds) ∧ (starts ds ++ d'.calls).Perm (d.calls ++ given) := by
  cases m with
  | registerLate hn _ hg => exact hg.calls hn
  | react hn _ hg => exact hg.calls hn
  | @begin n r a b hn hw =>
    have hperm : ((n, r) :: (a ++ b)).Perm (a ++ (n, r) :: b) := List.perm_middle.symm
    exact ⟨[], List.nil_sublist _, by simpa [Desk.calls, hn, hw] using hperm⟩
  | start hn => exact ⟨[], List.nil_sublist _, by simp [Desk.calls, hn]⟩
  | _ => exact ⟨[], List.nil_sublist _, by simp [Desk.calls]⟩

/-- Every move keeps the tally. -/
theorem Tally.move (ht : d.Tally h) (m : d.Move ds d') : d'.Tally (h ++ ds) where
  numbers := by
    rw [numbers_append, ht.numbers]
    rcases m.numbers with ⟨hds, hd⟩ | ⟨hds, hd⟩
    · rw [hds, hd, List.append_nil]
    · rw [hds, hd, List.range_succ]
  rounds := m.rounds ht.rounds
  reasons := by
    intro t n r way l hmem
    refine m.stays ?_
    rcases List.mem_append.mp hmem with hmem | hmem
    · exact ht.reasons t n r way l hmem
    · exact m.reasons ht.rounds hmem
  calls := by
    obtain ⟨given, hsub, hperm⟩ := ht.calls
    obtain ⟨new, hnew, hperm'⟩ := m.calls
    refine ⟨given ++ new, ?_, ?_⟩
    · rw [responses_append]
      exact hsub.append hnew
    · calc starts (h ++ ds) ++ d'.calls
        _ = starts h ++ (starts ds ++ d'.calls) := by simp
        _ |>.Perm (starts h ++ (d.calls ++ new)) := hperm'.append_left _
        _ = starts h ++ d.calls ++ new := by simp
        _ |>.Perm (given ++ new) := hperm.append_right _

/-- A callback that starts, or is to start, is that of a handler that reacted to the reason. -/
theorem Tally.origin (ht : d.Tally h) {n : Nat} (hmem : (n, r) ∈ starts h ++ d.calls) :
    ∃ t way l, .reacted t n r way l ∈ h := by
  obtain ⟨given, hsub, hperm⟩ := ht.calls
  exact mem_responses.mp (hsub.subset (hperm.mem_iff.mp hmem))

end Desk

/-- What a deed demands of what comes `later`: a handler that is registered on a ticket with a reason
reacts next, an attempt that is not the first is answered next, and a callback that is run in line
starts next, unless it starts `now`. -/
def Heeded (now : Option (Nat × Reason)) (later : List Deed) : Deed → Prop
  | .registered t n (some r) => ∃ way h, later = .reacted t n r way true :: h
  | .attempted t _ false => ∃ h, later = .answered t false :: h
  | .reacted _ n r .inLine _ => (∃ h, later = .started n r :: h) ∨ later = [] ∧ now = some (n, r)
  | _ => True

/-- What every deed demands is done right after it. -/
def Prompt (now : Option (Nat × Reason)) : List Deed → Prop
  | [] => True
  | e :: later => Heeded now later e ∧ Prompt now later

section Prompt

variable {now now' : Option (Nat × Reason)} {h ds later later' : List Deed} {e : Deed}

/-- Nothing comes before a callback that starts now. -/
theorem Heeded.append (he : Heeded now later e)
    (hnow : ∀ n r, now = some (n, r) → ∃ ds', ds = .started n r :: ds') :
    Heeded now' (later ++ ds) e := by
  cases e with
  | registered t n found =>
    cases found with
    | none => trivial
    | some r =>
      obtain ⟨way, h, rfl⟩ := he
      exact ⟨way, h ++ ds, rfl⟩
  | attempted t r first =>
    cases first with
    | true => trivial
    | false =>
      obtain ⟨h, rfl⟩ := he
      exact ⟨h ++ ds, rfl⟩
  | reacted t n r way l =>
    cases way with
    | inLine =>
      rcases he with ⟨h, rfl⟩ | ⟨rfl, hn⟩
      · exact .inl ⟨h ++ ds, rfl⟩
      · exact .inl (hnow n r hn)
    | _ => trivial
  | _ => trivial

theorem Prompt.append (hp : Prompt now h) (hds : Prompt now' ds)
    (hnow : ∀ n r, now = some (n, r) → ∃ ds', ds = .started n r :: ds') :
    Prompt now' (h ++ ds) := by
  induction h with
  | nil => exact hds
  | cons e h ih => exact ⟨hp.1.append hnow, ih hp.2⟩

theorem Prompt.heeded (hp : Prompt now (h ++ e :: later)) : Heeded now later e := by
  induction h with
  | nil => exact hp.1
  | cons _ _ ih => exact ih hp.2

end Prompt

namespace Desk

variable {d d' : Desk} {h ds : List Deed}

theorem Gives.prompt {t n : Nat} {r : Reason} {way : Way} {l : Bool} (hg : d.Gives n r way d') :
    Heeded d'.now [] (.reacted t n r way l) := by
  cases hg with
  | inLine => exact .inr ⟨rfl, rfl⟩
  | _ => trivial

/-- Every move does what is demanded. -/
theorem Move.prompt (m : d.Move ds d') : Prompt d'.now ds := by
  cases m with
  | registerLate _ _ hg => exact ⟨⟨_, _, rfl⟩, hg.prompt, trivial⟩
  | linkLate => exact ⟨⟨_, _, rfl⟩, trivial, trivial⟩
  | fail => exact ⟨⟨_, rfl⟩, trivial, trivial⟩
  | react _ _ hg => exact ⟨hg.prompt, trivial⟩
  | create => trivial
  | begin => trivial
  | _ => exact ⟨trivial, trivial⟩

/-- Nothing comes before the callback that starts now. -/
theorem Move.now (m : d.Move ds d') {n : Nat} {r : Reason} (hn : d.now = some (n, r)) :
    ∃ ds', ds = .started n r :: ds' := by
  cases m with
  | start hn' =>
    obtain ⟨rfl, rfl⟩ : _ ∧ _ := by simpa [hn] using hn'
    exact ⟨[], rfl⟩
  | _ => simp_all

end Desk

end Conduit.Cancel
