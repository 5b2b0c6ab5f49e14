import Conduit.Proofs.Dispatch.Floor

/-!
Lines that are in order: all accepted work is begun in turn, nobody serves a line that somebody else
serves, and nothing waits in a line that goes on by itself without being served to its end, now or
later. Every move keeps them so.
-/

namespace Conduit.Dispatch

variable {C : Component}

namespace Floor

/-- Somebody serves a line without a limit. -/
def ServedOut (f : Floor C) (v : Nat) : Prop := ∃ after, .serve v none after ∈ f.stack

/-- All lines are in order. -/
structure Orderly (f : Floor C) : Prop where
  /-- Work is begun in the order in which it has joined its line. -/
  lines : ∀ v, accepted v f.journal = begun v f.journal ++ f.line v
  /-- Whoever serves a line has begun some of its work, or is about to go on. -/
  nested : Nested f.stack ∨ f.replying = true ∧
    ∃ v left after k, f.stack = .serve v left after :: k ∧ Nested k
  /-- Nobody serves a line that somebody else serves. -/
  alone : (servings f.stack).Nodup
  /-- Only a line that is moved beside what else runs is served up to some point. -/
  servers : ∀ v left after, .serve v left after ∈ f.stack →
    ∃ kind, f.kind? v = some kind ∧ kind ≠ .manual ∧ (left ≠ none → kind.isParallel = true)
  drains : ∀ v left ran, .drain v left ran ∈ f.stack → f.kind? v = some .manual
  sound : ∀ (v : Nat) (q : Venue C.Frame), f.venues[v]? = some q → q.Sound
  woken : ∀ v ∈ f.woken, f.goesOn v = true
  /-- Nothing waits in a line that goes on by itself unless it is served to its end, now or later. -/
  prompt : ∀ v, f.goesOn v = true → f.line v ≠ [] → v ∈ f.woken ∨ f.ServedOut v
  /-- What has been begun has ended or has its turn now. -/
  turns : ∀ v kind, f.kind? v = some kind → kind ≠ .manual →
    (begun v f.journal).length = ended v f.journal + f.stack.countP (·.turns v)
  /-- Nothing is told of a venue that is still to be opened. -/
  unborn : ∀ v, f.venues.length ≤ v → begun v f.journal = [] ∧ ended v f.journal = 0

namespace Orderly

variable {f : Floor C} {v : Nat} {q : Venue C.Frame} {w : C.Frame} {rest : List C.Frame}
  {s k : List (Frame C)}

/-- Frames come and go, but nobody starts to serve a line or stops. -/
theorem restack (h : f.Orderly) {b : Bool} (hn : Nested s) (hs : servings s = servings f.stack)
    (ht : ∀ v, s.countP (·.turns v) = f.stack.countP (·.turns v))
    (hserve : ∀ v left after, .serve v left after ∈ s →
      ∃ left', .serve v left' after ∈ f.stack ∧ (left ≠ none → left' ≠ none))
    (hout : ∀ v after, .serve v none after ∈ f.stack → .serve v none after ∈ s)
    (hdrain : ∀ v left ran, .drain v left ran ∈ s → .drain v left ran ∈ f.stack) :
    Orderly { f with stack := s, replying := b } where
  lines := h.lines
  nested := .inl hn
  alone := hs ▸ h.alone
  servers v left after hmem := by
    obtain ⟨left', hmem', hl⟩ := hserve v left after hmem
    obtain ⟨kind, hkind, hmanual, hthread⟩ := h.servers v left' after hmem'
    exact ⟨kind, hkind, hmanual, fun hleft => hthread (hl hleft)⟩
  drains v left ran hmem := h.drains v left ran (hdrain v left ran hmem)
  sound := h.sound
  woken := h.woken
  prompt v hv hline := (h.prompt v hv hline).imp_right fun ⟨after, hmem⟩ => ⟨after, hout v after hmem⟩
  turns v kind hv hk := (ht v).symm ▸ h.turns v kind hv hk
  unborn := h.unborn

theorem nested_of_other (h : f.Orderly) {g : Frame C} (hs : f.stack = g :: k)
    (hg : g.isOfLine = false) : Nested k := by
  rcases h.nested with hn | ⟨-, v, left, after, k', hs', -⟩
  · exact (hs ▸ hn).of_other hg
  · obtain ⟨rfl, rfl⟩ := List.cons.inj (hs.symm.trans hs')
    cases hg

theorem pop (h : f.Orderly) {g : Frame C} (b : Bool) (hs : f.stack = g :: k)
    (hg : g.isOfLine = false) : Orderly { f with stack := k, replying := b } := by
  refine h.restack (h.nested_of_other hs hg) ?_ (fun v => ?_) (fun v left after hmem => ?_)
    (fun v after hmem => ?_) fun v left ran hmem => ?_
  · simp [hs, Frame.serves?_of_other hg]
  · simp [hs, Frame.turns_of_other hg]
  · exact ⟨left, hs ▸ List.mem_cons_of_mem g hmem, id⟩
  · rw [hs] at hmem
    refine (List.mem_cons.mp hmem).resolve_left ?_
    rintro rfl
    cases hg
  · exact hs ▸ List.mem_cons_of_mem g hmem

theorem push (h : f.Orderly) (b : Bool) (hn : Nested f.stack) (hk : ∀ g ∈ k, g.isPlain) :
    Orderly { f with stack := k ++ f.stack, replying := b } := by
  refine h.restack (hn.of_plain hk) (servings_of_plain hk) (countP_turns_of_plain hk)
    (fun v left after hmem => ⟨left, ?_, id⟩) (fun v after => List.mem_append_right k)
    fun v left ran hmem => ?_
  · rcases List.mem_append.mp hmem with hmem | hmem
    · exact absurd (hk _ hmem) (by simp [Frame.isPlain])
    · exact hmem
  · rcases List.mem_append.mp hmem with hmem | hmem
    · exact absurd (hk _ hmem) (by simp [Frame.isPlain])
    · exact hmem

theorem widened (h : f.Orderly) (v : Nat) :
    Orderly { f with stack := f.stack.map (·.widen v) } where
  lines := h.lines
  nested := by
    rcases h.nested with hn | ⟨hr, u, left, after, k, hs, hn⟩
    · exact .inl (hn.widen v)
    · exact .inr ⟨hr, u, _, after, k.map (·.widen v), by rw [hs]; rfl, hn.widen v⟩
  alone := by simpa using h.alone
  servers u left after hmem := by
    obtain ⟨g, hg, he⟩ := List.mem_map.mp hmem
    cases g with
    | serve u' left' after' =>
      simp only [Frame.widen, Frame.serve.injEq] at he
      obtain ⟨rfl, rfl, rfl⟩ := he
      obtain ⟨kind, hkind, hmanual, hthread⟩ := h.servers u' left' after' hg
      refine ⟨kind, hkind, hmanual, fun hleft => hthread fun hnone => hleft ?_⟩
      simp [hnone]
    | _ => cases he
  drains u left ran hmem := by
    obtain ⟨g, hg, he⟩ := List.mem_map.mp hmem
    cases g with
    | drain =>
      cases he
      exact h.drains u left ran hg
    | _ => cases he
  sound := h.sound
  woken := h.woken
  prompt u hu hline := (h.prompt u hu hline).imp_right fun ⟨after, hmem⟩ =>
    ⟨after, List.mem_map.mpr ⟨_, hmem, by simp [Frame.widen]⟩⟩
  turns u kind hu hk := by simpa [List.countP_map, Function.comp_def] using h.turns u kind hu hk
  unborn := h.unborn

/-- Where nobody serves a line, no work of it runs. -/
theorem idle (h : f.Orderly) (hno : v ∉ servings f.stack) : f.stack.countP (·.turns v) = 0 := by
  rcases h.nested with hn | ⟨-, u, left, after, k, hs, hn⟩
  · exact hn.no_turn hno
  · rw [hs, servings_cons] at hno
    simp [hs, hn.no_turn fun hmem => hno (List.mem_append_right _ hmem)]

/-- Nobody is served at a venue that is still to be opened. -/
theorem no_turn (h : f.Orderly) (hv : f.kind? v = none) : f.stack.countP (·.turns v) = 0 := by
  refine h.idle fun hmem => ?_
  obtain ⟨g, hg, he⟩ := List.mem_filterMap.mp hmem
  cases g with
  | serve u left after =>
    cases he
    obtain ⟨kind, hkind, -⟩ := h.servers _ left after hg
    simp [hv] at hkind
  | _ => cases he

/-- One piece of work of a venue runs at most. -/
theorem turns_le (h : f.Orderly) (v : Nat) : f.stack.countP (·.turns v) ≤ 1 := by
  have hone := List.nodup_iff_count.mp h.alone v
  rcases h.nested with hn | ⟨-, u, left, after, k, hs, hn⟩
  · exact Nat.le_trans (hn.turns_le v) hone
  · rw [hs, servings_cons, List.count_append] at hone
    rw [hs, List.countP_cons_of_neg (by simp)]
    exact Nat.le_trans (hn.turns_le v) (Nat.le_of_add_left_le hone)

/-- Below a turn of a venue is the one who serves its line. -/
theorem below_turn (h : f.Orderly) (hs : f.stack = .turn (.venue v) :: k) :
    ∃ left after below, k = .serve v left after :: below ∧ Nested below := by
  rcases h.nested with hn | ⟨-, u, left, after, k', hs', -⟩
  · rw [hs] at hn
    cases hn with
    | other hg _ => cases hg
    | turn hn => exact ⟨_, _, _, rfl, hn⟩
  · cases hs.symm.trans hs'

theorem opened (h : f.Orderly) (hq : q.IsNew) {woken : List Nat}
    (hw : ∀ u ∈ woken, u ∈ f.woken ∨ u = f.venues.length ∧ q.kind.isEager = true)
    (hw' : ∀ u ∈ f.woken, u ∈ woken) : (f.opening q woken).Orderly := by
  have hkept {u : Nat} {kind : VenueKind} (hu : f.kind? u = some kind) :
      (f.opening q woken).kind? u = some kind := by
    rw [kind?_opening, if_neg (Nat.ne_of_lt (lt_of_kind? hu)), hu]
  have hline (u : Nat) : (f.opening q woken).line u = f.line u := line_opening hq.waiting
  refine ⟨fun u => ?_, h.nested, h.alone, fun u left after hmem => ?_,
    fun u left ran hmem => hkept (h.drains u left ran hmem),
    (Move.opened q hq hw hw').sound h.sound, fun u hu => ?_, fun u hu hwaits => ?_,
    fun u kind hu hk => ?_, fun u hu => ?_⟩
  · rw [hline]
    exact h.lines u
  · obtain ⟨kind, hkind, hrest⟩ := h.servers u left after hmem
    exact ⟨kind, hkept hkind, hrest⟩
  · rcases hw u hu with hu | ⟨rfl, heager⟩
    · have hgoes := h.woken u hu
      rwa [goesOn_opening (Nat.ne_of_lt (lt_of_goesOn hgoes))]
    · rw [goesOn_of (f := f.opening q woken) (by rw [venues_opening, if_pos rfl])]
      exact Venue.goesOn_of_isEager heager
  · rw [hline] at hwaits
    by_cases hne : u = f.venues.length
    · subst hne
      exact absurd (by simp [line]) hwaits
    · rw [goesOn_opening hne] at hu
      exact (h.prompt u hu hwaits).imp_left (hw' u)
  · rw [kind?_opening] at hu
    split at hu
    · rename_i hnew
      subst hnew
      obtain ⟨hb, he⟩ := h.unborn f.venues.length (Nat.le_refl _)
      have hno := h.no_turn (v := f.venues.length) (by simp [kind?])
      simp [opening, hb, he, hno]
    · exact h.turns u kind hu hk
  · exact h.unborn u (Nat.le_of_succ_le (by simpa [opening] using hu))

theorem closed (h : f.Orderly) (hq : f.venues[v]? = some q) (hk : q.kind = .thread)
    {woken : List Nat} (hw : ∀ u ∈ woken, u ∈ f.woken ∨ u = v) (hw' : ∀ u ∈ f.woken, u ∈ woken)
    (hv : q.handle = true → q.waiting ≠ [] → v ∈ woken) : (f.shut v woken).Orderly where
  lines u := by
    rw [line_shut]
    exact h.lines u
  nested := h.nested
  alone := h.alone
  servers u left after hmem := by
    rw [kind?_shut]
    exact h.servers u left after hmem
  drains u left ran hmem := kind?_shut.trans (h.drains u left ran hmem)
  sound := (Move.closed hq hk hw hw' hv).sound h.sound
  woken u hu := by
    by_cases hne : u = v
    · subst hne
      exact goesOn_shut_self (lt_of_kind? (kind?_of hq))
    · rw [goesOn_shut hne]
      exact h.woken u ((hw u hu).resolve_right hne)
  prompt u hu hline := by
    rw [line_shut] at hline
    by_cases hne : u = v
    · subst hne
      -- A thread without a handle has been stopped before.
      cases hhandle : q.handle with
      | true =>
        rw [line_of hq] at hline
        exact .inl (hv hhandle hline)
      | false =>
        have hgoes : f.goesOn u = true := by
          rw [goesOn_of hq, Venue.goesOn_thread hk, ← (h.sound u q hq).handle, hhandle]
          rfl
        exact (h.prompt u hgoes hline).imp_left (hw' u)
    · rw [goesOn_shut hne] at hu
      exact (h.prompt u hu hline).imp_left (hw' u)
  turns u kind hu hk := h.turns u kind (kind?_shut.symm.trans hu) hk
  unborn u hu := h.unborn u (by simpa [shut] using hu)

theorem passed (h : f.Orderly) {woken : List Nat} (hv : f.line v = [])
    (hw : ∀ u ∈ woken, u ∈ f.woken) (hw' : ∀ u ∈ f.woken, u = v ∨ u ∈ woken) :
    Orderly { f with woken } where
  lines := h.lines
  nested := h.nested
  alone := h.alone
  servers := h.servers
  drains := h.drains
  sound := h.sound
  woken u hu := h.woken u (hw u hu)
  prompt u hu hline := by
    have hne : u ≠ v := by
      rintro rfl
      exact hline hv
    exact (h.prompt u hu hline).imp_left fun hmem => (hw' u hmem).resolve_left hne
  turns := h.turns
  unborn := h.unborn

theorem queued (h : f.Orderly) (hq : f.venues[v]? = some q) (ha : q.accepting = true)
    {woken : List Nat} (hw : ∀ u ∈ woken, u ∈ f.woken ∨ u = v ∧ q.kind.isEager = true)
    (hw' : ∀ u ∈ f.woken, u ∈ woken) (hv : q.kind.isEager = true → v ∈ woken) :
    (f.enqueue v q w woken).Orderly where
  lines u := by
    rw [line_enqueue hq]
    simp only [enqueue, accepted_cons, begun_cons, h.lines u, Entry.joins, Entry.begins]
    by_cases hu : u = v
    · simp [hu, line_of hq]
    · simp [hu, Ne.symm hu]
  nested := h.nested.imp_right fun ⟨_, hserve⟩ => ⟨rfl, hserve⟩
  alone := h.alone
  servers u left after hmem := kind?_enqueue hq ▸ h.servers u left after hmem
  drains u left ran hmem := kind?_enqueue hq ▸ h.drains u left ran hmem
  sound := (Move.queued w hq ha hw hw' hv).sound h.sound
  woken u hu := by
    rw [goesOn_enqueue hq]
    rcases hw u hu with hu | ⟨rfl, heager⟩
    · exact h.woken u hu
    · rw [goesOn_of hq]
      exact Venue.goesOn_of_isEager heager
  prompt u hu hline := by
    rw [goesOn_enqueue hq] at hu
    by_cases hne : u = v
    · subst hne
      rw [goesOn_of hq, Venue.goesOn, ha, Bool.not_true, Bool.or_false] at hu
      exact .inl (hv hu)
    · rw [line_enqueue hq, if_neg hne] at hline
      exact (h.prompt u hu hline).imp_left (hw' u)
  turns u kind hu hk := by
    rw [kind?_enqueue hq] at hu
    simpa [enqueue, Entry.begins, Entry.ends] using h.turns u kind hu hk
  unborn u hu := by
    have := h.unborn u (by simpa [enqueue] using hu)
    simpa [enqueue, Entry.begins, Entry.ends] using this

theorem ended (h : f.Orderly) (hs : f.stack = .turn (.venue v) :: k) :
    (f.endTurn v k).Orderly := by
  obtain ⟨left, after, below, rfl, hn⟩ := h.below_turn hs
  refine ⟨h.lines, .inr ⟨rfl, v, left, after, below, rfl, hn⟩, ?_, fun u left' after' hmem => ?_,
    fun u left' ran hmem => ?_, h.sound, h.woken, fun u hu hline => ?_, fun u kind hu hk => ?_,
    fun u hu => ?_⟩
  · simpa [hs, endTurn] using h.alone
  · exact h.servers u left' after' (hs ▸ List.mem_cons_of_mem _ hmem)
  · exact h.drains u left' ran (hs ▸ List.mem_cons_of_mem _ hmem)
  · refine (h.prompt u hu hline).imp_right fun ⟨after', hmem⟩ => ⟨after', ?_⟩
    rw [hs] at hmem
    exact (List.mem_cons.mp hmem).resolve_left nofun
  · have := h.turns u kind hu hk
    rw [hs] at this
    by_cases hne : v = u
    · subst hne
      simp [endTurn, Entry.begins, Entry.ends] at this ⊢
      omega
    · simpa [endTurn, Entry.begins, Entry.ends, hne] using this
  · obtain ⟨hb, he⟩ := h.unborn u hu
    have hne : v ≠ u := by
      obtain ⟨kind, hkind, -⟩ := h.servers v left after (by simp [hs])
      exact Nat.ne_of_lt (Nat.lt_of_lt_of_le (lt_of_kind? hkind) hu)
    simp [endTurn, Entry.begins, Entry.ends, hb, he, hne]

/-- The oldest work of a line is begun above the frames of those who serve. -/
theorem begin (h : f.Orderly) (hq : f.venues[v]? = some q) (hw : q.waiting = w :: rest)
    {woken : List Nat} (hwoken : ∀ u ∈ woken, u ∈ f.woken)
    (hwoken' : ∀ u ∈ f.woken, u = v ∨ u ∈ woken) (hn : Nested s) (halone : (servings s).Nodup)
    (hserve : ∀ u left after, .serve u left after ∈ s →
      ∃ kind, f.kind? u = some kind ∧ kind ≠ .manual ∧ (left ≠ none → kind.isParallel = true))
    (hdrain : ∀ u left ran, .drain u left ran ∈ s → f.kind? u = some .manual)
    (hout : ∀ u, f.ServedOut u → ∃ after, .serve u none after ∈ s)
    (hprompt : f.goesOn v = true → v ∈ f.woken → v ∈ woken ∨ ∃ after, .serve v none after ∈ s)
    (hturns : ∀ u kind, f.kind? u = some kind → kind ≠ .manual →
      s.countP (·.turns u) = f.stack.countP (·.turns u) + if v = u then 1 else 0) :
    (f.begin v q w rest woken s).Orderly where
  lines u := by
    rw [line_begin hq]
    have hline := h.lines u
    simp only [Floor.begin, accepted_cons, begun_cons, Entry.joins, Entry.begins]
    by_cases hu : u = v
    · subst hu
      simpa [line_of hq, hw] using hline
    · simpa [hu, Ne.symm hu] using hline
  nested := .inl (.other rfl hn)
  alone := by simpa [Floor.begin, Frame.serves?] using halone
  servers u left after hmem := by
    rw [kind?_begin hq]
    exact hserve u left after (by simpa [Floor.begin] using hmem)
  drains u left ran hmem :=
    (kind?_begin hq).trans (hdrain u left ran (by simpa [Floor.begin] using hmem))
  sound u q' hq' := by
    rw [Floor.begin, getElem?_set_waiting hq, Option.map_eq_some_iff] at hq'
    obtain ⟨x, hx, rfl⟩ := hq'
    split
    · exact ⟨(h.sound u x hx).handle, (h.sound u x hx).closes⟩
    · exact h.sound u x hx
  woken u hu := (goesOn_begin hq).trans (h.woken u (hwoken u hu))
  prompt u hu hline := by
    rw [goesOn_begin hq] at hu
    rw [line_begin hq] at hline
    have above (hmem : ∃ after, .serve u none after ∈ s) :
        (f.begin v q w rest woken s).ServedOut u :=
      hmem.imp fun _ => List.mem_cons_of_mem _
    have hwaits : f.line u ≠ [] := by
      split at hline
      · rename_i hne
        simp [hne, line_of hq, hw]
      · exact hline
    rcases h.prompt u hu hwaits with hmem | hmem
    · by_cases hne : u = v
      · subst hne
        exact (hprompt hu hmem).imp_right above
      · exact .inl ((hwoken' u hmem).resolve_left hne)
    · exact .inr (above (hout u hmem))
  turns u kind hu hk := by
    rw [kind?_begin hq] at hu
    have hbefore := h.turns u kind hu hk
    have hnow : (Frame.own w :: s).countP (·.turns u) =
        f.stack.countP (·.turns u) + if v = u then 1 else 0 :=
      (countP_turns_other rfl u).trans (hturns u kind hu hk)
    simp only [Floor.begin, begun_cons, ended_cons, Entry.begins, Entry.ends, List.length_append,
      hbefore, hnow]
    split
    · simp
      omega
    · simp
  unborn u hu := by
    have hlen : f.venues.length ≤ u := by simpa [Floor.begin] using hu
    obtain ⟨hb, he⟩ := h.unborn u hlen
    have hne : v ≠ u := Nat.ne_of_lt (Nat.lt_of_lt_of_le (lt_of_kind? (kind?_of hq)) hlen)
    simp [Floor.begin, Entry.begins, Entry.ends, hb, he, hne]

theorem start (h : f.Orderly) {left : Option Nat} {after : Reply C.Answer} (hn : Nested f.stack)
    (hq : f.venues[v]? = some q) (hw : q.waiting = w :: rest) (hv : v ∉ servings f.stack)
    (hk : q.kind ≠ .manual) {woken : List Nat}
    (hl : left ≠ none → q.kind.isParallel = true ∧ ∀ u ∈ f.woken, u ∈ woken)
    (hwoken : ∀ u ∈ woken, u ∈ f.woken) (hwoken' : ∀ u ∈ f.woken, u = v ∨ u ∈ woken) :
    (f.begin v q w rest woken (.turn (.venue v) :: .serve v left after :: f.stack)).Orderly := by
  refine h.begin hq hw hwoken hwoken' (.turn hn) ?_ (fun u left' after' hmem => ?_)
    (fun u left' ran hmem => ?_) (fun u hmem => ?_) (fun _ hmem => ?_) fun u kind hu hkind => ?_
  · simpa using ⟨hv, h.alone⟩
  · rcases List.mem_cons.mp hmem with hmem | hmem
    · cases hmem
    rcases List.mem_cons.mp hmem with hmem | hmem
    · cases hmem
      exact ⟨q.kind, kind?_of hq, hk, fun hleft => (hl hleft).1⟩
    · exact h.servers u left' after' hmem
  · exact h.drains u left' ran (by simpa using hmem)
  · exact hmem.imp fun _ hmem => List.mem_cons_of_mem _ (List.mem_cons_of_mem _ hmem)
  · -- The line stays woken unless it is served to its end.
    cases left with
    | none => exact .inr ⟨after, by simp⟩
    | some n => exact .inl ((hl nofun).2 v hmem)
  · simp [List.countP_cons]

theorem replying_of_serve (h : f.Orderly) {left : Option Nat} {after : Reply C.Answer}
    (hs : f.stack = .serve v left after :: k) : f.replying = true := by
  rcases h.nested with hn | ⟨hr, -⟩
  · exact absurd (hs ▸ hn) Nested.not_serve
  · exact hr

theorem nested_of_serve (h : f.Orderly) {left : Option Nat} {after : Reply C.Answer}
    (hs : f.stack = .serve v left after :: k) : Nested k := by
  rcases h.nested with hn | ⟨-, u, left', after', k', hs', hn⟩
  · exact absurd (hs ▸ hn) Nested.not_serve
  · obtain ⟨-, rfl⟩ := List.cons.inj (hs.symm.trans hs')
    exact hn

theorem next (h : f.Orderly) {left : Option Nat} {after : Reply C.Answer}
    (hs : f.stack = .serve v left after :: k) (hq : f.venues[v]? = some q)
    (hw : q.waiting = w :: rest) :
    (f.begin v q w rest f.woken
      (.turn (.venue v) :: .serve v (left.map (· - 1)) after :: k)).Orderly := by
  have halone := h.alone
  rw [hs] at halone
  refine h.begin hq hw (fun u hu => hu) (fun u hu => .inr hu) (.turn (h.nested_of_serve hs)) ?_
    (fun u left' after' hmem => ?_) (fun u left' ran hmem => ?_) (fun u ⟨after', hmem⟩ => ?_)
    (fun _ hmem => .inl hmem) fun u kind hu hkind => ?_
  · simpa using halone
  · rcases List.mem_cons.mp hmem with hmem | hmem
    · cases hmem
    rcases List.mem_cons.mp hmem with hmem | hmem
    · cases hmem
      obtain ⟨kind, hkind, hmanual, hthread⟩ := h.servers v left after (by simp [hs])
      exact ⟨kind, hkind, hmanual, fun hleft => hthread fun hnone => hleft (by simp [hnone])⟩
    · exact h.servers u left' after' (hs ▸ List.mem_cons_of_mem _ hmem)
  · exact h.drains u left' ran (hs ▸ List.mem_cons_of_mem _ (by simpa using hmem))
  · rw [hs] at hmem
    rcases List.mem_cons.mp hmem with hmem | hmem
    · cases hmem
      exact ⟨after, by simp⟩
    · exact ⟨after', List.mem_cons_of_mem _ (List.mem_cons_of_mem _ hmem)⟩
  · simp [hs, List.countP_cons]

theorem drain (h : f.Orderly) {left : Option Nat} {ran : Nat} (hn : Nested f.stack)
    (hq : f.venues[v]? = some q) (hw : q.waiting = w :: rest) (hk : q.kind = .manual) :
    (f.begin v q w rest f.woken (.drain v left ran :: f.stack)).Orderly := by
  refine h.begin hq hw (fun u hu => hu) (fun u hu => .inr hu) (.other rfl hn) ?_
    (fun u left' after hmem => ?_) (fun u left' ran' hmem => ?_)
    (fun u hmem => hmem.imp fun _ => List.mem_cons_of_mem _) (fun _ hmem => .inl hmem)
    fun u kind hu hkind => ?_
  · simpa [Frame.serves?] using h.alone
  · exact h.servers u left' after (by simpa using hmem)
  · rcases List.mem_cons.mp hmem with hmem | hmem
    · cases hmem
      rw [kind?_of hq, hk]
    · exact h.drains u left' ran' hmem
  · have hne : v ≠ u := by
      rintro rfl
      rw [kind?_of hq, hk] at hu
      exact hkind (Option.some.inj hu).symm
    rw [countP_turns_other rfl, if_neg hne, Nat.add_zero]

theorem finish (h : f.Orderly) {left : Option Nat} {after : Reply C.Answer}
    (hs : f.stack = .serve v left after :: k) (hl : left = some 0 ∨ f.line v = []) :
    Orderly { f with stack := k, replying := true } where
  lines := h.lines
  nested := .inl (h.nested_of_serve hs)
  alone := by
    have := h.alone
    rw [hs] at this
    exact (List.nodup_cons.mp (by simpa using this)).2
  servers u left' after' hmem := h.servers u left' after' (hs ▸ List.mem_cons_of_mem _ hmem)
  drains u left' ran hmem := h.drains u left' ran (hs ▸ List.mem_cons_of_mem _ hmem)
  sound := h.sound
  woken := h.woken
  prompt u hu hline := by
    refine (h.prompt u hu hline).imp_right fun ⟨after', hmem⟩ => ⟨after', ?_⟩
    rw [hs] at hmem
    refine (List.mem_cons.mp hmem).resolve_left fun heq => ?_
    -- Whoever serves a line to its end leaves it only when nothing waits in it.
    cases heq
    exact hline (hl.resolve_left nofun)
  turns u kind hu hk := by simpa [hs] using h.turns u kind hu hk
  unborn := h.unborn

/-- Every move keeps the lines in order. -/
theorem move (h : f.Orderly) {e : Option (Entry C)} {f' : Floor C} (m : f.Move e f') :
    f'.Orderly := by
  cases m with
  | pop b hs hg => exact h.pop b hs hg
  | push k b hn hk => exact h.push b hn hk
  | opened q hq hw hw' => exact h.opened hq hw hw'
  | closed hq hk hw hw' hv => exact h.closed hq hk hw hw' hv
  | widened v => exact h.widened v
  | passed hv hw hw' => exact h.passed hv hw hw'
  | queued w hq ha hw hw' hv => exact h.queued hq ha hw hw' hv
  | ended hs => exact h.ended hs
  | start left after hn hq hw hv hk hl hwoken hwoken' =>
    exact h.start hn hq hw hv hk hl hwoken hwoken'
  | next hs hl hq hw => exact h.next hs hq hw
  | finish hs hl => exact h.finish hs hl
  | drain left ran hn hq hw hk => exact h.drain hn hq hw hk

theorem path (h : f.Orderly) {e : Option (Entry C)} {f' : Floor C} (p : f.Path e f') :
    f'.Orderly := by
  induction p with
  | stay => exact h
  | snoc _ m ih => exact ih.move m

end Orderly

end Floor

end Conduit.Dispatch
