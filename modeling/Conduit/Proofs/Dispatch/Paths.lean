import Conduit.Proofs.Dispatch.Frames
import Conduit.Proofs.Dispatch.Orderly

/-!
Every step of a machine is a path on its floor, and so the lines of a machine are in order after every
run.
-/

namespace Conduit.Dispatch

variable {C : Component}

namespace Floor

variable {f g h : Floor C} {e : Option (Entry C)}

theorem Path.trans (p : f.Path none g) (p' : g.Path e h) : f.Path e h := by
  induction p' with
  | stay => exact p
  | snoc _ m ih => exact ih.snoc m

theorem Move.path (m : f.Move e g) : f.Path e g := .snoc .stay m

theorem Move.journal_eq (m : f.Move e g) : g.journal = e.toList ++ f.journal := by
  cases m <;> rfl

theorem Path.journal_eq (p : f.Path e g) : g.journal = e.toList ++ f.journal := by
  induction p with
  | stay => rfl
  | snoc _ m ih => rw [m.journal_eq, ih, Option.toList_none, List.nil_append]

/-- The work that an entry adds to a line. -/
def joining (v : Nat) (e : Option (Entry C)) : List C.Frame := (e.bind (·.joins v)).toList

theorem Path.accepted_eq (p : f.Path e g) (v : Nat) :
    accepted v g.journal = accepted v f.journal ++ joining v e := by
  rw [p.journal_eq]
  cases e with
  | none => exact (List.append_nil _).symm
  | some e => exact accepted_cons v e f.journal

theorem Path.begun_eq (p : f.Path e g) (v : Nat) :
    begun v g.journal = begun v f.journal ++ (e.bind (·.begins v)).toList := by
  rw [p.journal_eq]
  cases e with
  | none => exact (List.append_nil _).symm
  | some e => exact begun_cons v e f.journal

theorem Path.ended_eq (p : f.Path e g) (v : Nat) :
    ended v g.journal = ended v f.journal + (e.any (·.ends v)).toNat := by
  rw [p.journal_eq]
  cases e with
  | none => rfl
  | some e => exact ended_cons v e f.journal

end Floor

namespace Machine

/-- The floor of a machine. -/
def floor (m : Machine C) : Floor C where
  venues := m.venues
  woken := lines m.ready
  stack := m.stack
  replying := match m.control with
    | .back _ => true
    | _ => false
  journal := m.journal.filter (·.isOfLine)

open Floor (Path Move joining)

theorem mem_lines {v : Nat} {ready : List (Task C)} : v ∈ lines ready ↔ .serve v ∈ ready := by
  simp only [lines, List.mem_filterMap]
  constructor
  · rintro ⟨t, ht, he⟩
    cases t with
    | serve u =>
      cases he
      exact ht
    | own t => cases he
  · intro h
    exact ⟨_, h, rfl⟩

variable (m : Machine C)

/-! ### Pieces of a step -/

theorem floor_reply (r : Reply C.Answer) : (m.reply r).floor = { m.floor with replying := true } :=
  rfl

theorem reply_path (hn : Nested m.stack) (r : Reply C.Answer) :
    m.floor.Path none (m.reply r).floor :=
  (Move.push (f := m.floor) [] true hn (by simp)).path

@[simp] theorem floor_wake_own (t : C.Task) : (m.wake (.own t)).floor = m.floor := by
  unfold wake
  split
  · rfl
  · simp [floor, lines]

@[simp] theorem floor_wakeAll (ts : List C.Task) : (m.wakeAll ts).floor = m.floor := by
  induction ts generalizing m with
  | nil => rfl
  | cons t ts ih => exact (ih _).trans (m.floor_wake_own t)

@[simp] theorem floor_discard (f : C.Frame) : (m.discard f).floor = m.floor :=
  floor_wakeAll _ _

/-- A line is woken. -/
theorem floor_wake_serve (v : Nat) : ∃ woken, (m.wake (.serve v)).floor = { m.floor with woken } ∧
    v ∈ woken ∧ (∀ u ∈ woken, u ∈ m.floor.woken ∨ u = v) ∧ ∀ u ∈ m.floor.woken, u ∈ woken := by
  unfold wake
  split
  · rename_i h
    exact ⟨m.floor.woken, rfl, List.mem_filterMap.mpr ⟨_, h, rfl⟩, fun u hu => .inl hu, fun u hu => hu⟩
  · refine ⟨m.floor.woken ++ [v], by simp [floor, lines], by simp, fun u hu => ?_, fun u hu => ?_⟩
    · simpa using hu
    · exact List.mem_append_left _ hu

/-- What the journal is told when work joins a line. -/
def told (v : Nat) (w : C.Frame) : Option (Entry C) :=
  if m.floor.accepts v then some (.queued v w) else none

theorem enqueue_path (hn : Nested m.stack) (v : Nat) (w : C.Frame) (r : Reply C.Answer) :
    m.floor.Path (m.told v w) ((m.enqueue v w).reply r).floor := by
  have hreply := m.reply_path hn r
  unfold enqueue told
  cases hq : m.venues[v]? with
  | none =>
    have ha : m.floor.accepts v = false := by simp [floor, Floor.accepts, hq]
    rw [ha]
    exact hreply
  | some q =>
    have ha : m.floor.accepts v = q.accepting := by simp [floor, Floor.accepts, hq]
    rw [ha]
    dsimp only
    cases hacc : q.accepting with
    | false =>
      simp only [Bool.not_false, if_true, floor_reply, floor_discard]
      exact hreply
    | true =>
      have hpush : q.push w = { q with waiting := q.waiting ++ [w] } := by simp [Venue.push, hacc]
      simp only [Bool.not_true, Bool.false_eq_true, if_false, hpush, if_true]
      split
      · rename_i heager
        obtain ⟨woken, hwake, hv, hw, hw'⟩ := floor_wake_serve (record { m with
          venues := m.venues.set v { q with waiting := q.waiting ++ [w] } } (.queued v w)) v
        rw [floor_reply, hwake]
        have hmove : m.floor.Move (some (.queued v w)) (m.floor.enqueue v q w woken) :=
          .queued w hq hacc (fun u hu => (hw u hu).imp_right fun h => ⟨h, heager⟩) hw' (fun _ => hv)
        exact hmove.path
      · rename_i heager
        have hmove : m.floor.Move (some (.queued v w)) (m.floor.enqueue v q w m.floor.woken) :=
          .queued w hq hacc (fun u hu => .inl hu) (fun u hu => hu) (fun h => absurd h heager)
        exact hmove.path

/-- Somebody starts to serve a line. -/
theorem serve_path (hn : Nested m.stack) {v : Nat} {q : Venue C.Frame} (hq : m.venues[v]? = some q)
    (hk : q.kind ≠ .manual) (hv : v ∉ servings m.stack) (left : Option Nat)
    (hl : left ≠ none → q.kind.isParallel = true) (after : Reply C.Answer) :
    ∃ e, (∀ u, joining u e = []) ∧ m.floor.Path e (m.serve v left after).floor := by
  have hreply := m.reply_path hn after
  unfold serve
  split
  · exact ⟨none, fun _ => rfl, hreply⟩
  · unfold next?
    rw [hq]
    cases hw : q.waiting with
    | nil =>
      simp only [hw]
      exact ⟨none, fun _ => rfl, hreply⟩
    | cons w rest =>
      simp only [hw]
      have hmove := Move.start (f := m.floor) (left.map (· - 1)) after hn hq hw hv hk
        (fun h => ⟨hl fun hnone => h (by simp [hnone]), fun u hu => hu⟩) (fun u hu => hu)
        (fun u hu => .inr hu)
      exact ⟨_, fun u => rfl, hmove.path⟩

/-- Whoever serves a line goes on with it, or is done. -/
theorem serveNext_path {v : Nat} {left : Option Nat} {after : Reply C.Answer} {k : List (Frame C)}
    (hs : m.stack = .serve v left after :: k) :
    ∃ e, (∀ u, joining u e = []) ∧
      m.floor.Path e (({ m with stack := k } : Machine C).serve v left after).floor := by
  have hdone (hl : left = some 0 ∨ m.floor.line v = []) :
      m.floor.Path none (({ m with stack := k } : Machine C).reply after).floor :=
    (Move.finish (f := m.floor) hs hl).path
  unfold serve
  split
  · rename_i hl
    exact ⟨none, fun _ => rfl, hdone (.inl hl)⟩
  · rename_i hl
    unfold next?
    dsimp only
    cases hq : m.venues[v]? with
    | none => exact ⟨none, fun _ => rfl, hdone (.inr (by simp [floor, Floor.line, hq]))⟩
    | some q =>
      cases hw : q.waiting with
      | nil =>
        simp only [hw]
        exact ⟨none, fun _ => rfl, hdone (.inr (by simp [floor, Floor.line, hq, hw]))⟩
      | cons w rest =>
        simp only [hw]
        have hmove := Move.next (f := m.floor) hs hl hq hw
        exact ⟨_, fun u => rfl, hmove.path⟩

theorem drain_path (hn : Nested m.stack) {v : Nat} (hv : m.floor.kind? v = some .manual)
    (left : Option Nat) (ran : Nat) :
    ∃ e, (∀ u, joining u e = []) ∧ m.floor.Path e (m.drain v left ran).floor := by
  unfold drain
  split
  · exact ⟨none, fun _ => rfl, m.reply_path hn _⟩
  · unfold next?
    obtain ⟨q, hq, hk⟩ := Option.map_eq_some_iff.mp hv
    rw [show m.venues[v]? = some q from hq]
    cases hw : q.waiting with
    | nil =>
      simp only [hw]
      exact ⟨none, fun _ => rfl, m.reply_path hn _⟩
    | cons w rest =>
      simp only [hw]
      have hmove := Move.drain (f := m.floor) (left.map (· - 1)) (ran + 1) hn hq hw hk
      exact ⟨_, fun u => rfl, hmove.path⟩

/-- Whether a venue takes work. -/
def accepts (v : Nat) : Bool := (m.venues[v]?.map (·.accepting)).getD false

/-- The work that joins the line of `v` when the machine takes over a turn. -/
def joined (v : Nat) (next : Next C.toSignature) : List C.Frame :=
  match next with
  | .perform c w _ => if c.place = .venue v ∧ m.accepts v then [w] else []
  | _ => []

theorem joining_told (u v : Nat) (w : C.Frame) :
    joining u (m.told v w) = if v = u ∧ m.accepts u then [w] else [] := by
  unfold told joining
  rw [show m.floor.accepts v = m.accepts v from rfl]
  by_cases h : v = u
  · subst h
    split <;> simp_all [Entry.joins]
  · split <;> simp [Entry.joins, h]

/-- The machine has heard what a turn has to tell, but does not go on yet. -/
def hear (t : Turn C.toSignature) : Machine C :=
  wakeAll { m with
    state := t.state
    journal := (t.notes.map fun n => Entry.note m.lane n).reverse ++ m.journal } t.wakes

/-- The machine goes on as a turn says. -/
def goOn : Next C.toSignature → Machine C
  | .reply r => m.reply r
  | .throw => { m with control := .thrown }
  | .enter k => (m.pushOwn k).reply .done
  | .script tag ops throws k => (m.pushOwn k).runScript tag ops throws
  | .perform c work k => (m.pushOwn k).handOver c work

theorem take_eq_goOn (t : Turn C.toSignature) : m.take t = (m.hear t).goOn t.next := by
  unfold take
  cases t.next <;> rfl

variable {m} in
theorem take_reply {t : Turn C.toSignature} {r : Reply C.Answer} (hn : t.next = .reply r) :
    m.take t = (m.hear t).reply r := by
  rw [take_eq_goOn, hn]
  rfl

variable {m} in
theorem take_perform {t : Turn C.toSignature} {c : Context} {w : C.Frame} {k : List C.Frame}
    (hn : t.next = .perform c w k) : m.take t = ((m.hear t).pushOwn k).handOver c w := by
  rw [take_eq_goOn, hn]
  rfl

variable {m} in
theorem take_enter {t : Turn C.toSignature} {k : List C.Frame} (hn : t.next = .enter k) :
    m.take t = ((m.hear t).pushOwn k).reply .done := by
  rw [take_eq_goOn, hn]
  rfl

/-- What a component tells and wakes is of no concern to the lines. -/
theorem floor_hear (t : Turn C.toSignature) : (m.hear t).floor = m.floor := by
  have hnotes : ((t.notes.map fun n => Entry.note m.lane n).reverse ++ m.journal).filter
      (·.isOfLine) = m.journal.filter (·.isOfLine) := by
    rw [List.filter_append, List.filter_eq_nil_iff.mpr, List.nil_append]
    simp [Entry.isOfLine]
  exact (floor_wakeAll _ _).trans (congrArg (fun j => { m.floor with journal := j }) hnotes)

theorem hear_state (t : Turn C.toSignature) : (m.hear t).state = t.state := by
  obtain ⟨ready, he, -⟩ := wakeAll_eq { m with
    state := t.state
    journal := (t.notes.map fun n => Entry.note m.lane n).reverse ++ m.journal } t.wakes
  exact congrArg Machine.state he

theorem hear_stack (t : Turn C.toSignature) : (m.hear t).stack = m.stack :=
  congrArg Floor.stack (m.floor_hear t)

theorem runScript_path (hn : Nested m.stack) (tag : C.Tag) (ops : List (Op C.Action))
    (throws : Bool) : m.floor.Path none (m.runScript tag ops throws).floor := by
  cases ops with
  | nil =>
    have h := (Move.push (f := m.floor) [] (!throws) hn (by simp)).path
    cases throws <;> exact h
  | cons op ops =>
    exact (Move.push (f := m.floor) [.script tag ops throws] false hn (by simp [Frame.isPlain])).path

theorem goOn_path (hn : Nested m.stack) (next : Next C.toSignature) :
    ∃ e, (∀ v, joining v e = m.joined v next) ∧ m.floor.Path e (m.goOn next).floor := by
  have hpush (k : List (Frame C)) (hk : ∀ g ∈ k, g.isPlain) (b : Bool) :
      m.floor.Path none { m.floor with stack := k ++ m.stack, replying := b } :=
    (Move.push (f := m.floor) k b hn hk).path
  have hown (k : List C.Frame) : ∀ g ∈ k.map Frame.own, (g : Frame C).isPlain := by
    simp [Frame.isPlain]
  cases next with
  | reply r => exact ⟨none, fun _ => rfl, hpush [] (by simp) true⟩
  | throw => exact ⟨none, fun _ => rfl, hpush [] (by simp) false⟩
  | enter k => exact ⟨none, fun _ => rfl, hpush _ (hown k) true⟩
  | script tag ops throws k =>
    exact ⟨none, fun _ => rfl, (hpush _ (hown k) _).trans
      ((m.pushOwn k).runScript_path (hn.of_plain (hown k)) tag ops throws)⟩
  | perform c w k =>
    have hplain (g : Frame C) (hg : g.isPlain) : ∀ g' ∈ g :: k.map Frame.own, g'.isPlain := by
      simpa [Frame.isPlain] using hg
    simp only [goOn, handOver]
    cases hc : c.place with
    | direct =>
      exact ⟨none, fun _ => by simp [joined, joining, hc], hpush (.own w :: k.map .own)
        (hplain _ rfl) true⟩
    | pool =>
      refine ⟨none, fun _ => by simp [joined, joining, hc],
        hpush (.own w :: .turn .pool :: k.map .own) ?_ true⟩
      simp [Frame.isPlain]
    | venue v =>
      refine ⟨(m.pushOwn k).told v w, fun u => ?_, ?_⟩
      · rw [joining_told, show (m.pushOwn k).accepts u = m.accepts u from rfl]
        simp [joined, hc]
      · exact (hpush _ (hown k) _).trans
          ((m.pushOwn k).enqueue_path (hn.of_plain (hown k)) v w .done)

theorem take_path (hn : Nested m.stack) (t : Turn C.toSignature) :
    ∃ e, (∀ v, joining v e = m.joined v t.next) ∧ m.floor.Path e (m.take t).floor := by
  have hfloor := m.floor_hear t
  have hn' : Nested (m.hear t).floor.stack := by rwa [hfloor]
  obtain ⟨e, he, hpath⟩ := (m.hear t).goOn_path hn' t.next
  rw [hfloor] at hpath
  have haccepts (v : Nat) : (m.hear t).accepts v = m.accepts v :=
    congrArg (Floor.accepts · v) hfloor
  refine ⟨e, fun v => (he v).trans ?_, m.take_eq_goOn t ▸ hpath⟩
  unfold joined
  rw [haccepts]

/-! ### Operations on contexts -/

theorem isServing_iff {v : Nat} : m.isServing v ↔ v ∈ servings m.stack := by
  unfold isServing servings
  rw [List.any_eq_true, List.mem_filterMap]
  refine exists_congr fun f => and_congr_right fun _ => ?_
  cases f <;> simp [Frame.serves?]

theorem kind?_of_venue? {id : String} {kind : VenueKind} {v : Nat} (h : m.venue? id kind = some v) :
    ∃ q, m.venues[v]? = some q ∧ q.kind = kind := by
  unfold venue? at h
  split at h
  · split at h
    · rename_i hk
      cases h
      exact Option.map_eq_some_iff.mp hk
    · cases h
  · cases h

/-- A venue is opened, which the reactor may be to serve. -/
theorem openVenue_path (hn : Nested m.stack) (id name : String) (kind : VenueKind)
    (r : Reply C.Answer) : m.floor.Path none ((m.openVenue id kind name).reply r).floor := by
  have hopen : m.floor.Move none (m.floor.opening { kind, name } m.floor.woken) :=
    .opened { kind, name } ⟨rfl, rfl, rfl⟩ (fun u hu => .inl hu) (fun u hu => hu)
  exact hopen.path.trans ((m.openVenue id kind name).reply_path hn r)

theorem make_path (hn : Nested m.stack) (id : String) (kind : ContextKind) :
    m.floor.Path none (m.make id kind).floor := by
  cases kind with
  | direct => exact m.reply_path hn .done
  | pool => exact m.reply_path hn .done
  | concurrent => exact m.openVenue_path hn id id .pool .done
  | manual => exact m.openVenue_path hn id id .manual .done
  | thread name => exact m.openVenue_path hn id name .thread .done
  | serial label =>
    obtain ⟨woken, hwake, -, hw, hw'⟩ :=
      (m.openVenue id .serial label).floor_wake_serve m.venues.length
    have hopen : m.floor.Move none
        (m.floor.opening { kind := .serial, name := label } woken) :=
      .opened { kind := .serial, name := label } ⟨rfl, rfl, rfl⟩
        (fun u hu => (hw u hu).imp_right fun h => ⟨h, rfl⟩) hw'
    have hreply := Move.push (f := m.floor.opening { kind := .serial, name := label } woken)
      [] true hn (by simp)
    simp only [make, floor_reply, hwake]
    exact hopen.path.snoc hreply
  | defaultThread =>
    simp only [make]
    split
    · exact m.reply_path hn .done
    · exact m.openVenue_path hn id "tether-runloop" .thread .done
  | copy of =>
    simp only [make]
    split
    · exact m.reply_path hn .done
    · split <;> split <;> exact m.reply_path hn .done

theorem widen_stack (v : Nat) : (m.widen v).stack = m.stack.map (·.widen v) := by
  unfold widen
  dsimp only
  refine List.map_congr_left fun f _ => ?_
  cases f <;> rfl

theorem widen_path (v : Nat) : m.floor.Path none (m.widen v).floor := by
  have h : (m.widen v).floor = { m.floor with stack := m.floor.stack.map (·.widen v) } := by
    unfold floor
    rw [widen_stack]
    rfl
  rw [h]
  exact (Move.widened v).path

/-- A thread is served that nobody serves. -/
theorem serveThread_path (hn : Nested m.stack) {v : Nat} (hv : m.floor.kind? v = some .thread)
    (hs : m.isServing v = false) (left : Option Nat) (after : Reply C.Answer) :
    ∃ e, (∀ u, joining u e = []) ∧ m.floor.Path e (m.serve v left after).floor := by
  obtain ⟨q, hq, hk⟩ := Option.map_eq_some_iff.mp hv
  refine m.serve_path hn hq (by simp [hk]) (fun hmem => ?_) left (fun _ => hk ▸ rfl) after
  simp [m.isServing_iff.mpr hmem] at hs

theorem forget_path (hn : Nested m.stack) (id : String) :
    ∃ e, (∀ u, joining u e = []) ∧ m.floor.Path e (m.forget id).floor := by
  unfold forget
  dsimp only
  split
  · exact ⟨none, fun _ => rfl, reply_path { m with names := _ } hn .done⟩
  · rename_i v hv
    obtain ⟨q, hq, hk⟩ := m.kind?_of_venue? hv
    split
    · exact ⟨none, fun _ => rfl, reply_path { m with names := _ } hn .done⟩
    · split
      · have hwiden := widen_path { m with names := m.names.filter (·.1 ≠ id) } v
        have hreply := reply_path (widen { m with names := m.names.filter (·.1 ≠ id) } v)
          (hn.widen v) .done
        exact ⟨none, fun _ => rfl, hwiden.trans hreply⟩
      · rename_i hs
        exact serveThread_path { m with names := m.names.filter (·.1 ≠ id) } hn
          (Option.map_eq_some_iff.mpr ⟨q, hq, hk⟩) (Bool.eq_false_iff.mpr hs) none .done

theorem flush_path (hn : Nested m.stack) (id : String) :
    ∃ e, (∀ u, joining u e = []) ∧ m.floor.Path e (m.runContext (.flush id)).floor := by
  have hreply (r : Reply C.Answer) :
      ∃ e, (∀ u, joining u e = []) ∧ m.floor.Path e (m.reply r).floor :=
    ⟨none, fun _ => rfl, m.reply_path hn r⟩
  simp only [runContext]
  split
  · exact hreply _
  · rename_i v hv
    obtain ⟨q, hq, hk⟩ := m.kind?_of_venue? hv
    split
    · exact hreply _
    · split
      · exact hreply _
      · split
        · exact hreply _
        · rename_i hs
          exact m.serveThread_path hn (Option.map_eq_some_iff.mpr ⟨q, hq, hk⟩)
            (Bool.eq_false_iff.mpr hs) _ _

theorem line_close (v : Nat) : (m.close v).floor.line = m.floor.line :=
  funext fun u => show (m.floor.shut v m.floor.woken).line u = m.floor.line u from Floor.line_shut

/-- A thread takes no more work. What waits for it is served by whoever takes its handle, or goes on by
itself. -/
theorem stop_path (hn : Nested m.stack) {v : Nat} {q : Venue C.Frame} (hq : m.venues[v]? = some q)
    (hk : q.kind = .thread) : ∃ e, (∀ u, joining u e = []) ∧ m.floor.Path e (m.stop v).floor := by
  have hhandle : m.hasHandle v = q.handle := by simp [hasHandle, hq]
  unfold stop
  dsimp only
  split
  · rename_i hno
    have hclose := Move.closed (f := m.floor) hq hk (fun u hu => .inl hu) (fun u hu => hu)
      fun h => by simp [hhandle, h] at hno
    exact ⟨none, fun _ => rfl, hclose.path.trans ((m.close v).reply_path hn _)⟩
  split
  · obtain ⟨woken, hwake, hv, hw, hw'⟩ := (m.close v).floor_wake_serve v
    have hclose : m.floor.Move none (m.floor.shut v woken) := .closed hq hk hw hw' fun _ _ => hv
    have hreply := Move.push (f := m.floor.shut v woken) [] true hn (by simp)
    rw [floor_reply, hwake]
    exact ⟨none, fun _ => rfl, hclose.path.snoc hreply⟩
  · rename_i hs
    have hq' : (m.close v).venues[v]? = some { q with accepting := false, handle := false } := by
      simp [close, hq]
    unfold serve next?
    simp only [reduceCtorEq, if_false, hq']
    cases hw : q.waiting with
    | nil =>
      have hclose := Move.closed (f := m.floor) hq hk (fun u hu => .inl hu) (fun u hu => hu)
        fun _ hne => absurd hw hne
      exact ⟨none, fun _ => rfl, hclose.path.trans ((m.close v).reply_path hn _)⟩
    | cons w rest =>
      -- In between the line counts as woken: it is served at once.
      have hclose : m.floor.Move none (m.floor.shut v (m.floor.woken ++ [v])) :=
        .closed hq hk (fun u hu => by simpa using hu) (fun u hu => List.mem_append_left _ hu)
          fun _ _ => by simp
      have hserved : v ∉ servings m.stack := fun hmem => hs (m.isServing_iff.mpr hmem)
      have hstart := @Move.start C (m.floor.shut v (m.floor.woken ++ [v])) v _ w rest m.floor.woken
        none .stopped hn hq' hw hserved (by simp [hk]) (by simp) (fun u hu => List.mem_append_left _ hu)
        fun u hu => (List.mem_append.mp hu).symm.imp_left List.eq_of_mem_singleton
      exact ⟨_, fun _ => rfl, hclose.path.snoc hstart⟩

theorem runContext_path (hn : Nested m.stack) (o : ContextOp) :
    ∃ e, (∀ u, joining u e = []) ∧ m.floor.Path e (m.runContext o).floor := by
  have hreply (r : Reply C.Answer) :
      ∃ e, (∀ u, joining u e = []) ∧ m.floor.Path e (m.reply r).floor :=
    ⟨none, fun _ => rfl, m.reply_path hn r⟩
  cases o with
  | make id kind => exact ⟨none, fun _ => rfl, m.make_path hn id kind⟩
  | drain id limit =>
    simp only [runContext]
    split
    · exact hreply _
    · rename_i v hv
      obtain ⟨q, hq, hk⟩ := m.kind?_of_venue? hv
      exact m.drain_path hn (Option.map_eq_some_iff.mpr ⟨q, hq, hk⟩) limit 0
  | flush id => exact m.flush_path hn id
  | stop id =>
    simp only [runContext]
    split
    · exact hreply _
    · rename_i v hv
      obtain ⟨q, hq, hk⟩ := m.kind?_of_venue? hv
      exact m.stop_path hn hq hk
  | forget id => exact m.forget_path hn id
  | discipline id =>
    simp only [runContext]
    split <;> exact hreply _
  | same a b =>
    simp only [runContext]
    split <;> exact hreply _
  | inspect id =>
    simp only [runContext]
    split
    · exact hreply _
    · split
      · split <;> exact hreply _
      · exact hreply _

/-! ### Steps -/

/-- The turn that the component takes in the next step, if it takes one. -/
def turn? : Option (Turn C.toSignature) := m.moment?.bind (·.turn?)

/-- The work that joins the line of a venue in the next step. -/
def joins (v : Nat) : List C.Frame :=
  match m.turn? with
  | some t => m.joined v t.next
  | none => []

variable {m} {m' : Machine C}

/-- What a step does to the lines: a path, in which work joins a line only if it is performed. -/
def Paces (m m' : Machine C) : Prop :=
  ∃ e, (∀ v, joining v e = m.joins v) ∧ m.floor.Path e m'.floor

theorem Paces.accepted_eq (h : m.Paces m') (v : Nat) :
    accepted v m'.journal = accepted v m.journal ++ m.joins v := by
  obtain ⟨e, he, p⟩ := h
  have := p.accepted_eq v
  rwa [he, show m'.floor.journal = m'.journal.filter (·.isOfLine) from rfl, accepted_filter,
    show m.floor.journal = m.journal.filter (·.isOfLine) from rfl, accepted_filter] at this

theorem Paces.begun_grows (h : m.Paces m') (v : Nat) :
    begun v m.journal <+: begun v m'.journal := by
  obtain ⟨e, -, p⟩ := h
  refine ⟨(e.bind (·.begins v)).toList, ?_⟩
  simpa [floor] using (p.begun_eq v).symm

theorem joins_of_cause {cause : Cause C} {t : Turn C.toSignature} (hc : m.cause? = some cause)
    (ht : (Moment.mk m.state cause).turn? = some t) (v : Nat) : m.joins v = m.joined v t.next := by
  simp [joins, turn?, moment?, hc, ht]

theorem joins_of_no_turn (h : m.turn? = none) (v : Nat) : m.joins v = [] := by
  simp [joins, h]

theorem turn?_of_no_cause (h : m.cause? = none) : m.turn? = none := by
  simp [turn?, moment?, h]

theorem turn?_back {r : Reply C.Answer} {g : C.Frame} {k : List (Frame C)}
    (hc : m.control = .back r) (hs : m.stack = .own g :: k) :
    m.turn? = some (C.resume m.state g) := by
  simp [turn?, moment?, cause?_back hc hs, Moment.turn?]

theorem turn?_thrown (hc : m.control = .thrown) {f : Frame C} {k : List (Frame C)}
    (hs : m.stack = f :: k) : m.turn? = none := by
  unfold turn? moment?
  rw [cause?_thrown hc hs]
  cases f <;> rfl

/-- A reply reaches the uppermost frame. -/
theorem returnTo_paces (h : m.floor.Orderly) {r : Reply C.Answer} {f : Frame C} {k : List (Frame C)}
    (hc : m.control = .back r) (hs : m.stack = f :: k) :
    m.Paces (({ m with stack := k } : Machine C).returnTo r f) := by
  have hcause := cause?_back hc hs
  have hpop (hf : f.isOfLine = false) : Nested k ∧
      m.floor.Path none ({ m with stack := k } : Machine C).floor :=
    ⟨h.nested_of_other hs hf, (Move.pop (f := m.floor) _ hs hf).path⟩
  have hquiet (hno : ∀ g, f ≠ .own g) (v : Nat) : m.joins v = [] := by
    refine joins_of_no_turn (turn?_of_no_cause (hcause.trans ?_)) v
    cases f with
    | own g => exact absurd rfl (hno g)
    | _ => rfl
  cases f with
  | own g =>
    obtain ⟨hn, hpath⟩ := hpop rfl
    obtain ⟨e, he, htake⟩ := ({ m with stack := k } : Machine C).take_path hn (C.resume m.state g)
    exact ⟨e, fun v => (he v).trans (joins_of_cause hcause rfl v).symm, hpath.trans htake⟩
  | script tag rest throws =>
    obtain ⟨hn, hpath⟩ := hpop rfl
    refine ⟨none, fun v => (hquiet (by simp) v).symm, hpath.trans ?_⟩
    exact runScript_path (record { m with stack := k } (.answered _ tag r)) hn tag rest throws
  | task =>
    obtain ⟨hn, hpath⟩ := hpop rfl
    exact ⟨none, fun v => (hquiet (by simp) v).symm,
      hpath.trans (reply_path { m with stack := k } hn .done)⟩
  | drain v left ran =>
    obtain ⟨hn, hpath⟩ := hpop rfl
    have hv : m.floor.kind? v = some .manual := h.drains v left ran (by simp [floor, hs])
    obtain ⟨e, he, hdrain⟩ := drain_path { m with stack := k } hn hv left ran
    exact ⟨e, fun u => (he u).trans (hquiet (by simp) u).symm, hpath.trans hdrain⟩
  | serve v left after =>
    obtain ⟨e, he, hserve⟩ := m.serveNext_path hs
    exact ⟨e, fun u => (he u).trans (hquiet (by simp) u).symm, hserve⟩
  | turn site =>
    cases site with
    | pool =>
      obtain ⟨hn, hpath⟩ := hpop rfl
      exact ⟨none, fun v => (hquiet (by simp) v).symm,
        hpath.trans (reply_path { m with stack := k } hn .done)⟩
    | venue v =>
      exact ⟨some (.ended (.venue v)), fun u => (hquiet (by simp) u).symm, (Move.ended hs).path⟩

/-- A throw reaches the uppermost frame, which is not that of someone who serves a line. -/
theorem unwind_paces (h : m.floor.Orderly) {f : Frame C} {k : List (Frame C)}
    (hc : m.control = .thrown) (hs : m.stack = f :: k) :
    m.Paces (({ m with stack := k } : Machine C).unwind f) := by
  have hquiet (v : Nat) : m.joins v = [] := joins_of_no_turn (turn?_thrown hc hs) v
  have hpop (hf : f.isOfLine = false) : Nested k ∧
      m.floor.Path none ({ m with stack := k } : Machine C).floor :=
    ⟨h.nested_of_other hs hf, (Move.pop (f := m.floor) _ hs hf).path⟩
  cases f with
  | own g =>
    obtain ⟨hn, hpath⟩ := hpop rfl
    refine ⟨none, fun v => (hquiet v).symm, ?_⟩
    rw [show ({ m with stack := k } : Machine C).unwind (.own g) = discard { m with stack := k } g
      from rfl, floor_discard]
    exact hpath
  | script | drain => exact ⟨none, fun v => (hquiet v).symm, (hpop rfl).2⟩
  | task =>
    obtain ⟨hn, hpath⟩ := hpop rfl
    exact ⟨none, fun v => (hquiet v).symm, hpath.trans (reply_path { m with stack := k } hn .done)⟩
  | serve v left after =>
    -- Whoever serves a line is uppermost only when a reply is on its way to him.
    rcases h.nested with hn | ⟨hr, -⟩
    · rw [show m.floor.stack = _ from hs] at hn
      exact absurd hn Nested.not_serve
    · simp [floor, hc] at hr
  | turn site =>
    cases site with
    | pool =>
      obtain ⟨hn, hpath⟩ := hpop rfl
      exact ⟨none, fun v => (hquiet v).symm,
        hpath.trans (reply_path { m with stack := k } hn .done)⟩
    | venue v => exact ⟨some (.ended (.venue v)), fun u => (hquiet u).symm, (Move.ended hs).path⟩

theorem nested_of_run (h : m.floor.Orderly) {op : Op C.Action} (hc : m.control = .run op) :
    Nested m.stack := by
  rcases h.nested with hn | ⟨hr, -⟩
  · exact hn
  · simp [floor, hc] at hr

theorem step?_paces (h : m.floor.Orderly) (hm : m.step? = some m') : m.Paces m' := by
  unfold step? at hm
  split at hm
  · rename_i a hc
    cases hm
    obtain ⟨e, he, hpath⟩ := m.take_path (nested_of_run h hc) (C.exec m.view m.state a)
    exact ⟨e, fun v => (he v).trans (joins_of_cause (cause?_own hc) rfl v).symm, hpath⟩
  · rename_i o hc
    cases hm
    obtain ⟨e, he, hpath⟩ := m.runContext_path (nested_of_run h hc) o
    refine ⟨e, fun v => (he v).trans (joins_of_no_turn ?_ v).symm, hpath⟩
    exact turn?_of_no_cause (cause?_context hc)
  · rename_i r hc
    split at hm
    · cases hm
    · rename_i f k hs
      cases hm
      exact returnTo_paces h hc hs
  · rename_i hc
    split at hm
    · cases hm
    · rename_i f k hs
      cases hm
      exact unwind_paces h hc hs

/-- The reactor takes up a task of the component. -/
theorem poll?_paces_own {t : C.Task} {rest : List (Task C)} (hs : m.stack = [])
    (hr : m.ready = .own t :: rest) (hcause : m.cause? = some (.poll t)) : m.Paces
      (({ m with ready := rest, stack := [.task], control := .back .done } : Machine C).take
        (C.poll m.state t)) := by
  have htask : Nested [(.task : Frame C)] := .other rfl .nil
  have hpush : m.floor.Path none
      ({ m with ready := rest, stack := [.task], control := .back .done } : Machine C).floor := by
    have hmove := Move.push (f := m.floor) [.task] true
      (show Nested m.stack from hs ▸ .nil) (by simp [Frame.isPlain])
    simpa [floor, hs, lines, hr] using hmove.path
  obtain ⟨e, he, hpath⟩ := take_path
    { m with ready := rest, stack := [.task], control := .back .done } htask (C.poll m.state t)
  exact ⟨e, fun v => (he v).trans (joins_of_cause hcause rfl v).symm, hpush.trans hpath⟩

/-- The reactor takes up a line. -/
theorem poll?_paces_serve (h : m.floor.Orderly) {v : Nat} {rest : List (Task C)}
    (hs : m.stack = []) (hr : m.ready = .serve v :: rest) (hcause : m.cause? = none) : m.Paces
      (({ m with ready := rest, stack := [.task], control := .back .done } : Machine C).serve
        v none .done) := by
  have hwoken : m.floor.woken = v :: lines rest := by simp [floor, hr, lines]
  have hgoes : m.floor.goesOn v = true := h.woken v (hwoken ▸ List.mem_cons_self)
  obtain ⟨q, hq⟩ : ∃ q, m.venues[v]? = some q :=
    ⟨_, List.getElem?_eq_getElem (Floor.lt_of_goesOn hgoes)⟩
  have hmanual : q.kind ≠ .manual :=
    (h.sound v q hq).not_manual ((Floor.goesOn_of (f := m.floor) hq).symm.trans hgoes)
  have hquiet (u : Nat) : m.joins u = [] := joins_of_no_turn (turn?_of_no_cause hcause) u
  -- The frame of the reactor comes first, and above it the line is served.
  have hpush := Move.push (f := m.floor) [.task] true (show Nested m.stack from hs ▸ .nil)
    (by simp [Frame.isPlain])
  have hless : ∀ u ∈ lines rest, u ∈ m.floor.woken := fun u hu =>
    hwoken ▸ List.mem_cons_of_mem v hu
  have hmore : ∀ u ∈ m.floor.woken, u = v ∨ u ∈ lines rest := fun u hu => by
    simpa [hwoken] using hu
  unfold serve next?
  simp only [show m.venues[v]? = some q from hq]
  cases hw : q.waiting with
  | nil =>
    have hpass := Move.passed
      (f := { m.floor with stack := [.task] ++ m.floor.stack, replying := true })
      (v := v) (by simp [Floor.line, show m.floor.venues[v]? = some q from hq, hw]) hless hmore
    refine ⟨none, fun u => (hquiet u).symm, ?_⟩
    simpa [floor, hs, hw, reply] using hpush.path.snoc hpass
  | cons w waiting =>
    have hstart := Move.start
      (f := { m.floor with stack := [.task] ++ m.floor.stack, replying := true })
      none .done (.other rfl (show Nested m.stack from hs ▸ .nil)) hq hw
      (by simp [floor, hs, servings, Frame.serves?]) hmanual (by simp) hless hmore
    refine ⟨some (.began v w), fun u => (hquiet u).symm, ?_⟩
    simpa [floor, hs, hw, Floor.begin, Entry.isOfLine] using hpush.path.snoc hstart

/-- The reactor turns to a task. -/
theorem poll?_paces (h : m.floor.Orderly) (hstep : m.step? = none) (hm : m.poll? = some m') :
    m.Paces m' := by
  have hs := stack_of_step? hstep
  unfold poll? at hm
  split at hm
  · cases hm
  · rename_i t rest hr
    have hcause := cause?_stopped hstep hr
    cases t with
    | own t =>
      cases hm
      exact poll?_paces_own hs hr hcause
    | serve v =>
      cases hm
      exact poll?_paces_serve h hs hr hcause

/-- A thread or the pool takes up work by itself. -/
theorem proceed_path (hstep : m.step? = none) {v : Nat} {q : Venue C.Frame}
    (hq : m.venues[v]? = some q) (hk : q.kind.isParallel = true) (n : Nat) :
    ∃ e, (∀ u, joining u e = []) ∧ m.floor.Path e (m.proceed v n).floor := by
  have hs := stack_of_step? hstep
  have hback := Move.push (f := m.floor) [] true (show Nested m.stack from hs ▸ .nil) nofun
  obtain ⟨e, he, hserve⟩ := serve_path { m with stack := [], control := .back .done } .nil hq
    (by rintro hm; simp [hm, VenueKind.isParallel] at hk) nofun (some n) (fun _ => hk) .done
  refine ⟨e, he, Floor.Path.trans ?_ hserve⟩
  simpa [floor, hs] using hback.path

theorem advance?_paces (h : m.floor.Orderly) (hm : m.advance? = some m') : m.Paces m' := by
  unfold advance? at hm
  split at hm
  · rename_i hstep
    cases hm
    exact step?_paces h hstep
  · rename_i hstep
    exact poll?_paces h hstep hm

theorem orderly_advance (h : m.floor.Orderly) (hm : m.advance? = some m') : m'.floor.Orderly := by
  obtain ⟨e, -, hpath⟩ := advance?_paces h hm
  exact h.path hpath

/-- A step of what is running takes over the turn of the component. -/
theorem step?_take {t : Turn C.toSignature} (ht : m.turn? = some t) (hm : m.step? = some m') :
    ∃ m₁ : Machine C, m₁.venues = m.venues ∧ m' = m₁.take t := by
  unfold step? at hm
  split at hm
  · rename_i a hc
    cases hm
    obtain rfl : C.exec m.view m.state a = t := by
      simpa [turn?, moment?, cause?_own hc, Moment.turn?] using ht
    exact ⟨m, rfl, rfl⟩
  · rename_i o hc
    rw [turn?_of_no_cause (cause?_context hc)] at ht
    cases ht
  · rename_i r hc
    split at hm
    · cases hm
    · rename_i f k hs
      cases hm
      have hcause := cause?_back hc hs
      cases f with
      | own g =>
        obtain rfl := Option.some.inj ((turn?_back hc hs).symm.trans ht)
        exact ⟨{ m with stack := k }, rfl, rfl⟩
      | _ =>
        rw [turn?_of_no_cause hcause] at ht
        cases ht
  · rename_i hc
    split at hm
    · cases hm
    · rename_i f k hs
      rw [turn?_thrown hc hs] at ht
      cases ht

/-- So does the reactor. -/
theorem poll?_take {t : Turn C.toSignature} (ht : m.turn? = some t) (hstep : m.step? = none)
    (hm : m.poll? = some m') : ∃ m₁ : Machine C, m₁.venues = m.venues ∧ m' = m₁.take t := by
  unfold poll? at hm
  split at hm
  · cases hm
  · rename_i u rest hr
    have hcause := cause?_stopped hstep hr
    cases u with
    | serve v =>
      rw [turn?_of_no_cause hcause] at ht
      cases ht
    | own u =>
      cases hm
      obtain rfl : C.poll m.state u = t := by
        simpa [turn?, moment?, hcause, Moment.turn?] using ht
      exact ⟨{ m with ready := rest, stack := [.task], control := .back .done }, rfl, rfl⟩

/-- The machine takes over the turn that the component takes. -/
theorem take_of_turn? {t : Turn C.toSignature} (ht : m.turn? = some t)
    (hm : m.advance? = some m') : ∃ m₁ : Machine C, m₁.venues = m.venues ∧ m' = m₁.take t := by
  unfold advance? at hm
  split at hm
  · rename_i hstep
    cases hm
    exact step?_take ht hstep
  · rename_i hstep
    exact poll?_take ht hstep hm

/-- There is a venue that has stopped taking work. -/
def HasStopped (m : Machine C) (v : Nat) : Prop := ∃ q, m.venues[v]? = some q ∧ q.accepting = false

theorem hasStopped_iff {v : Nat} :
    m.HasStopped v ↔ (∃ kind, m.floor.kind? v = some kind) ∧ m.floor.accepts v = false := by
  unfold HasStopped Floor.kind? Floor.accepts
  show _ ↔ (∃ kind, m.venues[v]?.map _ = some kind) ∧ (m.venues[v]?.map _).getD false = false
  cases m.venues[v]? <;> simp

/-- A venue that has stopped does not start again. -/
theorem HasStopped.path {v : Nat} (h : m.HasStopped v) {e : Option (Entry C)}
    (p : m.floor.Path e m'.floor) : m'.HasStopped v := by
  obtain ⟨⟨kind, hkind⟩, ha⟩ := hasStopped_iff.mp h
  exact hasStopped_iff.mpr ⟨⟨kind, p.kind? hkind⟩, p.closed_stays hkind ha⟩

theorem HasStopped.advance {v : Nat} (h : m.HasStopped v) (ho : m.floor.Orderly)
    (hm : m.advance? = some m') : m'.HasStopped v := by
  obtain ⟨e, -, p⟩ := advance?_paces ho hm
  exact h.path p

/-- Work is dropped only at a venue that has stopped. -/
theorem enqueue_state (v : Nat) (w : C.Frame) : (m.enqueue v w).state = m.state ∨
    m.HasStopped v ∧ (m.enqueue v w).state = (C.unwind m.state w).1 := by
  unfold enqueue
  split
  · exact .inl rfl
  · rename_i q hq
    split
    · rename_i ha
      exact .inr ⟨⟨q, hq, by simpa using ha⟩, congrArg Config.state (m.bare_discard w)⟩
    · refine .inl ?_
      dsimp only
      split
      · exact congrArg Config.state (bare_wake_serve _ v)
      · rfl

/-- After a step the state is what the component has made of it, unless it has given work to a venue
that has stopped. -/
theorem advance?_state {q : Moment C} (hq : m.moment? = some q) (hm : m.advance? = some m') :
    m'.state = q.after ∨ ∃ t d w k v, q.turn? = some t ∧ t.next = .perform d w k ∧
      d.place = .venue v ∧ m.HasStopped v ∧ m'.state = (C.unwind q.after w).1 := by
  obtain ⟨cause, hcause, rfl⟩ := Option.map_eq_some_iff.mp hq
  have hstep := advance?_config hm
  rw [hcause] at hstep
  have hcases := hstep.state_cases
  rw [config_state, config_state] at hcases
  obtain hstate | ⟨t, d, w, k, v, ht, hn, hd, hstate⟩ := hcases
  · exact .inl hstate
  · have hturn : m.turn? = some t := by simp [turn?, hq, ht]
    obtain ⟨m₁, hvenues, rfl⟩ := take_of_turn? hturn hm
    have hsame : (m₁.hear t).venues = m.venues := (congrArg Floor.venues (m₁.floor_hear t)).trans hvenues
    -- Configurations do not tell which venues have stopped; the machine does.
    rcases ((m₁.hear t).pushOwn k).enqueue_state v w with hkept | ⟨hstopped, -⟩
    · refine .inl ?_
      rw [take_perform hn, handOver, hd, Moment.after_of_turn? ht]
      exact hkept.trans (m₁.hear_state t)
    · have hstopped : m.HasStopped v := by
        obtain ⟨q, hq, ha⟩ := hstopped
        exact ⟨q, hsame ▸ hq, ha⟩
      exact .inr ⟨t, d, w, k, v, ht, hn, hd, hstopped, hstate⟩

/-- The lines do not notice that time passes. -/
theorem floor_strike (m : Machine C) : m.strike.floor = m.floor := floor_wakeAll _ _

theorem strike_state (m : Machine C) : m.strike.state = (Moment.mk m.state .tick).after := by
  obtain ⟨ready, he, -⟩ := wakeAll_eq { m with state := (C.tick m.state).1 } (C.tick m.state).2
  exact congrArg Machine.state he

/-- A machine in which nothing has happened. -/
def fresh (s : C.State) : Machine C := { state := s }

theorem fresh_orderly (s : C.State) : (fresh s).floor.Orderly where
  lines _ := rfl
  nested := .inl .nil
  alone := .nil
  servers _ _ _ h := nomatch h
  drains _ _ _ h := nomatch h
  sound _ _ h := nomatch h
  woken _ h := nomatch h
  prompt _ h := nomatch h
  turns _ _ h := nomatch h
  unborn _ _ := ⟨rfl, rfl⟩

end Machine

/-- An operation is called while nothing runs. -/
theorem Machine.orderly_request {m : Machine C} (h : m.floor.Orderly) (hm : m.step? = none)
    (op : Op C.Action) : (m.request op).floor.Orderly := by
  have hs := Machine.stack_of_step? hm
  have hfloor : (m.request op).floor = { m.floor with stack := [], replying := false } := rfl
  rw [hfloor]
  exact h.restack (b := false) .nil (by simp [Machine.floor, hs]) (by simp [Machine.floor, hs])
    nofun (by simp [Machine.floor, hs]) nofun

/-- In which order the venues are to be served does not matter to the lines. -/
theorem Floor.Orderly.reordered {f : Floor C} (h : f.Orderly) {woken : List Nat}
    (hw : woken.Perm f.woken) : Orderly { f with woken } where
  lines := h.lines
  nested := h.nested
  alone := h.alone
  servers := h.servers
  drains := h.drains
  sound := h.sound
  woken v hv := h.woken v (hw.mem_iff.mp hv)
  prompt v hv hline := (h.prompt v hv hline).imp_left hw.mem_iff.mpr
  turns := h.turns
  unborn := h.unborn

/-- The lines of a machine are in order after every run, in whatever order the reactor serves. -/
theorem RunBy.orderly {free : Bool} {m₀ m : Machine C} {past : List (Moment C)}
    (h : RunBy free m₀ past m) (h₀ : m₀.floor.Orderly) : m.floor.Orderly := by
  induction h with
  | start => exact h₀
  | advance _ hm ih => exact Machine.orderly_advance ih hm
  | request _ hm op ih => exact Machine.orderly_request ih hm op
  | strike _ hm ih => exact (Machine.floor_strike _).symm ▸ ih
  | proceed _ hm hq hk _ ih =>
    obtain ⟨e, -, hpath⟩ := Machine.proceed_path hm hq hk _
    exact ih.path hpath
  | reorder _ _ _ hr ih => exact ih.reordered (hr.filterMap _)

end Conduit.Dispatch
