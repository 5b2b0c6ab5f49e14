import Conduit.Proofs.Pipe.Ends
import Conduit.Proofs.Pipe.Place

/-!
Every move of a desk keeps it sound. A turn of a request is taken case by case, as `Served` lists
them; all other moves leave the requests where they are or add one that has been woken.
-/

namespace Conduit.Pipe

open Dispatch

theorem Leads.current {r : Nat} {k : Option Nat} {adv : Advance} {current : Option (Nat × Bool)}
    {now : Bool} {ds : List Deed} (h : Leads r k adv current now ds) (s : Nat) (b : Bool)
    (hs : s ≠ r) : current ≠ some (s, b) := by
  cases h <;> simp [hs.symm]

/-- A step makes no request one that has been woken for the first time. -/
theorem Served.fresh {r : Nat} {q q' : Request} {port port' : Port} {us : List Use}
    {wakes : List Nat} {adv : Advance} (h : Served r q port us q' port' wakes adv)
    (hf : q'.phase = .fresh) : q.phase = .fresh := by
  cases h <;> simp_all

/-- A request that has its answer goes on or reports. -/
theorem Works.goes_on {chunk p : Nat} {job job' : Job} {u : Use} {adv : Advance}
    (h : Works chunk p job u job' adv) : adv ≠ .idle ∧ adv ≠ .crash := by
  cases h <;> simp

theorem want_le (chunk n d k : Nat) : Hub.want chunk n (d + k) ≤ Hub.want chunk n d := by
  unfold Hub.want
  split
  · exact Nat.le_refl _
  · omega

/-- What is left of a read needs no larger buffer. -/
theorem Works.fits {chunk p : Nat} {job job' : Job} {u : Use} {adv : Advance}
    (h : Works chunk p job u job' adv) (hv : Hub.overflows chunk job = false) :
    Hub.overflows chunk job' = false := by
  cases h with
  | @chunk n d data =>
    have := want_le chunk n d data.length
    simp only [Hub.overflows, decide_eq_false_iff_not] at hv ⊢
    omega
  | _ => exact hv

theorem Waits.ne_release {chunk p : Nat} {job : Job} {u : Use} {again : Bool}
    (h : Waits chunk p job u again) : job ≠ .release := by
  cases h <;> simp

namespace Desk

variable {d d' : Desk} {r s : Nat} {q q' : Request} {port port' : Port} {rest : List Nat}

theorem Serves.current (hs : d.Serves r rest) (s : Nat) (b : Bool) (h : s ≠ r) :
    d.current ≠ some (s, b) := by
  cases hs with
  | poll hc => simp [hc]
  | resume hc =>
    rw [hc]
    intro h'
    cases h'
    exact h rfl

theorem Serves.ready (hs : d.Serves r rest) (s : Nat) (h : s ≠ r) (hr : s ∈ d.ready) : s ∈ rest := by
  cases hs with
  | poll _ h' =>
    rw [h'] at hr
    exact (List.mem_cons.mp hr).resolve_left h
  | resume => exact hr

/-- A turn of a request keeps the desk sound. -/
theorem Sound.serve (hd : d.Sound) (hs : d.Serves r rest) (hq : d.hub.requests[r]? = some q)
    (hp : d.hub.ports[q.port]? = some port) {us : List Use} {wakes : List Nat} {adv : Advance}
    (hv : Served r q port us q' port' wakes adv) {current : Option (Nat × Bool)} {now : Bool}
    {ds : List Deed} (hl : Leads r q.receiver adv current now ds) :
    Sound { d with hub := d.hub.put r q' port', current, now, ready := woken rest wakes } := by
  obtain ⟨port₀, hp₀, hplace, hcl⟩ := hd.place r q hq
  obtain rfl : port₀ = port := by simpa [hp] using hp₀.symm
  have hk := hd.port q.port port₀ hp
  have step (hsp : port₀.Spares r wakes port') (htidy : port'.Tidy)
      (hrel : port'.released = true → port'.closed = true)
      (hwatch : r ∈ port'.watchers → q'.phase ≠ .fresh)
      (hplace : Place { d with hub := d.hub.put r q' port', current, now, ready := woken rest wakes }
        r q' port') :
      Sound { d with hub := d.hub.put r q' port', current, now, ready := woken rest wakes } :=
    hd.local hq hp hv.port_eq rfl hs.current hl.current
      (fun s hsr hr => mem_woken.mpr (.inl (hs.ready s hsr hr)))
      (fun x hx => mem_woken.mpr (.inr hx)) hsp htidy hrel hwatch hv.fresh hv.release_iff hplace
  have hself : r ∈ port₀.watchers → q.phase ≠ .fresh := by
    intro hw
    obtain ⟨q₁, hq₁, hf⟩ := hk.watch r hw
    obtain rfl : q = q₁ := by simpa [hq] using hq₁
    exact hf
  cases hv with
  | refused hph hj hc =>
    cases hl
    refine step (.refl ..) hk.tidy hk.released hself ?_
    cases hplace with
    | fresh _ hn => exact .closing (.inl ⟨hph, hn⟩) rfl hj hc
    | closing _ hcur => cases hs <;> simp_all
    | _ => simp_all
  | taken hph hj he =>
    cases hl
    have hline : port₀.line = [] := (List.append_eq_nil_iff.mp he).2
    have htidy : Port.Tidy { port₀ with holder := some r } :=
      ⟨by simp [Port.queue, hline], by simp⟩
    refine step (Port.spares_taken he) htidy hk.released (by simp) ?_
    refine .active rfl rfl rfl (fun _ => ⟨rfl, rfl⟩) fun _ hn => ?_
    rcases hj with hj | hj
    · simp [hj, Hub.overflows]
    · simp [hj] at hn
  | lined hph hj he =>
    cases hl
    have hn : r ∉ port₀.queue := by
      cases hplace with
      | fresh _ hn => exact hn
      | closing _ hcur => cases hs <;> simp_all
      | _ => simp_all
    refine step (Port.spares_joined ..) (Port.tidy_joined hk.tidy hn he _) ?_ (by simp) ?_
    · unfold Port.joined
      split <;> exact hk.released
    · refine .lined rfl (by simp [Port.queue_joined]) (by simp) (fun hj' => ?_) fun h => ?_
      · obtain hj := hj.resolve_left hj'
        have hw : port₀.joined r (q.job = .release) =
            { port₀ with line := port₀.line ++ [r] }.watched r := by
          simp [Port.joined, show q.job ≠ .release from hj']
        rw [hw]
        exact ⟨fun _ => by simp [Port.watched], fun h => absurd (hj.symm.trans h) (by simp)⟩
      · rw [Port.holder_joined] at h
        exact absurd (by simp [Port.queue, h]) hn
  | dismissed hph hj hc =>
    cases hl
    refine step (hk.tidy.spares_quit r) (Port.tidy_quit hk.tidy r) ?_ (by simp [hph]) ?_
    · rw [Port.quit_released, Port.quit_closed]
      exact hk.released
    · exact .closing (.inr (.inl ⟨hph, Port.not_mem_quit hk.tidy r⟩)) rfl hj
        ((Port.quit_closed ..).trans hc)
  | granted hph hj hh =>
    cases hl
    refine step (hk.tidy.spares_without hh) (Port.tidy_without hk.tidy hh) hk.released (by simp) ?_
    refine .active rfl hh rfl (fun _ => ⟨rfl, rfl⟩) fun _ hn => ?_
    rcases hj with hj | hj
    · simp [hj, Hub.overflows]
    · simp [Port.without, hj] at hn
  | stays hph hj hh =>
    cases hl
    refine step (.refl ..) hk.tidy hk.released hself ?_
    cases hplace with
    | lined _ hn hc ha =>
      refine .lined hph hn (by simp) (fun hj' => ?_) fun h => absurd h hh
      obtain hj := hj.resolve_left hj'
      exact ⟨(ha hj').1, by simp [hj]⟩
    | closing _ hcur => cases hs <;> simp_all
    | _ => simp_all
  | released hph hj =>
    cases hl
    have ht : Port.Tidy { port₀ with released := true } := ⟨hk.tidy.nodup, hk.tidy.free⟩
    have hsp := ht.spares_quit r
    refine step ⟨hsp.chunk, hsp.closed, fun _ => hsp.released rfl, hsp.queue, hsp.holder, hsp.held,
      hsp.watch⟩ (Port.tidy_quit ht r) ?_ (by simp) ?_
    · rw [Port.quit_closed]
      exact fun _ => hcl hj
    · exact .finished rfl (Port.not_mem_quit ht r) (by simp) fun _ => Port.quit_released ..
  | ended hph hj hc =>
    cases hl
    refine step (.refl ..) hk.tidy hk.released hself ?_
    cases hplace with
    | waiting hp hh =>
      refine .closing (.inr (.inr ⟨hp, hh⟩)) rfl hj ?_
      rcases hc with hr | hc
      · exact hk.released hr
      · exact hc
    | active hp hh => exact .active hp hh rfl (fun h => absurd h hj) (by simp)
    | closing _ hcur => cases hs <;> simp_all
    | _ => simp_all
  | crashed hph hj hr hv => 
    cases hl
    refine step (.refl ..) hk.tidy hk.released hself ?_
    cases hplace with
    | active hp hh => exact .active hp hh rfl (fun h => absurd h hj) (by simp)
    | closing _ hcur => cases hs <;> simp_all
    | _ => simp_all
  | @waits w u again hph hc hr hv hu =>
    cases hl
    cases w with
    | true =>
      refine step (.refl ..) hk.tidy hk.released (by simp) ?_
      cases hplace with
      | waiting _ hh _ hj ha hv =>
        refine .waiting rfl hh (by simp) hj (fun hj' => ?_) hv
        exact ⟨(ha hj').1, fun h => absurd (hc.symm.trans h) (by simp)⟩
      | closing _ hcur => cases hs <;> simp_all
      | _ => simp_all
    | false =>
      refine step (Port.spares_watched ..) ⟨hk.tidy.nodup, hk.tidy.free⟩ hk.released (by simp) ?_
      cases hplace with
      | active _ hh =>
        refine .waiting rfl hh (by simp) hu.ne_release (fun _ => ?_) (hv.resolve_left (by simp))
        exact ⟨fun _ => by simp [Port.watched], fun h => absurd (hc.symm.trans h) (by simp)⟩
      | closing _ hcur => cases hs <;> simp_all
      | _ => simp_all
  | @works w u job adv hph hc hr hv hu =>
    have hh : port₀.holder = some r ∧ Hub.overflows port₀.chunk q.job = false := by
      cases hplace with
      | waiting _ hh _ _ _ hv => exact ⟨hh, hv⟩
      | active hp hh =>
        cases hp.symm.trans hph
        exact ⟨hh, hv.resolve_left (by simp)⟩
      | closing _ hcur => cases hs <;> simp_all
      | _ => simp_all
    refine step ?_ (Port.tidy_without hk.tidy hh.1) hk.released (by simp) ?_
    · exact hk.tidy.spares_without hh.1
    · have hplace (b : Bool) (hc : current = some (r, b)) :
          Place { d with
            hub := d.hub.put r { q with phase := .holding false, job } (port₀.without r)
            current, now, ready := woken rest [] }
            r { q with phase := .holding false, job } (port₀.without r) :=
        .active rfl hh.1 hc (fun h => absurd h hu.ne_release.2) fun _ _ => hu.fits hh.2
      cases hl with
      | again => exact hplace _ rfl
      | report => exact hplace _ rfl
      | idle => exact absurd rfl hu.goes_on.1
      | crash => exact absurd rfl hu.goes_on.2

/-- The end of a request that has its turn. -/
theorem Sound.finish (hd : d.Sound) {b : Bool} (hc : d.current = some (r, b))
    (hb : b = true ∨ d.now = false) :
    Sound { d with
      hub := (d.hub.finish r).1
      current := none
      now := false
      ready := woken d.ready (d.hub.finish r).2 } := by
  obtain ⟨q, hq⟩ : ∃ q, d.hub.requests[r]? = some q :=
    ⟨_, List.getElem?_eq_getElem (hd.current r b hc)⟩
  obtain ⟨port, hp, hplace, hcl⟩ := hd.place r q hq
  have hk := hd.port q.port port hp
  have hfinish := Hub.finish_eq hq hp
  have hjob : q.job ≠ .release := by
    cases hplace with
    | active _ _ hc' hj =>
      intro h
      obtain ⟨rfl, hn⟩ := hj h
      cases hc.symm.trans hc'
      simp [hn] at hb
    | closing _ _ hj => exact hj
    | _ => simp_all
  refine @Sound.local d _ r q { q with phase := .finished } port (port.quit r)
    ((port.without r).heir r) hd hq hp rfl ?_ ?_ (by simp)
    (fun s _ h => mem_woken.mpr (.inl h)) (fun x hx => mem_woken.mpr (.inr ?_))
    (hk.tidy.spares_quit r) (Port.tidy_quit hk.tidy r) ?_ (by simp) (by simp) .rfl ?_
  · rw [hfinish]
  · intro s b' hs h
    cases hc.symm.trans h
    exact hs rfl
  · rw [hfinish]
    exact hx
  · rw [Port.quit_released, Port.quit_closed]
    exact hk.released
  · exact .finished rfl (Port.not_mem_quit hk.tidy r) (by simp) fun h => absurd h hjob

/-- A request that is over is passed by. -/
theorem Sound.skip (hd : d.Sound) (hs : d.Serves r rest)
    (h : ∀ (q : Request) (port : Port), d.hub.requests[r]? = some q →
      d.hub.ports[q.port]? = some port → q.phase = .finished) :
    Sound { d with current := none, now := false, ready := rest } := by
  refine ⟨?_, by simp, hd.port⟩
  intro s q hq
  obtain ⟨port, hp, hplace, hcl⟩ := hd.place s q hq
  refine ⟨port, hp, ?_, hcl⟩
  by_cases hsr : s = r
  · subst hsr
    have hf := h q port hq hp
    cases hplace with
    | finished _ hn _ hr => exact .finished hf hn (by simp) hr
    | closing hp => simp [hf] at hp
    | _ => simp_all
  · exact hplace.spare hsr (.refl _ r []) (by simp) (hs.current s · hsr) (by simp) (hs.ready s hsr)

/-- A request keeps its place when more are woken, or the one that has its turn goes on. -/
theorem Place.mono (h : d.Place s q port) (hc : d'.current = d.current)
    (hr : ∀ x ∈ d.ready, x ∈ d'.ready) (hn : d.now = true → d'.now = true) : d'.Place s q port := by
  have hawait (ha : d.Awaits s q port) : d'.Awaits s q port :=
    fun hj => ⟨(ha hj).1, fun h => hr s ((ha hj).2 h)⟩
  cases h with
  | fresh h₁ h₂ h₃ h₄ => exact .fresh h₁ h₂ (hc ▸ h₃) (hr s h₄)
  | lined h₁ h₂ h₃ h₄ h₅ => exact .lined h₁ h₂ (hc ▸ h₃) (hawait h₄) fun h => hr s (h₅ h)
  | waiting h₁ h₂ h₃ h₄ h₅ h₆ => exact .waiting h₁ h₂ (hc ▸ h₃) h₄ (hawait h₅) h₆
  | active h₁ h₂ h₃ h₄ h₅ =>
    refine .active h₁ h₂ (hc ▸ h₃) (fun h => ⟨(h₄ h).1, hn (h₄ h).2⟩)
      fun hb h => h₅ hb (h.imp_left fun h => ?_)
    cases hd : d.now with
    | false => rfl
    | true => exact absurd (hn hd) (by simp [h])
  | closing h₁ h₂ h₃ h₄ => exact .closing h₁ (hc ▸ h₂) h₃ h₄
  | finished h₁ h₂ h₃ h₄ => exact .finished h₁ h₂ (hc ▸ h₃) h₄

/-- A port that is closed while its holder is not about to go on leaves every request its place. -/
theorem Place.close (h : d.Place s q port) (ho : port.closed = false) (hc : d'.current = d.current)
    (hr : ∀ x ∈ d.ready, x ∈ d'.ready) (hw : ∀ x ∈ port.watchers, x ∈ d'.ready)
    (hn : d.now = false) : d'.Place s q { port with closed := true, watchers := [] } := by
  have hawait (ha : d.Awaits s q port) :
      d'.Awaits s q { port with closed := true, watchers := [] } :=
    fun hj => ⟨by simp, fun _ => hw s ((ha hj).1 ho)⟩
  cases h with
  | fresh h₁ h₂ h₃ h₄ => exact .fresh h₁ h₂ (hc ▸ h₃) (hr s h₄)
  | lined h₁ h₂ h₃ h₄ h₅ => exact .lined h₁ h₂ (hc ▸ h₃) (hawait h₄) fun h => hr s (h₅ h)
  | waiting h₁ h₂ h₃ h₄ h₅ h₆ => exact .waiting h₁ h₂ (hc ▸ h₃) h₄ (hawait h₅) h₆
  | active h₁ h₂ h₃ h₄ h₅ =>
    exact .active h₁ h₂ (hc ▸ h₃) (fun h => absurd (h₄ h).2 (by simp [hn]))
      fun hb _ => h₅ hb (.inl hn)
  | closing h₁ h₂ h₃ h₄ => exact absurd h₄ (by simp [ho])
  | finished h₁ h₂ h₃ h₄ => exact .finished h₁ h₂ (hc ▸ h₃) h₄

/-- More requests are woken, or the one that has its turn goes on. -/
theorem Sound.mono (hd : d.Sound) (hh : d'.hub = d.hub) (hc : d'.current = d.current)
    (hr : ∀ x ∈ d.ready, x ∈ d'.ready) (hn : d.now = true → d'.now = true) : d'.Sound := by
  refine ⟨?_, by rw [hc, hh]; exact hd.current, by rw [hh]; exact hd.port⟩
  intro s q hq
  rw [hh] at hq ⊢
  obtain ⟨port, hp, hplace, hcl⟩ := hd.place s q hq
  exact ⟨port, hp, hplace.mono hc hr hn, hcl⟩

theorem getElem?_concat {α : Type} {l : List α} {a b : α} {i : Nat} :
    (l ++ [a])[i]? = some b ↔ l[i]? = some b ∨ i = l.length ∧ a = b := by
  rcases Nat.lt_trichotomy i l.length with h | rfl | h
  · simp [List.getElem?_append_left h, Nat.ne_of_lt h]
  · simp
  · rw [List.getElem?_append_right (Nat.le_of_lt h), List.getElem?_eq_none (Nat.le_of_lt h),
      List.getElem?_eq_none (Nat.sub_pos_of_lt h)]
    simp [Nat.ne_of_gt h]

/-- A new port is free. -/
theorem Sound.opens (hd : d.Sound) (chunk : Nat) : Sound { d with hub := d.hub.addPort chunk } := by
  refine ⟨?_, hd.current, ?_⟩
  · intro s q hq
    obtain ⟨port, hp, hplace, hcl⟩ := hd.place s q hq
    exact ⟨port, getElem?_concat.mpr (.inl hp), hplace.mono rfl (fun _ => id) id, hcl⟩
  · intro p port hp
    rcases getElem?_concat.mp hp with hp | ⟨-, rfl⟩
    · exact (hd.port p port hp).mono fun _ _ => id
    · exact ⟨⟨by simp [Port.queue], by simp⟩, by simp [Port.queue], by simp, by simp, by simp⟩

theorem Sound.ask (hd : d.Sound) {p : Nat} {job : Job} {k : Option Nat} (receivers : Nat)
    (hj : job ≠ .release) (hc : d.hub.isClosed p = false) :
    Sound { d with
      hub := (d.hub.submit p job k).1
      receivers
      ready := woken d.ready [d.hub.requests.length] } := by
  obtain ⟨port, hp⟩ : ∃ port, d.hub.ports[p]? = some port := by
    cases hp : d.hub.ports[p]? with
    | none => simp [Hub.isClosed, hp] at hc
    | some port => exact ⟨port, rfl⟩
  refine ⟨?_, ?_, ?_⟩
  · intro s q hq
    rcases getElem?_concat.mp hq with hq | ⟨rfl, rfl⟩
    · obtain ⟨port, hp, hplace, hcl⟩ := hd.place s q hq
      exact ⟨port, hp, hplace.mono rfl (fun _ h => mem_woken.mpr (.inl h)) id, hcl⟩
    · refine ⟨port, hp, .fresh rfl ?_ ?_ (mem_woken.mpr (.inr (by simp))), fun h => absurd h hj⟩
      · intro hm
        obtain ⟨q, hq, -⟩ := (hd.port p port hp).member _ hm
        simp at hq
      · intro b h
        exact Nat.lt_irrefl _ (hd.current _ b h)
  · intro s b h
    have := hd.current s b h
    simp only [Hub.submit, List.length_append]
    omega
  · intro p' port' hp'
    exact (hd.port p' port' hp').mono fun r q h => getElem?_concat.mpr (.inl h)

/-- Closing a port takes nothing back from any port. -/
theorem close_spares {h : Hub} {p' : Nat} (hp : h.ports[p']? = some port) (p : Nat) :
    ∃ port', (h.close p).1.ports[p']? = some port' ∧ port'.chunk = port.chunk ∧
      (port.closed = true → port'.closed = true) ∧ port'.queue = port.queue := by
  unfold Hub.close
  split
  · exact ⟨port, hp, rfl, id, rfl⟩
  · split
    · exact ⟨port, hp, rfl, id, rfl⟩
    · simp only [Hub.submit, Hub.modifyPort, List.getElem?_modify, hp]
      split
      · exact ⟨_, rfl, rfl, fun _ => rfl, rfl⟩
      · exact ⟨_, rfl, rfl, id, rfl⟩

/-- A port that is closed wakes whoever waits on it. -/
theorem Sound.close (hd : d.Sound) {p : Nat} (hn : d.now = false) :
    Sound { d with hub := (d.hub.close p).1, ready := woken d.ready (d.hub.close p).2 } := by
  unfold Hub.close
  cases hp : d.hub.ports[p]? with
  | none => exact hd
  | some port =>
    dsimp only
    split
    · exact hd
    rename_i hopen
    rw [Bool.not_eq_true] at hopen
    obtain ⟨hlt, -⟩ := List.getElem?_eq_some_iff.mp hp
    have hports (p' : Nat) :
        (d.hub.ports.modify p fun q => { q with closed := true, watchers := [] })[p']? =
          if p' = p then some { port with closed := true, watchers := [] } else d.hub.ports[p']? := by
      rw [List.getElem?_modify]
      by_cases h : p' = p
      · simp [h, hp]
      · simp [h, Ne.symm h]
    have hk := hd.port p port hp
    refine ⟨?_, ?_, ?_⟩
    · intro s q hq
      rcases getElem?_concat.mp hq with hq | ⟨rfl, rfl⟩
      · obtain ⟨port₁, hp₁, hplace, hcl⟩ := hd.place s q hq
        by_cases hpp : q.port = p
        · obtain rfl : port = port₁ := by simpa [hpp, hp] using hp₁
          exact ⟨_, (hports _).trans (if_pos hpp), hplace.close hopen rfl
            (fun _ h => mem_woken.mpr (.inl h)) (fun _ h => mem_woken.mpr (.inr (by simp [h]))) hn,
            fun _ => rfl⟩
        · exact ⟨port₁, (hports _).trans ((if_neg hpp).trans hp₁),
            hplace.mono rfl (fun _ h => mem_woken.mpr (.inl h)) id, hcl⟩
      · refine ⟨_, (hports p).trans (if_pos rfl), .fresh rfl ?_ ?_ ?_, fun _ => rfl⟩
        · intro hm
          obtain ⟨q, hq, -⟩ := hk.member _ hm
          exact absurd hq (by simp [Hub.modifyPort])
        · intro b h
          exact Nat.lt_irrefl _ (hd.current _ b h)
        · exact mem_woken.mpr (.inr (by simp [Hub.submit, Hub.modifyPort]))
    · intro s b h
      have := hd.current s b h
      simp only [Hub.submit, Hub.modifyPort, List.length_append]
      omega
    · intro p' port' hp'
      have hold (s : Nat) (q : Request) (h : d.hub.requests[s]? = some q) :
          (d.hub.requests ++ [⟨p, .release, none, .fresh⟩])[s]? = some q :=
        getElem?_concat.mpr (.inl h)
      replace hp' := (hports p').symm.trans hp'
      split at hp'
      · rename_i hpp
        cases hp'
        subst hpp
        refine ⟨⟨hk.tidy.nodup, hk.tidy.free⟩, fun r hr => ?_, by simp, fun _ => rfl, fun _ => ?_⟩
        · obtain ⟨q, hq, h⟩ := hk.member r hr
          exact ⟨q, hold r q hq, h⟩
        · exact ⟨d.hub.requests.length, ⟨p', .release, none, .fresh⟩,
            getElem?_concat.mpr (.inr ⟨rfl, rfl⟩), rfl, rfl⟩
      · exact (hd.port p' port' hp').mono hold

/-- Every move keeps the desk sound. -/
theorem Sound.move (hd : d.Sound) {ds : List Deed} (m : d.Move ds d') : d'.Sound := by
  cases m with
  | quiet _ h => exact hd.mono rfl rfl (fun _ => id) h
  | opens e => exact hd.opens e.chunk
  | feed => exact hd.mono rfl rfl (fun _ h => mem_woken.mpr (.inl h)) id
  | refuse => exact hd.mono rfl rfl (fun _ => id) id
  | ask hj hc =>
    refine hd.ask _ ?_ hc
    rintro rfl
    exact hj
  | close hn => exact hd.close hn
  | serve hs hq hp _ hv hl => exact hd.serve hs hq hp hv hl
  | skip hs h => exact hd.skip hs h
  | finish hc => exact hd.finish hc (.inl rfl)
  | @unwind r hc hn => simpa [hn] using hd.finish hc (.inr hn)

theorem Moves.sound {ds : List Deed} (m : d.Moves ds d') (hd : d.Sound) : d'.Sound := by
  induction m with
  | none => exact hd
  | more _ m ih => exact ih.move m

theorem Sound.empty (d : Desk) (hr : d.hub.requests = []) (hp : d.hub.ports = [])
    (hc : d.current = none) : d.Sound :=
  ⟨by simp [hr], by simp [hc], by simp [hp]⟩

end Desk

/-- What is known of a configuration of pipes at every point of an execution. -/
structure Known (c : Config component) (h : List Deed) : Prop where
  shape : Shape c
  sound : (desk c).Sound
  opened : (desk c).Opened (opened h)
  fitting : Fitting c.state h

theorem Known.length_ports {c : Config component} {h : List Deed} (hk : Known c h) :
    c.state.hub.ports.length = (Pipe.opened h).length := by
  simpa [desk] using congrArg List.length hk.opened

theorem known_start : Known start.config [] := by
  refine ⟨⟨?_, ?_, ?_, ?_⟩, .empty _ rfl rfl rfl, rfl, ⟨?_, ?_⟩⟩ <;>
    simp [held, Machine.config, Machine.bare, start, Session.Addressed, Session.Fits]

/-- What holds of the desk of a machine after some deeds, and is kept by every move between sound
desks, holds after every run. -/
theorem run_induction {m₀ m : Machine component} {past : List (Moment component)}
    (hr : Run m₀ past m) {h₀ : List Deed} (hk : Known m₀.config h₀) (I : List Deed → Desk → Prop)
    (begin : I h₀ (desk m₀.config))
    (move : ∀ h d ds d', d.Sound → d'.Sound → I h d → d.Move ds d' → I (h ++ ds) d') :
    Known m.config (h₀ ++ deeds past) ∧ I (h₀ ++ deeds past) (desk m.config) := by
  refine hr.config_induction
    (fun past c => Known c (h₀ ++ deeds past) ∧ I (h₀ ++ deeds past) (desk c))
    (by simpa [deeds] using ⟨hk, begin⟩) ?_
  rintro past c cause c' ⟨hk, hi⟩ hstep
  obtain ⟨hc', hm⟩ := hk.shape.moves (hk.fitting.housed hk.length_ports) hstep
  have hfit := hk.fitting.step hk.length_ports hstep
  obtain ⟨-, hd, ho, -⟩ := hk
  rw [deeds_append, ← List.append_assoc]
  have hall : (desk c').Sound ∧
      (desk c').Opened (Pipe.opened (h₀ ++ deeds past ++ deeds (c.moment cause))) ∧
      I (h₀ ++ deeds past ++ deeds (c.moment cause)) (desk c') := by
    clear hfit hc'
    generalize deeds (c.moment cause) = ds at hm ⊢
    generalize desk c' = d' at hm ⊢
    induction hm with
    | none => exact ⟨hd, by simpa using ho, by simpa using hi⟩
    | more _ m ih =>
      obtain ⟨hd', ho', hi'⟩ := ih
      rw [← List.append_assoc]
      exact ⟨hd'.move m, ho'.move m, move _ _ _ _ hd' (hd'.move m) hi' m⟩
  exact ⟨⟨hc', hall.1, hall.2.1, hfit⟩, hall.2.2⟩

end Conduit.Pipe
