import Conduit.Proofs.Pipe.Moves

/-!
Where a request can be. A request is woken when it is issued, stands in line, waits for the device,
has its turn, or is over; and whoever can go on has been woken, is watched over by its port, or has
its turn now. `Desk.Sound` says this of all requests, and every move keeps it.
-/

namespace Conduit.Pipe

open Dispatch

namespace Port

variable {q : Port} {r s : Nat}

/-- The line of a port is in order: nobody stands in it twice, and nobody waits for a free port. -/
structure Tidy (q : Port) : Prop where
  nodup : q.queue.Nodup
  free : q.holder = none → q.line = []

theorem queue_of_holder (h : q.holder = some r) : q.queue = r :: q.line := by
  simp [queue, h]

theorem Tidy.not_mem_line (hq : q.Tidy) (h : q.holder = some r) : r ∉ q.line := by
  have := hq.nodup
  rw [queue_of_holder h] at this
  exact (List.nodup_cons.mp this).1

theorem Tidy.without_holder (hq : q.Tidy) (h : q.holder = some r) :
    q.without r = { q with watchers := q.watchers.erase r } := by
  simp [without, List.erase_of_not_mem (hq.not_mem_line h)]

theorem Tidy.queue_without (hq : q.Tidy) (h : q.holder = some r) : (q.without r).queue = q.queue := by
  rw [hq.without_holder h]
  rfl

/-- A request that is done with the port leaves the queue. -/
theorem Tidy.queue_quit (hq : q.Tidy) (r : Nat) : (q.quit r).queue = q.queue.erase r := by
  unfold quit yield
  split
  · rename_i h
    have h : q.holder = some r := h
    rw [queue_of_holder h, List.erase_cons_head, hq.without_holder h]
    cases q.line <;> simp [queue]
  · rename_i h
    have h : q.holder ≠ some r := h
    cases hh : q.holder with
    | none => simp [queue, without, hh, hq.free hh]
    | some x =>
      have hx : x ≠ r := by
        rintro rfl
        exact h hh
      simp [queue, without, hh, hx]

theorem tidy_quit (hq : q.Tidy) (r : Nat) : (q.quit r).Tidy := by
  refine ⟨?_, ?_⟩
  · rw [hq.queue_quit r]
    exact hq.nodup.erase r
  · intro h
    have hn : (q.quit r).queue = (q.quit r).line := by simp [queue, h]
    unfold quit yield at h hn ⊢
    split at h
    · rename_i hr
      rw [if_pos hr]
      have : (q.without r).line = [] := by simpa using h
      simp [this]
    · rename_i hr
      rw [if_neg hr]
      have : q.holder = none := h
      simp [without, hq.free this]

theorem not_mem_quit (hq : q.Tidy) (r : Nat) : r ∉ (q.quit r).queue := by
  rw [hq.queue_quit r]
  exact hq.nodup.not_mem_erase

/-- Who holds a port when a request is done with it. -/
theorem holder_quit (h : (q.quit r).holder = some s) :
    q.holder = some s ∨ s ∈ (q.without r).heir r := by
  unfold quit yield at h
  split at h
  · rename_i hr
    right
    unfold heir
    rw [if_pos hr]
    simpa using h
  · exact .inl h

theorem quit_holder (h : q.holder = some s) (hs : s ≠ r) : (q.quit r).holder = some s := by
  unfold quit yield
  have hr : (q.without r).holder ≠ some r := by
    intro h'
    exact hs (Option.some.inj (h.symm.trans h'))
  rw [if_neg hr]
  exact h

theorem tidy_without (hq : q.Tidy) (h : q.holder = some r) : (q.without r).Tidy := by
  rw [hq.without_holder h]
  exact ⟨hq.nodup, hq.free⟩

theorem queue_joined (q : Port) (r : Nat) (free : Bool) : (q.joined r free).queue = q.queue ++ [r] := by
  cases free <;> simp [joined, queue, watched]

theorem holder_joined (q : Port) (r : Nat) (free : Bool) : (q.joined r free).holder = q.holder := by
  cases free <;> rfl

theorem tidy_joined (hq : q.Tidy) (hr : r ∉ q.queue) (hn : q.queue ≠ []) (free : Bool) :
    (q.joined r free).Tidy := by
  refine ⟨?_, ?_⟩
  · rw [queue_joined, List.nodup_append]
    refine ⟨hq.nodup, by simp, ?_⟩
    rintro a ha b hb rfl
    exact hr (List.mem_singleton.mp hb ▸ ha)
  · intro h
    rw [holder_joined] at h
    exact absurd (by simp [queue, h, hq.free h]) hn

/-- What a step of the request `r` leaves of a port to the other requests, when it wakes `ws`. -/
structure Spares (q : Port) (r : Nat) (ws : List Nat) (q' : Port) : Prop where
  chunk : q'.chunk = q.chunk
  closed : q'.closed = q.closed
  released : q.released = true → q'.released = true
  queue : ∀ s, s ≠ r → (s ∈ q'.queue ↔ s ∈ q.queue)
  holder : ∀ s, s ≠ r → q'.holder = some s → q.holder = some s ∨ s ∈ ws
  held : ∀ s, s ≠ r → q.holder = some s → q'.holder = some s
  watch : ∀ s, s ≠ r → (s ∈ q'.watchers ↔ s ∈ q.watchers)

theorem Spares.refl (q : Port) (r : Nat) (ws : List Nat) : q.Spares r ws q :=
  ⟨rfl, rfl, id, fun _ _ => .rfl, fun _ _ => .inl, fun _ _ => id, fun _ _ => .rfl⟩

theorem Tidy.spares_quit (hq : q.Tidy) (r : Nat) : q.Spares r ((q.without r).heir r) (q.quit r) where
  chunk := quit_chunk q r
  closed := quit_closed q r
  released h := (quit_released q r).trans h
  queue s hs := by rw [hq.queue_quit r, List.mem_erase_of_ne hs]
  holder s _ h := holder_quit h
  held s hs h := quit_holder h hs
  watch s hs := by rw [quit_watchers, List.mem_erase_of_ne hs]

theorem spares_joined (q : Port) (r : Nat) (free : Bool) : q.Spares r [] (q.joined r free) where
  chunk := by cases free <;> rfl
  closed := by cases free <;> rfl
  released := by cases free <;> exact id
  queue s hs := by simp [queue_joined, hs]
  holder s _ h := .inl ((holder_joined q r free) ▸ h)
  held s _ h := (holder_joined q r free).trans h
  watch s hs := by cases free <;> simp [joined, watched, List.mem_erase_of_ne, hs]

theorem spares_watched (q : Port) (r : Nat) (ws : List Nat) : q.Spares r ws (q.watched r) where
  chunk := rfl
  closed := rfl
  released := id
  queue _ _ := .rfl
  holder _ _ := .inl
  held _ _ := id
  watch s hs := by simp [watched, List.mem_erase_of_ne, hs]

theorem Tidy.spares_without (hq : q.Tidy) (h : q.holder = some r) : q.Spares r [] (q.without r) where
  chunk := rfl
  closed := rfl
  released := id
  queue s _ := by rw [hq.queue_without h]
  holder _ _ := .inl
  held _ _ := id
  watch s hs := by simp [without, List.mem_erase_of_ne, hs]

theorem spares_taken (h : q.queue = []) : q.Spares r [] { q with holder := some r } where
  chunk := rfl
  closed := rfl
  released := id
  queue s hs := by
    have hl : q.line = [] := (List.append_eq_nil_iff.mp h).2
    rw [h, queue_of_holder rfl, hl]
    simp [hs]
  holder s hs h' := absurd (Option.some.inj h') (Ne.symm hs)
  held s _ h' := by
    rw [queue_of_holder h'] at h
    cases h
  watch _ _ := .rfl

end Port

/-- A request that waits is watched over by its port, or has been woken since it was closed. -/
def Desk.Awaits (d : Desk) (r : Nat) (q : Request) (port : Port) : Prop :=
  q.job ≠ .release →
    (port.closed = false → r ∈ port.watchers) ∧ (port.closed = true → r ∈ d.ready)

/-- Where a request is. -/
inductive Desk.Place (d : Desk) (r : Nat) (q : Request) (port : Port) : Prop where
  /-- It has been woken for the first time. -/
  | fresh (hp : q.phase = .fresh) (hq : r ∉ port.queue) (hc : ∀ b, d.current ≠ some (r, b))
      (hr : r ∈ d.ready)
  /-- It stands in line, or the port has come to it and it has been woken. -/
  | lined (hp : q.phase = .queued) (hq : r ∈ port.queue) (hc : ∀ b, d.current ≠ some (r, b))
      (ha : d.Awaits r q port) (hh : port.holder = some r → r ∈ d.ready)
  /-- It waits for the device. -/
  | waiting (hp : q.phase = .holding true) (hh : port.holder = some r)
      (hc : ∀ b, d.current ≠ some (r, b)) (hj : q.job ≠ .release) (ha : d.Awaits r q port)
      (hv : Hub.overflows port.chunk q.job = false)
  /-- It has its turn. -/
  | active {b} (hp : q.phase = .holding false) (hh : port.holder = some r)
      (hc : d.current = some (r, b)) (hj : q.job = .release → b = false ∧ d.now = true)
      (hv : b = false → d.now = false ∨ port.closed = true →
        Hub.overflows port.chunk q.job = false)
  /-- It has found the port closed and made its last report. -/
  | closing (hp : q.phase = .fresh ∧ r ∉ port.queue ∨ q.phase = .queued ∧ r ∉ port.queue ∨
        q.phase = .holding true ∧ port.holder = some r)
      (hc : d.current = some (r, true)) (hj : q.job ≠ .release) (hcl : port.closed = true)
  | finished (hp : q.phase = .finished) (hq : r ∉ port.queue) (hc : ∀ b, d.current ≠ some (r, b))
      (hr : q.job = .release → port.released = true)

/-- A port is in order among the requests of its hub. -/
structure Hub.Kept (h : Hub) (p : Nat) (port : Port) : Prop where
  tidy : port.Tidy
  member : ∀ r ∈ port.queue, ∃ q : Request, h.requests[r]? = some q ∧ q.port = p
  watch : ∀ r ∈ port.watchers, ∃ q : Request, h.requests[r]? = some q ∧ q.phase ≠ .fresh
  released : port.released = true → port.closed = true
  release : port.closed = true →
    ∃ (r : Nat) (q : Request), h.requests[r]? = some q ∧ q.port = p ∧ q.job = .release

/-- A port stays in order when requests are added. -/
theorem Hub.Kept.mono {h h' : Hub} {p : Nat} {port : Port} (hk : h.Kept p port)
    (hh : ∀ (r : Nat) (q : Request), h.requests[r]? = some q → h'.requests[r]? = some q) :
    h'.Kept p port := by
  refine ⟨hk.tidy, fun r hr => ?_, fun r hr => ?_, hk.released, fun hc => ?_⟩
  · obtain ⟨q, hq, h⟩ := hk.member r hr
    exact ⟨q, hh r q hq, h⟩
  · obtain ⟨q, hq, h⟩ := hk.watch r hr
    exact ⟨q, hh r q hq, h⟩
  · obtain ⟨r, q, hq, h⟩ := hk.release hc
    exact ⟨r, q, hh r q hq, h⟩

/-- Every request is somewhere, and every port is in order. -/
structure Desk.Sound (d : Desk) : Prop where
  place : ∀ (r : Nat) (q : Request), d.hub.requests[r]? = some q →
    ∃ port, d.hub.ports[q.port]? = some port ∧ d.Place r q port ∧
      (q.job = .release → port.closed = true)
  current : ∀ r b, d.current = some (r, b) → r < d.hub.requests.length
  port : ∀ (p : Nat) (port : Port), d.hub.ports[p]? = some port → d.hub.Kept p port

namespace Desk

variable {d d' : Desk} {r s : Nat} {q q' : Request} {port port' : Port} {ws : List Nat}

/-- A request that has no turn keeps its place while another one is served. -/
theorem Place.spare (h : d.Place s q port) (hs : s ≠ r) (hp : port.Spares r ws port')
    (hw : ∀ x ∈ ws, x ∈ d'.ready) (hc : ∀ b, d.current ≠ some (s, b))
    (hc' : ∀ b, d'.current ≠ some (s, b)) (hr : s ∈ d.ready → s ∈ d'.ready) : d'.Place s q port' := by
  have hawait (ha : d.Awaits s q port) : d'.Awaits s q port' := by
    intro hj
    rw [hp.closed, hp.watch s hs]
    exact ⟨(ha hj).1, fun hcl => hr ((ha hj).2 hcl)⟩
  cases h with
  | fresh hph hq _ hready =>
    exact .fresh hph (by rwa [hp.queue s hs]) hc' (hr hready)
  | lined hph hq _ ha hh =>
    refine .lined hph (by rwa [hp.queue s hs]) hc' (hawait ha) fun h' => ?_
    rcases hp.holder s hs h' with h' | h'
    · exact hr (hh h')
    · exact hw s h'
  | waiting hph hh _ hj ha hv =>
    exact .waiting hph (hp.held s hs hh) hc' hj (hawait ha) (by rwa [hp.chunk])
  | active _ _ hcur => exact absurd hcur (hc _)
  | closing _ hcur => exact absurd hcur (hc _)
  | finished hph hq _ hrel =>
    exact .finished hph (by rwa [hp.queue s hs]) hc' fun hj => hp.released (hrel hj)

/-- A step of one request keeps everything in order if it does so for the request and its port. -/
theorem Sound.local (hd : d.Sound) (hq : d.hub.requests[r]? = some q)
    (hp : d.hub.ports[q.port]? = some port) (hport : q'.port = q.port)
    (hhub : d'.hub = d.hub.put r q' port') (hc : ∀ s b, s ≠ r → d.current ≠ some (s, b))
    (hc' : ∀ s b, s ≠ r → d'.current ≠ some (s, b))
    (hr : ∀ s, s ≠ r → s ∈ d.ready → s ∈ d'.ready) (hw : ∀ x ∈ ws, x ∈ d'.ready)
    (hsp : port.Spares r ws port') (htidy : port'.Tidy)
    (hrel : port'.released = true → port'.closed = true)
    (hwatch : r ∈ port'.watchers → q'.phase ≠ .fresh) (hfresh : q'.phase = .fresh → q.phase = .fresh)
    (hjob : q'.job = .release ↔ q.job = .release) (hplace : d'.Place r q' port') : d'.Sound := by
  obtain ⟨hr', -⟩ := List.getElem?_eq_some_iff.mp hq
  obtain ⟨hp', -⟩ := List.getElem?_eq_some_iff.mp hp
  have hrequest (s : Nat) : d'.hub.requests[s]? = if s = r then some q' else d.hub.requests[s]? := by
    rw [hhub, Hub.put, List.getElem?_set]
    grind
  have hports (p : Nat) : d'.hub.ports[p]? = if p = q.port then some port' else d.hub.ports[p]? := by
    rw [hhub, Hub.put, List.getElem?_set, hport]
    grind
  obtain ⟨port₀, hport₀, -, hcl⟩ := hd.place r q hq
  obtain rfl : port₀ = port := by simpa [hp] using hport₀.symm
  refine ⟨?_, ?_, ?_⟩
  · intro s q₁ hs
    rw [hrequest] at hs
    split at hs
    · rename_i hsr
      cases hs
      subst hsr
      refine ⟨port', by simp [hports, hport], hplace, ?_⟩
      rw [hjob, hsp.closed]
      exact hcl
    · rename_i hsr
      obtain ⟨port₁, hp₁, hplace₁, hcl₁⟩ := hd.place s q₁ hs
      rw [hports]
      split
      · rename_i hpp
        obtain rfl : port₀ = port₁ := by simpa [hpp, hp] using hp₁
        refine ⟨port', rfl, hplace₁.spare hsr hsp hw (hc s · hsr) (hc' s · hsr) (hr s hsr), ?_⟩
        rw [hsp.closed]
        exact hcl₁
      · exact ⟨port₁, hp₁, hplace₁.spare hsr (.refl _ r []) (by simp) (hc s · hsr) (hc' s · hsr)
          (hr s hsr), hcl₁⟩
  · intro s b hs
    have hlen : d'.hub.requests.length = d.hub.requests.length := by simp [hhub, Hub.put]
    by_cases hsr : s = r
    · rw [hlen, hsr]
      exact hr'
    · exact absurd hs (hc' s b hsr)
  · intro p port₁ hp₁
    have hmember (s : Nat) (h : ∃ q₁ : Request, d.hub.requests[s]? = some q₁ ∧ q₁.port = p) :
        ∃ q₁ : Request, d'.hub.requests[s]? = some q₁ ∧ q₁.port = p := by
      obtain ⟨q₁, h₁, h₂⟩ := h
      rw [hrequest]
      split
      · rename_i hsr
        obtain rfl : q = q₁ := by simpa [hsr, hq] using h₁
        exact ⟨q', rfl, hport.trans h₂⟩
      · exact ⟨q₁, h₁, h₂⟩
    have hwatching (s : Nat) (h : ∃ q₁ : Request, d.hub.requests[s]? = some q₁ ∧ q₁.phase ≠ .fresh) :
        ∃ q₁ : Request, d'.hub.requests[s]? = some q₁ ∧ q₁.phase ≠ .fresh := by
      obtain ⟨q₁, h₁, h₂⟩ := h
      rw [hrequest]
      split
      · rename_i hsr
        obtain rfl : q = q₁ := by simpa [hsr, hq] using h₁
        exact ⟨q', rfl, fun h => h₂ (hfresh h)⟩
      · exact ⟨q₁, h₁, h₂⟩
    have hrelease (h : ∃ (s : Nat) (q₁ : Request), d.hub.requests[s]? = some q₁ ∧ q₁.port = p ∧
        q₁.job = .release) : ∃ (s : Nat) (q₁ : Request), d'.hub.requests[s]? = some q₁ ∧
        q₁.port = p ∧ q₁.job = .release := by
      obtain ⟨s, q₁, h₁, h₂, h₃⟩ := h
      by_cases hsr : s = r
      · obtain rfl : q = q₁ := by simpa [hsr, hq] using h₁
        exact ⟨s, q', by simp [hrequest, hsr], hport.trans h₂, hjob.mpr h₃⟩
      · exact ⟨s, q₁, by simp [hrequest, hsr, h₁], h₂, h₃⟩
    rw [hports] at hp₁
    split at hp₁
    · rename_i hpp
      cases hp₁
      have hk := hd.port p port₀ (hpp ▸ hp)
      refine ⟨htidy, ?_, ?_, hrel, ?_⟩
      · intro s hs
        by_cases hsr : s = r
        · exact ⟨q', by simp [hrequest, hsr], hport.trans hpp.symm⟩
        · exact hmember s (hk.member s ((hsp.queue s hsr).mp hs))
      · intro s hs
        by_cases hsr : s = r
        · exact ⟨q', by simp [hrequest, hsr], hwatch (hsr ▸ hs)⟩
        · exact hwatching s (hk.watch s ((hsp.watch s hsr).mp hs))
      · rw [hsp.closed]
        exact fun h => hrelease (hk.release h)
    · have hk := hd.port p port₁ hp₁
      exact ⟨hk.tidy, fun s hs => hmember s (hk.member s hs),
        fun s hs => hwatching s (hk.watch s hs), hk.released, fun h => hrelease (hk.release h)⟩

end Desk

end Conduit.Pipe
