import WorkStealing.Proofs.Convoy.Grants

set_option autoImplicit false

/-!
# How far a ring has grown

The capacity of a pool, the generation of its ring, the count of its resizes and the reports in the
log stand next to each other, and nothing but growth moves them. Growth moves them together, when
the window has one slot less than the ring, to make room for a unit that is stored.
-/
namespace WorkStealing

/-- Whether an event tells of the ring of a pool: how it came, grew and went. -/
def Event.isLandmark : Event → Bool
  | .created .. | .grew .. | .dropped .. => true
  | .growthFailed .. | .rebased .. => false

def landmarks (es : List Event) : List Event := es.filter Event.isLandmark

/-- What of a site tells how far its ring has grown. -/
structure Gauge where
  id : PoolId
  name : Option String
  telemetry : Bool
  capacity : Nat
  generation : Nat
  resizes : Nat
  landmarks : List Event

def Gauge.grown (g : Gauge) (live : Nat) : Gauge where
  id := g.id
  name := g.name
  telemetry := g.telemetry
  capacity := 2 * g.capacity
  generation := g.generation + 1
  resizes := g.resizes + if g.telemetry then 1 else 0
  landmarks := g.landmarks ++ [.grew g.id g.name g.capacity (2 * g.capacity) live]

theorem Flight.tally?_ne_resize (call : Call) (flight : Flight) :
    flight.tally? call ≠ some .resize := by
  cases flight with
  | landed r => cases call <;> cases r <;> simp [tally?, Call.tally?]
  | waiting => simp [tally?]

namespace Site

def gauge (s : Site) : Gauge where
  id := s.deque.id
  name := s.deque.name
  telemetry := s.telemetry
  capacity := s.deque.capacity
  generation := s.deque.generation
  resizes := s.deque.metrics.resizes
  landmarks := WorkStealing.landmarks s.log.toList

theorem gauge_emit (s : Site) {e : Event} (h : e.isLandmark = false) :
    (s.emit e).gauge = s.gauge := by
  simp [gauge, emit, WorkStealing.landmarks, h]

theorem gauge_noteWait (s : Site) (rounds : Nat) : (s.noteWait rounds).gauge = s.gauge := by
  unfold noteWait
  split
  · have hresizes := Metrics.count_addLockWait s.deque.metrics rounds 1 .resize
    exact congrArg (fun resizes => { s.gauge with resizes }) hresizes
  · rfl

theorem gauge_tally (s : Site) {t : Tally} (h : t ≠ .resize) : (s.tally t).gauge = s.gauge := by
  unfold tally
  split
  · cases t <;> first | rfl | exact absurd rfl h
  · rfl

/-- The generation does not fall, and the gauge stays as long as the generation does, unless a
resize is counted on purpose. -/
structure Holds (o : Option Tally) (s s' : Site) : Prop where
  generation_le : s.deque.generation ≤ s'.deque.generation
  gauge_eq : o ≠ some .resize → s'.deque.generation = s.deque.generation → s'.gauge = s.gauge

namespace Holds

theorem of_gauge {s s' : Site} {o : Option Tally} (h : s'.gauge = s.gauge) : Holds o s s' :=
  ⟨Nat.le_of_eq (congrArg Gauge.generation h).symm, fun _ _ => h⟩

theorem steady : Steady Holds where
  refl _ := of_gauge rfl
  trans h h' := ⟨Nat.le_trans h.generation_le h'.generation_le, fun ho hg => by
    have hle := h.generation_le
    have hle' := h'.generation_le
    exact (h'.gauge_eq ho (by omega)).trans (h.gauge_eq (by simp) (by omega))⟩
  trans' h h' := ⟨Nat.le_trans h.generation_le h'.generation_le, fun ho hg => by
    have hle := h.generation_le
    have hle' := h'.generation_le
    exact (h'.gauge_eq (by simp) (by omega)).trans (h.gauge_eq ho (by omega))⟩
  units _ _ := of_gauge rfl
  head _ _ := of_gauge rfl
  tail _ _ := of_gauge rfl
  write s i c := by
    intro ring hring
    refine of_gauge ?_
    have hcap : ring.capacity = s.deque.ring.capacity := by
      unfold Ring.write Ring.store at hring
      split at hring
      · cases hring
        simp [Ring.capacity]
      · cases hring
    simp only [gauge, Deque.capacity, hcap]
    rfl
  tickets s l hl := of_gauge (by simp only [gauge, setForeign, Deque.generation, hl]; rfl)
  wait s n := of_gauge (s.gauge_noteWait n)
  counted s o := by
    refine ⟨?_, fun ho _ => ?_⟩
    · obtain ⟨m, hm⟩ := s.exists_count o
      rw [hm]
      exact Nat.le_refl _
    · cases o with
      | none => rfl
      | some t => exact s.gauge_tally fun ht => ho (congrArg some ht)
  rebased s p m n := of_gauge ((gauge_emit _ rfl).trans (s.gauge_tally (by simp)))
  grow s n := by
    unfold Site.grow
    refine .bind (.trivial _) fun growth _ => ?_
    cases growth with
    | error e => exact .ok (of_gauge (s.gauge_emit rfl))
    | ok growth =>
      obtain ⟨m, hm⟩ := exists_tally { s.emit (.grew s.deque.id s.deque.name s.deque.capacity
          growth.grown.capacity n) with
        deque := { s.deque with
          ring := growth.grown, foreign := s.deque.foreign.modify (growth.emptied :: ·),
          head := 0, tail := n } } .resize
      have hnext : (Site.tally _ _).deque.generation = s.deque.generation + 1 :=
        congrArg (·.deque.generation) hm
      exact .ok ⟨Nat.le_of_lt (hnext ▸ Nat.lt_succ_self _),
        fun _ hg => absurd (hnext.symm.trans hg) (Nat.succ_ne_self _)⟩

end Holds

theorem gauge_of_start {s s' : Site} {call : Call} {flight : Flight}
    (hrun : call.start s = .ok (flight, s')) (hg : s'.deque.generation = s.deque.generation) :
    s'.gauge = s.gauge :=
  (Holds.steady.start s call _ hrun).gauge_eq (flight.tally?_ne_resize call) hg

section Growth

variable {s s' : Site}

/-- The ring was full but for one slot and was replaced, and one unit more is in the window. -/
structure Grew (s s' : Site) : Prop where
  full : s.deque.length + 1 = s.deque.capacity
  gauge : s'.gauge = s.gauge.grown s.deque.length
  length : s'.deque.length = s.deque.length + 1

theorem gauge_tally_resize (s : Site) : (s.tally .resize).gauge =
    { s.gauge with resizes := s.gauge.resizes + if s.telemetry then 1 else 0 } := by
  unfold tally
  split <;> rfl

theorem gauge_grown (s : Site) {g : Ring.Growth}
    (hg : g.grown.capacity = 2 * s.deque.ring.capacity) :
    (s.grown g).gauge = s.gauge.grown s.deque.length := by
  have hlog : landmarks (s.emit (.grew s.deque.id s.deque.name s.deque.capacity
      g.grown.capacity s.deque.length)).log.toList = landmarks s.log.toList ++
        [.grew s.deque.id s.deque.name s.deque.capacity (2 * s.deque.capacity) s.deque.length] := by
    simp [landmarks, emit, Event.isLandmark, hg, Deque.capacity]
  refine (gauge_tally_resize _).trans ?_
  change (⟨s.deque.id, s.deque.name, s.telemetry, g.grown.capacity, s.deque.generation + 1,
    s.deque.metrics.resizes + if s.telemetry then 1 else 0, landmarks _⟩ : Gauge) = _
  rw [hlog, hg]
  rfl

variable {u : UnitId} {π : Pledge} {call : Call}

theorem storeLocked_grew (h : s.Stands (.unit u)) (ht : s.deque.tail < Word.max) :
    ∃ r x, s.storeLocked u = .ok (.reply r, x) ∧ (∀ v, r ≠ .taken v) ∧
      (x.gauge = s.gauge ∨ r = .stored ∧ s.Grew x) := by
  have hd : s.deque.Sound := h.sound.deque
  by_cases hroom : s.deque.length + 1 < s.deque.ring.capacity
  · refine ⟨_, _, storeLocked_stored hd hroom ht u, by simp, .inl ?_⟩
    simp only [gauge, Deque.fill, Deque.capacity, Ring.capacity_put]
    rfl
  · have hfull : s.deque.ring.capacity ≤ s.deque.length + 1 := by omega
    rcases storeLocked_full hd hfull h.counted h.holder_pending with
      ⟨hfits, hrun⟩ | ⟨_, g, hg, hrun⟩
    · exact ⟨_, _, hrun, by simp, .inl (s.gauge_emit rfl)⟩
    · have hlength : (s.grown g).deque.length = s.deque.length := by
        obtain ⟨_, _, hgrown⟩ := s.exists_grown g
        rw [hgrown]
        rfl
      refine ⟨_, _, hrun, by simp, .inr ⟨rfl, ?_, ?_, ?_⟩⟩
      · have hlt := hd.length_lt
        change s.deque.length + 1 = s.deque.ring.capacity
        omega
      · rw [← gauge_grown s hg.capacity_eq]
        simp only [gauge, Deque.fill, Deque.capacity, Ring.capacity_put]
        rfl
      · rw [← hlength]
        change (s.grown g).deque.tail + 1 - (s.grown g).deque.head = _
        have hle : (s.grown g).deque.head ≤ (s.grown g).deque.tail := by
          obtain ⟨_, _, hgrown⟩ := s.exists_grown g
          rw [hgrown]
          exact Nat.zero_le _
        rw [Deque.length]
        omega

theorem Awaits.of_store (h : s.Awaits call (.store u)) :
    call = .push u ∧ s.deque.tail < Word.max := by
  cases h with
  | store _ ht => exact ⟨rfl, ht⟩

theorem store_turn_grew (h : s.Stands (.unit u)) (ht : s.deque.tail < Word.max) {ticket : Nat}
    (hnow : s.deque.foreign.nowServing = ticket) (ahead : Nat) :
    Ensures ((Call.push u).turn ticket ahead (.store u) s) fun x =>
      x.2.gauge = s.gauge ∨ x.1 = .landed .stored ∧ s.Grew x.2 := by
  obtain ⟨m, hm⟩ := s.exists_noteWait ahead
  have hlength : (s.noteWait ahead).deque.length = s.deque.length := by
    rw [hm]
    rfl
  obtain ⟨r, x, hstore, hr, hx⟩ := storeLocked_grew (h.of_core (s.core_noteWait ahead))
    (show (s.noteWait ahead).deque.tail < Word.max by rw [hm]; exact ht)
  have hpass : (LockedStage.store u).pass (s.noteWait ahead) = .ok (.reply r, x.released) := by
    rw [LockedStage.pass, LockedStage.run, hstore]
    rfl
  rw [Call.turn_eq hnow, hpass, ok_bind, Call.settle, Call.conclude_of_not_taken hr]
  have hgauge : (x.released.count ((Call.push u).tally? r)).gauge = x.gauge := by
    cases ht : (Call.push u).tally? r with
    | none => rfl
    | some t =>
      refine (x.released.gauge_tally fun hresize => ?_).trans rfl
      exact Flight.tally?_ne_resize (.push u) (.landed r) (ht.trans (congrArg some hresize))
  refine .ok ?_
  rcases hx with hsame | ⟨hstored, hgrew⟩
  · exact .inl (hgauge.trans (hsame.trans (s.gauge_noteWait ahead)))
  · obtain ⟨m', hm'⟩ := x.released.exists_count ((Call.push u).tally? r)
    refine .inr ⟨congrArg Flight.landed hstored, ?_, ?_, ?_⟩
    · have hfull := hgrew.full
      rw [hm] at hfull
      exact hfull
    · rw [hgauge, hgrew.gauge, s.gauge_noteWait, hlength]
    · rw [← hlength, ← hgrew.length, hm']
      rfl

/-- A turn leaves the gauge as it is, or grows the ring for the unit that it stores. -/
theorem turn_grew {c : Convoy} {x : Waiter} {line : List Waiter} {first budget : Nat}
    {flight : Flight} {π' : Pledge} (hc : c.Sound s π first) (hline : c.line = x :: line)
    (hnow : s.deque.foreign.nowServing = first)
    (hrun : x.call.turn x.ticket x.ahead x.stage s = .ok (flight, s'))
    (hcomes : s.Comes π x.call (some x.stage) budget flight s' π') :
    s'.gauge = s.gauge ∨ flight = .landed .stored ∧ s.Grew s' := by
  rcases hcomes.grown with hg | ⟨u, hstage, -⟩
  · exact .inl ((Holds.steady.turn s _ _ _ _ _ hrun).gauge_eq (flight.tally?_ne_resize _) hg)
  · have hx : x ∈ c.line := hline ▸ List.mem_cons_self
    obtain ⟨hcall, ht⟩ := Awaits.of_store (Option.some.inj hstage ▸ hc.lined.awaits x hx)
    obtain rfl : π = .unit u :=
      (hc.lined.pledge x hx (hcall ▸ rfl)).trans
        (congrArg LockedStage.pledge (Option.some.inj hstage))
    rw [hcall, Option.some.inj hstage] at hrun
    exact store_turn_grew hc.lined.stands ht (hnow.trans (hc.ticket_eq hline).symm) _ _ hrun

end Growth

end Site

namespace Scene

def gauge (v : Scene) : Gauge where
  id := v.pool.id
  name := v.pool.name
  telemetry := v.telemetry
  capacity := v.pool.capacity
  generation := v.pool.generation
  resizes := v.pool.metrics.resizes
  landmarks := WorkStealing.landmarks v.log.toList

variable (v : Scene) (u : UnitId)

theorem gauge_tally {t : Tally} (h : t ≠ .resize) : (v.tally t).gauge = v.gauge := by
  unfold tally
  split
  · cases t <;> first | rfl | exact absurd rfl h
  · rfl

theorem gauge_store : (v.store u).gauge = v.gauge := gauge_tally _ (by simp)

theorem gauge_take (slots : Slots) {t : Tally} (h : t ≠ .resize) :
    (v.take u slots t).gauge = v.gauge := gauge_tally _ h

theorem gauge_tally_resize : (v.tally .resize).gauge =
    { v.gauge with resizes := v.gauge.resizes + if v.telemetry then 1 else 0 } := by
  unfold tally
  split <;> rfl

theorem gauge_grow : v.grow.gauge = v.gauge.grown v.pool.slots.length := by
  have hlog : landmarks (v.emit (.grew v.pool.id v.pool.name v.pool.capacity
      (2 * v.pool.capacity) v.pool.slots.length)).log.toList = landmarks v.log.toList ++
        [.grew v.pool.id v.pool.name v.pool.capacity (2 * v.pool.capacity)
          v.pool.slots.length] := by
    simp [landmarks, emit, Event.isLandmark]
  refine (gauge_tally_resize _).trans ?_
  change (⟨v.pool.id, v.pool.name, v.telemetry, 2 * v.pool.capacity, v.pool.generation + 1,
    v.pool.metrics.resizes + if v.telemetry then 1 else 0, landmarks _⟩ : Gauge) = _
  rw [hlog]
  rfl

/-- What shows of a call that nobody disturbs: the ring is as before, or was full and has grown. -/
theorem perform_grew (call : Call) : (v.perform call).2.gauge = v.gauge ∨
    (v.perform call).1 = .stored ∧ v.pool.capacity ≤ v.pool.slots.length + 1 ∧
      (v.perform call).2.gauge = v.gauge.grown v.pool.slots.length ∧
      (v.perform call).2.pool.slots.length = v.pool.slots.length + 1 := by
  cases call with
  | push u =>
    rw [perform, push]
    cases v.units.holder? u with
    | some q => exact .inl rfl
    | none =>
      dsimp only
      unfold place
      split
      · exact .inl (gauge_store v u)
      · rename_i hfull
        split
        · refine .inr ⟨rfl, Nat.le_of_not_lt hfull, (gauge_store v.grow u).trans v.gauge_grow, ?_⟩
          rw [slots_store, slots_grow, List.length_append, List.length_singleton]
        · refine .inl ?_
          simp [gauge, emit, landmarks, Event.isLandmark]
  | pop =>
    rw [perform, pop]
    cases Slots.newest v.pool.slots with
    | some u => exact .inl (gauge_take v u _ (by simp))
    | none => exact .inl rfl
  | steal =>
    rw [perform, steal]
    cases Slots.oldest v.pool.slots with
    | some u => exact .inl (gauge_take v u _ (by simp))
    | none => exact .inl (gauge_tally _ (by simp))
  | remove side u =>
    rw [perform, remove]
    split
    · exact .inl (gauge_take v u _ (by simp))
    · exact .inl (gauge_tally v (by simp))

end Scene

namespace Site

theorem gauge_scene (s : Site) : s.scene.gauge = s.gauge := by
  have hlog : landmarks s.scene.log.toList = landmarks s.log.toList := by
    change landmarks (s.log.filter (!·.isRebase)).toList = _
    rw [landmarks, landmarks, Array.toList_filter, List.filter_filter]
    refine List.filter_congr fun e _ => ?_
    cases e <;> rfl
  rw [Scene.gauge, hlog]
  rfl

theorem perform_grew {s s' : Site} {call : Call} {r : Reply} (h : s.Sound [])
    (hu : s.deque.Unlocked) (hc : call.Admissible s.units) (hrun : call.perform s = .ok (r, s')) :
    s'.gauge = s.gauge ∨ r = .stored ∧ s.Grew s' := by
  obtain ⟨x, hx, hb⟩ := perform_scene h hu hc
  obtain ⟨rfl, rfl⟩ := Prod.mk.inj (Except.ok.inj (hrun.symm.trans hx))
  have hlength : s.scene.pool.slots.length = s.deque.length := s.deque.length_window
  refine (Scene.perform_grew s.scene call).imp (fun hsame => ?_)
    fun ⟨hstored, hfull, hgauge, hslots⟩ => ⟨hstored, ?_, ?_, ?_⟩
  · rw [← gauge_scene, hb.scene, hsame, gauge_scene]
  · have hlt := h.deque.length_lt
    rw [hlength] at hfull
    change s.deque.ring.capacity ≤ _ at hfull
    change _ = s.deque.ring.capacity
    omega
  · rw [← gauge_scene, hb.scene, hgauge, gauge_scene, hlength]
  · rw [← hb.scene, hlength] at hslots
    exact s'.deque.length_window.symm.trans hslots

end Site

end WorkStealing
