import WorkStealing.Proofs.Session.Capacity

set_option autoImplicit false

/-!
# What goes into the pools and comes out of them

A unit gets into a ring by a push that ends there, and out of it by a call that ends with the unit,
or with the pool.
-/
namespace WorkStealing

theorem Flight.mem_got {u : UnitId} {flight : Flight} :
    u ∈ flight.got ↔ flight = .landed (.taken u) := by
  cases flight with
  | landed r => cases r <;> simp [got, Reply.got, eq_comm]
  | waiting => simp [got]

theorem Flight.mem_gave {u : UnitId} {call : Call} {flight : Flight} :
    u ∈ flight.gave call ↔ call = .push u ∧ flight = .landed .stored := by
  cases flight with
  | landed r => cases call <;> cases r <;> simp [gave, Call.gave, eq_comm]
  | waiting => simp [gave]

namespace Site

variable {s s' : Site} {π π' : Pledge}

theorem Stands.mem_units (h : s.Stands π) {u : UnitId} :
    u ∈ s.deque.ring.units ↔ u ∈ s.backlog π := by
  have hmem := h.sound.deque.mem_units (u := u)
  cases π <;> exact hmem

theorem mem_units_of_perm (h : s.Stands π) (h' : s'.Stands π') {call : Call} {flight : Flight}
    (hb : (s'.backlog π' ++ flight.got).Perm (s.backlog π ++ flight.gave call)) (u : UnitId) :
    (u ∈ s'.deque.ring.units ∨ flight = .landed (.taken u)) ↔
      (u ∈ s.deque.ring.units ∨ call = .push u ∧ flight = .landed .stored) := by
  have hmem := hb.mem_iff (a := u)
  rw [List.mem_append, List.mem_append, ← h.mem_units, ← h'.mem_units, Flight.mem_got,
    Flight.mem_gave] at hmem
  exact hmem

end Site

namespace Leg

/-- The stretch ends with the unit in pool `p`. -/
structure Stores (l : Leg) (p : PoolId) (u : UnitId) : Prop where
  pool : l.before.deque.id = p
  call : l.call = .push u
  flight : l.flight = .landed .stored

/-- The stretch ends with the unit out of pool `p`. -/
structure Takes (l : Leg) (p : PoolId) (u : UnitId) : Prop where
  pool : l.before.deque.id = p
  flight : l.flight = .landed (.taken u)

variable {l : Leg} {u : UnitId}

/-- The units of the ring after a stretch are those before it, with the one that it stored and
without the one that it took. -/
theorem Ran.units (h : l.Ran) (u : UnitId) :
    (u ∈ l.after.deque.ring.units ∨ l.flight = .landed (.taken u)) ↔
      (u ∈ l.before.deque.ring.units ∨ l.call = .push u ∧ l.flight = .landed .stored) := by
  cases h with
  | @alone call s s' r sound free admissible run =>
    obtain ⟨x, hx, hb⟩ := Site.perform_scene sound free admissible
    obtain ⟨rfl, rfl⟩ := Prod.mk.inj (Except.ok.inj (run.symm.trans hx))
    have hbalance : (s'.deque.queued ++ (Flight.landed (s.scene.perform call).1).got).Perm
        (s.deque.queued ++ (Flight.landed (s.scene.perform call).1).gave call) :=
      (Site.perform_balance sound hb.scene).2
    exact Site.mem_units_of_perm (.of_sound sound) (.of_sound hb.sound) hbalance u
  | boards stands _ _ _ run comes =>
    exact Site.mem_units_of_perm stands comes.steps.stands
      (comes.trades (Call.start_works _ _ _ run)).balance u
  | turns sound front served run comes =>
    exact Site.mem_units_of_perm sound.lined.stands comes.steps.stands
      (comes.trades (Call.turn_works _ _ _ _ _ _ run)).balance u

end Leg

namespace World

variable {w v : World} {bs : List Beat} {p : PoolId} {u : UnitId}

def Houses (w : World) (p : PoolId) (u : UnitId) : Prop :=
  ∃ d, w.Live p d ∧ u ∈ d.ring.units

theorem Sound.houses_iff (h : w.Sound none none) :
    w.Houses p u ↔ w.units.holder? u = some p := by
  constructor
  · rintro ⟨d, hl, hu⟩
    have hs := (h.site p d hl (by simp)).1
    rw [← hl.2]
    exact hs.holder_of_mem (hs.deque.mem_units.1 hu)
  · intro hu
    obtain ⟨d, hl⟩ := h.holder u p hu
    have hs := (h.site p d hl (by simp)).1
    have hmem := (hs.holder u).1 (hu.trans (congrArg some hl.2.symm))
    rw [List.append_nil] at hmem
    exact ⟨d, hl, hs.deque.mem_units.2 hmem⟩

theorem houses_put {d : Deque} {s : Site} (hl : w.Live d.id d) (hid : s.deque.id = d.id) :
    (w.put s).Houses p u ↔
      if d.id = p then u ∈ s.deque.ring.units else w.Houses p u := by
  simp only [Houses, live_put hl hid]
  split
  · rename_i hp
    subst hp
    simp
  · rename_i hp
    simp [Ne.symm hp]

theorem houses_put_same {d : Deque} {s : Site} (hl : w.Live d.id d) (hid : s.deque.id = d.id)
    (hring : s.deque.ring = d.ring) : (w.put s).Houses p u ↔ w.Houses p u := by
  rw [houses_put hl hid, hring]
  split
  · rename_i hp
    subst hp
    exact ⟨fun hu => ⟨d, hl, hu⟩, fun ⟨e, he, hu⟩ => he.unique hl ▸ hu⟩
  · exact Iff.rfl

namespace Path

/-- Whatever is in a pool was there at first or was pushed on the way. -/
theorem stored (h : w.Path bs v) (hv : v.Houses p u) :
    w.Houses p u ∨ ∃ l, .leg l ∈ bs ∧ l.Stores p u := by
  induction h with
  | refl => exact .inl hv
  | @leg v bs l d way live start ran ih =>
    have hbefore : l.before.deque.id = d.id := congrArg (·.deque.id) start
    have hlater : v.Houses p u → w.Houses p u ∨ ∃ l', .leg l' ∈ bs ++ [.leg l] ∧ l'.Stores p u :=
      fun hv => (ih hv).imp id fun ⟨l', hl', hs⟩ => ⟨l', List.mem_append_left _ hl', hs⟩
    rw [houses_put live (ran.id_eq.trans hbefore)] at hv
    split at hv
    · rename_i hp
      rcases (ran.units u).1 (.inl hv) with hu | ⟨hcall, hflight⟩
      · rw [start] at hu
        exact hlater ⟨d, hp ▸ live, hu⟩
      · exact .inr ⟨l, List.mem_append_right _ List.mem_cons_self, hbefore.trans hp, hcall, hflight⟩
    · exact hlater hv
  | reset way live ih =>
    exact (ih ((houses_put_same live rfl rfl).1 hv)).imp id fun ⟨l', hl', hs⟩ =>
      ⟨l', List.mem_append_left _ hl', hs⟩
  | locked way live contents ih => exact ih ((houses_put_same live rfl rfl).1 hv)
  | opened start way valid ih =>
    obtain ⟨d, hd, hu⟩ := hv
    rcases live_opened.1 hd with ⟨-, rfl⟩ | hd
    · exact absurd hu (by simp [Deque.fresh, Ring.units, Ring.blank])
    · exact ih ⟨d, hd, hu⟩
  | closed way live ih =>
    obtain ⟨d, hd, hu⟩ := hv
    exact ih ⟨d, ((live_close live rfl).1 hd).2, hu⟩
  | aside way telemetry log pools ih =>
    obtain ⟨d, hd, hu⟩ := hv
    rw [Live, pools] at hd
    exact ih ⟨d, hd, hu⟩

theorem size_le (h : w.Path bs v) : w.pools.size ≤ v.pools.size := by
  induction h with
  | refl => exact Nat.le_refl _
  | leg _ _ _ _ ih | reset _ _ ih | locked _ _ _ ih | closed _ _ ih =>
    exact ih.trans (Nat.le_of_eq (Array.size_setIfInBounds ..).symm)
  | opened start _ _ ih => exact ih.trans (by simp [World.opened])
  | aside _ _ _ pools ih => exact ih.trans (Nat.le_of_eq (congrArg Array.size pools.symm))

theorem gone (h : w.Path bs v) (hsize : p.index < w.pools.size) (hgone : ∀ d, ¬ w.Live p d)
    (d : Deque) : ¬ v.Live p d := by
  induction h generalizing d with
  | refl => exact hgone d
  | leg way live start ran ih =>
    intro hd
    rcases (live_put live (ran.id_eq.trans (congrArg (·.deque.id) start))).1 hd with
      ⟨rfl, -⟩ | ⟨-, hd⟩
    · exact ih _ live
    · exact ih d hd
  | reset way live ih | locked way live _ ih =>
    intro hd
    rcases (live_put live rfl).1 hd with ⟨rfl, -⟩ | ⟨-, hd⟩
    · exact ih _ live
    · exact ih d hd
  | opened start way valid ih =>
    intro hd
    rcases live_opened.1 hd with ⟨rfl, -⟩ | hd
    · rw [PoolId.index_ofIndex] at hsize
      exact absurd way.size_le (Nat.not_le.2 hsize)
    · exact ih d hd
  | closed way live ih => exact fun hd => ih d ((live_close live rfl).1 hd).2
  | aside way telemetry log pools ih =>
    intro hd
    rw [Live, pools] at hd
    exact ih d hd

/-- What was in a pool is still there, unless it was taken on the way or the pool has ended. -/
theorem taken (h : w.Path bs v) (hw : w.Houses p u) :
    v.Houses p u ∨ (∃ l, .leg l ∈ bs ∧ l.Takes p u) ∨ ∀ d, ¬ v.Live p d := by
  have hsize : p.index < w.pools.size := by
    obtain ⟨d, hd, -⟩ := hw
    exact (Array.getElem?_eq_some_iff.1 hd.1).1
  -- an ended pool stays so, and what was taken once needs no second thought
  have hstep : ∀ {v v' : World} {bs bs' : List Beat}, w.Path bs v → v.Path bs' v' →
      (v.Houses p u ∨ (∃ l, .leg l ∈ bs ∧ l.Takes p u) ∨ ∀ d, ¬ v.Live p d) →
      (v.Houses p u →
        v'.Houses p u ∨ (∃ l, .leg l ∈ bs' ∧ l.Takes p u) ∨ ∀ d, ¬ v'.Live p d) →
      v'.Houses p u ∨ (∃ l, .leg l ∈ bs ++ bs' ∧ l.Takes p u) ∨ ∀ d, ¬ v'.Live p d := by
    intro v v' bs bs' way next hbefore hnow
    rcases hbefore with hv | ⟨l, hl, ht⟩ | hgone
    · exact (hnow hv).imp id (Or.imp (fun ⟨l, hl, ht⟩ => ⟨l, List.mem_append_right _ hl, ht⟩) id)
    · exact .inr (.inl ⟨l, List.mem_append_left _ hl, ht⟩)
    · exact .inr (.inr (next.gone (hsize.trans_le way.size_le) hgone))
  induction h with
  | refl => exact .inl hw
  | @leg v bs l d way live start ran ih =>
    have hbefore : l.before.deque.id = d.id := congrArg (·.deque.id) start
    have next : v.Path [.leg l] (v.put l.after) := .of_leg live start ran
    refine hstep way next ih fun hv => ?_
    rw [houses_put live (ran.id_eq.trans hbefore)]
    split
    · rename_i hp
      obtain ⟨e, he, hu⟩ := hv
      obtain rfl := he.unique (hp ▸ live)
      have hu' : u ∈ l.before.deque.ring.units := by
        rw [start]
        exact hu
      exact ((ran.units u).2 (.inl hu')).imp id fun hflight =>
        .inl ⟨l, List.mem_cons_self, hbefore.trans hp, hflight⟩
    · exact .inl hv
  | @reset v bs d way live ih =>
    exact hstep way (.reset (.refl v) live) ih fun hv =>
      .inl ((houses_put_same live rfl rfl).2 hv)
  | @locked v bs d l way live contents ih =>
    rw [← List.append_nil bs]
    exact hstep way (.locked (.refl v) live contents) ih fun hv =>
      .inl ((houses_put_same live rfl rfl).2 hv)
  | @opened v bs config start way valid ih =>
    rw [← List.append_nil bs]
    refine hstep way (.opened start (.refl v) valid) ih fun ⟨d, hd, hu⟩ => .inl ?_
    exact ⟨d, live_opened.2 (.inr hd), hu⟩
  | @closed v bs d way live ih =>
    rw [← List.append_nil bs]
    refine hstep way (.closed (.refl v) live) ih fun ⟨e, he, hu⟩ => ?_
    by_cases hp : p = d.id
    · exact .inr (.inr fun e' he' => ((live_close live rfl).1 he').1 hp)
    · exact .inl ⟨e, (live_close live rfl).2 ⟨hp, he⟩, hu⟩
  | @aside v v' bs way telemetry log pools ih =>
    rw [← List.append_nil bs]
    refine hstep way (.aside (.refl v) telemetry log pools) ih fun ⟨d, hd, hu⟩ => .inl ?_
    refine ⟨d, ?_, hu⟩
    rw [Live, pools]
    exact hd

end Path

end World

end WorkStealing
