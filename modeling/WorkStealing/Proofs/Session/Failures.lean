import WorkStealing.Proofs.Deque.Refusals
import WorkStealing.Proofs.Session.Invariant

set_option autoImplicit false

/-!
# Pushes that fail

A push that fails leaves no trace but its own events. A unit that is in no pool can only be refused
by a full ring for which no larger one can be had.
-/
namespace WorkStealing

namespace Scene

variable {v : Scene} {u : UnitId} {e : PoolError}

def unlogged (v : Scene) : Scene := { v with log := #[] }

def Full (v : Scene) : Prop :=
  v.pool.capacity ≤ v.pool.slots.length + 1 ∧ Ring.fits v.limit (2 * v.pool.capacity) = false

theorem place_of_full (h : v.Full) (u : UnitId) : v.place u =
    (.refused (.resourceExhausted (2 * v.pool.capacity)), v.emit (.growthFailed v.pool.id
      v.pool.capacity (.resourceExhausted (2 * v.pool.capacity)))) := by
  rw [place, if_neg (Nat.not_lt.2 h.1), h.2]
  rfl

theorem place_of_not_full (h : ¬ v.Full) (u : UnitId) : (v.place u).1 = .stored := by
  unfold place
  split
  · rfl
  · split
    · rfl
    · rename_i hroom hfits
      exact absurd ⟨Nat.le_of_not_lt hroom, Bool.eq_false_iff.2 hfits⟩ h

theorem place_refused_iff :
    (v.place u).1 = .refused e ↔ e = .resourceExhausted (2 * v.pool.capacity) ∧ v.Full := by
  by_cases h : v.Full
  · rw [place_of_full h, Reply.refused.injEq, eq_comm, and_iff_left h]
  · rw [place_of_not_full h]
    simp [h]

theorem tally_unlogged (v : Scene) (t : Tally) : v.unlogged.tally t = (v.tally t).unlogged := by
  unfold tally
  have htel : v.unlogged.telemetry = v.telemetry := rfl
  rw [htel]
  split <;> rfl

theorem store_unlogged (v : Scene) (u : UnitId) : v.unlogged.store u = (v.store u).unlogged :=
  tally_unlogged ((v.setSlots (v.pool.slots ++ [some u])).setUnits (v.units.hold u v.pool.id)) .push

theorem grow_unlogged (v : Scene) : v.unlogged.grow.unlogged = v.grow.unlogged := by
  unfold grow
  rw [← tally_unlogged, ← tally_unlogged]
  rfl

theorem push_unlogged (v : Scene) (u : UnitId) : (v.unlogged.push u).1 = (v.push u).1 ∧
    (v.unlogged.push u).2.unlogged = (v.push u).2.unlogged := by
  have hholder : v.unlogged.units.holder? u = v.units.holder? u := rfl
  rw [push, push, hholder]
  cases v.units.holder? u with
  | some q => exact ⟨rfl, rfl⟩
  | none =>
    change (v.unlogged.place u).1 = (v.place u).1 ∧
      (v.unlogged.place u).2.unlogged = (v.place u).2.unlogged
    by_cases hroom : v.pool.slots.length + 1 < v.pool.capacity
    · have hplace : ∀ x : Scene, x.pool = v.pool → x.place u = (.stored, x.store u) := by
        intro x hx
        rw [place, hx, if_pos hroom]
      rw [hplace v rfl, hplace v.unlogged rfl, store_unlogged]
      exact ⟨rfl, rfl⟩
    · by_cases hfits : Ring.fits v.limit (2 * v.pool.capacity)
      · have hplace : ∀ x : Scene, x.pool = v.pool → x.limit = v.limit →
            x.place u = (.stored, x.grow.store u) := by
          intro x hx hlimit
          rw [place, hx, hlimit, if_neg hroom, if_pos hfits]
        rw [hplace v rfl rfl, hplace v.unlogged rfl rfl, ← store_unlogged, ← store_unlogged,
          grow_unlogged]
        exact ⟨rfl, rfl⟩
      · have hfull : v.Full := ⟨Nat.le_of_not_lt hroom, Bool.eq_false_iff.2 hfits⟩
        rw [place_of_full hfull, place_of_full (v := v.unlogged) hfull]
        exact ⟨rfl, rfl⟩

theorem push_refused (h : (v.push u).1 = .refused e) : (v.push u).2.unlogged = v.unlogged := by
  unfold push at h ⊢
  cases hn : v.units.holder? u with
  | some q => rfl
  | none =>
    rw [hn] at h
    rw [place_of_full (place_refused_iff.1 h).2]
    rfl

end Scene

def Reply.refusal? : Reply → Option PoolError
  | .refused e => some e
  | _ => none

theorem Reply.refusal?_eq_some {r : Reply} {e : PoolError} :
    r.refusal? = some e ↔ r = .refused e := by
  cases r <;> simp [refusal?]

namespace World

variable {w w' : World} {p : PoolId} {d : Deque} {u : UnitId}

theorem pushOne_eq {r : Reply} (h : w.perform p (.push u) = .ok (r, w')) :
    w.pushOne p u = .ok (r.refusal?, w') := by
  rw [pushOne, h, ok_bind]
  cases r <;> rfl

theorem view_unlogged (w : World) : w.unlogged.view = { w.view with log := #[] } := rfl

theorem view_put_unlogged (w : World) (s : Site) :
    (w.put s).unlogged.view = { w.unlogged.view with
      toContext := s.scene.unlogged.toContext
      pools := w.unlogged.view.pools.setIfInBounds s.scene.unlogged.pool.id.index
        (some s.scene.unlogged.pool) } := by
  rw [view_unlogged, view_put]
  rfl

theorem setIfInBounds_view (h : w.Live p d) :
    w.view.pools.setIfInBounds d.view.id.index (some d.view) = w.view.pools := by
  have hid : d.view.id = p := h.2
  have hslot : w.view.pools[p.index]? = some (some d.view) := by
    change (w.pools.map (Option.map Deque.view))[p.index]? = _
    rw [Array.getElem?_map, h.1]
    rfl
  apply Array.ext_getElem?
  intro i
  rw [Array.getElem?_setIfInBounds, hid]
  split
  · rename_i hi
    rw [← hi, hslot, if_pos (Array.getElem?_eq_some_iff.1 hslot).1]
  · rfl

theorem Alike.symm {loose : Option PoolId} (h : w.Alike w' loose) : w'.Alike w loose :=
  ⟨h.right, h.left, h.view.symm⟩

theorem Alike.trans {w'' : World} {loose : Option PoolId} (h : w.Alike w' loose)
    (h' : w'.Alike w'' loose) : w.Alike w'' loose :=
  ⟨h.left, h'.right, h.view.trans h'.view⟩

theorem Sound.alike_unlogged (h : w.Sound none none) (h' : w'.Sound none none)
    (hv : w.unlogged.view = w'.unlogged.view) : w.unlogged.Alike w'.unlogged none :=
  ⟨h.congr rfl rfl h.counted fun _ => rfl, h'.congr rfl rfl h'.counted fun _ => rfl, hv⟩

theorem Sound.pushOne_failed (h : w.Sound none none) (hl : w.Live p d)
    (hu : w.units.Registered u) : Ensures (w.pushOne p u) fun o =>
      o.1.isSome → w.unlogged.Alike o.2.unlogged none := by
  have hc : (Call.push u).Admissible w.units := by
    rintro v ⟨⟩
    exact hu
  obtain ⟨s, hp⟩ := h.perform hl hc
  rw [pushOne_eq hp.run]
  refine .ok fun hfailed => h.alike_unlogged hp.sound ?_
  obtain ⟨e, he⟩ := Option.isSome_iff_exists.1 hfailed
  have hscene : s.scene.unlogged = (w.site d).scene.unlogged := by
    rw [hp.scene]
    exact Scene.push_refused (Reply.refusal?_eq_some.1 he)
  have hpools : w.unlogged.view.pools.setIfInBounds d.view.id.index (some d.view) =
    w.unlogged.view.pools := setIfInBounds_view hl
  rw [view_put_unlogged, hscene]
  exact congrArg (fun pools => { w.unlogged.view with pools }) hpools.symm

/-- A push step that ends in an error leaves what the world shows as it is. -/
theorem Sound.push_failed (h : w.Sound none none) (n : Nat) (u : UnitId) :
    Ensures (w.step (.push n u)) fun o =>
      ∀ e, o.1.answer = .error e → w.unlogged.Alike o.2.unlogged none := by
  have hu : w.unlogged.Sound none none := h.congr rfl rfl h.counted fun _ => rfl
  have hact : Ensures (w.unlogged.act (.push n u)) fun o =>
      ∀ e, o.1 = .error e → w.unlogged.Alike o.2.unlogged none := by
    rw [World.act]
    cases ho : w.unlogged.owned? n with
    | none => exact .ok fun _ he => by cases he
    | some p =>
      cases hk : w.unlogged.unit? u with
      | none => exact .ok fun _ he => by cases he
      | some e =>
        obtain ⟨d, hl⟩ := hu.live_of_handle? (handle?_of_owned? ho)
        refine .bind (hu.pushOne_failed hl (registered_of_unit? hk)) ?_
        rintro ⟨e, v⟩ hfailed
        cases e with
        | none => exact .ok fun _ he => by cases he
        | some e => exact .ok fun _ _ => hfailed rfl
  rw [step_eq]
  exact .bind hact fun o ho => .ok ho

theorem Sound.pushNew_failed (h : w.Sound none none) (n : Nat) (kind : UnitKind) :
    Ensures (w.step (.pushNew n kind)) fun o => ∀ e, o.1.answer = .error e →
      (w.createUnit kind).2.unlogged.Alike o.2.unlogged none := by
  have hu : (w.createUnit kind).2.unlogged.Sound none none :=
    h.congr rfl rfl (h.counted.create kind) fun _ => UnitTable.holder?_create ..
  have hact : Ensures (w.unlogged.act (.pushNew n kind)) fun o =>
      ∀ e, o.1 = .error e → (w.createUnit kind).2.unlogged.Alike o.2.unlogged none := by
    rw [World.act]
    cases ho : w.unlogged.owned? n with
    | none => exact .ok fun _ he => by cases he
    | some p =>
      obtain ⟨d, hl⟩ := h.live_of_handle? (handle?_of_owned? ho)
      refine .bind (hu.pushOne_failed (d := d) hl
        (UnitTable.registered_create w.units kind)) ?_
      rintro ⟨e, v⟩ hfailed
      cases e with
      | none => exact .ok fun _ he => by cases he
      | some e => exact .ok fun _ _ => hfailed rfl
  rw [step_eq]
  exact .bind hact fun o ho => .ok ho

theorem full_iff (h : d.Sound) : (w.site d).scene.Full ↔
    d.length + 1 = d.capacity ∧ Ring.fits w.limit (2 * d.capacity) = false := by
  have hslots : (w.site d).scene.pool.slots.length = d.length := d.length_window
  have hlt : d.length < d.capacity := h.length_lt
  have hfull : (w.site d).scene.Full ↔
      d.capacity ≤ (w.site d).scene.pool.slots.length + 1 ∧
        Ring.fits w.limit (2 * d.capacity) = false := Iff.rfl
  rw [hfull, hslots]
  refine and_congr_left fun _ => ?_
  omega

/-- A unit that is in no pool is refused exactly by a full ring for which no ring of twice the size
can be had, and no slot has been touched by then. -/
theorem Sound.pushOne_free (h : w.Sound none none) (hl : w.Live p d) (hu : w.units.Registered u)
    (hn : w.units.holder? u = none) :
    ∃ e? v, w.pushOne p u = .ok (e?, v) ∧
      (∀ e, e? = some e ↔ e = .resourceExhausted (2 * d.capacity) ∧ d.length + 1 = d.capacity ∧
        Ring.fits w.limit (2 * d.capacity) = false) ∧
      (e?.isSome → ∃ d', v.Live p d' ∧ d'.ring = d.ring ∧
        d'.foreign.contents = d.foreign.contents) := by
  obtain ⟨hs, hunlocked⟩ := h.site p d hl (by simp)
  have hc : (Call.push u).Admissible w.units := by
    rintro v ⟨⟩
    exact hu
  obtain ⟨s, hrun, hb⟩ := Site.perform_scene hs hunlocked hc
  have hid : s.deque.id = p := hb.frame.id.trans hl.2
  have hvisit : w.perform p (.push u) = .ok (_, w.put s) := visit_eq hl hrun hid
  have hspares := Call.push_spares u (w.site d) _ hrun
  have hreply : (w.site d).scene.perform (.push u) = (w.site d).scene.place u := by
    have hn' : (w.site d).scene.units.holder? u = none := hn
    rw [Scene.perform, Scene.push, hn']
  have hrefused : ∀ e, ((w.site d).scene.perform (.push u)).1 = .refused e ↔
      e = .resourceExhausted (2 * d.capacity) ∧ d.length + 1 = d.capacity ∧
        Ring.fits w.limit (2 * d.capacity) = false := by
    intro e
    rw [hreply, Scene.place_refused_iff, full_iff (w := w) (d := d) hs.deque]
    rfl
  refine ⟨_, _, pushOne_eq hvisit, fun e => Reply.refusal?_eq_some.trans (hrefused e), ?_⟩
  intro hfailed
  obtain ⟨e, he⟩ := Option.isSome_iff_exists.1 hfailed
  rw [Reply.refusal?_eq_some] at he
  have hsame : (w.site d).SameRings s := hspares.resolve_left (by simp [he])
  exact ⟨s.deque, (live_put hl hid).2 (.inl ⟨rfl, rfl⟩), hsame.ring, hsame.replaced⟩

end World

namespace World

theorem step_of_act {w v : World} {op : Op} {a : Answer} (hop : op.needsHooks = false)
    (h : w.unlogged.act op = .ok (a, v)) :
    w.step op = .ok (⟨a, op.subject? >>= v.sizeOf, v.log⟩, v) := by
  rw [step_eq, answer, hop, Bool.false_and, if_neg Bool.false_ne_true, h]
  rfl

theorem Sound.push_free {w : World} (h : w.Sound none none) {n : Nat} {p : PoolId} {d : Deque}
    {u : UnitId} {e : UnitEntry} (ho : w.owned? n = some p) (hl : w.Live p d)
    (hu : w.unit? u = some e) (hfree : e.unit.pool = none) :
    ∃ report v, w.step (.push n u) = .ok (report, v) ∧
      (∀ err, report.answer = .error err ↔ err = .resourceExhausted (2 * d.capacity) ∧
        d.length + 1 = d.capacity ∧ Ring.fits w.limit (2 * d.capacity) = false) ∧
      ∀ err, report.answer = .error err → ∃ d', v.Live p d' ∧ d'.ring = d.ring ∧
        d'.foreign.contents = d.foreign.contents := by
  have hu' : w.unlogged.Sound none none := h.congr rfl rfl h.counted fun _ => rfl
  have hn : w.units.holder? u = none := by
    obtain ⟨he, _⟩ := Option.filter_eq_some_iff.1 hu
    rw [UnitTable.holder?, he, Option.bind_some, hfree]
  obtain ⟨e?, v, hrun, hiff, hsame⟩ := hu'.pushOne_free (p := p) (d := d) hl
    (registered_of_unit? hu) hn
  have hact : w.unlogged.act (.push n u) = .ok (e?.elim .ok .error, v) := by
    have ho' : w.unlogged.owned? n = some p := ho
    have hk : w.unlogged.unit? u = some e := hu
    rw [World.act, ho', hk]
    simp only [hrun, ok_bind]
    cases e? <;> rfl
  have herror : ∀ err, e?.elim Answer.ok Answer.error = .error err ↔ e? = some err := by
    intro err
    cases e? <;> simp
  refine ⟨_, v, step_of_act rfl hact, fun err => (herror err).trans (hiff err), fun err he => ?_⟩
  exact hsame (Option.isSome_iff_exists.2 ⟨err, (herror err).1 he⟩)

end World

end WorkStealing
