import WorkStealing.Proofs.Deque.Scene
import WorkStealing.Proofs.Deque.Stages
import WorkStealing.Proofs.Deque.Turns

set_option autoImplicit false

/-!
# Calls that nobody disturbs

A call on a pool in order, with the lock free, runs to its end. Its reply and what the pool shows
afterwards depend only on what the pool showed before.
-/
namespace WorkStealing

namespace Call

def unit? : Call → Option UnitId
  | .push u | .remove _ u => some u
  | .pop | .steal => none

def Admissible (call : Call) (t : UnitTable) : Prop := ∀ u ∈ call.unit?, t.Registered u

/-- How often a call that nobody disturbs has to take the lock at most: a push may have to bring the
counters back before it grows the ring, and a steal takes it again after each hole. -/
def grantsAlone (d : Deque) : Call → Nat
  | .push _ => 2
  | .steal => d.holes + 1
  | .pop | .remove .. => 1

theorem grantsAlone_le (call : Call) (d : Deque) : call.grantsAlone d ≤ grantBudget 1 d.length := by
  have hholes := d.holes_le_length
  cases call <;> simp only [grantsAlone, grantBudget] <;> omega

theorem tally?_ne_rebase (call : Call) (r : Reply) : call.tally? r ≠ some .rebase := by
  cases call <;> cases r <;> simp [tally?]

end Call

namespace Site

/-- From `s` a pool in order is reached, with its lock free, that shows `v`. -/
structure Becomes (s s' : Site) (v : Scene) : Prop where
  sound : s'.Sound []
  unlocked : s'.deque.Unlocked
  frame : s.Frame s'
  scene : s'.scene = v

/-- The run ends with the reply `o.1` and leaves a pool in order that shows `o.2`. -/
def Lands (s : Site) (run : Checked (Flight × Site)) (o : Reply × Scene) : Prop :=
  ∃ s', run = .ok (.landed o.1, s') ∧ s.Becomes s' o.2

section Landing

variable {s s' : Site} {v : Scene}

theorem Becomes.refl (h : s.Sound []) (hu : s.deque.Unlocked) : s.Becomes s s.scene :=
  ⟨h, hu, Frame.refl s, rfl⟩

theorem scene_setSlots (s : Site) {d : Deque} {w : Slots}
    (hview : d.view = { s.deque.view with slots := w }) :
    { s with deque := d }.scene = s.scene.setSlots w := by
  simp only [scene, hview]
  rfl

theorem Becomes.count (h : s.Becomes s' v) {o : Option Tally} (ho : o ≠ some .rebase) :
    s.Becomes (s'.count o) (v.count o) := by
  obtain ⟨m, hm⟩ := s'.exists_count o
  have hscene : (s'.count o).scene = v.count o := by
    cases o with
    | none => exact h.scene
    | some t =>
      rw [← h.scene]
      exact s'.scene_tally fun ht => ho (congrArg some ht)
  refine ⟨?_, ?_, ?_, hscene⟩
  · rw [hm]
    exact h.sound.congr rfl rfl rfl rfl rfl rfl
  · rw [hm]
    exact h.unlocked
  · rw [hm]
    exact h.frame.trans (Frame.of_deque s' rfl rfl)

theorem Lands.from {run : Checked (Flight × Site)} {o : Reply × Scene} (h : s'.Lands run o)
    (hf : s.Frame s') : s.Lands run o := by
  obtain ⟨s'', hrun, hb⟩ := h
  exact ⟨s'', hrun, hb.sound, hb.unlocked, hf.trans hb.frame, hb.scene⟩

theorem lands_reply {call : Call} {r : Reply} (hr : ∀ u, r ≠ .taken u) (h : s.Becomes s' v)
    (grants : Nat) :
    s.Lands (call.proceed grants (.reply r, s')) (r, v.count (call.tally? r)) :=
  ⟨_, Call.proceed_reply (Call.conclude_of_not_taken hr) grants,
    h.count (call.tally?_ne_rebase r)⟩

theorem lands_taken {call : Call} {u : UnitId} {t : Tally} {d : Deque} {w : Slots}
    (h : s.Sound []) (hu : u ∈ s.deque.queued) (hd : d.Sound) (hunlocked : d.Unlocked)
    (hview : d.view = { s.deque.view with slots := w })
    (hw : Slots.units w = s.deque.queued.erase u) (ht : call.tally? (.taken u) = some t)
    (grants : Nat) :
    s.Lands (call.proceed grants (.reply (.taken u),
      { s with units := s.units.setHolder u none, deque := d }))
      (.taken u, s.scene.take u w t) := by
  have hheld := h.holder_of_mem hu
  obtain ⟨e, he⟩ := UnitTable.knows_of_holder? hheld
  have hend : call.conclude (.taken u) { s with units := s.units.setHolder u none, deque := d } =
      _ := Call.conclude_taken rfl he
    (h.counted.refs_pos_of_holder? he hheld)
  have hid : d.id = s.deque.id := congrArg Deque.View.id hview
  have hwin : d.window = w := congrArg Deque.View.slots hview
  have hb : s.Becomes { s with units := s.units.letGo u, deque := d }
      ((s.scene.setSlots w).setUnits (s.units.letGo u)) :=
    { sound := h.take hu hd hid (by rw [Deque.queued_eq, hwin, hw])
      unlocked := hunlocked
      frame := Frame.of_units s (UnitTable.Frame.letGo hheld) hid
        (congrArg Deque.View.name hview)
      scene := by
        simp only [scene, hview]
        rfl }
  refine ⟨_, Call.proceed_reply hend grants, ?_⟩
  rw [ht]
  exact hb.count (ht ▸ call.tally?_ne_rebase _)

end Landing

section Steal

theorem scene_steal_taken {s : Site} {u : UnitId} (h : Slots.oldest s.deque.window = some u) :
    s.scene.steal = (.taken u, s.scene.take u (Slots.dropOldest s.deque.window) .steal) := by
  have h' : Slots.oldest s.scene.pool.slots = some u := h
  rw [Scene.steal, h']
  rfl

theorem steal_empty {s : Site} (h : s.Sound []) (hu : s.deque.Unlocked)
    (hempty : s.deque.tail ≤ s.deque.head) (grants : Nat) :
    s.Lands (s.peekSteal >>= Call.steal.proceed grants) s.scene.steal := by
  have hwin : s.scene.pool.slots = [] := Deque.window_eq_nil.2 hempty
  have hsteal : s.scene.steal = (.missed, s.scene.count (Call.steal.tally? .missed)) := by
    have hsame : s.scene.setSlots [] = s.scene := by rw [← hwin]; rfl
    rw [Scene.steal, hwin, Slots.oldest_nil, hsame]
    rfl
  rw [peekSteal, if_pos hempty, hsteal, pure_eq_ok, ok_bind]
  exact lands_reply (r := .missed) (by simp) (Becomes.refl h hu) grants

/-- A stealer passes the holes before the oldest unit one by one. -/
theorem steal_lands {grants : Nat} {s : Site} (h : s.Sound []) (hu : s.deque.Unlocked)
    (hg : s.deque.holes < grants) :
    s.Lands (s.peekSteal >>= Call.steal.proceed grants) s.scene.steal := by
  induction grants generalizing s with
  | zero => exact absurd hg (Nat.not_lt_zero _)
  | succ grants ih =>
    by_cases hempty : s.deque.tail ≤ s.deque.head
    · exact steal_empty h hu hempty _
    · have hlt : s.deque.head < s.deque.tail := by omega
      have hwin := Deque.window_cons hlt
      have hpeek : s.peekSteal = .ok (.go .steal, s) := if_neg hempty
      cases hc : s.deque.ring.cell s.deque.head with
      | none =>
        have hlocked := stealLocked_hole (s := s.held) h.held.deque hlt hc
        let s' := (s.held.setHead (s.deque.head + 1)).released
        have hs' : s'.Sound [] := h.same_units rfl rfl
          ((h.deque.dropFront hlt hc).congr rfl rfl rfl rfl)
          (by rw [Deque.queued_eq, Deque.queued_eq, hwin, hc]; rfl)
        have hscene : s.scene.steal = s'.scene.steal := by
          have hslots : s.scene.pool.slots = none :: s'.scene.pool.slots :=
            hwin.trans (by rw [hc]; rfl)
          rw [Scene.steal, Scene.steal, hslots]
          rfl
        rw [hpeek, ok_bind, Call.proceed_go hu, LockedStage.run, hlocked, ok_bind,
          Call.resume_go, hscene]
        refine (ih hs' (congrArg (· + 1) hu) ?_).from (Frame.of_deque s rfl rfl)
        -- a grant is spent, and there is one hole less to pass
        have hholes : s'.deque.holes + 1 = s.deque.holes := Deque.holes_dropFront hlt hc
        omega
      | some u =>
        have hlocked := stealLocked_taken (s := s.held) h.held.deque hlt hc (h.knows_of_cell hc)
        obtain ⟨hd, hw, hold⟩ := h.deque.takeFront hlt hc
        rw [hpeek, ok_bind, Call.proceed_go hu, LockedStage.run, hlocked, ok_bind,
          Call.resume_reply, scene_steal_taken hold]
        refine lands_taken (d := ((s.held.setHead (s.deque.head + 1)).grabbed s.deque.head
          u).released.deque) h ?_ (hd.congr rfl rfl rfl rfl) (congrArg (· + 1) hu) ?_ ?_ rfl grants
        · exact Deque.mem_queued.2 ⟨_, Nat.le_refl _, hlt, hc⟩
        · rw [← hw]
          exact Deque.view_of_window rfl rfl (Ring.capacity_put ..) rfl rfl
        · exact Slots.units_dropOldest_eq_erase hold

end Steal

section Pop

theorem scene_pop_taken {s : Site} {u : UnitId} (h : Slots.newest s.deque.window = some u) :
    s.scene.pop = (.taken u, s.scene.take u (Slots.dropNewest s.deque.window) .pop) := by
  have h' : Slots.newest s.scene.pool.slots = some u := h
  rw [Scene.pop, h']
  rfl

theorem popBack_lands {grants : Nat} {s : Site} (h : s.Sound []) (hu : s.deque.Unlocked) :
    s.Lands (s.popBack none >>= Call.pop.proceed (grants + 1)) s.scene.pop := by
  by_cases hempty : s.deque.tail ≤ s.deque.head
  · have hwin : s.scene.pool.slots = [] := Deque.window_eq_nil.2 hempty
    have hpop : s.scene.pop = (.missed, s.scene.count (Call.pop.tally? .missed)) := by
      have hsame : s.scene.setSlots [] = s.scene := by rw [← hwin]; rfl
      rw [Scene.pop, hwin, Slots.newest_nil, hsame]
      rfl
    rw [popBack_empty hempty, hpop, ok_bind]
    exact lands_reply (r := .missed) (by simp) (Becomes.refl h hu) _
  · have hlt : s.deque.head < s.deque.tail := by omega
    rcases popBack_none h.deque (fun i u => h.knows_of_cell) hlt with
      ⟨t, u, hrun, -, hc, hd, hw, hnew⟩ | ⟨hrun, hd, hnew, hdrop, hunits⟩
    · rw [hrun, ok_bind, scene_pop_taken hnew]
      refine lands_taken h ?_ hd hu ?_ ?_ rfl _
      · exact h.deque.mem_queued_iff.2 ⟨t, hc⟩
      · rw [← hw]
        exact Deque.view_of_window rfl rfl (Ring.capacity_put ..) rfl rfl
      · exact Slots.units_dropNewest_eq_erase h.nodup_queued hnew
    · -- The owner has lowered the tail to the head and asks for the lock.
      have hring : (s.setTail s.deque.head).held.deque.ring.Sound := h.deque.ring
      have hu' : (s.setTail s.deque.head).deque.Unlocked := hu
      cases hc : s.deque.ring.cell s.deque.head with
      | none =>
        have hlocked := lastSlot_hole (o := none) hring rfl hc
        let s' := (s.setTail s.deque.head).held.released
        have hwin : s'.deque.window = [] := Deque.window_eq_nil.2 (Nat.le_refl _)
        have hs' : s'.Sound [] := by
          refine h.same_units rfl rfl
            ((hd.dropBack (Nat.lt_succ_self _) hc).congr rfl rfl rfl rfl) ?_
          rw [Deque.queued_eq, Deque.queued_eq, hwin, hunits, hc]
          rfl
        have hview : s'.deque.view = { s.deque.view with slots := [] } := by
          rw [← hwin]
          exact Deque.view_of_window rfl rfl rfl rfl rfl
        have hpop : s.scene.pop =
            (.missed, (s.scene.setSlots []).count (Call.pop.tally? .missed)) := by
          have hnew' : Slots.newest s.scene.pool.slots = none := hnew.trans hc
          rw [Scene.pop, hnew']
          rfl
        rw [hrun, ok_bind, Call.proceed_go hu', LockedStage.run, hlocked, if_pos rfl, ok_bind,
          Call.resume_go, FreeStage.run, popBack_empty (Nat.le_refl _), ok_bind, hpop]
        exact lands_reply (r := .missed) (by simp) ⟨hs', congrArg (· + 1) hu,
          Frame.of_deque s rfl rfl, scene_setSlots s hview⟩ _
      | some u =>
        have hlocked := lastSlot_taken (o := none) hring rfl hc (h.knows_of_cell hc)
          (.inl rfl)
        obtain ⟨hd', hw, _⟩ := hd.takeBack (Nat.lt_succ_self _) hc
        rw [hrun, ok_bind, Call.proceed_go hu', LockedStage.run, hlocked, ok_bind,
          Call.resume_reply, scene_pop_taken (hnew.trans hc)]
        refine lands_taken (d := ((s.setTail s.deque.head).held.grabbed s.deque.head
          u).released.deque) h ?_ (hd'.congr rfl rfl rfl rfl) (congrArg (· + 1) hu) ?_ ?_ rfl _
        · exact Deque.mem_queued.2 ⟨_, Nat.le_refl _, hlt, hc⟩
        · have hnil : ((s.setTail s.deque.head).held.grabbed s.deque.head u).released.deque.window
              = [] := Deque.window_eq_nil.2 (Nat.le_refl _)
          rw [hdrop, ← hnil]
          exact Deque.view_of_window rfl rfl (Ring.capacity_put ..) rfl rfl
        · exact Slots.units_dropNewest_eq_erase h.nodup_queued (hnew.trans hc)

end Pop

section Push

/-- From `s` a pool is reached, with its lock free, that shows `v` but for `u`, which is marked to
be placed. -/
structure Marks (s s' : Site) (u : UnitId) (v : Scene) : Prop where
  sound : s'.Sound [u]
  unlocked : s'.deque.Unlocked
  frame : s.Frame s'
  free : v.units.holder? u = none
  scene : s'.scene = v.setUnits (v.units.hold u v.pool.id)

theorem scene_grown {s : Site} (h : s.deque.Sound) {g : Ring.Growth}
    (hg : Ring.Grown s.deque.ring s.deque.head s.deque.length g) :
    (s.grown g).scene = s.scene.grow := by
  have hw := (h.grown hg (l := s.deque.foreign.modify (g.emptied :: ·)) rfl).2
  rw [grown, scene_tally _ (by decide), Scene.grow]
  refine congrArg (fun v : Scene => v.tally .resize) ?_
  have hlen : s.deque.window.length = s.deque.length := s.deque.length_window
  simp only [scene, emit, Scene.emit, Context.quiet, Deque.view, Deque.generation, Deque.capacity,
    hw]
  simp [hg.capacity_eq, hlen, Event.isRebase, TicketLock.modify]

theorem scene_rebased {s : Site} (hw : { s.deque with
      head := s.deque.head % s.deque.ring.capacity
      tail := s.deque.tail % s.deque.ring.capacity }.window = s.deque.window) :
    s.rebased.scene = s.scene := by
  rw [rebased, scene_emit_rebased, scene_tally_rebase]
  refine scene_setSlots (w := s.deque.window) s ?_
  rw [← hw]
  exact Deque.view_of_window rfl rfl rfl rfl rfl

namespace Marks

variable {s s' : Site} {u : UnitId} {v : Scene}

theorem length_eq (h : s.Marks s' u v) : v.pool.slots.length = s'.deque.length := by
  have hview : s'.deque.view = v.pool := congrArg Scene.pool h.scene
  rw [← hview]
  exact s'.deque.length_window

theorem capacity_eq (h : s.Marks s' u v) : v.pool.capacity = s'.deque.ring.capacity := by
  have hview : s'.deque.view = v.pool := congrArg Scene.pool h.scene
  rw [← hview]
  rfl

theorem holder_eq (h : s.Marks s' u v) : s'.units.holder? u = some s'.deque.id :=
  (h.sound.holder u).2 (by simp)

theorem passed (h : s.Marks s' u v) : s.Marks s'.held.released u v where
  sound := h.sound.held.released
  unlocked := congrArg (· + 1) h.unlocked
  frame := h.frame.trans (Frame.of_deque s' rfl rfl)
  free := h.free
  scene := h.scene

theorem stored (h : s.Marks s' u v) (hroom : s'.deque.length + 1 < s'.deque.ring.capacity)
    (htail : s'.deque.tail < Word.max) :
    s.Becomes { s' with deque := s'.deque.fill u }
      ((v.setSlots (v.pool.slots ++ [some u])).setUnits (v.units.hold u v.pool.id)) := by
  have hd := h.sound.deque
  have hwin := hd.window_fill u
  refine ⟨h.sound.place (hd.fill hroom htail u) rfl ?_, h.unlocked,
    h.frame.trans (Frame.of_deque s' rfl rfl), ?_⟩
  · rw [Deque.queued_eq, hwin, Slots.units_append]
    rfl
  · rw [scene_setSlots s' (w := s'.deque.window ++ [some u])]
    · have hslots : s'.deque.window = v.pool.slots :=
        congrArg (fun v : Scene => v.pool.slots) h.scene
      rw [h.scene, hslots]
      rfl
    · rw [← hwin]
      exact Deque.view_of_window rfl rfl (Ring.capacity_put ..) rfl rfl

theorem refused (h : s.Marks s' u v) (e : Event) (he : e.isRebase = false) :
    s.Becomes ((s'.emit e).setUnits (s'.units.letGo u)) (v.emit e) where
  sound := h.sound.dropPending.congr rfl rfl rfl rfl rfl rfl
  unlocked := h.unlocked
  frame := h.frame.trans ⟨UnitTable.Frame.letGo h.holder_eq, rfl, rfl, rfl, rfl⟩
  scene := by
    have hunits : s'.units = v.units.hold u v.pool.id :=
      congrArg (fun v : Scene => v.units) h.scene
    rw [scene_setUnits, scene_emit s' he, h.scene, hunits, UnitTable.letGo_hold h.free]
    rfl

theorem grown (h : s.Marks s' u v) {g : Ring.Growth}
    (hg : Ring.Grown s'.deque.ring s'.deque.head s'.deque.length g) :
    s.Marks (s'.held.grown g).released u v.grow := by
  obtain ⟨hd, hw⟩ := h.sound.deque.grown hg (l := (s'.held.deque.foreign.modify
    (g.emptied :: ·)).release) rfl
  obtain ⟨log, metrics, hgrown⟩ := s'.held.exists_grown g
  have hheld : s'.held.deque.Sound := h.sound.held.deque
  have hscene : (s'.held.grown g).released.scene = s'.scene.grow :=
    scene_grown hheld hg
  refine ⟨?_, ?_, ?_, ?_, ?_⟩
  · rw [hgrown]
    exact h.sound.same_units rfl rfl (hd.congr rfl rfl rfl rfl) (congrArg Slots.units hw)
  · rw [hgrown]
    exact congrArg (· + 1) h.unlocked
  · rw [hgrown]
    exact h.frame.trans ⟨UnitTable.Frame.refl .., rfl, rfl, rfl, rfl⟩
  · rw [Scene.units_grow]
    exact h.free
  · rw [hscene, h.scene, Scene.grow_setUnits, Scene.units_grow, Scene.id_grow]

theorem place_lands (h : s.Marks s' u v) (htail : s'.deque.tail < Word.max) (grants : Nat) :
    s.Lands (s'.place u >>= (Call.push u).proceed (grants + 1)) (v.place u) := by
  have hd := h.sound.deque
  by_cases hroom : s'.deque.length + 1 < s'.deque.ring.capacity
  · have hplace : v.place u = (.stored, v.store u) := by
      rw [Scene.place, h.length_eq, h.capacity_eq, if_pos hroom]
    rw [place_stored hd hroom htail, ok_bind, hplace]
    exact lands_reply (r := .stored) (by simp) (h.stored hroom htail) _
  · have hfull : s'.deque.ring.capacity ≤ s'.deque.length + 1 := by omega
    rw [place_full hd hfull, ok_bind, Call.proceed_go h.unlocked, LockedStage.run, Scene.place,
      h.length_eq, h.capacity_eq, if_neg hroom]
    have hlimit : v.limit = s'.limit := congrArg (fun v : Scene => v.limit) h.scene.symm
    rcases storeLocked_full (s := s'.held) h.sound.held.deque hfull h.sound.counted h.holder_eq
      with ⟨hfits, hrun⟩ | ⟨hfits, g, hg, hrun⟩
    · have hfits' : Ring.fits s'.limit (2 * s'.deque.ring.capacity) = false := hfits
      have hid : v.pool.id = s'.deque.id := (congrArg (fun v : Scene => v.pool.id) h.scene).symm
      rw [hrun, ok_bind, Call.resume_reply, hlimit, hfits', hid]
      exact lands_reply (r := .refused _) (by simp) (h.passed.refused (.growthFailed ..) rfl) _
    · have hfits' : Ring.fits s'.limit (2 * s'.deque.ring.capacity) = true := hfits
      rw [hrun, ok_bind, Call.resume_reply, hlimit, hfits']
      obtain ⟨hroom', htail'⟩ := grown_room (s := s'.held) h.sound.held.deque hg
      exact lands_reply (r := .stored) (by simp) ((h.grown hg).stored hroom' htail') _

theorem rebased (h : s.Marks s' u v) (ht : s'.deque.tail = Word.max) :
    s.Marks s'.held.rebased.released u v ∧ s'.held.rebased.released.deque.tail < Word.max := by
  obtain ⟨_, hd, hw⟩ := h.sound.held.deque.rebased ht
  have hscene : s'.held.rebased.released.scene = s'.scene := scene_rebased hw
  obtain ⟨log, metrics, hrebased⟩ := s'.held.exists_rebased
  refine ⟨⟨?_, ?_, ?_, h.free, hscene.trans h.scene⟩, ?_⟩
  · rw [hrebased]
    exact h.sound.same_units rfl rfl (hd.congr rfl rfl rfl rfl) (congrArg Slots.units hw)
  · rw [hrebased]
    exact congrArg (· + 1) h.unlocked
  · rw [hrebased]
    exact h.frame.trans ⟨UnitTable.Frame.refl .., rfl, rfl, rfl, rfl⟩
  · rw [hrebased]
    change s'.deque.tail % s'.deque.ring.capacity < Word.max
    exact Nat.lt_trans (Nat.mod_lt _ h.sound.deque.capacity_pos) h.sound.deque.ring.capacity_lt_max

end Marks

theorem push_lands {s : Site} {u : UnitId} (h : s.Sound []) (hu : s.deque.Unlocked)
    (hr : s.units.Registered u) (grants : Nat) :
    s.Lands ((Call.push u).opening s >>= (Call.push u).proceed (grants + 2)) (s.scene.push u) := by
  obtain ⟨e, he, hrefs⟩ := h.counted.exists_entry hr
  cases hn : s.units.holder? u with
  | some q =>
    have hpush : s.scene.push u = (.refused (.alreadyQueued q), s.scene) := by
      have hn' : s.scene.units.holder? u = some q := hn
      rw [Scene.push, hn']
    rw [Call.opening, push_held he hrefs hn, ok_bind, hpush]
    exact lands_reply (r := .refused _) (by simp) (Becomes.refl h hu) _
  | none =>
    have hpush : s.scene.push u = s.scene.place u := by
      have hn' : s.scene.units.holder? u = none := hn
      rw [Scene.push, hn']
    let s' := s.setUnits (s.units.hold u s.deque.id)
    have hm : s.Marks s' u s.scene :=
      { sound := h.hold hr.knows hn
        unlocked := hu
        frame := Frame.of_units s (UnitTable.Frame.hold hr.knows hn) rfl rfl
        free := hn
        scene := rfl }
    rw [Call.opening, push_free he hrefs hn, hpush]
    by_cases ht : s.deque.tail = Word.max
    · obtain ⟨hm', ht'⟩ := hm.rebased ht
      have hrun := rebase_eq (s := s'.held) hm.sound.held.deque ht
      rw [if_pos ht, ok_bind, Call.proceed_go hm.unlocked, LockedStage.run, hrun, ok_bind,
        pure_eq_ok, ok_bind, Call.resume_go]
      exact hm'.place_lands ht' grants
    · rw [if_neg ht]
      exact hm.place_lands (Nat.lt_of_le_of_ne h.deque.tail_le ht) (grants + 1)

end Push

section Remove

variable {s : Site} {u : UnitId}

theorem scene_remove_taken (h : s.units.holder? u = some s.deque.id) (side : Side) :
    s.scene.remove side u =
      (.taken u, s.scene.take u (Slots.remove s.deque.window (side = .owner) u) .remove) :=
  if_pos h

theorem extract_lands (h : s.Sound []) (hu : s.deque.Unlocked) {side : Side} {i : Nat}
    (hi : s.deque.head ≤ i) (hi' : i < s.deque.tail) (hc : s.deque.ring.cell i = some u)
    (hback : side = .owner → s.deque.window.getLast? ≠ some (some u)) (grants : Nat) :
    s.Lands ((Call.remove side u).proceed (grants + 1)
      (.go (.extract side u i s.deque.generation), s)) (s.scene.remove side u) := by
  have hlt : s.deque.head < s.deque.tail := by omega
  have hqueued : u ∈ s.deque.queued := Deque.mem_queued.2 ⟨i, hi, hi', hc⟩
  have hrun := extract_taken (s := s.held) h.deque.ring hc (h.knows_of_cell hc)
    (Nat.lt_of_lt_of_le hlt h.deque.tail_le) side
  have hback' : decide (side = .owner) → s.deque.window.getLast? ≠ some (some u) :=
    fun hside => hback (of_decide_eq_true hside)
  have herase : Slots.units (Slots.remove s.deque.window (side = .owner) u) =
      s.deque.queued.erase u := Slots.units_remove h.nodup_queued
  rw [Call.proceed_go hu, LockedStage.run]
  change s.Lands (s.held.extract side u i s.held.deque.generation >>= _) _
  rw [hrun, ok_bind, Call.resume_reply, scene_remove_taken (h.holder_of_mem hqueued)]
  -- only the removal of the first unit moves the head
  by_cases hhead : s.deque.head = i
  · subst hhead
    obtain ⟨hd, hw, _⟩ := h.deque.takeFront hlt hc
    have hwin : Slots.remove s.deque.window (side = .owner) u =
        Slots.dropOldest s.deque.window := by
      rw [Deque.window_cons hlt, hc] at hback' ⊢
      rw [Slots.remove_cons hback', Slots.dropOldest_cons_some]
    have hsettled : (s.held.grabbed s.deque.head u).settled s.deque.head =
        (s.held.grabbed s.deque.head u).setHead (s.deque.head + 1) := if_pos ⟨rfl, hlt⟩
    rw [hsettled]
    refine lands_taken (d := ((s.held.grabbed s.deque.head u).setHead
      (s.deque.head + 1)).released.deque) h hqueued (hd.congr rfl rfl rfl rfl)
      (congrArg (· + 1) hu) ?_ herase rfl grants
    rw [hwin, ← hw]
    exact Deque.view_of_window rfl rfl (Ring.capacity_put ..) rfl rfl
  · have hwin : Slots.remove s.deque.window (side = .owner) u = Slots.punch s.deque.window u := by
      refine Slots.remove_inside hback' ?_
      rw [Deque.window_cons hlt, List.head?_cons]
      intro hfirst
      have hmod := h.deque.mod_eq_of_cell h.nodup_queued (Option.some.inj hfirst) hc
      exact hhead (eq_of_mod_eq _ (Nat.le_refl _) (by have := h.deque.capacity_pos; omega) hi
        (by have := h.deque.lt_round; omega) hmod)
    have hsettled : (s.held.grabbed i u).settled i = s.held.grabbed i u :=
      if_neg fun hs => hhead hs.1
    rw [hsettled]
    refine lands_taken (d := (s.held.grabbed i u).released.deque) h hqueued
      ((h.deque.vacate i).congr rfl rfl rfl rfl) (congrArg (· + 1) hu) ?_ herase rfl grants
    rw [hwin, ← h.deque.window_vacate_punch h.nodup_queued hc]
    exact Deque.view_of_window rfl rfl (Ring.capacity_put ..) rfl rfl

theorem removeBack_lands (h : s.Sound []) (hu : s.deque.Unlocked)
    (hlt : s.deque.head < s.deque.tail) (hc : s.deque.ring.cell (s.deque.tail - 1) = some u)
    (grants : Nat) :
    s.Lands (s.popBack (some u) >>= (Call.remove .owner u).proceed (grants + 1))
      (s.scene.remove .owner u) := by
  have hqueued : u ∈ s.deque.queued := Deque.mem_queued.2 ⟨_, by omega, by omega, hc⟩
  obtain ⟨hd, hw, _⟩ := h.deque.takeBack hlt hc
  have hwin : Slots.remove s.deque.window true u = Slots.dropNewest s.deque.window := by
    rw [Deque.window_concat hlt, hc, Slots.remove_concat, Slots.dropNewest_concat_some]
  have herase : Slots.units (Slots.remove s.deque.window true u) = s.deque.queued.erase u :=
    Slots.units_remove h.nodup_queued
  rw [popBack_some h.deque (h.knows_of_cell hc) hlt hc,
    scene_remove_taken (h.holder_of_mem hqueued)]
  split
  · refine lands_taken h hqueued hd hu ?_ herase rfl (grants + 1)
    change _ = { s.deque.view with slots := Slots.remove s.deque.window true u }
    rw [hwin, ← hw]
    exact Deque.view_of_window rfl rfl (Ring.capacity_put ..) rfl rfl
  · have heq : s.deque.head = s.deque.tail - 1 := by omega
    have hu' : (s.setTail (s.deque.tail - 1)).deque.Unlocked := hu
    have hlocked := lastSlot_taken (s := (s.setTail (s.deque.tail - 1)).held)
      (o := some u) h.deque.ring heq hc (h.knows_of_cell hc) (.inr rfl)
    rw [ok_bind, Call.proceed_go hu', LockedStage.run, hlocked, ok_bind, Call.resume_reply]
    refine lands_taken (d := ((s.setTail (s.deque.tail - 1)).held.grabbed (s.deque.tail - 1)
      u).released.deque) h hqueued (hd.congr rfl rfl rfl rfl) (congrArg (· + 1) hu) ?_ herase
      rfl _
    change _ = { s.deque.view with slots := Slots.remove s.deque.window true u }
    rw [hwin, ← hw]
    exact Deque.view_of_window rfl rfl (Ring.capacity_put ..) rfl rfl

theorem remove_lands (h : s.Sound []) (hu : s.deque.Unlocked) (hk : s.units.Knows u)
    (side : Side) (grants : Nat) :
    s.Lands (s.remove side u >>= (Call.remove side u).proceed (grants + 1))
      (s.scene.remove side u) := by
  by_cases hheld : s.units.holder? u = some s.deque.id
  · have hqueued : u ∈ s.deque.queued := by simpa using (h.holder u).1 hheld
    obtain ⟨i, hi, hi', hc⟩ := Deque.mem_queued.1 hqueued
    have hlt : s.deque.head < s.deque.tail := by omega
    cases side with
    | foreign =>
      obtain ⟨j, hj, hj', hcj, hscan⟩ := scan_found h.deque .foreign hi hi' hc
      rw [remove_foreign hheld, hscan, ok_bind]
      exact extract_lands h hu hj hj' hcj (by simp) grants
    | owner =>
      rw [remove_owner h.deque.ring hheld, if_neg (by omega)]
      by_cases hlast : s.deque.ring.cell (s.deque.tail - 1) = some u
      · rw [if_pos hlast]
        exact removeBack_lands h hu hlt hlast grants
      · have hi'' : i < s.scanEnd .owner := by
          have hne : i ≠ s.deque.tail - 1 := by
            rintro rfl
            exact hlast hc
          change i < s.deque.tail - 1
          omega
        obtain ⟨j, hj, hj', hcj, hscan⟩ := scan_found h.deque .owner hi hi'' hc
        rw [if_neg hlast, hscan, ok_bind]
        refine extract_lands h hu hj hj' hcj (fun _ => ?_) grants
        rw [Deque.window_concat hlt, List.getLast?_concat]
        exact fun hback => hlast (Option.some.inj hback)
  · have hremove : s.scene.remove side u =
        (.missed, s.scene.count ((Call.remove side u).tally? .missed)) := if_neg hheld
    rw [remove_elsewhere hk hheld, ok_bind, hremove]
    exact lands_reply (r := .missed) (by simp) (Becomes.refl h hu) _

end Remove

/-- A call that nobody disturbs lands, if it may take the lock as often as it has to. -/
theorem opening_lands {s : Site} (h : s.Sound []) (hu : s.deque.Unlocked) {call : Call}
    (hc : call.Admissible s.units) {grants : Nat} (hg : call.grantsAlone s.deque ≤ grants) :
    s.Lands (call.opening s >>= call.proceed grants) (s.scene.perform call) := by
  obtain ⟨spare, rfl⟩ := Nat.exists_eq_add_of_le' hg
  cases call with
  | push u => exact push_lands h hu (hc u rfl) spare
  | pop => exact popBack_lands h hu
  | steal => exact steal_lands h hu (Nat.le_add_left _ spare)
  | remove side u => exact remove_lands h hu (hc u rfl).knows side spare

/-- What a call that nobody disturbs replies, and what the pool shows afterwards. -/
theorem perform_scene {s : Site} (h : s.Sound []) (hu : s.deque.Unlocked) {call : Call}
    (hc : call.Admissible s.units) :
    ∃ s', call.perform s = .ok ((s.scene.perform call).1, s') ∧
      s.Becomes s' (s.scene.perform call).2 := by
  obtain ⟨s', hrun, hb⟩ := opening_lands h hu hc (call.grantsAlone_le s.deque)
  refine ⟨s', ?_, hb⟩
  rw [Call.perform, Call.start_eq, hrun]
  rfl

end Site

end WorkStealing
