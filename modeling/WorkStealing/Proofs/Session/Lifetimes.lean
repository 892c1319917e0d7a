import WorkStealing.Proofs.Deque.Holes
import WorkStealing.Proofs.Session.Capacity
import WorkStealing.Proofs.Session.Failures
import WorkStealing.Proofs.Session.Handover

set_option autoImplicit false

/-!
# Lifetimes of pools

A pool gets the next number when it is opened, and none if that fails. It lives as long as there is
a handle on it, whether of its owner or of a stealer, and ends with the last one: the units that it
still has are let go then, and its end is reported once.
-/
namespace WorkStealing

def StepReport.openings (reports : List StepReport) : List PoolId :=
  reports.filterMap (·.answer.opened?)

namespace PoolId

def first (n : Nat) : List PoolId := (List.range n).map ofIndex

theorem first_succ (n : Nat) : first (n + 1) = first n ++ [ofIndex n] := by
  rw [first, List.range_succ, List.map_append]
  rfl

theorem mem_first {n : Nat} {p : PoolId} : p ∈ first n ↔ ∃ i < n, p = ofIndex i := by
  simp only [first, List.mem_map, List.mem_range, eq_comm]

theorem pairwise_first (n : Nat) : (first n).Pairwise (·.number < ·.number) :=
  List.pairwise_map.2 (List.pairwise_lt_range.imp fun h => Nat.succ_lt_succ h)

end PoolId

section Events

namespace Event

def ends (p : PoolId) : Event → Bool
  | .dropped q _ _ => q = p
  | _ => false

def grows (p : PoolId) : Event → Bool
  | .grew q _ _ _ _ => q = p
  | _ => false

end Event

variable {p : PoolId}

theorem countP_milestones {f : Event → Bool}
    (hf : ∀ e, f e = true → e.isLandmark = true ∧ e.pool = p) (es : List Event) :
    (milestones p es).countP f = es.countP f := by
  rw [milestones, landmarks, List.countP_filter, List.countP_filter]
  refine List.countP_congr fun e _ => ?_
  simp only [Bool.and_eq_true, decide_eq_true_eq]
  exact ⟨fun h => h.1.1, fun h => ⟨⟨h, (hf e h).2⟩, (hf e h).1⟩⟩

theorem countP_ends (es : List Event) :
    (milestones p es).countP (Event.ends p) = es.countP (Event.ends p) := by
  refine countP_milestones (fun e he => ?_) es
  cases e with
  | dropped q released retired => exact ⟨rfl, of_decide_eq_true he⟩
  | _ => cases he

theorem countP_grows (es : List Event) :
    (milestones p es).countP (Event.grows p) = es.countP (Event.grows p) := by
  refine countP_milestones (fun e he => ?_) es
  cases e with
  | grew q name old new live => exact ⟨rfl, of_decide_eq_true he⟩
  | _ => cases he

theorem countP_ends_growths (p : PoolId) (name : Option String) (first r : Nat) :
    (growths p name first r).countP (Event.ends p) = 0 := by
  rw [growths, List.countP_map]
  exact List.countP_eq_zero.2 fun _ _ => Bool.false_ne_true

theorem countP_grows_growths (p : PoolId) (name : Option String) (first r : Nat) :
    (growths p name first r).countP (Event.grows p) = r := by
  have hall : (List.range r).countP (Event.grows p ∘ fun i => .grew p name (first * 2 ^ i)
      (first * 2 ^ (i + 1)) (first * 2 ^ i - 1)) = (List.range r).length :=
    List.countP_eq_length.2 fun _ _ => decide_eq_true rfl
  rw [growths, List.countP_map, hall, List.length_range]

end Events

theorem UnitTable.find?_letGoAll {us : List UnitId} (hn : us.Nodup) (t : UnitTable) (u : UnitId) :
    (t.letGoAll us).find? u = if u ∈ us then (t.letGo u).find? u else t.find? u := by
  induction us generalizing t with
  | nil => rfl
  | cons v us ih =>
    obtain ⟨hv, hus⟩ := List.nodup_cons.1 hn
    have hother : ∀ x, v ≠ x → (t.letGo v).find? x = t.find? x := fun x hx => by
      rw [letGo, find?_update, if_neg hx]
    change ((t.letGo v).letGoAll us).find? u = _
    rw [ih hus]
    by_cases huv : u = v
    · subst huv
      rw [if_neg hv, if_pos List.mem_cons_self]
    · by_cases hu : u ∈ us
      · rw [if_pos hu, if_pos (List.mem_cons_of_mem v hu), letGo, find?_update, if_pos rfl,
          hother u (Ne.symm huv), letGo, find?_update, if_pos rfl]
      · rw [if_neg hu, if_neg (by simp [huv, hu]), hother u (Ne.symm huv)]

namespace Backlogs

variable {lack : Option Nat} {b : Backlogs} {p : PoolId} {r : Reply} {u : UnitId} {side : Side}

theorem Allows.of_steal (h : b.Allows lack p .steal r) :
    r.got.head? = (b p).head? ∧ b.after p .steal r p = (b p).tail := by
  cases r with
  | taken u =>
    have hhead : (b p).head? = some u := h
    rw [hhead]
    exact ⟨rfl, Function.update_self ..⟩
  | missed =>
    have hnil : b p = [] := h
    rw [after_missed, hnil]
    exact ⟨rfl, rfl⟩
  | stored | refused => cases h

theorem Allows.of_remove (h : b.Allows lack p (.remove side u) r) :
    r.got.head? = (if u ∈ b p then some u else none) ∧
      b.after p (.remove side u) r p = (b p).erase u := by
  cases r with
  | taken v =>
    obtain ⟨rfl, hmem⟩ := h
    rw [if_pos hmem]
    exact ⟨rfl, Function.update_self ..⟩
  | missed =>
    have hnot : u ∉ b p := h
    rw [if_neg hnot, after_missed, List.erase_of_not_mem hnot]
    exact ⟨rfl, rfl⟩
  | stored | refused => cases h

end Backlogs

namespace World

variable {w v : World} {p q : PoolId} {d e : Deque} {op : Op} {n : Nat} {k? : Option PoolHandle}

section Identity

theorem Rebound.size_eq (h : w.Rebound n k? v) : v.pools.size = w.pools.size := by
  cases h with
  | kept => rfl
  | ended => exact Array.size_setIfInBounds ..

/-- A step opens the pool with the next number, or none. -/
theorem Sound.step_openings (h : w.Sound none none) (op : Op) : Ensures (w.step op) fun o =>
    PoolId.first w.pools.size ++ o.1.answer.opened?.toList = PoolId.first o.2.pools.size := by
  rintro ⟨⟨answer, size, events⟩, v⟩ hstep
  dsimp only
  cases hop : op.rebinds? with
  | none =>
    obtain ⟨hb, hsilent⟩ := step_leaves (P := fun _ => False) hop (fun _ _ _ _ => id) _ hstep
    rw [hsilent, hb.size, Option.toList_none, List.append_nil]
  | some n =>
    cases h.step_rebinds hop _ hstep with
    | idle hsilent => rw [hsilent, Option.toList_none, List.append_nil]
    | lent _ rebound =>
      rw [rebound.size_eq]
      exact List.append_nil _
    | @opened config start _ _ _ _ rebound =>
      have hsize : (w.unlogged.opened config start).pools.size = w.pools.size + 1 :=
        Array.size_push ..
      rw [rebound.size_eq, hsize, PoolId.first_succ]
      rfl

theorem Sound.run_openings (h : w.Sound none none) (ops : List Op) : Ensures (w.run ops) fun o =>
    PoolId.first w.pools.size ++ StepReport.openings o.1 = PoolId.first o.2.pools.size := by
  induction ops generalizing w with
  | nil => exact .ok (List.append_nil _)
  | cons op ops ih =>
    rintro ⟨reports, x⟩ hrun
    obtain ⟨report, v, rest, hstep, hrest, rfl⟩ := exists_run_cons hrun
    obtain ⟨_, _, hstep', hv⟩ := h.step op
    cases hstep.symm.trans hstep'
    have hopenings : StepReport.openings (report :: rest) =
        report.answer.opened?.toList ++ StepReport.openings rest := by
      rw [StepReport.openings, List.filterMap_cons]
      cases report.answer.opened? <;> rfl
    rw [hopenings, ← List.append_assoc, h.step_openings op _ hstep]
    exact ih hv _ hrest

/-- Two handles are on the same pool if their pools are in one place, and that is if they have one
identifier. -/
theorem step_samePool {m : Nat} (hm : w.stolen? m = some p)
    (hn : w.owned? n = some q) (hd : w.Live p d) (he : w.Live q e) :
    ∃ report, w.step (.samePool m n) = .ok (report, w.unlogged) ∧
      (report.answer = .flag true ↔ d.id = e.id) ∧ (d.id = e.id ↔ p.index = q.index) := by
  have hact : w.unlogged.act (.samePool m n) = .ok (.flag (p = q), w.unlogged) := by
    have hm' : w.unlogged.stolen? m = some p := hm
    have hn' : w.unlogged.owned? n = some q := hn
    rw [World.act, hm', hn']
    rfl
  refine ⟨_, step_of_act rfl hact, ?_, ?_⟩
  · rw [hd.2, he.2, Answer.flag.injEq, decide_eq_true_iff]
  · rw [hd.2, he.2]
    refine ⟨congrArg _, fun hindex => ?_⟩
    have hslot := hd.1
    rw [hindex, he.1] at hslot
    obtain rfl := Option.some.inj (Option.some.inj hslot)
    exact hd.2.symm.trans he.2

end Identity

section Endings

variable {es : List Event} {bs : List Beat} {loose : Option PoolId}

theorem Stature.of_alive (h : w.Stature p es bs) (hl : w.Live p d) :
    es.countP (Event.ends p) = 0 ∧ es.countP (Event.grows p) = d.generation := by
  obtain ⟨_, first, -, hrisen⟩ := h.of_live hl
  have hreported := hrisen.reported
  rw [show (w.site d).gauge.id = p from hl.2] at hreported
  rw [← countP_ends, ← countP_grows, hreported, List.countP_cons, List.countP_cons,
    countP_ends_growths, countP_grows_growths]
  exact ⟨rfl, rfl⟩

theorem Stature.of_gone (h : w.Stature p es bs) (hgone : ∀ d, ¬ w.Live p d) :
    es.countP (Event.ends p) = if p ∈ PoolId.first w.pools.size then 1 else 0 := by
  rw [← countP_ends]
  cases h with
  | unborn fresh _ reported =>
    rw [reported, if_neg]
    · rfl
    · intro hmem
      obtain ⟨i, hi, rfl⟩ := PoolId.mem_first.1 hmem
      exact absurd (fresh i rfl) (Nat.not_le.2 hi)
  | alive _ live => exact absurd live (hgone _)
  | ended place lt_size _ reported =>
    rw [if_pos (PoolId.mem_first.2 ⟨_, lt_size, place⟩), reported, List.countP_append,
      List.countP_cons, countP_ends_growths, List.countP_singleton]
    simp [Event.ends]

/-- Whoever owns a pool can push the unit, unless the ring is full and cannot be replaced. -/
def Pushable (w : World) (u : UnitId) : Prop :=
  ∀ n q d entry, w.owned? n = some q → w.Live q d → w.unit? u = some entry →
    ∃ report v, w.step (.push n u) = .ok (report, v) ∧
      (report.answer = .ok ∧ v.units.holder? u = some q ∨
        report.answer = .error (.resourceExhausted (2 * d.capacity)) ∧
          d.length + 1 = d.capacity ∧ Ring.fits w.limit (2 * d.capacity) = false)

theorem Sound.pushable (h : w.Sound none none) {u : UnitId} (hfree : w.units.holder? u = none) :
    w.Pushable u := by
  intro n q d entry ho hl hu
  have hu' : w.unlogged.Sound none none := h.congr rfl rfl h.counted fun _ => rfl
  have hl' : w.unlogged.Live q d := hl
  have hregistered := registered_of_unit? hu
  have hc : (Call.push u).Admissible w.unlogged.units := by
    rintro _ ⟨⟩
    exact hregistered
  obtain ⟨s, hp⟩ := hu'.perform hl' hc
  obtain ⟨e?, v, hrun, hrefused, -⟩ := hu'.pushOne_free hl' hregistered hfree
  have hrun' := pushOne_eq hp.run
  obtain ⟨rfl, rfl⟩ := Prod.mk.inj (Except.ok.inj (hrun.symm.trans hrun'))
  have hact : w.unlogged.act (.push n u) = .ok
      ((((w.unlogged.site d).scene.perform (.push u)).1.refusal?).elim .ok .error,
        w.unlogged.put s) := by
    have ho' : w.unlogged.owned? n = some q := ho
    have hentry : w.unlogged.unit? u = some entry := hu
    rw [World.act, ho', hentry]
    simp only [hrun', ok_bind]
    cases ((w.unlogged.site d).scene.perform (.push u)).1.refusal? <;> rfl
  refine ⟨_, _, step_of_act rfl hact, ?_⟩
  have hallowed := hp.allowed
  have hafter := hp.backlogs_eq
  cases hr : ((w.unlogged.site d).scene.perform (.push u)).1 with
  | refused e =>
    obtain ⟨rfl, hfull⟩ := (hrefused e).1 (congrArg Reply.refusal? hr)
    exact .inr ⟨rfl, hfull⟩
  | stored =>
    refine .inl ⟨rfl, (hp.sound.mem_backlogs (by simp)).1 ?_⟩
    rw [hafter, hr, Backlogs.after, Function.update_self]
    exact List.mem_append_right _ (List.mem_singleton_self u)
  | taken | missed =>
    rw [hr] at hallowed
    cases hallowed

/-- Pool `p` ended as it was in `w`, and `events` were logged then. -/
structure Ended (w : World) (p : PoolId) (d : Deque) (events : List Event) (v : World) : Prop where
  gone : ∀ e, ¬ v.Live p e
  reported : events.filter (Event.ends p) = [.dropped p d.queued.length d.generation]
  /-- The queued units lose their mark and the reference that the pool had to them. -/
  released : ∀ u ∈ d.queued, ∃ e, w.units.find? u = some e ∧ e.unit.pool = some p ∧ 0 < e.refs ∧
    v.units.find? u = some { e with unit := { e.unit with pool := none }, refs := e.refs - 1 }
  kept : ∀ u, u ∉ d.queued → v.units.find? u = w.units.find? u
  pushable : ∀ u ∈ d.queued, v.Pushable u

theorem Ended.congr {w' : World} (h : w.Ended p d es v) (hu : w'.units = w.units) :
    w'.Ended p d es v := by
  obtain ⟨hgone, hreported, hreleased, hkept, hpushable⟩ := h
  exact ⟨hgone, hreported, by rwa [hu], by rwa [hu], hpushable⟩

theorem Rebound.eq_close (h : w.Rebound n k? v) (hv : v.Sound none none) (hl : w.Live p d)
    (hfree : ∀ x ∈ v.handles, x.2.pool ≠ p) :
    v = (w.rehandled n k?).close (w.site d).ended ∧ ∀ e, ¬ v.Live p e := by
  have hgone : ∀ e, ¬ v.Live p e := fun e he => by
    obtain ⟨x, hx, hxp⟩ := hv.held p e he (by simp)
    exact hfree x hx hxp
  refine ⟨?_, hgone⟩
  cases h with
  | kept => exact absurd hl (hgone d)
  | @ended old e former live free =>
    have hlive : (w.rehandled n k?).Live old.pool e := live
    by_cases hp : p = old.pool
    · subst hp
      rw [hl.unique live]
    · exact absurd ((live_close hlive live.2).2 ⟨hp, hl⟩) (hgone d)

theorem Rebound.ends (h : w.Rebound n k? v) (hw : w.Sound none loose) (hv : v.Sound none none)
    (hl : w.Live p d) (hfree : ∀ x ∈ v.handles, x.2.pool ≠ p)
    (hlog : w.log.toList.filter (Event.ends p) = []) : w.Ended p d v.log.toList v := by
  obtain ⟨rfl, hgone⟩ := h.eq_close hv hl hfree
  obtain ⟨hs, -⟩ := hw.site p d hl (by simp)
  have hfind : ∀ u, ((w.rehandled n k?).close (w.site d).ended).units.find? u =
      if u ∈ d.queued then (w.units.letGo u).find? u else w.units.find? u :=
    UnitTable.find?_letGoAll hs.nodup_queued w.units
  refine ⟨hgone, ?_, fun u hu => ?_, fun u hu => ?_, fun u hu => hv.pushable ?_⟩
  · change (w.log.push (.dropped d.id d.queued.length d.generation)).toList.filter _ = _
    rw [Array.toList_push, List.filter_append, hlog, hl.2]
    simp [Event.ends]
  · have hheld : w.units.holder? u = some p := hl.2 ▸ hs.holder_of_mem hu
    obtain ⟨e, he⟩ := UnitTable.knows_of_holder? hheld
    refine ⟨e, he, ?_, hw.counted.refs_pos_of_holder? he hheld, ?_⟩
    · rw [UnitTable.holder?, he] at hheld
      exact hheld
    · rw [hfind, if_pos hu, UnitTable.letGo, UnitTable.find?_update, if_pos rfl, he]
      rfl
  · rw [hfind, if_neg hu]
  · exact (UnitTable.holder?_letGoAll w.units d.queued u).trans (if_pos hu)

/-- A step that leaves no handle on a pool ends it. -/
theorem Sound.step_ends (h : w.Sound none none) (hl : w.Live p d) : Ensures (w.step op) fun o =>
    (∀ x ∈ o.2.handles, x.2.pool ≠ p) → w.Ended p d o.1.events.toList o.2 := by
  rintro ⟨report, v⟩ hstep hfree
  have hfree : ∀ x ∈ v.handles, x.2.pool ≠ p := hfree
  obtain ⟨_, _, hstep', hv⟩ := h.step op
  cases hstep.symm.trans hstep'
  have hevents : report.events = v.log := w.events_of_step op _ hstep
  have hheld : v.handles ≠ w.handles := by
    intro hsame
    obtain ⟨x, hx, hxp⟩ := h.held p d hl (by simp)
    exact hfree x (hsame ▸ hx) hxp
  have hu : w.unlogged.Sound none none := h.congr rfl rfl h.counted fun _ => rfl
  dsimp only
  rw [hevents]
  cases hop : op.rebinds? with
  | none =>
    exact absurd (step_leaves (P := fun _ => False) hop (fun _ _ _ _ => id) _ hstep).1.handles hheld
  | some n =>
    obtain ⟨answer, size, events⟩ := report
    cases h.step_rebinds hop _ hstep with
    | idle => exact absurd rfl hheld
    | lent _ rebound => exact (rebound.ends hu hv hl hfree rfl).congr rfl
    | @opened config start _ _ valid bounded rebound =>
      have hl' : (w.unlogged.opened config start).Live p d := live_opened.2 (.inr hl)
      exact (rebound.ends (hu.opened valid bounded) hv hl' hfree rfl).congr rfl

end Endings

section Service

variable {call : Call} {u : UnitId} {entry : UnitEntry}

theorem Sound.take_allowed (h : w.Sound none none) (hl : w.Live p d)
    (hc : call.Admissible w.units) : ∃ r u? v d', w.take p call = .ok (u?, v) ∧
      u?.map (·.id) = r.got.head? ∧ v.Sound none none ∧ v.Live p d' ∧
      w.backlogs.Allows (w.lack p) p call r ∧
      d'.queued = w.backlogs.after p call r p := by
  obtain ⟨s, hp⟩ := h.perform hl hc
  have hl' : (w.put s).Live p s.deque :=
    (live_put hl (hp.frame.id.trans hl.2)).2 (.inl ⟨rfl, rfl⟩)
  obtain ⟨u?, hname, hgot⟩ : ∃ u?, (w.put s).unitOf ((w.site d).scene.perform call).1 = .ok u? ∧
      u?.map (·.id) = ((w.site d).scene.perform call).1.got.head? := by
    cases hr : ((w.site d).scene.perform call).1 with
    | taken u =>
      obtain ⟨e, he⟩ := hp.knows hr h
      refine ⟨some ⟨u, e.unit.kind⟩, ?_, rfl⟩
      rw [unitOf, name, UnitTable.lookup_eq he]
      rfl
    | stored | refused | missed => exact ⟨none, rfl, rfl⟩
  refine ⟨_, u?, w.put s, s.deque, ?_, hgot, hp.sound, hl', hp.allowed, ?_⟩
  · simp only [World.take, hp.run, ok_bind, hname, pure_eq_ok]
  · rw [← hp.backlogs_eq, backlogs_of_live hl']

theorem Sound.take_steal (h : w.Sound none none) (hl : w.Live p d) :
    ∃ u? v d', w.take p .steal = .ok (u?, v) ∧ u?.map (·.id) = d.queued.head? ∧
      v.Sound none none ∧ v.Live p d' ∧ d'.queued = d.queued.tail := by
  have hc : Call.steal.Admissible w.units := admissible_of_none rfl
  obtain ⟨r, u?, v, d', hrun, hgot, hv, hl', hallowed, hqueued⟩ := h.take_allowed hl hc
  obtain ⟨hfront, hrest⟩ := hallowed.of_steal
  rw [backlogs_of_live hl] at hfront hrest
  exact ⟨u?, v, d', hrun, hgot.trans hfront, hv, hl', hqueued.trans hrest⟩

theorem Sound.take_remove (h : w.Sound none none) (hl : w.Live p d)
    (hu : w.units.Registered u) (side : Side) :
    ∃ u? v d', w.take p (.remove side u) = .ok (u?, v) ∧
      u?.map (·.id) = (if u ∈ d.queued then some u else none) ∧
      v.Live p d' ∧ d'.queued = d.queued.erase u := by
  have hc : (Call.remove side u).Admissible w.units := by
    rintro _ ⟨⟩
    exact hu
  obtain ⟨r, u?, v, d', hrun, hgot, hv, hl', hallowed, hqueued⟩ := h.take_allowed hl hc
  obtain ⟨hfound, hrest⟩ := hallowed.of_remove
  rw [backlogs_of_live hl] at hfound hrest
  exact ⟨u?, v, d', hrun, hgot.trans hfound, hl', hqueued.trans hrest⟩

/-- Thieves can empty the pool: they get its units, the oldest first, and then nothing. -/
theorem Sound.takeAll_steal (h : w.Sound none none) (hl : w.Live p d) {times : Nat}
    (htimes : d.queued.length < times) :
    ∃ us v d', takeAll p .steal times w = .ok (us, v) ∧
      us.map (Option.map (·.id)) = d.queued.map some ++ [none] ∧ v.Live p d' ∧ d'.queued = [] := by
  induction times generalizing w d with
  | zero => exact absurd htimes (Nat.not_lt_zero _)
  | succ times ih =>
    obtain ⟨u?, v, d', hrun, hgot, hv, hl', hqueued⟩ := h.take_steal hl
    rw [takeAll, hrun, ok_bind]
    cases hd : d.queued with
    | nil =>
      rw [hd] at hgot hqueued
      obtain rfl := Option.map_eq_none_iff.1 hgot
      exact ⟨_, v, d', rfl, rfl, hl', hqueued⟩
    | cons u us =>
      rw [hd] at hgot hqueued htimes
      obtain ⟨m, rfl, rfl⟩ := Option.map_eq_some_iff.1 hgot
      obtain ⟨ms, v', e, hrest, hms, he, hnil⟩ := ih hv hl'
        (by rw [hqueued]; exact Nat.lt_of_succ_lt_succ htimes)
      dsimp only
      rw [hrest]
      refine ⟨_, v', e, rfl, ?_, he, hnil⟩
      rw [List.map_cons, hms, hqueued]
      rfl

/-- What stealer `n` of a pool gets, whether or not the owner is still there. -/
structure Serves (w : World) (p : PoolId) (d : Deque) (n : Nat) : Prop where
  steal : ∃ report v d' u?, w.step (.steal n) = .ok (report, v) ∧ report.answer = .unit u? ∧
    u?.map (·.id) = d.queued.head? ∧ v.Live p d' ∧ d'.queued = d.queued.tail
  stealAll : ∃ report v d' us, w.step (.stealAll n) = .ok (report, v) ∧
    report.answer = .units us ∧ us.map (Option.map (·.id)) = d.queued.map some ++ [none] ∧
    v.Live p d' ∧ d'.queued = []
  remove : ∀ u entry, w.unit? u = some entry → ∃ report v d' u?,
    w.step (.remove n u) = .ok (report, v) ∧ report.answer = .unit u? ∧
      u?.map (·.id) = (if u ∈ d.queued then some u else none) ∧
      v.Live p d' ∧ d'.queued = d.queued.erase u

theorem Sound.serves (h : w.Sound none none) (hn : w.stolen? n = some p) (hl : w.Live p d) :
    w.Serves p d n := by
  have hu : w.unlogged.Sound none none := h.congr rfl rfl h.counted fun _ => rfl
  have hl' : w.unlogged.Live p d := hl
  have hn' : w.unlogged.stolen? n = some p := hn
  refine ⟨?_, ?_, fun u entry hentry => ?_⟩
  · obtain ⟨u?, v, d', hrun, hgot, -, hlive, hqueued⟩ := hu.take_steal hl'
    have hact : w.unlogged.act (.steal n) = .ok (.unit u?, v) := by
      rw [World.act, hn']
      dsimp only
      rw [hrun]
      rfl
    exact ⟨_, v, d', u?, step_of_act rfl hact, rfl, hgot, hlive, hqueued⟩
  · have hle : d.queued.length ≤ d.length := by
      rw [← d.length_window, Slots.length_eq, ← d.queued_eq]
      exact Nat.le_add_right _ _
    obtain ⟨us, v, d', hrun, hgot, hlive, hqueued⟩ :=
      hu.takeAll_steal hl' (Nat.lt_succ_of_le hle)
    have hact : w.unlogged.act (.stealAll n) = .ok (.units us, v) := by
      rw [World.act, hn']
      dsimp only
      rw [takeAllOf, hl'.pool?_eq]
      simp only [Option.map_some, Option.getD_some, hrun, ok_bind, pure_eq_ok]
    exact ⟨_, v, d', us, step_of_act rfl hact, rfl, hgot, hlive, hqueued⟩
  · obtain ⟨u?, v, d', hrun, hgot, hlive, hqueued⟩ :=
      hu.take_remove hl' (registered_of_unit? hentry) .foreign
    have hact : w.unlogged.act (.remove n u) = .ok (.unit u?, v) := by
      have hk : w.unlogged.handle? n = some ⟨.foreign, p⟩ := handle?_of_stolen? hn
      have hentry' : w.unlogged.unit? u = some entry := hentry
      rw [World.act, hk, hentry']
      dsimp only
      rw [hrun]
      rfl
    exact ⟨_, v, d', u?, step_of_act rfl hact, rfl, hgot, hlive, hqueued⟩

end Service

section Runs

theorem Sound.exists_live_iff (h : w.Sound none none) :
    (∃ d, w.Live p d) ↔ ∃ x ∈ w.handles, x.2.pool = p :=
  ⟨fun ⟨d, hl⟩ => h.held p d hl (by simp), fun ⟨x, hx, hxp⟩ => hxp ▸ h.handle x hx⟩

/-- How pools come and go in a session, of which `reports` is left. -/
structure Lifetimes (w : World) (reports : List StepReport) : Prop where
  /-- Pools are numbered as they are opened, whatever fails in between. -/
  numbered : StepReport.openings reports = PoolId.first w.pools.size
  increasing : (StepReport.openings reports).Pairwise (·.number < ·.number)
  same : ∀ m n p q d e, w.stolen? m = some p → w.owned? n = some q → w.Live p d → w.Live q e →
    ∃ report, w.step (.samePool m n) = .ok (report, w.unlogged) ∧
      (report.answer = .flag true ↔ d.id = e.id) ∧ (d.id = e.id ↔ p.index = q.index)
  held : ∀ p, (∃ d, w.Live p d) ↔ ∃ x ∈ w.handles, x.2.pool = p
  /-- The pools without a handle have ended, each of them once. -/
  endings : ∀ p, (StepReport.logged reports).countP (Event.ends p) =
    if p ∈ StepReport.openings reports ∧ ∀ x ∈ w.handles, x.2.pool ≠ p then 1 else 0
  serves : ∀ n p d, w.stolen? n = some p → w.Live p d → w.Serves p d n
  holes : ∀ p d, w.Live p d → d.length = d.queued.length + d.holes
  grown : ∀ p d, w.Live p d → d.generation = (StepReport.logged reports).countP (Event.grows p)
  /-- A step ends a pool if it leaves no handle on it, and not before. -/
  ends : ∀ p d op, w.Live p d → ∃ report v, w.step op = .ok (report, v) ∧
    ((∃ x ∈ v.handles, x.2.pool = p) →
      (∃ e, v.Live p e) ∧ report.events.toList.countP (Event.ends p) = 0) ∧
    ((∀ x ∈ v.handles, x.2.pool ≠ p) → w.Ended p d report.events.toList v)

/-- Pools are numbered as they are opened, whatever fails in between, and two handles are on the
same pool if their numbers are equal. A pool lives as long as there is a handle on it, and serves
its stealers. The step that takes the last handle away ends it, and says so once: the units that are
queued then are let go, holes do not count, and the ring was replaced as often as it has grown. -/
theorem run_lifetimes (telemetry hooks : Bool) (ops : List Op) : ∃ reports w,
    (start telemetry hooks).run ops = .ok (reports, w) ∧ w.Lifetimes reports := by
  have hstart := sound_start telemetry hooks
  obtain ⟨reports, w, hrun, hw⟩ := hstart.run ops
  have hopenings : StepReport.openings reports = PoolId.first w.pools.size :=
    hstart.run_openings ops _ hrun
  have hunborn : ∀ p, (start telemetry hooks).Stature p [] [] := fun p =>
    .unborn (fun _ _ => Nat.zero_le _) (fun d hd => by simp [Live, start] at hd) rfl rfl
  have hstature : ∀ p, w.Stature p (StepReport.logged reports) _ := fun p =>
    (hstart.run_stature (hunborn p) ops _ hrun).2
  refine ⟨reports, w, hrun, {
    numbered := hopenings
    increasing := hopenings ▸ PoolId.pairwise_first _
    same := fun m n p q d e hm hn hd he => step_samePool hm hn hd he
    held := fun p => hw.exists_live_iff
    endings := fun p => ?_
    serves := fun n p d hn hl => hw.serves hn hl
    holes := fun p d _ => d.length_window.symm.trans (Slots.length_eq d.window)
    grown := fun p d hl => ((hstature p).of_alive hl).2.symm
    ends := fun p d op hl => ?_ }⟩
  · by_cases hheld : ∃ x ∈ w.handles, x.2.pool = p
    · obtain ⟨d, hl⟩ := hw.exists_live_iff.2 hheld
      obtain ⟨x, hx, hxp⟩ := hheld
      rw [((hstature p).of_alive hl).1, if_neg fun h => h.2 x hx hxp]
    · have hfree : ∀ x ∈ w.handles, x.2.pool ≠ p := fun x hx hxp => hheld ⟨x, hx, hxp⟩
      rw [(hstature p).of_gone fun d hl => hheld (hw.exists_live_iff.1 ⟨d, hl⟩), hopenings]
      exact if_congr (and_iff_left hfree).symm rfl rfl
  · obtain ⟨report, v, hstep, hv⟩ := hw.step op
    refine ⟨report, v, hstep, fun hheld => ?_, hw.step_ends hl _ hstep⟩
    obtain ⟨e, he⟩ := hv.exists_live_iff.2 hheld
    -- the pool lives after the step, so its end has not been reported, the step included
    have hlater : v.Stature p (StepReport.logged reports ++ StepReport.logged [report]) _ :=
      (hw.run_stature (hstature p) [op] _ (run_of_step hstep rfl)).2
    have hcount := (hlater.of_alive he).1
    have hlast : StepReport.logged [report] = report.events.toList := List.append_nil _
    rw [List.countP_append, hlast] at hcount
    exact ⟨⟨e, he⟩, (Nat.add_eq_zero_iff.1 hcount).2⟩

/-- A pool whose ring grows twice and then has a hole, and of whose handles only the clone of a
stealer is left. Between it and the next pool one could not be opened. -/
def outlived : List Op :=
  [.new 0 (some 2) none, .new 9 (some 3) none, .stealer 1 0, .clone 2 1, .pushMany 0 .task 1 4,
   .remove 1 ⟨1⟩, .new 3 (some 4) none, .drop 0, .drop 1]

/-- The pool has three units and a hole, which its last stealer can still have. They are let go with
that stealer, and the owner of the other pool can push them. -/
theorem run_lifetimes_outlived : ∃ reports w d e,
    (start true true).run outlived = .ok (reports, w) ∧
      StepReport.openings reports = [.ofIndex 0, .ofIndex 1] ∧ w.Live (.ofIndex 0) d ∧
      d.queued = [⟨0⟩, ⟨2⟩, ⟨3⟩] ∧ d.holes = 1 ∧ d.generation = 2 ∧
      (StepReport.logged reports).countP (Event.grows (.ofIndex 0)) = 2 ∧
      w.stolen? 2 = some (.ofIndex 0) ∧ w.Serves (.ofIndex 0) d 2 ∧
      w.owned? 3 = some (.ofIndex 1) ∧ w.Live (.ofIndex 1) e ∧
      (∃ report, w.step (.samePool 2 3) = .ok (report, w.unlogged) ∧
        (report.answer = .flag true ↔ d.id = e.id)) ∧
      ∃ report v, w.step (.drop 2) = .ok (report, v) ∧
        (∀ x ∈ v.handles, x.2.pool ≠ .ofIndex 0) ∧
        w.Ended (.ofIndex 0) d report.events.toList v ∧
        (∃ x ∈ v.handles, x.2.pool = .ofIndex 1) ∧ (∃ e, v.Live (.ofIndex 1) e) ∧
        report.events.toList.countP (Event.ends (.ofIndex 1)) = 0 := by
  obtain ⟨reports, w, hrun, hlives⟩ := run_lifetimes true true outlived
  have hshown : ((start true true).run outlived).toOption.any (fun o =>
      decide (o.2.pools.size = 2) &&
      (o.2.live? (.ofIndex 0)).any (fun d =>
        decide (d.queued = [⟨0⟩, ⟨2⟩, ⟨3⟩]) && decide (d.holes = 1) && decide (d.generation = 2)) &&
      decide (o.2.stolen? 2 = some (.ofIndex 0)) && decide (o.2.owned? 3 = some (.ofIndex 1)) &&
      (o.2.live? (.ofIndex 1)).isSome &&
      (o.2.step (.drop 2)).toOption.any fun o' =>
        o'.2.handles.all (fun x => x.2.pool ≠ .ofIndex 0) &&
          o'.2.handles.any fun x => x.2.pool = .ofIndex 1) = true := by
    decide +kernel
  rw [hrun] at hshown
  simp only [Except.toOption, Option.any_some, Option.any_eq_true, Bool.and_eq_true,
    decide_eq_true_eq, Option.isSome_iff_exists] at hshown
  obtain ⟨⟨⟨⟨⟨hsize, d, hd, ⟨hqueued, hholes⟩, hgeneration⟩, hm⟩, hn⟩, e, he⟩, o', ho', hfree,
    hheld⟩ := hshown
  have hl := live?_eq_some.1 hd
  have hl' := live?_eq_some.1 he
  obtain ⟨report, v, hstep, -, hends⟩ := hlives.ends _ d (.drop 2) hl
  obtain ⟨_, _, hstep', hstays, -⟩ := hlives.ends _ e (.drop 2) hl'
  cases hstep.symm.trans hstep'
  rw [hstep] at ho'
  obtain rfl := Option.some.inj ho'
  have hfree : ∀ x ∈ v.handles, x.2.pool ≠ .ofIndex 0 := fun x hx =>
    of_decide_eq_true (List.all_eq_true.1 hfree x hx)
  have hheld : ∃ x ∈ v.handles, x.2.pool = .ofIndex 1 := by
    obtain ⟨x, hx, hxp⟩ := List.any_eq_true.1 hheld
    exact ⟨x, hx, of_decide_eq_true hxp⟩
  obtain ⟨report', hasked, hanswer, -⟩ := hlives.same 2 3 _ _ d e hm hn hl hl'
  refine ⟨reports, w, d, e, hrun, ?_, hl, hqueued, hholes, hgeneration,
    (hlives.grown _ d hl).symm.trans hgeneration, hm, hlives.serves 2 _ d hm hl, hn, hl',
    ⟨report', hasked, hanswer⟩, report, v, hstep, hfree, hends hfree, hheld, hstays hheld⟩
  rw [hlives.numbered, hsize]
  rfl

end Runs

end World

end WorkStealing
