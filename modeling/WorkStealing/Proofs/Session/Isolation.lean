import WorkStealing.Proofs.Session.Handover
import WorkStealing.Proofs.Session.Traffic

set_option autoImplicit false

/-!
# Pools do not disturb one another

A step whose handles are all on one pool leaves every other pool as it is, with the handles on it
and the units in it. Only units that went into that pool or came out of it have another mark
afterwards.
-/
namespace WorkStealing

namespace Site

variable {s : Site} {u : UnitId}

theorem perform_remove_elsewhere (hk : s.units.Knows u)
    (hu : s.units.holder? u ≠ some s.deque.id) (side : Side) :
    (Call.remove side u).perform s = .ok (.missed, s.tally .removeMiss) := by
  have hopening : (Call.remove side u).opening s = .ok (.reply .missed, s) :=
    remove_elsewhere hk hu side
  rw [Call.perform, Call.start_eq, hopening]
  rfl

theorem perform_push_held {e : UnitEntry} (he : s.units.find? u = some e) (hrefs : 0 < e.refs)
    {q : PoolId} (hq : s.units.holder? u = some q) :
    (Call.push u).perform s = .ok (.refused (.alreadyQueued q), s) := by
  rw [Call.perform, Call.start_eq, Call.opening, push_held he hrefs hq]
  rfl

end Site

namespace World

variable {w v : World} {p q : PoolId} {d e : Deque} {op : Op}

/-- The step names no handle of another pool, and opens none. -/
structure Addressed (w : World) (op : Op) (p : PoolId) : Prop where
  opens : op.opens = false
  names : ∀ n ∈ op.names, ∀ k, w.handle? n = some k → k.pool = p

theorem addressed_iff : w.Addressed op p ↔ op.opens = false ∧
    ∀ n ∈ op.names, (w.handle? n).all (·.pool = p) = true := by
  refine ⟨fun h => ⟨h.opens, fun n hn => ?_⟩, fun ⟨hopens, hnames⟩ => ⟨hopens, fun n hn k hk => ?_⟩⟩
  · exact (Option.all_eq_true _ _).2 fun k hk => decide_eq_true (h.names n hn k hk)
  · exact of_decide_eq_true ((Option.all_eq_true _ _).1 (hnames n hn) k hk)

instance (w : World) (op : Op) (p : PoolId) : Decidable (w.Addressed op p) :=
  decidable_of_iff _ addressed_iff.symm

/-- But for `p`, the pools of `v` and the handles on them are those of `w`. -/
structure Apart (w : World) (p : PoolId) (v : World) : Prop where
  pools : ∀ q, q ≠ p → ∀ d, v.Live q d ↔ w.Live q d
  handles : ∀ q, q ≠ p →
    v.handles.filter (·.2.pool = q) = w.handles.filter (·.2.pool = q)

section Frame

theorem Sound.eq_ofIndex {busy loose : Option PoolId} (h : w.Sound busy loose)
    (hl : w.Live p d) : p = .ofIndex p.index :=
  hl.2.symm.trans (h.ids _ _ hl.1)

theorem Sound.index_ne (h : w.Sound none none) (hv : v.Sound none none) (hl : w.Live p d)
    (he : v.Live q e) (hq : q ≠ p) : q.index ≠ p.index := fun hi => by
  rw [h.eq_ofIndex hl, hv.eq_ofIndex he, hi] at hq
  exact hq rfl

theorem Bystands.apart (h : w.Sound none none) (hv : v.Sound none none) (hl : w.Live p d)
    (hb : w.Bystands (· ≠ p.index) v) : w.Apart p v where
  pools q hq e := by
    constructor
    · intro he
      exact ⟨(hb.pools q.index (h.index_ne hv hl he hq)).symm.trans he.1, he.2⟩
    · intro he
      exact ⟨(hb.pools q.index (h.index_ne h hl he hq)).trans he.1, he.2⟩
  handles _ _ := by rw [hb.handles]

theorem Rebound.apart (h : w.Sound none none) {n : Nat} {k? : Option PoolHandle}
    (hn : ∀ k, w.handle? n = some k → k.pool = p) (hk : ∀ k, k? = some k → k.pool = p)
    (hb : w.Rebound n k? v) : w.Apart p v := by
  have hhandles : ∀ q, q ≠ p → (w.rehandled n k?).handles.filter (·.2.pool = q) =
      w.handles.filter (·.2.pool = q) := by
    intro q hq
    have hgiven : (k?.map (Prod.mk n)).toList.filter (·.2.pool = q) = [] := by
      cases k? with
      | none => rfl
      | some k =>
        have hne : k.pool ≠ q := fun hkq => hq (hkq.symm.trans (hk k rfl))
        simp [hne]
    change ((k?.map (Prod.mk n)).toList ++ w.handles.filter (·.1 ≠ n)).filter (·.2.pool = q) = _
    rw [List.filter_append, hgiven, List.nil_append, List.filter_filter]
    refine List.filter_congr fun x hx => ?_
    -- no handle of number `n` is on another pool
    by_cases hxn : x.1 = n
    · obtain ⟨k, hk⟩ := Option.isSome_iff_exists.1 (handle?_isSome hx hxn)
      have hne : x.2.pool ≠ q := fun hxq =>
        hq (hxq.symm.trans ((congrArg _ (h.eq_of_handle? hk hx hxn)).trans (hn k hk)))
      simp [hne]
    · simp [hxn]
  cases hb with
  | kept => exact ⟨fun _ _ _ => Iff.rfl, hhandles⟩
  | @ended old d former live free =>
    refine ⟨fun q hq e => ?_, hhandles⟩
    have hlive : (w.rehandled n k?).Live old.pool d := live
    rw [live_close hlive live.2, and_iff_right (hn old former ▸ hq)]
    exact Iff.rfl

theorem Sound.step_apart (h : w.Sound none none) (hl : w.Live p d) (ha : w.Addressed op p) :
    Ensures (w.step op) fun o => w.Apart p o.2 := by
  rintro ⟨report, v⟩ hstep
  obtain ⟨_, _, hstep', hv⟩ := h.step op
  cases hstep.symm.trans hstep'
  cases hop : op.rebinds? with
  | none =>
    have hshuns : w.Shuns op (· ≠ p.index) := fun n hn k hk hne =>
      hne (congrArg PoolId.index (ha.names n hn k hk))
    exact (step_leaves hop hshuns _ hstep).1.apart h hv hl
  | some n =>
    have hu : w.unlogged.Sound none none := h.congr rfl rfl h.counted fun _ => rfl
    have hrebinds := h.step_rebinds hop _ hstep
    obtain ⟨answer, size, events⟩ := report
    cases hrebinds with
    | idle => exact ⟨fun _ _ _ => Iff.rfl, fun _ _ => rfl⟩
    | lent named rebound =>
      have hapart := Rebound.apart hu (ha.names n (Op.mem_names_of_rebinds hop)) (fun k hk => by
        obtain ⟨m, hm, j, hj, hjk⟩ := named k hk
        exact hjk.symm.trans (ha.names m hm j hj)) rebound
      exact ⟨hapart.pools, hapart.handles⟩
    | opened opens => exact absurd (opens.symm.trans ha.opens) (by simp)

end Frame

section Marks

/-- What comes of a step that is about pool `p` only. -/
structure Isolated (w : World) (op : Op) (p : PoolId) (v : World) : Prop extends w.Apart p v where
  /-- A unit that is marked now and was not before has been pushed into `p`. -/
  entered : ∀ u q, v.units.holder? u = some q → w.units.holder? u ≠ some q →
    q = p ∧ w.units.holder? u = none ∧ ∃ l, .leg l ∈ w.course [op] ∧ l.Stores p u
  /-- A unit that was marked before and is not now has been taken out of `p`, or `p` has ended. -/
  left : ∀ u q, w.units.holder? u = some q → v.units.holder? u ≠ some q →
    q = p ∧ v.units.holder? u = none ∧
      ((∃ l, .leg l ∈ w.course [op] ∧ l.Takes p u) ∨ ∀ e, ¬ v.Live p e)

theorem Sound.path_course (h : w.Sound none none) (op : Op) : Ensures (w.step op) fun o =>
    w.unlogged.Path (w.course [op]) o.2 := by
  rintro ⟨report, v⟩ hstep
  have hway := h.step_path op _ hstep
  rw [course, hstep, thence, course, List.append_nil]
  exact hway

theorem Apart.holder_iff (hap : w.Apart p v) (h : w.Sound none none) (hv : v.Sound none none)
    (hq : q ≠ p) {u : UnitId} : v.units.holder? u = some q ↔ w.units.holder? u = some q := by
  rw [← h.houses_iff, ← hv.houses_iff]
  exact exists_congr fun e => and_congr_left fun _ => hap.pools q hq e

theorem Sound.step_isolated (h : w.Sound none none) (hl : w.Live p d) (ha : w.Addressed op p) :
    Ensures (w.step op) fun o => w.Isolated op p o.2 := by
  rintro ⟨report, v⟩ hstep
  obtain ⟨_, _, hstep', hv⟩ := h.step op
  cases hstep.symm.trans hstep'
  have hap := h.step_apart hl ha _ hstep
  have hway := h.path_course op _ hstep
  refine ⟨hap, fun u q hu hn => ?_, fun u q hu hn => ?_⟩
  · have hq : q = p := by_contra fun hq => hn ((hap.holder_iff h hv hq).1 hu)
    subst hq
    refine ⟨rfl, Option.eq_none_iff_forall_ne_some.2 fun r hr => ?_, ?_⟩
    · have hne : r ≠ q := fun hrq => hn (hrq ▸ hr)
      exact hne (Option.some.inj (((hap.holder_iff h hv hne).2 hr).symm.trans hu))
    · exact (hway.stored (hv.houses_iff.2 hu)).resolve_left fun hhouses =>
        hn (h.houses_iff.1 hhouses)
  · have hq : q = p := by_contra fun hq => hn ((hap.holder_iff h hv hq).2 hu)
    subst hq
    refine ⟨rfl, Option.eq_none_iff_forall_ne_some.2 fun r hr => ?_, ?_⟩
    · have hne : r ≠ q := fun hrq => hn (hrq ▸ hr)
      exact hne (Option.some.inj (((hap.holder_iff h hv hne).1 hr).symm.trans hu))
    · exact (hway.taken (h.houses_iff.2 hu)).resolve_left fun hhouses =>
        hn (hv.houses_iff.1 hhouses)

end Marks

section Strangers

variable {n : Nat} {k : PoolHandle} {u : UnitId} {entry : UnitEntry}

theorem holder?_of_unit? (hu : w.unit? u = some entry) : w.units.holder? u = entry.unit.pool := by
  obtain ⟨he, -⟩ := Option.filter_eq_some_iff.1 hu
  rw [UnitTable.holder?, he]
  rfl

/-- A unit of another pool is not removed: the miss is counted, and that is all. -/
theorem step_remove_elsewhere (hk : w.handle? n = some k) (hl : w.Live k.pool d)
    (hu : w.unit? u = some entry) (hheld : entry.unit.pool = some q) (hq : q ≠ k.pool) :
    ∃ report v metrics, w.step (.remove n u) = .ok (report, v) ∧
      report.answer = .unit none ∧ v.units = w.units ∧ v.handles = w.handles ∧
      v.Live k.pool { d with metrics } := by
  have hholder := (holder?_of_unit? hu).trans hheld
  have hnot : w.units.holder? u ≠ some d.id := fun heq =>
    hq ((Option.some.inj (hholder.symm.trans heq)).trans hl.2)
  obtain ⟨metrics, htally⟩ := (w.unlogged.site d).exists_tally .removeMiss
  let s : Site := ⟨w.unlogged.toContext, { d with metrics }⟩
  have hrun : (Call.remove k.side u).perform (w.unlogged.site d) = .ok (.missed, s) := by
    rw [Site.perform_remove_elsewhere (UnitTable.knows_of_holder? hholder) hnot, htally]
    rfl
  have hl' : w.unlogged.Live k.pool d := hl
  have hvisit : w.unlogged.perform k.pool (.remove k.side u) = .ok (.missed, w.unlogged.put s) :=
    visit_eq hl' hrun hl.2
  have hact : w.unlogged.act (.remove n u) = .ok (.unit none, w.unlogged.put s) := by
    have hk' : w.unlogged.handle? n = some k := hk
    have hu' : w.unlogged.unit? u = some entry := hu
    rw [World.act, hk', hu']
    dsimp only
    rw [take, hvisit]
    rfl
  exact ⟨_, _, metrics, step_of_act rfl hact, rfl, rfl, rfl,
    (live_put hl' hl.2).2 (.inl ⟨rfl, rfl⟩)⟩

/-- A unit that is in a pool is handed back, and nothing has changed. -/
theorem Sound.step_push_held (h : w.Sound none none) (ho : w.owned? n = some p)
    (hu : w.unit? u = some entry) (hheld : entry.unit.pool = some q) :
    ∃ report, w.step (.push n u) = .ok (report, w.unlogged) ∧
      report.answer = .error (.alreadyQueued q) := by
  obtain ⟨d, hl⟩ := h.live_of_handle? (handle?_of_owned? ho)
  have hholder := (holder?_of_unit? hu).trans hheld
  obtain ⟨he, hr⟩ := Option.filter_eq_some_iff.1 hu
  obtain ⟨e, he', hrefs⟩ := h.counted.exists_entry (registered_of_unit? hu)
  have hrun : (Call.push u).perform (w.unlogged.site d) =
      .ok (.refused (.alreadyQueued q), w.unlogged.site d) :=
    Site.perform_push_held he' hrefs hholder
  have hl' : w.unlogged.Live p d := hl
  have hvisit : w.unlogged.perform p (.push u) = .ok (.refused (.alreadyQueued q), _) :=
    visit_eq hl' hrun hl.2
  rw [put_site hl'] at hvisit
  have hact : w.unlogged.act (.push n u) = .ok (.error (.alreadyQueued q), w.unlogged) := by
    have ho' : w.unlogged.owned? n = some p := ho
    have hu' : w.unlogged.unit? u = some entry := hu
    rw [World.act, ho', hu']
    dsimp only
    rw [pushOne_eq hvisit]
    rfl
  exact ⟨_, step_of_act rfl hact, rfl⟩

end Strangers

/-- In every state that a session can reach, a step whose handles are all on one pool leaves the
other pools and the handles on them as they are, and only units that it pushed into that pool or
took out of it are marked otherwise than before. A unit of another pool can be removed by no step,
and none can push it: it finds nothing, or is told where the unit is. -/
theorem run_isolated (telemetry hooks : Bool) (ops : List Op) : ∃ reports w,
    (start telemetry hooks).run ops = .ok (reports, w) ∧
      (∀ op p d, w.Live p d → w.Addressed op p →
        ∃ report v, w.step op = .ok (report, v) ∧ w.Isolated op p v) ∧
      (∀ n k d u entry q, w.handle? n = some k → w.Live k.pool d → w.unit? u = some entry →
        entry.unit.pool = some q → q ≠ k.pool →
        ∃ report v metrics, w.step (.remove n u) = .ok (report, v) ∧ report.answer = .unit none ∧
          v.units = w.units ∧ v.handles = w.handles ∧ v.Live k.pool { d with metrics }) ∧
      ∀ n p u entry q, w.owned? n = some p → w.unit? u = some entry →
        entry.unit.pool = some q → ∃ report, w.step (.push n u) = .ok (report, w.unlogged) ∧
          report.answer = .error (.alreadyQueued q) := by
  obtain ⟨reports, w, hrun, hw⟩ := (sound_start telemetry hooks).run ops
  refine ⟨reports, w, hrun, fun op p d hl ha => ?_, fun n k d u entry q hk hl hu hheld hq =>
    step_remove_elsewhere hk hl hu hheld hq, fun n p u entry q ho hu hheld =>
    hw.step_push_held ho hu hheld⟩
  obtain ⟨report, v, hstep, -⟩ := hw.step op
  exact ⟨report, v, hstep, hw.step_isolated hl ha _ hstep⟩

/-- Two pools with a stealer each, one of which holds a task and the other two. -/
def neighbours : List Op :=
  [.new 0 (some 4) none, .new 1 (some 4) none, .stealer 2 0, .stealer 3 1, .pushNew 0 (.task ⟨7⟩),
   .pushMany 1 .task 8 2]

def meddling : Op := .convoy 1 [.steal 3, .remove 3 ⟨2⟩, .pop 1]

/-- The calls on the second pool empty it, and the first one neither loses its unit to a removal by
a stealer of the second pool nor lets the second one have it. -/
theorem run_isolated_neighbours : ∃ reports w d entry,
    (start true true).run neighbours = .ok (reports, w) ∧ w.Live (.ofIndex 1) d ∧
      d.queued = [⟨1⟩, ⟨2⟩] ∧ w.Addressed meddling (.ofIndex 1) ∧
      (∃ report v, w.step meddling = .ok (report, v) ∧ w.Isolated meddling (.ofIndex 1) v) ∧
      w.handle? 3 = some ⟨.foreign, .ofIndex 1⟩ ∧ w.owned? 1 = some (.ofIndex 1) ∧
      w.unit? ⟨0⟩ = some entry ∧ entry.unit.pool = some (.ofIndex 0) ∧
      (∃ report v metrics, w.step (.remove 3 ⟨0⟩) = .ok (report, v) ∧ report.answer = .unit none ∧
        v.units = w.units ∧ v.handles = w.handles ∧ v.Live (.ofIndex 1) { d with metrics }) ∧
      ∃ report, w.step (.push 1 ⟨0⟩) = .ok (report, w.unlogged) ∧
        report.answer = .error (.alreadyQueued (.ofIndex 0)) := by
  obtain ⟨reports, w, hrun, hisolated, hremove, hpush⟩ := run_isolated true true neighbours
  have hshown : ((start true true).run neighbours).toOption.any (fun o =>
      (o.2.live? (.ofIndex 1)).any (fun d => d.queued = [⟨1⟩, ⟨2⟩]) &&
        decide (o.2.Addressed meddling (.ofIndex 1)) &&
        decide (o.2.handle? 3 = some ⟨.foreign, .ofIndex 1⟩) &&
        decide (o.2.owned? 1 = some (.ofIndex 1)) &&
        (o.2.unit? ⟨0⟩).any fun entry => entry.unit.pool = some (.ofIndex 0)) = true := by
    decide +kernel
  rw [hrun] at hshown
  simp only [Except.toOption, Option.any_some, Option.any_eq_true, Bool.and_eq_true,
    decide_eq_true_eq] at hshown
  obtain ⟨⟨⟨⟨⟨d, hd, hqueued⟩, ha⟩, hk⟩, ho⟩, entry, hu, hheld⟩ := hshown
  have hl := live?_eq_some.1 hd
  exact ⟨reports, w, d, entry, hrun, hl, hqueued, ha, hisolated _ _ d hl ha, hk, ho, hu, hheld,
    hremove 3 _ d _ entry _ hk hl hu hheld (by decide), hpush 1 _ _ entry _ ho hu hheld⟩

end World

end WorkStealing
