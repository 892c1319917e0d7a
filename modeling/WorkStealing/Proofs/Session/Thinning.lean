import WorkStealing.Proofs.Session.Failures

set_option autoImplicit false

/-!
# Sessions without their failed pushes

A session from which pushes that fail are left out goes on the same: each other step answers, shows
and logs what it did, and in the end the worlds look alike.
-/
namespace WorkStealing

def StepReport.failed (report : StepReport) : Bool :=
  match report.answer with
  | .error _ => true
  | _ => false

theorem StepReport.failed_iff {report : StepReport} :
    report.failed ↔ ∃ e, report.answer = .error e := by
  unfold failed
  cases report.answer <;> simp

/-- A script that starts in a world, and the script without some of its pushes that fail there. What
is left of it keeps its report. Where only the push of a new unit is left out, the unit is still
created, which was not reported; pushes can be left out of a batch once it is taken apart. -/
inductive Thinned : World → List Op → List Op → List (Option StepReport) → Prop where
  | done {w : World} : Thinned w [] [] []
  | keep {w v : World} {op : Op} {report : StepReport} {ops ops' : List Op}
      {kept : List (Option StepReport)} (step : w.step op = .ok (report, v))
      (rest : Thinned v ops ops' kept) : Thinned w (op :: ops) (op :: ops') (some report :: kept)
  | push {w v : World} {n : Nat} {u : UnitId} {report : StepReport} {ops ops' : List Op}
      {kept : List (Option StepReport)}
      (step : w.step (.push n u) = .ok (report, v)) (failed : report.failed)
      (rest : Thinned v ops ops' kept) : Thinned w (.push n u :: ops) ops' kept
  | pushNew {w v : World} {n : Nat} {kind : UnitKind} {report : StepReport} {ops ops' : List Op}
      {kept : List (Option StepReport)}
      (step : w.step (.pushNew n kind) = .ok (report, v)) (failed : report.failed)
      (rest : Thinned v ops ops' kept) :
      Thinned w (.pushNew n kind :: ops) (.createUnit kind :: ops') (none :: kept)
  | batch {w : World} {n : Nat} {type : UnitType} {first : UInt64} {times : Nat}
      {ops ops' : List Op} {kept : List (Option StepReport)}
      (rest : Thinned w
        (.pushNew n (.ofRaw type first) :: .pushMany n type (first + 1) times :: ops) ops' kept) :
      Thinned w (.pushMany n type first (times + 1) :: ops) ops' kept

/-- The report is the one that was kept, if one was, but for rebases. -/
def StepReport.Keeps (report : StepReport) (kept : Option StepReport) : Prop :=
  ∀ r ∈ kept, report.quiet = r.quiet

namespace World

variable {w w' v : World} {p : PoolId} {d : Deque}

section Batches

theorem Sound.of_unlogged (h : w.unlogged.Sound none none) : w.Sound none none :=
  h.congr rfl rfl h.counted fun _ => rfl

theorem Alike.pushOne_unlogged (h : w.unlogged.Alike w'.unlogged none) (hl : w.Live p d)
    {u : UnitId} (hu : w.units.Registered u) :
    ∃ e? v v', w.pushOne p u = .ok (e?, v) ∧ w'.pushOne p u = .ok (e?, v') ∧
      v.unlogged.Alike v'.unlogged none ∧ w.Continues p v ∧ v.handles = w.handles := by
  obtain ⟨d', hl', hview⟩ := h.exists_live hl
  have hw := h.left.of_unlogged
  have hw' := h.right.of_unlogged
  have hunits : w.units = w'.units := h.units_eq
  have hc : (Call.push u).Admissible w.units := by
    rintro v ⟨⟩
    exact hu
  obtain ⟨s, hp⟩ := hw.perform hl hc
  obtain ⟨s', hp'⟩ := hw'.perform hl' (hunits ▸ hc)
  have hscene : (w.site d).scene.unlogged = (w'.site d').scene.unlogged := h.scene_eq hview
  obtain ⟨hreply, hafter⟩ := Scene.push_unlogged (w.site d).scene u
  obtain ⟨hreply', hafter'⟩ := Scene.push_unlogged (w'.site d').scene u
  have hr : ((w.site d).scene.push u).1 = ((w'.site d').scene.push u).1 := by
    rw [← hreply, hscene, hreply']
  have hs : s.scene.unlogged = s'.scene.unlogged := by
    rw [hp.scene, hp'.scene]
    change ((w.site d).scene.push u).2.unlogged = ((w'.site d').scene.push u).2.unlogged
    rw [← hafter, hscene, hafter']
  have hview : (w.put s).unlogged.view = (w'.put s').unlogged.view := by
    rw [view_put_unlogged, view_put_unlogged, hs, h.view]
  refine ⟨_, _, _, pushOne_eq hp.run, ?_, hp.sound.alike_unlogged hp'.sound hview,
    hp.continues hl, rfl⟩
  rw [pushOne_eq hp'.run]
  change Except.ok (((w'.site d').scene.push u).1.refusal?, _) = _
  rw [← hr]
  rfl

theorem pushMany_succ {type : UnitType} {first : UInt64} {times : Nat} {e? : Option PoolError}
    {es : List PoolError} {x : World}
    (hpush : (w.createUnit (.ofRaw type first)).2.pushOne p (w.createUnit (.ofRaw type first)).1 =
      .ok (e?, v))
    (hrest : pushMany p type (first + 1) times v = .ok (es, x)) :
    pushMany p type first (times + 1) w = .ok (e?.toList ++ es, x) := by
  rw [pushMany]
  simp only [hpush, hrest, ok_bind, pure_eq_ok]

theorem Alike.pushMany_unlogged (h : w.unlogged.Alike w'.unlogged none) (hl : w.Live p d)
    (type : UnitType) (first : UInt64) (times : Nat) :
    ∃ es v v', World.pushMany p type first times w = .ok (es, v) ∧
      World.pushMany p type first times w' = .ok (es, v') ∧ v.unlogged.Alike v'.unlogged none := by
  induction times generalizing w w' d first with
  | zero => exact ⟨[], w, w', rfl, rfl, h⟩
  | succ times ih =>
    obtain ⟨hid, hcreated⟩ := h.createUnit (.ofRaw type first)
    have hcreated' : (w.createUnit (.ofRaw type first)).2.unlogged.Alike
      (w'.createUnit (.ofRaw type first)).2.unlogged none := hcreated
    obtain ⟨e?, v, v', hrun, hrun', hv, hcont, _⟩ := hcreated'.pushOne_unlogged (p := p) (d := d) hl
      (u := (w.createUnit (.ofRaw type first)).1)
      (UnitTable.registered_create w.units (.ofRaw type first))
    obtain ⟨d₁, hl₁⟩ := hcont.live
    obtain ⟨es, x, x', hrest, hrest', hx⟩ := ih hv hl₁ (first + 1)
    refine ⟨e?.toList ++ es, x, x', pushMany_succ hrun hrest, pushMany_succ ?_ hrest', hx⟩
    have hid' : (w'.createUnit (.ofRaw type first)).1 = (w.createUnit (.ofRaw type first)).1 :=
      hid.symm
    rw [hid']
    exact hrun'

theorem Sound.batch (h : w.Sound none none) (n : Nat) (type : UnitType) (first : UInt64)
    (times : Nat) :
    ∃ r x r₁ x₁ r₂ x₂, w.step (.pushMany n type first (times + 1)) = .ok (r, x) ∧
      w.step (.pushNew n (.ofRaw type first)) = .ok (r₁, x₁) ∧
      x₁.step (.pushMany n type (first + 1) times) = .ok (r₂, x₂) ∧
      x.unlogged.Alike x₂.unlogged none := by
  have hu : w.unlogged.Sound none none := h.congr rfl rfl h.counted fun _ => rfl
  cases ho : w.unlogged.owned? n with
  | none =>
    have hpushMany : ∀ k times, w.unlogged.act (.pushMany n type k times) =
        .ok (.refused, w.unlogged) := by
      intro k times
      rw [World.act, ho]
      rfl
    have hpushNew : w.unlogged.act (.pushNew n (.ofRaw type first)) =
        .ok (.refused, w.unlogged) := by
      rw [World.act, ho]
      rfl
    exact ⟨_, _, _, _, _, _, step_of_act rfl (hpushMany _ _), step_of_act rfl hpushNew,
      step_of_act rfl (hpushMany _ _), hu.alike⟩
  | some p =>
    obtain ⟨d, hl⟩ := hu.live_of_handle? (handle?_of_owned? ho)
    have hcreated := (hu.alike.createUnit (.ofRaw type first)).2
    obtain ⟨e?, v, _, hpush, _, hv, hcont, hhandles⟩ :=
      hcreated.unlogged.pushOne_unlogged (w := (w.unlogged.createUnit (.ofRaw type first)).2)
        (p := p) (d := d) hl (u := (w.unlogged.createUnit (.ofRaw type first)).1)
        (UnitTable.registered_create w.units (.ofRaw type first))
    obtain ⟨d₁, hl₁⟩ := hcont.live
    have hself : v.unlogged.Alike v.unlogged.unlogged none := hv.left.alike
    obtain ⟨es, x, x₂, hrest, hrest₂, hx⟩ :=
      hself.pushMany_unlogged hl₁ type (first + 1) times
    have hpushMany : w.unlogged.act (.pushMany n type first (times + 1)) =
        .ok (.failures (e?.toList ++ es), x) := by
      rw [World.act, ho]
      simp only [pushMany_succ hpush hrest, ok_bind, pure_eq_ok]
    have hpushNew : w.unlogged.act (.pushNew n (.ofRaw type first)) =
        .ok (e?.elim .ok .error, v) := by
      rw [World.act, ho]
      simp only [hpush, ok_bind]
      cases e? <;> rfl
    have howned : v.unlogged.owned? n = some p := by
      have hsame : v.unlogged.handle? n = w.unlogged.handle? n := congrArg (List.lookup n) hhandles
      rw [← ho, owned?, owned?, hsame]
    have hpushMany₂ : v.unlogged.act (.pushMany n type (first + 1) times) =
        .ok (.failures es, x₂) := by
      rw [World.act, howned]
      simp only [hrest₂, ok_bind, pure_eq_ok]
    exact ⟨_, _, _, _, _, _, step_of_act rfl hpushMany, step_of_act rfl hpushNew,
      step_of_act rfl hpushMany₂, hx⟩

end Batches

section Thinning

theorem step_unlogged (w : World) (op : Op) : w.unlogged.step op = w.step op := by
  rw [step_eq, step_eq]
  rfl

theorem run_unlogged (w : World) (op : Op) (ops : List Op) :
    w.unlogged.run (op :: ops) = w.run (op :: ops) := by
  rw [run, run, step_unlogged]

theorem step_createUnit (w : World) (kind : UnitKind) :
    ∃ report, w.step (.createUnit kind) = .ok (report, (w.createUnit kind).2.unlogged) :=
  ⟨_, rfl⟩

theorem run_of_step {op : Op} {ops : List Op} {report : StepReport} {reports : List StepReport}
    {x : World} (hstep : w.step op = .ok (report, v)) (hrun : v.run ops = .ok (reports, x)) :
    w.run (op :: ops) = .ok (report :: reports, x) := by
  simp only [run, hstep, hrun, ok_bind, pure_eq_ok]

theorem exists_run_cons {op : Op} {ops : List Op} {reports : List StepReport} {x : World}
    (hrun : w.run (op :: ops) = .ok (reports, x)) :
    ∃ report v rest, w.step op = .ok (report, v) ∧ v.run ops = .ok (rest, x) ∧
      reports = report :: rest := by
  rw [run] at hrun
  cases hstep : w.step op with
  | error e =>
    rw [hstep] at hrun
    cases hrun
  | ok o =>
    cases hrest : o.2.run ops with
    | error e =>
      simp only [hstep, hrest, ok_bind] at hrun
      cases hrun
    | ok q =>
      simp only [hstep, hrest, ok_bind] at hrun
      cases hrun
      exact ⟨o.1, o.2, q.1, rfl, hrest, rfl⟩

theorem exists_run_append {ops ops' : List Op} {reports : List StepReport} {x : World}
    (hrun : w.run (ops ++ ops') = .ok (reports, x)) :
    ∃ before v after, w.run ops = .ok (before, v) ∧ v.run ops' = .ok (after, x) ∧
      reports = before ++ after := by
  induction ops generalizing w reports with
  | nil => exact ⟨[], w, reports, rfl, hrun, rfl⟩
  | cons op ops ih =>
    obtain ⟨report, v, rest, hstep, hrest, rfl⟩ := exists_run_cons hrun
    obtain ⟨before, y, after, hbefore, hafter, rfl⟩ := ih hrest
    exact ⟨report :: before, y, after, run_of_step hstep hbefore, hafter, rfl⟩

theorem run_append {ops ops' : List Op} {before after : List StepReport} {x : World}
    (hrun : w.run ops = .ok (before, v)) (hrun' : v.run ops' = .ok (after, x)) :
    w.run (ops ++ ops') = .ok (before ++ after, x) := by
  induction ops generalizing w before with
  | nil =>
    cases hrun
    exact hrun'
  | cons op ops ih =>
    obtain ⟨report, y, rest, hstep, hrest, rfl⟩ := exists_run_cons hrun
    exact run_of_step hstep (ih hrest)

theorem Alike.run_unlogged (h : w.unlogged.Alike w'.unlogged none) {ops : List Op}
    (hc : ∀ op ∈ ops, op.isConvoy = false) :
    ∃ reports v reports' v', w.run ops = .ok (reports, v) ∧ w'.run ops = .ok (reports', v') ∧
      v.unlogged.Alike v'.unlogged none := by
  cases ops with
  | nil => exact ⟨_, _, _, _, rfl, rfl, h⟩
  | cons op ops =>
    have htwin : List.Forall₂ Op.Twin (op :: ops) (op :: ops) :=
      List.forall₂_same.2 fun op _ => .same op
    obtain ⟨⟨reports, v⟩, ⟨reports', v'⟩, hrun, hrun', _, hv⟩ := h.run htwin hc
    rw [World.run_unlogged] at hrun hrun'
    exact ⟨reports, v, reports', v', hrun, hrun', hv.unlogged⟩

theorem Sound.thinned {ops ops' : List Op} {kept : List (Option StepReport)}
    (ht : Thinned w ops ops' kept) (hw : w.Sound none none) (hc : ∀ op ∈ ops, op.isConvoy = false)
    (h : w.unlogged.Alike w'.unlogged none) :
    ∃ reports v reports' v', w.run ops = .ok (reports, v) ∧ w'.run ops' = .ok (reports', v') ∧
      List.Forall₂ StepReport.Keeps reports' kept ∧ v.unlogged.Alike v'.unlogged none := by
  -- the shorter script goes through worlds that show the same, rebases apart
  induction ht generalizing w' with
  | done => exact ⟨[], _, [], w', rfl, rfl, .nil, h⟩
  | @keep w v op report ops ops' kept step _ ih =>
    obtain ⟨⟨r, x⟩, ⟨r', x'⟩, hx, hx', hr, hv⟩ := h.step (.same op) (hc op List.mem_cons_self)
    rw [step_unlogged] at hx hx'
    cases hx.symm.trans step
    obtain ⟨reports, y, reports', y', hrun, hrun', hkept, hy⟩ :=
      ih hv.left (fun o ho => hc o (List.mem_cons_of_mem _ ho)) hv.unlogged
    refine ⟨_, y, _, y', run_of_step step hrun, run_of_step hx' hrun', .cons ?_ hkept, hy⟩
    rintro k ⟨⟩
    exact hr.symm
  | @push w v n u report ops ops' kept step failed _ ih =>
    obtain ⟨e, failed⟩ := StepReport.failed_iff.1 failed
    have hv := hw.push_failed n u _ step e failed
    obtain ⟨reports, y, reports', y', hrun, hrun', hkept, hy⟩ :=
      ih hv.right.of_unlogged (fun o ho => hc o (List.mem_cons_of_mem _ ho)) (hv.symm.trans h)
    exact ⟨_, y, _, y', run_of_step step hrun, hrun', hkept, hy⟩
  | @pushNew w v n kind report ops ops' kept step failed _ ih =>
    obtain ⟨e, failed⟩ := StepReport.failed_iff.1 failed
    have hv := hw.pushNew_failed n kind _ step e failed
    have hcreated : (w.createUnit kind).2.unlogged.Alike
        (w'.createUnit kind).2.unlogged.unlogged none := (h.createUnit kind).2
    obtain ⟨report', hcreate⟩ := w'.step_createUnit kind
    obtain ⟨reports, y, reports', y', hrun, hrun', hkept, hy⟩ :=
      ih hv.right.of_unlogged (fun o ho => hc o (List.mem_cons_of_mem _ ho))
        (hv.symm.trans hcreated)
    exact ⟨_, y, _, y', run_of_step step hrun, run_of_step hcreate hrun',
      .cons (fun _ hk => by cases hk) hkept, hy⟩
  | @batch w n type first times ops ops' kept _ ih =>
    -- The whole batch and its first push with the rest of it lead to the same world.
    obtain ⟨r, x, r₁, x₁, r₂, x₂, hbatch, hfirst, hrest, hx⟩ := hw.batch n type first times
    have hc' : ∀ op ∈ ops, op.isConvoy = false := fun o ho => hc o (List.mem_cons_of_mem _ ho)
    obtain ⟨reports, y, reports', y', hrun, hrun', hkept, hy⟩ := ih hw (by
      intro o ho
      rcases List.mem_cons.1 ho with rfl | ho
      · rfl
      · rcases List.mem_cons.1 ho with rfl | ho
        · rfl
        · exact hc' o ho) h
    obtain ⟨rs, z, rs', z', hz, hz', hzz⟩ := hx.run_unlogged hc'
    cases hrun.symm.trans (run_of_step hfirst (run_of_step hrest hz'))
    exact ⟨_, z, _, y', run_of_step hbatch hz, hrun', hkept, hzz.trans hy⟩

end Thinning

/-- Failed pushes may be left out of a session without convoys: nothing else is answered, logged or
left differently, but for rebases. After any session a unit that is in no pool is refused exactly
by a pool that lacks one unit to be full, if there is no ring of twice its size to be had, and its
slots have not been touched then. -/
theorem run_thinned (telemetry hooks : Bool) (ops : List Op) :
    ∃ reports w, (start telemetry hooks).run ops = .ok (reports, w) ∧
      ((∀ op ∈ ops, op.isConvoy = false) → ∀ ops' kept,
        Thinned (start telemetry hooks) ops ops' kept →
        ∃ reports' w', (start telemetry hooks).run ops' = .ok (reports', w') ∧
          List.Forall₂ StepReport.Keeps reports' kept ∧ w'.unlogged.view = w.unlogged.view) ∧
      ∀ n p d u e, w.owned? n = some p → w.Live p d → w.unit? u = some e → e.unit.pool = none →
        ∃ report v, w.step (.push n u) = .ok (report, v) ∧
          (∀ err, report.answer = .error err ↔ err = .resourceExhausted (2 * d.capacity) ∧
            d.length + 1 = d.capacity ∧ Ring.fits w.limit (2 * d.capacity) = false) ∧
          ∀ err, report.answer = .error err → ∃ d', v.Live p d' ∧ d'.ring = d.ring ∧
            d'.foreign.contents = d.foreign.contents := by
  have hstart := sound_start telemetry hooks
  obtain ⟨reports, w, hrun, hw⟩ := hstart.run ops
  refine ⟨reports, w, hrun, fun hc ops' kept ht => ?_, fun n p d u e ho hl hu hfree => ?_⟩
  · obtain ⟨_, _, reports', w', hrun₁, hrun', hkept, hview⟩ :=
      hstart.thinned ht hc hstart.alike.unlogged
    cases hrun.symm.trans hrun₁
    exact ⟨reports', w', hrun', hkept, hview.view.symm⟩
  · exact hw.push_free ho hl hu hfree

/-- A pool of two slots under a limit of two, whose counters start just below the last machine word.
Three pushes fail: of a unit that is queued, of a new one and of one that was popped again. -/
def pushAtLimit : List Op :=
  [.newAt 0 (some 2) 18446744073709551614, .createUnit (.task ⟨7⟩), .limit (some 2), .push 0 ⟨0⟩,
   .push 0 ⟨0⟩, .pushNew 0 (.task ⟨8⟩), .pop 0, .push 0 ⟨1⟩, .push 0 ⟨0⟩]

def pushUnderLimit : List Op :=
  [.newAt 0 (some 2) 18446744073709551614, .createUnit (.task ⟨7⟩), .limit (some 2), .push 0 ⟨0⟩,
   .createUnit (.task ⟨8⟩), .pop 0, .push 0 ⟨1⟩]

theorem pushAtLimit_thinned :
    ∃ kept, Thinned (start true true) pushAtLimit pushUnderLimit kept := by
  obtain ⟨r₀, w₀, h₀, hw⟩ := (sound_start true true).step (.newAt 0 (some 2) 18446744073709551614)
  obtain ⟨r₁, w₁, h₁, hw⟩ := hw.step (.createUnit (.task ⟨7⟩))
  obtain ⟨r₂, w₂, h₂, hw⟩ := hw.step (.limit (some 2))
  obtain ⟨r₃, w₃, h₃, hw⟩ := hw.step (.push 0 ⟨0⟩)
  obtain ⟨r₄, w₄, h₄, hw⟩ := hw.step (.push 0 ⟨0⟩)
  obtain ⟨r₅, w₅, h₅, hw⟩ := hw.step (.pushNew 0 (.task ⟨8⟩))
  obtain ⟨r₆, w₆, h₆, hw⟩ := hw.step (.pop 0)
  obtain ⟨r₇, w₇, h₇, hw⟩ := hw.step (.push 0 ⟨1⟩)
  obtain ⟨r₈, w₈, h₈, hw⟩ := hw.step (.push 0 ⟨0⟩)
  have hrun : (start true true).run pushAtLimit =
      .ok ([r₀, r₁, r₂, r₃, r₄, r₅, r₆, r₇, r₈], w₈) :=
    run_of_step h₀ <| run_of_step h₁ <| run_of_step h₂ <| run_of_step h₃ <| run_of_step h₄ <|
      run_of_step h₅ <| run_of_step h₆ <| run_of_step h₇ <| run_of_step h₈ rfl
  have hfailed : ((start true true).run pushAtLimit).toOption.any (fun o =>
      o.1.map StepReport.failed =
        [false, false, false, false, true, true, false, false, true]) := by
    decide +kernel
  rw [hrun] at hfailed
  simp only [Except.toOption, Option.any_some, List.map_cons, List.map_nil, List.cons.injEq,
    decide_eq_true_eq] at hfailed
  obtain ⟨-, -, -, -, hr₄, hr₅, -, -, hr₈, -⟩ := hfailed
  exact ⟨_, .keep h₀ <| .keep h₁ <| .keep h₂ <| .keep h₃ <| .push h₄ hr₄ <| .pushNew h₅ hr₅ <|
    .keep h₆ <| .keep h₇ <| .push h₈ hr₈ .done⟩

theorem run_thinned_at_limit : ∃ reports w kept p d e,
    (start true true).run pushAtLimit = .ok (reports, w) ∧
      (∀ op ∈ pushAtLimit, op.isConvoy = false) ∧
      Thinned (start true true) pushAtLimit pushUnderLimit kept ∧
      (∃ reports' w', (start true true).run pushUnderLimit = .ok (reports', w') ∧
        List.Forall₂ StepReport.Keeps reports' kept ∧ w'.unlogged.view = w.unlogged.view) ∧
      w.owned? 0 = some p ∧ w.Live p d ∧ w.unit? ⟨0⟩ = some e ∧ e.unit.pool = none ∧
      ∃ report v, w.step (.push 0 ⟨0⟩) = .ok (report, v) ∧
        report.answer = .error (.resourceExhausted 4) := by
  obtain ⟨kept, ht⟩ := pushAtLimit_thinned
  have hc : ∀ op ∈ pushAtLimit, op.isConvoy = false := by
    simp [pushAtLimit, Op.isConvoy]
  have hshown : ((start true true).run pushAtLimit).toOption.any (fun o =>
      o.2.owned? 0 = some (.ofIndex 0) ∧
        (o.2.live? (.ofIndex 0)).any (fun d => d.capacity = 2 ∧ d.length = 1) ∧
        (o.2.unit? ⟨0⟩).any (·.unit.pool = none) ∧ o.2.limit = some 2) := by
    decide +kernel
  obtain ⟨reports, w, hrun, hthinned, hfree⟩ := run_thinned true true pushAtLimit
  rw [hrun] at hshown
  simp only [Except.toOption, Option.any_some, decide_eq_true_eq, Option.any_eq_true] at hshown
  obtain ⟨ho, ⟨d, hl, hcap, hlen⟩, ⟨e, hu, hpool⟩, hlimit⟩ := hshown
  obtain ⟨report, v, hstep, hiff, -⟩ := hfree 0 _ d ⟨0⟩ e ho (live?_eq_some.1 hl) hu hpool
  refine ⟨reports, w, kept, _, d, e, hrun, hc, ht, hthinned hc _ _ ht, ho, live?_eq_some.1 hl, hu,
    hpool, report, v, hstep, (hiff _).2 ⟨?_, ?_, ?_⟩⟩
  · rw [hcap]
  · rw [hlen, hcap]
  · rw [hlimit, hcap]
    decide

end World

end WorkStealing
