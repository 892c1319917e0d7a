import WorkStealing.Proofs.Deque.Unmetered
import WorkStealing.Proofs.Session.Thinning

set_option autoImplicit false

/-!
# Sessions that count nothing

A session goes the same with and without telemetry: only the metrics that it shows differ, and
without telemetry they are all zero. Steps that read or reset metrics can be put in and left out
anywhere, and no other step answers, shows or logs anything else for it.
-/
namespace WorkStealing

namespace Convoy

variable (c : Convoy) (s : Site)

theorem unmetered_hold : hold s.unmetered = Site.unmetered <$> hold s :=
  bind_same fun _ => rfl

theorem unmetered_board (call : Call) :
    c.board call s.unmetered = unmeteredSite <$> c.board call s := by
  refine ite_mapped (fun _ => rfl) fun _ => bind_mapped (call.unmetered_start s) ?_
  rintro ⟨flight, s⟩
  cases flight <;> rfl

theorem unmetered_serve (budget : Nat) :
    serve budget c s.unmetered = unmeteredSite <$> serve budget c s := by
  induction budget generalizing c s with
  | zero =>
    rw [serve, serve]
    cases c.line <;> rfl
  | succ budget ih =>
    rw [serve, serve]
    cases c.line with
    | nil => rfl
    | cons w line =>
      refine bind_mapped (w.call.unmetered_grant s w.ticket w.ahead w.stage) ?_
      rintro ⟨next, s⟩
      cases next with
      | reply r => exact ih _ s
      | go stage =>
        refine bind_mapped (w.call.unmetered_advance s stage) ?_
        rintro ⟨flight, s⟩
        cases flight <;> exact ih _ s

theorem unmetered_finish : c.finish s.unmetered = unmeteredSite <$> c.finish s :=
  c.unmetered_serve (letGo s) _

end Convoy

def MetricsSnapshot.blank : MetricsSnapshot := ⟨0, 0, 0, 0, 0, 0, 0, 0, 0, 0, 0⟩

def Answer.unmetered : Answer → Answer
  | .metrics _ => .metrics .blank
  | answer => answer

def StepReport.unmetered (report : StepReport) : StepReport :=
  { report with answer := report.answer.unmetered }

def Op.metering : Op → Bool
  | .metrics _ => true
  | .resetMetrics _ => true
  | _ => false

namespace World

def unmetered (w : World) : World :=
  { w with telemetry := false, pools := w.pools.map (Option.map Deque.unmetered) }

def unmeteredWorld {α : Type} (o : α × World) : α × World := (o.1, o.2.unmetered)

variable (w : World)

section Pools

theorem pool?_unmetered (p : PoolId) :
    w.unmetered.pool? p = (w.pool? p).map Deque.unmetered := by
  simp only [pool?, unmetered, Array.getElem?_map]
  cases w.pools[p.index]? <;> rfl

theorem unmetered_setIfInBounds (i : Nat) (c : Option Deque) :
    (w.pools.map (Option.map Deque.unmetered)).setIfInBounds i (c.map Deque.unmetered) =
      (w.pools.setIfInBounds i c).map (Option.map Deque.unmetered) :=
  (Array.map_setIfInBounds ..).symm

theorem unmetered_visit {α : Type} (p : PoolId) {act : Site → Checked (α × Site)}
    (hact : ∀ s, act s.unmetered = unmeteredSite <$> act s) :
    w.unmetered.visit p act = unmeteredWorld <$> w.visit p act := by
  have hpool := w.pool?_unmetered p
  unfold pool? at hpool
  simp only [visit, takeOut]
  rw [hpool]
  cases (w.pools[p.index]?).getD none with
  | none => rfl
  | some d =>
    refine bind_mapped (hact ⟨w.toContext, d⟩) ?_
    rintro ⟨a, s⟩
    refine congrArg
      (fun pools => Except.ok (a, { w with toContext := s.unmetered.toContext, pools })) ?_
    simp only [unmetered, Array.map_setIfInBounds]
    rfl

theorem unmetered_perform (p : PoolId) (call : Call) :
    w.unmetered.perform p call = unmeteredWorld <$> w.perform p call :=
  w.unmetered_visit p call.unmetered_perform

theorem unmetered_endPool (p : PoolId) :
    w.unmetered.endPool p = unmetered <$> w.endPool p := by
  have hact : ∀ s : Site, (do return ((), ← s.unmetered.teardown) : Checked (Unit × Site)) =
      unmeteredSite <$> (do return ((), ← s.teardown)) := fun s =>
    bind_mapped s.unmetered_teardown fun _ => rfl
  refine bind_mapped (w.unmetered_visit p hact) ?_
  rintro ⟨_, w⟩
  refine congrArg (fun pools => Except.ok { w with telemetry := false, pools }) ?_
  exact w.unmetered_setIfInBounds p.index none

theorem unmetered_settlePool (p : PoolId) :
    w.unmetered.settlePool p = unmetered <$> w.settlePool p :=
  ite_mapped (fun _ => rfl) fun _ => w.unmetered_endPool p

theorem unmetered_dropHandle (n : Nat) :
    w.unmetered.dropHandle n = unmetered <$> w.dropHandle n := by
  have hsame : w.unmetered.handle? n = w.handle? n := rfl
  simp only [dropHandle, hsame]
  cases w.handle? n with
  | none => rfl
  | some k =>
    exact unmetered_settlePool { w with handles := w.handles.filter (·.1 ≠ n) } k.pool

theorem unmetered_bind (n : Nat) (k : PoolHandle) :
    w.unmetered.bind n k = unmetered <$> w.bind n k := by
  have hsame : w.unmetered.handle? n = w.handle? n := rfl
  simp only [bind, hsame]
  cases w.handle? n with
  | none => rfl
  | some old => exact (w.bound n k).unmetered_settlePool old.pool

/-- A new pool has counted nothing. -/
theorem create_unmetered (limit : Option Nat) (config : PoolConfig) (start : Nat) (p : PoolId) :
    Ensures (Deque.create limit config start p) fun r => ∀ d, r = .ok d → d.unmetered = d := by
  refine .bind (.trivial _) fun r _ => ?_
  cases r with
  | error e => exact .ok fun d hd => by cases hd
  | ok ring =>
    refine .ok fun d hd => ?_
    cases hd
    rfl

theorem unmetered_openPool (n : Nat) (config : PoolConfig) (start : Nat) :
    w.unmetered.openPool n config start = unmeteredWorld <$> w.openPool n config start := by
  have hsize : w.unmetered.pools.size = w.pools.size := Array.size_map
  have hlimit : w.unmetered.limit = w.limit := rfl
  simp only [openPool, hsize, hlimit]
  cases config.validate with
  | error problem => rfl
  | ok _ =>
    cases hr : Deque.create w.limit config start (.ofIndex w.pools.size) with
    | error fault => rfl
    | ok r =>
      cases r with
      | error e => rfl
      | ok d =>
        have hd : d.unmetered = d := create_unmetered _ _ _ _ _ hr d rfl
        have hpush : w.unmetered.pools.push (some d) =
            (w.pools.push (some d)).map (Option.map Deque.unmetered) := by
          rw [Array.map_push, Option.map_some, hd]
          rfl
        simp only [ok_bind, hpush]
        exact bind_mapped (unmetered_bind { w with
          pools := w.pools.push (some d)
          log := w.log.push (.created (.ofIndex w.pools.size) config.name config.initialCapacity) }
          n ⟨.owner, .ofIndex w.pools.size⟩) fun _ => rfl

end Pools

section Requests

theorem unmetered_take (p : PoolId) (call : Call) :
    w.unmetered.take p call = unmeteredWorld <$> w.take p call :=
  bind_mapped (w.unmetered_perform p call) fun _ => bind_same fun _ => rfl

theorem unmetered_takeMany (p : PoolId) (call : Call) (times : Nat) :
    takeMany p call times w.unmetered = unmeteredWorld <$> takeMany p call times w := by
  induction times generalizing w with
  | zero => rfl
  | succ times ih =>
    exact bind_mapped (w.unmetered_take p call) fun o => bind_mapped (ih o.2) fun _ => rfl

theorem unmetered_takeAll (p : PoolId) (call : Call) (times : Nat) :
    takeAll p call times w.unmetered = unmeteredWorld <$> takeAll p call times w := by
  induction times generalizing w with
  | zero => rfl
  | succ times ih =>
    refine bind_mapped (w.unmetered_take p call) ?_
    rintro ⟨u, w⟩
    cases u with
    | none => rfl
    | some u => exact bind_mapped (ih w) fun _ => rfl

theorem unmetered_takeAllOf (p : PoolId) (call : Call) :
    w.unmetered.takeAllOf p call = unmeteredWorld <$> w.takeAllOf p call := by
  have hlength : (w.unmetered.pool? p).map Deque.length = (w.pool? p).map Deque.length := by
    rw [pool?_unmetered, Option.map_map]
    rfl
  unfold takeAllOf
  rw [hlength]
  exact w.unmetered_takeAll p call _

theorem unmetered_pushOne (p : PoolId) (u : UnitId) :
    w.unmetered.pushOne p u = unmeteredWorld <$> w.pushOne p u := by
  refine bind_mapped (w.unmetered_perform p (.push u)) ?_
  rintro ⟨r, w⟩
  cases r <;> rfl

theorem unmetered_pushMany (p : PoolId) (type : UnitType) (first : UInt64) (times : Nat) :
    pushMany p type first times w.unmetered = unmeteredWorld <$> pushMany p type first times w := by
  induction times generalizing w first with
  | zero => rfl
  | succ times ih =>
    exact bind_mapped ((w.createUnit (.ofRaw type first)).2.unmetered_pushOne p _) fun o =>
      bind_mapped (ih o.2 (first + 1)) fun _ => rfl

theorem unmetered_boardAll (p : PoolId) (c : Convoy) (calls : List BoardingCall) :
    boardAll p c w.unmetered calls = unmeteredWorld <$> boardAll p c w calls := by
  induction calls generalizing c w with
  | nil => rfl
  | cons bc calls ih =>
    have hsame : w.unmetered.resolve bc = w.resolve bc := by cases bc <;> rfl
    simp only [boardAll, hsame]
    cases w.resolve bc with
    | none => exact ih w c.bar
    | some o =>
      obtain ⟨q, call⟩ := o
      refine ite_mapped (fun _ => ?_) fun _ => ite_mapped (fun _ => ih w c.bar) fun _ => ?_
      · exact bind_mapped (w.unmetered_visit p fun s => c.unmetered_board s call) fun o =>
          ih o.2 o.1
      · exact bind_mapped (w.unmetered_perform q call) fun o => ih o.2 (c.pass o.1)

theorem unmetered_convoy (p : PoolId) (calls : List BoardingCall) :
    w.unmetered.convoy p calls = unmeteredWorld <$> w.convoy p calls := by
  have hhold : ∀ s : Site, (do return ((), ← Convoy.hold s.unmetered) : Checked (Unit × Site)) =
      unmeteredSite <$> (do return ((), ← Convoy.hold s)) := fun s =>
    bind_mapped (Convoy.unmetered_hold s) fun _ => rfl
  have hresult : ∀ w : World, w.unmetered.resultOf = w.resultOf := fun w => by
    funext x
    cases x with
    | queued r => cases r <;> rfl
    | _ => rfl
  refine bind_mapped (k := unmeteredWorld) ?_ fun _ => rfl
  refine bind_mapped (unmetered_visit { w with limit := none } p hhold) fun o => ?_
  refine bind_mapped (o.2.unmetered_boardAll p .empty calls) fun o => ?_
  refine bind_mapped (o.2.unmetered_visit p o.1.unmetered_finish) fun o => ?_
  change (o.1.passages.toList.mapM o.2.unmetered.resultOf >>= _) = _
  rw [hresult]
  exact bind_same fun _ => rfl

end Requests

section Steps

def unmeteredAnswer (o : Answer × World) : Answer × World := (o.1.unmetered, o.2.unmetered)

theorem unmetered_onOwned (n : Nat) {f g : PoolId → Checked (Answer × World)}
    (hf : ∀ p, g p = unmeteredAnswer <$> f p) :
    (match w.owned? n with | some p => g p | none => w.unmetered.refuse) =
      unmeteredAnswer <$> (match w.owned? n with | some p => f p | none => w.refuse) := by
  cases w.owned? n with
  | none => rfl
  | some p => exact hf p

theorem unmetered_onStolen (n : Nat) {f g : PoolId → Checked (Answer × World)}
    (hf : ∀ p, g p = unmeteredAnswer <$> f p) :
    (match w.stolen? n with | some p => g p | none => w.unmetered.refuse) =
      unmeteredAnswer <$> (match w.stolen? n with | some p => f p | none => w.refuse) := by
  cases w.stolen? n with
  | none => rfl
  | some p => exact hf p

theorem unmetered_onHandle (n : Nat) {f g : PoolHandle → Checked (Answer × World)}
    (hf : ∀ k, g k = unmeteredAnswer <$> f k) :
    (match w.handle? n with | some k => g k | none => w.unmetered.refuse) =
      unmeteredAnswer <$> (match w.handle? n with | some k => f k | none => w.refuse) := by
  cases w.handle? n with
  | none => rfl
  | some k => exact hf k

theorem unmetered_openAnswer (n : Nat) (config : PoolConfig) (start : Nat) :
    (do match ← w.unmetered.openPool n config start with
        | (.ok p, w) => return (Answer.opened p, w)
        | (.error e, w) => return (.error e, w)) =
      unmeteredAnswer <$> (do match ← w.openPool n config start with
        | (.ok p, w) => return (.opened p, w)
        | (.error e, w) => return (.error e, w)) := by
  refine bind_mapped (w.unmetered_openPool n config start) ?_
  rintro ⟨r, w⟩
  cases r <;> rfl

theorem unmetered_pushAnswer (p : PoolId) (u : UnitId) :
    (do match ← w.unmetered.pushOne p u with
        | (none, w) => return (Answer.ok, w)
        | (some e, w) => return (.error e, w)) =
      unmeteredAnswer <$> (do match ← w.pushOne p u with
        | (none, w) => return (.ok, w)
        | (some e, w) => return (.error e, w)) := by
  refine bind_mapped (w.unmetered_pushOne p u) ?_
  rintro ⟨e?, w⟩
  cases e? <;> rfl

theorem unmetered_act (op : Op) : w.unmetered.act op = unmeteredAnswer <$> w.act op := by
  cases op with
  | createUnit kind => rfl
  | unitInfo u =>
    have hsame : w.unmetered.unit? u = w.unit? u := rfl
    simp only [act, hsame]
    cases w.unit? u <;> rfl
  | whereabouts => rfl
  | clearUnit u =>
    have hsame : w.unmetered.units = w.units := rfl
    simp only [act, hsame]
    cases w.units.find? u with
    | none => rfl
    | some e => exact bind_same fun _ => rfl
  | new n capacity name => exact w.unmetered_openAnswer n _ 0
  | newAt n capacity start => exact w.unmetered_openAnswer n _ start.toNat
  | limit slots => rfl
  | stealer n owner =>
    exact w.unmetered_onOwned owner fun p => bind_mapped (w.unmetered_bind n _) fun _ => rfl
  | clone n stealer =>
    exact w.unmetered_onStolen stealer fun p => bind_mapped (w.unmetered_bind n _) fun _ => rfl
  | drop n =>
    exact w.unmetered_onHandle n fun k => bind_mapped (w.unmetered_dropHandle n) fun _ => rfl
  | push n u =>
    have hsame : w.unmetered.owned? n = w.owned? n ∧ w.unmetered.unit? u = w.unit? u := ⟨rfl, rfl⟩
    simp only [act, hsame]
    cases w.owned? n with
    | none => rfl
    | some p =>
      cases w.unit? u with
      | none => rfl
      | some e => exact w.unmetered_pushAnswer p u
  | pushNew n kind =>
    exact w.unmetered_onOwned n fun p => (w.createUnit kind).2.unmetered_pushAnswer p _
  | pushMany n type first times =>
    exact w.unmetered_onOwned n fun p =>
      bind_mapped (w.unmetered_pushMany p type first times) fun _ => rfl
  | pop n => exact w.unmetered_onOwned n fun p => bind_mapped (w.unmetered_take p _) fun _ => rfl
  | steal n => exact w.unmetered_onStolen n fun p => bind_mapped (w.unmetered_take p _) fun _ => rfl
  | remove n u =>
    have hsame : w.unmetered.handle? n = w.handle? n ∧ w.unmetered.unit? u = w.unit? u :=
      ⟨rfl, rfl⟩
    simp only [act, hsame]
    cases w.handle? n with
    | none => rfl
    | some k =>
      cases w.unit? u with
      | none => rfl
      | some e => exact bind_mapped (w.unmetered_take k.pool _) fun _ => rfl
  | popMany n times =>
    exact w.unmetered_onOwned n fun p => bind_mapped (w.unmetered_takeMany p _ times) fun _ => rfl
  | stealMany n times =>
    exact w.unmetered_onStolen n fun p => bind_mapped (w.unmetered_takeMany p _ times) fun _ => rfl
  | popAll n =>
    exact w.unmetered_onOwned n fun p => bind_mapped (w.unmetered_takeAllOf p _) fun _ => rfl
  | stealAll n =>
    exact w.unmetered_onStolen n fun p => bind_mapped (w.unmetered_takeAllOf p _) fun _ => rfl
  | info n =>
    refine w.unmetered_onHandle n fun k => ?_
    rw [pool?_unmetered]
    cases w.pool? k.pool with
    | none => rfl
    | some d => cases k.side <;> rfl
  | compareIds m n =>
    have hsame : w.unmetered.handle? = w.handle? := rfl
    simp only [act, hsame]
    cases w.handle? m <;> cases w.handle? n <;> rfl
  | samePool m n =>
    have hsame : w.unmetered.stolen? m = w.stolen? m ∧ w.unmetered.owned? n = w.owned? n :=
      ⟨rfl, rfl⟩
    simp only [act, hsame]
    cases w.stolen? m <;> cases w.owned? n <;> rfl
  | metrics n =>
    refine w.unmetered_onHandle n fun k => ?_
    rw [pool?_unmetered]
    cases w.pool? k.pool <;> rfl
  | resetMetrics n =>
    refine w.unmetered_onHandle n fun k => bind_mapped (w.unmetered_visit k.pool fun s => ?_) ?_
    · rfl
    · exact fun _ => rfl
  | convoy n calls =>
    refine w.unmetered_onOwned n fun p => ite_mapped (fun _ => ?_) fun _ => rfl
    exact bind_mapped (w.unmetered_convoy p calls) fun _ => rfl
  | unknown n => rfl

theorem unmetered_sizeOf (n : Nat) : w.unmetered.sizeOf n = w.sizeOf n := by
  have hsame : w.unmetered.handle? n = w.handle? n := rfl
  simp only [sizeOf, hsame]
  cases w.handle? n with
  | none => rfl
  | some k =>
    change (w.unmetered.pool? k.pool >>= _) = (w.pool? k.pool >>= _)
    rw [pool?_unmetered]
    cases w.pool? k.pool <;> rfl

def unmeteredReport (o : StepReport × World) : StepReport × World := (o.1.unmetered, o.2.unmetered)

theorem unmetered_step (op : Op) : w.unmetered.step op = unmeteredReport <$> w.step op := by
  rw [step_eq, step_eq]
  have hanswer : w.unmetered.unlogged.answer op = unmeteredAnswer <$> w.unlogged.answer op :=
    ite_mapped (fun _ => rfl) fun _ => w.unlogged.unmetered_act op
  refine bind_mapped hanswer fun o => congrArg Except.ok ?_
  have hsize : (fun n => o.2.unmetered.sizeOf n) = fun n => o.2.sizeOf n :=
    funext o.2.unmetered_sizeOf
  change (StepReport.mk o.1.unmetered (op.subject? >>= fun n => o.2.unmetered.sizeOf n) _, _) = _
  rw [hsize]
  rfl

def unmeteredRun (o : List StepReport × World) : List StepReport × World :=
  (o.1.map StepReport.unmetered, o.2.unmetered)

theorem unmetered_run (ops : List Op) : w.unmetered.run ops = unmeteredRun <$> w.run ops := by
  induction ops generalizing w with
  | nil => rfl
  | cons op ops ih =>
    exact bind_mapped (w.unmetered_step op) fun o => bind_mapped (ih o.2) fun _ => rfl

/-- Only a step that reads metrics shows them. -/
theorem shown_act {op : Op} (hop : op.metering = false) :
    Ensures (w.act op) fun o => o.1.unmetered = o.1 := by
  cases op with
  | metrics n => cases hop
  | resetMetrics n => cases hop
  | _ =>
    simp only [act]
    repeat' split
    all_goals first
      | exact .ok rfl
      | exact .error _ _
      | exact .bind (.trivial _) fun _ _ => .ok rfl
      | exact .bind (.trivial _) fun o _ => by rcases o with ⟨_ | _, _⟩ <;> exact .ok rfl

end Steps

section Readings

variable {w : World} {w' : World}

theorem shown_step {op : Op} (hop : op.metering = false) :
    Ensures (w.step op) fun o => o.1.unmetered = o.1 := by
  have hanswer : Ensures (w.unlogged.answer op) fun o => o.1.unmetered = o.1 := by
    unfold answer
    split
    · exact .ok rfl
    · exact w.unlogged.shown_act hop
  rw [step_eq]
  refine hanswer.bind fun o ho => .ok ?_
  change StepReport.mk o.1.unmetered _ _ = _
  rw [ho]

theorem step_metrics (n : Nat) : Ensures (w.step (.metrics n)) fun o => o.2 = w.unlogged := by
  rw [step_eq]
  refine Ensures.bind (P := fun o => o.2 = w.unlogged) ?_ fun o ho => .ok ho
  simp only [answer, act, Op.needsHooks, Bool.false_and, Bool.false_eq_true, if_false]
  split
  · split
    · exact .ok rfl
    · exact .error _ _
  · exact .ok rfl

theorem unmetered_setPool {i : Nat} {d e : Deque} (hd : (w.pools[i]?).getD none = some d)
    (he : e.unmetered = d.unmetered) :
    (w.pools.setIfInBounds i (some e)).map (Option.map Deque.unmetered) =
      w.pools.map (Option.map Deque.unmetered) := by
  refine Array.ext_getElem? fun j => ?_
  rw [Array.getElem?_map, Array.getElem?_map, Array.getElem?_setIfInBounds]
  by_cases hij : i = j
  · subst hij
    cases hc : w.pools[i]? with
    | none =>
      rw [hc] at hd
      cases hd
    | some c =>
      rw [hc] at hd
      have hlt : i < w.pools.size := (Array.getElem?_eq_some_iff.1 hc).1
      simp only [if_pos hlt, if_true, Option.map_some]
      rw [show c = some d from hd, Option.map_some, he]
  · rw [if_neg hij]

theorem visit_resetMetrics (p : PoolId) :
    Ensures (w.visit p fun s => return ((), s.resetMetrics)) fun o =>
      o.2.unmetered = w.unmetered := by
  unfold visit takeOut
  cases hd : (w.pools[p.index]?).getD none with
  | none => exact .error _ _
  | some d =>
    have hpools := unmetered_setPool (w := w) (e := (w.site d).resetMetrics.deque) hd rfl
    refine .ok (congrArg (fun pools => { w with telemetry := false, pools }) ?_)
    rw [Array.setIfInBounds_setIfInBounds]
    exact hpools

theorem step_metering {op : Op} (hop : op.metering = true) :
    Ensures (w.step op) fun o => o.2.unmetered = w.unlogged.unmetered := by
  cases op with
  | metrics n => exact (step_metrics n).mono fun o ho => congrArg unmetered ho
  | resetMetrics n =>
    rw [step_eq]
    refine Ensures.bind (P := fun o => o.2.unmetered = w.unlogged.unmetered) ?_ fun o ho => .ok ho
    simp only [answer, act, Op.needsHooks, Bool.false_and, Bool.false_eq_true, if_false]
    split
    · exact (visit_resetMetrics _).bind fun o ho => .ok ho
    · exact .ok rfl
  | _ => cases hop

/-- Worlds that are the same but for what was counted step alike. -/
theorem step_alike (h : w.unlogged.unmetered = w'.unlogged.unmetered) {op : Op} {r : StepReport}
    {x : World} (hstep : w.step op = .ok (r, x)) :
    ∃ r' x', w'.step op = .ok (r', x') ∧ r'.unmetered = r.unmetered ∧
      x'.unmetered = x.unmetered := by
  have hx : w'.unlogged.unmetered.step op = .ok (r.unmetered, x.unmetered) := by
    rw [← h, unmetered_step, step_unlogged, hstep]
    rfl
  rw [unmetered_step, step_unlogged] at hx
  cases hx' : w'.step op with
  | error e =>
    rw [hx'] at hx
    cases hx
  | ok o =>
    rw [hx'] at hx
    have ho : unmeteredReport o = (r.unmetered, x.unmetered) := Except.ok.inj hx
    exact ⟨o.1, o.2, rfl, congrArg Prod.fst ho, congrArg Prod.snd ho⟩

theorem run_of_unlogged {ops : List Op} {reports : List StepReport} {x : World}
    (hrun : w.unlogged.run ops = .ok (reports, x)) :
    ∃ x', w.run ops = .ok (reports, x') ∧ x'.unlogged = x.unlogged := by
  cases ops with
  | nil =>
    cases hrun
    exact ⟨w, rfl, rfl⟩
  | cons op ops => exact ⟨x, run_unlogged w op ops ▸ hrun, rfl⟩

/-- What the steps reported that neither read nor reset metrics. -/
def others : List Op → List StepReport → List StepReport
  | op :: ops, report :: reports =>
    if op.metering then others ops reports else report :: others ops reports
  | _, _ => []

theorem run_others {ops : List Op} {reports : List StepReport} {v : World}
    (h : w.unlogged.unmetered = w'.unlogged.unmetered) (hrun : w.run ops = .ok (reports, v)) :
    ∃ v', w'.run (ops.filter (!·.metering)) = .ok (others ops reports, v') ∧
      v.unlogged.unmetered = v'.unlogged.unmetered := by
  induction ops generalizing w w' reports with
  | nil =>
    cases hrun
    exact ⟨w', rfl, h⟩
  | cons op ops ih =>
    obtain ⟨r, x, rs, hstep, hrest, rfl⟩ := exists_run_cons hrun
    cases hop : op.metering with
    | true =>
      have hx : x.unmetered = w.unlogged.unmetered := step_metering hop _ hstep
      have hx' : x.unlogged.unmetered = w'.unlogged.unmetered := by
        rw [← h]
        exact congrArg unlogged hx
      obtain ⟨v', hrun', hv⟩ := ih hx' hrest
      rw [List.filter_cons_of_neg (by simp [hop]), others, if_pos hop]
      exact ⟨v', hrun', hv⟩
    | false =>
      obtain ⟨r', x', hstep', hr, hx⟩ := step_alike h hstep
      have hsame : r' = r :=
        (shown_step hop _ hstep').symm.trans (hr.trans (shown_step hop _ hstep))
      have hx' : x.unlogged.unmetered = x'.unlogged.unmetered := congrArg unlogged hx.symm
      obtain ⟨v', hrun', hv⟩ := ih hx' hrest
      rw [List.filter_cons_of_pos (by simp [hop]), others, if_neg (by simp [hop])]
      exact ⟨v', run_of_step (hsame ▸ hstep') hrun', hv⟩

end Readings

/-- Telemetry does not interfere. Without it a session reports what it does with it, but for metrics
that are shown, which are blank, and leaves the same world, but for what was counted: units,
counters, rings, handles and log agree, after every step since the first steps of a session are a
session. Steps that read or reset metrics can be put in and left out anywhere, with and without
telemetry: all others report the same, and only what was counted differs afterwards. A step that
only reads metrics can be put in and left out without any change. -/
theorem run_unmetered (hooks : Bool) (ops : List Op) :
    ∃ reports w, (start true hooks).run ops = .ok (reports, w) ∧
      (start false hooks).run ops = .ok (reports.map StepReport.unmetered, w.unmetered) ∧
      (∀ telemetry ops', ops'.filter (!·.metering) = ops.filter (!·.metering) →
        ∃ reports' w', (start telemetry hooks).run ops' = .ok (reports', w') ∧
          others ops' reports' = others ops reports ∧
          w'.unlogged.unmetered = w.unlogged.unmetered) ∧
      ∀ earlier n later, ops = earlier ++ .metrics n :: later →
        ∃ before shown after w', reports = before ++ shown :: after ∧
          (start true hooks).run (earlier ++ later) = .ok (before ++ after, w') ∧
          w'.unlogged = w.unlogged := by
  obtain ⟨reports, w, hrun, -⟩ := (sound_start true hooks).run ops
  refine ⟨reports, w, hrun, ?_, fun telemetry ops' hops => ?_, fun earlier n later hops => ?_⟩
  · have hstart : start false hooks = (start true hooks).unmetered := by
      simp [start, unmetered]
    rw [hstart, unmetered_run, hrun]
    rfl
  · obtain ⟨reports', w', hrun', -⟩ := (sound_start telemetry hooks).run ops'
    have hstart : (start telemetry hooks).unlogged.unmetered =
        (start true hooks).unlogged.unmetered := rfl
    obtain ⟨v, hv, hw⟩ := run_others rfl hrun
    obtain ⟨v', hv', hw'⟩ := run_others hstart hrun'
    rw [hops, hv] at hv'
    obtain ⟨hothers, rfl⟩ := Prod.mk.inj (Except.ok.inj hv')
    exact ⟨reports', w', hrun', hothers.symm, hw'.trans hw.symm⟩
  · rw [hops] at hrun
    obtain ⟨before, v, rest, hbefore, hrest, rfl⟩ := exists_run_append hrun
    obtain ⟨shown, x, after, hshown, hafter, rfl⟩ := exists_run_cons hrest
    cases (step_metrics n _ hshown : x = v.unlogged)
    obtain ⟨w', hafter', hw⟩ := run_of_unlogged hafter
    exact ⟨before, shown, after, w', rfl, run_append hbefore hafter', hw⟩

/-- A pool of two slots whose counters start at the last machine word, under a limit of two: the
counters are brought back, a push fails, and in a convoy a steal and a pop meet at the last unit. -/
def meteredSteps : List Op :=
  [.newAt 0 (some 2) 18446744073709551615, .stealer 1 0, .createUnit (.task ⟨7⟩), .limit (some 2),
   .push 0 ⟨0⟩, .metrics 0, .pushNew 0 (.task ⟨8⟩), .resetMetrics 1, .convoy 0 [.steal 1, .pop 0],
   .metrics 1]

def unmeteredSteps : List Op :=
  [.newAt 0 (some 2) 18446744073709551615, .stealer 1 0, .resetMetrics 0, .createUnit (.task ⟨7⟩),
   .limit (some 2), .push 0 ⟨0⟩, .pushNew 0 (.task ⟨8⟩), .convoy 0 [.steal 1, .pop 0]]

theorem run_unmetered_contested : ∃ reports w reports' w' before shown after v,
    (start true true).run meteredSteps = .ok (reports, w) ∧
      (start false true).run meteredSteps = .ok (reports.map StepReport.unmetered, w.unmetered) ∧
      unmeteredSteps.filter (!·.metering) = meteredSteps.filter (!·.metering) ∧
      (start false true).run unmeteredSteps = .ok (reports', w') ∧
      others unmeteredSteps reports' = others meteredSteps reports ∧
      reports = before ++ shown :: after ∧
      (start true true).run (meteredSteps.eraseIdx 5) = .ok (before ++ after, v) ∧
      (reports[5]?.map (·.answer)).any (fun a =>
        match a with
        | .metrics m => m.pushes = 1 ∧ m.rebases = 1
        | _ => false) := by
  have hshown : ((start true true).run meteredSteps).toOption.any (fun o =>
      (o.1[5]?.map (·.answer)).any (fun a =>
        match a with
        | .metrics m => m.pushes = 1 ∧ m.rebases = 1
        | _ => false)) := by
    decide +kernel
  have hops : unmeteredSteps.filter (!·.metering) = meteredSteps.filter (!·.metering) := rfl
  obtain ⟨reports, w, hrun, hoff, hothers, hless⟩ := run_unmetered true meteredSteps
  obtain ⟨reports', w', hrun', hsame, -⟩ := hothers false unmeteredSteps hops
  have hsplit : meteredSteps = meteredSteps.take 5 ++ .metrics 0 :: meteredSteps.drop 6 := rfl
  obtain ⟨before, shown, after, v, hreports, hv, -⟩ := hless _ _ _ hsplit
  rw [hrun] at hshown
  exact ⟨reports, w, reports', w', before, shown, after, v, hrun, hoff, hops, hrun', hsame,
    hreports, hv, hshown⟩

end World

end WorkStealing
