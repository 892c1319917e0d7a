import WorkStealing.Proofs.Session.Alike

set_option autoImplicit false

/-!
# Where the counters start

Two scripts that differ only in where the counters of new pools start run alike: each step answers
the same, shows the same length and capacity, and logs the same but for rebases.
-/
namespace WorkStealing

namespace Op

def isConvoy : Op → Bool
  | .convoy .. => true
  | _ => false

/-- The same step, up to the start of the counters of a new pool. -/
inductive Twin : Op → Op → Prop where
  | same (op : Op) : Twin op op
  | newAt (handle : Nat) (capacity : Option Nat) (start start' : UInt64) :
    Twin (.newAt handle capacity start) (.newAt handle capacity start')

end Op

def MetricsSnapshot.quiet (m : MetricsSnapshot) : MetricsSnapshot := { m with rebases := 0 }

def Answer.quiet : Answer → Answer
  | .metrics m => .metrics m.quiet
  | a => a

def StepReport.quiet (r : StepReport) : StepReport where
  answer := r.answer.quiet
  size := r.size
  events := r.events.filter (!·.isRebase)

namespace World

def SameAnswer (o o' : Answer × World) : Prop := o.1.quiet = o'.1.quiet

section Steps

variable {w w' : World} {p : PoolId} {d : Deque}

theorem start_le (start : UInt64) : start.toNat ≤ Word.max := by
  have hlt := start.toNat_lt
  unfold Word.max
  omega

theorem Match.answer {α : Type} {R : α × World → α × World → Prop} {x y : Checked (α × World)}
    (h : Match R x y) (hR : ∀ o o', R o o' → o.1 = o'.1) (answer : α → Answer) :
    Match SameAnswer (do let (a, w) ← x; return (answer a, w))
      (do let (a, w) ← y; return (answer a, w)) := by
  apply h.bind
  intro o o' ho hw
  exact Match.ok (congrArg (fun a => (answer a).quiet) (hR o o' ho)) hw

theorem registered_of_unit? {u : UnitId} {e : UnitEntry} (h : w.unit? u = some e) :
    w.units.Registered u := by
  obtain ⟨he, hr⟩ := Option.filter_eq_some_iff.1 h
  exact ⟨e.unit.kind, by rw [UnitTable.identity?, he, Option.map_some, hr]⟩

theorem Alike.push (h : w.Alike w' none) (hl : w.Live p d) {u : UnitId}
    (hu : w.units.Registered u) :
    Match SameAnswer
      (do match ← w.pushOne p u with
          | (none, w) => return (.ok, w)
          | (some e, w) => return (.error e, w))
      (do match ← w'.pushOne p u with
          | (none, w) => return (.ok, w)
          | (some e, w) => return (.error e, w)) := by
  apply (h.pushOne hl hu).bind
  intro o o' ho hw
  obtain ⟨e, v⟩ := o
  obtain ⟨e', v'⟩ := o'
  obtain ⟨hres, _⟩ := ho
  change e = e' at hres
  subst hres
  cases e with
  | none => exact Match.ok rfl hw
  | some e => exact Match.ok rfl hw

theorem Alike.takeOne (h : w.Alike w' none) (hl : w.Live p d) {call : Call}
    (hc : call.Admissible w.units) :
    Match SameAnswer (do let (u, w) ← w.take p call; return (.unit u, w))
      (do let (u, w) ← w'.take p call; return (.unit u, w)) :=
  (h.take hl hc).answer (fun _ _ ho => ho.1) .unit

theorem Alike.takeAllOf (h : w.Alike w' none) (hl : w.Live p d) {call : Call}
    (hc : call.Admissible w.units) :
    Match SameAnswer (do let (us, w) ← w.takeAllOf p call; return (.units us, w))
      (do let (us, w) ← w'.takeAllOf p call; return (.units us, w)) := by
  obtain ⟨d', hl', hview⟩ := h.exists_live hl
  have hlength : d'.length = d.length := by
    rw [← d'.length_window, ← d.length_window]
    exact congrArg (fun v : Deque.View => v.slots.length) hview.symm
  rw [World.takeAllOf, World.takeAllOf, hl.pool?_eq, hl'.pool?_eq, Option.map_some,
    Option.map_some, hlength]
  refine (h.takeAll hl hc _ ?_).answer (fun _ _ ho => ho) .units
  rw [backlogs_of_live hl, Option.getD_some]
  have hle := List.length_filterMap_le (fun c : Option UnitId => c) d.window
  rw [d.length_window] at hle
  exact Nat.lt_succ_of_le hle

theorem Alike.openAnswer (h : w.Alike w' none) (n : Nat) (config : PoolConfig)
    {start start' : Nat} (hs : start ≤ Word.max) (hs' : start' ≤ Word.max) :
    Match SameAnswer
      (do match ← w.openPool n config start with
          | (.ok p, w) => return (.opened p, w)
          | (.error e, w) => return (.error e, w))
      (do match ← w'.openPool n config start' with
          | (.ok p, w) => return (.opened p, w)
          | (.error e, w) => return (.error e, w)) := by
  apply (h.openPool n config hs hs').bind
  intro o o' ho hw
  obtain ⟨r, v⟩ := o
  obtain ⟨r', v'⟩ := o'
  change r = r' at ho
  subst ho
  cases r with
  | ok p => exact Match.ok rfl hw
  | error e => exact Match.ok rfl hw

theorem info_eq {d' : Deque} (h : d.view = d'.view) (side : Side) : info d side = info d' side := by
  have hid : d.id = d'.id := congrArg Deque.View.id h
  have hname : d.name = d'.name := congrArg Deque.View.name h
  have hcap : d.capacity = d'.capacity := congrArg Deque.View.capacity h
  have hlen : d.length = d'.length := by
    rw [← d.length_window, ← d'.length_window]
    exact congrArg (fun v : Deque.View => v.slots.length) h
  cases side with
  | owner => simp only [info, Deque.ownerOutline, hid, hname, hcap, hlen]
  | foreign => simp only [info, Deque.stealerOutline, hid, hcap, hlen]

theorem Alike.clearUnit (h : w.Alike w' none) {u : UnitId} {e : UnitEntry}
    (he : w.units.find? u = some e) :
    Match SameAnswer
      (do return (.flag true, { w with units := ← w.units.clear u }))
      (do return (.flag true, { w' with units := ← w'.units.clear u })) := by
  obtain ⟨t, ht, hc, hholder⟩ := h.left.counted.clear he
  rw [← h.units_eq, ht]
  refine Match.ok rfl ⟨h.left.congr rfl rfl hc hholder, h.right.congr rfl rfl hc ?_, ?_⟩
  · intro v
    rw [← h.units_eq]
    exact hholder v
  · change { w.view with units := t } = { w'.view with units := t }
    rw [h.view]

theorem scene_resetMetrics (s : Site) : s.resetMetrics.scene =
    { s.scene with pool := { s.scene.pool with metrics := Metrics.new.quiet } } := rfl

theorem Alike.resetMetrics (h : w.Alike w' none) (hl : w.Live p d) :
    Match SameAnswer
      (do let (_, w) ← w.visit p fun s => return ((), s.resetMetrics)
          return (.ok, w))
      (do let (_, w) ← w'.visit p fun s => return ((), s.resetMetrics)
          return (.ok, w)) := by
  have hreset : ∀ {w : World} {d : Deque}, w.Sound none none → w.Live p d →
      (w.put (w.site d).resetMetrics).Sound none none := by
    intro w d hw hl
    obtain ⟨hs, hu⟩ := hw.site p d hl (by simp)
    have hs' : (w.site d).resetMetrics.Sound [] := hs.congr rfl rfl rfl rfl rfl rfl
    exact hw.put hl (Site.Frame.of_deque _ rfl rfl) hs'.counted (fun _ => ⟨hs', hu⟩)
      fun q _ hq => hq
  obtain ⟨d', hl', hview⟩ := h.exists_live hl
  have hscene : (w.site d).resetMetrics.scene = (w'.site d').resetMetrics.scene := by
    rw [scene_resetMetrics, scene_resetMetrics, h.scene_eq hview]
  rw [visit_eq (f := fun s => return ((), s.resetMetrics)) hl rfl hl.2,
    visit_eq (f := fun s => return ((), s.resetMetrics)) hl' rfl hl'.2]
  exact Match.ok rfl (h.put hscene (hreset h.left hl) (hreset h.right hl'))

section Lookups

variable {f f' : PoolId → Checked (Answer × World)}

theorem Alike.onOwned (h : w.Alike w' none) (n : Nat)
    (hf : ∀ p d, w.Live p d → Match SameAnswer (f p) (f' p)) :
    Match SameAnswer (match w.owned? n with | some p => f p | none => w.refuse)
      (match w'.owned? n with | some p => f' p | none => w'.refuse) := by
  rw [← h.owned?_eq]
  cases ho : w.owned? n with
  | some p =>
    obtain ⟨d, hl⟩ := h.left.live_of_handle? (handle?_of_owned? ho)
    exact hf p d hl
  | none => exact Match.ok rfl h

theorem Alike.onStolen (h : w.Alike w' none) (n : Nat)
    (hf : ∀ p d, w.Live p d → Match SameAnswer (f p) (f' p)) :
    Match SameAnswer (match w.stolen? n with | some p => f p | none => w.refuse)
      (match w'.stolen? n with | some p => f' p | none => w'.refuse) := by
  rw [← h.stolen?_eq]
  cases hs : w.stolen? n with
  | some p =>
    obtain ⟨d, hl⟩ := h.left.live_of_handle? (handle?_of_stolen? hs)
    exact hf p d hl
  | none => exact Match.ok rfl h

theorem Alike.onHandle {f f' : PoolHandle → Checked (Answer × World)} (h : w.Alike w' none)
    (n : Nat) (hf : ∀ k d, w.handle? n = some k → w.Live k.pool d →
      Match SameAnswer (f k) (f' k)) :
    Match SameAnswer (match w.handle? n with | some k => f k | none => w.refuse)
      (match w'.handle? n with | some k => f' k | none => w'.refuse) := by
  rw [← h.handle?_eq]
  cases hk : w.handle? n with
  | some k =>
    obtain ⟨d, hl⟩ := h.left.live_of_handle? hk
    exact hf k d hk hl
  | none => exact Match.ok rfl h

theorem Alike.bindAnswer (h : w.Alike w' none) {k : PoolHandle} (hl : w.Live k.pool d) (n : Nat) :
    Match SameAnswer (do return (.ok, ← w.bind n k)) (do return (.ok, ← w'.bind n k)) := by
  obtain ⟨v, v', hrun, hrun', hw⟩ := h.bind hl (by simp) n
  rw [hrun, hrun']
  exact Match.ok rfl hw

end Lookups

theorem Alike.act (h : w.Alike w' none) {op op' : Op} (ht : op.Twin op')
    (hc : op.isConvoy = false) : Match SameAnswer (w.act op) (w'.act op') := by
  cases ht with
  | newAt n capacity start start' =>
    exact h.openAnswer n _ (start_le start) (start_le start')
  | same =>
    cases op with
    | createUnit kind =>
      obtain ⟨hid, hw⟩ := h.createUnit kind
      exact Match.ok (congrArg (fun u : UnitId => (Answer.number u.number).quiet) hid) hw
    | unitInfo u =>
      rw [World.act, World.act, ← h.unit?_eq]
      cases w.unit? u with
      | some e => exact Match.ok rfl h
      | none => exact Match.ok rfl h
    | whereabouts =>
      rw [World.act, World.act, ← h.units_eq]
      exact Match.ok rfl h
    | clearUnit u =>
      rw [World.act, World.act, ← h.units_eq]
      cases he : w.units.find? u with
      | some e =>
        have hclear := h.clearUnit he
        rw [← h.units_eq] at hclear
        exact hclear
      | none => exact Match.ok rfl h
    | new n capacity name => exact h.openAnswer n _ (Nat.zero_le _) (Nat.zero_le _)
    | newAt n capacity start => exact h.openAnswer n _ (start_le start) (start_le start)
    | limit slots =>
      refine Match.ok rfl ⟨h.left.congr rfl rfl h.left.counted fun _ => rfl,
        h.right.congr rfl rfl h.right.counted fun _ => rfl, ?_⟩
      change { w.view with limit := slots } = { w'.view with limit := slots }
      rw [h.view]
    | stealer n owner => exact h.onOwned owner fun p d hl => h.bindAnswer (k := ⟨.foreign, p⟩) hl n
    | clone n stealer =>
      exact h.onStolen stealer fun p d hl => h.bindAnswer (k := ⟨.foreign, p⟩) hl n
    | drop n =>
      refine h.onHandle n fun k d hk _ => ?_
      obtain ⟨v, v', hrun, hrun', hw⟩ := h.dropHandle hk
      rw [hrun, hrun']
      exact Match.ok rfl hw
    | push n u =>
      rw [World.act, World.act, ← h.owned?_eq, ← h.unit?_eq]
      cases ho : w.owned? n with
      | none => exact Match.ok rfl h
      | some p =>
        cases hu : w.unit? u with
        | none => exact Match.ok rfl h
        | some e =>
          obtain ⟨d, hl⟩ := h.left.live_of_handle? (handle?_of_owned? ho)
          exact h.push hl (registered_of_unit? hu)
    | pushNew n kind =>
      apply h.onOwned n
      intro p d hl
      obtain ⟨hid, hw⟩ := h.createUnit kind
      have hpush := hw.push (p := p) (d := d) hl (UnitTable.registered_create w.units kind)
      change Match SameAnswer ((w.createUnit kind).2.pushOne p (w.createUnit kind).1 >>= _)
        ((w'.createUnit kind).2.pushOne p (w'.createUnit kind).1 >>= _)
      rw [← hid]
      exact hpush
    | pushMany n type first times =>
      exact h.onOwned n fun p d hl => (h.pushMany hl type first times).answer (fun _ _ ho => ho)
        .failures
    | pop n => exact h.onOwned n fun p d hl => h.takeOne hl (by simp [Call.Admissible, Call.unit?])
    | steal n =>
      exact h.onStolen n fun p d hl => h.takeOne hl (by simp [Call.Admissible, Call.unit?])
    | remove n u =>
      rw [World.act, World.act, ← h.handle?_eq, ← h.unit?_eq]
      cases hk : w.handle? n with
      | none => exact Match.ok rfl h
      | some k =>
        cases hu : w.unit? u with
        | none => exact Match.ok rfl h
        | some e =>
          obtain ⟨d, hl⟩ := h.left.live_of_handle? hk
          apply h.takeOne hl
          intro v hv
          cases hv
          exact registered_of_unit? hu
    | popMany n times =>
      exact h.onOwned n fun p d hl => (h.takeMany hl (by simp [Call.Admissible, Call.unit?])
        times).answer (fun _ _ ho => ho) .units
    | stealMany n times =>
      exact h.onStolen n fun p d hl => (h.takeMany hl (by simp [Call.Admissible, Call.unit?])
        times).answer (fun _ _ ho => ho) .units
    | popAll n =>
      exact h.onOwned n fun p d hl => h.takeAllOf hl (by simp [Call.Admissible, Call.unit?])
    | stealAll n =>
      exact h.onStolen n fun p d hl => h.takeAllOf hl (by simp [Call.Admissible, Call.unit?])
    | info n =>
      refine h.onHandle n fun k d _ hl => ?_
      obtain ⟨d', hl', hview⟩ := h.exists_live hl
      rw [hl.pool?_eq, hl'.pool?_eq]
      exact Match.ok (congrArg (fun i => (Answer.info i).quiet) (info_eq hview k.side)) h
    | compareIds m n =>
      rw [World.act, World.act, ← h.handle?_eq, ← h.handle?_eq]
      cases w.handle? m with
      | none => exact Match.ok rfl h
      | some j =>
        cases w.handle? n with
        | none => exact Match.ok rfl h
        | some k => exact Match.ok rfl h
    | samePool m n =>
      rw [World.act, World.act, ← h.stolen?_eq, ← h.owned?_eq]
      cases w.stolen? m with
      | none => exact Match.ok rfl h
      | some p =>
        cases w.owned? n with
        | none => exact Match.ok rfl h
        | some q => exact Match.ok rfl h
    | metrics n =>
      refine h.onHandle n fun k d _ hl => ?_
      obtain ⟨d', hl', hview⟩ := h.exists_live hl
      have hmetrics : d.metrics.quiet = d'.metrics.quiet := congrArg Deque.View.metrics hview
      rw [hl.pool?_eq, hl'.pool?_eq]
      exact Match.ok (congrArg (fun m : Metrics LockWaits => Answer.metrics m.snapshot) hmetrics) h
    | resetMetrics n => exact h.onHandle n fun k d _ hl => h.resetMetrics hl
    | convoy n calls => cases hc
    | unknown n => exact Match.ok rfl h

def unlogged (w : World) : World := { w with log := #[] }

def answer (w : World) (op : Op) : Checked (Answer × World) :=
  if op.needsHooks && !w.hooks then w.refuse else w.act op

theorem step_eq (w : World) (op : Op) :
    w.step op = do
      let o ← w.unlogged.answer op
      return (⟨o.1, op.subject? >>= o.2.sizeOf, o.2.log⟩, o.2) := by
  have hhooks : w.unlogged.hooks = w.hooks := rfl
  rw [World.step, answer, hhooks]
  cases op.needsHooks && !w.hooks <;> rfl

theorem Alike.unlogged (h : w.Alike w' none) : w.unlogged.Alike w'.unlogged none := by
  refine ⟨h.left.congr rfl rfl h.left.counted fun _ => rfl,
    h.right.congr rfl rfl h.right.counted fun _ => rfl, ?_⟩
  change { w.view with log := #[] } = { w'.view with log := #[] }
  rw [h.view]

theorem Alike.answer (h : w.Alike w' none) {op op' : Op} (ht : op.Twin op')
    (hc : op.isConvoy = false) : Match SameAnswer (w.answer op) (w'.answer op') := by
  have hneeds : op.needsHooks = op'.needsHooks := by cases ht <;> rfl
  rw [World.answer, World.answer, ← hneeds, ← h.hooks_eq]
  split
  · exact Match.ok rfl h
  · exact h.act ht hc

theorem Alike.sizeOf_eq (h : w.Alike w' none) (n : Nat) : w.sizeOf n = w'.sizeOf n := by
  rw [World.sizeOf, World.sizeOf, ← h.handle?_eq]
  cases hk : w.handle? n with
  | none => rfl
  | some k =>
    obtain ⟨d, hl⟩ := h.left.live_of_handle? hk
    obtain ⟨d', hl', hview⟩ := h.exists_live hl
    have hcap : d.capacity = d'.capacity := congrArg Deque.View.capacity hview
    have hlen : d.length = d'.length := by
      rw [← d.length_window, ← d'.length_window]
      exact congrArg (fun v : Deque.View => v.slots.length) hview
    simp only [Option.bind_eq_bind, Option.bind_some, hl.pool?_eq, hl'.pool?_eq, hcap, hlen]

def SameReport (o o' : StepReport × World) : Prop := o.1.quiet = o'.1.quiet

theorem Alike.step (h : w.Alike w' none) {op op' : Op} (ht : op.Twin op')
    (hc : op.isConvoy = false) : Match SameReport (w.step op) (w'.step op') := by
  have hsubject : op.subject? = op'.subject? := by cases ht <;> rfl
  rw [step_eq, step_eq]
  refine (h.unlogged.answer ht hc).bind fun o o' ho hw => Match.ok ?_ hw
  have hsize : (fun n => o.2.sizeOf n) = fun n => o'.2.sizeOf n := funext hw.sizeOf_eq
  have hlog : o.2.log.filter (!·.isRebase) = o'.2.log.filter (!·.isRebase) :=
    congrArg (fun v : View => v.log) hw.view
  change StepReport.mk o.1.quiet (op.subject? >>= fun n => o.2.sizeOf n) _ =
    StepReport.mk o'.1.quiet (op'.subject? >>= fun n => o'.2.sizeOf n) _
  rw [show o.1.quiet = o'.1.quiet from ho, hsubject, hsize, hlog]

end Steps

def SameReports (o o' : List StepReport × World) : Prop :=
  o.1.map StepReport.quiet = o'.1.map StepReport.quiet

theorem Alike.run {w w' : World} (h : w.Alike w' none) {ops ops' : List Op}
    (ht : List.Forall₂ Op.Twin ops ops') (hc : ∀ op ∈ ops, op.isConvoy = false) :
    Match SameReports (w.run ops) (w'.run ops') := by
  induction ht generalizing w w' with
  | nil => exact Match.ok rfl h
  | cons htwin _ ih =>
    apply (h.step htwin (hc _ List.mem_cons_self)).bind
    intro o o' ho hw
    apply (ih hw fun op hop => hc op (List.mem_cons_of_mem _ hop)).bind
    intro q q' hq hw'
    refine Match.ok ?_ hw'
    rw [SameReports, List.map_cons, List.map_cons, ho, hq]

theorem sound_start (telemetry hooks : Bool) : (start telemetry hooks).Sound none none where
  counted u e he := by cases he
  ids i d hd := by cases hd
  site p d hd := by cases hd.1
  holder u p hu := by cases hu
  handle x hx := by cases hx
  held p d hd := by cases hd.1
  keys := List.nodup_nil

/-- Two scripts without convoys that differ in where the counters of their pools start end with the
same reports and show the same afterwards; only rebases tell them apart. -/
theorem run_twins (telemetry hooks : Bool) {ops ops' : List Op}
    (ht : List.Forall₂ Op.Twin ops ops') (hc : ∀ op ∈ ops, op.isConvoy = false) :
    ∃ reports w reports' w', (start telemetry hooks).run ops = .ok (reports, w) ∧
      (start telemetry hooks).run ops' = .ok (reports', w') ∧
      reports.map StepReport.quiet = reports'.map StepReport.quiet ∧ w.view = w'.view := by
  obtain ⟨⟨reports, w⟩, ⟨reports', w'⟩, hrun, hrun', hreports, hw⟩ :=
    (sound_start telemetry hooks).alike.run ht hc
  exact ⟨reports, w, reports', w', hrun, hrun', hreports, hw.view⟩

/-- Three tasks are pushed, a hole is made and a task is popped. -/
def pushAcross (start : UInt64) : List Op :=
  [.newAt 0 (some 2) start, .pushNew 0 (.task ⟨7⟩), .pushNew 0 (.task ⟨8⟩),
   .pushNew 0 (.task ⟨9⟩), .remove 0 ⟨1⟩, .pop 0, .metrics 0]

theorem run_twins_across_max :
    List.Forall₂ Op.Twin (pushAcross 18446744073709551615) (pushAcross 0) ∧
      (∀ op ∈ pushAcross 18446744073709551615, op.isConvoy = false) ∧
      ∃ reports w reports' w',
        (start true true).run (pushAcross 18446744073709551615) = .ok (reports, w) ∧
        (start true true).run (pushAcross 0) = .ok (reports', w') ∧
        reports.map StepReport.quiet = reports'.map StepReport.quiet ∧ w.view = w'.view := by
  have ht : List.Forall₂ Op.Twin (pushAcross 18446744073709551615) (pushAcross 0) :=
    .cons (.newAt ..) (.cons (.same _) (.cons (.same _) (.cons (.same _) (.cons (.same _)
      (.cons (.same _) (.cons (.same _) .nil))))))
  have hc : ∀ op ∈ pushAcross 18446744073709551615, op.isConvoy = false := by
    simp [pushAcross, Op.isConvoy]
  exact ⟨ht, hc, run_twins true true ht hc⟩

end World

end WorkStealing
