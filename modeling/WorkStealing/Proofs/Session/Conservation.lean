import WorkStealing.Proofs.Session.Gathering

set_option autoImplicit false

/-!
# Metrics conservation

With telemetry on, the metrics of a pool are what the answers of a session tell of it since they
started from zero. Each step tells what it did, and so does each run.
-/
namespace WorkStealing

namespace World

section Steps

variable {w v : World} {op : Op} {n : Nat} {k : PoolHandle} {d : Deque}

/-- What the answer of a step tells is what the step has done, and pools of which it tells that they
start from zero have counted nothing. -/
def Heeds (w : World) (op : Op) (x : Checked (Answer × World)) : Prop :=
  Ensures x fun o => w.Chronicled (w.notices op o.1) o.2 atRest ∧
    ∀ p d, .zeroed p ∈ w.notices op o.1 → o.2.Live p d → d.metrics = .new

theorem heardOn_of_handle (hk : w.handle? n = some k) (kind : CallKind) (goods : List Bool) :
    w.heardOn n kind goods = goods.map (.made k.pool kind) := by
  rw [heardOn, hk]
  rfl

theorem heardOn_nil (w : World) (n : Nat) (kind : CallKind) : w.heardOn n kind [] = [] := by
  unfold heardOn
  cases w.handle? n <;> rfl

theorem notices_refused (w : World) (op : Op) : w.notices op .refused = [] := by
  cases op <;> first | rfl | exact heardOn_nil ..

theorem heeds_silent (hop : ∀ a, w.notices op a = []) {x : Checked (Answer × World)}
    (hx : Ensures x fun o => w.Narrows o.2) : w.Heeds op x :=
  hx.mono fun o ho => by
    rw [hop]
    exact ⟨(Chronicled.refl w).of_pools ho.telemetry ho.live, fun _ _ hz => by cases hz⟩

theorem heeds_refuse (w : World) (op : Op) : w.Heeds op w.refuse := .ok (by
  rw [notices_refused]
  exact ⟨.refl w, fun _ _ hz => by cases hz⟩)

section Lookups

variable {f : PoolId → Checked (Answer × World)}

theorem Sound.heeds_owned (h : w.Sound none none) (n : Nat)
    (hf : ∀ p d, w.owned? n = some p → w.Live p d → w.Heeds op (f p)) :
    w.Heeds op (match w.owned? n with | some p => f p | none => w.refuse) := by
  cases ho : w.owned? n with
  | some p =>
    obtain ⟨d, hl⟩ := h.live_of_handle? (handle?_of_owned? ho)
    exact hf p d ho hl
  | none => exact heeds_refuse w op

theorem Sound.heeds_stolen (h : w.Sound none none) (n : Nat)
    (hf : ∀ p d, w.stolen? n = some p → w.Live p d → w.Heeds op (f p)) :
    w.Heeds op (match w.stolen? n with | some p => f p | none => w.refuse) := by
  cases ho : w.stolen? n with
  | some p =>
    obtain ⟨d, hl⟩ := h.live_of_handle? (handle?_of_stolen? ho)
    exact hf p d ho hl
  | none => exact heeds_refuse w op

theorem Sound.heeds_handle {f : PoolHandle → Checked (Answer × World)} (h : w.Sound none none)
    (n : Nat) (hf : ∀ k d, w.handle? n = some k → w.Live k.pool d → w.Heeds op (f k)) :
    w.Heeds op (match w.handle? n with | some k => f k | none => w.refuse) := by
  cases hk : w.handle? n with
  | some k =>
    obtain ⟨d, hl⟩ := h.live_of_handle? hk
    exact hf k d hk hl
  | none => exact heeds_refuse w op

end Lookups

theorem heeds_calls (hk : w.handle? n = some k) {kind : CallKind} {a : Answer} {goods : List Bool}
    (hop : w.notices op a = w.heardOn n kind goods)
    (hv : w.Chronicled (goods.map (.made k.pool kind)) v atRest) : w.Heeds op (.ok (a, v)) := by
  have hheard := hop.trans (heardOn_of_handle hk kind goods)
  refine .ok ?_
  dsimp only
  rw [hheard]
  refine ⟨hv, fun p d hz => ?_⟩
  obtain ⟨_, _, hz⟩ := List.mem_map.1 hz
  cases hz

theorem heeds_one (hk : w.handle? n = some k) {kind : CallKind}
    (hop : ∀ u, w.notices op (.unit u) = w.heardOn n kind [u.isSome])
    {x : Checked (Option NamedUnit × World)}
    (hx : Ensures x fun o => w.Follows k.pool [.made k.pool kind o.1.isSome] o.2) :
    w.Heeds op (do let (u, w) ← x; return (.unit u, w)) :=
  .bind hx fun o ho => heeds_calls hk (hop o.1) ho.chronicled

theorem heeds_many (hk : w.handle? n = some k) {kind : CallKind}
    (hop : ∀ us, w.notices op (.units us) = w.heardOn n kind (us.map Option.isSome))
    {x : Checked (List (Option NamedUnit) × World)}
    (hx : Ensures x fun o =>
      w.Follows k.pool ((o.1.map Option.isSome).map (.made k.pool kind)) o.2) :
    w.Heeds op (do let (us, w) ← x; return (.units us, w)) :=
  .bind hx fun o ho => heeds_calls hk (hop o.1) ho.chronicled

theorem heeds_push (hk : w.handle? n = some k)
    (hop : ∀ a, w.notices op a = w.heardOn n .push a.goods) (hv : w.Chronicled [] v atRest)
    {x : Checked (Option PoolError × World)}
    (hx : Ensures x fun o => v.Follows k.pool [.made k.pool .push o.1.isNone] o.2) :
    w.Heeds op (do
      match ← x with
      | (none, w) => return (.ok, w)
      | (some e, w) => return (.error e, w)) := by
  refine .bind hx ?_
  rintro ⟨e?, v'⟩ hfollows
  have hchronicled := hv.trans hfollows.chronicled
  cases e? with
  | none => exact heeds_calls hk (hop .ok) hchronicled
  | some e => exact heeds_calls hk (hop (.error e)) hchronicled

theorem Sound.heeds_open (h : w.Sound none none) (n : Nat) (config : PoolConfig) {start : Nat}
    (hs : start ≤ Word.max) (hop : ∀ p, w.notices op (.opened p) = [.zeroed p])
    (herror : ∀ e, w.notices op (.error e) = []) :
    w.Heeds op (do
      match ← w.openPool n config start with
      | (.ok p, w) => return (.opened p, w)
      | (.error e, w) => return (.error e, w)) := by
  refine .bind (h.openPool_opens n config hs) ?_
  rintro ⟨opened, v⟩ ⟨hopened, hfailed⟩
  cases opened with
  | error e =>
    obtain rfl : v = w := hfailed e rfl
    refine .ok ?_
    rw [herror]
    exact ⟨.refl v, fun _ _ hz => by cases hz⟩
  | ok p =>
    obtain ⟨rfl, hv⟩ := hopened p rfl
    refine .ok ?_
    rw [hop]
    refine ⟨((Chronicled.refl w).opened config start).of_pools hv.telemetry hv.live, ?_⟩
    intro q d hz hl
    obtain rfl := Notice.zeroed.inj (List.mem_singleton.1 hz)
    exact metrics_of_opened (hv.live _ _ hl)

theorem heeds_reset (hk : w.handle? n = some k) (hl : w.Live k.pool d) :
    w.Heeds (.resetMetrics n) (do
      let (_, w) ← w.visit k.pool fun s => return ((), s.resetMetrics)
      return (.ok, w)) := by
  rw [visit_eq (f := fun s => return ((), s.resetMetrics)) hl rfl hl.2]
  have hnotices : w.notices (.resetMetrics n) .ok = [.zeroed k.pool] := by
    rw [notices, hk]
    rfl
  refine .ok ?_
  rw [hnotices]
  constructor
  · have hput : w.Chronicled ([] ++ [.zeroed k.pool]) (w.put (w.site d).resetMetrics)
        (Function.update atRest k.pool (atRest k.pool)) :=
      (Chronicled.refl w).put hl hl.2 rfl (by simp [Notice.pool]) fun hz =>
        absurd (List.mem_singleton_self _) hz
    rwa [Function.update_eq_self] at hput
  · intro q e hz he
    obtain rfl := Notice.zeroed.inj (List.mem_singleton.1 hz)
    rcases (live_put hl hl.2).1 he with ⟨-, rfl⟩ | ⟨hne, -⟩
    · rfl
    · exact absurd rfl hne

theorem Sound.heeds_act (h : w.Sound none none) (htel : w.telemetry = true) (op : Op) :
    w.Heeds op (w.act op) := by
  cases op with
  | createUnit kind => exact heeds_silent (fun _ => rfl) (.ok ⟨rfl, fun _ _ he => he⟩)
  | unitInfo u =>
    rw [World.act]
    cases w.unit? u with
    | some e => exact heeds_silent (fun _ => rfl) (.ok (.refl w))
    | none => exact heeds_refuse w _
  | whereabouts => exact heeds_silent (fun _ => rfl) (.ok (.refl w))
  | clearUnit u =>
    rw [World.act]
    cases w.units.find? u with
    | some e =>
      exact heeds_silent (fun _ => rfl)
        (.bind (.trivial _) fun _ _ => .ok ⟨rfl, fun _ _ he => he⟩)
    | none => exact heeds_refuse w _
  | new n capacity name => exact h.heeds_open n _ (Nat.zero_le _) (fun _ => rfl) fun _ => rfl
  | newAt n capacity start => exact h.heeds_open n _ (start_le start) (fun _ => rfl) fun _ => rfl
  | limit slots => exact heeds_silent (fun _ => rfl) (.ok ⟨rfl, fun _ _ he => he⟩)
  | stealer n owner =>
    refine h.heeds_owned owner fun p d _ hl => heeds_silent (fun _ => rfl) ?_
    exact .bind (h.bind_narrows (k := ⟨.foreign, p⟩) hl (by simp) n) fun v hv => .ok hv
  | clone n stealer =>
    refine h.heeds_stolen stealer fun p d _ hl => heeds_silent (fun _ => rfl) ?_
    exact .bind (h.bind_narrows (k := ⟨.foreign, p⟩) hl (by simp) n) fun v hv => .ok hv
  | drop n =>
    refine h.heeds_handle n fun k d hk _ => heeds_silent (fun _ => rfl) ?_
    exact .bind (h.dropHandle_narrows hk) fun v hv => .ok hv
  | push n u =>
    rw [World.act]
    cases ho : w.owned? n with
    | none => exact heeds_refuse w _
    | some p =>
      cases hu : w.unit? u with
      | none => exact heeds_refuse w _
      | some e =>
        obtain ⟨d, hl⟩ := h.live_of_handle? (handle?_of_owned? ho)
        exact heeds_push (handle?_of_owned? ho) (fun _ => rfl) (.refl w)
          (h.pushOne_follows htel hl (registered_of_unit? hu))
  | pushNew n kind =>
    refine h.heeds_owned n fun p d ho hl => ?_
    have hcreated : (w.createUnit kind).2.Sound none none :=
      h.congr rfl rfl (h.counted.create kind) fun _ => UnitTable.holder?_create ..
    have hfirst : w.Chronicled [] (w.createUnit kind).2 atRest :=
      (Chronicled.refl w).of_pools rfl fun _ _ he => he
    exact heeds_push (handle?_of_owned? ho) (fun _ => rfl) hfirst
      (hcreated.pushOne_follows (d := d) htel hl (UnitTable.registered_create w.units kind))
  | pushMany n type first times =>
    refine h.heeds_owned n fun p d ho hl => ?_
    exact .bind (h.pushMany_chronicled htel hl type first times) fun o ho' =>
      heeds_calls (handle?_of_owned? ho) rfl ho'.2
  | pop n =>
    refine h.heeds_owned n fun p d ho hl => heeds_one (handle?_of_owned? ho) (fun _ => rfl) ?_
    exact h.take_follows htel hl (by simp [Call.Admissible, Call.unit?]) (by simp)
  | steal n =>
    refine h.heeds_stolen n fun p d ho hl => heeds_one (handle?_of_stolen? ho) (fun _ => rfl) ?_
    exact h.take_follows htel hl (by simp [Call.Admissible, Call.unit?]) (by simp)
  | remove n u =>
    rw [World.act]
    cases hk : w.handle? n with
    | none => exact heeds_refuse w _
    | some k =>
      cases hu : w.unit? u with
      | none => exact heeds_refuse w _
      | some e =>
        obtain ⟨d, hl⟩ := h.live_of_handle? hk
        have hc : (Call.remove k.side u).Admissible w.units := by
          rintro v ⟨⟩
          exact registered_of_unit? hu
        exact heeds_one hk (fun _ => rfl) (h.take_follows htel hl hc (by simp))
  | popMany n times =>
    refine h.heeds_owned n fun p d ho hl => heeds_many (handle?_of_owned? ho) (fun _ => rfl) ?_
    exact h.takeMany_follows htel hl (by simp [Call.Admissible, Call.unit?]) (by simp) times
  | stealMany n times =>
    refine h.heeds_stolen n fun p d ho hl => heeds_many (handle?_of_stolen? ho) (fun _ => rfl) ?_
    exact h.takeMany_follows htel hl (by simp [Call.Admissible, Call.unit?]) (by simp) times
  | popAll n =>
    refine h.heeds_owned n fun p d ho hl => heeds_many (handle?_of_owned? ho) (fun _ => rfl) ?_
    exact h.takeAll_follows htel hl (by simp [Call.Admissible, Call.unit?]) (by simp) _
  | stealAll n =>
    refine h.heeds_stolen n fun p d ho hl => heeds_many (handle?_of_stolen? ho) (fun _ => rfl) ?_
    exact h.takeAll_follows htel hl (by simp [Call.Admissible, Call.unit?]) (by simp) _
  | info n =>
    refine h.heeds_handle n fun k d _ hl => heeds_silent (fun _ => rfl) ?_
    rw [hl.pool?_eq]
    exact .ok (.refl w)
  | compareIds m n =>
    rw [World.act]
    cases w.handle? m with
    | none => exact heeds_refuse w _
    | some j =>
      cases w.handle? n with
      | none => exact heeds_refuse w _
      | some k => exact heeds_silent (fun _ => rfl) (.ok (.refl w))
  | samePool m n =>
    rw [World.act]
    cases w.stolen? m with
    | none => exact heeds_refuse w _
    | some p =>
      cases w.owned? n with
      | none => exact heeds_refuse w _
      | some q => exact heeds_silent (fun _ => rfl) (.ok (.refl w))
  | metrics n =>
    refine h.heeds_handle n fun k d _ hl => heeds_silent (fun _ => rfl) ?_
    rw [hl.pool?_eq]
    exact .ok (.refl w)
  | resetMetrics n => exact h.heeds_handle n fun k d hk hl => heeds_reset hk hl
  | convoy n calls =>
    refine h.heeds_owned n fun p d ho hl => ?_
    split
    · rename_i hknows
      have hready : ∀ bc ∈ calls, w.Ready bc := fun bc hbc =>
        ready_of_knows (List.all_eq_true.1 hknows bc hbc)
      refine .bind (h.convoy_chronicled htel hl hready) fun o hv => .ok ?_
      have hnotices : w.notices (.convoy n calls) (.convoy o.1) =
          .convoy p :: w.heard calls (o.1.map CallResult.good?) := by
        rw [notices, ho]
        rfl
      rw [hnotices]
      exact ⟨hv, fun q e hz => absurd hz (by simp [zeroed_not_mem_heard])⟩
    · exact heeds_refuse w _
  | unknown n => exact heeds_refuse w _

theorem notices_congr {w' : World} (h : w'.handles = w.handles) (op : Op) (a : Answer) :
    w'.notices op a = w.notices op a := by
  have howned : w'.owned? = w.owned? := by
    funext n
    simp only [owned?, handle?, h]
  unfold notices
  simp only [heardOn, handle?, h, howned, heard_congr h]

theorem Sound.heeds_step (h : w.Sound none none) (htel : w.telemetry = true) (op : Op) :
    Ensures (w.step op) fun o => w.Chronicled (w.notices op o.1.answer) o.2 atRest ∧
      ∀ p d, .zeroed p ∈ w.notices op o.1.answer → o.2.Live p d → d.metrics = .new := by
  have hu : w.unlogged.Sound none none := h.congr rfl rfl h.counted fun _ => rfl
  have hanswer : w.unlogged.Heeds op (w.unlogged.answer op) := by
    rw [answer]
    split
    · exact heeds_refuse w.unlogged op
    · exact hu.heeds_act htel op
  rw [step_eq]
  refine .bind hanswer fun o ho => .ok ?_
  rw [notices_congr (show w.unlogged.handles = w.handles from rfl)] at ho
  exact ⟨ho.1.of_start rfl rfl, ho.2⟩

theorem Sound.run_chronicled (h : w.Sound none none) (htel : w.telemetry = true)
    (ops : List Op) : ∃ reports v, w.run ops = .ok (reports, v) ∧ v.Sound none none ∧
      w.Chronicled (w.chronicle ops) v atRest := by
  induction ops generalizing w with
  | nil => exact ⟨[], w, rfl, h, .refl w⟩
  | cons op ops ih =>
    obtain ⟨report, v, hstep, hv⟩ := h.step op
    obtain ⟨hfirst, -⟩ := h.heeds_step htel op _ hstep
    obtain ⟨reports, v', hrun, hv', hrest⟩ := ih hv (hfirst.telemetry.trans htel)
    refine ⟨report :: reports, v', ?_, hv', ?_⟩
    · simp only [World.run, hstep, hrun, ok_bind, pure_eq_ok]
    · rw [chronicle, hstep]
      exact hfirst.trans hrest

end Steps

end World

/-- What the metrics of pool `p` say at the end of a period that `ns` tells of, in which the number
of queued units went from `first` to `last`. -/
structure MetricsSnapshot.Accounts (m : MetricsSnapshot) (p : PoolId) (ns : List Notice)
    (first last : Nat) : Prop where
  pushes : m.pushes = ns.count (.made p .push true)
  localPops : m.localPops = ns.count (.made p .pop true)
  steals : m.steals = ns.count (.made p .steal true)
  stealCalls : m.steals + m.stealMisses =
    ns.count (.made p .steal true) + ns.count (.made p .steal false)
  removes : m.removes = ns.count (.made p .remove true)
  removeCalls : m.removes + m.removeMisses =
    ns.count (.made p .remove true) + ns.count (.made p .remove false)
  balance : (m.pushes : Int) - m.extracted = (last : Int) - first
  unlocked : .convoy p ∉ ns →
    m.contendedLocks = 0 ∧ m.p99LockWait = 0 ∧ m.maxLockWait = 0

theorem Metrics.count_new (t : Tally) : Metrics.new.count t = 0 := by
  cases t <;> rfl

theorem Site.Tells.accounts {s s' : Site} {ns : List Notice} (h : s.Tells .none ns s' .none)
    (hnew : s.deque.metrics = .new)
    (hquiet : .convoy s.deque.id ∉ ns → s'.deque.metrics.lockWaits = s.deque.metrics.lockWaits) :
    s'.deque.metrics.snapshot.Accounts s.deque.id ns s.deque.queued.length
      s'.deque.queued.length := by
  have hcount : ∀ kind good t, kind.heading? good = some t →
      s'.deque.metrics.count t = ns.count (.made s.deque.id kind good) := by
    intro kind good t ht
    rw [h.count kind good t ht, hnew, Metrics.count_new, Nat.zero_add]
  have hpushes : s'.deque.metrics.pushes = _ := hcount .push true .push rfl
  have hpops : s'.deque.metrics.localPops = _ := hcount .pop true .pop rfl
  have hsteals : s'.deque.metrics.steals = _ := hcount .steal true .steal rfl
  have hstealMisses : s'.deque.metrics.stealMisses = _ := hcount .steal false .stealMiss rfl
  have hremoves : s'.deque.metrics.removes = _ := hcount .remove true .remove rfl
  have hremoveMisses : s'.deque.metrics.removeMisses = _ := hcount .remove false .removeMiss rfl
  have hbalance : s'.deque.queued.length + (ns.count (.made s.deque.id .pop true) +
      ns.count (.made s.deque.id .steal true) + ns.count (.made s.deque.id .remove true)) =
      s.deque.queued.length + ns.count (.made s.deque.id .push true) := h.balance
  refine ⟨hpushes, hpops, hsteals, congrArg₂ (· + ·) hsteals hstealMisses, hremoves,
    congrArg₂ (· + ·) hremoves hremoveMisses, ?_, fun hc => ?_⟩
  · simp only [Metrics.snapshot, MetricsSnapshot.extracted, hpushes, hpops, hsteals, hremoves]
    omega
  · rw [hnew] at hquiet
    simp only [Metrics.snapshot, hquiet hc]
    exact ⟨rfl, rfl, rfl⟩

namespace World

/-- With telemetry on, the metrics of a pool count what the session tells of it since it was opened
or its metrics were reset, and what went in and did not come out is what its queue has gained. -/
theorem run_metrics (hooks : Bool) (before : List Op) (op : Op) (period : List Op) :
    ∃ reports w₀ report w reports' w', (start true hooks).run before = .ok (reports, w₀) ∧
      w₀.step op = .ok (report, w) ∧ w.run period = .ok (reports', w') ∧
      ∀ p d d', .zeroed p ∈ w₀.notices op report.answer → .zeroed p ∉ w.chronicle period →
        w.Live p d → w'.Live p d' →
        d'.metrics.snapshot.Accounts p (w.chronicle period) d.queued.length d'.queued.length := by
  obtain ⟨reports, w₀, hrun, hw₀, hbefore⟩ := (sound_start true hooks).run_chronicled rfl before
  obtain ⟨report, w, hstep, hw⟩ := hw₀.step op
  obtain ⟨hop, hzeroed⟩ := hw₀.heeds_step hbefore.telemetry op _ hstep
  obtain ⟨reports', w', hrun', _, hperiod⟩ :=
    hw.run_chronicled (hop.telemetry.trans hbefore.telemetry) period
  refine ⟨reports, w₀, report, w, reports', w', hrun, hstep, hrun', fun p d d' hz hz' hl hl' => ?_⟩
  obtain ⟨e, he, htells, hquiet⟩ := hperiod.pool p d' hl' hz'
  obtain rfl := hl.unique he
  obtain rfl := hl.2
  exact htells.accounts (hzeroed _ d hz hl) hquiet

/-- A pool of two slots that has grown. -/
def openGrown : List Op :=
  [.new 0 (some 2) none, .stealer 1 0, .createUnit (.task ⟨7⟩), .createUnit (.task ⟨8⟩),
   .push 0 ⟨0⟩, .push 0 ⟨1⟩]

/-- A push of a unit that is queued, a removal of the newest unit by the owner, three calls that
meet at the lock, of which two have to wait, and a steal that finds nothing. -/
def busyPeriod : List Op :=
  [.push 0 ⟨1⟩, .pushNew 0 (.task ⟨9⟩), .remove 0 ⟨2⟩, .convoy 0 [.steal 1, .remove 1 ⟨0⟩, .pop 0],
   .steal 1]

theorem run_metrics_after_reset : ∃ reports w₀ report w reports' w' p d d',
    (start true true).run openGrown = .ok (reports, w₀) ∧
      w₀.step (.resetMetrics 1) = .ok (report, w) ∧ w.run busyPeriod = .ok (reports', w') ∧
      .zeroed p ∈ w₀.notices (.resetMetrics 1) report.answer ∧
      .zeroed p ∉ w.chronicle busyPeriod ∧ .convoy p ∈ w.chronicle busyPeriod ∧
      w.Live p d ∧ w'.Live p d' ∧
      d'.metrics.snapshot.Accounts p (w.chronicle busyPeriod) d.queued.length
        d'.queued.length := by
  obtain ⟨reports, w₀, report, w, reports', w', hrun, hstep, hrun', hall⟩ :=
    run_metrics true openGrown (.resetMetrics 1) busyPeriod
  have hshown : ((start true true).run openGrown).toOption.any (fun o =>
      (o.2.step (.resetMetrics 1)).toOption.any fun o' =>
        decide (.zeroed (.ofIndex 0) ∈ o.2.notices (.resetMetrics 1) o'.1.answer ∧
          .zeroed (.ofIndex 0) ∉ o'.2.chronicle busyPeriod ∧
          .convoy (.ofIndex 0) ∈ o'.2.chronicle busyPeriod) &&
        (o'.2.live? (.ofIndex 0)).isSome &&
        (o'.2.run busyPeriod).toOption.any fun x => (x.2.live? (.ofIndex 0)).isSome) = true := by
    decide +kernel
  rw [hrun] at hshown
  simp only [Except.toOption, Option.any_some, hstep, hrun', Bool.and_eq_true, decide_eq_true_eq,
    Option.isSome_iff_exists] at hshown
  obtain ⟨⟨⟨hz, hz', hc⟩, d, hd⟩, d', hd'⟩ := hshown
  have hl := live?_eq_some.1 hd
  have hl' := live?_eq_some.1 hd'
  exact ⟨reports, w₀, report, w, reports', w', _, d, d', hrun, hstep, hrun', hz, hz', hc, hl, hl',
    hall _ d d' hz hz' hl hl'⟩

end World

end WorkStealing
