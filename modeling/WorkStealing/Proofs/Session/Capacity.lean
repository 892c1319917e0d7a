import Mathlib.Data.Nat.Size
import Mathlib.Order.Bounds.Defs
import WorkStealing.Proofs.Deque.Gauge
import WorkStealing.Proofs.Session.Paths
import WorkStealing.Proofs.Session.Thinning

set_option autoImplicit false

/-!
# The capacity law

The capacity of a pool follows from the capacity that it was opened with and from the greatest
length that its window has had right after a unit was stored. It has doubled as often as its
metrics, its log and the report of its end say.
-/
namespace WorkStealing

section Peaks

def Flight.isStored : Flight → Bool
  | .landed .stored => true
  | _ => false

/-- The length that the window of `p` has right after a unit was stored there. -/
def Beat.reach (p : PoolId) : Beat → Nat
  | .leg l => if l.before.deque.id = p ∧ l.flight.isStored = true then l.after.deque.length else 0
  | .reset _ => 0

/-- The greatest length that the window of `p` had right after a unit was stored there. -/
def peak (p : PoolId) (bs : List Beat) : Nat := (bs.map (Beat.reach p)).foldr max 0

theorem peak_append (p : PoolId) (bs bs' : List Beat) :
    peak p (bs ++ bs') = max (peak p bs) (peak p bs') := by
  induction bs with
  | nil => exact (Nat.zero_max _).symm
  | cons b bs ih =>
    change max (b.reach p) (peak p (bs ++ bs')) = max (max (b.reach p) (peak p bs)) (peak p bs')
    rw [ih, Nat.max_assoc]

theorem peak_concat (p : PoolId) (bs : List Beat) (b : Beat) :
    peak p (bs ++ [b]) = max (peak p bs) (b.reach p) := by
  rw [peak_append]
  exact congrArg _ (Nat.max_zero _)

theorem isLeast_two_pow_size (m : Nat) : IsLeast {n | n.isPowerOfTwo ∧ m < n} (2 ^ m.size) := by
  refine ⟨⟨⟨_, rfl⟩, Nat.lt_size_self m⟩, ?_⟩
  rintro n ⟨⟨k, rfl⟩, hlt⟩
  exact Nat.pow_le_pow_right (by omega) (Nat.size_le.2 hlt)

theorem two_pow_size_max (m n : Nat) :
    2 ^ (max m n).size = max (2 ^ m.size) (2 ^ n.size) := by
  have hmono : ∀ {m n : Nat}, m ≤ n → 2 ^ m.size ≤ 2 ^ n.size := fun hle =>
    Nat.pow_le_pow_right (by omega) (Nat.size_le_size hle)
  rcases Nat.le_total m n with hle | hle
  · rw [Nat.max_eq_right hle, Nat.max_eq_right (hmono hle)]
  · rw [Nat.max_eq_left hle, Nat.max_eq_left (hmono hle)]

end Peaks

def Beat.isReset : Beat → Bool
  | .leg _ => false
  | .reset _ => true

section Events

def Event.pool : Event → PoolId
  | .created p _ _ | .grew p _ _ _ _ | .growthFailed p _ _ | .rebased p _ _ | .dropped p _ _ => p

def milestones (p : PoolId) (es : List Event) : List Event :=
  (landmarks es).filter fun e => e.pool = p

/-- The reports of a ring of `first` slots that doubles `r` times, each time with one slot left. -/
def growths (p : PoolId) (name : Option String) (first r : Nat) : List Event :=
  (List.range r).map fun i => .grew p name (first * 2 ^ i) (first * 2 ^ (i + 1)) (first * 2 ^ i - 1)

theorem milestones_append (p : PoolId) (es es' : List Event) :
    milestones p (es ++ es') = milestones p es ++ milestones p es' := by
  rw [milestones, landmarks, List.filter_append, List.filter_append]
  rfl

theorem growths_succ (p : PoolId) (name : Option String) (first r : Nat) :
    growths p name first (r + 1) = growths p name first r ++
      [.grew p name (first * 2 ^ r) (first * 2 ^ (r + 1)) (first * 2 ^ r - 1)] := by
  rw [growths, List.range_succ, List.map_append]
  rfl

def StepReport.logged (reports : List StepReport) : List Event :=
  reports.flatMap fun report => report.events.toList

end Events

section Gauges

/-- A ring that began with `first` slots, when `es` was reported and `bs` had happened. -/
structure Gauge.Risen (g : Gauge) (es : List Event) (bs : List Beat) (first : Nat) : Prop where
  power : first.isPowerOfTwo
  reported : milestones g.id es =
    .created g.id g.name first :: growths g.id g.name first g.generation
  doubled : g.capacity = first * 2 ^ g.generation
  enough : g.capacity = max first (2 ^ (peak g.id bs).size)
  resizes : g.telemetry = true → .reset g.id ∉ bs → g.resizes = g.generation

variable {g : Gauge} {es es' : List Event} {bs : List Beat} {first : Nat}

theorem Gauge.Risen.exists_capacity (h : g.Risen es bs first) : ∃ k, g.capacity = 2 ^ k := by
  obtain ⟨k, hk⟩ := h.power
  exact ⟨k + g.generation, by rw [h.doubled, hk, Nat.pow_add]⟩

theorem Gauge.Risen.congr (h : g.Risen es bs first) {bs' : List Beat} (ls : List Event)
    (hes : milestones g.id es' = milestones g.id es) (hbs : peak g.id bs' = peak g.id bs)
    (hreset : .reset g.id ∉ bs' → .reset g.id ∉ bs) :
    { g with landmarks := ls }.Risen es' bs' first where
  power := h.power
  reported := hes.trans h.reported
  doubled := h.doubled
  enough := by
    change g.capacity = max first (2 ^ (peak g.id bs').size)
    rw [hbs]
    exact h.enough
  resizes htel hr := h.resizes htel (hreset hr)

theorem Gauge.Risen.beat (h : g.Risen es bs first) {b : Beat}
    (hes : milestones g.id es' = milestones g.id es) (hb : b.reach g.id < g.capacity) :
    g.Risen es' (bs ++ [b]) first where
  power := h.power
  reported := hes.trans h.reported
  doubled := h.doubled
  enough := by
    obtain ⟨k, hk⟩ := h.exists_capacity
    have hle : 2 ^ (b.reach g.id).size ≤ g.capacity := by
      rw [hk]
      exact Nat.pow_le_pow_right (by omega) (Nat.size_le.2 (hk ▸ hb))
    rw [peak_concat, two_pow_size_max, ← Nat.max_assoc, ← h.enough, Nat.max_eq_left hle]
  resizes htel hreset := h.resizes htel fun hmem => hreset (List.mem_append_left _ hmem)

theorem Gauge.Risen.grown (h : g.Risen es bs first) {b : Beat}
    (hes : milestones g.id es' = milestones g.id es ++
      [.grew g.id g.name g.capacity (2 * g.capacity) (g.capacity - 1)])
    (hb : b.reach g.id = g.capacity) : (g.grown (g.capacity - 1)).Risen es' (bs ++ [b]) first where
  power := h.power
  reported := by
    change milestones g.id es' = _ :: growths g.id g.name first (g.generation + 1)
    rw [hes, h.reported, growths_succ, h.doubled, Nat.pow_succ, Nat.mul_comm 2, Nat.mul_assoc]
    rfl
  doubled := by
    change 2 * g.capacity = first * 2 ^ (g.generation + 1)
    rw [h.doubled, Nat.pow_succ, Nat.mul_comm 2, Nat.mul_assoc]
  enough := by
    obtain ⟨k, hk⟩ := h.exists_capacity
    have hnext : 2 ^ (b.reach g.id).size = 2 * g.capacity := by
      rw [hb, hk, Nat.size_pow, Nat.pow_succ, Nat.mul_comm]
    change 2 * g.capacity = max first (2 ^ (peak g.id (bs ++ [b])).size)
    rw [peak_concat, two_pow_size_max, ← Nat.max_assoc, ← h.enough, hnext]
    omega
  resizes htel hreset := by
    have hsame := h.resizes htel fun hmem => hreset (List.mem_append_left _ hmem)
    have htel : g.telemetry = true := htel
    change (g.resizes + if g.telemetry then 1 else 0) = g.generation + 1
    rw [htel, hsame]
    rfl

theorem Gauge.Risen.reset (h : g.Risen es bs first) :
    { g with resizes := 0 }.Risen es (bs ++ [Beat.reset g.id]) first where
  power := h.power
  reported := h.reported
  doubled := h.doubled
  enough := by
    rw [peak_concat]
    exact h.enough.trans (congrArg (fun m => max first (2 ^ m.size)) (Nat.max_zero _).symm)
  resizes _ hreset := absurd (List.mem_append_right _ (List.mem_singleton_self _)) hreset

end Gauges

section Legs

theorem Leg.Ran.grew {l : Leg} (h : l.Ran) :
    l.after.gauge = l.before.gauge ∨ l.flight = .landed .stored ∧ l.before.Grew l.after := by
  cases h with
  | alone sound free admissible run =>
    exact (Site.perform_grew sound free admissible run).imp id fun ⟨hr, hgrew⟩ =>
      ⟨congrArg Flight.landed hr, hgrew⟩
  | boards _ _ _ _ run comes =>
    rcases comes.grown with hg | ⟨u, hstage, -⟩
    · exact .inl (Site.gauge_of_start run hg)
    · cases hstage
  | turns sound front served run comes => exact Site.turn_grew sound front served run comes

theorem Site.Stands.length_lt {s : Site} {π : Pledge} (h : s.Stands π) :
    s.deque.length < s.deque.capacity := by
  have hlt := h.sound.deque.length_lt
  cases π with
  | none | unit => exact hlt
  | slot =>
    change s.deque.tail + 1 - s.deque.head < s.deque.capacity at hlt
    rw [Deque.length]
    omega

theorem Leg.Ran.room {l : Leg} (h : l.Ran) : l.after.deque.length < l.after.deque.capacity := by
  cases h with
  | alone sound free admissible run =>
    obtain ⟨x, hx, hb⟩ := Site.perform_scene sound free admissible
    obtain ⟨-, rfl⟩ := Prod.mk.inj (Except.ok.inj (run.symm.trans hx))
    exact hb.sound.deque.length_lt
  | boards _ _ _ _ _ comes => exact comes.steps.stands.length_lt
  | turns _ _ _ _ comes => exact comes.steps.stands.length_lt

theorem Leg.Ran.telemetry_eq {l : Leg} (h : l.Ran) : l.after.telemetry = l.before.telemetry :=
  h.grew.elim (congrArg Gauge.telemetry) fun ⟨_, hgrew⟩ => congrArg Gauge.telemetry hgrew.gauge

theorem Leg.Ran.id_eq {l : Leg} (h : l.Ran) : l.after.deque.id = l.before.deque.id :=
  h.grew.elim (congrArg Gauge.id) fun ⟨_, hgrew⟩ => congrArg Gauge.id hgrew.gauge

end Legs

namespace World

variable {w v : World} {p : PoolId} {es es' : List Event} {bs bs' : List Beat}

/-- What has become of pool `p` when `es` was logged and `bs` had happened. -/
inductive Stature (w : World) (p : PoolId) (es : List Event) (bs : List Beat) : Prop
  | unborn (fresh : ∀ i, p = .ofIndex i → w.pools.size ≤ i) (gone : ∀ d, ¬ w.Live p d)
    (reported : milestones p es = []) (idle : peak p bs = 0)
  | alive {i : Nat} {d : Deque} {first : Nat} (place : p = .ofIndex i) (live : w.Live p d)
    (risen : (w.site d).gauge.Risen es bs first)
  | ended {i : Nat} {name : Option String} {first released retired : Nat} (place : p = .ofIndex i)
    (lt_size : i < w.pools.size) (gone : ∀ d, ¬ w.Live p d)
    (reported : milestones p es =
      .created p name first :: growths p name first retired ++ [.dropped p released retired])

theorem Stature.elsewhere (h : w.Stature p es bs) (hlive : ∀ d, v.Live p d ↔ w.Live p d)
    (htel : v.telemetry = w.telemetry) (hsize : v.pools.size = w.pools.size)
    (hes : milestones p es' = milestones p es) (hbs : peak p bs' = peak p bs)
    (hreset : .reset p ∉ bs' → .reset p ∉ bs) : v.Stature p es' bs' := by
  cases h with
  | unborn fresh gone reported idle =>
    exact .unborn (hsize ▸ fresh) (fun d hd => gone d ((hlive d).1 hd)) (hes.trans reported)
      (hbs.trans idle)
  | @alive i d first place live risen =>
    obtain rfl := live.2
    have hrisen := risen.congr (landmarks v.log.toList) hes hbs hreset
    have hgauge : (v.site d).gauge = _ := congrArg (fun t : Bool => { (w.site d).gauge with
      telemetry := t, landmarks := landmarks v.log.toList }) htel
    exact .alive place ((hlive _).2 live) (hgauge ▸ hrisen)
  | ended place lt_size gone reported =>
    exact .ended place (hsize ▸ lt_size) (fun d hd => gone d ((hlive d).1 hd))
      (hes.trans reported)

theorem Stature.of_live {d : Deque} (h : w.Stature p es bs) (hl : w.Live p d) :
    ∃ i first, p = .ofIndex i ∧ (w.site d).gauge.Risen es bs first := by
  cases h with
  | unborn _ gone => exact absurd hl (gone d)
  | alive place live risen =>
    obtain rfl := hl.unique live
    exact ⟨_, _, place, risen⟩
  | ended _ _ gone => exact absurd hl (gone d)

theorem milestones_of_landmarks {es₀ : List Event}
    (h : landmarks es' = landmarks es) : milestones p (es₀ ++ es') = milestones p (es₀ ++ es) := by
  rw [milestones_append, milestones_append]
  exact congrArg (fun ls => milestones p es₀ ++ ls.filter fun e => e.pool = p) h

theorem milestones_concat (es₀ : List Event) {e : Event} (h : landmarks es' = landmarks es ++ [e]) :
    milestones p (es₀ ++ es') = milestones p (es₀ ++ es) ++ if e.pool = p then [e] else [] := by
  have hfilter : milestones p es' = milestones p es ++ if e.pool = p then [e] else [] := by
    rw [milestones, h, List.filter_append, List.filter_singleton]
    simp [milestones]
  rw [milestones_append, milestones_append, hfilter, List.append_assoc]

theorem Beat.reach_eq_zero {l : Leg} (h : l.before.deque.id ≠ p) : Beat.reach p (.leg l) = 0 :=
  if_neg fun hp => h hp.1

theorem Beat.reach_lt {l : Leg} {n : Nat} (h : l.after.deque.length < n) :
    Beat.reach p (.leg l) < n := by
  change (if l.before.deque.id = p ∧ l.flight.isStored = true then l.after.deque.length else 0) < n
  split <;> omega

theorem Stature.put_other {d : Deque} {s : Site} {bs' : List Beat}
    (h : w.Stature p (es ++ w.log.toList) bs) (hl : w.Live d.id d) (hid : s.deque.id = d.id)
    (hp : d.id ≠ p) (htel : s.telemetry = w.telemetry)
    (hes : milestones p (es ++ s.log.toList) = milestones p (es ++ w.log.toList))
    (hbs : peak p bs' = peak p bs) (hreset : .reset p ∉ bs' → .reset p ∉ bs) :
    (w.put s).Stature p (es ++ (w.put s).log.toList) bs' := by
  refine h.elsewhere (fun e => ?_) htel (Array.size_setIfInBounds ..) hes hbs hreset
  rw [live_put hl hid]
  simp [Ne.symm hp]

theorem Stature.leg {d : Deque} {l : Leg} (h : w.Stature p (es ++ w.log.toList) bs)
    (hl : w.Live d.id d) (hs : l.before = w.site d) (hr : l.Ran) :
    (w.put l.after).Stature p (es ++ (w.put l.after).log.toList) (bs ++ [.leg l]) := by
  have hid : l.after.deque.id = d.id := hr.id_eq.trans (congrArg (·.deque.id) hs)
  have hlog : l.before.gauge.landmarks = landmarks w.log.toList :=
    congrArg (fun s => s.gauge.landmarks) hs
  have hgrew := hr.grew
  by_cases hp : d.id = p
  · subst hp
    obtain ⟨i, first, hi, hrisen⟩ := h.of_live hl
    have hlive : (w.put l.after).Live d.id l.after.deque :=
      (live_put hl hid).2 (.inl ⟨rfl, rfl⟩)
    refine .alive hi hlive (?_ : l.after.gauge.Risen _ _ first)
    rw [← hs] at hrisen
    rcases hgrew with hsame | ⟨hstored, hgrew⟩
    · have hreach : Beat.reach l.before.gauge.id (.leg l) < l.before.gauge.capacity :=
        Beat.reach_lt (hsame ▸ hr.room)
      rw [hsame]
      exact hrisen.beat (milestones_of_landmarks ((congrArg Gauge.landmarks hsame).trans hlog))
        hreach
    · -- a ring grows when all slots but one are taken, so the new peak is its old capacity
      have hfull := hgrew.full
      have hlive : l.before.deque.length = l.before.gauge.capacity - 1 := by
        change _ = l.before.deque.capacity - 1
        omega
      have hreach : Beat.reach l.before.gauge.id (.leg l) = l.before.gauge.capacity := by
        rw [Beat.reach, if_pos ⟨rfl, by rw [hstored]; rfl⟩, hgrew.length]
        exact hfull
      have hgauge := hgrew.gauge
      rw [hlive] at hgauge
      rw [hgauge]
      refine hrisen.grown ?_ hreach
      have hgrown := congrArg Gauge.landmarks hgauge
      have hes := milestones_concat (p := l.before.deque.id) es
        (hgrown.trans (congrArg (· ++ _) hlog))
      exact hes.trans (congrArg (_ ++ ·) (if_pos rfl))
  · have hbefore : l.before.deque.id = d.id := congrArg (·.deque.id) hs
    refine h.put_other hl hid hp ?_ ?_ ?_ fun hr hmem => hr (List.mem_append_left _ hmem)
    · exact hr.telemetry_eq.trans (congrArg (·.telemetry) hs)
    · rcases hgrew with hsame | ⟨-, hgrew⟩
      · exact milestones_of_landmarks ((congrArg Gauge.landmarks hsame).trans hlog)
      · have hgrown := congrArg Gauge.landmarks hgrew.gauge
        have hes := milestones_concat (p := p) es
          (hgrown.trans (congrArg (· ++ _) hlog))
        have hother : (l.before.gauge.id = p) ↔ False :=
          iff_false_intro fun heq => hp (hbefore.symm.trans heq)
        simp only [Event.pool, hother, if_false, List.append_nil] at hes
        exact hes
    · rw [peak_concat, Beat.reach_eq_zero (hbefore ▸ hp), Nat.max_zero]

theorem Stature.reset {d : Deque} (h : w.Stature p (es ++ w.log.toList) bs) (hl : w.Live d.id d) :
    (w.put (w.site d).resetMetrics).Stature p
      (es ++ (w.put (w.site d).resetMetrics).log.toList) (bs ++ [.reset d.id]) := by
  by_cases hp : d.id = p
  · subst hp
    obtain ⟨i, first, hi, hrisen⟩ := h.of_live hl
    have hlive : (w.put (w.site d).resetMetrics).Live d.id (w.site d).resetMetrics.deque :=
      (live_put hl rfl).2 (.inl ⟨rfl, rfl⟩)
    exact .alive hi hlive hrisen.reset
  · refine h.put_other hl rfl hp rfl rfl ?_ fun hr hmem => hr (List.mem_append_left _ hmem)
    rw [peak_concat]
    exact Nat.max_zero _

theorem Stature.locked {d : Deque} {l : TicketLock Nat (List Ring)}
    (h : w.Stature p (es ++ w.log.toList) bs) (hl : w.Live d.id d)
    (hcontents : l.contents = d.foreign.contents) :
    (w.put ((w.site d).setForeign l)).Stature p
      (es ++ (w.put ((w.site d).setForeign l)).log.toList) bs := by
  by_cases hp : d.id = p
  · subst hp
    obtain ⟨i, first, hi, hrisen⟩ := h.of_live hl
    have hlive : (w.put ((w.site d).setForeign l)).Live d.id ((w.site d).setForeign l).deque :=
      (live_put hl rfl).2 (.inl ⟨rfl, rfl⟩)
    have hgauge : ((w.site d).setForeign l).gauge = (w.site d).gauge :=
      congrArg (fun rings : List Ring => { (w.site d).gauge with generation := rings.length })
        hcontents
    refine .alive hi hlive (?_ : ((w.site d).setForeign l).gauge.Risen _ _ first)
    rw [hgauge]
    exact hrisen
  · exact h.put_other hl rfl hp rfl rfl rfl id

theorem Stature.opened {config : PoolConfig} (start : Nat)
    (h : w.Stature p (es ++ w.log.toList) bs) (hv : config.validate = .ok ()) :
    (w.opened config start).Stature p (es ++ (w.opened config start).log.toList) bs := by
  have hlog : landmarks (w.opened config start).log.toList = landmarks w.log.toList ++
      [.created (.ofIndex w.pools.size) config.name config.initialCapacity] := by
    simp [World.opened, landmarks, Event.isLandmark]
  have hes := milestones_concat (p := p) es hlog
  have hsize : (w.opened config start).pools.size = w.pools.size + 1 := Array.size_push ..
  by_cases hp : p = .ofIndex w.pools.size
  · subst hp
    have hlive : (w.opened config start).Live (.ofIndex w.pools.size) _ :=
      live_opened.2 (.inl ⟨rfl, rfl⟩)
    simp only [Event.pool, if_true] at hes
    have hnew : ∀ i, PoolId.ofIndex w.pools.size = .ofIndex i → w.pools.size = i := fun i hi => by
      rw [← PoolId.index_ofIndex w.pools.size, hi, PoolId.index_ofIndex]
    cases h with
    | unborn fresh gone reported idle =>
      -- nothing was reported of the pool so far, and its window has never had a unit
      obtain ⟨k, -, hk, -⟩ := PoolConfig.power_of_validate hv
      have hcap : (Ring.blank config.initialCapacity).capacity = config.initialCapacity :=
        Ring.capacity_blank config.initialCapacity
      refine .alive rfl hlive
        (⟨⟨k, hk⟩, ?_, ?_, ?_, fun _ _ => rfl⟩ : Gauge.Risen _ _ _ config.initialCapacity)
      · rw [reported] at hes
        exact hes
      · exact hcap.trans (Nat.mul_one _).symm
      · have hpos := Nat.two_pow_pos k
        change (Ring.blank config.initialCapacity).capacity =
          max config.initialCapacity (2 ^ (peak (.ofIndex w.pools.size) bs).size)
        rw [hcap, idle]
        exact (Nat.max_eq_left (hk ▸ hpos)).symm
    | @alive i e first place live risen =>
      have hlt := (Array.getElem?_eq_some_iff.1 live.1).1
      rw [PoolId.index_ofIndex] at hlt
      exact absurd hlt (Nat.lt_irrefl _)
    | ended place lt_size gone reported => exact absurd (hnew _ place ▸ lt_size) (Nat.lt_irrefl _)
  · have hlive : ∀ d, (w.opened config start).Live p d ↔ w.Live p d := fun d => by
      simp [live_opened, hp]
    simp only [Event.pool, Ne.symm hp, if_false, List.append_nil] at hes
    cases h with
    | unborn fresh gone reported idle =>
      refine .unborn (fun i hi => ?_) (fun d hd => gone d ((hlive d).1 hd)) (hes.trans reported)
        idle
      have hle := fresh i hi
      have hne : i ≠ w.pools.size := fun heq => hp (hi.trans (congrArg _ heq))
      omega
    | alive place live risen =>
      obtain rfl := live.2
      exact .alive place ((hlive _).2 live) (risen.congr _ hes rfl id)
    | ended place lt_size gone reported =>
      exact .ended place (by omega) (fun d hd => gone d ((hlive d).1 hd)) (hes.trans reported)

theorem Stature.closed {d : Deque} (h : w.Stature p (es ++ w.log.toList) bs) (hl : w.Live d.id d) :
    (w.close (w.site d).ended).Stature p (es ++ (w.close (w.site d).ended).log.toList) bs := by
  have hlog : landmarks (w.close (w.site d).ended).log.toList = landmarks w.log.toList ++
      [.dropped d.id d.queued.length d.generation] := by
    simp [World.close, Site.ended, Site.emit, Site.setUnits, landmarks, Event.isLandmark, site]
  have hes := milestones_concat (p := p) es hlog
  have hsize : (w.close (w.site d).ended).pools.size = w.pools.size := Array.size_setIfInBounds ..
  have hgone : ∀ e, (w.close (w.site d).ended).Live p e ↔ p ≠ d.id ∧ w.Live p e := fun e =>
    live_close hl rfl
  by_cases hp : p = d.id
  · subst hp
    simp only [Event.pool, if_true] at hes
    obtain ⟨i, first, hi, hrisen⟩ := h.of_live hl
    have hlt := (Array.getElem?_eq_some_iff.1 hl.1).1
    rw [hi, PoolId.index_ofIndex, ← hsize] at hlt
    exact .ended hi hlt (fun e he => ((hgone e).1 he).1 rfl)
      (hes.trans (congrArg (· ++ _) hrisen.reported))
  · simp only [Event.pool, Ne.symm hp, if_false, List.append_nil] at hes
    exact h.elsewhere (fun e => by simp [hgone, hp]) rfl hsize hes rfl id

theorem Path.stature (h : w.Path bs' v) (hw : w.Stature p (es ++ w.log.toList) bs) :
    v.Stature p (es ++ v.log.toList) (bs ++ bs') := by
  induction h with
  | refl =>
    rw [List.append_nil]
    exact hw
  | leg _ live start ran ih =>
    rw [← List.append_assoc]
    exact ih.leg live start ran
  | reset _ live ih =>
    rw [← List.append_assoc]
    exact ih.reset live
  | locked _ live contents ih => exact ih.locked live contents
  | opened start _ valid ih => exact ih.opened start valid
  | closed _ live ih => exact ih.closed live
  | @aside v v' bs' _ telemetry log pools ih =>
    have hlive : ∀ d, v'.Live p d ↔ v.Live p d := fun d => by rw [Live, Live, pools]
    exact ih.elsewhere hlive telemetry (by rw [pools]) (by rw [log]) rfl id

theorem Path.telemetry_eq (h : w.Path bs v) : v.telemetry = w.telemetry := by
  induction h with
  | refl => rfl
  | leg _ _ start ran ih => exact ran.telemetry_eq.trans ((congrArg (·.telemetry) start).trans ih)
  | reset _ _ ih => exact ih
  | locked _ _ _ ih => exact ih
  | opened _ _ _ ih => exact ih
  | closed _ _ ih => exact ih
  | aside _ telemetry _ _ ih => exact telemetry.trans ih

section Runs

theorem events_of_step (w : World) (op : Op) :
    Ensures (w.step op) fun o => o.1.events = o.2.log := by
  rw [step_eq]
  exact .bind (.trivial _) fun _ _ => .ok rfl

theorem Sound.run_stature (h : w.Sound none none) (hp : w.Stature p es bs) (ops : List Op) :
    Ensures (w.run ops) fun o => o.2.telemetry = w.telemetry ∧
      o.2.Stature p (es ++ StepReport.logged o.1) (bs ++ w.course ops) := by
  induction ops generalizing w es bs with
  | nil =>
    refine .ok ⟨rfl, ?_⟩
    rw [course, StepReport.logged, List.flatMap_nil, List.append_nil, List.append_nil]
    exact hp
  | cons op ops ih =>
    rintro ⟨reports, x⟩ hrun
    obtain ⟨report, v, rest, hstep, hrest, rfl⟩ := exists_run_cons hrun
    obtain ⟨_, _, hstep', hv⟩ := h.step op
    cases hstep.symm.trans hstep'
    have hu : w.unlogged.Stature p (es ++ w.unlogged.log.toList) bs :=
      hp.elsewhere (fun _ => Iff.rfl) rfl rfl (congrArg _ (List.append_nil es)) rfl id
    have hway := h.step_path op _ hstep
    obtain ⟨htel, hlast⟩ := ih hv (hway.stature hu) _ hrest
    refine ⟨htel.trans hway.telemetry_eq, ?_⟩
    have hevents : report.events = v.log := w.events_of_step op _ hstep
    rw [course, hstep, StepReport.logged, List.flatMap_cons, hevents, ← List.append_assoc,
      ← List.append_assoc]
    exact hlast

end Runs

end World

/-- How the ring of a pool stands that was opened with `first` slots, when `es` had been logged and
`bs` had happened. -/
structure Deque.Lawful (d : Deque) (telemetry : Bool) (first : Nat) (es : List Event)
    (bs : List Beat) : Prop where
  least : ∃ n, IsLeast {n | n.isPowerOfTwo ∧ peak d.id bs < n} n ∧ d.capacity = max first n
  doubled : d.capacity = first * 2 ^ d.generation
  reported : milestones d.id es =
    .created d.id d.name first :: growths d.id d.name first d.generation
  resizes : telemetry = true → .reset d.id ∉ bs → d.metrics.resizes = d.generation

namespace World

section Law

variable {w w' : World} {p : PoolId} {d d' : Deque} {es es' : List Event} {bs bs' : List Beat}

theorem Stature.lawful (h : w.Stature p es bs) (hl : w.Live p d) :
    ∃ first, d.Lawful w.telemetry first es bs := by
  obtain ⟨i, first, -, hrisen⟩ := h.of_live hl
  exact ⟨first, ⟨_, isLeast_two_pow_size _, hrisen.enough⟩, hrisen.doubled, hrisen.reported,
    hrisen.resizes⟩

theorem dropped_not_mem_growths (p : PoolId) (name : Option String)
    (first r released retired : Nat) : .dropped p released retired ∉ growths p name first r := by
  simp [growths]

theorem Stature.of_dropped {released retired : Nat} (h : w.Stature p es bs)
    (hmem : .dropped p released retired ∈ es) : ∃ name first, milestones p es =
      .created p name first :: growths p name first retired ++ [.dropped p released retired] := by
  have hmem : Event.dropped p released retired ∈ milestones p es :=
    List.mem_filter.2 ⟨List.mem_filter.2 ⟨hmem, rfl⟩, decide_eq_true rfl⟩
  cases h with
  | unborn _ _ reported =>
    rw [reported] at hmem
    cases hmem
  | alive _ live risen =>
    obtain rfl := live.2
    have hreported : milestones _ es = _ := risen.reported
    rcases List.mem_cons.1 (hreported ▸ hmem) with hmem | hmem
    · cases hmem
    · exact absurd hmem (dropped_not_mem_growths _ _ _ _ _ _)
  | @ended i name first released' retired' _ _ _ reported =>
    rw [reported] at hmem ⊢
    rcases List.mem_append.1 hmem with hmem | hmem
    · rcases List.mem_cons.1 hmem with hmem | hmem
      · cases hmem
      · exact absurd hmem (dropped_not_mem_growths _ _ _ _ _ _)
    · cases List.mem_singleton.1 hmem
      exact ⟨name, first, rfl⟩

theorem Stature.capacity_le (h : w.Stature p es bs) (hl : w.Live p d)
    (h' : w'.Stature p (es ++ es') (bs ++ bs')) (hl' : w'.Live p d') :
    d.capacity ≤ d'.capacity := by
  obtain ⟨_, first, -, hrisen⟩ := h.of_live hl
  obtain ⟨_, first', -, hrisen'⟩ := h'.of_live hl'
  have hid : (w.site d).gauge.id = p := hl.2
  have hid' : (w'.site d').gauge.id = p := hl'.2
  obtain rfl : first = first' := by
    have hreported := hrisen.reported
    have hreported' := hrisen'.reported
    rw [hid] at hreported
    rw [hid', milestones_append, hreported] at hreported'
    exact (Event.created.inj (List.cons.inj hreported').1).2.2
  have hbefore := hrisen.enough
  have hafter := hrisen'.enough
  rw [hid] at hbefore
  rw [hid', peak_append, two_pow_size_max] at hafter
  change (w.site d).gauge.capacity ≤ (w'.site d').gauge.capacity
  omega

/-- Along every session the capacity of a pool is the greater one of what it was opened with and the
least power of two above the greatest length that its window has had right after a unit was stored;
it has doubled as often as its metrics and its log say, each time with one slot left, and when it
ends this is how often it says its ring was replaced. It never shrinks. -/
theorem run_capacity (telemetry hooks : Bool) (ops ops' : List Op) : ∃ reports w reports' w',
    (start telemetry hooks).run ops = .ok (reports, w) ∧ w.run ops' = .ok (reports', w') ∧
      (∀ p d, w.Live p d → ∃ first, d.Lawful telemetry first (StepReport.logged reports)
        ((start telemetry hooks).course ops)) ∧
      (∀ p released retired, .dropped p released retired ∈ StepReport.logged reports →
        ∃ name first, milestones p (StepReport.logged reports) =
          .created p name first :: growths p name first retired ++
            [.dropped p released retired]) ∧
      ∀ p d d', w.Live p d → w'.Live p d' → d.capacity ≤ d'.capacity := by
  obtain ⟨reports, w, hrun, hw⟩ := (sound_start telemetry hooks).run ops
  obtain ⟨reports', w', hrun', -⟩ := hw.run ops'
  have hstart : ∀ p, (start telemetry hooks).Stature p [] [] := fun p =>
    .unborn (fun _ _ => Nat.zero_le _) (fun d hd => by simp [Live, start] at hd) rfl rfl
  have hbefore : ∀ p, w.telemetry = telemetry ∧ w.Stature p _ _ := fun p =>
    (sound_start telemetry hooks).run_stature (hstart p) ops _ hrun
  have hafter : ∀ p, w'.telemetry = w.telemetry ∧ w'.Stature p _ _ := fun p =>
    hw.run_stature (hbefore p).2 ops' _ hrun'
  refine ⟨reports, w, reports', w', hrun, hrun', fun p d hl => ?_,
    fun p released retired hmem => (hbefore p).2.of_dropped hmem,
    fun p d d' hl hl' => (hbefore p).2.capacity_le hl (hafter p).2 hl'⟩
  obtain ⟨htel, hstature⟩ := hbefore p
  obtain ⟨first, hlawful⟩ := hstature.lawful hl
  exact ⟨first, htel ▸ hlawful⟩

/-- A pool that grows and ends, and one of two slots that grows. -/
def growing : List Op :=
  [.new 0 (some 2) none, .new 1 (some 2) none, .pushMany 1 .task 1 5, .popMany 1 4, .drop 1,
   .stealer 2 0, .pushMany 0 .thread 1 2]

/-- Three calls that meet at the lock of the pool, of which the first has to grow the ring. -/
def growingOn : List Op :=
  [.pushNew 0 (.task ⟨6⟩), .createUnit (.task ⟨7⟩), .convoy 0 [.push 0 ⟨8⟩, .steal 2, .steal 2]]

theorem run_capacity_growing : ∃ reports w reports' w' p q d d',
    (start true true).run growing = .ok (reports, w) ∧ w.run growingOn = .ok (reports', w') ∧
      w.Live p d ∧ w'.Live p d' ∧ .reset p ∉ (start true true).course growing ∧
      .dropped q 1 2 ∈ StepReport.logged reports ∧
      d.capacity = 4 ∧ d'.capacity = 8 ∧
      (∃ first, d.Lawful true first (StepReport.logged reports)
        ((start true true).course growing) ∧ d.metrics.resizes = d.generation) ∧
      (∃ name first, milestones q (StepReport.logged reports) =
        .created q name first :: growths q name first 2 ++ [.dropped q 1 2]) ∧
      d.capacity ≤ d'.capacity := by
  obtain ⟨reports, w, reports', w', hrun, hrun', hlaw, hended, hgrows⟩ :=
    run_capacity true true growing growingOn
  have hshown : ((start true true).run growing).toOption.any (fun o =>
      decide (.dropped (.ofIndex 1) 1 2 ∈ StepReport.logged o.1) &&
        (o.2.live? (.ofIndex 0)).any (fun d => d.capacity = 4) &&
        (o.2.run growingOn).toOption.any fun o' =>
          (o'.2.live? (.ofIndex 0)).any fun d => d.capacity = 8) = true := by
    decide +kernel
  have hkept : ((start true true).course growing).all (fun b => !b.isReset) = true := by
    decide +kernel
  rw [hrun] at hshown
  simp only [Except.toOption, Option.any_some, hrun', Bool.and_eq_true, decide_eq_true_eq,
    Option.any_eq_true] at hshown
  obtain ⟨⟨hmem, d, hd, hcap⟩, d', hd', hcap'⟩ := hshown
  have hl := live?_eq_some.1 hd
  have hl' := live?_eq_some.1 hd'
  have hreset : .reset (.ofIndex 0) ∉ (start true true).course growing := fun hmem => by
    have := List.all_eq_true.1 hkept _ hmem
    cases this
  obtain ⟨first, hfirst⟩ := hlaw _ d hl
  exact ⟨reports, w, reports', w', _, _, d, d', hrun, hrun', hl, hl', hreset, hmem, hcap, hcap',
    ⟨first, hfirst, hfirst.resizes rfl (hl.2 ▸ hreset)⟩, hended _ _ _ hmem, hgrows _ d d' hl hl'⟩

end Law

end World

end WorkStealing
