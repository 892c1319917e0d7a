import WorkStealing.Proofs.Session.Settling

set_option autoImplicit false

/-!
# Counters inside the machine word

No run of a session leaves the machine word, a ring or the order of the counters. Along its course
the head never passes the tail, the tail stays a word, and every index has a slot; a call whose turn
comes finds the counters such that its arithmetic stays inside, and an index that a removal has
brought along, however old, is no last word.
-/
namespace WorkStealing

/-- The ring is a power of two with a slot for every index, and the counters are in order. -/
structure Deque.InRange (d : Deque) : Prop where
  power : ∃ k, 0 < k ∧ d.ring.capacity = 2 ^ k
  mask : d.ring.mask + 1 = d.ring.capacity
  slot : ∀ index, d.ring.position index < d.ring.slots.size
  head_le_tail : d.head ≤ d.tail
  tail_le : d.tail ≤ Word.max
  length_le : d.tail - d.head ≤ d.ring.mask

namespace LockedStage

def Aims : LockedStage → Prop
  | .extract _ _ index _ => index < Word.max
  | .steal | .lastSlot _ | .store _ | .rebase _ => True

/-- What the arithmetic of a locked stage needs of the pool: a rebase keeps the order of the
counters, a place finds them in order with room behind the tail, the last slot can be given back,
and the head or the index that is passed has a successor. -/
def InRange (d : Deque) : LockedStage → Prop
  | .rebase _ => d.ring.position d.head ≤ d.ring.position d.tail
  | .store _ => d.head ≤ d.tail ∧ d.tail < Word.max
  | .lastSlot _ => d.tail < Word.max
  | .steal => d.head < d.tail → d.head < Word.max
  | .extract _ _ index _ => index < Word.max

end LockedStage

namespace Site

variable {s s' : Site} {π : Pledge} {call : Call} {stage : LockedStage}

theorem Stands.tail_le (h : s.Stands π) : s.deque.tail ≤ Word.max := by
  have hle := h.sound.deque.tail_le
  cases π with
  | none | unit => exact hle
  | slot => exact Nat.le_of_lt hle

theorem Stands.inRange (h : s.Stands π) : s.deque.InRange where
  power := h.ring.power
  mask := h.ring.mask_add_one
  slot := h.ring.position_lt
  head_le_tail := by
    cases π with
    | none | unit => exact h.sound.deque.head_le_tail
    | slot => exact Nat.le_of_eq (h.lowered rfl)
  tail_le := h.tail_le
  length_le := by
    have hmask := h.ring.mask_add_one
    by_cases hlt : s.deque.head < s.deque.tail
    · have := (h.sound_of_lt hlt).deque.lt_round
      omega
    · omega

theorem Stands.lt_max (h : s.Stands π) {i : Nat} {u : UnitId}
    (hi : i < s.deque.head + s.deque.ring.capacity) (hc : s.deque.ring.cell i = some u) :
    i < Word.max := by
  have hd := h.sound.deque
  have hhead : (s.whole π).deque.head = s.deque.head := by
    cases π <;> rfl
  have hblank := hd.blank i
  rw [ring_whole, hhead, hc] at hblank
  have htail : i < (s.whole π).deque.tail := Nat.lt_of_not_le fun hle => nomatch hblank hle hi
  exact Nat.lt_of_lt_of_le htail hd.tail_le

theorem Awaits.ne_rebase {side : Side} {u : UnitId} {i g : Nat} (h : s.Awaits call stage)
    (h' : s'.Awaits call (.extract side u i g)) (v : UnitId) : stage ≠ .rebase v := by
  rintro rfl
  cases h
  cases h'

theorem Awaits.inRange (h : s.Stands π) (ha : s.Awaits call stage)
    (hπ : call.isOwner = true → π = stage.pledge) (haims : stage.Aims) :
    stage.InRange s.deque := by
  cases ha with
  | rebase u ht =>
    obtain rfl := hπ rfl
    have hd : s.deque.Sound := h.sound.deque
    change s.deque.ring.position s.deque.head ≤ s.deque.ring.position s.deque.tail
    rw [hd.ring.position_eq, hd.ring.position_eq]
    exact (hd.rebased ht).1
  | store u ht => exact ⟨h.inRange.head_le_tail, ht⟩
  | pop =>
    obtain rfl := hπ rfl
    exact h.sound.deque.tail_le
  | removeLast u =>
    obtain rfl := hπ rfl
    exact h.sound.deque.tail_le
  | steal => exact fun hlt => Nat.lt_of_lt_of_le hlt h.tail_le
  | extract => exact haims

end Site

namespace Convoy

variable {c : Convoy} {s s' : Site} {π π' : Pledge} {first : Nat} {x : Waiter} {line : List Waiter}
  {call : Call} {flight : Flight}

/-- A call that joins the line has seen its unit before the tail. -/
theorem Lined.aims_board (h : Lined s π c.line) (haims : ∀ x ∈ c.line, x.stage.Aims)
    (harrives : s.Arrives call flight s') : ∀ x ∈ (c.boarded call flight).line, x.stage.Aims := by
  cases harrives with
  | landed => exact haims
  | @waits ticket ahead stage s' head ring tail shown seen =>
    refine List.forall_mem_append.2 ⟨haims, List.forall_mem_singleton.2 ?_⟩
    cases stage with
    | extract side u i g =>
      obtain ⟨-, -, hi, -⟩ := seen side u i g rfl
      exact Nat.lt_of_lt_of_le hi h.stands.tail_le
    | steal | lastSlot | store | rebase => trivial

theorem Sound.aims_turn (h : c.Sound s π first) (hline : c.line = x :: line)
    (hnow : s.deque.foreign.nowServing = first) (haims : ∀ x ∈ c.line, x.stage.Aims)
    (hrun : x.call.turn x.ticket x.ahead x.stage s = .ok (flight, s')) {budget : Nat}
    (hcomes : s.Comes π x.call (some x.stage) budget flight s' π') :
    ∀ y ∈ (c.served x line flight).line, y.stage.Aims := by
  have hx : x ∈ c.line := hline ▸ List.mem_cons_self
  have hrest : ∀ y ∈ line, y.stage.Aims := fun y hy =>
    haims y (hline ▸ List.mem_cons_of_mem x hy)
  cases flight with
  | landed r => exact hrest
  | waiting ticket ahead stage =>
    refine List.forall_mem_append.2 ⟨hrest, List.forall_mem_singleton.2 ?_⟩
    cases hcomes.fate with
    | waiting _ hawaits hs =>
      cases stage with
      | steal | lastSlot | store | rebase => trivial
      | extract side u i g =>
        have hstage : ∀ v, x.stage ≠ .rebase v := fun v hv =>
          (h.lined.awaits x hx).ne_rebase hawaits v hv
        obtain ⟨-, hspots⟩ := h.lined.stands.turn_wends (h.lined.awaits x hx)
          (h.lined.pledge x hx) hstage (hnow.trans (h.ticket_eq hline).symm) x.ahead _ hrun
        obtain ⟨-, -, hi⟩ := hspots ticket ahead (.extract side u i g) rfl
        exact hcomes.steps.stands.lt_max hi (hs side u i g rfl).2

theorem Sound.turns_inRange (h : c.Sound s π first) (hnow : s.deque.foreign.nowServing = first)
    (haims : ∀ x ∈ c.line, x.stage.Aims) (budget : Nat) :
    ∀ l, .leg l ∈ c.turns budget s → ∀ stage, l.stage = some stage →
      stage.InRange l.before.deque := by
  induction budget generalizing c s π first with
  | zero => simp [turns]
  | succ budget ih =>
    intro l hl
    cases hline : c.line with
    | nil =>
      rw [turns, hline] at hl
      cases hl
    | cons x line =>
      have hx : x ∈ c.line := hline ▸ List.mem_cons_self
      obtain ⟨_, flight, s', π', hrun, hcomes, hsound, hnow', -⟩ := h.turn hnow hline
      rw [turns_cons hline hrun] at hl
      rcases List.mem_cons.1 hl with hl | hl
      · cases hl
        rintro stage ⟨⟩
        exact (h.lined.awaits x hx).inRange h.lined.stands (h.lined.pledge x hx) (haims x hx)
      · exact ih hsound hnow' (h.aims_turn hline hnow haims hrun hcomes) l hl

end Convoy

/-- A stretch of a call stays inside the word and the ring. -/
structure Leg.InRange (l : Leg) : Prop where
  before : l.before.deque.InRange
  after : l.after.deque.InRange
  stage : ∀ stage, l.stage = some stage → stage.InRange l.before.deque

theorem Leg.Ran.inRange {l : Leg} (h : l.Ran) :
    l.before.deque.InRange ∧ l.after.deque.InRange := by
  cases h with
  | alone sound free admissible run =>
    obtain ⟨s', hrun, hb⟩ := Site.perform_scene sound free admissible
    cases hrun.symm.trans run
    exact ⟨(Site.Stands.of_sound sound).inRange, (Site.Stands.of_sound hb.sound).inRange⟩
  | boards stands held admissible idle run comes =>
    exact ⟨stands.inRange, comes.steps.stands.inRange⟩
  | turns sound front served run comes =>
    exact ⟨sound.lined.stands.inRange, comes.steps.stands.inRange⟩

namespace World

variable {w : World} {p : PoolId} {d : Deque} {calls : List BoardingCall}

theorem keeps_aims (w₀ : World) (p : PoolId) (calls : List BoardingCall)
    (hready : ∀ bc ∈ calls, w₀.Ready bc) :
    w₀.Keeps p calls fun _ _ c _ => ∀ x ∈ c.line, x.stage.Aims where
  bar _ _ _ hp := hp
  own {w d c π bc call flight s π'} h hbc hr hblocks hrun hcomes hp := by
    have hc := h.admissible (hready bc (List.mem_of_getElem? hbc))
      ((resolve_congr h.handles bc).trans hr)
    exact h.convoy.lined.aims_board hp (h.convoy.arrives hc hblocks _ hrun)
  beside _ _ _ _ _ hp := hp

theorem Sound.convoyBeats_inRange (h : w.Sound none none) (hl : w.Live p d)
    (hready : ∀ bc ∈ calls, w.Ready bc) {l : Leg} (hmem : .leg l ∈ w.convoyBeats p calls)
    {stage : LockedStage} (hstage : l.stage = some stage) : stage.InRange l.before.deque := by
  obtain ⟨c, v, e, π, hrun, hb, -, haims⟩ := (h.boundless.boarding hl).boardAll
    (keeps_aims w.boundless p calls hready) (by simp [Convoy.empty]) rfl hready
  rw [convoyBeats, h.boundless.visit_hold hl] at hmem
  simp only [thence, List.mem_append] at hmem
  rcases hmem with hmem | hmem
  · rw [fresh_boardAllBeats _ _ _ _ l hmem] at hstage
    cases hstage
  · change boardAll p .empty (w.boundless.put (w.boundless.site d).held) calls = .ok (c, v) at hrun
    simp only [hrun, serveBeats, hb.live.pool?_eq] at hmem
    exact hb.convoy.released.turns_inRange rfl haims _ l hmem stage hstage

theorem Sound.beats_inRange (h : w.Sound none none) (op : Op) {l : Leg}
    (hmem : .leg l ∈ w.beats op) : l.InRange := by
  obtain ⟨a, w', hrun, -⟩ := h.act op
  obtain ⟨hbefore, hafter⟩ := ((h.leads_act op _ hrun).ran hmem).inRange
  refine ⟨hbefore, hafter, fun stage hstage => ?_⟩
  by_cases hop : ∃ n calls, op = .convoy n calls
  · obtain ⟨n, calls, rfl⟩ := hop
    rw [beats] at hmem
    cases ho : w.owned? n with
    | none =>
      rw [ho] at hmem
      cases hmem
    | some p =>
      obtain ⟨d, hl⟩ := h.live_of_handle? (handle?_of_owned? ho)
      rw [ho] at hmem
      dsimp only [Option.elim] at hmem
      split at hmem
      · rename_i hknows
        exact h.convoyBeats_inRange hl (fun bc hbc =>
          ready_of_knows (List.all_eq_true.1 hknows bc hbc)) hmem hstage
      · cases hmem
  · rw [fresh_beats w (fun n calls hc => hop ⟨n, calls, hc⟩) l hmem] at hstage
    cases hstage

theorem Sound.course_inRange (h : w.Sound none none) (ops : List Op) {l : Leg}
    (hmem : .leg l ∈ w.course ops) : l.InRange := by
  induction ops generalizing w with
  | nil => cases hmem
  | cons op ops ih =>
    have hu : w.unlogged.Sound none none := h.congr rfl rfl h.counted fun _ => rfl
    obtain ⟨report, w', hstep, hw'⟩ := h.step op
    rw [course, hstep] at hmem
    rcases List.mem_append.1 hmem with hmem | hmem
    · split at hmem
      · cases hmem
      · exact hu.beats_inRange op hmem
    · exact ih hw' hmem

/-- Whatever capacities and starting points its pools have, a session runs to its end without a
fault: no counter leaves the word, no difference falls below zero, no assertion fails, every ring is
a power of two and no access misses its ring. The pools are in range before and after each stretch
of a call and between the steps, and so is the arithmetic of each call that has waited. -/
theorem run_inRange (telemetry hooks : Bool) (ops : List Op) : ∃ reports w,
    (start telemetry hooks).run ops = .ok (reports, w) ∧
      (∀ l, .leg l ∈ (start telemetry hooks).course ops → l.InRange) ∧
      ∀ p d, w.Live p d → d.InRange := by
  obtain ⟨reports, w, hrun, hw⟩ := (sound_start telemetry hooks).run ops
  exact ⟨reports, w, hrun, fun l hl => (sound_start telemetry hooks).course_inRange ops hl,
    fun p d hl => (Site.Stands.of_sound (hw.site p d hl (by simp)).1).inRange⟩

/-- Whether this is the turn of a removal whose index is past a pool of that tail. -/
def outrun (index tail : Nat) : Beat → Bool
  | .leg l => decide (l.stage = some (.extract .foreign ⟨0⟩ index 0)) &&
      decide (l.before.deque.tail = tail)
  | .reset _ => false

/-- By the turn of the removal the counters have been brought back, and its index is past them. -/
theorem run_inRange_renumbering : ∃ reports w l,
    (start true true).run renumbering = .ok (reports, w) ∧
      .leg l ∈ (start true true).course renumbering ∧
      l.stage = some (.extract .foreign ⟨0⟩ 18446744073709551613 0) ∧ l.before.deque.tail = 4 ∧
      l.InRange := by
  obtain ⟨reports, w, hrun, hrange, -⟩ := run_inRange true true renumbering
  have hshown : ((start true true).course renumbering).any (outrun 18446744073709551613 4) =
      true := by
    decide +kernel
  obtain ⟨b, hb, houtrun⟩ := List.any_eq_true.1 hshown
  cases b with
  | reset p => cases houtrun
  | leg l =>
    simp only [outrun, Bool.and_eq_true, decide_eq_true_eq] at houtrun
    exact ⟨reports, w, l, hrun, hb, houtrun.1, houtrun.2, hrange l hb⟩

end World

end WorkStealing
