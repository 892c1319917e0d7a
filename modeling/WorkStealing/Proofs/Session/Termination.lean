import WorkStealing.Proofs.Session.LastSlot
import WorkStealing.Proofs.Session.Rounds
import WorkStealing.Proofs.Session.Settling

set_option autoImplicit false

/-!
# How a convoy ends

A line that is let go is served to its end. Calls go back to the line, and removals leave holes for
the steals behind them, but all in all three grants for each call and one for each hole are enough.
-/
namespace WorkStealing

def Passage.isAccepted : Passage → Bool
  | .barred => false
  | .direct _ | .queued _ => true

namespace Convoy

variable {c : Convoy} {s : Site} {π : Pledge} {first : Nat} {x : Waiter}

def accepted (c : Convoy) : Nat := c.passages.countP Passage.isAccepted

theorem accepted_bar (c : Convoy) : c.bar.accepted = c.accepted := Array.countP_push ..

theorem accepted_boarded (c : Convoy) (call : Call) (flight : Flight) :
    (c.boarded call flight).accepted = c.accepted + 1 := by
  cases flight <;> exact Array.countP_push ..

def service (c : Convoy) (s : Site) : List (Nat × Leg) :=
  c.rounds (Call.grantBudget c.line.length s.deque.length) (letGo s)

/-- The turns of a call that waited when the lock was let go, by which time `g` rings had been
replaced. -/
structure Attended (g : Nat) (x : Waiter) (legs : List Leg) : Prop where
  called : ∀ l ∈ legs, l.call = x.call
  landed : ∃ l r, legs.getLast? = some l ∧ l.flight = .landed r
  pop : x.call = .pop → legs.length = 1
  last : ∀ e, x.stage = .lastSlot e → legs.length = 1
  push : ∀ u, x.call = .push u → legs.map Leg.stage = [some (.store u)] ∨
    legs.map Leg.stage = [some (.rebase u)] ∨
    legs.map Leg.stage = [some (.rebase u), some (.store u)]
  remove : ∀ side u, x.call = .remove side u →
    legs.length ≤ 2 ∧ ∀ l ∈ legs.dropLast, l.before.deque.generation ≠ g
  steal : x.call = .steal → ∀ l ∈ legs.dropLast, l.PassesHole

/-- How a convoy ends that is `c` and stands at `s` when the lock is let go. -/
structure Clears (c : Convoy) (s : Site) (c' : Convoy) (s' : Site) : Prop where
  run : c.finish s = .ok (c', s')
  answered : ∀ x ∈ c'.passages, x ≠ .queued none
  line : c'.line = []
  free : s'.deque.Unlocked
  grants_eq : c'.grants = (c.service s).length
  grants_le : c'.grants ≤ 3 * c.accepted + s.deque.holes
  generation_le : s'.deque.generation ≤ s.deque.generation + 1
  seated : ∀ round ∈ c.service s, ∃ x ∈ c.line, x.seat = round.1
  attended : ∀ x ∈ c.line, Attended s.deque.generation x (turnsOf x.seat (c.service s))

theorem Sound.attended (h : c.Sound s π first) (hnow : s.deque.foreign.nowServing = first)
    (hspots : ∀ x ∈ c.line, s.deque.Spots x.stage) (hx : x ∈ c.line) {budget : Nat}
    (hbudget : load s π c.line ≤ budget) :
    Attended s.deque.generation x (turnsOf x.seat (c.rounds budget s)) := by
  obtain ⟨hspell, hlength⟩ := h.spell hnow hx hbudget
  have ha := h.lined.awaits x hx
  have hsees := hspots x hx
  refine ⟨hspell.called, hspell.landed, fun hcall => ?_, fun e he => ?_, fun u hcall => ?_,
    fun side u hcall => ?_, fun hcall => ?_⟩
  · rw [hcall] at ha hspell
    generalize x.stage = stage at ha hspell
    cases ha with
    | pop => exact hspell.lastSlot
  · rw [he] at hspell
    exact hspell.lastSlot
  · rw [hcall] at ha hspell
    generalize x.stage = stage at ha hspell
    cases ha with
    | rebase => exact .inr hspell.rebase
    | store => exact .inl hspell.store
  · rw [hcall] at ha hspell
    generalize x.stage = stage at ha hspell hlength hsees
    cases ha with
    | removeLast =>
      obtain ⟨l, hl⟩ := List.length_eq_one_iff.1 hspell.lastSlot
      rw [hl]
      exact ⟨Nat.le_succ 1, by simp⟩
    | extract _ _ i g =>
      have htwo := Nat.le_trans (hlength (by simp)) (Site.allowance_le_two hsees π)
      obtain ⟨rfl, -⟩ := hsees
      exact ⟨htwo, hspell.extract htwo⟩
  · rw [hcall] at ha hspell
    generalize x.stage = stage at ha hspell
    cases ha with
    | steal => exact hspell.steal

theorem Sound.clears (h : c.Sound s π first) (hnow : s.deque.foreign.nowServing + 1 = first)
    (hspots : ∀ x ∈ c.line, s.deque.Spots x.stage) (hgrants : c.grants = 0)
    (haccepted : c.line.length ≤ c.accepted) : ∃ c' s', c.Clears s c' s' := by
  -- carried from turn to turn: each ring that is replaced takes up a unit that was pledged
  obtain ⟨c', s', last, hrun, hsound, -, hfree, hline, hgen⟩ := h.finish
    (P := fun _ s' π' => s'.deque.generation + π'.pending.length ≤
      s.deque.generation + π.pending.length)
    (fun {c s π first x line budget flight s' π'} hc hline hrun hcomes hp => by
      have hx : x ∈ c.line := hline ▸ List.mem_cons_self
      have ha := hc.lined.awaits x hx
      have hπ := hc.lined.pledge x hx
      have hnow := Call.nowServing_of_turn hrun
      exact Nat.le_trans (hcomes.generation_le ha hπ
        (hc.lined.stands.turn_spends ha hπ hnow x.ahead _ hrun)) hp)
    hnow (Nat.le_refl _)
  have hpending := π.length_pending_le
  have hrounds := h.released.length_rounds_le hnow
    (Call.grantBudget c.line.length s.deque.length)
  have hcost := cost_le (s := s.released) hspots π
  have hgranted := grants_serve hrun
  rw [hgrants, Nat.zero_add] at hgranted
  refine ⟨c', s',
    { run := hrun
      answered := ?_
      line := hline
      free := hfree
      grants_eq := hgranted
      grants_le := ?_
      generation_le := ?_
      seated := fun round hround => exists_seat_of_mem_rounds hround
      attended := fun x hx =>
        h.released.attended hnow hspots hx (load_le_budget s.released π c.line) }⟩
  · rintro x hx rfl
    obtain ⟨i, hi⟩ := Array.mem_iff_getElem?.1 hx
    obtain ⟨y, hy, -⟩ := (hsound.waiting i).1 hi
    rw [hline] at hy
    cases hy
  · calc c'.grants = (c.service s).length := hgranted
      _ ≤ cost s.released π c.line := hrounds
      _ ≤ 3 * c.line.length + s.deque.holes := hcost
      _ ≤ 3 * c.accepted + s.deque.holes := by omega
  · change s'.deque.generation + 0 ≤ _ at hgen
    omega

end Convoy

namespace World

variable {w : World} {p : PoolId} {d : Deque} {calls : List BoardingCall}

/-- While the calls of a convoy start nobody is granted the lock. -/
structure Gathers (e : Deque) (c : Convoy) : Prop where
  lookout : Lookout e.Spots c.line
  grants : c.grants = 0
  waiting : c.line.length ≤ c.accepted

theorem keeps_gathers (w₀ : World) (p : PoolId) (calls : List BoardingCall)
    (hready : ∀ bc ∈ calls, w₀.Ready bc) :
    w₀.Keeps p calls fun _ e c _ => Gathers e c where
  bar {w d c π bc} _ _ _ hp := ⟨hp.lookout, hp.grants, hp.waiting.trans_eq c.accepted_bar.symm⟩
  own {w d c π bc call flight s π'} h hbc hr hblocks hrun hcomes hp := by
    have hlookout := (keeps_lookout w₀ p calls hready).own h hbc hr hblocks hrun hcomes hp.lookout
    have hwaiting := hp.waiting
    refine ⟨hlookout, ?_, ?_⟩
    · cases flight <;> exact hp.grants
    · rw [c.accepted_boarded]
      cases flight with
      | landed r => exact Nat.le_succ_of_le hwaiting
      | waiting ticket ahead stage =>
        change (c.line ++ [_]).length ≤ _
        rw [List.length_append, List.length_singleton]
        omega
  beside {w d c π bc q call r s} _ _ _ _ _ hp :=
    ⟨hp.lookout, hp.grants, (Nat.le_succ_of_le hp.waiting).trans_eq
      (c.accepted_boarded call (.landed r)).symm⟩

theorem Sound.convoy_clears (h : w.Sound none none) (hl : w.Live p d)
    (hready : ∀ bc ∈ calls, w.Ready bc) :
    ∃ c v e c' s results w', w.gather p calls = .ok (c, v) ∧ v.Live p e ∧
      c.Clears (v.site e) c' s ∧ w.convoy p calls = .ok (results, w') ∧ w'.Live p s.deque ∧
      results.length = calls.length := by
  have hstart : Gathers (w.boundless.site d).held.deque .empty :=
    ⟨⟨by simp [Convoy.empty], .nil⟩, rfl, Nat.zero_le _⟩
  obtain ⟨v, e, c', s, results, hconvoyed⟩ := h.exists_convoyed hl hready
  obtain ⟨d', c, π, hl', hgather, hb, hfinish⟩ := hconvoyed.boarded
  cases hl.1.symm.trans hl'.1
  obtain ⟨c₁, v₁, e₁, π₁, hgather', hb', -, hp⟩ := (h.boundless.boarding hl).boardAll
    (keeps_gathers w.boundless p calls hready) hstart rfl hready
  cases hgather.symm.trans hgather'
  cases hb.live.1.symm.trans hb'.live.1
  obtain ⟨c'', s'', hclears⟩ := hb.convoy.clears rfl hp.lookout.sights hp.grants hp.waiting
  cases hfinish.symm.trans hclears.run
  refine ⟨c, v, e, c', s, results, _, (h.gather_eq hl calls).trans hgather, hb.live, hclears,
    hconvoyed.run, ?_, ?_⟩
  · exact (live_put hb.live (hconvoyed.frame.id.trans hb.live.2)).2 (.inl ⟨rfl, rfl⟩)
  · rw [← hconvoyed.results.length_eq, Array.length_toList, hconvoyed.size]

/-- In every state that a session can reach, every convoy on a pool comes to its end: when the lock
is let go the line is served until every call is answered and the lock is free, with at most three
grants for each call that was started and one for each hole of the window. A call that runs alone
ends, too, with two grants, or for a steal one more than there are holes. -/
theorem run_termination (telemetry hooks : Bool) (ops : List Op) : ∃ reports w,
    (start telemetry hooks).run ops = .ok (reports, w) ∧ ∀ p d, w.Live p d →
      (∀ calls, (∀ bc ∈ calls, w.Ready bc) → ∃ c v e c' s results w',
        w.gather p calls = .ok (c, v) ∧ v.Live p e ∧ c.Clears (v.site e) c' s ∧
        w.convoy p calls = .ok (results, w') ∧ w'.Live p s.deque ∧
        results.length = calls.length) ∧
      ∀ call : Call, call.Admissible w.units → ∃ r, (∃ s, call.perform (w.site d) = .ok (r, s)) ∧
        ∀ grants, call.grantsAlone d ≤ grants → ∃ s,
          (do let (stage, s) ← call.launch (w.site d); call.fly grants stage s) =
            .ok (.landed r, s) := by
  obtain ⟨reports, w, hrun, hw⟩ := (sound_start telemetry hooks).run ops
  refine ⟨reports, w, hrun, fun p d hl => ⟨fun calls hready => hw.convoy_clears hl hready,
    fun call hc => ?_⟩⟩
  obtain ⟨hs, hu⟩ := hw.site p d hl (by simp)
  obtain ⟨s, hperform, -⟩ := Site.perform_scene hs hu hc
  refine ⟨_, ⟨s, hperform⟩, fun grants hgrants => ?_⟩
  obtain ⟨s', hlands, -⟩ := Site.opening_lands hs hu hc hgrants
  exact ⟨s', (call.launch_fly grants (w.site d)).trans hlands⟩

/-- A full pool with a hole in the middle, and a unit that is in no pool. -/
def pitted : List Op :=
  [.new 0 (some 4) none, .stealer 1 0, .pushMany 0 .task 1 3, .remove 1 ⟨1⟩,
   .createUnit (.task ⟨9⟩)]

/-- A removal that leaves a hole, a push that grows the ring, a removal that has to look again, and
two thieves. -/
def rush : List BoardingCall :=
  [.remove 1 ⟨2⟩, .push 0 ⟨3⟩, .remove 1 ⟨0⟩, .steal 1, .steal 1]

/-- The five calls are granted the lock eight times: the second removal twice, and the second thief,
who passes the hole that was there and the new one, three times. A thief alone needs two grants. -/
theorem run_termination_rush : ∃ reports w d, (start true true).run pitted = .ok (reports, w) ∧
    w.Live (.ofIndex 0) d ∧ (∀ bc ∈ rush, w.Ready bc) ∧
    (∃ c v e c' s results w', w.gather (.ofIndex 0) rush = .ok (c, v) ∧
      v.Live (.ofIndex 0) e ∧ c.Clears (v.site e) c' s ∧
      w.convoy (.ofIndex 0) rush = .ok (results, w') ∧ w'.Live (.ofIndex 0) s.deque ∧
      c.accepted = 5 ∧ e.holes = 1 ∧ c'.grants = 8 ∧
      (Convoy.turnsOf 2 (c.service (v.site e))).length = 2 ∧
      (Convoy.turnsOf 4 (c.service (v.site e))).length = 3) ∧
    Call.steal.grantsAlone d = 2 ∧ ∃ r s,
      (do let (stage, s) ← Call.steal.launch (w.site d); Call.steal.fly 2 stage s) =
        .ok (.landed r, s) := by
  obtain ⟨reports, w, hrun, hends⟩ := run_termination true true pitted
  have hshown : ((start true true).run pitted).toOption.any (fun o =>
      rush.all o.2.knows &&
      ((o.2.live? (.ofIndex 0)).any fun d => decide (Call.steal.grantsAlone d = 2)) &&
      (o.2.gather (.ofIndex 0) rush).toOption.any fun g => decide (g.1.accepted = 5) &&
        (g.2.live? (.ofIndex 0)).any fun e => decide (e.holes = 1) &&
          decide ((g.1.service (g.2.site e)).length = 8) &&
          decide ((Convoy.turnsOf 2 (g.1.service (g.2.site e))).length = 2) &&
          decide ((Convoy.turnsOf 4 (g.1.service (g.2.site e))).length = 3)) = true := by
    decide +kernel
  rw [hrun] at hshown
  simp only [Except.toOption, Option.any_some, Bool.and_eq_true] at hshown
  obtain ⟨⟨hknows, halone⟩, hgathers⟩ := hshown
  obtain ⟨d, hd, halone⟩ := (Option.any_eq_true ..).1 halone
  have hl := live?_eq_some.1 hd
  have hready : ∀ bc ∈ rush, w.Ready bc := fun bc hbc =>
    ready_of_knows (List.all_eq_true.1 hknows bc hbc)
  obtain ⟨hconvoys, hcalls⟩ := hends _ d hl
  obtain ⟨c, v, e, c', s, results, w', hgather, hl', hclears, hconvoy, hafter, -⟩ :=
    hconvoys rush hready
  simp only [hgather, Option.any_some, live?_eq_some.2 hl', Bool.and_eq_true,
    decide_eq_true_eq] at hgathers
  obtain ⟨haccepted, ⟨⟨hholes, hgrants⟩, hremoval⟩, hthief⟩ := hgathers
  obtain ⟨r, -, halone'⟩ := hcalls .steal fun _ h => by cases h
  have halone := of_decide_eq_true halone
  obtain ⟨s', hlands⟩ := halone' 2 (Nat.le_of_eq halone)
  exact ⟨reports, w, d, hrun, hl, hready, ⟨c, v, e, c', s, results, w', hgather, hl', hclears,
    hconvoy, hafter, haccepted, hholes, hclears.grants_eq.trans hgrants, hremoval, hthief⟩, halone,
    r, s', hlands⟩

end World

end WorkStealing
