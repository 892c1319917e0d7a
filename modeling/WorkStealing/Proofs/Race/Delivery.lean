import Mathlib.Algebra.BigOperators.Intervals
import WorkStealing.Proofs.Race.Invariant
import WorkStealing.Proofs.Session.Handles

set_option autoImplicit false

/-!
# Exactly-once delivery

Under every schedule a race runs without a fault. When all its threads are done, and as long as
every growth found its ring, each unit was handed out once and nothing is left.
-/
namespace WorkStealing

namespace Race

variable {plan : RacePlan}

structure Order (plan : RacePlan) (telemetry : Bool) (r : Race) (g : RaceGhost)
    (owner : RaceThread) (thieves : List RaceThread) : Prop where
  site : r.site = g.site.lends g.lent
  threads : r.threads = owner :: thieves
  holds : plan.Holds g owner
  steals : ∀ th ∈ thieves, th.Steals
  telemetry : g.site.telemetry = telemetry
  line : g.site.deque.foreign.nextTicket =
    g.site.deque.foreign.nowServing + r.threads.countP (·.isQueued)
  account : g.site.AlwaysGrew → g.Account r.received owner.carried

def Orderly (plan : RacePlan) (telemetry : Bool) (r : Race) : Prop :=
  ∃ g owner thieves, r.Order plan telemetry g owner thieves

section Steps

variable {telemetry : Bool} {r : Race} {g : RaceGhost} {owner : RaceThread}
  {thieves : List RaceThread}

theorem countP_set {l : List RaceThread} {t : Nat} {th : RaceThread} (h : l[t]? = some th)
    (th' : RaceThread) :
    (l.set t th').countP (·.isQueued) + th.isQueued.toNat =
      l.countP (·.isQueued) + th'.isQueued.toNat := by
  obtain ⟨ht, rfl⟩ := List.getElem?_eq_some_iff.1 h
  have hpos : l[t].isQueued = true → 0 < l.countP (·.isQueued) := fun hq =>
    List.countP_pos_iff.2 ⟨l[t], List.getElem_mem ht, hq⟩
  rw [List.countP_set ht]
  cases hq : l[t].isQueued with
  | false => cases th'.isQueued <;> rfl
  | true =>
    have := hpos hq
    cases th'.isQueued <;> simp <;> omega

/-- Tickets are drawn and served as threads enter and leave the line. -/
theorem line_set {s s' : Site} {l : List RaceThread} {t : Nat} {th th' : RaceThread}
    (h : s.deque.foreign.nextTicket =
      s.deque.foreign.nowServing + l.countP (·.isQueued)) (hth : l[t]? = some th)
    (hl : s.Lines th.isQueued s' th'.isQueued) :
    s'.deque.foreign.nextTicket =
      s'.deque.foreign.nowServing + (l.set t th').countP (·.isQueued) := by
  have hset := countP_set hth th'
  rw [Site.Lines] at hl
  omega

theorem Order.owner_step (h : r.Order plan telemetry g owner thieves) :
    ∃ r', r.step plan 0 = .ok r' ∧ r'.Orderly plan telemetry := by
  have hth : r.threads[0]? = some owner := by rw [h.threads]; rfl
  obtain ⟨th', g', got, hturn, hholds, hleads⟩ := RacePlan.owner_turn h.holds r.ownerDone
  refine ⟨⟨g'.site.lends g'.lent, r.threads.set 0 th', got ++ r.received⟩, ?_, g', th', thieves,
    rfl, ?_, hholds, h.steals,
    hleads.telemetry.trans h.telemetry, line_set h.line hth hleads.lines,
    fun hs => hleads.account hs _ (h.account (hleads.grew hs))⟩
  · rw [plan.step_eq hth, h.site, hturn]
    rfl
  · change r.threads.set 0 th' = _
    rw [h.threads]
    rfl

theorem Order.thief_step (h : r.Order plan telemetry g owner thieves) {k : Nat}
    {th : RaceThread} (hth : r.threads[k + 1]? = some th) :
    ∃ r', r.step plan (k + 1) = .ok r' ∧ r'.Orderly plan telemetry := by
  have hmem : th ∈ thieves := by
    rw [h.threads] at hth
    exact List.mem_of_getElem? hth
  obtain ⟨th', s', got, hturn, hsteals, hrobs⟩ :=
    RacePlan.thief_turn plan h.holds.stands (h.steals th hmem) r.ownerDone g.lent
  refine ⟨⟨s'.lends g.lent, r.threads.set (k + 1) th', got ++ r.received⟩, ?_,
    { g with site := s' }, owner, thieves.set k th', rfl, ?_, ⟨?_, ?_, ?_⟩, ?_,
    hrobs.steps.frame.telemetry.trans h.telemetry, line_set h.line hth hrobs.lines, fun hs => ?_⟩
  · rw [plan.step_eq hth, h.site, hturn]
    rfl
  · change r.threads.set (k + 1) th' = _
    rw [h.threads]
    rfl
  · exact hrobs.steps.stands
  · exact h.holds.hosts.frame hrobs.steps.frame
  · exact h.holds.owner.passes (hrobs.steps.passes rfl) hrobs.empty
  · intro x hx
    obtain hx | rfl := List.mem_or_eq_of_mem_set hx
    · exact h.steals x hx
    · exact hsteals
  · exact (h.account (hrobs.grew hs)).trades hrobs.trades rfl (List.append_nil _)

/-- Whoever moves, the race goes on without a fault and stays in order. -/
theorem Orderly.step (h : r.Orderly plan telemetry) (t : Nat) :
    ∃ r', r.step plan t = .ok r' ∧ r'.Orderly plan telemetry := by
  obtain ⟨g, owner, thieves, h⟩ := h
  cases hth : r.threads[t]? with
  | none =>
    refine ⟨r, ?_, g, owner, thieves, h⟩
    rw [Race.step, hth]
    rfl
  | some th =>
    cases t with
    | zero => exact h.owner_step
    | succ k => exact h.thief_step hth

theorem Orderly.follow (h : r.Orderly plan telemetry) (schedule : List Nat) :
    ∃ r', r.follow plan schedule = .ok r' ∧ r'.Orderly plan telemetry := by
  induction schedule generalizing r with
  | nil => exact ⟨r, rfl, h⟩
  | cons t schedule ih =>
    obtain ⟨r', hstep, h'⟩ := h.step t
    obtain ⟨r'', hfollow, h''⟩ := ih h'
    refine ⟨r'', ?_, h''⟩
    rw [Race.follow, hstep]
    exact hfollow

end Steps

section Start

variable {config : PoolConfig} {start : Nat}

theorem orderly_start (plan : RacePlan) (hc : config.validate = .ok ()) (hs : start ≤ Word.max)
    (id : PoolId) (limit : Option Nat) (telemetry : Bool) (log : Array Event) :
    (Race.start plan ⟨⟨.empty, limit, telemetry, log⟩, .fresh config start id⟩).Orderly plan
      telemetry := by
  have hqueued : (Deque.fresh config start id).queued = [] := by
    rw [Deque.queued_eq, Deque.window_fresh]
    rfl
  have hnone : ∀ u, UnitTable.empty.holder? u = none := fun _ => rfl
  refine ⟨⟨⟨⟨.empty, limit, telemetry, log⟩, .fresh config start id⟩, 0, none, .none⟩,
    ⟨plan.produceFrom 0, .idle⟩, List.replicate plan.thieves ⟨.thieve, .idle⟩, rfl, rfl,
    ⟨.of_sound ⟨Deque.sound_fresh hc hs id, ?_, ?_, ?_⟩, ⟨rfl, ?_, ?_⟩, ?_⟩, ?_, rfl, ?_, ?_⟩
  · rintro u e he
    cases he
  · change ((Deque.fresh config start id).queued ++ []).Nodup
    rw [hqueued]
    exact List.nodup_nil
  · intro u
    change UnitTable.empty.holder? u = _ ↔ u ∈ (Deque.fresh config start id).queued ++ []
    rw [hqueued, hnone]
    simp
  · rintro k ⟨⟩
  · intro u q hq
    rw [hnone] at hq
    cases hq
  · exact .idle (RacePlan.due_produceFrom (Nat.zero_le _))
      fun hretired => absurd hretired (RacePlan.produceFrom_ne_retired 0)
  · intro th hth
    rw [List.eq_of_mem_replicate hth]
    exact .idle
  · change 0 = 0 + (_ :: List.replicate plan.thieves _).countP _
    rw [List.countP_eq_zero.2]
    intro th hth
    obtain rfl | hth := List.mem_cons.1 hth
    · exact Bool.false_ne_true
    · rw [List.eq_of_mem_replicate hth]
      exact Bool.false_ne_true
  · refine fun _ => ⟨?_, fun _ => rfl, fun _ => rfl⟩
    change ([] ++ ((Deque.fresh config start id).queued ++ [])).Perm []
    rw [hqueued]
    exact .refl _

end Start

section Finish

variable {telemetry : Bool} {r : Race} {g : RaceGhost} {owner : RaceThread}
  {thieves : List RaceThread}

theorem distinct_of_nodup {ns : List Nat} (h : ns.Nodup) : distinct ns = ns.length := by
  have hperm := List.mergeSort_perm ns fun m n => m ≤ n
  rw [distinct, dropRepeats_of_nodup (hperm.nodup_iff.2 h), hperm.length_eq]

structure Finished (plan : RacePlan) (telemetry : Bool) (r : Race) : Prop where
  sound : r.site.Sound []
  unlocked : r.site.deque.Unlocked
  empty : r.site.deque.tail ≤ r.site.deque.head
  hosts : r.site.Hosts plan.total.toNat
  received : r.received.Perm ((List.range plan.total.toNat).map UnitId.mk)
  pushes : telemetry = true →
    r.site.deque.metrics.snapshot.pushes = plan.total.toNat
  extracted : telemetry = true →
    r.site.deque.metrics.snapshot.extracted = plan.total.toNat

theorem Steals.idle_of_retired {th : RaceThread} (h : th.Steals) (hd : th.duty = .retired) :
    th.isQueued = false := by
  cases h <;> first | rfl | cases hd

theorem Order.finished (h : r.Order plan telemetry g owner thieves) (hover : r.isOver = true)
    (hgrew : r.site.AlwaysGrew) : r.Finished plan telemetry := by
  have hretired : ∀ th ∈ owner :: thieves, th.duty = .retired := by
    rw [isOver, h.threads, List.all_eq_true] at hover
    exact fun th hth => of_decide_eq_true (hover th hth)
  have howner := hretired owner List.mem_cons_self
  obtain ⟨hs, hh, ho⟩ := h.holds
  have hline := h.line
  have hsite := h.site
  have haccount := h.account
  generalize hlent : g.lent = lent at ho
  generalize hpledge : g.pledge = π at ho
  -- an owner that has retired is between two calls, and has found the pool empty
  cases ho with
  | opening hasks | running hasks | waiting hasks =>
    cases hasks <;> cases howner
  | idle hdue hempty =>
    cases howner
    rw [hlent] at hsite
    rw [hpledge] at hs
    have hmade : g.made = plan.total.toNat := by
      cases hdue with
      | retired hmade => exact hmade
    have hidle : r.threads.countP (·.isQueued) = 0 := by
      rw [h.threads, List.countP_eq_zero]
      intro th hth
      obtain rfl | hth' := List.mem_cons.1 hth
      · exact Bool.false_ne_true
      · rw [Steals.idle_of_retired (h.steals th hth') (hretired th hth)]
        exact Bool.false_ne_true
    have hsame : r.site = g.site := hsite
    have hqueued : g.site.deque.queued = [] := Deque.queued_eq_nil (hempty rfl)
    rw [hsame] at hgrew
    obtain ⟨hunits, hpushes, hextracted⟩ := haccount hgrew
    have hreceived : r.received.Perm ((List.range plan.total.toNat).map UnitId.mk) := by
      have hbacklog : g.site.backlog g.pledge = [] := by
        rw [hpledge]
        exact hqueued
      rw [hbacklog, hmade] at hunits
      simpa [RaceThread.carried] using hunits
    refine ⟨hsame ▸ hs.sound, ?_, ?_, ?_, hreceived, fun htel => ?_, fun htel => ?_⟩
    · rw [hsame, Deque.Unlocked, hline, hidle]
      rfl
    · rw [hsame]
      exact hempty rfl
    · rw [hsame, ← hmade]
      exact hh
    · rw [hsame, ← hmade, ← hpushes (h.telemetry.trans htel)]
      rfl
    · rw [hsame, hextracted (h.telemetry.trans htel), hreceived.length_eq, List.length_map,
        List.length_range]

theorem Finished.rawOf_eq (h : r.Finished plan telemetry) {k : Nat} (hk : k < plan.total.toNat) :
    rawOf r.site.units ⟨k⟩ = k := by
  have hid := h.hosts.identity k hk
  obtain ⟨e, he, hkind⟩ := Option.map_eq_some_iff.1 hid
  have hlt : k < 2 ^ 64 := Nat.lt_trans hk plan.total.toNat_lt
  rw [rawOf, he, Option.map_some, Option.getD_some, (Prod.mk.inj hkind).1]
  exact Nat.mod_eq_of_lt hlt

theorem Finished.sum_eq (h : r.Finished plan telemetry) :
    r.received.foldr (fun u n => rawOf r.site.units u + n) 0 =
      plan.total.toNat * (plan.total.toNat - 1) / 2 := by
  have hfold : ∀ us : List UnitId, us.foldr (fun u n => rawOf r.site.units u + n) 0 =
      (us.map (rawOf r.site.units)).sum := fun us => by
    rw [List.sum_eq_foldr, List.foldr_map]
  have hraws : ((List.range plan.total.toNat).map UnitId.mk).map (rawOf r.site.units) =
      List.range plan.total.toNat := by
    rw [List.map_map]
    exact (List.map_congr_left fun k hk => h.rawOf_eq (List.mem_range.1 hk)).trans (List.map_id _)
  rw [hfold, (h.received.map _).sum_eq, hraws, ← Finset.sum_range_id]
  exact congrArg List.sum (List.map_id _).symm

theorem Finished.distinct_eq (h : r.Finished plan telemetry) :
    distinct (r.received.map (·.number)) = plan.total.toNat := by
  have hperm : (r.received.map (·.number)).Perm (List.range plan.total.toNat) := by
    have hnumbers := h.received.map (·.number)
    rwa [List.map_map, show (fun u : UnitId => u.number) ∘ UnitId.mk = id from rfl,
      List.map_id] at hnumbers
  rw [distinct_of_nodup (hperm.nodup_iff.2 List.nodup_range), hperm.length_eq, List.length_range]

theorem Finished.misses (h : r.Finished plan telemetry) :
    ∃ s' s'', Call.pop.perform r.site = .ok (.missed, s') ∧
      Call.steal.perform s' = .ok (.missed, s'') := by
  have hwindow : r.site.deque.window = [] := Deque.window_eq_nil.2 h.empty
  have hslots : r.site.scene.pool.slots = [] := hwindow
  have hpop : r.site.scene.perform .pop = (.missed, r.site.scene.setSlots []) := by
    rw [Scene.perform, Scene.pop, hslots]
    rfl
  have hadmissible : Call.pop.Admissible r.site.units := by rintro u ⟨⟩
  obtain ⟨s', hrun, hbecomes⟩ := Site.perform_scene h.sound h.unlocked hadmissible
  have hadmissible' : Call.steal.Admissible s'.units := by rintro u ⟨⟩
  obtain ⟨s'', hrun', _⟩ := Site.perform_scene hbecomes.sound hbecomes.unlocked hadmissible'
  rw [hpop] at hrun hbecomes
  have hsteal : (s'.scene.perform .steal).1 = .missed := by
    rw [hbecomes.scene]
    rfl
  rw [hsteal] at hrun'
  exact ⟨s', s'', hrun, hrun'⟩

theorem Finished.result_eq (h : r.Finished plan telemetry) :
    r.result = .ok
      { delivered := plan.total.toNat
        distinct := plan.total.toNat
        sum := plan.total.toNat * (plan.total.toNat - 1) / 2
        length := 0
        pushes := r.site.deque.metrics.snapshot.pushes
        extracted := r.site.deque.metrics.snapshot.extracted
        popMisses := true
        stealMisses := true } := by
  obtain ⟨s', s'', hpop, hsteal⟩ := h.misses
  have hlength : r.site.deque.length = 0 := Nat.sub_eq_zero_of_le h.empty
  have hdelivered : r.received.length = plan.total.toNat := by
    rw [h.received.length_eq, List.length_map, List.length_range]
  simp only [result, hpop, hsteal, ok_bind, pure_eq_ok, h.distinct_eq, h.sum_eq, hlength,
    hdelivered, decide_true]

end Finish

/-- Whatever the schedule, a race on a new pool has no fault. When it is over, and no growth has
failed, every unit was handed out once and no other unit was, and nothing is left. -/
theorem delivers {config : PoolConfig} (hc : config.validate = .ok ()) {start : Nat}
    (hs : start ≤ Word.max) {limit : Option Nat} {id : PoolId} {deque : Deque}
    (hd : Deque.create limit config start id = .ok (.ok deque)) (telemetry : Bool)
    (plan : RacePlan) (schedule : List Nat) :
    ∃ r, (Race.start plan ⟨⟨.empty, limit, telemetry, #[]⟩, deque⟩).follow plan schedule = .ok r ∧
      (r.isOver = true → r.site.AlwaysGrew →
        r.received.Perm ((List.range plan.total.toNat).map UnitId.mk) ∧
        ∃ pushes extracted,
          r.result = .ok
            { delivered := plan.total.toNat
              distinct := plan.total.toNat
              sum := plan.total.toNat * (plan.total.toNat - 1) / 2
              length := 0
              pushes
              extracted
              popMisses := true
              stealMisses := true } ∧
          (telemetry = true →
            pushes = plan.total.toNat ∧ extracted = plan.total.toNat)) := by
  have hfresh : deque = .fresh config start id := by
    rw [Deque.create_eq limit hc] at hd
    split at hd
    · cases hd
      rfl
    · cases hd
  subst hfresh
  obtain ⟨r, hfollow, g, owner, thieves, horder⟩ :=
    (orderly_start plan hc hs id limit telemetry #[]).follow schedule
  refine ⟨r, hfollow, fun hover hgrew => ?_⟩
  have hfinished := horder.finished hover hgrew
  exact ⟨hfinished.received, _, _, hfinished.result_eq,
    fun htel => ⟨hfinished.pushes htel, hfinished.extracted htel⟩⟩

/-- Turns of an owner and one thief, with calls that wait, a rebase and a growth. -/
def contested : List Nat :=
  [0, 0, 1, 1, 0, 0, 1, 0, 1, 1, 0, 0, 0, 0, 0, 0, 1, 1, 1, 0, 0, 0, 0, 1, 1, 0, 1, 0, 1, 0, 0, 0,
   0, 1, 1, 1, 1, 1, 1]

theorem delivers_contested :
    (PoolConfig.mk 2 none).validate = .ok () ∧ 18446744073709551614 ≤ Word.max ∧
      ∃ deque r,
        Deque.create none ⟨2, none⟩ 18446744073709551614 (.ofIndex 0) = .ok (.ok deque) ∧
        (Race.start ⟨3, 1, 2⟩ ⟨⟨.empty, none, true, #[]⟩, deque⟩).follow ⟨3, 1, 2⟩ contested =
          .ok r ∧
        r.isOver = true ∧ r.site.AlwaysGrew ∧
        r.received.Perm ((List.range 3).map UnitId.mk) ∧
        r.result = .ok ⟨3, 3, 3, 0, 3, 3, true, true⟩ := by
  have hc : (PoolConfig.mk 2 none).validate = .ok () := by decide +kernel
  have hs : 18446744073709551614 ≤ Word.max := by decide +kernel
  have hd : Deque.create none ⟨2, none⟩ 18446744073709551614 (.ofIndex 0) =
      .ok (.ok (.fresh ⟨2, none⟩ 18446744073709551614 (.ofIndex 0))) := by
    rw [Deque.create_eq none hc]
    rfl
  have hshown : ((Race.start ⟨3, 1, 2⟩ ⟨⟨.empty, none, true, #[]⟩,
      .fresh ⟨2, none⟩ 18446744073709551614 (.ofIndex 0)⟩).follow ⟨3, 1, 2⟩
        contested).toOption.any (fun r => r.isOver = true ∧ r.site.AlwaysGrew) := by
    decide +kernel
  obtain ⟨r, hfollow, hdelivers⟩ := delivers hc hs hd true ⟨3, 1, 2⟩ contested
  rw [hfollow] at hshown
  simp only [Except.toOption, Option.any_some, decide_eq_true_eq] at hshown
  obtain ⟨hover, hgrew⟩ := hshown
  obtain ⟨hreceived, pushes, extracted, hresult, hcounts⟩ := hdelivers hover hgrew
  obtain ⟨rfl, rfl⟩ := hcounts rfl
  exact ⟨hc, hs, _, r, hd, hfollow, hover, hgrew, hreceived, hresult⟩

end Race

end WorkStealing
