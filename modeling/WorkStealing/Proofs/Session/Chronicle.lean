import WorkStealing.Proofs.Convoy.Notices
import WorkStealing.Proofs.Session.Invariant

set_option autoImplicit false

/-!
# What a session tells of its pools

The answers of a session's steps tell which calls were made on which pool and what came of them.
Whatever a step did, each pool that is still there has counted and moved what was told of it since
its metrics started from zero.
-/
namespace WorkStealing

def Got.good : Got → Bool
  | .ok => true
  | .error _ => false
  | .unit u => u.isSome

def CallResult.good? : CallResult → Option Bool
  | .refused => none
  | .made got _ => some got.good

def Answer.goods : Answer → List Bool
  | .ok => [true]
  | .error _ => [false]
  | .unit u => [u.isSome]
  | .units us => us.map Option.isSome
  | _ => []

/-- Of `times` pushes those that failed are known, but not when they failed. -/
def batchGoods (times : Nat) (failures : List PoolError) : List Bool :=
  List.replicate (times - failures.length) true ++ List.replicate failures.length false

theorem batchGoods_cons (e? : Option PoolError) {times : Nat} {failures : List PoolError}
    (h : failures.length ≤ times) :
    (e?.isNone :: batchGoods times failures).Perm
      (batchGoods (times + 1) (e?.toList ++ failures)) := by
  cases e? with
  | none =>
    simp only [batchGoods, Option.toList_none, List.nil_append, Nat.succ_sub h,
      List.replicate_succ]
    exact .refl _
  | some e =>
    simp only [batchGoods, Option.toList_some, List.singleton_append, List.length_cons,
      Nat.add_sub_add_right, List.replicate_succ]
    exact List.perm_middle.symm

namespace World

def heardOn (w : World) (n : Nat) (kind : CallKind) (goods : List Bool) : List Notice :=
  (w.handle? n).elim [] fun k => goods.map (.made k.pool kind)

def heardOf (w : World) (bc : BoardingCall) (good? : Option Bool) : List Notice :=
  match w.resolve bc, good? with
  | some (q, call), some good => [.made q call.kind good]
  | _, _ => []

def heard (w : World) : List BoardingCall → List (Option Bool) → List Notice
  | bc :: calls, good? :: goods => w.heardOf bc good? ++ w.heard calls goods
  | _, _ => []

/-- What is heard of a step that has that answer. -/
def notices (w : World) (op : Op) (answer : Answer) : List Notice :=
  match op, answer with
  | .new .., .opened p | .newAt .., .opened p => [.zeroed p]
  | .resetMetrics n, .ok => (w.handle? n).elim [] fun k => [.zeroed k.pool]
  | .push n _, a | .pushNew n _, a => w.heardOn n .push a.goods
  | .pushMany n _ _ times, .failures es => w.heardOn n .push (batchGoods times es)
  | .pop n, a | .popMany n _, a | .popAll n, a => w.heardOn n .pop a.goods
  | .steal n, a | .stealMany n _, a | .stealAll n, a => w.heardOn n .steal a.goods
  | .remove n _, a => w.heardOn n .remove a.goods
  | .convoy n calls, .convoy results =>
    (w.owned? n).elim [] fun p => .convoy p :: w.heard calls (results.map CallResult.good?)
  | _, _ => []

def chronicle (w : World) : List Op → List Notice
  | [] => []
  | op :: ops =>
    match w.step op with
    | .ok (report, v) => w.notices op report.answer ++ v.chronicle ops
    | .error _ => []

def atRest : PoolId → Pledge := fun _ => .none

/-- From `w` to `v`, where the owner of each pool has done what `π` says, the pools that have not
started from zero meanwhile have counted and moved what `ns` tells of them. Without a convoy nobody
has waited for their locks. -/
structure Chronicled (w : World) (ns : List Notice) (v : World) (π : PoolId → Pledge) : Prop where
  telemetry : v.telemetry = w.telemetry
  pool : ∀ p e, v.Live p e → .zeroed p ∉ ns → ∃ d, w.Live p d ∧
    (w.site d).Tells .none ns (v.site e) (π p) ∧
    (.convoy p ∉ ns → e.metrics.lockWaits = d.metrics.lockWaits)

namespace Chronicled

variable {w v v' : World} {ns ns' : List Notice} {π π' : PoolId → Pledge} {p : PoolId} {d : Deque}

theorem refl (w : World) : w.Chronicled [] w atRest :=
  ⟨rfl, fun _ d hl _ => ⟨d, hl, .refl _ _, fun _ => rfl⟩⟩

theorem trans (h : w.Chronicled ns v atRest) (h' : v.Chronicled ns' v' π) :
    w.Chronicled (ns ++ ns') v' π where
  telemetry := h'.telemetry.trans h.telemetry
  pool p e hl hz := by
    rw [List.mem_append, not_or] at hz
    obtain ⟨d', hl', htells', hquiet'⟩ := h'.pool p e hl hz.2
    obtain ⟨d, hd, htells, hquiet⟩ := h.pool p d' hl' hz.1
    refine ⟨d, hd, htells.trans htells', fun hc => ?_⟩
    rw [List.mem_append, not_or] at hc
    exact (hquiet' hc.2).trans (hquiet hc.1)

theorem perm (h : w.Chronicled ns v π) (hns : ns.Perm ns') : w.Chronicled ns' v π where
  telemetry := h.telemetry
  pool p e hl hz := by
    obtain ⟨d, hd, htells, hquiet⟩ := h.pool p e hl fun hn => hz (hns.mem_iff.1 hn)
    exact ⟨d, hd, htells.perm hns, fun hc => hquiet fun hn => hc (hns.mem_iff.1 hn)⟩

theorem of_pools (h : w.Chronicled ns v π) (htel : v'.telemetry = v.telemetry)
    (hlive : ∀ p e, v'.Live p e → v.Live p e) : w.Chronicled ns v' π where
  telemetry := htel.trans h.telemetry
  pool p e hl hz := by
    obtain ⟨d, hd, htells, hquiet⟩ := h.pool p e (hlive p e hl) hz
    exact ⟨d, hd, htells.congr rfl rfl, hquiet⟩

theorem of_start (h : v.Chronicled ns v' π) (htel : v.telemetry = w.telemetry)
    (hpools : v.pools = w.pools) : w.Chronicled ns v' π where
  telemetry := h.telemetry.trans htel
  pool p e hl hz := by
    obtain ⟨d, hd, htells, hquiet⟩ := h.pool p e hl hz
    rw [Live, hpools] at hd
    exact ⟨d, hd, htells.congr rfl rfl, hquiet⟩

theorem put (h : w.Chronicled ns v π) (hl : v.Live p d) {s : Site} {π' : Pledge}
    (hid : s.deque.id = p) (htel : s.telemetry = v.telemetry) (hns : ∀ n ∈ ns', n.pool = p)
    (hs : .zeroed p ∉ ns' → (v.site d).Tells (π p) ns' s π' ∧
      (.convoy p ∉ ns ++ ns' → s.deque.metrics.lockWaits = d.metrics.lockWaits)) :
    w.Chronicled (ns ++ ns') (v.put s) (Function.update π p π') where
  telemetry := htel.trans h.telemetry
  pool q e he hz := by
    have hz' := hz
    rw [List.mem_append, not_or] at hz'
    rcases (live_put hl hid).1 he with ⟨rfl, rfl⟩ | ⟨hne, he⟩
    · obtain ⟨c, hc, htells, hquiet⟩ := h.pool q d hl hz'.1
      obtain ⟨htells', hquiet'⟩ := hs hz'.2
      rw [Function.update_self]
      refine ⟨c, hc, (htells.trans htells').congr rfl rfl, fun hcon => ?_⟩
      exact (hquiet' hcon).trans (hquiet fun hn => hcon (List.mem_append_left _ hn))
    · obtain ⟨c, hc, htells, hquiet⟩ := h.pool q e he hz'.1
      have hother : ∀ n ∈ ns', n.pool ≠ (v.site e).deque.id := fun n hn heq =>
        hne (he.2.symm.trans (heq.symm.trans (hns n hn)))
      rw [Function.update_of_ne hne]
      exact ⟨c, hc, (htells.trans (.elsewhere (v.site e) _ hother)).congr rfl rfl,
        fun hcon => hquiet fun hn => hcon (List.mem_append_left _ hn)⟩

theorem opened (h : w.Chronicled ns v π) (config : PoolConfig) (start : Nat) :
    w.Chronicled (ns ++ [.zeroed (.ofIndex v.pools.size)]) (v.opened config start) π where
  telemetry := h.telemetry
  pool q e he hz := by
    have hz' := hz
    rw [List.mem_append, not_or, List.mem_singleton, Notice.zeroed.injEq] at hz'
    rcases live_opened.1 he with ⟨rfl, -⟩ | he
    · exact absurd rfl hz'.2
    · obtain ⟨d, hd, htells, hquiet⟩ := h.pool q e he hz'.1
      have hother : ∀ n ∈ [Notice.zeroed (.ofIndex v.pools.size)],
          n.pool ≠ (v.site e).deque.id := by
        intro n hn heq
        obtain rfl := List.mem_singleton.1 hn
        exact hz'.2 (he.2.symm.trans heq.symm)
      exact ⟨d, hd, (htells.trans (.elsewhere (v.site e) _ hother)).congr rfl rfl,
        fun hcon => hquiet fun hn => hcon (List.mem_append_left _ hn)⟩

end Chronicled

section Calls

variable {w w₀ : World} {ns : List Notice} {π : PoolId → Pledge} {busy : Option PoolId}
  {p : PoolId} {d : Deque} {call : Call}

/-- A call on a pool whose lock is free is heard. -/
theorem Chronicled.perform (h : w₀.Chronicled ns w π) (hw : w.Sound busy none) (hl : w.Live p d)
    (hp : busy ≠ some p) (hπ : π p = .none) (hc : call.Admissible w.units)
    (htel : w.telemetry = true) :
    ∃ r s, w.perform p call = .ok (r, w.put s) ∧ call.Answers r ∧ (w.site d).Frame s ∧
      (w.put s).Sound busy none ∧
      w₀.Chronicled (ns ++ [.made p call.kind r.good]) (w.put s) π := by
  obtain ⟨s, hsite, hrun, hsound, hframe, hscene⟩ := hw.perform_beside hl hp hc
  obtain ⟨hanswers, htells⟩ :=
    Site.perform_tells (hw.site p d hl hp).1 htel hsite hframe hscene
  have hid : (w.site d).deque.id = p := hl.2
  have hwaits : s.deque.metrics.lockWaits = d.metrics.lockWaits := by
    have hsame := congrArg (fun v : Scene => v.pool.metrics.lockWaits) hscene
    exact hsame.trans (Scene.lockWaits_perform (w.site d).scene call)
  refine ⟨_, s, hrun, hanswers, hframe, hsound, ?_⟩
  rw [← hπ, hid] at htells
  have hput := h.put hl (hframe.id.trans hl.2) (call.perform_works _ _ hsite).telemetry
    (by simp [Notice.pool]) fun _ => ⟨htells, fun _ => hwaits⟩
  rwa [Function.update_eq_self] at hput

structure Follows (w : World) (p : PoolId) (ns : List Notice) (v : World) : Prop where
  sound : v.Sound none none
  continues : w.Continues p v
  chronicled : w.Chronicled ns v atRest

theorem Follows.trans {v v' : World} {ns' : List Notice} (h : w.Follows p ns v)
    (h' : v.Follows p ns' v') : w.Follows p (ns ++ ns') v' where
  sound := h'.sound
  continues := ⟨h'.continues.live, fun u =>
    (h'.continues.registered u).trans (h.continues.registered u)⟩
  chronicled := h.chronicled.trans h'.chronicled

theorem Follows.refl (h : w.Sound none none) (hl : w.Live p d) : w.Follows p [] w :=
  ⟨h, ⟨⟨d, hl⟩, fun _ => Iff.rfl⟩, .refl w⟩

theorem Follows.telemetry {v : World} (h : w.Follows p ns v) (htel : w.telemetry = true) :
    v.telemetry = true := h.chronicled.telemetry.trans htel

variable (h : w.Sound none none) (htel : w.telemetry = true)

include h htel

theorem Sound.perform_follows (hl : w.Live p d) (hc : call.Admissible w.units) :
    Ensures (w.perform p call) fun o => call.Answers o.1 ∧
      w.Follows p [.made p call.kind o.1.good] o.2 := by
  obtain ⟨r, s, hrun, hanswers, hframe, hsound, hchronicled⟩ :=
    (Chronicled.refl w).perform h hl (by simp) rfl hc htel
  rw [hrun]
  refine .ok ⟨hanswers, hsound, ⟨⟨s.deque, ?_⟩, fun _ => hframe.units.registered⟩, hchronicled⟩
  exact (live_put hl (hframe.id.trans hl.2)).2 (.inl ⟨rfl, rfl⟩)

theorem Sound.take_follows (hl : w.Live p d) (hc : call.Admissible w.units)
    (hcall : ∀ u, call ≠ .push u) : Ensures (w.take p call) fun o =>
      w.Follows p [.made p call.kind o.1.isSome] o.2 := by
  refine .bind (h.perform_follows htel hl hc) ?_
  rintro ⟨r, v⟩ ⟨hanswers, hfollows⟩
  cases r with
  | taken u =>
    refine .bind (P := fun o => o.isSome = true) (.bind (.trivial _) fun _ _ => .ok rfl) ?_
    intro o ho
    refine .ok ?_
    rw [ho]
    exact hfollows
  | missed => exact .ok hfollows
  | stored | refused =>
    cases call with
    | push u => exact absurd rfl (hcall u)
    | pop | steal | remove => cases hanswers

theorem Sound.takeMany_follows (hl : w.Live p d) (hc : call.Admissible w.units)
    (hcall : ∀ u, call ≠ .push u) (times : Nat) : Ensures (takeMany p call times w) fun o =>
      w.Follows p ((o.1.map Option.isSome).map (.made p call.kind)) o.2 := by
  induction times generalizing w d with
  | zero => exact .ok (.refl h hl)
  | succ times ih =>
    refine .bind (h.take_follows htel hl hc hcall) ?_
    rintro ⟨u, v⟩ hv
    obtain ⟨e, he⟩ := hv.continues.live
    refine .bind (ih hv.sound (hv.telemetry htel) he (hv.continues.admissible hc)) ?_
    rintro ⟨us, v'⟩ hv'
    exact .ok (hv.trans hv')

theorem Sound.takeAll_follows (hl : w.Live p d) (hc : call.Admissible w.units)
    (hcall : ∀ u, call ≠ .push u) (times : Nat) : Ensures (takeAll p call times w) fun o =>
      w.Follows p ((o.1.map Option.isSome).map (.made p call.kind)) o.2 := by
  induction times generalizing w d with
  | zero => exact .error _ _
  | succ times ih =>
    refine .bind (h.take_follows htel hl hc hcall) ?_
    rintro ⟨u, v⟩ hv
    cases u with
    | none => exact .ok hv
    | some u =>
      obtain ⟨e, he⟩ := hv.continues.live
      refine .bind (ih hv.sound (hv.telemetry htel) he (hv.continues.admissible hc)) ?_
      rintro ⟨us, v'⟩ hv'
      exact .ok (hv.trans hv')

theorem Sound.pushOne_follows (hl : w.Live p d) {u : UnitId} (hu : w.units.Registered u) :
    Ensures (w.pushOne p u) fun o => w.Follows p [.made p .push o.1.isNone] o.2 := by
  have hc : (Call.push u).Admissible w.units := by
    rintro v ⟨⟩
    exact hu
  refine .bind (h.perform_follows htel hl hc) ?_
  rintro ⟨r, v⟩ ⟨hanswers, hfollows⟩
  cases r with
  | stored | refused => exact .ok hfollows
  | taken | missed => cases hanswers

theorem Sound.pushMany_chronicled (hl : w.Live p d) (type : UnitType) (first : UInt64)
    (times : Nat) : Ensures (pushMany p type first times w) fun o =>
      o.1.length ≤ times ∧
        w.Chronicled ((batchGoods times o.1).map (.made p .push)) o.2 atRest := by
  induction times generalizing w d first with
  | zero => exact .ok ⟨Nat.le_refl _, .refl w⟩
  | succ times ih =>
    have hcreated : (w.createUnit (.ofRaw type first)).2.Sound none none :=
      h.congr rfl rfl (h.counted.create _) fun _ => UnitTable.holder?_create ..
    have hfirst : w.Chronicled [] (w.createUnit (.ofRaw type first)).2 atRest :=
      (Chronicled.refl w).of_pools rfl fun _ _ he => he
    refine .bind (hcreated.pushOne_follows (p := p) (d := d) htel hl
      (UnitTable.registered_create w.units (.ofRaw type first))) ?_
    rintro ⟨e?, v⟩ hv
    obtain ⟨e, he⟩ := hv.continues.live
    refine .bind (ih hv.sound (hv.telemetry htel) he (first + 1)) ?_
    rintro ⟨es, v'⟩ ⟨hle, hv'⟩
    refine .ok ⟨?_, ?_⟩
    · have hlength : e?.toList.length ≤ 1 := by cases e? <;> simp
      rw [List.length_append]
      exact (Nat.add_le_add hlength hle).trans (Nat.le_of_eq (Nat.add_comm 1 times))
    · have hperm := (batchGoods_cons e? hle).map (Notice.made p .push)
      exact ((hfirst.trans hv.chronicled).trans hv').perm hperm

end Calls

section Handles

variable {w : World} {p : PoolId} {d : Deque} {loose : Option PoolId}

structure Narrows (w v : World) : Prop where
  telemetry : v.telemetry = w.telemetry
  live : ∀ p d, v.Live p d → w.Live p d

theorem Narrows.refl (w : World) : w.Narrows w := ⟨rfl, fun _ _ he => he⟩

theorem Sound.settlePool_narrows (h : w.Sound none (some p)) (hl : w.Live p d) :
    Ensures (w.settlePool p) w.Narrows := by
  rw [(settlePool_eq h hl).1]
  refine .ok ?_
  unfold settled
  split
  · exact ⟨rfl, fun _ _ he => he⟩
  · exact ⟨rfl, fun q e he => ((live_close hl hl.2).1 he).2⟩

theorem Sound.dropHandle_narrows (h : w.Sound none none) {n : Nat} {k : PoolHandle}
    (hk : w.handle? n = some k) : Ensures (w.dropHandle n) w.Narrows := by
  obtain ⟨d, hl⟩ := h.live_of_handle? hk
  rw [World.dropHandle, hk]
  exact ((h.dropped hk).settlePool_narrows (d := d) hl).mono fun _ hv => ⟨hv.telemetry, hv.live⟩

theorem Sound.bind_narrows (h : w.Sound none loose) {k : PoolHandle} (hl : w.Live k.pool d)
    (hloose : ∀ p, loose = some p → p = k.pool) (n : Nat) :
    Ensures (w.bind n k) w.Narrows := by
  have hbound := h.bound (n := n) hl hloose
  rw [World.bind]
  cases hold : w.handle? n with
  | none => exact .ok ⟨rfl, fun _ _ he => he⟩
  | some old =>
    rw [hold] at hbound
    obtain ⟨e, he⟩ := h.live_of_handle? hold
    exact (hbound.settlePool_narrows (d := e) he).mono fun _ hv => ⟨hv.telemetry, hv.live⟩

theorem Sound.openPool_opens (h : w.Sound none none) (n : Nat) (config : PoolConfig) {start : Nat}
    (hs : start ≤ Word.max) : Ensures (w.openPool n config start) fun o =>
      (∀ p, o.1 = .ok p → p = .ofIndex w.pools.size ∧ (w.opened config start).Narrows o.2) ∧
        ∀ e, o.1 = .error e → o.2 = w := by
  cases hv : config.validate with
  | error problem =>
    rw [World.openPool, hv]
    exact .ok ⟨fun _ hp => (by cases hp), fun _ _ => rfl⟩
  | ok _ =>
    rw [openPool_eq w hv]
    split
    · refine .bind ((h.opened hv hs).bind_narrows (k := ⟨.owner, .ofIndex w.pools.size⟩)
        (live_opened.2 (.inl ⟨rfl, rfl⟩)) (fun p hp => (Option.some.inj hp).symm) n) ?_
      intro v hv
      refine .ok ⟨?_, fun _ he => by cases he⟩
      rintro p ⟨⟩
      exact ⟨rfl, hv⟩
    · exact .ok ⟨fun _ hp => (by cases hp), fun _ _ => rfl⟩

theorem metrics_of_opened {config : PoolConfig} {start : Nat}
    (hl : (w.opened config start).Live (.ofIndex w.pools.size) d) : d.metrics = .new := by
  rcases live_opened.1 hl with ⟨-, rfl⟩ | ⟨hd, -⟩
  · rfl
  · rw [PoolId.index_ofIndex, Array.getElem?_size] at hd
    cases hd

end Handles

end World

end WorkStealing
