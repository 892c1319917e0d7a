import WorkStealing.Proofs.Session.Backlogs
import WorkStealing.Proofs.Session.Handles
import WorkStealing.Session

set_option autoImplicit false

/-!
# Worlds that look alike

Two worlds in order look alike if they show the same, whatever the counters of their pools are. The
steps of a session, convoys apart, keep them alike and answer the same. A world looks like itself,
so every such step also keeps a world in order and ends without a fault.
-/
namespace WorkStealing

structure World.View extends Context where
  hooks : Bool
  pools : Array (Option Deque.View)
  handles : List (Nat × PoolHandle)

def World.view (w : World) : World.View where
  toContext := w.toContext.quiet
  hooks := w.hooks
  pools := w.pools.map (Option.map Deque.view)
  handles := w.handles

namespace World

structure Alike (w w' : World) (loose : Option PoolId) : Prop where
  left : w.Sound none loose
  right : w'.Sound none loose
  view : w.view = w'.view

/-- Two runs that end, with outcomes in a relation and worlds that look alike. -/
def Match {α : Type} (R : α × World → α × World → Prop) (x y : Checked (α × World)) : Prop :=
  ∃ o o', x = .ok o ∧ y = .ok o' ∧ R o o' ∧ o.2.Alike o'.2 none

def SameResult {α : Type} (o o' : α × World) : Prop := o.1 = o'.1

section Matching

variable {α β : Type} {R : α × World → α × World → Prop} {S : β × World → β × World → Prop}

theorem Match.ok {o o' : α × World} (hR : R o o') (h : o.2.Alike o'.2 none) :
    Match R (.ok o) (.ok o') :=
  ⟨o, o', rfl, rfl, hR, h⟩

theorem Match.bind {x y : Checked (α × World)} {f g : α × World → Checked (β × World)}
    (h : Match R x y) (hfg : ∀ o o', R o o' → o.2.Alike o'.2 none → Match S (f o) (g o')) :
    Match S (x >>= f) (y >>= g) := by
  obtain ⟨o, o', rfl, rfl, hR, hw⟩ := h
  exact hfg o o' hR hw

end Matching

section Views

variable {w w' : World} {loose : Option PoolId}

theorem Sound.alike (h : w.Sound none loose) : w.Alike w loose := ⟨h, h, rfl⟩

theorem Alike.units_eq (h : w.Alike w' loose) : w.units = w'.units :=
  congrArg (fun v : View => v.units) h.view

theorem Alike.handles_eq (h : w.Alike w' loose) : w.handles = w'.handles :=
  congrArg View.handles h.view

theorem Alike.limit_eq (h : w.Alike w' loose) : w.limit = w'.limit :=
  congrArg (fun v : View => v.limit) h.view

theorem Alike.hooks_eq (h : w.Alike w' loose) : w.hooks = w'.hooks :=
  congrArg View.hooks h.view

theorem Alike.context_eq (h : w.Alike w' loose) : w.toContext.quiet = w'.toContext.quiet :=
  congrArg View.toContext h.view

theorem Alike.pools_eq (h : w.Alike w' loose) :
    w.pools.map (Option.map Deque.view) = w'.pools.map (Option.map Deque.view) :=
  congrArg View.pools h.view

theorem Alike.size_eq (h : w.Alike w' loose) : w.pools.size = w'.pools.size := by
  have hsize := congrArg Array.size h.pools_eq
  rwa [Array.size_map, Array.size_map] at hsize

theorem Alike.handle?_eq (h : w.Alike w' loose) (n : Nat) : w.handle? n = w'.handle? n := by
  rw [handle?, handle?, h.handles_eq]

theorem Alike.owned?_eq (h : w.Alike w' loose) (n : Nat) : w.owned? n = w'.owned? n := by
  rw [owned?, owned?, h.handle?_eq]

theorem Alike.stolen?_eq (h : w.Alike w' loose) (n : Nat) : w.stolen? n = w'.stolen? n := by
  rw [stolen?, stolen?, h.handle?_eq]

theorem Alike.unit?_eq (h : w.Alike w' loose) (u : UnitId) : w.unit? u = w'.unit? u := by
  rw [unit?, unit?, h.units_eq]

theorem Alike.exists_live (h : w.Alike w' loose) {p : PoolId} {d : Deque} (hd : w.Live p d) :
    ∃ d', w'.Live p d' ∧ d.view = d'.view := by
  have hslot := congrArg (·[p.index]?) h.pools_eq
  simp only [Array.getElem?_map, hd.1, Option.map_some] at hslot
  cases hd' : w'.pools[p.index]? with
  | none =>
    rw [hd'] at hslot
    cases hslot
  | some c =>
    cases c with
    | none =>
      rw [hd'] at hslot
      cases hslot
    | some d' =>
      rw [hd'] at hslot
      have hview : d.view = d'.view := Option.some.inj (Option.some.inj hslot)
      exact ⟨d', ⟨hd', (congrArg Deque.View.id hview).symm.trans hd.2⟩, hview⟩

theorem Alike.scene_eq (h : w.Alike w' loose) {d d' : Deque} (hd : d.view = d'.view) :
    (w.site d).scene = (w'.site d').scene := by
  change (⟨w.toContext.quiet, d.view⟩ : Scene) = ⟨w'.toContext.quiet, d'.view⟩
  rw [h.context_eq, hd]

theorem view_put (w : World) (s : Site) :
    (w.put s).view = { w.view with
      toContext := s.scene.toContext
      pools := w.view.pools.setIfInBounds s.scene.pool.id.index (some s.scene.pool) } := by
  simp only [view, put, Array.map_setIfInBounds]
  rfl

theorem view_close (w : World) (s : Site) :
    (w.close s).view = { w.view with
      toContext := s.scene.toContext
      pools := w.view.pools.setIfInBounds s.scene.pool.id.index none } := by
  simp only [view, close, Array.map_setIfInBounds]
  rfl

theorem Alike.put (h : w.Alike w' loose) {s s' : Site} (hs : s.scene = s'.scene)
    (hleft : (w.put s).Sound none loose) (hright : (w'.put s').Sound none loose) :
    (w.put s).Alike (w'.put s') loose :=
  ⟨hleft, hright, by rw [view_put, view_put, h.view, hs]⟩

end Views

section Calls

variable {w w' : World} {p : PoolId} {d : Deque} {call : Call}

theorem Performed.knows {s : Site} (h : w.Performed none p d call s) {u : UnitId}
    (hu : ((w.site d).scene.perform call).1 = .taken u) (hs : w.Sound none none) :
    (w.put s).units.Knows u := by
  have hallowed := h.allowed
  rw [hu] at hallowed
  have hheld := (hs.mem_backlogs (by simp)).1 hallowed.mem_of_taken
  exact h.frame.units.knows.2 (UnitTable.knows_of_holder? hheld)

theorem name_eq {u : UnitId} (h : w.units.Knows u) (hunits : w.units = w'.units) :
    ∃ n, w.name u = .ok n ∧ w'.name u = .ok n := by
  obtain ⟨e, he⟩ := h
  refine ⟨⟨u, e.unit.kind⟩, ?_, ?_⟩
  · simp [name, UnitTable.lookup_eq he]
  · simp [name, UnitTable.lookup_eq (hunits ▸ he)]

theorem unitOf_eq {r : Reply} (h : ∀ u, r = .taken u → w.units.Knows u)
    (hunits : w.units = w'.units) :
    ∃ n, w.unitOf r = .ok n ∧ w'.unitOf r = .ok n ∧ (n ≠ none → ∃ u, r = .taken u) := by
  cases r with
  | taken u =>
    obtain ⟨n, hn, hn'⟩ := name_eq (h u rfl) hunits
    exact ⟨some n, by simp [unitOf, hn], by simp [unitOf, hn'], fun _ => ⟨u, rfl⟩⟩
  | stored | refused | missed => exact ⟨none, rfl, rfl, fun hne => absurd rfl hne⟩

/-- What holds after calls on pool `p`: it has not ended, and no unit was cleared. -/
structure Continues (w : World) (p : PoolId) (v : World) : Prop where
  live : ∃ d, v.Live p d
  registered : ∀ u, v.units.Registered u ↔ w.units.Registered u

theorem Continues.admissible {v : World} (h : w.Continues p v) (hc : call.Admissible w.units) :
    call.Admissible v.units :=
  fun u hu => (h.registered u).2 (hc u hu)

theorem Performed.continues {s : Site} (h : w.Performed none p d call s) (hl : w.Live p d) :
    w.Continues p (w.put s) :=
  ⟨⟨s.deque, (live_put hl (h.frame.id.trans hl.2)).2 (.inl ⟨rfl, rfl⟩)⟩,
    fun _ => h.frame.units.registered⟩

theorem Alike.perform (h : w.Alike w' none) (hl : w.Live p d) (hc : call.Admissible w.units) :
    ∃ r s s', w.perform p call = .ok (r, w.put s) ∧ w'.perform p call = .ok (r, w'.put s') ∧
      (w.put s).Alike (w'.put s') none ∧ w.Performed none p d call s ∧
      r = ((w.site d).scene.perform call).1 := by
  obtain ⟨d', hl', hview⟩ := h.exists_live hl
  obtain ⟨s, hp⟩ := h.left.perform hl hc
  obtain ⟨s', hp'⟩ := h.right.perform hl' (h.units_eq ▸ hc)
  have hscene := h.scene_eq hview
  have hs : s.scene = s'.scene := by rw [hp.scene, hp'.scene, hscene]
  refine ⟨_, s, s', hp.run, ?_, h.put hs hp.sound hp'.sound, hp, rfl⟩
  rw [hscene]
  exact hp'.run

def Takes (w : World) (p : PoolId) (o o' : Option NamedUnit × World) : Prop :=
  o.1 = o'.1 ∧ w.Continues p o.2 ∧
    (o.1 ≠ none → (o.2.backlogs p).length + 1 = (w.backlogs p).length)

theorem Alike.take (h : w.Alike w' none) (hl : w.Live p d) (hc : call.Admissible w.units) :
    Match (w.Takes p) (w.take p call) (w'.take p call) := by
  obtain ⟨r, s, s', hrun, hrun', hw, hp, hr⟩ := h.perform hl hc
  obtain ⟨n, hn, hn', htaken⟩ := unitOf_eq (r := r)
    (fun u hu => hp.knows (hr.symm.trans hu) h.left) hw.units_eq
  refine ⟨(n, w.put s), (n, w'.put s'), ?_, ?_, ⟨rfl, hp.continues hl, fun hne => ?_⟩, hw⟩
  · simp only [World.take, hrun, ok_bind, hn, pure_eq_ok]
  · simp only [World.take, hrun', ok_bind, hn', pure_eq_ok]
  · obtain ⟨u, hu⟩ := htaken hne
    have hallowed := hp.allowed
    have hafter := hp.backlogs_eq
    rw [← hr, hu] at hallowed hafter
    change ((w.put s).backlogs p).length + 1 = _
    rw [hafter]
    exact hallowed.length_after_taken

theorem Alike.takeMany (h : w.Alike w' none) (hl : w.Live p d) (hc : call.Admissible w.units)
    (times : Nat) :
    Match SameResult (takeMany p call times w) (takeMany p call times w') := by
  induction times generalizing w w' d with
  | zero => exact Match.ok rfl h
  | succ times ih =>
    apply (h.take hl hc).bind
    intro o o' htakes hw
    obtain ⟨hres, hcont, _⟩ := htakes
    obtain ⟨e, he⟩ := hcont.live
    apply (ih hw he (hcont.admissible hc)).bind
    intro q q' hq hw'
    exact Match.ok (by rw [SameResult, hres, hq]) hw'

theorem Alike.takeAll (h : w.Alike w' none) (hl : w.Live p d) (hc : call.Admissible w.units)
    (times : Nat) (ht : (w.backlogs p).length < times) :
    Match SameResult (takeAll p call times w) (takeAll p call times w') := by
  induction times generalizing w w' d with
  | zero => omega
  | succ times ih =>
    apply (h.take hl hc).bind
    intro o o' htakes hw
    obtain ⟨hres, hcont, hlength⟩ := htakes
    obtain ⟨e, he⟩ := hcont.live
    obtain ⟨n, v⟩ := o
    obtain ⟨n', v'⟩ := o'
    change n = n' at hres
    subst hres
    cases n with
    | none => exact Match.ok rfl hw
    | some u =>
      have hshort := hlength (by simp)
      refine (ih hw he (hcont.admissible hc) (by simp only at hshort ⊢; omega)).bind
        fun q q' hq hw' => ?_
      exact Match.ok (by rw [SameResult, hq]) hw'

def Pushes (w : World) (p : PoolId) (o o' : Option PoolError × World) : Prop :=
  o.1 = o'.1 ∧ w.Continues p o.2

theorem Alike.pushOne (h : w.Alike w' none) (hl : w.Live p d) {u : UnitId}
    (hu : w.units.Registered u) :
    Match (w.Pushes p) (w.pushOne p u) (w'.pushOne p u) := by
  have hc : (Call.push u).Admissible w.units := fun v hv => by
    cases hv
    exact hu
  obtain ⟨r, s, s', hrun, hrun', hw, hp, _⟩ := h.perform hl hc
  have hcont := hp.continues hl
  rw [World.pushOne, World.pushOne, hrun, hrun', ok_bind, ok_bind]
  cases r with
  | refused e => exact Match.ok ⟨rfl, hcont⟩ hw
  | stored | taken | missed => exact Match.ok ⟨rfl, hcont⟩ hw

theorem Alike.createUnit (h : w.Alike w' none) (kind : UnitKind) :
    (w.createUnit kind).1 = (w'.createUnit kind).1 ∧
      (w.createUnit kind).2.Alike (w'.createUnit kind).2 none := by
  refine ⟨congrArg (fun t : UnitTable => (t.create kind).1) h.units_eq, ?_, ?_, ?_⟩
  · exact h.left.congr rfl rfl (h.left.counted.create kind) fun u => UnitTable.holder?_create ..
  · exact h.right.congr rfl rfl (h.right.counted.create kind) fun u => UnitTable.holder?_create ..
  · change { w.view with units := (w.units.create kind).2 } =
      { w'.view with units := (w'.units.create kind).2 }
    rw [h.view, h.units_eq]

theorem Alike.pushMany (h : w.Alike w' none) (hl : w.Live p d) (type : UnitType) (first : UInt64)
    (times : Nat) :
    Match SameResult (pushMany p type first times w) (pushMany p type first times w') := by
  induction times generalizing w w' d first with
  | zero => exact Match.ok rfl h
  | succ times ih =>
    obtain ⟨hid, hw⟩ := h.createUnit (.ofRaw type first)
    have hl' : (w.createUnit (.ofRaw type first)).2.Live p d := hl
    have hpush := hw.pushOne hl' (UnitTable.registered_create w.units (.ofRaw type first))
    rw [World.pushMany, World.pushMany]
    change Match SameResult ((w.createUnit (.ofRaw type first)).2.pushOne p
        (w.createUnit (.ofRaw type first)).1 >>= _)
      ((w'.createUnit (.ofRaw type first)).2.pushOne p
        (w'.createUnit (.ofRaw type first)).1 >>= _)
    rw [← hid]
    apply hpush.bind
    intro o o' hpushes hw'
    obtain ⟨hres, hcont⟩ := hpushes
    obtain ⟨e, he⟩ := hcont.live
    apply (ih hw' he (first + 1)).bind
    intro q q' hq hw''
    exact Match.ok (by rw [SameResult, hres, hq]) hw''

end Calls

section Handles

variable {w w' : World} {loose : Option PoolId}

theorem scene_ended (s : Site) :
    s.ended.scene =
      (s.scene.setUnits (s.scene.units.letGoAll (Slots.units s.scene.pool.slots))).emit
        (.dropped s.scene.pool.id (Slots.units s.scene.pool.slots).length
          s.scene.pool.generation) :=
  Site.scene_emit _ rfl

theorem Alike.settlePool {p : PoolId} {d : Deque} (h : w.Alike w' (some p)) (hl : w.Live p d) :
    ∃ v v', w.settlePool p = .ok v ∧ w'.settlePool p = .ok v' ∧ v.Alike v' none := by
  obtain ⟨d', hl', hview⟩ := h.exists_live hl
  obtain ⟨hrun, hsound⟩ := settlePool_eq h.left hl
  obtain ⟨hrun', hsound'⟩ := settlePool_eq h.right hl'
  refine ⟨_, _, hrun, hrun', hsound, hsound', ?_⟩
  rw [settled, settled, ← h.handles_eq, hl.2, hl'.2]
  split
  · exact h.view
  · have hscene := h.scene_eq hview
    rw [view_close, view_close, h.view, scene_ended, scene_ended, hscene]

theorem Alike.dropHandle (h : w.Alike w' none) {n : Nat} {k : PoolHandle}
    (hk : w.handle? n = some k) :
    ∃ v v', w.dropHandle n = .ok v ∧ w'.dropHandle n = .ok v' ∧ v.Alike v' none := by
  have hk' : w'.handle? n = some k := (h.handle?_eq n).symm.trans hk
  obtain ⟨d, hl⟩ := h.left.live_of_handle? hk
  have hdropped : Alike { w with handles := w.handles.filter (·.1 ≠ n) }
      { w' with handles := w'.handles.filter (·.1 ≠ n) } (some k.pool) := by
    refine ⟨h.left.dropped hk, h.right.dropped hk', ?_⟩
    change { w.view with handles := w.handles.filter (·.1 ≠ n) } =
      { w'.view with handles := w'.handles.filter (·.1 ≠ n) }
    rw [h.view, h.handles_eq]
  rw [World.dropHandle, World.dropHandle, hk, hk']
  exact hdropped.settlePool (d := d) hl

theorem Alike.bind (h : w.Alike w' loose) {k : PoolHandle} {d : Deque} (hl : w.Live k.pool d)
    (hloose : ∀ p, loose = some p → p = k.pool) (n : Nat) :
    ∃ v v', w.bind n k = .ok v ∧ w'.bind n k = .ok v' ∧ v.Alike v' none := by
  obtain ⟨d', hl', _⟩ := h.exists_live hl
  have hbound : (w.bound n k).Alike (w'.bound n k) ((w.handle? n).map (·.pool)) := by
    refine ⟨h.left.bound hl hloose, ?_, ?_⟩
    · rw [h.handle?_eq]
      exact h.right.bound hl' hloose
    · change { w.view with handles := (n, k) :: w.handles.filter (·.1 ≠ n) } =
        { w'.view with handles := (n, k) :: w'.handles.filter (·.1 ≠ n) }
      rw [h.view, h.handles_eq]
  rw [World.bind, World.bind, ← h.handle?_eq]
  cases hold : w.handle? n with
  | none =>
    rw [hold] at hbound
    exact ⟨_, _, rfl, rfl, hbound⟩
  | some old =>
    rw [hold] at hbound
    obtain ⟨e, he⟩ := h.left.live_of_handle? hold
    exact hbound.settlePool (d := e) he

theorem view_fresh (config : PoolConfig) (start : Nat) (p : PoolId) :
    (Deque.fresh config start p).view =
      ⟨p, config.name, [], config.initialCapacity, 0, Metrics.new.quiet⟩ := by
  rw [Deque.view, Deque.window_fresh, Deque.capacity]
  have hcap : (Deque.fresh config start p).ring.capacity = config.initialCapacity :=
    Ring.capacity_blank _
  rw [hcap]
  rfl

theorem view_opened (w : World) (config : PoolConfig) (start : Nat) :
    (w.opened config start).view = { w.view with
      log := w.view.log.push
        (.created (.ofIndex w.view.pools.size) config.name config.initialCapacity)
      pools := w.view.pools.push (some ⟨.ofIndex w.view.pools.size, config.name, [],
        config.initialCapacity, 0, Metrics.new.quiet⟩) } := by
  have hlog : (w.log.push (.created (.ofIndex w.pools.size) config.name
      config.initialCapacity)).filter (!·.isRebase) = (w.log.filter (!·.isRebase)).push
        (.created (.ofIndex w.pools.size) config.name config.initialCapacity) := by
    simp [Event.isRebase]
  simp only [World.view, opened, Context.quiet, Array.map_push, hlog, Option.map_some, view_fresh,
    Array.size_map]

theorem Alike.opened (h : w.Alike w' none) {config : PoolConfig} (hc : config.validate = .ok ())
    {start start' : Nat} (hs : start ≤ Word.max) (hs' : start' ≤ Word.max) :
    (w.opened config start).Alike (w'.opened config start') (some (.ofIndex w.pools.size)) := by
  refine ⟨h.left.opened hc hs, h.size_eq ▸ h.right.opened hc hs', ?_⟩
  rw [view_opened, view_opened, h.view]

theorem Alike.openPool (h : w.Alike w' none) (n : Nat) (config : PoolConfig) {start start' : Nat}
    (hs : start ≤ Word.max) (hs' : start' ≤ Word.max) :
    Match SameResult (w.openPool n config start) (w'.openPool n config start') := by
  cases hv : config.validate with
  | error problem =>
    rw [World.openPool, World.openPool, hv]
    exact Match.ok rfl h
  | ok _ =>
    rw [openPool_eq w hv, openPool_eq w' hv, ← h.limit_eq, ← h.size_eq]
    split
    · obtain ⟨v, v', hrun, hrun', hw⟩ := (h.opened hv hs hs').bind
        (k := ⟨.owner, .ofIndex w.pools.size⟩) (live_opened.2 (.inl ⟨rfl, rfl⟩))
        (fun p hp => (Option.some.inj hp).symm) n
      rw [hrun, hrun']
      exact ⟨_, _, rfl, rfl, rfl, hw⟩
    · exact Match.ok rfl h

end Handles

end World

end WorkStealing
