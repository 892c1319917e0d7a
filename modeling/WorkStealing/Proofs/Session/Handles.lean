import Mathlib.Data.List.Nodup
import WorkStealing.Proofs.Deque.Ending
import WorkStealing.Proofs.PoolConfig.Rules
import WorkStealing.Proofs.Session.Soundness

set_option autoImplicit false

/-!
# Pools and their handles

A pool comes with the handle of its owner and goes with its last handle. Each change of the handles
leaves at most one pool loose, and settling that pool brings the world back in order.
-/
namespace WorkStealing

namespace World

section Changes

variable {w w' : World} {busy loose : Option PoolId}

theorem Sound.congr (h : w.Sound busy loose) (hpools : w'.pools = w.pools)
    (hhandles : w'.handles = w.handles) (hc : w'.units.Counted)
    (hholder : ∀ u, w'.units.holder? u = w.units.holder? u) : w'.Sound busy loose := by
  have hlive : ∀ p d, w'.Live p d ↔ w.Live p d := fun p d => by rw [Live, Live, hpools]
  refine ⟨hc, ?_, ?_, ?_, ?_, ?_, ?_⟩
  · rw [hpools]
    exact h.ids
  · intro p d hd hp
    obtain ⟨hs, hu⟩ := h.site p d ((hlive p d).1 hd) hp
    exact ⟨⟨hs.deque, hc, hs.nodup, fun u => by
      change w'.units.holder? u = some d.id ↔ _
      rw [hholder]
      exact hs.holder u⟩, hu⟩
  · intro u p hu
    rw [hholder] at hu
    obtain ⟨d, hd⟩ := h.holder u p hu
    exact ⟨d, (hlive p d).2 hd⟩
  · rw [hhandles]
    intro x hx
    obtain ⟨d, hd⟩ := h.handle x hx
    exact ⟨d, (hlive _ d).2 hd⟩
  · rw [hhandles]
    exact fun p d hd => h.held p d ((hlive p d).1 hd)
  · rw [hhandles]
    exact h.keys

theorem Sound.setHandles {handles : List (Nat × PoolHandle)} {loose' : Option PoolId}
    (h : w.Sound none loose) (hkeys : (handles.map Prod.fst).Nodup)
    (hlive : ∀ x ∈ handles, ∃ d, w.Live x.2.pool d)
    (hheld : ∀ p d, w.Live p d → loose' ≠ some p → ∃ x ∈ handles, x.2.pool = p) :
    { w with handles }.Sound none loose' :=
  ⟨h.counted, h.ids, h.site, h.holder, hlive, hheld, hkeys⟩

theorem Sound.eq_of_handle? (h : w.Sound busy loose) {n : Nat} {k : PoolHandle}
    (hk : w.handle? n = some k) {x : Nat × PoolHandle} (hx : x ∈ w.handles) (hn : x.1 = n) :
    x.2 = k := by
  have hmem := mem_of_handle? hk
  have hinj := List.inj_on_of_nodup_map h.keys hx hmem hn
  exact congrArg Prod.snd hinj

theorem handle?_isSome {n : Nat} {x : Nat × PoolHandle} (hx : x ∈ w.handles) (hn : x.1 = n) :
    (w.handle? n).isSome := by
  cases hk : w.handle? n with
  | some k => rfl
  | none =>
    have hne := List.lookup_eq_none_iff.1 hk x hx
    simp [hn] at hne

/-- Without the handle `n` its pool may be loose, and no other. -/
theorem Sound.dropped (h : w.Sound none none) {n : Nat} {k : PoolHandle}
    (hk : w.handle? n = some k) :
    { w with handles := w.handles.filter (·.1 ≠ n) }.Sound none (some k.pool) := by
  refine h.setHandles ?_ (fun x hx => h.handle x (List.mem_filter.1 hx).1) fun p d hd hp => ?_
  · exact h.keys.sublist (List.filter_sublist.map Prod.fst)
  · obtain ⟨x, hx, hxp⟩ := h.held p d hd (by simp)
    refine ⟨x, List.mem_filter.2 ⟨hx, decide_eq_true fun hn => hp ?_⟩, hxp⟩
    rw [← hxp, h.eq_of_handle? hk hx hn]

def bound (w : World) (n : Nat) (k : PoolHandle) : World :=
  { w with handles := (n, k) :: w.handles.filter (·.1 ≠ n) }

theorem Sound.bound (h : w.Sound none loose) {n : Nat} {k : PoolHandle} {d : Deque}
    (hd : w.Live k.pool d) (hloose : ∀ p, loose = some p → p = k.pool) :
    (w.bound n k).Sound none ((w.handle? n).map (·.pool)) := by
  refine h.setHandles ?_ ?_ fun p e he hp => ?_
  · rw [List.map_cons, List.nodup_cons]
    refine ⟨fun hn => ?_, h.keys.sublist (List.filter_sublist.map Prod.fst)⟩
    obtain ⟨x, hx, hxn⟩ := List.mem_map.1 hn
    exact of_decide_eq_true (List.mem_filter.1 hx).2 hxn
  · intro x hx
    rcases List.mem_cons.1 hx with rfl | hx
    · exact ⟨d, hd⟩
    · exact h.handle x (List.mem_filter.1 hx).1
  · by_cases hpk : p = k.pool
    · exact ⟨(n, k), List.mem_cons_self, hpk.symm⟩
    · obtain ⟨x, hx, hxp⟩ := h.held p e he fun hl => hpk (hloose p hl)
      refine ⟨x, List.mem_cons_of_mem _ (List.mem_filter.2 ⟨hx, decide_eq_true fun hn => hp ?_⟩),
        hxp⟩
      obtain ⟨old, hold⟩ := Option.isSome_iff_exists.1 (handle?_isSome hx hn)
      rw [hold, ← hxp, h.eq_of_handle? hold hx hn]
      rfl

end Changes

section Ending

variable {w : World} {p : PoolId} {d : Deque}

def close (w : World) (s : Site) : World :=
  { w with toContext := s.toContext, pools := w.pools.setIfInBounds s.deque.id.index none }

theorem endPool_eq {loose : Option PoolId} (h : w.Sound none loose) (hl : w.Live p d) :
    w.endPool p = .ok (w.close (w.site d).ended) := by
  obtain ⟨hs, _⟩ := h.site p d hl (by simp)
  have hact : (do return ((), ← (w.site d).teardown) : Checked (Unit × Site)) =
      .ok ((), (w.site d).ended) := by
    rw [Site.teardown_eq hs]
    rfl
  have hvisit := visit_eq (f := fun s => do return ((), ← s.teardown)) hl hact hl.2
  have hid : (w.site d).ended.deque.id = p := hl.2
  rw [endPool, hvisit]
  simp only [ok_bind, pure_eq_ok, put, close, hid, Array.setIfInBounds_setIfInBounds]

theorem live_close (h : w.Live p d) {s : Site} (hid : s.deque.id = p) {q : PoolId} {e : Deque} :
    (w.close s).Live q e ↔ q ≠ p ∧ w.Live q e := by
  have hlt : p.index < w.pools.size := (Array.getElem?_eq_some_iff.1 h.1).1
  simp only [Live, close, hid, Array.getElem?_setIfInBounds, hlt]
  by_cases hi : p.index = q.index
  · have hnot : ¬ (q ≠ p ∧ w.pools[q.index]? = some (some e) ∧ e.id = q) := by
      rintro ⟨hq, he, heq⟩
      rw [← hi, h.1] at he
      cases he
      exact hq (heq.symm.trans h.2)
    simp [hi, hnot]
  · have hq : q ≠ p := fun hq => hi (congrArg PoolId.index hq.symm)
    simp [hi, hq]

/-- A pool without a handle has ended, and what it held is held no more. -/
theorem Sound.close (h : w.Sound none (some p)) (hl : w.Live p d)
    (hfree : ∀ x ∈ w.handles, x.2.pool ≠ p) : (w.close (w.site d).ended).Sound none none := by
  obtain ⟨hs, _⟩ := h.site p d hl (by simp)
  have hid : (w.site d).ended.deque.id = p := hl.2
  obtain ⟨_, hc, hf⟩ := UnitTable.releaseAll_eq (p := p) hs.counted hs.nodup_queued
    fun u hu => hl.2 ▸ hs.holder_of_mem hu
  have hlive : ∀ q, q ≠ p → (∃ e, w.Live q e) → ∃ e, (w.close (w.site d).ended).Live q e :=
    fun q hq ⟨e, he⟩ => ⟨e, (live_close hl hid).2 ⟨hq, he⟩⟩
  refine ⟨hc, ?_, ?_, ?_, ?_, ?_, h.keys⟩
  · intro i e he
    change (w.pools.setIfInBounds _ _)[i]? = _ at he
    rw [Array.getElem?_setIfInBounds] at he
    split at he
    · split at he <;> cases he
    · exact h.ids i e he
  · intro q e he _
    obtain ⟨hq, he⟩ := (live_close hl hid).1 he
    obtain ⟨hsound, hunlocked⟩ := h.site q e he (by simp)
    exact ⟨hsound.elsewhere hf hc (he.2 ▸ hq), hunlocked⟩
  · intro u q hu
    have hu' : (w.units.letGoAll d.queued).holder? u = some q := hu
    rw [UnitTable.holder?_letGoAll] at hu'
    split at hu'
    · cases hu'
    · rename_i hnot
      refine hlive q ?_ (h.holder u q hu')
      rintro rfl
      have hmem := (hs.holder u).1 (by rw [show (w.site d).deque.id = q from hl.2]; exact hu')
      rw [List.append_nil] at hmem
      exact hnot hmem
  · intro x hx
    exact hlive _ (hfree x hx) (h.handle x hx)
  · intro q e he _
    obtain ⟨hq, he⟩ := (live_close hl hid).1 he
    exact h.held q e he (by simpa using Ne.symm hq)

def settled (w : World) (d : Deque) : World :=
  if w.handles.any (·.2.pool = d.id) then w else w.close (w.site d).ended

theorem settlePool_eq (h : w.Sound none (some p)) (hl : w.Live p d) :
    w.settlePool p = .ok (w.settled d) ∧ (w.settled d).Sound none none := by
  rw [settlePool, settled, hl.2]
  split
  · rename_i hany
    obtain ⟨x, hx, hxp⟩ := List.any_eq_true.1 hany
    refine ⟨rfl, h.counted, h.ids, h.site, h.holder, h.handle, fun q e he _ => ?_, h.keys⟩
    by_cases hq : q = p
    · exact ⟨x, hx, hq ▸ of_decide_eq_true hxp⟩
    · exact h.held q e he (by simpa using Ne.symm hq)
  · rename_i hany
    refine ⟨endPool_eq h hl, h.close hl fun x hx hxp => hany ?_⟩
    exact List.any_eq_true.2 ⟨x, hx, decide_eq_true hxp⟩

end Ending

end World

def Deque.fresh (config : PoolConfig) (start : Nat) (p : PoolId) : Deque where
  id := p
  name := config.name
  head := start
  tail := start
  ring := .blank config.initialCapacity
  foreign := .startingAt 0 []
  metrics := .new

theorem PoolConfig.power_of_validate {c : PoolConfig} (h : c.validate = .ok ()) :
    ∃ k, 0 < k ∧ c.initialCapacity = 2 ^ k ∧ c.initialCapacity ≤ maxCapacity := by
  obtain ⟨k, hpos, hk, hc⟩ := (validate_eq_ok_iff.1 h).capacity
  refine ⟨k, hpos, hc, ?_⟩
  rw [hc]
  exact Nat.pow_le_pow_right (by omega) hk

namespace Deque

variable {config : PoolConfig} {start : Nat}

theorem create_eq (limit : Option Nat) (hc : config.validate = .ok ()) (p : PoolId) :
    create limit config start p =
      .ok (if Ring.fits limit config.initialCapacity then .ok (fresh config start p)
        else .error (.resourceExhausted config.initialCapacity)) := by
  obtain ⟨k, _, hk, _⟩ := PoolConfig.power_of_validate hc
  rw [create, Ring.allocate_eq limit hk, ok_bind]
  cases Ring.fits limit config.initialCapacity <;> rfl

theorem window_fresh (config : PoolConfig) (start : Nat) (p : PoolId) :
    (fresh config start p).window = [] := window_eq_nil.2 (Nat.le_refl _)

theorem sound_fresh (hc : config.validate = .ok ()) (hs : start ≤ Word.max) (p : PoolId) :
    (fresh config start p).Sound := by
  obtain ⟨k, hpos, hk, hmax⟩ := PoolConfig.power_of_validate hc
  have hring : (Ring.blank config.initialCapacity).Sound := by
    refine Ring.sound_blank hpos hk (Nat.le_trans hmax ?_)
    unfold PoolConfig.maxCapacity Ring.maxSlots
    omega
  refine ⟨hring, Nat.le_refl _, ?_, hs, fun i _ _ => Ring.cell_blank .., fun r hr => ?_⟩
  · change start - start < _
    rw [Nat.sub_self]
    exact hring.pos
  · cases hr

end Deque

namespace World

section Opening

variable {w : World} {config : PoolConfig} {start : Nat}

def opened (w : World) (config : PoolConfig) (start : Nat) : World :=
  { w with
    pools := w.pools.push (some (.fresh config start (.ofIndex w.pools.size)))
    log := w.log.push (.created (.ofIndex w.pools.size) config.name config.initialCapacity) }

theorem openPool_eq (w : World) (hc : config.validate = .ok ()) (n start : Nat) :
    w.openPool n config start =
      if Ring.fits w.limit config.initialCapacity then do
        return (.ok (.ofIndex w.pools.size),
          ← (w.opened config start).bind n ⟨.owner, .ofIndex w.pools.size⟩)
      else .ok (.error (.resourceExhausted config.initialCapacity), w) := by
  simp only [openPool, hc, Deque.create_eq _ hc, ok_bind]
  cases Ring.fits w.limit config.initialCapacity <;> rfl

theorem live_opened {q : PoolId} {e : Deque} :
    (w.opened config start).Live q e ↔
      (q = .ofIndex w.pools.size ∧ e = .fresh config start (.ofIndex w.pools.size)) ∨
        w.Live q e := by
  simp only [Live, opened, Array.getElem?_push]
  constructor
  · rintro ⟨he, hq⟩
    split at he
    · cases he
      exact .inl ⟨hq.symm, rfl⟩
    · exact .inr ⟨he, hq⟩
  · rintro (⟨rfl, rfl⟩ | ⟨he, hq⟩)
    · rw [PoolId.index_ofIndex, if_pos rfl]
      exact ⟨rfl, rfl⟩
    · have hlt := (Array.getElem?_eq_some_iff.1 he).1
      rw [if_neg (Nat.ne_of_lt hlt)]
      exact ⟨he, hq⟩

theorem Sound.opened (h : w.Sound none none) (hc : config.validate = .ok ())
    (hs : start ≤ Word.max) :
    (w.opened config start).Sound none (some (.ofIndex w.pools.size)) := by
  have hlive : ∀ q, (∃ e, w.Live q e) → ∃ e, (w.opened config start).Live q e :=
    fun q ⟨e, he⟩ => ⟨e, live_opened.2 (.inr he)⟩
  refine ⟨h.counted, ?_, ?_, fun u q hu => hlive q (h.holder u q hu),
    fun x hx => hlive _ (h.handle x hx), ?_, h.keys⟩
  · intro i e he
    simp only [World.opened, Array.getElem?_push] at he
    split at he
    · rename_i hi
      cases he
      rw [hi]
      rfl
    · exact h.ids i e he
  · intro q e he _
    rcases live_opened.1 he with ⟨rfl, rfl⟩ | he
    · refine ⟨⟨Deque.sound_fresh hc hs _, h.counted, ?_, fun u => ?_⟩, rfl⟩
      · rw [Deque.queued_eq]
        change (Slots.units (Deque.fresh config start _).window ++ []).Nodup
        rw [Deque.window_fresh]
        exact List.nodup_nil
      · change w.units.holder? u = some _ ↔
          u ∈ Slots.units (Deque.fresh config start _).window ++ []
        rw [Deque.window_fresh]
        refine ⟨fun hu => ?_, fun hu => by cases hu⟩
        obtain ⟨d, hd, _⟩ := h.holder u _ hu
        change w.pools[(PoolId.ofIndex w.pools.size).index]? = _ at hd
        rw [PoolId.index_ofIndex, Array.getElem?_size] at hd
        cases hd
    · obtain ⟨hsound, hunlocked⟩ := h.site q e he (by simp)
      exact ⟨hsound.congr rfl rfl rfl rfl rfl rfl, hunlocked⟩
  · intro q e he hq
    rcases live_opened.1 he with ⟨rfl, rfl⟩ | he
    · exact absurd rfl hq
    · exact h.held q e he (by simp)

end Opening

end World

end WorkStealing
