import WorkStealing.Deque.FreeStage
import WorkStealing.Deque.LockedStage
import WorkStealing.Proofs.Deque.Soundness

set_option autoImplicit false

/-!
# What each stage does

Every stage of a call on a pool in order ends without a fault, and its result is named. The cases of
a lemma here are the cases of the pool; nothing after this module opens a stage again.
-/
namespace WorkStealing.Site

variable {s : Site}

/-- The site after `u` was taken out of its slot. The pool still has its reference. -/
def grabbed (s : Site) (index : Nat) (u : UnitId) : Site :=
  { s with units := s.units.setHolder u none, deque := s.deque.vacate index }

theorem grab_taken (hr : s.deque.ring.Sound) {index : Nat} {u : UnitId}
    (hc : s.deque.ring.cell index = some u) (hk : s.units.Knows u) {expected : Option UnitId}
    (he : expected = none ∨ expected = some u) :
    s.grab index expected = .ok (.taken u, s.grabbed index u) := by
  simp only [grab, hr.read_eq, hc, ok_bind, if_pos he, hr.write_eq, UnitTable.detach_eq hk]
  rfl

theorem grab_hole (hr : s.deque.ring.Sound) {index : Nat} (hc : s.deque.ring.cell index = none)
    (expected : Option UnitId) : s.grab index expected = .ok (.hole, s) := by
  simp [grab, hr.read_eq, hc]

theorem grab_other (hr : s.deque.ring.Sound) {index : Nat} {u v : UnitId}
    (hc : s.deque.ring.cell index = some v) (hv : v ≠ u) :
    s.grab index (some u) = .ok (.other, s) := by
  simp [grab, hr.read_eq, hc, Ne.symm hv]

theorem putAtTail_eq (hr : s.deque.ring.Sound) (ht : s.deque.tail < Word.max) (u : UnitId) :
    s.putAtTail u = .ok { s with deque := s.deque.fill u } := by
  simp [putAtTail, Word.succ_eq_ok ht, hr.write_eq, Deque.fill]

theorem mask_eq (h : s.deque.Sound) : s.deque.ring.mask = s.deque.ring.capacity - 1 := by
  have := h.ring.mask_add_one
  omega

section Push

theorem place_stored (h : s.deque.Sound) (hroom : s.deque.length + 1 < s.deque.ring.capacity)
    (ht : s.deque.tail < Word.max) (u : UnitId) :
    s.place u = .ok (.reply .stored, { s with deque := s.deque.fill u }) := by
  have hlt : s.deque.tail - s.deque.head < s.deque.ring.mask := by
    rw [Deque.length] at hroom
    rw [mask_eq h]
    omega
  simp [place, h.head_le_tail, hlt, putAtTail_eq h.ring ht]

theorem place_full (h : s.deque.Sound) (hfull : s.deque.ring.capacity ≤ s.deque.length + 1)
    (u : UnitId) : s.place u = .ok (.go (.store u), s) := by
  have hlt : ¬ s.deque.tail - s.deque.head < s.deque.ring.mask := by
    rw [Deque.length] at hfull
    rw [mask_eq h]
    omega
  simp [place, hlt]

theorem push_held {u : UnitId} {e : UnitEntry} (he : s.units.find? u = some e)
    (hrefs : 0 < e.refs) {q : PoolId} (hq : s.units.holder? u = some q) :
    (do let (stage, s) ← (Call.push u).launch s; stage.run s) =
      .ok (.reply (.refused (.alreadyQueued q)), s) := by
  have hknows : (s.units.retained u).Knows u := UnitTable.knows_retained.2 ⟨e, he⟩
  have hholder := (s.units.holder?_retained u u).trans hq
  simp [Call.launch, updateUnits, UnitTable.retain_eq he hrefs, FreeStage.run, push,
    UnitTable.holder_eq hknows, hholder, UnitTable.release_retained he]

theorem push_free {u : UnitId} {e : UnitEntry} (he : s.units.find? u = some e)
    (hrefs : 0 < e.refs) (hn : s.units.holder? u = none) :
    (do let (stage, s) ← (Call.push u).launch s; stage.run s) =
      if s.deque.tail = Word.max then
        .ok (.go (.rebase u), s.setUnits (s.units.hold u s.deque.id))
      else (s.setUnits (s.units.hold u s.deque.id)).place u := by
  have hknows : (s.units.retained u).Knows u := UnitTable.knows_retained.2 ⟨e, he⟩
  have hholder := (s.units.holder?_retained u u).trans hn
  simp only [Call.launch, updateUnits, UnitTable.retain_eq he hrefs, FreeStage.run, push,
    UnitTable.holder_eq hknows, hholder, ok_bind, pure_eq_ok, attach, UnitTable.attach_retained]
  rfl

def rebased (s : Site) : Site :=
  (((s.setHead (s.deque.head % s.deque.ring.capacity)).setTail
    (s.deque.tail % s.deque.ring.capacity)).tally .rebase).emit
      (.rebased s.deque.id (s.deque.head % s.deque.ring.capacity)
        (s.deque.tail % s.deque.ring.capacity))

theorem exists_rebased (s : Site) :
    ∃ log metrics, s.rebased = { s with
      log := log
      deque := { s.deque with
        head := s.deque.head % s.deque.ring.capacity
        tail := s.deque.tail % s.deque.ring.capacity, metrics := metrics } } := by
  obtain ⟨m, hm⟩ := ((s.setHead (s.deque.head % s.deque.ring.capacity)).setTail
    (s.deque.tail % s.deque.ring.capacity)).exists_tally .rebase
  refine ⟨s.rebased.log, m, ?_⟩
  rw [rebased, hm]
  rfl

theorem rebase_eq (h : s.deque.Sound) (ht : s.deque.tail = Word.max) :
    s.rebase = .ok s.rebased := by
  have hle := (h.rebased ht).1
  simp only [rebase, h.ring.position_eq, require_eq_ok hle, ok_bind, pure_eq_ok]
  rfl

theorem storeLocked_stored (h : s.deque.Sound)
    (hroom : s.deque.length + 1 < s.deque.ring.capacity) (ht : s.deque.tail < Word.max)
    (u : UnitId) :
    s.storeLocked u = .ok (.reply .stored, { s with deque := s.deque.fill u }) := by
  have hlt : s.deque.tail - s.deque.head < s.deque.ring.mask := by
    rw [Deque.length] at hroom
    rw [mask_eq h]
    omega
  simp [storeLocked, require_eq_ok h.head_le_tail, Word.sub_eq_ok h.head_le_tail, hlt,
    putAtTail_eq h.ring ht]

def grown (s : Site) (g : Ring.Growth) : Site :=
  let s' := s.emit (.grew s.deque.id s.deque.name s.deque.capacity g.grown.capacity s.deque.length)
  { s' with deque := { s.deque with
      ring := g.grown, foreign := s.deque.foreign.modify (g.emptied :: ·), head := 0,
      tail := s.deque.length } }.tally .resize

theorem exists_grown (s : Site) (g : Ring.Growth) :
    ∃ log metrics, s.grown g = { s with
      log := log
      deque := { s.deque with
        ring := g.grown, foreign := s.deque.foreign.modify (g.emptied :: ·), head := 0,
        tail := s.deque.length, metrics := metrics } } := by
  obtain ⟨m, hm⟩ := exists_tally { s.emit (.grew s.deque.id s.deque.name s.deque.capacity
      g.grown.capacity s.deque.length) with
    deque := { s.deque with
      ring := g.grown, foreign := s.deque.foreign.modify (g.emptied :: ·), head := 0,
      tail := s.deque.length } } .resize
  exact ⟨_, m, hm⟩

theorem grown_room (h : s.deque.Sound) {g : Ring.Growth}
    (hg : Ring.Grown s.deque.ring s.deque.head s.deque.length g) :
    (s.grown g).deque.length + 1 < (s.grown g).deque.ring.capacity ∧
      (s.grown g).deque.tail < Word.max := by
  obtain ⟨_, _, hgrown⟩ := s.exists_grown g
  have hlen := h.length_lt
  have hmax := h.ring.capacity_lt_max
  rw [hgrown]
  constructor
  · change s.deque.length - 0 + 1 < g.grown.capacity
    rw [hg.capacity_eq]
    omega
  · change s.deque.length < Word.max
    omega

theorem storeLocked_full (h : s.deque.Sound)
    (hfull : s.deque.ring.capacity ≤ s.deque.length + 1) {u : UnitId} (hn : s.units.Counted)
    (hu : s.units.holder? u = some s.deque.id) :
    (Ring.fits s.limit (2 * s.deque.capacity) = false ∧
      s.storeLocked u = .ok (.reply (.refused (.resourceExhausted (2 * s.deque.capacity))),
        (s.emit (.growthFailed s.deque.id s.deque.capacity
          (.resourceExhausted (2 * s.deque.capacity)))).setUnits (s.units.letGo u))) ∨
    (Ring.fits s.limit (2 * s.deque.capacity) = true ∧
      ∃ g, Ring.Grown s.deque.ring s.deque.head s.deque.length g ∧
        s.storeLocked u = .ok (.reply .stored,
          { s.grown g with deque := (s.grown g).deque.fill u })) := by
  have hnot : ¬ s.deque.tail - s.deque.head < s.deque.ring.mask := by
    rw [Deque.length] at hfull
    rw [mask_eq h]
    omega
  have hcount : s.deque.tail - s.deque.head ≤ s.deque.ring.capacity := by
    have := h.length_lt
    rw [Deque.length] at this
    omega
  rcases h.ring.grow_eq s.limit s.deque.head hcount with ⟨hfits, hgrow⟩ | ⟨hfits, g, hgrow, hg⟩
  · refine .inl ⟨hfits, ?_⟩
    obtain ⟨e, he⟩ := UnitTable.knows_of_holder? hu
    have hdetach := UnitTable.detach_eq ⟨e, he⟩
    have hrelease := UnitTable.release_detached he (hn.refs_pos_of_holder? he hu)
    simp only [storeLocked, require_eq_ok h.head_le_tail, Word.sub_eq_ok h.head_le_tail, ok_bind,
      pure_eq_ok, if_neg hnot, grow, hgrow, updateUnits, emit, hdetach, hrelease]
    rfl
  · refine .inr ⟨hfits, g, hg, ?_⟩
    obtain ⟨_, _, hgrown⟩ := s.exists_grown g
    have hring : (s.grown g).deque.ring.Sound := by
      rw [hgrown]
      exact hg.sound
    have hput := putAtTail_eq hring (grown_room h hg).2 u
    simp only [storeLocked, require_eq_ok h.head_le_tail, Word.sub_eq_ok h.head_le_tail, ok_bind,
      pure_eq_ok, if_neg hnot, grow, hgrow]
    change ((s.grown g).putAtTail u >>= _) = _
    rw [hput]
    rfl

end Push

section Pop

/-- Either a unit above the head slot is found, or every such slot is a hole. -/
theorem popAbove_none (above : Nat) (h : s.deque.Sound)
    (hk : ∀ i u, s.deque.ring.cell i = some u → s.units.Knows u)
    (hlen : s.deque.tail = s.deque.head + above + 1) :
    (∃ t u, s.popAbove none above = .ok (.reply (.taken u), (s.setTail t).grabbed t u) ∧
      s.deque.head < t ∧ s.deque.ring.cell t = some u ∧
      ((s.setTail t).grabbed t u).deque.Sound ∧
      ((s.setTail t).grabbed t u).deque.window = Slots.dropNewest s.deque.window ∧
      Slots.newest s.deque.window = some u) ∨
    (s.popAbove none above = .ok (.go (.lastSlot none), s.setTail s.deque.head) ∧
      (s.setTail (s.deque.head + 1)).deque.Sound ∧
      Slots.newest s.deque.window = s.deque.ring.cell s.deque.head ∧
      Slots.dropNewest s.deque.window = [] ∧
      Slots.units s.deque.window = (s.deque.ring.cell s.deque.head).toList) := by
  have hlt : s.deque.head < s.deque.tail := by omega
  have hsub : Word.sub s.deque.tail 1 = .ok (s.deque.tail - 1) := Word.sub_eq_ok (by omega)
  have hwin := Deque.window_concat hlt
  -- a hole above the head is dropped, and the pool without it is searched
  induction above generalizing s with
  | zero =>
    refine .inr ⟨?_, ?_, ?_⟩
    · have hlast : s.deque.tail - 1 = s.deque.head := by omega
      simp only [popAbove, hsub, ok_bind, pure_eq_ok, hlast]
    · rw [show s.deque.head + 1 = s.deque.tail by omega]
      exact h
    · have hnil : { s.deque with tail := s.deque.tail - 1 }.window = [] := by
        rw [Deque.window_eq_nil]
        change s.deque.tail - 1 ≤ s.deque.head
        omega
      rw [hnil, show s.deque.tail - 1 = s.deque.head by omega] at hwin
      rw [hwin]
      cases s.deque.ring.cell s.deque.head with
      | none => exact ⟨rfl, rfl, rfl⟩
      | some u => exact ⟨rfl, rfl, rfl⟩
  | succ above ih =>
    cases hc : s.deque.ring.cell (s.deque.tail - 1) with
    | some u =>
      refine .inl ⟨s.deque.tail - 1, u, ?_, by omega, hc, ?_⟩
      · have hgrab := grab_taken (s := s.setTail (s.deque.tail - 1)) h.ring hc (hk _ u hc)
          (.inl rfl)
        simp only [popAbove, hsub, ok_bind, pure_eq_ok, hgrab]
      · exact h.takeBack hlt hc
    | none =>
      have hgrab := grab_hole (s := s.setTail (s.deque.tail - 1)) h.ring hc none
      have hstep : s.popAbove none (above + 1) =
          (s.setTail (s.deque.tail - 1)).popAbove none above := by
        simp only [popAbove, hsub, ok_bind, hgrab, if_pos]
      have hnew : Slots.newest (s.setTail (s.deque.tail - 1)).deque.window =
          Slots.newest s.deque.window := by
        rw [hwin, hc, Slots.newest_concat_none]
        rfl
      have hdrop : Slots.dropNewest (s.setTail (s.deque.tail - 1)).deque.window =
          Slots.dropNewest s.deque.window := by
        rw [hwin, hc, Slots.dropNewest_concat_none]
        rfl
      have hunits : Slots.units (s.setTail (s.deque.tail - 1)).deque.window =
          Slots.units s.deque.window := by
        rw [hwin, hc]
        simp [setTail]
      have hlt' : (s.setTail (s.deque.tail - 1)).deque.head <
          (s.setTail (s.deque.tail - 1)).deque.tail := by
        change s.deque.head < s.deque.tail - 1
        omega
      rw [hstep, ← hnew, ← hdrop, ← hunits]
      refine ih (s := s.setTail (s.deque.tail - 1)) (h.dropBack hlt hc) hk ?_ hlt' ?_ ?_
      · change s.deque.tail - 1 = s.deque.head + above + 1
        omega
      · exact Word.sub_eq_ok (by omega)
      · exact Deque.window_concat hlt'

theorem popBack_empty (h : s.deque.tail ≤ s.deque.head) (expected : Option UnitId) :
    s.popBack expected = .ok (.reply .missed, s) := by
  simp [popBack, h]

theorem popBack_none (h : s.deque.Sound)
    (hk : ∀ i u, s.deque.ring.cell i = some u → s.units.Knows u)
    (hlt : s.deque.head < s.deque.tail) :
    (∃ t u, s.popBack none = .ok (.reply (.taken u), (s.setTail t).grabbed t u) ∧
      s.deque.head < t ∧ s.deque.ring.cell t = some u ∧
      ((s.setTail t).grabbed t u).deque.Sound ∧
      ((s.setTail t).grabbed t u).deque.window = Slots.dropNewest s.deque.window ∧
      Slots.newest s.deque.window = some u) ∨
    (s.popBack none = .ok (.go (.lastSlot none), s.setTail s.deque.head) ∧
      (s.setTail (s.deque.head + 1)).deque.Sound ∧
      Slots.newest s.deque.window = s.deque.ring.cell s.deque.head ∧
      Slots.dropNewest s.deque.window = [] ∧
      Slots.units s.deque.window = (s.deque.ring.cell s.deque.head).toList) := by
  rw [popBack, if_neg (by omega)]
  exact popAbove_none _ h hk (by omega)

theorem popBack_some {u : UnitId} (h : s.deque.Sound) (hk : s.units.Knows u)
    (hlt : s.deque.head < s.deque.tail) (hc : s.deque.ring.cell (s.deque.tail - 1) = some u) :
    s.popBack (some u) =
      if s.deque.head + 1 < s.deque.tail then
        .ok (.reply (.taken u), (s.setTail (s.deque.tail - 1)).grabbed (s.deque.tail - 1) u)
      else .ok (.go (.lastSlot (some u)), s.setTail (s.deque.tail - 1)) := by
  have hsub : Word.sub s.deque.tail 1 = .ok (s.deque.tail - 1) := Word.sub_eq_ok (by omega)
  rw [popBack, if_neg (by omega)]
  split
  · rename_i hmore
    obtain ⟨above, habove⟩ : ∃ above, s.deque.tail - s.deque.head - 1 = above + 1 :=
      Nat.exists_eq_succ_of_ne_zero (by omega)
    have hgrab := grab_taken (s := s.setTail (s.deque.tail - 1)) h.ring hc hk (.inr rfl)
    simp only [habove, popAbove, hsub, ok_bind, pure_eq_ok, hgrab]
  · rename_i hone
    rw [show s.deque.tail - s.deque.head - 1 = 0 by omega]
    simp only [popAbove, hsub, ok_bind, pure_eq_ok]

section LastSlot

variable {o : Option UnitId}

theorem lastSlot_hole (hr : s.deque.ring.Sound) (heq : s.deque.head = s.deque.tail)
    (hc : s.deque.ring.cell s.deque.tail = none) :
    s.lastSlot o =
      if o = none then .ok (.go (.popBack none), s) else .ok (.reply .missed, s) := by
  have hnot : ¬ s.deque.tail < s.deque.head := by omega
  simp only [lastSlot, if_neg hnot, grab_hole hr hc, ok_bind, pure_eq_ok]

theorem lastSlot_taken (hr : s.deque.ring.Sound) (heq : s.deque.head = s.deque.tail) {u : UnitId}
    (hc : s.deque.ring.cell s.deque.tail = some u) (hk : s.units.Knows u)
    (he : o = none ∨ o = some u) :
    s.lastSlot o = .ok (.reply (.taken u), s.grabbed s.deque.tail u) := by
  have hnot : ¬ s.deque.tail < s.deque.head := by omega
  simp only [lastSlot, if_neg hnot, grab_taken hr hc hk he, ok_bind, pure_eq_ok]

end LastSlot

end Pop

section Steal

theorem stealLocked_empty (h : s.deque.tail ≤ s.deque.head) :
    s.stealLocked = .ok (.reply .missed, s) := by
  simp [stealLocked, h]

theorem stealLocked_hole (h : s.deque.Sound) (hlt : s.deque.head < s.deque.tail)
    (hc : s.deque.ring.cell s.deque.head = none) :
    s.stealLocked = .ok (.go .steal, s.setHead (s.deque.head + 1)) := by
  have hnot : ¬ s.deque.tail ≤ s.deque.head := by omega
  have hsucc : Word.succ s.deque.head = .ok (s.deque.head + 1) :=
    Word.succ_eq_ok (Nat.lt_of_lt_of_le hlt h.tail_le)
  have hgrab := grab_hole (s := s.setHead (s.deque.head + 1)) h.ring hc none
  simp only [stealLocked, if_neg hnot, hsucc, ok_bind, pure_eq_ok, hgrab]

theorem stealLocked_taken (h : s.deque.Sound) (hlt : s.deque.head < s.deque.tail) {u : UnitId}
    (hc : s.deque.ring.cell s.deque.head = some u) (hk : s.units.Knows u) :
    s.stealLocked =
      .ok (.reply (.taken u), (s.setHead (s.deque.head + 1)).grabbed s.deque.head u) := by
  have hnot : ¬ s.deque.tail ≤ s.deque.head := by omega
  have hsucc : Word.succ s.deque.head = .ok (s.deque.head + 1) :=
    Word.succ_eq_ok (Nat.lt_of_lt_of_le hlt h.tail_le)
  have hgrab := grab_taken (s := s.setHead (s.deque.head + 1)) h.ring hc hk (.inl rfl)
  simp only [stealLocked, if_neg hnot, hsucc, ok_bind, pure_eq_ok, hgrab]

end Steal

section Remove

def scanEnd (s : Site) : Side → Nat
  | .owner => s.deque.tail - 1
  | .foreign => s.deque.tail

theorem scanEnd_le (s : Site) (side : Side) : s.scanEnd side ≤ s.deque.tail := by
  cases side with
  | owner => exact Nat.sub_le ..
  | foreign => exact Nat.le_refl _

theorem scan_eq (h : s.deque.tail ≤ s.deque.head + s.deque.ring.capacity) (side : Side)
    (u : UnitId) :
    s.scan side u = s.deque.ring.findBack u s.deque.head (s.scanEnd side - s.deque.head) >>=
      fun found => return (found.elim (.reply .missed) fun index =>
        .go (.extract side u index s.deque.generation), s) := by
  have hend : (if side = .owner then s.deque.tail - 1 else s.deque.tail) = s.scanEnd side := by
    cases side <;> rfl
  have hle := s.scanEnd_le side
  have hfirst : max s.deque.head (s.scanEnd side - s.deque.capacity) = s.deque.head := by
    change max s.deque.head (s.scanEnd side - s.deque.ring.capacity) = s.deque.head
    omega
  rw [scan, hend, hfirst]
  refine congrArg _ ?_
  funext found
  cases found <;> rfl

theorem scan_found (h : s.deque.Sound) (side : Side) {u : UnitId} {i : Nat}
    (hi : s.deque.head ≤ i) (hi' : i < s.scanEnd side) (hc : s.deque.ring.cell i = some u) :
    ∃ j, s.deque.head ≤ j ∧ j < s.deque.tail ∧ s.deque.ring.cell j = some u ∧
      s.scan side u = .ok (.go (.extract side u j s.deque.generation), s) := by
  obtain ⟨j, hj, hj', hcj, hfind⟩ := h.ring.findBack_found u s.deque.head
    (s.scanEnd side - s.deque.head) ⟨i, hi, by omega, hc⟩
  have hle := s.scanEnd_le side
  refine ⟨j, hj, by omega, hcj, ?_⟩
  rw [scan_eq (by have := h.lt_round; omega), hfind]
  rfl

theorem scan_missed (hr : s.deque.ring.Sound)
    (h : s.deque.tail ≤ s.deque.head + s.deque.ring.capacity) (side : Side) {u : UnitId}
    (hu : ∀ i, s.deque.head ≤ i → i < s.scanEnd side → s.deque.ring.cell i ≠ some u) :
    s.scan side u = .ok (.reply .missed, s) := by
  have hfind := hr.findBack_missed u s.deque.head (s.scanEnd side - s.deque.head)
    fun i hi hi' => hu i hi (by omega)
  rw [scan_eq h, hfind]
  rfl

theorem remove_elsewhere {u : UnitId} (hk : s.units.Knows u)
    (hu : s.units.holder? u ≠ some s.deque.id) (side : Side) :
    s.remove side u = .ok (.reply .missed, s) := by
  simp [remove, UnitTable.holder_eq hk, hu]

theorem remove_foreign {u : UnitId} (hu : s.units.holder? u = some s.deque.id) :
    s.remove .foreign u = s.scan .foreign u := by
  simp [remove, UnitTable.holder_eq (UnitTable.knows_of_holder? hu), hu]

theorem remove_owner (hr : s.deque.ring.Sound) {u : UnitId}
    (hu : s.units.holder? u = some s.deque.id) :
    s.remove .owner u =
      if s.deque.tail ≤ s.deque.head then .ok (.reply .missed, s)
      else if s.deque.ring.cell (s.deque.tail - 1) = some u then s.popBack (some u)
      else s.scan .owner u := by
  have hholder := UnitTable.holder_eq (UnitTable.knows_of_holder? hu)
  by_cases hempty : s.deque.tail ≤ s.deque.head
  · simp [remove, hholder, hu, hempty]
  · have hsub : Word.sub s.deque.tail 1 = .ok (s.deque.tail - 1) := Word.sub_eq_ok (by omega)
    simp [remove, hholder, hu, hempty, hsub, hr.read_eq]

theorem extract_stale {side : Side} {u : UnitId} {index generation : Nat}
    (hg : s.deque.generation ≠ generation) :
    s.extract side u index generation = .ok (.go (.scan side u), s) := by
  simp [extract, hg]

theorem extract_missed (hr : s.deque.ring.Sound) {u : UnitId} {index : Nat}
    (hc : s.deque.ring.cell index ≠ some u) (side : Side) :
    s.extract side u index s.deque.generation = .ok (.reply .missed, s) := by
  cases hcell : s.deque.ring.cell index with
  | none => simp [extract, grab_hole hr hcell]
  | some v =>
    have hv : v ≠ u := fun huv => hc (hcell.trans (congrArg some huv))
    simp [extract, grab_other hr hcell hv]

def settled (s : Site) (index : Nat) : Site :=
  if s.deque.head = index ∧ index < s.deque.tail then s.setHead (index + 1) else s

theorem extract_taken (hr : s.deque.ring.Sound) {u : UnitId} {index : Nat}
    (hc : s.deque.ring.cell index = some u) (hk : s.units.Knows u)
    (hmax : s.deque.head < Word.max) (side : Side) :
    s.extract side u index s.deque.generation =
      .ok (.reply (.taken u), (s.grabbed index u).settled index) := by
  have hgrab := grab_taken hr hc hk (.inr rfl)
  by_cases hi : s.deque.head = index
  · subst hi
    have hsucc : Word.succ s.deque.head = .ok (s.deque.head + 1) := Word.succ_eq_ok hmax
    simp only [extract, ne_eq, not_true_eq_false, if_false, hgrab, ok_bind, settleHead, settled]
    change (if s.deque.head = s.deque.head then _ else _) >>= _ = _
    rw [if_pos rfl, hsucc]
    by_cases ht : s.deque.head < s.deque.tail
    · simp [grabbed, Deque.vacate, ht]
    · simp [grabbed, Deque.vacate, ht]
  · simp only [extract, ne_eq, not_true_eq_false, if_false, hgrab, ok_bind, settleHead, settled]
    simp [grabbed, Deque.vacate, hi]

end Remove

end WorkStealing.Site
