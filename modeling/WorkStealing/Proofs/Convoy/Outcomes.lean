import WorkStealing.Proofs.Convoy.Turn

set_option autoImplicit false

/-!
# What a turn makes of the pool

The stages of a turn are opened here once more, for the slots and the counters alone: every outcome
of a turn, the pool that it leaves, and the reply or the stage for which its call goes back to the
line. What a turn keeps, sees or spends is read off this list.
-/
namespace WorkStealing

def Flight.next : Flight → Next LockedStage
  | .landed r => .reply r
  | .waiting _ _ stage => .go stage

namespace Deque

structure Matches (d d' : Deque) : Prop where
  head : d'.head = d.head
  tail : d'.tail = d.tail
  ring : d'.ring = d.ring
  generation : d'.generation = d.generation

theorem Matches.trans {d d' d'' : Deque} (h : d.Matches d') (h' : d'.Matches d'') :
    d.Matches d'' where
  head := h'.head.trans h.head
  tail := h'.tail.trans h.tail
  ring := h'.ring.trans h.ring
  generation := h'.generation.trans h.generation

/-- What the turn of a call that has waited for a stage makes of a pool. -/
inductive Outcome (d : Deque) : LockedStage → Next LockedStage → Deque → Prop
  | kept (stage : LockedStage) {r : Reply} (hr : ∀ u, r ≠ .taken u) : Outcome d stage (.reply r) d
  | rebased (u : UnitId) (sound : d.Sound) (low : d.tail = Word.max) :
    Outcome d (.rebase u) (.go (.store u))
      { d with head := d.head % d.ring.capacity, tail := d.tail % d.ring.capacity }
  | rebasedStored (u : UnitId) (sound : d.Sound) (low : d.tail = Word.max) :
    Outcome d (.rebase u) (.reply .stored)
      ({ d with head := d.head % d.ring.capacity, tail := d.tail % d.ring.capacity }.fill u)
  | stored (u : UnitId) (sound : d.Sound) : Outcome d (.store u) (.reply .stored) (d.fill u)
  | grown (u : UnitId) {g : Ring.Growth} {l : TicketLock Nat (List Ring)} (sound : d.Sound)
    (grows : Ring.Grown d.ring d.head d.length g)
    (retired : l.contents = g.emptied :: d.foreign.contents) :
    Outcome d (.store u) (.reply .stored)
      ({ d with ring := g.grown, foreign := l, head := 0, tail := d.length }.fill u)
  | last (e : Option UnitId) {u : UnitId} (low : d.tail ≤ d.head)
    (held : d.ring.cell d.tail = some u) :
    Outcome d (.lastSlot e) (.reply (.taken u)) (d.vacate d.tail)
  | spent (shown : d.head < d.tail) (hole : d.ring.cell d.head = none) :
    Outcome d .steal (.reply .missed) { d with head := d.head + 1 }
  | passed (shown : d.head < d.tail) (hole : d.ring.cell d.head = none) :
    Outcome d .steal (.go .steal) { d with head := d.head + 1 }
  | stolen {u : UnitId} (shown : d.head < d.tail) (held : d.ring.cell d.head = some u) :
    Outcome d .steal (.reply (.taken u)) { d.vacate d.head with head := d.head + 1 }
  | extracted (side : Side) {u : UnitId} {i : Nat} (held : d.ring.cell i = some u)
    (inside : ¬ (d.head = i ∧ i < d.tail)) :
    Outcome d (.extract side u i d.generation) (.reply (.taken u)) (d.vacate i)
  | extractedFirst (side : Side) {u : UnitId} (shown : d.head < d.tail)
    (held : d.ring.cell d.head = some u) :
    Outcome d (.extract side u d.head d.generation) (.reply (.taken u))
      { d.vacate d.head with head := d.head + 1 }
  | rescanned (side : Side) {u : UnitId} {i g j : Nat} (stale : g ≠ d.generation)
    (first : d.head ≤ j) (last : j < d.tail) :
    Outcome d (.extract side u i g) (.go (.extract side u j d.generation)) d

theorem Outcome.of_metrics {d d' : Deque} {stage : LockedStage} {next : Next LockedStage}
    {m : Metrics LockWaits} (h : { d with metrics := m }.Outcome stage next d') :
    ∃ e, d.Outcome stage next e ∧ e.Matches d' := by
  cases h with
  | kept _ hr => exact ⟨_, .kept stage hr, rfl, rfl, rfl, rfl⟩
  | rebased u sound low =>
    exact ⟨_, .rebased u (sound.congr rfl rfl rfl rfl) low, rfl, rfl, rfl, rfl⟩
  | rebasedStored u sound low =>
    exact ⟨_, .rebasedStored u (sound.congr rfl rfl rfl rfl) low, rfl, rfl, rfl, rfl⟩
  | stored u sound => exact ⟨_, .stored u (sound.congr rfl rfl rfl rfl), rfl, rfl, rfl, rfl⟩
  | grown u sound grows retired =>
    exact ⟨_, .grown u (sound.congr rfl rfl rfl rfl) grows retired, rfl, rfl, rfl, rfl⟩
  | last e low held => exact ⟨_, .last e low held, rfl, rfl, rfl, rfl⟩
  | spent shown hole => exact ⟨_, .spent shown hole, rfl, rfl, rfl, rfl⟩
  | passed shown hole => exact ⟨_, .passed shown hole, rfl, rfl, rfl, rfl⟩
  | stolen shown held => exact ⟨_, .stolen shown held, rfl, rfl, rfl, rfl⟩
  | extracted side held inside =>
    exact ⟨_, .extracted side held inside, rfl, rfl, rfl, rfl⟩
  | extractedFirst side shown held =>
    exact ⟨_, .extractedFirst side shown held, rfl, rfl, rfl, rfl⟩
  | rescanned side stale first last =>
    exact ⟨_, .rescanned side stale first last, rfl, rfl, rfl, rfl⟩

end Deque

namespace Site

variable {s : Site} {π : Pledge} {call : Call} {stage : LockedStage} {u : UnitId}

/-- A turn, as long as it is not concluded, has one of the outcomes. -/
def Leads (s : Site) (stage : LockedStage) (o : Next LockedStage × Site) : Prop :=
  ∃ d, s.deque.Outcome stage o.1 d ∧ d.Matches o.2.deque

section Passing

theorem leads_missed (s : Site) (stage : LockedStage) :
    s.Leads stage (.reply .missed, s.released) :=
  ⟨s.deque, .kept stage (by simp), rfl, rfl, rfl, rfl⟩

theorem store_leads (h : s.Stands (.unit u)) (ht : s.deque.tail < Word.max) :
    Ensures ((LockedStage.store u).pass s) (s.Leads (.store u)) := by
  have hd : s.deque.Sound := h.sound.deque
  by_cases hroom : s.deque.length + 1 < s.deque.ring.capacity
  · rw [LockedStage.pass, LockedStage.run, storeLocked_stored hd hroom ht]
    exact .ok ⟨_, .stored u hd, rfl, rfl, rfl, rfl⟩
  · rcases storeLocked_full hd (Nat.le_of_not_lt hroom) h.counted h.holder_pending with
      ⟨_, hrun⟩ | ⟨_, g, hg, hrun⟩
    · rw [LockedStage.pass, LockedStage.run, hrun]
      exact .ok ⟨_, .kept _ (by simp), rfl, rfl, rfl, rfl⟩
    · obtain ⟨log, metrics, hgrown⟩ := s.exists_grown g
      rw [LockedStage.pass, LockedStage.run, hrun, hgrown]
      exact .ok ⟨_, .grown (l := s.deque.foreign.modify (g.emptied :: ·)) u hd hg rfl,
        rfl, rfl, rfl, rfl⟩

theorem rebase_leads (h : s.Stands (.unit u)) (ht : s.deque.tail = Word.max) :
    Ensures ((LockedStage.rebase u).pass s) (s.Leads (.rebase u)) := by
  have hd : s.deque.Sound := h.sound.deque
  obtain ⟨hstands, -, -, htail⟩ := rebased_glides h ht
  have hd' : s.rebased.released.deque.Sound := hstands.sound.deque
  obtain ⟨log, metrics, hrebased⟩ := s.exists_rebased
  rw [LockedStage.pass, LockedStage.run, rebase_eq hd ht]
  change Ensures (s.rebased.released.place u) _
  by_cases hroom : s.rebased.released.deque.length + 1 < s.rebased.released.deque.ring.capacity
  · rw [place_stored hd' hroom htail, hrebased]
    exact .ok ⟨_, .rebasedStored u hd ht, rfl, rfl, rfl, rfl⟩
  · rw [place_full hd' (Nat.le_of_not_lt hroom), hrebased]
    exact .ok ⟨_, .rebased u hd ht, rfl, rfl, rfl, rfl⟩

theorem lastSlot_leads (h : s.Stands .slot) {e : Option UnitId}
    (ha : s.Awaits call (.lastSlot e)) :
    Ensures ((LockedStage.lastSlot e).pass s) (s.Leads (.lastSlot e)) := by
  have hlow := h.lowered rfl
  cases hc : s.deque.ring.cell s.deque.tail with
  | none =>
    rw [LockedStage.pass, LockedStage.run, lastSlot_hole h.ring hlow hc]
    split
    · change Ensures (s.released.popBack none) _
      rw [popBack_empty (s := s.released) (Nat.le_of_eq hlow.symm) none]
      exact .ok (s.leads_missed _)
    · exact .ok (s.leads_missed _)
  | some u =>
    have he : e = none ∨ e = some u := by
      cases ha with
      | pop => exact .inl rfl
      | removeLast v hv => exact .inr (congrArg some (hv u hc).symm)
    rw [LockedStage.pass, LockedStage.run, lastSlot_taken h.ring hlow hc (h.knows_of_cell hc) he]
    exact .ok ⟨_, .last e (Nat.le_of_eq hlow.symm) hc, rfl, rfl, rfl, rfl⟩

theorem steal_leads (h : s.Stands π) : Ensures (LockedStage.steal.pass s) (s.Leads .steal) := by
  rw [LockedStage.pass, LockedStage.run]
  by_cases hempty : s.deque.tail ≤ s.deque.head
  · rw [stealLocked_empty hempty]
    exact .ok (s.leads_missed _)
  · have hlt : s.deque.head < s.deque.tail := by omega
    have hs := h.sound_of_lt hlt
    cases hc : s.deque.ring.cell s.deque.head with
    | none =>
      rw [stealLocked_hole hs.deque hlt hc]
      change Ensures ((s.setHead (s.deque.head + 1)).released.peekSteal) _
      unfold peekSteal
      split
      · exact .ok ⟨_, .spent hlt hc, rfl, rfl, rfl, rfl⟩
      · exact .ok ⟨_, .passed hlt hc, rfl, rfl, rfl, rfl⟩
    | some u =>
      rw [stealLocked_taken hs.deque hlt hc (hs.knows_of_cell hc)]
      exact .ok ⟨_, .stolen hlt hc, rfl, rfl, rfl, rfl⟩

theorem scan_leads (h : s.Stands π) (side : Side) (u : UnitId) (i : Nat) {g : Nat}
    (hg : g ≠ s.deque.generation) :
    Ensures (s.released.scan side u) (s.Leads (.extract side u i g)) := by
  by_cases hseen : ∃ j, s.deque.head ≤ j ∧ j < s.scanEnd side ∧ s.deque.ring.cell j = some u
  · obtain ⟨j, hj, hj', hc⟩ := hseen
    have hle := s.scanEnd_le side
    obtain ⟨k, hk, hk', -, hscan⟩ :=
      scan_found (s := s.released) (h.released.sound_of_lt (Nat.lt_of_le_of_lt hj
        (Nat.lt_of_lt_of_le hj' hle))).deque side hj hj' hc
    rw [hscan]
    exact .ok ⟨_, .rescanned side hg hk hk', rfl, rfl, rfl, rfl⟩
  · rw [scan_missed (s := s.released) h.ring h.tail_le_round side
      fun j hj hj' hc => hseen ⟨j, hj, hj', hc⟩]
    exact .ok (s.leads_missed _)

theorem extract_leads (h : s.Stands π) (side : Side) (u : UnitId) (i g : Nat) :
    Ensures ((LockedStage.extract side u i g).pass s) (s.Leads (.extract side u i g)) := by
  by_cases hg : g = s.deque.generation
  · subst hg
    by_cases hc : s.deque.ring.cell i = some u
    · rw [LockedStage.pass, LockedStage.run,
        extract_taken h.ring hc (h.knows_of_cell hc) (h.head_lt_max hc) side, settled]
      split
      · rename_i hfirst
        obtain ⟨rfl, hlt⟩ : s.deque.head = i ∧ i < s.deque.tail := hfirst
        exact .ok ⟨_, .extractedFirst side hlt hc, rfl, rfl, rfl, rfl⟩
      · rename_i hinside
        exact .ok ⟨_, .extracted side hc hinside, rfl, rfl, rfl, rfl⟩
    · rw [LockedStage.pass, LockedStage.run, extract_missed h.ring hc]
      exact .ok (s.leads_missed _)
  · rw [LockedStage.pass, LockedStage.run, extract_stale (Ne.symm hg)]
    exact scan_leads h side u i hg

theorem Stands.pass_leads (h : s.Stands π) (ha : s.Awaits call stage)
    (hπ : call.isOwner = true → π = stage.pledge) : Ensures (stage.pass s) (s.Leads stage) := by
  cases ha with
  | rebase u ht =>
    obtain rfl := hπ rfl
    exact rebase_leads h ht
  | store u ht =>
    obtain rfl := hπ rfl
    exact store_leads h ht
  | pop =>
    obtain rfl := hπ rfl
    exact lastSlot_leads h .pop
  | removeLast u hc =>
    obtain rfl := hπ rfl
    exact lastSlot_leads h (.removeLast u hc)
  | steal => exact steal_leads h
  | extract side u i g => exact extract_leads h side u i g

end Passing

theorem settle_matches (call : Call) (o : Next LockedStage × Site) :
    Ensures (call.settle o) fun x => x.1.next = o.1 ∧ o.2.deque.Matches x.2.deque := by
  obtain ⟨next, s⟩ := o
  cases next with
  | reply r =>
    refine .bind (call.conclude_deque r s) ?_
    rintro x ⟨m, hm⟩
    exact .ok ⟨rfl, (congrArg Deque.head hm :), (congrArg Deque.tail hm :),
      (congrArg Deque.ring hm :), (congrArg Deque.generation hm :)⟩
  | go locked => exact .ok ⟨rfl, rfl, rfl, rfl, rfl⟩

theorem Stands.turn_leads (h : s.Stands π) (ha : s.Awaits call stage)
    (hπ : call.isOwner = true → π = stage.pledge) {ticket : Nat}
    (hnow : s.deque.foreign.nowServing = ticket) (ahead : Nat) :
    Ensures (call.turn ticket ahead stage s) fun o =>
      ∃ d, s.deque.Outcome stage o.1.next d ∧ d.Matches o.2.deque := by
  have hcore := s.core_noteWait ahead
  obtain ⟨m, hdeque⟩ := s.exists_deque_noteWait ahead
  rw [Call.turn_eq hnow]
  refine .bind ((h.of_core hcore).pass_leads (ha.congr hcore) hπ) ?_
  rintro o ⟨d, houtcome, hd⟩
  rw [hdeque] at houtcome
  obtain ⟨e, houtcome, he⟩ := houtcome.of_metrics
  refine (settle_matches call o).mono ?_
  rintro x ⟨hnext, hx⟩
  rw [hnext]
  exact ⟨e, houtcome, (he.trans hd).trans hx⟩

end Site

end WorkStealing
