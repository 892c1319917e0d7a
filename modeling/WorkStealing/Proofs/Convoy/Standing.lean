import WorkStealing.Proofs.Deque.Sequential

set_option autoImplicit false

/-!
# Pools with a line at the lock

What a call may do to a pool while others wait for its lock, and what those who wait rely on. A call
that lands bears on the list of queued units in one of three ways: it takes its turn on the list as
it is, it finds nothing in the part of the window that shows, or it comes too late for a unit that
it has seen.
-/
namespace WorkStealing

def Deque.without (d : Deque) (index head tail : Nat) : Deque :=
  { d with ring := d.ring.put index none, head, tail }

def Flight.pledge : Flight → Pledge
  | .landed _ => .none
  | .waiting _ _ stage => stage.pledge

namespace Site

/-- The site without its log, its metrics and its tickets. -/
def core (s : Site) : Site :=
  { s with
    log := #[]
    deque := { s.deque with
      metrics := .new, foreign := ⟨0, 0, s.deque.foreign.contents⟩ } }

/-- The queued units, with the one in the slot that the owner has taken off the window. -/
def backlog (s : Site) (π : Pledge) : List UnitId := (s.whole π).deque.queued

section Core

variable {s s' : Site} {π : Pledge}

theorem core_count (s : Site) (o : Option Tally) : (s.count o).core = s.core := by
  obtain ⟨m, hm⟩ := s.exists_count o
  rw [hm]
  rfl

theorem core_noteWait (s : Site) (rounds : Nat) : (s.noteWait rounds).core = s.core := by
  obtain ⟨m, hm⟩ := s.exists_noteWait rounds
  rw [hm]
  rfl

theorem stands_core : s.core.Stands π ↔ s.Stands π :=
  ⟨fun h => h.congr rfl rfl rfl rfl rfl rfl, fun h => h.congr rfl rfl rfl rfl rfl rfl⟩

theorem Stands.of_core (h : s.Stands π) (hs : s'.core = s.core) : s'.Stands π := by
  rw [← stands_core, hs, stands_core]
  exact h

theorem backlog_core (s : Site) (π : Pledge) : s.core.backlog π = s.backlog π := by
  cases π <;> rfl

theorem backlog_of_core (h : s'.core = s.core) (π : Pledge) : s'.backlog π = s.backlog π := by
  rw [← backlog_core, h, backlog_core]

theorem exists_of_core (h : s'.core = s.core) :
    ∃ log metrics next now, s' = { s with
      log := log
      deque := { s.deque with
        metrics := metrics, foreign := ⟨next, now, s.deque.foreign.contents⟩ } } := by
  refine ⟨s'.log, s'.deque.metrics, s'.deque.foreign.nextTicket, s'.deque.foreign.nowServing, ?_⟩
  exact congrArg (fun x : Site => { x with
    log := s'.log
    deque := { x.deque with
      metrics := s'.deque.metrics
      foreign := ⟨s'.deque.foreign.nextTicket, s'.deque.foreign.nowServing,
        x.deque.foreign.contents⟩ } }) h

end Core

/-- What a waiting call relies on until its turn. -/
inductive Awaits (s : Site) : Call → LockedStage → Prop where
  | rebase (u : UnitId) (ht : s.deque.tail = Word.max) : Awaits s (.push u) (.rebase u)
  | store (u : UnitId) (ht : s.deque.tail < Word.max) : Awaits s (.push u) (.store u)
  | pop : Awaits s .pop (.lastSlot none)
  | removeLast (u : UnitId) (hc : ∀ v, s.deque.ring.cell s.deque.tail = some v → v = u) :
    Awaits s (.remove .owner u) (.lastSlot (some u))
  | steal : Awaits s .steal .steal
  | extract (side : Side) (u : UnitId) (index generation : Nat)
    (hg : generation ≤ s.deque.generation)
    (ho : side = .owner → generation = s.deque.generation) :
    Awaits s (.remove side u) (.extract side u index generation)

/-- What the calls of others leave to an owner who waits. -/
structure Passes (s s' : Site) : Prop where
  tail_eq : s'.deque.tail = s.deque.tail
  generation_eq : s'.deque.generation = s.deque.generation
  cell : ∀ u, s'.deque.ring.cell s.deque.tail = some u → s.deque.ring.cell s.deque.tail = some u

/-- What a call does to a pool on which others wait. -/
structure Steps (s : Site) (π : Pledge) (call : Call) (s' : Site) (π' : Pledge) : Prop where
  stands : s'.Stands π'
  frame : s.Frame s'
  generation_le : s.deque.generation ≤ s'.deque.generation
  kept : s'.deque.generation = s.deque.generation → ∀ i u, s.deque.ring.cell i = some u →
    s'.deque.ring.cell i = some u ∨ u ∉ s'.backlog π'
  passes : call.isOwner = false → s.Passes s'
  capacity : s'.deque.capacity = s.deque.capacity ∨
    Ring.fits s.limit (2 * s.deque.capacity) = true
  resolved : π = .slot → π' ≠ .slot → s'.backlog π' = []

/-- How a call that lands with a reply bears on the list of queued units. A call that has not waited
finds nothing while the last slot is off the window. -/
inductive Bears (s : Site) (π : Pledge) (call : Call) (stage : Option LockedStage) (s' : Site)
    (π' : Pledge) : Reply → Prop where
  | commit {r : Reply} (hslot : stage = none → π ≠ .slot)
    (h : ∀ b : Backlogs, b.Fits s.units s.deque.id (s.backlog π) →
      b.Allows s.lack s.deque.id call r ∧
        b.after s.deque.id call r s.deque.id = s'.backlog π') : Bears s π call stage s' π' r
  | visible (hq : s'.backlog π' = s.backlog π) (h : ∀ b : Backlogs,
      b s.deque.id = s.deque.queued → b.Allows s.lack s.deque.id call .missed) :
    Bears s π call stage s' π' .missed
  | late {side : Side} {u : UnitId} {index : Nat} (hq : s'.backlog π' = s.backlog π)
      (hcall : call = .remove side u)
      (hstage : stage = some (.extract side u index s.deque.generation))
      (hc : s.deque.ring.cell index ≠ some u) : Bears s π call stage s' π' .missed

/-- A bound on the grants that a waiting call needs, next to one for each slot of the window. -/
def weight (s : Site) (π : Pledge) : LockedStage → Nat
  | .steal | .lastSlot _ => 1
  | .store _ => 2
  | .rebase _ => 3
  | .extract _ _ _ generation =>
    1 + (if generation = s.deque.generation then 0 else 1) + π.pending.length

def load (s : Site) (π : Pledge) : Flight → Nat
  | .landed _ => s.deque.length
  | .waiting _ _ locked => s.deque.length + s.weight π locked

inductive Fate (s : Site) (π : Pledge) (call : Call) (stage : Option LockedStage) (s' : Site)
    (π' : Pledge) : Flight → Prop where
  | landed {r : Reply} (hb : s.Bears π call stage s' π' r)
      (hk : ∀ u, r = .taken u → s.units.Knows u) : Fate s π call stage s' π' (.landed r)
  | waiting {ticket ahead : Nat} {locked : LockedStage} (hq : s'.backlog π' = s.backlog π)
      (ha : s'.Awaits call locked) (hs : ∀ side u i g, locked = .extract side u i g →
        g = s'.deque.generation ∧ s'.deque.ring.cell i = some u)
      (hslot : call.isOwner = false → π ≠ .slot) :
      Fate s π call stage s' π' (.waiting ticket ahead locked)

/-- What becomes of a call that was let run. -/
structure Comes (s : Site) (π : Pledge) (call : Call) (stage : Option LockedStage) (budget : Nat)
    (flight : Flight) (s' : Site) (π' : Pledge) : Prop where
  pledge : π' = if call.isOwner then flight.pledge else π
  steps : s.Steps π call s' π'
  load_le : s'.load π' flight ≤ budget
  grown : s'.deque.generation = s.deque.generation ∨
    ∃ u, stage = some (.store u) ∧ flight = .landed .stored
  fate : s.Fate π call stage s' π' flight

section Invariance

variable {s s' x y : Site} {π π' : Pledge} {call : Call} {stage : Option LockedStage}

theorem Awaits.congr {locked : LockedStage} (h : s.Awaits call locked) (hx : x.core = s.core) :
    x.Awaits call locked := by
  obtain ⟨log, metrics, next, now, rfl⟩ := exists_of_core hx
  cases h with
  | rebase u ht => exact .rebase u ht
  | store u ht => exact .store u ht
  | pop => exact .pop
  | removeLast u hc => exact .removeLast u hc
  | steal => exact .steal
  | extract side u i g hg ho => exact .extract side u i g hg ho

theorem Steps.congr (h : s.Steps π call s' π') (hx : x.core = s.core) (hy : y.core = s'.core) :
    x.Steps π call y π' := by
  have hstands := h.stands.of_core hy
  have hq := backlog_of_core hy π'
  obtain ⟨log, metrics, next, now, rfl⟩ := exists_of_core hx
  obtain ⟨log', metrics', next', now', rfl⟩ := exists_of_core hy
  refine ⟨hstands, ⟨h.frame.units, h.frame.id, h.frame.name, h.frame.limit, h.frame.telemetry⟩,
    h.generation_le, ?_, ?_, h.capacity, ?_⟩
  · rw [hq]
    exact h.kept
  · intro hcall
    obtain ⟨htail, hg, hcell⟩ := h.passes hcall
    exact ⟨htail, hg, hcell⟩
  · rw [hq]
    exact h.resolved

theorem Bears.congr {r : Reply} (h : s.Bears π call stage s' π' r) (hx : x.core = s.core)
    (hy : y.core = s'.core) : x.Bears π call stage y π' r := by
  have hqx := backlog_of_core hx π
  have hqy := backlog_of_core hy π'
  obtain ⟨log, metrics, next, now, rfl⟩ := exists_of_core hx
  cases h with
  | commit hslot h =>
    refine .commit hslot ?_
    rw [hqx, hqy]
    exact h
  | visible hq h => exact .visible (by rw [hqx, hqy, hq]) h
  | late hq hcall hstage hc => exact .late (by rw [hqx, hqy, hq]) hcall hstage hc

theorem Fate.congr {flight : Flight} (h : s.Fate π call stage s' π' flight)
    (hx : x.core = s.core) (hy : y.core = s'.core) : x.Fate π call stage y π' flight := by
  cases h with
  | landed hb hk =>
    refine .landed (hb.congr hx hy) ?_
    obtain ⟨log, metrics, next, now, rfl⟩ := exists_of_core hx
    exact hk
  | waiting hq ha hs hslot =>
    refine .waiting ?_ (ha.congr hy) ?_ hslot
    · rw [backlog_of_core hx, backlog_of_core hy, hq]
    · obtain ⟨log, metrics, next, now, rfl⟩ := exists_of_core hy
      exact hs

theorem load_of_core (h : s'.core = s.core) (π : Pledge) (flight : Flight) :
    s'.load π flight = s.load π flight := by
  obtain ⟨log, metrics, next, now, rfl⟩ := exists_of_core h
  rfl

theorem Comes.congr {budget : Nat} {flight : Flight}
    (h : s.Comes π call stage budget flight s' π') (hx : x.core = s.core)
    (hy : y.core = s'.core) : x.Comes π call stage budget flight y π' where
  pledge := h.pledge
  steps := h.steps.congr hx hy
  load_le := by
    rw [load_of_core hy]
    exact h.load_le
  grown := by
    have hgrown := h.grown
    obtain ⟨log, metrics, next, now, rfl⟩ := exists_of_core hx
    obtain ⟨log', metrics', next', now', rfl⟩ := exists_of_core hy
    exact hgrown
  fate := h.fate.congr hx hy

theorem Awaits.generation_le {side : Side} {u : UnitId} {i g : Nat}
    (h : s.Awaits call (.extract side u i g)) : g ≤ s.deque.generation := by
  generalize hl : LockedStage.extract side u i g = locked at h
  cases h with
  | extract _ _ _ _ hg _ =>
    cases hl
    exact hg
  | _ => cases hl

theorem Awaits.pledge_of_push {u : UnitId} {locked : LockedStage}
    (h : s.Awaits (.push u) locked) : locked.pledge = .unit u := by
  cases h <;> rfl

theorem Awaits.passes {locked : LockedStage} (h : s.Awaits call locked) (hp : s.Passes s') :
    s'.Awaits call locked := by
  cases h with
  | rebase u ht => exact .rebase u (hp.tail_eq.trans ht)
  | store u ht => exact .store u (by rw [hp.tail_eq]; exact ht)
  | pop => exact .pop
  | removeLast u hc =>
    refine .removeLast u fun v hv => hc v (hp.cell v ?_)
    rw [← hp.tail_eq]
    exact hv
  | steal => exact .steal
  | extract side u i g hg ho =>
    refine .extract side u i g ?_ ?_
    · rw [hp.generation_eq]
      exact hg
    · rw [hp.generation_eq]
      exact ho

theorem Awaits.of_foreign {locked : LockedStage} (h : s.Awaits call locked)
    (hc : call.isOwner = false) (hg : s.deque.generation ≤ s'.deque.generation) :
    s'.Awaits call locked := by
  cases h with
  | rebase | store | pop => cases hc
  | removeLast u => cases hc
  | steal => exact .steal
  | extract side u i g hle ho =>
    refine .extract side u i g (Nat.le_trans hle hg) fun hside => ?_
    subst hside
    cases hc

end Invariance

section Changes

variable {s s' : Site} {π π' : Pledge} {call : Call} {stage : Option LockedStage}

@[simp] theorem units_whole (s : Site) (π : Pledge) : (s.whole π).units = s.units := by
  cases π <;> rfl

@[simp] theorem id_whole (s : Site) (π : Pledge) : (s.whole π).deque.id = s.deque.id := by
  cases π <;> rfl

@[simp] theorem ring_whole (s : Site) (π : Pledge) : (s.whole π).deque.ring = s.deque.ring := by
  cases π <;> rfl

theorem Stands.nodup_backlog (h : s.Stands π) : (s.backlog π).Nodup := h.sound.nodup_queued

theorem Stands.mem_backlog_iff (h : s.Stands π) {u : UnitId} :
    u ∈ s.backlog π ↔ ∃ i, s.deque.ring.cell i = some u := by
  rw [backlog, h.sound.deque.mem_queued_iff, ring_whole]

theorem Stands.holder_of_cell (h : s.Stands π) {i : Nat} {u : UnitId}
    (hc : s.deque.ring.cell i = some u) : s.units.holder? u = some s.deque.id := by
  have hheld := h.sound.holder_of_mem (h.mem_backlog_iff.2 ⟨i, hc⟩)
  rwa [units_whole, id_whole] at hheld

theorem Stands.knows_of_cell (h : s.Stands π) {i : Nat} {u : UnitId}
    (hc : s.deque.ring.cell i = some u) : s.units.Knows u :=
  UnitTable.knows_of_holder? (h.holder_of_cell hc)

theorem Stands.mod_eq_of_cell (h : s.Stands π) {i j : Nat} {u : UnitId}
    (hi : s.deque.ring.cell i = some u) (hj : s.deque.ring.cell j = some u) :
    i % s.deque.ring.capacity = j % s.deque.ring.capacity := by
  have hd := h.sound.deque.mod_eq_of_cell h.nodup_backlog (i := i) (j := j) (u := u)
  rw [ring_whole] at hd
  exact hd hi hj

theorem Stands.not_cell_of_pending {u : UnitId} (h : s.Stands (.unit u)) (i : Nat) :
    s.deque.ring.cell i ≠ some u := by
  intro hc
  have hs : s.Sound [u] := h.sound
  have hmem : u ∈ s.deque.queued := h.mem_backlog_iff.2 ⟨i, hc⟩
  exact (List.nodup_append.1 hs.nodup).2.2 u hmem u (List.mem_singleton_self u) rfl

theorem Steps.refl (h : s.Stands π) (call : Call) : s.Steps π call s π where
  stands := h
  frame := Frame.refl s
  generation_le := Nat.le_refl _
  kept _ _ _ hc := .inl hc
  passes _ := ⟨rfl, rfl, fun _ hc => hc⟩
  capacity := .inl rfl
  resolved hπ hπ' := absurd hπ hπ'

/-- What cannot be had once cannot be had later, since only a ring that can be had changes the
capacity. -/
theorem Steps.lacks (h : s.Steps π call s' π') {n : Nat} (hn : s.Lacks n) : s'.Lacks n := by
  obtain ⟨rfl, hfits⟩ := hn
  rcases h.capacity with hsame | hgrown
  · rw [Lacks, hsame, h.frame.limit]
    exact ⟨rfl, hfits⟩
  · rw [hgrown] at hfits
    cases hfits

theorem Steps.take {u : UnitId} {i m n : Nat} (h : s.Stands π)
    (hc : s.deque.ring.cell i = some u) (hπ : π'.pending = π.pending)
    (hd : (whole { s with deque := s.deque.without i m n } π').deque.Sound)
    (hq : backlog { s with deque := s.deque.without i m n } π' = (s.backlog π).erase u)
    (hlow : π' = .slot → m = n) (htail : call.isOwner = false → n = s.deque.tail)
    (hres : π = .slot → π' ≠ .slot → (s.backlog π).erase u = []) :
    s.Steps π call { s with units := s.units.letGo u, deque := s.deque.without i m n } π' := by
  have hmem := h.mem_backlog_iff.2 ⟨i, hc⟩
  have hq' : backlog { s with units := s.units.letGo u, deque := s.deque.without i m n } π' =
      (s.backlog π).erase u := by
    rw [← hq]
    cases π' <;> rfl
  have hsound := h.sound.take hmem hd ((id_whole _ π').trans (id_whole s π).symm) hq
  have hcell : ∀ j v, (s.deque.without i m n).ring.cell j = some v →
      s.deque.ring.cell j = some v := by
    intro j v hv
    rw [Deque.without, h.ring.cell_put] at hv
    split at hv
    · cases hv
    · exact hv
  refine ⟨⟨?_, hlow⟩, Frame.of_units s (UnitTable.Frame.letGo (h.holder_of_cell hc)) rfl rfl,
    Nat.le_refl _, ?_, ?_, .inl (Ring.capacity_put ..), ?_⟩
  · rw [hπ]
    have hunits : (whole { s with units := s.units.letGo u, deque := s.deque.without i m n }
        π').units = (s.whole π).units.letGo u := by
      rw [units_whole, units_whole]
    refine hsound.congr hunits ?_ ?_ ?_ ?_ ?_ <;> cases π' <;> rfl
  · -- a unit that is gone from its slot is gone from the list, in which it stood only once
    intro _ j v hv
    change (s.deque.without i m n).ring.cell j = some v ∨ _
    rw [hq', Deque.without, h.ring.cell_put]
    split
    · rename_i hij
      have huv : u = v := by
        rw [h.ring.cell_congr hij, hc] at hv
        exact Option.some.inj hv
      subst huv
      exact .inr h.nodup_backlog.not_mem_erase
    · exact .inl hv
  · intro hcall
    exact ⟨htail hcall, rfl, fun v hv => hcell _ v hv⟩
  · intro hslot hslot'
    rw [hq']
    exact hres hslot hslot'

end Changes

end Site

end WorkStealing
