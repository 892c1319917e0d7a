import WorkStealing.Proofs.Convoy.Balance
import WorkStealing.Proofs.Convoy.Line

set_option autoImplicit false

/-!
# Stages one at a time

A turn is a grant and, when the call goes on, a free stage. Others may run in between. What the call
has found out by then is little, and they leave it alone.
-/
namespace WorkStealing

def Next.got : Next FreeStage → List UnitId
  | .reply r => r.got
  | .go _ => []

def Next.gave (call : Call) : Next FreeStage → List UnitId
  | .reply r => call.gave r
  | .go _ => []

theorem Site.Steady.turn {R : Option Tally → Site → Site → Prop} (h : Steady R) (s : Site)
    (call : Call) (ticket ahead : Nat) (locked : LockedStage) :
    Ensures (call.turn ticket ahead locked s) fun x => R (x.1.tally? call) s x.2 := by
  refine .bind (h.grant s call ticket ahead locked) ?_
  rintro ⟨next, s'⟩ hs'
  cases next with
  | reply r => exact .ok hs'
  | go stage => exact (h.advance s' call stage).mono fun x hs => h.trans hs' hs

theorem Call.turn_works (call : Call) (s : Site) (ticket ahead : Nat) (locked : LockedStage) :
    Ensures (call.turn ticket ahead locked s) fun x => s.Works (x.1.tally? call) x.2 :=
  Site.Works.steady.turn s call ticket ahead locked

namespace Site

variable {s s' : Site} {π : Pledge} {call : Call}

/-- What a call relies on that has been granted the lock and goes on without it. -/
inductive Resumes (s : Site) : Call → FreeStage → Pledge → Prop where
  | place (u : UnitId) (ht : s.deque.tail < Word.max) : Resumes s (.push u) (.place u) (.unit u)
  | pop : Resumes s .pop (.popBack none) .none
  | steal (π : Pledge) : Resumes s .steal .steal π
  | scan (u : UnitId) (π : Pledge) : Resumes s (.remove .foreign u) (.scan .foreign u) π

theorem Resumes.passes {stage : FreeStage} (h : s.Resumes call stage π) (hp : s.Passes s') :
    s'.Resumes call stage π := by
  cases h with
  | place u ht => exact .place u (by rw [hp.tail_eq]; exact ht)
  | pop => exact .pop
  | steal => exact .steal π
  | scan u => exact .scan u π

structure Cedes (s : Site) (π : Pledge) (call : Call) (s' : Site) (π' : Pledge)
    (stage : FreeStage) : Prop where
  steps : s.Steps π call s' π'
  backlog_eq : s'.backlog π' = s.backlog π
  resumes : s'.Resumes call stage π'
  releases : s.Releases s'
  foreign : call.isOwner = false → π' = π

theorem Cedes.of_glides {stage : FreeStage} {π' : Pledge} (h : s.Glides π call s' π')
    (hs : s'.Stands π') (hresumes : s'.Resumes call stage π') (hreleases : s.Releases s') :
    s.Cedes π call s' π' stage :=
  ⟨h.steps (.refl hs call), h.backlog_eq, hresumes, hreleases, fun hcall => (h.foreign hcall).1⟩

theorem Cedes.congr {stage : FreeStage} {π' : Pledge} {x : Site}
    (h : s.Cedes π call s' π' stage) (hx : x.core = s.core)
    (hforeign : x.deque.foreign = s.deque.foreign) : x.Cedes π call s' π' stage where
  steps := h.steps.congr hx rfl
  backlog_eq := h.backlog_eq.trans (backlog_of_core hx π).symm
  resumes := h.resumes
  releases := by
    rw [Releases, hforeign]
    exact h.releases
  foreign := h.foreign

section Cedes

variable {u : UnitId} {stage : FreeStage}

theorem rebase_cedes (h : s.Stands (.unit u)) (ht : s.deque.tail = Word.max)
    (hrun : (LockedStage.rebase u).run s = .ok (.go stage, s')) :
    ∃ π', s.Cedes (.unit u) (.push u) s'.released π' stage := by
  have hs : s.Sound [u] := h.sound
  rw [LockedStage.run, rebase_eq hs.deque ht] at hrun
  cases hrun
  obtain ⟨hstands, hglides, _, htail⟩ := rebased_glides h ht
  refine ⟨_, .of_glides hglides hstands (.place u htail) ?_⟩
  obtain ⟨log, metrics, hrebased⟩ := s.exists_rebased
  rw [hrebased]
  exact ⟨rfl, rfl⟩

theorem store_replies (h : s.Stands (.unit u)) (ht : s.deque.tail < Word.max) :
    (LockedStage.store u).run s ≠ .ok (.go stage, s') := by
  intro hrun
  have hs : s.Sound [u] := h.sound
  rw [LockedStage.run] at hrun
  by_cases hroom : s.deque.length + 1 < s.deque.ring.capacity
  · rw [storeLocked_stored hs.deque hroom ht] at hrun
    cases hrun
  · rcases storeLocked_full hs.deque (by omega) h.counted h.holder_pending with
      ⟨_, hfull⟩ | ⟨_, g, _, hfull⟩
    all_goals
      rw [hfull] at hrun
      cases hrun

theorem pop_cedes (h : s.Stands .slot)
    (hrun : (LockedStage.lastSlot none).run s = .ok (.go stage, s')) :
    ∃ π', s.Cedes .slot .pop s'.released π' stage := by
  rw [LockedStage.run] at hrun
  cases hc : s.deque.ring.cell s.deque.tail with
  | some u =>
    rw [lastSlot_taken h.ring (h.lowered rfl) hc (h.knows_of_cell hc) (.inl rfl)] at hrun
    cases hrun
  | none =>
    rw [lastSlot_hole h.ring (h.lowered rfl) hc] at hrun
    cases hrun
    have hnil := (h.of_last_hole hc).2
    exact ⟨.none, (Steps.last_hole h hc rfl).congr rfl rfl,
      h.queued_of_slot.trans hnil.symm, .pop, ⟨rfl, rfl⟩, by simp [Call.isOwner]⟩

theorem removeLast_replies (h : s.Stands .slot)
    (hlast : ∀ v, s.deque.ring.cell s.deque.tail = some v → v = u) :
    (LockedStage.lastSlot (some u)).run s ≠ .ok (.go stage, s') := by
  intro hrun
  rw [LockedStage.run] at hrun
  cases hc : s.deque.ring.cell s.deque.tail with
  | some v =>
    obtain rfl := hlast v hc
    rw [lastSlot_taken h.ring (h.lowered rfl) hc (h.knows_of_cell hc) (.inr rfl)] at hrun
    cases hrun
  | none =>
    rw [lastSlot_hole h.ring (h.lowered rfl) hc] at hrun
    cases hrun

theorem steal_cedes (h : s.Stands π) (hrun : LockedStage.steal.run s = .ok (.go stage, s')) :
    ∃ π', s.Cedes π .steal s'.released π' stage := by
  rw [LockedStage.run] at hrun
  by_cases hempty : s.deque.tail ≤ s.deque.head
  · rw [stealLocked_empty hempty] at hrun
    cases hrun
  · have hlt : s.deque.head < s.deque.tail := by omega
    have hs := h.sound_of_lt hlt
    cases hc : s.deque.ring.cell s.deque.head with
    | some u =>
      rw [stealLocked_taken hs.deque hlt hc (hs.knows_of_cell hc)] at hrun
      cases hrun
    | none =>
      rw [stealLocked_hole hs.deque hlt hc] at hrun
      cases hrun
      obtain ⟨hstands, hglides⟩ := dropFront_glides h hlt hc
      exact ⟨π, .of_glides hglides hstands (.steal π) ⟨rfl, rfl⟩⟩

theorem extract_cedes {side : Side} {i g : Nat} (h : s.Stands π)
    (ho : side = .owner → g = s.deque.generation)
    (hrun : (LockedStage.extract side u i g).run s = .ok (.go stage, s')) :
    ∃ π', s.Cedes π (.remove side u) s'.released π' stage := by
  rw [LockedStage.run] at hrun
  by_cases hsame : g = s.deque.generation
  · subst hsame
    by_cases hc : s.deque.ring.cell i = some u
    · rw [extract_taken h.ring hc (h.knows_of_cell hc) (h.head_lt_max hc) side] at hrun
      cases hrun
    · rw [extract_missed h.ring hc] at hrun
      cases hrun
  · rw [extract_stale (Ne.symm hsame)] at hrun
    cases hrun
    cases side with
    | owner => exact absurd (ho rfl) hsame
    | foreign => exact ⟨π, .of_glides (glides_released s π _) h.released (.scan u π) ⟨rfl, rfl⟩⟩

end Cedes

/-- A locked stage that goes on has brought the counters back, has met a hole, or has come too late
to trust what a scan saw. -/
theorem run_go {locked : LockedStage} {stage : FreeStage} (h : s.Stands π)
    (ha : s.Awaits call locked) (hπ : call.isOwner = true → π = locked.pledge)
    (hrun : locked.run s = .ok (.go stage, s')) : ∃ π', s.Cedes π call s'.released π' stage := by
  cases ha with
  | rebase u ht =>
    obtain rfl := hπ rfl
    exact rebase_cedes h ht hrun
  | store u ht =>
    obtain rfl := hπ rfl
    exact absurd hrun (store_replies h ht)
  | pop =>
    obtain rfl := hπ rfl
    exact pop_cedes h hrun
  | removeLast u hlast =>
    obtain rfl := hπ rfl
    exact absurd hrun (removeLast_replies h hlast)
  | steal => exact steal_cedes h hrun
  | extract side u i g hg ho => exact extract_cedes h ho hrun

inductive Grants (s : Site) (π : Pledge) (call : Call) (locked : LockedStage) (s' : Site) :
    Pledge → Next FreeStage → Prop where
  | lands {π' : Pledge} {r : Reply} {budget : Nat}
    (h : s.Comes π call (some locked) budget (.landed r) s' π') (hr : s.Releases s') :
    Grants s π call locked s' π' (.reply r)
  | cedes {π' : Pledge} {stage : FreeStage} (h : s.Cedes π call s' π' stage) :
    Grants s π call locked s' π' (.go stage)

theorem grant_eq {ticket : Nat} (hticket : s.deque.foreign.nowServing = ticket) (call : Call)
    (ahead : Nat) (locked : LockedStage) :
    call.grant ticket ahead locked s = locked.run (s.noteWait ahead) >>= fun x =>
      match x with
      | (.reply r, s) => do return (.reply r, ← call.conclude r s.released)
      | (.go stage, s) => return (.go stage, s.released) := by
  have hserves : s.deque.foreign.serves ticket = true := decide_eq_true hticket
  rw [Call.grant, require_eq_ok hserves, ok_bind]
  cases locked.run (s.noteWait ahead) with
  | error e => rfl
  | ok o =>
    obtain ⟨next, s'⟩ := o
    cases next <;> rfl

/-- A call that is served has its locked stage, and lands or goes on. -/
theorem grant_comes {locked : LockedStage} {ticket : Nat} (h : s.Stands π)
    (hticket : s.deque.foreign.nowServing = ticket) (ha : s.Awaits call locked)
    (hπ : call.isOwner = true → π = locked.pledge) (ahead : Nat) :
    ∃ next s' π', call.grant ticket ahead locked s = .ok (next, s') ∧
      s.Grants π call locked s' π' next := by
  obtain ⟨flight, x, π', hturn, hcomes, hqueues⟩ :=
    turn_comes h hticket ha hπ (Nat.le_succ _) ahead
  have hcore := s.core_noteWait ahead
  have hforeign : (s.noteWait ahead).deque.foreign = s.deque.foreign := by
    obtain ⟨m, hm⟩ := s.exists_noteWait ahead
    rw [hm]
  -- the whole turn tells how a call lands; one that goes on has to be opened at its locked stage
  cases hgrant : call.grant ticket ahead locked s with
  | error e =>
    rw [Call.turn, hgrant] at hturn
    cases hturn
  | ok o =>
    obtain ⟨next, s'⟩ := o
    cases next with
    | reply r =>
      rw [Call.turn, hgrant] at hturn
      cases hturn
      exact ⟨_, _, π', rfl, .lands hcomes hqueues⟩
    | go stage =>
      rw [grant_eq hticket] at hgrant
      cases hrun : locked.run (s.noteWait ahead) with
      | error e =>
        rw [hrun] at hgrant
        cases hgrant
      | ok o =>
        obtain ⟨next, y⟩ := o
        rw [hrun] at hgrant
        cases next with
        | reply r =>
          simp only [ok_bind] at hgrant
          cases hr : call.conclude r y.released with
          | error e =>
            rw [hr] at hgrant
            cases hgrant
          | ok z =>
            rw [hr] at hgrant
            cases hgrant
        | go stage' =>
          cases hgrant
          obtain ⟨π'', hcedes⟩ := run_go (h.of_core hcore) (ha.congr hcore) hπ hrun
          exact ⟨_, _, π'', rfl, .cedes (hcedes.congr hcore.symm hforeign.symm)⟩

theorem resume_comes {stage : FreeStage} (h : s.Stands π) (hr : s.Resumes call stage π) :
    ∃ flight s' π', call.advance stage s = .ok (flight, s') ∧
      s.Comes π call none (s.deque.length + 2) flight s' π' ∧ s.Queues flight s' := by
  have hyields : ∃ o, stage.run s = .ok o ∧ s.Yields π call none (s.deque.length + 2) o ∧
      o.2.deque.foreign = s.deque.foreign := by
    cases hr with
    | place u ht => exact place_yields none h ht (Nat.le_refl _)
    | pop => exact pop_opens h (Nat.le_succ _)
    | steal =>
      obtain ⟨o, hrun, hyields, hsame⟩ := peekSteal_yields none h (Nat.le_succ _)
      exact ⟨o, hrun, hyields, by rw [hsame]⟩
    | scan u =>
      have hpending := π.length_pending_le
      obtain ⟨o, hrun, hyields, hsame⟩ := scan_yields none .foreign u h
        (show _ ≤ s.deque.length + 2 by omega) (by simp) (by simp)
      exact ⟨o, hrun, hyields, by rw [hsame]⟩
  obtain ⟨o, hrun, hyields, hforeign⟩ := hyields
  obtain ⟨flight, s', π', hsettle, hcomes, hqueues⟩ := settle_comes hyields rfl
  refine ⟨flight, s', π', ?_, hcomes, ?_⟩
  · rw [Call.advance_eq, hrun]
    exact hsettle
  · cases flight with
    | landed r | waiting =>
      rw [Queues, hforeign] at hqueues
      exact hqueues

theorem Grants.steps {locked : LockedStage} {π' : Pledge} {next : Next FreeStage}
    (h : s.Grants π call locked s' π' next) : s.Steps π call s' π' := by
  cases h with
  | lands h => exact h.steps
  | cedes h => exact h.steps

theorem Grants.releases {locked : LockedStage} {π' : Pledge} {next : Next FreeStage}
    (h : s.Grants π call locked s' π' next) : s.Releases s' := by
  cases h with
  | lands _ hr => exact hr
  | cedes h => exact h.releases

theorem Grants.trades {locked : LockedStage} {π' : Pledge} {next : Next FreeStage}
    (h : s.Grants π call locked s' π' next) (hw : s.Works (next.tally? call) s') :
    s.Trades π (next.gave call) next.got s' π' := by
  cases h with
  | lands h => exact h.trades hw
  | cedes h => exact hw.trades_none h.backlog_eq

theorem Grants.pledge {locked : LockedStage} {π' : Pledge} {next : Next FreeStage}
    (h : s.Grants π call locked s' π' next) (hcall : call.isOwner = false) : π' = π := by
  cases h with
  | lands h =>
    rw [h.pledge, hcall]
    rfl
  | cedes h => exact h.foreign hcall

end Site

end WorkStealing
