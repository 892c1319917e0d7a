import WorkStealing.Proofs.PoolConfig.Rules
import WorkStealing.Proofs.Session.Handover
import WorkStealing.Proofs.Session.Invariant

set_option autoImplicit false

/-!
# Opening pools

A pool is opened as it was asked for, or not at all: a try that fails, because of its configuration
or because there is no room for the ring, leaves no trace in the world.
-/
namespace WorkStealing

theorem PoolConfig.Acceptable.fits_iff {c : PoolConfig} (h : c.Acceptable) (limit : Option Nat) :
    Ring.fits limit c.initialCapacity = true ↔ ∀ l ∈ limit, c.initialCapacity ≤ l := by
  obtain ⟨k, -, hk, hc⟩ := h.capacity
  have hpow := Nat.pow_le_pow_right (n := 2) (by omega) hk
  have hmax : c.initialCapacity ≤ Ring.maxSlots := by
    unfold Ring.maxSlots
    omega
  cases limit <;> simp [Ring.fits, hmax]

namespace World

variable {w v : World} {c : PoolConfig} {n : Nat} {k : PoolHandle} {d : Deque}

theorem Rebound.live (h : w.Rebound n (some k) v) (hl : w.Live k.pool d) : v.Live k.pool d := by
  cases h with
  | kept => exact hl
  | ended former live free =>
    exact (live_close live live.2).2 ⟨fun hk => free (n, k) List.mem_cons_self hk, hl⟩

theorem Rebound.handle?_eq (h : w.Rebound n (some k) v) : v.handle? n = some k := by
  cases h <;> exact List.lookup_cons_self

/-- A try to open a pool fails and leaves everything as it was: the pools and the next number among
them, the handles, the units and the log. As a step of a session it reports no event. -/
def Declines (w : World) (c : PoolConfig) (e : PoolError) : Prop :=
  ∀ n, (∀ start, w.openPool n c start = .ok (.error e, w)) ∧
    w.step (.new n (some c.initialCapacity) c.name) =
      .ok (⟨.error e, w.sizeOf n, #[]⟩, w.unlogged)

theorem declines_of_openPool {e : PoolError}
    (h : ∀ (w' : World) (n start : Nat), w'.limit = w.limit →
      w'.openPool n c start = .ok (.error e, w')) : w.Declines c e := by
  intro n
  refine ⟨fun start => h w n start rfl, ?_⟩
  have hopen : w.unlogged.openPool n ⟨c.initialCapacity, c.name⟩ 0 = .ok (.error e, w.unlogged) :=
    h w.unlogged n 0 rfl
  have hact : w.unlogged.answer (.new n (some c.initialCapacity) c.name) =
      .ok (.error e, w.unlogged) := by
    change w.unlogged.act (.new n (some c.initialCapacity) c.name) = _
    simp only [act, Option.getD_some, hopen, ok_bind, pure_eq_ok]
  rw [step_eq, hact]
  rfl

theorem declines_of_firstBreaks (w : World) {p : ConfigProblem} (h : c.FirstBreaks p) :
    w.Declines c (.config p.message) := by
  refine declines_of_openPool fun w' n start _ => ?_
  rw [openPool, PoolConfig.validate_eq_error_iff.2 h]
  rfl

theorem declines_of_acceptable (h : c.Acceptable)
    (hlimit : ∃ l ∈ w.limit, l < c.initialCapacity) :
    w.Declines c (.resourceExhausted c.initialCapacity) := by
  refine declines_of_openPool fun w' n start hw => ?_
  obtain ⟨l, hl, hlt⟩ := hlimit
  have hfits : ¬ Ring.fits w'.limit c.initialCapacity = true := fun hfits =>
    absurd ((h.fits_iff _).1 hfits l (hw ▸ hl)) (by omega)
  rw [openPool_eq w' (PoolConfig.validate_eq_ok_iff.2 h), if_neg hfits]

/-- What a try to open a pool comes to. -/
structure Constructs (w : World) (c : PoolConfig) : Prop where
  refused : ∀ p, c.FirstBreaks p → w.Declines c (.config p.message)
  exhausted : c.Acceptable → (∃ l ∈ w.limit, l < c.initialCapacity) →
    w.Declines c (.resourceExhausted c.initialCapacity)
  opened : c.Acceptable → (∀ l ∈ w.limit, c.initialCapacity ≤ l) → ∀ n start, start ≤ Word.max →
    ∃ v d, w.openPool n c start = .ok (.ok (.ofIndex w.pools.size), v) ∧
      v.handle? n = some ⟨.owner, .ofIndex w.pools.size⟩ ∧ v.Live (.ofIndex w.pools.size) d ∧
      d.name = c.name ∧ d.capacity = c.initialCapacity ∧ d.head = start ∧ d.tail = start ∧
      ∀ s ∈ d.ring.slots, s = none

theorem Sound.constructs (h : w.Sound none none) (c : PoolConfig) : w.Constructs c where
  refused _ hp := w.declines_of_firstBreaks hp
  exhausted hc hlimit := declines_of_acceptable hc hlimit
  opened hc hlimit n start hstart := by
    have hvalid := PoolConfig.validate_eq_ok_iff.2 hc
    have hlive : (w.opened c start).Live (.ofIndex w.pools.size) (.fresh c start _) :=
      live_opened.2 (.inl ⟨rfl, rfl⟩)
    obtain ⟨v, hrun, hrebound⟩ := (h.opened hvalid hstart).bind_rebound
      (k := ⟨.owner, .ofIndex w.pools.size⟩) hlive (fun p hp => (Option.some.inj hp).symm) n
    refine ⟨v, _, ?_, hrebound.handle?_eq, hrebound.live hlive, rfl, Ring.capacity_blank _, rfl,
      rfl, fun s hs => Array.eq_of_mem_replicate hs⟩
    rw [openPool_eq w hvalid, if_pos ((hc.fits_iff _).2 hlimit), hrun]
    rfl

open PoolConfig (build asked Setting)

/-- What settings ask for is built, validated and opened by the same rules, and the first of them
that it breaks is the one to blame. -/
theorem run_constructs (settings : List Setting) (telemetry hooks : Bool) (ops : List Op) :
    (∀ c, build settings = .ok c ↔ c = asked settings ∧ c.Acceptable) ∧
      (∀ p, build settings = .error p ↔ (asked settings).FirstBreaks p) ∧
      (∀ c : PoolConfig, (c.validate = .ok () ↔ c.Acceptable) ∧
        ∀ p, c.validate = .error p ↔ c.FirstBreaks p) ∧
      ∃ reports w, (start telemetry hooks).run ops = .ok (reports, w) ∧ ∀ c, w.Constructs c := by
  obtain ⟨reports, w, hrun, hw⟩ := (sound_start telemetry hooks).run ops
  exact ⟨fun c => PoolConfig.build_eq_ok_iff, fun p => PoolConfig.build_eq_error_iff,
    fun c => ⟨PoolConfig.validate_eq_ok_iff, fun p => PoolConfig.validate_eq_error_iff⟩,
    reports, w, hrun, hw.constructs⟩

end World

end WorkStealing
