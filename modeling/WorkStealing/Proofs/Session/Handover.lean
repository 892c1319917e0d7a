import WorkStealing.Proofs.Session.Bystanders

set_option autoImplicit false

/-!
# Handles that change hands

A handle is made, given a number that was in use, or dropped. The pool that loses its last handle by
that ends, and no other does.
-/
namespace WorkStealing

namespace Op

def opens : Op → Bool
  | .new .. | .newAt .. => true
  | _ => false

variable {op : Op} {n : Nat}

theorem mem_names_of_rebinds (h : op.rebinds? = some n) : n ∈ op.names := by
  cases op <;> cases h <;> exact List.mem_cons_self

end Op

namespace World

def rehandled (w : World) (n : Nat) (k? : Option PoolHandle) : World :=
  { w with handles := (k?.map (Prod.mk n)).toList ++ w.handles.filter (·.1 ≠ n) }

/-- The number `n` has gone to `k?`, and the pool without a handle has ended, if there is one. -/
inductive Rebound (w : World) (n : Nat) (k? : Option PoolHandle) : World → Prop
  | kept : Rebound w n k? (w.rehandled n k?)
  | ended {old : PoolHandle} {d : Deque} (former : w.handle? n = some old)
    (live : w.Live old.pool d) (free : ∀ x ∈ (w.rehandled n k?).handles, x.2.pool ≠ old.pool) :
    Rebound w n k? ((w.rehandled n k?).close (w.site d).ended)

section Rebinding

variable {w v : World} {loose : Option PoolId} {n : Nat} {k : PoolHandle} {d : Deque}

theorem Sound.settled_rebound {k? : Option PoolHandle} (hk : w.handle? n = some k)
    (h : (w.rehandled n k?).Sound none (some k.pool)) (hl : w.Live k.pool d) :
    ∃ v, (w.rehandled n k?).settlePool k.pool = .ok v ∧ w.Rebound n k? v := by
  refine ⟨_, (settlePool_eq h hl).1, ?_⟩
  unfold settled
  split
  · exact .kept
  · rename_i hany
    refine .ended hk hl fun x hx hxp => hany (List.any_eq_true.2 ⟨x, hx, ?_⟩)
    rw [hl.2]
    exact decide_eq_true hxp

theorem Sound.dropHandle_rebound (h : w.Sound none none) (hk : w.handle? n = some k) :
    ∃ v, w.dropHandle n = .ok v ∧ w.Rebound n none v := by
  obtain ⟨d, hl⟩ := h.live_of_handle? hk
  rw [dropHandle, hk]
  exact Sound.settled_rebound hk (show (w.rehandled n none).Sound none _ from h.dropped hk) hl

theorem Sound.bind_rebound (h : w.Sound none loose) (hl : w.Live k.pool d)
    (hloose : ∀ p, loose = some p → p = k.pool) (n : Nat) :
    ∃ v, w.bind n k = .ok v ∧ w.Rebound n (some k) v := by
  have hbound := h.bound (n := n) hl hloose
  rw [World.bind]
  cases hold : w.handle? n with
  | none => exact ⟨_, rfl, .kept⟩
  | some old =>
    rw [hold] at hbound
    obtain ⟨e, he⟩ := h.live_of_handle? hold
    exact Sound.settled_rebound hold (show (w.rehandled n (some k)).Sound none _ from hbound) he

end Rebinding

/-- What a step does that gives away the number `n` for a handle or takes it back. -/
inductive Rebinds (w : World) (op : Op) (n : Nat) : Answer → World → Prop
  /-- There is nobody to make a handle for, or no pool could be had. -/
  | idle {a : Answer} (silent : a.opened? = none) : Rebinds w op n a w
  | lent {k? : Option PoolHandle} {v : World} (named : ∀ k, k? = some k →
      ∃ m ∈ op.names, ∃ j, w.handle? m = some j ∧ j.pool = k.pool)
    (rebound : w.Rebound n k? v) : Rebinds w op n .ok v
  | opened {config : PoolConfig} {start : Nat} {v : World} (opens : op.opens = true)
    (valid : config.validate = .ok ()) (bounded : start ≤ Word.max)
    (rebound : (w.opened config start).Rebound n (some ⟨.owner, .ofIndex w.pools.size⟩) v) :
    Rebinds w op n (.opened (.ofIndex w.pools.size)) v

section Steps

variable {w v : World} {op : Op} {n : Nat}

theorem Sound.openPool_rebinds (h : w.Sound none none) (hop : op.opens = true) (n : Nat)
    (config : PoolConfig) {start : Nat} (hs : start ≤ Word.max) :
    Ensures (w.openPool n config start) fun o =>
      (∀ p, o.1 = .ok p → w.Rebinds op n (.opened p) o.2) ∧
        ∀ e, o.1 = .error e → w.Rebinds op n (.error e) o.2 := by
  cases hv : config.validate with
  | error problem =>
    rw [World.openPool, hv]
    exact .ok ⟨fun _ hp => (by cases hp), fun _ _ => .idle rfl⟩
  | ok _ =>
    rw [openPool_eq w hv]
    split
    · obtain ⟨v, hrun, hrebound⟩ := (h.opened hv hs).bind_rebound
        (k := ⟨.owner, .ofIndex w.pools.size⟩) (live_opened.2 (.inl ⟨rfl, rfl⟩))
        (fun p hp => (Option.some.inj hp).symm) n
      rw [hrun]
      refine .ok ⟨?_, fun _ he => by cases he⟩
      rintro p ⟨⟩
      exact .opened hop hv hs hrebound
    · exact .ok ⟨fun _ hp => (by cases hp), fun _ _ => .idle rfl⟩

theorem Sound.lend_rebinds (h : w.Sound none none) {m : Nat} (hm : m ∈ op.names) {k : PoolHandle}
    (hk : w.handle? m = some k) (n : Nat) :
    Ensures (do return (Answer.ok, ← w.bind n ⟨.foreign, k.pool⟩)) fun o =>
      w.Rebinds op n o.1 o.2 := by
  obtain ⟨d, hl⟩ := h.live_of_handle? hk
  obtain ⟨v, hrun, hrebound⟩ := h.bind_rebound (k := ⟨.foreign, k.pool⟩) hl (by simp) n
  rw [hrun]
  refine .ok (.lent (fun j hj => ⟨m, hm, k, hk, ?_⟩) hrebound)
  cases hj
  rfl

theorem Sound.act_rebinds (h : w.Sound none none) (hop : op.rebinds? = some n) :
    Ensures (w.act op) fun o => w.Rebinds op n o.1 o.2 := by
  cases op with
  | new m capacity name =>
    have hopens : (Op.new m capacity name).opens = true := rfl
    cases hop
    refine .bind (h.openPool_rebinds hopens n _ (Nat.zero_le _)) ?_
    rintro ⟨o, v⟩ ⟨hok, herror⟩
    cases o with
    | ok p => exact .ok (hok p rfl)
    | error e => exact .ok (herror e rfl)
  | newAt m capacity start =>
    have hopens : (Op.newAt m capacity start).opens = true := rfl
    cases hop
    refine .bind (h.openPool_rebinds hopens n _ (start_le start)) ?_
    rintro ⟨o, v⟩ ⟨hok, herror⟩
    cases o with
    | ok p => exact .ok (hok p rfl)
    | error e => exact .ok (herror e rfl)
  | stealer m owner =>
    have howner : owner ∈ (Op.stealer m owner).names := by simp [Op.names]
    cases hop
    rw [World.act]
    cases ho : w.owned? owner with
    | none => exact .ok (.idle rfl)
    | some p => exact h.lend_rebinds howner (handle?_of_owned? ho) n
  | clone m stealer =>
    have hstealer : stealer ∈ (Op.clone m stealer).names := by simp [Op.names]
    cases hop
    rw [World.act]
    cases ho : w.stolen? stealer with
    | none => exact .ok (.idle rfl)
    | some p => exact h.lend_rebinds hstealer (handle?_of_stolen? ho) n
  | drop m =>
    cases hop
    rw [World.act]
    cases hk : w.handle? n with
    | none => exact .ok (.idle rfl)
    | some k =>
      obtain ⟨v, hrun, hrebound⟩ := h.dropHandle_rebound hk
      dsimp only
      rw [hrun]
      exact .ok (.lent (fun _ hk => by cases hk) hrebound)
  | _ => cases hop

theorem Sound.step_rebinds (h : w.Sound none none) (hop : op.rebinds? = some n) :
    Ensures (w.step op) fun o => w.unlogged.Rebinds op n o.1.answer o.2 := by
  have hu : w.unlogged.Sound none none := h.congr rfl rfl h.counted fun _ => rfl
  rw [step_eq]
  refine .bind (P := fun o => w.unlogged.Rebinds op n o.1 o.2) ?_ fun o ho => .ok ho
  rw [answer]
  split
  · exact .ok (.idle rfl)
  · exact hu.act_rebinds hop

end Steps

end World

end WorkStealing
