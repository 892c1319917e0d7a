import WorkStealing.Proofs.Convoy.Grants

set_option autoImplicit false

/-!
# What is heard of a pool

Those who make calls hear what comes of them, and whether a pool was opened, its metrics were reset
or calls met at its lock. From the notices of a period one can tell what the metrics have counted
meanwhile, and how the number of queued units has changed.
-/
namespace WorkStealing

inductive CallKind where
  | push
  | pop
  | steal
  | remove
  deriving DecidableEq

def Call.kind : Call → CallKind
  | .push _ => .push
  | .pop => .pop
  | .steal => .steal
  | .remove _ _ => .remove

def Reply.good : Reply → Bool
  | .stored | .taken _ => true
  | .refused _ | .missed => false

inductive Notice where
  | made (pool : PoolId) (kind : CallKind) (good : Bool)
  /-- The metrics start from zero: the pool was opened, or they were reset. -/
  | zeroed (pool : PoolId)
  | convoy (pool : PoolId)
  deriving DecidableEq

def Notice.pool : Notice → PoolId
  | .made p _ _ | .zeroed p | .convoy p => p

def CallKind.heading? : CallKind → Bool → Option Tally
  | .push, true => some .push
  | .push, false => none
  | .pop, true => some .pop
  | .pop, false => none
  | .steal, true => some .steal
  | .steal, false => some .stealMiss
  | .remove, true => some .remove
  | .remove, false => some .removeMiss

def Flight.notices (p : PoolId) (call : Call) : Flight → List Notice
  | .landed r => [.made p call.kind r.good]
  | .waiting .. => []

section Headings

variable {kind kind' : CallKind} {good good' : Bool} {t : Tally} {call : Call} {r : Reply}

theorem Call.Answers.tally?_eq (h : call.Answers r) :
    call.tally? r = call.kind.heading? r.good := by
  cases call <;> cases r <;> cases h <;> rfl

theorem CallKind.isCall_of_heading? (h : kind.heading? good = some t) : t.isCall := by
  cases kind <;> cases good <;> cases h <;> rfl

theorem CallKind.heading?_inj (h : kind.heading? good = some t)
    (h' : kind'.heading? good' = some t) : kind' = kind ∧ good' = good := by
  cases kind <;> cases good <;> cases h <;> cases kind' <;> cases good' <;> cases h' <;>
    exact ⟨rfl, rfl⟩

end Headings

/-- From `s` to `s'` the metrics count the calls that `ns` tells of, and the number of queued units
has changed by those that went in and came out. -/
structure Site.Tells (s : Site) (π : Pledge) (ns : List Notice) (s' : Site) (π' : Pledge) :
    Prop where
  id : s'.deque.id = s.deque.id
  count : ∀ kind good t, kind.heading? good = some t → s'.deque.metrics.count t =
    s.deque.metrics.count t + ns.count (.made s.deque.id kind good)
  balance : (s'.backlog π').length + (ns.count (.made s.deque.id .pop true) +
      ns.count (.made s.deque.id .steal true) + ns.count (.made s.deque.id .remove true)) =
    (s.backlog π).length + ns.count (.made s.deque.id .push true)

theorem Scene.lockWaits_tally (v : Scene) (t : Tally) :
    (v.tally t).pool.metrics.lockWaits = v.pool.metrics.lockWaits := by
  unfold tally
  split
  · exact Metrics.lockWaits_add ..
  · rfl

theorem Scene.lockWaits_perform (v : Scene) (call : Call) :
    (v.perform call).2.pool.metrics.lockWaits = v.pool.metrics.lockWaits := by
  cases call with
  | push u =>
    rw [perform, push]
    cases v.units.holder? u with
    | some q => rfl
    | none =>
      dsimp only
      unfold place
      split
      · exact lockWaits_tally ..
      · split
        · exact (lockWaits_tally ..).trans (lockWaits_tally ..)
        · rfl
  | pop =>
    rw [perform, pop]
    cases Slots.newest v.pool.slots with
    | some u => exact lockWaits_tally ..
    | none => rfl
  | steal =>
    rw [perform, steal]
    cases Slots.oldest v.pool.slots with
    | some u => exact lockWaits_tally ..
    | none => exact lockWaits_tally ..
  | remove side u =>
    rw [perform, remove]
    split
    · exact lockWaits_tally ..
    · exact lockWaits_tally ..

namespace Site

variable {s s' s'' x x' : Site} {π π' π'' : Pledge} {ns ns' : List Notice} {call : Call}

theorem backlog_of_deque (h : s'.deque = s.deque) (π : Pledge) :
    s'.backlog π = s.backlog π := by
  cases π <;> simp only [backlog, whole, setTail, h]

namespace Tells

theorem congr (h : s.Tells π ns s' π') (hx : x.deque = s.deque) (hx' : x'.deque = s'.deque) :
    x.Tells π ns x' π' where
  id := by
    rw [hx, hx']
    exact h.id
  count := by
    rw [hx, hx']
    exact h.count
  balance := by
    rw [backlog_of_deque hx, backlog_of_deque hx', hx]
    exact h.balance

theorem refl (s : Site) (π : Pledge) : s.Tells π [] s π where
  id := rfl
  count _ _ _ _ := rfl
  balance := rfl

theorem trans (h : s.Tells π ns s' π') (h' : s'.Tells π' ns' s'' π'') :
    s.Tells π (ns ++ ns') s'' π'' where
  id := h'.id.trans h.id
  count kind good t ht := by
    rw [h'.count kind good t ht, h.count kind good t ht, h.id, List.count_append, Nat.add_assoc]
  balance := by
    have hfirst := h.balance
    have hsecond := h'.balance
    rw [h.id] at hsecond
    simp only [List.count_append]
    omega

theorem perm (h : s.Tells π ns s' π') (hns : ns.Perm ns') : s.Tells π ns' s' π' where
  id := h.id
  count kind good t ht := by
    rw [h.count kind good t ht, hns.count_eq]
  balance := by
    simp only [← hns.count_eq]
    exact h.balance

theorem uncalled (s : Site) (π : Pledge) (hns : ∀ kind good, .made s.deque.id kind good ∉ ns) :
    s.Tells π ns s π := by
  have hcount : ∀ kind good, ns.count (.made s.deque.id kind good) = 0 := fun kind good =>
    List.count_eq_zero.2 (hns kind good)
  exact ⟨rfl, fun kind good _ _ => by rw [hcount, Nat.add_zero], by simp only [hcount]⟩

theorem elsewhere (s : Site) (π : Pledge) (hns : ∀ n ∈ ns, n.pool ≠ s.deque.id) :
    s.Tells π ns s π := uncalled s π fun _ _ hn => hns _ hn rfl

end Tells

theorem Works.tells_none (h : s.Works none s') (hid : s'.deque.id = s.deque.id)
    (hq : s'.backlog π' = s.backlog π) : s.Tells π [] s' π' where
  id := hid
  count kind good t ht := by
    rw [h.count t (CallKind.isCall_of_heading? ht)]
    simp
  balance := by
    rw [hq]
    rfl

theorem Works.tells {r : Reply} (h : s.Works (call.tally? r) s') (htel : s.telemetry = true)
    (hid : s'.deque.id = s.deque.id) (hr : call.Answers r)
    (hb : (s'.backlog π' ++ r.got).Perm (s.backlog π ++ call.gave r)) :
    s.Tells π [.made s.deque.id call.kind r.good] s' π' where
  id := hid
  count kind good t ht := by
    rw [h.count t (CallKind.isCall_of_heading? ht), hr.tally?_eq, List.count_singleton]
    congr 1
    by_cases heq : call.kind.heading? r.good = some t
    · obtain ⟨hkind, hgood⟩ := CallKind.heading?_inj ht heq
      simp [htel, ht, hkind, hgood]
    · have hne : ¬ (call.kind = kind ∧ r.good = good) := by
        rintro ⟨rfl, rfl⟩
        exact heq ht
      simp [heq, hne]
  balance := by
    have hlength := hb.length_eq
    rw [List.length_append, List.length_append] at hlength
    cases call <;> cases r <;> cases hr
    all_goals
      simp [Call.kind, Reply.good, Reply.got, Call.gave] at hlength ⊢
      omega

theorem Comes.tells {stage : Option LockedStage} {budget : Nat} {flight : Flight}
    (h : s.Comes π call stage budget flight s' π') (hw : s.Works (flight.tally? call) s')
    (htel : s.telemetry = true) : s.Tells π (flight.notices s.deque.id call) s' π' := by
  cases h.fate with
  | landed hb _ => exact hw.tells htel h.steps.frame.id hb.answers hb.balance
  | waiting hq => exact hw.tells_none h.steps.frame.id hq

theorem perform_tells (h : s.Sound []) (htel : s.telemetry = true)
    (hrun : call.perform s = .ok ((s.scene.perform call).1, s')) (hf : s.Frame s')
    (hs : s'.scene = (s.scene.perform call).2) : call.Answers (s.scene.perform call).1 ∧
    s.Tells .none [.made s.deque.id call.kind (s.scene.perform call).1.good] s' .none := by
  obtain ⟨hanswers, hbalance⟩ := perform_balance h hs
  exact ⟨hanswers, (call.perform_works s _ hrun).tells htel hf.id hanswers hbalance⟩

end Site

end WorkStealing
