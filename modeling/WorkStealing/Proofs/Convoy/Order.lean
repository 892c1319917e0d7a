import WorkStealing.Proofs.Convoy.Line

set_option autoImplicit false

/-!
# The order of the calls of a convoy

Each call that lands takes its place in an order in which the calls, made one after another on the
plain list, have these replies. Most take the last place. A call that found nothing while the last
slot was off the window waits beside the order until the owner is done with the slot. A call that
came too late for its unit goes back to a place where the unit was not queued.
-/
namespace WorkStealing

/-- A call of a convoy that has landed. -/
structure Berth where
  seat : Nat
  call : Call
  reply : Reply
  direct : Bool
  /-- The slots that the pool lacked at its turn. -/
  lack : Option Nat

namespace Berth

def deed (p : PoolId) (x : Berth) : Deed := ⟨p, x.call, x.reply, x.lack⟩

def passage (x : Berth) : Passage := if x.direct then .direct x.reply else .queued (some x.reply)

/-- A call that landed at once comes before every call that was started after it. -/
def Before (x y : Berth) : Prop := y.direct = true → x.seat < y.seat

end Berth

namespace Convoy

/-- Somewhere in the order `u` is not queued, and every call behind that place may come after the
call at `seat`. -/
def Gap (b : Backlogs) (p : PoolId) (A : List Berth) (seat : Nat) (u : UnitId) : Prop :=
  ∃ X Y, A = X ++ Y ∧ u ∉ b.final (X.map (Berth.deed p)) p ∧
    ∀ y ∈ Y, y.direct = true → seat < y.seat

/-- The calls `A` in order, and beside them those of `B`, which found nothing. -/
structure Ordered (b : Backlogs) (p : PoolId) (line : List Waiter) (A B : List Berth) :
    Prop where
  legal : b.Legal (A.map (Berth.deed p))
  missed : ∀ y ∈ B, y.reply = .missed ∧ ∀ u, y.call ≠ .push u
  before : (A ++ B).Pairwise Berth.Before
  behind : ∀ w ∈ line, ∀ y ∈ B, y.direct = true → w.seat < y.seat

/-- An order of the calls that have landed explains the pool as it is. A unit that a waiting call
has seen is still in its slot, or the call can be put where it is missing. -/
structure Draft (b : Backlogs) (p : PoolId) (s : Site) (π : Pledge)
    (line : List Waiter) (A B : List Berth) : Prop where
  id : s.deque.id = p
  here : b.final (A.map (Berth.deed p)) p = s.backlog π
  elsewhere : ∀ q, q ≠ p → ∀ u, u ∈ b q ↔ s.units.holder? u = some q
  ordered : Ordered b p line A B
  lacks : ∀ x ∈ A ++ B, ∀ n ∈ x.lack, s.Lacks n
  gap : ∀ w ∈ line, ∀ side u i, w.stage = .extract side u i s.deque.generation →
    s.deque.ring.cell i = some u ∨ Gap b p A w.seat u

theorem pool_of_mem_deeds {p : PoolId} {A : List Berth} {x : Deed}
    (h : x ∈ A.map (Berth.deed p)) : x.pool = p := by
  obtain ⟨y, _, rfl⟩ := List.mem_map.1 h
  rfl

section Orders

variable {b : Backlogs} {p : PoolId} {line : List Waiter}
  {A B X Y : List Berth} {x : Berth} {seat : Nat} {u : UnitId}

theorem Gap.of_not_mem (h : u ∉ b.final (A.map (Berth.deed p)) p) (seat : Nat) :
    Gap b p A seat u :=
  ⟨A, [], (List.append_nil A).symm, h, by simp⟩

theorem Gap.append (h : Gap b p A seat u) (hB : ∀ y ∈ B, y.direct = true → seat < y.seat) :
    Gap b p (A ++ B) seat u := by
  obtain ⟨X, Y, rfl, hu, hY⟩ := h
  refine ⟨X, Y ++ B, List.append_assoc X Y B, hu, ?_⟩
  intro y hy
  rcases List.mem_append.1 hy with hy | hy
  · exact hY y hy
  · exact hB y hy

theorem final_missed (b : Backlogs) (p : PoolId) (hmiss : x.reply = .missed) (X Y : List Berth) :
    b.final ((X ++ x :: Y).map (Berth.deed p)) = b.final ((X ++ Y).map (Berth.deed p)) := by
  have hsame : ∀ c : Backlogs, c.after p x.call x.reply = c := by
    intro c
    rw [hmiss, Backlogs.after_missed]
  rw [List.map_append, List.map_cons, List.map_append, Backlogs.final_append,
    Backlogs.final_append, Backlogs.final]
  exact congrArg (fun c : Backlogs => c.final (Y.map (Berth.deed p))) (hsame _)

theorem Gap.insert (h : Gap b p (X ++ Y) seat u) (hmiss : x.reply = .missed)
    (hx : x.direct = false) : Gap b p (X ++ x :: Y) seat u := by
  obtain ⟨V, W, heq, hu, hW⟩ := h
  rcases List.append_eq_append_iff.1 heq with ⟨Z, rfl, rfl⟩ | ⟨Z, rfl, rfl⟩
  · refine ⟨X ++ x :: Z, W, by simp, ?_, hW⟩
    rw [final_missed b p hmiss]
    exact hu
  · refine ⟨V, Z ++ x :: Y, by simp, hu, ?_⟩
    intro y hy hdirect
    rcases List.mem_append.1 hy with hy | hy
    · exact hW y (List.mem_append_left _ hy) hdirect
    · rcases List.mem_cons.1 hy with rfl | hy
      · rw [hx] at hdirect
        cases hdirect
      · exact hW y (List.mem_append_right _ hy) hdirect

theorem Ordered.of_subset {line' : List Waiter} (h : Ordered b p line A B)
    (hline : ∀ w ∈ line', ∀ y ∈ B, y.direct = true → w.seat < y.seat) :
    Ordered b p line' A B :=
  ⟨h.legal, h.missed, h.before, hline⟩

theorem Ordered.concat (h : Ordered b p line A B)
    (hallowed : (b.final (A.map (Berth.deed p))).Allows x.lack p x.call x.reply)
    (hA : x.direct = true → ∀ y ∈ A, y.seat < x.seat)
    (hB : ∀ y ∈ B, y.direct = true → x.seat < y.seat) :
    Ordered b p line (A ++ [x]) B where
  legal := by
    rw [List.map_append]
    exact Backlogs.legal_concat h.legal hallowed
  missed := h.missed
  before := by
    obtain ⟨hbA, hbB, hAB⟩ := List.pairwise_append.1 h.before
    rw [List.append_assoc]
    refine List.pairwise_append.2 ⟨hbA, List.pairwise_cons.2 ⟨hB, hbB⟩, ?_⟩
    intro y hy z hz
    rcases List.mem_cons.1 hz with rfl | hz
    · exact fun hdirect => hA hdirect y hy
    · exact hAB y hy z hz
  behind := h.behind

theorem Ordered.aside (h : Ordered b p line A B) (hmiss : x.reply = .missed)
    (hcall : ∀ u, x.call ≠ .push u) (hAB : x.direct = true → ∀ y ∈ A ++ B, y.seat < x.seat)
    (hline : x.direct = true → ∀ w ∈ line, w.seat < x.seat) :
    Ordered b p line A (B ++ [x]) where
  legal := h.legal
  missed := by
    intro y hy
    rcases List.mem_append.1 hy with hy | hy
    · exact h.missed y hy
    · obtain rfl := List.mem_singleton.1 hy
      exact ⟨hmiss, hcall⟩
  before := by
    rw [← List.append_assoc]
    refine List.pairwise_append.2 ⟨h.before, List.pairwise_singleton .., ?_⟩
    intro y hy z hz hdirect
    obtain rfl := List.mem_singleton.1 hz
    exact hAB hdirect y hy
  behind := by
    intro w hw y hy hdirect
    rcases List.mem_append.1 hy with hy | hy
    · exact h.behind w hw y hy hdirect
    · obtain rfl := List.mem_singleton.1 hy
      exact hline hdirect w hw

theorem Ordered.insert (h : Ordered b p line (X ++ Y) B) {side : Side}
    (hcall : x.call = .remove side u) (hmiss : x.reply = .missed) (hx : x.direct = false)
    (hu : u ∉ b.final (X.map (Berth.deed p)) p)
    (hY : ∀ y ∈ Y ++ B, y.direct = true → x.seat < y.seat) :
    Ordered b p line (X ++ x :: Y) B where
  legal := by
    have hlegal := h.legal
    rw [List.map_append] at hlegal
    rw [List.map_append, List.map_cons]
    refine (Backlogs.legal_insert hlegal hmiss ?_).1
    change Backlogs.Allows x.lack _ p x.call x.reply
    rw [hcall, hmiss]
    exact hu
  missed := h.missed
  before := by
    have hbefore := h.before
    rw [List.append_assoc] at hbefore
    obtain ⟨hX, hYB, hcross⟩ := List.pairwise_append.1 hbefore
    rw [List.append_assoc, List.cons_append]
    refine List.pairwise_append.2 ⟨hX, List.pairwise_cons.2 ⟨hY, hYB⟩, ?_⟩
    intro y hy z hz
    rcases List.mem_cons.1 hz with rfl | hz
    · intro hdirect
      rw [hx] at hdirect
      cases hdirect
    · exact hcross y hy z hz
  behind := h.behind

theorem Ordered.join (h : Ordered b p line A B)
    (hnil : b.final (A.map (Berth.deed p)) p = []) :
    Ordered b p line (A ++ B) [] ∧
      b.final ((A ++ B).map (Berth.deed p)) = b.final (A.map (Berth.deed p)) := by
  have hmissed : ∀ x ∈ B.map (Berth.deed p),
      x.pool = p ∧ x.reply = .missed ∧ ∀ u, x.call ≠ .push u := by
    intro x hx
    obtain ⟨y, hy, rfl⟩ := List.mem_map.1 hx
    exact ⟨rfl, h.missed y hy⟩
  obtain ⟨hlegal, hfinal⟩ := Backlogs.legal_of_missed hnil hmissed
  refine ⟨⟨?_, by simp, ?_, by simp⟩, ?_⟩
  · rw [List.map_append]
    exact Backlogs.legal_append.2 ⟨h.legal, hlegal⟩
  · rw [List.append_nil]
    exact h.before
  · rw [List.map_append, Backlogs.final_append, hfinal]

end Orders

section Drafts

variable {b : Backlogs} {p : PoolId} {s s' : Site} {π π' : Pledge}
  {line₀ line : List Waiter} {A B A' B' : List Berth} {x : Berth} {call : Call}
  {stage : Option LockedStage}

theorem Draft.fits (h : Draft b p s π line A B) :
    (b.final (A.map (Berth.deed p))).Fits s.units p (s.backlog π) where
  here := h.here
  elsewhere q hq u := by
    rw [Backlogs.final_of_ne (fun _ hx => pool_of_mem_deeds hx) hq]
    exact h.elsewhere q hq u

/-- The pool has moved on, and the order with it. A call that waits has waited since before, or has
just seen its unit. -/
theorem Draft.move (h : Draft b p s π line₀ A B) (hs : s.Steps π call s' π')
    (hhere : b.final (A'.map (Berth.deed p)) p = s'.backlog π')
    (ho : Ordered b p line A' B') (hlacks : ∀ x ∈ A' ++ B', ∀ n ∈ x.lack, s.Lacks n)
    (hline : ∀ w ∈ line,
      (w ∈ line₀ ∧ s.Awaits w.call w.stage ∧ ∀ u, Gap b p A w.seat u → Gap b p A' w.seat u) ∨
        ∀ side u i g, w.stage = .extract side u i g → s'.deque.ring.cell i = some u) :
    Draft b p s' π' line A' B' where
  id := hs.frame.id.trans h.id
  here := hhere
  elsewhere q hq u := by
    rw [h.elsewhere q hq u]
    exact (hs.frame.units.holder u q (h.id.symm ▸ hq)).symm
  ordered := ho
  lacks x hx n hn := hs.lacks (hlacks x hx n hn)
  gap w hw side u i hstage := by
    rcases hline w hw with ⟨hw₀, ha, hmono⟩ | hnew
    · -- the ring has not grown since the call has looked
      rw [hstage] at ha
      have hg := Nat.le_antisymm ha.generation_le hs.generation_le
      rw [hg] at hstage
      rcases h.gap w hw₀ side u i hstage with hc | hgap
      · rcases hs.kept hg i u hc with hc' | hgone
        · exact .inl hc'
        · rw [← hhere] at hgone
          exact .inr (.of_not_mem hgone _)
      · exact .inr (hmono u hgap)
    · exact .inl (hnew side u i _ hstage)

theorem Draft.join (h : Draft b p s' π' line A B) (hs : s.Steps π call s' π')
    (hB : B ≠ [] → π = .slot) :
    ∃ A' B', (A' ++ B').Perm (A ++ B) ∧ Draft b p s' π' line A' B' ∧
      (B' ≠ [] → π' = .slot) := by
  by_cases hnone : B = []
  · exact ⟨A, B, .refl _, h, fun hne => absurd hnone hne⟩
  by_cases hslot : π' = .slot
  · exact ⟨A, B, .refl _, h, fun _ => hslot⟩
  have hnil : s'.backlog π' = [] := hs.resolved (hB hnone) hslot
  obtain ⟨ho, hfinal⟩ := h.ordered.join (h.here.trans hnil)
  refine ⟨A ++ B, [], by rw [List.append_nil], ?_, fun hne => absurd rfl hne⟩
  exact
    { id := h.id
      here := by rw [hfinal, h.here]
      elsewhere := h.elsewhere
      ordered := ho
      lacks := by
        rw [List.append_nil]
        exact h.lacks
      gap := fun w hw side u i hstage => by
        rcases h.gap w hw side u i hstage with hc | hgap
        · exact .inl hc
        · exact .inr (hgap.append (h.ordered.behind w hw)) }

/-- A call that has landed and has no place yet. The others that wait are those of `line`. -/
structure Entering (b : Backlogs) (p : PoolId) (s : Site) (line₀ line : List Waiter)
    (A B : List Berth) (stage : Option LockedStage) (x : Berth) : Prop where
  direct : x.direct = stage.isNone
  lack_eq : x.lack = s.lack
  others : ∀ w ∈ line, w ∈ line₀ ∧ s.Awaits w.call w.stage
  fresh : stage = none → (∀ y ∈ A ++ B, y.seat < x.seat) ∧ ∀ w ∈ line, w.seat < x.seat
  behind : stage ≠ none → ∀ y ∈ B, y.direct = true → x.seat < y.seat
  gap : ∀ side u i, stage = some (.extract side u i s.deque.generation) →
    s.deque.ring.cell i = some u ∨ Gap b p A x.seat u

theorem Entering.ordered (hx : Entering b p s line₀ line A B stage x)
    (h : Draft b p s π line₀ A B) : Ordered b p line A B :=
  h.ordered.of_subset fun w hw => h.ordered.behind w (hx.others w hw).1

theorem Entering.lacks (hx : Entering b p s line₀ line A B stage x)
    (h : Draft b p s π line₀ A B) (hperm : (A' ++ B').Perm (A ++ B ++ [x])) :
    ∀ y ∈ A' ++ B', ∀ n ∈ y.lack, s.Lacks n := by
  intro y hy n hn
  rcases List.mem_append.1 (hperm.mem_iff.1 hy) with hy | hy
  · exact h.lacks y hy n hn
  · obtain rfl := List.mem_singleton.1 hy
    rw [hx.lack_eq] at hn
    exact Site.lacks_of_mem hn

theorem Entering.stage_eq_none (hx : Entering b p s line₀ line A B stage x)
    (hdirect : x.direct = true) : stage = none := by
  rw [hx.direct] at hdirect
  exact Option.isNone_iff_eq_none.1 hdirect

theorem Entering.move (hx : Entering b p s line₀ line A B stage x)
    (h : Draft b p s π line₀ A B) (hs : s.Steps π call s' π')
    (hhere : b.final (A'.map (Berth.deed p)) p = s'.backlog π')
    (ho : Ordered b p line A' B') (hperm : (A' ++ B').Perm (A ++ B ++ [x]))
    (hgap : ∀ w ∈ line, ∀ u, Gap b p A w.seat u → Gap b p A' w.seat u) :
    Draft b p s' π' line A' B' :=
  h.move hs hhere ho (hx.lacks h hperm) fun w hw =>
    .inl ⟨(hx.others w hw).1, (hx.others w hw).2, hgap w hw⟩

theorem perm_last (A B : List Berth) (x : Berth) : (A ++ [x] ++ B).Perm (A ++ B ++ [x]) := by
  rw [List.append_assoc, List.append_assoc]
  exact List.perm_append_comm.append_left A

theorem Draft.concat (h : Draft b p s π line₀ A B)
    (hx : Entering b p s line₀ line A B stage x) (hs : s.Steps π call s' π')
    (hallowed : (b.final (A.map (Berth.deed p))).Allows x.lack p x.call x.reply)
    (hafter : (b.final (A.map (Berth.deed p))).after p x.call x.reply p = s'.backlog π')
    (hnone : stage = none → B = []) : Draft b p s' π' line (A ++ [x]) B := by
  have hA : x.direct = true → ∀ y ∈ A, y.seat < x.seat := fun hdirect y hy =>
    (hx.fresh (hx.stage_eq_none hdirect)).1 y (List.mem_append_left B hy)
  have hB : ∀ y ∈ B, y.direct = true → x.seat < y.seat := by
    by_cases hstage : stage = none
    · rw [hnone hstage]
      simp
    · exact hx.behind hstage
  refine hx.move h hs ?_ ((hx.ordered h).concat hallowed hA hB) (perm_last A B x) ?_
  · rw [List.map_append]
    exact (congrFun (Backlogs.final_concat b _ _) p).trans hafter
  · intro w hw u hgap
    apply hgap.append
    intro y hy hdirect
    obtain rfl := List.mem_singleton.1 hy
    exact (hx.fresh (hx.stage_eq_none hdirect)).2 w hw

theorem Draft.aside (h : Draft b p s π line₀ A B)
    (hx : Entering b p s line₀ line A B stage x) (hs : s.Steps π call s' π')
    (hq : s'.backlog π' = s.backlog π) (hmiss : x.reply = .missed)
    (hcall : ∀ u, x.call ≠ .push u) : Draft b p s' π' line A (B ++ [x]) := by
  have hfresh : x.direct = true → (∀ y ∈ A ++ B, y.seat < x.seat) ∧ ∀ w ∈ line, w.seat < x.seat :=
    fun hdirect => hx.fresh (hx.stage_eq_none hdirect)
  have ho := (hx.ordered h).aside hmiss hcall (fun hdirect => (hfresh hdirect).1)
    fun hdirect => (hfresh hdirect).2
  apply hx.move h hs (h.here.trans hq.symm) ho
  · rw [List.append_assoc]
  · exact fun _ _ _ hgap => hgap

theorem Draft.late (h : Draft b p s π line₀ A B)
    (hx : Entering b p s line₀ line A B stage x) (hs : s.Steps π call s' π')
    (hq : s'.backlog π' = s.backlog π) (hmiss : x.reply = .missed) {side : Side} {u : UnitId}
    {i : Nat} (hcall : x.call = .remove side u)
    (hstage : stage = some (.extract side u i s.deque.generation))
    (hc : s.deque.ring.cell i ≠ some u) :
    ∃ A', A'.Perm (A ++ [x]) ∧ Draft b p s' π' line A' B := by
  have hdirect : x.direct = false := by
    rw [hx.direct, hstage]
    rfl
  have hbehind := hx.behind (by rw [hstage]; exact Option.some_ne_none _)
  obtain ⟨X, Y, rfl, hu, hY⟩ := (hx.gap side u i hstage).resolve_left hc
  have hYB : ∀ y ∈ Y ++ B, y.direct = true → x.seat < y.seat := by
    intro y hy
    rcases List.mem_append.1 hy with hy | hy
    · exact hY y hy
    · exact hbehind y hy
  -- behind `X` the unit is not queued, and all of `Y` may come after the call
  have hperm : (X ++ x :: Y).Perm (X ++ Y ++ [x]) :=
    List.perm_middle.trans (List.perm_append_singleton x (X ++ Y)).symm
  refine ⟨X ++ x :: Y, hperm, hx.move h hs ?_ ((hx.ordered h).insert hcall hmiss hdirect hu hYB)
    ((hperm.append_right B).trans (perm_last (X ++ Y) B x)) fun w _ v hgap =>
      hgap.insert hmiss hdirect⟩
  · rw [final_missed b p hmiss]
    exact h.here.trans hq.symm

theorem Draft.land (h : Draft b p s π line₀ A B) (hB : B ≠ [] → π = .slot)
    (hx : Entering b p s line₀ line A B stage x) (hs : s.Steps π x.call s' π')
    (hb : s.Bears π x.call stage s' π' x.reply) :
    ∃ A' B', (A' ++ B').Perm (A ++ B ++ [x]) ∧ Draft b p s' π' line A' B' ∧
      (B' ≠ [] → π' = .slot) := by
  have hlast := perm_last A B x
  have hnone : π ≠ .slot → B = [] := fun hslot => by_contra fun hne => hslot (hB hne)
  generalize hr : x.reply = r at hb
  cases hb with
  | commit hslot hcommit =>
    obtain ⟨hallowed, hafter⟩ := hcommit _ (h.id.symm ▸ h.fits)
    rw [h.id, ← hx.lack_eq, ← hr] at hallowed
    rw [h.id, ← hr] at hafter
    obtain ⟨A', B', hperm, hrest⟩ := (h.concat hx hs hallowed hafter fun hstage =>
      hnone (hslot hstage)).join hs hB
    exact ⟨A', B', hperm.trans hlast, hrest⟩
  | visible hq hvisible =>
    -- with the last slot off the window a call that finds nothing need not be allowed to miss yet
    by_cases hslot : π = .slot
    · have hcall : ∀ u, x.call ≠ .push u := by
        intro u hu
        have hallowed := hvisible (fun _ => s.deque.queued) rfl
        rw [hu] at hallowed
        cases hallowed
      obtain ⟨A', B', hperm, hrest⟩ := (h.aside hx hs hq hr hcall).join hs fun _ => hslot
      refine ⟨A', B', hperm.trans ?_, hrest⟩
      rw [List.append_assoc]
    · have hqueued : s.backlog π = s.deque.queued := by
        cases π with
        | slot => exact absurd rfl hslot
        | none | unit => rfl
      have hallowed := hvisible (b.final (A.map (Berth.deed p)))
        (by rw [h.id, h.here, hqueued])
      rw [h.id, ← hx.lack_eq, ← hr] at hallowed
      have hafter : (b.final (A.map (Berth.deed p))).after p x.call x.reply p = s'.backlog π' := by
        rw [hr, Backlogs.after_missed, h.here, hq]
      obtain ⟨A', B', hperm, hrest⟩ := (h.concat hx hs hallowed hafter fun _ =>
        hnone hslot).join hs hB
      exact ⟨A', B', hperm.trans hlast, hrest⟩
  | late hq hcall hstage hc =>
    -- the unit was gone before its turn, so the last place would be wrong after a new push of it
    obtain ⟨A₁, hperm₁, hdraft⟩ := h.late hx hs hq hr hcall hstage hc
    obtain ⟨A', B', hperm, hrest⟩ := hdraft.join hs hB
    exact ⟨A', B', (hperm.trans (hperm₁.append_right B)).trans hlast, hrest⟩

theorem Draft.wait (h : Draft b p s π line₀ A B) (line : List Waiter)
    (hB : B ≠ [] → π = .slot) (hs : s.Steps π call s' π') (hq : s'.backlog π' = s.backlog π)
    (hline : ∀ w ∈ line, (w ∈ line₀ ∧ s.Awaits w.call w.stage) ∨
      (∀ y ∈ B, y.direct = true → w.seat < y.seat) ∧
        ∀ side u i g, w.stage = .extract side u i g → s'.deque.ring.cell i = some u) :
    ∃ A' B', (A' ++ B').Perm (A ++ B) ∧ Draft b p s' π' line A' B' ∧
      (B' ≠ [] → π' = .slot) := by
  have ho : Ordered b p line A B := h.ordered.of_subset fun w hw => by
    rcases hline w hw with ⟨hw₀, _⟩ | ⟨hbehind, _⟩
    · exact h.ordered.behind w hw₀
    · exact hbehind
  refine (h.move hs (h.here.trans hq.symm) ho h.lacks fun w hw => ?_).join hs hB
  rcases hline w hw with ⟨hw₀, ha⟩ | ⟨_, hnew⟩
  · exact .inl ⟨hw₀, ha, fun _ hgap => hgap⟩
  · exact .inr hnew

end Drafts

end Convoy

end WorkStealing
