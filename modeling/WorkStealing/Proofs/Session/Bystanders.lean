import WorkStealing.Proofs.Session.Invariant

set_option autoImplicit false

/-!
# Pools that a step has nothing to do with

A step works on the pools behind the handles that it names, and leaves the others in their places.
Only the opening of a pool and what is done to handles themselves makes any difference to the
handles.
-/
namespace WorkStealing

namespace Op

def names : Op → List Nat
  | .createUnit _ | .unitInfo _ | .whereabouts | .clearUnit _ | .limit _ => []
  | .new n _ _ | .newAt n _ _ | .drop n | .push n _ | .pushNew n _ | .pushMany n _ _ _ | .pop n
  | .steal n | .remove n _ | .popMany n _ | .stealMany n _ | .popAll n | .stealAll n | .info n
  | .metrics n | .resetMetrics n => [n]
  | .stealer n m | .clone n m | .compareIds n m | .samePool n m => [n, m]
  | .convoy n calls => n :: calls.filterMap BoardingCall.handle?
  | .unknown n => n.toList

def rebinds? : Op → Option Nat
  | .new n _ _ | .newAt n _ _ | .stealer n _ | .clone n _ | .drop n => some n
  | _ => none

end Op

def Answer.opened? : Answer → Option PoolId
  | .opened p => some p
  | _ => none

namespace World

/-- In `v` the handles, and the pools in the places of `P`, are those of `w`. -/
structure Bystands (w : World) (P : Nat → Prop) (v : World) : Prop where
  size : v.pools.size = w.pools.size
  handles : v.handles = w.handles
  pools : ∀ i, P i → v.pools[i]? = w.pools[i]?

variable {w v v' : World} {P : Nat → Prop} {p : PoolId} {call : Call}

theorem Bystands.refl (w : World) (P : Nat → Prop) : w.Bystands P w := ⟨rfl, rfl, fun _ _ => rfl⟩

theorem Bystands.trans (h : w.Bystands P v) (h' : v.Bystands P v') : w.Bystands P v' where
  size := h'.size.trans h.size
  handles := h'.handles.trans h.handles
  pools i hi := (h'.pools i hi).trans (h.pools i hi)

section Calls

theorem visit_bystands {α : Type} (w : World) (hp : ¬ P p.index)
    (f : Site → Checked (α × Site)) : Ensures (w.visit p f) fun o => w.Bystands P o.2 := by
  unfold visit takeOut
  cases (w.pools[p.index]?).getD none with
  | none => exact .error _ _
  | some d =>
    refine .bind (.trivial _) ?_
    rintro ⟨a, s⟩ -
    refine .ok ⟨?_, rfl, fun i hi => ?_⟩
    · simp
    · have hne : p.index ≠ i := fun heq => hp (heq ▸ hi)
      simp [hne]

theorem take_bystands (w : World) (hp : ¬ P p.index) (call : Call) :
    Ensures (w.take p call) fun o => w.Bystands P o.2 :=
  .bind (w.visit_bystands hp _) fun _ ho => .bind (.trivial _) fun _ _ => .ok ho

theorem pushOne_bystands (w : World) (hp : ¬ P p.index) (u : UnitId) :
    Ensures (w.pushOne p u) fun o => w.Bystands P o.2 := by
  refine .bind (w.visit_bystands hp _) ?_
  rintro ⟨r, v⟩ hv
  cases r <;> exact .ok hv

theorem takeMany_bystands (w : World) (hp : ¬ P p.index) (call : Call) (times : Nat) :
    Ensures (takeMany p call times w) fun o => w.Bystands P o.2 := by
  induction times generalizing w with
  | zero => exact .ok (.refl w P)
  | succ times ih =>
    refine .bind (w.take_bystands hp call) fun o ho => ?_
    exact .bind (ih o.2) fun o' ho' => .ok (ho.trans ho')

theorem takeAll_bystands (w : World) (hp : ¬ P p.index) (call : Call) (times : Nat) :
    Ensures (takeAll p call times w) fun o => w.Bystands P o.2 := by
  induction times generalizing w with
  | zero => exact .error _ _
  | succ times ih =>
    refine .bind (w.take_bystands hp call) ?_
    rintro ⟨u, v⟩ hv
    cases u with
    | none => exact .ok hv
    | some u => exact .bind (ih v) fun o ho => .ok (hv.trans ho)

theorem createUnit_bystands (w : World) (P : Nat → Prop) (kind : UnitKind) :
    w.Bystands P (w.createUnit kind).2 := ⟨rfl, rfl, fun _ _ => rfl⟩

theorem pushMany_bystands (w : World) (hp : ¬ P p.index) (type : UnitType) (first : UInt64)
    (times : Nat) : Ensures (pushMany p type first times w) fun o => w.Bystands P o.2 := by
  induction times generalizing w first with
  | zero => exact .ok (.refl w P)
  | succ times ih =>
    refine .bind ((w.createUnit (.ofRaw type first)).2.pushOne_bystands hp _) fun o ho => ?_
    exact .bind (ih o.2 (first + 1)) fun o' ho' =>
      .ok (((w.createUnit_bystands P _).trans ho).trans ho')

def Avoids (w : World) (P : Nat → Prop) (calls : List BoardingCall) : Prop :=
  ∀ bc ∈ calls, ∀ q call, w.resolve bc = some (q, call) → ¬ P q.index

theorem Avoids.congr {calls : List BoardingCall} (h : w.Avoids P calls)
    (hv : v.handles = w.handles) : v.Avoids P calls := fun bc hbc q call hq =>
  h bc hbc q call ((resolve_congr hv bc).symm.trans hq)

theorem boardAll_bystands (w : World) (hp : ¬ P p.index) (c : Convoy)
    {calls : List BoardingCall} (h : w.Avoids P calls) :
    Ensures (boardAll p c w calls) fun o => w.Bystands P o.2 := by
  induction calls generalizing c w with
  | nil => exact .ok (.refl w P)
  | cons bc calls ih =>
    have hrest : w.Avoids P calls := fun x hx => h x (List.mem_cons_of_mem bc hx)
    have hlater : ∀ {v : World} (c : Convoy), w.Bystands P v →
        Ensures (boardAll p c v calls) fun o => w.Bystands P o.2 := fun c hv =>
      (ih _ c (hrest.congr hv.handles)).mono fun _ ho => hv.trans ho
    rw [boardAll]
    cases hr : w.resolve bc with
    | none => exact hlater c.bar (.refl w P)
    | some o =>
      obtain ⟨q, call⟩ := o
      dsimp only
      split
      · exact .bind (w.visit_bystands hp _) fun o ho => hlater o.1 ho
      · split
        · exact hlater c.bar (.refl w P)
        · have hq := h bc List.mem_cons_self q call hr
          exact .bind (w.visit_bystands hq _) fun o ho => hlater (c.pass o.1) ho

theorem convoy_bystands (w : World) (hp : ¬ P p.index) {calls : List BoardingCall}
    (h : w.Avoids P calls) : Ensures (w.convoy p calls) fun o => w.Bystands P o.2 := by
  have hlimit : ∀ (x y : World) (l : Option Nat), x.Bystands P y →
      x.Bystands P { y with limit := l } := fun _ _ _ hy => ⟨hy.size, hy.handles, hy.pools⟩
  have hfirst : w.Bystands P w.boundless := hlimit w w none (.refl w P)
  refine .bind (P := fun o => w.Bystands P o.2) ?_ fun o ho => .ok (hlimit _ _ _ ho)
  refine .bind (w.boundless.visit_bystands hp _) fun held hheld => ?_
  refine .bind (held.2.boardAll_bystands hp .empty
    (h.congr ((hfirst.trans hheld).handles))) fun boarded hboarded => ?_
  refine .bind (boarded.2.visit_bystands hp _) fun finished hfinished => ?_
  exact .bind (.trivial _) fun _ _ => .ok (((hfirst.trans hheld).trans hboarded).trans hfinished)

end Calls

section Steps

variable {op : Op}

def Shuns (w : World) (op : Op) (P : Nat → Prop) : Prop :=
  ∀ n ∈ op.names, ∀ k, w.handle? n = some k → ¬ P k.pool.index

/-- The run leaves the places of `P` alone and opens no pool. -/
def Leaves (w : World) (P : Nat → Prop) (x : Checked (Answer × World)) : Prop :=
  Ensures x fun o => w.Bystands P o.2 ∧ o.1.opened? = none

theorem leaves_refuse (w : World) (P : Nat → Prop) : w.Leaves P w.refuse :=
  .ok ⟨.refl w P, rfl⟩

theorem leaves_of {α : Type} {x : Checked (α × World)} (f : α → Answer)
    (hx : Ensures x fun o => w.Bystands P o.2) (hf : ∀ a, (f a).opened? = none) :
    w.Leaves P (do let (a, w) ← x; return (f a, w)) :=
  .bind hx fun o ho => .ok ⟨ho, hf o.1⟩

theorem leaves_owned (n : Nat) {f : PoolId → Checked (Answer × World)}
    (hnames : ∀ k, w.handle? n = some k → ¬ P k.pool.index)
    (hf : ∀ p, ¬ P p.index → w.Leaves P (f p)) :
    w.Leaves P (match w.owned? n with | some p => f p | none => w.refuse) := by
  cases ho : w.owned? n with
  | some p => exact hf p (hnames _ (handle?_of_owned? ho))
  | none => exact leaves_refuse w P

theorem leaves_stolen (n : Nat) {f : PoolId → Checked (Answer × World)}
    (hnames : ∀ k, w.handle? n = some k → ¬ P k.pool.index)
    (hf : ∀ p, ¬ P p.index → w.Leaves P (f p)) :
    w.Leaves P (match w.stolen? n with | some p => f p | none => w.refuse) := by
  cases ho : w.stolen? n with
  | some p => exact hf p (hnames _ (handle?_of_stolen? ho))
  | none => exact leaves_refuse w P

theorem leaves_handle (n : Nat) {f : PoolHandle → Checked (Answer × World)}
    (hnames : ∀ k, w.handle? n = some k → ¬ P k.pool.index)
    (hf : ∀ k, ¬ P k.pool.index → w.Leaves P (f k)) :
    w.Leaves P (match w.handle? n with | some k => f k | none => w.refuse) := by
  cases hk : w.handle? n with
  | some k => exact hf k (hnames k hk)
  | none => exact leaves_refuse w P

theorem leaves_push {x : Checked (Option PoolError × World)}
    (hx : Ensures x fun o => w.Bystands P o.2) : w.Leaves P (do
      match ← x with
      | (none, w) => return (.ok, w)
      | (some e, w) => return (.error e, w)) := by
  refine .bind hx ?_
  rintro ⟨e?, v⟩ hv
  cases e? <;> exact .ok ⟨hv, rfl⟩

theorem exists_handle?_of_resolve {bc : BoardingCall} {q : PoolId}
    (h : w.resolve bc = some (q, call)) :
    ∃ n k, bc.handle? = some n ∧ w.handle? n = some k ∧ k.pool = q := by
  cases bc with
  | steal n =>
    obtain ⟨p, hp, hq⟩ := Option.map_eq_some_iff.1 h
    cases hq
    exact ⟨n, _, rfl, handle?_of_stolen? hp, rfl⟩
  | pop n | push n _ =>
    obtain ⟨p, hp, hq⟩ := Option.map_eq_some_iff.1 h
    cases hq
    exact ⟨n, _, rfl, handle?_of_owned? hp, rfl⟩
  | remove n u =>
    obtain ⟨k, hk, hq⟩ := Option.map_eq_some_iff.1 h
    cases hq
    exact ⟨n, k, rfl, hk, rfl⟩
  | unknown n => cases h

theorem Shuns.avoids {n : Nat} {calls : List BoardingCall}
    (h : w.Shuns (.convoy n calls) P) : w.Avoids P calls := by
  intro bc hbc q call hres
  obtain ⟨m, k, hm, hk, rfl⟩ := exists_handle?_of_resolve hres
  exact h m (List.mem_cons_of_mem n (List.mem_filterMap.2 ⟨bc, hbc, hm⟩)) k hk

theorem act_leaves (hop : op.rebinds? = none) (h : w.Shuns op P) : w.Leaves P (w.act op) := by
  have hfirst : ∀ {n : Nat} {ns : List Nat}, op.names = n :: ns →
      ∀ k, w.handle? n = some k → ¬ P k.pool.index := fun hn k hk =>
    h _ (hn ▸ List.mem_cons_self) k hk
  cases op with
  | new | newAt | stealer | clone | drop => cases hop
  | createUnit kind => exact .ok ⟨w.createUnit_bystands P kind, rfl⟩
  | unitInfo u =>
    rw [World.act]
    cases w.unit? u with
    | some e => exact .ok ⟨.refl w P, rfl⟩
    | none => exact leaves_refuse w P
  | whereabouts => exact .ok ⟨.refl w P, rfl⟩
  | clearUnit u =>
    rw [World.act]
    cases w.units.find? u with
    | some e => exact .bind (.trivial _) fun _ _ => .ok ⟨⟨rfl, rfl, fun _ _ => rfl⟩, rfl⟩
    | none => exact leaves_refuse w P
  | limit slots => exact .ok ⟨⟨rfl, rfl, fun _ _ => rfl⟩, rfl⟩
  | push n u =>
    rw [World.act]
    cases ho : w.owned? n with
    | none => exact leaves_refuse w P
    | some p =>
      cases w.unit? u with
      | none => exact leaves_refuse w P
      | some e =>
        exact leaves_push (w.pushOne_bystands (hfirst rfl _ (handle?_of_owned? ho)) u)
  | pushNew n kind =>
    refine leaves_owned n (hfirst rfl) fun p hp => leaves_push ?_
    exact ((w.createUnit kind).2.pushOne_bystands hp _).mono fun o ho =>
      (w.createUnit_bystands P kind).trans ho
  | pushMany n type first times =>
    exact leaves_owned n (hfirst rfl) fun p hp =>
      leaves_of .failures (w.pushMany_bystands hp type first times) fun _ => rfl
  | pop n =>
    exact leaves_owned n (hfirst rfl) fun p hp =>
      leaves_of .unit (w.take_bystands hp _) fun _ => rfl
  | steal n =>
    exact leaves_stolen n (hfirst rfl) fun p hp =>
      leaves_of .unit (w.take_bystands hp _) fun _ => rfl
  | remove n u =>
    rw [World.act]
    cases hk : w.handle? n with
    | none => exact leaves_refuse w P
    | some k =>
      cases w.unit? u with
      | none => exact leaves_refuse w P
      | some e => exact leaves_of .unit (w.take_bystands (hfirst rfl k hk) _) fun _ => rfl
  | popMany n times =>
    exact leaves_owned n (hfirst rfl) fun p hp =>
      leaves_of .units (w.takeMany_bystands hp _ times) fun _ => rfl
  | stealMany n times =>
    exact leaves_stolen n (hfirst rfl) fun p hp =>
      leaves_of .units (w.takeMany_bystands hp _ times) fun _ => rfl
  | popAll n =>
    exact leaves_owned n (hfirst rfl) fun p hp =>
      leaves_of .units (w.takeAll_bystands hp _ _) fun _ => rfl
  | stealAll n =>
    exact leaves_stolen n (hfirst rfl) fun p hp =>
      leaves_of .units (w.takeAll_bystands hp _ _) fun _ => rfl
  | info n =>
    refine leaves_handle n (hfirst rfl) fun k _ => ?_
    cases w.pool? k.pool with
    | some d => exact .ok ⟨.refl w P, rfl⟩
    | none => exact .error _ _
  | compareIds m n =>
    rw [World.act]
    cases w.handle? m with
    | none => exact leaves_refuse w P
    | some j =>
      cases w.handle? n with
      | none => exact leaves_refuse w P
      | some k => exact .ok ⟨.refl w P, rfl⟩
  | samePool m n =>
    rw [World.act]
    cases w.stolen? m with
    | none => exact leaves_refuse w P
    | some p =>
      cases w.owned? n with
      | none => exact leaves_refuse w P
      | some q => exact .ok ⟨.refl w P, rfl⟩
  | metrics n =>
    refine leaves_handle n (hfirst rfl) fun k _ => ?_
    cases w.pool? k.pool with
    | some d => exact .ok ⟨.refl w P, rfl⟩
    | none => exact .error _ _
  | resetMetrics n =>
    exact leaves_handle n (hfirst rfl) fun k hk =>
      leaves_of (fun _ => .ok) (w.visit_bystands hk _) fun _ => rfl
  | convoy n calls =>
    refine leaves_owned n (hfirst rfl) fun p hp => ?_
    split
    · exact leaves_of .convoy (w.convoy_bystands hp h.avoids) fun _ => rfl
    · exact leaves_refuse w P
  | unknown n => exact leaves_refuse w P

/-- A step that does not rebind a handle keeps the handles, and the number of pools there ever were.
-/
theorem step_leaves (hop : op.rebinds? = none) (h : w.Shuns op P) : Ensures (w.step op) fun o =>
    w.Bystands P o.2 ∧ o.1.answer.opened? = none := by
  have hfirst : w.Bystands P w.unlogged := ⟨rfl, rfl, fun _ _ => rfl⟩
  rw [step_eq]
  refine .bind (P := fun o => w.unlogged.Bystands P o.2 ∧ o.1.opened? = none) ?_ fun o ho =>
    .ok ⟨hfirst.trans ho.1, ho.2⟩
  rw [answer]
  split
  · exact leaves_refuse w.unlogged P
  · exact act_leaves hop h

end Steps

end World

end WorkStealing
