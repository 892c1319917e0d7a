import WorkStealing.UnitTable

set_option autoImplicit false

/-!
# References and holders

Between calls a unit has one reference in the registry, until it is cleared there, and one in the
pool that holds it. A pool that takes a unit in counts a reference and marks the unit; one that
lets it go undoes both.
-/
namespace WorkStealing.UnitTable

def Knows (t : UnitTable) (u : UnitId) : Prop := ∃ e, t.find? u = some e

/-- The pool that holds `u`, if `u` is a unit of the table and is held. -/
def holder? (t : UnitTable) (u : UnitId) : Option PoolId := (t.find? u).bind (·.unit.pool)

/-- What never changes about a unit while calls run: its kind and whether it is registered. -/
def identity? (t : UnitTable) (u : UnitId) : Option (UnitKind × Bool) :=
  (t.find? u).map fun e => (e.unit.kind, e.registered)

def Registered (t : UnitTable) (u : UnitId) : Prop := ∃ kind, t.identity? u = some (kind, true)

/-- Every reference is one of the registry's or one of the holder's. -/
def Counted (t : UnitTable) : Prop :=
  ∀ u e, t.find? u = some e → e.refs = e.registered.toNat + e.unit.pool.isSome.toNat

def retained (t : UnitTable) (u : UnitId) : UnitTable :=
  t.update u fun e => { e with refs := e.refs + 1 }

def hold (t : UnitTable) (u : UnitId) (p : PoolId) : UnitTable :=
  t.update u fun e => { e with refs := e.refs + 1, unit := { e.unit with pool := some p } }

def letGo (t : UnitTable) (u : UnitId) : UnitTable :=
  t.update u fun e => { e with refs := e.refs - 1, unit := { e.unit with pool := none } }

theorem ext_find? {t t' : UnitTable} (h : ∀ u, t.find? u = t'.find? u) : t = t' := by
  cases t with
  | mk entries =>
    cases t' with
    | mk entries' =>
      congr 1
      exact Array.ext_getElem? fun i => h ⟨i⟩

theorem update_update (t : UnitTable) (u : UnitId) (f g : UnitEntry → UnitEntry) :
    (t.update u f).update u g = t.update u (g ∘ f) := by
  apply ext_find?
  intro v
  simp only [find?_update]
  split <;> simp

theorem update_eq_self {t : UnitTable} {u : UnitId} {f : UnitEntry → UnitEntry}
    (h : ∀ e, t.find? u = some e → f e = e) : t.update u f = t := by
  apply ext_find?
  intro v
  rw [find?_update]
  split
  · subst v
    cases he : t.find? u with
    | none => rfl
    | some e => simp [h e he]
  · rfl

theorem knows_update {t : UnitTable} {u v : UnitId} {f : UnitEntry → UnitEntry} :
    (t.update u f).Knows v ↔ t.Knows v := by
  simp only [Knows, ← Option.isSome_iff_exists, find?_update]
  split <;> simp

theorem knows_retained {t : UnitTable} {u v : UnitId} :
    (t.retained u).Knows v ↔ t.Knows v := knows_update

theorem knows_of_holder? {t : UnitTable} {u : UnitId} {p : PoolId} (h : t.holder? u = some p) :
    t.Knows u := by
  obtain ⟨e, he, _⟩ := Option.bind_eq_some_iff.1 h
  exact ⟨e, he⟩

theorem knows_iff_identity? {t : UnitTable} {u : UnitId} :
    t.Knows u ↔ (t.identity? u).isSome := by
  simp [Knows, identity?, Option.isSome_iff_exists]

theorem Registered.knows {t : UnitTable} {u : UnitId} (h : t.Registered u) : t.Knows u := by
  obtain ⟨kind, hkind⟩ := h
  rw [knows_iff_identity?, hkind]
  rfl

section Steps

variable {t : UnitTable} {u : UnitId}

theorem lookup_eq {e : UnitEntry} (h : t.find? u = some e) : t.lookup u = .ok e := by
  simp [lookup, h]

theorem holder_eq (h : t.Knows u) : t.holder u = .ok (t.holder? u) := by
  obtain ⟨e, he⟩ := h
  simp [holder, lookup_eq he, holder?, he]

theorem detach_eq (h : t.Knows u) : t.detach u = .ok (t.setHolder u none) := by
  obtain ⟨e, he⟩ := h
  simp [detach, lookup_eq he]

theorem retain_eq {e : UnitEntry} (h : t.find? u = some e) (hr : 0 < e.refs) :
    t.retain u = .ok (t.retained u) := by
  simp [retain, lookup_eq h, require_eq_ok hr, retained]

theorem release_eq {e : UnitEntry} (h : t.find? u = some e) (hr : 0 < e.refs) :
    t.release u = .ok (t.update u fun e => { e with refs := e.refs - 1 }) := by
  simp [release, lookup_eq h, require_eq_ok hr]

theorem attach_retained (t : UnitTable) (u : UnitId) (p : PoolId) :
    (t.retained u).attach u p = t.hold u p := by
  rw [attach, setHolder, retained, update_update]
  rfl

theorem release_retained {e : UnitEntry} (h : t.find? u = some e) :
    (t.retained u).release u = .ok t := by
  rw [retained, release_eq (e := { e with refs := e.refs + 1 }) (by simp [find?_update, h])
    (by simp), update_update, update_eq_self]
  intro e _
  rfl

theorem release_detached {e : UnitEntry} (h : t.find? u = some e) (hr : 0 < e.refs) :
    (t.setHolder u none).release u = .ok (t.letGo u) := by
  rw [setHolder, release_eq (e := { e with unit := { e.unit with pool := none } })
    (by simp [find?_update, h]) hr, update_update]
  rfl

theorem letGo_hold {p : PoolId} (h : t.holder? u = none) : (t.hold u p).letGo u = t := by
  rw [hold, letGo, update_update, update_eq_self]
  intro e he
  have hpool : e.unit.pool = none := by simpa [holder?, he] using h
  cases e with
  | mk unit refs registered =>
    cases unit with
    | mk kind pool => simp_all

end Steps

theorem holder?_update {t : UnitTable} {u v : UnitId} {f : UnitEntry → UnitEntry}
    (h : ∀ e, (f e).unit.pool = e.unit.pool) : (t.update u f).holder? v = t.holder? v := by
  simp only [holder?, find?_update]
  split
  · cases t.find? v <;> simp [h]
  · rfl

theorem holder?_hold {t : UnitTable} {u v : UnitId} {p : PoolId} (hu : t.Knows u) :
    (t.hold u p).holder? v = if u = v then some p else t.holder? v := by
  obtain ⟨e, he⟩ := hu
  simp only [holder?, hold, find?_update]
  split
  · subst v
    simp [he]
  · rfl

theorem holder?_letGo (t : UnitTable) (u v : UnitId) :
    (t.letGo u).holder? v = if u = v then none else t.holder? v := by
  simp only [holder?, letGo, find?_update]
  split
  · cases t.find? v <;> simp
  · rfl

theorem holder?_retained (t : UnitTable) (u v : UnitId) :
    (t.retained u).holder? v = t.holder? v :=
  holder?_update fun _ => rfl

theorem identity?_update {t : UnitTable} {u v : UnitId} {f : UnitEntry → UnitEntry}
    (h : ∀ e, (f e).unit.kind = e.unit.kind ∧ (f e).registered = e.registered) :
    (t.update u f).identity? v = t.identity? v := by
  simp only [identity?, find?_update]
  split
  · cases t.find? v <;> simp [h]
  · rfl

section Creation

variable (t : UnitTable) (kind : UnitKind)

theorem find?_of_number_eq {u : UnitId} (h : u.number = t.size) : t.find? u = none := by
  rw [find?, h, size]
  exact Array.getElem?_size

theorem holder?_create (u : UnitId) : (t.create kind).2.holder? u = t.holder? u := by
  rw [holder?, find?_create, holder?]
  split
  · rename_i hu
    rw [t.find?_of_number_eq hu]
    rfl
  · rfl

theorem registered_create : (t.create kind).2.Registered (t.create kind).1 := by
  have hnew : (t.create kind).1.number = t.size := rfl
  refine ⟨kind, ?_⟩
  rw [identity?, find?_create, if_pos hnew]
  rfl

end Creation

/-- A table that changed only in which units `p` holds. -/
structure Frame (p : PoolId) (t t' : UnitTable) : Prop where
  size : t'.size = t.size
  identity : ∀ u, t'.identity? u = t.identity? u
  holder : ∀ u q, q ≠ p → (t'.holder? u = some q ↔ t.holder? u = some q)

namespace Frame

variable {p : PoolId} {t t' t'' : UnitTable}

theorem refl (p : PoolId) (t : UnitTable) : Frame p t t :=
  ⟨rfl, fun _ => rfl, fun _ _ _ => Iff.rfl⟩

theorem trans (h : Frame p t t') (h' : Frame p t' t'') : Frame p t t'' :=
  ⟨h'.size.trans h.size, fun u => (h'.identity u).trans (h.identity u),
    fun u q hq => (h'.holder u q hq).trans (h.holder u q hq)⟩

theorem hold {u : UnitId} (hu : t.Knows u) (hn : t.holder? u = none) :
    Frame p t (t.hold u p) where
  size := size_update ..
  identity v := identity?_update fun _ => ⟨rfl, rfl⟩
  holder v q hq := by
    rw [holder?_hold hu]
    split
    · subst v
      simp [hn, Ne.symm hq]
    · rfl

theorem letGo {u : UnitId} (hu : t.holder? u = some p) : Frame p t (t.letGo u) where
  size := size_update ..
  identity v := identity?_update fun _ => ⟨rfl, rfl⟩
  holder v q hq := by
    rw [holder?_letGo]
    split
    · subst v
      simp [hu, Ne.symm hq]
    · rfl

theorem knows (h : Frame p t t') {u : UnitId} : t'.Knows u ↔ t.Knows u := by
  rw [knows_iff_identity?, knows_iff_identity?, h.identity u]

theorem registered (h : Frame p t t') {u : UnitId} : t'.Registered u ↔ t.Registered u := by
  rw [Registered, Registered, h.identity u]

end Frame

namespace Counted

variable {t : UnitTable} {u : UnitId} {p : PoolId}

theorem refs_pos_of_holder? (h : t.Counted) {e : UnitEntry} (he : t.find? u = some e)
    (hu : t.holder? u = some p) : 0 < e.refs := by
  have hpool : e.unit.pool = some p := by simpa [holder?, he] using hu
  have hrefs := h u e he
  simp only [hpool, Option.isSome_some, Bool.toNat_true] at hrefs
  omega

theorem refs_pos_of_registered (h : t.Counted) {e : UnitEntry} (he : t.find? u = some e)
    (hr : e.registered = true) : 0 < e.refs := by
  have hrefs := h u e he
  simp only [hr, Bool.toNat_true] at hrefs
  omega

theorem exists_entry (h : t.Counted) (hu : t.Registered u) :
    ∃ e, t.find? u = some e ∧ 0 < e.refs := by
  obtain ⟨kind, hkind⟩ := hu
  obtain ⟨e, he, hid⟩ := Option.map_eq_some_iff.1 hkind
  exact ⟨e, he, h.refs_pos_of_registered he (Prod.mk.inj hid).2⟩

theorem create (h : t.Counted) (kind : UnitKind) : (t.create kind).2.Counted := by
  intro v e he
  rw [find?_create] at he
  split at he
  · cases he
    rfl
  · exact h v e he

theorem clear (h : t.Counted) {e : UnitEntry} (he : t.find? u = some e) :
    ∃ t', t.clear u = .ok t' ∧ t'.Counted ∧ ∀ v, t'.holder? v = t.holder? v := by
  cases hr : e.registered with
  | false =>
    refine ⟨t, ?_, h, fun _ => rfl⟩
    simp [UnitTable.clear, lookup_eq he, hr]
  | true =>
    have hrefs := h.refs_pos_of_registered he hr
    refine ⟨t.update u fun e => { e with refs := e.refs - 1, registered := false }, ?_, ?_, ?_⟩
    · simp only [UnitTable.clear, lookup_eq he, hr, ok_bind, if_true, release_eq he hrefs,
        update_update, pure_eq_ok]
      rfl
    · intro v e' he'
      rw [find?_update] at he'
      split at he'
      · subst v
        rw [he] at he'
        cases he'
        have hsum := h u e he
        simp only [hr, Bool.toNat_true] at hsum
        simp only [Bool.toNat_false]
        omega
      · exact h v e' he'
    · exact fun v => holder?_update fun _ => rfl

theorem hold (h : t.Counted) (hn : t.holder? u = none) : (t.hold u p).Counted := by
  intro v e he
  rw [UnitTable.hold, find?_update] at he
  split at he
  · subst v
    obtain ⟨e', he', rfl⟩ := Option.map_eq_some_iff.1 he
    have hpool : e'.unit.pool = none := by simpa [holder?, he'] using hn
    have hrefs := h u e' he'
    simp only [hpool, Option.isSome_none, Bool.toNat_false] at hrefs
    simp [hrefs]
  · exact h v e he

theorem letGo (h : t.Counted) (hu : t.holder? u = some p) : (t.letGo u).Counted := by
  intro v e he
  rw [UnitTable.letGo, find?_update] at he
  split at he
  · subst v
    obtain ⟨e', he', rfl⟩ := Option.map_eq_some_iff.1 he
    have hpool : e'.unit.pool = some p := by simpa [holder?, he'] using hu
    have hrefs := h u e' he'
    simp only [hpool, Option.isSome_some, Bool.toNat_true] at hrefs
    simp [hrefs]
  · exact h v e he

end Counted

end WorkStealing.UnitTable
