import WorkStealing.Deque.Flight
import WorkStealing.Deque.Lifetime

set_option autoImplicit false

/-!
# Calls on a pool that counts nothing

What is left of a pool if its metrics are set aside and telemetry is off. Each stage does to such a
pool what it does to the pool itself, and sets the metrics aside afterwards: nothing reads them.
-/
namespace WorkStealing

section Mapping

variable {α β γ δ : Type} {k : α → β} {l : γ → δ}

/-- Setting something aside after a step and after the rest of a run sets it aside after both. -/
theorem bind_mapped {x : Checked α} {y : Checked β} {f : α → Checked γ} {g : β → Checked δ}
    (hx : y = k <$> x) (hf : ∀ a, g (k a) = l <$> f a) : y >>= g = l <$> (x >>= f) := by
  subst hx
  cases x with
  | error e => rfl
  | ok a => exact hf a

theorem bind_same {x : Checked α} {f : α → Checked γ} {g : α → Checked δ}
    (hf : ∀ a, g a = l <$> f a) : x >>= g = l <$> (x >>= f) :=
  bind_mapped (id_map x).symm hf

theorem ite_mapped {p : Prop} {first second : Decidable p} {x x' : Checked α} {y y' : Checked β}
    (hx : p → y = k <$> x) (hx' : ¬p → y' = k <$> x') :
    @ite _ p first y y' = k <$> @ite _ p second x x' := by
  by_cases h : p
  · rw [if_pos h, if_pos h, hx h]
  · rw [if_neg h, if_neg h, hx' h]

end Mapping

def Deque.unmetered (d : Deque) : Deque := { d with metrics := .new }

def Site.unmetered (s : Site) : Site :=
  { s with telemetry := false, deque := s.deque.unmetered }

def unmeteredSite {α : Type} (o : α × Site) : α × Site := (o.1, o.2.unmetered)

namespace Site

variable (s : Site)

section Changes

theorem tally_unmetered (t : Tally) : (s.tally t).unmetered = s.unmetered := by
  unfold tally
  cases s.telemetry <;> rfl

theorem noteWait_unmetered (rounds : Nat) : (s.noteWait rounds).unmetered = s.unmetered := by
  unfold noteWait
  cases s.telemetry <;> rfl

theorem unmetered_updateUnits (f : UnitTable → Checked UnitTable) :
    s.unmetered.updateUnits f = unmetered <$> s.updateUnits f :=
  bind_same fun _ => rfl

theorem unmetered_putAtTail (u : UnitId) :
    s.unmetered.putAtTail u = unmetered <$> s.putAtTail u :=
  bind_same fun _ => bind_same fun _ => rfl

theorem unmetered_grab (index : Nat) (expected : Option UnitId) :
    s.unmetered.grab index expected = unmeteredSite <$> s.grab index expected := by
  refine bind_same fun c => ?_
  cases c with
  | none => rfl
  | some u => exact ite_mapped (fun _ => bind_same fun _ => bind_same fun _ => rfl) fun _ => rfl

theorem unmetered_grow (count : Nat) :
    s.unmetered.grow count = unmeteredSite <$> s.grow count := by
  refine bind_same fun r => ?_
  cases r with
  | error e => rfl
  | ok growth =>
    refine congrArg (fun s => Except.ok (none, s)) ?_
    rw [tally_unmetered]
    rfl

theorem unmetered_rebase : s.unmetered.rebase = unmetered <$> s.rebase := by
  refine bind_same fun _ => congrArg Except.ok ?_
  change _ = ((((s.setHead _).setTail _).tally .rebase).unmetered.emit _)
  rw [tally_unmetered]
  rfl

theorem unmetered_settleHead (index : Nat) :
    s.unmetered.settleHead index = unmetered <$> s.settleHead index := by
  refine ite_mapped (fun _ => bind_same fun next => congrArg Except.ok ?_) fun _ => rfl
  exact (apply_ite unmetered (index < s.deque.tail) (s.setHead next) s).symm

end Changes

section FreeStages

theorem unmetered_place (u : UnitId) : s.unmetered.place u = unmeteredSite <$> s.place u :=
  ite_mapped (fun _ => bind_mapped (s.unmetered_putAtTail u) fun _ => rfl) fun _ => rfl

theorem unmetered_push (u : UnitId) : s.unmetered.push u = unmeteredSite <$> s.push u := by
  refine bind_same fun holder => ?_
  cases holder with
  | some holder => exact bind_mapped (s.unmetered_updateUnits _) fun _ => rfl
  | none => exact ite_mapped (fun _ => rfl) fun _ => (s.attach u).unmetered_place u

theorem unmetered_popAbove (expected : Option UnitId) (above : Nat) :
    s.unmetered.popAbove expected above = unmeteredSite <$> s.popAbove expected above := by
  induction above generalizing s with
  | zero => exact bind_same fun _ => rfl
  | succ above ih =>
    refine bind_same fun tail => bind_mapped ((s.setTail tail).unmetered_grab tail expected) ?_
    rintro ⟨grab, s⟩
    cases grab with
    | taken u => rfl
    | hole => exact ite_mapped (fun _ => ih s) fun _ => rfl
    | other => exact bind_same fun _ => rfl

theorem unmetered_popBack (expected : Option UnitId) :
    s.unmetered.popBack expected = unmeteredSite <$> s.popBack expected :=
  ite_mapped (fun _ => rfl) fun _ => s.unmetered_popAbove expected _

theorem unmetered_peekSteal : s.unmetered.peekSteal = unmeteredSite <$> s.peekSteal :=
  ite_mapped (fun _ => rfl) fun _ => rfl

theorem unmetered_scan (side : Side) (u : UnitId) :
    s.unmetered.scan side u = unmeteredSite <$> s.scan side u := by
  refine bind_same fun index => ?_
  cases index <;> rfl

theorem unmetered_remove (side : Side) (u : UnitId) :
    s.unmetered.remove side u = unmeteredSite <$> s.remove side u := by
  refine bind_same fun holder => ite_mapped (fun _ => rfl) fun _ => ?_
  cases side with
  | foreign => exact s.unmetered_scan .foreign u
  | owner =>
    refine ite_mapped (fun _ => rfl) fun _ => bind_same fun newest => bind_same fun c => ?_
    exact ite_mapped (fun _ => s.unmetered_popBack (some u)) fun _ => s.unmetered_scan .owner u

theorem unmetered_runFree (stage : FreeStage) :
    stage.run s.unmetered = unmeteredSite <$> stage.run s := by
  cases stage with
  | push u => exact s.unmetered_push u
  | place u => exact s.unmetered_place u
  | popBack expected => exact s.unmetered_popBack expected
  | steal => exact s.unmetered_peekSteal
  | remove side u => exact s.unmetered_remove side u
  | scan side u => exact s.unmetered_scan side u

end FreeStages

section LockedStages

theorem unmetered_storeLocked (u : UnitId) :
    s.unmetered.storeLocked u = unmeteredSite <$> s.storeLocked u := by
  refine bind_same fun _ => bind_same fun count => ite_mapped (fun _ => ?_) fun _ => ?_
  · exact bind_mapped (s.unmetered_putAtTail u) fun _ => rfl
  · refine bind_mapped (s.unmetered_grow count) ?_
    rintro ⟨error, s⟩
    cases error with
    | none => exact bind_mapped (s.unmetered_putAtTail u) fun _ => rfl
    | some e =>
      exact bind_mapped (s.unmetered_updateUnits _) fun s =>
        bind_mapped (s.unmetered_updateUnits _) fun _ => rfl

theorem unmetered_lastSlot (expected : Option UnitId) :
    s.unmetered.lastSlot expected = unmeteredSite <$> s.lastSlot expected := by
  refine ite_mapped (fun _ => bind_same fun _ => rfl) fun _ => ?_
  refine bind_mapped (s.unmetered_grab s.deque.tail expected) ?_
  rintro ⟨grab, s⟩
  cases grab with
  | taken u => rfl
  | hole => exact ite_mapped (fun _ => rfl) fun _ => rfl
  | other => exact bind_same fun _ => rfl

theorem unmetered_stealLocked : s.unmetered.stealLocked = unmeteredSite <$> s.stealLocked := by
  refine ite_mapped (fun _ => rfl) fun _ => bind_same fun next => ?_
  refine bind_mapped ((s.setHead next).unmetered_grab s.deque.head none) ?_
  rintro ⟨grab, s⟩
  cases grab <;> rfl

theorem unmetered_extract (side : Side) (u : UnitId) (index generation : Nat) :
    s.unmetered.extract side u index generation =
      unmeteredSite <$> s.extract side u index generation := by
  refine ite_mapped (fun _ => rfl) fun _ => bind_mapped (s.unmetered_grab index (some u)) ?_
  rintro ⟨grab, s⟩
  cases grab with
  | taken u => exact bind_mapped (s.unmetered_settleHead index) fun _ => rfl
  | hole => rfl
  | other => rfl

theorem unmetered_runLocked (stage : LockedStage) :
    stage.run s.unmetered = unmeteredSite <$> stage.run s := by
  cases stage with
  | rebase u => exact bind_mapped s.unmetered_rebase fun _ => rfl
  | store u => exact s.unmetered_storeLocked u
  | lastSlot expected => exact s.unmetered_lastSlot expected
  | steal => exact s.unmetered_stealLocked
  | extract side u index generation => exact s.unmetered_extract side u index generation

end LockedStages

theorem unmetered_teardown : s.unmetered.teardown = unmetered <$> s.teardown :=
  bind_mapped (s.unmetered_updateUnits _) fun _ => rfl

end Site

namespace Call

variable (call : Call) (s : Site)

theorem unmetered_launch : call.launch s.unmetered = unmeteredSite <$> call.launch s := by
  cases call with
  | push u => exact bind_mapped (s.unmetered_updateUnits _) fun _ => rfl
  | pop => rfl
  | steal => rfl
  | remove side u => rfl

theorem unmetered_conclude (r : Reply) :
    call.conclude r s.unmetered = Site.unmetered <$> call.conclude r s := by
  unfold conclude
  cases call.tally? r with
  | none =>
    cases r with
    | taken u => exact s.unmetered_updateUnits _
    | _ => rfl
  | some t =>
    have htally : s.unmetered.tally t = (s.tally t).unmetered := (s.tally_unmetered t).symm
    dsimp only
    rw [htally]
    cases r with
    | taken u => exact (s.tally t).unmetered_updateUnits _
    | _ => rfl

theorem unmetered_advance (stage : FreeStage) :
    call.advance stage s.unmetered = unmeteredSite <$> call.advance stage s := by
  refine bind_mapped (s.unmetered_runFree stage) ?_
  rintro ⟨next, s⟩
  cases next with
  | reply r => exact bind_mapped (call.unmetered_conclude s r) fun _ => rfl
  | go locked => rfl

theorem unmetered_grant (ticket ahead : Nat) (stage : LockedStage) :
    call.grant ticket ahead stage s.unmetered =
      unmeteredSite <$> call.grant ticket ahead stage s := by
  have hstage : stage.run (s.unmetered.noteWait ahead) =
      unmeteredSite <$> stage.run (s.noteWait ahead) := by
    rw [← Site.unmetered_runLocked, Site.noteWait_unmetered]
    rfl
  refine bind_same fun _ => bind_mapped hstage ?_
  rintro ⟨next, s⟩
  cases next with
  | reply r =>
    have hend := call.unmetered_conclude (s.setForeign s.deque.foreign.release) r
    exact bind_mapped hend fun _ => rfl
  | go stage => rfl

theorem unmetered_fly (grants : Nat) (stage : FreeStage) :
    call.fly grants stage s.unmetered = unmeteredSite <$> call.fly grants stage s := by
  induction grants generalizing stage s with
  | zero =>
    rw [fly, fly]
    refine bind_mapped (call.unmetered_advance s stage) ?_
    rintro ⟨flight, s⟩
    cases flight with
    | landed r => rfl
    | waiting ticket ahead locked => exact ite_mapped (fun _ => rfl) fun _ => rfl
  | succ grants ih =>
    rw [fly, fly]
    refine bind_mapped (call.unmetered_advance s stage) ?_
    rintro ⟨flight, s⟩
    cases flight with
    | landed r => rfl
    | waiting ticket ahead locked =>
      refine ite_mapped (fun _ => ?_) fun _ => rfl
      refine bind_mapped (call.unmetered_grant s ticket ahead locked) ?_
      rintro ⟨next, s⟩
      cases next with
      | reply r => rfl
      | go stage => exact ih s stage

theorem unmetered_start : call.start s.unmetered = unmeteredSite <$> call.start s := by
  unfold start
  refine bind_mapped (call.unmetered_launch s) ?_
  rintro ⟨stage, s⟩
  exact call.unmetered_fly s (grantBudget 1 s.deque.length) stage

theorem unmetered_perform : call.perform s.unmetered = unmeteredSite <$> call.perform s := by
  refine bind_mapped (call.unmetered_start s) ?_
  rintro ⟨flight, s⟩
  cases flight <;> rfl

end Call

end WorkStealing
