import WorkStealing.Deque.Flight

set_option autoImplicit false

/-!
# Delivery races

An owner and some thieves work on one pool at once. The owner pushes numbered units, pops once after
some of them, and in the end pops until nothing is left; a thief steals until the owner is done and
a steal finds nothing. A schedule says which thread makes the next step. A step is the start of a
call, a free stage, or a locked stage of the call whose ticket is served; a thread that cannot go on
lets its turn pass.
-/
namespace WorkStealing

structure RacePlan where
  total : UInt64
  thieves : Nat
  /-- The owner pops after pushing a unit whose number this divides; with zero it never does. -/
  popEvery : Nat

inductive Duty where
  | produce (i : Nat)
  /-- Pop once after the unit with this number. -/
  | interlude (i : Nat)
  | drain
  | thieve
  | retired
  deriving DecidableEq

inductive Spot where
  | idle
  | ready (call : Call) (stage : FreeStage)
  | queued (call : Call) (ticket ahead : Nat) (stage : LockedStage)

structure RaceThread where
  duty : Duty
  spot : Spot

structure Race where
  site : Site
  /-- The owner first, then the thieves. -/
  threads : List RaceThread
  received : List UnitId

namespace RacePlan

def produceFrom (plan : RacePlan) (i : Nat) : Duty :=
  if i < plan.total.toNat then .produce i else .drain

def next (plan : RacePlan) (ownerDone : Bool) (duty : Duty) (r : Reply) : Duty :=
  match duty with
  | .produce i =>
    if plan.popEvery ≠ 0 ∧ i % plan.popEvery = 0 then .interlude i else plan.produceFrom (i + 1)
  | .interlude i => plan.produceFrom (i + 1)
  | .drain => if r = .missed then .retired else .drain
  | .thieve => if r = .missed ∧ ownerDone then .retired else .thieve
  | .retired => .retired

def threads (plan : RacePlan) : List RaceThread :=
  ⟨plan.produceFrom 0, .idle⟩ :: List.replicate plan.thieves ⟨.thieve, .idle⟩

/-- More rounds than a race can take when every thread has its turn in each: an owner call waits for
no more threads than there are. -/
def roundBudget (plan : RacePlan) : Nat := (3 * plan.total.toNat + 5) * (2 * (plan.thieves + 8))

end RacePlan

namespace Race

def start (plan : RacePlan) (site : Site) : Race := ⟨site, plan.threads, []⟩

def ownerDone (r : Race) : Bool := r.threads.head?.any (·.duty = .retired)

def isOver (r : Race) : Bool := r.threads.all (·.duty = .retired)

def setThread (r : Race) (t : Nat) (thread : RaceThread) : Race :=
  { r with threads := r.threads.set t thread }

def land (plan : RacePlan) (r : Race) (t : Nat) (duty : Duty) (reply : Reply) (site : Site) :
    Race :=
  let r := r.setThread t ⟨plan.next r.ownerDone duty reply, .idle⟩
  match reply with
  | .taken u => { r with site, received := u :: r.received }
  | _ => { r with site }

/-- The call that a duty asks for. The unit of a push is created for it. -/
def callOf (duty : Duty) (s : Site) : Option (Call × Site) :=
  match duty with
  | .produce i =>
    let (u, units) := s.units.create (.task ⟨i.toUInt64⟩)
    some (.push u, s.setUnits units)
  | .interlude _ => some (.pop, s)
  | .drain => some (.pop, s)
  | .thieve => some (.steal, s)
  | .retired => none

def step (plan : RacePlan) (r : Race) (t : Nat) : Checked Race :=
  match r.threads[t]? with
  | none => return r
  | some ⟨duty, .idle⟩ =>
    match callOf duty r.site with
    | none => return r
    | some (call, site) => do
      let (stage, site) ← call.launch site
      return { r with site }.setThread t ⟨duty, .ready call stage⟩
  | some ⟨duty, .ready call stage⟩ => do
    match ← call.advance stage r.site with
    | (.landed reply, site) => return r.land plan t duty reply site
    | (.waiting ticket ahead stage, site) =>
      return { r with site }.setThread t ⟨duty, .queued call ticket ahead stage⟩
  | some ⟨duty, .queued call ticket ahead stage⟩ =>
    if r.site.deque.foreign.serves ticket then do
      match ← call.grant ticket ahead stage r.site with
      | (.reply reply, site) => return r.land plan t duty reply site
      | (.go stage, site) => return { r with site }.setThread t ⟨duty, .ready call stage⟩
    else
      return r

def follow (plan : RacePlan) (r : Race) : List Nat → Checked Race
  | [] => return r
  | t :: schedule => do
    let r ← r.step plan t
    r.follow plan schedule

def runRounds (plan : RacePlan) : Nat → Race → Checked Race
  | 0, r => if r.isOver then return r else throw .outOfGrants
  | rounds + 1, r =>
    if r.isOver then return r
    else do
      let r ← r.follow plan (List.range r.threads.length)
      runRounds plan rounds r

end Race

structure RaceResult where
  delivered : Nat
  distinct : Nat
  sum : Nat
  length : Nat
  pushes : Nat
  extracted : Nat
  popMisses : Bool
  stealMisses : Bool

namespace Race

def rawOf (units : UnitTable) (u : UnitId) : Nat :=
  ((units.find? u).map fun e => e.unit.kind.raw.toNat).getD 0

def result (r : Race) : Checked RaceResult := do
  let metrics := r.site.deque.metrics.snapshot
  let (pop, site) ← Call.pop.perform r.site
  let (steal, _) ← Call.steal.perform site
  return {
    delivered := r.received.length
    distinct := distinct (r.received.map (·.number))
    sum := r.received.foldr (fun u n => rawOf r.site.units u + n) 0
    length := r.site.deque.length
    pushes := metrics.pushes
    extracted := metrics.extracted
    popMisses := pop = .missed
    stealMisses := steal = .missed }

def run (plan : RacePlan) (config : PoolConfig) (telemetry : Bool) :
    Checked (Except PoolError RaceResult) := do
  match config.validate with
  | .error problem => return .error (.ofProblem problem)
  | .ok _ =>
    match ← Deque.create none config 0 (.ofIndex 0) with
    | .error e => return .error e
    | .ok deque =>
      let site : Site := { units := .empty, limit := none, telemetry, log := #[], deque }
      let r ← runRounds plan plan.roundBudget (start plan site)
      return .ok (← r.result)

end Race

end WorkStealing
