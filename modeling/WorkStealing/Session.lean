import WorkStealing.Convoy
import WorkStealing.Session.Answer
import WorkStealing.Session.Op

set_option autoImplicit false

/-!
# Sessions

A session is a script of steps on a world of pools, handles and units. A step that does not apply is
refused and changes nothing. `World.step` runs one step, `World.run` all of them.
-/
namespace WorkStealing

namespace World

def name (w : World) (u : UnitId) : Checked NamedUnit := do
  let e ← w.units.lookup u
  return ⟨u, e.unit.kind⟩

def unitOf (w : World) : Reply → Checked (Option NamedUnit)
  | .taken u => do return some (← w.name u)
  | _ => return none

def refuse (w : World) : Checked (Answer × World) := return (.refused, w)

def place (e : UnitEntry) : Place :=
  if e.registered then
    match e.unit.pool with
    | some p => .inPool p
    | none => .outside
  else .cleared

def take (w : World) (p : PoolId) (call : Call) : Checked (Option NamedUnit × World) := do
  let (r, w) ← w.perform p call
  return (← w.unitOf r, w)

def takeMany (p : PoolId) (call : Call) : Nat → World → Checked (List (Option NamedUnit) × World)
  | 0, w => return ([], w)
  | times + 1, w => do
    let (u, w) ← w.take p call
    let (us, w) ← takeMany p call times w
    return (u :: us, w)

/-- Calls until nothing is left, at most `times` times; the miss ends the list. -/
def takeAll (p : PoolId) (call : Call) : Nat → World → Checked (List (Option NamedUnit) × World)
  | 0, _ => throw .outOfGrants
  | times + 1, w => do
    match ← w.take p call with
    | (none, w) => return ([none], w)
    | (some u, w) =>
      let (us, w) ← takeAll p call times w
      return (some u :: us, w)

def takeAllOf (w : World) (p : PoolId) (call : Call) :
    Checked (List (Option NamedUnit) × World) :=
  takeAll p call (((w.pool? p).map Deque.length).getD 0 + 1) w

def pushOne (w : World) (p : PoolId) (u : UnitId) : Checked (Option PoolError × World) := do
  match ← w.perform p (.push u) with
  | (.refused e, w) => return (some e, w)
  | (_, w) => return (none, w)

def pushMany (p : PoolId) (type : UnitType) (first : UInt64) :
    Nat → World → Checked (List PoolError × World)
  | 0, w => return ([], w)
  | times + 1, w => do
    let (u, w) := w.createUnit (.ofRaw type first)
    let (e, w) ← w.pushOne p u
    let (es, w) ← pushMany p type (first + 1) times w
    return (e.toList ++ es, w)

def info (d : Deque) : Side → PoolInfo
  | .owner => ⟨d.id, d.name, .deque, d.length, d.capacity, d.ownerOutline⟩
  | .foreign => ⟨d.id, some "(stealer)", .deque, d.length, d.capacity, d.stealerOutline⟩

def knows (w : World) (call : BoardingCall) : Bool :=
  (call.handle? >>= w.handle?).isSome && call.unit?.all fun u => (w.unit? u).isSome

def resolve (w : World) : BoardingCall → Option (PoolId × Call)
  | .steal h => (w.stolen? h).map (·, .steal)
  | .pop h => (w.owned? h).map (·, .pop)
  | .push h u => (w.owned? h).map (·, .push u)
  | .remove h u => (w.handle? h).map fun k => (k.pool, .remove k.side u)
  | .unknown _ => none

/-- Starts the calls of a convoy on `p`. A call on another pool finds that pool's lock free, but an
owner call there waits its turn like one on `p`. -/
def boardAll (p : PoolId) : Convoy → World → List BoardingCall → Checked (Convoy × World)
  | c, w, [] => return (c, w)
  | c, w, call :: calls => do
    match w.resolve call with
    | none => boardAll p c.bar w calls
    | some (q, call) =>
      if q = p then
        let (c, w) ← w.visit p (c.board call)
        boardAll p c w calls
      else if c.blocks call then
        boardAll p c.bar w calls
      else
        let (r, w) ← w.perform q call
        boardAll p (c.pass r) w calls

def gotOf (w : World) : Reply → Checked Got
  | .stored => return .ok
  | .refused e => return .error e
  | .taken u => do return .unit (some (← w.name u))
  | .missed => return .unit none

def resultOf (w : World) : Passage → Checked CallResult
  | .barred => return .refused
  | .direct r => do return .made (← w.gotOf r) false
  | .queued (some r) => do return .made (← w.gotOf r) true
  | .queued none => throw .brokenLine

/-- Works in a world without an allocation limit, which is put back afterwards. -/
def unlimited {α : Type} (w : World) (act : World → Checked (α × World)) :
    Checked (α × World) := do
  let limit := w.limit
  let (a, w) ← act { w with limit := none }
  return (a, { w with limit })

/-- The limit is one of the thread that runs the session. The calls of a convoy have threads of
their own, to which it does not apply. -/
def convoy (w : World) (p : PoolId) (calls : List BoardingCall) :
    Checked (List CallResult × World) :=
  w.unlimited fun w => do
    let (_, w) ← w.visit p fun s => do return ((), ← Convoy.hold s)
    let (c, w) ← boardAll p .empty w calls
    let (c, w) ← w.visit p c.finish
    return (← c.passages.toList.mapM w.resultOf, w)

def act (w : World) (op : Op) : Checked (Answer × World) :=
  match op with
  | .createUnit kind =>
    let (u, w) := w.createUnit kind
    return (.number u.number, w)
  | .unitInfo u =>
    match w.unit? u with
    | some e => return (.unitInfo e, w)
    | none => w.refuse
  | .whereabouts => return (.places (w.units.entries.toList.map place), w)
  | .clearUnit u =>
    match w.units.find? u with
    | some _ => do return (.flag true, { w with units := ← w.units.clear u })
    | none => w.refuse
  | .new h capacity name => do
    match ← w.openPool h ⟨capacity.getD PoolConfig.defaultCapacity, name⟩ 0 with
    | (.ok p, w) => return (.opened p, w)
    | (.error e, w) => return (.error e, w)
  | .newAt h capacity start => do
    match ← w.openPool h ⟨capacity.getD PoolConfig.defaultCapacity, none⟩ start.toNat with
    | (.ok p, w) => return (.opened p, w)
    | (.error e, w) => return (.error e, w)
  | .limit slots => return (.ok, { w with limit := slots })
  | .stealer h owner =>
    match w.owned? owner with
    | some p => do return (.ok, ← w.bind h ⟨.foreign, p⟩)
    | none => w.refuse
  | .clone h stealer =>
    match w.stolen? stealer with
    | some p => do return (.ok, ← w.bind h ⟨.foreign, p⟩)
    | none => w.refuse
  | .drop h =>
    match w.handle? h with
    | some _ => do return (.ok, ← w.dropHandle h)
    | none => w.refuse
  | .push h u =>
    match w.owned? h, w.unit? u with
    | some p, some _ => do
      match ← w.pushOne p u with
      | (none, w) => return (.ok, w)
      | (some e, w) => return (.error e, w)
    | _, _ => w.refuse
  | .pushNew h kind =>
    match w.owned? h with
    | some p => do
      let (u, w) := w.createUnit kind
      match ← w.pushOne p u with
      | (none, w) => return (.ok, w)
      | (some e, w) => return (.error e, w)
    | none => w.refuse
  | .pushMany h type first times =>
    match w.owned? h with
    | some p => do
      let (es, w) ← pushMany p type first times w
      return (.failures es, w)
    | none => w.refuse
  | .pop h =>
    match w.owned? h with
    | some p => do
      let (u, w) ← w.take p .pop
      return (.unit u, w)
    | none => w.refuse
  | .steal h =>
    match w.stolen? h with
    | some p => do
      let (u, w) ← w.take p .steal
      return (.unit u, w)
    | none => w.refuse
  | .remove h u =>
    match w.handle? h, w.unit? u with
    | some k, some _ => do
      let (u, w) ← w.take k.pool (.remove k.side u)
      return (.unit u, w)
    | _, _ => w.refuse
  | .popMany h times =>
    match w.owned? h with
    | some p => do
      let (us, w) ← takeMany p .pop times w
      return (.units us, w)
    | none => w.refuse
  | .stealMany h times =>
    match w.stolen? h with
    | some p => do
      let (us, w) ← takeMany p .steal times w
      return (.units us, w)
    | none => w.refuse
  | .popAll h =>
    match w.owned? h with
    | some p => do
      let (us, w) ← w.takeAllOf p .pop
      return (.units us, w)
    | none => w.refuse
  | .stealAll h =>
    match w.stolen? h with
    | some p => do
      let (us, w) ← w.takeAllOf p .steal
      return (.units us, w)
    | none => w.refuse
  | .info h =>
    match w.handle? h with
    | some k =>
      match w.pool? k.pool with
      | some d => return (.info (info d k.side), w)
      | none => throw .noSuchPool
    | none => w.refuse
  | .compareIds first second =>
    match w.handle? first, w.handle? second with
    | some j, some k => return (.comparison (compare j.pool k.pool), w)
    | _, _ => w.refuse
  | .samePool stealer owner =>
    match w.stolen? stealer, w.owned? owner with
    | some p, some q => return (.flag (p = q), w)
    | _, _ => w.refuse
  | .metrics h =>
    match w.handle? h with
    | some k =>
      match w.pool? k.pool with
      | some d => return (.metrics d.metrics.snapshot, w)
      | none => throw .noSuchPool
    | none => w.refuse
  | .resetMetrics h =>
    match w.handle? h with
    | some k => do
      let (_, w) ← w.visit k.pool fun s => return ((), s.resetMetrics)
      return (.ok, w)
    | none => w.refuse
  | .convoy h calls =>
    match w.owned? h with
    | some p =>
      if calls.all w.knows then do
        let (results, w) ← w.convoy p calls
        return (.convoy results, w)
      else w.refuse
    | none => w.refuse
  | .unknown _ => w.refuse

def sizeOf (w : World) (h : Nat) : Option (Nat × Nat) := do
  let k ← w.handle? h
  let d ← w.pool? k.pool
  return (d.length, d.capacity)

def step (w : World) (op : Op) : Checked (StepReport × World) := do
  let w := { w with log := #[] }
  let (answer, w) ← if op.needsHooks && !w.hooks then w.refuse else w.act op
  return (⟨answer, op.subject? >>= w.sizeOf, w.log⟩, w)

def run (w : World) : List Op → Checked (List StepReport × World)
  | [] => return ([], w)
  | op :: ops => do
    let (report, w) ← w.step op
    let (reports, w) ← w.run ops
    return (report :: reports, w)

end World

end WorkStealing
