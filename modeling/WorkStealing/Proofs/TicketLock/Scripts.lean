import Mathlib.Algebra.BigOperators.Group.List.Basic
import Mathlib.Data.UInt
import WorkStealing.TicketLock.Script

set_option autoImplicit false

/-!
# Lock scripts one step after another

The counters of a lock script may start anywhere: moving both of them moves every ticket, and no
answer shows it. Between two steps at most the guard's ticket is outstanding, so whoever queues is
served in the order of the queue, and the values come into the list in the order of the script.
-/
namespace WorkStealing

namespace LockOp

/-- What a step answers when the guard is held or not, and the list is `values`. Whoever queues
finds the guard and those before it there; the attempt behind the line finds it empty only if its
length, the guard included, is a multiple of the machine words. -/
def reply (held : Bool) (values : List Int) : LockOp → LockAnswer
  | .lock => if held then .refused else .flag true
  | .tryLock => .flag !held
  | .unlock => if held then .flag true else .refused
  | .push _ => if held then .length (values.length + 1) else .refused
  | .read => if held then .contents values else .refused
  | .guard => if held then .guard 0 else .refused
  | .appendFree _ => if held then .refused else .flag true
  | .waiters count _ =>
    if held then
      .waiters ((List.range count).map fun k => .ofNat (k + 2)) (decide (¬ 2 ^ 32 ∣ count + 1))
    else .refused
  | .unreadable onGuard => if held = onGuard then .unreadable else .refused
  | .unknown => .refused

def appended : LockOp → LockAnswer → List Int
  | .push n, .length _ => [n]
  | .appendFree n, .flag true => [n]
  | .waiters count base, .waiters _ _ => (List.range count).map fun k : Nat => base + k
  | _, _ => []

def drawn : LockOp → LockAnswer → Nat
  | .lock, .flag true => 1
  | .tryLock, .flag true => 1
  | .waiters count _, .waiters _ _ => count
  | _, _ => 0

def dropped : LockOp → LockAnswer → Nat
  | .unlock, .flag true => 1
  | .waiters count _, .waiters _ _ => count + 1
  | _, _ => 0

end LockOp

/-- A step of a script with its answer and the lock as the step left it. -/
abbrev LockEntry := LockOp × LockAnswer × ListLock

namespace LockScript

/-! ## Moving the counters -/

def shiftLock (t : UInt32) (l : ListLock) : ListLock :=
  ⟨l.nextTicket + t, l.nowServing + t, l.contents⟩

def shift (t : UInt32) (s : LockScript) : LockScript := ⟨shiftLock t s.lock, s.guarded⟩

def Waiter.shift (t : UInt32) (w : Waiter) : Waiter := { w with ticket := w.ticket + t }

section Shift

variable (t : UInt32) (l : ListLock)

theorem start_eq_shift : start t = (start 0).shift t := by
  simp [start, shift, shiftLock, TicketLock.startingAt]

@[simp]
theorem isLocked_shiftLock : (shiftLock t l).isLocked = l.isLocked := by
  simp [shiftLock, TicketLock.isLocked]

@[simp]
theorem queueLength_shiftLock : (shiftLock t l).queueLength = l.queueLength :=
  add_sub_add_right_eq_sub l.nextTicket l.nowServing t

@[simp]
theorem contents_shiftLock : (shiftLock t l).contents = l.contents := rfl

theorem draw_shiftLock : (shiftLock t l).draw = (l.draw.1 + t, shiftLock t l.draw.2) := by
  simp only [TicketLock.draw, shiftLock, add_right_comm]

theorem release_shiftLock : (shiftLock t l).release = shiftLock t l.release := by
  simp only [TicketLock.release, shiftLock, add_right_comm]

theorem append_shiftLock (n : Int) : append n (shiftLock t l) = shiftLock t (append n l) := rfl

theorem tryLock_shiftLock : (shiftLock t l).tryLock = l.tryLock.map (shiftLock t) := by
  simp only [TicketLock.tryLock, shiftLock, add_left_inj]
  split
  · simp only [Option.map_some, shiftLock, add_right_comm]
  · rfl

theorem serves_shiftLock (ticket : UInt32) :
    (shiftLock t l).serves (ticket + t) = l.serves ticket := by
  simp [TicketLock.serves, shiftLock]

theorem lineUp_shiftLock (base : Int) (count : Nat) :
    lineUp (shiftLock t l) base count =
      ((lineUp l base count).1.map (·.shift t), (lineUp l base count).2.1,
        shiftLock t (lineUp l base count).2.2) := by
  induction count with
  | zero => rfl
  | succ count ih =>
    simp only [lineUp, ih, draw_shiftLock, queueLength_shiftLock, List.map_append]
    rfl

theorem serve_shiftLock (line : List Waiter) :
    serve (shiftLock t l) (line.map (·.shift t)) = shiftLock t (serve l line) := by
  induction line generalizing l with
  | nil => rfl
  | cons w line ih =>
    simp only [List.map_cons, serve, Waiter.shift, serves_shiftLock, append_shiftLock,
      release_shiftLock]
    split
    · exact ih _
    · rfl

/-- No step looks at the counters but to compare them with each other. -/
theorem step_shift (s : LockScript) (op : LockOp) :
    (s.shift t).step op = ((s.step op).1, (s.step op).2.shift t) := by
  obtain ⟨l, guarded⟩ := s
  cases op with
  | tryLock =>
    simp only [step, shift, tryLock_shiftLock]
    cases l.tryLock <;> rfl
  | waiters count base =>
    cases guarded
    · rfl
    · simp only [step, shift, lineUp_shiftLock, release_shiftLock, serve_shiftLock,
        tryLock_shiftLock, Option.isNone_map]
      rfl
  | lock =>
    cases guarded
    · simp only [step, shift, draw_shiftLock]
      rfl
    · rfl
  | unlock =>
    cases guarded
    · rfl
    · simp only [step, shift, release_shiftLock]
      rfl
  | _ => cases guarded <;> rfl

theorem run_shift (s : LockScript) (ops : List LockOp) :
    (s.shift t).run ops =
      ((s.run ops).1.map fun step => (step.1, shiftLock t step.2), (s.run ops).2.shift t) := by
  induction ops generalizing s with
  | nil => rfl
  | cons op ops ih =>
    simp only [run, step_shift, ih, List.map_cons]
    rfl

end Shift

/-! ## The line behind the guard -/

theorem add_ofNat_add (w : UInt32) (m n : Nat) :
    w + .ofNat (m + n) = w + .ofNat m + .ofNat n := by
  rw [UInt32.ofNat_add, ← add_assoc]

theorem ofNat_eq_zero_iff_dvd (n : Nat) : UInt32.ofNat n = 0 ↔ 2 ^ 32 ∣ n := by
  rw [← UInt32.toNat_inj, UInt32.toNat_ofNat', Nat.dvd_iff_mod_eq_zero]
  rfl

theorem lineUp_eq (l : ListLock) (base : Int) (count : Nat) :
    lineUp l base count =
      ((List.range count).map fun k => ⟨l.nextTicket + .ofNat k, base + k⟩,
        (List.range count).map fun k => l.queueLength + .ofNat (k + 1),
        ⟨l.nextTicket + .ofNat count, l.nowServing, l.contents⟩) := by
  induction count with
  | zero => simp [lineUp]
  | succ count ih =>
    have hnext : l.nextTicket + UInt32.ofNat count + 1 = l.nextTicket + .ofNat (count + 1) :=
      (add_ofNat_add _ count 1).symm
    have hlength : l.nextTicket + UInt32.ofNat (count + 1) - l.nowServing =
        l.nextTicket - l.nowServing + .ofNat (count + 1) := (sub_add_eq_add_sub _ _ _).symm
    simp only [lineUp, ih, TicketLock.draw, TicketLock.queueLength, hnext, hlength,
      List.range_succ, List.map_append, List.map_singleton]

theorem serve_eq (queue : List Waiter) (l : ListLock)
    (h : ∀ (k : Nat) (w : Waiter), queue[k]? = some w → w.ticket = l.nowServing + .ofNat k) :
    serve l queue =
      ⟨l.nextTicket, l.nowServing + .ofNat queue.length, l.contents ++ queue.map (·.value)⟩ := by
  induction queue generalizing l with
  | nil => simp [serve]
  | cons w queue ih =>
    have hsucc (k : Nat) : l.nowServing + UInt32.ofNat (k + 1) = l.nowServing + 1 + .ofNat k := by
      rw [add_comm k]
      exact add_ofNat_add _ 1 k
    have hserves : l.serves w.ticket = true := by
      have := h 0 w rfl
      simpa [TicketLock.serves] using this.symm
    rw [serve, if_pos hserves, ih _ fun k w hk => (h (k + 1) w hk).trans (hsucc k)]
    simp only [List.length_cons, hsucc, List.map_cons, append, TicketLock.modify,
      TicketLock.release, List.append_assoc, List.singleton_append]

/-! ## The account of a script -/

def transcript (s : LockScript) (ops : List LockOp) : List LockEntry := ops.zip (s.run ops).1

section Account

variable (entries : List LockEntry)

def drawn : Nat := (entries.map fun e => e.1.drawn e.2.1).sum

def dropped : Nat := (entries.map fun e => e.1.dropped e.2.1).sum

def appended : List Int := entries.flatMap fun e => e.1.appended e.2.1

variable (e : LockEntry)

@[simp]
theorem drawn_cons : drawn (e :: entries) = e.1.drawn e.2.1 + drawn entries := rfl

@[simp]
theorem dropped_cons : dropped (e :: entries) = e.1.dropped e.2.1 + dropped entries := rfl

@[simp]
theorem appended_cons : appended (e :: entries) = e.1.appended e.2.1 ++ appended entries := rfl

variable (entries' : List LockEntry)

@[simp]
theorem drawn_append : drawn (entries ++ entries') = drawn entries + drawn entries' := by
  simp [drawn]

@[simp]
theorem dropped_append : dropped (entries ++ entries') = dropped entries + dropped entries' := by
  simp [dropped]

end Account

variable {ticket : UInt32} {tickets guards : Nat} {values : List Int}

/-- Where a script stands after so many tickets were drawn, guards dropped and values appended. -/
structure Tallied (ticket : UInt32) (tickets guards : Nat) (values : List Int) (s : LockScript) :
    Prop where
  lock : s.lock = ⟨ticket + .ofNat tickets, ticket + .ofNat guards, values⟩
  balance : tickets = guards + s.guarded.toNat

namespace Tallied

variable {s : LockScript}

theorem guarded_eq (h : Tallied ticket tickets guards values s) :
    s.guarded = (tickets != guards) := by
  have := h.balance
  cases hg : s.guarded <;> simp_all

theorem kept (h : Tallied ticket tickets guards values s) :
    Tallied ticket (tickets + 0) (guards + 0) (values ++ []) s := by
  simpa using h

theorem draw {l : ListLock} (h : Tallied ticket tickets guards values ⟨l, false⟩) :
    Tallied ticket (tickets + 1) (guards + 0) (values ++ []) ⟨l.draw.2, true⟩ := by
  obtain ⟨rfl, hbalance⟩ := h
  refine ⟨?_, congrArg (· + 1) hbalance⟩
  rw [add_ofNat_add, List.append_nil]
  rfl

theorem tryLock_eq {l : ListLock} (h : Tallied ticket tickets guards values ⟨l, false⟩) :
    l.tryLock = some l.draw.2 := by
  obtain ⟨rfl, hbalance⟩ := h
  obtain rfl : tickets = guards := hbalance
  exact if_pos rfl

theorem release {l : ListLock} (h : Tallied ticket tickets guards values ⟨l, true⟩) :
    Tallied ticket (tickets + 0) (guards + 1) (values ++ []) ⟨l.release, false⟩ := by
  obtain ⟨rfl, hbalance⟩ := h
  refine ⟨?_, hbalance⟩
  rw [add_ofNat_add ticket guards, List.append_nil]
  rfl

theorem append (h : Tallied ticket tickets guards values s) (n : Int) :
    Tallied ticket (tickets + 0) (guards + 0) (values ++ [n])
      ⟨LockScript.append n s.lock, s.guarded⟩ := by
  obtain ⟨l, guarded⟩ := s
  obtain ⟨rfl, hbalance⟩ := h
  exact ⟨rfl, hbalance⟩

/-- Only a line whose length is a multiple of the machine words looks like none. -/
theorem tryLock_isNone (n : Nat) :
    (TicketLock.tryLock (⟨ticket + .ofNat (guards + n), ticket + .ofNat guards, values⟩ :
      ListLock)).isNone = decide (¬ 2 ^ 32 ∣ n) := by
  have hfree : ticket + UInt32.ofNat (guards + n) = ticket + .ofNat guards ↔ 2 ^ 32 ∣ n := by
    rw [add_ofNat_add, add_eq_left, ofNat_eq_zero_iff_dvd]
  simp only [TicketLock.tryLock, hfree]
  split <;> simp_all

theorem tryLock_held {l : ListLock} (h : Tallied ticket tickets guards values ⟨l, true⟩) :
    l.tryLock = none := by
  obtain ⟨rfl, hbalance⟩ := h
  obtain rfl : tickets = guards + 1 := hbalance
  exact Option.isNone_iff_eq_none.1 (tryLock_isNone 1)

theorem step_waiters {l : ListLock} (h : Tallied ticket tickets guards values ⟨l, true⟩)
    (count : Nat) (base : Int) :
    step ⟨l, true⟩ (.waiters count base) =
      (LockOp.reply true values (.waiters count base),
        ⟨⟨ticket + .ofNat (tickets + count), ticket + .ofNat (guards + (count + 1)),
          values ++ (List.range count).map fun k : Nat => base + k⟩, false⟩) := by
  obtain ⟨rfl, hbalance⟩ := h
  obtain rfl : tickets = guards + 1 := hbalance
  have hcount : guards + 1 + count = guards + (count + 1) := by omega
  have hnext : ticket + UInt32.ofNat (guards + 1) + .ofNat count =
      ticket + .ofNat (guards + (count + 1)) := by
    rw [← add_ofNat_add, hcount]
  have hnow : ticket + UInt32.ofNat guards + 1 + .ofNat count =
      ticket + .ofNat (guards + (count + 1)) := by
    rw [← hnext, add_ofNat_add _ guards]
    rfl
  have hlength (k : Nat) : ticket + UInt32.ofNat (guards + 1) - (ticket + .ofNat guards) +
      .ofNat (k + 1) = .ofNat (k + 2) := by
    rw [add_ofNat_add _ guards, add_sub_cancel_left, ← UInt32.ofNat_add, add_comm 1]
  have hserved := serve_eq ((List.range count).map fun k =>
      (⟨ticket + .ofNat (guards + 1) + .ofNat k, base + k⟩ : Waiter))
    ⟨ticket + .ofNat (guards + (count + 1)), ticket + .ofNat guards + 1, values⟩ fun k w hk => by
      obtain ⟨hlt, rfl⟩ := List.getElem?_eq_some_iff.1 hk
      rw [List.getElem_map, List.getElem_range, add_ofNat_add _ guards 1]
      rfl
  simp only [LockScript.step, lineUp_eq, TicketLock.release, hnext, TicketLock.queueLength,
    hlength, tryLock_isNone, hserved, LockOp.reply, if_true, List.length_map, List.length_range,
    hnow, hcount, List.map_map]
  rfl

theorem step (h : Tallied ticket tickets guards values s) (op : LockOp) :
    (s.step op).1 = op.reply s.guarded values ∧
      Tallied ticket (tickets + op.drawn (s.step op).1) (guards + op.dropped (s.step op).1)
        (values ++ op.appended (s.step op).1) (s.step op).2 := by
  obtain ⟨l, guarded⟩ := s
  cases op with
  | lock =>
    cases guarded
    · exact ⟨rfl, h.draw⟩
    · exact ⟨rfl, h.kept⟩
  | tryLock =>
    cases guarded
    · rw [LockScript.step, h.tryLock_eq]
      exact ⟨rfl, h.draw⟩
    · rw [LockScript.step, h.tryLock_held]
      exact ⟨rfl, h.kept⟩
  | unlock =>
    cases guarded
    · exact ⟨rfl, h.kept⟩
    · exact ⟨rfl, h.release⟩
  | push n =>
    cases guarded
    · exact ⟨rfl, h.kept⟩
    · obtain ⟨rfl, -⟩ := id h
      exact ⟨congrArg LockAnswer.length List.length_append, h.append n⟩
  | appendFree n =>
    cases guarded
    · exact ⟨rfl, h.append n⟩
    · exact ⟨rfl, h.kept⟩
  | waiters count base =>
    cases guarded
    · exact ⟨rfl, h.kept⟩
    · rw [h.step_waiters]
      have hbalance := h.balance
      exact ⟨rfl, rfl, hbalance.symm ▸ add_right_comm guards 1 count⟩
  | read =>
    cases guarded
    · exact ⟨rfl, h.kept⟩
    · obtain ⟨rfl, -⟩ := id h
      exact ⟨rfl, h.kept⟩
  | guard => cases guarded <;> exact ⟨rfl, h.kept⟩
  | unreadable onGuard => cases guarded <;> cases onGuard <;> exact ⟨rfl, h.kept⟩
  | unknown => exact ⟨rfl, h.kept⟩

theorem transcript_cons (s : LockScript) (op : LockOp) (ops : List LockOp) :
    s.transcript (op :: ops) =
      (op, (s.step op).1, (s.step op).2.lock) :: (s.step op).2.transcript ops := rfl

theorem run (h : Tallied ticket tickets guards values s) (ops : List LockOp) :
    (∀ (before after : List LockEntry) (entry : LockEntry),
      s.transcript ops = before ++ entry :: after →
        ∃ s', Tallied ticket (tickets + drawn before) (guards + dropped before)
          (values ++ appended before) s' ∧
          entry.2 = ((s'.step entry.1).1, (s'.step entry.1).2.lock)) ∧
      Tallied ticket (tickets + drawn (s.transcript ops)) (guards + dropped (s.transcript ops))
        (values ++ appended (s.transcript ops)) (s.run ops).2 := by
  induction ops generalizing s tickets guards values with
  | nil =>
    refine ⟨fun before after entry hcut => ?_, h.kept⟩
    cases before <;> cases hcut
  | cons op ops ih =>
    obtain ⟨hentries, hlast⟩ := ih (h.step op).2
    rw [transcript_cons]
    refine ⟨fun before after entry hcut => ?_, ?_⟩
    · cases before with
      | nil =>
        cases hcut
        exact ⟨s, h.kept, rfl⟩
      | cons first before =>
        obtain ⟨rfl, hrest⟩ := List.cons.inj hcut
        simpa only [drawn_cons, dropped_cons, appended_cons, add_assoc, List.append_assoc] using
          hentries before after entry hrest
    · change Tallied _ _ _ _ ((s.step op).2.run ops).2
      simpa only [drawn_cons, dropped_cons, appended_cons, add_assoc, List.append_assoc] using
        hlast

theorem waited (h : Tallied ticket tickets guards values s) {count : Nat} {base : Int}
    {queue : List UInt32} {refused : Bool}
    (hanswer : (s.step (.waiters count base)).1 = .waiters queue refused) :
    queue = (List.range count).map (fun k => .ofNat (k + 2)) ∧
      (refused = true ↔ ¬ 2 ^ 32 ∣ count + 1) ∧
      (s.step (.waiters count base)).2.lock.nextTicket =
        (s.step (.waiters count base)).2.lock.nowServing := by
  obtain ⟨l, guarded⟩ := s
  cases guarded with
  | false => cases hanswer
  | true =>
    have hbalance : tickets = guards + 1 := h.balance
    rw [h.step_waiters] at hanswer ⊢
    cases hanswer
    refine ⟨rfl, decide_eq_true_iff, ?_⟩
    change ticket + UInt32.ofNat (tickets + count) = ticket + .ofNat (guards + (count + 1))
    rw [hbalance, add_assoc, add_comm 1]

end Tallied

theorem tallied_start (ticket : UInt32) : Tallied ticket 0 0 [] (start ticket) :=
  ⟨by simp [start, TicketLock.startingAt], rfl⟩

/-- What a script with counters that start at `ticket` answers and leaves. -/
structure Serial (ticket : UInt32) (ops : List LockOp) : Prop where
  length : ((start ticket).run ops).1.length = ops.length
  /-- Each answer tells whether the guard is held and what came into the list. -/
  answered : ∀ (before after : List LockEntry) (entry : LockEntry),
    (start ticket).transcript ops = before ++ entry :: after →
      entry.2.1 = entry.1.reply (drawn before != dropped before) (appended before)
  /-- The counters count the tickets and the guards, by words that wrap. -/
  counted : ∀ (before after : List LockEntry) (entry : LockEntry),
    (start ticket).transcript ops = before ++ entry :: after →
      entry.2.2.nextTicket = ticket + .ofNat (drawn (before ++ [entry])) ∧
      entry.2.2.nowServing = ticket + .ofNat (dropped (before ++ [entry]))
  /-- Whoever queues behind the guard adds one to the line. The attempt behind the line is refused,
  and the lock is free once the line is served. -/
  waited : ∀ (count : Nat) (base : Int) (queue : List UInt32) (refused : Bool) (lock : ListLock),
    (.waiters count base, .waiters queue refused, lock) ∈ (start ticket).transcript ops →
      queue = (List.range count).map (fun k => .ofNat (k + 2)) ∧
      (refused = true ↔ ¬ 2 ^ 32 ∣ count + 1) ∧ (count + 1 < 2 ^ 32 → refused = true) ∧
      lock.isLocked = false ∧ lock.queueLength = 0
  contents : ((start ticket).run ops).2.lock.contents = appended ((start ticket).transcript ops)

theorem length_run (s : LockScript) (ops : List LockOp) : (s.run ops).1.length = ops.length := by
  induction ops generalizing s with
  | nil => rfl
  | cons op ops ih => exact congrArg (· + 1) (ih _)

theorem serial_start (ticket : UInt32) (ops : List LockOp) : Serial ticket ops := by
  obtain ⟨hentries, hlast⟩ := (tallied_start ticket).run ops
  simp only [zero_add, List.nil_append] at hentries hlast
  constructor
  · exact length_run _ ops
  · intro before after entry hcut
    obtain ⟨s, hs, hentry⟩ := hentries before after entry hcut
    rw [hentry, ← hs.guarded_eq]
    exact (hs.step entry.1).1
  · intro before after entry hcut
    obtain ⟨s, hs, hentry⟩ := hentries before after entry hcut
    have hlock := (hs.step entry.1).2.lock
    simp only [drawn_append, dropped_append, drawn_cons, dropped_cons, hentry, hlock]
    exact ⟨rfl, rfl⟩
  · intro count base queue refused lock hmem
    obtain ⟨before, after, hcut⟩ := List.append_of_mem hmem
    obtain ⟨s, hs, hentry⟩ := hentries before after _ hcut
    have hanswer : .waiters queue refused = (s.step (.waiters count base)).1 :=
      congrArg Prod.fst hentry
    obtain rfl : lock = (s.step (.waiters count base)).2.lock := congrArg Prod.snd hentry
    obtain ⟨hqueue, hrefused, hfree⟩ := hs.waited hanswer.symm
    refine ⟨hqueue, hrefused, fun hfew => hrefused.2 ?_, ?_, ?_⟩
    · exact Nat.not_dvd_of_pos_of_lt count.succ_pos hfew
    · simpa [TicketLock.isLocked] using hfree
    · rw [TicketLock.queueLength, hfree, sub_self]
  · rw [hlast.lock]

/-- A script is serial, and none of its answers tells where its counters started. -/
theorem run_serial (ticket ticket' : UInt32) (ops : List LockOp) :
    Serial ticket ops ∧
      ((start ticket).run ops).1.map (fun step =>
          (step.1, step.2.isLocked, step.2.queueLength, step.2.contents)) =
        ((start ticket').run ops).1.map (fun step =>
          (step.1, step.2.isLocked, step.2.queueLength, step.2.contents)) ∧
      ((start ticket).run ops).2.lock.contents = ((start ticket').run ops).2.lock.contents := by
  rw [start_eq_shift ticket', run_shift]
  refine ⟨serial_start ticket ops, ?_, ?_⟩
  · rw [start_eq_shift ticket, run_shift]
    simp
  · rw [start_eq_shift ticket, run_shift]
    rfl

example : ((start 4294967295).run [.tryLock, .push 3, .lock, .waiters 2 5, .tryLock]).2 =
    ⟨⟨3, 2, [3, 5, 6]⟩, true⟩ := by rfl

end LockScript

end WorkStealing
