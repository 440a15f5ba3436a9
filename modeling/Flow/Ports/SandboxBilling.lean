import Flow.Ports.CodingSession
import Flow.Verified.Run
import Flow.Verified.Slots

/-!
# Metering the runtime of a sandbox

`BillSandbox` bills a sandbox up to now: whole five-minute increments while it runs,
the exact seconds once it has ended.  A call reads `billed_seconds`, advances it with a
compare-and-swap, and then writes a usage record for what it advanced by.

This is one sandbox with its usage records and the calls in flight, interleaved by
store calls.  A call works on the row that its caller read, and takes the clock later.
A store call may fail without an effect, or take effect and report an error; a call may
also stop for good between two of them.  The sandbox starts and ends at times that the
provider reports, so each of them may be recorded late.  It keeps the kind it was created
with: one of the warm pool that `BindWarmCodingSandbox` gives to a session, with the
seconds it idled as its `billed_seconds`, is outside the model.
-/

namespace Flow.Ports.Billing

open List Option Flow.Verified Run Slots
open Flow.Ports.Coding (Time Duration Kind second minute)

/-- What billing reads of a sandbox row. -/
@[ext]
structure Sandbox where
  id : String
  workspaceKey : String
  sessionID : String := ""
  kind : Kind := .session
  size : String := ""
  startedAt : Option Time := none
  endedAt : Option Time := none
deriving DecidableEq, Repr

/-- A usage record of kind `runtime`. -/
structure UsageRecord where
  id : String
  workspaceKey : String
  sessionID : String
  sandboxID : String
  userID : String
  loopID : String
  runtimeSeconds : Int
  size : String
  createdAt : Time
deriving DecidableEq, Repr

/-- How often a running sandbox is billed. -/
def runtimeBillingIncrement : Duration := 5 * minute

def Sandbox.due (record : Sandbox) (now : Time) : Option Int :=
  match record.startedAt with
  | none => none
  | some start =>
    let elapsed := (record.endedAt.getD now - start).tdiv second
    if record.kind = .warm ∨ elapsed ≤ 0 then none
    else if record.endedAt.isSome then some elapsed
    else
      let step := runtimeBillingIncrement.tdiv second
      some (elapsed.tdiv step * step)

/-- The arguments of a call. -/
structure Bill where
  record : Sandbox
  userID : String
  loopID : String
deriving DecidableEq, Repr

/-- The usage record of a call that advanced `billed_seconds` by `seconds`. -/
def Bill.usage (bill : Bill) (id : String) (seconds : Int) (now : Time) : UsageRecord :=
  { id
    workspaceKey := bill.record.workspaceKey
    sessionID := bill.record.sessionID
    sandboxID := bill.record.id
    userID := bill.userID
    loopID := bill.loopID
    runtimeSeconds := seconds
    size := bill.record.size
    createdAt := now }

def UsageRecord.valid (record : UsageRecord) : Bool :=
  record.id ≠ "" && record.workspaceKey ≠ ""

/-! ## Calls in flight -/

inductive Call where
  | called (bill : Bill)
  | due (bill : Bill) (target : Int)
  | read (bill : Bill) (target billed : Int)
  | claimed (bill : Bill) (seconds : Int)
  /-- It is over; `unwritten` seconds were claimed and not recorded. -/
  | returned (record : Sandbox) (error : Bool) (unwritten : Int)
deriving DecidableEq, Repr

def Call.record : Call → Sandbox
  | .called bill | .due bill _ | .read bill _ _ | .claimed bill _ => bill.record
  | .returned record _ _ => record

def Call.unwritten : Call → Int
  | .claimed _ seconds => seconds
  | .returned _ _ unwritten => unwritten
  | _ => 0

def Call.target : Call → Option Int
  | .due _ target | .read _ target _ => some target
  | _ => none

def Call.isReturned : Call → Bool
  | .returned .. => true
  | _ => false

def Call.final (call : Call) : Bool :=
  call.record.endedAt.isSome

def Call.settled : Call → Bool
  | .returned record error _ => record.endedAt.isSome && !error
  | _ => false

/-- The call was given the end and is about to advance `billed_seconds`. -/
def Call.settling : Call → Bool
  | .read bill _ _ => bill.record.endedAt.isSome
  | _ => false

structure Ledger where
  now : Time
  sandbox : Sandbox
  billedSeconds : Int := 0
  usage : List UsageRecord := []
  calls : List Call := []
deriving DecidableEq, Repr

/-- A sandbox as `insertCodingSandbox` stores it, with nothing billed. -/
def Ledger.new (sandbox : Sandbox) (now : Time) : Ledger :=
  { now, sandbox := { sandbox with startedAt := none, endedAt := none } }

inductive Label where
  | tick (elapsed : Nat)
  | launch (time : Time)
  | finish (time : Time)
  | call (userID loopID : String)
  | clock (k : Nat)
  | billed (k : Nat) (reply : Reply)
  | advance (k : Nat) (reply : Reply)
  | record (k : Nat) (id : String) (reply : Reply)
  | crash (k : Nat)
deriving DecidableEq, Repr

/-- `BillSandbox` after it took the clock. -/
def Bill.take (bill : Bill) (now : Time) : Call :=
  match bill.record.due now with
  | none => .returned bill.record false 0
  | some target => .due bill target

/-- `BillSandbox` after it read `billed_seconds`. -/
def Bill.compare (bill : Bill) (target billed : Int) (reply : Reply) : Call :=
  if reply ≠ .ok then .returned bill.record true 0
  else if target ≤ billed then .returned bill.record false 0
  else .read bill target billed

def Ledger.step (w : Ledger) : Label → Option Ledger
  | .tick elapsed => some { w with now := w.now + elapsed }
  | .launch time =>
    if w.sandbox.startedAt = none ∧ time ≤ w.now then
      some { w with sandbox := { w.sandbox with startedAt := some time } }
    else none
  | .finish time =>
    match w.sandbox.startedAt, w.sandbox.endedAt with
    | some start, none =>
      if start ≤ time ∧ time ≤ w.now then
        some { w with sandbox := { w.sandbox with endedAt := some time } }
      else none
    | _, _ => none
  | .call userID loopID =>
    some { w with calls := w.calls ++ [.called ⟨w.sandbox, userID, loopID⟩] }
  | .clock k =>
    match w.calls[k]? with
    | some (.called bill) => some { w with calls := w.calls.set k (bill.take w.now) }
    | _ => none
  | .billed k reply =>
    match w.calls[k]? with
    | some (.due bill target) =>
      some { w with calls := w.calls.set k (bill.compare target w.billedSeconds reply) }
    | _ => none
  | .advance k reply =>
    match w.calls[k]? with
    | some (.read bill target billed) =>
      if reply = .failed ∨ w.billedSeconds ≠ billed then
        some { w with calls := w.calls.set k (.returned bill.record (reply ≠ .ok) 0) }
      else
        let call := if reply = .ok then .claimed bill (target - billed)
          else .returned bill.record true (target - billed)
        some { w with billedSeconds := target, calls := w.calls.set k call }
    | _ => none
  | .record k id reply =>
    match w.calls[k]? with
    | some (.claimed bill seconds) =>
      let record := bill.usage id seconds w.now
      -- A record whose id is taken is not stored; `NewID` draws an id that is free.
      if w.usage.any fun stored => stored.id = id then none
      else if reply = .failed ∨ !record.valid then
        some { w with calls := w.calls.set k (.returned bill.record true seconds) }
      else
        some { w with
          usage := w.usage ++ [record]
          calls := w.calls.set k (.returned bill.record (reply ≠ .ok) 0) }
    | _ => none
  | .crash k =>
    match w.calls[k]? with
    | some call =>
      if call.isReturned then none
      else some { w with calls := w.calls.set k (.returned call.record true call.unwritten) }
    | none => none

/-! ## What is promised -/

def wholeSeconds (start finish : Time) : Int :=
  (finish - start) / second

def Ledger.recorded (w : Ledger) : Int :=
  (w.usage.map UsageRecord.runtimeSeconds).sum

def Ledger.unwritten (w : Ledger) : Int :=
  (w.calls.map Call.unwritten).sum

def Ledger.idle (w : Ledger) : Bool :=
  w.calls.all Call.isReturned

/-- The whole seconds for which the sandbox has run: up to its end, if that is
recorded, and to now otherwise. -/
def Ledger.elapsed (w : Ledger) : Int :=
  match w.sandbox.startedAt with
  | none => 0
  | some start => wholeSeconds start (w.sandbox.endedAt.getD w.now)

/-- The sandbox has ended, a call that was given the end returned without error,
and no call is in progress. -/
def Ledger.closed (w : Ledger) : Bool :=
  w.sandbox.endedAt.isSome && w.idle && w.calls.any Call.settled

/-- **Runtime is billed exactly once**: no more than has elapsed, and all of it
in the end. -/
structure BilledOnce (w : Ledger) : Prop where
  within : w.recorded ≤ w.elapsed
  exact : w.closed → w.recorded = w.elapsed

/-- Nothing was billed, or is about to be billed, past `limit` seconds. -/
def Ledger.Covers (w : Ledger) (limit : Int) : Prop :=
  w.billedSeconds ≤ limit ∧ ∀ call ∈ w.calls, ∀ target ∈ call.target, target ≤ limit

instance (w : Ledger) (limit : Int) : Decidable (w.Covers limit) :=
  inferInstanceAs (Decidable (_ ∧ _))

/-- When the end is recorded nothing is billed past it, nor does a call that was not given the
end bill past it, or advance `billed_seconds` between the read and the compare-and-swap of one
that was. -/
def Ledger.timely (w : Ledger) : Label → Bool
  | .finish time => w.sandbox.startedAt.all fun start => w.Covers (wholeSeconds start time)
  | .clock k =>
    match w.calls[k]? with
    | some (.called bill) => (bill.record.due w.now).all (· ≤ w.elapsed)
    | _ => true
  | .advance k _ =>
    match w.calls[k]? with
    | some (.read bill _ billed) =>
      bill.record.endedAt.isSome || w.billedSeconds ≠ billed || !w.calls.any Call.settling
    | _ => true
  | _ => true

def Timely (w : Ledger) (label : Label) : Prop :=
  w.timely label

instance (w : Ledger) (label : Label) : Decidable (Timely w label) :=
  inferInstanceAs (Decidable (w.timely label = true))

/-! ## What one step can do -/

inductive Moves (w : Ledger) : Label → Ledger → Prop where
  | tick (elapsed : Nat) : Moves w (.tick elapsed) { w with now := w.now + elapsed }
  | launch (time : Time) (hnew : w.sandbox.startedAt = none) (htime : time ≤ w.now) :
      Moves w (.launch time) { w with sandbox := { w.sandbox with startedAt := some time } }
  | finish (start time : Time) (hstart : w.sandbox.startedAt = some start)
      (hrunning : w.sandbox.endedAt = none) (hle : start ≤ time) (htime : time ≤ w.now) :
      Moves w (.finish time) { w with sandbox := { w.sandbox with endedAt := some time } }
  | call (userID loopID : String) :
      Moves w (.call userID loopID)
        { w with calls := w.calls ++ [.called ⟨w.sandbox, userID, loopID⟩] }
  | clock (k : Nat) (bill : Bill) (hk : w.calls[k]? = some (.called bill)) :
      Moves w (.clock k) { w with calls := w.calls.set k (bill.take w.now) }
  | billed (k : Nat) (reply : Reply) (bill : Bill) (target : Int)
      (hk : w.calls[k]? = some (.due bill target)) :
      Moves w (.billed k reply)
        { w with calls := w.calls.set k (bill.compare target w.billedSeconds reply) }
  | passed (k : Nat) (reply : Reply) (bill : Bill) (target billed : Int)
      (hk : w.calls[k]? = some (.read bill target billed))
      (hlost : reply = .failed ∨ w.billedSeconds ≠ billed) :
      Moves w (.advance k reply)
        { w with calls := w.calls.set k (.returned bill.record (reply ≠ .ok) 0) }
  | advanced (k : Nat) (reply : Reply) (bill : Bill) (target billed : Int)
      (hk : w.calls[k]? = some (.read bill target billed)) (hbilled : w.billedSeconds = billed)
      (call : Call)
      (hcall : call = .claimed bill (target - billed) ∨
        call = .returned bill.record true (target - billed)) :
      Moves w (.advance k reply)
        { w with billedSeconds := target, calls := w.calls.set k call }
  | dropped (k : Nat) (id : String) (reply : Reply) (bill : Bill) (seconds : Int)
      (hk : w.calls[k]? = some (.claimed bill seconds)) :
      Moves w (.record k id reply)
        { w with calls := w.calls.set k (.returned bill.record true seconds) }
  | recorded (k : Nat) (id : String) (reply : Reply) (bill : Bill) (seconds : Int)
      (hk : w.calls[k]? = some (.claimed bill seconds)) :
      Moves w (.record k id reply)
        { w with
          usage := w.usage ++ [bill.usage id seconds w.now]
          calls := w.calls.set k (.returned bill.record (reply ≠ .ok) 0) }
  | crash (k : Nat) (call : Call) (hk : w.calls[k]? = some call) :
      Moves w (.crash k)
        { w with calls := w.calls.set k (.returned call.record true call.unwritten) }

variable {w w' : Ledger} {label : Label}

theorem moves_of_step (h : w.step label = some w') : Moves w label w' := by
  revert h
  fun_cases Ledger.step w label
  all_goals rintro ⟨⟩
  next elapsed => exact .tick elapsed
  next time hnew => exact .launch time hnew.1 hnew.2
  next time start hrunning hstart htime => exact .finish start time hstart hrunning htime.1 htime.2
  next userID loopID => exact .call userID loopID
  next k bill hk => exact .clock k bill hk
  next k reply bill target hk => exact .billed k reply bill target hk
  next k reply bill target billed hk hlost => exact .passed k reply bill target billed hk hlost
  next k reply bill target billed hk hwon call =>
    rw [not_or, not_not] at hwon
    refine .advanced k reply bill target billed hk hwon.2 call ?_
    unfold call
    split
    · exact .inl rfl
    · exact .inr rfl
  next k id reply bill seconds hk _ _ _ => exact .dropped k id reply bill seconds hk
  next k id reply bill seconds hk _ _ _ => exact .recorded k id reply bill seconds hk
  next k call hk _ => exact .crash k call hk

/-! ## Every second is claimed once -/

/-- What a call has claimed is not negative, and what it is about to claim is
positive. -/
def Call.Fair : Call → Prop
  | .read _ target billed => billed < target
  | call => 0 ≤ call.unwritten

theorem Call.Fair.unwritten_nonneg {call : Call} (h : call.Fair) : 0 ≤ call.unwritten := by
  cases call with
  | read bill target billed => exact Int.le_refl 0
  | _ => exact h

/-- `billed_seconds` is what was recorded together with what was claimed and
not recorded. -/
structure Balanced (w : Ledger) : Prop where
  balance : w.recorded + w.unwritten = w.billedSeconds
  nonneg : 0 ≤ w.billedSeconds
  fair : ∀ call ∈ w.calls, call.Fair

theorem Balanced.recorded_le (h : Balanced w) : w.recorded ≤ w.billedSeconds := by
  have hnonneg : 0 ≤ w.unwritten := by
    apply sum_nonneg
    intro seconds hseconds
    obtain ⟨call, hcall, rfl⟩ := mem_map.1 hseconds
    exact (h.fair call hcall).unwritten_nonneg
  have hbalance := h.balance
  omega

theorem Balanced.write {k : Nat} {old new : Call} (h : Balanced w)
    (hk : w.calls[k]? = some old) (hsame : new.unwritten = old.unwritten) (hnew : new.Fair) :
    Balanced { w with calls := w.calls.set k new } := by
  refine ⟨?_, h.nonneg, forall_set h.fair hnew⟩
  show w.recorded + ((w.calls.set k new).map Call.unwritten).sum = w.billedSeconds
  rw [sum_map_set _ hk, hsame, sub_add_cancel]
  exact h.balance

theorem balanced_step (h : Balanced w) (hmove : Moves w label w') : Balanced w' := by
  cases hmove with
  | tick _ | launch _ _ _ | finish _ _ _ _ _ _ => exact { h with }
  | call userID loopID =>
    refine ⟨?_, h.nonneg, forall_push h.fair (Int.le_refl 0)⟩
    show w.recorded + ((w.calls ++ [_]).map Call.unwritten).sum = w.billedSeconds
    rw [map_append, sum_append]
    show w.recorded + (w.unwritten + (0 + 0)) = w.billedSeconds
    rw [add_zero, add_zero]
    exact h.balance
  | clock k bill hk =>
    fun_cases bill.take w.now
    · exact h.write hk rfl (Int.le_refl 0)
    · exact h.write hk rfl (Int.le_refl 0)
  | billed k reply bill target hk =>
    fun_cases bill.compare target w.billedSeconds reply
    · exact h.write hk rfl (Int.le_refl 0)
    · exact h.write hk rfl (Int.le_refl 0)
    next hlt => exact h.write hk rfl (not_le.1 hlt)
  | passed k reply bill target billed hk _ => exact h.write hk rfl (Int.le_refl 0)
  | advanced k reply bill target billed hk hbilled call hcall =>
    have hlt : billed < target := h.fair _ (mem_of_getElem? hk)
    have hunwritten : call.unwritten = target - billed := by
      rcases hcall with rfl | rfl <;> rfl
    have hfair : call.Fair := by
      have hnonneg : 0 ≤ target - billed := by omega
      rcases hcall with rfl | rfl
      · exact hnonneg
      · exact hnonneg
    have hnonneg := h.nonneg
    refine ⟨?_, le_trans (hbilled ▸ hnonneg) (le_of_lt hlt), forall_set h.fair hfair⟩
    show w.recorded + ((w.calls.set k call).map Call.unwritten).sum = target
    rw [sum_map_set _ hk, hunwritten]
    have hbalance : w.recorded + (w.calls.map Call.unwritten).sum = w.billedSeconds := h.balance
    show w.recorded + ((w.calls.map Call.unwritten).sum - 0 + (target - billed)) = target
    omega
  | dropped k id reply bill seconds hk =>
    have hnonneg : 0 ≤ seconds := h.fair _ (mem_of_getElem? hk)
    exact h.write hk rfl hnonneg
  | recorded k id reply bill seconds hk =>
    refine ⟨?_, h.nonneg, forall_set h.fair (Int.le_refl 0)⟩
    have hbalance : w.recorded + (w.calls.map Call.unwritten).sum = w.billedSeconds := h.balance
    show ((w.usage ++ [_]).map UsageRecord.runtimeSeconds).sum +
      ((w.calls.set k _).map Call.unwritten).sum = w.billedSeconds
    rw [sum_map_set _ hk, map_append, sum_append]
    show w.recorded + (seconds + 0) +
      ((w.calls.map Call.unwritten).sum - seconds + 0) = w.billedSeconds
    omega
  | crash k call hk =>
    exact h.write hk rfl (h.fair _ (mem_of_getElem? hk)).unwritten_nonneg

/-! ## The rows that calls were given -/

/-- What a call read of the row: all of it, or the row before its end or its
start was recorded. -/
def Earlier (read row : Sandbox) : Prop :=
  read = row ∨ read = { row with endedAt := none } ∨
    read = { row with startedAt := none, endedAt := none }

structure Dated (w : Ledger) : Prop where
  started : ∀ start, w.sandbox.startedAt = some start → start ≤ w.now
  ended : ∀ finish, w.sandbox.endedAt = some finish →
    finish ≤ w.now ∧ ∃ start, w.sandbox.startedAt = some start ∧ start ≤ finish
  given : ∀ call ∈ w.calls, Earlier call.record w.sandbox

theorem endedAt_of_new (h : Dated w) (hnew : w.sandbox.startedAt = none) :
    w.sandbox.endedAt = none := by
  rw [eq_none_iff_forall_ne_some]
  intro finish hfinish
  obtain ⟨_, start, hstart, _⟩ := h.ended finish hfinish
  rw [hnew] at hstart
  cases hstart

theorem take_record (bill : Bill) (now : Time) : (bill.take now).record = bill.record := by
  fun_cases bill.take now <;> rfl

theorem compare_record (bill : Bill) (target billed : Int) (reply : Reply) :
    (bill.compare target billed reply).record = bill.record := by
  fun_cases bill.compare target billed reply <;> rfl

theorem Dated.write {k : Nat} {old new : Call} (h : Dated w)
    (hk : w.calls[k]? = some old) (hsame : new.record = old.record) :
    Dated { w with calls := w.calls.set k new } := by
  refine ⟨h.started, h.ended, forall_set h.given ?_⟩
  rw [hsame]
  exact h.given old (mem_of_getElem? hk)

theorem dated_step (h : Dated w) (hmove : Moves w label w') : Dated w' := by
  cases hmove with
  | tick elapsed =>
    have hnow : w.now ≤ w.now + elapsed := Int.le_add_of_nonneg_right (Int.natCast_nonneg _)
    refine ⟨fun start hstart => ?_, fun finish hfinish => ?_, h.given⟩
    · exact le_trans (h.started start hstart) hnow
    · obtain ⟨hle, hstart⟩ := h.ended finish hfinish
      exact ⟨le_trans hle hnow, hstart⟩
  | launch time hnew htime =>
    have hrunning := endedAt_of_new h hnew
    refine ⟨fun start hstart => ?_, fun finish hfinish => ?_, fun call hcall => ?_⟩
    · cases hstart
      exact htime
    · rw [hrunning] at hfinish
      cases hfinish
    · -- Nothing was recorded before, so every call was given the row without times.
      have hrow : call.record = { w.sandbox with startedAt := none, endedAt := none } := by
        have hsandbox : w.sandbox = { w.sandbox with startedAt := none, endedAt := none } :=
          Sandbox.ext rfl rfl rfl rfl rfl hnew hrunning
        rcases h.given call hcall with hrow | hrow | hrow
        · rw [hrow, ← hsandbox]
        · rw [hrow, hsandbox]
        · exact hrow
      exact .inr (.inr hrow)
  | finish start time hstart hrunning hle htime =>
    refine ⟨h.started, fun finish hfinish => ?_, fun call hcall => ?_⟩
    · cases hfinish
      exact ⟨htime, start, hstart, hle⟩
    · rcases h.given call hcall with hrow | hrow | hrow
      · refine .inr (.inl ?_)
        rw [hrow, ← hrunning]
      · exact .inr (.inl hrow)
      · exact .inr (.inr hrow)
  | call userID loopID => exact ⟨h.started, h.ended, forall_push h.given (.inl rfl)⟩
  | clock k bill hk => exact h.write hk (take_record bill w.now)
  | billed k reply bill target hk => exact h.write hk (compare_record bill target _ reply)
  | passed k reply bill target billed hk _ => exact h.write hk rfl
  | advanced k reply bill target billed hk hbilled call hcall =>
    have hdated : Dated { w with calls := w.calls.set k call } := by
      apply h.write hk
      rcases hcall with rfl | rfl <;> rfl
    exact { hdated with }
  | dropped k id reply bill seconds hk => exact h.write hk rfl
  | recorded k id reply bill seconds hk =>
    have hdated : Dated { w with calls := w.calls.set k (.returned bill.record (reply ≠ .ok) 0) } :=
      h.write hk rfl
    exact { hdated with }
  | crash k call hk => exact h.write hk rfl

/-! ## Nothing is billed past the limit -/

theorem tdiv_nonpos_or_eq (span : Int) :
    span.tdiv second ≤ 0 ∨ span.tdiv second = span / second := by
  rcases le_total 0 span with hspan | hspan
  · exact .inr (Int.tdiv_eq_ediv_of_nonneg hspan)
  · left
    have hneg : (-span).tdiv second = -span / second :=
      Int.tdiv_eq_ediv_of_nonneg (Int.neg_nonneg_of_nonpos hspan)
    have hnonneg : 0 ≤ -span / second := Int.ediv_nonneg (by omega) (by decide)
    rw [Int.neg_tdiv] at hneg
    omega

variable {record : Sandbox}

/-- The seconds due do not pass the end that the row shows, or else the clock,
and they reach the end that it shows. -/
theorem due_spec {now : Time} {target : Int} (h : record.due now = some target) :
    ∃ start, record.startedAt = some start ∧ target ≤ wholeSeconds start (record.endedAt.getD now) ∧
      (record.endedAt.isSome → target = wholeSeconds start (record.endedAt.getD now)) := by
  unfold Sandbox.due at h
  split at h
  · cases h
  · rename_i start hstart
    refine ⟨start, hstart, ?_⟩
    dsimp only at h
    unfold wholeSeconds
    have hfloor := tdiv_nonpos_or_eq (record.endedAt.getD now - start)
    split at h
    · cases h
    · rename_i hpos
      rw [not_or, not_le] at hpos
      have heq := hfloor.resolve_left (not_le.2 hpos.2)
      rw [← heq]
      split at h
      · cases h
        exact ⟨le_refl _, fun _ => rfl⟩
      · rename_i hend
        cases h
        refine ⟨?_, fun hsome => absurd hsome hend⟩
        rw [show runtimeBillingIncrement.tdiv second = 300 from by decide,
          Int.tdiv_eq_ediv_of_nonneg (le_of_lt hpos.2)]
        omega

theorem due_none {now start finish : Time} (h : record.due now = none)
    (hkind : record.kind ≠ .warm) (hstart : record.startedAt = some start)
    (hend : record.endedAt = some finish) (hle : start ≤ finish) :
    wholeSeconds start finish = 0 := by
  unfold Sandbox.due at h
  simp only [hstart, hend, getD_some] at h
  split at h
  · rename_i hnone
    have hspan : 0 ≤ finish - start := Int.sub_nonneg_of_le hle
    rw [Int.tdiv_eq_ediv_of_nonneg hspan] at hnone
    have hnonneg : 0 ≤ (finish - start) / second := Int.ediv_nonneg hspan (by decide)
    exact le_antisymm (hnone.resolve_left hkind) hnonneg
  · cases h

theorem Ledger.Covers.mono {limit limit' : Int} (h : w.Covers limit)
    (hle : limit ≤ limit') : w.Covers limit' :=
  ⟨le_trans h.1 hle, fun call hcall target htarget => le_trans (h.2 call hcall target htarget) hle⟩

/-- No step bills past a limit, except that a call may take a target from the
clock that is past it. -/
theorem covers_step {limit : Int} (h : w.Covers limit) (hmove : Moves w label w')
    (hclock : ∀ k bill, label = .clock k → w.calls[k]? = some (.called bill) →
      ∀ target, bill.record.due w.now = some target → target ≤ limit) :
    w'.Covers limit := by
  have hnone : ∀ call : Call, call.target = none → ∀ target ∈ call.target, target ≤ limit := by
    intro call hcall target htarget
    rw [hcall] at htarget
    cases htarget
  cases hmove with
  | tick _ | launch _ _ _ | finish _ _ _ _ _ _ => exact h
  | call userID loopID => exact ⟨h.1, forall_push h.2 (hnone _ rfl)⟩
  | clock k bill hk =>
    refine ⟨h.1, forall_set h.2 ?_⟩
    fun_cases bill.take w.now
    · exact hnone _ rfl
    next target hdue =>
      rintro _ ⟨⟩
      exact hclock k bill rfl hk target hdue
  | billed k reply bill target hk =>
    refine ⟨h.1, forall_set h.2 ?_⟩
    have hold := h.2 _ (mem_of_getElem? hk)
    fun_cases bill.compare target w.billedSeconds reply
    · exact hnone _ rfl
    · exact hnone _ rfl
    · exact hold
  | advanced k reply bill target billed hk hbilled call hcall =>
    have htarget : target ≤ limit := h.2 _ (mem_of_getElem? hk) target rfl
    refine ⟨htarget, forall_set h.2 (hnone _ ?_)⟩
    rcases hcall with rfl | rfl <;> rfl
  | passed _ _ _ _ _ _ _ | dropped _ _ _ _ _ _ | recorded _ _ _ _ _ _ | crash _ _ _ =>
    exact ⟨h.1, forall_set h.2 (hnone _ rfl)⟩

/-! ## The bound in every run -/

def Ledger.age (w : Ledger) : Int :=
  match w.sandbox.startedAt with
  | none => 0
  | some start => wholeSeconds start w.now

theorem wholeSeconds_mono {start finish finish' : Time} (h : finish ≤ finish') :
    wholeSeconds start finish ≤ wholeSeconds start finish' :=
  Int.ediv_le_ediv (by decide) (Int.sub_le_sub_right h start)

theorem age_of_start {start : Time} (h : w.sandbox.startedAt = some start) :
    w.age = wholeSeconds start w.now := by
  unfold Ledger.age
  rw [h]

theorem elapsed_of_start {start : Time} (h : w.sandbox.startedAt = some start) :
    w.elapsed = wholeSeconds start (w.sandbox.endedAt.getD w.now) := by
  unfold Ledger.elapsed
  rw [h]

theorem age_step (hmove : Moves w label w') : w.age ≤ w'.age := by
  cases hmove with
  | tick elapsed =>
    unfold Ledger.age
    cases w.sandbox.startedAt with
    | none => exact le_refl _
    | some start =>
      exact wholeSeconds_mono (Int.le_add_of_nonneg_right (Int.natCast_nonneg _))
  | launch time hnew htime =>
    have hage : w.age = 0 := by
      unfold Ledger.age
      rw [hnew]
    rw [hage]
    exact Int.ediv_nonneg (Int.sub_nonneg_of_le htime) (by decide)
  | _ => exact le_refl _

theorem Earlier.startedAt {read row : Sandbox} {start : Time} (h : Earlier read row)
    (hstart : read.startedAt = some start) : row.startedAt = some start := by
  rcases h with rfl | rfl | rfl
  · exact hstart
  · exact hstart
  · cases hstart

theorem Earlier.eq_of_endedAt {read row : Sandbox} (h : Earlier read row)
    (hend : read.endedAt.isSome) : read = row := by
  rcases h with rfl | rfl | rfl
  · rfl
  · cases hend
  · cases hend

theorem due_le_age {target : Int} (h : Dated w)
    (hread : Earlier record w.sandbox) (hdue : record.due w.now = some target) :
    target ≤ w.age := by
  obtain ⟨start, hstart, hle, _⟩ := due_spec hdue
  rw [age_of_start (hread.startedAt hstart)]
  refine le_trans hle (wholeSeconds_mono ?_)
  cases hend : record.endedAt with
  | none => exact le_refl _
  | some finish =>
    have hrow := hread.eq_of_endedAt (by rw [hend]; rfl)
    rw [hrow] at hend
    exact (h.ended finish hend).1

/-- What every run keeps. -/
structure Claimed (w : Ledger) : Prop where
  balanced : Balanced w
  dated : Dated w
  covers : w.Covers w.age

theorem claimed_step (h : Claimed w) (hmove : Moves w label w') : Claimed w' := by
  refine ⟨balanced_step h.balanced hmove, dated_step h.dated hmove, ?_⟩
  apply covers_step (h.covers.mono (age_step hmove)) hmove
  intro k bill _ hk target hdue
  have hread := h.dated.given _ (mem_of_getElem? hk)
  exact le_trans (due_le_age h.dated hread hdue) (age_step hmove)

theorem claimed_new (sandbox : Sandbox) (now : Time) : Claimed (Ledger.new sandbox now) := by
  refine ⟨⟨rfl, le_refl _, ?_⟩, ⟨?_, ?_, ?_⟩, ⟨le_refl _, ?_⟩⟩
  all_goals
    intro _ hnone
    cases hnone

/-- **Every second is claimed once**: what was recorded, with what was claimed and not recorded,
is `billed_seconds`. -/
theorem balanced_of_reaches {ok : Ledger → Label → Prop} {sandbox : Sandbox} {now : Time}
    (hrun : Reaches Ledger.step ok (Ledger.new sandbox now) w) : Claimed w :=
  hrun.invariant (P := Claimed)
    (fun _ _ _ h _ hstep => claimed_step h (moves_of_step hstep)) (claimed_new sandbox now)

/-! ## Timely runs bill up to the end -/

/-- What a call that was given the end knows of `billed` and `elapsed` seconds: it bills up to
the latter, and unless it fails they are billed when it is done. -/
def Call.Pays (billed elapsed : Int) (call : Call) : Prop :=
  call.final → match call with
    | .called _ => True
    | .due _ target => target = elapsed
    | .read _ target seen => target = elapsed ∧ (billed = seen ∨ billed = elapsed)
    | .claimed _ _ => billed = elapsed
    | .returned record error _ => error = false → record.kind ≠ .warm → billed = elapsed

/-- What a timely run keeps besides. -/
structure Settles (w : Ledger) : Prop where
  covers : w.Covers w.elapsed
  pays : ∀ call ∈ w.calls, call.Pays w.billedSeconds w.elapsed

theorem not_final_of_running (h : Dated w) (hrunning : w.sandbox.endedAt = none)
    {call : Call} (hcall : call ∈ w.calls) : ¬call.final := by
  intro hfinal
  have hrow := (h.given call hcall).eq_of_endedAt hfinal
  rw [Call.final, hrow, hrunning] at hfinal
  cases hfinal

theorem due_eq_elapsed {target : Int}
    (hread : Earlier record w.sandbox) (hend : record.endedAt.isSome)
    (hdue : record.due w.now = some target) : target = w.elapsed := by
  have hrow := hread.eq_of_endedAt hend
  subst hrow
  obtain ⟨start, hstart, _, heq⟩ := due_spec hdue
  rw [elapsed_of_start hstart]
  exact heq hend

theorem elapsed_of_due_none (h : Dated w)
    (hread : Earlier record w.sandbox) (hend : record.endedAt.isSome)
    (hkind : record.kind ≠ .warm) (hdue : record.due w.now = none) : w.elapsed = 0 := by
  have hrow := hread.eq_of_endedAt hend
  subst hrow
  obtain ⟨finish, hfinish⟩ := isSome_iff_exists.1 hend
  obtain ⟨_, start, hstart, hle⟩ := h.ended finish hfinish
  rw [elapsed_of_start hstart, hfinish]
  exact due_none hdue hkind hstart hfinish hle

theorem elapsed_step (h : Dated w) (hmove : Moves w label w')
    (hlabel : ∀ time, label ≠ .finish time) : w.elapsed ≤ w'.elapsed := by
  cases hmove with
  | tick elapsed =>
    unfold Ledger.elapsed
    cases w.sandbox.startedAt with
    | none => exact le_refl _
    | some start =>
      apply wholeSeconds_mono
      cases w.sandbox.endedAt with
      | none => exact Int.le_add_of_nonneg_right (Int.natCast_nonneg _)
      | some finish => exact le_refl _
  | launch time hnew htime =>
    have helapsed : w.elapsed = 0 := by
      unfold Ledger.elapsed
      rw [hnew]
    rw [helapsed]
    show 0 ≤ wholeSeconds time (w.sandbox.endedAt.getD w.now)
    rw [endedAt_of_new h hnew]
    exact Int.ediv_nonneg (Int.sub_nonneg_of_le htime) (by decide)
  | finish start time hstart hrunning hle htime => exact absurd rfl (hlabel time)
  | _ => exact le_refl _

theorem covers_timely (h : Dated w) (hcovers : w.Covers w.elapsed)
    (hmove : Moves w label w') (htimely : Timely w label) : w'.Covers w'.elapsed := by
  by_cases hfinish : ∃ time, label = .finish time
  · obtain ⟨time, rfl⟩ := hfinish
    cases hmove with
    | finish start time hstart hrunning hle htime =>
      simp only [Timely, Ledger.timely, hstart, all_some, decide_eq_true_eq] at htimely
      have helapsed : Ledger.elapsed
          { w with sandbox := { w.sandbox with endedAt := some time } } =
          wholeSeconds start time := elapsed_of_start hstart
      rw [helapsed]
      exact htimely
  · have hlabel : ∀ time, label ≠ .finish time := fun time htime => hfinish ⟨time, htime⟩
    apply covers_step (hcovers.mono (elapsed_step h hmove hlabel)) hmove
    intro k bill hk hcalled target hdue
    subst hk
    simp only [Timely, Ledger.timely, hcalled, hdue, all_some, decide_eq_true_eq] at htimely
    exact le_trans htimely (elapsed_step h hmove hlabel)

theorem Settles.write {k : Nat} {new : Call} (h : Settles w)
    (hcovers : w'.Covers w'.elapsed) (hcalls : w'.calls = w.calls.set k new)
    (hbilled : w'.billedSeconds = w.billedSeconds) (helapsed : w'.elapsed = w.elapsed)
    (hnew : new.Pays w.billedSeconds w.elapsed) : Settles w' := by
  refine ⟨hcovers, ?_⟩
  rw [hcalls, hbilled, helapsed]
  exact forall_set h.pays hnew

theorem settles_running (h : Dated w) (hrunning : w.sandbox.endedAt = none)
    (hcalls : w'.calls = w.calls) (hcovers : w'.Covers w'.elapsed) : Settles w' := by
  refine ⟨hcovers, fun call hcall hfinal => ?_⟩
  rw [hcalls] at hcall
  exact absurd hfinal (not_final_of_running h hrunning hcall)

/-- When `billed_seconds` advances, the other calls that were given the end stay right: no call
that was not overtakes them. -/
theorem pays_advanced {k : Nat} {reply : Reply} {bill : Bill} {target billed : Int}
    (hfair : billed < target) (hle : target ≤ w.elapsed) (hbilled : w.billedSeconds = billed)
    (hk : w.calls[k]? = some (.read bill target billed))
    (hpays : (Call.read bill target billed).Pays w.billedSeconds w.elapsed)
    (htimely : Timely w (.advance k reply)) {call : Call} (hcall : call ∈ w.calls)
    (h : call.Pays w.billedSeconds w.elapsed) : call.Pays target w.elapsed := by
  by_cases hend : bill.record.endedAt.isSome
  · have htarget : target = w.elapsed := (hpays hend).1
    intro hfinal
    have hcases := h hfinal
    cases call with
    | called _ => trivial
    | due _ _ => exact hcases
    | read _ _ _ => exact ⟨hcases.1, .inr htarget⟩
    | claimed _ _ => exact htarget
    | returned _ _ _ => exact fun _ _ => htarget
  · have hnone : ∀ call ∈ w.calls, ¬call.settling := by
      simp only [Timely, Ledger.timely, hk, hbilled] at htimely
      simpa [hend] using htimely
    have hne : w.billedSeconds ≠ w.elapsed := by omega
    intro hfinal
    have hcases := h hfinal
    cases call with
    | called _ => trivial
    | due _ _ => exact hcases
    | read _ _ _ => exact absurd hfinal (hnone _ hcall)
    | claimed _ _ => exact absurd hcases hne
    | returned _ _ _ => exact fun herror hkind => absurd (hcases herror hkind) hne

theorem settles_step (hclaimed : Claimed w) (h : Settles w)
    (hmove : Moves w label w') (htimely : Timely w label) : Settles w' := by
  have hdated := hclaimed.dated
  have hcovers := covers_timely hdated h.covers hmove htimely
  cases hmove with
  | tick elapsed =>
    cases hend : w.sandbox.endedAt with
    | none => exact settles_running hdated hend rfl hcovers
    | some finish =>
      refine ⟨hcovers, ?_⟩
      have helapsed : Ledger.elapsed { w with now := w.now + elapsed } = w.elapsed := by
        simp [Ledger.elapsed, hend]
      rw [helapsed]
      exact h.pays
  | launch time hnew htime => exact settles_running hdated (endedAt_of_new hdated hnew) rfl hcovers
  | finish start time hstart hrunning hle htime => exact settles_running hdated hrunning rfl hcovers
  | call userID loopID => exact ⟨hcovers, forall_push h.pays fun _ => trivial⟩
  | clock k bill hk =>
    have hread := hdated.given _ (mem_of_getElem? hk)
    refine h.write hcovers rfl rfl rfl fun hfinal => ?_
    rw [Call.final, take_record] at hfinal
    fun_cases bill.take w.now
    next hdue =>
      intro _ hkind
      have helapsed := elapsed_of_due_none hdated hread hfinal hkind hdue
      have hbilled := h.covers.1
      have hnonneg := hclaimed.balanced.nonneg
      omega
    next target hdue => exact due_eq_elapsed hread hfinal hdue
  | billed k reply bill target hk =>
    have hpays := h.pays _ (mem_of_getElem? hk)
    refine h.write hcovers rfl rfl rfl fun hfinal => ?_
    rw [Call.final, compare_record] at hfinal
    have htarget : target = w.elapsed := hpays hfinal
    fun_cases bill.compare target w.billedSeconds reply
    · exact nofun
    next hle =>
      have hbilled := h.covers.1
      omega
    · exact ⟨htarget, .inl rfl⟩
  | passed k reply bill target billed hk hlost =>
    have hpays := h.pays _ (mem_of_getElem? hk)
    refine h.write hcovers rfl rfl rfl fun hfinal herror _ => ?_
    have hok : reply = .ok := by simpa using herror
    have hne : w.billedSeconds ≠ billed := by
      rcases hlost with hfailed | hne
      · rw [hok] at hfailed
        cases hfailed
      · exact hne
    exact (hpays hfinal).2.resolve_left hne
  | advanced k reply bill target billed hk hbilled call hcall =>
    have hmem := mem_of_getElem? hk
    have hpays := h.pays _ hmem
    have hfair : billed < target := hclaimed.balanced.fair _ hmem
    have hle : target ≤ w.elapsed := h.covers.2 _ hmem target rfl
    refine ⟨hcovers, forall_set (fun other hother => ?_) ?_⟩
    · exact pays_advanced hfair hle hbilled hk hpays htimely hother (h.pays other hother)
    · intro hfinal
      rcases hcall with rfl | rfl
      · exact (hpays hfinal).1
      · intro herror
        cases herror
  | recorded k id reply bill seconds hk =>
    have hpays := h.pays _ (mem_of_getElem? hk)
    exact h.write hcovers rfl rfl rfl fun hfinal _ _ => hpays hfinal
  | dropped _ _ _ _ _ _ | crash _ _ _ => exact h.write hcovers rfl rfl rfl nofun

theorem settles_new (sandbox : Sandbox) (now : Time) : Settles (Ledger.new sandbox now) := by
  refine ⟨⟨le_refl _, ?_⟩, ?_⟩
  all_goals
    intro _ hnone
    cases hnone

theorem settles_of_reaches {sandbox : Sandbox} {now : Time}
    (hrun : Reaches Ledger.step Timely (Ledger.new sandbox now) w) : Claimed w ∧ Settles w := by
  refine hrun.invariant (P := fun w => Claimed w ∧ Settles w) ?_
    ⟨claimed_new sandbox now, settles_new sandbox now⟩
  intro w label w' h hok hstep
  have hmove := moves_of_step hstep
  exact ⟨claimed_step h.1 hmove, settles_step h.1 h.2 hmove hok⟩

/-! ## Main results -/

/-- **A second is billed at most once, and none stays unclaimed.** What was recorded, with what
failed calls claimed and did not record, is `billed_seconds`, and no more than the seconds since
the start. In a timely run the records do not pass the end, and once a call that was given the
end of a sandbox outside the warm pool returned without error, all up to the end was recorded
but for what failed calls claimed. -/
theorem metering_of_reaches (sandbox : Sandbox) (now : Time) :
    (∀ w, Reaches Ledger.step Unrestricted (Ledger.new sandbox now) w →
      w.recorded + w.unwritten = w.billedSeconds ∧ (∀ call ∈ w.calls, 0 ≤ call.unwritten) ∧
        w.recorded ≤ w.age) ∧
    ∀ w, Reaches Ledger.step Timely (Ledger.new sandbox now) w →
      w.recorded ≤ w.elapsed ∧
        (w.closed → w.sandbox.kind ≠ .warm → w.recorded + w.unwritten = w.elapsed) := by
  constructor
  · intro w hrun
    have hclaimed := balanced_of_reaches hrun
    refine ⟨hclaimed.balanced.balance, fun call hcall => ?_, ?_⟩
    · exact (hclaimed.balanced.fair call hcall).unwritten_nonneg
    · exact le_trans hclaimed.balanced.recorded_le hclaimed.covers.1
  · intro w hrun
    obtain ⟨hclaimed, hsettles⟩ := settles_of_reaches hrun
    refine ⟨le_trans hclaimed.balanced.recorded_le hsettles.covers.1, fun hclosed hkind => ?_⟩
    simp only [Ledger.closed, Bool.and_eq_true, List.any_eq_true] at hclosed
    obtain ⟨_, call, hcall, hsettled⟩ := hclosed
    rw [hclaimed.balanced.balance]
    cases call with
    | returned record error unwritten =>
      simp only [Call.settled, Bool.and_eq_true, Bool.not_eq_true'] at hsettled
      have hrow : record = w.sandbox := (hclaimed.dated.given _ hcall).eq_of_endedAt hsettled.1
      apply hsettles.pays _ hcall hsettled.1 hsettled.2
      rw [hrow]
      exact hkind
    | _ => cases hsettled

def sessionSandbox : Sandbox := { id := "sb-1", workspaceKey := "acme", sessionID := "s-1" }

def billUntilRead (k : Nat) : List Label := [.call "user-1" "", .clock k, .billed k .ok]

/-- The sandbox starts, and runs for 750 seconds. -/
def runs750 : List Label := [.launch 0, .tick 750000000000]

/-- Two increments while it runs and the rest at the end, with a failed write of
the second record. -/
def billedWithFailure : List Label :=
  runs750 ++ billUntilRead 0 ++ [.advance 0 .ok, .record 0 "u-1" .ok, .finish 750000000000] ++
    billUntilRead 1 ++ [.advance 1 .ok, .record 1 "u-2" .failed] ++ billUntilRead 2

/-- A failed write of a usage record: 600 of the 750 seconds are recorded, 150
were claimed by the call that failed. -/
theorem metering_with_failure :
    ∃ w, Reaches Ledger.step Timely (Ledger.new sessionSandbox 0) w ∧
      (w.closed ∧ w.elapsed = 750 ∧ w.recorded = 600) ∧ w.recorded + w.unwritten = w.elapsed := by
  obtain ⟨w, hrun, hw, hkind⟩ : ∃ w, Reaches Ledger.step Timely (Ledger.new sessionSandbox 0) w ∧
      ((w.closed ∧ w.elapsed = 750 ∧ w.recorded = 600) ∧ w.sandbox.kind ≠ .warm) :=
    exists_reaches billedWithFailure _ (by decide)
  exact ⟨w, hrun, hw, ((metering_of_reaches sessionSandbox 0).2 w hrun).2 hw.1 hkind⟩

instance (w : Ledger) : Decidable (BilledOnce w) :=
  decidable_of_iff (w.recorded ≤ w.elapsed ∧ (w.closed → w.recorded = w.elapsed))
    ⟨fun h => ⟨h.1, h.2⟩, fun h => ⟨h.within, h.exact⟩⟩

/-- **Runtime is misbilled.** A usage record that could not be written is never written; a call
that was given the end and loses its compare-and-swap to one that was not returns without error,
and the rest stays unbilled; a warm sandbox is not billed; and an end that is recorded late lies
before what was billed. -/
theorem runtime_misbilled :
    (∃ w, Reaches Ledger.step Unrestricted (Ledger.new sessionSandbox 0) w ∧
      (w.closed ∧ w.elapsed = 750 ∧ w.recorded = 0) ∧ ¬BilledOnce w) ∧
    (∃ w, Reaches Ledger.step Unrestricted (Ledger.new sessionSandbox 0) w ∧
      (w.closed ∧ w.unwritten = 0 ∧ w.elapsed = 750 ∧ w.recorded = 600) ∧ ¬BilledOnce w) ∧
    (∃ w, Reaches Ledger.step Unrestricted (Ledger.new { sessionSandbox with kind := .warm } 0) w ∧
      (w.closed ∧ w.unwritten = 0 ∧ w.elapsed = 750 ∧ w.recorded = 0) ∧ ¬BilledOnce w) ∧
    (∃ w, Reaches Ledger.step Unrestricted (Ledger.new sessionSandbox 0) w ∧
      (w.elapsed = 299 ∧ w.recorded = 300) ∧ ¬BilledOnce w) := by
  refine ⟨?_, ?_, ?_, ?_⟩
  · exact exists_reaches
      (runs750 ++ [.finish 750000000000] ++ billUntilRead 0 ++
        [.advance 0 .ok, .record 0 "u-1" .failed] ++ billUntilRead 1) _ (by decide)
  · exact exists_reaches
      (runs750 ++ billUntilRead 0 ++ [.finish 750000000000] ++ billUntilRead 1 ++
        [.advance 0 .ok, .advance 1 .ok, .record 0 "u-1" .ok]) _ (by decide)
  · exact exists_reaches
      (runs750 ++ [.finish 750000000000, .call "user-1" "", .clock 0]) _ (by decide)
  · exact exists_reaches
      ([.launch 0, .tick 301000000000] ++ billUntilRead 0 ++
        [.advance 0 .ok, .record 0 "u-1" .ok, .finish 299000000000]) _ (by decide)

end Flow.Ports.Billing
