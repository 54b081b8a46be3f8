import StellarSpend.Run

/-!
# The recurring-payment scheduler (`recurring-payment/src/lib.rs`, `types.rs`)

The contract's instance storage holds the counter `DataKey::PaymentCount` and
one `DataKey::Payment(id)` record per schedule. `createPayment`,
`executePayment`, `cancelPayment` and `getPayment` follow the four entry points
line by line; `catchUp` is the catch-up update of `execute_payment`
(lines 109–111), named so that its arithmetic can be studied on its own.

Each operation has one spec lemma (`createPayment_spec`, `executePayment_spec`,
`cancelPayment_spec`) saying everything a successful call does; later modules
cite these and never unfold the operations.
-/

namespace StellarSpend.Recurring

/-- `RecurringPayment`. -/
structure RecurringPayment where
  sender : Address
  recipient : Address
  token : Address
  amount : Int
  interval : UInt64
  nextExecution : UInt64
  active : Bool
  deriving DecidableEq, Repr

/-- The instalment of a schedule: its amount of its token from its sender to
its recipient. -/
def RecurringPayment.instalment (p : RecurringPayment) : Transfer :=
  ⟨p.token, p.sender, p.recipient, p.amount⟩

/-- Instance storage: `DataKey::PaymentCount` and `DataKey::Payment(id)`. -/
structure Store where
  paymentCount : Option UInt64
  payments : UInt64 → Option RecurringPayment

/-- The store of a freshly deployed scheduler. -/
def Store.empty : Store := ⟨none, fun _ => none⟩

/-- The scheduler's notifications, published under `("recur", op, payment_id)`. -/
inductive RecurEvent where
  | created (paymentId : UInt64) (sender : Address)
  | executed (paymentId : UInt64) (amount : Int) (nextExecution : UInt64)
  | canceled (paymentId : UInt64) (sender : Address)
  deriving DecidableEq, Repr

/-- `create_payment`: check the arguments, take the next id from the counter,
store the schedule under it and return the id. -/
def createPayment (env : Env) (s : Store) (sender recipient token : Address) (amount : Int)
    (interval startTime : UInt64) : Except String (Store × Receipt UInt64 RecurEvent) := do
  requireAuth env sender
  panicIf (amount ≤ 0) "Amount must be positive"
  panicIf (interval = 0) "Interval must be positive"
  let count ← u64Add (s.paymentCount.getD 0) 1
  let payment : RecurringPayment :=
    ⟨sender, recipient, token, amount, interval, startTime, true⟩
  pure (⟨some count, Function.update s.payments count (some payment)⟩,
    ⟨count, [], [.created count sender]⟩)

/-- The catch-up update of `execute_payment`:
`next_execution += ((current_time - next_execution) / interval + 1) * interval`. -/
def catchUp (nextExecution interval currentTime : UInt64) : Except String UInt64 := do
  let elapsed ← u64Sub currentTime nextExecution
  let intervalsPassed ← u64Div elapsed interval
  let steps ← u64Add intervalsPassed 1
  let advance ← u64Mul steps interval
  u64Add nextExecution advance

/-- `execute_payment`: pay one instalment of an active, due schedule and move
its next execution past the current time. -/
def executePayment (env : Env) (s : Store) (paymentId : UInt64) :
    Except String (Store × Receipt Unit RecurEvent) := do
  let payment ← expect (s.payments paymentId) "Payment not found"
  panicIf (!payment.active) "Payment is not active"
  let currentTime := env.timestamp
  panicIf (currentTime < payment.nextExecution) "Too early for next execution"
  let paid ← transfer env payment.token payment.sender payment.recipient payment.amount
  let next ← catchUp payment.nextExecution payment.interval currentTime
  let payment := { payment with nextExecution := next }
  pure (⟨s.paymentCount, Function.update s.payments paymentId (some payment)⟩,
    ⟨(), [paid], [.executed paymentId payment.amount next]⟩)

/-- `cancel_payment`: the sender switches an active schedule off. -/
def cancelPayment (env : Env) (s : Store) (paymentId : UInt64) :
    Except String (Store × Receipt Unit RecurEvent) := do
  let payment ← expect (s.payments paymentId) "Payment not found"
  requireAuth env payment.sender
  panicIf (!payment.active) "Payment is already canceled"
  let payment := { payment with active := false }
  pure (⟨s.paymentCount, Function.update s.payments paymentId (some payment)⟩,
    ⟨(), [], [.canceled paymentId payment.sender]⟩)

/-- `get_payment`: a pure read. -/
def getPayment (s : Store) (paymentId : UInt64) : Except String RecurringPayment :=
  expect (s.payments paymentId) "Payment not found"

/-! ### The contract as a step function -/

/-- The scheduler's entry points. -/
inductive Call where
  | createPayment (sender recipient token : Address) (amount : Int) (interval startTime : UInt64)
  | executePayment (paymentId : UInt64)
  | cancelPayment (paymentId : UInt64)
  | getPayment (paymentId : UInt64)
  deriving DecidableEq, Repr

/-- What an entry point returns. -/
inductive Returned where
  | unit
  | id (paymentId : UInt64)
  | payment (p : RecurringPayment)
  deriving DecidableEq, Repr

/-- One call of the scheduler. -/
def step (env : Env) : Call → Store → Except String (Store × Receipt Returned RecurEvent)
  | .createPayment sender recipient token amount interval startTime, s =>
      (createPayment env s sender recipient token amount interval startTime).map
        fun out => (out.1, out.2.mapValue .id)
  | .executePayment paymentId, s =>
      (executePayment env s paymentId).map fun out => (out.1, out.2.mapValue fun _ => .unit)
  | .cancelPayment paymentId, s =>
      (cancelPayment env s paymentId).map fun out => (out.1, out.2.mapValue fun _ => .unit)
  | .getPayment paymentId, s => (getPayment s paymentId).map fun p => (s, ⟨.payment p, [], []⟩)

/-! ### Spec lemmas -/

section Spec

variable {env : Env} {s s' : Store}

theorem createPayment_spec {sender recipient token : Address} {amount : Int}
    {interval startTime : UInt64} {r : Receipt UInt64 RecurEvent}
    (h : createPayment env s sender recipient token amount interval startTime = .ok (s', r)) :
    env.authorizes sender = true ∧ 0 < amount ∧ 0 < interval.toNat ∧
      r.value.toNat = (s.paymentCount.getD 0).toNat + 1 ∧
      s' = ⟨some r.value, Function.update s.payments r.value
        (some ⟨sender, recipient, token, amount, interval, startTime, true⟩)⟩ ∧
      r.transfers = [] ∧ r.events = [.created r.value sender] := by
  simp only [createPayment, requireAuth, bind_eq_ok, ensure_eq_ok, panicIf_eq_ok] at h
  obtain ⟨_, auth, _, hamount, _, hinterval, count, hcount, hout⟩ := h
  simp only [pure_eq_ok, Except.ok.injEq, Prod.mk.injEq] at hout
  obtain ⟨rfl, rfl⟩ := hout
  refine ⟨auth, by omega, Nat.pos_of_ne_zero fun h => hinterval (u64_eq_iff.mpr h), ?_,
    rfl, rfl, rfl⟩
  simpa using (u64Add_eq_ok.mp hcount).2

theorem executePayment_spec {paymentId : UInt64} {r : Receipt Unit RecurEvent}
    (h : executePayment env s paymentId = .ok (s', r)) :
    ∃ p next, s.payments paymentId = some p ∧ p.active = true ∧
      p.nextExecution.toNat ≤ env.timestamp.toNat ∧
      env.accepts ⟨p.token, p.sender, p.recipient, p.amount⟩ = true ∧
      catchUp p.nextExecution p.interval env.timestamp = .ok next ∧
      s' = ⟨s.paymentCount, Function.update s.payments paymentId
        (some { p with nextExecution := next })⟩ ∧
      r = ⟨(), [⟨p.token, p.sender, p.recipient, p.amount⟩], [.executed paymentId p.amount next]⟩ := by
  simp only [executePayment, bind_eq_ok, expect_eq_ok, panicIf_eq_ok] at h
  obtain ⟨p, hp, _, hactive, _, hdue, paid, hpaid, next, hnext, hout⟩ := h
  obtain ⟨rfl, haccepts⟩ := transfer_eq_ok.mp hpaid
  simp only [pure_eq_ok, Except.ok.injEq, Prod.mk.injEq] at hout
  obtain ⟨rfl, rfl⟩ := hout
  exact ⟨p, next, hp, by simpa using hactive, Nat.le_of_not_lt hdue, haccepts, hnext, rfl, rfl⟩

theorem cancelPayment_spec {paymentId : UInt64} {r : Receipt Unit RecurEvent}
    (h : cancelPayment env s paymentId = .ok (s', r)) :
    ∃ p, s.payments paymentId = some p ∧ p.active = true ∧
      env.authorizes p.sender = true ∧
      s' = ⟨s.paymentCount, Function.update s.payments paymentId (some { p with active := false })⟩ ∧
      r = ⟨(), [], [.canceled paymentId p.sender]⟩ := by
  simp only [cancelPayment, requireAuth, bind_eq_ok, expect_eq_ok, ensure_eq_ok,
    panicIf_eq_ok] at h
  obtain ⟨p, hp, _, auth, _, hactive, hout⟩ := h
  simp only [pure_eq_ok, Except.ok.injEq, Prod.mk.injEq] at hout
  obtain ⟨rfl, rfl⟩ := hout
  exact ⟨p, hp, by simpa using hactive, auth, rfl, rfl⟩

/-- Everything a successful call of the scheduler can be. -/
theorem step_cases {call : Call} {r : Receipt Returned RecurEvent}
    (h : step env call s = .ok (s', r)) :
    (∃ sender recipient token amount interval startTime r₀,
      call = .createPayment sender recipient token amount interval startTime ∧
      createPayment env s sender recipient token amount interval startTime = .ok (s', r₀) ∧
      r = r₀.mapValue .id) ∨
    (∃ paymentId r₀, call = .executePayment paymentId ∧
      executePayment env s paymentId = .ok (s', r₀) ∧ r = r₀.mapValue fun _ => .unit) ∨
    (∃ paymentId r₀, call = .cancelPayment paymentId ∧
      cancelPayment env s paymentId = .ok (s', r₀) ∧ r = r₀.mapValue fun _ => .unit) ∨
    (∃ paymentId p, call = .getPayment paymentId ∧ s' = s ∧ r = ⟨.payment p, [], []⟩) := by
  cases call with
  | createPayment sender recipient token amount interval startTime =>
      obtain ⟨⟨s₁, r₀⟩, hc, he⟩ := map_eq_ok.mp h
      cases he
      exact .inl ⟨_, _, _, _, _, _, r₀, rfl, hc, rfl⟩
  | executePayment paymentId =>
      obtain ⟨⟨s₁, r₀⟩, hc, he⟩ := map_eq_ok.mp h
      cases he
      exact .inr (.inl ⟨_, r₀, rfl, hc, rfl⟩)
  | cancelPayment paymentId =>
      obtain ⟨⟨s₁, r₀⟩, hc, he⟩ := map_eq_ok.mp h
      cases he
      exact .inr (.inr (.inl ⟨_, r₀, rfl, hc, rfl⟩))
  | getPayment paymentId =>
      obtain ⟨p, -, he⟩ := map_eq_ok.mp h
      cases he
      exact .inr (.inr (.inr ⟨_, p, rfl, rfl, rfl⟩))

end Spec

end StellarSpend.Recurring
