import StellarSpend.Host

/-!
# Notifications (`events/src/gas.rs`)

Every notification is validated immediately before it is published, and a
failing validation aborts the whole call (spec §6). A validator is a list of
`assert!`s, each with its condition and its message; `checks` runs such a list
in order, and `checks_eq_ok` says once what every validator does: it passes
exactly when all its conditions hold.

The escrow and batch payloads, validators and emit helpers are modelled; the
initialize, stake and unstake ones are emitted only from the staking
contract's `lib.rs`, which is not part of the sources.
-/

namespace StellarSpend

/-- `CONTRACT_TOPIC`. -/
def contractTopic : String := "STAKING"

/-- `topic_escrow()`. -/
def topicEscrow : String := "ESCROW"

/-- `topic_batch()`. -/
def topicBatch : String := "BATCH"

/-- Emitted when funds are locked into escrow. -/
structure EscrowLockedEventData where
  depositor : Address
  beneficiary : Address
  amount : Int
  unlockTs : UInt64
  timestamp : UInt64
  deriving DecidableEq, Repr

/-- Emitted when escrow funds are released to the beneficiary. -/
structure EscrowReleasedEventData where
  beneficiary : Address
  amount : Int
  timestamp : UInt64
  deriving DecidableEq, Repr

/-- Emitted once per batch-reward run; summarises the entire batch. -/
structure BatchRewardEventData where
  /-- Number of addresses that received a reward this run. -/
  recipients : UInt32
  /-- Sum of all reward tokens distributed. -/
  totalRewards : Int
  /-- Ledger timestamp of the batch run. -/
  timestamp : UInt64
  deriving DecidableEq, Repr

/-- A payload, tagged with its kind. -/
inductive EventData where
  | escrowLocked (data : EscrowLockedEventData)
  | escrowReleased (data : EscrowReleasedEventData)
  | batchReward (data : BatchRewardEventData)
  deriving DecidableEq, Repr

/-- A published notification: the two-level topic and its payload. -/
structure ContractEvent where
  topics : String × String
  data : EventData
  deriving DecidableEq, Repr

/-! ### Validators -/

/-- A run of `assert!(condition, message)` statements, in order. -/
def checks : List (Bool × String) → Except String Unit
  | [] => pure ()
  | (condition, message) :: rest => if condition then checks rest else throw message

theorem checks_eq_ok {l : List (Bool × String)} {u : Unit} :
    checks l = .ok u ↔ ∀ c ∈ l, c.1 = true := by
  induction l with
  | nil => simp [checks]
  | cons c l ih => obtain ⟨b, m⟩ := c; cases b <;> simp [checks, ih]

/-- `validate_escrow_locked_event`. -/
def validateEscrowLockedEvent (data : EscrowLockedEventData) : Except String Unit :=
  checks [(data.amount > 0, "event validation: escrow amount must be > 0"),
    (data.unlockTs > data.timestamp, "event validation: unlock_ts must be in the future")]

/-- `validate_escrow_released_event`. -/
def validateEscrowReleasedEvent (data : EscrowReleasedEventData) : Except String Unit :=
  checks [(data.amount > 0, "event validation: released amount must be > 0")]

/-- `validate_batch_reward_event`. -/
def validateBatchRewardEvent (data : BatchRewardEventData) : Except String Unit :=
  checks [(data.recipients > 0, "event validation: batch must have at least one recipient"),
    (data.totalRewards > 0, "event validation: total_rewards must be > 0")]

/-! ### Emit helpers -/

/-- `emit_escrow_locked`: validate, then publish under `(STAKING, ESCROW)`. -/
def emitEscrowLocked (data : EscrowLockedEventData) : Except String ContractEvent := do
  validateEscrowLockedEvent data
  pure ⟨(contractTopic, topicEscrow), .escrowLocked data⟩

/-- `emit_escrow_released`. -/
def emitEscrowReleased (data : EscrowReleasedEventData) : Except String ContractEvent := do
  validateEscrowReleasedEvent data
  pure ⟨(contractTopic, topicEscrow), .escrowReleased data⟩

/-- `emit_batch_reward`. -/
def emitBatchReward (data : BatchRewardEventData) : Except String ContractEvent := do
  validateBatchRewardEvent data
  pure ⟨(contractTopic, topicBatch), .batchReward data⟩

@[simp] theorem emitEscrowLocked_eq_ok {data : EscrowLockedEventData} {ev : ContractEvent} :
    emitEscrowLocked data = .ok ev ↔
      (0 < data.amount ∧ data.timestamp < data.unlockTs) ∧
        ev = ⟨(contractTopic, topicEscrow), .escrowLocked data⟩ := by
  simp [emitEscrowLocked, bind_eq_ok, validateEscrowLockedEvent, checks_eq_ok]
  exact fun _ _ => eq_comm

@[simp] theorem emitEscrowReleased_eq_ok {data : EscrowReleasedEventData} {ev : ContractEvent} :
    emitEscrowReleased data = .ok ev ↔
      0 < data.amount ∧ ev = ⟨(contractTopic, topicEscrow), .escrowReleased data⟩ := by
  simp [emitEscrowReleased, bind_eq_ok, validateEscrowReleasedEvent, checks_eq_ok]
  exact fun _ => eq_comm

@[simp] theorem emitBatchReward_eq_ok {data : BatchRewardEventData} {ev : ContractEvent} :
    emitBatchReward data = .ok ev ↔
      (0 < data.recipients ∧ 0 < data.totalRewards) ∧
        ev = ⟨(contractTopic, topicBatch), .batchReward data⟩ := by
  simp [emitBatchReward, bind_eq_ok, validateBatchRewardEvent, checks_eq_ok]
  exact fun _ _ => eq_comm

end StellarSpend
