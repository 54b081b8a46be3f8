import StellarSpend.Events
import StellarSpend.Run
import StellarSpend.Staking

/-!
# The escrow contract (`escrow/src/gas.rs`)

Tokens held in trust between a depositor and a beneficiary until a ledger
timestamp. The store is the instance `Config` and one persistent
`EscrowKey::Entry(depositor, escrow_id)` slot per escrow; existence of the slot
*is* the "funds held" state (spec §3).

`lock` and `release` follow the source line by line, including the order of
`release`, which removes the slot before the outward transfer. Each has one spec
lemma (`lock_spec`, `release_spec`), and `step_cases` says what any successful
call can be.
-/

namespace StellarSpend.Escrow

/-- `EscrowEntry`: one packed slot holds everything needed to release. -/
structure EscrowEntry where
  depositor : Address
  beneficiary : Address
  amount : Int
  /-- Ledger timestamp after which `release` may be called. -/
  unlockTs : UInt64
  deriving DecidableEq, Repr

/-- The contract's storage: `DataKey::Config` and the
`EscrowKey::Entry(depositor, escrow_id)` slots. -/
structure Store where
  config : Option Config
  entries : Address × UInt64 → Option EscrowEntry

/-- A store with no escrow entries. -/
def Store.init (config : Option Config) : Store := ⟨config, fun _ => none⟩

/-- `lock`: move `amount` from the depositor into the contract's custody until
`unlock_ts`, under a depositor-chosen id that is not in use. -/
def lock (env : Env) (s : Store) (depositor beneficiary : Address) (amount : Int)
    (unlockTs escrowId : UInt64) : Except String (Store × Receipt Unit ContractEvent) := do
  requireAuth env depositor
  let now := env.timestamp
  ensure (amount > 0) "escrow amount must be > 0"
  ensure (unlockTs > now) "unlock_ts must be in the future"
  let key := (depositor, escrowId)
  ensure (!(s.entries key).isSome) "escrow ID already in use — choose a different escrow_id"
  let config ← expect s.config "staking contract not initialised"
  let paid ← transfer env config.token depositor env.currentContract amount
  let s' : Store :=
    ⟨s.config, Function.update s.entries key (some ⟨depositor, beneficiary, amount, unlockTs⟩)⟩
  let event ← emitEscrowLocked ⟨depositor, beneficiary, amount, unlockTs, now⟩
  pure (s', ⟨(), [paid], [event]⟩)

/-- `release`: anyone may pay an unlocked escrow out to its beneficiary; the slot
is removed before the transfer. -/
def release (env : Env) (s : Store) (depositor : Address) (escrowId : UInt64) :
    Except String (Store × Receipt Unit ContractEvent) := do
  let key := (depositor, escrowId)
  let entry ← expect (s.entries key) "escrow entry not found"
  ensure (env.timestamp ≥ entry.unlockTs)
    "escrow is still locked — unlock_ts has not been reached"
  let config ← expect s.config "staking contract not initialised"
  let s' : Store := ⟨s.config, Function.update s.entries key none⟩
  let paid ← transfer env config.token env.currentContract entry.beneficiary entry.amount
  let event ← emitEscrowReleased ⟨entry.beneficiary, entry.amount, env.timestamp⟩
  pure (s', ⟨(), [paid], [event]⟩)

/-- `get_escrow`: a pure read. -/
def getEscrow (s : Store) (depositor : Address) (escrowId : UInt64) : Option EscrowEntry :=
  s.entries (depositor, escrowId)

/-! ### The contract as a step function -/

/-- The contract's entry points. -/
inductive Call where
  | lock (depositor beneficiary : Address) (amount : Int) (unlockTs escrowId : UInt64)
  | release (depositor : Address) (escrowId : UInt64)
  | getEscrow (depositor : Address) (escrowId : UInt64)
  deriving DecidableEq, Repr

/-- One call of the escrow contract; `get_escrow` returns its entry. -/
def step (env : Env) : Call → Store → Except String (Store × Receipt (Option EscrowEntry) ContractEvent)
  | .lock depositor beneficiary amount unlockTs escrowId, s =>
      (lock env s depositor beneficiary amount unlockTs escrowId).map
        fun out => (out.1, out.2.mapValue fun _ => none)
  | .release depositor escrowId, s =>
      (release env s depositor escrowId).map fun out => (out.1, out.2.mapValue fun _ => none)
  | .getEscrow depositor escrowId, s => pure (s, ⟨getEscrow s depositor escrowId, [], []⟩)

/-! ### Spec lemmas -/

section Spec

variable {env : Env} {s s' : Store}

theorem lock_spec {depositor beneficiary : Address} {amount : Int} {unlockTs escrowId : UInt64}
    {r : Receipt Unit ContractEvent}
    (h : lock env s depositor beneficiary amount unlockTs escrowId = .ok (s', r)) :
    ∃ config, env.authorizes depositor = true ∧ 0 < amount ∧
      env.timestamp.toNat < unlockTs.toNat ∧ s.entries (depositor, escrowId) = none ∧
      s.config = some config ∧
      env.accepts ⟨config.token, depositor, env.currentContract, amount⟩ = true ∧
      s' = ⟨s.config, Function.update s.entries (depositor, escrowId)
        (some ⟨depositor, beneficiary, amount, unlockTs⟩)⟩ ∧
      r = ⟨(), [⟨config.token, depositor, env.currentContract, amount⟩],
        [⟨(contractTopic, topicEscrow),
          .escrowLocked ⟨depositor, beneficiary, amount, unlockTs, env.timestamp⟩⟩]⟩ := by
  simp only [lock, requireAuth, bind_eq_ok, ensure_eq_ok, expect_eq_ok, transfer_eq_ok,
    emitEscrowLocked_eq_ok, pure_eq_ok, Except.ok.injEq, Prod.mk.injEq] at h
  obtain ⟨_, auth, _, hamount, _, hunlock, _, hfree, config, hconfig, _, ⟨rfl, haccept⟩, _,
    ⟨-, rfl⟩, rfl, rfl⟩ := h
  exact ⟨config, auth, hamount, hunlock, by simpa using hfree, hconfig, haccept, rfl, rfl⟩

theorem release_spec {depositor : Address} {escrowId : UInt64} {r : Receipt Unit ContractEvent}
    (h : release env s depositor escrowId = .ok (s', r)) :
    ∃ entry config, s.entries (depositor, escrowId) = some entry ∧
      entry.unlockTs.toNat ≤ env.timestamp.toNat ∧ s.config = some config ∧
      env.accepts ⟨config.token, env.currentContract, entry.beneficiary, entry.amount⟩ = true ∧
      0 < entry.amount ∧
      s' = ⟨s.config, Function.update s.entries (depositor, escrowId) none⟩ ∧
      r = ⟨(), [⟨config.token, env.currentContract, entry.beneficiary, entry.amount⟩],
        [⟨(contractTopic, topicEscrow),
          .escrowReleased ⟨entry.beneficiary, entry.amount, env.timestamp⟩⟩]⟩ := by
  simp only [release, bind_eq_ok, ensure_eq_ok, expect_eq_ok, transfer_eq_ok,
    emitEscrowReleased_eq_ok, pure_eq_ok, Except.ok.injEq, Prod.mk.injEq] at h
  obtain ⟨entry, hentry, _, hdue, config, hconfig, _, ⟨rfl, haccept⟩, _, ⟨hpos, rfl⟩,
    rfl, rfl⟩ := h
  exact ⟨entry, config, hentry, hdue, hconfig, haccept, hpos, rfl, rfl⟩

/-- A `lock` whose checks pass returns: its emit helper's validator checks
nothing its own guards did not. -/
theorem lock_of_checks {depositor beneficiary : Address} {amount : Int}
    {unlockTs escrowId : UInt64} {config : Config} (auth : env.authorizes depositor = true)
    (pos : 0 < amount) (future : env.timestamp.toNat < unlockTs.toNat)
    (free : s.entries (depositor, escrowId) = none) (configured : s.config = some config)
    (accepted : env.accepts ⟨config.token, depositor, env.currentContract, amount⟩ = true) :
    lock env s depositor beneficiary amount unlockTs escrowId =
      .ok (⟨s.config, Function.update s.entries (depositor, escrowId)
          (some ⟨depositor, beneficiary, amount, unlockTs⟩)⟩,
        ⟨(), [⟨config.token, depositor, env.currentContract, amount⟩],
          [⟨(contractTopic, topicEscrow),
            .escrowLocked ⟨depositor, beneficiary, amount, unlockTs, env.timestamp⟩⟩]⟩) := by
  simp [lock, requireAuth, ensure, expect, transfer, emitEscrowLocked, validateEscrowLockedEvent,
    checks, auth, pos, u64_lt_iff.mpr future, free, configured, accepted]

/-- A `release` of a stored, unlocked entry with a positive amount, whose
payout the token accepts, returns. -/
theorem release_of_checks {depositor : Address} {escrowId : UInt64} {entry : EscrowEntry}
    {config : Config} (stored : s.entries (depositor, escrowId) = some entry)
    (due : entry.unlockTs.toNat ≤ env.timestamp.toNat) (configured : s.config = some config)
    (accepted : env.accepts ⟨config.token, env.currentContract, entry.beneficiary, entry.amount⟩ = true)
    (pos : 0 < entry.amount) :
    release env s depositor escrowId =
      .ok (⟨s.config, Function.update s.entries (depositor, escrowId) none⟩,
        ⟨(), [⟨config.token, env.currentContract, entry.beneficiary, entry.amount⟩],
          [⟨(contractTopic, topicEscrow),
            .escrowReleased ⟨entry.beneficiary, entry.amount, env.timestamp⟩⟩]⟩) := by
  simp [release, ensure, expect, transfer, emitEscrowReleased, validateEscrowReleasedEvent,
    checks, stored, u64_le_iff.mpr due, configured, accepted, pos]

/-- Everything a successful call of the escrow contract can be. -/
theorem step_cases {call : Call} {r : Receipt (Option EscrowEntry) ContractEvent}
    (h : step env call s = .ok (s', r)) :
    (∃ depositor beneficiary amount unlockTs escrowId r₀,
      call = .lock depositor beneficiary amount unlockTs escrowId ∧
      lock env s depositor beneficiary amount unlockTs escrowId = .ok (s', r₀) ∧
      r = r₀.mapValue fun _ => none) ∨
    (∃ depositor escrowId r₀, call = .release depositor escrowId ∧
      release env s depositor escrowId = .ok (s', r₀) ∧ r = r₀.mapValue fun _ => none) ∨
    (∃ depositor escrowId, call = .getEscrow depositor escrowId ∧ s' = s ∧
      r = ⟨getEscrow s depositor escrowId, [], []⟩) := by
  cases call with
  | lock depositor beneficiary amount unlockTs escrowId =>
      obtain ⟨⟨s₁, r₀⟩, hc, he⟩ := map_eq_ok.mp h
      cases he
      exact .inl ⟨_, _, _, _, _, r₀, rfl, hc, rfl⟩
  | release depositor escrowId =>
      obtain ⟨⟨s₁, r₀⟩, hc, he⟩ := map_eq_ok.mp h
      cases he
      exact .inr (.inl ⟨_, _, r₀, rfl, hc, rfl⟩)
  | getEscrow depositor escrowId =>
      cases h
      exact .inr (.inr ⟨_, _, rfl, rfl, rfl⟩)

end Spec

end StellarSpend.Escrow
