import StellarSpend.Events
import StellarSpend.Run
import StellarSpend.Staking

/-!
# The batch-reward contract (`batch-rewards/src/gas.rs`)

`distribute_rewards` credits many stake positions in one call and publishes one
aggregate notification; `preview_rewards` reports, without writing, the
time-weighted reward of each position.

Both call `StakingContract::compute_reward`, which the staking crate's `lib.rs`
declares and which is not among the sources. It is a parameter here
(`computeReward`), free to return anything or to abort, so every result holds
for whatever the staking crate computes; `StakingContract.computeReward` in the
staking module is a spec-conforming instance for concrete runs.

The main loop is `distributeLoop`, one `settle` per `(staker, bonus)` pair; its
body is cut where the source computes `time_reward` (`timeReward`) and the
amount it credits (`userReward`). Each piece has one spec lemma.
-/

namespace StellarSpend.BatchRewards

/-- The storage both entry points read: the instance `DataKey::Config` and the
persistent `DataKey::StakeEntry(addr)` records. -/
structure Store where
  config : Option Config
  stakes : Address → Option StakeEntry

/-- The loop's running state: the stake records as written so far,
`total_rewards` and `recipients`. -/
structure Acc where
  stakes : Address → Option StakeEntry
  totalRewards : Int
  recipients : UInt32

/-- The record an iteration reads: `get(&DataKey::StakeEntry(staker)).unwrap_or_default()`. -/
def readEntry (stakes : Address → Option StakeEntry) (staker : Address) : StakeEntry :=
  (stakes staker).getD StakeEntry.default

/-- A position's balance, zero for an absent record. -/
def balanceOf (stakes : Address → Option StakeEntry) (staker : Address) : Int :=
  (readEntry stakes staker).balance

section Contract

variable (computeReward : Int → UInt64 → UInt64 → UInt32 → Except String Int)

/-- `time_reward`: the accrued reward of a positive balance, zero otherwise. -/
def timeReward (rate : UInt32) (now : UInt64) (entry : StakeEntry) : Except String Int :=
  if entry.balance > 0 then computeReward entry.balance entry.stakedAt now rate else pure 0

/-- What an iteration credits to its staker: `none` where the source
`continue`s, for a zero balance with no bonus or a total that is not positive. -/
def userReward (rate : UInt32) (now : UInt64) (entry : StakeEntry) (bonus : Int) :
    Except String (Option Int) :=
  if entry.balance = 0 ∧ bonus = 0 then pure none else do
    let timeReward ← timeReward computeReward rate now entry
    let totalUserReward ← i128Add timeReward bonus
    pure (if totalUserReward ≤ 0 then none else some totalUserReward)

/-- One iteration of the main loop: credit the reward into the record, reset its
reward clock to `now`, write it, and count it. -/
def settle (rate : UInt32) (now : UInt64) (acc : Acc) (staker : Address) (bonus : Int) :
    Except String Acc := do
  let entry := readEntry acc.stakes staker
  match ← userReward computeReward rate now entry bonus with
  | none => pure acc
  | some totalUserReward =>
      let balance ← i128Add entry.balance totalUserReward
      let totalRewards ← i128Add acc.totalRewards totalUserReward
      let recipients ← u32Add acc.recipients 1
      pure ⟨Function.update acc.stakes staker (some ⟨balance, now⟩), totalRewards, recipients⟩

/-- The main loop over the `(staker, bonus)` pairs, in order. -/
def distributeLoop (rate : UInt32) (now : UInt64) : Acc → List (Address × Int) → Except String Acc
  | acc, [] => pure acc
  | acc, (staker, bonus) :: rest => do
      let acc ← settle computeReward rate now acc staker bonus
      distributeLoop rate now acc rest

/-- `distribute_rewards`: admin-only; one config read, the loop, and one
notification if any position was credited. -/
def distributeRewards (env : Env) (s : Store) (admin : Address) (stakers : List Address)
    (bonusAmounts : List Int) : Except String (Store × Receipt Unit ContractEvent) := do
  requireAuth env admin
  ensure (stakers.length = bonusAmounts.length)
    "stakers and bonus_amounts must be the same length"
  ensure (stakers ≠ []) "staker list must not be empty"
  let config ← expect s.config "staking contract not initialised"
  ensure (config.admin = admin) "caller is not the contract admin"
  let now := env.timestamp
  let acc ← distributeLoop computeReward config.rewardRate now ⟨s.stakes, 0, 0⟩
    (stakers.zip bonusAmounts)
  let s' : Store := ⟨s.config, acc.stakes⟩
  if acc.recipients > 0 then do
    let event ← emitBatchReward ⟨acc.recipients, acc.totalRewards, now⟩
    pure (s', ⟨(), [], [event]⟩)
  else pure (s', ⟨(), [], []⟩)

/-- `preview_rewards`: each staker's time-weighted reward, read from the store
as it is. -/
def previewRewards (env : Env) (s : Store) (stakers : List Address) :
    Except String (List Int) := do
  let config ← expect s.config "staking contract not initialised"
  let now := env.timestamp
  stakers.mapM fun staker => timeReward computeReward config.rewardRate now (readEntry s.stakes staker)

end Contract

/-! ### Spec lemmas -/

section Spec

variable {computeReward : Int → UInt64 → UInt64 → UInt32 → Except String Int}
  {rate : UInt32} {now : UInt64}

@[simp] theorem readEntry_update_self (stakes : Address → Option StakeEntry) (staker : Address)
    (e : StakeEntry) : readEntry (Function.update stakes staker (some e)) staker = e := by
  simp [readEntry]

theorem readEntry_update_of_ne {stakes : Address → Option StakeEntry} {staker x : Address}
    (e : Option StakeEntry) (h : x ≠ staker) :
    readEntry (Function.update stakes staker e) x = readEntry stakes x := by
  simp [readEntry, Function.update_noteq h]

theorem timeReward_of_nonpos {entry : StakeEntry} (h : entry.balance ≤ 0) :
    timeReward computeReward rate now entry = .ok 0 := by
  simp [timeReward, Int.not_lt.mpr h]

/-- The early `continue` for a zero balance with no bonus is the late one: the
time reward of a zero balance is zero, so the total is not positive. -/
theorem userReward_eq_ok {entry : StakeEntry} {bonus : Int} {d : Option Int} :
    userReward computeReward rate now entry bonus = .ok d ↔
      ∃ t, timeReward computeReward rate now entry = .ok t ∧ I128.inRange (t + bonus) ∧
        d = if t + bonus ≤ 0 then none else some (t + bonus) := by
  by_cases early : entry.balance = 0 ∧ bonus = 0
  · have zero : I128.inRange 0 := by simp [I128.inRange]
    have nonpos : entry.balance ≤ 0 := early.1 ▸ Int.le_refl 0
    simp [userReward, early, timeReward_of_nonpos nonpos, zero, eq_comm]
  · simp only [userReward, early, if_false, bind_eq_ok, i128Add_eq_ok, pure_eq_ok,
      Except.ok.injEq]
    constructor
    · rintro ⟨t, ht, _, ⟨fits, rfl⟩, rfl⟩; exact ⟨t, ht, fits, rfl⟩
    · rintro ⟨t, ht, fits, rfl⟩; exact ⟨t, ht, _, ⟨fits, rfl⟩, rfl⟩

/-- **One iteration.** It computes the time reward `t` of the record it reads;
if `t + bonus` is not positive the state is unchanged, and otherwise the record
gets balance `balance + t + bonus` and `staked_at = now`, the total grows by
`t + bonus` and the count by one, each under its overflow check. -/
theorem settle_spec {acc acc' : Acc} {staker : Address} {bonus : Int}
    (h : settle computeReward rate now acc staker bonus = .ok acc') :
    ∃ t, timeReward computeReward rate now (readEntry acc.stakes staker) = .ok t ∧
      I128.inRange (t + bonus) ∧
      (t + bonus ≤ 0 ∧ acc' = acc ∨
        0 < t + bonus ∧ I128.inRange ((readEntry acc.stakes staker).balance + (t + bonus)) ∧
          I128.inRange (acc.totalRewards + (t + bonus)) ∧
          ∃ recipients : UInt32, recipients.toNat = acc.recipients.toNat + 1 ∧
            acc' = ⟨Function.update acc.stakes staker
                (some ⟨(readEntry acc.stakes staker).balance + (t + bonus), now⟩),
              acc.totalRewards + (t + bonus), recipients⟩) := by
  simp only [settle, bind_eq_ok, userReward_eq_ok] at h
  obtain ⟨d, ⟨t, ht, fits, rfl⟩, h⟩ := h
  refine ⟨t, ht, fits, ?_⟩
  by_cases pos : t + bonus ≤ 0
  · simp only [pos, if_true, pure_eq_ok, Except.ok.injEq] at h
    exact .inl ⟨pos, h.symm⟩
  · simp only [pos, if_false, bind_eq_ok, i128Add_eq_ok, u32Add_eq_ok, pure_eq_ok,
      Except.ok.injEq] at h
    obtain ⟨_, ⟨balance, rfl⟩, _, ⟨total, rfl⟩, recipients, ⟨-, count⟩, rfl⟩ := h
    exact .inr ⟨Int.lt_of_not_ge pos, balance, total, recipients, by simpa using count, rfl⟩

section Converse

variable {acc : Acc} {staker : Address} {bonus t : Int}
  (ht : timeReward computeReward rate now (readEntry acc.stakes staker) = .ok t)
  (fits : I128.inRange (t + bonus))
include ht fits

/-- An iteration whose time reward plus bonus is not positive returns its state. -/
theorem settle_of_skip (skip : t + bonus ≤ 0) :
    settle computeReward rate now acc staker bonus = .ok acc := by
  have hu : userReward computeReward rate now (readEntry acc.stakes staker) bonus = .ok none :=
    userReward_eq_ok.mpr ⟨t, ht, fits, by simp [skip]⟩
  simp [settle, hu]

/-- An iteration whose time reward plus bonus is positive and passes its three
overflow checks credits its staker. -/
theorem settle_of_credit (pos : 0 < t + bonus)
    (balance : I128.inRange ((readEntry acc.stakes staker).balance + (t + bonus)))
    (total : I128.inRange (acc.totalRewards + (t + bonus)))
    (count : acc.recipients.toNat + 1 < 2 ^ 32) :
    settle computeReward rate now acc staker bonus = .ok ⟨Function.update acc.stakes staker
      (some ⟨(readEntry acc.stakes staker).balance + (t + bonus), now⟩),
      acc.totalRewards + (t + bonus), acc.recipients + 1⟩ := by
  have hu : userReward computeReward rate now (readEntry acc.stakes staker) bonus =
      .ok (some (t + bonus)) :=
    userReward_eq_ok.mpr ⟨t, ht, fits, by simp [Int.not_le.mpr pos]⟩
  have count : acc.recipients.toNat + 1 < 4294967296 := count
  simp [settle, hu, i128Add, u32Add, balance, total, count]

end Converse

theorem distributeLoop_nil (acc : Acc) :
    distributeLoop computeReward rate now acc [] = .ok acc := rfl

theorem distributeLoop_cons (acc : Acc) (staker : Address) (bonus : Int)
    (rest : List (Address × Int)) :
    distributeLoop computeReward rate now acc ((staker, bonus) :: rest) =
      settle computeReward rate now acc staker bonus >>= (distributeLoop computeReward rate now · rest) :=
  rfl

theorem distributeLoop_append (acc : Acc) (xs ys : List (Address × Int)) :
    distributeLoop computeReward rate now acc (xs ++ ys) =
      distributeLoop computeReward rate now acc xs >>= (distributeLoop computeReward rate now · ys) := by
  induction xs generalizing acc with
  | nil => rfl
  | cons p xs ih =>
      obtain ⟨staker, bonus⟩ := p
      cases h : settle computeReward rate now acc staker bonus with
      | error e => simp [distributeLoop_cons, h]
      | ok acc' => simp [distributeLoop_cons, h, ih]

/-- Everything a successful `distribute_rewards` did: its checks passed, the
loop ran to the end from the stored records with zero totals, the records it
wrote are the store's, and it published one notification exactly when it
credited some position. -/
theorem distributeRewards_spec {env : Env} {s s' : Store} {admin : Address}
    {stakers : List Address} {bonusAmounts : List Int} {r : Receipt Unit ContractEvent}
    (h : distributeRewards computeReward env s admin stakers bonusAmounts = .ok (s', r)) :
    ∃ config acc, env.authorizes admin = true ∧ stakers.length = bonusAmounts.length ∧
      stakers ≠ [] ∧ s.config = some config ∧ config.admin = admin ∧
      distributeLoop computeReward config.rewardRate env.timestamp ⟨s.stakes, 0, 0⟩
        (stakers.zip bonusAmounts) = .ok acc ∧
      s' = ⟨s.config, acc.stakes⟩ ∧ r.transfers = [] ∧
      (acc.recipients = 0 ∧ r.events = [] ∨
        0 < acc.recipients.toNat ∧ 0 < acc.totalRewards ∧
          r.events = [⟨(contractTopic, topicBatch),
            .batchReward ⟨acc.recipients, acc.totalRewards, env.timestamp⟩⟩]) := by
  simp only [distributeRewards, requireAuth, bind_eq_ok, ensure_eq_ok, expect_eq_ok] at h
  obtain ⟨_, auth, _, same, _, nonempty, config, hconfig, _, hadmin, acc, hloop, h⟩ := h
  refine ⟨config, acc, auth, same, nonempty, hconfig, hadmin, hloop, ?_⟩
  by_cases some : acc.recipients > 0
  · simp only [some, if_true, bind_eq_ok, emitBatchReward_eq_ok, pure_eq_ok, Except.ok.injEq,
      Prod.mk.injEq] at h
    obtain ⟨_, ⟨⟨-, total⟩, rfl⟩, rfl, rfl⟩ := h
    exact ⟨rfl, rfl, .inr ⟨some, total, rfl⟩⟩
  · simp only [some, if_false, pure_eq_ok, Except.ok.injEq, Prod.mk.injEq] at h
    obtain ⟨rfl, rfl⟩ := h
    refine ⟨rfl, rfl, .inl ⟨?_, rfl⟩⟩
    exact UInt32.toNat.inj (Nat.eq_zero_of_not_pos some)

/-- A `distribute_rewards` whose checks pass and whose loop completes returns,
provided the loop's total is positive whenever its count is: that is all its
emit helper's validator asks. -/
theorem distributeRewards_of_checks {env : Env} {s : Store} {admin : Address}
    {stakers : List Address} {bonusAmounts : List Int} {config : Config} {acc : Acc}
    (auth : env.authorizes admin = true) (same : stakers.length = bonusAmounts.length)
    (nonempty : stakers ≠ []) (configured : s.config = some config) (isAdmin : config.admin = admin)
    (loop : distributeLoop computeReward config.rewardRate env.timestamp ⟨s.stakes, 0, 0⟩
      (stakers.zip bonusAmounts) = .ok acc)
    (funded : 0 < acc.recipients.toNat → 0 < acc.totalRewards) :
    distributeRewards computeReward env s admin stakers bonusAmounts =
      .ok (⟨s.config, acc.stakes⟩, ⟨(), [], if acc.recipients > 0 then
        [⟨(contractTopic, topicBatch), .batchReward ⟨acc.recipients, acc.totalRewards,
          env.timestamp⟩⟩] else []⟩) := by
  by_cases some : acc.recipients > 0
  · have total := funded some
    simp [distributeRewards, requireAuth, ensure, expect, auth, same, nonempty, configured,
      isAdmin, loop, some, emitBatchReward, validateBatchRewardEvent, checks, total]
  · simp [distributeRewards, requireAuth, ensure, expect, auth, same, nonempty, configured,
      isAdmin, loop, some]

theorem previewRewards_spec {env : Env} {s : Store} {stakers : List Address} {rewards : List Int}
    (h : previewRewards computeReward env s stakers = .ok rewards) :
    ∃ config, s.config = some config ∧
      stakers.mapM (fun staker => timeReward computeReward config.rewardRate env.timestamp
        (readEntry s.stakes staker)) = .ok rewards := by
  simp only [previewRewards, bind_eq_ok, expect_eq_ok] at h
  exact h

end Spec

end StellarSpend.BatchRewards
