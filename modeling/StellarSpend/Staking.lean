import StellarSpend.Host

/-!
# The staking crate's shared records

The escrow and batch-reward contracts read two records of the staking crate:
the instance `DataKey::Config` and the persistent `DataKey::StakeEntry(addr)`.
Their declarations live in the crate's `lib.rs`, which is not among the
sources, so both are modelled from the spec (§3): only the fields the modelled
contracts read are kept.
-/

namespace StellarSpend

/-- Modelled from the spec: `Config` is declared in the staking crate's `lib.rs`,
not in the sources. The process-wide configuration, set once at initialisation:
administrator, reward rate and token (the minimum stake is read only by `stake`,
which is not modelled). -/
structure Config where
  admin : Address
  rewardRate : UInt32
  token : Address
  deriving DecidableEq, Repr

/-- Modelled from the spec: `StakeEntry` is declared in the staking crate's
`lib.rs`, not in the sources. One stake position: its balance and the start of
its accrual window. -/
structure StakeEntry where
  balance : Int
  stakedAt : UInt64
  deriving DecidableEq, Repr

/-- Modelled from the spec: the `Default` that `unwrap_or_default()` gives an
absent record, a zero balance (spec §4.3). Its `staked_at` is never read: the
reward is computed only from a positive balance, and a write resets it. -/
def StakeEntry.default : StakeEntry := ⟨0, 0⟩

/-- Modelled from the spec: `StakingContract::compute_reward(balance, staked_at,
now, rate)` is declared in the staking crate's `lib.rs`, not in the sources. The
spec (§4.1) asks for the floor of a reward proportional to
`balance × rate × (now − staked_at)`, with `rate` in an agreed unit such as
basis points per year, zero for a zero balance or an empty window. This is that
function in basis points per year of 31 536 000 seconds, with an empty window
when `staked_at` is not before `now`; the contracts take
`compute_reward` as a parameter, and this instance only fixes concrete runs. -/
def StakingContract.computeReward (balance : Int) (stakedAt now : UInt64) (rate : UInt32) :
    Except String Int :=
  pure (balance * rate.toNat * ((now.toNat - stakedAt.toNat : Nat) : Int) / (10000 * 31536000))

/-- The reward of a positive balance is never negative. -/
theorem StakingContract.computeReward_nonneg {balance v : Int} {stakedAt now : UInt64}
    {rate : UInt32} (pos : 0 < balance)
    (h : StakingContract.computeReward balance stakedAt now rate = .ok v) : 0 ≤ v := by
  cases h
  exact Int.ediv_nonneg (Int.mul_nonneg (Int.mul_nonneg (Int.le_of_lt pos) (Int.ofNat_nonneg _))
    (Int.ofNat_nonneg _)) (by decide)

/-- Over an empty window the reward is zero. -/
theorem StakingContract.computeReward_empty {balance : Int} {now : UInt64} {rate : UInt32} :
    StakingContract.computeReward balance now now rate = .ok 0 := by
  simp [StakingContract.computeReward]

end StellarSpend
