import StellarSpend.BatchRewards.Loop

/-!
# `preview_rewards` against `distribute_rewards`

`preview_rewards` reads every staker's record from the store as it is, while
the loop of `distribute_rewards` reads a repeated staker's record as its own
earlier iteration rewrote it, with `staked_at` reset to `now`. The two agree at
every position whose staker has not come up before:

* `addedAt` — what iteration `j` adds to its staker's balance;
* `previewRewards_first_occurrences` — with a `compute_reward` that never
  returns a negative reward for a positive balance, and no bonuses, iteration
  `j` adds exactly the previewed reward at every first occurrence of a staker;
* `preview_differs_on_repeated_staker` — at a repeated staker they differ.
-/

namespace StellarSpend.BatchRewards

/-- What iteration `j` of the loop run from `acc` over `pairs` adds to the
balance of its staker. -/
def addedAt (computeReward : Int → UInt64 → UInt64 → UInt32 → Except String Int)
    (rate : UInt32) (now : UInt64) (acc : Acc) (pairs : List (Address × Int)) (j : Nat) :
    Except String Int := do
  let before ← distributeLoop computeReward rate now acc (pairs.take j)
  let after ← distributeLoop computeReward rate now acc (pairs.take (j + 1))
  match pairs[j]? with
  | some (staker, _) => pure (balanceOf after.stakes staker - balanceOf before.stakes staker)
  | none => pure 0

section Preview

variable {computeReward : Int → UInt64 → UInt64 → UInt32 → Except String Int}
  {rate : UInt32} {now : UInt64}

/-- A successful `mapM` in `Except` ran its function on every element. -/
theorem mapM_eq_ok {α β : Type} {f : α → Except String β} {l : List α} {rs : List β}
    (h : l.mapM f = .ok rs) :
    rs.length = l.length ∧ ∀ j (hj : j < l.length) (hr : j < rs.length), f l[j] = .ok rs[j] := by
  induction l generalizing rs with
  | nil => cases h; simp
  | cons a l ih =>
      rw [List.mapM_cons] at h
      obtain ⟨b, hb, h⟩ := bind_eq_ok.mp h
      obtain ⟨bs, hbs, h⟩ := bind_eq_ok.mp h
      cases h
      obtain ⟨len, each⟩ := ih hbs
      refine ⟨by simp [len], fun j hj hr => ?_⟩
      cases j with
      | zero => exact hb
      | succ j => exact each j (Nat.lt_of_succ_lt_succ hj) (Nat.lt_of_succ_lt_succ hr)

theorem timeReward_nonneg (nonneg : ∀ b st n rt v, 0 < b → computeReward b st n rt = .ok v → 0 ≤ v)
    {entry : StakeEntry} {t : Int} (h : timeReward computeReward rate now entry = .ok t) :
    0 ≤ t := by
  by_cases pos : entry.balance > 0
  · simp only [timeReward, pos, if_true] at h
    exact nonneg _ _ _ _ _ pos h
  · rw [timeReward_of_nonpos (Int.not_lt.mp pos)] at h
    cases h
    exact Int.le_refl 0

/-- **Preview matches at first occurrences.** If `preview_rewards` returns
`rewards` and `distribute_rewards` with zero bonuses then completes at the same
time on the same store, iteration `j` adds `rewards[j]` to the balance of every
staker that did not occur before position `j`. -/
theorem previewRewards_first_occurrences
    (nonneg : ∀ b st n rt v, 0 < b → computeReward b st n rt = .ok v → 0 ≤ v)
    {env : Env} {s s' : Store} {admin : Address} {stakers : List Address} {rewards : List Int}
    {r : Receipt Unit ContractEvent}
    (preview : previewRewards computeReward env s stakers = .ok rewards)
    (distribute : distributeRewards computeReward env s admin stakers
      (List.replicate stakers.length 0) = .ok (s', r)) :
    ∃ config, s.config = some config ∧
      ∀ j (hj : j < stakers.length) (hr : j < rewards.length), stakers[j] ∉ stakers.take j →
        addedAt computeReward config.rewardRate env.timestamp ⟨s.stakes, 0, 0⟩
          (stakers.zip (List.replicate stakers.length 0)) j = .ok rewards[j] := by
  obtain ⟨config, acc, -, -, -, hconfig, -, hloop, -⟩ := distributeRewards_spec distribute
  obtain ⟨config', hconfig', hmap⟩ := previewRewards_spec preview
  cases hconfig.symm.trans hconfig'
  refine ⟨config, hconfig, fun j hj hr fresh => ?_⟩
  have zipLength : j < (stakers.zip (List.replicate stakers.length (0 : Int))).length := by
    simpa using hj
  obtain ⟨before, after, hbefore, hafter, hstep⟩ := distributeLoop_position hloop zipLength
  have unread : before.stakes stakers[j] = s.stakes stakers[j] := by
    refine distributeLoop_frame hbefore ?_
    rwa [List.map_take, List.map_fst_zip _ _ (by simp)]
  have read : readEntry before.stakes stakers[j] = readEntry s.stakes stakers[j] := by
    rw [readEntry, unread, ← readEntry]
  have previewed := (mapM_eq_ok hmap).2 j hj hr
  simp only [List.getElem_zip, List.getElem_replicate, Int.add_zero] at hstep
  simp only [addedAt, hbefore, hafter, ok_bind, List.getElem?_eq_getElem zipLength,
    List.getElem_zip]
  obtain ⟨t, ht, -, ⟨nonpos, rfl⟩ | ⟨-, -, -, _, -, rfl⟩⟩ := settle_spec hstep <;>
    rw [read, previewed] at ht <;> cases ht
  · have zero : rewards[j] = 0 := by
      have := timeReward_nonneg nonneg previewed
      omega
    simp [zero]
  · simp [balanceOf, read]

/-- Two distinct stakers: the second iteration adds what the preview reported. -/
theorem previewRewards_first_occurrences_distinct :
    let env : Env := ⟨31536000, fun _ => true, fun _ => true, ⟨0⟩⟩
    let s : Store := ⟨some ⟨⟨9⟩, 10000, ⟨7⟩⟩, Function.update
      (Function.update (fun _ => none) ⟨1⟩ (some ⟨10000, 0⟩)) ⟨2⟩ (some ⟨5000, 0⟩)⟩
    let stakers : List Address := [⟨1⟩, ⟨2⟩]
    let rewards : List Int := [10000, 5000]
    (∀ b st n rt v, 0 < b → StakingContract.computeReward b st n rt = .ok v → 0 ≤ v) ∧
      previewRewards StakingContract.computeReward env s stakers = .ok rewards ∧
      (∃ s' r, distributeRewards StakingContract.computeReward env s ⟨9⟩ stakers
        (List.replicate stakers.length 0) = .ok (s', r)) ∧
      ∃ config, s.config = some config ∧
        ∀ j (_ : j < stakers.length) (hr : j < rewards.length), stakers[j] ∉ stakers.take j →
          addedAt StakingContract.computeReward config.rewardRate env.timestamp ⟨s.stakes, 0, 0⟩
            (stakers.zip (List.replicate stakers.length 0)) j = .ok rewards[j] :=
  have nonneg : ∀ b st n rt v, 0 < b → StakingContract.computeReward b st n rt = .ok v → 0 ≤ v :=
    fun _ _ _ _ _ pos h => StakingContract.computeReward_nonneg pos h
  ⟨nonneg, rfl, ⟨_, _, rfl⟩, previewRewards_first_occurrences nonneg rfl
    (show distributeRewards _ _ _ ⟨9⟩ _ _ = _ from rfl)⟩

end Preview

/-- One staker twice, no bonuses: the preview reports a year's reward of 10000
at both positions, but the second iteration reads the record the first one
wrote, whose reward clock starts at `now`, and adds nothing. -/
theorem preview_differs_on_repeated_staker :
    let env : Env := ⟨31536000, fun _ => true, fun _ => true, ⟨0⟩⟩
    let s : Store := ⟨some ⟨⟨9⟩, 10000, ⟨7⟩⟩,
      Function.update (fun _ => none) ⟨1⟩ (some ⟨10000, 0⟩)⟩
    let stakers : List Address := [⟨1⟩, ⟨1⟩]
    (∀ b st n rt v, 0 < b → StakingContract.computeReward b st n rt = .ok v → 0 ≤ v) ∧
      previewRewards StakingContract.computeReward env s stakers = .ok [10000, 10000] ∧
      (∃ s' r, distributeRewards StakingContract.computeReward env s ⟨9⟩ stakers
        (List.replicate stakers.length 0) = .ok (s', r)) ∧
      addedAt StakingContract.computeReward 10000 env.timestamp ⟨s.stakes, 0, 0⟩
        (stakers.zip (List.replicate stakers.length 0)) 1 = .ok 0 :=
  ⟨fun _ _ _ _ _ pos h => StakingContract.computeReward_nonneg pos h, rfl, ⟨_, _, rfl⟩, rfl⟩

end StellarSpend.BatchRewards
