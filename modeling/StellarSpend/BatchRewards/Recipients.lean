import StellarSpend.BatchRewards.Loop

/-!
# The `recipients` count of the batch notification

`BatchRewardEventData.recipients` is documented as the number of addresses that
received a reward this run. The loop of `distribute_rewards` counts positions
instead: it adds one at every iteration that writes a record, so an address
listed twice and credited twice is counted twice.

* `credited` — the addresses of a set whose balance rose between two stores;
* `settle_recipients` — an iteration counts one exactly when it raises its
  staker's balance;
* `distributeLoop_credited_le` — over any run of the loop, repeated stakers
  included, the addresses whose balance rose are at most as many as the
  positions counted;
* `distributeLoop_recipients_of_nodup` — without a repeated staker they are
  exactly as many;
* `distributeRewards_recipients` — so the published count never falls short of
  the number of addresses credited, and equals it for a list without repeats;
* `distributeRewards_counts_repeated_staker` — `[A, A]` with bonuses `[5, 5]`
  credits one address and publishes a count of two.
-/

namespace StellarSpend.BatchRewards

/-- The addresses of `D` whose balance is higher in `stakes'` than in `stakes`. -/
def credited (D : Finset Address) (stakes stakes' : Address → Option StakeEntry) :
    Finset Address :=
  D.filter fun x => balanceOf stakes x < balanceOf stakes' x

/-- An address whose balance rose from `s₁` to `s₃` rose from `s₁` to `s₂` or
from `s₂` to `s₃`. -/
theorem credited_subset_union (D : Finset Address) (s₁ s₂ s₃ : Address → Option StakeEntry) :
    credited D s₁ s₃ ⊆ credited D s₁ s₂ ∪ credited D s₂ s₃ := by
  intro x hx
  simp only [credited, Finset.mem_union, Finset.mem_filter] at hx ⊢
  rcases lt_or_le (balanceOf s₁ x) (balanceOf s₂ x) with up | down
  exacts [.inl ⟨hx.1, up⟩, .inr ⟨hx.1, lt_of_le_of_lt down hx.2⟩]

theorem credited_insert (D : Finset Address) (x : Address)
    (stakes stakes' : Address → Option StakeEntry) :
    credited (insert x D) stakes stakes' =
      if balanceOf stakes x < balanceOf stakes' x then insert x (credited D stakes stakes')
      else credited D stakes stakes' :=
  Finset.filter_insert _ _ _

section Loop

variable {computeReward : Int → UInt64 → UInt64 → UInt32 → Except String Int}
  {rate : UInt32} {now : UInt64} {acc acc' : Acc}

/-- An iteration counts one exactly when it raises its staker's balance. -/
theorem settle_recipients {staker : Address} {bonus : Int}
    (h : settle computeReward rate now acc staker bonus = .ok acc') :
    acc'.recipients.toNat = acc.recipients.toNat +
      if balanceOf acc.stakes staker < balanceOf acc'.stakes staker then 1 else 0 := by
  obtain ⟨t, -, -, ⟨-, rfl⟩ | ⟨pos, -, -, _, count, rfl⟩⟩ := settle_spec h
  · simp
  · simp [balanceOf, count, pos]

/-- An iteration raises no balance but its staker's. -/
theorem settle_credited_le {staker : Address} {bonus : Int}
    (h : settle computeReward rate now acc staker bonus = .ok acc') (D : Finset Address) :
    (credited D acc.stakes acc'.stakes).card ≤
      if balanceOf acc.stakes staker < balanceOf acc'.stakes staker then 1 else 0 := by
  have only : ∀ x ∈ credited D acc.stakes acc'.stakes, x = staker := fun x hx => by
    by_contra other
    simp [credited, balanceOf, readEntry, settle_frame h other] at hx
  split_ifs with up
  · exact Finset.card_le_one.mpr fun x hx y hy => (only x hx).trans (only y hy).symm
  · rw [Nat.le_zero, Finset.card_eq_zero, Finset.eq_empty_iff_forall_not_mem]
    intro x hx
    exact up (only x hx ▸ (Finset.mem_filter.mp hx).2)

variable {pairs : List (Address × Int)}

/-- **The count never falls short.** Over any run of the loop, repeated stakers
included, the addresses of any set whose balance rose are at most as many as
the positions the loop counted. -/
theorem distributeLoop_credited_le
    (h : distributeLoop computeReward rate now acc pairs = .ok acc') (D : Finset Address) :
    (credited D acc.stakes acc'.stakes).card + acc.recipients.toNat ≤ acc'.recipients.toNat :=
  distributeLoop_invariant
    (fun a b => (credited D a.stakes b.stakes).card + a.recipients.toNat ≤ b.recipients.toNat)
    (fun a => by simp [credited])
    (fun a b c ab bc => by
      have := (Finset.card_le_card (credited_subset_union D a.stakes b.stakes c.stakes)).trans
        (Finset.card_union_le _ _)
      dsimp only at ab bc ⊢
      omega)
    (fun a b _ _ _ hs => by
      have := settle_credited_le hs D
      dsimp only
      rw [settle_recipients hs]
      omega)
    h

/-- **The count is exact without repeats.** If no staker occurs twice among the
pairs, the loop counts exactly the listed addresses whose balance rose. -/
theorem distributeLoop_recipients_of_nodup
    (h : distributeLoop computeReward rate now acc pairs = .ok acc')
    (distinct : (pairs.map Prod.fst).Nodup) :
    acc'.recipients.toNat =
      acc.recipients.toNat +
        (credited (pairs.map Prod.fst).toFinset acc.stakes acc'.stakes).card := by
  induction pairs generalizing acc with
  | nil => cases h; simp [credited]
  | cons p rest ih =>
      obtain ⟨staker, bonus⟩ := p
      obtain ⟨mid, hmid, hrest⟩ := bind_eq_ok.mp h
      simp only [List.map_cons, List.nodup_cons] at distinct ⊢
      have later : balanceOf acc'.stakes staker = balanceOf mid.stakes staker := by
        simp only [balanceOf, readEntry, distributeLoop_frame hrest distinct.1]
      have earlier : credited (rest.map Prod.fst).toFinset acc.stakes acc'.stakes =
          credited (rest.map Prod.fst).toFinset mid.stakes acc'.stakes :=
        Finset.filter_congr fun x hx => by
          have other : x ≠ staker := fun same => distinct.1 (same ▸ List.mem_toFinset.mp hx)
          simp only [balanceOf, readEntry, settle_frame hmid other]
      have fresh : staker ∉ credited (rest.map Prod.fst).toFinset mid.stakes acc'.stakes :=
        fun mem => distinct.1 (List.mem_toFinset.mp (Finset.mem_filter.mp mem).1)
      rw [ih hrest distinct.2, settle_recipients hmid, List.toFinset_cons, credited_insert, earlier,
        later]
      split_ifs with up
      · rw [Finset.card_insert_of_not_mem fresh]
        omega
      · rfl

end Loop

/-! ### A completed call -/

section Call

variable {computeReward : Int → UInt64 → UInt64 → UInt32 → Except String Int}
  {env : Env} {s s' : Store} {admin : Address} {stakers : List Address} {bonusAmounts : List Int}
  {r : Receipt Unit ContractEvent}

/-- **What the published count counts.** The notification of a completed
`distribute_rewards` reports a count at least the number of listed addresses
whose balance rose, and equal to it when no address is listed twice. -/
theorem distributeRewards_recipients
    (h : distributeRewards computeReward env s admin stakers bonusAmounts = .ok (s', r)) :
    ∀ ev ∈ r.events, ∃ recipients total,
      ev = ⟨(contractTopic, topicBatch), .batchReward ⟨recipients, total, env.timestamp⟩⟩ ∧
      (credited stakers.toFinset s.stakes s'.stakes).card ≤ recipients.toNat ∧
      (stakers.Nodup → recipients.toNat = (credited stakers.toFinset s.stakes s'.stakes).card) := by
  obtain ⟨config, acc, -, same, -, -, -, hloop, rfl, -, events⟩ := distributeRewards_spec h
  have fst : (stakers.zip bonusAmounts).map Prod.fst = stakers :=
    List.map_fst_zip _ _ (Nat.le_of_eq same)
  rcases events with ⟨-, hnone⟩ | ⟨-, -, hsome⟩
  · simp [hnone]
  · simp only [hsome, List.mem_singleton]
    rintro ev rfl
    refine ⟨acc.recipients, acc.totalRewards, rfl, ?_, fun distinct => ?_⟩
    · simpa [fst] using distributeLoop_credited_le hloop stakers.toFinset
    · simpa [fst] using distributeLoop_recipients_of_nodup hloop (by rwa [fst])

end Call

/-- `[A, A]` with bonuses `[5, 5]`, at a year's accrued reward of 10000 on A's
balance of 10000: both iterations credit `A`, first 10005 and then 5, and the
notification reports two recipients where one address received a reward. -/
theorem distributeRewards_counts_repeated_staker :
    let env : Env := ⟨31536000, fun _ => true, fun _ => true, ⟨0⟩⟩
    let s : Store := ⟨some ⟨⟨9⟩, 10000, ⟨7⟩⟩,
      Function.update (fun _ => none) ⟨1⟩ (some ⟨10000, 0⟩)⟩
    ∃ s' r, distributeRewards StakingContract.computeReward env s ⟨9⟩ [⟨1⟩, ⟨1⟩] [5, 5] =
        .ok (s', r) ∧
      r.events = [⟨(contractTopic, topicBatch), .batchReward ⟨2, 10010, 31536000⟩⟩] ∧
      (credited [⟨1⟩, ⟨1⟩].toFinset s.stakes s'.stakes).card = 1 ∧
      ∀ x, x ≠ ⟨1⟩ → s'.stakes x = s.stakes x :=
  ⟨_, _, rfl, rfl, rfl, fun _ other => distributeRewards_frame
    (show distributeRewards StakingContract.computeReward ⟨31536000, fun _ => true, fun _ => true, ⟨0⟩⟩
      ⟨some ⟨⟨9⟩, 10000, ⟨7⟩⟩, Function.update (fun _ => none) ⟨1⟩ (some ⟨10000, 0⟩)⟩ ⟨9⟩
      [⟨1⟩, ⟨1⟩] [5, 5] = _ from rfl) (by simpa using other)⟩

end StellarSpend.BatchRewards
