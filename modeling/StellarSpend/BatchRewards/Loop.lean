import StellarSpend.BatchRewards.Contract

/-!
# The batch loop, position by position

What the main loop of `distribute_rewards` does over a whole list of
`(staker, bonus)` pairs, repeated stakers and negative bonuses included. A
later iteration for a repeated staker reads the record an earlier iteration
wrote, so every fact here is a loop invariant:

* `distributeLoop_invariant` — a reflexive, transitive relation between loop
  states that every iteration satisfies holds between the first and the last;
  the frame, monotonicity, reconciliation and count lemmas are its instances;
* `distributeLoop_position` — position `j` of a completed loop is one `settle`
  from the state after the first `j` positions;
* `distributeLoop_counts` — the count grows exactly when some position's time
  reward plus bonus is positive;
* `distributeRewards_reconciles` — a completed `distribute_rewards` writes a
  record exactly at the positions whose time reward plus bonus is positive,
  publishes its notification exactly when it wrote, and the notification's
  `total_rewards` is the sum of the balance changes over all addresses.
-/

namespace StellarSpend.BatchRewards

section Loop

variable {computeReward : Int → UInt64 → UInt64 → UInt32 → Except String Int}
  {rate : UInt32} {now : UInt64}

/-! ### One iteration -/

section Settle

variable {acc acc' : Acc} {staker : Address} {bonus : Int}

theorem settle_frame (h : settle computeReward rate now acc staker bonus = .ok acc')
    {x : Address} (hx : x ≠ staker) : acc'.stakes x = acc.stakes x := by
  obtain ⟨t, -, -, ⟨-, rfl⟩ | ⟨-, -, -, _, -, rfl⟩⟩ := settle_spec h
  · rfl
  · exact Function.update_noteq hx _ _

theorem settle_balance_le (h : settle computeReward rate now acc staker bonus = .ok acc')
    (x : Address) : balanceOf acc.stakes x ≤ balanceOf acc'.stakes x := by
  obtain ⟨t, -, -, ⟨-, rfl⟩ | ⟨pos, -, -, _, -, rfl⟩⟩ := settle_spec h
  · exact Int.le_refl _
  · by_cases hx : x = staker
    · subst hx; simp only [balanceOf, readEntry_update_self]; omega
    · simp only [balanceOf, readEntry_update_of_ne _ hx, Int.le_refl]

/-- An iteration adds to the total exactly what it adds to its staker's balance. -/
theorem settle_reconciles (h : settle computeReward rate now acc staker bonus = .ok acc')
    {D : Finset Address} (mem : staker ∈ D) :
    acc'.totalRewards - acc.totalRewards =
      ∑ x ∈ D, (balanceOf acc'.stakes x - balanceOf acc.stakes x) := by
  obtain ⟨t, -, -, ⟨-, rfl⟩ | ⟨-, -, -, _, -, rfl⟩⟩ := settle_spec h
  · simp
  · rw [Finset.sum_eq_single staker
      (fun x _ hx => by simp [balanceOf, readEntry_update_of_ne _ hx]) (absurd mem)]
    simp [balanceOf]

/-- An iteration counts at most one position and credits at least one token
for it. -/
theorem settle_count (h : settle computeReward rate now acc staker bonus = .ok acc') :
    acc.recipients.toNat ≤ acc'.recipients.toNat ∧
      (acc'.recipients.toNat : Int) - acc.recipients.toNat ≤
        acc'.totalRewards - acc.totalRewards := by
  obtain ⟨t, -, -, ⟨-, rfl⟩ | ⟨pos, -, -, _, count, rfl⟩⟩ := settle_spec h
  · simp
  · simp only [count]; omega

end Settle

/-! ### The whole loop -/

section Run

variable {acc acc' : Acc} {pairs : List (Address × Int)}

/-- **Loop induction.** A reflexive, transitive relation that every iteration of
the loop satisfies holds between its first and its last state. -/
theorem distributeLoop_invariant (R : Acc → Acc → Prop) (refl : ∀ a, R a a)
    (trans : ∀ a b c, R a b → R b c → R a c)
    (step : ∀ a b staker bonus, (staker, bonus) ∈ pairs →
      settle computeReward rate now a staker bonus = .ok b → R a b)
    (h : distributeLoop computeReward rate now acc pairs = .ok acc') : R acc acc' := by
  induction pairs generalizing acc with
  | nil => cases h; exact refl _
  | cons p pairs ih =>
      obtain ⟨staker, bonus⟩ := p
      obtain ⟨mid, hmid, hrest⟩ := bind_eq_ok.mp h
      exact trans _ _ _ (step _ _ _ _ (List.mem_cons_self _ _) hmid)
        (ih (fun a b s b' mem => step a b s b' (List.mem_cons_of_mem _ mem)) hrest)

/-- Records of addresses outside the list are never touched. -/
theorem distributeLoop_frame (h : distributeLoop computeReward rate now acc pairs = .ok acc')
    {x : Address} (hx : x ∉ pairs.map Prod.fst) : acc'.stakes x = acc.stakes x :=
  distributeLoop_invariant (fun a b => b.stakes x = a.stakes x) (fun _ => rfl)
    (fun _ _ _ ab bc => bc.trans ab)
    (fun _ _ _ _ mem hs => settle_frame hs fun hx' => hx (List.mem_map.mpr ⟨_, mem, hx'.symm⟩))
    h

/-- No balance ever decreases. -/
theorem distributeLoop_balance_le (h : distributeLoop computeReward rate now acc pairs = .ok acc')
    (x : Address) : balanceOf acc.stakes x ≤ balanceOf acc'.stakes x :=
  distributeLoop_invariant (fun a b => balanceOf a.stakes x ≤ balanceOf b.stakes x)
    (fun _ => Int.le_refl _) (fun _ _ _ => Int.le_trans)
    (fun _ _ _ _ _ hs => settle_balance_le hs x) h

/-- The loop adds to the total exactly the sum of the balance changes. -/
theorem distributeLoop_reconciles (h : distributeLoop computeReward rate now acc pairs = .ok acc')
    {D : Finset Address} (hD : ∀ p ∈ pairs, p.1 ∈ D) :
    acc'.totalRewards - acc.totalRewards =
      ∑ x ∈ D, (balanceOf acc'.stakes x - balanceOf acc.stakes x) :=
  distributeLoop_invariant
    (fun a b => b.totalRewards - a.totalRewards = ∑ x ∈ D, (balanceOf b.stakes x - balanceOf a.stakes x))
    (fun _ => by simp)
    (fun a b c ab bc => by
      dsimp only at ab bc ⊢
      rw [← sub_add_sub_cancel c.totalRewards b.totalRewards, ab, bc, ← Finset.sum_add_distrib]
      simp only [sub_add_sub_cancel])
    (fun _ _ _ _ mem hs => settle_reconciles hs (hD _ mem)) h

/-- The count never decreases, and the total grows by at least the count. -/
theorem distributeLoop_count (h : distributeLoop computeReward rate now acc pairs = .ok acc') :
    acc.recipients.toNat ≤ acc'.recipients.toNat ∧
      (acc'.recipients.toNat : Int) - acc.recipients.toNat ≤
        acc'.totalRewards - acc.totalRewards :=
  distributeLoop_invariant
    (fun a b => a.recipients.toNat ≤ b.recipients.toNat ∧
      (b.recipients.toNat : Int) - a.recipients.toNat ≤ b.totalRewards - a.totalRewards)
    (fun _ => by simp) (fun _ _ _ ab bc => ⟨Nat.le_trans ab.1 bc.1, by omega⟩)
    (fun _ _ _ _ _ hs => settle_count hs) h

theorem distributeLoop_take (h : distributeLoop computeReward rate now acc pairs = .ok acc')
    (j : Nat) : ∃ mid, distributeLoop computeReward rate now acc (pairs.take j) = .ok mid := by
  rw [← List.take_append_drop j pairs, distributeLoop_append] at h
  obtain ⟨mid, hmid, -⟩ := bind_eq_ok.mp h
  exact ⟨mid, hmid⟩

/-- Position `j` of a completed loop is one iteration from the state after the
first `j` positions. -/
theorem distributeLoop_position (h : distributeLoop computeReward rate now acc pairs = .ok acc')
    {j : Nat} (hj : j < pairs.length) :
    ∃ before after, distributeLoop computeReward rate now acc (pairs.take j) = .ok before ∧
      distributeLoop computeReward rate now acc (pairs.take (j + 1)) = .ok after ∧
      settle computeReward rate now before pairs[j].1 pairs[j].2 = .ok after := by
  obtain ⟨after, hafter⟩ := distributeLoop_take h (j + 1)
  have split := hafter
  rw [List.take_succ, List.getElem?_eq_getElem hj, Option.toList_some,
    distributeLoop_append] at split
  obtain ⟨before, hbefore, hstep⟩ := bind_eq_ok.mp split
  obtain ⟨mid, hmid, hlast⟩ := bind_eq_ok.mp hstep
  obtain rfl : mid = after := Except.ok.inj hlast
  exact ⟨before, mid, hbefore, hafter, hmid⟩

/-- A property of some position of a loop whose first iteration went from `acc`
to `mid`: it holds of position `0` or of some position of the rest. -/
theorem exists_position_cons (P : Acc → Address × Int → Prop) {p : Address × Int}
    {rest : List (Address × Int)} {mid : Acc}
    (hs : settle computeReward rate now acc p.1 p.2 = .ok mid) :
    (∃ j, ∃ hj : j < (p :: rest).length, ∃ before,
      distributeLoop computeReward rate now acc ((p :: rest).take j) = .ok before ∧
        P before (p :: rest)[j]) ↔
      P acc p ∨ ∃ j, ∃ hj : j < rest.length, ∃ before,
        distributeLoop computeReward rate now mid (rest.take j) = .ok before ∧ P before rest[j] := by
  obtain ⟨staker, bonus⟩ := p
  have shift : ∀ j, distributeLoop computeReward rate now acc (((staker, bonus) :: rest).take (j + 1)) =
      distributeLoop computeReward rate now mid (rest.take j) := fun j => by
    rw [List.take_succ_cons, distributeLoop_cons, hs]; rfl
  constructor
  · rintro ⟨_ | j, hj, before, hb, hP⟩
    · cases hb; exact .inl hP
    · exact .inr ⟨j, Nat.lt_of_succ_lt_succ hj, before, (shift j).symm.trans hb, hP⟩
  · rintro (hP | ⟨j, hj, before, hb, hP⟩)
    · exact ⟨0, Nat.zero_lt_succ _, acc, rfl, hP⟩
    · exact ⟨j + 1, Nat.succ_lt_succ hj, before, (shift j).trans hb, hP⟩

/-- **The count.** The loop counts some position exactly when some position's
time reward plus bonus, from the state before it, is positive. -/
theorem distributeLoop_counts (h : distributeLoop computeReward rate now acc pairs = .ok acc') :
    acc.recipients.toNat < acc'.recipients.toNat ↔
      ∃ j, ∃ hj : j < pairs.length, ∃ before,
        distributeLoop computeReward rate now acc (pairs.take j) = .ok before ∧
          ∃ t, timeReward computeReward rate now (readEntry before.stakes pairs[j].1) = .ok t ∧
            0 < t + pairs[j].2 := by
  induction pairs generalizing acc with
  | nil => cases h; simp
  | cons p pairs ih =>
      obtain ⟨mid, hmid, hrest⟩ := bind_eq_ok.mp h
      refine Iff.trans ?_ (exists_position_cons (fun before q => ∃ t, timeReward computeReward
        rate now (readEntry before.stakes q.1) = .ok t ∧ 0 < t + q.2) hmid).symm
      dsimp only
      rw [← ih hrest]
      have later := (distributeLoop_count hrest).1
      obtain ⟨t, ht, -, ⟨nonpos, rfl⟩ | ⟨pos, -, -, _, count, rfl⟩⟩ := settle_spec hmid
      · constructor
        · exact .inr
        · rintro (⟨t', ht', pos⟩ | lt)
          · cases ht.symm.trans ht'; omega
          · exact lt
      · simp only [count] at later
        exact ⟨fun _ => .inl ⟨t, ht, pos⟩, fun _ => by omega⟩

end Run

end Loop

/-! ### A completed call -/

section Call

variable {computeReward : Int → UInt64 → UInt64 → UInt32 → Except String Int}
  {env : Env} {s s' : Store} {admin : Address} {stakers : List Address} {bonusAmounts : List Int}
  {r : Receipt Unit ContractEvent}

theorem distributeRewards_frame
    (h : distributeRewards computeReward env s admin stakers bonusAmounts = .ok (s', r))
    {x : Address} (hx : x ∉ stakers) : s'.stakes x = s.stakes x := by
  obtain ⟨config, acc, -, same, -, -, -, hloop, rfl, -⟩ := distributeRewards_spec h
  exact distributeLoop_frame hloop (by rwa [List.map_fst_zip _ _ (Nat.le_of_eq same)])

/-- What a completed `distribute_rewards` did, position by position and in
total, run at rate `rate` and time `now` from the records `stakes` to the
records `stakes'`, publishing `events`. -/
structure Reconciled (computeReward : Int → UInt64 → UInt64 → UInt32 → Except String Int)
    (rate : UInt32) (now : UInt64) (stakes : Address → Option StakeEntry) (stakers : List Address)
    (bonusAmounts : List Int) (stakes' : Address → Option StakeEntry)
    (events : List ContractEvent) : Prop where
  /-- Position `j` writes its staker's record exactly when the time reward of
  the record it reads plus its bonus is positive: it credits that sum and resets
  `staked_at` to `now`; otherwise the loop state is as it was. -/
  writes : ∀ j (hj : j < stakers.length) (hb : j < bonusAmounts.length), ∃ before after t,
    distributeLoop computeReward rate now ⟨stakes, 0, 0⟩ ((stakers.zip bonusAmounts).take j) =
      .ok before ∧
    distributeLoop computeReward rate now ⟨stakes, 0, 0⟩
      ((stakers.zip bonusAmounts).take (j + 1)) = .ok after ∧
    timeReward computeReward rate now (readEntry before.stakes stakers[j]) = .ok t ∧
    (0 < t + bonusAmounts[j] ∧
        after.stakes = Function.update before.stakes stakers[j]
          (some ⟨(readEntry before.stakes stakers[j]).balance + (t + bonusAmounts[j]), now⟩) ∨
      t + bonusAmounts[j] ≤ 0 ∧ after = before)
  /-- A notification is published exactly when some position wrote. -/
  publishes : events ≠ [] ↔ ∃ j, ∃ hj : j < stakers.length, ∃ hb : j < bonusAmounts.length,
    ∃ before t, distributeLoop computeReward rate now ⟨stakes, 0, 0⟩
        ((stakers.zip bonusAmounts).take j) = .ok before ∧
      timeReward computeReward rate now (readEntry before.stakes stakers[j]) = .ok t ∧
      0 < t + bonusAmounts[j]
  /-- Records of addresses outside the list are untouched. -/
  frame : ∀ x, x ∉ stakers → stakes' x = stakes x
  /-- The notification's `total_rewards` is the sum of the balance changes over
  all addresses. -/
  total : ∀ ev ∈ events, ∃ recipients, ev = ⟨(contractTopic, topicBatch), .batchReward
    ⟨recipients, ∑ x ∈ stakers.toFinset, (balanceOf stakes' x - balanceOf stakes x), now⟩⟩

/-- **Batch reconciliation.** Every completed `distribute_rewards`, whatever
`compute_reward` returns, for every list with repeated stakers or negative
bonuses, is `Reconciled`. -/
theorem distributeRewards_reconciles
    (h : distributeRewards computeReward env s admin stakers bonusAmounts = .ok (s', r)) :
    ∃ config, s.config = some config ∧
      Reconciled computeReward config.rewardRate env.timestamp s.stakes stakers bonusAmounts
        s'.stakes r.events := by
  obtain ⟨config, acc, -, same, -, hconfig, -, hloop, rfl, -, events⟩ := distributeRewards_spec h
  have zipLength : (stakers.zip bonusAmounts).length = stakers.length := by
    simp [List.length_zip, same]
  refine ⟨config, hconfig, fun j hj hb => ?_, ?_, fun x hx => ?_, ?_⟩
  · obtain ⟨before, after, hbefore, hafter, hstep⟩ :=
      distributeLoop_position hloop (zipLength ▸ hj)
    simp only [List.getElem_zip] at hstep
    obtain ⟨t, ht, -, ⟨nonpos, rfl⟩ | ⟨pos, -, -, _, -, rfl⟩⟩ := settle_spec hstep
    · exact ⟨_, _, t, hbefore, hafter, ht, .inr ⟨nonpos, rfl⟩⟩
    · exact ⟨_, _, t, hbefore, hafter, ht, .inl ⟨pos, rfl⟩⟩
  · have counts := distributeLoop_counts hloop
    simp only [List.getElem_zip] at counts
    rcases events with ⟨none, hnone⟩ | ⟨some, -, hsome⟩
    · simp only [hnone, ne_eq, not_true_eq_false, false_iff]
      rintro ⟨j, hj, hb, before, t, hbefore, ht, pos⟩
      have := counts.mpr ⟨j, zipLength ▸ hj, before, hbefore, t, ht, pos⟩
      simp [none] at this
    · simp only [hsome, ne_eq, List.cons_ne_nil, not_false_eq_true, true_iff]
      obtain ⟨j, hj, before, hbefore, t, ht, pos⟩ := counts.mp (by simpa using some)
      exact ⟨j, zipLength ▸ hj, same ▸ zipLength ▸ hj, before, t, hbefore, ht, pos⟩
  · exact distributeLoop_frame hloop (by rwa [List.map_fst_zip _ _ (Nat.le_of_eq same)])
  · have total := distributeLoop_reconciles hloop (D := stakers.toFinset) fun p mem =>
      List.mem_toFinset.mpr (List.of_mem_zip mem).1
    rcases events with ⟨-, hnone⟩ | ⟨-, -, hsome⟩
    · simp [hnone]
    · simp only [hsome, List.mem_singleton]
      rintro ev rfl
      exact ⟨acc.recipients, by simpa using total⟩

/-- One staker twice with bonus 5 each: the second iteration reads the record
the first wrote. -/
theorem distributeRewards_reconciles_repeated :
    let env : Env := ⟨31536000, fun _ => true, fun _ => true, ⟨0⟩⟩
    let s : Store := ⟨some ⟨⟨9⟩, 10000, ⟨7⟩⟩,
      Function.update (fun _ => none) ⟨1⟩ (some ⟨10000, 0⟩)⟩
    ∃ s' r, distributeRewards StakingContract.computeReward env s ⟨9⟩ [⟨1⟩, ⟨1⟩] [5, 5] =
        .ok (s', r) ∧
      ∃ config, s.config = some config ∧
        Reconciled StakingContract.computeReward config.rewardRate env.timestamp s.stakes
          [⟨1⟩, ⟨1⟩] [5, 5] s'.stakes r.events :=
  ⟨_, _, rfl, distributeRewards_reconciles (show distributeRewards _ _ _ ⟨9⟩ _ _ = _ from rfl)⟩

/-- A negative bonus credits less than the time reward the iteration computed,
and still resets `staked_at`: a year's reward of 10000 on a balance of 10000
becomes a credit of 9999 counted from `now`, so one token of accrued reward is
lost. -/
theorem distributeRewards_negative_bonus_forfeits :
    let env : Env := ⟨31536000, fun _ => true, fun _ => true, ⟨0⟩⟩
    let s : Store := ⟨some ⟨⟨9⟩, 10000, ⟨7⟩⟩,
      Function.update (fun _ => none) ⟨1⟩ (some ⟨10000, 0⟩)⟩
    timeReward StakingContract.computeReward 10000 env.timestamp (readEntry s.stakes ⟨1⟩) =
        .ok 10000 ∧
      ∃ s' r, distributeRewards StakingContract.computeReward env s ⟨9⟩ [⟨1⟩] [-1] = .ok (s', r) ∧
        readEntry s'.stakes ⟨1⟩ = ⟨19999, 31536000⟩ :=
  ⟨rfl, _, _, rfl, rfl⟩

end Call

end StellarSpend.BatchRewards
