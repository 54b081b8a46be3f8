import StellarSpend.BatchRewards.Loop

/-!
# Splitting, reordering and replaying a batch

The loop of `distribute_rewards` is sequential, and its running total and count
feed only their own overflow checks. Every credited amount is positive and both
start at zero, so the contract's records do not depend on how a batch is cut:

* `distributeLoop_unshift`, `distributeLoop_shift` — a loop run from running
  totals raised by `T ≥ 0` and `n` writes the same records as the run from the
  lower ones, and succeeds exactly when that run does and its raised totals pass
  their checks;
* `distributeRewards_split` — `distribute_rewards` over `L₁ ++ L₂` succeeds
  exactly when it succeeds over `L₁` and then over `L₂` on the result, with the
  two totals together within `i128` and the two counts within `u32`; it then
  leaves the records the two calls leave, and its notification reports the sum
  of theirs;
* `distributeLoop_perm`, `distributeRewards_perm` — without a repeated staker,
  every reordering of the `(staker, bonus)` pairs gives the same records and
  notification, and, when `compute_reward` never aborts, the same panic: every
  other panic of the loop is an overflow (`OnlyOverflows`);
* `distributeRewards_replay` — a reward-only batch over addresses that the
  previous reward-only batch covered at the same ledger time credits nothing
  and publishes nothing.
-/

namespace StellarSpend.BatchRewards

/-- What a list of notifications reports of batch runs: the recipients and the
totals of its batch notifications, summed. -/
def batchReport : List ContractEvent → Nat × Int
  | [] => (0, 0)
  | ⟨_, .batchReward data⟩ :: rest => (data.recipients.toNat, data.totalRewards) + batchReport rest
  | _ :: rest => batchReport rest

/-- `a` is the loop state `b` with the same records, its running total raised
by `T` and its count by `n`. -/
def Shifted (T : Int) (n : Nat) (b a : Acc) : Prop :=
  a.stakes = b.stakes ∧ a.totalRewards = T + b.totalRewards ∧
    a.recipients.toNat = n + b.recipients.toNat

theorem Acc.ext_toNat {a b : Acc} (stakes : a.stakes = b.stakes)
    (total : a.totalRewards = b.totalRewards) (count : a.recipients.toNat = b.recipients.toNat) :
    a = b := by
  cases a; cases b
  cases stakes; cases total; cases UInt32.toNat.inj count; rfl

theorem shifted_zero (a : Acc) :
    Shifted a.totalRewards a.recipients.toNat ⟨a.stakes, 0, 0⟩ a :=
  ⟨rfl, (Int.add_zero _).symm, rfl⟩

section Loop

variable {computeReward : Int → UInt64 → UInt64 → UInt32 → Except String Int}
  {rate : UInt32} {now : UInt64} {acc acc' : Acc} {pairs : List (Address × Int)}

/-! ### The running totals -/

theorem settle_mono {staker : Address} {bonus : Int}
    (h : settle computeReward rate now acc staker bonus = .ok acc') :
    acc.totalRewards ≤ acc'.totalRewards ∧ acc.recipients.toNat ≤ acc'.recipients.toNat := by
  have := settle_count h
  omega

theorem distributeLoop_mono (h : distributeLoop computeReward rate now acc pairs = .ok acc') :
    acc.totalRewards ≤ acc'.totalRewards ∧ acc.recipients.toNat ≤ acc'.recipients.toNat := by
  have := distributeLoop_count h
  omega

/-- From zero, the total is at least the count: every credit is positive. -/
theorem distributeLoop_count_le_total {st : Address → Option StakeEntry}
    (h : distributeLoop computeReward rate now ⟨st, 0, 0⟩ pairs = .ok acc') :
    (acc'.recipients.toNat : Int) ≤ acc'.totalRewards := by
  simpa using (distributeLoop_count h).2

/-- The total stays an `i128`: every credit checked it. -/
theorem distributeLoop_inRange (h : distributeLoop computeReward rate now acc pairs = .ok acc')
    (fits : I128.inRange acc.totalRewards) : I128.inRange acc'.totalRewards :=
  distributeLoop_invariant (fun a b => I128.inRange a.totalRewards → I128.inRange b.totalRewards)
    (fun _ => id) (fun _ _ _ ab bc => bc ∘ ab)
    (fun _ _ _ _ _ hs fa => by
      obtain ⟨t, -, -, ⟨-, rfl⟩ | ⟨-, -, total, _, -, rfl⟩⟩ := settle_spec hs
      exacts [fa, total])
    h fits

/-- A run that counts nothing credits nothing. -/
theorem distributeLoop_idle (h : distributeLoop computeReward rate now acc pairs = .ok acc')
    (same : acc'.recipients = acc.recipients) : acc'.totalRewards = acc.totalRewards :=
  (distributeLoop_invariant
    (fun a b => a.recipients.toNat ≤ b.recipients.toNat ∧
      (b.recipients.toNat = a.recipients.toNat → b.totalRewards = a.totalRewards))
    (fun _ => ⟨Nat.le_refl _, fun _ => rfl⟩)
    (fun _ _ _ ab bc =>
      ⟨Nat.le_trans ab.1 bc.1, fun e => (bc.2 (by omega)).trans (ab.2 (by omega))⟩)
    (fun _ _ _ _ _ hs => by
      obtain ⟨t, -, -, ⟨-, rfl⟩ | ⟨-, -, -, _, count, rfl⟩⟩ := settle_spec hs
      · exact ⟨Nat.le_refl _, fun _ => rfl⟩
      · exact ⟨by simp only [count]; omega, fun e => by simp only [count] at e; omega⟩)
    h).2 (congrArg UInt32.toNat same)

/-! ### Shifting the running totals -/

section Shift

variable {T : Int} {n : Nat} {a a' b b' : Acc} {staker : Address} {bonus : Int}

/-- An iteration from the raised state is the iteration from the lower one,
raised. -/
theorem settle_unshift (shifted : Shifted T n b a) (nonneg : 0 ≤ T) (hb : 0 ≤ b.totalRewards)
    (h : settle computeReward rate now a staker bonus = .ok a') :
    ∃ b', settle computeReward rate now b staker bonus = .ok b' ∧ Shifted T n b' a' := by
  obtain ⟨stakes, total, count⟩ := shifted
  obtain ⟨t, ht, fits, ⟨skip, rfl⟩ | ⟨pos, balance, fitsA, r, hr, rfl⟩⟩ := settle_spec h
  · rw [stakes] at ht
    exact ⟨b, settle_of_skip ht fits skip, stakes, total, count⟩
  · rw [stakes] at ht balance
    have fitsB : I128.inRange (b.totalRewards + (t + bonus)) := by
      unfold I128.inRange at fitsA ⊢; omega
    have countB : b.recipients.toNat + 1 < 2 ^ 32 := by
      have := u32_toNat_lt r; omega
    refine ⟨_, settle_of_credit ht fits pos balance fitsB countB, by rw [stakes], ?_, ?_⟩
    · show a.totalRewards + (t + bonus) = T + (b.totalRewards + (t + bonus))
      omega
    · show r.toNat = n + (b.recipients + 1).toNat
      rw [hr, u32_toNat_succ countB]
      omega

/-- An iteration from the lower state whose raised totals pass their checks is,
raised, the iteration from the raised state. -/
theorem settle_shift (shifted : Shifted T n b a)
    (h : settle computeReward rate now b staker bonus = .ok b')
    (fits : I128.inRange (T + b'.totalRewards)) (count : n + b'.recipients.toNat < 2 ^ 32) :
    ∃ a', settle computeReward rate now a staker bonus = .ok a' ∧ Shifted T n b' a' := by
  obtain ⟨stakes, total, hcount⟩ := shifted
  obtain ⟨t, ht, fitsT, ⟨skip, rfl⟩ | ⟨pos, balance, -, r, hr, rfl⟩⟩ := settle_spec h
  · rw [← stakes] at ht
    exact ⟨a, settle_of_skip ht fitsT skip, stakes, total, hcount⟩
  · rw [← stakes] at ht balance
    have fitsA : I128.inRange (a.totalRewards + (t + bonus)) := by
      rw [total, Int.add_assoc]; exact fits
    have countA : a.recipients.toNat + 1 < 2 ^ 32 := by
      change n + r.toNat < 2 ^ 32 at count
      omega
    refine ⟨_, settle_of_credit ht fitsT pos balance fitsA countA, by rw [stakes], ?_, ?_⟩
    · show a.totalRewards + (t + bonus) = T + (b.totalRewards + (t + bonus))
      omega
    · show (a.recipients + 1).toNat = n + r.toNat
      rw [hr, u32_toNat_succ countA]
      omega

/-- **Shifted runs, down.** A loop run from a state raised by `T ≥ 0` writes
the records of the run from the lower state, and its totals are that run's,
raised. -/
theorem distributeLoop_unshift (shifted : Shifted T n b a) (nonneg : 0 ≤ T)
    (hb : 0 ≤ b.totalRewards) (h : distributeLoop computeReward rate now a pairs = .ok a') :
    ∃ b', distributeLoop computeReward rate now b pairs = .ok b' ∧ Shifted T n b' a' := by
  induction pairs generalizing a b with
  | nil => cases h; exact ⟨b, rfl, shifted⟩
  | cons p rest ih =>
      obtain ⟨staker, bonus⟩ := p
      obtain ⟨a₁, ha₁, hrest⟩ := bind_eq_ok.mp h
      obtain ⟨b₁, hb₁, shifted₁⟩ := settle_unshift shifted nonneg hb ha₁
      obtain ⟨b', hb', shifted'⟩ := ih shifted₁ (hb.trans (settle_mono hb₁).1) hrest
      exact ⟨b', by rw [distributeLoop_cons, hb₁, ok_bind]; exact hb', shifted'⟩

/-- **Shifted runs, up.** A loop run from the lower state whose raised totals
pass their checks is, raised, the run from the raised state. -/
theorem distributeLoop_shift (shifted : Shifted T n b a) (nonneg : 0 ≤ T)
    (hb : 0 ≤ b.totalRewards) (h : distributeLoop computeReward rate now b pairs = .ok b')
    (fits : I128.inRange (T + b'.totalRewards)) (count : n + b'.recipients.toNat < 2 ^ 32) :
    ∃ a', distributeLoop computeReward rate now a pairs = .ok a' ∧ Shifted T n b' a' := by
  induction pairs generalizing a b with
  | nil => cases h; exact ⟨a, rfl, shifted⟩
  | cons p rest ih =>
      obtain ⟨staker, bonus⟩ := p
      obtain ⟨b₁, hb₁, hrest⟩ := bind_eq_ok.mp h
      have step := (settle_mono hb₁).1
      have later := distributeLoop_mono hrest
      obtain ⟨a₁, ha₁, shifted₁⟩ := settle_shift shifted hb₁
        (by unfold I128.inRange at fits ⊢; omega) (by omega)
      obtain ⟨a', ha', shifted'⟩ := ih shifted₁ (hb.trans step) hrest
      exact ⟨a', by rw [distributeLoop_cons, ha₁, ok_bind]; exact ha', shifted'⟩

end Shift

/-! ### Reordering a batch -/

section Reorder

variable {b c : Acc} {x y : Address} {bonusX bonusY : Int}

/-- Two iterations at distinct stakers, from a non-negative total, can be
exchanged. -/
theorem settle_swap (ne : x ≠ y) (nonneg : 0 ≤ acc.totalRewards)
    (hx : settle computeReward rate now acc x bonusX = .ok b)
    (hy : settle computeReward rate now b y bonusY = .ok c) :
    ∃ b', settle computeReward rate now acc y bonusY = .ok b' ∧
      settle computeReward rate now b' x bonusX = .ok c := by
  obtain ⟨tx, htx, fitsX, ⟨skipX, rfl⟩ | ⟨posX, balX, totX, rx, hrx, rfl⟩⟩ := settle_spec hx
  · have read : readEntry c.stakes x = readEntry b.stakes x := by
      simp only [readEntry, settle_frame hy ne]
    exact ⟨c, hy, settle_of_skip (read ▸ htx) fitsX skipX⟩
  · have readY : ∀ e, readEntry (Function.update acc.stakes x e) y = readEntry acc.stakes y :=
      fun e => readEntry_update_of_ne e ne.symm
    have readX : ∀ e, readEntry (Function.update acc.stakes y e) x = readEntry acc.stakes x :=
      fun e => readEntry_update_of_ne e ne
    obtain ⟨ty, hty, fitsY, ⟨skipY, rfl⟩ | ⟨posY, balY, totY, ry, hry, rfl⟩⟩ := settle_spec hy
    · simp only [readY] at hty
      exact ⟨acc, settle_of_skip hty fitsY skipY, hx⟩
    · simp only [readY] at hty balY totY hry
      have countY : acc.recipients.toNat + 1 < 2 ^ 32 := by have := u32_toNat_lt ry; omega
      have totalY : I128.inRange (acc.totalRewards + (ty + bonusY)) := by
        unfold I128.inRange at totX totY ⊢; omega
      refine ⟨_, settle_of_credit hty fitsY posY balY totalY countY, ?_⟩
      have countX : (acc.recipients + 1).toNat + 1 < 2 ^ 32 := by
        rw [u32_toNat_succ countY]; have := u32_toNat_lt ry; omega
      rw [settle_of_credit (by simpa only [readX] using htx) fitsX posX (by simpa only [readX] using balX)
        (by rw [Int.add_right_comm]; exact totY) (by exact countX)]
      refine congrArg Except.ok (Acc.ext_toNat ?_ (by simp only; omega) ?_)
      · simp only [readX, readY]
        exact Function.update_comm ne.symm _ _ _
      · simp only
        rw [hry, hrx, u32_toNat_succ countX, u32_toNat_succ countY]

/-- **Reordering the loop.** Without a repeated staker, from a non-negative
total, a loop run over any permutation of the pairs ends in the same state. -/
theorem distributeLoop_perm {pairs' : List (Address × Int)} (perm : pairs.Perm pairs')
    (distinct : (pairs.map Prod.fst).Nodup) (nonneg : 0 ≤ acc.totalRewards)
    (h : distributeLoop computeReward rate now acc pairs = .ok acc') :
    distributeLoop computeReward rate now acc pairs' = .ok acc' := by
  induction perm generalizing acc with
  | nil => exact h
  | cons p _ ih =>
      obtain ⟨mid, hmid, hrest⟩ := bind_eq_ok.mp h
      rw [List.map_cons, List.nodup_cons] at distinct
      rw [distributeLoop, hmid, ok_bind]
      exact ih distinct.2 (nonneg.trans (settle_mono hmid).1) hrest
  | swap p q l =>
      obtain ⟨b, hb, h⟩ := bind_eq_ok.mp h
      obtain ⟨c, hc, hrest⟩ := bind_eq_ok.mp h
      have ne : q.1 ≠ p.1 := by
        simp only [List.map_cons, List.nodup_cons, List.mem_cons, not_or] at distinct
        exact distinct.1.1
      obtain ⟨b', hb', hc'⟩ := settle_swap ne nonneg hb hc
      rw [distributeLoop, hb', ok_bind, distributeLoop, hc', ok_bind]
      exact hrest
  | trans p₁₂ _ ih₁₂ ih₂₃ =>
      exact ih₂₃ ((p₁₂.map Prod.fst).nodup_iff.mp distinct) nonneg (ih₁₂ distinct nonneg h)

/-- `x` can panic only on an addition that overflows. -/
def OnlyOverflows {α : Type} (x : Except String α) : Prop :=
  ∀ e, x = .error e → e = "attempt to add with overflow"

theorem OnlyOverflows.bind {α β : Type} {x : Except String α} {f : α → Except String β}
    (hx : OnlyOverflows x) (hf : ∀ a, OnlyOverflows (f a)) : OnlyOverflows (x >>= f) := by
  cases x with
  | error e => exact fun e' h => by cases h; exact hx e rfl
  | ok a => exact hf a

theorem onlyOverflows_pure {α : Type} (a : α) : OnlyOverflows (pure a : Except String α) :=
  fun _ h => by cases h

theorem onlyOverflows_i128Add (a b : Int) : OnlyOverflows (i128Add a b) := by
  unfold i128Add; split
  · exact onlyOverflows_pure _
  · exact fun _ h => by cases h; rfl

theorem onlyOverflows_u32Add (a b : UInt32) : OnlyOverflows (u32Add a b) := by
  unfold u32Add; split
  · exact onlyOverflows_pure _
  · exact fun _ h => by cases h; rfl

section Total

variable (total : ∀ b stakedAt now rate, ∃ v, computeReward b stakedAt now rate = .ok v)
include total

/-- When `compute_reward` never aborts, an iteration panics only on an overflow. -/
theorem settle_onlyOverflows (acc : Acc) (staker : Address) (bonus : Int) :
    OnlyOverflows (settle computeReward rate now acc staker bonus) := by
  obtain ⟨t, ht⟩ : ∃ t, timeReward computeReward rate now (readEntry acc.stakes staker) = .ok t := by
    unfold timeReward; split
    exacts [total _ _ _ _, ⟨0, rfl⟩]
  refine .bind ?_ fun d => ?_
  · unfold userReward; split
    · exact onlyOverflows_pure _
    · rw [ht]
      exact .bind (onlyOverflows_pure _) fun _ => .bind (onlyOverflows_i128Add _ _) fun _ =>
        onlyOverflows_pure _
  · cases d with
    | none => exact onlyOverflows_pure _
    | some v =>
        exact .bind (onlyOverflows_i128Add _ _) fun _ => .bind (onlyOverflows_i128Add _ _) fun _ =>
          .bind (onlyOverflows_u32Add _ _) fun _ => onlyOverflows_pure _

/-- When `compute_reward` never aborts, the loop panics only on an overflow. -/
theorem distributeLoop_onlyOverflows (acc : Acc) (pairs : List (Address × Int)) :
    OnlyOverflows (distributeLoop computeReward rate now acc pairs) := by
  induction pairs generalizing acc with
  | nil => exact onlyOverflows_pure _
  | cons p rest ih => exact .bind (settle_onlyOverflows total _ _ _) ih

/-- **Reordering the loop, panics included.** When `compute_reward` never
aborts, without a repeated staker and from a non-negative total, a loop run
over any permutation of the pairs returns exactly what it returns over the
pairs: the same state, or the same panic. -/
theorem distributeLoop_perm_eq {pairs' : List (Address × Int)} (perm : pairs.Perm pairs')
    (distinct : (pairs.map Prod.fst).Nodup) (nonneg : 0 ≤ acc.totalRewards) :
    distributeLoop computeReward rate now acc pairs' = distributeLoop computeReward rate now acc pairs := by
  cases h : distributeLoop computeReward rate now acc pairs with
  | ok acc' => exact distributeLoop_perm perm distinct nonneg h
  | error e =>
      cases h' : distributeLoop computeReward rate now acc pairs' with
      | ok acc' =>
          rw [distributeLoop_perm perm.symm ((perm.map Prod.fst).nodup_iff.mp distinct) nonneg h'] at h
          cases h
      | error e' =>
          rw [distributeLoop_onlyOverflows total _ _ _ h, distributeLoop_onlyOverflows total _ _ _ h']

end Total

end Reorder

/-! ### Replaying a reward-only batch -/

section Replay

/-- The record of `x` is one that a reward-only iteration leaves as it is: its
time reward is an `i128` and not positive. -/
def Quiet (computeReward : Int → UInt64 → UInt64 → UInt32 → Except String Int) (rate : UInt32)
    (now : UInt64) (stakes : Address → Option StakeEntry) (x : Address) : Prop :=
  ∃ t, timeReward computeReward rate now (readEntry stakes x) = .ok t ∧ I128.inRange t ∧ t ≤ 0

variable (empty : ∀ b, 0 < b → computeReward b now now rate = .ok 0)
include empty

/-- When `compute_reward` is zero over an empty window, a reward-only iteration
leaves its staker's record quiet, and keeps every quiet record quiet. -/
theorem settle_quiet {staker : Address} (h : settle computeReward rate now acc staker 0 = .ok acc') :
    Quiet computeReward rate now acc'.stakes staker ∧
      ∀ x, Quiet computeReward rate now acc.stakes x → Quiet computeReward rate now acc'.stakes x := by
  obtain ⟨t, ht, fits, ⟨skip, rfl⟩ | ⟨pos, -, -, _, -, rfl⟩⟩ := settle_spec h
  · exact ⟨⟨t, ht, by simpa using fits, by omega⟩, fun _ => id⟩
  · have after : Quiet computeReward rate now (Function.update acc.stakes staker
        (some ⟨(readEntry acc.stakes staker).balance + (t + 0), now⟩)) staker :=
      ⟨0, by simp [timeReward]; exact empty _, by simp [I128.inRange], Int.le_refl 0⟩
    refine ⟨after, fun x quiet => ?_⟩
    by_cases hx : x = staker
    · subst hx; exact after
    · simpa only [Quiet, readEntry_update_of_ne _ hx] using quiet

/-- A reward-only loop run leaves every record it visits quiet, and keeps every
quiet record quiet. -/
theorem distributeLoop_quiet (h : distributeLoop computeReward rate now acc pairs = .ok acc')
    (zero : ∀ p ∈ pairs, p.2 = 0) :
    (∀ x ∈ pairs.map Prod.fst, Quiet computeReward rate now acc'.stakes x) ∧
      ∀ x, Quiet computeReward rate now acc.stakes x → Quiet computeReward rate now acc'.stakes x := by
  induction pairs generalizing acc with
  | nil => cases h; exact ⟨fun _ mem => absurd mem (by simp), fun _ => id⟩
  | cons p rest ih =>
      obtain ⟨staker, bonus⟩ := p
      obtain ⟨mid, hmid, hrest⟩ := bind_eq_ok.mp h
      obtain rfl : bonus = 0 := zero _ (List.mem_cons_self _ _)
      obtain ⟨here, keep⟩ := settle_quiet empty hmid
      obtain ⟨later, keep'⟩ := ih hrest fun p mem => zero p (List.mem_cons_of_mem _ mem)
      refine ⟨fun x mem => ?_, fun x quiet => keep' x (keep x quiet)⟩
      rcases List.mem_cons.mp mem with rfl | mem
      exacts [keep' _ here, later x mem]

omit empty in
/-- A reward-only loop run over quiet records changes nothing. -/
theorem distributeLoop_of_quiet
    (quiet : ∀ p ∈ pairs, p.2 = 0 ∧ Quiet computeReward rate now acc.stakes p.1) :
    distributeLoop computeReward rate now acc pairs = .ok acc := by
  induction pairs with
  | nil => rfl
  | cons p rest ih =>
      obtain ⟨staker, bonus⟩ := p
      obtain ⟨rfl, t, ht, fits, nonpos⟩ := quiet _ (List.mem_cons_self _ _)
      rw [distributeLoop_cons, settle_of_skip ht (by simpa using fits) (by simpa using nonpos),
        ok_bind]
      exact ih fun q mem => quiet q (List.mem_cons_of_mem _ mem)

end Replay

end Loop

/-! ### Splitting a batch -/

section Split

variable {computeReward : Int → UInt64 → UInt64 → UInt32 → Except String Int}
  {env : Env} {s s' : Store} {admin : Address} {r : Receipt Unit ContractEvent}

/-- A completed call reports its loop's count and total, and stores its
records. -/
theorem distributeRewards_result {stakers : List Address} {bonusAmounts : List Int}
    (h : distributeRewards computeReward env s admin stakers bonusAmounts = .ok (s', r))
    {config : Config} {acc : Acc} (hconfig : s.config = some config)
    (hloop : distributeLoop computeReward config.rewardRate env.timestamp ⟨s.stakes, 0, 0⟩
      (stakers.zip bonusAmounts) = .ok acc) :
    s' = ⟨s.config, acc.stakes⟩ ∧ batchReport r.events = (acc.recipients.toNat, acc.totalRewards) := by
  obtain ⟨config', acc', -, -, -, hconfig', -, hloop', rfl, -, events⟩ := distributeRewards_spec h
  cases hconfig.symm.trans hconfig'
  cases hloop.symm.trans hloop'
  refine ⟨rfl, ?_⟩
  rcases events with ⟨none, hnone⟩ | ⟨-, -, hsome⟩
  · have idle := distributeLoop_idle hloop (by rw [none])
    simp only [hnone, batchReport, none, idle, UInt32.toNat_zero]
  · simp [hsome, batchReport]

variable {stakers₁ stakers₂ : List Address} {bonus₁ bonus₂ : List Int}

/-- A completed call over `L₁ ++ L₂` is its loop over `L₁` from the stored
records, then its loop over `L₂` from what that wrote, with both totals
together within `i128` and both counts within `u32`. -/
theorem distributeRewards_append_spec (same₁ : stakers₁.length = bonus₁.length)
    (h : distributeRewards computeReward env s admin (stakers₁ ++ stakers₂) (bonus₁ ++ bonus₂) =
      .ok (s', r)) :
    ∃ config a₁ b₂, env.authorizes admin = true ∧ stakers₂.length = bonus₂.length ∧
      s.config = some config ∧ config.admin = admin ∧
      distributeLoop computeReward config.rewardRate env.timestamp ⟨s.stakes, 0, 0⟩
        (stakers₁.zip bonus₁) = .ok a₁ ∧
      distributeLoop computeReward config.rewardRate env.timestamp ⟨a₁.stakes, 0, 0⟩
        (stakers₂.zip bonus₂) = .ok b₂ ∧
      s' = ⟨s.config, b₂.stakes⟩ ∧
      batchReport r.events = (a₁.recipients.toNat + b₂.recipients.toNat,
        a₁.totalRewards + b₂.totalRewards) ∧
      I128.inRange (a₁.totalRewards + b₂.totalRewards) ∧
      a₁.recipients.toNat + b₂.recipients.toNat < 2 ^ 32 := by
  obtain ⟨config, acc, auth, same, -, hconfig, hadmin, hloop, -, -, -⟩ := distributeRewards_spec h
  have result := distributeRewards_result h hconfig hloop
  rw [List.zip_append same₁, distributeLoop_append] at hloop
  obtain ⟨a₁, h₁, h₂⟩ := bind_eq_ok.mp hloop
  have first := distributeLoop_count_le_total h₁
  obtain ⟨b₂, hb₂, stakes, total, count⟩ :=
    distributeLoop_unshift (shifted_zero a₁) (by omega) (Int.le_refl 0) h₂
  have fits : I128.inRange acc.totalRewards :=
    distributeLoop_inRange (List.zip_append same₁ ▸ distributeLoop_append _ _ _ ▸ hloop)
      (by simp [I128.inRange])
  refine ⟨config, a₁, b₂, auth, ?_, hconfig, hadmin, h₁, hb₂, ?_, ?_, total ▸ fits,
    count ▸ u32_toNat_lt _⟩
  · simp only [List.length_append, same₁] at same; omega
  · rw [result.1, stakes]
  · rw [result.2, total, count]

/-- **Splitting a batch.** For a first part with as many bonuses as stakers and
two non-empty parts, `distribute_rewards` over the concatenated lists succeeds
exactly when it succeeds over the first part and then over the second part on
the resulting store, with the two reported totals together within `i128` and
the two reported counts within `u32`. The concatenated call then leaves the
store the two calls leave, and reports the sum of what they report. -/
theorem distributeRewards_split (same₁ : stakers₁.length = bonus₁.length)
    (nonempty₁ : stakers₁ ≠ []) (nonempty₂ : stakers₂ ≠ []) :
    ((∃ out, distributeRewards computeReward env s admin (stakers₁ ++ stakers₂)
        (bonus₁ ++ bonus₂) = .ok out) ↔
      ∃ s₁ r₁ s₂ r₂, distributeRewards computeReward env s admin stakers₁ bonus₁ = .ok (s₁, r₁) ∧
        distributeRewards computeReward env s₁ admin stakers₂ bonus₂ = .ok (s₂, r₂) ∧
        I128.inRange ((batchReport r₁.events).2 + (batchReport r₂.events).2) ∧
        (batchReport r₁.events).1 + (batchReport r₂.events).1 < 2 ^ 32) ∧
    ∀ s' r s₁ r₁ s₂ r₂,
      distributeRewards computeReward env s admin (stakers₁ ++ stakers₂) (bonus₁ ++ bonus₂) =
        .ok (s', r) →
      distributeRewards computeReward env s admin stakers₁ bonus₁ = .ok (s₁, r₁) →
      distributeRewards computeReward env s₁ admin stakers₂ bonus₂ = .ok (s₂, r₂) →
      s' = s₂ ∧ batchReport r.events = batchReport r₁.events + batchReport r₂.events := by
  refine ⟨⟨fun ⟨⟨s', r⟩, h⟩ => ?_, fun ⟨s₁, r₁, s₂, r₂, h₁, h₂, fits, count⟩ => ?_⟩,
    fun s' r s₁ r₁ s₂ r₂ h h₁ h₂ => ?_⟩
  · obtain ⟨config, a₁, b₂, auth, same₂, hconfig, hadmin, hl₁, hl₂, -, -, fits, count⟩ :=
      distributeRewards_append_spec same₁ h
    have funded : ∀ {a : Acc} {st pairs}, distributeLoop computeReward config.rewardRate
        env.timestamp ⟨st, 0, 0⟩ pairs = .ok a → 0 < a.recipients.toNat → 0 < a.totalRewards :=
      fun hl pos => by have := distributeLoop_count_le_total hl; omega
    have part₁ := distributeRewards_of_checks auth same₁ nonempty₁ hconfig hadmin hl₁ (funded hl₁)
    have part₂ : distributeRewards computeReward env ⟨s.config, a₁.stakes⟩ admin stakers₂ bonus₂ =
        _ := distributeRewards_of_checks auth same₂ nonempty₂ hconfig hadmin hl₂ (funded hl₂)
    refine ⟨_, _, _, _, part₁, part₂, ?_⟩
    rw [(distributeRewards_result part₁ hconfig hl₁).2,
      (distributeRewards_result (s := ⟨s.config, a₁.stakes⟩) part₂ hconfig hl₂).2]
    exact ⟨fits, count⟩
  · obtain ⟨config, a₁, auth, -, -, hconfig, hadmin, hl₁, rfl, -, -⟩ := distributeRewards_spec h₁
    obtain ⟨config₂, b₂, -, same₂, -, hconfig₂, -, hl₂, rfl, -, -⟩ := distributeRewards_spec h₂
    cases hconfig.symm.trans hconfig₂
    rw [(distributeRewards_result h₁ hconfig hl₁).2, (distributeRewards_result h₂ hconfig hl₂).2]
      at fits count
    have first := distributeLoop_count_le_total hl₁
    obtain ⟨a', ha', -⟩ :=
      distributeLoop_shift (shifted_zero a₁) (by omega) (Int.le_refl 0) hl₂ fits count
    have hloop : distributeLoop computeReward config.rewardRate env.timestamp ⟨s.stakes, 0, 0⟩
        ((stakers₁ ++ stakers₂).zip (bonus₁ ++ bonus₂)) = .ok a' := by
      rw [List.zip_append same₁, distributeLoop_append, hl₁, ok_bind]; exact ha'
    exact ⟨_, distributeRewards_of_checks auth (by simp [same₁, same₂]) (by simp [nonempty₁])
      hconfig hadmin hloop fun pos => by have := distributeLoop_count_le_total hloop; omega⟩
  · obtain ⟨config, a₁, b₂, -, -, hconfig, -, hl₁, hl₂, rfl, report, -, -⟩ :=
      distributeRewards_append_spec same₁ h
    obtain ⟨rfl, report₁⟩ := distributeRewards_result h₁ hconfig hl₁
    obtain ⟨rfl, report₂⟩ := distributeRewards_result h₂ hconfig hl₂
    exact ⟨rfl, by rw [report, report₁, report₂]; rfl⟩

/-- `[A] ++ [B, A]` with bonuses `[5] ++ [3, 0]`: the second part reads the
record the first part wrote. -/
theorem distributeRewards_split_repeated :
    let env : Env := ⟨31536000, fun _ => true, fun _ => true, ⟨0⟩⟩
    let s : Store := ⟨some ⟨⟨9⟩, 10000, ⟨7⟩⟩,
      Function.update (fun _ => none) ⟨1⟩ (some ⟨10000, 0⟩)⟩
    let stakers₁ : List Address := [⟨1⟩]
    let stakers₂ : List Address := [⟨2⟩, ⟨1⟩]
    let bonus₁ : List Int := [5]
    let bonus₂ : List Int := [3, 0]
    stakers₁.length = bonus₁.length ∧ stakers₁ ≠ [] ∧ stakers₂ ≠ [] ∧
    ((∃ out, distributeRewards StakingContract.computeReward env s ⟨9⟩ (stakers₁ ++ stakers₂)
        (bonus₁ ++ bonus₂) = .ok out) ↔
      ∃ s₁ r₁ s₂ r₂, distributeRewards StakingContract.computeReward env s ⟨9⟩ stakers₁ bonus₁ =
          .ok (s₁, r₁) ∧
        distributeRewards StakingContract.computeReward env s₁ ⟨9⟩ stakers₂ bonus₂ = .ok (s₂, r₂) ∧
        I128.inRange ((batchReport r₁.events).2 + (batchReport r₂.events).2) ∧
        (batchReport r₁.events).1 + (batchReport r₂.events).1 < 2 ^ 32) ∧
    ∀ s' r s₁ r₁ s₂ r₂,
      distributeRewards StakingContract.computeReward env s ⟨9⟩ (stakers₁ ++ stakers₂)
        (bonus₁ ++ bonus₂) = .ok (s', r) →
      distributeRewards StakingContract.computeReward env s ⟨9⟩ stakers₁ bonus₁ = .ok (s₁, r₁) →
      distributeRewards StakingContract.computeReward env s₁ ⟨9⟩ stakers₂ bonus₂ = .ok (s₂, r₂) →
      s' = s₂ ∧ batchReport r.events = batchReport r₁.events + batchReport r₂.events :=
  ⟨rfl, by decide, by decide, distributeRewards_split rfl (by decide) (by decide)⟩

end Split

/-! ### Reordering a batch -/

section Reorder

variable {computeReward : Int → UInt64 → UInt64 → UInt32 → Except String Int}
  {env : Env} {s : Store} {admin : Address} {pairs pairs' : List (Address × Int)}
  {out : Store × Receipt Unit ContractEvent}

theorem zip_map_fst_snd (l : List (Address × Int)) : (l.map Prod.fst).zip (l.map Prod.snd) = l := by
  simpa [List.unzip_eq_map] using List.zip_unzip l

theorem distributeRewards_reorder (perm : pairs.Perm pairs') (distinct : (pairs.map Prod.fst).Nodup)
    (h : distributeRewards computeReward env s admin (pairs.map Prod.fst) (pairs.map Prod.snd) =
      .ok out) :
    distributeRewards computeReward env s admin (pairs'.map Prod.fst) (pairs'.map Prod.snd) =
      .ok out := by
  obtain ⟨config, acc, auth, same, nonempty, hconfig, hadmin, hloop, -, -, -⟩ :=
    distributeRewards_spec h
  rw [zip_map_fst_snd] at hloop
  have funded : 0 < acc.recipients.toNat → 0 < acc.totalRewards := fun pos => by
    have := distributeLoop_count_le_total hloop; omega
  have hloop' := distributeLoop_perm perm distinct (Int.le_refl 0) hloop
  rw [← zip_map_fst_snd pairs] at hloop
  rw [← zip_map_fst_snd pairs'] at hloop'
  have nonempty' : pairs'.map Prod.fst ≠ [] := fun e =>
    nonempty (by rw [List.map_eq_nil_iff] at e ⊢; exact (e ▸ perm).eq_nil)
  rw [distributeRewards_of_checks auth same nonempty hconfig hadmin hloop funded] at h
  rw [distributeRewards_of_checks auth (by simp) nonempty' hconfig hadmin hloop' funded]
  exact h

/-- **Reordering a batch.** Without a repeated staker, `distribute_rewards` over
any reordering of the `(staker, bonus)` pairs completes exactly when it
completes over the pairs in their first order, with the same records and the
same notification. When `compute_reward` never aborts, it returns exactly the
same in both orders, panics included: every other panic of the call is an
overflow, or one of the checks before the loop, which the order does not
change. -/
theorem distributeRewards_perm (perm : pairs.Perm pairs') (distinct : (pairs.map Prod.fst).Nodup) :
    (∀ out, distributeRewards computeReward env s admin (pairs.map Prod.fst) (pairs.map Prod.snd) =
        .ok out ↔
      distributeRewards computeReward env s admin (pairs'.map Prod.fst) (pairs'.map Prod.snd) =
        .ok out) ∧
    ((∀ b stakedAt now rate, ∃ v, computeReward b stakedAt now rate = .ok v) →
      distributeRewards computeReward env s admin (pairs'.map Prod.fst) (pairs'.map Prod.snd) =
        distributeRewards computeReward env s admin (pairs.map Prod.fst) (pairs.map Prod.snd)) := by
  refine ⟨fun out => ⟨distributeRewards_reorder perm distinct,
    distributeRewards_reorder perm.symm ((perm.map Prod.fst).nodup_iff.mp distinct)⟩, fun total => ?_⟩
  have empty : pairs' = [] ↔ pairs = [] := by
    rw [← List.length_eq_zero, ← List.length_eq_zero, perm.length_eq]
  simp only [distributeRewards, List.length_map, ne_eq, List.map_eq_nil_iff, empty, zip_map_fst_snd,
    le_refl, distributeLoop_perm_eq total perm distinct, gt_iff_lt, pure_eq_ok]

/-- Two stakers, one with a bonus, in both orders, with the reward function of
the staking module, which never aborts: the two calls return the same. -/
theorem distributeRewards_perm_swapped :
    let env : Env := ⟨31536000, fun _ => true, fun _ => true, ⟨0⟩⟩
    let s : Store := ⟨some ⟨⟨9⟩, 10000, ⟨7⟩⟩, Function.update
      (Function.update (fun _ => none) ⟨1⟩ (some ⟨10000, 0⟩)) ⟨2⟩ (some ⟨5000, 0⟩)⟩
    let pairs : List (Address × Int) := [(⟨1⟩, 5), (⟨2⟩, 0)]
    let pairs' : List (Address × Int) := [(⟨2⟩, 0), (⟨1⟩, 5)]
    pairs.Perm pairs' ∧ (pairs.map Prod.fst).Nodup ∧
      distributeRewards StakingContract.computeReward env s ⟨9⟩ (pairs'.map Prod.fst)
          (pairs'.map Prod.snd) =
        distributeRewards StakingContract.computeReward env s ⟨9⟩ (pairs.map Prod.fst)
          (pairs.map Prod.snd) :=
  have perm : List.Perm [((⟨1⟩ : Address), (5 : Int)), (⟨2⟩, 0)] [(⟨2⟩, 0), (⟨1⟩, 5)] :=
    List.Perm.swap _ _ _
  have distinct : ([((⟨1⟩ : Address), (5 : Int)), (⟨2⟩, 0)].map Prod.fst).Nodup := by decide
  ⟨perm, distinct, (distributeRewards_perm perm distinct).2 fun _ _ _ _ => ⟨_, rfl⟩⟩

end Reorder

/-! ### Replaying a reward-only batch -/

section Replay

variable {computeReward : Int → UInt64 → UInt64 → UInt32 → Except String Int}
  {env env' : Env} {s s₁ : Store} {admin : Address} {stakers stakers' : List Address}
  {r₁ : Receipt Unit ContractEvent}

/-- **A replayed reward-only batch pays nothing.** If `compute_reward` is zero
over an empty window, then after a completed `distribute_rewards` with zero
bonuses, a second one at the same ledger time, with zero bonuses, over any
non-empty list of addresses the first one covered, succeeds, changes no record
and publishes no notification. -/
theorem distributeRewards_replay
    (empty : ∀ b rate, 0 < b → computeReward b env.timestamp env.timestamp rate = .ok 0)
    (h : distributeRewards computeReward env s admin stakers (List.replicate stakers.length 0) =
      .ok (s₁, r₁))
    (sameTime : env'.timestamp = env.timestamp) (auth : env'.authorizes admin = true)
    (covered : ∀ x ∈ stakers', x ∈ stakers) (nonempty : stakers' ≠ []) :
    distributeRewards computeReward env' s₁ admin stakers' (List.replicate stakers'.length 0) =
      .ok (s₁, ⟨(), [], []⟩) := by
  obtain ⟨config, acc, -, -, -, hconfig, hadmin, hloop, rfl, -, -⟩ := distributeRewards_spec h
  have zeros : ∀ {l : List Address} (p : Address × Int),
      p ∈ l.zip (List.replicate l.length 0) → p.1 ∈ l ∧ p.2 = 0 := fun _ mem =>
    ⟨(List.of_mem_zip mem).1, List.eq_of_mem_replicate (List.of_mem_zip mem).2⟩
  obtain ⟨quiet, -⟩ := distributeLoop_quiet (empty · config.rewardRate) hloop
    fun p mem => (zeros p mem).2
  rw [List.map_fst_zip _ _ (by simp)] at quiet
  have hloop' : distributeLoop computeReward config.rewardRate env'.timestamp ⟨acc.stakes, 0, 0⟩
      (stakers'.zip (List.replicate stakers'.length 0)) = .ok ⟨acc.stakes, 0, 0⟩ := by
    rw [sameTime]
    exact distributeLoop_of_quiet fun p mem =>
      ⟨(zeros p mem).2, quiet _ (covered _ (zeros p mem).1)⟩
  have replay : distributeRewards computeReward env' ⟨s.config, acc.stakes⟩ admin stakers'
      (List.replicate stakers'.length 0) = _ :=
    distributeRewards_of_checks auth (by simp) nonempty hconfig hadmin hloop' (by simp)
  rw [replay]
  rfl

/-- `[A, A]` with no bonuses at a year's accrued reward, then `[A]` at the same
ledger time. -/
theorem distributeRewards_replay_same_second :
    let env : Env := ⟨31536000, fun _ => true, fun _ => true, ⟨0⟩⟩
    let s : Store := ⟨some ⟨⟨9⟩, 10000, ⟨7⟩⟩,
      Function.update (fun _ => none) ⟨1⟩ (some ⟨10000, 0⟩)⟩
    (∀ b rate, 0 < b → StakingContract.computeReward b env.timestamp env.timestamp rate = .ok 0) ∧
      ∃ s₁ r₁, distributeRewards StakingContract.computeReward env s ⟨9⟩ [⟨1⟩, ⟨1⟩]
          (List.replicate 2 0) = .ok (s₁, r₁) ∧
        distributeRewards StakingContract.computeReward env s₁ ⟨9⟩ [⟨1⟩] (List.replicate 1 0) =
          .ok (s₁, ⟨(), [], []⟩) := by
  intro env s
  have empty : ∀ b rate, 0 < b →
      StakingContract.computeReward b env.timestamp env.timestamp rate = .ok 0 :=
    fun _ _ _ => StakingContract.computeReward_empty
  obtain ⟨s₁, r₁, first⟩ : ∃ s₁ r₁, distributeRewards StakingContract.computeReward
      ⟨31536000, fun _ => true, fun _ => true, ⟨0⟩⟩
      ⟨some ⟨⟨9⟩, 10000, ⟨7⟩⟩, Function.update (fun _ => none) ⟨1⟩ (some ⟨10000, 0⟩)⟩ ⟨9⟩
      [⟨1⟩, ⟨1⟩] (List.replicate 2 0) = .ok (s₁, r₁) := ⟨_, _, rfl⟩
  exact ⟨empty, s₁, r₁, first,
    distributeRewards_replay empty first rfl rfl (by decide) (by decide)⟩

end Replay

end StellarSpend.BatchRewards
