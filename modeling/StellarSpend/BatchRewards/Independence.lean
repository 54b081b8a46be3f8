import StellarSpend.BatchRewards.Runs

/-!
# Batches over different stakers

`distribute_rewards` reads the configuration and the records of the stakers it
names, and writes at most those records; `preview_rewards` reads the same and
writes nothing. So two calls that name no staker in common are independent: a
keeper may submit them in either order.

* `settle_local`, `distributeLoop_local` — the loop, run from records that agree
  with others on its stakers and with the same running totals, does what it
  does from those others, on its stakers only;
* `step_local` — a call run on any store that agrees with `s` on the
  configuration and on its stakers' records returns what it returns at `s`,
  and writes those records as it does at `s`;
* `step_frame` — a committed call keeps the configuration and every other record;
* `commute_of_disjoint` — two calls that name no staker in common commute under
  the host's commit and rollback;
* `runFrom_swap_batches` — so in every run, exchanging two adjacent such calls
  changes neither the final store nor any call's outcome.
-/

namespace StellarSpend.BatchRewards

/-- `t` with the records of the addresses in `l` taken from `s'`. -/
def Store.takeStakes (t : Store) (l : List Address) (s' : Store) : Store :=
  ⟨t.config, fun x => if x ∈ l then s'.stakes x else t.stakes x⟩

theorem Store.ext' {s t : Store} (config : s.config = t.config) (stakes : s.stakes = t.stakes) :
    s = t := by
  cases s; cases t; cases config; cases stakes; rfl

section Loop

variable {computeReward : Int → UInt64 → UInt64 → UInt32 → Except String Int}
  {rate : UInt32} {now : UInt64} {a b : Acc}

/-- An iteration reads only its staker's record and the running totals. -/
theorem settle_local {staker : Address} {bonus : Int} (agree : a.stakes staker = b.stakes staker)
    (totals : a.totalRewards = b.totalRewards) (count : a.recipients = b.recipients) :
    settle computeReward rate now a staker bonus =
      (settle computeReward rate now b staker bonus).map fun c =>
        ⟨Function.update a.stakes staker (c.stakes staker), c.totalRewards, c.recipients⟩ := by
  have read : readEntry a.stakes staker = readEntry b.stakes staker := by rw [readEntry, agree]; rfl
  simp only [settle, read, totals, count, except_map_bind]
  rcases userReward computeReward rate now (readEntry b.stakes staker) bonus with _ | _ | v
  · rfl
  · obtain ⟨stakes, total, recipients⟩ := a
    simp only at agree totals count ⊢
    simp only [totals, count, pure_eq_ok, ok_bind, Except.map, ← agree, Function.update_eq_self]
  · simp only [ok_bind, except_map_bind]
    simp only [pure_eq_ok, Except.map, Function.update_same]

/-- **The loop is local.** Run from records that agree with `b`'s on the listed
stakers, with the same running totals, the loop ends with the totals and the
listed stakers' records it ends with from `b`, and every other record as it
started. -/
theorem distributeLoop_local {pairs : List (Address × Int)}
    (agree : ∀ x ∈ pairs.map Prod.fst, a.stakes x = b.stakes x)
    (totals : a.totalRewards = b.totalRewards) (count : a.recipients = b.recipients) :
    distributeLoop computeReward rate now a pairs =
      (distributeLoop computeReward rate now b pairs).map fun c =>
        ⟨fun x => if x ∈ pairs.map Prod.fst then c.stakes x else a.stakes x, c.totalRewards,
          c.recipients⟩ := by
  induction pairs generalizing a b with
  | nil =>
      obtain ⟨stakes, total, recipients⟩ := a
      simp only at totals count
      simp [distributeLoop_nil, Except.map, totals, count]
  | cons p rest ih =>
      obtain ⟨staker, bonus⟩ := p
      simp only [List.map_cons, List.mem_cons] at agree ⊢
      rw [distributeLoop_cons, distributeLoop_cons,
        settle_local (agree staker (.inl rfl)) totals count]
      cases h : settle computeReward rate now b staker bonus with
      | error e => rfl
      | ok b' =>
          have agree' : ∀ x ∈ rest.map Prod.fst,
              Function.update a.stakes staker (b'.stakes staker) x = b'.stakes x := fun x mem => by
            by_cases same : x = staker
            · subst same; simp
            · rw [Function.update_noteq same, agree x (.inr mem), settle_frame h same]
          simp only [Except.map, ok_bind]
          rw [@ih ⟨Function.update a.stakes staker (b'.stakes staker), b'.totalRewards, b'.recipients⟩
            b' agree' rfl rfl]
          cases h' : distributeLoop computeReward rate now b' rest with
          | error e => rfl
          | ok c =>
              simp only [Except.map, Except.ok.injEq]
              congr 1
              funext x
              by_cases later : x ∈ rest.map Prod.fst
              · simp [later]
              · by_cases same : x = staker
                · subst same
                  simp [later, distributeLoop_frame h' later]
                · simp [later, same]

end Loop

section Calls

variable {computeReward : Int → UInt64 → UInt64 → UInt32 → Except String Int}
  {env : Env} {s t s' : Store} {call : Call}

/-- **Locality.** A call reads only the configuration and the records of the
stakers it names: on a store that agrees with `s` there, it returns what it
returns at `s`, writing those records as it does at `s` and keeping the rest of
the store it runs on. -/
theorem step_local (config : t.config = s.config) (agree : ∀ x ∈ call.stakers, t.stakes x = s.stakes x) :
    step computeReward env call t =
      (step computeReward env call s).map fun out => (t.takeStakes call.stakers out.1, out.2) := by
  cases call with
  | distributeRewards admin stakers bonusAmounts =>
      simp only [Call.stakers] at agree
      by_cases same : stakers.length = bonusAmounts.length
      · have named : (stakers.zip bonusAmounts).map Prod.fst = stakers :=
          List.map_fst_zip _ _ (Nat.le_of_eq same)
        have agree' : ∀ x ∈ (stakers.zip bonusAmounts).map Prod.fst,
            (⟨t.stakes, 0, 0⟩ : Acc).stakes x = (⟨s.stakes, 0, 0⟩ : Acc).stakes x := by
          rw [named]; exact agree
        simp only [step, distributeRewards, except_map_bind, config,
          distributeLoop_local agree' rfl rfl, except_bind_map, named]
        simp only [Call.stakers, Store.takeStakes, config, apply_ite (Except.map _), except_map_bind]
        simp only [Except.map, pure_eq_ok]
      · simp only [step, distributeRewards, requireAuth, ensure, same, decide_False, if_false]
        cases env.authorizes admin <;> rfl
  | previewRewards stakers =>
      simp only [Call.stakers] at agree
      have read : previewRewards computeReward env t stakers =
          previewRewards computeReward env s stakers := by
        simp only [previewRewards, config]
        congr 1
        funext cfg
        exact mapM_congr fun x hx => by rw [readEntry, agree x hx]; rfl
      have keep : t.takeStakes stakers s = t :=
        Store.ext' rfl (funext fun x => by
          by_cases hx : x ∈ stakers <;> simp [Store.takeStakes, hx, agree])
      simp only [step, read, Call.stakers]
      cases previewRewards computeReward env s stakers <;> simp [Except.map, keep]

/-- **Frame.** A committed call keeps the configuration and the record of every
staker it does not name. -/
theorem step_frame {r : Receipt Returned ContractEvent} (h : step computeReward env call s = .ok (s', r)) :
    s'.config = s.config ∧ ∀ x, x ∉ call.stakers → s'.stakes x = s.stakes x :=
  have credits := step_reconciles h fun _ hx => List.mem_toFinset.mpr hx
  ⟨credits.config, fun x hx => credits.frame x (mt List.mem_toFinset.mp hx)⟩

end Calls

variable {computeReward : Int → UInt64 → UInt64 → UInt32 → Except String Int}

/-- **Calls on different stakers commute**, at every store, under the host's
commit and rollback: either order reaches the same store and gives each call
the outcome it has when it runs first. -/
theorem commute_of_disjoint {e₁ e₂ : Env} {c₁ c₂ : Call} (disjoint : ∀ x ∈ c₁.stakers, x ∉ c₂.stakers)
    (s : Store) : Commute (step computeReward) s e₁ c₁ e₂ c₂ := by
  refine commute_of_local (fun t s₁ => t.takeStakes c₁.stakers s₁)
    (fun t s₂ => t.takeStakes c₂.stakers s₂)
    (fun s₂ r₂ h₂ => step_local (step_frame h₂).1 fun x hx => (step_frame h₂).2 x (disjoint x hx))
    (fun s₁ r₁ h₁ => step_local (step_frame h₁).1 fun x hx =>
      (step_frame h₁).2 x fun hx' => disjoint x hx' hx)
    (fun s₁ r₁ s₂ r₂ h₁ h₂ => ?_)
  obtain ⟨config₁, frame₁⟩ := step_frame h₁
  obtain ⟨config₂, frame₂⟩ := step_frame h₂
  refine Store.ext' (config₁.trans config₂.symm) (funext fun x => ?_)
  simp only [Store.takeStakes]
  by_cases in₂ : x ∈ c₂.stakers
  · have out₁ : x ∉ c₁.stakers := fun in₁ => disjoint x in₁ in₂
    simp [in₂, out₁]
  · by_cases in₁ : x ∈ c₁.stakers
    · simp [in₁, in₂]
    · simp [in₁, in₂, frame₁ x in₁, frame₂ x in₂]

/-- **Independent batches.** In every run, two adjacent calls that name no
staker in common can be exchanged: the final store is the same, and the log
differs only in the order of their two entries, so every call of the run has
the same outcome. -/
theorem runFrom_swap_batches {e₁ e₂ : Env} {c₁ c₂ : Call}
    (disjoint : ∀ x ∈ c₁.stakers, x ∉ c₂.stakers)
    (st : Store × List (Entry Call (Receipt Returned ContractEvent))) (pre post : List (Env × Call)) :
    (runFrom (step computeReward) st (pre ++ (e₁, c₁) :: (e₂, c₂) :: post)).1 =
      (runFrom (step computeReward) st (pre ++ (e₂, c₂) :: (e₁, c₁) :: post)).1 ∧
    ∃ A B l₁ l₂,
      (runFrom (step computeReward) st (pre ++ (e₁, c₁) :: (e₂, c₂) :: post)).2 = A ++ l₁ :: l₂ :: B ∧
      (runFrom (step computeReward) st (pre ++ (e₂, c₂) :: (e₁, c₁) :: post)).2 = A ++ l₂ :: l₁ :: B :=
  runFrom_swap (commute_of_disjoint disjoint) st pre post

/-- A year-end batch for staker 1 and a bonus-only batch for staker 2, in
either order. -/
theorem runFrom_swap_batches_two_stakers :
    let env : Env := ⟨31536000, fun _ => true, fun _ => true, ⟨0⟩⟩
    let s₀ : Store := ⟨some ⟨⟨9⟩, 10000, ⟨7⟩⟩,
      Function.update (fun _ => none) ⟨1⟩ (some ⟨10000, 0⟩)⟩
    let first : Call := .distributeRewards ⟨9⟩ [⟨1⟩] [0]
    let second : Call := .distributeRewards ⟨9⟩ [⟨2⟩] [5]
    (∀ x ∈ first.stakers, x ∉ second.stakers) ∧
      (runFrom (step StakingContract.computeReward) (s₀, [])
          ([] ++ (env, first) :: (env, second) :: [])).1 =
        (runFrom (step StakingContract.computeReward) (s₀, [])
          ([] ++ (env, second) :: (env, first) :: [])).1 ∧
      ∃ A B l₁ l₂,
        (runFrom (step StakingContract.computeReward) (s₀, [])
          ([] ++ (env, first) :: (env, second) :: [])).2 = A ++ l₁ :: l₂ :: B ∧
        (runFrom (step StakingContract.computeReward) (s₀, [])
          ([] ++ (env, second) :: (env, first) :: [])).2 = A ++ l₂ :: l₁ :: B :=
  ⟨by decide, runFrom_swap_batches (by decide) _ _ _⟩

end StellarSpend.BatchRewards
