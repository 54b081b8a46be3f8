import StellarSpend.BatchRewards.Compose

/-!
# The batch contract over whole runs

`distribute_rewards` and `preview_rewards` as the host runs them, one call
after another, a panicking call rolled back whole (`step`). Rewards are
credited into the stake records, never transferred, and each completed batch
publishes its total. So an indexer that adds up the `total_rewards` of a run's
notifications gets exactly what the records gained over the run.

* `Credits` — what a stretch of calls did to the records: the totals it
  reported are the sum of the balance increases over a set of addresses, no
  balance went down, no record outside the set changed, and neither did the
  configuration;
* `step_reconciles` — every committed call credits what it reports, over any
  set holding the stakers it names;
* `run_reconciles` — so does every run, from any store and with any
  `compute_reward`, over any set holding every staker the run names.
-/

namespace StellarSpend.BatchRewards

/-- The batch contract's entry points. -/
inductive Call where
  | distributeRewards (admin : Address) (stakers : List Address) (bonusAmounts : List Int)
  | previewRewards (stakers : List Address)
  deriving DecidableEq, Repr

/-- What an entry point returns. -/
inductive Returned where
  | unit
  | rewards (amounts : List Int)
  deriving DecidableEq, Repr

/-- One call of the batch contract, with `compute_reward` as given. -/
def step (computeReward : Int → UInt64 → UInt64 → UInt32 → Except String Int) (env : Env) :
    Call → Store → Except String (Store × Receipt Returned ContractEvent)
  | .distributeRewards admin stakers bonusAmounts, s =>
      (distributeRewards computeReward env s admin stakers bonusAmounts).map
        fun out => (out.1, out.2.mapValue fun _ => .unit)
  | .previewRewards stakers, s =>
      (previewRewards computeReward env s stakers).map fun rewards => (s, ⟨.rewards rewards, [], []⟩)

/-- The stakers a call names. -/
def Call.stakers : Call → List Address
  | .distributeRewards _ stakers _ => stakers
  | .previewRewards stakers => stakers

/-- The `total_rewards` a log entry's batch notification reports: zero for a
call that panicked or published none. -/
def reportedTotal (e : Entry Call (Receipt Returned ContractEvent)) : Int :=
  match e.result with
  | .ok r => (batchReport r.events).2
  | .error _ => 0

/-- The `total_rewards` of a run's notifications, added up. -/
def publishedTotal (log : List (Entry Call (Receipt Returned ContractEvent))) : Int :=
  (log.map reportedTotal).sum

@[simp] theorem publishedTotal_concat (log : List (Entry Call (Receipt Returned ContractEvent)))
    (e : Entry Call (Receipt Returned ContractEvent)) :
    publishedTotal (log ++ [e]) = publishedTotal log + reportedTotal e := by
  simp [publishedTotal]

/-- Going from `s` to `s'` credited the addresses of `D` exactly `total` in all,
lowered no balance, and changed neither a record outside `D` nor the
configuration. -/
structure Credits (D : Finset Address) (s s' : Store) (total : Int) : Prop where
  reported : total = ∑ x ∈ D, (balanceOf s'.stakes x - balanceOf s.stakes x)
  monotone : ∀ x, balanceOf s.stakes x ≤ balanceOf s'.stakes x
  frame : ∀ x, x ∉ D → s'.stakes x = s.stakes x
  config : s'.config = s.config

section Credits

variable {D : Finset Address} {s₁ s₂ s₃ : Store} {a b : Int}

theorem Credits.refl (D : Finset Address) (s : Store) : Credits D s s 0 :=
  ⟨by simp, fun _ => le_rfl, fun _ _ => rfl, rfl⟩

theorem Credits.trans (first : Credits D s₁ s₂ a) (second : Credits D s₂ s₃ b) :
    Credits D s₁ s₃ (a + b) where
  reported := by
    rw [first.reported, second.reported, ← Finset.sum_add_distrib]
    exact Finset.sum_congr rfl fun x _ => sub_add_sub_cancel' _ _ _
  monotone x := (first.monotone x).trans (second.monotone x)
  frame x hx := (second.frame x hx).trans (first.frame x hx)
  config := second.config.trans first.config

end Credits

variable {computeReward : Int → UInt64 → UInt64 → UInt32 → Except String Int}

/-- **One call credits what it reports.** A committed call, over any set of
addresses holding the stakers it names, credited exactly the total its
notification reports. -/
theorem step_reconciles {env : Env} {call : Call} {s s' : Store}
    {r : Receipt Returned ContractEvent} {D : Finset Address}
    (h : step computeReward env call s = .ok (s', r)) (covers : ∀ x ∈ call.stakers, x ∈ D) :
    Credits D s s' (batchReport r.events).2 := by
  cases call with
  | distributeRewards admin stakers bonusAmounts =>
      obtain ⟨⟨s₁, r₀⟩, hc, he⟩ := map_eq_ok.mp h
      cases he
      obtain ⟨config, acc, -, same, -, hconfig, -, hloop, rfl, -⟩ := distributeRewards_spec hc
      have report := (distributeRewards_result hc hconfig hloop).2
      have named : (stakers.zip bonusAmounts).map Prod.fst = stakers :=
        List.map_fst_zip _ _ (Nat.le_of_eq same)
      refine ⟨?_, distributeLoop_balance_le hloop, fun x hx => ?_, rfl⟩
      · have total := distributeLoop_reconciles hloop fun p mem => covers _ (List.of_mem_zip mem).1
        simp only [Receipt.mapValue, report, Int.sub_zero] at total ⊢
        exact total
      · exact distributeLoop_frame hloop (by rw [named]; exact fun mem => hx (covers x mem))
  | previewRewards stakers =>
      obtain ⟨rewards, -, he⟩ := map_eq_ok.mp h
      cases he
      exact Credits.refl D s

/-- **A run credits what it publishes.** In every run of the batch contract,
from any store, whatever `compute_reward` returns and whichever calls panic,
over any set of addresses that holds every staker the run's calls name: the
`total_rewards` of all the run's notifications add up to the sum of the
balance increases over the set, no balance is ever lower than at the start, and
no record outside the set, and not the configuration, has changed. -/
theorem run_reconciles (s₀ : Store) (calls : List (Env × Call)) (D : Finset Address)
    (covers : ∀ c ∈ calls, ∀ x ∈ c.2.stakers, x ∈ D) :
    Credits D s₀ (run (step computeReward) s₀ calls).1
      (publishedTotal (run (step computeReward) s₀ calls).2) :=
  runFrom_invariant_of_mem (fun s log => Credits D s₀ s (publishedTotal log)) calls
    (fun _ _ _ _ _ _ mem inv h => by
      simpa [reportedTotal] using inv.trans (step_reconciles h (covers _ mem)))
    (fun _ _ _ _ _ _ inv _ => by simpa [reportedTotal] using inv)
    (s₀, []) (by simpa [publishedTotal] using Credits.refl D s₀)

/-- A year of staking: a batch over stakers 1 and 2 with a bonus for 2, a
preview, and a batch by someone who is not the admin, which panics. -/
theorem run_reconciles_year :
    let env : Env := ⟨31536000, fun _ => true, fun _ => true, ⟨0⟩⟩
    let s₀ : Store := ⟨some ⟨⟨9⟩, 10000, ⟨7⟩⟩,
      Function.update (fun _ => none) ⟨1⟩ (some ⟨10000, 0⟩)⟩
    let calls : List (Env × Call) := [(env, .distributeRewards ⟨9⟩ [⟨1⟩, ⟨2⟩] [0, 5]),
      (env, .previewRewards [⟨1⟩]), (env, .distributeRewards ⟨8⟩ [⟨1⟩] [5])]
    (∀ c ∈ calls, ∀ x ∈ c.2.stakers, x ∈ ({⟨1⟩, ⟨2⟩} : Finset Address)) ∧
      Credits {⟨1⟩, ⟨2⟩} s₀ (run (step StakingContract.computeReward) s₀ calls).1
        (publishedTotal (run (step StakingContract.computeReward) s₀ calls).2) := by
  intro env s₀ calls
  have covers : ∀ c ∈ calls, ∀ x ∈ c.2.stakers, x ∈ ({⟨1⟩, ⟨2⟩} : Finset Address) := by decide
  exact ⟨covers, run_reconciles s₀ calls _ covers⟩

end StellarSpend.BatchRewards
