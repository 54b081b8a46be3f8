import StellarSpend.Escrow.Ledger
import StellarSpend.BatchRewards.Loop

/-!
# Notifications are never rejected by their own validators

Each emit helper validates its payload and panics if the validation fails
(`events/src/gas.rs`). The payloads the operations build always pass, so no
operation aborts inside an emit helper:

* `lock` builds its payload from an amount and an unlock time it has just
  checked, with the same comparisons the validator makes;
* `release` pays out a stored entry, and every stored entry of a reachable
  escrow store holds a positive amount (`Escrow.amounts_positive`);
* `distribute_rewards` emits only with a positive count, and its loop credits
  at least one token for every position it counts (`distributeLoop_count`).

`emits_never_abort` states it the way a caller sees it: once a call has passed
every step before its emit helper, it returns.
-/

namespace StellarSpend

/-- Every entry of an escrow store reachable from one with no entries holds a
positive amount: `lock` stores only positive amounts and `release` only
removes entries. -/
theorem Escrow.amounts_positive (config : Option Config) (calls : List (Env × Escrow.Call)) :
    ∀ key e, (run Escrow.step (Escrow.Store.init config) calls).1.entries key = some e →
      0 < e.amount := by
  refine run_invariant (fun s : Escrow.Store => ∀ key (e : Escrow.EscrowEntry),
      s.entries key = some e → 0 < e.amount)
    (fun s s' env call r pos h => ?_) _ calls (fun _ _ h => by cases h)
  rcases Escrow.step_cases h with ⟨depositor, _, amount, _, escrowId, r₀, rfl, hc, -⟩ |
    ⟨depositor, escrowId, r₀, rfl, hc, -⟩ | ⟨_, _, rfl, rfl, -⟩
  · obtain ⟨_, -, hamount, -, -, -, -, rfl, -⟩ := Escrow.lock_spec hc
    intro key e he
    by_cases hk : key = (depositor, escrowId)
    · subst hk; simp only [Function.update_same, Option.some.injEq] at he; subst he; exact hamount
    · exact pos key e (by simpa [Function.update_noteq hk] using he)
  · obtain ⟨_, _, -, -, -, -, -, rfl, -⟩ := Escrow.release_spec hc
    intro key e he
    by_cases hk : key = (depositor, escrowId)
    · subst hk; simp at he
    · exact pos key e (by simpa [Function.update_noteq hk] using he)
  · exact pos

/-- **No emit helper ever aborts.** In every escrow store reachable from one
with no entries, every stored entry holds a positive amount, and a `lock` or a
`release` that passes every step before its emit helper returns; so does every
`distribute_rewards` whose checks pass and whose loop completes, whatever
`compute_reward` returns. -/
theorem emits_never_abort (config : Option Config) (calls : List (Env × Escrow.Call)) :
    let s := (run Escrow.step (Escrow.Store.init config) calls).1
    (∀ key e, s.entries key = some e → 0 < e.amount) ∧
    (∀ env depositor beneficiary amount unlockTs escrowId (cfg : Config),
      env.authorizes depositor = true → 0 < amount → env.timestamp.toNat < unlockTs.toNat →
      s.entries (depositor, escrowId) = none → s.config = some cfg →
      env.accepts ⟨cfg.token, depositor, env.currentContract, amount⟩ = true →
      ∃ out, Escrow.lock env s depositor beneficiary amount unlockTs escrowId = .ok out) ∧
    (∀ env depositor escrowId (entry : Escrow.EscrowEntry) (cfg : Config),
      s.entries (depositor, escrowId) = some entry →
      entry.unlockTs.toNat ≤ env.timestamp.toNat → s.config = some cfg →
      env.accepts ⟨cfg.token, env.currentContract, entry.beneficiary, entry.amount⟩ = true →
      ∃ out, Escrow.release env s depositor escrowId = .ok out) ∧
    (∀ computeReward env (bs : BatchRewards.Store) admin stakers bonusAmounts (cfg : Config) acc,
      env.authorizes admin = true → stakers.length = bonusAmounts.length → stakers ≠ [] →
      bs.config = some cfg → cfg.admin = admin →
      BatchRewards.distributeLoop computeReward cfg.rewardRate env.timestamp ⟨bs.stakes, 0, 0⟩
        (stakers.zip bonusAmounts) = .ok acc →
      ∃ out, BatchRewards.distributeRewards computeReward env bs admin stakers bonusAmounts =
        .ok out) := by
  have pos := Escrow.amounts_positive config calls
  refine ⟨pos, fun _ _ _ _ _ _ _ auth positive future free configured
    accepted => ⟨_, Escrow.lock_of_checks auth positive future free configured accepted⟩,
    fun _ _ _ _ _ stored due configured accepted =>
      ⟨_, Escrow.release_of_checks stored due configured accepted (pos _ _ stored)⟩,
    fun _ _ _ _ _ _ _ _ auth same nonempty configured isAdmin loop =>
      ⟨_, BatchRewards.distributeRewards_of_checks auth same nonempty configured isAdmin loop
        fun counted => ?_⟩⟩
  have count := (BatchRewards.distributeLoop_count loop).2
  simp only [UInt32.toNat_zero] at count
  omega

/-- After depositor 1 locks 5 tokens under id 7 until time 100, depositor 2's
lock under the same id returns, and so does the release of depositor 1's escrow
at time 100, triggered by someone who authorizes nothing. -/
theorem emits_never_abort_after_lock :
    let config : Option Config := some ⟨⟨9⟩, 10000, ⟨4⟩⟩
    let calls : List (Env × Escrow.Call) :=
      [(⟨10, fun _ => true, fun _ => true, ⟨0⟩⟩, .lock ⟨1⟩ ⟨3⟩ 5 100 7)]
    let s := (run Escrow.step (Escrow.Store.init config) calls).1
    (∃ out, Escrow.lock ⟨20, fun _ => true, fun _ => true, ⟨0⟩⟩ s ⟨2⟩ ⟨3⟩ 5 100 7 = .ok out) ∧
      ∃ out, Escrow.release ⟨100, fun _ => false, fun _ => true, ⟨0⟩⟩ s ⟨1⟩ 7 = .ok out := by
  intro config calls s
  exact ⟨(emits_never_abort config calls).2.1 _ ⟨2⟩ ⟨3⟩ 5 100 7 ⟨⟨9⟩, 10000, ⟨4⟩⟩ rfl (by decide)
      (by decide) (by decide) (by decide) rfl,
    (emits_never_abort config calls).2.2.1 _ ⟨1⟩ 7 ⟨⟨1⟩, ⟨3⟩, 5, 100⟩ ⟨⟨9⟩, 10000, ⟨4⟩⟩
      (by decide) (by decide) (by decide) rfl⟩

end StellarSpend
