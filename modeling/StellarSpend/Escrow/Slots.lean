import StellarSpend.Escrow.Contract
import StellarSpend.Token

/-!
# Escrow calls on different slots, and the lock–release round trip

Every escrow call reads the configuration and one slot,
`EscrowKey::Entry(depositor, escrow_id)`, writes at most that slot, and makes at
most one transfer, fixed by the store before it. So escrows that neither share
a slot nor draw on one token balance are independent of each other, and an
escrow is a round trip: locking and then releasing it leaves the store as it
was.

* `Call.slot`, `Call.transferAt` — the slot a call reads and writes, and the
  transfer it makes if it gets that far;
* `step_local`, `step_frame` — a call run on any store that agrees with `s` on
  the configuration and on its slot returns what it returns at `s`, and writes
  its slot as it does at `s`; a successful call leaves the configuration and
  every other slot as they were;
* `step_transfers`, `step_against` — a successful call makes exactly its
  transfer, and the token's balances matter to a call only at the source of
  that transfer;
* `commute_of_slot_ne` — two calls on different slots whose transfers draw on
  no account the other moves commute against the token, under the host's commit
  and rollback;
* `runFrom_swap_slots` — so in every run against the token, exchanging two such
  adjacent calls changes neither the final store and balances nor any call's
  outcome. Two locks of one depositor draw on one balance and are not covered:
  the token may accept only the first of them;
* `lock_release_round_trip` — a release right after a lock succeeds exactly
  when the lock is due and the token accepts the payout, and it then restores
  the store the lock started from and pays the locked amount to the
  beneficiary.
-/

namespace StellarSpend.Escrow

/-- The storage slot `EscrowKey::Entry(depositor, escrow_id)` a call reads and writes. -/
def Call.slot : Call → Address × UInt64
  | .lock depositor _ _ _ escrowId => (depositor, escrowId)
  | .release depositor escrowId => (depositor, escrowId)
  | .getEscrow depositor escrowId => (depositor, escrowId)

/-- `t` with the slot `k` taken from `s'`. -/
def Store.takeSlot (t : Store) (k : Address × UInt64) (s' : Store) : Store :=
  ⟨t.config, Function.update t.entries k (s'.entries k)⟩

theorem Store.ext' {s t : Store} (config : s.config = t.config) (entries : s.entries = t.entries) :
    s = t := by
  cases s; cases t; cases config; cases entries; rfl

section Local

variable {env : Env} {s t s' : Store} {call : Call}

/-- **Locality.** A call reads only the configuration and its slot: on a store
that agrees with `s` there, it returns what it returns at `s`, writing its slot
as it does at `s` and keeping the rest of the store it runs on. -/
theorem step_local (config : t.config = s.config) (slot : t.entries call.slot = s.entries call.slot) :
    step env call t = (step env call s).map fun out => (t.takeSlot call.slot out.1, out.2) := by
  cases call
  case getEscrow d id =>
    simp only [Call.slot] at slot
    simp [step, getEscrow, Call.slot, Except.map, pure, Except.pure, Store.takeSlot, ← slot]
  all_goals
    simp only [Call.slot] at slot
    simp only [step, lock, release, except_map_bind, config, slot, Call.slot]
    simp only [Except.map, pure_eq_ok, Store.takeSlot, Function.update_idem, Function.update_same, config]

/-- **Frame.** A successful call keeps the configuration and every slot but its own. -/
theorem step_frame {r : Receipt (Option EscrowEntry) ContractEvent}
    (h : step env call s = .ok (s', r)) :
    s'.config = s.config ∧ ∀ k, k ≠ call.slot → s'.entries k = s.entries k := by
  rcases step_cases h with ⟨_, _, _, _, _, _, rfl, hc, -⟩ | ⟨_, _, _, rfl, hc, -⟩ | ⟨_, _, rfl, rfl, -⟩
  · obtain ⟨_, _, _, _, _, _, _, rfl, -⟩ := lock_spec hc
    exact ⟨rfl, fun k other => Function.update_noteq other _ _⟩
  · obtain ⟨_, _, _, _, _, _, _, rfl, -⟩ := release_spec hc
    exact ⟨rfl, fun k other => Function.update_noteq other _ _⟩
  · exact ⟨rfl, fun _ _ => rfl⟩

end Local

/-! ### Calls against the token -/

/-- The transfer a call makes if it gets that far, in the configured token: a
lock moves its amount from the depositor to the contract, a release moves the
entry's amount from the contract to the entry's beneficiary. -/
def Call.transferAt (contract : Address) (s : Store) : Call → Option Transfer
  | .lock depositor _ amount _ _ =>
      s.config.map fun config => ⟨config.token, depositor, contract, amount⟩
  | .release depositor escrowId => do
      let entry ← s.entries (depositor, escrowId)
      let config ← s.config
      pure ⟨config.token, contract, entry.beneficiary, entry.amount⟩
  | .getEscrow .. => none

section Token

variable {env : Env} {s s' : Store} {call : Call}

/-- A successful call makes exactly its transfer. -/
theorem step_transfers {r : Receipt (Option EscrowEntry) ContractEvent}
    (h : step env call s = .ok (s', r)) :
    r.transfers = (call.transferAt env.currentContract s).toList := by
  rcases step_cases h with ⟨_, _, _, _, _, _, rfl, hc, rfl⟩ | ⟨_, _, _, rfl, hc, rfl⟩ |
    ⟨_, _, rfl, rfl, rfl⟩
  · obtain ⟨config, -, -, -, -, configured, -, -, rfl⟩ := lock_spec hc
    simp [Call.transferAt, configured, Receipt.mapValue]
  · obtain ⟨entry, config, stored, -, configured, -, -, -, rfl⟩ := release_spec hc
    simp [Call.transferAt, stored, configured, Receipt.mapValue]
  · rfl

/-- The token's balances matter to a call only at the source of its transfer. -/
theorem step_against {b b' : Balances}
    (agree : ∀ t ∈ call.transferAt env.currentContract s, b' t.token t.source = b t.token t.source) :
    step (env.against b') call s = step (env.against b) call s := by
  cases call with
  | lock depositor beneficiary amount unlockTs escrowId =>
      cases configured : s.config with
      | none =>
          simp only [step, lock, configured, expect, requireAuth_against, Env.against_timestamp,
            throw_eq_error, error_bind]
      | some config =>
          have source : b' config.token depositor = b config.token depositor :=
            agree ⟨config.token, depositor, env.currentContract, amount⟩
              (by simp [Call.transferAt, configured])
          simp only [step, lock, configured, expect, requireAuth_against, Env.against_timestamp,
            Env.against_currentContract, pure_eq_ok, ok_bind, transfer_against source]
  | release depositor escrowId =>
      cases stored : s.entries (depositor, escrowId) with
      | none => simp only [step, release, stored, expect, throw_eq_error, error_bind]
      | some entry =>
          cases configured : s.config with
          | none =>
              simp only [step, release, stored, configured, expect, Env.against_timestamp,
                pure_eq_ok, ok_bind, throw_eq_error, error_bind]
          | some config =>
              have source : b' config.token env.currentContract = b config.token env.currentContract :=
                agree ⟨config.token, env.currentContract, entry.beneficiary, entry.amount⟩
                  (by simp [Call.transferAt, stored, configured])
              simp only [step, release, stored, configured, expect, Env.against_timestamp,
                Env.against_currentContract, pure_eq_ok, ok_bind, transfer_against source]
  | getEscrow => rfl

end Token

/-- **Calls on different slots commute against the token**, under the host's
commit and rollback, when neither's transfer draws on an account the other's
transfer moves: either order reaches the same store and balances, and gives
each call the outcome it has when it runs first. -/
theorem commute_of_slot_ne {e₁ e₂ : Env} {c₁ c₂ : Call} {s : Store} {b : Balances}
    (ne : c₁.slot ≠ c₂.slot)
    (apart : ∀ t₁ ∈ c₁.transferAt e₁.currentContract s, ∀ t₂ ∈ c₂.transferAt e₂.currentContract s,
      t₁.Apart t₂) :
    Commute (withToken step) (s, b) e₁ c₁ e₂ c₂ :=
  commute_withToken (fun t s₁ => t.takeSlot c₁.slot s₁) (fun t s₂ => t.takeSlot c₂.slot s₂)
    (fun _ _ _ _ h₂ => step_local (step_frame h₂).1 ((step_frame h₂).2 _ ne))
    (fun _ _ _ _ h₁ => step_local (step_frame h₁).1 ((step_frame h₁).2 _ ne.symm))
    (fun _ _ _ _ _ _ h₁ h₂ => Store.ext' ((step_frame h₁).1.trans (step_frame h₂).1.symm)
      (update_merge_comm ne (step_frame h₁).2 (step_frame h₂).2))
    (fun _ agree => step_against agree) (fun _ agree => step_against agree)
    (fun _ _ h => by simpa using step_transfers h) (fun _ _ h => by simpa using step_transfers h)
    apart

/-- **Independent escrows.** In every run against the token, two adjacent calls
on different slots, neither of which draws on an account that the other's
transfer moves at the store the run has reached, can be exchanged: the final
store and balances are the same, and the log differs only in the order of their
two entries, so every call of the run has the same outcome. -/
theorem runFrom_swap_slots {e₁ e₂ : Env} {c₁ c₂ : Call} (ne : c₁.slot ≠ c₂.slot)
    (st : (Store × Balances) × List (Entry Call (Receipt (Option EscrowEntry) ContractEvent)))
    (pre post : List (Env × Call))
    (apart : ∀ t₁ ∈ c₁.transferAt e₁.currentContract (runFrom (withToken step) st pre).1.1,
      ∀ t₂ ∈ c₂.transferAt e₂.currentContract (runFrom (withToken step) st pre).1.1, t₁.Apart t₂) :
    (runFrom (withToken step) st (pre ++ (e₁, c₁) :: (e₂, c₂) :: post)).1 =
      (runFrom (withToken step) st (pre ++ (e₂, c₂) :: (e₁, c₁) :: post)).1 ∧
    ∃ A B l₁ l₂,
      (runFrom (withToken step) st (pre ++ (e₁, c₁) :: (e₂, c₂) :: post)).2 = A ++ l₁ :: l₂ :: B ∧
      (runFrom (withToken step) st (pre ++ (e₂, c₂) :: (e₁, c₁) :: post)).2 = A ++ l₂ :: l₁ :: B :=
  runFrom_swap_at st pre post (commute_of_slot_ne ne apart)

/-- Depositors 1 and 2, holding 100 each, lock 5 tokens under the same escrow
id: neither lock draws on an account the other moves, so either order reaches
the same store and balances. -/
theorem runFrom_swap_slots_two_depositors :
    let env : Env := ⟨10, fun _ => true, fun _ => true, ⟨0⟩⟩
    let first : Call := .lock ⟨1⟩ ⟨3⟩ 5 100 7
    let second : Call := .lock ⟨2⟩ ⟨3⟩ 5 100 7
    let st : (Store × Balances) × List (Entry Call (Receipt (Option EscrowEntry) ContractEvent)) :=
      ((Store.init (some ⟨⟨9⟩, 10000, ⟨4⟩⟩), fun _ _ => 100), [])
    first.slot ≠ second.slot ∧
      (∀ t₁ ∈ first.transferAt env.currentContract (runFrom (withToken step) st []).1.1,
        ∀ t₂ ∈ second.transferAt env.currentContract (runFrom (withToken step) st []).1.1,
          t₁.Apart t₂) ∧
      (runFrom (withToken step) st ([] ++ (env, first) :: (env, second) :: [])).1 =
        (runFrom (withToken step) st ([] ++ (env, second) :: (env, first) :: [])).1 ∧
      ∃ A B l₁ l₂,
        (runFrom (withToken step) st ([] ++ (env, first) :: (env, second) :: [])).2 =
          A ++ l₁ :: l₂ :: B ∧
        (runFrom (withToken step) st ([] ++ (env, second) :: (env, first) :: [])).2 =
          A ++ l₂ :: l₁ :: B :=
  ⟨by decide, by decide, runFrom_swap_slots (by decide) _ _ _ (by decide)⟩

/-! ### Lock, then release -/

/-- **Round trip.** After a lock, a release of the same escrow succeeds exactly
when its ledger time has reached the unlock time and the token accepts the
payout, whatever else the environment is. A successful release gives back the
store the lock started from, and pays out to the beneficiary the amount the
lock took in, in the configured token. -/
theorem lock_release_round_trip {env env' : Env} {s s₁ : Store} {depositor beneficiary : Address}
    {amount : Int} {unlockTs escrowId : UInt64} {r₁ : Receipt Unit ContractEvent}
    (locked : lock env s depositor beneficiary amount unlockTs escrowId = .ok (s₁, r₁)) :
    ∃ config, s.config = some config ∧
      r₁.transfers = [⟨config.token, depositor, env.currentContract, amount⟩] ∧
      ((∃ out, release env' s₁ depositor escrowId = .ok out) ↔
        unlockTs.toNat ≤ env'.timestamp.toNat ∧
          env'.accepts ⟨config.token, env'.currentContract, beneficiary, amount⟩ = true) ∧
      ∀ s₂ r₂, release env' s₁ depositor escrowId = .ok (s₂, r₂) →
        s₂ = s ∧ r₂.transfers = [⟨config.token, env'.currentContract, beneficiary, amount⟩] := by
  obtain ⟨config, -, pos, -, free, configured, -, rfl, rfl⟩ := lock_spec locked
  refine ⟨config, configured, rfl, ⟨fun ⟨⟨s₂, r₂⟩, h⟩ => ?_, fun ⟨due, accepted⟩ =>
    ⟨_, release_of_checks (Function.update_same _ _ _) due configured accepted pos⟩⟩, fun s₂ r₂ h => ?_⟩
  all_goals
    obtain ⟨entry, config', stored, due, configured', accepted, -, rfl, rfl⟩ := release_spec h
    simp only [Function.update_same, Option.some.injEq] at stored
    rw [configured, Option.some.injEq] at configured'
    subst stored configured'
  · exact ⟨due, accepted⟩
  · exact ⟨Store.ext' rfl (by rw [Function.update_idem, ← free, Function.update_eq_self]), rfl⟩

/-- Five tokens locked until time 100 by depositor 1 for beneficiary 3: a
release at time 100 succeeds exactly when the token accepts the payout, and
then gives the store back. -/
theorem lock_release_round_trip_at_unlock :
    ∃ s₁ r₁, lock ⟨10, fun _ => true, fun _ => true, ⟨0⟩⟩ (Store.init (some ⟨⟨9⟩, 10000, ⟨4⟩⟩))
        ⟨1⟩ ⟨3⟩ 5 100 7 = .ok (s₁, r₁) ∧
      ∃ config, (Store.init (some ⟨⟨9⟩, 10000, ⟨4⟩⟩)).config = some config ∧
        r₁.transfers = [⟨config.token, ⟨1⟩, ⟨0⟩, 5⟩] ∧
        ((∃ out, release ⟨100, fun _ => false, fun _ => true, ⟨0⟩⟩ s₁ ⟨1⟩ 7 = .ok out) ↔
          (100 : UInt64).toNat ≤ (100 : UInt64).toNat ∧
            (fun _ => true : Transfer → Bool) ⟨config.token, ⟨0⟩, ⟨3⟩, 5⟩ = true) ∧
        ∀ s₂ r₂, release ⟨100, fun _ => false, fun _ => true, ⟨0⟩⟩ s₁ ⟨1⟩ 7 = .ok (s₂, r₂) →
          s₂ = Store.init (some ⟨⟨9⟩, 10000, ⟨4⟩⟩) ∧ r₂.transfers = [⟨config.token, ⟨0⟩, ⟨3⟩, 5⟩] := by
  obtain ⟨s₁, r₁, locked⟩ : ∃ s₁ r₁, lock ⟨10, fun _ => true, fun _ => true, ⟨0⟩⟩
      (Store.init (some ⟨⟨9⟩, 10000, ⟨4⟩⟩)) ⟨1⟩ ⟨3⟩ 5 100 7 = .ok (s₁, r₁) := ⟨_, _, rfl⟩
  exact ⟨s₁, r₁, locked, lock_release_round_trip locked⟩

end StellarSpend.Escrow
