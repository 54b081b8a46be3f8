import StellarSpend.Recurring.Registry
import StellarSpend.Token

/-!
# Scheduler calls on different payments

`execute_payment`, `cancel_payment` and `get_payment` read and write one
record, `DataKey::Payment(payment_id)`, and never the counter; only
`execute_payment` transfers, the instalment of that record. So calls on
different payments that draw on no common token balance are independent: a
keeper executing one schedule and a sender canceling another, or two keepers
executing the schedules of different senders, can be ordered either way.
`create_payment` is not among them: it reads the counter, and the id it issues
is one another call may name.

* `Call.target`, `Call.transferAt` — the record a call reads and writes, if it
  reads no other part of the store, and the transfer it makes if it gets that
  far;
* `step_local`, `step_frame` — such a call, run on any store that agrees with
  `s` on its record, returns what it returns at `s` and writes its record as it
  does at `s`; a successful one keeps the counter and every other record;
* `step_transfers`, `step_against` — a successful call makes exactly its
  transfer, and the token's balances matter to a call only at the source of
  that transfer;
* `commute_of_target_ne` — two calls on different records whose transfers draw
  on no account the other moves commute against the token, under the host's
  commit and rollback;
* `runFrom_swap_payments` — so in every run against the token, exchanging two
  such adjacent calls changes neither the final store and balances nor any
  call's outcome. Two executions that draw on one sender's balance in one token
  are not covered: the token may accept only the first of them.
-/

namespace StellarSpend.Recurring

/-- The record `DataKey::Payment(payment_id)` a call reads and writes;
`create_payment`, which reads the counter, has none. -/
def Call.target : Call → Option UInt64
  | .createPayment .. => none
  | .executePayment paymentId => some paymentId
  | .cancelPayment paymentId => some paymentId
  | .getPayment paymentId => some paymentId

/-- `t` with the record `id` taken from `s'`. -/
def Store.takePayment (t : Store) (id : UInt64) (s' : Store) : Store :=
  ⟨t.paymentCount, Function.update t.payments id (s'.payments id)⟩

theorem Store.ext' {s t : Store} (count : s.paymentCount = t.paymentCount)
    (payments : s.payments = t.payments) : s = t := by
  cases s; cases t; cases count; cases payments; rfl

section Local

variable {env : Env} {s t s' : Store} {call : Call} {id : UInt64}

/-- **Locality.** A call with a target reads only its record: on a store that
agrees with `s` there, it returns what it returns at `s`, writing its record as
it does at `s` and keeping the rest of the store it runs on. -/
theorem step_local (target : call.target = some id) (slot : t.payments id = s.payments id) :
    step env call t = (step env call s).map fun out => (t.takePayment id out.1, out.2) := by
  cases call <;> cases target
  case getPayment =>
    have keep : t.takePayment id s = t := Store.ext' rfl (by
      rw [Store.takePayment, ← slot, Function.update_eq_self])
    simp only [step, getPayment, slot]
    cases s.payments id <;> simp [expect, Except.map, keep]
  all_goals
    simp only [step, executePayment, cancelPayment, except_map_bind, slot]
    simp only [Except.map, pure_eq_ok, Store.takePayment, Function.update_idem, Function.update_same]

/-- **Frame.** A successful call with a target keeps the counter and every
record but its own. -/
theorem step_frame (target : call.target = some id) {r : Receipt Returned RecurEvent}
    (h : step env call s = .ok (s', r)) :
    s'.paymentCount = s.paymentCount ∧ ∀ k, k ≠ id → s'.payments k = s.payments k := by
  rcases step_cases h with ⟨_, _, _, _, _, _, _, rfl, -⟩ | ⟨_, _, rfl, hc, -⟩ |
    ⟨_, _, rfl, hc, -⟩ | ⟨_, _, rfl, rfl, -⟩ <;> cases target
  · exact ⟨(executePayment_frame hc).1, (executePayment_frame hc).2.2⟩
  · exact ⟨(cancelPayment_frame hc).1, (cancelPayment_frame hc).2.2⟩
  · exact ⟨rfl, fun _ _ => rfl⟩

end Local

/-! ### Calls against the token -/

/-- The transfer a call makes if it gets that far: an execution pays its
record's instalment, and no other entry point transfers. -/
def Call.transferAt (s : Store) : Call → Option Transfer
  | .executePayment paymentId => (s.payments paymentId).map RecurringPayment.instalment
  | _ => none

section Token

variable {env : Env} {s s' : Store} {call : Call}

/-- A successful call makes exactly its transfer. -/
theorem step_transfers {r : Receipt Returned RecurEvent} (h : step env call s = .ok (s', r)) :
    r.transfers = (call.transferAt s).toList := by
  rcases step_cases h with ⟨_, _, _, _, _, _, _, rfl, hc, rfl⟩ | ⟨_, _, rfl, hc, rfl⟩ |
    ⟨_, _, rfl, hc, rfl⟩ | ⟨_, _, rfl, rfl, rfl⟩
  · obtain ⟨-, -, -, -, -, none, -⟩ := createPayment_spec hc
    exact none
  · obtain ⟨p, -, stored, -, -, -, -, -, rfl⟩ := executePayment_spec hc
    simp [Call.transferAt, stored, Receipt.mapValue, RecurringPayment.instalment]
  · obtain ⟨-, -, -, -, -, rfl⟩ := cancelPayment_spec hc
    rfl
  · rfl

/-- The token's balances matter to a call only at the source of its transfer. -/
theorem step_against {b b' : Balances}
    (agree : ∀ t ∈ call.transferAt s, b' t.token t.source = b t.token t.source) :
    step (env.against b') call s = step (env.against b) call s := by
  cases call with
  | executePayment paymentId =>
      cases stored : s.payments paymentId with
      | none => simp only [step, executePayment, stored, expect, throw_eq_error, error_bind]
      | some p =>
          have source : b' p.token p.sender = b p.token p.sender :=
            agree p.instalment (by simp [Call.transferAt, stored])
          simp only [step, executePayment, stored, expect, Env.against_timestamp, pure_eq_ok,
            ok_bind, transfer_against source]
  | _ => rfl

end Token

/-- **Calls on different payments commute against the token**, under the
host's commit and rollback, when neither's transfer draws on an account the
other's transfer moves: either order reaches the same store and balances, and
gives each call the outcome it has when it runs first. -/
theorem commute_of_target_ne {e₁ e₂ : Env} {c₁ c₂ : Call} {i j : UInt64} {s : Store}
    {b : Balances} (target₁ : c₁.target = some i) (target₂ : c₂.target = some j) (ne : i ≠ j)
    (apart : ∀ t₁ ∈ c₁.transferAt s, ∀ t₂ ∈ c₂.transferAt s, t₁.Apart t₂) :
    Commute (withToken step) (s, b) e₁ c₁ e₂ c₂ :=
  commute_withToken (fun t s₁ => t.takePayment i s₁) (fun t s₂ => t.takePayment j s₂)
    (fun _ _ _ _ h₂ => step_local target₁ ((step_frame target₂ h₂).2 _ ne))
    (fun _ _ _ _ h₁ => step_local target₂ ((step_frame target₁ h₁).2 _ ne.symm))
    (fun _ _ _ _ _ _ h₁ h₂ => Store.ext' ((step_frame target₁ h₁).1.trans (step_frame target₂ h₂).1.symm)
      (update_merge_comm ne (step_frame target₁ h₁).2 (step_frame target₂ h₂).2))
    (fun _ agree => step_against agree) (fun _ agree => step_against agree)
    (fun _ _ h => step_transfers h) (fun _ _ h => step_transfers h) apart

/-- **Independent schedules.** In every run against the token, two adjacent
calls that execute, cancel or read different payments, neither of which draws
on an account that the other's transfer moves at the store the run has reached,
can be exchanged: the final store and balances are the same, and the log
differs only in the order of their two entries, so every call of the run has
the same outcome. -/
theorem runFrom_swap_payments {e₁ e₂ : Env} {c₁ c₂ : Call} {i j : UInt64}
    (target₁ : c₁.target = some i) (target₂ : c₂.target = some j) (ne : i ≠ j)
    (st : (Store × Balances) × Log) (pre post : List (Env × Call))
    (apart : ∀ t₁ ∈ c₁.transferAt (runFrom (withToken step) st pre).1.1,
      ∀ t₂ ∈ c₂.transferAt (runFrom (withToken step) st pre).1.1, t₁.Apart t₂) :
    (runFrom (withToken step) st (pre ++ (e₁, c₁) :: (e₂, c₂) :: post)).1 =
      (runFrom (withToken step) st (pre ++ (e₂, c₂) :: (e₁, c₁) :: post)).1 ∧
    ∃ A B l₁ l₂,
      (runFrom (withToken step) st (pre ++ (e₁, c₁) :: (e₂, c₂) :: post)).2 = A ++ l₁ :: l₂ :: B ∧
      (runFrom (withToken step) st (pre ++ (e₂, c₂) :: (e₁, c₁) :: post)).2 = A ++ l₂ :: l₁ :: B :=
  runFrom_swap_at st pre post (commute_of_target_ne target₁ target₂ ne apart)

/-- Two hourly schedules of different senders in one token, each sender holding
1000: keepers' executions of the two give the same store and balances in
either order. -/
theorem runFrom_swap_payments_two_senders :
    let env : Env := ⟨8700, fun _ => true, fun _ => true, ⟨0⟩⟩
    let created : List (Env × Call) :=
      [(⟨1000, fun _ => true, fun _ => true, ⟨0⟩⟩, .createPayment ⟨1⟩ ⟨2⟩ ⟨3⟩ 100 3600 1000),
        (⟨1000, fun _ => true, fun _ => true, ⟨0⟩⟩, .createPayment ⟨4⟩ ⟨5⟩ ⟨3⟩ 50 3600 1000)]
    let st : (Store × Balances) × Log := ((Store.empty, fun _ _ => 1000), [])
    (Call.executePayment 1).target = some 1 ∧ (Call.executePayment 2).target = some 2 ∧
      (1 : UInt64) ≠ 2 ∧
      (∀ t₁ ∈ (Call.executePayment 1).transferAt (runFrom (withToken step) st created).1.1,
        ∀ t₂ ∈ (Call.executePayment 2).transferAt (runFrom (withToken step) st created).1.1,
          t₁.Apart t₂) ∧
      (runFrom (withToken step) st
          (created ++ (env, .executePayment 1) :: (env, .executePayment 2) :: [])).1 =
        (runFrom (withToken step) st
          (created ++ (env, .executePayment 2) :: (env, .executePayment 1) :: [])).1 ∧
      ∃ A B l₁ l₂,
        (runFrom (withToken step) st
          (created ++ (env, .executePayment 1) :: (env, .executePayment 2) :: [])).2 =
          A ++ l₁ :: l₂ :: B ∧
        (runFrom (withToken step) st
          (created ++ (env, .executePayment 2) :: (env, .executePayment 1) :: [])).2 =
          A ++ l₂ :: l₁ :: B :=
  ⟨rfl, rfl, by decide, by decide,
    runFrom_swap_payments (show (Call.executePayment 1).target = some 1 from rfl)
      (show (Call.executePayment 2).target = some 2 from rfl) (by decide) _ _ _ (by decide)⟩

end StellarSpend.Recurring
