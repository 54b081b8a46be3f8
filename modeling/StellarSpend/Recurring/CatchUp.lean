import StellarSpend.Recurring.Contract

/-!
# Catch-up scheduling

`execute_payment` moves `next_execution` from `n` to
`n + ((c - n) / i + 1) * i` at ledger time `c ≥ n`, with every `u64`
operation checked. This module says what that value is and when the update
aborts.

* `catchUp_eq_ok` — the update returns exactly when `n ≤ c`, `0 < i` and the
  exact value `catchUpValue n i c` fits in 64 bits, and then returns that value:
  an intermediate overflow can only happen when the final sum overflows too.
* `catchUpValue_least` — the value is the least `n + k * i` with `k ≥ 1`
  beyond `c`: floor plus one, not the ceiling of the source comment, which
  would give `c` itself when `c - n` is a multiple of `i`.
* `executePayment_catch_up` — one successful execution makes exactly one
  transfer and moves the schedule to that least boundary.
* `executePayment_overflow_iff` — on a due, active schedule the call aborts on
  overflow exactly when the boundary lies past `2^64 - 1`, and otherwise lands
  strictly after `c`; `create_payment` accepts schedules that can never be
  executed (`max_interval_never_executes`).
-/

namespace StellarSpend.Recurring

/-- The exact value of the catch-up update, over `Nat`. -/
def catchUpValue (n i c : Nat) : Nat := n + ((c - n) / i + 1) * i

/-! ### Floor arithmetic -/

section Floor

variable {n i c : Nat}

theorem lt_catchUpValue (hi : 0 < i) (due : n ≤ c) : c < catchUpValue n i c := by
  have : c - n < (c - n) / i * i + i := Nat.lt_div_mul_add hi
  unfold catchUpValue; rw [Nat.succ_mul]; omega

theorem catchUpValue_le (due : n ≤ c) : catchUpValue n i c ≤ c + i := by
  have : (c - n) / i * i ≤ c - n := Nat.div_mul_le_self _ _
  unfold catchUpValue; rw [Nat.succ_mul]; omega

theorem le_catchUpValue : n + i ≤ catchUpValue n i c := by
  unfold catchUpValue; rw [Nat.succ_mul]; omega

/-- Any boundary `n + k * i` beyond `c` is at or after the catch-up value. -/
theorem catchUpValue_least (hi : 0 < i) (due : n ≤ c) {k : Nat} (beyond : c < n + k * i) :
    catchUpValue n i c ≤ n + k * i := by
  have : (c - n) / i < k := (Nat.div_lt_iff_lt_mul hi).mpr (by omega)
  exact Nat.add_le_add_left (Nat.mul_le_mul_right _ this) _

end Floor

/-- The checked update returns exactly the catch-up value, when that value
fits; the earlier operations overflow only when the final sum does. -/
theorem catchUp_eq_ok {n i c next : UInt64} :
    catchUp n i c = .ok next ↔
      n.toNat ≤ c.toNat ∧ 0 < i.toNat ∧ catchUpValue n.toNat i.toNat c.toNat < 2 ^ 64 ∧
        next.toNat = catchUpValue n.toNat i.toNat c.toNat := by
  simp only [catchUp, bind_eq_ok, u64Sub_eq_ok, u64Div_eq_ok, u64Add_eq_ok, u64Mul_eq_ok,
    u64_toNat_one]
  constructor
  · rintro ⟨e, ⟨due, he⟩, q, ⟨hi, hq⟩, k, ⟨-, hk⟩, a, ⟨-, ha⟩, fits, hnext⟩
    simp only [ha, hk, hq, he] at fits hnext
    exact ⟨due, hi, fits, hnext⟩
  · rintro ⟨due, hi, fits, hnext⟩
    unfold catchUpValue at fits hnext
    have c_lt := u64_toNat_lt c
    have q_le : (c.toNat - n.toNat) / i.toNat ≤ c.toNat - n.toNat := Nat.div_le_self _ _
    have k_le := Nat.le_mul_of_pos_right ((c.toNat - n.toNat) / i.toNat + 1) hi
    refine ⟨UInt64.ofNat (c.toNat - n.toNat), ⟨due, u64_toNat_ofNat (by omega)⟩,
      UInt64.ofNat ((c.toNat - n.toNat) / i.toNat), ⟨hi, ?_⟩,
      UInt64.ofNat ((c.toNat - n.toNat) / i.toNat + 1), ⟨?_, ?_⟩,
      UInt64.ofNat (((c.toNat - n.toNat) / i.toNat + 1) * i.toNat), ⟨?_, ?_⟩, ?_, ?_⟩ <;>
      simp only [u64_toNat_ofNat (show c.toNat - n.toNat < 2 ^ 64 by omega),
        u64_toNat_ofNat (show (c.toNat - n.toNat) / i.toNat < 2 ^ 64 by omega),
        u64_toNat_ofNat (show (c.toNat - n.toNat) / i.toNat + 1 < 2 ^ 64 by omega),
        u64_toNat_ofNat (show ((c.toNat - n.toNat) / i.toNat + 1) * i.toNat < 2 ^ 64 by omega)] <;>
      omega

theorem catchUp_error {n i c : UInt64} {msg : String} (hi : 0 < i.toNat)
    (due : n.toNat ≤ c.toNat) (h : catchUp n i c = .error msg) :
    msg = "attempt to add with overflow" ∨ msg = "attempt to multiply with overflow" := by
  have sub : u64Sub c n = .ok (c - n) := by simp [u64Sub, u64_le_iff.mpr due]
  have div : u64Div (c - n) i = .ok ((c - n) / i) := by
    simp [u64Div, show i ≠ 0 from fun h => by simp [h] at hi]
  simp only [catchUp, sub, div, ok_bind] at h
  unfold u64Add u64Mul at h
  split at h
  · simp only [pure_eq_ok, ok_bind] at h
    split at h
    · simp only [pure_eq_ok, ok_bind] at h
      split at h <;> simp_all
    · simp_all
  · simp_all

/-! ### The catch-up step of `execute_payment` -/

/-- **Catch-up is floor plus one.** A successful execution at ledger time `c`
on a schedule with interval `i` and next execution `n` makes exactly one
transfer, of the payment's amount from its sender to its recipient, and moves
the schedule to the least `n + k * i` with `k ≥ 1` strictly after `c`: so
`c < n' ≤ c + i`, `n' ≥ n + i` and `i` divides `n' - n`. -/
theorem executePayment_catch_up {env : Env} {s s' : Store} {paymentId : UInt64}
    {r : Receipt Unit RecurEvent} (h : executePayment env s paymentId = .ok (s', r)) :
    ∃ p next, s.payments paymentId = some p ∧
      s'.payments paymentId = some { p with nextExecution := next } ∧
      r.transfers = [⟨p.token, p.sender, p.recipient, p.amount⟩] ∧
      (∃ k, 1 ≤ k ∧ next.toNat = p.nextExecution.toNat + k * p.interval.toNat) ∧
      env.timestamp.toNat < next.toNat ∧
      (∀ k, 1 ≤ k → env.timestamp.toNat < p.nextExecution.toNat + k * p.interval.toNat →
        next.toNat ≤ p.nextExecution.toNat + k * p.interval.toNat) ∧
      next.toNat ≤ env.timestamp.toNat + p.interval.toNat ∧
      p.nextExecution.toNat + p.interval.toNat ≤ next.toNat ∧
      p.interval.toNat ∣ next.toNat - p.nextExecution.toNat := by
  obtain ⟨p, next, stored, -, -, -, hnext, rfl, rfl⟩ := executePayment_spec h
  obtain ⟨due, hi, -, value⟩ := catchUp_eq_ok.mp hnext
  refine ⟨p, next, stored, by simp, rfl, ⟨_, Nat.succ_pos _, value⟩, ?_, ?_, ?_, ?_, ?_⟩
  · exact value ▸ lt_catchUpValue hi due
  · exact fun k _ beyond => value ▸ catchUpValue_least hi due beyond
  · exact value ▸ catchUpValue_le due
  · exact value ▸ le_catchUpValue
  · exact ⟨_, by rw [value, catchUpValue, Nat.add_sub_cancel_left, Nat.mul_comm]⟩

/-- The spec's example: scheduled at 1000, interval 3600, executed at 8700,
2.5 intervals late; one transfer, and the next execution is 11800. -/
theorem executePayment_catch_up_late :
    let env : Env := ⟨8700, fun _ => true, fun _ => true, ⟨0⟩⟩
    let s : Store := ⟨some 1, Function.update (fun _ => none) 1
      (some ⟨⟨1⟩, ⟨2⟩, ⟨3⟩, 100, 3600, 1000, true⟩)⟩
    ∃ s' r, executePayment env s 1 = .ok (s', r) ∧
      ∃ p next, s.payments 1 = some p ∧
        s'.payments 1 = some { p with nextExecution := next } ∧
        r.transfers = [⟨p.token, p.sender, p.recipient, p.amount⟩] ∧
        (∃ k, 1 ≤ k ∧ next.toNat = p.nextExecution.toNat + k * p.interval.toNat) ∧
        env.timestamp.toNat < next.toNat ∧
        (∀ k, 1 ≤ k → env.timestamp.toNat < p.nextExecution.toNat + k * p.interval.toNat →
          next.toNat ≤ p.nextExecution.toNat + k * p.interval.toNat) ∧
        next.toNat ≤ env.timestamp.toNat + p.interval.toNat ∧
        p.nextExecution.toNat + p.interval.toNat ≤ next.toNat ∧
        p.interval.toNat ∣ next.toNat - p.nextExecution.toNat :=
  ⟨_, _, rfl, executePayment_catch_up rfl⟩

/-- `execute_payment` on a stored, active, due schedule whose instalment the
token accepts: everything before the catch-up update has passed. -/
theorem executePayment_of_due {env : Env} {s : Store} {paymentId : UInt64}
    {p : RecurringPayment} (stored : s.payments paymentId = some p) (active : p.active = true)
    (due : p.nextExecution.toNat ≤ env.timestamp.toNat)
    (accepted : env.accepts ⟨p.token, p.sender, p.recipient, p.amount⟩ = true) :
    executePayment env s paymentId = (do
      let next ← catchUp p.nextExecution p.interval env.timestamp
      pure (⟨s.paymentCount, Function.update s.payments paymentId
          (some { p with nextExecution := next })⟩,
        ⟨(), [⟨p.token, p.sender, p.recipient, p.amount⟩], [.executed paymentId p.amount next]⟩)) := by
  have notEarly : ¬ env.timestamp < p.nextExecution := by rw [u64_lt_iff]; omega
  simp [executePayment, stored, expect, active, panicIf, notEarly, transfer, accepted]

/-- **The catch-up update never wraps.** On a stored, active schedule with a
positive interval, at a ledger time `c ≥ n` at which the token accepts the
instalment, `execute_payment` aborts with an overflow panic exactly when the
next boundary `n + ((c - n) / i + 1) * i` lies beyond `u64::MAX`; otherwise it
succeeds and the new `next_execution` is that boundary, strictly after `c`. -/
theorem executePayment_overflow_iff {env : Env} {s : Store} {paymentId : UInt64}
    {p : RecurringPayment} (stored : s.payments paymentId = some p) (active : p.active = true)
    (hi : 0 < p.interval.toNat) (due : p.nextExecution.toNat ≤ env.timestamp.toNat)
    (accepted : env.accepts ⟨p.token, p.sender, p.recipient, p.amount⟩ = true) :
    (2 ^ 64 ≤ catchUpValue p.nextExecution.toNat p.interval.toNat env.timestamp.toNat →
      ∃ msg, executePayment env s paymentId = .error msg ∧
        (msg = "attempt to add with overflow" ∨ msg = "attempt to multiply with overflow")) ∧
    (catchUpValue p.nextExecution.toNat p.interval.toNat env.timestamp.toNat < 2 ^ 64 →
      ∃ s' r next, executePayment env s paymentId = .ok (s', r) ∧
        s'.payments paymentId = some { p with nextExecution := next } ∧
        next.toNat = catchUpValue p.nextExecution.toNat p.interval.toNat env.timestamp.toNat ∧
        env.timestamp.toNat < next.toNat) := by
  rw [executePayment_of_due stored active due accepted]
  constructor
  · intro overflows
    cases h : catchUp p.nextExecution p.interval env.timestamp with
    | error msg => exact ⟨msg, rfl, catchUp_error hi due h⟩
    | ok next => exact absurd (catchUp_eq_ok.mp h).2.2.1 (by omega)
  · intro fits
    obtain ⟨next, hnext⟩ : ∃ next : UInt64,
        next.toNat = catchUpValue p.nextExecution.toNat p.interval.toNat env.timestamp.toNat :=
      ⟨UInt64.ofNat _, u64_toNat_ofNat fits⟩
    have ok := catchUp_eq_ok.mpr ⟨due, hi, fits, hnext⟩
    exact ⟨_, _, next, by rw [ok]; rfl, by simp, hnext, hnext ▸ lt_catchUpValue hi due⟩

/-- An hourly schedule due at 1000, executed at 8700: its boundary 11800 fits. -/
theorem executePayment_overflow_iff_hourly :
    let p : RecurringPayment := ⟨⟨1⟩, ⟨2⟩, ⟨3⟩, 100, 3600, 1000, true⟩
    let s : Store := ⟨some 1, Function.update (fun _ => none) 1 (some p)⟩
    let env : Env := ⟨8700, fun _ => true, fun _ => true, ⟨0⟩⟩
    (s.payments 1 = some p ∧ p.active = true ∧ 0 < p.interval.toNat ∧
      p.nextExecution.toNat ≤ env.timestamp.toNat ∧
      env.accepts ⟨p.token, p.sender, p.recipient, p.amount⟩ = true) ∧
    (2 ^ 64 ≤ catchUpValue p.nextExecution.toNat p.interval.toNat env.timestamp.toNat →
      ∃ msg, executePayment env s 1 = .error msg ∧
        (msg = "attempt to add with overflow" ∨ msg = "attempt to multiply with overflow")) ∧
    (catchUpValue p.nextExecution.toNat p.interval.toNat env.timestamp.toNat < 2 ^ 64 →
      ∃ s' r next, executePayment env s 1 = .ok (s', r) ∧
        s'.payments 1 = some { p with nextExecution := next } ∧
        next.toNat = catchUpValue p.nextExecution.toNat p.interval.toNat env.timestamp.toNat ∧
        env.timestamp.toNat < next.toNat) :=
  ⟨⟨rfl, rfl, by decide, by decide, rfl⟩,
    executePayment_overflow_iff (by simp) rfl (by decide) (by decide) rfl⟩

/-- `create_payment` accepts a schedule with `interval = u64::MAX` and
`start_time = 1`, and no later call can ever execute it: every due time's
catch-up boundary is `2^64`. -/
theorem max_interval_never_executes :
    ∃ s r, createPayment ⟨1, fun _ => true, fun _ => true, ⟨0⟩⟩ Store.empty ⟨1⟩ ⟨2⟩ ⟨3⟩ 100
        18446744073709551615 1 = .ok (s, r) ∧
      r.value = 1 ∧ ∀ env out, executePayment env s 1 ≠ .ok out := by
  refine ⟨⟨some 1, Function.update (fun _ => none) 1 (some ⟨⟨1⟩, ⟨2⟩, ⟨3⟩, 100,
    18446744073709551615, 1, true⟩)⟩, ⟨1, [], [.created 1 ⟨1⟩]⟩, rfl, rfl, fun env out h => ?_⟩
  obtain ⟨p, next, stored, -, -, -, hnext, -⟩ := executePayment_spec h
  simp only [Function.update_same, Option.some.injEq] at stored
  subst stored
  have fits := (catchUp_eq_ok.mp hnext).2.2.1
  have max : (18446744073709551615 : UInt64).toNat = 2 ^ 64 - 1 := rfl
  simp only [u64_toNat_one, max] at fits
  have := @le_catchUpValue 1 (2 ^ 64 - 1) env.timestamp.toNat
  omega

end StellarSpend.Recurring
