import StellarSpend.Recurring.Contract

/-!
# The payment registry over whole runs

From a freshly deployed scheduler, every run keeps the counter and the records
in step with the log of calls:

* `Registry` — `PaymentCount` is the number of successful `create_payment`
  calls, the `k`-th of them returned `k`, a `Payment(id)` record exists exactly
  for `1 ≤ id ≤ PaymentCount`, every record keeps the terms (sender, recipient,
  token, amount, interval) of the creation that returned its id, and every
  record has a positive amount and interval.
* `registry_run` — every run from the empty store satisfies `Registry`.
* `executePayment_frame`, `cancelPayment_frame` — an execution changes only
  the `next_execution` of its record, a cancellation only its `active` flag,
  and neither touches the counter or any other record.
* `canceled_frozen`, `cancel_is_final` — in a reachable store a canceled record
  never changes again, so every later execution or cancellation of it panics.
-/

namespace StellarSpend.Recurring

/-- A run's log of scheduler calls. -/
abbrev Log := List (Entry Call (Receipt Returned RecurEvent))

/-- What a log entry records of a successful `create_payment`: the value it
returned and the schedule it stored. -/
def creationOf (e : Entry Call (Receipt Returned RecurEvent)) :
    Option (Returned × RecurringPayment) :=
  match e.call, e.result with
  | .createPayment sender recipient token amount interval startTime, .ok r =>
      some (r.value, ⟨sender, recipient, token, amount, interval, startTime, true⟩)
  | _, _ => none

/-- The successful creations of a log, in call order. -/
def creations (log : Log) : List (Returned × RecurringPayment) := log.filterMap creationOf

/-- Two schedules with the same terms: everything `create_payment` fixed except
the due time and the status. -/
def SameTerms (p q : RecurringPayment) : Prop :=
  p.sender = q.sender ∧ p.recipient = q.recipient ∧ p.token = q.token ∧ p.amount = q.amount ∧
    p.interval = q.interval

/-- The registry invariant of a store and the successful creations that led
to it. -/
structure Registry (s : Store) (created : List (Returned × RecurringPayment)) : Prop where
  count : (s.paymentCount.getD 0).toNat = created.length
  ids : created.map Prod.fst = (List.range' 1 created.length).map fun k => .id (UInt64.ofNat k)
  stored : ∀ id, (s.payments id).isSome ↔ 1 ≤ id.toNat ∧ id.toNat ≤ created.length
  terms : ∀ id p, s.payments id = some p → ∃ c, (.id id, c) ∈ created ∧ SameTerms p c
  positive : ∀ id p, s.payments id = some p → 0 < p.amount ∧ 0 < p.interval.toNat

@[simp] theorem creations_append (log : Log) (e : Entry Call (Receipt Returned RecurEvent)) :
    creations (log ++ [e]) = creations log ++ (creationOf e).toList := by
  cases h : creationOf e <;> simp [creations, List.filterMap_append, h]

theorem SameTerms.trans {p q t : RecurringPayment} (pq : SameTerms p q) (qt : SameTerms q t) :
    SameTerms p t := by
  obtain ⟨h1, h2, h3, h4, h5⟩ := pq
  obtain ⟨k1, k2, k3, k4, k5⟩ := qt
  exact ⟨h1.trans k1, h2.trans k2, h3.trans k3, h4.trans k4, h5.trans k5⟩

theorem registry_empty : Registry Store.empty [] :=
  ⟨rfl, rfl, fun _ => by simp [Store.empty]; omega,
    fun _ _ h => by simp [Store.empty] at h, fun _ _ h => by simp [Store.empty] at h⟩

/-- A lookup after one record is rewritten. -/
theorem update_eq_some {f : UInt64 → Option RecurringPayment} {id x : UInt64}
    {q p : RecurringPayment} (h : Function.update f id (some q) x = some p) :
    (x = id ∧ p = q) ∨ (x ≠ id ∧ f x = some p) := by
  by_cases hx : x = id
  · subst hx; simp_all
  · simp_all [Function.update_apply]

section Preservation

variable {s s' : Store} {created : List (Returned × RecurringPayment)} {env : Env}

/-- A call that rewrites one existing record without changing its terms keeps
the registry. -/
theorem Registry.touch {id : UInt64} {p q : RecurringPayment} (inv : Registry s created)
    (stored : s.payments id = some p) (same : SameTerms q p) :
    Registry ⟨s.paymentCount, Function.update s.payments id (some q)⟩ created := by
  refine ⟨inv.count, inv.ids, fun x => ?_, fun x p' hp' => ?_, fun x p' hp' => ?_⟩
  · rw [← inv.stored x]
    by_cases hx : x = id <;> simp [Function.update_apply, hx, stored]
  · rcases update_eq_some hp' with ⟨rfl, rfl⟩ | ⟨-, hp⟩
    · obtain ⟨c, mem, sc⟩ := inv.terms _ p stored
      exact ⟨c, mem, same.trans sc⟩
    · exact inv.terms x p' hp
  · rcases update_eq_some hp' with ⟨rfl, rfl⟩ | ⟨-, hp⟩
    · obtain ⟨-, -, -, h4, h5⟩ := same
      exact h4 ▸ h5 ▸ inv.positive _ p stored
    · exact inv.positive x p' hp

theorem Registry.create {sender recipient token : Address} {amount : Int}
    {interval startTime : UInt64} {r : Receipt UInt64 RecurEvent} (inv : Registry s created)
    (h : createPayment env s sender recipient token amount interval startTime = .ok (s', r)) :
    Registry s' (created ++
      [(.id r.value, ⟨sender, recipient, token, amount, interval, startTime, true⟩)]) := by
  obtain ⟨-, hamount, hinterval, hid, rfl, -, -⟩ := createPayment_spec h
  have n_eq := inv.count
  have fits := u64_toNat_lt r.value
  have hne : ∀ x, x ≠ r.value ↔ x.toNat ≠ created.length + 1 := fun x => by
    rw [Ne, u64_eq_iff, hid, n_eq]
  have hval : r.value = UInt64.ofNat (created.length + 1) :=
    u64_eq_iff.mpr (by rw [u64_toNat_ofNat (by omega), hid, n_eq])
  refine ⟨?_, ?_, fun x => ?_, fun x p hp => ?_, fun x p hp => ?_⟩
  · simp [hid, n_eq]
  · rw [List.length_append, List.length_singleton, List.range'_concat, List.map_append,
      List.map_append, inv.ids, hval, Nat.one_mul, Nat.add_comm 1]
    rfl
  · by_cases hx : x = r.value
    · subst hx; simp [hid, n_eq]
    · have ne := (hne x).mp hx
      simp only [Function.update_apply, hx, if_false, inv.stored x, List.length_append,
        List.length_singleton]
      constructor <;> intro <;> omega
  · rcases update_eq_some hp with ⟨rfl, rfl⟩ | ⟨-, hp⟩
    · exact ⟨_, List.mem_append_right _ (List.mem_singleton_self _), by simp [SameTerms]⟩
    · obtain ⟨c, mem, same⟩ := inv.terms x p hp
      exact ⟨c, List.mem_append_left _ mem, same⟩
  · rcases update_eq_some hp with ⟨rfl, rfl⟩ | ⟨-, hp⟩
    · exact ⟨hamount, hinterval⟩
    · exact inv.positive x p hp

/-- Every successful call keeps the registry of its log. -/
theorem Registry.step {log : Log} {call : Call} {r : Receipt Returned RecurEvent}
    (inv : Registry s (creations log)) (h : step env call s = .ok (s', r)) :
    Registry s' (creations (log ++ [⟨env, call, .ok r⟩])) := by
  rcases step_cases h with ⟨_, _, _, _, _, _, r₀, rfl, hc, rfl⟩ | ⟨id, r₀, rfl, hc, rfl⟩ |
    ⟨id, r₀, rfl, hc, rfl⟩ | ⟨id, p, rfl, rfl, rfl⟩
  · simpa [creationOf, Receipt.mapValue] using inv.create hc
  · obtain ⟨p, next, stored, -, -, -, -, rfl, -⟩ := executePayment_spec hc
    simpa [creationOf] using inv.touch stored (by simp [SameTerms])
  · obtain ⟨p, stored, -, -, rfl, -⟩ := cancelPayment_spec hc
    simpa [creationOf] using inv.touch stored (by simp [SameTerms])
  · simpa [creationOf] using inv

end Preservation

/-- **The registry invariant holds after every run** from a freshly deployed
scheduler. -/
theorem registry_run (calls : List (Env × Call)) :
    Registry (run step Store.empty calls).1 (creations (run step Store.empty calls).2) :=
  runFrom_invariant (fun s log => Registry s (creations log)) (fun _ _ _ _ _ _ inv h => inv.step h)
    (fun _ _ _ _ _ inv _ => by simpa [creationOf] using inv) _ calls registry_empty

/-! ### Ids in the registry -/

section Ids

variable {s : Store} {created : List (Returned × RecurringPayment)}

/-- The creation at position `k` of the registry returned `k + 1`. -/
theorem Registry.id_of_mem (inv : Registry s created) {x : UInt64} {c : RecurringPayment}
    (mem : (.id x, c) ∈ created) : ∃ k, created[k]? = some (.id x, c) ∧ x.toNat = k + 1 := by
  obtain ⟨k, hk⟩ := List.mem_iff_getElem?.mp mem
  obtain ⟨len, -⟩ := List.getElem?_eq_some.mp hk
  have ids := congrArg (·[k]?) inv.ids
  simp only [List.getElem?_map, hk, Option.map_some', List.getElem?_range' _ _ len,
    Option.some.injEq, Returned.id.injEq] at ids
  have count := inv.count ▸ u64_toNat_lt (s.paymentCount.getD 0)
  refine ⟨k, hk, ?_⟩
  rw [ids, u64_toNat_ofNat (by omega)]
  omega

/-- Each id was returned by at most one creation. -/
theorem Registry.unique (inv : Registry s created) {x : UInt64} {c c' : RecurringPayment}
    (mem : (.id x, c) ∈ created) (mem' : (.id x, c') ∈ created) : c = c' := by
  obtain ⟨k, hk, hx⟩ := inv.id_of_mem mem
  obtain ⟨k', hk', hx'⟩ := inv.id_of_mem mem'
  obtain rfl : k = k' := by omega
  rw [hk] at hk'
  simpa using hk'

/-- A stored record has the terms of every creation that returned its id. -/
theorem Registry.terms_of_mem (inv : Registry s created) {x : UInt64} {p c : RecurringPayment}
    (stored : s.payments x = some p) (mem : (.id x, c) ∈ created) : SameTerms p c := by
  obtain ⟨c', mem', same⟩ := inv.terms x p stored
  exact inv.unique mem mem' ▸ same

/-- Every id a creation returned has its record. -/
theorem Registry.stored_of_mem (inv : Registry s created) {x : UInt64} {c : RecurringPayment}
    (mem : (.id x, c) ∈ created) : ∃ p, s.payments x = some p := by
  obtain ⟨k, hk, hx⟩ := inv.id_of_mem mem
  obtain ⟨len, -⟩ := List.getElem?_eq_some.mp hk
  exact Option.isSome_iff_exists.mp ((inv.stored x).mpr (by omega))

end Ids

/-! ### Frames of execution and cancellation -/

section Frames

variable {env : Env} {s s' : Store} {paymentId : UInt64} {r : Receipt Unit RecurEvent}

/-- An execution rewrites only the `next_execution` of its own record. -/
theorem executePayment_frame (h : executePayment env s paymentId = .ok (s', r)) :
    s'.paymentCount = s.paymentCount ∧
      (∃ p next, s.payments paymentId = some p ∧
        s'.payments paymentId = some { p with nextExecution := next }) ∧
      ∀ other, other ≠ paymentId → s'.payments other = s.payments other := by
  obtain ⟨p, next, stored, -, -, -, -, rfl, -⟩ := executePayment_spec h
  exact ⟨rfl, ⟨p, next, stored, by simp⟩, fun _ ne => by simp [Function.update_apply, ne]⟩

/-- A cancellation rewrites only the `active` flag of its own record. -/
theorem cancelPayment_frame (h : cancelPayment env s paymentId = .ok (s', r)) :
    s'.paymentCount = s.paymentCount ∧
      (∃ p, s.payments paymentId = some p ∧ s'.payments paymentId = some { p with active := false }) ∧
      ∀ other, other ≠ paymentId → s'.payments other = s.payments other := by
  obtain ⟨p, stored, -, -, rfl, -⟩ := cancelPayment_spec h
  exact ⟨rfl, ⟨p, stored, by simp⟩, fun _ ne => by simp [Function.update_apply, ne]⟩

end Frames

/-- **The scheduler's registry.** After every run from a freshly deployed
scheduler the counter counts the successful creations, the `k`-th of which
returned `k`; records exist exactly for the ids `1 … PaymentCount`, each with a
positive amount and interval and the terms of the creation that returned its
id. An execution changes only `next_execution`, and a cancellation only
`active`, of the targeted record, and neither touches the counter or any other
record. -/
theorem scheduler_registry (calls : List (Env × Call)) :
    Registry (run step Store.empty calls).1 (creations (run step Store.empty calls).2) ∧
    (∀ env s s' paymentId (r : Receipt Unit RecurEvent),
      executePayment env s paymentId = .ok (s', r) →
      s'.paymentCount = s.paymentCount ∧
        (∃ p next, s.payments paymentId = some p ∧
          s'.payments paymentId = some { p with nextExecution := next }) ∧
        ∀ other, other ≠ paymentId → s'.payments other = s.payments other) ∧
    (∀ env s s' paymentId (r : Receipt Unit RecurEvent),
      cancelPayment env s paymentId = .ok (s', r) →
      s'.paymentCount = s.paymentCount ∧
        (∃ p, s.payments paymentId = some p ∧
          s'.payments paymentId = some { p with active := false }) ∧
        ∀ other, other ≠ paymentId → s'.payments other = s.payments other) :=
  ⟨registry_run calls, fun _ _ _ _ _ h => executePayment_frame h,
    fun _ _ _ _ _ h => cancelPayment_frame h⟩

/-! ### Cancellation is final -/

theorem exists_error_of_not_ok {α : Type} {x : Except String α} (h : ∀ a, x ≠ .ok a) :
    ∃ e, x = .error e := by
  cases x with
  | error e => exact ⟨e, rfl⟩
  | ok a => exact absurd rfl (h a)

/-- In a store with its registry, no successful call changes a canceled record:
ids are never reissued, and execution and cancellation refuse inactive records. -/
theorem canceled_frozen {s s' : Store} {created : List (Returned × RecurringPayment)}
    {env : Env} {call : Call} {r : Receipt Returned RecurEvent} {paymentId : UInt64}
    {p : RecurringPayment} (inv : Registry s created) (stored : s.payments paymentId = some p)
    (canceled : p.active = false) (h : step env call s = .ok (s', r)) :
    s'.payments paymentId = some p := by
  rcases step_cases h with ⟨_, _, _, _, _, _, r₀, rfl, hc, rfl⟩ | ⟨id, r₀, rfl, hc, rfl⟩ |
    ⟨id, r₀, rfl, hc, rfl⟩ | ⟨id, q, rfl, rfl, rfl⟩
  · obtain ⟨-, -, -, hid, rfl, -, -⟩ := createPayment_spec hc
    have old := (inv.stored paymentId).mp (by simp [stored])
    have ne : paymentId ≠ r₀.value := fun e => by
      rw [e, hid, inv.count] at old; omega
    simp [Function.update_apply, ne, stored]
  · obtain ⟨q, next, hq, active, -, -, -, rfl, -⟩ := executePayment_spec hc
    have ne : paymentId ≠ id := fun e => by subst e; simp_all
    simp [Function.update_apply, ne, stored]
  · obtain ⟨q, hq, active, -, rfl, -⟩ := cancelPayment_spec hc
    have ne : paymentId ≠ id := fun e => by subst e; simp_all
    simp [Function.update_apply, ne, stored]
  · exact stored

/-- A canceled record refuses execution and cancellation: the host rolls the
call back, so the store is unchanged and no transfer is made. -/
theorem canceled_refuses {s : Store} {paymentId : UInt64} {p : RecurringPayment}
    (stored : s.payments paymentId = some p) (canceled : p.active = false) (env : Env) :
    (∃ e, commit step s env (.executePayment paymentId) =
      (s, ⟨env, .executePayment paymentId, .error e⟩)) ∧
    (∃ e, commit step s env (.cancelPayment paymentId) =
      (s, ⟨env, .cancelPayment paymentId, .error e⟩)) := by
  have noExec : ∀ out, step env (.executePayment paymentId) s ≠ .ok out := fun ⟨s', r⟩ h => by
    rcases step_cases h with ⟨_, _, _, _, _, _, _, ⟨⟩, _⟩ | ⟨_, _, ⟨⟩, hc, -⟩ |
      ⟨_, _, ⟨⟩, _⟩ | ⟨_, _, ⟨⟩, _⟩
    obtain ⟨q, _, hq, active, -⟩ := executePayment_spec hc
    simp_all
  have noCancel : ∀ out, step env (.cancelPayment paymentId) s ≠ .ok out := fun ⟨s', r⟩ h => by
    rcases step_cases h with ⟨_, _, _, _, _, _, _, ⟨⟩, _⟩ | ⟨_, _, ⟨⟩, _⟩ |
      ⟨_, _, ⟨⟩, hc, -⟩ | ⟨_, _, ⟨⟩, _⟩
    obtain ⟨q, hq, active, -⟩ := cancelPayment_spec hc
    simp_all
  obtain ⟨e, he⟩ := exists_error_of_not_ok noExec
  obtain ⟨e', he'⟩ := exists_error_of_not_ok noCancel
  exact ⟨⟨e, commit_of_error he⟩, ⟨e', commit_of_error he'⟩⟩

/-- **Cancellation is final.** No successful call of any run ever turns a
canceled record back on, or changes it at all; and once `cancel_payment(id)`
has succeeded, `Payment(id)` is inactive with its `next_execution` unchanged
in every later store, where every execution or cancellation of `id` fails,
leaving the store unchanged and transferring nothing. -/
theorem cancel_is_final :
    (∀ (calls : List (Env × Call)) env call s' (r : Receipt Returned RecurEvent) paymentId p,
      (run step Store.empty calls).1.payments paymentId = some p → p.active = false →
      step env call (run step Store.empty calls).1 = .ok (s', r) →
      s'.payments paymentId = some p) ∧
    (∀ (pre mid : List (Env × Call)) env paymentId s' (r : Receipt Returned RecurEvent),
      step env (.cancelPayment paymentId) (run step Store.empty pre).1 = .ok (s', r) →
      ∃ p, (run step Store.empty pre).1.payments paymentId = some p ∧ p.active = true ∧
        let later := (run step Store.empty (pre ++ (env, .cancelPayment paymentId) :: mid)).1
        later.payments paymentId = some { p with active := false } ∧
        ∀ env', (∃ e, commit step later env' (.executePayment paymentId) =
            (later, ⟨env', .executePayment paymentId, .error e⟩)) ∧
          (∃ e, commit step later env' (.cancelPayment paymentId) =
            (later, ⟨env', .cancelPayment paymentId, .error e⟩))) := by
  refine ⟨fun calls _ _ _ _ _ _ stored canceled h =>
    canceled_frozen (registry_run calls) stored canceled h, ?_⟩
  intro pre mid env paymentId s' r h
  rcases step_cases h with ⟨_, _, _, _, _, _, _, ⟨⟩, _⟩ | ⟨_, _, ⟨⟩, _⟩ |
    ⟨_, r₀, ⟨⟩, hc, rfl⟩ | ⟨_, _, ⟨⟩, _⟩
  obtain ⟨p, stored, active, -, hs', -⟩ := cancelPayment_spec hc
  refine ⟨p, stored, active, ?_⟩
  have run_eq : run step Store.empty (pre ++ (env, .cancelPayment paymentId) :: mid) =
      runFrom step (s', (run step Store.empty pre).2 ++
        [⟨env, .cancelPayment paymentId, .ok (r₀.mapValue fun _ => .unit)⟩]) mid := by
    rw [run_append, runFrom_cons, commit_of_ok h]
  have frozen := runFrom_invariant
    (fun s log => Registry s (creations log) ∧ s.payments paymentId = some { p with active := false })
    (fun _ _ _ _ _ _ inv h' => ⟨inv.1.step h', canceled_frozen inv.1 inv.2 rfl h'⟩)
    (fun _ _ _ _ _ inv _ => by simpa [creationOf] using inv)
    (s', (run step Store.empty pre).2 ++
      [⟨env, .cancelPayment paymentId, .ok (r₀.mapValue fun _ => .unit)⟩]) mid
    ⟨(registry_run pre).step h, by simp [hs']⟩
  rw [run_eq]
  exact ⟨frozen.2, canceled_refuses frozen.2 rfl⟩

/-- Sender 1 creates an hourly schedule and cancels it at time 2000, and a keeper
then tries to execute it: the record is inactive with its `next_execution`
kept, and every later execution or cancellation of it fails. -/
theorem cancel_is_final_after_create :
    let pre : List (Env × Call) :=
      [(⟨1000, fun a => a = ⟨1⟩, fun _ => true, ⟨0⟩⟩, .createPayment ⟨1⟩ ⟨2⟩ ⟨3⟩ 100 3600 1000)]
    let env : Env := ⟨2000, fun a => a = ⟨1⟩, fun _ => true, ⟨0⟩⟩
    let mid : List (Env × Call) := [(⟨8700, fun _ => true, fun _ => true, ⟨0⟩⟩, .executePayment 1)]
    ∃ (s' : Store) (r : Receipt Returned RecurEvent),
      step env (.cancelPayment 1) (run step Store.empty pre).1 = .ok (s', r) ∧
      ∃ p, (run step Store.empty pre).1.payments 1 = some p ∧ p.active = true ∧
        let later := (run step Store.empty (pre ++ (env, .cancelPayment 1) :: mid)).1
        later.payments 1 = some { p with active := false } ∧
        ∀ env', (∃ e, commit step later env' (.executePayment 1) =
            (later, ⟨env', .executePayment 1, .error e⟩)) ∧
          (∃ e, commit step later env' (.cancelPayment 1) =
            (later, ⟨env', .cancelPayment 1, .error e⟩)) := by
  intro pre env mid
  obtain ⟨s', r, h⟩ : ∃ (s' : Store) (r : Receipt Returned RecurEvent),
      step env (.cancelPayment 1) (run step Store.empty pre).1 = .ok (s', r) := ⟨_, _, rfl⟩
  exact ⟨s', r, h, cancel_is_final.2 pre mid env 1 s' r h⟩

end StellarSpend.Recurring
