import StellarSpend.Recurring.CatchUp
import StellarSpend.Recurring.Registry

/-!
# How often a schedule can be paid

However the calls of a run are ordered and whatever ledger times they carry
(the clock need not be monotone), a schedule created with start time `s` and
interval `i` is executed successfully at most `⌊(T - s) / i⌋ + 1` times at
ledger times `≤ T`, and never before `s`; each execution transfers exactly the
schedule's amount, so the sender is charged at most `amount` times that bound.

* `Paced` — the invariant of one schedule: its next execution lies after all its
  past executions and at least `s + (executions so far) * i`, the bound holds at
  every time, and each execution paid the amount of the creation.
* `Pacing` — the registry, no executions of ids not yet created, and `Paced` for
  every created id.
* `executions_bounded` — the bound over every run from the empty store.
-/

namespace StellarSpend.Recurring

/-- A successful `execute_payment(paymentId)` entry: its ledger time and its
transfers. -/
def executionOf (paymentId : UInt64) (e : Entry Call (Receipt Returned RecurEvent)) :
    Option (Nat × List Transfer) :=
  match e.call, e.result with
  | .executePayment id, .ok r => if id = paymentId then some (e.env.timestamp.toNat, r.transfers) else none
  | _, _ => none

/-- The successful executions of a schedule in a log, in call order. -/
def executions (paymentId : UInt64) (log : Log) : List (Nat × List Transfer) :=
  log.filterMap (executionOf paymentId)

/-- The successful executions of a schedule at ledger times `≤ T`. -/
def executedBy (paymentId : UInt64) (T : Nat) (log : Log) : List (Nat × List Transfer) :=
  (executions paymentId log).filter fun x => x.1 ≤ T

/-- What those executions charged in total. -/
def chargedBy (paymentId : UInt64) (T : Nat) (log : Log) : Int :=
  (((executedBy paymentId T log).flatMap Prod.snd).map Transfer.amount).sum

/-- The most executions a schedule from `start` every `interval` admits by `T`. -/
def maxExecutions (start interval T : Nat) : Nat :=
  if T < start then 0 else (T - start) / interval + 1

@[simp] theorem executions_append (paymentId : UInt64) (log : Log)
    (e : Entry Call (Receipt Returned RecurEvent)) :
    executions paymentId (log ++ [e]) = executions paymentId log ++ (executionOf paymentId e).toList := by
  cases h : executionOf paymentId e <;> simp [executions, List.filterMap_append, h]

/-- The pacing invariant of one schedule created as `c`, now stored as `p`, with
its executions `runs`. -/
structure Paced (c p : RecurringPayment) (runs : List (Nat × List Transfer)) : Prop where
  before : ∀ x ∈ runs, x.1 < p.nextExecution.toNat
  spaced : c.nextExecution.toNat + runs.length * c.interval.toNat ≤ p.nextExecution.toNat
  bounded : ∀ T, (runs.filter fun x => x.1 ≤ T).length ≤
    maxExecutions c.nextExecution.toNat c.interval.toNat T
  paid : ∀ x ∈ runs, x.2 = [⟨c.token, c.sender, c.recipient, c.amount⟩]

theorem paced_created (c : RecurringPayment) : Paced c c [] :=
  ⟨by simp, by simp, by simp, by simp⟩

/-- `Paced` reads the stored record only through its next execution. -/
theorem Paced.of_next_eq {c p q : RecurringPayment} {runs : List (Nat × List Transfer)}
    (paced : Paced c p runs) (next : q.nextExecution = p.nextExecution) : Paced c q runs :=
  ⟨next ▸ paced.before, next ▸ paced.spaced, paced.bounded, paced.paid⟩

/-- One more execution at time `t ≥ n` moving the schedule to `n' ≥ n + i`,
with `n' > t`. -/
theorem Paced.execute {c p : RecurringPayment} {runs : List (Nat × List Transfer)} {t : Nat}
    {next : UInt64} (paced : Paced c p runs) (hi : p.interval = c.interval)
    (hpos : 0 < c.interval.toNat) (due : p.nextExecution.toNat ≤ t) (after : t < next.toNat)
    (gap : p.nextExecution.toNat + p.interval.toNat ≤ next.toNat) :
    Paced c { p with nextExecution := next }
      (runs ++ [(t, [⟨c.token, c.sender, c.recipient, c.amount⟩])]) := by
  obtain ⟨before, spaced, bounded, paid⟩ := paced
  refine ⟨fun x mem => ?_, ?_, fun T => ?_, fun x mem => ?_⟩
  · rcases List.mem_append.mp mem with old | new
    · have := before x old; simp only; omega
    · simp only [List.mem_singleton] at new; subst new; exact after
  · simp only [List.length_append, List.length_singleton, Nat.succ_mul]; rw [hi] at gap; omega
  · by_cases late : t ≤ T
    · have all : runs.filter (fun x => x.1 ≤ T) = runs :=
        List.filter_eq_self.mpr fun x mem => by have := before x mem; simp only [decide_eq_true_eq]; omega
      have count : runs.length ≤ (T - c.nextExecution.toNat) / c.interval.toNat :=
        (Nat.le_div_iff_mul_le hpos).mpr (by omega)
      simp only [List.filter_append, all, List.filter_cons, List.filter_nil, late,
        decide_True, if_true, List.length_append, List.length_singleton, maxExecutions]
      split <;> omega
    · simpa [List.filter_append, List.filter_cons, late] using bounded T
  · rcases List.mem_append.mp mem with old | new
    · exact paid x old
    · simp only [List.mem_singleton] at new; subst new; rfl

/-! ### The pacing invariant over runs -/

/-- The pacing invariant of the scheduler: its registry, no executions of ids
not created yet, and `Paced` for every created schedule. -/
structure Pacing (s : Store) (log : Log) : Prop where
  registry : Registry s (creations log)
  unborn : ∀ id, s.payments id = none → executions id log = []
  paced : ∀ id p c, s.payments id = some p → (.id id, c) ∈ creations log →
    Paced c p (executions id log)

theorem pacing_empty : Pacing Store.empty [] :=
  ⟨registry_empty, fun _ _ => rfl, fun _ _ _ h => by simp [Store.empty] at h⟩

section Preservation

variable {s s' : Store} {log : Log} {env : Env}

theorem Pacing.create {sender recipient token : Address} {amount : Int}
    {interval startTime : UInt64} {r : Receipt UInt64 RecurEvent} (inv : Pacing s log)
    (h : createPayment env s sender recipient token amount interval startTime = .ok (s', r)) :
    Pacing s' (log ++ [⟨env, .createPayment sender recipient token amount interval startTime,
      .ok (r.mapValue .id)⟩]) := by
  have registry := inv.registry.create h
  obtain ⟨-, -, -, hid, rfl, -, -⟩ := createPayment_spec h
  have fresh : s.payments r.value = none := by
    have := inv.registry.stored r.value
    rw [hid, inv.registry.count] at this
    exact Option.not_isSome_iff_eq_none.mp fun h => by have := this.mp h; omega
  have noRun : ∀ x, executionOf x ⟨env, .createPayment sender recipient token amount interval
      startTime, .ok (r.mapValue .id)⟩ = none := fun _ => rfl
  refine ⟨by simpa [creationOf, Receipt.mapValue] using registry, fun x hx => ?_,
    fun x p c hp mem => ?_⟩
  · have ne : x ≠ r.value := by rintro rfl; simp at hx
    simp only [Function.update_apply, ne, if_false] at hx
    simpa [noRun] using inv.unborn x hx
  · simp only [noRun, executions_append, Option.toList_none, List.append_nil]
    simp only [creations_append, creationOf, Receipt.mapValue, Option.toList_some] at mem
    rcases update_eq_some hp with ⟨rfl, rfl⟩ | ⟨ne, hp⟩
    · rw [registry.unique mem (List.mem_append_right _ (List.mem_singleton_self _)),
        inv.unborn _ fresh]
      exact paced_created _
    · rcases List.mem_append.mp mem with old | new
      · exact inv.paced x p c hp old
      · simp only [List.mem_singleton, Prod.mk.injEq, Returned.id.injEq] at new
        exact absurd new.1 ne

theorem Pacing.execute {paymentId : UInt64} {r : Receipt Unit RecurEvent} (inv : Pacing s log)
    (h : executePayment env s paymentId = .ok (s', r)) :
    Pacing s' (log ++ [⟨env, .executePayment paymentId, .ok (r.mapValue fun _ => .unit)⟩]) := by
  obtain ⟨p, next, stored, -, -, -, hnext, rfl, rfl⟩ := executePayment_spec h
  obtain ⟨due, hi, -, value⟩ := catchUp_eq_ok.mp hnext
  have runsOf : ∀ x, executions x (log ++ [⟨env, .executePayment paymentId,
      .ok (Receipt.mapValue (fun _ => .unit) ⟨(), [⟨p.token, p.sender, p.recipient, p.amount⟩],
        [.executed paymentId p.amount next]⟩)⟩]) = executions x log ++
      if paymentId = x then [(env.timestamp.toNat, [⟨p.token, p.sender, p.recipient, p.amount⟩])]
      else [] := by
    intro x; by_cases hx : paymentId = x <;> simp [executionOf, hx, Receipt.mapValue]
  have registry := inv.registry.touch stored
    (show SameTerms { p with nextExecution := next } p by simp [SameTerms])
  refine ⟨by simpa [creationOf] using registry, fun x hx => ?_, fun x q c hq mem => ?_⟩
  · have ne : x ≠ paymentId := by rintro rfl; simp at hx
    simp only [Function.update_apply, ne, if_false] at hx
    simpa [runsOf, Ne.symm ne] using inv.unborn x hx
  · simp only [creations_append, creationOf, Option.toList_none, List.append_nil] at mem
    rcases update_eq_some hq with ⟨rfl, rfl⟩ | ⟨ne, hq⟩
    · obtain ⟨h1, h2, h3, h4, h5⟩ := inv.registry.terms_of_mem stored mem
      have step := (inv.paced _ p c stored mem).execute h5 (h5 ▸ hi) due
        (value ▸ lt_catchUpValue hi due) (value ▸ le_catchUpValue)
      rw [← h1, ← h2, ← h3, ← h4] at step
      rwa [runsOf, if_pos rfl]
    · simpa [runsOf, Ne.symm ne] using inv.paced x q c hq mem

theorem Pacing.cancel {paymentId : UInt64} {r : Receipt Unit RecurEvent} (inv : Pacing s log)
    (h : cancelPayment env s paymentId = .ok (s', r)) :
    Pacing s' (log ++ [⟨env, .cancelPayment paymentId, .ok (r.mapValue fun _ => .unit)⟩]) := by
  obtain ⟨p, stored, -, -, rfl, rfl⟩ := cancelPayment_spec h
  have registry := inv.registry.touch stored
    (show SameTerms { p with active := false } p by simp [SameTerms])
  refine ⟨by simpa [creationOf] using registry, fun x hx => ?_, fun x q c hq mem => ?_⟩
  · have ne : x ≠ paymentId := by rintro rfl; simp at hx
    simp only [Function.update_apply, ne, if_false] at hx
    simpa [executionOf] using inv.unborn x hx
  · simp only [creations_append, creationOf, Option.toList_none, List.append_nil] at mem
    simp only [executions_append, executionOf, Option.toList_none, List.append_nil]
    rcases update_eq_some hq with ⟨rfl, rfl⟩ | ⟨-, hq⟩
    · exact (inv.paced _ p c stored mem).of_next_eq rfl
    · exact inv.paced x q c hq mem

/-- A call that changes neither the store nor the creations and executions of
the log keeps the invariant. -/
theorem Pacing.quiet {e : Entry Call (Receipt Returned RecurEvent)} (inv : Pacing s log)
    (noCreation : creationOf e = none) (noRun : ∀ x, executionOf x e = none) :
    Pacing s (log ++ [e]) :=
  ⟨by simpa [noCreation] using inv.registry, fun x hx => by simpa [noRun] using inv.unborn x hx,
    fun x q c hq mem => by
      simpa [noRun] using inv.paced x q c hq (by simpa [noCreation] using mem)⟩

/-- Every successful call keeps the pacing invariant. -/
theorem Pacing.step {call : Call} {r : Receipt Returned RecurEvent} (inv : Pacing s log)
    (h : step env call s = .ok (s', r)) : Pacing s' (log ++ [⟨env, call, .ok r⟩]) := by
  rcases step_cases h with ⟨_, _, _, _, _, _, r₀, rfl, hc, rfl⟩ | ⟨id, r₀, rfl, hc, rfl⟩ |
    ⟨id, r₀, rfl, hc, rfl⟩ | ⟨id, p, rfl, rfl, rfl⟩
  · exact inv.create hc
  · exact inv.execute hc
  · exact inv.cancel hc
  · exact inv.quiet rfl fun _ => rfl

end Preservation

theorem pacing_run (calls : List (Env × Call)) :
    Pacing (run step Store.empty calls).1 (run step Store.empty calls).2 :=
  runFrom_invariant Pacing (fun _ _ _ _ _ _ inv h => inv.step h)
    (fun _ _ _ call _ inv _ => inv.quiet (by cases call <;> rfl) fun _ => by cases call <;> rfl)
    _ calls pacing_empty

/-- Executions that each transferred the same single instalment charged it once
per execution. -/
theorem charged_eq {runs : List (Nat × List Transfer)} {t : Transfer}
    (paid : ∀ x ∈ runs, x.2 = [t]) :
    ((runs.flatMap Prod.snd).map Transfer.amount).sum = runs.length * t.amount := by
  induction runs with
  | nil => simp
  | cons x runs ih =>
      have := ih fun y mem => paid y (List.mem_cons_of_mem _ mem)
      simp [List.flatMap_cons, List.sum_append, paid x (List.mem_cons_self _ _), this, Int.add_mul,
        Int.add_comm]

/-- **A schedule is never paid ahead of time.** In every run from a freshly
deployed scheduler, with any arguments and ledger times in any order, a schedule
that `create_payment` returned as `paymentId` for amount `a`, interval `i` and
start time `s` has at most `maxExecutions s i T` successful executions at ledger
times `≤ T` (none when `T < s`, at most `⌊(T - s) / i⌋ + 1` otherwise), and its
sender has been charged at most `a` times that. -/
theorem executions_bounded (calls : List (Env × Call)) (T : Nat) (paymentId : UInt64)
    (sender recipient token : Address) (amount : Int) (interval startTime : UInt64)
    (created : (.id paymentId, ⟨sender, recipient, token, amount, interval, startTime, true⟩) ∈
      creations (run step Store.empty calls).2) :
    (executedBy paymentId T (run step Store.empty calls).2).length ≤
        maxExecutions startTime.toNat interval.toNat T ∧
      chargedBy paymentId T (run step Store.empty calls).2 ≤
        amount * maxExecutions startTime.toNat interval.toNat T := by
  have inv := pacing_run calls
  obtain ⟨p, stored⟩ := inv.registry.stored_of_mem created
  have paced := inv.paced _ p _ stored created
  have count := paced.bounded T
  have amount_pos : 0 < amount := by
    have := (inv.registry.positive _ p stored).1
    rwa [(inv.registry.terms_of_mem stored created).2.2.2.1] at this
  refine ⟨count, ?_⟩
  rw [chargedBy, executedBy, charged_eq fun x mem => paced.paid x (List.mem_filter.mp mem).1,
    mul_comm]
  exact Int.mul_le_mul_of_nonneg_left (by exact_mod_cast count) (Int.le_of_lt amount_pos)

/-- A schedule from 1000 every hour, executed once at 8700: by time 10000 it has
one execution, within its bound of three. -/
theorem executions_bounded_hourly :
    let calls : List (Env × Call) :=
      [(⟨1000, fun _ => true, fun _ => true, ⟨0⟩⟩, .createPayment ⟨1⟩ ⟨2⟩ ⟨3⟩ 100 3600 1000),
        (⟨8700, fun _ => true, fun _ => true, ⟨0⟩⟩, .executePayment 1)]
    (.id 1, ⟨⟨1⟩, ⟨2⟩, ⟨3⟩, 100, 3600, 1000, true⟩) ∈ creations (run step Store.empty calls).2 ∧
      (executedBy 1 10000 (run step Store.empty calls).2).length ≤
        maxExecutions (1000 : UInt64).toNat (3600 : UInt64).toNat 10000 ∧
      chargedBy 1 10000 (run step Store.empty calls).2 ≤
        100 * maxExecutions (1000 : UInt64).toNat (3600 : UInt64).toNat 10000 :=
  ⟨by decide, executions_bounded _ 10000 1 ⟨1⟩ ⟨2⟩ ⟨3⟩ 100 3600 1000 (by decide)⟩

end StellarSpend.Recurring
