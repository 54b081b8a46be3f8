import StellarSpend.Recurring.Pacing

/-!
# The life of one schedule, and who pays for it

More facts about every run from a freshly deployed scheduler. Each holds
whatever ledger times the calls carry and in whatever order they come.

* `records_run` — a relation between a stored record and the creation that
  returned its id holds of every record of every run once creation
  establishes it and execution and cancellation keep it;
* `nextExecution_on_grid` — `next_execution` always lies on the schedule's
  grid `start_time + k * interval`, with `k` at least the number of executions
  so far: catching up never moves a schedule off its grid;
* `executions_increasing` — the executions of one schedule happen at strictly
  increasing ledger times, even where the ledger clock of the calls goes back;
* `transfers_authorized` — every transfer of every successful call is the
  instalment of an earlier successful `create_payment` that its sender
  authorized: `execute_payment` needs no authorization, and moves only what a
  sender agreed to;
* `cancel_authorized` — every inactive record goes back to a successful
  `cancel_payment` that its sender authorized.
-/

namespace StellarSpend.Recurring

/-! ### Relations between a record and its creation -/

section Records

variable (Q : RecurringPayment → RecurringPayment → Prop)

/-- The registry, and `Q` between every stored record and the creation that
returned its id. -/
def Records (s : Store) (log : Log) : Prop :=
  Registry s (creations log) ∧
    ∀ id p c, s.payments id = some p → (.id id, c) ∈ creations log → Q c p

variable {Q} {s s' : Store} {log : Log} {env : Env}

theorem Records.create (created : ∀ c, Q c c) {sender recipient token : Address} {amount : Int}
    {interval startTime : UInt64} {r : Receipt UInt64 RecurEvent} (inv : Records Q s log)
    (h : createPayment env s sender recipient token amount interval startTime = .ok (s', r)) :
    Records Q s' (log ++ [⟨env, .createPayment sender recipient token amount interval startTime,
      .ok (r.mapValue .id)⟩]) := by
  have registry := inv.1.create h
  obtain ⟨-, -, -, -, rfl, -, -⟩ := createPayment_spec h
  refine ⟨by simpa [creationOf, Receipt.mapValue] using registry, fun x p c hp mem => ?_⟩
  simp only [creations_append, creationOf, Receipt.mapValue, Option.toList_some] at mem
  rcases update_eq_some hp with ⟨rfl, rfl⟩ | ⟨ne, hp⟩
  · rw [registry.unique mem (List.mem_append_right _ (List.mem_singleton_self _))]
    exact created _
  · rcases List.mem_append.mp mem with old | new
    · exact inv.2 x p c hp old
    · simp only [List.mem_singleton, Prod.mk.injEq, Returned.id.injEq] at new
      exact absurd new.1 ne

/-- A call that rewrites one record, relating the new record to its creation
whenever the old one was, keeps `Records`. -/
theorem Records.touch {id : UInt64} {p q : RecurringPayment} (inv : Records Q s log)
    (stored : s.payments id = some p) (same : SameTerms q p) (keeps : ∀ c, Q c p → SameTerms p c → Q c q)
    {e : Entry Call (Receipt Returned RecurEvent)} (noCreation : creationOf e = none) :
    Records Q ⟨s.paymentCount, Function.update s.payments id (some q)⟩ (log ++ [e]) := by
  refine ⟨by simpa [noCreation] using inv.1.touch stored same, fun x p' c hp' mem => ?_⟩
  simp only [creations_append, noCreation, Option.toList_none, List.append_nil] at mem
  rcases update_eq_some hp' with ⟨rfl, rfl⟩ | ⟨-, hp'⟩
  · exact keeps c (inv.2 _ p c stored mem) (inv.1.terms_of_mem stored mem)
  · exact inv.2 x p' c hp' mem

/-- An entry that creates nothing, with the store unchanged, keeps `Records`. -/
theorem Records.quiet (inv : Records Q s log) {e : Entry Call (Receipt Returned RecurEvent)}
    (noCreation : creationOf e = none) : Records Q s (log ++ [e]) := by
  simpa only [Records, creations_append, noCreation, Option.toList_none, List.append_nil] using inv

variable (Q) in
/-- **Record induction.** A relation that creation establishes between a
schedule and itself, and that every execution and cancellation keeps, relates
every record of every run to the creation that returned its id. -/
theorem records_run (created : ∀ c, Q c c)
    (executed : ∀ c p t next, Q c p → SameTerms p c → p.nextExecution.toNat ≤ t.toNat →
      catchUp p.nextExecution p.interval t = .ok next → Q c { p with nextExecution := next })
    (canceled : ∀ c p, Q c p → Q c { p with active := false }) (calls : List (Env × Call)) :
    Records Q (run step Store.empty calls).1 (run step Store.empty calls).2 := by
  refine runFrom_invariant (Records Q) (fun _ _ _ _ _ _ inv h => ?_)
    (fun _ _ _ call _ inv _ => inv.quiet (by cases call <;> rfl)) _ calls
    ⟨registry_empty, fun _ _ _ h => by simp [Store.empty] at h⟩
  rcases step_cases h with ⟨_, _, _, _, _, _, r₀, rfl, hc, rfl⟩ | ⟨id, r₀, rfl, hc, rfl⟩ |
    ⟨id, r₀, rfl, hc, rfl⟩ | ⟨id, p, rfl, rfl, rfl⟩
  · exact inv.create created hc
  · obtain ⟨p, next, stored, -, due, -, hnext, rfl, -⟩ := executePayment_spec hc
    exact inv.touch stored (by simp [SameTerms]) (fun c hq same => executed c p _ next hq same due hnext) rfl
  · obtain ⟨p, stored, -, -, rfl, -⟩ := cancelPayment_spec hc
    exact inv.touch stored (by simp [SameTerms]) (fun c hq _ => canceled c p hq) rfl
  · exact inv.quiet rfl

end Records

/-! ### The grid of a schedule -/

/-- `next` lies on the grid of `c`: `start_time + k * interval`. -/
def OnGrid (c : RecurringPayment) (next : Nat) (k : Nat) : Prop :=
  next = c.nextExecution.toNat + k * c.interval.toNat

/-- **Catch-up stays on the grid.** In every run from a freshly deployed
scheduler, every stored record's `next_execution` is
`start_time + k * interval` for the creation that returned its id, with `k` at
least the number of its executions so far. -/
theorem nextExecution_on_grid (calls : List (Env × Call)) {id : UInt64} {p c : RecurringPayment}
    (stored : (run step Store.empty calls).1.payments id = some p)
    (created : (.id id, c) ∈ creations (run step Store.empty calls).2) :
    ∃ k, (executions id (run step Store.empty calls).2).length ≤ k ∧
      OnGrid c p.nextExecution.toNat k := by
  have grid := (records_run (fun c p => ∃ k, OnGrid c p.nextExecution.toNat k)
    (fun c => ⟨0, by simp [OnGrid]⟩)
    (fun c p t next ⟨k, hk⟩ same _ hnext => by
      obtain ⟨-, -, -, value⟩ := catchUp_eq_ok.mp hnext
      refine ⟨k + ((t.toNat - p.nextExecution.toNat) / p.interval.toNat + 1), ?_⟩
      rw [OnGrid, value, catchUpValue, hk, same.2.2.2.2]
      ring)
    (fun _ _ hq => hq) calls).2 id p c stored created
  obtain ⟨k, hk⟩ := grid
  have inv := pacing_run calls
  have spaced := (inv.paced id p c stored created).spaced
  have positive : 0 < c.interval.toNat :=
    (inv.registry.terms_of_mem stored created).2.2.2.2 ▸ (inv.registry.positive id p stored).2
  refine ⟨k, Nat.le_of_mul_le_mul_right ?_ positive, hk⟩
  rw [OnGrid] at hk
  omega

/-- The hourly schedule from 1000, executed once at 8700, is due next at
`1000 + 3 * 3600`. -/
theorem nextExecution_on_grid_hourly :
    let calls : List (Env × Call) :=
      [(⟨1000, fun _ => true, fun _ => true, ⟨0⟩⟩, .createPayment ⟨1⟩ ⟨2⟩ ⟨3⟩ 100 3600 1000),
        (⟨8700, fun _ => true, fun _ => true, ⟨0⟩⟩, .executePayment 1)]
    (run step Store.empty calls).1.payments 1 = some ⟨⟨1⟩, ⟨2⟩, ⟨3⟩, 100, 3600, 11800, true⟩ ∧
      (.id 1, ⟨⟨1⟩, ⟨2⟩, ⟨3⟩, 100, 3600, 1000, true⟩) ∈ creations (run step Store.empty calls).2 ∧
      ∃ k, (executions 1 (run step Store.empty calls).2).length ≤ k ∧
        OnGrid ⟨⟨1⟩, ⟨2⟩, ⟨3⟩, 100, 3600, 1000, true⟩ (11800 : UInt64).toNat k :=
  ⟨by decide, by decide, @nextExecution_on_grid _ 1 ⟨⟨1⟩, ⟨2⟩, ⟨3⟩, 100, 3600, 11800, true⟩
    ⟨⟨1⟩, ⟨2⟩, ⟨3⟩, 100, 3600, 1000, true⟩ (by decide) (by decide)⟩

/-! ### Executions in time order -/

/-- The executions of a schedule before a store with its record are all
earlier than its next execution. -/
theorem executions_before_of_stored {s : Store} {log : Log} {id : UInt64} {p : RecurringPayment}
    (inv : Pacing s log) (stored : s.payments id = some p) :
    ∀ x ∈ executions id log, x.1 < p.nextExecution.toNat := by
  obtain ⟨c, mem, -⟩ := inv.registry.terms id p stored
  exact (inv.paced id p c stored mem).before

/-- A successful call adds an execution of `x` only as an execution of `x`
at its ledger time, which is after every earlier execution of `x`. -/
theorem execution_after_earlier {s s' : Store} {log : Log} {env : Env} {call : Call}
    {r : Receipt Returned RecurEvent} (inv : Pacing s log) (h : step env call s = .ok (s', r))
    {x : UInt64} {t : Nat × List Transfer} (added : executionOf x ⟨env, call, .ok r⟩ = some t) :
    ∀ y ∈ executions x log, y.1 < t.1 := by
  rcases step_cases h with ⟨_, _, _, _, _, _, _, rfl, -⟩ | ⟨id, r₀, rfl, hc, rfl⟩ |
    ⟨_, _, rfl, -⟩ | ⟨_, _, rfl, -⟩ <;> simp only [executionOf, reduceCtorEq] at added
  split at added
  · subst_vars
    obtain ⟨p, -, stored, -, due, -⟩ := executePayment_spec hc
    cases added
    exact fun y mem => Nat.lt_of_lt_of_le (executions_before_of_stored inv stored y mem) due
  · cases added

/-- **Executions in time order.** In every run from a freshly deployed
scheduler, the successful executions of each schedule carry strictly increasing
ledger times, whatever the ledger times of the calls in between. -/
theorem executions_increasing (calls : List (Env × Call)) (id : UInt64) :
    ((executions id (run step Store.empty calls).2).map Prod.fst).Pairwise (· < ·) := by
  refine (runFrom_invariant (fun s log => Pacing s log ∧
      ∀ x, ((executions x log).map Prod.fst).Pairwise (· < ·))
    (fun _ _ _ env call r inv h => ⟨inv.1.step h, fun x => ?_⟩)
    (fun _ _ env call e inv _ => ?_) (Store.empty, []) calls ⟨pacing_empty, fun _ => List.Pairwise.nil⟩).2 id
  · rw [executions_append, List.map_append, List.pairwise_append]
    refine ⟨inv.2 x, ?_, fun a old b new => ?_⟩
    · cases executionOf x ⟨env, call, .ok r⟩ <;> simp
    · obtain ⟨y, mem, rfl⟩ := List.mem_map.mp old
      obtain ⟨z, added, rfl⟩ := List.mem_map.mp new
      exact execution_after_earlier inv.1 h (Option.mem_toList.mp added) y mem
  · have noRun : ∀ x, executionOf x ⟨env, call, .error e⟩ = none := fun _ => by cases call <;> rfl
    exact ⟨inv.1.quiet (by cases call <;> rfl) noRun, by simpa [noRun] using inv.2⟩

/-! ### Who pays -/

/-- A log entry of a successful `create_payment` that its sender authorized,
setting up instalments `t`. -/
def AuthorizedCreation (e : Entry Call (Receipt Returned RecurEvent)) (t : Transfer) : Prop :=
  e.env.authorizes t.source = true ∧ ∃ interval startTime r,
    e.call = .createPayment t.source t.target t.token t.amount interval startTime ∧ e.result = .ok r

/-- Every stored record, and every transfer of a successful call, goes back to
an authorized creation earlier in the log. -/
structure Backed (s : Store) (log : Log) : Prop where
  stored : ∀ id p, s.payments id = some p →
    ∃ (j : Nat) (e : Entry Call (Receipt Returned RecurEvent)), log[j]? = some e ∧
      AuthorizedCreation e p.instalment
  transfers : ∀ (k : Nat) (e : Entry Call (Receipt Returned RecurEvent)) (r : Receipt Returned RecurEvent),
    log[k]? = some e → e.result = .ok r →
    ∀ t ∈ r.transfers, ∃ j < k, ∃ e', log[j]? = some e' ∧ AuthorizedCreation e' t

section Backing

variable {s s' : Store} {log : Log} {env : Env}

/-- Appending an entry keeps `Backed` when its transfers go back to authorized
creations of the log before it, and every record of the new store to one of
the longer log. -/
theorem Backed.push (inv : Backed s log) {e : Entry Call (Receipt Returned RecurEvent)}
    (stored : ∀ id p, s'.payments id = some p →
      ∃ (j : Nat) (e' : Entry Call (Receipt Returned RecurEvent)), (log ++ [e])[j]? = some e' ∧
        AuthorizedCreation e' p.instalment)
    (transfers : ∀ r, e.result = .ok r → ∀ t ∈ r.transfers,
      ∃ j < log.length, ∃ e', log[j]? = some e' ∧ AuthorizedCreation e' t) :
    Backed s' (log ++ [e]) := by
  refine ⟨stored, fun k e' r hk ok t mem => ?_⟩
  rcases getElem?_concat_eq_some hk with old | ⟨rfl, rfl⟩
  · obtain ⟨j, lt, e'', hj, auth⟩ := inv.transfers k e' r old ok t mem
    exact ⟨j, lt, e'', getElem?_concat_of_some _ hj, auth⟩
  · obtain ⟨j, lt, e'', hj, auth⟩ := transfers r ok t mem
    exact ⟨j, lt, e'', getElem?_concat_of_some _ hj, auth⟩

/-- A record of the store goes back to an authorized creation of any longer log. -/
theorem Backed.stored_concat (inv : Backed s log) (e : Entry Call (Receipt Returned RecurEvent))
    {x : UInt64} {p : RecurringPayment} (stored : s.payments x = some p) :
    ∃ (j : Nat) (e' : Entry Call (Receipt Returned RecurEvent)), (log ++ [e])[j]? = some e' ∧
      AuthorizedCreation e' p.instalment := by
  obtain ⟨j, e', hj, auth⟩ := inv.stored x p stored
  exact ⟨j, e', getElem?_concat_of_some _ hj, auth⟩

/-- The records of a store that rewrites one record without changing its terms
go back to what the old records went back to. -/
theorem Backed.touch_stored (inv : Backed s log) {id : UInt64} {p q : RecurringPayment}
    (stored : s.payments id = some p) (same : q.instalment = p.instalment)
    (e : Entry Call (Receipt Returned RecurEvent)) :
    ∀ x p', Function.update s.payments id (some q) x = some p' →
      ∃ (j : Nat) (e' : Entry Call (Receipt Returned RecurEvent)), (log ++ [e])[j]? = some e' ∧
        AuthorizedCreation e' p'.instalment := by
  intro x p' hp'
  rcases update_eq_some hp' with ⟨rfl, rfl⟩ | ⟨-, hp'⟩
  · exact same ▸ inv.stored_concat e stored
  · exact inv.stored_concat e hp'

/-- Every successful call keeps `Backed`. -/
theorem Backed.step (inv : Backed s log) {call : Call} {r : Receipt Returned RecurEvent}
    (h : step env call s = .ok (s', r)) : Backed s' (log ++ [⟨env, call, .ok r⟩]) := by
  rcases step_cases h with ⟨sender, recipient, token, amount, interval, startTime, r₀, rfl, hc, rfl⟩ |
    ⟨id, r₀, rfl, hc, rfl⟩ | ⟨id, r₀, rfl, hc, rfl⟩ | ⟨id, p, rfl, rfl, rfl⟩
  · obtain ⟨auth, -, -, -, rfl, noTransfer, -⟩ := createPayment_spec hc
    refine inv.push (fun x p hp => ?_) fun r ok t mem => ?_
    · rcases update_eq_some hp with ⟨rfl, rfl⟩ | ⟨-, hp⟩
      · exact ⟨log.length, _, List.getElem?_concat_length _ _,
          auth, interval, startTime, _, rfl, rfl⟩
      · exact inv.stored_concat _ hp
    · cases ok
      simp [Receipt.mapValue, noTransfer] at mem
  · obtain ⟨p, next, stored, -, -, -, -, rfl, rfl⟩ := executePayment_spec hc
    refine inv.push (inv.touch_stored stored (by rfl) _) fun r ok t mem => ?_
    cases ok
    obtain rfl : t = p.instalment := by simpa [Receipt.mapValue] using mem
    obtain ⟨j, e', hj, auth⟩ := inv.stored id p stored
    exact ⟨j, (List.getElem?_eq_some_iff.mp hj).1, e', hj, auth⟩
  · obtain ⟨p, stored, -, -, rfl, rfl⟩ := cancelPayment_spec hc
    refine inv.push (inv.touch_stored stored (by rfl) _) fun r ok t mem => ?_
    cases ok
    simp [Receipt.mapValue] at mem
  · refine inv.push (fun x p hp => inv.stored_concat _ hp) fun r ok t mem => ?_
    cases ok
    simp at mem

end Backing

/-- **Only authorized instalments are paid.** In every run from a freshly
deployed scheduler, every transfer of every successful call moves some amount of
some token from a sender to a recipient exactly as an earlier successful
`create_payment` in the run set up, and that creation carried the sender's
authorization. -/
theorem transfers_authorized (calls : List (Env × Call)) :
    ∀ (k : Nat) (e : Entry Call (Receipt Returned RecurEvent)) (r : Receipt Returned RecurEvent),
      (run step Store.empty calls).2[k]? = some e → e.result = .ok r →
      ∀ t ∈ r.transfers, ∃ j < k, ∃ e', (run step Store.empty calls).2[j]? = some e' ∧
        e'.env.authorizes t.source = true ∧ ∃ interval startTime r',
          e'.call = .createPayment t.source t.target t.token t.amount interval startTime ∧
          e'.result = .ok r' :=
  (runFrom_invariant Backed (fun _ _ _ _ _ _ inv h => inv.step h)
    (fun _ _ _ _ _ inv _ => inv.push (fun _ _ hp => inv.stored_concat _ hp) fun _ ok => by cases ok)
    _ calls ⟨fun _ _ h => by simp [Store.empty] at h, fun _ _ _ h => by simp at h⟩).transfers

/-- A keeper executes sender 1's hourly schedule, in a call that carries sender
1's authorization for the token's transfer: the transfer it makes is the
instalment of the creation at position 0, which sender 1 authorized. -/
theorem transfers_authorized_keeper :
    let calls : List (Env × Call) :=
      [(⟨1000, fun a => a = ⟨1⟩, fun _ => true, ⟨0⟩⟩, .createPayment ⟨1⟩ ⟨2⟩ ⟨3⟩ 100 3600 1000),
        (⟨8700, fun a => a = ⟨1⟩, fun _ => true, ⟨0⟩⟩, .executePayment 1)]
    ∃ e r, (run step Store.empty calls).2[1]? = some e ∧ e.result = .ok r ∧
      (⟨⟨3⟩, ⟨1⟩, ⟨2⟩, 100⟩ : Transfer) ∈ r.transfers ∧
      ∃ j < 1, ∃ e', (run step Store.empty calls).2[j]? = some e' ∧
        e'.env.authorizes ⟨1⟩ = true ∧ ∃ interval startTime r',
          e'.call = .createPayment ⟨1⟩ ⟨2⟩ ⟨3⟩ 100 interval startTime ∧ e'.result = .ok r' :=
  ⟨_, _, rfl, rfl, by decide, transfers_authorized
    [(⟨1000, fun a => a = ⟨1⟩, fun _ => true, ⟨0⟩⟩, .createPayment ⟨1⟩ ⟨2⟩ ⟨3⟩ 100 3600 1000),
      (⟨8700, fun a => a = ⟨1⟩, fun _ => true, ⟨0⟩⟩, .executePayment 1)] 1 _ _ rfl rfl ⟨⟨3⟩, ⟨1⟩, ⟨2⟩, 100⟩
      (by decide)⟩

/-! ### Who cancels -/

/-- A log entry of a successful `cancel_payment(paymentId)` that `sender` authorized. -/
def AuthorizedCancel (e : Entry Call (Receipt Returned RecurEvent)) (paymentId : UInt64)
    (sender : Address) : Prop :=
  e.call = .cancelPayment paymentId ∧ (∃ r, e.result = .ok r) ∧ e.env.authorizes sender = true

/-- Every inactive record goes back to an authorized cancellation in the log. -/
def CanceledBy (s : Store) (log : Log) : Prop :=
  ∀ id p, s.payments id = some p → p.active = false →
    ∃ (j : Nat) (e : Entry Call (Receipt Returned RecurEvent)), log[j]? = some e ∧
      AuthorizedCancel e id p.sender

section Canceling

variable {s s' : Store} {log : Log} {env : Env}

/-- An inactive record of the store goes back to a cancellation of any longer log. -/
theorem CanceledBy.concat (inv : CanceledBy s log) (e : Entry Call (Receipt Returned RecurEvent))
    {id : UInt64} {p : RecurringPayment} (stored : s.payments id = some p) (inactive : p.active = false) :
    ∃ (j : Nat) (e' : Entry Call (Receipt Returned RecurEvent)), (log ++ [e])[j]? = some e' ∧
      AuthorizedCancel e' id p.sender := by
  obtain ⟨j, e', hj, canceled⟩ := inv id p stored inactive
  exact ⟨j, e', getElem?_concat_of_some _ hj, canceled⟩

/-- Every successful call keeps `CanceledBy`. -/
theorem CanceledBy.step (inv : CanceledBy s log) {call : Call} {r : Receipt Returned RecurEvent}
    (h : step env call s = .ok (s', r)) : CanceledBy s' (log ++ [⟨env, call, .ok r⟩]) := by
  intro x q hq inactive
  rcases step_cases h with ⟨_, _, _, _, _, _, _, rfl, hc, rfl⟩ | ⟨id, _, rfl, hc, rfl⟩ |
    ⟨id, r₀, rfl, hc, rfl⟩ | ⟨_, _, rfl, rfl, rfl⟩
  · obtain ⟨-, -, -, -, rfl, -, -⟩ := createPayment_spec hc
    rcases update_eq_some hq with ⟨-, rfl⟩ | ⟨-, hq⟩
    · cases inactive
    · exact inv.concat _ hq inactive
  · obtain ⟨p, next, stored, active, -, -, -, rfl, -⟩ := executePayment_spec hc
    rcases update_eq_some hq with ⟨-, rfl⟩ | ⟨-, hq⟩
    · simp [active] at inactive
    · exact inv.concat _ hq inactive
  · obtain ⟨p, stored, -, auth, rfl, -⟩ := cancelPayment_spec hc
    rcases update_eq_some hq with ⟨rfl, rfl⟩ | ⟨-, hq⟩
    · exact ⟨log.length, _, List.getElem?_concat_length _ _, rfl, ⟨_, rfl⟩, auth⟩
    · exact inv.concat _ hq inactive
  · exact inv.concat _ hq inactive

end Canceling

/-- **Only the sender switches a schedule off.** In every run from a freshly
deployed scheduler, every inactive record goes back to an earlier successful
`cancel_payment` of its id that carried the authorization of the record's
sender. -/
theorem cancel_authorized (calls : List (Env × Call)) {id : UInt64} {p : RecurringPayment}
    (stored : (run step Store.empty calls).1.payments id = some p) (inactive : p.active = false) :
    ∃ (j : Nat) (e : Entry Call (Receipt Returned RecurEvent)),
      (run step Store.empty calls).2[j]? = some e ∧ e.call = .cancelPayment id ∧ (∃ r, e.result = .ok r) ∧ e.env.authorizes p.sender = true :=
  runFrom_invariant CanceledBy (fun _ _ _ _ _ _ inv h => inv.step h)
    (fun _ _ _ _ _ inv _ _ _ hq inactive => inv.concat _ hq inactive)
    _ calls (fun _ _ h => by simp [Store.empty] at h) id p stored inactive

/-- Sender 1 cancels its schedule, after a cancellation by someone else has
panicked: the record is inactive, and the cancellation at position 2 carried
sender 1's authorization. -/
theorem cancel_authorized_by_sender :
    let calls : List (Env × Call) :=
      [(⟨1000, fun a => a = ⟨1⟩, fun _ => true, ⟨0⟩⟩, .createPayment ⟨1⟩ ⟨2⟩ ⟨3⟩ 100 3600 1000),
        (⟨2000, fun a => a = ⟨2⟩, fun _ => true, ⟨0⟩⟩, .cancelPayment 1),
        (⟨3000, fun a => a = ⟨1⟩, fun _ => true, ⟨0⟩⟩, .cancelPayment 1)]
    (run step Store.empty calls).1.payments 1 = some ⟨⟨1⟩, ⟨2⟩, ⟨3⟩, 100, 3600, 1000, false⟩ ∧
      ∃ (j : Nat) (e : Entry Call (Receipt Returned RecurEvent)),
        (run step Store.empty calls).2[j]? = some e ∧ e.call = .cancelPayment 1 ∧ (∃ r, e.result = .ok r) ∧ e.env.authorizes ⟨1⟩ = true := by
  intro calls
  exact ⟨by decide,
    @cancel_authorized calls 1 ⟨⟨1⟩, ⟨2⟩, ⟨3⟩, 100, 3600, 1000, false⟩ (by decide) rfl⟩

end StellarSpend.Recurring
