import StellarSpend.Escrow.Contract

/-!
# The escrow ledger

What the escrow is for, kept as a ledger of the run: the successful locks not
yet paid out (`Ledger.live`), and each successful release with the lock it paid
(`Ledger.paid`). The ledger is computed from the run's log alone (`ledger`),
never from the store, and the store is shown to be its view:

* `Refines` — the refinement invariant: the stored entries are exactly the live
  locks; every live or paid lock is a successful lock of the log, whose unlock
  time lies after it; every successful release pays one earlier lock that no
  other release paid, its amount of the configured token, to its beneficiary,
  at or after its unlock time; and tokens locked in minus tokens released out
  is the sum of the live amounts;
* `Refines.lock`, `Refines.release`, `Refines.quiet` — every call keeps it;
* `run_refines_ledger` — it holds after every run from a store with no entries.
-/

namespace StellarSpend.Escrow

/-- A run's log of escrow calls. -/
abbrev Log := List (Entry Call (Receipt (Option EscrowEntry) ContractEvent))

/-- A successful lock as the ledger keeps it: its position in the log, the
ledger time it was made at, its escrow id and the entry it opened. -/
structure Locked where
  index : Nat
  lockedAt : UInt64
  escrowId : UInt64
  entry : EscrowEntry
  deriving DecidableEq, Repr

/-- The storage slot a lock occupies, `EscrowKey::Entry(depositor, escrow_id)`. -/
def Locked.key (l : Locked) : Address × UInt64 := (l.entry.depositor, l.escrowId)

/-- The abstract escrow: the locks not yet paid out, and each release's position
in the log with the lock it paid. -/
structure Ledger where
  live : List Locked
  paid : List (Nat × Locked)

/-- The ledger's reading of the `n`-th call of a run: a successful lock opens a
live lock, a successful release pays out the live lock of its slot, and
anything else changes nothing. -/
def Ledger.record (L : Ledger) (n : Nat)
    (e : Entry Call (Receipt (Option EscrowEntry) ContractEvent)) : Ledger :=
  match e.result, e.call with
  | .ok _, .lock depositor beneficiary amount unlockTs escrowId =>
      ⟨L.live ++ [⟨n, e.env.timestamp, escrowId, ⟨depositor, beneficiary, amount, unlockTs⟩⟩],
        L.paid⟩
  | .ok _, .release depositor escrowId =>
      match L.live.find? (·.key = (depositor, escrowId)) with
      | some l => ⟨L.live.erase l, L.paid ++ [(n, l)]⟩
      | none => L
  | _, _ => L

/-- The ledger after the calls of `log`, the first of them the `n`-th of the run. -/
def ledgerFrom : Nat → Ledger → Log → Ledger
  | _, L, [] => L
  | n, L, e :: log => ledgerFrom (n + 1) (L.record n e) log

/-- The ledger of a run's log. -/
def ledger (log : Log) : Ledger := ledgerFrom 0 ⟨[], []⟩ log

/-- The tokens a logged call moved into the contract: the transfers of a
successful `lock`. -/
def lockedFlow (e : Entry Call (Receipt (Option EscrowEntry) ContractEvent)) : Int :=
  match e.result, e.call with
  | .ok r, .lock .. => (r.transfers.map (·.amount)).sum
  | _, _ => 0

/-- The tokens a logged call moved out of the contract: the transfers of a
successful `release`. -/
def releasedFlow (e : Entry Call (Receipt (Option EscrowEntry) ContractEvent)) : Int :=
  match e.result, e.call with
  | .ok r, .release .. => (r.transfers.map (·.amount)).sum
  | _, _ => 0

/-- Tokens locked in over a log. -/
def lockedIn (log : Log) : Int := (log.map lockedFlow).sum

/-- Tokens released out over a log. -/
def releasedOut (log : Log) : Int := (log.map releasedFlow).sum

/-- `l` is the successful `lock` at position `l.index` of the log, made at
`l.lockedAt`, with a positive amount and an unlock time after it. -/
def LockedAt (log : Log) (l : Locked) : Prop :=
  (∃ env r, log[l.index]? = some ⟨env, .lock l.entry.depositor l.entry.beneficiary
      l.entry.amount l.entry.unlockTs l.escrowId, .ok r⟩ ∧ env.timestamp = l.lockedAt) ∧
    l.lockedAt.toNat < l.entry.unlockTs.toNat ∧ 0 < l.entry.amount

/-- Position `k` of the log is a successful `release` of `l`'s slot that paid
`l`'s amount of the configured token from the contract to `l`'s beneficiary, at
or after `l`'s unlock time. -/
def PaidAt (config : Option Config) (log : Log) (k : Nat) (l : Locked) : Prop :=
  ∃ cfg env r, config = some cfg ∧
    log[k]? = some ⟨env, .release l.entry.depositor l.escrowId, .ok r⟩ ∧
    r.transfers = [⟨cfg.token, env.currentContract, l.entry.beneficiary, l.entry.amount⟩] ∧
    l.entry.unlockTs.toNat ≤ env.timestamp.toNat

/-- **The escrow store refines the ledger of its run.** -/
structure Refines (config : Option Config) (s : Store) (log : Log) : Prop where
  /-- The configuration never changes. -/
  configured : s.config = config
  /-- The stored entries are exactly the live locks. -/
  view : ∀ key e, s.entries key = some e ↔ ∃ l ∈ (ledger log).live, l.key = key ∧ l.entry = e
  /-- No two live locks share a slot. -/
  slots : ((ledger log).live.map Locked.key).Nodup
  /-- Every live lock is a successful lock of the log. -/
  liveLocked : ∀ l ∈ (ledger log).live, LockedAt log l
  /-- Every payout pays an earlier successful lock. -/
  paidOut : ∀ p ∈ (ledger log).paid, LockedAt log p.2 ∧ p.2.index < p.1 ∧ PaidAt config log p.1 p.2
  /-- Every successful release is a payout. -/
  released : ∀ k env depositor escrowId r,
    log[k]? = some ⟨env, .release depositor escrowId, .ok r⟩ → ∃ l, (k, l) ∈ (ledger log).paid
  /-- Every successful lock is live or paid out. -/
  locked : ∀ i env depositor beneficiary amount unlockTs escrowId r,
    log[i]? = some ⟨env, .lock depositor beneficiary amount unlockTs escrowId, .ok r⟩ →
      (∃ l ∈ (ledger log).live, l.index = i) ∨ ∃ p ∈ (ledger log).paid, p.2.index = i
  /-- A lock is live or paid out, never both, and paid out at most once. -/
  once : ((ledger log).live.map (·.index) ++ (ledger log).paid.map (·.2.index)).Nodup
  /-- A release pays out one lock. -/
  payouts : ((ledger log).paid.map (·.1)).Nodup
  /-- Tokens locked in minus tokens released out is what the live locks hold. -/
  conserved : lockedIn log - releasedOut log = ((ledger log).live.map (·.entry.amount)).sum

/-! ### The ledger, one call at a time -/

section Ledger

variable {log : Log} {e : Entry Call (Receipt (Option EscrowEntry) ContractEvent)} {l : Locked}

@[simp] theorem Locked.key_eq (l : Locked) : l.key = (l.entry.depositor, l.escrowId) := rfl

theorem ledgerFrom_concat (n : Nat) (L : Ledger) (log : Log) (e) :
    ledgerFrom n L (log ++ [e]) = (ledgerFrom n L log).record (n + log.length) e := by
  induction log generalizing n L with
  | nil => rfl
  | cons e' log ih =>
      show ledgerFrom (n + 1) (L.record n e') (log ++ [e]) = _
      rw [ih, List.length_cons, Nat.add_assoc, Nat.add_comm 1]
      rfl

theorem ledger_concat (log : Log) (e) : ledger (log ++ [e]) = (ledger log).record log.length e := by
  simp [ledger, ledgerFrom_concat]

@[simp] theorem lockedIn_concat : lockedIn (log ++ [e]) = lockedIn log + lockedFlow e := by
  simp [lockedIn]

@[simp] theorem releasedOut_concat : releasedOut (log ++ [e]) = releasedOut log + releasedFlow e := by
  simp [releasedOut]

theorem LockedAt.index_lt (h : LockedAt log l) : l.index < log.length := by
  obtain ⟨⟨_, _, hl, -⟩, -⟩ := h
  exact (List.getElem?_eq_some_iff.mp hl).1

theorem LockedAt.concat (h : LockedAt log l) : LockedAt (log ++ [e]) l := by
  obtain ⟨⟨env, r, hl, ht⟩, valid⟩ := h
  exact ⟨⟨env, r, getElem?_concat_of_some e hl, ht⟩, valid⟩

theorem PaidAt.index_lt {config : Option Config} {k : Nat} (h : PaidAt config log k l) :
    k < log.length := by
  obtain ⟨_, _, _, -, hk, -⟩ := h
  exact (List.getElem?_eq_some_iff.mp hk).1

theorem PaidAt.concat {config : Option Config} {k : Nat} (h : PaidAt config log k l) :
    PaidAt config (log ++ [e]) k l := by
  obtain ⟨cfg, env, r, hcfg, hk, rest⟩ := h
  exact ⟨cfg, env, r, hcfg, getElem?_concat_of_some e hk, rest⟩

/-- With one live lock per slot, the live lock of `l`'s slot is `l`. -/
theorem find?_key {live : List Locked} (slots : (live.map Locked.key).Nodup) (mem : l ∈ live) :
    live.find? (·.key = l.key) = some l := by
  induction live with
  | nil => cases mem
  | cons a live ih =>
      rw [List.map_cons, List.nodup_cons] at slots
      rcases List.mem_cons.mp mem with rfl | mem
      · simp [List.find?_cons]
      · have : a.key ≠ l.key := fun h => slots.1 (h ▸ List.mem_map_of_mem _ mem)
        simp only [List.find?_cons, this, decide_False, ih slots.2 mem]

end Ledger

/-! ### Every call keeps the refinement -/

section Preservation

variable {config : Option Config} {s s' : Store} {log : Log} {env : Env}

/-- The payouts of a log stay payouts when the log grows. -/
theorem Refines.paidOut_concat {e : Entry Call (Receipt (Option EscrowEntry) ContractEvent)}
    (inv : Refines config s log) :
    ∀ p ∈ (ledger log).paid, LockedAt (log ++ [e]) p.2 ∧ p.2.index < p.1 ∧
      PaidAt config (log ++ [e]) p.1 p.2 :=
  fun p hp => ⟨(inv.paidOut p hp).1.concat, (inv.paidOut p hp).2.1, (inv.paidOut p hp).2.2.concat⟩

/-- A call that changes nothing: a rolled-back call or `get_escrow`. -/
theorem Refines.quiet {e : Entry Call (Receipt (Option EscrowEntry) ContractEvent)}
    (inv : Refines config s log)
    (quiet : ∀ r, e.result = .ok r → ∃ depositor escrowId, e.call = .getEscrow depositor escrowId) :
    Refines config s (log ++ [e]) := by
  obtain ⟨env, call, result⟩ := e
  have unchanged : ledger (log ++ [⟨env, call, result⟩]) = ledger log := by
    rw [ledger_concat]
    cases result with
    | error => rfl
    | ok r => obtain ⟨_, _, rfl⟩ := quiet r rfl; rfl
  have flows : lockedFlow ⟨env, call, result⟩ = 0 ∧ releasedFlow ⟨env, call, result⟩ = 0 := by
    cases result with
    | error => exact ⟨rfl, rfl⟩
    | ok r => obtain ⟨_, _, rfl⟩ := quiet r rfl; exact ⟨rfl, rfl⟩
  refine ⟨inv.configured, ?_, ?_, ?_, ?_, ?_, ?_, ?_, ?_, ?_⟩ <;> rw [unchanged]
  · exact inv.view
  · exact inv.slots
  · exact fun l hl => (inv.liveLocked l hl).concat
  · exact inv.paidOut_concat
  · intro k env' depositor escrowId r hk
    rcases getElem?_concat_eq_some hk with hk | ⟨-, he⟩
    · exact inv.released k env' depositor escrowId r hk
    · cases he; obtain ⟨_, _, h⟩ := quiet r rfl; cases h
  · intro i env' depositor beneficiary amount unlockTs escrowId r hi
    rcases getElem?_concat_eq_some hi with hi | ⟨-, he⟩
    · exact inv.locked i env' depositor beneficiary amount unlockTs escrowId r hi
    · cases he; obtain ⟨_, _, h⟩ := quiet r rfl; cases h
  · exact inv.once
  · exact inv.payouts
  · simpa [flows.1, flows.2] using inv.conserved

/-- A successful `lock` opens a live lock in the empty slot it writes. -/
theorem Refines.lock {depositor beneficiary : Address} {amount : Int} {unlockTs escrowId : UInt64}
    {r : Receipt Unit ContractEvent} (inv : Refines config s log)
    (h : Escrow.lock env s depositor beneficiary amount unlockTs escrowId = .ok (s', r)) :
    Refines config s' (log ++ [⟨env, .lock depositor beneficiary amount unlockTs escrowId,
      .ok (r.mapValue fun _ => none)⟩]) := by
  obtain ⟨cfg, -, hamount, hunlock, hfree, -, -, rfl, rfl⟩ := lock_spec h
  let new : Locked := ⟨log.length, env.timestamp, escrowId, ⟨depositor, beneficiary, amount, unlockTs⟩⟩
  have hledger : ∀ r : Receipt (Option EscrowEntry) ContractEvent,
      ledger (log ++ [⟨env, .lock depositor beneficiary amount unlockTs escrowId, .ok r⟩]) =
        ⟨(ledger log).live ++ [new], (ledger log).paid⟩ := fun _ => by
    rw [ledger_concat]; rfl
  have fresh : ∀ l ∈ (ledger log).live, l.key ≠ (depositor, escrowId) := fun l hl hk => by
    simpa [hfree] using (inv.view _ l.entry).mpr ⟨l, hl, hk, rfl⟩
  have older : ∀ i ∈ (ledger log).live.map (·.index) ++ (ledger log).paid.map (·.2.index),
      i < log.length := by
    simp only [List.mem_append, List.mem_map]
    rintro i (⟨l, hl, rfl⟩ | ⟨p, hp, rfl⟩)
    exacts [(inv.liveLocked l hl).index_lt, (inv.paidOut p hp).1.index_lt]
  refine ⟨inv.configured, ?_, ?_, ?_, ?_, ?_, ?_, ?_, ?_, ?_⟩ <;> simp only [hledger]
  · intro key e
    simp only [List.mem_append, List.mem_singleton, or_and_right, exists_or, exists_eq_left,
      ← inv.view]
    by_cases hk : key = (depositor, escrowId)
    · subst hk; simp [hfree, new, eq_comm]
    · simp [Function.update_noteq hk, new, Ne.symm hk]
  · rw [List.map_append, List.nodup_append_comm]
    exact List.nodup_cons.mpr ⟨fun hk => by
      obtain ⟨l, hl, hkl⟩ := List.mem_map.mp hk; exact fresh l hl hkl, inv.slots⟩
  · simp only [List.mem_append, List.mem_singleton]
    rintro l (hl | rfl)
    exacts [(inv.liveLocked l hl).concat,
      ⟨⟨env, _, List.getElem?_concat_length _ _, rfl⟩, hunlock, hamount⟩]
  · exact inv.paidOut_concat
  · intro k env' depositor' escrowId' r' hk
    rcases getElem?_concat_eq_some hk with hk | ⟨-, he⟩
    · exact inv.released k env' depositor' escrowId' r' hk
    · cases he
  · intro i env' depositor' beneficiary' amount' unlockTs' escrowId' r' hi
    rcases getElem?_concat_eq_some hi with hi | ⟨rfl, -⟩
    · rcases inv.locked i env' depositor' beneficiary' amount' unlockTs' escrowId' r' hi with
        ⟨l, hl, hil⟩ | hpaid
      exacts [.inl ⟨l, List.mem_append_left _ hl, hil⟩, .inr hpaid]
    · exact .inl ⟨new, List.mem_append_right _ (List.mem_singleton_self _), rfl⟩
  · rw [List.map_append, List.append_assoc, List.map_singleton, List.singleton_append,
      List.nodup_middle, List.nodup_cons]
    exact ⟨fun hn => Nat.lt_irrefl _ (older _ hn), inv.once⟩
  · exact inv.payouts
  · have := inv.conserved
    simp only [lockedIn_concat, releasedOut_concat, List.map_append, List.sum_append, lockedFlow,
      releasedFlow, Receipt.mapValue, List.map_cons, List.map_nil, List.sum_cons, List.sum_nil]
    omega

/-- A successful `release` pays out the live lock of its slot. -/
theorem Refines.release {depositor : Address} {escrowId : UInt64} {r : Receipt Unit ContractEvent}
    (inv : Refines config s log) (h : Escrow.release env s depositor escrowId = .ok (s', r)) :
    Refines config s' (log ++ [⟨env, .release depositor escrowId,
      .ok (r.mapValue fun _ => none)⟩]) := by
  obtain ⟨entry, cfg, hentry, hdue, hcfg, -, -, rfl, rfl⟩ := release_spec h
  obtain ⟨l, hl, hkey, rfl⟩ := (inv.view _ _).mp hentry
  have hledger : ∀ r : Receipt (Option EscrowEntry) ContractEvent,
      ledger (log ++ [⟨env, .release depositor escrowId, .ok r⟩]) =
        ⟨(ledger log).live.erase l, (ledger log).paid ++ [(log.length, l)]⟩ := fun _ => by
    rw [ledger_concat]
    simp only [Ledger.record]
    rw [← hkey, find?_key inv.slots hl]
  have nodup : (ledger log).live.Nodup := inv.slots.of_map _
  have same : ∀ l' ∈ (ledger log).live, l'.key = l.key → l' = l :=
    fun l' hl' hk => List.inj_on_of_nodup_map inv.slots hl' hl hk
  have perm := ((List.perm_cons_erase hl).map (·.index)).append_right ((ledger log).paid.map (·.2.index))
  simp only [Locked.key_eq, Prod.mk.injEq] at hkey
  obtain ⟨rfl, rfl⟩ := hkey
  refine ⟨inv.configured, ?_, ?_, ?_, ?_, ?_, ?_, ?_, ?_, ?_⟩ <;> simp only [hledger]
  · intro key e
    simp only [nodup.mem_erase_iff]
    by_cases hk : key = l.key
    · subst hk
      simp only [Locked.key_eq, Function.update_same, reduceCtorEq, false_iff, not_exists,
        not_and]
      exact fun l' ⟨hne, hl'⟩ hk _ => hne (same l' hl' hk)
    · rw [Function.update_noteq (by simpa using hk), inv.view]
      exact exists_congr fun l' => ⟨fun ⟨hl', hkl⟩ => ⟨⟨fun h => hk (h ▸ hkl.1.symm), hl'⟩, hkl⟩,
        fun ⟨⟨_, hl'⟩, hkl⟩ => ⟨hl', hkl⟩⟩
  · exact inv.slots.sublist ((List.erase_sublist _ _).map _)
  · exact fun l' hl' => (inv.liveLocked l' (List.mem_of_mem_erase hl')).concat
  · simp only [List.mem_append, List.mem_singleton]
    rintro p (hp | rfl)
    · exact inv.paidOut_concat p hp
    · exact ⟨(inv.liveLocked l hl).concat, (inv.liveLocked l hl).index_lt,
        cfg, env, _, inv.configured ▸ hcfg, List.getElem?_concat_length _ _, rfl, hdue⟩
  · intro k env' depositor' escrowId' r' hk
    rcases getElem?_concat_eq_some hk with hk | ⟨rfl, -⟩
    · obtain ⟨l', hl'⟩ := inv.released k env' depositor' escrowId' r' hk
      exact ⟨l', List.mem_append_left _ hl'⟩
    · exact ⟨l, List.mem_append_right _ (List.mem_singleton_self _)⟩
  · intro i env' depositor' beneficiary' amount' unlockTs' escrowId' r' hi
    rcases getElem?_concat_eq_some hi with hi | ⟨-, he⟩
    · rcases inv.locked i env' depositor' beneficiary' amount' unlockTs' escrowId' r' hi with
        ⟨l', hl', rfl⟩ | ⟨p, hp, rfl⟩
      · by_cases hne : l' = l
        · subst hne
          exact .inr ⟨_, List.mem_append_right _ (List.mem_singleton_self _), rfl⟩
        · exact .inl ⟨l', (nodup.mem_erase_iff).mpr ⟨hne, hl'⟩, rfl⟩
      · exact .inr ⟨p, List.mem_append_left _ hp, rfl⟩
    · cases he
  · rw [List.map_append, List.map_singleton, ← List.append_assoc]
    exact (List.perm_append_singleton _ _).nodup_iff.mpr (perm.nodup_iff.mp inv.once)
  · rw [List.map_append, List.map_singleton, List.nodup_append_comm, List.singleton_append,
      List.nodup_cons]
    refine ⟨fun hk => ?_, inv.payouts⟩
    obtain ⟨p, hp, hpk⟩ := List.mem_map.mp hk
    exact Nat.lt_irrefl _ (hpk ▸ (inv.paidOut p hp).2.2.index_lt)
  · have := inv.conserved
    have erased := List.sum_map_erase (fun x : Locked => x.entry.amount) hl
    simp only at erased
    simp only [lockedIn_concat, releasedOut_concat, lockedFlow, releasedFlow, Receipt.mapValue,
      List.map_cons, List.map_nil, List.sum_cons, List.sum_nil]
    omega

end Preservation

/-! ### Every run -/

theorem refines_init (config : Option Config) : Refines config (Store.init config) [] where
  configured := rfl
  view _ _ := by simp [Store.init, ledger, ledgerFrom]
  slots := List.nodup_nil
  liveLocked _ h := by cases h
  paidOut _ h := by cases h
  released _ _ _ _ _ h := by cases h
  locked _ _ _ _ _ _ _ _ h := by cases h
  once := List.nodup_nil
  payouts := List.nodup_nil
  conserved := rfl

/-- **Every run refines the ledger.** From a store with no escrow entries, under
any configuration, every run of `lock`, `release` and `get_escrow` calls leaves a
store whose entries are exactly the live locks of its ledger, and a log in which
every successful release pays out one earlier lock that no other release paid. -/
theorem run_refines_ledger (config : Option Config) (calls : List (Env × Call)) :
    Refines config (run step (Store.init config) calls).1 (run step (Store.init config) calls).2 := by
  refine runFrom_invariant (Refines config) (fun s s' log env call r inv h => ?_)
    (fun s log env call e inv _ => inv.quiet (by simp)) (Store.init config, []) calls
    (refines_init config)
  rcases step_cases h with ⟨_, _, _, _, _, r₀, rfl, hc, rfl⟩ | ⟨_, _, r₀, rfl, hc, rfl⟩ |
    ⟨_, _, rfl, rfl, rfl⟩
  · exact inv.lock hc
  · exact inv.release hc
  · exact inv.quiet fun _ _ => ⟨_, _, rfl⟩

end StellarSpend.Escrow
