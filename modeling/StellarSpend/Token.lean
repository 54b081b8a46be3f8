import StellarSpend.Run

/-!
# The token's balances

The contracts move funds only through `token::Client::transfer(from, to,
amount)`, an external primitive that the spec (§6) describes at its interface:
atomic, and failing the whole call when the source lacks the balance or is
otherwise invalid. The contract modules read its answer from the call's
environment (`Env.accepts`), so every result about one call, or about a run,
holds whatever the token decides. Two calls that draw on one balance are not
independent, though: which of them the token accepts depends on their order.
This module puts the token's balances beside a contract's store, for the
results that reorder calls.

* `Balances.accepts` — a Soroban token's `transfer`: the source authorized the
  call (a contract authorizes its own calls), the amount is not negative and
  the source holds it;
* `Balances.move` — the balances after a call's transfers;
* `withToken` — a contract call against the token: the contract runs with the
  token deciding from the balances (`Env.against`), and a call that returns
  moves them;
* `commute_withToken` — two calls commute against the token when they commute
  as contract calls whatever the token decides, and neither's transfer draws on
  an account that the other's transfer moves.
-/

namespace StellarSpend

/-- The token contracts' balances: `balances token holder`. -/
abbrev Balances := Address → Address → Int

/-- `token::Client::transfer(from, to, amount)` as a Soroban token decides it at
balances `b`, in a call carrying `env`'s authorizations: `from` authorized the
call (a contract authorizes its own calls), the amount is not negative, and
`from` holds it. -/
def Balances.accepts (b : Balances) (env : Env) (t : Transfer) : Bool :=
  (env.authorizes t.source || t.source == env.currentContract) && 0 ≤ t.amount &&
    t.amount ≤ b t.token t.source

/-- `env`, with the token deciding every transfer from the balances `b`. -/
def Env.against (env : Env) (b : Balances) : Env := { env with accepts := b.accepts env }

@[simp] theorem Env.against_timestamp (env : Env) (b : Balances) :
    (env.against b).timestamp = env.timestamp := rfl

@[simp] theorem Env.against_authorizes (env : Env) (b : Balances) :
    (env.against b).authorizes = env.authorizes := rfl

@[simp] theorem Env.against_currentContract (env : Env) (b : Balances) :
    (env.against b).currentContract = env.currentContract := rfl

@[simp] theorem requireAuth_against (env : Env) (b : Balances) (a : Address) :
    requireAuth (env.against b) a = requireAuth env a := rfl

/-- The token's decision on a transfer reads the balance of its source only. -/
theorem transfer_against {env : Env} {b b' : Balances} {token source target : Address}
    {amount : Int} (agree : b' token source = b token source) :
    transfer (env.against b') token source target amount =
      transfer (env.against b) token source target amount := by
  simp only [transfer, Env.against, Balances.accepts, agree]

/-- What transfer `t` adds to the balance of `holder` in `token`: its amount into
its target, less its amount out of its source. -/
def Transfer.flow (t : Transfer) (token holder : Address) : Int :=
  (if token = t.token ∧ holder = t.target then t.amount else 0) -
    (if token = t.token ∧ holder = t.source then t.amount else 0)

/-- The balances after transfers `ts`. -/
def Balances.move (b : Balances) (ts : List Transfer) : Balances :=
  fun token holder => b token holder + (ts.map fun t => t.flow token holder).sum

/-- Transfers that neither draw on nor credit an account leave its balance. -/
theorem Balances.move_of_avoids {b : Balances} {ts : List Transfer} {token holder : Address}
    (avoids : ∀ t ∈ ts, (token, holder) ≠ (t.token, t.source) ∧ (token, holder) ≠ (t.token, t.target)) :
    b.move ts token holder = b token holder := by
  have zero : ∀ t ∈ ts, t.flow token holder = 0 := fun t mem => by
    obtain ⟨source, target⟩ := avoids t mem
    simp only [ne_eq, Prod.mk.injEq, not_and] at source target
    unfold Transfer.flow
    by_cases tok : token = t.token
    · simp [tok, source tok, target tok]
    · simp [tok]
  simp only [Balances.move, List.map_congr_left zero, List.map_const', List.sum_replicate,
    smul_zero, add_zero]

/-- Neither of two transfers draws on an account that the other moves: each
one's source account is neither the other's source nor its target. -/
def Transfer.Apart (t₁ t₂ : Transfer) : Prop :=
  (t₁.token, t₁.source) ≠ (t₂.token, t₂.source) ∧ (t₁.token, t₁.source) ≠ (t₂.token, t₂.target) ∧
    (t₂.token, t₂.source) ≠ (t₁.token, t₁.target)

instance (t₁ t₂ : Transfer) : Decidable (t₁.Apart t₂) := inferInstanceAs (Decidable (_ ∧ _ ∧ _))

section World

variable {σ Call α ε : Type} (step : Env → Call → σ → Except String (σ × Receipt α ε))

/-- A contract call against the token: the contract runs with the token deciding
from the balances, and the transfers of a call that returns move them. Each
transfer is decided at the balances before the call, which is exact here: no
entry point of the modelled contracts makes more than one transfer. -/
def withToken (env : Env) (call : Call) (w : σ × Balances) :
    Except String ((σ × Balances) × Receipt α ε) :=
  (step (env.against w.2) call w.1).map fun out => ((out.1, w.2.move out.2.transfers), out.2)

variable {step}

theorem withToken_eq_ok {env : Env} {call : Call} {w w' : σ × Balances} {r : Receipt α ε} :
    withToken step env call w = .ok (w', r) ↔
      ∃ s', step (env.against w.2) call w.1 = .ok (s', r) ∧ w' = (s', w.2.move r.transfers) := by
  simp only [withToken, map_eq_ok]
  constructor
  · rintro ⟨⟨s', r'⟩, h, e⟩
    obtain ⟨rfl, rfl⟩ := Prod.mk.inj e
    exact ⟨s', h, rfl⟩
  · rintro ⟨s', h, rfl⟩
    exact ⟨(s', r), h, rfl⟩

/-- A call that runs on `s'` as it runs on `s`, with its store merged by `m`, and
that reads no balance transfers `T` moved, returns against the moved balances
what it returns at `(s, b)`, with `T` moved as well. -/
theorem withToken_after {s s' : σ} {b : Balances} {e : Env} {c : Call} {T : List Transfer}
    (m : σ → σ) (after : ∀ env, step env c s' = (step env c s).map fun out => (m out.1, out.2))
    (unmoved : step (e.against (b.move T)) c s = step (e.against b) c s) :
    withToken step e c (s', b.move T) = (withToken step e c (s, b)).map
      fun out => ((m out.1.1, fun tk h => b.move T tk h + (out.1.2 tk h - b tk h)), out.2) := by
  simp only [withToken]
  rw [after, unmoved]
  cases step (e.against b) c s with
  | error e => rfl
  | ok out =>
      simp only [Except.map, Except.ok.injEq, Prod.mk.injEq, and_true, true_and]
      funext tk h
      simp only [Balances.move]
      ring

/-- **Commuting against the token.** Two calls commute at `(s, b)` against the
token when, whatever the token decides, each run after the other returns what
it returns at `s` with its store merged into the other's, the two merges agree,
and neither call's transfer at `s` draws on an account that the other's
transfer moves. -/
theorem commute_withToken {s : σ} {b : Balances} {e₁ e₂ : Env} {c₁ c₂ : Call}
    (m₁ m₂ : σ → σ → σ) {o₁ o₂ : Option Transfer}
    (local₁ : ∀ env env' s₂ r₂, step env' c₂ s = .ok (s₂, r₂) →
      step env c₁ s₂ = (step env c₁ s).map fun out => (m₁ s₂ out.1, out.2))
    (local₂ : ∀ env env' s₁ r₁, step env' c₁ s = .ok (s₁, r₁) →
      step env c₂ s₁ = (step env c₂ s).map fun out => (m₂ s₁ out.1, out.2))
    (merge : ∀ env env' s₁ r₁ s₂ r₂, step env c₁ s = .ok (s₁, r₁) →
      step env' c₂ s = .ok (s₂, r₂) → m₂ s₁ s₂ = m₁ s₂ s₁)
    (reads₁ : ∀ b', (∀ t ∈ o₁, b' t.token t.source = b t.token t.source) →
      step (e₁.against b') c₁ s = step (e₁.against b) c₁ s)
    (reads₂ : ∀ b', (∀ t ∈ o₂, b' t.token t.source = b t.token t.source) →
      step (e₂.against b') c₂ s = step (e₂.against b) c₂ s)
    (writes₁ : ∀ s₁ r₁, step (e₁.against b) c₁ s = .ok (s₁, r₁) → r₁.transfers = o₁.toList)
    (writes₂ : ∀ s₂ r₂, step (e₂.against b) c₂ s = .ok (s₂, r₂) → r₂.transfers = o₂.toList)
    (apart : ∀ t₁ ∈ o₁, ∀ t₂ ∈ o₂, t₁.Apart t₂) :
    Commute (withToken step) (s, b) e₁ c₁ e₂ c₂ := by
  have unmoved₁ : ∀ s₂ r₂, step (e₂.against b) c₂ s = .ok (s₂, r₂) →
      step (e₁.against (b.move r₂.transfers)) c₁ s = step (e₁.against b) c₁ s :=
    fun s₂ r₂ h₂ => reads₁ _ fun t₁ in₁ => Balances.move_of_avoids fun t₂ in₂ => by
      rw [writes₂ s₂ r₂ h₂, Option.mem_toList] at in₂
      exact ⟨(apart t₁ in₁ t₂ in₂).1, (apart t₁ in₁ t₂ in₂).2.1⟩
  have unmoved₂ : ∀ s₁ r₁, step (e₁.against b) c₁ s = .ok (s₁, r₁) →
      step (e₂.against (b.move r₁.transfers)) c₂ s = step (e₂.against b) c₂ s :=
    fun s₁ r₁ h₁ => reads₂ _ fun t₂ in₂ => Balances.move_of_avoids fun t₁ in₁ => by
      rw [writes₁ s₁ r₁ h₁, Option.mem_toList] at in₁
      exact ⟨(apart t₁ in₁ t₂ in₂).1.symm, (apart t₁ in₁ t₂ in₂).2.2⟩
  refine commute_of_local (fun w₂ w₁ => (m₁ w₂.1 w₁.1, fun tk h => w₂.2 tk h + (w₁.2 tk h - b tk h)))
    (fun w₁ w₂ => (m₂ w₁.1 w₂.1, fun tk h => w₁.2 tk h + (w₂.2 tk h - b tk h)))
    (fun w₂ r₂ h₂ => ?_) (fun w₁ r₁ h₁ => ?_) (fun w₁ r₁ w₂ r₂ h₁ h₂ => ?_)
  · obtain ⟨s₂, step₂, rfl⟩ := withToken_eq_ok.mp h₂
    exact withToken_after _ (fun env => local₁ env _ _ _ step₂) (unmoved₁ _ _ step₂)
  · obtain ⟨s₁, step₁, rfl⟩ := withToken_eq_ok.mp h₁
    exact withToken_after _ (fun env => local₂ env _ _ _ step₁) (unmoved₂ _ _ step₁)
  · obtain ⟨s₁, step₁, rfl⟩ := withToken_eq_ok.mp h₁
    obtain ⟨s₂, step₂, rfl⟩ := withToken_eq_ok.mp h₂
    refine Prod.ext (merge _ _ _ _ _ _ step₁ step₂) (funext fun tk => funext fun h => ?_)
    simp only [Balances.move]
    ring

end World

end StellarSpend
