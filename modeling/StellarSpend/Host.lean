import Mathlib

/-!
# The Soroban host, as the contracts call it

Every contract of the repository runs against one host: a ledger clock, an
authorization oracle, a token contract and a key/value store (spec §6). This
module models what the contracts call of it.

* `Env` — the ledger timestamp of the call, the addresses whose authorization
  the call carries, the transfers the token contract accepts, and the calling
  contract's own address. Authorization and transfer are opaque fail-fast
  collaborators: `requireAuth` and `transfer` abort the whole call.
* `ensure`, `panicIf` — Rust's `assert!(c, msg)` and `if c { panic!(msg) }`.
* `u64Add`, `u64Sub`, `u64Mul`, `u64Div`, `u32Add`, `i128Add` — the integer
  operations of the source with overflow checks on, as the contracts are built:
  an overflow panics with Rust's message instead of wrapping.

Lean 4.14 has no `Int128`; an `i128` is an `Int`, and each `i128` operation of
the source checks that its result lies in `[-2^127, 2^127)`.
-/

namespace StellarSpend

/-- An account or contract address. The contracts only compare addresses. -/
structure Address where
  id : Nat
  deriving DecidableEq, Repr

/-- One call `token::Client::new(&env, &token).transfer(&from, &to, &amount)`. -/
structure Transfer where
  token : Address
  source : Address
  target : Address
  amount : Int
  deriving DecidableEq, Repr

/-- What one contract call sees of its host. -/
structure Env where
  timestamp : UInt64
  /-- `require_auth(a)` succeeds exactly for these addresses. -/
  authorizes : Address → Bool
  /-- The token contract accepts exactly these transfers. -/
  accepts : Transfer → Bool
  /-- `env.current_contract_address()`. -/
  currentContract : Address

/-! ### Aborting steps -/

/-- `assert!(c, msg)`: panic with `msg` unless `c`. -/
def ensure (c : Prop) [Decidable c] (msg : String) : Except String Unit :=
  if c then pure () else throw msg

/-- `if c { panic!(msg) }`. -/
def panicIf (c : Prop) [Decidable c] (msg : String) : Except String Unit :=
  if c then throw msg else pure ()

/-- `.expect(msg)` on an `Option`. -/
def expect {α : Type} (value : Option α) (msg : String) : Except String α :=
  match value with
  | some a => pure a
  | none => throw msg

/-- `a.require_auth()`. -/
def requireAuth (env : Env) (a : Address) : Except String Unit :=
  ensure (env.authorizes a = true) "require_auth: authorization failed"

/-- A token transfer; a rejected transfer aborts the calling operation. -/
def transfer (env : Env) (token source target : Address) (amount : Int) :
    Except String Transfer :=
  if env.accepts ⟨token, source, target, amount⟩ then pure ⟨token, source, target, amount⟩
  else throw "token transfer failed"

@[simp] theorem pure_eq_ok {α : Type} (a : α) : (pure a : Except String α) = .ok a := rfl

@[simp] theorem throw_eq_error {α : Type} (e : String) : (throw e : Except String α) = .error e :=
  rfl

theorem bind_eq_ok {α β : Type} {x : Except String α} {f : α → Except String β} {b : β} :
    x >>= f = .ok b ↔ ∃ a, x = .ok a ∧ f a = .ok b := by
  cases x <;> simp [bind, Except.bind]

theorem map_eq_ok {α β : Type} {f : α → β} {x : Except String α} {b : β} :
    x.map f = .ok b ↔ ∃ a, x = .ok a ∧ f a = b := by
  cases x <;> simp [Except.map]

/-- Mapping the result of a computation maps the result of its last step. -/
theorem except_map_bind {α β γ : Type} (x : Except String α) (f : α → Except String β)
    (g : β → γ) : (x >>= f).map g = x >>= fun a => (f a).map g := by
  cases x <;> rfl

/-- Binding a mapped computation binds the computation and maps into the continuation. -/
theorem except_bind_map {α β γ : Type} (x : Except String α) (g : α → β)
    (k : β → Except String γ) : x.map g >>= k = x >>= fun a => k (g a) := by
  cases x <;> rfl

/-- `mapM` reads its function only on the list's elements. -/
theorem mapM_congr {α β : Type} {f g : α → Except String β} {l : List α}
    (h : ∀ x ∈ l, f x = g x) : l.mapM f = l.mapM g := by
  induction l with
  | nil => rfl
  | cons x l ih =>
      simp only [List.mapM_cons, h x (List.mem_cons_self _ _),
        ih fun y hy => h y (List.mem_cons_of_mem _ hy)]

@[simp] theorem ok_bind {α β : Type} (a : α) (f : α → Except String β) :
    (Except.ok a >>= f) = f a := rfl

@[simp] theorem error_bind {α β : Type} (e : String) (f : α → Except String β) :
    (Except.error e >>= f) = .error e := rfl

@[simp] theorem ensure_eq_ok {c : Prop} [Decidable c] {msg : String} {u : Unit} :
    ensure c msg = .ok u ↔ c := by
  by_cases h : c <;> simp [ensure, h]

@[simp] theorem panicIf_eq_ok {c : Prop} [Decidable c] {msg : String} {u : Unit} :
    panicIf c msg = .ok u ↔ ¬ c := by
  by_cases h : c <;> simp [panicIf, h]

@[simp] theorem expect_eq_ok {α : Type} {value : Option α} {msg : String} {a : α} :
    expect value msg = .ok a ↔ value = some a := by
  cases value <;> simp [expect]

@[simp] theorem expect_none {α : Type} {msg : String} : expect (none : Option α) msg = .error msg :=
  rfl

@[simp] theorem transfer_eq_ok {env : Env} {token source target : Address} {amount : Int}
    {t : Transfer} :
    transfer env token source target amount = .ok t ↔
      t = ⟨token, source, target, amount⟩ ∧ env.accepts ⟨token, source, target, amount⟩ = true := by
  by_cases h : env.accepts ⟨token, source, target, amount⟩ <;> simp [transfer, h, eq_comm]

/-! ### Machine integers under overflow checks -/

theorem u64_lt_iff {a b : UInt64} : a < b ↔ a.toNat < b.toNat := Iff.rfl

theorem u64_le_iff {a b : UInt64} : a ≤ b ↔ a.toNat ≤ b.toNat := Iff.rfl

theorem u64_eq_iff {a b : UInt64} : a = b ↔ a.toNat = b.toNat :=
  ⟨congrArg _, UInt64.toNat.inj⟩

theorem u64_toNat_lt (a : UInt64) : a.toNat < 2 ^ 64 := a.toNat_lt_size

@[simp] theorem u64_toNat_one : (1 : UInt64).toNat = 1 := rfl

theorem u64_toNat_ofNat {x : Nat} (h : x < 2 ^ 64) : (UInt64.ofNat x).toNat = x :=
  UInt64.toNat_ofNat_of_lt h

/-- `a + b` on `u64`. -/
def u64Add (a b : UInt64) : Except String UInt64 :=
  if a.toNat + b.toNat < 2 ^ 64 then pure (a + b) else throw "attempt to add with overflow"

/-- `a - b` on `u64`. -/
def u64Sub (a b : UInt64) : Except String UInt64 :=
  if b ≤ a then pure (a - b) else throw "attempt to subtract with overflow"

/-- `a * b` on `u64`. -/
def u64Mul (a b : UInt64) : Except String UInt64 :=
  if a.toNat * b.toNat < 2 ^ 64 then pure (a * b) else throw "attempt to multiply with overflow"

/-- `a / b` on `u64`. -/
def u64Div (a b : UInt64) : Except String UInt64 :=
  if b = 0 then throw "attempt to divide by zero" else pure (a / b)

/-- `a + b` on `u32`. -/
def u32Add (a b : UInt32) : Except String UInt32 :=
  if a.toNat + b.toNat < 2 ^ 32 then pure (a + b) else throw "attempt to add with overflow"

/-- The range of `i128`, from `i128::MIN` to `i128::MAX`. -/
def I128.inRange (x : Int) : Prop :=
  -170141183460469231731687303715884105728 ≤ x ∧ x ≤ 170141183460469231731687303715884105727

instance (x : Int) : Decidable (I128.inRange x) := inferInstanceAs (Decidable (_ ∧ _))

/-- `a + b` on `i128`. -/
def i128Add (a b : Int) : Except String Int :=
  if I128.inRange (a + b) then pure (a + b) else throw "attempt to add with overflow"

/-- The shape of every checked operation: a value when the check passes, a
panic otherwise. -/
theorem ite_eq_ok {α : Type} {c : Prop} [Decidable c] {x r : α} {msg : String} :
    (if c then pure x else throw msg : Except String α) = .ok r ↔ c ∧ x = r := by
  by_cases h : c <;> simp [h]

section Checked

variable {a b r : UInt64}

theorem u64_toNat_add_of_lt (fits : a.toNat + b.toNat < 2 ^ 64) :
    (a + b).toNat = a.toNat + b.toNat :=
  (BitVec.toNat_add _ _).trans (Nat.mod_eq_of_lt fits)

theorem u64_toNat_mul_of_lt (fits : a.toNat * b.toNat < 2 ^ 64) :
    (a * b).toNat = a.toNat * b.toNat :=
  (BitVec.toNat_mul _ _).trans (Nat.mod_eq_of_lt fits)

@[simp] theorem u64Add_eq_ok :
    u64Add a b = .ok r ↔ a.toNat + b.toNat < 2 ^ 64 ∧ r.toNat = a.toNat + b.toNat := by
  rw [u64Add, ite_eq_ok]
  exact and_congr_right fun fits => by rw [u64_eq_iff, u64_toNat_add_of_lt fits, eq_comm]

@[simp] theorem u64Sub_eq_ok :
    u64Sub a b = .ok r ↔ b.toNat ≤ a.toNat ∧ r.toNat = a.toNat - b.toNat := by
  rw [u64Sub, ite_eq_ok]
  exact and_congr_right fun le => by rw [u64_eq_iff, UInt64.toNat_sub_of_le _ _ le, eq_comm]

@[simp] theorem u64Mul_eq_ok :
    u64Mul a b = .ok r ↔ a.toNat * b.toNat < 2 ^ 64 ∧ r.toNat = a.toNat * b.toNat := by
  rw [u64Mul, ite_eq_ok]
  exact and_congr_right fun fits => by rw [u64_eq_iff, u64_toNat_mul_of_lt fits, eq_comm]

@[simp] theorem u64Div_eq_ok :
    u64Div a b = .ok r ↔ 0 < b.toNat ∧ r.toNat = a.toNat / b.toNat := by
  by_cases nz : b = 0
  · simp [u64Div, nz]
  · have : 0 < b.toNat := Nat.pos_of_ne_zero fun h => nz (u64_eq_iff.mpr h)
    simp [u64Div, nz, u64_eq_iff, this, eq_comm]

end Checked

theorem u32_toNat_lt (a : UInt32) : a.toNat < 2 ^ 32 := a.toNat_lt_size

theorem u32_toNat_add_of_lt {a b : UInt32} (fits : a.toNat + b.toNat < 2 ^ 32) :
    (a + b).toNat = a.toNat + b.toNat :=
  (BitVec.toNat_add _ _).trans (Nat.mod_eq_of_lt fits)

theorem u32_toNat_succ {a : UInt32} (fits : a.toNat + 1 < 2 ^ 32) : (a + 1).toNat = a.toNat + 1 :=
  u32_toNat_add_of_lt fits

@[simp] theorem u32Add_eq_ok {a b r : UInt32} :
    u32Add a b = .ok r ↔ a.toNat + b.toNat < 2 ^ 32 ∧ r.toNat = a.toNat + b.toNat := by
  rw [u32Add, ite_eq_ok]
  refine and_congr_right fun fits => ?_
  have := u32_toNat_add_of_lt fits
  exact ⟨fun h => h ▸ this, fun h => UInt32.toNat.inj (this.trans h.symm)⟩

@[simp] theorem i128Add_eq_ok {a b r : Int} :
    i128Add a b = .ok r ↔ I128.inRange (a + b) ∧ r = a + b := by
  rw [i128Add, ite_eq_ok]
  exact and_congr_right fun _ => eq_comm

end StellarSpend
