import StellarSpend.Host

/-!
# Runs of a contract

A contract is a step function `Env → Call → σ → Except String (σ × ρ)` on its
store. The host executes one call at a time (spec §5): a call that returns
commits its new store, and a call that panics is rolled back whole, leaving the
store as it was (spec §7). A run records every call in a log, with its
environment and its outcome, so that properties of whole runs can speak of
"the successful calls made so far".

* `commit` — the host's treatment of one call;
* `runFrom`, `run` — a run of calls from a store and a log;
* `runFrom_invariant` — an invariant of the store and log that every call
  preserves holds after every run; `runFrom_invariant_of_mem` asks it only of
  the run's own calls. Every run-level result of the project is proved through
  them.
* `Commute`, `runFrom_swap_at`, `runFrom_swap` — two calls that commute at the
  store a run reaches before them can be exchanged there without changing the
  run's final store or any call's outcome. `commute_of_local` derives
  commutation from what each call reads and writes, and `update_merge_comm`
  settles its merge step for stores that each call writes at one key.
-/

namespace StellarSpend

/-- What a returning call hands back to the host: its return value, the token
transfers it made and the notifications it published. -/
structure Receipt (α ε : Type) where
  value : α
  transfers : List Transfer
  events : List ε

/-- The same receipt with its return value mapped. -/
def Receipt.mapValue {α β ε : Type} (f : α → β) (r : Receipt α ε) : Receipt β ε :=
  ⟨f r.value, r.transfers, r.events⟩

/-- One call of a run as the host records it. -/
structure Entry (Call ρ : Type) where
  env : Env
  call : Call
  result : Except String ρ

section Runs

variable {σ Call ρ : Type} (step : Env → Call → σ → Except String (σ × ρ))

/-- The host runs one call: a returning call commits its store, a panicking one
is rolled back. -/
def commit (s : σ) (env : Env) (call : Call) : σ × Entry Call ρ :=
  match step env call s with
  | .ok (s', r) => (s', ⟨env, call, .ok r⟩)
  | .error e => (s, ⟨env, call, .error e⟩)

/-- The calls of a run, one after another, from a store and the log so far. -/
def runFrom : σ × List (Entry Call ρ) → List (Env × Call) → σ × List (Entry Call ρ)
  | st, [] => st
  | (s, log), (env, call) :: rest =>
      runFrom ((commit step s env call).1, log ++ [(commit step s env call).2]) rest

/-- A run from the store `init` with an empty log. -/
def run (init : σ) (calls : List (Env × Call)) : σ × List (Entry Call ρ) :=
  runFrom step (init, []) calls

variable {step}

theorem commit_of_ok {s s' : σ} {env : Env} {call : Call} {r : ρ}
    (h : step env call s = .ok (s', r)) : commit step s env call = (s', ⟨env, call, .ok r⟩) := by
  simp [commit, h]

theorem commit_of_error {s : σ} {env : Env} {call : Call} {e : String}
    (h : step env call s = .error e) : commit step s env call = (s, ⟨env, call, .error e⟩) := by
  simp [commit, h]

theorem runFrom_cons (st : σ × List (Entry Call ρ)) (env : Env) (call : Call)
    (rest : List (Env × Call)) :
    runFrom step st ((env, call) :: rest) =
      runFrom step ((commit step st.1 env call).1, st.2 ++ [(commit step st.1 env call).2]) rest :=
  rfl

theorem runFrom_append (st : σ × List (Entry Call ρ)) (xs ys : List (Env × Call)) :
    runFrom step st (xs ++ ys) = runFrom step (runFrom step st xs) ys := by
  induction xs generalizing st with
  | nil => rfl
  | cons c xs ih => exact ih _

theorem run_append (init : σ) (xs ys : List (Env × Call)) :
    run step init (xs ++ ys) = runFrom step (run step init xs) ys :=
  runFrom_append _ _ _

/-- An entry of a log is still there after the log grows. -/
theorem getElem?_concat_of_some {α : Type} {log : List α} {k : Nat} {x : α} (e : α)
    (h : log[k]? = some x) : (log ++ [e])[k]? = some x := by
  obtain ⟨hk, -⟩ := List.getElem?_eq_some_iff.mp h
  rwa [List.getElem?_append_left hk]

/-- An entry of a grown log is an old entry or the new one. -/
theorem getElem?_concat_eq_some {α : Type} {log : List α} {k : Nat} {x e : α}
    (h : (log ++ [e])[k]? = some x) : log[k]? = some x ∨ k = log.length ∧ x = e := by
  rcases Nat.lt_trichotomy k log.length with hk | rfl | hk
  · exact .inl (by rwa [List.getElem?_append_left hk] at h)
  · exact .inr ⟨rfl, by simpa using h.symm⟩
  · have : (log ++ [e])[k]? = none := List.getElem?_eq_none (by simp; omega)
    simp [this] at h

/-- **Run induction.** An invariant of the store and the log that holds at the
start and is kept by every committed or rolled-back call holds after the run. -/
theorem runFrom_invariant (Inv : σ → List (Entry Call ρ) → Prop)
    (onOk : ∀ s s' log env call r, Inv s log → step env call s = .ok (s', r) →
      Inv s' (log ++ [⟨env, call, .ok r⟩]))
    (onError : ∀ s log env call e, Inv s log → step env call s = .error e →
      Inv s (log ++ [⟨env, call, .error e⟩]))
    (st : σ × List (Entry Call ρ)) (calls : List (Env × Call)) (start : Inv st.1 st.2) :
    Inv (runFrom step st calls).1 (runFrom step st calls).2 := by
  induction calls generalizing st with
  | nil => exact start
  | cons c calls ih =>
      apply ih
      obtain ⟨s, log⟩ := st
      obtain ⟨env, call⟩ := c
      cases h : step env call s with
      | ok out => simpa [commit_of_ok h] using onOk s out.1 log env call out.2 start h
      | error e => simpa [commit_of_error h] using onError s log env call e start h

/-- Run induction over the calls of one given run: a call has to keep the
invariant only when it is one of the run's calls. -/
theorem runFrom_invariant_of_mem (Inv : σ → List (Entry Call ρ) → Prop) (calls : List (Env × Call))
    (onOk : ∀ s s' log env call r, (env, call) ∈ calls → Inv s log →
      step env call s = .ok (s', r) → Inv s' (log ++ [⟨env, call, .ok r⟩]))
    (onError : ∀ s log env call e, (env, call) ∈ calls → Inv s log →
      step env call s = .error e → Inv s (log ++ [⟨env, call, .error e⟩]))
    (st : σ × List (Entry Call ρ)) (start : Inv st.1 st.2) :
    Inv (runFrom step st calls).1 (runFrom step st calls).2 := by
  induction calls generalizing st with
  | nil => exact start
  | cons c calls ih =>
      refine ih (fun s s' log env call r mem => onOk s s' log env call r (List.mem_cons_of_mem _ mem))
        (fun s log env call e mem => onError s log env call e (List.mem_cons_of_mem _ mem)) _ ?_
      obtain ⟨s, log⟩ := st
      obtain ⟨env, call⟩ := c
      cases h : step env call s with
      | ok out =>
          simpa [commit_of_ok h] using
            onOk s out.1 log env call out.2 (List.mem_cons_self _ _) start h
      | error e =>
          simpa [commit_of_error h] using onError s log env call e (List.mem_cons_self _ _) start h

/-- An invariant of the store alone that every successful call keeps holds in
every store a run reaches. -/
theorem run_invariant (Inv : σ → Prop)
    (onOk : ∀ s s' env call r, Inv s → step env call s = .ok (s', r) → Inv s')
    (init : σ) (calls : List (Env × Call)) (start : Inv init) : Inv (run step init calls).1 :=
  runFrom_invariant (fun s _ => Inv s) (fun s s' _ env call r hs h => onOk s s' env call r hs h)
    (fun _ _ _ _ _ hs _ => hs) (init, []) calls start

/-! ### Calls that commute -/

variable (step) in
/-- Two calls commute at `s` when running them in either order reaches the same
store and gives each call the outcome it has when it runs first. -/
def Commute (s : σ) (e₁ : Env) (c₁ : Call) (e₂ : Env) (c₂ : Call) : Prop :=
  (commit step (commit step s e₁ c₁).1 e₂ c₂).1 = (commit step (commit step s e₂ c₂).1 e₁ c₁).1 ∧
    (commit step (commit step s e₁ c₁).1 e₂ c₂).2 = (commit step s e₂ c₂).2 ∧
    (commit step (commit step s e₂ c₂).1 e₁ c₁).2 = (commit step s e₁ c₁).2

/-- Two calls commute at `s` if each, run after the other, returns what it
returns at `s` with its store merged into the other's, and the two merges agree.
The four combinations of returning and panicking are settled here once. -/
theorem commute_of_local {s : σ} {e₁ e₂ : Env} {c₁ c₂ : Call} (m₁ m₂ : σ → σ → σ)
    (local₁ : ∀ s₂ r₂, step e₂ c₂ s = .ok (s₂, r₂) →
      step e₁ c₁ s₂ = (step e₁ c₁ s).map fun out => (m₁ s₂ out.1, out.2))
    (local₂ : ∀ s₁ r₁, step e₁ c₁ s = .ok (s₁, r₁) →
      step e₂ c₂ s₁ = (step e₂ c₂ s).map fun out => (m₂ s₁ out.1, out.2))
    (merge : ∀ s₁ r₁ s₂ r₂, step e₁ c₁ s = .ok (s₁, r₁) → step e₂ c₂ s = .ok (s₂, r₂) →
      m₂ s₁ s₂ = m₁ s₂ s₁) :
    Commute step s e₁ c₁ e₂ c₂ := by
  cases h₁ : step e₁ c₁ s with
  | ok out₁ =>
      obtain ⟨s₁, r₁⟩ := out₁
      have after₂ := local₂ s₁ r₁ h₁
      cases h₂ : step e₂ c₂ s with
      | ok out₂ =>
          obtain ⟨s₂, r₂⟩ := out₂
          have after₁ := local₁ s₂ r₂ h₂
          rw [h₂] at after₂; rw [h₁] at after₁
          simp only [Commute, commit_of_ok h₁, commit_of_ok h₂, commit_of_ok after₁,
            commit_of_ok after₂, Except.map, merge s₁ r₁ s₂ r₂ h₁ h₂, and_self]
      | error e₂ =>
          rw [h₂] at after₂
          simp only [Commute, commit_of_ok h₁, commit_of_error h₂, commit_of_error after₂, and_self]
  | error e₁ =>
      cases h₂ : step e₂ c₂ s with
      | ok out₂ =>
          obtain ⟨s₂, r₂⟩ := out₂
          have after₁ := local₁ s₂ r₂ h₂
          rw [h₁] at after₁
          simp only [Commute, commit_of_error h₁, commit_of_ok h₂, commit_of_error after₁, and_self]
      | error e₂ =>
          simp only [Commute, commit_of_error h₁, commit_of_error h₂, and_self]

/-- Two maps that each changed `f` at one key only, at different keys, merge the
same way in either order: the merge obligation of `commute_of_local` for a store
that each call writes at one key. -/
theorem update_merge_comm {κ β : Type} [DecidableEq κ] {f g₁ g₂ : κ → β} {i j : κ} (ne : i ≠ j)
    (frame₁ : ∀ k, k ≠ i → g₁ k = f k) (frame₂ : ∀ k, k ≠ j → g₂ k = f k) :
    Function.update g₁ j (g₂ j) = Function.update g₂ i (g₁ i) := by
  obtain ⟨v₁, rfl⟩ : ∃ v, g₁ = Function.update f i v := ⟨_, Function.eq_update_iff.mpr ⟨rfl, frame₁⟩⟩
  obtain ⟨v₂, rfl⟩ : ∃ v, g₂ = Function.update f j v := ⟨_, Function.eq_update_iff.mpr ⟨rfl, frame₂⟩⟩
  simp only [Function.update_same]
  exact Function.update_comm ne v₁ v₂ f

/-- A run's later calls do not read its log: running from a log is running from
the empty log and appending. -/
theorem runFrom_from_log (s : σ) (log : List (Entry Call ρ)) (calls : List (Env × Call)) :
    runFrom step (s, log) calls =
      ((runFrom step (s, []) calls).1, log ++ (runFrom step (s, []) calls).2) := by
  induction calls generalizing s log with
  | nil => simp [runFrom]
  | cons c calls ih =>
      simp only [runFrom, List.nil_append]
      rw [ih, ih _ [_]]
      simp

/-- **Swapping commuting calls.** If two calls commute at the store a run
reaches before them, then exchanging them where they stand next to each other
leaves the final store as it is, and the log differs only in the order of their
two entries: every call of the run has the same outcome. -/
theorem runFrom_swap_at {e₁ e₂ : Env} {c₁ c₂ : Call} (st : σ × List (Entry Call ρ))
    (pre post : List (Env × Call)) (comm : Commute step (runFrom step st pre).1 e₁ c₁ e₂ c₂) :
    (runFrom step st (pre ++ (e₁, c₁) :: (e₂, c₂) :: post)).1 =
      (runFrom step st (pre ++ (e₂, c₂) :: (e₁, c₁) :: post)).1 ∧
    ∃ A B l₁ l₂, (runFrom step st (pre ++ (e₁, c₁) :: (e₂, c₂) :: post)).2 = A ++ l₁ :: l₂ :: B ∧
      (runFrom step st (pre ++ (e₂, c₂) :: (e₁, c₁) :: post)).2 = A ++ l₂ :: l₁ :: B := by
  rw [runFrom_append, runFrom_append]
  obtain ⟨same, second, first⟩ := comm
  generalize runFrom step st pre = mid at same second first ⊢
  obtain ⟨s, log⟩ := mid
  simp only [runFrom_cons]
  rw [runFrom_from_log _ (log ++ _ ++ _), runFrom_from_log _ (log ++ _ ++ _), same, second, first]
  exact ⟨rfl, log, (runFrom step ((commit step (commit step s e₂ c₂).1 e₁ c₁).1, []) post).2,
    (commit step s e₁ c₁).2, (commit step s e₂ c₂).2, by simp, by simp⟩

/-- Two calls that commute at every store can be exchanged in every run. -/
theorem runFrom_swap {e₁ e₂ : Env} {c₁ c₂ : Call} (comm : ∀ s, Commute step s e₁ c₁ e₂ c₂)
    (st : σ × List (Entry Call ρ)) (pre post : List (Env × Call)) :
    (runFrom step st (pre ++ (e₁, c₁) :: (e₂, c₂) :: post)).1 =
      (runFrom step st (pre ++ (e₂, c₂) :: (e₁, c₁) :: post)).1 ∧
    ∃ A B l₁ l₂, (runFrom step st (pre ++ (e₁, c₁) :: (e₂, c₂) :: post)).2 = A ++ l₁ :: l₂ :: B ∧
      (runFrom step st (pre ++ (e₂, c₂) :: (e₁, c₁) :: post)).2 = A ++ l₂ :: l₁ :: B :=
  runFrom_swap_at st pre post (comm _)

end Runs

end StellarSpend
