import Mathlib.Data.List.Basic
import Mathlib.Tactic.Common

/-!
# Programs that call their environment

An `Interaction` is a program as the calls that it makes: it returns, throws, or calls and goes
on with the answer. An environment is a relation: a call in some state may be answered in
several ways, each with the events that happen meanwhile and the state behind them.

`wp` is the weakest condition under which a program ends, whatever its environment answers, in
a result, with events and in a state as wanted. It is defined by recursion on the program. The
rules for the constructors and for `bind` are equivalences, and `wp_mono` weakens what is
wanted. `Exec` are the executions of a program, one answer to every call; `wp` speaks of all of
them, and no others.
-/

/-- A program with calls `ι`, answers `α`, errors `ε` and results `ρ`. -/
inductive Interaction (ι α ε ρ : Type) where
  | ret (result : Except ε ρ)
  | call (query : ι) (next : α → Interaction ι α ε ρ)

namespace Interaction

variable {ι α ε ρ ρ' : Type}

/-- Goes on with the result of a program; an error ends it. -/
def bind (program : Interaction ι α ε ρ) (next : ρ → Interaction ι α ε ρ') :
    Interaction ι α ε ρ' :=
  match program with
  | .ret (.ok value) => next value
  | .ret (.error error) => .ret (.error error)
  | .call query rest => .call query fun answer => (rest answer).bind next

instance : Monad (Interaction ι α ε) where
  pure value := .ret (.ok value)
  bind := bind

/-- Goes on with the error of a program. -/
def catchError {ε' : Type} (program : Interaction ι α ε ρ)
    (handler : ε → Interaction ι α ε' ρ) : Interaction ι α ε' ρ :=
  match program with
  | .ret (.ok value) => .ret (.ok value)
  | .ret (.error error) => handler error
  | .call query rest => .call query fun answer => (rest answer).catchError handler

/-- The answer to a call. -/
def ask (query : ι) : Interaction ι α ε α := .call query fun answer => .ret (.ok answer)

variable {σ τ : Type*}

/-- What holds of the result, the events and the last state of a program, for every answer of
its environment. -/
def wp (env : σ → ι → α → List τ → σ → Prop) (program : Interaction ι α ε ρ)
    (wanted : Except ε ρ → List τ → σ → Prop) (s : σ) : Prop :=
  match program with
  | .ret result => wanted result [] s
  | .call query next => ∀ answer tr t, env s query answer tr t →
      (next answer).wp env (fun result tr' u => wanted result (tr ++ tr') u) t

section

variable {env : σ → ι → α → List τ → σ → Prop} {s : σ}
  {wanted wanted' : Except ε ρ → List τ → σ → Prop}

theorem wp_ret {result : Except ε ρ} : wp env (.ret result) wanted s ↔ wanted result [] s := .rfl

theorem wp_pure {value : ρ} :
    wp env (pure value : Interaction ι α ε ρ) wanted s ↔ wanted (.ok value) [] s := .rfl

theorem wp_mono {program : Interaction ι α ε ρ} (h : wp env program wanted s)
    (hwanted : ∀ result tr t, wanted result tr t → wanted' result tr t) :
    wp env program wanted' s := by
  induction program generalizing s wanted wanted' with
  | ret result => exact hwanted _ _ _ h
  | call query next ih =>
    intro answer tr t hanswer
    exact ih answer (h answer tr t hanswer) fun result tr' u => hwanted result (tr ++ tr') u

theorem wp_ask {query : ι} {wanted : Except ε α → List τ → σ → Prop} :
    wp env (ask query : Interaction ι α ε α) wanted s ↔
      ∀ answer tr t, env s query answer tr t → wanted (.ok answer) tr t := by
  unfold ask wp
  simp only [wp_ret, List.append_nil]

/-- A program that goes on with the result of another one. -/
theorem wp_bind {program : Interaction ι α ε ρ} {next : ρ → Interaction ι α ε ρ'}
    {wanted : Except ε ρ' → List τ → σ → Prop} :
    wp env (program >>= next) wanted s ↔
      wp env program (fun result tr t =>
        match result with
        | .ok value => wp env (next value) (fun result' tr' u => wanted result' (tr ++ tr') u) t
        | .error error => wanted (.error error) tr t) s := by
  change wp env (program.bind next) wanted s ↔ _
  induction program generalizing s wanted with
  | ret result =>
    cases result with
    | ok value => rfl
    | error error => rfl
  | call query rest ih =>
    refine forall₄_congr fun answer tr t _ => ?_
    rw [ih]
    simp only [List.append_assoc]

/-- A program with a handler for its error. -/
theorem wp_catchError {ε' : Type} {program : Interaction ι α ε ρ}
    {handler : ε → Interaction ι α ε' ρ} {wanted : Except ε' ρ → List τ → σ → Prop} :
    wp env (program.catchError handler) wanted s ↔
      wp env program (fun result tr t =>
        match result with
        | .ok value => wanted (.ok value) tr t
        | .error error => wp env (handler error) (fun result' tr' u => wanted result' (tr ++ tr') u)
            t) s := by
  induction program generalizing s wanted with
  | ret result =>
    cases result with
    | ok value => rfl
    | error error => rfl
  | call query rest ih =>
    refine forall₄_congr fun answer tr t _ => ?_
    rw [ih]
    simp only [List.append_assoc]

/-- What the environment does with every call, and goes on with, it does with a program. -/
theorem wp_and_of_env {R : σ → List τ → σ → Prop} (hnil : ∀ s, R s [] s)
    (happend : ∀ {s tr t tr' u}, R s tr t → R t tr' u → R s (tr ++ tr') u)
    (henv : ∀ {s query answer tr t}, env s query answer tr t → R s tr t)
    {program : Interaction ι α ε ρ} (h : wp env program wanted s) :
    wp env program (fun result tr t => wanted result tr t ∧ R s tr t) s := by
  induction program generalizing s wanted with
  | ret result => exact ⟨h, hnil s⟩
  | call query rest ih =>
    intro answer tr t hanswer
    refine wp_mono (ih answer (h answer tr t hanswer)) fun result tr' u hnext => ?_
    exact ⟨hnext.1, happend (henv hanswer) hnext.2⟩

end

/-! ## Executions -/

/-- A program ends in a result, with these events and in this state. -/
inductive Exec (env : σ → ι → α → List τ → σ → Prop) :
    Interaction ι α ε ρ → σ → Except ε ρ → List τ → σ → Prop
  | ret (result : Except ε ρ) (s : σ) : Exec env (.ret result) s result [] s
  | call {query : ι} {next : α → Interaction ι α ε ρ} {answer : α} {result : Except ε ρ}
    {s t u : σ} {tr tr' : List τ} (hanswer : env s query answer tr t)
    (hnext : Exec env (next answer) t result tr' u) :
    Exec env (.call query next) s result (tr ++ tr') u

section

variable {env : σ → ι → α → List τ → σ → Prop} {s t u : σ} {tr tr' : List τ}

/-- `wp` is what holds of the end of every execution. -/
theorem wp_iff_exec {program : Interaction ι α ε ρ} {wanted : Except ε ρ → List τ → σ → Prop} :
    wp env program wanted s ↔
      ∀ result tr t, Exec env program s result tr t → wanted result tr t := by
  induction program generalizing s wanted with
  | ret result =>
    constructor
    · intro h _ _ _ hexec
      cases hexec
      exact h
    · exact fun h => h _ _ _ (.ret result s)
  | call query next ih =>
    constructor
    · intro h _ _ _ hexec
      cases hexec with
      | call hanswer hnext => exact (ih _).mp (h _ _ _ hanswer) _ _ _ hnext
    · intro h answer tr t hanswer
      exact (ih answer).mpr fun result tr' u hnext => h _ _ _ (.call hanswer hnext)

theorem Exec.ask {query : ι} {answer : α} (h : env s query answer tr t) :
    Exec env (ask query : Interaction ι α ε α) s (.ok answer) tr t := by
  have hcall : Exec env (Interaction.ask query : Interaction ι α ε α) s (.ok answer) (tr ++ []) t :=
    .call h (.ret _ _)
  rwa [List.append_nil] at hcall

/-- The executions of a program that goes on with the result of another one. -/
theorem Exec.bind {program : Interaction ι α ε ρ} {value : ρ}
    {next : ρ → Interaction ι α ε ρ'} {result : Except ε ρ'}
    (h : Exec env program s (.ok value) tr t) (hnext : Exec env (next value) t result tr' u) :
    Exec env (program >>= next) s result (tr ++ tr') u := by
  change Exec env (program.bind next) s result (tr ++ tr') u
  generalize hresult : Except.ok value = first at h
  induction h with
  | ret =>
    subst hresult
    exact hnext
  | call hanswer _ ih =>
    rw [List.append_assoc]
    exact .call hanswer (ih hnext hresult)

/-- A handler is not called for a program that returns. -/
theorem Exec.catchError {ε' : Type} {program : Interaction ι α ε ρ} {value : ρ}
    {handler : ε → Interaction ι α ε' ρ} (h : Exec env program s (.ok value) tr t) :
    Exec env (program.catchError handler) s (.ok value) tr t := by
  generalize hresult : Except.ok value = first at h
  induction h with
  | ret =>
    subst hresult
    exact .ret _ _
  | call hanswer _ ih => exact .call hanswer (ih hresult)

end

end Interaction
