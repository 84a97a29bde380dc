import WaterNetwork.Configuration.Pass

/-!
# Runs of attempts

How an attempt runs is said part by part: what a sequence does with the outcome of its first
part, and what the steps of a configuration (a call, a resolution, a condition) do to the
model. A call passes the table through, a resolution passes the builder through, and a
condition passes both, which is all that later arguments need of these steps.

* `Respects` — what every run does to the state, as a relation between before and after.
* `Agrees` — what two runs of one attempt have in common, as a relation between their states.
-/

namespace WaterNetwork

namespace Attempt

variable {σ ε α β ι : Type} {s s' : σ}

/-- A sequence goes on from the state that its first part leaves, or fails where that fails. -/
theorem runFrom_bind (x : Attempt σ ε α) (f : α → Attempt σ ε β) (s : σ) :
    (x >>= f).runFrom s = match x.runFrom s with
      | (.ok a, s') => (f a).runFrom s'
      | (.error e, s') => (.error e, s') := by
  simp only [runFrom, bind, ExceptT.bind, ExceptT.mk, StateT.bind]
  rcases x s with ⟨e | a, s'⟩ <;> rfl

theorem runFrom_bind_ok {x : Attempt σ ε α} {f : α → Attempt σ ε β} {a : α}
    (h : x.runFrom s = (.ok a, s')) : (x >>= f).runFrom s = (f a).runFrom s' := by
  rw [runFrom_bind, h]

theorem runFrom_bind_error {x : Attempt σ ε α} {f : α → Attempt σ ε β} {e : ε}
    (h : x.runFrom s = (.error e, s')) : (x >>= f).runFrom s = (.error e, s') := by
  rw [runFrom_bind, h]

/-- An outcome that is no success is a failure. -/
theorem exists_eq_error_iff {result : Except ε α} :
    (∃ e, result = .error e) ↔ ¬ ∃ a, result = .ok a := by
  cases result <;> simp

theorem runFrom_forM_cons_ok {f : ι → Attempt σ ε PUnit} {i : ι} (is : List ι)
    (h : (f i).runFrom s = (.ok (), s')) :
    (forM (i :: is) f).runFrom s = (forM is f).runFrom s' := by
  rw [List.forM_cons, runFrom_bind_ok h]

theorem runFrom_forM_cons_error {f : ι → Attempt σ ε PUnit} {i : ι} {e : ε} (is : List ι)
    (h : (f i).runFrom s = (.error e, s')) :
    (forM (i :: is) f).runFrom s = (.error e, s') := by
  rw [List.forM_cons, runFrom_bind_error h]

theorem runFrom_forM_append_ok {f : ι → Attempt σ ε PUnit} {is : List ι} (js : List ι)
    (h : (forM is f).runFrom s = (.ok (), s')) :
    (forM (is ++ js) f).runFrom s = (forM js f).runFrom s' := by
  rw [List.forM_append, runFrom_bind_ok h]

/-! ### Attempts that only look at the state -/

theorem runFrom_pure (a : α) (s : σ) : (pure a : Attempt σ ε α).runFrom s = (.ok a, s) := rfl

theorem runFrom_throw (e : ε) (s : σ) : (throw e : Attempt σ ε α).runFrom s = (.error e, s) := rfl

theorem runFrom_get (s : σ) : (get : Attempt σ ε σ).runFrom s = (.ok s, s) := rfl

theorem runFrom_ofExcept (result : Except ε α) (s : σ) :
    (MonadExcept.ofExcept result : Attempt σ ε α).runFrom s = (result, s) := by
  cases result <;> rfl

/-- **Atomic attempts** leave the state as it was when they fail. -/
def Atomic (x : Attempt σ ε α) : Prop := ∀ s e s', x.runFrom s = (.error e, s') → s' = s

/-- The outcome of a failure says what state it leaves. -/
theorem Atomic.runFrom_eq_error_iff {x : Attempt σ ε α} (h : Atomic x) {e : ε} :
    x.runFrom s = (.error e, s) ↔ (x.runFrom s).1 = .error e := by
  refine ⟨congrArg Prod.fst, fun he => ?_⟩
  rcases hrun : x.runFrom s with ⟨result, s'⟩
  rw [hrun] at he
  obtain rfl : result = .error e := he
  rw [h s e s' hrun]

/-! ### What all runs of an attempt do to the state -/

/-- Every run of an attempt, whether it fails or not, takes a state to one that is related to
it. -/
def Respects (R : σ → σ → Prop) (x : Attempt σ ε α) : Prop := ∀ s, R s (x.runFrom s).2

namespace Respects

variable {R : σ → σ → Prop}

theorem pure (hrefl : ∀ s, R s s) (a : α) : Respects R (Pure.pure a : Attempt σ ε α) := hrefl

theorem bind (htrans : ∀ ⦃s₁ s₂ s₃⦄, R s₁ s₂ → R s₂ s₃ → R s₁ s₃) {x : Attempt σ ε α}
    {f : α → Attempt σ ε β} (hx : Respects R x) (hf : ∀ a, Respects R (f a)) :
    Respects R (x >>= f) := by
  intro s
  have hs := hx s
  rw [runFrom_bind]
  rcases h : x.runFrom s with ⟨e | a, s'⟩
  · rw [h] at hs
    exact hs
  · rw [h] at hs
    exact htrans hs (hf a s')

theorem forM (hrefl : ∀ s, R s s) (htrans : ∀ ⦃s₁ s₂ s₃⦄, R s₁ s₂ → R s₂ s₃ → R s₁ s₃)
    {f : ι → Attempt σ ε PUnit} {is : List ι} (hf : ∀ i ∈ is, Respects R (f i)) :
    Respects R (ForM.forM is f) := by
  induction is with
  | nil => exact pure hrefl _
  | cons i is ih =>
    rw [List.forall_mem_cons] at hf
    rw [List.forM_cons]
    exact bind htrans hf.1 fun _ => ih hf.2

end Respects

/-! ### What two runs of an attempt have in common -/

/-- **Runs that agree**: from states that are related, an attempt has the same outcome, and it
leaves states that are related again. -/
def Agrees (R : σ → σ → Prop) (x : Attempt σ ε α) : Prop :=
  ∀ s₁ s₂, R s₁ s₂ → ∃ result s₁' s₂',
    x.runFrom s₁ = (result, s₁') ∧ x.runFrom s₂ = (result, s₂') ∧ R s₁' s₂'

namespace Agrees

variable {R : σ → σ → Prop}

theorem pure (a : α) : Agrees R (Pure.pure a : Attempt σ ε α) :=
  fun s₁ s₂ h => ⟨.ok a, s₁, s₂, rfl, rfl, h⟩

theorem bind {x : Attempt σ ε α} {f : α → Attempt σ ε β} (hx : Agrees R x)
    (hf : ∀ a, Agrees R (f a)) : Agrees R (x >>= f) := by
  intro s₁ s₂ h
  obtain ⟨e | a, s₁', s₂', h₁, h₂, h'⟩ := hx s₁ s₂ h
  · exact ⟨.error e, s₁', s₂', runFrom_bind_error h₁, runFrom_bind_error h₂, h'⟩
  · rw [runFrom_bind_ok h₁, runFrom_bind_ok h₂]
    exact hf a s₁' s₂' h'

theorem forM {f : ι → Attempt σ ε PUnit} (hf : ∀ i, Agrees R (f i)) (is : List ι) :
    Agrees R (ForM.forM is f) := by
  induction is with
  | nil => exact pure _
  | cons i is ih =>
    rw [List.forM_cons]
    exact bind (hf i) fun _ => ih

end Agrees

end Attempt

namespace Configuring

open Attempt

variable {σ α β : Type} {m : Model σ}

theorem runFrom_call (x : Attempt σ NetworkError α) (m : Model σ) :
    (call x).runFrom m =
      ((x.runFrom m.builder).1.mapError .network, { m with builder := (x.runFrom m.builder).2 }) :=
  rfl

/-- A call that respects a relation between builders, respects it between models. -/
theorem respects_call {R : Model σ → Model σ → Prop} {x : Attempt σ NetworkError α}
    (hx : ∀ m : Model σ, R m { m with builder := (x.runFrom m.builder).2 }) :
    Respects R (call x) := hx

theorem runFrom_resolving (node : String) (a : NodeAttribute)
    (resolve : σ → Attempt ParameterTable ParameterError α) (m : Model σ) :
    (resolving node a resolve).runFrom m =
      (((resolve m.builder).runFrom m.table).1.mapError (.unresolved node a),
        { m with table := ((resolve m.builder).runFrom m.table).2 }) := rfl

theorem runFrom_resolving_ok {node : String} {a : NodeAttribute} {value : α}
    {resolve : σ → Attempt ParameterTable ParameterError α} {table : ParameterTable}
    (h : (resolve m.builder).runFrom m.table = (.ok value, table)) :
    (resolving node a resolve).runFrom m = (.ok value, { m with table }) := by
  rw [runFrom_resolving, h]
  rfl

theorem runFrom_resolving_error {node : String} {a : NodeAttribute} {source : ParameterError}
    {resolve : σ → Attempt ParameterTable ParameterError α}
    (h : (resolve m.builder).runFrom m.table = (.error source, m.table)) :
    (resolving node a resolve).runFrom m = (.error (.unresolved node a source), m) := by
  rw [runFrom_resolving, h]
  rfl

theorem runFrom_ensure_true {condition : Model σ → Bool} {error : Model σ → ConfigurationError}
    (h : condition m = true) : (ensure condition error).runFrom m = (.ok (), m) := by
  simp only [runFrom, ensure, h, if_true]

theorem runFrom_ensure_false {condition : Model σ → Bool} {error : Model σ → ConfigurationError}
    (h : condition m = false) : (ensure condition error).runFrom m = (.error (error m), m) := by
  simp [runFrom, ensure, h]

theorem respects_resolving {R : Model σ → Model σ → Prop} {node : String} {a : NodeAttribute}
    {resolve : σ → Attempt ParameterTable ParameterError α}
    (hx : ∀ m : Model σ, R m { m with table := ((resolve m.builder).runFrom m.table).2 }) :
    Respects R (resolving node a resolve) := hx

theorem respects_ensure {R : Model σ → Model σ → Prop} {condition : Model σ → Bool}
    {error : Model σ → ConfigurationError} (hrefl : ∀ m, R m m) :
    Respects R (ensure condition error) := by
  intro m
  cases h : condition m with
  | true => rw [runFrom_ensure_true h]; exact hrefl m
  | false => rw [runFrom_ensure_false h]; exact hrefl m

/-- A call agrees on models with the same builder, if it does not matter what else they have. -/
theorem agrees_call {R : Model σ → Model σ → Prop} (x : Attempt σ NetworkError α)
    (hbuilder : ∀ {m₁ m₂}, R m₁ m₂ → m₁.builder = m₂.builder)
    (hcall : ∀ {m₁ m₂} builder, R m₁ m₂ → R { m₁ with builder } { m₂ with builder }) :
    Agrees R (call x) := by
  intro m₁ m₂ h
  refine ⟨_, _, _, runFrom_call x m₁, ?_, hcall _ h⟩
  rw [runFrom_call, hbuilder h]

/-- A resolution agrees on models with the same builder, if it agrees on their tables. -/
theorem agrees_resolving {R : Model σ → Model σ → Prop}
    {T : ParameterTable → ParameterTable → Prop} {node : String} {a : NodeAttribute}
    {resolve : σ → Attempt ParameterTable ParameterError α}
    (hbuilder : ∀ {m₁ m₂}, R m₁ m₂ → m₁.builder = m₂.builder)
    (htable : ∀ {m₁ m₂}, R m₁ m₂ → T m₁.table m₂.table)
    (hresolved : ∀ {m₁ m₂ t₁ t₂}, R m₁ m₂ → T t₁ t₂ →
      R { m₁ with table := t₁ } { m₂ with table := t₂ })
    (hx : ∀ s, Agrees T (resolve s)) : Agrees R (resolving node a resolve) := by
  intro m₁ m₂ h
  obtain ⟨result, t₁, t₂, h₁, h₂, h'⟩ := hx m₂.builder m₁.table m₂.table (htable h)
  refine ⟨result.mapError (.unresolved node a), { m₁ with table := t₁ }, { m₂ with table := t₂ },
    ?_, ?_, hresolved h h'⟩
  · rw [runFrom_resolving, hbuilder h, h₁]
  · rw [runFrom_resolving, h₂]

theorem agrees_ensure {R : Model σ → Model σ → Prop} {condition : Model σ → Bool}
    {error : Model σ → ConfigurationError}
    (hcondition : ∀ {m₁ m₂}, R m₁ m₂ → condition m₁ = condition m₂)
    (herror : ∀ {m₁ m₂}, R m₁ m₂ → error m₁ = error m₂) : Agrees R (ensure condition error) := by
  intro m₁ m₂ h
  cases hc : condition m₁ with
  | true =>
    have hc₂ : condition m₂ = true := (hcondition h).symm.trans hc
    exact ⟨_, m₁, m₂, runFrom_ensure_true hc, runFrom_ensure_true hc₂, h⟩
  | false =>
    have hc₂ : condition m₂ = false := (hcondition h).symm.trans hc
    refine ⟨_, m₁, m₂, runFrom_ensure_false hc, ?_, h⟩
    rw [runFrom_ensure_false hc₂, herror h]

/-- Making two calls one after the other is one call that does both. -/
theorem call_bind (x : Attempt σ NetworkError α) (f : α → Attempt σ NetworkError β) :
    call (x >>= f) = call x >>= fun a => call (f a) := by
  funext m
  show (call (x >>= f)).runFrom m = (call x >>= fun a => call (f a)).runFrom m
  rw [runFrom_bind, runFrom_call, runFrom_call, runFrom_bind]
  rcases x.runFrom m.builder with ⟨e | a, s⟩ <;> rfl

@[simp] theorem call_pure (a : α) : call (pure a : Attempt σ NetworkError α) = pure a := rfl

end Configuring

end WaterNetwork
