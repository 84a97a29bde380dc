import WaterNetwork.Proofs.WellFormed

/-!
# Configurations that are cut short

A builder may pass its calls on to another one and refuse one of them. A configuration on it
then does what it does on the other builder, up to the refused call, and stops there. A `Cut`
says what is needed of two builders for this: they answer alike as long as they are in step, and
a call either has the same outcome on both or is refused by the first.

* `Cut.configure_follows` — a configuration on the first builder has the same outcome as on the
  second, or ends at a refused call. The model that it ends with is then the one that the other
  has at this call, and the value of the call is one that the builder can use there.
-/

namespace WaterNetwork

open Attempt Configuring

variable {σ₁ σ₂ α β ι : Type}

/-! ### Usable values -/

/-- **Values that can be used**: a finite number, if the builder takes numbers, or the name of a
parameter that is in the table. -/
def Usable {σ : Type} (b : Builder σ) (m : Model σ) : ConstraintValue → Prop
  | .literal x => Number.isFinite x = true ∧ b.acceptsLiterals m.builder = true
  | .parameter name => name ∈ m.table.names

namespace Setting

variable {s : Setting} {v : ConstraintValue} {t t' : ParameterTable} {site : Site}

/-- Unless it is a delay's, the value of a setting is handed over in one call, so nothing comes
before that call. -/
theorem eq_nil_of_calls_eq_append {before after : List BuilderCall} {c : BuilderCall}
    (h : s.calls v = before ++ c :: after) (hp : s.purpose ≠ .delay) : before = [] := by
  have hlen : (s.calls v).length = 1 := by
    unfold calls
    cases hs : s.purpose with
    | delay => exact absurd hs hp
    | cost | maxFlow | minFlow => rfl
  rw [h, List.length_append, List.length_cons] at hlen
  exact List.length_eq_zero_iff.mp (by omega)

/-- What a setting resolves to can be used with the table that it leaves. -/
theorem usable_of_resolve {σ : Type} {b : Builder σ} {x : σ} (ht : t.Built)
    (h : (s.resolve site (b.acceptsLiterals x)).runFrom t = (.ok v, t')) : Usable b ⟨x, t'⟩ v := by
  obtain ⟨hr, rfl, hadds⟩ := (ConstraintField.resolve_eq_ok_iff ht.coherent).mp h
  cases hf : s.field with
  | literal y =>
    rw [hf] at hr hadds
    cases ha : b.acceptsLiterals x with
    | true => exact ⟨hr.1, ha⟩
    | false =>
      rw [ha] at hadds
      exact hadds.derivedName_mem rfl
  | reference name =>
    rw [hf] at hr hadds
    cases hadds
    exact hr
  | inline d =>
    rw [hf] at hadds
    exact hadds.derivedName_mem rfl

end Setting

/-! ### Cuts -/

/-- **A builder that cuts another one short**: which states are in step, and what is left where a
call is refused. `onward` is a relation that holds across every step on the second builder. -/
structure Cut (b₁ : Builder σ₁) (b₂ : Builder σ₂) (site : Site) where
  inStep : σ₁ → σ₂ → Prop
  refused : BuilderCall → σ₁ → σ₂ → Prop
  onward : Model σ₂ → Model σ₂ → Prop
  containsNode : ∀ {s₁ s₂}, inStep s₁ s₂ → b₁.containsNode s₁ = b₂.containsNode s₂
  containsName : ∀ {s₁ s₂}, inStep s₁ s₂ → b₁.containsName s₁ = b₂.containsName s₂
  acceptsLiterals : ∀ {s₁ s₂}, inStep s₁ s₂ → b₁.acceptsLiterals s₁ = b₂.acceptsLiterals s₂
  perform : ∀ {s₁ s₂}, inStep s₁ s₂ → ∀ c,
    (∃ r s₁' s₂', (b₁.perform c).runFrom s₁ = (r, s₁') ∧ (b₂.perform c).runFrom s₂ = (r, s₂') ∧
      inStep s₁' s₂') ∨
    ∃ e s₁', (b₁.perform c).runFrom s₁ = (.error e, s₁') ∧ refused c s₁' s₂
  steps : StepRelation b₂ site onward
  built : ∀ {m m'}, onward m m' → m.table.Built → m'.table.Built

namespace Cut

variable {b₁ : Builder σ₁} {b₂ : Builder σ₂} {site : Site} {k : Cut b₁ b₂ site} {s₁ : σ₁} {s₂ : σ₂}
  {t : ParameterTable}

/-- **How a run follows another one**: both have the same outcome, or the first ends at a refused
call, with the table that the second has there. -/
inductive Follows (k : Cut b₁ b₂ site) : Except ConfigurationError α × Model σ₁ →
    Except ConfigurationError α × Model σ₂ → Prop where
  | inStep {r : Except ConfigurationError α} {s₁ : σ₁} {s₂ : σ₂} {t : ParameterTable} :
    k.inStep s₁ s₂ → Follows k (r, ⟨s₁, t⟩) (r, ⟨s₂, t⟩)
  | cut {c : BuilderCall} {e : NetworkError} {r : Except ConfigurationError α} {s₁ : σ₁} {s₂ : σ₂}
      {t : ParameterTable} {m : Model σ₂} :
    k.refused c s₁ s₂ → (∀ v, c.value? = some v → Usable b₂ ⟨s₂, t⟩ v) → k.onward ⟨s₂, t⟩ m →
    Follows k (.error (.network e), ⟨s₁, t⟩) (r, m)

theorem Follows.map {run₁ : Except ConfigurationError α × Model σ₁}
    {run₂ : Except ConfigurationError α × Model σ₂} (h : k.Follows run₁ run₂)
    (f : ParameterTable → α → β) :
    k.Follows (run₁.1.map (f run₁.2.table), run₁.2) (run₂.1.map (f run₂.2.table), run₂.2) := by
  cases h with
  | inStep hs => exact .inStep hs
  | cut hc hv honward => exact .cut hc hv honward

/-- A step of the first builder shadows one of the second: its runs follow those of the other. -/
structure Shadows (k : Cut b₁ b₂ site) (x : Configuring σ₁ α) (y : Configuring σ₂ α) : Prop where
  onward : Respects k.onward y
  follows : ∀ {s₁ s₂ t}, k.inStep s₁ s₂ → t.Built →
    k.Follows (x.runFrom ⟨s₁, t⟩) (y.runFrom ⟨s₂, t⟩)

namespace Shadows

theorem pure (a : α) : k.Shadows (Pure.pure a) (Pure.pure a) where
  onward := k.steps.refl
  follows hs _ := .inStep hs

theorem bind {x : Configuring σ₁ α} {y : Configuring σ₂ α} {f : α → Configuring σ₁ β}
    {g : α → Configuring σ₂ β} (hx : k.Shadows x y) (hf : ∀ a, k.Shadows (f a) (g a)) :
    k.Shadows (x >>= f) (y >>= g) where
  onward := .bind k.steps.trans hx.onward fun a => (hf a).onward
  follows {s₁ s₂ t} hs ht := by
    have hbuilt := k.built (hx.onward ⟨s₂, t⟩)
    have hfollows := hx.follows hs ht
    rw [runFrom_bind, runFrom_bind]
    generalize x.runFrom ⟨s₁, t⟩ = run₁ at hfollows
    generalize y.runFrom ⟨s₂, t⟩ = run₂ at hfollows hbuilt
    cases hfollows with
    | @inStep r s₁' s₂' t' hs' =>
      cases r with
      | error e => exact .inStep hs'
      | ok a => exact (hf a).follows hs' (hbuilt ht)
    | @cut c e r s₁' s₂' t' m hc hv honward =>
      cases r with
      | error e' => exact .cut hc hv honward
      | ok a => exact .cut hc hv (k.steps.trans honward ((hf a).onward m))

theorem forM {f : ι → Configuring σ₁ PUnit} {g : ι → Configuring σ₂ PUnit} {is : List ι}
    (hf : ∀ i ∈ is, k.Shadows (f i) (g i)) : k.Shadows (ForM.forM is f) (ForM.forM is g) := by
  induction is with
  | nil => exact pure _
  | cons i is ih =>
    rw [List.forall_mem_cons] at hf
    rw [List.forM_cons, List.forM_cons]
    exact bind hf.1 fun _ => ih hf.2

theorem ensure {condition₁ : Model σ₁ → Bool} {condition₂ : Model σ₂ → Bool}
    {error₁ : Model σ₁ → ConfigurationError} {error₂ : Model σ₂ → ConfigurationError}
    (hc : ∀ {s₁ s₂ t}, k.inStep s₁ s₂ → condition₁ ⟨s₁, t⟩ = condition₂ ⟨s₂, t⟩)
    (he : ∀ {s₁ s₂ t}, k.inStep s₁ s₂ → error₁ ⟨s₁, t⟩ = error₂ ⟨s₂, t⟩) :
    k.Shadows (Configuring.ensure condition₁ error₁) (Configuring.ensure condition₂ error₂) where
  onward := respects_ensure k.steps.refl
  follows {s₁ s₂ t} hs _ := by
    cases h : condition₂ ⟨s₂, t⟩ with
    | true =>
      rw [runFrom_ensure_true h, runFrom_ensure_true ((hc hs).trans h)]
      exact .inStep hs
    | false =>
      rw [runFrom_ensure_false h, runFrom_ensure_false ((hc hs).trans h), he hs]
      exact .inStep hs

end Shadows

/-! ### Calls -/

/-- Calls have the same outcome on both builders, or one of them is refused after those before it
have succeeded. -/
theorem performAll (k : Cut b₁ b₂ site) (hs : k.inStep s₁ s₂) (cs : List BuilderCall) :
    (∃ r s₁' s₂', (b₁.performAll cs).runFrom s₁ = (r, s₁') ∧
      (b₂.performAll cs).runFrom s₂ = (r, s₂') ∧ k.inStep s₁' s₂') ∨
    ∃ before c after e s₁' s₂', cs = before ++ c :: after ∧
      (b₁.performAll cs).runFrom s₁ = (.error e, s₁') ∧
      (b₂.performAll before).runFrom s₂ = (.ok (), s₂') ∧ k.refused c s₁' s₂' := by
  induction cs generalizing s₁ s₂ with
  | nil => exact .inl ⟨.ok (), s₁, s₂, rfl, rfl, hs⟩
  | cons c cs ih =>
    rw [Builder.performAll_cons, Builder.performAll_cons]
    rcases k.perform hs c with ⟨e | ⟨⟩, s₁', s₂', h₁, h₂, hs'⟩ | ⟨e, s₁', h₁, hc⟩
    · exact .inl ⟨.error e, s₁', s₂', runFrom_bind_error h₁, runFrom_bind_error h₂, hs'⟩
    · rw [runFrom_bind_ok h₁, runFrom_bind_ok h₂]
      rcases ih hs' with h | ⟨before, c', after, e, s₁'', s₂'', rfl, h₁', h₂', hc⟩
      · exact .inl h
      · refine .inr ⟨c :: before, c', after, e, s₁'', s₂'', rfl, h₁', ?_, hc⟩
        rw [Builder.performAll_cons, runFrom_bind_ok h₂, h₂']
    · exact .inr ⟨[], c, cs, e, s₁', s₂, rfl, runFrom_bind_error h₁, rfl, hc⟩

theorem follows_call (k : Cut b₁ b₂ site) (hs : k.inStep s₁ s₂) {cs : List BuilderCall}
    (hv : ∀ {before c after s₂'}, cs = before ++ c :: after →
      (b₂.performAll before).runFrom s₂ = (.ok (), s₂') →
      ∀ v, c.value? = some v → Usable b₂ ⟨s₂', t⟩ v) :
    k.Follows ((call (b₁.performAll cs)).runFrom ⟨s₁, t⟩)
      ((call (b₂.performAll cs)).runFrom ⟨s₂, t⟩) := by
  rcases k.performAll hs cs with ⟨r, s₁', s₂', h₁, h₂, hs'⟩ |
    ⟨before, c, after, e, s₁', s₂', rfl, h₁, h₂, hc⟩
  · rw [runFrom_call, runFrom_call, h₁, h₂]
    exact .inStep hs'
  · have honward := k.steps.performAll (c :: after) ⟨s₂', t⟩
    rw [runFrom_call, runFrom_call, h₁, Builder.performAll_append, runFrom_bind_ok h₂]
    exact .cut hc (hv rfl h₂) honward

/-! ### Whole configurations -/

theorem shadows_apply (k : Cut b₁ b₂ site) {s : Setting}
    (hdelay : s.purpose = .delay → ∃ d, s.field = .inline d) :
    k.Shadows (s.apply b₁ site) (s.apply b₂ site) where
  onward := k.steps.apply s
  follows {s₁ s₂ t} hs ht := by
    have hsame : s.resolve site (b₁.acceptsLiterals s₁) =
        s.resolve site (b₂.acceptsLiterals s₂) := by rw [k.acceptsLiterals hs]
    rw [Setting.apply, Setting.apply]
    rcases h : (s.resolve site (b₂.acceptsLiterals s₂)).runFrom t with ⟨e | v, t'⟩
    · obtain rfl := s.atomic_resolve site _ t e t' h
      rw [runFrom_bind_error (runFrom_resolving_error (hsame ▸ h)),
        runFrom_bind_error (runFrom_resolving_error h)]
      exact .inStep hs
    · rw [runFrom_bind_ok (runFrom_resolving_ok (hsame ▸ h)),
        runFrom_bind_ok (runFrom_resolving_ok h)]
      refine k.follows_call hs fun {before c after s₂'} hcalls hrun v' hv' => ?_
      have hc : c ∈ s.calls v := hcalls ▸ List.mem_append_right _ (List.mem_cons_self ..)
      obtain rfl : v = v' := Option.some.inj ((Setting.value?_of_mem_calls hc).symm.trans hv')
      have husable := Setting.usable_of_resolve ht h
      cases v with
      | parameter name => exact husable
      | literal x =>
        have hp : s.purpose ≠ .delay := fun hp => by
          obtain ⟨d, hd⟩ := hdelay hp
          have hval := ((ConstraintField.resolve_eq_ok_iff ht.coherent).mp h).2.1
          rw [hd] at hval
          cases hval
        -- the builder is still in the state in which it was asked whether it takes numbers
        obtain rfl := Setting.eq_nil_of_calls_eq_append hcalls hp
        cases hrun
        exact husable

theorem shadows_create (k : Cut b₁ b₂ site) (d : NodeDeclaration) :
    k.Shadows (d.create b₁) (d.create b₂) := by
  have hocc : ∀ {s₁ s₂}, k.inStep s₁ s₂ → d.occupied? b₁ s₁ = d.occupied? b₂ s₂ := fun hs => by
    rw [NodeDeclaration.occupied?, NodeDeclaration.occupied?, k.containsNode hs, k.containsName hs]
  rw [d.create_eq, d.create_eq]
  refine .bind (.ensure (fun hs => by rw [hocc hs]) fun hs => by rw [hocc hs]) fun _ => ?_
  refine ⟨k.steps.performAll _, fun hs _ => k.follows_call hs fun hcalls _ v hv => ?_⟩
  have hc := hcalls ▸ List.mem_append_right _ (List.mem_cons_self ..)
  obtain ⟨_, -, rfl⟩ := List.mem_map.mp hc
  cases hv

theorem shadows_constrain (k : Cut b₁ b₂ site) (d : NodeDeclaration) :
    k.Shadows (d.constrain b₁ site) (d.constrain b₂ site) := by
  rw [d.constrain_eq, d.constrain_eq]
  refine .bind (.ensure (fun hs => ?_) fun _ => rfl) fun _ => .forM fun s hs => ?_
  · rw [NodeDeclaration.isCreated, NodeDeclaration.isCreated, k.containsNode hs]
  · refine k.shadows_apply fun hp => ?_
    obtain ⟨name, steps, x, -, rfl⟩ := NodeDeclaration.eq_delay_of_mem_settings hs hp
    exact ⟨_, rfl⟩

/-- **A configuration follows the other one**, up to a refused call. -/
theorem configure_follows (k : Cut b₁ b₂ site) (hs : k.inStep s₁ s₂) (ht : t.Built)
    (ds : List NodeDeclaration) :
    k.Follows ((configure b₁ site ds).runFrom ⟨s₁, t⟩)
      ((configure b₂ site ds).runFrom ⟨s₂, t⟩) := by
  have hpass : k.Shadows (do createNodes b₁ ds; constrainNodes b₁ site ds)
      (do createNodes b₂ ds; constrainNodes b₂ site ds) :=
    .bind (.forM fun d _ => k.shadows_create d) fun _ => .forM fun d _ => k.shadows_constrain d
  rw [configure_runFrom, configure_runFrom]
  exact (hpass.follows hs ht).map fun table _ => Summary.mk ds.length (terminalCount ds)
    (table.size - t.size)

end Cut

end WaterNetwork
