import WaterNetwork.Builder.Interrupted
import WaterNetwork.Proofs.Course
import WaterNetwork.Proofs.Network

/-!
# Configurations with a refused call

A builder that passes its calls on to a network and refuses the one at position `k` shows what a
failure in the middle of a configuration leaves behind: the configuration ends there, with what
it has done up to this call and nothing else. Until the call the two runs go side by side, since
the questions that a step asks have the same answers; after it no step is taken at all. The
argument goes from the calls of one step to the steps of a pass, and is carried by `Interrupts`,
which relates both runs to the course of the one on the network.

* `configure_interrupted` — with a refused call, a configuration is the same as without, or it
  ends at this call, in the model which the other one has there.
-/

namespace WaterNetwork

open Attempt Configuring

namespace Interrupted

variable {σ : Type}

/-! ### Refusing a call -/

/-- **A builder that refuses one call of another**, the one at position `k`: it counts the calls,
passes the others on, answers alike, and takes numbers if the other does. -/
structure Refuses (w : Builder (Interrupted σ)) (b : Builder σ)
    (refusal : BuilderCall → NetworkError) (k : Nat) : Prop where
  refused : ∀ c s, s.made + 1 = k →
    (w.perform c).runFrom s = (.error (refusal c), { s with made := k })
  passed : ∀ c s, s.made + 1 ≠ k → (w.perform c).runFrom s =
    (((b.perform c).runFrom s.inner).1, ⟨((b.perform c).runFrom s.inner).2, s.made + 1⟩)
  containsNode : ∀ s, w.containsNode s = b.containsNode s.inner
  containsName : ∀ s, w.containsName s = b.containsName s.inner
  acceptsLiterals : ∀ s, b.acceptsLiterals s.inner = true → w.acceptsLiterals s = true

theorem runFrom_pass_refused {α : Type} {k : Nat} {name : String} {call : Attempt σ NetworkError α}
    {s : Interrupted σ} (h : s.made + 1 = k) :
    (pass (some k) name call).runFrom s = (.error (injected name), { s with made := k }) := by
  subst h
  simp [runFrom, pass]

theorem runFrom_pass_passed {α : Type} {k : Nat} {name : String} {call : Attempt σ NetworkError α}
    {s : Interrupted σ} (h : s.made + 1 ≠ k) : (pass (some k) name call).runFrom s =
      ((call.runFrom s.inner).1, ⟨(call.runFrom s.inner).2, s.made + 1⟩) := by
  simp [runFrom, pass, Ne.symm h]

/-- Interrupted builders refuse a call. -/
theorem refuses_builder (b : Builder σ) (k : Nat) :
    Refuses (builder b (some k)) b (fun c => injected c.terminal.node) k where
  refused c s h := by
    cases c with
    | addNode kind t => exact runFrom_bind_error (runFrom_pass_refused h)
    | setCost t v | setConstraint t role v => exact runFrom_pass_refused h
  passed c s h := by
    cases c with
    | addNode kind t =>
      rw [Builder.perform, Builder.perform, runFrom_bind, runFrom_bind, builder,
        runFrom_pass_passed h]
      rcases (b.addNode kind t).runFrom s.inner with ⟨e | id, s'⟩ <;> rfl
    | setCost t v | setConstraint t role v => exact runFrom_pass_passed h
  containsNode _ := rfl
  containsName _ := rfl
  acceptsLiterals _ _ := rfl

end Interrupted

namespace Network

open Interrupted

variable {refusal : BuilderCall → NetworkError} {k made : Nat} {n n₁ : Network}

/-! ### Side by side -/

/-- **How a run with a refused call goes along with the run on a network**, which starts from `n`
when `made` calls have been counted: either the call is not reached, and both runs end alike, or
it is a call of the course, and the first run ends in the model that this call finds. -/
inductive Interrupts (refusal : BuilderCall → NetworkError) (k made : Nat) (n : Network) :
    List (BuilderCall × Model Network) →
    Except ConfigurationError Unit × Model (Interrupted Network) →
    Except ConfigurationError Unit × Model Network → Prop where
  | passed {course : List (BuilderCall × Model Network)} {r : Except ConfigurationError Unit}
      {n' : Network} {t : ParameterTable} {total : Nat} (htotal : total = made + course.length)
      (hlt : total < k) (hlead : r = .ok () → Performs n (course.map (·.1)) n') :
    Interrupts refusal k made n course (r, ⟨⟨n', total⟩, t⟩) (r, ⟨n', t⟩)
  | refused {before after : List (BuilderCall × Model Network)} {c : BuilderCall} {n' : Network}
      {t : ParameterTable} {run : Except ConfigurationError Unit × Model Network}
      (hk : made + before.length + 1 = k) (hlead : Performs n (before.map (·.1)) n') :
    Interrupts refusal k made n (before ++ (c, ⟨n', t⟩) :: after)
      (.error (.network (refusal c)), ⟨⟨n', k⟩, t⟩) run

namespace Interrupts

variable {course done : List (BuilderCall × Model Network)}
  {run₁ : Except ConfigurationError Unit × Model (Interrupted Network)}
  {run₂ : Except ConfigurationError Unit × Model Network}

/-- Without calls, both runs have what they started with. -/
theorem nothing (r : Except ConfigurationError Unit) (n : Network) (t : ParameterTable)
    (hmade : made < k) :
    Interrupts refusal k made n [] (r, ⟨⟨n, made⟩, t⟩) (r, ⟨n, t⟩) :=
  .passed rfl hmade fun _ => .nil

/-- Calls that have been passed on come before the others. -/
theorem prepend (h : Interrupts refusal k (made + done.length) n₁ course run₁ run₂)
    (hdone : Performs n (done.map (·.1)) n₁) :
    Interrupts refusal k made n (done ++ course) run₁ run₂ := by
  cases h with
  | passed htotal hlt hlead =>
    refine .passed (by rw [htotal, List.length_append, Nat.add_assoc]) hlt fun hr => ?_
    rw [List.map_append]
    exact hdone.append (hlead hr)
  | @refused before after c n' t run hk hlead =>
    rw [← List.append_assoc]
    refine .refused (by rw [List.length_append, ← Nat.add_assoc, hk]) ?_
    rw [List.map_append]
    exact hdone.append hlead

/-- A course that does not come to the call is the same in both runs. -/
theorem of_length_lt (h : Interrupts refusal k 0 n course run₁ run₂) (hlt : course.length < k) :
    run₁ = (run₂.1, ⟨⟨run₂.2.builder, course.length⟩, run₂.2.table⟩) := by
  cases h with
  | passed htotal _ _ =>
    rw [htotal, Nat.zero_add]
  | refused hk _ =>
    rw [List.length_append, List.length_cons] at hlt
    omega

/-- A course that comes to the call ends there in the first run. -/
theorem of_getElem? {c : BuilderCall} {m : Model Network}
    (h : Interrupts refusal k 0 n course run₁ run₂) (hget : course[k - 1]? = some (c, m)) :
    run₁ = (.error (.network (refusal c)), ⟨⟨m.builder, k⟩, m.table⟩) ∧
      Performs n ((course.take (k - 1)).map (·.1)) m.builder := by
  cases h with
  | passed htotal hlt _ =>
    rw [htotal, Nat.zero_add] at hlt
    rw [List.getElem?_eq_none (Nat.le_sub_one_of_lt hlt)] at hget
    cases hget
  | @refused before after c' n' t run hk hlead =>
    have hlength : k - 1 = before.length := by omega
    rw [hlength, List.getElem?_append_right (Nat.le_refl _), Nat.sub_self] at hget
    cases hget
    rw [hlength, List.take_left]
    exact ⟨rfl, hlead⟩

end Interrupts

end Network

namespace Interrupted.Refuses

open Network

variable {w : Builder (Interrupted Network)} {refusal : BuilderCall → NetworkError} {k made : Nat}
  {n : Network}

/-- The calls of a step. -/
theorem interrupts_performAll (hw : Refuses w Network.builder refusal k) (hmade : made < k)
    (t : ParameterTable) (cs : List BuilderCall) :
    Interrupts refusal k made n (Network.builder.course cs ⟨n, t⟩)
      ((call (w.performAll cs)).runFrom ⟨⟨n, made⟩, t⟩)
      ((call (Network.builder.performAll cs)).runFrom ⟨n, t⟩) := by
  induction cs generalizing n made with
  | nil => exact .nothing (.ok ()) n t hmade
  | cons c cs ih =>
    rw [Builder.performAll_cons, Builder.performAll_cons, runFrom_call, runFrom_call]
    by_cases hk : made + 1 = k
    · rw [runFrom_bind_error (hw.refused c ⟨n, made⟩ hk)]
      exact .refused (show made + [].length + 1 = k from hk) .nil
    · have hpassed := hw.passed c ⟨n, made⟩ hk
      rcases hc : (Network.builder.perform c).runFrom n with ⟨e | ⟨⟩, n₁⟩
      · rw [hc] at hpassed
        rw [runFrom_bind_error hpassed, runFrom_bind_error hc, Builder.course, hc]
        exact .passed rfl (Nat.lt_of_le_of_ne hmade hk) fun h => by cases h
      · rw [hc] at hpassed
        rw [runFrom_bind_ok hpassed, runFrom_bind_ok hc, Builder.course, hc]
        have hone : Performs n ([(c, (⟨n, t⟩ : Model Network))].map (·.1)) n₁ :=
          Performs.cons_iff.mpr ⟨n₁, hc, .nil⟩
        exact (ih (Nat.lt_of_le_of_ne hmade hk)).prepend hone

/-- A step plans the same. -/
theorem plan_eq (hw : Refuses w Network.builder refusal k) (haccepts : n.acceptsLiterals = true)
    (made : Nat) (site : Site) (t : ParameterTable) (step : Step) :
    step.plan w site ⟨⟨n, made⟩, t⟩ = step.plan Network.builder site ⟨n, t⟩ := by
  have hliterals : w.acceptsLiterals ⟨n, made⟩ = Network.builder.acceptsLiterals n :=
    (hw.acceptsLiterals ⟨n, made⟩ haccepts).trans haccepts.symm
  cases step with
  | create d =>
    rw [Step.plan, Step.plan, NodeDeclaration.occupied?, NodeDeclaration.occupied?,
      hw.containsName]
    simp only [hw.containsNode]
  | check d =>
    rw [Step.plan, Step.plan, NodeDeclaration.isCreated, NodeDeclaration.isCreated]
    simp only [hw.containsNode]
  | apply s => rw [Step.plan, Step.plan, hliterals]

theorem interrupts_run (hw : Refuses w Network.builder refusal k) (hmade : made < k)
    (haccepts : n.acceptsLiterals = true) (site : Site) (t : ParameterTable) (step : Step) :
    Interrupts refusal k made n (step.course Network.builder site ⟨n, t⟩)
      ((step.run w site).runFrom ⟨⟨n, made⟩, t⟩)
      ((step.run Network.builder site).runFrom ⟨n, t⟩) := by
  have hplan := hw.plan_eq haccepts made site t step
  cases h : step.plan Network.builder site ⟨n, t⟩ with
  | error e =>
    rw [Step.runFrom_run_error (hplan.trans h), Step.runFrom_run_error h, Step.course, h]
    exact .nothing (.error e) n t hmade
  | ok planned =>
    obtain ⟨calls, table⟩ := planned
    rw [Step.runFrom_run_ok (hplan.trans h), Step.runFrom_run_ok h, Step.course, h]
    exact hw.interrupts_performAll hmade table calls

/-- The steps of a pass. -/
theorem interrupts_forM (hw : Refuses w Network.builder refusal k) (hmade : made < k)
    (hn : n.Coherent) (haccepts : n.acceptsLiterals = true) (site : Site) (t : ParameterTable)
    (steps : List Step) :
    Interrupts refusal k made n (Step.courseAll Network.builder site steps ⟨n, t⟩)
      ((forM steps (Step.run w site)).runFrom ⟨⟨n, made⟩, t⟩)
      ((forM steps (Step.run Network.builder site)).runFrom ⟨n, t⟩) := by
  induction steps generalizing n t made with
  | nil => exact .nothing (.ok ()) n t hmade
  | cons step steps ih =>
    have hstep := hw.interrupts_run hmade haccepts site t step
    rw [List.forM_cons, List.forM_cons, runFrom_bind, runFrom_bind, Step.courseAll]
    generalize (step.run w site).runFrom _ = run₁ at hstep ⊢
    generalize (step.run Network.builder site).runFrom _ = run₂ at hstep ⊢
    generalize step.course Network.builder site _ = course at hstep ⊢
    cases hstep with
    | @passed _ r n' t' total htotal hlt hlead =>
      cases r with
      | error e =>
        rw [List.append_nil]
        exact .passed htotal hlt fun h => by cases h
      | ok _ =>
        have hdone := hlead rfl
        have hp := hn.performed hdone
        subst htotal
        exact (ih hlt hp.coherent (hp.acceptsLiterals.trans haccepts) t').prepend hdone
    | refused hk hlead =>
      rw [List.append_assoc, List.cons_append]
      exact .refused hk hlead

end Interrupted.Refuses

/-! ### Whole configurations -/

/-- **A refused call cuts a configuration exactly there.** If the configuration on the network has
fewer than `k` calls, it is the same on the builder that refuses the call at `k`. Otherwise it
fails with the refusal, no matter how it ends on the network; the calls before the refused one
have been performed and logged, none is made after it, and network and table are what the call
finds on the network. -/
theorem configure_interrupted {w : Builder (Interrupted Network)}
    {refusal : BuilderCall → NetworkError} {k : Nat} {n : Network} (hn : n.Reachable)
    (haccepts : n.acceptsLiterals = true) (hk : 1 ≤ k)
    (hw : Interrupted.Refuses w Network.builder refusal k) (site : Site)
    (ds : List NodeDeclaration) (t : ParameterTable) :
    let course := Pass.course Network.builder site ds ⟨n, t⟩
    (course.length < k →
      (configure w site ds).runFrom ⟨{ inner := n }, t⟩ =
        let (result, m) := (configure Network.builder site ds).runFrom ⟨n, t⟩
        (result, ⟨⟨m.builder, course.length⟩, m.table⟩)) ∧
    ∀ c m, course[k - 1]? = some (c, m) →
      (configure w site ds).runFrom ⟨{ inner := n }, t⟩ =
        (.error (.network (refusal c)), ⟨⟨m.builder, k⟩, m.table⟩) ∧
      Network.Performs n ((course.take (k - 1)).map (·.1)) m.builder ∧
      m.builder.calls = n.calls ++ (course.take (k - 1)).map (·.1) := by
  intro course
  have h : Network.Interrupts refusal k 0 n course _ _ :=
    hw.interrupts_forM hk hn.coherent haccepts site t (Step.ofDeclarations ds)
  rw [Step.forM_run_ofDeclarations, Step.forM_run_ofDeclarations] at h
  rw [configure_runFrom, configure_runFrom]
  refine ⟨fun hlt => ?_, fun c m hget => ?_⟩
  · rw [h.of_length_lt hlt]
  · obtain ⟨hrun, hlead⟩ := h.of_getElem? hget
    rw [hrun]
    exact ⟨rfl, hlead, (hn.coherent.performed hlead).calls⟩

/-- The second terminal of a delay is refused: what is left is a network with the first one. -/
theorem configure_interrupted_lag : ∃ n : Network,
    n.calls = [.addNode .output ⟨"lag", some NodeDeclaration.inflow⟩] ∧
    (configure (Interrupted.builder Network.builder (some 2)) ⟨⟨[], []⟩, "."⟩
        [.delay "lag" 2 0]).runFrom ⟨{ inner := .empty }, .empty⟩ =
      (.error (.network (Interrupted.injected "lag")), ⟨⟨n, 2⟩, .empty⟩) := by
  obtain ⟨n, hadd⟩ := Network.exists_perform_addNode (n := .empty)
    (t := ⟨"lag", some NodeDeclaration.inflow⟩) .output
    (by simp [Network.clashes, Network.containsNode, Network.empty]) (by decide)
  have hplan : (Step.create (.delay "lag" 2 0)).plan Network.builder ⟨⟨[], []⟩, "."⟩
      ⟨.empty, .empty⟩ = .ok ((NodeDeclaration.delay "lag" 2 0).registrations, .empty) := by
    simp [Step.plan, NodeDeclaration.occupied?, NodeDeclaration.subIndices,
      NodeDeclaration.terminals, Network.builder, Network.containsNode, Network.containsName,
      Network.empty]
  have hsecond : (Pass.course Network.builder ⟨⟨[], []⟩, "."⟩ [.delay "lag" 2 0]
      ⟨.empty, .empty⟩)[1]? =
      some (.addNode .input ⟨"lag", some NodeDeclaration.outflow⟩, ⟨n, .empty⟩) := by
    rw [Pass.course, Step.ofDeclarations, List.map_cons, List.cons_append, Step.courseAll,
      Step.course, hplan]
    simp [NodeDeclaration.registrations, NodeDeclaration.namedTerminals, NodeDeclaration.terminals,
      NodeDeclaration.name, Builder.course, hadd]
  obtain ⟨hrun, -, -⟩ := (configure_interrupted .empty rfl (by decide)
    (Interrupted.refuses_builder Network.builder 2) _ _ _).2 _ _ hsecond
  exact ⟨n, (Network.Reachable.empty.coherent.performed_one hadd).calls, hrun⟩

end WaterNetwork
