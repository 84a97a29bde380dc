import WaterNetwork.Proofs.Interruption
import WaterNetwork.Proofs.Outcome

/-!
# Nodes registered by half

A node is created after its name has been found vacant, and a builder that fails to register a
terminal keeps the nodes that it has. Where a node has one terminal, this makes its creation all
or nothing. A delay registers two of them one after the other; that the name is vacant rules out
a clash, but not that the builder refuses the second terminal for another reason, and the first
one is not taken back.

* `create_whole_or_half` — a creation that fails leaves the nodes as they were, or with the first
  terminal of a delay.
* `Network.Coherent.exists_halfCreated_iff` — on a network, the latter takes room for exactly one
  more node.
-/

namespace WaterNetwork

open Attempt Configuring

variable {σ ν : Type} {b : Builder σ} {s s' half : σ} {e : NetworkError}

/-! ### Builders that keep their nodes -/

namespace Builder

/-- **A builder that keeps its nodes** when it fails to register one. What its nodes are is read
off its state by `nodes`. -/
def KeepsNodes (b : Builder σ) (nodes : σ → ν) : Prop :=
  ∀ kind t s e s', (b.addNode kind t).runFrom s = (.error e, s') → nodes s' = nodes s

theorem perform_addNode_eq_error {kind : NodeKind} {t : Terminal} :
    (b.perform (.addNode kind t)).runFrom s = (.error e, s') ↔
      (b.addNode kind t).runFrom s = (.error e, s') := by
  rw [perform, runFrom_bind]
  rcases (b.addNode kind t).runFrom s with ⟨e' | id, s₁⟩
  · simp
  · constructor <;> intro h <;> cases h

theorem KeepsNodes.of_perform {nodes : σ → ν} {kind : NodeKind} {t : Terminal}
    (hkeeps : b.KeepsNodes nodes)
    (h : (b.perform (.addNode kind t)).runFrom s = (.error e, s')) : nodes s' = nodes s :=
  hkeeps kind t s e s' (perform_addNode_eq_error.mp h)

end Builder

/-- A network keeps its nodes, since a call that fails changes nothing. -/
theorem Network.keepsNodes (nodes : Network → ν) : Network.builder.KeepsNodes nodes := by
  intro kind t n e n' h
  rw [perform_error (Builder.perform_addNode_eq_error.mpr h)]

/-- A builder that refuses one call of another keeps the nodes that the other keeps. -/
theorem Interrupted.Refuses.keepsNodes {w : Builder (Interrupted σ)}
    {refusal : BuilderCall → NetworkError} {k : Nat} {nodes : σ → ν}
    (hw : Interrupted.Refuses w b refusal k) (h : b.KeepsNodes nodes) :
    w.KeepsNodes (nodes ·.inner) := by
  intro kind t s e s' hadd
  have hperform := Builder.perform_addNode_eq_error.mpr hadd
  by_cases hk : s.made + 1 = k
  · rw [hw.refused _ _ hk] at hperform
    cases hperform
    rfl
  · rw [hw.passed _ _ hk] at hperform
    rcases hinner : (b.perform (.addNode kind t)).runFrom s.inner with ⟨e' | ⟨⟩, s₁⟩
    · rw [hinner] at hperform
      cases hperform
      exact h kind t s.inner e s₁ (Builder.perform_addNode_eq_error.mp hinner)
    · rw [hinner] at hperform
      cases hperform

/-! ### Creation by half -/

/-- **A delay that is registered by half**: its name is vacant, the terminal where flow arrives is
registered, which leaves `half`, and the other one is refused. -/
structure HalfCreated (b : Builder σ) (d : NodeDeclaration) (s half s' : σ) (e : NetworkError) :
    Prop where
  kind : d.kind = .delay
  vacant : d.occupied? b s = none
  inflow : (b.perform (.addNode .output ⟨d.name, some NodeDeclaration.inflow⟩)).runFrom s =
    (.ok (), half)
  outflow : (b.perform (.addNode .input ⟨d.name, some NodeDeclaration.outflow⟩)).runFrom half =
    (.error e, s')

namespace NodeDeclaration

variable {d : NodeDeclaration} {m : Model σ}

theorem registrations_flow (kind : NodeKind) (name : String) (constraints : FlowConstraints) :
    (flow kind name constraints).registrations = [.addNode kind ⟨name, none⟩] := rfl

theorem registrations_of_delay (h : d.kind = .delay) : d.registrations =
    [.addNode .output ⟨d.name, some inflow⟩, .addNode .input ⟨d.name, some outflow⟩] := by
  cases d with
  | flow kind name constraints => cases h
  | delay name steps initialValue => rfl

/-- On a network, a name is vacant if no node has it. -/
theorem occupied?_eq_none_iff {n : Network} (hn : n.Coherent) :
    d.occupied? Network.builder n = none ↔ n.containsName d.name = false := by
  rw [← Option.isNone_iff_eq_none, isNone_occupied? hn, Bool.not_eq_true']

/-- Every name is vacant on an empty network. -/
theorem occupied?_empty (d : NodeDeclaration) : d.occupied? Network.builder .empty = none :=
  (occupied?_eq_none_iff Network.Reachable.empty.coherent).mpr rfl

end NodeDeclaration

/-- Creating such a delay fails, with the first terminal registered. -/
theorem HalfCreated.runFrom_create {d : NodeDeclaration} {m : Model σ}
    (h : HalfCreated b d m.builder half s' e) :
    (d.create b).runFrom m = (.error (.network e), ⟨s', m.table⟩) := by
  rw [NodeDeclaration.runFrom_create_vacant h.vacant, runFrom_call,
    NodeDeclaration.registrations_of_delay h.kind, Builder.performAll_cons,
    runFrom_bind_ok h.inflow, Builder.performAll_singleton, h.outflow]
  rfl

/-- Registrations that fail leave the nodes as they were, unless it is the second of a delay's
terminals that is refused. -/
theorem kept_or_halfCreated {nodes : σ → ν} {d : NodeDeclaration} (hkeeps : b.KeepsNodes nodes)
    (hvacant : d.occupied? b s = none)
    (h : (b.performAll d.registrations).runFrom s = (.error e, s')) :
    nodes s' = nodes s ∨ ∃ half, HalfCreated b d s half s' e := by
  cases d with
  | flow kind name constraints =>
    rw [NodeDeclaration.registrations_flow, Builder.performAll_singleton] at h
    exact .inl (hkeeps.of_perform h)
  | delay name steps initialValue =>
    rw [NodeDeclaration.registrations_of_delay rfl, Builder.performAll_cons,
      Builder.performAll_singleton, runFrom_bind] at h
    split at h
    · rename_i half hinflow
      exact .inr ⟨half, rfl, hvacant, hinflow, h⟩
    · rename_i hinflow
      cases h
      exact .inl (hkeeps.of_perform hinflow)

/-- **A creation that fails leaves the nodes as they were, or a delay by half.** The builder is any
that keeps its nodes when it fails to register one. A delay is left by half whenever its name is
vacant and the second of its terminals is refused. -/
theorem create_whole_or_half {nodes : σ → ν} (hkeeps : b.KeepsNodes nodes) (d : NodeDeclaration)
    (m : Model σ) :
    (∀ e m', (d.create b).runFrom m = (.error e, m') → m'.table = m.table ∧
      (nodes m'.builder = nodes m.builder ∨
        ∃ half cause, HalfCreated b d m.builder half m'.builder cause ∧ e = .network cause ∧
          nodes m'.builder = nodes half)) ∧
    ∀ half cause s', HalfCreated b d m.builder half s' cause →
      (d.create b).runFrom m = (.error (.network cause), ⟨s', m.table⟩) := by
  refine ⟨fun e m' h => ?_, fun half cause s' h => h.runFrom_create⟩
  cases hocc : d.occupied? b m.builder with
  | some sub =>
    rw [NodeDeclaration.runFrom_create_occupied hocc] at h
    cases h
    exact ⟨rfl, .inl rfl⟩
  | none =>
    rw [NodeDeclaration.runFrom_create_vacant hocc, runFrom_call] at h
    rcases hcalls : (b.performAll d.registrations).runFrom m.builder with ⟨cause | ⟨⟩, s'⟩
    · rw [hcalls] at h
      cases h
      refine ⟨rfl, ?_⟩
      rcases kept_or_halfCreated hkeeps hocc hcalls with hkept | ⟨half, hhalf⟩
      · exact .inl hkept
      · exact .inr ⟨half, cause, hhalf, rfl, hkeeps.of_perform hhalf.outflow⟩
    · rw [hcalls] at h
      cases h

/-- A sink whose terminal is refused is not registered. -/
theorem create_whole_or_half_city : ∃ m',
    ((NodeDeclaration.flow .output "city" {}).create
        (Interrupted.builder Network.builder (some 1))).runFrom ⟨{ inner := .empty }, .empty⟩ =
      (.error (.network (Interrupted.injected "city")), m') ∧
    m'.table = .empty ∧ m'.builder.inner.registered = [] := by
  have hrefuses := Interrupted.refuses_builder Network.builder 1
  have hrun : ((NodeDeclaration.flow .output "city" {}).create
      (Interrupted.builder Network.builder (some 1))).runFrom ⟨{ inner := .empty }, .empty⟩ =
      (.error (.network (Interrupted.injected "city")), ⟨⟨.empty, 1⟩, .empty⟩) := by
    rw [NodeDeclaration.runFrom_create_vacant (NodeDeclaration.occupied?_empty _), runFrom_call,
      NodeDeclaration.registrations_flow, Builder.performAll_singleton, hrefuses.refused _ _ rfl]
    rfl
  obtain ⟨htable, hwhole | ⟨half, cause, hhalf, -⟩⟩ :=
    (create_whole_or_half (hrefuses.keepsNodes (Network.keepsNodes Network.registered)) _ _).1 _ _
      hrun
  · exact ⟨_, hrun, htable, hwhole⟩
  · cases hhalf.kind

/-- **The creation of a node is not all or nothing**: on a network that refuses the second call,
and keeps its nodes whenever it refuses one, a delay that is not created stays registered with the
terminal where flow arrives. -/
theorem create_refused_lag :
    (Interrupted.builder Network.builder (some 2)).KeepsNodes (·.inner.registered) ∧
    ∃ e m', ((NodeDeclaration.delay "lag" 2 0).create
        (Interrupted.builder Network.builder (some 2))).runFrom ⟨{ inner := .empty }, .empty⟩ =
        (.error e, m') ∧
      Network.empty.registered = [] ∧
      m'.builder.inner.registered = [(.output, ⟨"lag", some NodeDeclaration.inflow⟩)] := by
  have hrefuses := Interrupted.refuses_builder Network.builder 2
  refine ⟨hrefuses.keepsNodes (Network.keepsNodes Network.registered), ?_⟩
  obtain ⟨n, hadd⟩ := Network.exists_perform_addNode (n := .empty)
    (t := ⟨"lag", some NodeDeclaration.inflow⟩) .output
    (Network.Reachable.empty.coherent.clashes_eq_false rfl) (by decide)
  have hhalf : HalfCreated (Interrupted.builder Network.builder (some 2)) (.delay "lag" 2 0)
      { inner := .empty } ⟨n, 1⟩ ⟨n, 2⟩ (Interrupted.injected "lag") := by
    refine ⟨rfl, NodeDeclaration.occupied?_empty _, ?_, hrefuses.refused _ _ rfl⟩
    rw [hrefuses.passed _ _ (by decide)]
    exact congrArg (Prod.map id (Interrupted.mk · 1)) hadd
  exact ⟨_, _, hhalf.runFrom_create, rfl,
    (Network.Reachable.empty.coherent.performed_one hadd).registered⟩

/-! ### On a network -/

namespace Network

variable {n n' : Network} {kind : NodeKind} {t : Terminal}

theorem room_of_perform (h : (builder.perform (.addNode kind t)).runFrom n = (.ok (), n')) :
    n.nodes.length < Ident.limit := by
  obtain ⟨id, -, hid, -⟩ := perform_addNode_eq_ok h
  exact Ident.exists_ofIndex_iff.mp ⟨id, Ident.ofIndex_eq_ok_iff.mpr hid⟩

/-- **On a network** the creation of a delay ends by half just if its name is vacant and there is
room for exactly one more node. -/
theorem Coherent.exists_halfCreated_iff (hn : n.Coherent) {d : NodeDeclaration}
    (hd : d.kind = .delay) : (∃ half n' e, HalfCreated builder d n half n' e) ↔
      n.containsName d.name = false ∧ n.nodes.length + 1 = Ident.limit := by
  constructor
  · rintro ⟨half, n', e, h⟩
    have hvacant := (NodeDeclaration.occupied?_eq_none_iff hn).mp h.vacant
    have hp := hn.performed_one h.inflow
    have hlength : half.nodes.length = n.nodes.length + 1 := hp.length_nodes
    have hroom := room_of_perform h.inflow
    have hfull : ¬ half.nodes.length < Ident.limit := by
      intro hlt
      have hclash : half.clashes ⟨d.name, some NodeDeclaration.outflow⟩ = false :=
        hp.clashes_eq_false hvacant outflow_ne_inflow (Option.some_ne_none _)
          (Option.some_ne_none _)
      obtain ⟨n₂, hadd⟩ := exists_perform_addNode .input hclash hlt
      rw [h.outflow] at hadd
      cases hadd
    exact ⟨hvacant, by omega⟩
  · rintro ⟨hvacant, hroom⟩
    obtain ⟨half, hinflow⟩ := exists_perform_addNode .output
      (hn.clashes_eq_false (t := ⟨d.name, some NodeDeclaration.inflow⟩) hvacant) (by omega)
    have hlength : half.nodes.length = n.nodes.length + 1 :=
      (hn.performed_one hinflow).length_nodes
    have hnone := (NodeDeclaration.occupied?_eq_none_iff hn).mpr hvacant
    rcases houtflow : (builder.perform
      (.addNode .input ⟨d.name, some NodeDeclaration.outflow⟩)).runFrom half with ⟨e | ⟨⟩, n'⟩
    · exact ⟨half, n', e, hd, hnone, hinflow, houtflow⟩
    · have hlt := room_of_perform houtflow
      omega

end Network

end WaterNetwork
