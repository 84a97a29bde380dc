import WaterNetwork.Proofs.Outcome
import WaterNetwork.Proofs.Ownership
import WaterNetwork.Proofs.Records

/-!
# Node operations in any order

Outside a pass, nodes may be created and constrained in any order, again and again, under names
that clash, and between calls that are made on the network directly. A node guards itself: before
it is created it asks whether its name is vacant, before it is constrained whether its terminals
are there. The network guards itself too, by its own tests of clashes and terminals. In every
network that such operations leave, a node that passes its guard passes the tests of the network,
so no call of it fails.

* `Model.reachable_after` — operations leave a network that calls make.
* `runFrom_forM_apply` — the settings of registered terminals make calls that succeed, up to one
  that does not resolve.
* `operations_outcome` — what creating and constraining a node comes to after any operations.
-/

namespace WaterNetwork

open Attempt Configuring

variable {n : Network} {t : ParameterTable} {site : Site} {d : NodeDeclaration} {m : Model Network}

/-! ### Operations -/

/-- An operation on a network and a table: a step of a node, or a call on the network. -/
inductive Operation where
  | create (d : NodeDeclaration)
  | constrain (site : Site) (d : NodeDeclaration)
  | call (c : BuilderCall)

/-- Carry out an operation. -/
def Operation.run : Operation → Configuring Network Unit
  | create d => d.create Network.builder
  | constrain site d => d.constrain Network.builder site
  | call c => Configuring.call (Network.builder.perform c)

/-- The model that operations leave, carried out one after the other, whether they succeed or
not. -/
def Model.after (m : Model Network) (ops : List Operation) : Model Network :=
  ops.foldl (fun m op => (op.run.runFrom m).2) m

/-- Every step of a node makes calls only. -/
theorem stepRelation_reachable (site : Site) :
    StepRelation Network.builder site
      (fun m m' : Model Network => m.builder.Reachable → m'.builder.Reachable) where
  refl _ h := h
  trans _ _ _ h₁ h₂ h := h₂ (h₁ h)
  call c _ h := h.call c
  resolve _ h := h

theorem Operation.reachable (op : Operation) (h : m.builder.Reachable) :
    (op.run.runFrom m).2.builder.Reachable := by
  cases op with
  | create d => exact (stepRelation_reachable {files := ⟨[], []⟩}).create d m h
  | constrain site d => exact (stepRelation_reachable site).constrain d m h
  | call c => exact h.call c

/-- **Operations leave a network that calls make.** -/
theorem Model.reachable_after (h : m.builder.Reachable) (ops : List Operation) :
    (m.after ops).builder.Reachable := by
  induction ops generalizing m with
  | nil => exact h
  | cons op ops ih => exact ih (op.reachable h)

/-! ### Creating -/

/-- **A network that has gained terminals**: records for them have been added at the end, with
nothing set on them. -/
structure Network.Gains (n : Network) (ts : List (NodeKind × Terminal)) (n' : Network) : Prop where
  nodes : ∃ new, n'.nodes = n.nodes ++ new ∧ new.map (fun r => (r.kind, r.terminal)) = ts ∧
    ∀ r ∈ new, r.Blank
  calls : n'.calls = n.calls ++ ts.map fun (kind, t) => .addNode kind t
  acceptsLiterals : n'.acceptsLiterals = n.acceptsLiterals

theorem Network.Performs.gains {n' : Network} (hn : n.Coherent)
    (h : Network.Performs n d.registrations n') : n.Gains d.namedTerminals n' := by
  have hp := hn.performed h
  obtain ⟨new, hnodes, hblank⟩ := h.blank_of_registers fun c hc => by
    obtain ⟨p, -, rfl⟩ := List.mem_map.mp hc
    exact Option.some_ne_none _
  refine ⟨⟨new, hnodes, ?_, hblank⟩, hp.calls, hp.acceptsLiterals⟩
  have hregistered := hp.registered
  rw [Network.registered, Network.registered, hnodes, List.map_append,
    List.append_cancel_left_eq] at hregistered
  rw [hregistered]
  simp [NodeDeclaration.registrations, List.filterMap_map, BuilderCall.registers?]

/-- **The sub-index that is reported of a name in use**: that of the first own terminal that is
registered, or, if there is none, that of the first terminal. -/
inductive NodeDeclaration.Reported (d : NodeDeclaration) (ts : List Terminal) :
    Option SubIndex → Prop where
  | own {before after : List (Option SubIndex)} {sub : Option SubIndex} :
    d.subIndices = before ++ sub :: after → (∀ other ∈ before, ⟨d.name, other⟩ ∉ ts) →
    ⟨d.name, sub⟩ ∈ ts → Reported d ts sub
  | foreign {after : List (Option SubIndex)} {sub : Option SubIndex} :
    d.subIndices = sub :: after → (∀ other ∈ d.subIndices, ⟨d.name, other⟩ ∉ ts) →
    Reported d ts sub

theorem NodeDeclaration.reported_of_occupied? (hn : n.Coherent) {sub : Option SubIndex}
    (h : d.occupied? Network.builder n = some sub) : d.Reported n.terminals sub := by
  have habsent : ∀ other, (!Network.builder.containsNode n ⟨d.name, other⟩) = true ↔
      ⟨d.name, other⟩ ∉ n.terminals := fun other => by
    rw [← hn.containsNode_iff_mem, Bool.not_eq_true', Bool.not_eq_true]
    rfl
  rw [occupied?] at h
  cases hfind : d.subIndices.find? fun sub => Network.builder.containsNode n ⟨d.name, sub⟩ with
  | some own =>
    rw [hfind] at h
    cases h
    obtain ⟨hown, before, after, hsplit, hbefore⟩ := List.find?_eq_some_iff_append.mp hfind
    exact .own hsplit (fun other hother => (habsent other).mp (hbefore other hother))
      (hn.containsNode_iff_mem.mp hown)
  | none =>
    rw [hfind, Option.none_or] at h
    split at h
    · obtain ⟨after, hsplit⟩ := List.head?_eq_some_iff.mp h
      refine .foreign hsplit fun other hother => (habsent other).mp ?_
      rw [Bool.not_eq_true', ← Bool.not_eq_true]
      exact List.find?_eq_none.mp hfind other hother
    · cases h

/-- **What creating a node comes to**: a name that no terminal has is registered with all
terminals of the node, and otherwise nothing is done. -/
structure NodeDeclaration.Creates (d : NodeDeclaration) (m : Model Network)
    (result : Except ConfigurationError Unit) (m' : Model Network) : Prop where
  ok_iff : result = .ok () ↔ ∀ own ∈ m.builder.terminals, own.node ≠ d.name
  added : result = .ok () → m.builder.Gains d.namedTerminals m'.builder ∧ m'.table = m.table
  refused : ∀ e, result = .error e → m' = m ∧
    ∃ sub, d.Reported m.builder.terminals sub ∧ e = .network (.duplicateNode ⟨d.name, sub⟩)

theorem NodeDeclaration.creates (hn : m.builder.Coherent)
    (hroom : m.builder.nodes.length + d.terminals.length ≤ Ident.limit) :
    d.Creates m ((d.create Network.builder).runFrom m).1
      ((d.create Network.builder).runFrom m).2 := by
  have hname : m.builder.containsName d.name = false ↔
      ∀ own ∈ m.builder.terminals, own.node ≠ d.name := by
    simp [Network.containsName, Network.terminals]
  cases hocc : d.occupied? Network.builder m.builder with
  | some sub =>
    have htaken : ¬ ∀ own ∈ m.builder.terminals, own.node ≠ d.name := fun hfree => by
      have hnone := (isNone_occupied? hn).trans (congrArg not (hname.mpr hfree))
      rw [hocc] at hnone
      cases hnone
    rw [runFrom_create_occupied hocc]
    refine ⟨by simp [htaken], fun h => (by cases h), ?_⟩
    rintro _ ⟨⟩
    exact ⟨rfl, sub, reported_of_occupied? hn hocc, rfl⟩
  | none =>
    have hfree : m.builder.containsName d.name = false := by
      have hnone := isNone_occupied? (d := d) hn
      rw [hocc] at hnone
      simpa using hnone
    obtain ⟨n', hcs⟩ := hn.exists_performs_registrations hfree hroom
    rw [create_of_vacant hn hfree hcs]
    exact ⟨by simpa using hname.mp hfree, fun _ => ⟨hcs.gains hn, rfl⟩, fun _ h => by cases h⟩

/-! ### Constraining -/

/-- **Settings of registered terminals make calls that succeed**, and stop, if they do, at one that
does not resolve. -/
theorem runFrom_forM_apply (site : Site) (hn : n.Coherent) {ss : List Setting}
    (hreg : ∀ s ∈ ss, n.containsNode s.terminal = true) :
    ∃ result n' t' cs,
      (forM ss (Setting.apply Network.builder site)).runFrom ⟨n, t⟩ = (result, ⟨n', t'⟩) ∧
      Network.Performs n cs n' ∧
      (∀ c ∈ cs, c.registers? = none ∧ ∃ s ∈ ss, c.terminal = s.terminal) ∧
      (result = .ok () ∨
        ∃ s ∈ ss, ∃ e, result = .error (.unresolved s.terminal.node s.purpose e)) := by
  induction ss generalizing n t with
  | nil => exact ⟨_, n, t, [], rfl, .nil, nofun, .inl rfl⟩
  | cons s ss ih =>
    rw [List.forall_mem_cons] at hreg
    rcases hs : (s.resolve site n.acceptsLiterals).runFrom t with ⟨e | v, t₁⟩
    · obtain rfl := s.atomic_resolve site _ t e t₁ hs
      have hrun := runFrom_apply_error (b := Network.builder) (m := ⟨n, t₁⟩) hs
      exact ⟨_, n, t₁, [], runFrom_forM_cons_error _ hrun, .nil, nofun,
        .inr ⟨s, List.mem_cons_self .., e, rfl⟩⟩
    · obtain ⟨n₁, hrun₁, hcs₁⟩ := runFrom_apply_ok hn hreg.1 hs
      have hp := hn.performed hcs₁
      obtain ⟨result, n₂, t₂, cs, hrun₂, hcs₂, habout, hresult⟩ := ih (t := t₁) hp.coherent
        fun s' hs' => hp.containsNode hn (hreg.2 s' hs')
      refine ⟨result, n₂, t₂, _, ?_, hcs₁.append hcs₂, ?_, ?_⟩
      · rw [runFrom_forM_cons_ok _ hrun₁, hrun₂]
      · intro c hc
        rcases List.mem_append.mp hc with hc | hc
        · exact ⟨registers?_of_mem_calls hc, s, List.mem_cons_self ..,
            Setting.terminal_of_mem_calls hc⟩
        · obtain ⟨hset, s', hs', hterminal⟩ := habout c hc
          exact ⟨hset, s', List.mem_cons_of_mem _ hs', hterminal⟩
      · refine hresult.imp_right ?_
        rintro ⟨s', hs', e, rfl⟩
        exact ⟨s', List.mem_cons_of_mem _ hs', e, rfl⟩

/-- The terminal that the constraints of a node are set on. -/
def NodeDeclaration.constrained : NodeDeclaration → Terminal
  | flow _ name _ => ⟨name, none⟩
  | delay name _ _ => ⟨name, some outflow⟩

theorem NodeDeclaration.terminal_eq_constrained {s : Setting} (h : s ∈ d.settings) :
    s.terminal = d.constrained := by
  cases d with
  | flow kind name constraints =>
    obtain ⟨a, -, ha⟩ := List.mem_filterMap.mp h
    obtain ⟨field, -, rfl⟩ := Option.map_eq_some_iff.mp ha
    rfl
  | delay name steps initialValue =>
    obtain rfl := List.mem_singleton.mp h
    rfl

@[simp] theorem NodeDeclaration.node_constrained (d : NodeDeclaration) :
    d.constrained.node = d.name := by
  cases d <;> rfl

/-- **What constraining a node comes to**: a node with a terminal missing is left alone, and
otherwise nothing goes wrong but the resolution of a value. No record is altered but that of the
terminal which is constrained. -/
structure NodeDeclaration.Constrains (d : NodeDeclaration) (m : Model Network)
    (result : Except ConfigurationError Unit) (m' : Model Network) : Prop where
  notCreated_iff : result = .error (.notCreated d.name) ↔
    ∃ own ∈ d.namedTerminals, own.2 ∉ m.builder.terminals
  missing : result = .error (.notCreated d.name) → m' = m
  otherwise : result ≠ .error (.notCreated d.name) →
    result = .ok () ∨ ∃ a source, result = .error (.unresolved d.name a source)
  frame : List.Forall₂
    (fun r r' => r'.terminal = r.terminal ∧ (r.terminal ≠ d.constrained → r' = r))
    m.builder.nodes m'.builder.nodes

theorem NodeDeclaration.isCreated_iff (hn : n.Coherent) :
    d.isCreated Network.builder n = true ↔ ∀ own ∈ d.namedTerminals, own.2 ∈ n.terminals := by
  simp only [isCreated, List.all_eq_true, subIndices, namedTerminals, List.forall_mem_map]
  exact forall₂_congr fun p _ => hn.containsNode_iff_mem

theorem NodeDeclaration.constrains (site : Site) (hn : m.builder.Coherent) :
    d.Constrains m ((d.constrain Network.builder site).runFrom m).1
      ((d.constrain Network.builder site).runFrom m).2 := by
  rw [constrain_eq]
  cases hcreated : d.isCreated Network.builder m.builder with
  | false =>
    have hmissing : ∃ own ∈ d.namedTerminals, own.2 ∉ m.builder.terminals := by
      rw [← Bool.not_eq_true, isCreated_iff hn] at hcreated
      simpa using hcreated
    rw [runFrom_bind_error (runFrom_ensure_false hcreated)]
    refine ⟨by simpa using hmissing, fun _ => rfl, fun h => absurd rfl h, ?_⟩
    exact List.forall₂_same.mpr fun r _ => ⟨rfl, fun _ => rfl⟩
  | true =>
    have hall := (isCreated_iff hn).mp hcreated
    rw [runFrom_bind_ok (runFrom_ensure_true hcreated)]
    have hreg : ∀ s ∈ d.settings, m.builder.containsNode s.terminal = true := fun s hs => by
      obtain ⟨hnode, hsub⟩ := terminal_of_mem_settings hs
      have hin := List.all_eq_true.mp hcreated _ hsub
      rwa [← hnode] at hin
    obtain ⟨result, n', t', cs, hrun, hcs, habout, hresult⟩ :=
      runFrom_forM_apply (t := m.table) site hn hreg
    rw [hrun]
    have hresult : result = .ok () ∨ ∃ a source, result = .error (.unresolved d.name a source) := by
      refine hresult.imp_right ?_
      rintro ⟨s, hs, e, rfl⟩
      rw [terminal_eq_constrained hs, node_constrained]
      exact ⟨_, e, rfl⟩
    have hno : result ≠ .error (.notCreated d.name) := by
      rintro rfl
      rcases hresult with h | ⟨a, source, h⟩ <;> cases h
    refine ⟨?_, fun h => absurd h hno, fun _ => hresult, ?_⟩
    · constructor
      · exact fun h => absurd h hno
      · rintro ⟨own, hown, habsent⟩
        exact absurd (hall own hown) habsent
    · -- Every call is about the constrained terminal, so the other records stay.
      have hnodes := hn.nodes_performs_set (fun c hc => (habout c hc).1) hcs
      rw [show (⟨n', t'⟩ : Model Network).builder.nodes = n'.nodes from rfl, hnodes,
        List.forall₂_map_right_iff]
      refine List.forall₂_same.mpr fun r _ => ⟨BuilderCall.terminal_allOnRecord cs r, fun hne => ?_⟩
      refine BuilderCall.allOnRecord_of_ne fun c hc heq => hne ?_
      obtain ⟨-, s, hs, hterminal⟩ := habout c hc
      rw [heq, hterminal, terminal_eq_constrained hs]

/-! ### After any operations -/

/-- **Node operations are safe in any order.** After any operations, however they have ended, a
node whose name no terminal has is created with all its terminals, if there is room for them, and
otherwise nothing is done; and a node whose terminals are all there is constrained up to a value
that does not resolve, and otherwise nothing is done. -/
theorem operations_outcome (accept : Bool) (t : ParameterTable) (ops : List Operation)
    (d : NodeDeclaration) (site : Site) :
    let m := Model.after ⟨Network.empty.withLiterals accept, t⟩ ops
    (m.builder.nodes.length + d.terminals.length ≤ Ident.limit →
      d.Creates m ((d.create Network.builder).runFrom m).1
        ((d.create Network.builder).runFrom m).2) ∧
    d.Constrains m ((d.constrain Network.builder site).runFrom m).1
      ((d.constrain Network.builder site).runFrom m).2 := by
  intro m
  have hn : m.builder.Coherent :=
    (Model.reachable_after (.withLiterals accept .empty) ops).coherent
  exact ⟨NodeDeclaration.creates hn, NodeDeclaration.constrains site hn⟩

/-- A terminal of another kind has the name of a delay. The delay is neither created nor
constrained, and its first terminal is reported. -/
theorem operations_outcome_reach : ∃ m : Model Network,
    m.builder.terminals = [⟨"reach", some ⟨5⟩⟩] ∧
    ((NodeDeclaration.delay "reach" 2 0).create Network.builder).runFrom m =
      (.error (.network (.duplicateNode ⟨"reach", some NodeDeclaration.inflow⟩)), m) ∧
    ((NodeDeclaration.delay "reach" 2 0).constrain Network.builder ⟨⟨[], []⟩, "."⟩).runFrom m =
      (.error (.notCreated "reach"), m) := by
  obtain ⟨n, hc⟩ := Network.exists_perform_addNode (n := .empty) (t := ⟨"reach", some ⟨5⟩⟩) .link
    (Network.Reachable.empty.coherent.clashes_eq_false rfl) (by decide)
  have hp := Network.Reachable.empty.coherent.performed_one hc
  have hterminals : n.terminals = [⟨"reach", some ⟨5⟩⟩] := by
    rw [Network.terminals_eq_map_registered, hp.registered]
    rfl
  have hlength : n.nodes.length = 1 := hp.length_nodes
  have hafter : Model.after ⟨Network.empty.withLiterals true, .empty⟩
      [.call (.addNode .link ⟨"reach", some ⟨5⟩⟩)] = ⟨n, .empty⟩ :=
    congrArg (fun result => (⟨result.2, .empty⟩ : Model Network)) hc
  have houtcome := operations_outcome true .empty [.call (.addNode .link ⟨"reach", some ⟨5⟩⟩)]
    (.delay "reach" 2 0) ⟨⟨[], []⟩, "."⟩
  rw [hafter] at houtcome
  obtain ⟨hcreates, hconstrains⟩ := houtcome
  refine ⟨⟨n, .empty⟩, hterminals, ?_, ?_⟩
  · have hcreates := hcreates (by rw [hlength]; decide)
    rcases hrun : ((NodeDeclaration.delay "reach" 2 0).create Network.builder).runFrom
      ⟨n, .empty⟩ with ⟨e | ⟨⟩, m'⟩
    · rw [hrun] at hcreates
      obtain ⟨rfl, sub, hreported, rfl⟩ := hcreates.refused e rfl
      suffices hsub : sub = some NodeDeclaration.inflow by
        rw [hrun, hsub]
        rfl
      rw [hterminals] at hreported
      cases hreported with
      | own hsplit _ hown =>
        cases List.mem_singleton.mp hown
        have hmem : some ⟨5⟩ ∈ (NodeDeclaration.delay "reach" 2 0).subIndices := by
          rw [hsplit]
          simp
        exact absurd hmem (by decide)
      | foreign hsplit _ =>
        cases hsplit
        rfl
    · rw [hrun] at hcreates
      exact absurd rfl (hcreates.ok_iff.mp rfl _ (hterminals ▸ List.mem_singleton_self _))
  · have hmissing := hconstrains.notCreated_iff.mpr
      ⟨(.output, ⟨"reach", some NodeDeclaration.inflow⟩), List.mem_cons_self .., by
        rw [hterminals]
        decide⟩
    exact Prod.ext hmissing (hconstrains.missing hmissing)

end WaterNetwork
