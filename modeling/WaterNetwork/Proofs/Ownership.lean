import WaterNetwork.Proofs.Network

/-!
# Who owns a name

A name belongs to one node, which has either a single terminal without a sub-index or terminals
with different sub-indices. `OneNode` says this of the sub-indices that are registered under a
name, and `Owned` of all names of a list of terminals. The test that a network makes before it
registers a terminal asks three questions of an index and of the records; in a network that
calls have made it is this rule and nothing else.

* `owned_concat_iff` — a terminal can be added to owned ones just if it clashes with none.
* `Reachable.owned` — every network that calls make obeys the rule.
* `consistent_of_reachable` — the records, the index and the questions asked of them agree in such
  a network, a terminal is registered just if the rule is kept and there is room, and a call that
  fails changes nothing.
-/

namespace WaterNetwork

open Attempt

/-! ### The rule -/

/-- **The terminals of one node**: a single one without a sub-index, or ones with different
sub-indices. -/
def OneNode (subs : List (Option SubIndex)) : Prop :=
  subs = [none] ∨ none ∉ subs ∧ subs.Nodup

/-- The sub-indices of the terminals that have a name. -/
def subIndicesOf (ts : List Terminal) (name : String) : List (Option SubIndex) :=
  (ts.filter (·.node = name)).map (·.sub)

/-- **Ownership**: every name belongs to one node. -/
def Owned (ts : List Terminal) : Prop := ∀ name, OneNode (subIndicesOf ts name)

variable {ts : List Terminal} {t : Terminal} {name : String} {subs : List (Option SubIndex)}
  {sub : Option SubIndex}

theorem mem_subIndicesOf : sub ∈ subIndicesOf ts name ↔ ⟨name, sub⟩ ∈ ts := by
  simp only [subIndicesOf, List.mem_map, List.mem_filter, decide_eq_true_eq]
  constructor
  · rintro ⟨⟨node, sub⟩, ⟨ht, rfl⟩, rfl⟩
    exact ht
  · intro ht
    exact ⟨⟨name, sub⟩, ⟨ht, rfl⟩, rfl⟩

theorem subIndicesOf_concat : subIndicesOf (ts ++ [t]) name =
    subIndicesOf ts name ++ if t.node = name then [t.sub] else [] := by
  by_cases h : t.node = name <;> simp [subIndicesOf, h]

/-- Another terminal fits a node if it is not there yet, and if neither it nor a terminal that is
there stands for the whole node. -/
theorem oneNode_concat_iff (h : OneNode subs) :
    OneNode (subs ++ [sub]) ↔ sub ∉ subs ∧ none ∉ subs ∧ (sub = none → subs = []) := by
  constructor
  · rintro (hone | ⟨hnone, hnodup⟩)
    · obtain ⟨rfl, heq⟩ := List.append_inj' (hone.trans (List.nil_append _).symm) rfl
      simp
    · rw [List.mem_append, not_or, List.mem_singleton] at hnone
      have hnew : sub ∉ subs := fun hmem =>
        List.disjoint_of_nodup_append hnodup hmem (List.mem_singleton_self sub)
      exact ⟨hnew, hnone.1, fun hsub => absurd hsub.symm hnone.2⟩
  · rintro ⟨hnew, hnone, hwhole⟩
    by_cases hsub : sub = none
    · rw [hwhole hsub, hsub]
      exact .inl rfl
    · have hnodup : subs.Nodup := by
        rcases h with rfl | ⟨-, hnodup⟩
        · exact List.nodup_singleton none
        · exact hnodup
      refine .inr ⟨by simp [hnone, Ne.symm hsub], ?_⟩
      exact hnodup.append (List.nodup_singleton sub) (by simpa using hnew)

/-- A terminal can be added to owned ones just if it is not there yet, its name does not stand for
a whole node, and, if it is to stand for a whole node itself, its name is not in use. -/
theorem owned_concat_iff (h : Owned ts) :
    Owned (ts ++ [t]) ↔
      t ∉ ts ∧ ⟨t.node, none⟩ ∉ ts ∧ (t.sub = none → ∀ u ∈ ts, u.node ≠ t.node) := by
  have hname : Owned (ts ++ [t]) ↔ OneNode (subIndicesOf ts t.node ++ [t.sub]) := by
    constructor
    · intro hts
      simpa [subIndicesOf_concat] using hts t.node
    · intro hnode name
      rw [subIndicesOf_concat]
      by_cases hname : t.node = name
      · rw [if_pos hname, ← hname]
        exact hnode
      · rw [if_neg hname, List.append_nil]
        exact h name
  have hunused : subIndicesOf ts t.node = [] ↔ ∀ u ∈ ts, u.node ≠ t.node := by
    simp [subIndicesOf]
  rw [hname, oneNode_concat_iff (h t.node), mem_subIndicesOf, mem_subIndicesOf, hunused]

namespace Network

variable {n n' : Network} {c : BuilderCall} {kind : NodeKind}

/-! ### Networks that calls make -/

/-- The registered terminals. -/
def terminals (n : Network) : List Terminal := n.nodes.map (·.terminal)

theorem terminals_eq_map_registered (n : Network) : n.terminals = n.registered.map (·.2) := by
  simp [terminals, registered]

theorem Coherent.containsNode_iff_mem (h : n.Coherent) :
    n.containsNode t = true ↔ t ∈ n.terminals := by
  rw [containsNode, Indexed.contains_iff h, terminals, List.mem_map]

/-- **The test for a clash is the rule of ownership.** -/
theorem Coherent.clashes_eq_false_iff_owned (h : n.Coherent) (howned : Owned n.terminals) :
    n.clashes t = false ↔ Owned (n.terminals ++ [t]) := by
  have hname : n.containsName t.node = false ↔ ∀ u ∈ n.terminals, u.node ≠ t.node := by
    simp [containsName, terminals]
  rw [clashes_eq_false_iff, owned_concat_iff howned, ← h.containsNode_iff_mem,
    ← h.containsNode_iff_mem, hname, Bool.not_eq_true, Bool.not_eq_true]

/-- Registering succeeds just if nothing clashes and there is room. -/
theorem exists_addNode_iff : (∃ id n', (builder.addNode kind t).runFrom n = (.ok id, n')) ↔
    n.clashes t = false ∧ n.nodes.length < Ident.limit := by
  simp only [builder, runFrom, ofUpdate]
  constructor
  · rintro ⟨id, n', h⟩
    split at h
    · rename_i id' n₁ hadd
      obtain ⟨hclash, hid, -⟩ := addNode_eq_ok hadd
      exact ⟨hclash, Ident.exists_ofIndex_iff.mp ⟨id', Ident.ofIndex_eq_ok_iff.mpr hid⟩⟩
    · cases h
  · rintro ⟨hclash, hroom⟩
    obtain ⟨id, n', hadd⟩ := exists_addNode kind hclash hroom
    exact ⟨id, n', by rw [hadd]⟩

/-- A call that succeeds keeps the rule. -/
theorem Coherent.owned_of_perform (h : n.Coherent) (howned : Owned n.terminals)
    (hc : (builder.perform c).runFrom n = (.ok (), n')) : Owned n'.terminals := by
  have hp := h.performed_one hc
  rw [terminals_eq_map_registered, hp.registered, List.map_append, ← terminals_eq_map_registered]
  cases c with
  | setCost t value | setConstraint t role value =>
    simpa [BuilderCall.registers?] using howned
  | addNode kind t =>
    obtain ⟨id, hclash, -, -⟩ := perform_addNode_eq_ok hc
    exact (h.clashes_eq_false_iff_owned howned).mp hclash

/-- **Every network that calls make obeys the rule of ownership.** -/
theorem Reachable.owned (h : n.Reachable) : Owned n.terminals := by
  induction h using Reachable.induction_of_ok with
  | empty => exact fun name => .inr ⟨List.not_mem_nil, List.nodup_nil⟩
  | withLiterals accept _ ih => exact ih
  | call hn hc ih => exact hn.coherent.owned_of_perform ih hc

/-- **A consistent network**: identifiers are positions, the index leads from the terminals of the
records to their identifiers, what it answers is what a search through the records would answer,
and every name belongs to one node. -/
structure Consistent (n : Network) : Prop where
  id_index : ∀ (i : Nat) (r : NodeRecord), n.nodes[i]? = some r → r.id.index = i
  index_iff : ∀ (t : Terminal) (id : Ident),
    n.index[t]? = some id ↔ ∃ r ∈ n.nodes, r.terminal = t ∧ r.id = id
  nodup : n.terminals.Nodup
  find?_eq : ∀ t, n.find? t = n.nodes.find? (·.terminal == t)
  containsNode_eq : ∀ t, n.containsNode t = n.nodes.any (·.terminal == t)
  containsName_iff : ∀ name, n.containsName name = true ↔ ∃ sub, n.containsNode ⟨name, sub⟩ = true
  owned : Owned n.terminals

theorem Reachable.consistent (h : n.Reachable) : n.Consistent where
  id_index _ _ := h.coherent.ident_index
  index_iff _ _ := Indexed.getElem?_eq_some_iff h.coherent
  nodup := Indexed.nodup_keys h.coherent
  find?_eq t := Indexed.bind_getElem?_eq_find? h.coherent t
  containsNode_eq t := Indexed.contains_eq_any h.coherent t
  containsName_iff name := by
    simp only [containsName_iff, h.coherent.containsNode_iff_mem, terminals, List.mem_map]
    constructor
    · rintro ⟨r, hr, rfl⟩
      exact ⟨r.terminal.sub, r, hr, rfl⟩
    · rintro ⟨sub, r, hr, ht⟩
      exact ⟨r, hr, by rw [ht]⟩
  owned := h.owned

/-- **What calls make of a network**, whether they succeed or not: it is consistent, a terminal is
registered just if its name still belongs to one node and there is room for it, and a call that
fails leaves the network as it was. -/
theorem consistent_of_reachable (hn : n.Reachable) :
    n.Consistent ∧
    (∀ kind t, (∃ id n', (builder.addNode kind t).runFrom n = (.ok id, n')) ↔
      Owned (n.terminals ++ [t]) ∧ n.nodes.length < 2 ^ 32 - 1) ∧
    ∀ c e n', (builder.perform c).runFrom n = (.error e, n') → n' = n := by
  refine ⟨hn.consistent, fun kind t => ?_, fun c e n' hc => perform_error hc⟩
  rw [exists_addNode_iff, hn.coherent.clashes_eq_false_iff_owned hn.owned]
  rfl

/-- Once a terminal of a weir is registered, its name does not stand for a whole node any more,
but another terminal of it can follow. -/
theorem consistent_of_reachable_weir : ∃ n : Network, n.Reachable ∧
    n.terminals = [⟨"weir", some ⟨0⟩⟩] ∧ n.Consistent ∧
    (¬ ∃ id n', (builder.addNode .link ⟨"weir", none⟩).runFrom n = (.ok id, n')) ∧
    ∃ id n', (builder.addNode .input ⟨"weir", some ⟨1⟩⟩).runFrom n = (.ok id, n') := by
  obtain ⟨n, hc⟩ := exists_perform_addNode (n := .empty) (t := ⟨"weir", some ⟨0⟩⟩) .output
    (by simp [clashes, containsNode, containsName, empty]) (by decide)
  have hn : n.Reachable := Reachable.empty.perform hc
  have hp := Reachable.empty.coherent.performed_one hc
  have hterminals : n.terminals = [⟨"weir", some ⟨0⟩⟩] := by
    rw [terminals_eq_map_registered, hp.registered]
    rfl
  have hlength : n.nodes.length = 1 := hp.length_nodes
  obtain ⟨hconsistent, hadd, -⟩ := consistent_of_reachable hn
  refine ⟨n, hn, hterminals, hconsistent, ?_, ?_⟩
  · rw [hadd, owned_concat_iff hconsistent.owned, hterminals]
    simp
  · rw [hadd, owned_concat_iff hconsistent.owned, hterminals, hlength]
    simp

end Network

end WaterNetwork
