import WaterNetwork.Proofs.Indexed
import WaterNetwork.Proofs.Setting

/-!
# Networks built by calls

`Reachable` says which networks there are: those that calls make from an empty one, whether
each call succeeds or not. In each of them the index and the records say the same
(`Reachable.coherent`). `Performs n cs n'` says that the calls `cs`, made on `n`, all succeed and
leave `n'`; what that means for `n'` is said call by call and then for lists of calls: the log
grows by these calls, the registered terminals by those that the calls register, and a record
that no call is about stays as it is.

* `Coherent.exists_performs_set` — setting values on registered terminals always succeeds.
* `Coherent.exists_performs_registrations` — so does registering the terminals of a declaration
  whose name is not in use, as long as there is room.
-/

namespace WaterNetwork

open Attempt

namespace BuilderCall

/-- What a call does to the record of its terminal. -/
def change : BuilderCall → NodeRecord → NodeRecord
  | addNode _ _, r => r
  | setCost _ value, r => { r with cost := some value }
  | setConstraint _ role value, r => r.withBound value role

/-- The terminal that a call registers, with its kind. -/
def registers? : BuilderCall → Option (NodeKind × Terminal)
  | addNode kind t => some (kind, t)
  | setCost _ _ => none
  | setConstraint _ _ _ => none

@[simp] theorem terminal_change (c : BuilderCall) (r : NodeRecord) :
    (c.change r).terminal = r.terminal := by
  rcases c with _ | _ | ⟨_, _ | _, _⟩ <;> rfl

@[simp] theorem id_change (c : BuilderCall) (r : NodeRecord) : (c.change r).id = r.id := by
  rcases c with _ | _ | ⟨_, _ | _, _⟩ <;> rfl

@[simp] theorem kind_change (c : BuilderCall) (r : NodeRecord) : (c.change r).kind = r.kind := by
  rcases c with _ | _ | ⟨_, _ | _, _⟩ <;> rfl

end BuilderCall

namespace Network

variable {n n' n₁ n₂ : Network} {c : BuilderCall} {cs ds : List BuilderCall} {t : Terminal}
  {kind : NodeKind} {id : Ident} {name : String}

/-! ### Reachable networks -/

/-- The networks that calls make from an empty one that takes or refuses numbers. A call that
fails counts with the network that it leaves. -/
inductive Reachable : Network → Prop where
  | empty : Reachable .empty
  | withLiterals {n : Network} (accept : Bool) : Reachable n → Reachable (n.withLiterals accept)
  | call {n : Network} (c : BuilderCall) :
    Reachable n → Reachable ((builder.perform c).runFrom n).2

/-- **Coherence**: the index and the records say the same. -/
def Coherent (n : Network) : Prop := Indexed NodeRecord.terminal NodeRecord.id n.nodes n.index

/-- The registered terminals with their kinds, in the order of registration. -/
def registered (n : Network) : List (NodeKind × Terminal) :=
  n.nodes.map fun r => (r.kind, r.terminal)

theorem Coherent.containsNode_iff (h : n.Coherent) :
    n.containsNode t = true ↔ ∃ kind, (kind, t) ∈ n.registered := by
  rw [containsNode, Indexed.contains_iff h]
  simp [registered]

theorem containsName_iff : n.containsName name = true ↔ ∃ r ∈ n.nodes, r.terminal.node = name := by
  simp [containsName]

theorem containsName_iff_registered :
    n.containsName name = true ↔ ∃ p ∈ n.registered, p.2.node = name := by
  simp [containsName, registered]

/-! ### One call -/

theorem addNode_eq_ok (h : n.addNode kind t = .ok (id, n')) :
    n.clashes t = false ∧ id.index = n.nodes.length ∧ n' = { n with
      nodes := n.nodes ++ [{ id, terminal := t, kind }]
      index := n.index.insert t id
      calls := n.calls ++ [.addNode kind t] } := by
  unfold addNode at h
  split at h
  · cases h
  · rename_i hc
    split at h
    · cases h
    · rename_i id' hid
      cases h
      exact ⟨Bool.eq_false_iff.mpr hc, Ident.ofIndex_eq_ok_iff.mp hid, rfl⟩

/-- A terminal that clashes with nothing is registered as long as there is room. -/
theorem exists_addNode (kind : NodeKind) (hc : n.clashes t = false)
    (hs : n.nodes.length < Ident.limit) : ∃ id n', n.addNode kind t = .ok (id, n') := by
  obtain ⟨id, hid⟩ := Ident.exists_ofIndex_iff.mpr hs
  simp only [addNode, hc, Bool.false_eq_true, if_false, hid]
  exact ⟨_, _, rfl⟩

theorem update_eq_ok {change : NodeRecord → NodeRecord} {u : Unit}
    (h : n.update t change c = .ok (u, n')) :
    ∃ id, n.index[t]? = some id ∧ n' = { n with
      nodes := n.nodes.modify id.index change
      calls := n.calls ++ [c] } := by
  unfold update at h
  split at h
  · cases h
  · rename_i id hid
    cases h
    exact ⟨id, hid, rfl⟩

theorem runFrom_perform_set (hc : c.registers? = none) :
    (builder.perform c).runFrom n = (ofUpdate (update c.terminal c.change c)).runFrom n := by
  cases c with
  | addNode kind t => cases hc
  | setCost t value => rfl
  | setConstraint t role value => rfl

theorem runFrom_perform_addNode (n : Network) (kind : NodeKind) (t : Terminal) :
    (builder.perform (.addNode kind t)).runFrom n = match n.addNode kind t with
      | .ok (_, n') => (.ok (), n')
      | .error e => (.error e, n) := by
  rw [Builder.perform, runFrom_bind]
  simp only [builder, runFrom, ofUpdate]
  rcases n.addNode kind t with e | ⟨id, n'⟩ <;> rfl

/-- **Setting a value**, if it succeeds, changes the record of the terminal and is logged. -/
theorem perform_set_eq_ok (hset : c.registers? = none)
    (hc : (builder.perform c).runFrom n = (.ok (), n')) :
    ∃ id, n.index[c.terminal]? = some id ∧ n' = { n with
      nodes := n.nodes.modify id.index c.change
      calls := n.calls ++ [c] } := by
  rw [runFrom_perform_set hset] at hc
  simp only [runFrom, ofUpdate] at hc
  split at hc
  · rename_i hu
    cases hc
    exact update_eq_ok hu
  · cases hc

/-- **Registering**, if it succeeds, adds a record without values and is logged. -/
theorem perform_addNode_eq_ok
    (hc : (builder.perform (.addNode kind t)).runFrom n = (.ok (), n')) :
    ∃ id : Ident, n.clashes t = false ∧ id.index = n.nodes.length ∧ n' = { n with
      nodes := n.nodes ++ [{ id, terminal := t, kind }]
      index := n.index.insert t id
      calls := n.calls ++ [.addNode kind t] } := by
  rw [runFrom_perform_addNode] at hc
  split at hc
  · rename_i id _ hadd
    cases hc
    exact ⟨id, addNode_eq_ok hadd⟩
  · cases hc

/-- Setting a value leaves the index as it is. -/
theorem index_of_perform_set (hset : c.registers? = none)
    (hc : (builder.perform c).runFrom n = (.ok (), n')) : n'.index = n.index := by
  obtain ⟨id, -, rfl⟩ := perform_set_eq_ok hset hc
  rfl

/-- **What calls leave that succeed**: a longer log, the terminals that they register, and the
records of the terminals that they are not about. -/
structure Performed (n : Network) (cs : List BuilderCall) (n' : Network) : Prop where
  calls : n'.calls = n.calls ++ cs
  acceptsLiterals : n'.acceptsLiterals = n.acceptsLiterals
  registered : n'.registered = n.registered ++ cs.filterMap (·.registers?)
  frame : ∀ {i : Nat} {r : NodeRecord}, n.nodes[i]? = some r →
    (∀ c ∈ cs, r.terminal ≠ c.terminal) → n'.nodes[i]? = some r
  coherent : n'.Coherent

theorem Coherent.performed_set (h : n.Coherent) (hr : c.registers? = none)
    (hc : (builder.perform c).runFrom n = (.ok (), n')) : n.Performed [c] n' := by
  obtain ⟨id, hid, rfl⟩ := perform_set_eq_ok hr hc
  obtain ⟨r₀, hr₀, ht⟩ := h.getElem?_index.mp hid
  refine ⟨rfl, rfl, ?_, ?_, Indexed.modify h c.terminal_change c.id_change id.index⟩
  · rw [List.filterMap_cons_none hr, List.filterMap_nil, List.append_nil]
    exact map_modify (fun r => by rw [c.kind_change, c.terminal_change]) n.nodes id.index
  · intro i r hi hne
    have hid' : id.index ≠ i := by
      rintro rfl
      rw [hr₀, Option.some_inj] at hi
      exact hne c (List.mem_singleton_self c) (hi ▸ ht)
    rw [List.getElem?_modify_ne _ _ hid', hi]

theorem clashes_eq_false_iff :
    n.clashes t = false ↔ n.containsNode t = false ∧ n.containsNode ⟨t.node, none⟩ = false ∧
      (t.sub = none → n.containsName t.node = false) := by
  cases ht : t.sub <;> simp [clashes, ht, and_assoc]

theorem Coherent.performed_addNode (h : n.Coherent)
    (hc : (builder.perform (.addNode kind t)).runFrom n = (.ok (), n')) :
    n.Performed [.addNode kind t] n' := by
  obtain ⟨id, hclash, hid, rfl⟩ := perform_addNode_eq_ok hc
  have hnew : ∀ r ∈ n.nodes, r.terminal ≠ t := fun r hr heq => by
    have hno := (clashes_eq_false_iff.mp hclash).1
    rw [containsNode, Bool.eq_false_iff] at hno
    exact hno ((Indexed.contains_iff h).mpr ⟨r, hr, heq⟩)
  refine ⟨rfl, rfl, by simp [registered, BuilderCall.registers?], ?_, ?_⟩
  · intro i r hi _
    rw [List.getElem?_append_left (List.getElem?_eq_some_iff.mp hi).1, hi]
  · exact Indexed.concat (x := { id, terminal := t, kind }) h hnew hid

theorem Coherent.performed_one (h : n.Coherent)
    (hc : (builder.perform c).runFrom n = (.ok (), n')) : n.Performed [c] n' := by
  cases c with
  | addNode kind t => exact h.performed_addNode hc
  | setCost t value => exact h.performed_set rfl hc
  | setConstraint t role value => exact h.performed_set rfl hc

/-- A call that fails leaves the network as it was. -/
theorem perform_error {e : NetworkError}
    (hc : (builder.perform c).runFrom n = (.error e, n')) : n' = n := by
  cases c with
  | addNode kind t =>
    rw [runFrom_perform_addNode] at hc
    split at hc <;> cases hc
    rfl
  | setCost t value | setConstraint t role value =>
    rw [runFrom_perform_set rfl] at hc
    simp only [runFrom, ofUpdate] at hc
    split at hc <;> cases hc
    rfl

theorem Reachable.perform {r : Except NetworkError Unit} (h : n.Reachable)
    (hc : (builder.perform c).runFrom n = (r, n')) : n'.Reachable := by
  have hcall := h.call c
  rwa [hc] at hcall

/-- Only the calls that succeed matter to a property of all networks that calls make. -/
@[elab_as_elim]
theorem Reachable.induction_of_ok {motive : (n : Network) → n.Reachable → Prop}
    (empty : motive .empty .empty)
    (withLiterals : ∀ {n : Network} (accept : Bool) (h : n.Reachable), motive n h →
      motive (n.withLiterals accept) (h.withLiterals accept))
    (call : ∀ {n n' : Network} {c : BuilderCall} (h : n.Reachable)
      (hc : (builder.perform c).runFrom n = (.ok (), n')), motive n h → motive n' (h.perform hc))
    (h : n.Reachable) : motive n h := by
  induction h with
  | empty => exact empty
  | withLiterals accept h ih => exact withLiterals accept h ih
  | @call n c h ih =>
    have hstep : ∀ {r n'} (hc : (builder.perform c).runFrom n = (r, n')),
        motive n' (h.perform hc) := by
      rintro (e | ⟨⟩) n' hc
      · obtain rfl := perform_error hc
        exact ih
      · exact call h hc ih
    exact hstep rfl

theorem Reachable.coherent (h : n.Reachable) : n.Coherent := by
  induction h using Reachable.induction_of_ok with
  | empty => exact Indexed.nil
  | withLiterals accept _ ih => exact ih
  | call _ hc ih => exact (ih.performed_one hc).coherent

/-! ### Lists of calls -/

/-- **The calls `cs` on `n` all succeed and leave `n'`.** -/
def Performs (n : Network) (cs : List BuilderCall) (n' : Network) : Prop :=
  (builder.performAll cs).runFrom n = (.ok (), n')

namespace Performs

theorem nil : Performs n [] n := rfl

theorem cons_iff : Performs n (c :: cs) n' ↔
    ∃ n₁, (builder.perform c).runFrom n = (.ok (), n₁) ∧ Performs n₁ cs n' := by
  rw [Performs, Builder.performAll_cons, runFrom_bind]
  rcases (builder.perform c).runFrom n with ⟨e | ⟨⟩, n₁⟩ <;> simp [Performs]

theorem append (h₁ : Performs n cs n₁) (h₂ : Performs n₁ ds n₂) : Performs n (cs ++ ds) n₂ := by
  rw [Performs, Builder.performAll_append, runFrom_bind_ok h₁]
  exact h₂

theorem append_iff :
    Performs n (cs ++ ds) n' ↔ ∃ n₁, Performs n cs n₁ ∧ Performs n₁ ds n' := by
  refine ⟨fun h => ?_, fun ⟨_, h₁, h₂⟩ => h₁.append h₂⟩
  rw [Performs, Builder.performAll_append, runFrom_bind] at h
  rcases hcs : (builder.performAll cs).runFrom n with ⟨e | ⟨⟩, n₁⟩
  · rw [hcs] at h
    cases h
  · rw [hcs] at h
    exact ⟨n₁, hcs, h⟩

theorem unique (h₁ : Performs n cs n₁) (h₂ : Performs n cs n₂) : n₁ = n₂ := by
  rw [Performs, h₁, Prod.mk.injEq] at h₂
  exact h₂.2

theorem reachable (h : Performs n cs n') (hn : n.Reachable) : n'.Reachable := by
  induction cs generalizing n with
  | nil => cases h; exact hn
  | cons c cs ih =>
    obtain ⟨n₁, hc, h⟩ := cons_iff.mp h
    exact ih h (hn.perform hc)

end Performs

theorem Performed.trans (h₁ : n.Performed cs n₁) (h₂ : n₁.Performed ds n₂) :
    n.Performed (cs ++ ds) n₂ where
  calls := by rw [h₂.calls, h₁.calls, List.append_assoc]
  acceptsLiterals := h₂.acceptsLiterals.trans h₁.acceptsLiterals
  registered := by rw [h₂.registered, h₁.registered, List.filterMap_append, List.append_assoc]
  frame hi hne :=
    h₂.frame (h₁.frame hi fun c hc => hne c (List.mem_append_left _ hc))
      fun c hc => hne c (List.mem_append_right _ hc)
  coherent := h₂.coherent

theorem Coherent.performed (h : n.Coherent) (hcs : Performs n cs n') : n.Performed cs n' := by
  induction cs generalizing n with
  | nil =>
    cases hcs
    exact ⟨by simp, rfl, by simp, fun hi _ => hi, h⟩
  | cons c cs ih =>
    obtain ⟨n₁, hc, hcs⟩ := Performs.cons_iff.mp hcs
    have h₁ := h.performed_one hc
    exact h₁.trans (ih h₁.coherent hcs)

namespace Performed

/-- If no call is about a node that is there already, all records stay as they are. -/
theorem nodes_prefix (h : n.Performed cs n')
    (hne : ∀ c ∈ cs, n.containsName c.terminal.node = false) : n.nodes <+: n'.nodes := by
  rw [List.prefix_iff_getElem?]
  intro i hi
  refine h.frame (List.getElem?_eq_getElem hi) fun c hc heq => ?_
  have hno := hne c hc
  rw [Bool.eq_false_iff] at hno
  exact hno (containsName_iff.mpr ⟨n.nodes[i], List.getElem_mem hi, congrArg Terminal.node heq⟩)

theorem length_nodes (h : n.Performed cs n') :
    n'.nodes.length = n.nodes.length + (cs.filterMap (·.registers?)).length := by
  have hlen := congrArg List.length h.registered
  simpa [Network.registered] using hlen

theorem containsNode (h : n.Performed cs n') (hn : n.Coherent)
    (ht : n.containsNode t = true) : n'.containsNode t = true := by
  obtain ⟨kind, hk⟩ := hn.containsNode_iff.mp ht
  exact h.coherent.containsNode_iff.mpr ⟨kind, h.registered ▸ List.mem_append_left _ hk⟩

end Performed

theorem exists_perform_set (hset : c.registers? = none) (hreg : n.containsNode c.terminal = true) :
    ∃ n', (builder.perform c).runFrom n = (.ok (), n') := by
  rw [containsNode, Std.HashMap.contains_eq_isSome_getElem?, Option.isSome_iff_exists] at hreg
  obtain ⟨id, hid⟩ := hreg
  rw [runFrom_perform_set hset]
  simp only [runFrom, ofUpdate, update, hid]
  exact ⟨_, rfl⟩

/-- Setting values on registered terminals always succeeds. -/
theorem Coherent.exists_performs_set (hn : n.Coherent) (hset : ∀ c ∈ cs, c.registers? = none)
    (hreg : ∀ c ∈ cs, n.containsNode c.terminal = true) : ∃ n', Performs n cs n' := by
  induction cs generalizing n with
  | nil => exact ⟨n, .nil⟩
  | cons c cs ih =>
    rw [List.forall_mem_cons] at hset hreg
    obtain ⟨n₁, hc⟩ := exists_perform_set hset.1 hreg.1
    have hp := hn.performed_one hc
    obtain ⟨n', hcs⟩ := ih hp.coherent hset.2 fun c' hc' => hp.containsNode hn (hreg.2 c' hc')
    exact ⟨n', Performs.cons_iff.mpr ⟨n₁, hc, hcs⟩⟩

theorem exists_perform_addNode (kind : NodeKind) (hc : n.clashes t = false)
    (hs : n.nodes.length < Ident.limit) :
    ∃ n', (builder.perform (.addNode kind t)).runFrom n = (.ok (), n') := by
  obtain ⟨id, n', hadd⟩ := exists_addNode kind hc hs
  exact ⟨n', by rw [runFrom_perform_addNode, hadd]⟩

theorem Coherent.containsNode_eq_false (hn : n.Coherent) (h : n.containsName t.node = false) :
    n.containsNode t = false := by
  rw [Bool.eq_false_iff] at h ⊢
  intro ht
  obtain ⟨kind, hk⟩ := hn.containsNode_iff.mp ht
  exact h (containsName_iff_registered.mpr ⟨_, hk, rfl⟩)

theorem Coherent.clashes_eq_false (hn : n.Coherent) (h : n.containsName t.node = false) :
    n.clashes t = false :=
  clashes_eq_false_iff.mpr
    ⟨hn.containsNode_eq_false h, hn.containsNode_eq_false (t := ⟨t.node, none⟩) h, fun _ => h⟩

/-- A terminal of a node does not clash with another terminal, if this is all of the node that
is registered and both have a sub-index. -/
theorem Performed.clashes_eq_false {t' : Terminal} (h : n.Performed [.addNode kind t'] n')
    (hfree : n.containsName t.node = false) (hne : t.sub ≠ t'.sub) (ht : t.sub ≠ none)
    (ht' : t'.sub ≠ none) : n'.clashes t = false := by
  have hno : ∀ u : Terminal, u.node = t.node → u.sub ≠ t'.sub → n'.containsNode u = false := by
    intro u hu hsub
    rw [Bool.eq_false_iff]
    intro hin
    obtain ⟨kind', hk⟩ := h.coherent.containsNode_iff.mp hin
    rw [h.registered, List.mem_append] at hk
    rcases hk with hk | hk
    · have hname := containsName_iff_registered.mpr ⟨_, hk, hu⟩
      rw [hfree] at hname
      cases hname
    · simp only [List.filterMap_cons, List.filterMap_nil, BuilderCall.registers?,
        List.mem_singleton, Prod.mk.injEq] at hk
      exact hsub (congrArg Terminal.sub hk.2)
  exact clashes_eq_false_iff.mpr
    ⟨hno t rfl hne, hno ⟨t.node, none⟩ rfl ht'.symm, fun hnone => absurd hnone ht⟩

theorem outflow_ne_inflow : some NodeDeclaration.outflow ≠ some NodeDeclaration.inflow := by decide

/-- Registering the terminals of a declaration succeeds if its name is not in use and there is
room. -/
theorem Coherent.exists_performs_registrations (hn : n.Coherent) {d : NodeDeclaration}
    (hfree : n.containsName d.name = false)
    (hroom : n.nodes.length + d.terminals.length ≤ Ident.limit) :
    ∃ n', Performs n d.registrations n' := by
  cases d with
  | flow kind name constraints =>
    obtain ⟨n', hc⟩ := exists_perform_addNode kind (hn.clashes_eq_false (t := ⟨name, none⟩) hfree)
      (Nat.lt_of_succ_le hroom)
    exact ⟨n', Performs.cons_iff.mpr ⟨n', hc, .nil⟩⟩
  | delay name steps initialValue =>
    simp only [NodeDeclaration.terminals, List.length_cons, List.length_nil] at hroom
    obtain ⟨n₁, hc₁⟩ := exists_perform_addNode .output
      (hn.clashes_eq_false (t := ⟨name, some NodeDeclaration.inflow⟩) hfree) (by omega)
    have hp := hn.performed_one hc₁
    have hlen := hp.length_nodes
    simp only [List.filterMap_cons, List.filterMap_nil, BuilderCall.registers?, List.length_cons,
      List.length_nil] at hlen
    have hclash : n₁.clashes ⟨name, some NodeDeclaration.outflow⟩ = false :=
      hp.clashes_eq_false hfree outflow_ne_inflow (Option.some_ne_none _) (Option.some_ne_none _)
    obtain ⟨n₂, hc₂⟩ := exists_perform_addNode .input hclash (by omega)
    exact ⟨n₂, Performs.cons_iff.mpr ⟨n₁, hc₁, Performs.cons_iff.mpr ⟨n₂, hc₂, .nil⟩⟩⟩

end Network

end WaterNetwork
