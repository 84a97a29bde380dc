import WaterNetwork.Proofs.Network

/-!
# What calls do to the records of a network

Setting a value changes the record of one terminal and leaves the others alone, so a list of
such calls changes each record on its own (`Coherent.nodes_performs_set`); registering adds
records without values (`Performs.blank_of_registers`). Neither looks at whether the network
takes numbers (`Performs.withLiterals`).
-/

namespace WaterNetwork

open Attempt

namespace BuilderCall

/-- What a call that sets a value does to a record. -/
def onRecord (c : BuilderCall) (r : NodeRecord) : NodeRecord :=
  if r.terminal = c.terminal then c.change r else r

/-- What calls that set values do to a record, one after the other. -/
def allOnRecord (cs : List BuilderCall) (r : NodeRecord) : NodeRecord :=
  cs.foldl (fun r c => c.onRecord r) r

theorem onRecord_of_ne {c : BuilderCall} {r : NodeRecord} (h : r.terminal ≠ c.terminal) :
    c.onRecord r = r := if_neg h

@[simp] theorem terminal_onRecord (c : BuilderCall) (r : NodeRecord) :
    (c.onRecord r).terminal = r.terminal := by
  unfold onRecord
  split <;> simp

@[simp] theorem terminal_allOnRecord (cs : List BuilderCall) (r : NodeRecord) :
    (allOnRecord cs r).terminal = r.terminal := by
  induction cs generalizing r with
  | nil => rfl
  | cons c cs ih => exact (ih (c.onRecord r)).trans (c.terminal_onRecord r)

/-- Calls about other terminals leave a record alone. -/
theorem allOnRecord_of_ne {cs : List BuilderCall} {r : NodeRecord}
    (h : ∀ c ∈ cs, r.terminal ≠ c.terminal) : allOnRecord cs r = r := by
  induction cs with
  | nil => rfl
  | cons c cs ih =>
    rw [List.forall_mem_cons] at h
    rw [allOnRecord, List.foldl_cons, onRecord_of_ne h.1]
    exact ih h.2

end BuilderCall

namespace NodeRecord

/-- The value of an attribute. -/
def value? (r : NodeRecord) : NodeAttribute → Option ConstraintValue
  | .cost => r.cost
  | .maxFlow => r.maxFlow
  | .minFlow => r.minFlow
  | .delay => none

/-- A record is made up of its identity and its values. -/
theorem eq_of_value? {r r' : NodeRecord} (hid : r.id = r'.id) (hterminal : r.terminal = r'.terminal)
    (hkind : r.kind = r'.kind) (hvalue : ∀ a, r.value? a = r'.value? a) : r = r' := by
  obtain ⟨id, terminal, kind, cost, maxFlow, minFlow⟩ := r
  obtain ⟨id', terminal', kind', cost', maxFlow', minFlow'⟩ := r'
  simp only [NodeRecord.mk.injEq]
  exact ⟨hid, hterminal, hkind, hvalue .cost, hvalue .maxFlow, hvalue .minFlow⟩

/-- A record on which nothing has been set. -/
def Blank (r : NodeRecord) : Prop := ∀ a, r.value? a = none

end NodeRecord

/-- The attribute that a flow bound belongs to. -/
def ConstraintRole.attribute : ConstraintRole → NodeAttribute
  | .maxFlow => .maxFlow
  | .minFlow => .minFlow

namespace BuilderCall

/-- The attribute that a call sets. -/
def sets? : BuilderCall → Option NodeAttribute
  | addNode _ _ => none
  | setCost _ _ => some .cost
  | setConstraint _ role _ => some role.attribute

/-- A value of a record that has changed is the value of the call. -/
theorem value?_change {c : BuilderCall} {r : NodeRecord} {a : NodeAttribute}
    {v : ConstraintValue} (h : (c.change r).value? a = some v) :
    r.value? a = some v ∨ c.sets? = some a ∧ c.value? = some v := by
  cases c with
  | addNode kind t => exact .inl h
  | setCost t value =>
    cases a with
    | cost => exact .inr ⟨rfl, h⟩
    | _ => exact .inl h
  | setConstraint t role value =>
    cases role <;> cases a
    case maxFlow.maxFlow | minFlow.minFlow => exact .inr ⟨rfl, h⟩
    all_goals exact .inl h

/-- A value that calls leave on a record was there or has been set by one of them. -/
theorem value?_allOnRecord {cs : List BuilderCall} {r : NodeRecord} {a : NodeAttribute}
    {v : ConstraintValue} (h : (allOnRecord cs r).value? a = some v) :
    r.value? a = some v ∨ ∃ c ∈ cs, c.terminal = r.terminal ∧ c.sets? = some a ∧
      c.value? = some v := by
  induction cs generalizing r with
  | nil => exact .inl h
  | cons c cs ih =>
    rcases ih (r := c.onRecord r) h with hr | ⟨c', hc', ht, hset⟩
    · by_cases hterminal : r.terminal = c.terminal
      · rw [onRecord, if_pos hterminal] at hr
        exact (value?_change hr).imp_right fun hset =>
          ⟨c, List.mem_cons_self .., hterminal.symm, hset⟩
      · rw [onRecord_of_ne hterminal] at hr
        exact .inl hr
    · exact .inr ⟨c', List.mem_cons_of_mem _ hc', ht.trans (c.terminal_onRecord r), hset⟩

end BuilderCall

namespace Network

variable {n n' n₁ n₂ : Network} {c : BuilderCall} {cs ds : List BuilderCall}

/-! ### Setting values -/

/-- Changing the record at the position that the index gives, is changing the record of the
terminal. -/
theorem Coherent.modify_eq_map (h : n.Coherent) {id : Ident}
    (hid : n.index[c.terminal]? = some id) :
    n.nodes.modify id.index c.change = n.nodes.map c.onRecord := by
  obtain ⟨r₀, hr₀, ht₀⟩ := h.getElem?_index.mp hid
  refine List.ext_getElem? fun i => ?_
  rw [List.getElem?_modify, List.getElem?_map]
  cases hr : n.nodes[i]? with
  | none => rfl
  | some r =>
    have hiff : id.index = i ↔ r.terminal = c.terminal := by
      constructor
      · rintro rfl
        rw [hr₀, Option.some_inj] at hr
        exact hr ▸ ht₀
      · intro ht
        have hkey := Indexed.getElem?_key h (List.mem_of_getElem? hr)
        rw [ht, hid, Option.some_inj] at hkey
        rw [hkey, h.ident_index hr]
    simp only [Option.map_some, BuilderCall.onRecord, hiff]
    by_cases ht : r.terminal = c.terminal <;> simp [ht]

theorem Coherent.nodes_set (h : n.Coherent) (hset : c.registers? = none)
    (hc : (builder.perform c).runFrom n = (.ok (), n')) : n'.nodes = n.nodes.map c.onRecord := by
  obtain ⟨id, hid, rfl⟩ := perform_set_eq_ok hset hc
  exact h.modify_eq_map hid

/-- **Setting values changes each record on its own.** -/
theorem Coherent.nodes_performs_set (h : n.Coherent) (hset : ∀ c ∈ cs, c.registers? = none)
    (hcs : Performs n cs n') : n'.nodes = n.nodes.map (BuilderCall.allOnRecord cs) := by
  induction cs generalizing n with
  | nil =>
    cases hcs
    exact (List.map_id _).symm
  | cons c cs ih =>
    rw [List.forall_mem_cons] at hset
    obtain ⟨n₁, hc, hcs⟩ := Performs.cons_iff.mp hcs
    rw [ih (h.performed_one hc).coherent hset.2 hcs, h.nodes_set hset.1 hc, List.map_map]
    rfl

/-! ### Registering -/

/-- Registering adds records without values. -/
theorem Performs.blank_of_registers (h : ∀ c ∈ cs, c.registers? ≠ none) (hcs : Performs n cs n') :
    ∃ new, n'.nodes = n.nodes ++ new ∧ ∀ r ∈ new, r.Blank := by
  induction cs generalizing n with
  | nil =>
    cases hcs
    exact ⟨[], (List.append_nil _).symm, nofun⟩
  | cons c cs ih =>
    rw [List.forall_mem_cons] at h
    obtain ⟨n₁, hc, hcs⟩ := Performs.cons_iff.mp hcs
    obtain ⟨new, hnew, hblank⟩ := ih h.2 hcs
    cases c with
    | setCost t value | setConstraint t role value => exact absurd rfl h.1
    | addNode kind t =>
      obtain ⟨id, -, -, rfl⟩ := perform_addNode_eq_ok hc
      refine ⟨{ id, terminal := t, kind } :: new, by simpa using hnew, ?_⟩
      exact List.forall_mem_cons.mpr ⟨fun a => by cases a <;> rfl, hblank⟩

/-! ### Taking numbers or not -/

/-- No call looks at whether the network takes numbers. -/
theorem runFrom_perform_withLiterals (n : Network) (c : BuilderCall) (accept : Bool) :
    (builder.perform c).runFrom (n.withLiterals accept) =
      (((builder.perform c).runFrom n).1,
        ((builder.perform c).runFrom n).2.withLiterals accept) := by
  cases c with
  | addNode kind t =>
    rw [runFrom_perform_addNode, runFrom_perform_addNode]
    have hclash : (n.withLiterals accept).clashes t = n.clashes t := rfl
    simp only [addNode, hclash]
    cases n.clashes t with
    | true => rfl
    | false =>
      simp only [Bool.false_eq_true, if_false, withLiterals]
      cases Ident.ofIndex n.nodes.length <;> rfl
  | setCost t value | setConstraint t role value =>
    rw [runFrom_perform_set rfl, runFrom_perform_set rfl]
    simp only [runFrom, ofUpdate, update, withLiterals, BuilderCall.terminal]
    cases n.index[t]? <;> rfl

theorem Performs.withLiterals (h : Performs n cs n') (accept : Bool) :
    Performs (n.withLiterals accept) cs (n'.withLiterals accept) := by
  induction cs generalizing n with
  | nil =>
    cases h
    exact .nil
  | cons c cs ih =>
    obtain ⟨n₁, hc, h⟩ := cons_iff.mp h
    refine cons_iff.mpr ⟨n₁.withLiterals accept, ?_, ih h⟩
    rw [runFrom_perform_withLiterals, hc]

end Network

end WaterNetwork
