import WaterNetwork.Proofs.Records

/-!
# The log of a network

A network logs every call that succeeds, and the log tells all there is to know of it: its calls
make the same network again, and a value of a record is the one that the last of them has set
for it. What holds this up is that records and log change together. A call that fails changes
neither, one that registers adds a record without values, and one that sets a value changes it in
the record of its terminal and nowhere else. A call is logged only if its terminal is registered,
so nothing is logged of a terminal before its record is there.

* `Reachable.performs_calls` — the log can be replayed, and leaves the network that it is the log
  of.
* `Reachable.value?_eq_lastValue?` — the last write wins.
* `log_complete` — both, and what a call that sets a value changes.
-/

namespace WaterNetwork

open Attempt

namespace BuilderCall

variable {c : BuilderCall} {cs : List BuilderCall} {t : Terminal} {a : NodeAttribute}
  {r : NodeRecord}

/-! ### The last value set -/

/-- A call sets an attribute of a terminal. -/
def Sets (c : BuilderCall) (t : Terminal) (a : NodeAttribute) : Prop :=
  c.terminal = t ∧ c.sets? = some a

instance : Decidable (c.Sets t a) := inferInstanceAs (Decidable (_ ∧ _))

/-- The value that the last of some calls sets for an attribute of a terminal, if any does. -/
def lastValue? (cs : List BuilderCall) (t : Terminal) (a : NodeAttribute) :
    Option ConstraintValue :=
  (cs.filterMap fun c => if c.Sets t a then c.value? else none).getLast?

theorem Sets.exists_value? (h : c.Sets t a) : ∃ v, c.value? = some v := by
  cases c with
  | addNode kind t => cases h.2
  | setCost t v | setConstraint t role v => exact ⟨v, rfl⟩

theorem lastValue?_concat : lastValue? (cs ++ [c]) t a =
    if c.Sets t a then c.value? else lastValue? cs t a := by
  by_cases h : c.Sets t a
  · obtain ⟨v, hv⟩ := h.exists_value?
    simp [lastValue?, h, hv]
  · simp [lastValue?, h]

theorem lastValue?_eq_none (h : ∀ c ∈ cs, c.terminal ≠ t) : lastValue? cs t a = none := by
  have hnone : (cs.filterMap fun c => if c.Sets t a then c.value? else none) = [] := by
    rw [List.filterMap_eq_nil_iff]
    intro c hc
    exact if_neg fun hset => h c hc hset.1
  rw [lastValue?, hnone, List.getLast?_nil]

/-- Only the calls that set the value matter. -/
theorem lastValue?_eq_filter (cs : List BuilderCall) (t : Terminal) (a : NodeAttribute) :
    lastValue? cs t a = ((cs.filter fun c => c.Sets t a).filterMap value?).getLast? := by
  rw [lastValue?, List.filterMap_filter]
  simp only [decide_eq_true_eq]

/-- A call changes the one value that it sets. -/
theorem value?_onRecord (c : BuilderCall) (r : NodeRecord) (a : NodeAttribute) :
    (c.onRecord r).value? a = if c.Sets r.terminal a then c.value? else r.value? a := by
  by_cases ht : r.terminal = c.terminal
  · have hset : c.Sets r.terminal a ↔ c.sets? = some a := by simp [Sets, ht]
    rw [onRecord, if_pos ht]
    simp only [hset]
    cases c with
    | addNode kind t => simp [change, sets?]
    | setCost t v => cases a <;> simp [change, sets?, value?, NodeRecord.value?]
    | setConstraint t role v =>
      cases role <;> cases a <;>
        simp [change, sets?, value?, NodeRecord.value?, NodeRecord.withBound,
          ConstraintRole.attribute]
  · rw [onRecord_of_ne ht, if_neg fun hset : c.Sets r.terminal a => ht hset.1.symm]

/-- **What a call that sets a value may do to a record**: it changes the value that it sets, if it
is about the terminal of the record, and nothing else. -/
structure Changes (c : BuilderCall) (r r' : NodeRecord) : Prop where
  id : r'.id = r.id
  terminal : r'.terminal = r.terminal
  kind : r'.kind = r.kind
  value? : ∀ a, r'.value? a = if c.Sets r.terminal a then c.value? else r.value? a

theorem changes_onRecord (c : BuilderCall) (r : NodeRecord) : c.Changes r (c.onRecord r) := by
  refine ⟨?_, c.terminal_onRecord r, ?_, value?_onRecord c r⟩
  · unfold onRecord
    split <;> simp
  · unfold onRecord
    split <;> simp

end BuilderCall

namespace Network

open BuilderCall

variable {n n' : Network} {c : BuilderCall} {r : NodeRecord}

/-! ### Replaying -/

/-- **The log can be replayed**: on a new network its calls all succeed, and they leave the
network that it is the log of. -/
theorem Reachable.performs_calls (h : n.Reachable) (accept : Bool) :
    Performs (Network.empty.withLiterals accept) n.calls (n.withLiterals accept) := by
  induction h using Reachable.induction_of_ok with
  | empty => exact .nil
  | withLiterals accept' _ ih => exact ih
  | @call n n' c hn hc ih =>
    have hlast : Performs n [c] n' := Performs.cons_iff.mpr ⟨n', hc, .nil⟩
    rw [(hn.coherent.performed_one hc).calls]
    exact ih.append (hlast.withLiterals accept)

/-! ### What is logged of a terminal -/

/-- A call that succeeds is about a terminal that is registered after it. -/
theorem Coherent.containsNode_of_perform (h : n.Coherent)
    (hc : (builder.perform c).runFrom n = (.ok (), n')) : n'.containsNode c.terminal = true := by
  have hp := h.performed_one hc
  cases c with
  | addNode kind t =>
    refine hp.coherent.containsNode_iff.mpr ⟨kind, ?_⟩
    simp [hp.registered, registers?, BuilderCall.terminal]
  | setCost t v | setConstraint t role v =>
    refine hp.containsNode h ?_
    obtain ⟨id, hid, -⟩ := perform_set_eq_ok rfl hc
    rw [containsNode, Std.HashMap.contains_eq_isSome_getElem?, hid, Option.isSome_some]

/-- What is logged is about registered terminals. -/
theorem Reachable.containsNode_of_mem_calls (h : n.Reachable) (hc : c ∈ n.calls) :
    n.containsNode c.terminal = true := by
  induction h using Reachable.induction_of_ok with
  | empty => cases hc
  | withLiterals accept _ ih => exact ih hc
  | call hn hc' ih =>
    have hp := hn.coherent.performed_one hc'
    rw [hp.calls, List.mem_append, List.mem_singleton] at hc
    rcases hc with hc | rfl
    · exact hp.containsNode hn.coherent (ih hc)
    · exact hn.coherent.containsNode_of_perform hc'

/-- **The last write wins**: a value of a record is the one that the last logged call has set for
it, and there is none if no call has. -/
theorem Reachable.value?_eq_lastValue? (h : n.Reachable) (hr : r ∈ n.nodes) (a : NodeAttribute) :
    r.value? a = lastValue? n.calls r.terminal a := by
  induction h using Reachable.induction_of_ok generalizing r with
  | empty => cases hr
  | withLiterals accept _ ih => exact ih hr
  | @call n n' c hn hc ih =>
    rw [(hn.coherent.performed_one hc).calls, lastValue?_concat]
    cases c with
    | setCost t v | setConstraint t role v =>
      rw [hn.coherent.nodes_set rfl hc, List.mem_map] at hr
      obtain ⟨r₀, hr₀, rfl⟩ := hr
      rw [value?_onRecord, terminal_onRecord, ih hr₀]
    | addNode kind t =>
      rw [if_neg (by simp [Sets, sets?])]
      obtain ⟨id, hclash, -, rfl⟩ := perform_addNode_eq_ok hc
      rcases List.mem_append.mp hr with hr | hr
      · exact ih hr
      · obtain rfl := List.mem_singleton.mp hr
        -- nothing has been logged of a terminal that is not registered yet
        rw [lastValue?_eq_none fun c hc ht => ?_]
        · cases a <;> rfl
        · have hin := hn.containsNode_of_mem_calls hc
          rw [ht, (clashes_eq_false_iff.mp hclash).1] at hin
          cases hin

/-- Networks with the same terminals, registered in the same order, have the same records if the
last write of every value is the same in both. -/
theorem Reachable.nodes_eq (h : n.Reachable) (h' : n'.Reachable)
    (hregistered : n.registered = n'.registered)
    (hvalue : ∀ t a, lastValue? n.calls t a = lastValue? n'.calls t a) : n.nodes = n'.nodes := by
  refine List.ext_getElem? fun i => ?_
  have hi : (n.nodes[i]?).map (fun r => (r.kind, r.terminal)) =
      (n'.nodes[i]?).map (fun r => (r.kind, r.terminal)) := by
    rw [← List.getElem?_map, ← List.getElem?_map]
    exact congrArg (·[i]?) hregistered
  cases hr : n.nodes[i]? with
  | none =>
    rw [hr, Option.map_none, eq_comm, Option.map_eq_none_iff] at hi
    exact hi.symm
  | some r =>
    rw [hr, Option.map_some, eq_comm, Option.map_eq_some_iff] at hi
    obtain ⟨r', hr', heq⟩ := hi
    obtain ⟨hkind, hterminal⟩ := Prod.mk.inj heq
    have hid : r.id = r'.id := Ident.eq_of_index_eq
      ((h.coherent.ident_index hr).trans (h'.coherent.ident_index hr').symm)
    have hvalues (a : NodeAttribute) : r.value? a = r'.value? a := by
      rw [h.value?_eq_lastValue? (List.mem_of_getElem? hr),
        h'.value?_eq_lastValue? (List.mem_of_getElem? hr'), hterminal, hvalue]
    rw [hr', NodeRecord.eq_of_value? hid hterminal.symm hkind.symm hvalues]

/-- **The log is complete**, whatever calls have made the network and whether they succeeded or
not: its calls all succeed on a new network and make the same one again; every value of a record
is the one that the last logged call has set for it; and a call that sets a value changes this
value of the record of its terminal and nothing else in the records and the index. -/
theorem log_complete (hn : n.Reachable) :
    (∀ accept, Performs (Network.empty.withLiterals accept) n.calls (n.withLiterals accept)) ∧
    (∀ r ∈ n.nodes, ∀ a, r.value? a = lastValue? n.calls r.terminal a) ∧
    ∀ c n', c.registers? = none → (builder.perform c).runFrom n = (.ok (), n') →
      n'.index = n.index ∧ List.Forall₂ c.Changes n.nodes n'.nodes := by
  refine ⟨hn.performs_calls, fun r hr a => hn.value?_eq_lastValue? hr a, ?_⟩
  intro c n' hset hc
  refine ⟨index_of_perform_set hset hc, ?_⟩
  rw [hn.coherent.nodes_set hset hc, List.forall₂_map_right_iff]
  exact List.forall₂_same.mpr fun r _ => c.changes_onRecord r

/-- The cost of a weir is set twice. The first value is what the log says until the second one
replaces it. -/
theorem log_complete_weir : ∃ (n n' : Network) (r r' : NodeRecord), n.Reachable ∧
    n.calls = [.addNode .link ⟨"weir", none⟩, .setCost ⟨"weir", none⟩ (.parameter "summer")] ∧
    Performs (Network.empty.withLiterals false) n.calls (n.withLiterals false) ∧
    (builder.perform (.setCost ⟨"weir", none⟩ (.parameter "winter"))).runFrom n = (.ok (), n') ∧
    n.nodes = [r] ∧ n'.nodes = [r'] ∧ r.cost = some (.parameter "summer") ∧
    r'.cost = some (.parameter "winter") ∧ r'.maxFlow = none := by
  obtain ⟨n₁, hadd⟩ := exists_perform_addNode (n := .empty) (t := ⟨"weir", none⟩) .link
    (by simp [clashes, containsNode, containsName, empty]) (by decide)
  have hp₁ := Reachable.empty.coherent.performed_one hadd
  have hweir₁ : n₁.containsNode ⟨"weir", none⟩ = true :=
    Reachable.empty.coherent.containsNode_of_perform hadd
  obtain ⟨n, hcost⟩ :=
    exists_perform_set (c := .setCost ⟨"weir", none⟩ (.parameter "summer")) rfl hweir₁
  have hp := hp₁.coherent.performed_one hcost
  obtain ⟨n', hcost'⟩ := exists_perform_set (c := .setCost ⟨"weir", none⟩ (.parameter "winter"))
    rfl (hp.containsNode hp₁.coherent hweir₁)
  have hn : n.Reachable :=
    Performs.reachable (Performs.cons_iff.mpr ⟨n₁, hadd, Performs.cons_iff.mpr ⟨n, hcost, .nil⟩⟩)
      .empty
  obtain ⟨hreplay, hlast, hset⟩ := log_complete hn
  have hcalls : n.calls = _ := hp.calls.trans (congrArg (· ++ _) hp₁.calls)
  have hregistered : n.registered = [(.link, ⟨"weir", none⟩)] := by
    rw [hp.registered, hp₁.registered]
    rfl
  obtain ⟨r, hr, hweir⟩ := List.map_eq_singleton_iff.mp hregistered
  obtain ⟨-, hchanges⟩ := hset _ n' rfl hcost'
  rw [hr, List.forall₂_cons_left_iff] at hchanges
  obtain ⟨r', rest, hr', hrest, hn'⟩ := hchanges
  rw [List.forall₂_nil_left_iff.mp hrest] at hn'
  have hcost := hlast r (by simp [hr]) .cost
  have hmaxFlow := hlast r (by simp [hr]) .maxFlow
  have hterminal : r.terminal = ⟨"weir", none⟩ := congrArg Prod.snd hweir
  rw [hterminal, hcalls] at hcost hmaxFlow
  refine ⟨n, n', r, r', hn, hcalls, hreplay false, hcost', hr, hn', hcost, ?_, ?_⟩
  · exact (hr'.value? .cost).trans (by rw [hterminal]; rfl)
  · exact (hr'.value? .maxFlow).trans (by rw [hterminal]; exact hmaxFlow)

end Network

end WaterNetwork
