import WaterNetwork.Proofs.Configuration
import WaterNetwork.Proofs.Log

/-!
# Two passes in the stead of one

A pass creates all its nodes before it makes any setting, so a pass over two lists of declarations
does its work in another order than a pass over the first list followed by one over the second.
The outcome is the same. Settings are resolved against the table, which knows nothing of nodes, in
the same order either way (`Settles.append_iff`); a name is refused as soon as the first pass has
registered it, or because an earlier declaration has it (`fresh_append_iff`); and the settings of
the first list are about none of the nodes of the second.

* `configure_append` — one pass succeeds just if the two do, and leaves the same records and the
  same table, with the same calls of each sort in its log.
-/

namespace WaterNetwork

open Attempt Network Settling

variable {n : Network} {t : ParameterTable} {site : Site} {accepts : Bool}
  {ds es : List NodeDeclaration}

/-- What two passes did together. -/
instance : Add Summary where
  add a b :=
    { nodes := a.nodes + b.nodes, terminals := a.terminals + b.terminals,
      parametersAdded := a.parametersAdded + b.parametersAdded }

theorem walk_append (ds es : List NodeDeclaration) : walk (ds ++ es) = walk ds ++ walk es :=
  List.flatMap_append

theorem namedTerminals_append (ds es : List NodeDeclaration) :
    namedTerminals (ds ++ es) = namedTerminals ds ++ namedTerminals es := List.flatMap_append

theorem registrations_append (ds es : List NodeDeclaration) :
    registrations (ds ++ es) = registrations ds ++ registrations es := List.flatMap_append

theorem Settling.handed_append (ss ss' : List Setting) :
    handed accepts (ss ++ ss') = handed accepts ss ++ handed accepts ss' := List.flatMap_append

/-! ### Calls of either sort -/

namespace BuilderCall

/-- The calls that register terminals. -/
def registering (cs : List BuilderCall) : List BuilderCall := cs.filter (·.registers?.isSome)

/-- The calls that set values. -/
def setting (cs : List BuilderCall) : List BuilderCall := cs.filter (·.registers?.isNone)

variable {cs cs' : List BuilderCall}

@[simp] theorem registering_append : registering (cs ++ cs') = registering cs ++ registering cs' :=
  List.filter_append ..

@[simp] theorem setting_append : setting (cs ++ cs') = setting cs ++ setting cs' :=
  List.filter_append ..

theorem isSome_of_mem_registrations {c : BuilderCall} (hc : c ∈ registrations ds) :
    c.registers?.isSome := by
  simp only [registrations, NodeDeclaration.registrations, List.mem_flatMap, List.mem_map] at hc
  obtain ⟨_, -, _, -, rfl⟩ := hc
  rfl

@[simp] theorem registering_registrations :
    registering (registrations ds) = registrations ds :=
  List.filter_eq_self.mpr fun _ hc => isSome_of_mem_registrations hc

@[simp] theorem setting_registrations : setting (registrations ds) = [] :=
  List.filter_eq_nil_iff.mpr fun c hc => by
    simpa [Option.isSome_iff_ne_none] using isSome_of_mem_registrations hc

theorem registers?_of_mem_handed {ss : List Setting} {c : BuilderCall}
    (hc : c ∈ handed accepts ss) : c.registers? = none := by
  obtain ⟨s, -, hc⟩ := List.mem_flatMap.mp hc
  exact registers?_of_mem_calls hc

@[simp] theorem registering_handed (ss : List Setting) : registering (handed accepts ss) = [] :=
  List.filter_eq_nil_iff.mpr fun c hc => by simp [registers?_of_mem_handed hc]

@[simp] theorem setting_handed (ss : List Setting) :
    setting (handed accepts ss) = handed accepts ss :=
  List.filter_eq_self.mpr fun c hc => by simp [registers?_of_mem_handed hc]

/-- The last write of a value is one of the calls that set values. -/
theorem lastValue?_setting (cs : List BuilderCall) (t : Terminal) (a : NodeAttribute) :
    lastValue? (setting cs) t a = lastValue? cs t a := by
  rw [lastValue?_eq_filter, lastValue?_eq_filter, setting, List.filter_filter]
  congr 3
  funext c
  cases c <;> simp [Sets, sets?, registers?]

end BuilderCall

open BuilderCall (registering setting)

/-! ### One pass and two -/

/-- **The same outcome**, reached by one pass and by two. -/
structure SameOutcome (summary : Summary) (m : Model Network) (summary₁ summary₂ : Summary)
    (m₂ : Model Network) : Prop where
  nodes : m.builder.nodes = m₂.builder.nodes
  table : m.table = m₂.table
  registering : registering m.builder.calls = registering m₂.builder.calls
  setting : setting m.builder.calls = setting m₂.builder.calls
  summary : summary = summary₁ + summary₂

/-- What a completed pass leaves for the next one: a model to start from again, with a builder of
the same kind. -/
structure Left (n : Network) (t : ParameterTable) (site : Site) (ds : List NodeDeclaration)
    (summary : Summary) (m : Model Network) : Prop extends Completed n t site ds summary m where
  built : m.table.Built
  acceptsLiterals : m.builder.acceptsLiterals = n.acceptsLiterals

theorem left_of_configure (hn : n.Reachable) (ht : t.Built)
    (hroom : n.nodes.length + terminalCount ds ≤ Ident.limit) {summary : Summary}
    {m : Model Network}
    (h : (configure Network.builder site ds).runFrom ⟨n, t⟩ = (.ok summary, m)) :
    Left n t site ds summary m := by
  obtain ⟨-, hsettles, hcs, -⟩ := (configure_eq_ok_iff hn.coherent ht hroom).mp h
  exact ⟨completed_of_configure hn ht hroom h, hsettles.built ht,
    (hn.coherent.performed hcs).acceptsLiterals⟩

theorem Completed.length_nodes {summary : Summary} {m : Model Network}
    (h : Completed n t site ds summary m) :
    m.builder.nodes.length = n.nodes.length + terminalCount ds := by
  have hlength := congrArg List.length h.registered
  simpa [Network.registered, length_namedTerminals] using hlength

/-- What a pass over two lists leaves is what a pass over the second one leaves after one over the
first one, if the tables are the same. -/
theorem Left.sameOutcome {summary summary₁ summary₂ : Summary} {m m₁ m₂ : Model Network}
    (h : Left n t site (ds ++ es) summary m) (h₁ : Left n t site ds summary₁ m₁)
    (h₂ : Left m₁.builder m₁.table site es summary₂ m₂) (htable : m.table = m₂.table) :
    SameOutcome summary m summary₁ summary₂ m₂ := by
  have hsetting : setting m.builder.calls = setting m₂.builder.calls := by
    rw [h.calls, h₂.calls, h₁.calls, h₁.acceptsLiterals, walk_append]
    simp [handed_append]
  refine ⟨?_, htable, ?_, hsetting, ?_⟩
  · refine h.reachable.nodes_eq h₂.reachable ?_ fun u a => ?_
    · rw [h.registered, h₂.registered, h₁.registered, namedTerminals_append, List.append_assoc]
    · rw [← BuilderCall.lastValue?_setting, hsetting, BuilderCall.lastValue?_setting]
  · rw [h.calls, h₂.calls, h₁.calls, registrations_append]
    simp
  · rw [h.summary_eq, h₁.summary_eq, h₂.summary_eq, h₁.acceptsLiterals, namedTerminals_append,
      walk_append, made_append]
    simp only [List.length_append]
    rfl

/-- **A pass over two lists of declarations** succeeds just if a pass over the first one does and
one over the second does after it, as long as there is room for all terminals; and then the
outcome is the same. -/
theorem configure_append (hn : n.Reachable) (ht : t.Built)
    (hroom : n.nodes.length + terminalCount (ds ++ es) ≤ Ident.limit) :
    ((∃ summary m, (configure Network.builder site (ds ++ es)).runFrom ⟨n, t⟩ = (.ok summary, m)) ↔
      ∃ summary₁ m₁ summary₂ m₂,
        (configure Network.builder site ds).runFrom ⟨n, t⟩ = (.ok summary₁, m₁) ∧
        (configure Network.builder site es).runFrom m₁ = (.ok summary₂, m₂)) ∧
    ∀ summary m summary₁ m₁ summary₂ m₂,
      (configure Network.builder site (ds ++ es)).runFrom ⟨n, t⟩ = (.ok summary, m) →
      (configure Network.builder site ds).runFrom ⟨n, t⟩ = (.ok summary₁, m₁) →
      (configure Network.builder site es).runFrom m₁ = (.ok summary₂, m₂) →
      SameOutcome summary m summary₁ summary₂ m₂ := by
  have hroom₁ : n.nodes.length + terminalCount ds ≤ Ident.limit := by
    rw [terminalCount_append] at hroom
    omega
  have hroom₂ {summary₁ m₁} (hleft : Left n t site ds summary₁ m₁) :
      m₁.builder.nodes.length + terminalCount es ≤ Ident.limit := by
    rw [hleft.length_nodes, Nat.add_assoc, ← terminalCount_append]
    exact hroom
  refine ⟨⟨?_, ?_⟩, ?_⟩
  · rintro ⟨summary, m, h⟩
    obtain ⟨hfresh, hsettles, -, -⟩ := (configure_eq_ok_iff hn.coherent ht hroom).mp h
    rw [walk_append] at hsettles
    obtain ⟨t₁, hsettles₁, hsettles₂⟩ := Settles.append_iff.mp hsettles
    have hfresh₁ : Fresh n ds :=
      ⟨(List.map_append ▸ hfresh.nodup).of_append_left,
        fun d hd => hfresh.vacant d (List.mem_append_left _ hd)⟩
    obtain ⟨n₁, hrun₁, -⟩ := configure_settled hn.coherent ht hfresh₁ hroom₁ hsettles₁
    have hleft := left_of_configure hn ht hroom₁ hrun₁
    obtain ⟨n₂, hrun₂, -⟩ := configure_settled hleft.reachable.coherent hleft.built
      ((fresh_append_iff hleft.registered).mp hfresh).2 (hroom₂ hleft)
      (by rw [hleft.acceptsLiterals]; exact hsettles₂)
    exact ⟨_, _, _, _, hrun₁, hrun₂⟩
  · rintro ⟨summary₁, m₁, summary₂, m₂, h₁, h₂⟩
    obtain ⟨hfresh₁, hsettles₁, -, -⟩ := (configure_eq_ok_iff hn.coherent ht hroom₁).mp h₁
    have hleft := left_of_configure hn ht hroom₁ h₁
    obtain ⟨hfresh₂, hsettles₂, -, -⟩ :=
      (configure_eq_ok_iff hleft.reachable.coherent hleft.built (hroom₂ hleft)).mp h₂
    rw [hleft.acceptsLiterals] at hsettles₂
    obtain ⟨n', hrun, -⟩ := configure_settled hn.coherent ht
      ((fresh_append_iff hleft.registered).mpr ⟨hfresh₁, hfresh₂⟩) hroom
      (by rw [walk_append]; exact Settles.append_iff.mpr ⟨_, hsettles₁, hsettles₂⟩)
    exact ⟨_, _, hrun⟩
  · intro summary m summary₁ m₁ summary₂ m₂ h h₁ h₂
    obtain ⟨-, hsettles, -, -⟩ := (configure_eq_ok_iff hn.coherent ht hroom).mp h
    obtain ⟨-, hsettles₁, -, -⟩ := (configure_eq_ok_iff hn.coherent ht hroom₁).mp h₁
    have hleft := left_of_configure hn ht hroom h
    have hleft₁ := left_of_configure hn ht hroom₁ h₁
    obtain ⟨-, hsettles₂, -, -⟩ :=
      (configure_eq_ok_iff hleft₁.reachable.coherent hleft₁.built (hroom₂ hleft₁)).mp h₂
    have hleft₂ := left_of_configure hleft₁.reachable hleft₁.built (hroom₂ hleft₁) h₂
    refine hleft.sameOutcome hleft₁ hleft₂ ?_
    rw [walk_append] at hsettles
    obtain ⟨t₁, ht₁, ht₂⟩ := Settles.append_iff.mp hsettles
    obtain rfl := ht₁.unique hsettles₁
    rw [hleft₁.acceptsLiterals] at hsettles₂
    exact ht₂.unique hsettles₂

/-- The lag and then the city whose cost is the derived name of the lag's delay, in one pass and in
two. -/
theorem configure_append_laggedCity : ∃ summary m summary₁ m₁ summary₂ m₂,
    (configure Network.builder ⟨⟨[], []⟩, "."⟩ laggedCity).runFrom
        ⟨Network.empty.withLiterals false, .empty⟩ = (.ok summary, m) ∧
      (configure Network.builder ⟨⟨[], []⟩, "."⟩ (laggedCity.take 1)).runFrom
        ⟨Network.empty.withLiterals false, .empty⟩ = (.ok summary₁, m₁) ∧
      (configure Network.builder ⟨⟨[], []⟩, "."⟩ (laggedCity.drop 1)).runFrom m₁ =
        (.ok summary₂, m₂) ∧
      SameOutcome summary m summary₁ summary₂ m₂ := by
  obtain ⟨hiff, hsame⟩ := @configure_append (Network.empty.withLiterals false) .empty
    ⟨⟨[], []⟩, "."⟩ (laggedCity.take 1) (laggedCity.drop 1) (.withLiterals false .empty) .empty
    (by decide)
  have hc : Configurable (Network.empty.withLiterals false) .empty ⟨⟨[], []⟩, "."⟩ laggedCity := by
    refine configurable_iff.mpr ⟨⟨by decide, fun _ _ _ hr => by cases hr⟩, ?_⟩
    rw [walk_laggedCity]
    simp only [forall_split_cons_iff, admissible_ofDelay_iff]
    refine ⟨by decide, ?_, ?_, by simp⟩
    · exact ⟨by decide, nofun⟩
    · exact List.mem_cons_self ..
  obtain ⟨summary, hok⟩ := (succeeds_iff_configurable (.withLiterals false .empty) .empty
    (by decide) (by decide)).mpr hc
  rcases hrun : (configure Network.builder ⟨⟨[], []⟩, "."⟩ laggedCity).runFrom
    ⟨Network.empty.withLiterals false, .empty⟩ with ⟨result, m⟩
  rw [hrun] at hok
  obtain rfl : result = .ok summary := hok
  obtain ⟨summary₁, m₁, summary₂, m₂, h₁, h₂⟩ := hiff.mp ⟨summary, m, hrun⟩
  exact ⟨summary, m, summary₁, m₁, summary₂, m₂, hrun, h₁, h₂, hsame _ _ _ _ _ _ hrun h₁ h₂⟩

end WaterNetwork
