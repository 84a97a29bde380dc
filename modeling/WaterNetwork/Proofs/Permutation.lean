import WaterNetwork.Proofs.Composition

/-!
# The order of declarations

Declarations have different names, and what a declaration registers, sets and adds goes under its
own name. So two passes over the same declarations in different orders that both succeed leave
the same of each terminal and of each parameter: only identifiers, and the order of records and
entries, may differ. Whether a pass succeeds depends on the order in one way only, by a field that
refers to a parameter which the pass itself makes: this one has to be made before.

* `flatMap_eq_of_perm` — what a list gives for one key does not depend on the order of the list.
* `admissible_iff_of_namesNoDerived` — a setting that refers to nothing that a pass makes is
  admissible wherever it stands.
* `configure_perm` — the outcome of two passes is the same, and without references to what the
  pass makes the one succeeds just if the other does.
-/

namespace WaterNetwork

open Network Settling

variable {n n' : Network} {t : ParameterTable} {site : Site} {accepts : Bool}
  {ds ds' : List NodeDeclaration} {s : Setting}

/-! ### What belongs to one key -/

/-- If only one element of a list gives anything, then the order of the list does not matter. -/
theorem flatMap_eq_of_perm {α β κ : Type} {key : α → κ} {k : κ} {g : α → List β}
    {xs ys : List α} (hperm : xs.Perm ys) (hg : ∀ x, key x ≠ k → g x = [])
    (hnodup : (xs.map key).Nodup) : xs.flatMap g = ys.flatMap g := by
  induction hperm with
  | nil => rfl
  | cons x _ ih => rw [List.flatMap_cons, List.flatMap_cons, ih (List.nodup_cons.mp hnodup).2]
  | swap x y xs =>
    have hne : key y ≠ key x := fun h => (List.nodup_cons.mp hnodup).1 (by simp [h])
    have hnil : g x = [] ∨ g y = [] := by
      by_cases hx : key x = k
      · exact .inr (hg y fun hy => hne (hy.trans hx.symm))
      · exact .inl (hg x hx)
    rcases hnil with h | h <;> simp [h]
  | trans h₁ _ ih₁ ih₂ => exact (ih₁ hnodup).trans (ih₂ ((h₁.map key).nodup hnodup))

/-! ### Records that hold the same -/

/-- Two records hold the same, whatever their identifiers are. -/
structure NodeRecord.Alike (r r' : NodeRecord) : Prop where
  terminal : r.terminal = r'.terminal
  kind : r.kind = r'.kind
  cost : r.cost = r'.cost
  maxFlow : r.maxFlow = r'.maxFlow
  minFlow : r.minFlow = r'.minFlow

theorem Network.Coherent.find?_eq_some_iff (h : n.Coherent) {u : Terminal} {r : NodeRecord} :
    n.find? u = some r ↔ r ∈ n.nodes ∧ r.terminal = u :=
  h.bind_getElem?_eq_some_iff

theorem Network.Coherent.exists_find?_iff (h : n.Coherent) {u : Terminal} {kind : NodeKind} :
    (∃ r, n.find? u = some r ∧ r.kind = kind) ↔ (kind, u) ∈ n.registered := by
  simp only [h.find?_eq_some_iff, registered, List.mem_map, Prod.mk.injEq]
  constructor
  · rintro ⟨r, ⟨hr, hu⟩, hkind⟩
    exact ⟨r, hr, hkind, hu⟩
  · rintro ⟨r, hr, hkind, hu⟩
    exact ⟨r, ⟨hr, hu⟩, hkind⟩

/-- Networks with the same terminals hold the same of each if the last write of every value is
the same in both. -/
theorem Network.Reachable.find?_alike (h : n.Reachable) (h' : n'.Reachable)
    (hregistered : n.registered.Perm n'.registered)
    (hvalue : ∀ u a,
      BuilderCall.lastValue? n.calls u a = BuilderCall.lastValue? n'.calls u a) (u : Terminal) :
    Option.Rel NodeRecord.Alike (n.find? u) (n'.find? u) := by
  have hkinds (kind : NodeKind) :
      (∃ r, n.find? u = some r ∧ r.kind = kind) ↔ ∃ r, n'.find? u = some r ∧ r.kind = kind := by
    rw [h.coherent.exists_find?_iff, h'.coherent.exists_find?_iff, hregistered.mem_iff]
  cases hr : n.find? u with
  | none =>
    cases hr' : n'.find? u with
    | none => exact .none
    | some r' =>
      obtain ⟨r, heq, -⟩ := (hkinds r'.kind).mpr ⟨r', hr', rfl⟩
      rw [hr] at heq
      cases heq
  | some r =>
    obtain ⟨r', hr', hkind⟩ := (hkinds r.kind).mp ⟨r, hr, rfl⟩
    obtain ⟨hmem, rfl⟩ := h.coherent.find?_eq_some_iff.mp hr
    obtain ⟨hmem', hterminal⟩ := h'.coherent.find?_eq_some_iff.mp hr'
    have hvalues (a : NodeAttribute) : r.value? a = r'.value? a := by
      rw [h.value?_eq_lastValue? hmem, h'.value?_eq_lastValue? hmem', hterminal, hvalue]
    rw [hr']
    exact .some ⟨hterminal.symm, hkind.symm, hvalues .cost, hvalues .maxFlow, hvalues .minFlow⟩

/-! ### What a pass does, in another order -/

theorem walk_perm (hperm : ds.Perm ds') : (walk ds).Perm (walk ds') := hperm.flatMap_right _

theorem namedTerminals_perm (hperm : ds.Perm ds') :
    (namedTerminals ds).Perm (namedTerminals ds') := hperm.flatMap_right _

theorem terminalCount_perm (hperm : ds.Perm ds') : terminalCount ds = terminalCount ds' := by
  rw [← length_namedTerminals, ← length_namedTerminals, (namedTerminals_perm hperm).length_eq]

theorem made_perm (hperm : ds.Perm ds') :
    (made site accepts (walk ds)).Perm (made site accepts (walk ds')) :=
  (walk_perm hperm).filterMap _

theorem fresh_perm (hperm : ds.Perm ds') (h : Fresh n ds) : Fresh n ds' :=
  ⟨(hperm.map _).nodup h.nodup, fun d hd => h.vacant d (hperm.mem_iff.mpr hd)⟩

/-- What is handed over for the settings of a pass, declaration by declaration. -/
theorem handed_walk (ds : List NodeDeclaration) :
    handed accepts (walk ds) = ds.flatMap fun d => handed accepts d.settings := by
  simp [handed, walk, List.flatMap_assoc]

/-- The last value that a pass sets does not depend on the order of its declarations, since all
values of a terminal come from one of them. -/
theorem lastValue?_handed_perm (hperm : ds.Perm ds') (hnodup : (ds.map (·.name)).Nodup)
    (cs : List BuilderCall) (u : Terminal) (a : NodeAttribute) :
    BuilderCall.lastValue? (cs ++ registrations ds ++ handed accepts (walk ds)) u a =
      BuilderCall.lastValue? (cs ++ registrations ds' ++ handed accepts (walk ds')) u a := by
  rw [← BuilderCall.lastValue?_setting, ← BuilderCall.lastValue?_setting (_ ++ _ ++ _)]
  simp only [BuilderCall.setting_append, BuilderCall.setting_registrations,
    BuilderCall.setting_handed, List.append_nil]
  rw [BuilderCall.lastValue?, BuilderCall.lastValue?, List.filterMap_append,
    List.filterMap_append, handed_walk, handed_walk, List.filterMap_flatMap,
    List.filterMap_flatMap]
  congr 2
  refine flatMap_eq_of_perm (k := u.node) hperm (fun d hd => ?_) hnodup
  rw [List.filterMap_eq_nil_iff]
  intro c hc
  obtain ⟨s, hs, hc⟩ := List.mem_flatMap.mp hc
  refine if_neg fun hsets => hd ?_
  rw [← hsets.1, Setting.terminal_of_mem_calls hc,
    (NodeDeclaration.terminal_of_mem_settings hs).1]

/-! ### References to what a pass makes -/

/-- The parameters that a field names. -/
def ConstraintField.operands : ConstraintField → List String
  | .literal _ => []
  | .reference name => [name]
  | .inline d => d.references

/-- **Nothing refers to what the pass makes**: no field names the parameter of a declared node,
unless there is one of this name already. -/
def NamesNoDerived (names : List String) (ds : List NodeDeclaration) : Prop :=
  ∀ s ∈ walk ds, ∀ name ∈ s.field.operands,
    (∃ d ∈ ds, ∃ a : NodeAttribute, name = a.derivedName d.name) → name ∈ names

theorem NamesNoDerived.perm {names : List String} (h : NamesNoDerived names ds)
    (hperm : ds.Perm ds') : NamesNoDerived names ds' := by
  rintro s hs name hname ⟨d, hd, a, ha⟩
  exact h s ((walk_perm hperm).mem_iff.mpr hs) name hname ⟨d, hperm.mem_iff.mpr hd, a, ha⟩

/-- More names to refer to do not matter to a field that names none of them. -/
theorem ConstraintField.resolvable_known_append_iff {field : ConstraintField}
    {derivedName : String} {taken known more : List String}
    (h : ∀ name ∈ field.operands, name ∈ more → name ∈ known) :
    field.Resolvable site derivedName accepts taken (known ++ more) ↔
      field.Resolvable site derivedName accepts taken known := by
  have hmem : ∀ name ∈ field.operands, (name ∈ known ++ more ↔ name ∈ known) :=
    fun name hname => by
      rw [List.mem_append, or_iff_left_of_imp (h name hname)]
  cases field with
  | literal x => rfl
  | reference name => exact hmem name (List.mem_singleton_self name)
  | inline d => exact and_congr_right fun _ => and_congr_right fun _ => and_congr_right fun _ =>
      forall₂_congr hmem

/-- A setting that refers to nothing that the pass makes is admissible wherever it stands. -/
theorem admissible_iff_of_namesNoDerived {names : List String} (h : NamesNoDerived names ds)
    {earlier : List Setting} (hearlier : earlier ⊆ walk ds) (hs : s ∈ walk ds) :
    s.Admissible site accepts names earlier ↔
      s.field.Resolvable site s.derivedName accepts names names := by
  refine ConstraintField.resolvable_known_append_iff fun name hname hmade => ?_
  obtain ⟨s', hs', rfl⟩ := List.mem_map.mp (madeNames_subset hmade)
  obtain ⟨d, hd, hs'⟩ := mem_walk.mp (hearlier hs')
  refine h s hs _ hname ⟨d, hd, s'.purpose, ?_⟩
  rw [Setting.derivedName, (NodeDeclaration.terminal_of_mem_settings hs').1]

/-- Settings that refer to nothing that the pass makes settle just if each of them is
resolvable. -/
theorem exists_settles_iff_of_namesNoDerived (ht : t.Built) (hfresh : Fresh n ds)
    (hroom : t.size + (made site accepts (walk ds)).length ≤ Ident.limit)
    (h : NamesNoDerived t.names ds) :
    (∃ t', Settles site accepts (walk ds) t t') ↔
      ∀ s ∈ walk ds, s.field.Resolvable site s.derivedName accepts t.names t.names := by
  rw [exists_settles_iff ht hroom (nodup_derivedNames_walk hfresh.nodup)]
  constructor
  · intro hall s hs
    obtain ⟨earlier, later, hwalk⟩ := List.append_of_mem hs
    exact (admissible_iff_of_namesNoDerived h (by simp [hwalk]) hs).mp (hall earlier s later hwalk)
  · intro hall earlier s later hwalk
    have hs : s ∈ walk ds := by simp [hwalk]
    exact (admissible_iff_of_namesNoDerived h (by simp [hwalk]) hs).mpr (hall s hs)

/-! ### The outcome in another order -/

/-- **The same result**, but for identifiers and the order in which things were made. -/
structure SameResult (summary : Summary) (m : Model Network) (summary' : Summary)
    (m' : Model Network) : Prop where
  nodes : ∀ u, Option.Rel NodeRecord.Alike (m.builder.find? u) (m'.builder.find? u)
  definitions : ∀ name, m.table.get? name = m'.table.get? name
  summary : summary = summary'

/-- The result does not depend on the order of declarations. -/
theorem sameResult_of_perm (hn : n.Reachable) (ht : t.Built) (hperm : ds.Perm ds')
    (hterminals : n.nodes.length + terminalCount ds ≤ Ident.limit)
    {summary summary' : Summary} {m m' : Model Network}
    (h : (configure Network.builder site ds).runFrom ⟨n, t⟩ = (.ok summary, m))
    (h' : (configure Network.builder site ds').runFrom ⟨n, t⟩ = (.ok summary', m')) :
    SameResult summary m summary' m' := by
  have hfresh := ((configure_eq_ok_iff hn.coherent ht hterminals).mp h).1
  have hleft := left_of_configure hn ht hterminals h
  have hleft' := left_of_configure hn ht (terminalCount_perm hperm ▸ hterminals) h'
  have hmade : (made site n.acceptsLiterals (walk ds)).Perm
      (made site n.acceptsLiterals (walk ds')) := made_perm hperm
  refine ⟨hleft.reachable.find?_alike hleft'.reachable ?_ fun u a => ?_, fun name => ?_, ?_⟩
  · rw [hleft.registered, hleft'.registered]
    exact (namedTerminals_perm hperm).append_left _
  · rw [hleft.calls, hleft'.calls]
    exact lastValue?_handed_perm hperm hfresh.nodup ..
  · refine Option.ext fun definition => ?_
    rw [hleft.built.coherent.get?_eq_some_iff, hleft'.built.coherent.get?_eq_some_iff,
      hleft.bindings, hleft'.bindings]
    exact (hmade.append_left _).mem_iff
  · rw [hleft.summary_eq, hleft'.summary_eq, hperm.length_eq, (namedTerminals_perm hperm).length_eq,
      hmade.length_eq]

/-- A pass whose declarations refer to nothing that it makes succeeds in any order or in none. -/
theorem succeeds_of_perm (hn : n.Reachable) (ht : t.Built) (hperm : ds.Perm ds')
    (hterminals : n.nodes.length + terminalCount ds ≤ Ident.limit)
    (hentries : t.size + (made site n.acceptsLiterals (walk ds)).length ≤ Ident.limit)
    (hnames : NamesNoDerived t.names ds)
    (h : ∃ summary m, (configure Network.builder site ds).runFrom ⟨n, t⟩ = (.ok summary, m)) :
    ∃ summary m, (configure Network.builder site ds').runFrom ⟨n, t⟩ = (.ok summary, m) := by
  obtain ⟨summary, m, h⟩ := h
  obtain ⟨hfresh, hsettles, -, -⟩ := (configure_eq_ok_iff hn.coherent ht hterminals).mp h
  have hall := (exists_settles_iff_of_namesNoDerived ht hfresh hentries hnames).mp ⟨_, hsettles⟩
  have hfresh' := fresh_perm hperm hfresh
  obtain ⟨t', hsettles'⟩ := (exists_settles_iff_of_namesNoDerived ht hfresh'
    ((made_perm hperm).length_eq ▸ hentries) (hnames.perm hperm)).mpr
      fun s hs => hall s ((walk_perm hperm).mem_iff.mpr hs)
  obtain ⟨n', hrun, -⟩ := configure_settled hn.coherent ht hfresh'
    (terminalCount_perm hperm ▸ hterminals) hsettles'
  exact ⟨_, _, hrun⟩

/-- **The order of declarations does not matter** to what a pass leaves, as long as there is room
for all terminals and entries; and it does not matter to whether the pass succeeds, if its
declarations refer to nothing that it makes. -/
theorem configure_perm (hn : n.Reachable) (ht : t.Built) (hperm : ds.Perm ds')
    (hterminals : n.nodes.length + terminalCount ds ≤ Ident.limit)
    (hentries : t.size + (made site n.acceptsLiterals (walk ds)).length ≤ Ident.limit) :
    (∀ summary m summary' m',
      (configure Network.builder site ds).runFrom ⟨n, t⟩ = (.ok summary, m) →
      (configure Network.builder site ds').runFrom ⟨n, t⟩ = (.ok summary', m') →
      SameResult summary m summary' m') ∧
    (NamesNoDerived t.names ds →
      ((∃ summary m, (configure Network.builder site ds).runFrom ⟨n, t⟩ = (.ok summary, m)) ↔
        ∃ summary m, (configure Network.builder site ds').runFrom ⟨n, t⟩ = (.ok summary, m))) := by
  refine ⟨fun _ _ _ _ h h' => sameResult_of_perm hn ht hperm hterminals h h', fun hnames => ?_⟩
  refine ⟨succeeds_of_perm hn ht hperm hterminals hentries hnames,
    succeeds_of_perm hn ht hperm.symm ?_ ?_ (hnames.perm hperm)⟩
  · exact terminalCount_perm hperm ▸ hterminals
  · exact (made_perm hperm).length_eq ▸ hentries

/-- A lag and a sink that know nothing of each other. -/
def lagAndCity : List NodeDeclaration :=
  [.delay "lag" 2 0, .flow .output "city" { cost := some (.literal 1.5) }]

/-- Both orders succeed, and leave the same parameters in different orders. -/
theorem configure_perm_lagAndCity : ∃ summary m summary' m',
    (configure Network.builder ⟨⟨[], []⟩, "."⟩ lagAndCity).runFrom
        ⟨Network.empty.withLiterals false, .empty⟩ = (.ok summary, m) ∧
      (configure Network.builder ⟨⟨[], []⟩, "."⟩ lagAndCity.reverse).runFrom
        ⟨Network.empty.withLiterals false, .empty⟩ = (.ok summary', m') ∧
      SameResult summary m summary' m' ∧
      m.table.names = ["lag-delay", "city-cost"] ∧ m'.table.names = ["city-cost", "lag-delay"] := by
  obtain ⟨hsame, hiff⟩ := @configure_perm (Network.empty.withLiterals false) .empty
    ⟨⟨[], []⟩, "."⟩ lagAndCity lagAndCity.reverse (.withLiterals false .empty) .empty
    (List.reverse_perm _).symm (by decide) (by decide)
  have hwalk : walk lagAndCity =
      [.ofDelay "lag" 2 0, ⟨⟨"city", none⟩, .cost, .literal 1.5⟩] := rfl
  have hc : Configurable (Network.empty.withLiterals false) .empty ⟨⟨[], []⟩, "."⟩ lagAndCity := by
    refine configurable_iff.mpr ⟨⟨by decide, fun _ _ _ hr => by cases hr⟩, ?_⟩
    rw [hwalk]
    simp only [forall_split_cons_iff, admissible_ofDelay_iff]
    refine ⟨by decide, ⟨by decide, nofun⟩, by simp⟩
  have hnames : NamesNoDerived (ParameterTable.names .empty) lagAndCity := by
    rintro s hs name hname -
    rw [hwalk] at hs
    simp only [List.mem_cons, List.not_mem_nil, or_false] at hs
    rcases hs with rfl | rfl <;> cases hname
  obtain ⟨summary, hok⟩ := (succeeds_iff_configurable (.withLiterals false .empty) .empty
    (by decide) (by decide)).mpr hc
  rcases hrun : (configure Network.builder ⟨⟨[], []⟩, "."⟩ lagAndCity).runFrom
    ⟨Network.empty.withLiterals false, .empty⟩ with ⟨result, m⟩
  rw [hrun] at hok
  obtain rfl : result = .ok summary := hok
  obtain ⟨summary', m', hrun'⟩ := (hiff hnames).mp ⟨summary, m, hrun⟩
  have hleft := left_of_configure (.withLiterals false .empty) .empty (by decide) hrun
  have hleft' := left_of_configure (.withLiterals false .empty) .empty (by decide) hrun'
  refine ⟨summary, m, summary', m', hrun, hrun', hsame _ _ _ _ hrun hrun', ?_, ?_⟩
  · rw [ParameterTable.names_eq_map_bindings, hleft.bindings]
    rfl
  · rw [ParameterTable.names_eq_map_bindings, hleft'.bindings]
    rfl

end WaterNetwork
