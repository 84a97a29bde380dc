import WaterNetwork.Proofs.Collision
import WaterNetwork.Proofs.Configuration
import WaterNetwork.Proofs.Records

/-!
# Numbers by name

A network may refuse numbers; then each number that a declaration gives becomes a constant of
the table, under its derived name, and the network is handed that name. Otherwise nothing
changes: two passes over the same declarations, one with a network that takes numbers and one
with the same network refusing them, differ by the translation `byName` of calls and records,
and the second table has the constants in addition (`Setting.literals`).

* `handed_false` — the calls of the second pass are the translated calls of the first.
* `admissible_false_iff` — a setting that is admissible with numbers taken is admissible with
  numbers refused, unless it gives a number whose derived name is in the table.
* `configure_byName` — what the second pass does, given that the first succeeds.
-/

namespace WaterNetwork

open Attempt Network Settling

variable {n n' : Network} {t : ParameterTable} {site : Site} {d : NodeDeclaration}
  {ds : List NodeDeclaration} {s : Setting} {ss : List Setting} {name : String} {x : Float}

/-! ### The translation -/

/-- What a value becomes for a network that refuses numbers: a number goes by the name of its
parameter. -/
def ConstraintValue.byName (name : String) : ConstraintValue → ConstraintValue
  | literal _ => parameter name
  | parameter p => parameter p

/-- A call with its value by name. -/
def BuilderCall.byName : BuilderCall → BuilderCall
  | addNode kind t => addNode kind t
  | setCost t value => setCost t (value.byName (NodeAttribute.cost.derivedName t.node))
  | setConstraint t role value =>
    setConstraint t role (value.byName (role.attribute.derivedName t.node))

/-- A record with its values by name. -/
def NodeRecord.byName (r : NodeRecord) : NodeRecord :=
  { r with
    cost := r.cost.map (·.byName (NodeAttribute.cost.derivedName r.terminal.node))
    maxFlow := r.maxFlow.map (·.byName (NodeAttribute.maxFlow.derivedName r.terminal.node))
    minFlow := r.minFlow.map (·.byName (NodeAttribute.minFlow.derivedName r.terminal.node)) }

@[simp] theorem BuilderCall.terminal_byName (c : BuilderCall) : c.byName.terminal = c.terminal := by
  cases c <;> rfl

theorem NodeRecord.Blank.byName {r : NodeRecord} (h : r.Blank) : r.byName = r := by
  obtain ⟨id, terminal, kind, cost, maxFlow, minFlow⟩ := r
  obtain rfl : cost = none := h .cost
  obtain rfl : maxFlow = none := h .maxFlow
  obtain rfl : minFlow = none := h .minFlow
  rfl

/-- Translating commutes with what a call does to a record. -/
theorem BuilderCall.onRecord_byName (c : BuilderCall) (r : NodeRecord) :
    c.byName.onRecord r.byName = (c.onRecord r).byName := by
  by_cases h : r.terminal = c.terminal
  · have h' : r.byName.terminal = c.byName.terminal := h.trans c.terminal_byName.symm
    rw [onRecord, onRecord, if_pos h, if_pos h']
    cases c with
    | addNode kind t => rfl
    | setCost t value =>
      obtain rfl : r.terminal = t := h
      rfl
    | setConstraint t role value =>
      obtain rfl : r.terminal = t := h
      cases role <;> rfl
  · have h' : r.byName.terminal ≠ c.byName.terminal := fun h' => h (h'.trans c.terminal_byName)
    rw [onRecord_of_ne h, onRecord_of_ne h']

theorem BuilderCall.allOnRecord_byName (cs : List BuilderCall) (r : NodeRecord) :
    allOnRecord (cs.map byName) r.byName = (allOnRecord cs r).byName := by
  induction cs generalizing r with
  | nil => rfl
  | cons c cs ih => exact (congrArg _ (c.onRecord_byName r)).trans (ih (c.onRecord r))

/-! ### Settings that give numbers -/

namespace Setting

/-- The number that a setting gives, if it gives one. -/
def literal? (s : Setting) : Option Float :=
  match s.field with
  | .literal x => some x
  | _ => none

/-- The constants that a list of settings makes if numbers are refused. -/
def literals (ss : List Setting) : List (String × Definition) :=
  ss.filterMap fun s => s.literal?.map fun x => (s.derivedName, .constant x)

theorem literal?_eq_some_iff : s.literal? = some x ↔ s.field = .literal x := by
  unfold literal?
  cases s.field <;> simp

theorem mem_names_literals (hnodup : (ss.map (·.derivedName)).Nodup) (hs : s ∈ ss) :
    s.derivedName ∈ (literals ss).map (·.1) ↔ s.literal?.isSome := by
  simp only [literals, List.mem_map, List.mem_filterMap, Option.map_eq_some_iff]
  constructor
  · rintro ⟨_, ⟨s', hs', x, hx, rfl⟩, hname⟩
    obtain rfl : s' = s := List.inj_on_of_nodup_map hnodup hs' hs hname
    rw [hx]
    rfl
  · intro h
    obtain ⟨x, hx⟩ := Option.isSome_iff_exists.mp h
    exact ⟨_, ⟨s, hs, x, hx, rfl⟩, rfl⟩

theorem value_false (s : Setting) : s.value false = (s.value true).byName s.derivedName := by
  unfold value
  cases s.field <;> rfl

theorem value_true_eq_literal_iff : s.value true = .literal x ↔ s.field = .literal x := by
  unfold value
  cases s.field <;> simp [ConstraintField.value]

/-- The calls of a setting whose value is given by name. A delay is a parameter anyway. -/
theorem calls_false (h : s.purpose = .delay → s.literal? = none) :
    s.calls (s.value false) = (s.calls (s.value true)).map BuilderCall.byName := by
  rw [value_false, calls, calls]
  cases hp : s.purpose with
  | cost | maxFlow | minFlow => simp [BuilderCall.byName, derivedName, hp, ConstraintRole.attribute]
  | delay =>
    have hparameter : ∃ p, s.value true = .parameter p := by
      cases hv : s.value true with
      | parameter p => exact ⟨p, rfl⟩
      | literal x =>
        have hx := literal?_eq_some_iff.mpr (value_true_eq_literal_iff.mp hv)
        rw [h hp] at hx
        cases hx
    obtain ⟨p, hp⟩ := hparameter
    simp [BuilderCall.byName, hp, ConstraintValue.byName]

end Setting

theorem literal?_of_mem_walk (hs : s ∈ walk ds) (hp : s.purpose = .delay) : s.literal? = none := by
  obtain ⟨d, -, hs⟩ := mem_walk.mp hs
  obtain ⟨name, steps, x, -, rfl⟩ := NodeDeclaration.eq_delay_of_mem_settings hs hp
  rfl

/-- **The calls of a pass with numbers refused** are those of a pass with numbers taken, with
their values by name. -/
theorem handed_false (hss : ss ⊆ walk ds) :
    handed false ss = (handed true ss).map BuilderCall.byName := by
  rw [handed, handed, List.map_flatMap]
  exact List.flatMap_congr fun s hs => Setting.calls_false (literal?_of_mem_walk (hss hs))

/-- The entry that a refusing network makes of a setting is the constant of a number, or what
an accepting network makes of it. -/
theorem Setting.filter_made?_false {names : List String}
    (hmem : s.derivedName ∈ names ↔ s.literal?.isSome) :
    (s.made? site false).filter (fun b => b.1 ∈ names) =
        s.literal?.map (fun x => (s.derivedName, .constant x)) ∧
      (s.made? site false).filter (fun b => b.1 ∉ names) = s.made? site true := by
  unfold made?
  cases hfield : s.field with
  | literal x =>
    have hx := literal?_eq_some_iff.mpr hfield
    rw [hx] at hmem ⊢
    simp [ConstraintField.made?, hmem]
  | reference r =>
    have hx : s.literal? = none := by rw [literal?, hfield]
    rw [hx]
    exact ⟨rfl, rfl⟩
  | inline d =>
    have hx : s.literal? = none := by rw [literal?, hfield]
    rw [hx] at hmem ⊢
    simp [ConstraintField.made?, hmem]

/-- The entries of a pass with numbers refused are the constants of the numbers and, if these are
left out, the entries of a pass with numbers taken. -/
theorem filter_made_false (site : Site) (hnodup : (ss.map (·.derivedName)).Nodup) :
    (made site false ss).filter (fun b => b.1 ∈ (Setting.literals ss).map (·.1)) =
        Setting.literals ss ∧
      (made site false ss).filter (fun b => b.1 ∉ (Setting.literals ss).map (·.1)) =
        made site true ss := by
  rw [made, List.filter_filterMap, List.filter_filterMap]
  exact ⟨List.filterMap_congr fun s hs =>
      (Setting.filter_made?_false (Setting.mem_names_literals hnodup hs)).1,
    List.filterMap_congr fun s hs =>
      (Setting.filter_made?_false (Setting.mem_names_literals hnodup hs)).2⟩

/-! ### When the second pass succeeds -/

theorem madeNames_true_subset (ss : List Setting) :
    madeNames site true ss ⊆ madeNames site false ss := by
  intro name h
  simp only [madeNames, made, List.mem_map, List.mem_filterMap] at h ⊢
  obtain ⟨b, ⟨s, hs, hb⟩, rfl⟩ := h
  refine ⟨b, ⟨s, hs, ?_⟩, rfl⟩
  cases hfield : s.field <;> simp_all [Setting.made?, ConstraintField.made?]

/-- A setting that is admissible with numbers taken is admissible with numbers refused, unless
it gives a number whose derived name is in the table. -/
theorem admissible_false_iff {names : List String} (h : s.Admissible site true names ss) :
    s.Admissible site false names ss ↔ (s.literal?.isSome → s.derivedName ∉ names) := by
  have hknown : names ++ madeNames site true ss ⊆ names ++ madeNames site false ss :=
    List.append_subset.mpr ⟨List.subset_append_left _ _,
      List.Subset.trans (madeNames_true_subset ss) (List.subset_append_right _ _)⟩
  unfold Setting.Admissible Setting.literal? at *
  cases hfield : s.field with
  | literal x =>
    rw [hfield] at h
    simp [ConstraintField.Resolvable, h.1]
  | reference r =>
    rw [hfield] at h
    simpa [ConstraintField.Resolvable] using hknown h
  | inline d =>
    rw [hfield] at h
    obtain ⟨hcheck, hfile, hnew, hrefs⟩ := h
    simpa [ConstraintField.Resolvable, hcheck, hfile, hnew] using fun r hr => hknown (hrefs r hr)

/-- A number whose derived name is in the table collides with the entry there. -/
theorem resolve_false_of_mem (site : Site) (ht : t.Built) (hx : s.literal? = some x)
    (hfinite : Number.isFinite x = true) (hmem : s.derivedName ∈ t.names) :
    (s.resolve site false).runFrom t = (.error (.nameCollision s.derivedName), t) := by
  unfold Setting.resolve ConstraintField.resolve
  rw [Setting.literal?_eq_some_iff.mp hx]
  simp only [ensureFinite, hfinite, if_true, Bool.false_eq_true, if_false]
  exact Definition.materialize_of_contains _ (ht.coherent.contains_iff.mpr hmem)

/-! ### What the second pass leaves -/

/-- The settings of fresh declarations leave the records alone that are there. -/
theorem map_allOnRecord_of_fresh {accepts : Bool} (hfresh : Fresh n ds) :
    n.nodes.map (BuilderCall.allOnRecord (handed accepts (walk ds))) = n.nodes := by
  rw [List.map_congr_left (g := id), List.map_id]
  intro r hr
  refine BuilderCall.allOnRecord_of_ne fun c hc heq => ?_
  obtain ⟨d, hd, hnode⟩ := node_of_mem_handed (List.Subset.refl _) hc
  exact hfresh.vacant d hd r hr ((congrArg Terminal.node heq).trans hnode)

/-- **The records of two passes**, one with numbers taken and one with numbers refused: the new
records of the second are those of the first with their values by name. -/
theorem nodes_byName {na nr : Network} (hn : n.Coherent) (hfresh : Fresh n ds)
    (ha : Performs (n.withLiterals true) (registrations ds ++ handed true (walk ds)) na)
    (hr : Performs (n.withLiterals false) (registrations ds ++ handed false (walk ds)) nr) :
    ∃ new : List NodeRecord, (∀ r ∈ new, r.Blank) ∧
      na.nodes = n.nodes ++ new.map (BuilderCall.allOnRecord (handed true (walk ds))) ∧
      nr.nodes = n.nodes ++
        (new.map (BuilderCall.allOnRecord (handed true (walk ds)))).map NodeRecord.byName := by
  obtain ⟨n₁, hreg, hset⟩ := Performs.append_iff.mp ha
  obtain ⟨n₂, hreg', hset'⟩ := Performs.append_iff.mp hr
  obtain rfl : n₁.withLiterals false = n₂ := (hreg.withLiterals false).unique hreg'
  obtain ⟨new, hnew, hblank⟩ := hreg.blank_of_registers fun c hc => by
    simp only [registrations, NodeDeclaration.registrations, List.mem_flatMap, List.mem_map] at hc
    obtain ⟨_, _, _, _, rfl⟩ := hc
    rintro ⟨⟩
  have hn₁ : n₁.Coherent := (Coherent.performed (n := n.withLiterals true) hn hreg).coherent
  have hsets : ∀ accepts, ∀ c ∈ handed accepts (walk ds), c.registers? = none := by
    intro accepts c hc
    obtain ⟨s, -, hc⟩ := List.mem_flatMap.mp hc
    exact registers?_of_mem_calls hc
  refine ⟨new, hblank, ?_, ?_⟩
  · rw [hn₁.nodes_performs_set (hsets true) hset, hnew, List.map_append]
    show n.nodes.map _ ++ _ = _
    rw [map_allOnRecord_of_fresh hfresh]
  · rw [Coherent.nodes_performs_set (n := n₁.withLiterals false) hn₁ (hsets false) hset']
    show n₁.nodes.map _ = _
    rw [hnew, List.map_append]
    show n.nodes.map _ ++ _ = _
    rw [map_allOnRecord_of_fresh hfresh, handed_false (List.Subset.refl _), List.map_map]
    refine congrArg _ (List.map_congr_left fun r hr => ?_)
    rw [Function.comp, ← BuilderCall.allOnRecord_byName, (hblank r hr).byName]

/-- A number on a record that was blank is a number that a setting gives. -/
theorem exists_literal_of_value? {r : NodeRecord} {a : NodeAttribute} (hblank : r.Blank)
    (hv : (BuilderCall.allOnRecord (handed true ss) r).value? a = some (.literal x))
    (hss : ss ⊆ walk ds) :
    ∃ s ∈ ss, s.literal? = some x ∧ s.derivedName = a.derivedName r.terminal.node := by
  rcases BuilderCall.value?_allOnRecord hv with hnone | ⟨c, hc, hterminal, hsets, hvalue⟩
  · rw [hblank a] at hnone
    cases hnone
  · obtain ⟨s, hs, hc⟩ := List.mem_flatMap.mp hc
    rw [Setting.value?_of_mem_calls hc, Option.some_inj] at hvalue
    have hx := Setting.literal?_eq_some_iff.mpr (Setting.value_true_eq_literal_iff.mp hvalue)
    refine ⟨s, hs, hx, ?_⟩
    rw [Setting.derivedName, ← hterminal, Setting.terminal_of_mem_calls hc]
    congr 1
    unfold Setting.calls at hc
    cases hp : s.purpose with
    | delay =>
      rw [literal?_of_mem_walk (hss hs) hp] at hx
      cases hx
    | cost | maxFlow | minFlow =>
      rw [hp] at hc
      obtain rfl := List.mem_singleton.mp hc
      simpa [BuilderCall.sets?, ConstraintRole.attribute] using hsets

/-- **The same model with its numbers by name**: what a pass leaves with numbers refused, held
against what it leaves with numbers taken. -/
structure ByName (n : Network) (ds : List NodeDeclaration) (accepting refusing : Model Network) :
    Prop where
  /-- The nodes that were there are the same. So are the new ones, but for numbers: these go by
  the name of a parameter that is the constant. -/
  nodes : ∃ new, accepting.builder.nodes = n.nodes ++ new ∧
    refusing.builder.nodes = n.nodes ++ new.map NodeRecord.byName ∧
    ∀ r ∈ new, ∀ a x, r.value? a = some (.literal x) →
      refusing.table.get? (a.derivedName r.terminal.node) = some (.constant x)
  calls : ∃ new, accepting.builder.calls = n.calls ++ new ∧
    refusing.builder.calls = n.calls ++ new.map BuilderCall.byName
  /-- The table has the constants of the numbers in addition. -/
  constants : refusing.table.bindings.filter
    (fun b => b.1 ∈ (Setting.literals (walk ds)).map (·.1)) = Setting.literals (walk ds)
  bindings : accepting.table.bindings =
    refusing.table.bindings.filter fun b => b.1 ∉ (Setting.literals (walk ds)).map (·.1)

/-- What a pass with numbers refused leaves, if both passes end well. -/
theorem byName_of_configure (hn : n.Coherent) (ht : t.Built)
    (hroom : n.nodes.length + terminalCount ds ≤ Ident.limit) {summary summary' : Summary}
    {ma mr : Model Network}
    (ha : (configure Network.builder site ds).runFrom ⟨n.withLiterals true, t⟩ = (.ok summary, ma))
    (hr : (configure Network.builder site ds).runFrom ⟨n.withLiterals false, t⟩ =
      (.ok summary', mr))
    (hnew : ∀ s ∈ walk ds, s.literal?.isSome → s.derivedName ∉ t.names) : ByName n ds ma mr := by
  obtain ⟨-, hta, hca, -⟩ := (configure_eq_ok_iff (n := n.withLiterals true) hn ht hroom).mp ha
  obtain ⟨hfresh, htr, hcr, -⟩ :=
    (configure_eq_ok_iff (n := n.withLiterals false) hn ht hroom).mp hr
  have hfresh : Fresh n ds := ⟨hfresh.nodup, hfresh.vacant⟩
  have hnodup := nodup_derivedNames_walk hfresh.nodup
  obtain ⟨hconstants, hothers⟩ := filter_made_false site hnodup
  -- The entries of the table at the start are not constants of this pass.
  have hold : ∀ b ∈ t.bindings, b.1 ∉ (Setting.literals (walk ds)).map (·.1) := by
    intro b hb hmem
    simp only [Setting.literals, List.mem_map, List.mem_filterMap, Option.map_eq_some_iff] at hmem
    obtain ⟨_, ⟨s, hs, x, hx, rfl⟩, hname⟩ := hmem
    refine hnew s hs (by rw [hx]; rfl) ?_
    rw [ParameterTable.names_eq_map_bindings]
    exact List.mem_map.mpr ⟨b, hb, hname.symm⟩
  have hconstants : mr.table.bindings.filter
      (fun b => b.1 ∈ (Setting.literals (walk ds)).map (·.1)) = Setting.literals (walk ds) := by
    rw [htr.bindings ht, List.filter_append, List.filter_eq_nil_iff.mpr (by simpa using hold)]
    exact hconstants
  refine ⟨?_, ?_, hconstants, ?_⟩
  · obtain ⟨new, hblank, hna, hnr⟩ := nodes_byName hn hfresh hca hcr
    refine ⟨_, hna, hnr, ?_⟩
    intro r hr a x hx
    obtain ⟨r₀, hr₀, rfl⟩ := List.mem_map.mp hr
    obtain ⟨s, hs, hx, hname⟩ :=
      exists_literal_of_value? (hblank r₀ hr₀) hx (List.Subset.refl (walk ds))
    rw [(htr.built ht).coherent.get?_eq_some_iff, BuilderCall.terminal_allOnRecord, ← hname]
    have hin : (s.derivedName, Definition.constant x) ∈ Setting.literals (walk ds) :=
      List.mem_filterMap.mpr ⟨s, hs, by rw [hx]; rfl⟩
    rw [← hconstants] at hin
    exact List.mem_of_mem_filter hin
  · have hpa := Coherent.performed (n := n.withLiterals true) hn hca
    have hpr := Coherent.performed (n := n.withLiterals false) hn hcr
    refine ⟨_, hpa.calls, hpr.calls.trans ?_⟩
    rw [List.map_append]
    refine congrArg _ (congrArg₂ _ ?_ (handed_false (List.Subset.refl _)))
    rw [List.map_congr_left (g := id), List.map_id]
    intro c hc
    simp only [registrations, NodeDeclaration.registrations, List.mem_flatMap, List.mem_map] at hc
    obtain ⟨_, _, _, _, rfl⟩ := hc
    rfl
  · rw [hta.bindings ht, htr.bindings ht, List.filter_append,
      List.filter_eq_self.mpr (by simpa using hold)]
    exact congrArg _ hothers.symm

/-- **Refusing numbers changes the form of a model and not its meaning.** If a configuration
succeeds with a network that takes numbers, it fails with the same network refusing them just if
the derived name of a number is in the table, and then at the first such number; otherwise it
leaves the same model with its numbers by name. -/
theorem configure_byName (hn : n.Reachable) (ht : t.Built)
    (hterminals : n.nodes.length + terminalCount ds ≤ Ident.limit)
    (hentries : t.size + (made site false (walk ds)).length ≤ Ident.limit)
    {summary : Summary} {ma : Model Network}
    (ha : (configure Network.builder site ds).runFrom ⟨n.withLiterals true, t⟩ =
      (.ok summary, ma)) :
    ((∃ e, ((configure Network.builder site ds).runFrom ⟨n.withLiterals false, t⟩).1 = .error e) ↔
      ∃ s ∈ walk ds, s.literal?.isSome ∧ s.derivedName ∈ t.names) ∧
    (∀ e mr, (configure Network.builder site ds).runFrom ⟨n.withLiterals false, t⟩ =
        (.error e, mr) →
      ∃ earlier s later, walk ds = earlier ++ s :: later ∧
        (s.literal?.isSome ∧ s.derivedName ∈ t.names) ∧
        (∀ s' ∈ earlier, s'.literal?.isSome → s'.derivedName ∉ t.names) ∧
        e = .unresolved s.terminal.node s.purpose (.nameCollision s.derivedName)) ∧
    ∀ summary' mr, (configure Network.builder site ds).runFrom ⟨n.withLiterals false, t⟩ =
        (.ok summary', mr) → ByName n ds ma mr := by
  obtain ⟨hfresh, hsettles, -⟩ :=
    (configure_eq_ok_iff (n := n.withLiterals true) hn.coherent ht hterminals).mp ha
  have hfresh : Fresh (n.withLiterals false) ds := ⟨hfresh.nodup, hfresh.vacant⟩
  have hnodup := nodup_derivedNames_walk hfresh.nodup
  have hroom : t.size + (made site true (walk ds)).length ≤ Ident.limit := by
    rw [← (filter_made_false site hnodup).2]
    exact Nat.le_trans (Nat.add_le_add_left (List.length_filter_le ..) _) hentries
  have hadmissible := (exists_settles_iff ht hroom hnodup).mp ⟨_, hsettles⟩
  have hsucceeds := succeeds_iff_configurable (n := n.withLiterals false) (hn.withLiterals false) ht
    hterminals hentries
  -- With numbers refused, only a collision can be in the way.
  have hok : Configurable (n.withLiterals false) t site ds ↔
      ∀ s ∈ walk ds, s.literal?.isSome → s.derivedName ∉ t.names := by
    rw [configurable_iff]
    constructor
    · rintro ⟨-, hall⟩ s hs
      obtain ⟨earlier, later, hwalk⟩ := List.append_of_mem hs
      exact (admissible_false_iff (hadmissible _ _ _ hwalk)).mp (hall _ _ _ hwalk)
    · intro hall
      refine ⟨hfresh, fun earlier s later hwalk => ?_⟩
      exact (admissible_false_iff (hadmissible _ _ _ hwalk)).mpr
        (hall s (hwalk ▸ List.mem_append_right _ (List.mem_cons_self ..)))
  refine ⟨?_, fun e mr hr => ?_, fun summary' mr hr => ?_⟩
  · have hnot := not_congr (hsucceeds.trans hok)
    simp only [not_forall, not_not, exists_prop] at hnot
    rw [← hnot, exists_eq_error_iff]
  · obtain ⟨earlier, s, later, hwalk, hstop⟩ := exists_stoppedAtSetting
      (n := n.withLiterals false) hn.coherent ht hfresh hterminals hentries hr
    have hs := hadmissible _ _ _ hwalk
    have hcollides : s.literal?.isSome ∧ s.derivedName ∈ t.names := by
      have hno := hstop.inadmissible
      rw [show (n.withLiterals false).acceptsLiterals = false from rfl,
        admissible_false_iff hs] at hno
      simpa using hno
    refine ⟨earlier, s, later, hwalk, hcollides, fun s' hs' => ?_, ?_⟩
    · obtain ⟨before, between, rfl⟩ := List.append_of_mem hs'
      have hs'' := hadmissible before s' (between ++ s :: later) (by simp [hwalk])
      exact (admissible_false_iff hs'').mp (hstop.admissible before s' between rfl)
    · obtain ⟨x, hx⟩ := Option.isSome_iff_exists.mp hcollides.1
      obtain ⟨source, hsource, rfl⟩ := hstop.error
      have hfinite : Number.isFinite x = true := by
        rw [Setting.Admissible, Setting.literal?_eq_some_iff.mp hx] at hs
        exact hs.1
      have hmem : s.derivedName ∈ mr.table.names := by
        rw [hstop.resolved.names ht]
        exact List.mem_append_left _ hcollides.2
      have hcollision :=
        resolve_false_of_mem site (hstop.resolved.built ht) hx hfinite hmem
      rw [show (n.withLiterals false).acceptsLiterals = false from rfl, hcollision] at hsource
      cases hsource
      rfl
  · exact byName_of_configure hn.coherent ht hterminals ha hr
      (hok.mp (hsucceeds.mp ⟨summary', by rw [hr]⟩))

/-- The cost of the sink goes by name, and its bound is the parameter that it was. -/
theorem configure_byName_laggedCity : ∃ summary ma summary' mr,
    (configure Network.builder ⟨⟨[], []⟩, "."⟩ laggedCity).runFrom
        ⟨Network.empty.withLiterals true, .empty⟩ = (.ok summary, ma) ∧
      (configure Network.builder ⟨⟨[], []⟩, "."⟩ laggedCity).runFrom
        ⟨Network.empty.withLiterals false, .empty⟩ = (.ok summary', mr) ∧
      ByName .empty laggedCity ma mr ∧
      Setting.literals (walk laggedCity) = [("city-cost", .constant 1.5)] := by
  have hc : Configurable (Network.empty.withLiterals true) .empty ⟨⟨[], []⟩, "."⟩ laggedCity := by
    refine configurable_iff.mpr ⟨⟨by decide, fun _ _ _ hr => by cases hr⟩, ?_⟩
    rw [walk_laggedCity]
    simp only [forall_split_cons_iff, admissible_ofDelay_iff]
    refine ⟨by decide, ?_, ?_, by simp⟩
    · exact ⟨by decide, nofun⟩
    · exact List.mem_cons_self ..
  obtain ⟨summary, hsummary⟩ := (succeeds_iff_configurable (.withLiterals true .empty) .empty
    (by decide) (by decide)).mpr hc
  rcases ha : (configure Network.builder ⟨⟨[], []⟩, "."⟩ laggedCity).runFrom
    ⟨Network.empty.withLiterals true, .empty⟩ with ⟨result, ma⟩
  rw [ha] at hsummary
  obtain rfl : result = .ok summary := hsummary
  obtain ⟨herror, -, hok⟩ := configure_byName .empty .empty (by decide) (by decide) ha
  have hno : ¬ ∃ s ∈ walk laggedCity, s.literal?.isSome ∧
      s.derivedName ∈ ParameterTable.empty.names := fun ⟨_, _, _, hmem⟩ => List.not_mem_nil hmem
  rw [← herror, exists_eq_error_iff, not_not] at hno
  obtain ⟨summary', hsummary'⟩ := hno
  rcases hr : (configure Network.builder ⟨⟨[], []⟩, "."⟩ laggedCity).runFrom
    ⟨Network.empty.withLiterals false, .empty⟩ with ⟨result, mr⟩
  rw [hr] at hsummary'
  obtain rfl : result = .ok summary' := hsummary'
  exact ⟨summary, ma, summary', mr, ha, hr, hok summary' mr hr, rfl⟩

end WaterNetwork
