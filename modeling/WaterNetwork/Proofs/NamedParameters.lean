import WaterNetwork.Document.Configuration
import WaterNetwork.Proofs.Resolution

/-!
# Tables of named parameters

The table of a document lists its parameters as they stand, each with its data file named from the
directory of the model. Operands are looked for when all parameters are in the table, so it does
not matter whether a parameter comes before or after those that combine it, and `Tabular` says
which parameters make a table without speaking of an order.

* `exists_parameterTable_iff` — a document has a table just if its parameters are tabular.
* `bindings_of_parameterTable` — what the table binds to what.
* `operands_of_parameterTable` — every operand in a table of a document is the name of an entry.
  It is the name of another entry unless the parameter combines itself, which is not refused
  (`parameterTable_looped`).
-/

namespace WaterNetwork

variable {site : Site} {name : String}

/-- What a named parameter is in a table. -/
def NamedParameter.binding (site : Site) (p : NamedParameter) : String × Definition :=
  (p.name, p.definition.anchored site)

namespace ParameterTable

variable {t t' : ParameterTable} {p : NamedParameter} {ps : List NamedParameter}

theorem size_insert {d : Definition} {id : Ident} (h : t.insert name d = (.ok id, t')) :
    t'.size = t.size + 1 := by
  rw [size, entries_insert h, List.length_append, List.length_singleton, size]

/-- There is an identifier for every entry. -/
theorem Built.size_le (h : t.Built) : t.size ≤ Ident.limit := by
  cases h with
  | empty => exact Nat.zero_le _
  | @insert t₀ _ name d id h₀ hi =>
    have hid := id.inRange
    rw [(insert_eq_ok hi).2.1] at hid
    rw [size_insert hi, Ident.limit]
    omega

/-! ### Adding parameters -/

theorem addNamed_cons_eq_ok_iff :
    addNamed site (p :: ps) t = .ok t' ↔
      p.definition.check = .ok () ∧ p.definition.HasFile site ∧
        ∃ id t₁, t.insert p.name (p.definition.anchored site) = (.ok id, t₁) ∧
          addNamed site ps t₁ = .ok t' := by
  rw [addNamed]
  cases hp : p.definition.prepare site p.name with
  | error e =>
    constructor
    · intro h
      cases h
    · rintro ⟨hcheck, hfile, -⟩
      rw [Definition.prepare_eq_ok_iff.mpr ⟨hcheck, hfile, rfl⟩] at hp
      cases hp
  | ok d =>
    obtain ⟨hcheck, hfile, rfl⟩ := Definition.prepare_eq_ok_iff.mp hp
    rcases hi : t.insert p.name (p.definition.anchored site) with ⟨e | id, t₁⟩ <;>
      simp [bind, Except.bind, hi, hcheck, hfile]

/-- Adding parameters stops at the first that is not prepared or whose name is refused. -/
theorem addNamed_cons_eq_error_iff {e : ParameterError} :
    addNamed site (p :: ps) t = .error e ↔
      p.definition.prepare site p.name = .error e ∨
        ∃ d, p.definition.prepare site p.name = .ok d ∧
          (t.insert p.name d = (.error e, t) ∨
            ∃ id t₁, t.insert p.name d = (.ok id, t₁) ∧ addNamed site ps t₁ = .error e) := by
  rw [addNamed]
  cases p.definition.prepare site p.name with
  | error e' => simp [bind, Except.bind]
  | ok d =>
    simp only [bind, Except.bind]
    rcases hi : t.insert p.name d with ⟨e' | id, t₁⟩
    · obtain rfl := eq_of_insert_error hi
      simp [hi]
    · simp [hi]

/-- What is added is there as it was prepared, in the same order. -/
theorem bindings_of_addNamed (ht : t.Built) (h : addNamed site ps t = .ok t') :
    t'.Built ∧ t'.bindings = t.bindings ++ ps.map (·.binding site) := by
  induction ps generalizing t with
  | nil =>
    cases h
    exact ⟨ht, by simp⟩
  | cons p ps ih =>
    obtain ⟨-, -, id, t₁, hi, h⟩ := addNamed_cons_eq_ok_iff.mp h
    obtain ⟨hbuilt, hbindings⟩ := ih (ht.insert hi) h
    refine ⟨hbuilt, ?_⟩
    rw [hbindings, bindings_insert hi, List.append_assoc]
    rfl

theorem names_of_addNamed (h : addNamed site ps .empty = .ok t) :
    t.names = ps.map (·.name) := by
  rw [names_eq_map_bindings, (bindings_of_addNamed .empty h).2, List.map_append, List.map_map]
  rfl

/-- Parameters can be added to a table if their names are different and new, their definitions are
prepared, and there is room. -/
theorem exists_addNamed_iff (ht : t.Built) :
    (∃ t', addNamed site ps t = .ok t') ↔
      t.size + ps.length ≤ Ident.limit ∧ (t.names ++ ps.map (·.name)).Nodup ∧
        ∀ p ∈ ps, p.definition.check = .ok () ∧ p.definition.HasFile site := by
  induction ps generalizing t with
  | nil => simpa [addNamed, ht.size_le] using ht.coherent.nodup_names
  | cons p ps ih =>
    simp only [addNamed_cons_eq_ok_iff, List.forall_mem_cons, List.map_cons, List.length_cons]
    constructor
    · rintro ⟨t', hcheck, hfile, id, t₁, hi, h⟩
      obtain ⟨hroom, hnodup, hall⟩ := (ih (ht.insert hi)).mp ⟨t', h⟩
      rw [names_insert hi, List.append_assoc] at hnodup
      rw [size_insert hi] at hroom
      exact ⟨by omega, hnodup, ⟨hcheck, hfile⟩, hall⟩
    · rintro ⟨hroom, hnodup, ⟨hcheck, hfile⟩, hall⟩
      have hnew : p.name ∉ t.names := fun hmem =>
        List.disjoint_of_nodup_append hnodup hmem (List.mem_cons_self ..)
      obtain ⟨id, t₁, hi⟩ := exists_insert (p.definition.anchored site)
        (ht.coherent.contains_eq_false_iff.mpr hnew) (by omega)
      have hroom₁ : t₁.size + ps.length ≤ Ident.limit := by
        rw [size_insert hi]
        omega
      rw [List.append_cons, ← names_insert hi] at hnodup
      obtain ⟨t', h⟩ := (ih (ht.insert hi)).mpr ⟨hroom₁, hnodup, hall⟩
      exact ⟨t', hcheck, hfile, id, t₁, hi, h⟩

/-- Operands are looked for among all names of a table. -/
theorem checkReferences_eq_ok_iff (h : t.Coherent) :
    t.checkReferences = .ok () ↔ ∀ b ∈ t.bindings, ∀ r, b.2.Operand r → r ∈ t.names := by
  rw [checkReferences, h.requireAll_eq_ok_iff, bindings]
  simp only [List.forall_mem_map, List.mem_flatMap, Definition.mem_references_iff]
  constructor
  · intro hall e he r hr
    exact hall r ⟨e, he, hr⟩
  · rintro hall r ⟨e, he, hr⟩
    exact hall e he r hr

end ParameterTable

open ParameterTable

/-! ### Parameters that make a table -/

/-- **Parameters that make a table**: there is an identifier for each, their names are different,
their definitions are sound and have their data files, and they combine nothing but each other. -/
structure Tabular (site : Site) (ps : List NamedParameter) : Prop where
  room : ps.length ≤ Ident.limit
  nodup : (ps.map (·.name)).Nodup
  sound : ∀ p ∈ ps, p.definition.Sound
  file : ∀ p ∈ ps, p.definition.HasFile site
  closed : ∀ p ∈ ps, ∀ r, p.definition.Operand r → ∃ q ∈ ps, q.name = r

theorem Tabular.perm {ps qs : List NamedParameter} (h : Tabular site ps) (hperm : ps.Perm qs) :
    Tabular site qs where
  room := hperm.length_eq ▸ h.room
  nodup := (hperm.map _).nodup h.nodup
  sound p hp := h.sound p (hperm.mem_iff.mpr hp)
  file p hp := h.file p (hperm.mem_iff.mpr hp)
  closed p hp r hr := by
    obtain ⟨q, hq, hname⟩ := h.closed p (hperm.mem_iff.mpr hp) r hr
    exact ⟨q, hperm.mem_iff.mp hq, hname⟩

namespace Document

variable {d : Document} {t : ParameterTable}

theorem parameterTable_eq_ok_iff :
    d.parameterTable site = .ok t ↔
      addNamed site d.parameters .empty = .ok t ∧ t.checkReferences = .ok () := by
  rw [parameterTable]
  cases hadd : addNamed site d.parameters .empty with
  | error e => simp [bind, Except.bind]
  | ok t₀ =>
    simp only [bind, Except.bind, Except.ok.injEq]
    cases hrefs : t₀.checkReferences with
    | error e =>
      constructor
      · intro h
        cases h
      · rintro ⟨rfl, h⟩
        rw [hrefs] at h
        cases h
    | ok u =>
      constructor
      · intro h
        cases h
        exact ⟨rfl, hrefs⟩
      · rintro ⟨rfl, -⟩
        rfl

theorem parameterTable_eq_error_iff {e : ParameterError} :
    d.parameterTable site = .error e ↔
      addNamed site d.parameters .empty = .error e ∨
        ∃ t, addNamed site d.parameters .empty = .ok t ∧ t.checkReferences = .error e := by
  rw [parameterTable]
  cases addNamed site d.parameters .empty with
  | error e' => simp [bind, Except.bind]
  | ok t =>
    simp only [bind, Except.bind]
    cases ht : t.checkReferences with
    | error e' => simp [ht]
    | ok u => simp [ht, pure, Except.pure]

/-- **What the table of a document binds**: its parameters, as they stand. -/
theorem bindings_of_parameterTable (h : d.parameterTable site = .ok t) :
    t.Built ∧ t.bindings = d.parameters.map (·.binding site) :=
  bindings_of_addNamed .empty (parameterTable_eq_ok_iff.mp h).1

theorem names_of_parameterTable (h : d.parameterTable site = .ok t) :
    t.names = d.parameters.map (·.name) :=
  names_of_addNamed (parameterTable_eq_ok_iff.mp h).1

/-- Operands are looked for among the names of the document. -/
theorem checkReferences_eq_ok_iff_of_addNamed
    (h : addNamed site d.parameters .empty = .ok t) :
    t.checkReferences = .ok () ↔
      ∀ p ∈ d.parameters, ∀ r, p.definition.Operand r → ∃ q ∈ d.parameters, q.name = r := by
  obtain ⟨hbuilt, hbindings⟩ := bindings_of_addNamed .empty h
  rw [checkReferences_eq_ok_iff hbuilt.coherent, names_eq_map_bindings, hbindings]
  simp [ParameterTable.bindings, ParameterTable.empty, NamedParameter.binding]

/-- **When a document has a table**: just if its parameters make one. -/
theorem exists_parameterTable_iff :
    (∃ t, d.parameterTable site = .ok t) ↔ Tabular site d.parameters := by
  have hadd : (∃ t, addNamed site d.parameters .empty = .ok t) ↔
      d.parameters.length ≤ Ident.limit ∧ (d.parameters.map (·.name)).Nodup ∧
        ∀ p ∈ d.parameters, p.definition.Sound ∧ p.definition.HasFile site := by
    simpa [ParameterTable.size, ParameterTable.names, ParameterTable.empty,
      Definition.check_eq_ok_iff] using exists_addNamed_iff Built.empty
  simp only [parameterTable_eq_ok_iff]
  constructor
  · rintro ⟨t, h, hrefs⟩
    obtain ⟨hroom, hnodup, hall⟩ := hadd.mp ⟨t, h⟩
    exact ⟨hroom, hnodup, fun p hp => (hall p hp).1, fun p hp => (hall p hp).2,
      (checkReferences_eq_ok_iff_of_addNamed h).mp hrefs⟩
  · rintro ⟨hroom, hnodup, hsound, hfile, hclosed⟩
    obtain ⟨t, h⟩ := hadd.mpr ⟨hroom, hnodup, fun p hp => ⟨hsound p hp, hfile p hp⟩⟩
    exact ⟨t, h, (checkReferences_eq_ok_iff_of_addNamed h).mpr hclosed⟩

theorem exists_parameter_of_mem (h : d.parameterTable site = .ok t) {e : ParameterEntry}
    (he : e ∈ t.entries) :
    ∃ p ∈ d.parameters, p.name = e.name ∧ p.definition.anchored site = e.definition := by
  have hb : (e.name, e.definition) ∈ t.bindings := List.mem_map_of_mem he
  rw [(bindings_of_parameterTable h).2, List.mem_map] at hb
  obtain ⟨p, hp, heq⟩ := hb
  exact ⟨p, hp, congrArg Prod.fst heq, congrArg Prod.snd heq⟩

/-! ### What named parameters combine -/

/-- **What the entries of a document combine**: entries. They are other entries just for a
definition that does not combine itself, and nothing keeps a definition from doing so. -/
theorem operands_of_parameterTable (h : d.parameterTable site = .ok t) :
    ∀ e ∈ t.entries,
      (∀ r, e.definition.Operand r → ∃ e' ∈ t.entries, e'.name = r) ∧
      ((∀ r, e.definition.Operand r → ∃ e' ∈ t.entries, e'.name = r ∧ e' ≠ e) ↔
        ¬ e.definition.Operand e.name) := by
  have hbuilt := (bindings_of_parameterTable h).1
  have hrefs := (checkReferences_eq_ok_iff hbuilt.coherent).mp (parameterTable_eq_ok_iff.mp h).2
  intro e he
  have hentry : ∀ r, e.definition.Operand r → ∃ e' ∈ t.entries, e'.name = r := fun r hr =>
    List.mem_map.mp (hrefs (e.name, e.definition) (List.mem_map_of_mem he) r hr)
  refine ⟨hentry, ?_, ?_⟩
  · -- The names are different, so the entry itself is the only one of its name.
    intro hothers hself
    obtain ⟨e', he', hname, hne⟩ := hothers e.name hself
    exact hne (List.inj_on_of_nodup_map hbuilt.coherent.nodup_names he' he hname)
  · intro hself r hr
    obtain ⟨e', he', rfl⟩ := hentry r hr
    refine ⟨e', he', rfl, ?_⟩
    rintro rfl
    exact hself hr

/-- A sink that takes a capped inflow. The cap comes before the inflow. -/
def capped : Document where
  version := 1
  name := "net"
  parameters := [⟨"capped", .bounded .min "inflow" (some 4)⟩, ⟨"inflow", .constant 6⟩]
  nodes := [.flow .output "city" { maxFlow := some (.reference "capped") }]

theorem tabular_capped : Tabular ⟨⟨[], []⟩, "."⟩ capped.parameters where
  room := by decide
  nodup := by decide
  sound := by
    simp only [capped, List.forall_mem_cons]
    exact ⟨Definition.sound_of_check rfl, Definition.sound_of_check rfl, nofun⟩
  file := by
    simp only [capped, List.forall_mem_cons]
    exact ⟨trivial, trivial, nofun⟩
  closed := by
    simp only [capped, List.forall_mem_cons]
    refine ⟨?_, nofun, nofun⟩
    rintro _ ⟨⟩
    exact ⟨_, List.mem_cons_of_mem _ (List.mem_cons_self ..), rfl⟩

/-- The cap stays on another entry. -/
theorem operands_of_parameterTable_capped : ∃ t, capped.parameterTable ⟨⟨[], []⟩, "."⟩ = .ok t ∧
    ∃ e ∈ t.entries, e.name = "capped" ∧
      ∀ r, e.definition.Operand r → ∃ e' ∈ t.entries, e'.name = r ∧ e' ≠ e := by
  obtain ⟨t, ht⟩ := exists_parameterTable_iff.mpr tabular_capped
  have hb := (bindings_of_parameterTable ht).2
  have hmem : ("capped", Definition.bounded .min "inflow" (some 4)) ∈ t.bindings := by
    rw [hb]
    exact List.mem_cons_self ..
  obtain ⟨e, he, heq⟩ := List.mem_map.mp hmem
  obtain ⟨hname, hdef⟩ := Prod.mk.inj heq
  refine ⟨t, ht, e, he, hname, (operands_of_parameterTable ht e he).2.mpr ?_⟩
  rw [hname, hdef, ← Definition.mem_references_iff]
  decide

/-- A parameter that is its own negative. -/
def looped : Document where
  version := 1
  name := "net"
  parameters := [⟨"a", .negative "a"⟩]

/-- It has a table, in which its operand is the name of no other entry. -/
theorem parameterTable_looped : ∃ t, looped.parameterTable ⟨⟨[], []⟩, "."⟩ = .ok t ∧
    ¬ ∀ e ∈ t.entries, ∀ r, e.definition.Operand r → ∃ e' ∈ t.entries, e'.name = r ∧ e' ≠ e := by
  have htabular : Tabular ⟨⟨[], []⟩, "."⟩ looped.parameters := by
    refine ⟨by decide, by decide, ?_, ?_, ?_⟩ <;> rw [looped, List.forall_mem_singleton]
    · exact Definition.sound_of_check rfl
    · trivial
    · rintro _ ⟨⟩
      exact ⟨_, List.mem_singleton_self _, rfl⟩
  obtain ⟨t, ht⟩ := exists_parameterTable_iff.mpr htabular
  refine ⟨t, ht, fun hall => ?_⟩
  have hlength : t.entries.length = 1 := by
    rw [← ParameterTable.size, ← length_bindings, (bindings_of_parameterTable ht).2]
    rfl
  obtain ⟨e, he⟩ := List.length_eq_one_iff.mp hlength
  obtain ⟨p, hp, -, hdef⟩ := exists_parameter_of_mem ht (he ▸ List.mem_singleton_self e)
  obtain rfl := List.mem_singleton.mp hp
  obtain ⟨e', he', -, hne⟩ := hall e (he ▸ List.mem_singleton_self e) "a" (hdef ▸ .negative)
  rw [he, List.mem_singleton] at he'
  exact hne he'

end Document

/-- A definition on the spot is looked at before it is in the table, so it cannot combine itself. -/
theorem Definition.not_operand_of_materialize {d : Definition} {t t' : ParameterTable}
    {v : ConstraintValue} (ht : t.Coherent)
    (h : (d.materialize site name).runFrom t = (.ok v, t')) : ¬ d.Operand name := by
  obtain ⟨-, -, hnew, hknown, -⟩ := (materialize_eq_ok_iff ht).mp h
  exact fun hself => hnew (hknown name (mem_references_iff.mpr hself))

end WaterNetwork
