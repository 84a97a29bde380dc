import Mathlib.Logic.Relation
import WaterNetwork.Proofs.NamedParameters
import WaterNetwork.Proofs.Settlement

/-!
# Well-formed tables

A table is well formed if its definitions are sound and combine nothing that is not there. An
insertion checks neither, so this is a matter of what leads to insertions: a document checks its
definitions before and their operands after; a field checks both before, so that what it adds
combines earlier entries only (`Grows`).

* `Grows.extendedBy` — what is added to a well-formed table leaves it well formed and is combined
  by nothing that was there before; `ExtendedBy.acyclic` — so it lies on no cycle.
* `stepRelation_grows` — tables grow in this way across every step of a configuration, and so
  across all of it, whether it succeeds or not.
* `Document.wellFormed_of_parameterTable` — the tables of documents are well formed.
-/

namespace WaterNetwork

variable {site : Site} {name : String} {d : Definition}

namespace ParameterTable

variable {t t' t₁ t₂ : ParameterTable} {e : ParameterEntry} {added : List ParameterEntry}

/-- **Well-formedness**: the names are different, the definitions are sound, and their operands
are in the table. -/
structure WellFormed (t : ParameterTable) : Prop where
  nodup : t.names.Nodup
  sound : ∀ e ∈ t.entries, e.definition.Sound
  closed : ∀ e ∈ t.entries, ∀ name, e.definition.Operand name → name ∈ t.names

/-- One parameter combines another, by their names. -/
def Combines (t : ParameterTable) (x y : String) : Prop :=
  ∃ e ∈ t.entries, e.name = x ∧ e.definition.Operand y

/-! ### Growing -/

/-- **Growth**: further insertions, each of a sound definition whose operands are there before
it. -/
inductive Grows (t : ParameterTable) : ParameterTable → Prop where
  | refl : Grows t t
  | insert {t₁ t₂ : ParameterTable} {name : String} {d : Definition} {id : Ident} :
    Grows t t₁ → d.Sound → (∀ r, d.Operand r → r ∈ t₁.names) →
    t₁.insert name d = (.ok id, t₂) → Grows t t₂

namespace Grows

theorem trans (h₁ : t.Grows t₁) (h₂ : t₁.Grows t₂) : t.Grows t₂ := by
  induction h₂ with
  | refl => exact h₁
  | insert _ hd hr hi ih => exact ih.insert hd hr hi

theorem built (h : t.Grows t') (ht : t.Built) : t'.Built := by
  induction h with
  | refl => exact ht
  | insert _ _ _ hi ih => exact ih.insert hi

/-- What a table has gained as it has grown. -/
theorem exists_added (h : t.Grows t') : ∃ added, t'.entries = t.entries ++ added ∧
    (∀ e ∈ added, e.definition.Sound) ∧
    ∀ before e after, added = before ++ e :: after → ∀ r, e.definition.Operand r →
      r ∈ t.names ++ before.map (·.name) := by
  induction h with
  | refl => exact ⟨[], by simp, nofun, by simp⟩
  | @insert t₁ t₂ name d id _ hd hr hi ih =>
    obtain ⟨added, hadded, hsound, hearlier⟩ := ih
    have hnames : t₁.names = t.names ++ added.map (·.name) := by simp [names, hadded]
    refine ⟨added ++ [⟨id, name, d⟩], ?_, ?_, ?_⟩
    · rw [entries_insert hi, hadded, List.append_assoc]
    · intro e he
      rcases List.mem_append.mp he with he | he
      · exact hsound e he
      · exact List.mem_singleton.mp he ▸ hd
    · intro before e after hsplit r her
      rcases List.eq_nil_or_concat after with rfl | ⟨after, last, rfl⟩
      · obtain ⟨rfl, heq⟩ := List.append_inj' hsplit rfl
        cases heq
        exact hnames ▸ hr r her
      · rw [List.concat_eq_append, ← List.cons_append, ← List.append_assoc] at hsplit
        exact hearlier before e after (List.append_inj' hsplit rfl).1 r her

end Grows

/-! ### What growth leaves of well-formed tables -/

/-- **A well-formed table with entries added**: it is well formed, it begins with the entries
that were there, what is added combines earlier entries only, and what was there combines
nothing of it. -/
structure ExtendedBy (t : ParameterTable) (added : List ParameterEntry) (t' : ParameterTable) :
    Prop where
  wellFormed : t'.WellFormed
  entries : t'.entries = t.entries ++ added
  earlier : ∀ before e after, added = before ++ e :: after →
    ∀ name, e.definition.Operand name → ∃ e' ∈ t.entries ++ before, e'.name = name
  uncombined : ∀ e ∈ t.entries, ∀ e' ∈ added, ¬ e.definition.Operand e'.name

theorem Grows.extendedBy (h : t.Grows t') (ht : t.Built) (hwf : t.WellFormed) :
    ∃ added, t.ExtendedBy added t' := by
  obtain ⟨added, hentries, hsound, hearlier⟩ := h.exists_added
  have hnodup := (h.built ht).coherent.nodup_names
  have hnames : t'.names = t.names ++ added.map (·.name) := by simp [names, hentries]
  refine ⟨added, ⟨hnodup, ?_, ?_⟩, hentries, ?_, ?_⟩
  · intro e he
    rw [hentries, List.mem_append] at he
    exact he.elim (hwf.sound e) (hsound e)
  · intro e he name hop
    rw [hentries, List.mem_append] at he
    rw [hnames]
    rcases he with he | he
    · exact List.mem_append_left _ (hwf.closed e he name hop)
    · obtain ⟨before, after, rfl⟩ := List.append_of_mem he
      have hmem := hearlier before e after rfl name hop
      rw [List.map_append, ← List.append_assoc]
      exact List.mem_append_left _ hmem
  · intro before e after hsplit name hop
    have hmem := hearlier before e after hsplit name hop
    rw [names, ← List.map_append] at hmem
    exact List.mem_map.mp hmem
  · intro e he e' he' hop
    rw [hnames] at hnodup
    exact List.disjoint_of_nodup_append hnodup (hwf.closed e he _ hop) (List.mem_map_of_mem he')

namespace ExtendedBy

theorem names (h : t.ExtendedBy added t') : t'.names = t.names ++ added.map (·.name) := by
  simp [ParameterTable.names, h.entries]

theorem name_not_mem (h : t.ExtendedBy added t') {before after : List ParameterEntry}
    (hsplit : added = before ++ e :: after) : e.name ∉ t.names ++ before.map (·.name) := by
  have hnodup := h.wellFormed.nodup
  rw [h.names, hsplit, List.map_append, ← List.append_assoc] at hnodup
  exact fun hmem => List.disjoint_of_nodup_append hnodup hmem (List.mem_cons_self ..)

/-- What a parameter combines comes before it, or before all that is added. -/
theorem idxOf_lt (h : t.ExtendedBy added t') (hwf : t.WellFormed) {x y : String}
    (hxy : t'.Combines x y) : t'.names.idxOf y < max (t'.names.idxOf x) t.names.length := by
  have hnames := h.names
  obtain ⟨e, he, rfl, hop⟩ := hxy
  rw [h.entries, List.mem_append] at he
  rcases he with he | he
  · have hy := hwf.closed e he y hop
    have hlt := List.idxOf_lt_length_of_mem hy
    rw [hnames, List.idxOf_append_of_mem hy]
    omega
  · obtain ⟨before, after, hsplit⟩ := List.append_of_mem he
    have hy : y ∈ t.names ++ before.map (·.name) := by
      obtain ⟨e', he', rfl⟩ := h.earlier before e after hsplit y hop
      rw [ParameterTable.names, ← List.map_append]
      exact List.mem_map_of_mem he'
    have hlt := List.idxOf_lt_length_of_mem hy
    rw [hsplit, List.map_append, List.map_cons, ← List.append_assoc] at hnames
    rw [hnames, List.idxOf_append_of_mem hy, List.idxOf_append_of_notMem (h.name_not_mem hsplit)]
    omega

/-- Nothing that is added lies on a cycle. -/
theorem acyclic (h : t.ExtendedBy added t') (hwf : t.WellFormed) (he : e ∈ added) :
    ¬ Relation.TransGen t'.Combines e.name e.name := by
  intro hcycle
  have hlt : ∀ y, Relation.TransGen t'.Combines e.name y →
      t'.names.idxOf y < max (t'.names.idxOf e.name) t.names.length := by
    intro y hpath
    induction hpath with
    | single hstep => exact h.idxOf_lt hwf hstep
    | tail _ hstep ih =>
      have hlast := h.idxOf_lt hwf hstep
      omega
  obtain ⟨before, after, hsplit⟩ := List.append_of_mem he
  have hnew : e.name ∉ t.names := fun hmem =>
    h.name_not_mem hsplit (List.mem_append_left _ hmem)
  have hself := hlt e.name hcycle
  rw [h.names, List.idxOf_append_of_notMem hnew] at hself
  omega

end ExtendedBy

end ParameterTable

/-! ### What a configuration does to a table -/

open ParameterTable

variable {t t' : ParameterTable}

/-- What a field puts into the table is sound and combines what is there. -/
theorem ConstraintField.Resolvable.sound_made {field : ConstraintField} {derivedName : String}
    {accepts : Bool} {taken known : List String}
    (h : field.Resolvable site derivedName accepts taken known)
    (hm : field.made? site accepts = some d) : d.Sound ∧ ∀ r, d.Operand r → r ∈ known := by
  cases field with
  | literal x =>
    cases accepts with
    | true => cases hm
    | false =>
      cases hm
      refine ⟨⟨fun y hy => List.mem_singleton.mp hy ▸ h.1, nofun, nofun, nofun⟩, nofun⟩
  | reference name => cases hm
  | inline d₀ =>
    cases hm
    obtain ⟨hcheck, -, -, hknown⟩ := h
    refine ⟨(Definition.check_eq_ok_iff.mp hcheck).anchored site, fun r hr => hknown r ?_⟩
    rw [← Definition.references_anchored site]
    exact Definition.mem_references_iff.mpr hr

theorem ConstraintField.grows_of_resolve {field : ConstraintField} {derivedName : String}
    {accepts : Bool} {v : ConstraintValue} (ht : t.Built)
    (h : (field.resolve site derivedName accepts).runFrom t = (.ok v, t')) : t.Grows t' := by
  obtain ⟨hr, -, hadds⟩ := (resolve_eq_ok_iff ht.coherent).mp h
  unfold Adds at hadds
  split at hadds
  · exact hadds ▸ .refl
  · rename_i hm
    obtain ⟨id, hi⟩ := hadds
    obtain ⟨hsound, hops⟩ := hr.sound_made hm
    exact .insert .refl hsound hops hi

theorem stepRelation_grows {σ : Type} (b : Builder σ) (site : Site) :
    StepRelation b site fun m m' => m.table.Built → m.table.Grows m'.table where
  refl _ _ := .refl
  trans _ _ _ h₁ h₂ ht := (h₁ ht).trans (h₂ ((h₁ ht).built ht))
  call _ _ _ := .refl
  resolve h ht := ConstraintField.grows_of_resolve ht h

/-! ### What a document does to a table -/

theorem Document.wellFormed_of_parameterTable {d : Document} (h : d.parameterTable site = .ok t) :
    t.WellFormed := by
  have hbuilt := (bindings_of_parameterTable h).1
  have htabular := exists_parameterTable_iff.mp ⟨t, h⟩
  refine ⟨hbuilt.coherent.nodup_names, fun e he => ?_, fun e he r hr => ?_⟩
  · obtain ⟨p, hp, -, hdef⟩ := exists_parameter_of_mem h he
    exact hdef ▸ (htabular.sound p hp).anchored site
  · obtain ⟨p, hp, -, hdef⟩ := exists_parameter_of_mem h he
    rw [← hdef, Definition.operand_anchored_iff] at hr
    obtain ⟨q, hq, rfl⟩ := htabular.closed p hp r hr
    rw [names_of_parameterTable h]
    exact List.mem_map_of_mem hq

/-- **Tables are well formed**: those of documents, and those that configurations leave, on any
builder and however they end. What a configuration adds lies on no cycle. -/
theorem tables_wellFormed :
    (∀ (d : Document) (site : Site) (t : ParameterTable),
      d.parameterTable site = .ok t → t.WellFormed) ∧
    ∀ {σ : Type} (b : Builder σ) (site : Site) (ds : List NodeDeclaration) (m : Model σ),
      m.table.Built → m.table.WellFormed →
      ∃ added, m.table.ExtendedBy added ((configure b site ds).runFrom m).2.table ∧
        ∀ e ∈ added, ¬ Relation.TransGen ((configure b site ds).runFrom m).2.table.Combines
          e.name e.name := by
  refine ⟨fun d site t h => Document.wellFormed_of_parameterTable h, ?_⟩
  intro σ b site ds m ht hwf
  have hgrows := (stepRelation_grows b site).configure ds m ht
  obtain ⟨added, hext⟩ := hgrows.extendedBy ht hwf
  exact ⟨added, hext, fun e he => hext.acyclic hwf he⟩

/-- A document with a constant, and a delay configured with its table. -/
theorem tables_wellFormed_lag : ∃ t added,
    Document.parameterTable { version := 1, name := "net", parameters := [⟨"base", .constant 1.5⟩] }
        ⟨⟨[], []⟩, "."⟩ = .ok t ∧
      t.WellFormed ∧
      t.ExtendedBy added ((configure Network.builder ⟨⟨[], []⟩, "."⟩ [.delay "lag" 2 0]).runFrom
        ⟨.empty, t⟩).2.table := by
  have hnew : ParameterTable.empty.contains "base" = false :=
    coherent_empty.contains_eq_false_iff.mpr List.not_mem_nil
  obtain ⟨id, t, hi⟩ := exists_insert (.constant 1.5) hnew (by decide)
  have hprepare : (Definition.constant 1.5).prepare ⟨⟨[], []⟩, "."⟩ "base" = .ok (.constant 1.5) :=
    Definition.prepare_eq_ok_iff.mpr ⟨rfl, trivial, rfl⟩
  have htable : Document.parameterTable
      { version := 1, name := "net", parameters := [⟨"base", .constant 1.5⟩] }
      ⟨⟨[], []⟩, "."⟩ = .ok t := by
    have hrefs : t.checkReferences = .ok () := by
      rw [checkReferences, entries_insert hi]
      rfl
    simp only [Document.parameterTable, addNamed, hprepare, bind, Except.bind, hi, hrefs, pure,
      Except.pure]
  have hwf := tables_wellFormed.1 _ _ t htable
  obtain ⟨added, hext, -⟩ := tables_wellFormed.2 Network.builder ⟨⟨[], []⟩, "."⟩
    [.delay "lag" 2 0] ⟨.empty, t⟩ (.insert .empty hi) hwf
  exact ⟨t, added, htable, hwf, hext⟩

end WaterNetwork
