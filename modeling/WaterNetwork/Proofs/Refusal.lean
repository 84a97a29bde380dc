import WaterNetwork.Network
import WaterNetwork.Proofs.Resolution
import WaterNetwork.Session

/-!
# What a field is refused for

To resolve a field is to make several checks one after the other, and the first that fails decides
what is reported. `Refused` lists the faults, each with what has to have gone well before it; so a
definition under a name that is taken is reported as a collision, whatever else is wrong with it,
and a number that is not finite is reported before its derived name is looked at.

* `resolve_eq_error_iff` — what is reported of a field is the fault that is listed.
* `gains_of_insert` — an insertion adds one entry at the end, and other names find what they found.
* `Session.resolve_outcome` — a field that is refused changes nothing, and one that resolves adds
  at most its own definition.
-/

namespace WaterNetwork

open Attempt

variable {site : Site} {t t' : ParameterTable} {name : String} {v : ConstraintValue}
  {e : ParameterError}

/-! ### Definitions -/

namespace Definition

variable {d : Definition}

/-- **Why a data file is refused**: nothing or no regular file stands at its place, or the place
cannot be looked at. -/
inductive FileRefused (site : Site) (name : String) : Definition → ParameterError → Prop where
  | absent {url : Path} {column : Option String} :
    site.files.inspect (site.path.join url) = .error .notFound →
    FileRefused site name (.timeseries url column) (.missingDataFile name (site.path.join url))
  | irregular {url : Path} {column : Option String} {entry : FileEntry} :
    site.files.inspect (site.path.join url) = .ok entry → (∀ bytes, entry ≠ .file bytes) →
    FileRefused site name (.timeseries url column) (.missingDataFile name (site.path.join url))
  | unreadable {url : Path} {column : Option String} {fault : FileFault} :
    site.files.inspect (site.path.join url) = .error fault → fault ≠ .notFound →
    FileRefused site name (.timeseries url column)
      (.unreadableDataFile name (site.path.join url) fault)

theorem anchor_eq_error_iff : d.anchor site name = .error e ↔ d.FileRefused site name e := by
  constructor
  · intro h
    cases d with
    | timeseries url column =>
      unfold anchor at h
      dsimp only at h
      cases hi : site.files.inspect (site.path.join url) with
      | error fault =>
        by_cases hf : fault = .notFound
        · subst hf
          rw [hi] at h
          cases h
          exact .absent hi
        · rw [hi] at h
          cases fault with
          | notFound => exact absurd rfl hf
          | _ => cases h; exact .unreadable hi hf
      | ok entry =>
        rw [hi] at h
        cases entry with
        | file bytes => cases h
        | directory | device | closed | loop => cases h; exact .irregular hi nofun
    | _ => cases h
  · intro h
    cases h with
    | absent hi =>
      unfold anchor
      simp only [hi]
    | @irregular url column entry hi hentry =>
      cases entry with
      | file bytes => exact absurd rfl (hentry bytes)
      | directory | device | closed | loop =>
        unfold anchor
        simp only [hi]
    | @unreadable url column fault hi hf =>
      cases fault with
      | notFound => exact absurd rfl hf
      | _ =>
        unfold anchor
        simp only [hi]

/-- **Why a definition is refused**, in the order in which it is looked at: its name is taken, it
does not pass its check, its data file is refused, or the first operand that the table does not
have is unknown. -/
inductive Refused (site : Site) (name : String) (t : ParameterTable) (d : Definition) :
    ParameterError → Prop where
  | taken : name ∈ t.names → Refused site name t d (.nameCollision name)
  | unsound {source : ValueError} : name ∉ t.names → d.check = .error source →
    Refused site name t d (.invalid name source)
  | file {e : ParameterError} : name ∉ t.names → d.check = .ok () → d.FileRefused site name e →
    Refused site name t d e
  | operand {missing : String} : name ∉ t.names → d.check = .ok () → d.HasFile site →
    d.references.find? (· ∉ t.names) = some missing →
    Refused site name t d (.unknownParameter missing)

/-- What is reported of a definition is the fault that is listed. -/
theorem refused_of_materialize (h : t.Coherent) (hroom : t.size < Ident.limit)
    (he : (d.materialize site name).runFrom t = (.error e, t)) : d.Refused site name t e := by
  by_cases hn : name ∈ t.names
  · rw [d.materialize_of_contains (h.contains_iff.mpr hn)] at he
    cases he
    exact .taken hn
  · have hnew := h.contains_eq_false_iff.mpr hn
    rw [d.materialize_of_new hnew] at he
    cases hc : d.check with
    | error source =>
      rw [prepare_of_check_error hc] at he
      cases he
      exact .unsound hn hc
    | ok u =>
      rw [prepare_of_check_ok hc] at he
      cases ha : d.anchor site name with
      | error fault =>
        rw [ha] at he
        cases he
        exact .file hn hc (anchor_eq_error_iff.mp ha)
      | ok anchored =>
        obtain ⟨hfile, rfl⟩ := anchor_eq_ok_iff.mp ha
        simp only [ha, references_anchored] at he
        cases hr : t.requireAll d.references with
        | error fault =>
          obtain ⟨missing, hmissing, rfl⟩ := h.requireAll_eq_error_iff.mp hr
          rw [hr] at he
          cases he
          exact .operand hn hc hfile hmissing
        | ok u =>
          obtain ⟨id, t', hi⟩ := ParameterTable.exists_insert (d.anchored site) hnew hroom
          simp only [hr, hi] at he
          cases he

/-- A fault that is listed is reported. -/
theorem Refused.materialize (h : t.Coherent) (hd : d.Refused site name t e) :
    (d.materialize site name).runFrom t = (.error e, t) := by
  cases hd with
  | taken hn => exact d.materialize_of_contains (h.contains_iff.mpr hn)
  | unsound hn hc =>
    rw [d.materialize_of_new (h.contains_eq_false_iff.mpr hn), prepare_of_check_error hc]
  | file hn hc hf =>
    rw [d.materialize_of_new (h.contains_eq_false_iff.mpr hn), prepare_of_check_ok hc,
      anchor_eq_error_iff.mpr hf]
  | operand hn hc hfile hmissing =>
    have hr := h.requireAll_eq_error_iff.mpr ⟨_, hmissing, rfl⟩
    rw [d.materialize_of_new (h.contains_eq_false_iff.mpr hn), prepare_of_check_ok hc,
      anchor_eq_ok_iff.mpr ⟨hfile, rfl⟩]
    simp only [references_anchored, hr]

end Definition

/-! ### Fields -/

namespace ConstraintField

variable {field : ConstraintField} {derivedName : String} {accepts : Bool}

/-- **Why a field is refused**: a number that is not finite, before anything else is looked at; a
name that the table does not have; or the definition that is to be put into the table. -/
inductive Refused (site : Site) (derivedName : String) (accepts : Bool) (t : ParameterTable) :
    ConstraintField → ParameterError → Prop where
  | number {x : Float} : Number.isFinite x = false →
    Refused site derivedName accepts t (.literal x)
      (.invalid derivedName (.nonFinite "constraint literal" x))
  | constant {x : Float} {e : ParameterError} : Number.isFinite x = true → accepts = false →
    (Definition.constant x).Refused site derivedName t e →
    Refused site derivedName accepts t (.literal x) e
  | reference {name : String} : name ∉ t.names →
    Refused site derivedName accepts t (.reference name) (.unknownParameter name)
  | inline {d : Definition} {e : ParameterError} : d.Refused site derivedName t e →
    Refused site derivedName accepts t (.inline d) e

/-- A finite number that a builder refuses is its constant, defined on the spot. -/
theorem resolve_literal_of_refusing {x : Float} (hx : Number.isFinite x = true) :
    (literal x).resolve site derivedName false =
      (inline (.constant x)).resolve site derivedName false := by
  simp [resolve, ensureFinite, hx]

/-- What is reported of a field is the fault that is listed. -/
theorem refused_of_resolve (h : t.Coherent) (hroom : t.size < Ident.limit)
    (he : (field.resolve site derivedName accepts).runFrom t = (.error e, t)) :
    field.Refused site derivedName accepts t e := by
  cases field with
  | literal x =>
    cases hx : Number.isFinite x with
    | false =>
      simp only [resolve, ensureFinite, hx, Bool.false_eq_true, if_false] at he
      cases he
      exact .number hx
    | true =>
      cases accepts with
      | true => simp [resolve, ensureFinite, hx, runFrom_pure] at he
      | false =>
        rw [resolve_literal_of_refusing hx] at he
        exact .constant hx rfl (Definition.refused_of_materialize h hroom he)
  | reference name =>
    by_cases hn : name ∈ t.names
    · obtain ⟨id, hid⟩ := h.exists_require_iff.mpr hn
      rw [runFrom_resolve_reference, hid] at he
      cases he
    · rw [runFrom_resolve_reference, h.require_of_not_mem hn] at he
      cases he
      exact .reference hn
  | inline d => exact .inline (Definition.refused_of_materialize h hroom he)

/-- A fault that is listed is reported. -/
theorem Refused.resolve (h : t.Coherent) (hf : field.Refused site derivedName accepts t e) :
    (field.resolve site derivedName accepts).runFrom t = (.error e, t) := by
  cases hf with
  | number hx => simp [ConstraintField.resolve, ensureFinite, hx, runFrom_throw]
  | constant hx hrefuses hd =>
    subst hrefuses
    rw [resolve_literal_of_refusing hx]
    exact hd.materialize h
  | reference hn =>
    rw [runFrom_resolve_reference, h.require_of_not_mem hn]
    rfl
  | inline hd => exact hd.materialize h

/-- As long as there is room, a field is refused for just the fault that is listed. -/
theorem resolve_eq_error_iff (h : t.Coherent) (hroom : t.size < Ident.limit) :
    (field.resolve site derivedName accepts).runFrom t = (.error e, t) ↔
      field.Refused site derivedName accepts t e :=
  ⟨refused_of_resolve h hroom, fun hf => hf.resolve h⟩

end ConstraintField

/-! ### What resolving does to the table -/

/-- **A table that has gained an entry**, at its end and under a new name. The entry is found under
this name, and every other name finds what it found. -/
structure ParameterTable.Gains (t : ParameterTable) (name : String) (d : Definition)
    (t' : ParameterTable) : Prop where
  new : name ∉ t.names
  entries : ∃ id : Ident, id.index = t.size ∧ t'.entries = t.entries ++ [⟨id, name, d⟩]
  get? : t'.get? name = some d
  others : ∀ other, other ≠ name →
    t'.entry? other = t.entry? other ∧ t'.require other = t.require other

theorem ParameterTable.gains_of_insert {d : Definition} {id : Ident} (ht : t.Coherent)
    (h : t.insert name d = (.ok id, t')) : t.Gains name d t' := by
  have ht' := ht.insert h
  have hentries := entries_insert h
  obtain ⟨hnew, hid, hinsert⟩ := insert_eq_ok h
  refine ⟨ht.contains_eq_false_iff.mp hnew, ⟨id, hid, hentries⟩, ?_, fun other hother => ⟨?_, ?_⟩⟩
  · rw [ht'.get?_eq_some_iff, bindings_insert h]
    exact List.mem_append_right _ (List.mem_singleton_self _)
  · refine Option.ext fun entry => ?_
    rw [ht'.entry?_eq_some_iff, ht.entry?_eq_some_iff, hentries, List.mem_append,
      List.mem_singleton]
    constructor
    · rintro ⟨hmem | rfl, hname⟩
      · exact ⟨hmem, hname⟩
      · exact absurd hname hother.symm
    · rintro ⟨hmem, hname⟩
      exact ⟨.inl hmem, hname⟩
  · rw [require, require, hinsert]
    simp [Std.HashMap.getElem?_insert, hother.symm]

/-- A session resolves a field against its table. -/
theorem Session.resolve_eq {σ : Type} (s : Session σ) (path? : Option Path) (derivedName : String)
    (field : ConstraintField) :
    s.resolve path? derivedName field =
      let run := (field.resolve (s.siteAt path?) derivedName
        (s.builder.acceptsLiterals s.model.builder)).runFrom s.model.table
      (run.1, { s with model := { s.model with table := run.2 } }) := rfl

/-- **What comes of resolving a field**, as long as there is room for one more entry. What is
reported is the fault that is listed, and then nothing is changed. Otherwise the table stays as it
was or gains the definition that the field makes, under the derived name. For a builder that
refuses numbers, a finite number is its constant, defined on the spot. -/
theorem Session.resolve_outcome {σ : Type} (s : Session σ) (path? : Option Path)
    (derivedName : String) (field : ConstraintField) (ht : s.model.table.Built)
    (hroom : s.model.table.size < Ident.limit) :
    (∀ e, (s.resolve path? derivedName field).1 = .error e ↔
      field.Refused (s.siteAt path?) derivedName (s.builder.acceptsLiterals s.model.builder)
        s.model.table e) ∧
    (∀ e s', s.resolve path? derivedName field = (.error e, s') → s' = s) ∧
    (∀ v s', s.resolve path? derivedName field = (.ok v, s') →
      v = field.value derivedName (s.builder.acceptsLiterals s.model.builder) ∧
      ∃ t', s' = { s with model := { s.model with table := t' } } ∧
        (field.made? (s.siteAt path?) (s.builder.acceptsLiterals s.model.builder) = none ∧
            t' = s.model.table ∨
          ∃ d, field.made? (s.siteAt path?) (s.builder.acceptsLiterals s.model.builder) = some d ∧
            s.model.table.Gains derivedName d t')) ∧
    ∀ x, Number.isFinite x = true → s.builder.acceptsLiterals s.model.builder = false →
      s.resolve path? derivedName (.literal x) =
        s.resolve path? derivedName (.inline (.constant x)) := by
  have hrun := s.resolve_eq path? derivedName field
  rcases hfield : (field.resolve (s.siteAt path?) derivedName
    (s.builder.acceptsLiterals s.model.builder)).runFrom s.model.table with ⟨result, t'⟩
  rw [hfield] at hrun
  refine ⟨fun e => ?_, fun e s' h => ?_, fun v s' h => ?_, fun x hx hrefuses => ?_⟩
  · rw [← ConstraintField.resolve_eq_error_iff ht.coherent hroom,
      (ConstraintField.atomic_resolve _ _ _ field).runFrom_eq_error_iff, hfield, hrun]
  · rw [hrun] at h
    cases h
    rw [ConstraintField.atomic_resolve _ _ _ field _ e t' hfield]
  · rw [hrun] at h
    cases h
    obtain ⟨-, hv, hadds⟩ := (ConstraintField.resolve_eq_ok_iff ht.coherent).mp hfield
    refine ⟨hv, t', rfl, ?_⟩
    unfold ConstraintField.Adds at hadds
    split at hadds
    · rename_i hmade
      exact .inl ⟨hmade, hadds⟩
    · rename_i d hmade
      obtain ⟨id, hi⟩ := hadds
      exact .inr ⟨d, hmade, ParameterTable.gains_of_insert ht.coherent hi⟩
  · rw [resolve, resolve, hrefuses, ConstraintField.resolve_literal_of_refusing hx]

/-- A session on a network that refuses numbers. -/
def Session.refusing (t : ParameterTable) : Session Network where
  builder := Network.builder
  model := ⟨Network.empty.withLiterals false, t⟩
  declarations := []
  pass := []
  site := ⟨⟨[], []⟩, "."⟩

/-- A name that is taken is reported before an aggregation of nothing; under a new name, a number
becomes a constant. -/
theorem Session.resolve_outcome_taken : ∃ s s' : Session Network,
    s.resolve none "dam-cost" (.inline (.aggregated [] .sum)) =
        (.error (.nameCollision "dam-cost"), s) ∧
      s.resolve none "city-cost" (.literal 1.5) = (.ok (.parameter "city-cost"), s') ∧
      s.model.table.Gains "city-cost" (.constant 1.5) s'.model.table := by
  have hnew : ParameterTable.empty.contains "dam-cost" = false :=
    ParameterTable.coherent_empty.contains_eq_false_iff.mpr List.not_mem_nil
  obtain ⟨id, t, hi⟩ := ParameterTable.exists_insert (.constant 3) hnew (by decide)
  have ht : t.Built := .insert .empty hi
  have hnames : t.names = ["dam-cost"] := ParameterTable.names_insert hi
  have hroom : t.size < Ident.limit := by
    rw [← ParameterTable.length_bindings, ParameterTable.bindings_insert hi]
    show 1 < Ident.limit
    decide
  have hdam :=
    resolve_outcome (.refusing t) none "dam-cost" (.inline (.aggregated [] .sum)) ht hroom
  have hcity := resolve_outcome (.refusing t) none "city-cost" (.literal 1.5) ht hroom
  have htaken := (hdam.1 _).mpr (.inline (.taken (by simp [refusing, hnames])))
  have hfine : ∀ e,
      ¬ (ConstraintField.literal 1.5).Refused ⟨⟨[], []⟩, "."⟩ "city-cost" false t e := by
    rintro e (hx | ⟨-, -, hd⟩)
    · revert hx
      decide
    · cases hd with
      | taken hmem => simp [hnames] at hmem
      | unsound _ hc => cases hc
      | file _ _ hf => cases hf
      | operand _ _ _ hmissing => cases hmissing
  rcases hrun : (refusing t).resolve none "city-cost" (.literal 1.5) with ⟨e | v, s'⟩
  · exact absurd ((hcity.1 e).mp (by rw [hrun])) (hfine e)
  · obtain ⟨rfl, t', rfl, ⟨hmade, -⟩ | ⟨d, hmade, hgains⟩⟩ := hcity.2.2.1 v s' hrun
    · cases hmade
    · cases hmade
      exact ⟨_, _, Prod.ext htaken (hdam.2.1 _ _ (Prod.ext htaken rfl)), hrun, hgains⟩

end WaterNetwork
