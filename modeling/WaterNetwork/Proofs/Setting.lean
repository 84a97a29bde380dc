import Mathlib.Algebra.GroupWithZero.Nat
import WaterNetwork.Network
import WaterNetwork.Proofs.Resolution

/-!
# Settings

A declaration asks for calls on a builder: one for each terminal it registers, and then, for
each field it gives, the calls that hand over the field's value. A `Setting` is such a field
with the terminal and the attribute it is for. The one field of a delay is the definition of
its parameter, as if it had been written on the spot.

* `create_eq` and `constrain_eq` — the two steps of a node are a check, followed by its
  registrations in one case and by its settings in the other.
* `configure_runFrom` — a configuration creates all nodes and then constrains all of them.
* `StepRelation.configure` — what holds across every call and every resolution, holds across a
  configuration.
-/

namespace WaterNetwork

open Attempt Configuring

variable {σ : Type}

/-! ### Calls -/

namespace Builder

/-- Make a call, whatever it yields. -/
def perform (b : Builder σ) : BuilderCall → Attempt σ NetworkError Unit
  | .addNode kind t => do let _ ← b.addNode kind t
  | .setCost t value => b.setCost t value
  | .setConstraint t role value => b.setConstraint t role value

/-- Make calls one after the other. -/
def performAll (b : Builder σ) (calls : List BuilderCall) : Attempt σ NetworkError Unit :=
  forM calls b.perform

@[simp] theorem performAll_nil (b : Builder σ) : b.performAll [] = pure () := rfl

theorem performAll_cons (b : Builder σ) (c : BuilderCall) (cs : List BuilderCall) :
    b.performAll (c :: cs) = (do b.perform c; b.performAll cs) := List.forM_cons

theorem performAll_append (b : Builder σ) (cs ds : List BuilderCall) :
    b.performAll (cs ++ ds) = (do b.performAll cs; b.performAll ds) := List.forM_append

theorem performAll_singleton (b : Builder σ) (c : BuilderCall) :
    b.performAll [c] = b.perform c := by
  rw [performAll_cons, performAll_nil, bind_pure_unit]

end Builder

namespace BuilderCall

/-- The terminal that a call is about. -/
def terminal : BuilderCall → Terminal
  | addNode _ t => t
  | setCost t _ => t
  | setConstraint t _ _ => t

/-- The value that a call hands over. -/
def value? : BuilderCall → Option ConstraintValue
  | addNode _ _ => none
  | setCost _ value => some value
  | setConstraint _ _ value => some value

end BuilderCall

/-! ### Settings -/

/-- A declared field, what its value is for, and the terminal that the value is set on. -/
structure Setting where
  terminal : Terminal
  purpose : NodeAttribute
  field : ConstraintField

namespace Setting

/-- The name of the parameter that is made for a setting. -/
def derivedName (s : Setting) : String := s.purpose.derivedName s.terminal.node

/-- The calls that hand over the value of a setting. A delay is both bounds of its terminal. -/
def calls (s : Setting) (value : ConstraintValue) : List BuilderCall :=
  match s.purpose with
  | .cost => [.setCost s.terminal value]
  | .maxFlow => [.setConstraint s.terminal .maxFlow value]
  | .minFlow => [.setConstraint s.terminal .minFlow value]
  | .delay => [.setConstraint s.terminal .maxFlow value, .setConstraint s.terminal .minFlow value]

theorem terminal_of_mem_calls {s : Setting} {value : ConstraintValue} {c : BuilderCall}
    (h : c ∈ s.calls value) : c.terminal = s.terminal := by
  unfold calls at h
  cases hs : s.purpose <;> rw [hs] at h <;> simp at h
  case delay => rcases h with rfl | rfl <;> rfl
  all_goals rw [h]; rfl

theorem value?_of_mem_calls {s : Setting} {value : ConstraintValue} {c : BuilderCall}
    (h : c ∈ s.calls value) : c.value? = some value := by
  unfold calls at h
  cases hs : s.purpose <;> rw [hs] at h <;> simp at h
  case delay => rcases h with rfl | rfl <;> rfl
  all_goals rw [h]; rfl

/-- The setting of a delay node. -/
def ofDelay (name : String) (steps : UInt64) (initialValue : Float) : Setting where
  terminal := ⟨name, some NodeDeclaration.outflow⟩
  purpose := .delay
  field := .inline (NodeDeclaration.delayDefinition name steps initialValue)

/-- Resolve a setting. -/
def resolve (site : Site) (acceptsLiterals : Bool) (s : Setting) :
    Attempt ParameterTable ParameterError ConstraintValue :=
  s.field.resolve site s.derivedName acceptsLiterals

theorem atomic_resolve (site : Site) (acceptsLiterals : Bool) (s : Setting) :
    Atomic (s.resolve site acceptsLiterals) :=
  ConstraintField.atomic_resolve site s.derivedName acceptsLiterals s.field

/-- Resolve a setting and hand its value to the builder. -/
def apply (b : Builder σ) (site : Site) (s : Setting) : Configuring σ Unit := do
  let value ← resolving s.terminal.node s.purpose fun state =>
    s.resolve site (b.acceptsLiterals state)
  call (b.performAll (s.calls value))

end Setting

/-! ### What a declaration asks for -/

namespace NodeDeclaration

/-- The terminals of a declaration under its name, with their kinds. -/
def namedTerminals (d : NodeDeclaration) : List (NodeKind × Terminal) :=
  d.terminals.map fun (kind, sub) => (kind, ⟨d.name, sub⟩)

/-- The calls that register the terminals of a declaration. -/
def registrations (d : NodeDeclaration) : List BuilderCall :=
  d.namedTerminals.map fun (kind, t) => .addNode kind t

/-- The settings of a declaration, in the order in which they are made. -/
def settings : NodeDeclaration → List Setting
  | .flow _ name constraints =>
    [NodeAttribute.cost, .maxFlow, .minFlow].filterMap fun a =>
      (constraints.field a).map fun field => ⟨⟨name, none⟩, a, field⟩
  | .delay name steps initialValue => [.ofDelay name steps initialValue]

theorem create_eq (b : Builder σ) (d : NodeDeclaration) :
    d.create b = (do
      ensure (fun m => (d.occupied? b m.builder).isNone)
        fun m => .network (.duplicateNode ⟨d.name, (d.occupied? b m.builder).join⟩)
      call (b.performAll d.registrations)) := by
  rcases d with ⟨kind, name, constraints⟩ | ⟨name, steps, initialValue⟩ <;>
    simp only [create, registrations, namedTerminals, terminals, List.map_cons, List.map_nil,
      List.forM_eq_forM, List.forM_cons, List.forM_nil, Builder.performAll_cons,
      Builder.performAll_nil, Builder.perform, call_bind, call_pure, bind_assoc]

/-- A node whose name is vacant is registered. -/
theorem runFrom_create_vacant {b : Builder σ} {d : NodeDeclaration} {m : Model σ}
    (h : d.occupied? b m.builder = none) :
    (d.create b).runFrom m = (call (b.performAll d.registrations)).runFrom m := by
  rw [create_eq, runFrom_bind_ok (runFrom_ensure_true (by rw [h]; rfl))]

/-- A node whose name is in use is not. -/
theorem runFrom_create_occupied {b : Builder σ} {d : NodeDeclaration} {m : Model σ}
    {sub : Option SubIndex} (h : d.occupied? b m.builder = some sub) :
    (d.create b).runFrom m = (.error (.network (.duplicateNode ⟨d.name, sub⟩)), m) := by
  rw [create_eq, runFrom_bind_error (runFrom_ensure_false (by rw [h]; rfl)), h]
  rfl

theorem applyAttribute_of_field_eq_some (b : Builder σ) (site : Site) (name : String)
    {c : FlowConstraints} {a : NodeAttribute} {field : ConstraintField}
    (h : c.field a = some field) :
    c.applyAttribute b site name a = Setting.apply b site ⟨⟨name, none⟩, a, field⟩ := by
  cases a with
  | delay => simp [FlowConstraints.field] at h
  | cost | maxFlow | minFlow =>
    simp only [FlowConstraints.applyAttribute, h, Setting.apply, Setting.calls,
      Builder.performAll_singleton]
    rfl

theorem forM_applyAttribute (b : Builder σ) (site : Site) (name : String) (c : FlowConstraints)
    (as : List NodeAttribute) :
    forM as (c.applyAttribute b site name) =
      forM (as.filterMap fun a => (c.field a).map fun field => ⟨⟨name, none⟩, a, field⟩)
        (Setting.apply b site) := by
  induction as with
  | nil => rfl
  | cons a as ih =>
    rw [List.forM_cons, ih]
    cases h : c.field a with
    | none =>
      rw [List.filterMap_cons_none (by simp [h])]
      simp only [FlowConstraints.applyAttribute, h, pure_bind]
    | some field =>
      rw [List.filterMap_cons_some (by rw [h]; rfl), List.forM_cons,
        applyAttribute_of_field_eq_some b site name h]

theorem constrain_eq (b : Builder σ) (site : Site) (d : NodeDeclaration) :
    d.constrain b site = (do
      ensure (fun m => d.isCreated b m.builder) fun _ => .notCreated d.name
      forM d.settings (Setting.apply b site)) := by
  cases d with
  | flow kind name constraints =>
    simp only [constrain, FlowConstraints.apply, List.forM_eq_forM, forM_applyAttribute, settings,
      FlowConstraints.applyOrder]
  | delay name steps initialValue =>
    simp only [constrain, settings, List.forM_cons, List.forM_nil, bind_pure_unit, Setting.apply,
      Setting.ofDelay, Setting.calls, Builder.performAll_cons, Builder.performAll_nil, call_bind,
      Builder.perform]
    rfl

end NodeDeclaration

/-! ### Whole passes -/

/-- The settings of a list of declarations, in the order in which a pass comes to them. -/
def walk (ds : List NodeDeclaration) : List Setting := ds.flatMap (·.settings)

/-- The terminals of a list of declarations, with their kinds. -/
def namedTerminals (ds : List NodeDeclaration) : List (NodeKind × Terminal) :=
  ds.flatMap (·.namedTerminals)

/-- The calls that register the terminals of a list of declarations. -/
def registrations (ds : List NodeDeclaration) : List BuilderCall := ds.flatMap (·.registrations)

/-- How many terminals a list of declarations has. -/
def terminalCount (ds : List NodeDeclaration) : Nat := (ds.map (·.terminals.length)).sum

theorem terminalCount_append (ds es : List NodeDeclaration) :
    terminalCount (ds ++ es) = terminalCount ds + terminalCount es := by
  simp [terminalCount]

theorem length_namedTerminals (ds : List NodeDeclaration) :
    (namedTerminals ds).length = terminalCount ds := by
  simp [namedTerminals, NodeDeclaration.namedTerminals, terminalCount, List.length_flatMap]

/-- Create all nodes. -/
def createNodes (b : Builder σ) (ds : List NodeDeclaration) : Configuring σ Unit :=
  forM ds fun d => d.create b

/-- Constrain all nodes. -/
def constrainNodes (b : Builder σ) (site : Site) (ds : List NodeDeclaration) :
    Configuring σ Unit :=
  forM ds fun d => d.constrain b site

namespace Pass

/-- A pass with all nodes created. -/
def created (ds : List NodeDeclaration) : Pass :=
  ds.map fun declaration => { declaration, stage := .created }

/-- The first phase of a new pass creates all nodes, and counts their terminals if it ends well. -/
theorem createAll_ofDeclarations (b : Builder σ) (ds : List NodeDeclaration) (m : Model σ) :
    ∃ p, createAll b (ofDeclarations ds) m =
        (((createNodes b ds).runFrom m).1.map fun _ => terminalCount ds, p,
          ((createNodes b ds).runFrom m).2) ∧
      (((createNodes b ds).runFrom m).1 = .ok () → p = created ds) := by
  induction ds generalizing m with
  | nil => exact ⟨[], rfl, fun _ => rfl⟩
  | cons d ds ih =>
    rcases hd : (d.create b).runFrom m with ⟨e | ⟨⟩, m'⟩
    · have hrun : (createNodes b (d :: ds)).runFrom m = (.error e, m') :=
        runFrom_forM_cons_error ds hd
      rw [hrun]
      simp only [ofDeclarations, List.map_cons, createAll, hd]
      exact ⟨_, rfl, fun h => by cases h⟩
    · have hrun : (createNodes b (d :: ds)).runFrom m = (createNodes b ds).runFrom m' :=
        runFrom_forM_cons_ok ds hd
      obtain ⟨p, hp, hc⟩ := ih m'
      rw [hrun]
      simp only [ofDeclarations, List.map_cons, createAll, hd] at hp ⊢
      rw [hp]
      refine ⟨{ declaration := d, stage := .created } :: p, ?_, fun h => by rw [hc h]; rfl⟩
      cases ((createNodes b ds).runFrom m').1 <;> simp [Except.map, terminalCount]

/-- The second phase constrains all nodes, if all of them have been created. -/
theorem constrainAll_created (b : Builder σ) (site : Site) (ds : List NodeDeclaration)
    (m : Model σ) :
    ∃ p, constrainAll b site (created ds) m =
      (((constrainNodes b site ds).runFrom m).1, p, ((constrainNodes b site ds).runFrom m).2) := by
  induction ds generalizing m with
  | nil => exact ⟨[], rfl⟩
  | cons d ds ih =>
    rcases hd : (d.constrain b site).runFrom m with ⟨e | ⟨⟩, m'⟩
    · have hrun : (constrainNodes b site (d :: ds)).runFrom m = (.error e, m') :=
        runFrom_forM_cons_error ds hd
      rw [hrun]
      simp only [created, List.map_cons, constrainAll, hd]
      exact ⟨_, rfl⟩
    · have hrun : (constrainNodes b site (d :: ds)).runFrom m =
          (constrainNodes b site ds).runFrom m' := runFrom_forM_cons_ok ds hd
      obtain ⟨p, hp⟩ := ih m'
      rw [hrun]
      simp only [created, List.map_cons, constrainAll, hd] at hp ⊢
      rw [hp]
      exact ⟨_, rfl⟩

end Pass

/-- A configuration creates all nodes and then constrains all of them, and sums up what it did. -/
theorem configure_runFrom (b : Builder σ) (site : Site) (ds : List NodeDeclaration) (m : Model σ) :
    (configure b site ds).runFrom m =
      let (result, m') := (do createNodes b ds; constrainNodes b site ds).runFrom m
      (result.map fun _ =>
        { nodes := ds.length, terminals := terminalCount ds,
          parametersAdded := m'.table.size - m.table.size }, m') := by
  obtain ⟨p, hp, hc⟩ := Pass.createAll_ofDeclarations b ds m
  rw [runFrom_bind]
  show Pass.run b site (.ofDeclarations ds) m = _
  rcases h : (createNodes b ds).runFrom m with ⟨e | ⟨⟩, m'⟩
  · rw [h] at hp
    simp only [Pass.run, hp, Except.map]
  · rw [h] at hp hc
    obtain ⟨q, hq⟩ := Pass.constrainAll_created b site ds m'
    rw [hc rfl] at hp
    simp only [Pass.run, hp, hq, Except.map]
    rcases (constrainNodes b site ds).runFrom m' with ⟨e | ⟨⟩, m''⟩
    · rfl
    · simp [Pass.ofDeclarations]

/-! ### What all steps of a configuration do -/

/-- **A relation that holds across every step** of a configuration: a call on the builder,
whether it succeeds or not, and a setting that resolves. -/
structure StepRelation (b : Builder σ) (site : Site) (R : Model σ → Model σ → Prop) : Prop where
  refl : ∀ m, R m m
  trans : ∀ ⦃m₁ m₂ m₃⦄, R m₁ m₂ → R m₂ m₃ → R m₁ m₃
  call : ∀ (c : BuilderCall) m, R m { m with builder := ((b.perform c).runFrom m.builder).2 }
  resolve : ∀ {m s v table},
    (Setting.resolve site (b.acceptsLiterals m.builder) s).runFrom m.table = (.ok v, table) →
      R m { m with table }

namespace StepRelation

variable {b : Builder σ} {site : Site} {R : Model σ → Model σ → Prop}

theorem performAll (h : StepRelation b site R) (cs : List BuilderCall) :
    Respects R (Configuring.call (b.performAll cs)) := by
  induction cs with
  | nil => exact h.refl
  | cons c cs ih =>
    rw [Builder.performAll_cons, call_bind]
    exact .bind h.trans (respects_call (h.call c)) fun _ => ih

theorem apply (h : StepRelation b site R) (s : Setting) : Respects R (s.apply b site) := by
  refine .bind h.trans (respects_resolving fun m => ?_) fun v => h.performAll (s.calls v)
  rcases hs : (s.resolve site (b.acceptsLiterals m.builder)).runFrom m.table with ⟨e | v, table⟩
  · rw [s.atomic_resolve site _ _ _ _ hs]
    exact h.refl m
  · exact h.resolve hs

theorem create (h : StepRelation b site R) (d : NodeDeclaration) : Respects R (d.create b) := by
  rw [d.create_eq]
  exact .bind h.trans (respects_ensure h.refl) fun _ => h.performAll d.registrations

theorem constrain (h : StepRelation b site R) (d : NodeDeclaration) :
    Respects R (d.constrain b site) := by
  rw [d.constrain_eq]
  exact .bind h.trans (respects_ensure h.refl) fun _ =>
    .forM h.refl h.trans fun s _ => h.apply s

/-- Such a relation holds across a whole configuration, however it ends. -/
theorem configure (h : StepRelation b site R) (ds : List NodeDeclaration) :
    Respects R (configure b site ds) := by
  intro m
  rw [configure_runFrom]
  exact Respects.bind h.trans (.forM h.refl h.trans fun d _ => h.create d)
    (fun _ => .forM h.refl h.trans fun d _ => h.constrain d) m

end StepRelation

end WaterNetwork
