import WaterNetwork.Proofs.Setting

/-!
# The course of a pass

A pass over declarations is a list of steps. Each step looks at the model first, and either stops
the pass or plans a list of calls and a table; then it makes these calls one after the other.
Written down with the model that each call finds, the calls of all steps are the course of the
pass: the second component of an entry is what the pass has done so far, builder and table, just
before it makes the call.

* `Step.forM_run_ofDeclarations` — a pass is the run of its steps.
-/

namespace WaterNetwork

open Attempt Configuring

variable {σ : Type}

/-! ### Steps -/

/-- A step of a pass. -/
inductive Step where
  /-- Make sure that the name of a node is not in use, and register its terminals. -/
  | create (d : NodeDeclaration)
  /-- Make sure that all terminals of a node are registered. -/
  | check (d : NodeDeclaration)
  /-- Resolve a setting, and hand over its value. -/
  | apply (s : Setting)

namespace Step

/-- What a step plans: the calls to make and the table to make them with, or why the pass stops
here. -/
def plan (b : Builder σ) (site : Site) (m : Model σ) :
    Step → Except ConfigurationError (List BuilderCall × ParameterTable)
  | create d =>
    match d.occupied? b m.builder with
    | none => .ok (d.registrations, m.table)
    | some sub => .error (.network (.duplicateNode ⟨d.name, sub⟩))
  | check d => if d.isCreated b m.builder then .ok ([], m.table) else .error (.notCreated d.name)
  | apply s =>
    match (s.resolve site (b.acceptsLiterals m.builder)).runFrom m.table with
    | (.ok v, table) => .ok (s.calls v, table)
    | (.error source, _) => .error (.unresolved s.terminal.node s.purpose source)

/-- Make the calls that a step plans. -/
def run (b : Builder σ) (site : Site) (step : Step) : Configuring σ Unit := fun m =>
  match step.plan b site m with
  | .ok (calls, table) => (call (b.performAll calls)).runFrom { m with table }
  | .error e => (.error e, m)

variable {b : Builder σ} {site : Site} {m : Model σ} {step : Step}

theorem runFrom_run_ok {calls : List BuilderCall} {table : ParameterTable}
    (h : step.plan b site m = .ok (calls, table)) :
    (step.run b site).runFrom m = (call (b.performAll calls)).runFrom { m with table } := by
  simp only [runFrom, run, h]

theorem runFrom_run_error {e : ConfigurationError} (h : step.plan b site m = .error e) :
    (step.run b site).runFrom m = (.error e, m) := by
  simp only [runFrom, run, h]

/-- The steps of a pass: all nodes are created, and then each is constrained. -/
def ofDeclarations (ds : List NodeDeclaration) : List Step :=
  ds.map create ++ ds.flatMap fun d => check d :: d.settings.map apply

/-- A step as it is written in the configuration of a node. -/
theorem run_create (b : Builder σ) (site : Site) (d : NodeDeclaration) :
    (create d).run b site = d.create b := by
  funext m
  show ((create d).run b site).runFrom m = (d.create b).runFrom m
  cases hocc : d.occupied? b m.builder with
  | none => rw [runFrom_run_ok (by rw [plan, hocc]), d.runFrom_create_vacant hocc]
  | some sub => rw [runFrom_run_error (by rw [plan, hocc]), d.runFrom_create_occupied hocc]

theorem run_check (b : Builder σ) (site : Site) (d : NodeDeclaration) :
    (check d).run b site =
      ensure (fun m => d.isCreated b m.builder) fun _ => .notCreated d.name := by
  funext m
  show ((check d).run b site).runFrom m = (ensure _ _).runFrom m
  cases h : d.isCreated b m.builder with
  | true =>
    rw [runFrom_run_ok (by rw [plan, if_pos h]), runFrom_ensure_true h]
    rfl
  | false =>
    rw [runFrom_run_error (by rw [plan, if_neg (Bool.eq_false_iff.mp h)]), runFrom_ensure_false h]

theorem run_apply (b : Builder σ) (site : Site) (s : Setting) :
    (apply s).run b site = s.apply b site := by
  funext m
  show ((apply s).run b site).runFrom m = (s.apply b site).runFrom m
  rw [Setting.apply]
  rcases h : (s.resolve site (b.acceptsLiterals m.builder)).runFrom m.table with
    ⟨source | v, table⟩
  · obtain rfl := s.atomic_resolve site _ m.table source table h
    rw [runFrom_run_error (by rw [plan, h]), runFrom_bind_error (runFrom_resolving_error h)]
  · rw [runFrom_run_ok (by rw [plan, h]), runFrom_bind_ok (runFrom_resolving_ok h)]

theorem forM_map_run {ι : Type} {f : ι → Step} {g : ι → Configuring σ Unit}
    (h : ∀ i, (f i).run b site = g i) (is : List ι) : forM (is.map f) (run b site) = forM is g := by
  induction is with
  | nil => rfl
  | cons i is ih => rw [List.map_cons, List.forM_cons, List.forM_cons, h, ih]

/-- **A pass is the run of its steps.** -/
theorem forM_run_ofDeclarations (b : Builder σ) (site : Site) (ds : List NodeDeclaration) :
    forM (ofDeclarations ds) (run b site) = (do createNodes b ds; constrainNodes b site ds) := by
  have hconstrain : forM (ds.flatMap fun d => check d :: d.settings.map apply) (run b site) =
      constrainNodes b site ds := by
    rw [constrainNodes]
    induction ds with
    | nil => rfl
    | cons d ds ih =>
      rw [List.flatMap_cons, List.forM_append, List.forM_cons, List.forM_cons, run_check,
        forM_map_run (run_apply b site), ih, d.constrain_eq]
  rw [ofDeclarations, List.forM_append, forM_map_run (run_create b site), hconstrain, createNodes]

end Step

/-! ### Courses -/

/-- The calls that are made one after the other, each with the model that it finds. None is made
after one that fails. -/
def Builder.course (b : Builder σ) : List BuilderCall → Model σ → List (BuilderCall × Model σ)
  | [], _ => []
  | c :: cs, m => (c, m) :: match (b.perform c).runFrom m.builder with
    | (.ok (), s) => b.course cs { m with builder := s }
    | (.error _, _) => []

namespace Step

/-- The calls of a step, each with the model that it finds. -/
def course (b : Builder σ) (site : Site) (m : Model σ) (step : Step) :
    List (BuilderCall × Model σ) :=
  match step.plan b site m with
  | .ok (calls, table) => b.course calls { m with table }
  | .error _ => []

/-- **The course of a list of steps**: the calls of all steps, each with the model that it finds,
until a step fails. -/
def courseAll (b : Builder σ) (site : Site) : List Step → Model σ → List (BuilderCall × Model σ)
  | [], _ => []
  | step :: steps, m => step.course b site m ++ match (step.run b site).runFrom m with
    | (.ok (), m') => courseAll b site steps m'
    | (.error _, _) => []

end Step

/-- **The course of a pass**: the calls that it makes, each with the model that it finds. -/
def Pass.course (b : Builder σ) (site : Site) (ds : List NodeDeclaration) (m : Model σ) :
    List (BuilderCall × Model σ) := Step.courseAll b site (Step.ofDeclarations ds) m

end WaterNetwork
