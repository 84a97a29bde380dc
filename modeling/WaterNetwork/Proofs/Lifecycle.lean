import Mathlib.Data.List.Forall2
import Mathlib.Data.List.Nodup
import WaterNetwork.Proofs.Setting

/-!
# The lifecycle of a pass

The phases of a pass may be called in any order and any number of times, each time with another
builder, table and place, and may fail. Both do the same: they go through the declarations from
the front, as long as each stands where the phase starts from and its step ends well
(`Phase.run`). So all that a call can do to the stages is to move some declarations at the front
together (`Phase.Moves`), and from this follows how the stages of any pass look: first those that
are constrained, then those that are created, then those that are declared (`Pass.Stands`).

* `Pass.lifecycle` — the stages keep this shape and never go back, each step of a declaration ends
  well at most once, and a pass that has begun does not begin again.
-/

namespace WaterNetwork

open Attempt

variable {σ : Type}

/-! ### Phases -/

/-- A phase of a pass: where a declaration has to stand, where it gets to, the step that takes it
there, and what is reported if it stands elsewhere. -/
structure Phase (σ : Type) where
  start : Stage
  goal : Stage
  step : NodeDeclaration → Configuring σ Unit
  refusal : Progress → ConfigurationError

namespace Phase

/-- Take declarations through a phase. Beside the outcome stand the positions, counted from `i`, of
the declarations whose step has ended well. -/
def run (f : Phase σ) : Nat → Pass → Model σ → List Nat × Pass.Outcome σ Unit
  | _, [], m => ([], .ok (), [], m)
  | i, p :: rest, m =>
    if p.stage ≠ f.start then ([], .error (f.refusal p), p :: rest, m)
    else match (f.step p.declaration).runFrom m with
      | (.error e, m) => ([], .error e, p :: rest, m)
      | (.ok (), m) =>
        let (ended, result, rest, m) := f.run (i + 1) rest m
        (i :: ended, result, { p with stage := f.goal } :: rest, m)

/-- The phase that creates nodes. -/
def creation (b : Builder σ) : Phase σ where
  start := .declared
  goal := .created
  step d := d.create b
  refusal p := .network (.duplicateNode ⟨p.declaration.name, p.declaration.firstSubIndex⟩)

/-- The phase that constrains nodes. -/
def constraining (b : Builder σ) (site : Site) : Phase σ where
  start := .created
  goal := .constrained
  step d := d.constrain b site
  refusal p := if p.stage = .declared then .notCreated p.declaration.name
    else .alreadyConstrained p.declaration.name

variable {f : Phase σ} {i : Nat} {x : Progress} {p rest : Pass} {m m' : Model σ}

theorem run_cons_of_ne (h : x.stage ≠ f.start) :
    f.run i (x :: rest) m = ([], .error (f.refusal x), x :: rest, m) := by
  rw [run, if_pos h]

theorem run_cons_error {e : ConfigurationError} (h : x.stage = f.start)
    (hstep : (f.step x.declaration).runFrom m = (.error e, m')) :
    f.run i (x :: rest) m = ([], .error e, x :: rest, m') := by
  rw [run, if_neg (not_not_intro h), hstep]

theorem run_cons_ok (h : x.stage = f.start)
    (hstep : (f.step x.declaration).runFrom m = (.ok (), m')) :
    f.run i (x :: rest) m =
      (i :: (f.run (i + 1) rest m').1, (f.run (i + 1) rest m').2.1,
        { x with stage := f.goal } :: (f.run (i + 1) rest m').2.2.1,
        (f.run (i + 1) rest m').2.2.2) := by
  rw [run, if_neg (not_not_intro h), hstep]

/-- Creating all nodes is this phase, with a count of the terminals. -/
theorem createAll_eq_run (b : Builder σ) (i : Nat) (p : Pass) (m : Model σ) :
    Pass.createAll b p m =
      (((creation b).run i p m).2.1.map fun _ => terminalCount (p.map (·.declaration)),
        ((creation b).run i p m).2.2) := by
  induction p generalizing i m with
  | nil => rfl
  | cons x rest ih =>
    rw [Pass.createAll]
    by_cases h : x.stage = .declared
    · rw [if_neg (not_not_intro h)]
      rcases hstep : (x.declaration.create b).runFrom m with ⟨e | ⟨⟩, m'⟩
      · rw [run_cons_error h hstep]
        rfl
      · rw [run_cons_ok h hstep]
        simp only [ih (i + 1) m', Prod.mk.injEq, and_true]
        refine ⟨?_, rfl⟩
        cases ((creation b).run (i + 1) rest m').2.1 <;> simp [Except.map, terminalCount]
    · rw [if_pos h, run_cons_of_ne h]
      rfl

/-- Constraining all nodes is this phase. -/
theorem constrainAll_eq_run (b : Builder σ) (site : Site) (i : Nat) (p : Pass) (m : Model σ) :
    Pass.constrainAll b site p m = ((constraining b site).run i p m).2 := by
  induction p generalizing i m with
  | nil => rfl
  | cons x rest ih =>
    rw [Pass.constrainAll]
    cases hx : x.stage with
    | declared =>
      rw [run_cons_of_ne (by simp [hx, constraining])]
      simp only [constraining, hx, if_true]
    | constrained =>
      rw [run_cons_of_ne (by simp [hx, constraining])]
      simp only [constraining, hx, reduceCtorEq, if_false]
    | created =>
      rcases hstep : (x.declaration.constrain b site).runFrom m with ⟨e | ⟨⟩, m'⟩
      · rw [run_cons_error hx hstep]
      · rw [run_cons_ok hx hstep]
        simp only [ih (i + 1) m']
        rfl

/-! ### What a phase does to the stages -/

/-- **Moving together**: the first `k` declarations stand at the start of a phase and get to its
goal, and the others stay where they are. -/
structure Moves (f : Phase σ) (k : Nat) (p q : Pass) : Prop where
  le : k ≤ p.length
  before : p.stages = List.replicate k f.start ++ p.stages.drop k
  after : q.stages = List.replicate k f.goal ++ p.stages.drop k
  declarations : q.map (·.declaration) = p.map (·.declaration)

theorem Moves.none (f : Phase σ) (p : Pass) : f.Moves 0 p p := ⟨Nat.zero_le _, rfl, rfl, rfl⟩

/-- **All that a phase does** to a pass is to move the declarations whose steps end well; it ends
well itself just if these are all of them. -/
theorem exists_moves_run (f : Phase σ) (i : Nat) (p : Pass) (m : Model σ) :
    ∃ k, f.Moves k p (f.run i p m).2.2.1 ∧ (f.run i p m).1 = List.range' i k ∧
      ((f.run i p m).2.1 = .ok () ↔ k = p.length) := by
  induction p generalizing i m with
  | nil => exact ⟨0, .none f [], rfl, by simp [run]⟩
  | cons x rest ih =>
    by_cases h : x.stage = f.start
    · rcases hstep : (f.step x.declaration).runFrom m with ⟨e | ⟨⟩, m'⟩
      · rw [run_cons_error h hstep]
        exact ⟨0, .none f _, rfl, by simp⟩
      · obtain ⟨k, hk, hended, hok⟩ := ih (i + 1) m'
        rw [run_cons_ok h hstep]
        refine ⟨k + 1, ⟨Nat.succ_le_succ hk.le, ?_, ?_, ?_⟩, ?_, ?_⟩
        · show x.stage :: Pass.stages rest = _
          rw [h, hk.before]
          simp [List.replicate_succ, Pass.stages]
        · show f.goal :: Pass.stages _ = _
          rw [hk.after]
          simp [List.replicate_succ, Pass.stages]
        · show x.declaration :: List.map _ _ = _
          rw [hk.declarations]
          rfl
        · rw [hended, List.range'_succ]
        · simpa using hok
    · rw [run_cons_of_ne h]
      exact ⟨0, .none f _, rfl, by simp⟩

end Phase

/-! ### Calls on a pass -/

/-- A call on a pass: one of its phases, with a builder, a table and a place of its own. -/
inductive PhaseCall where
  | createAll {σ : Type} (b : Builder σ) (m : Model σ)
  | constrainAll {σ : Type} (b : Builder σ) (site : Site) (m : Model σ)

/-- A step that has ended well, of the declaration at a position. -/
inductive Deed where
  | created (position : Nat)
  | constrained (position : Nat)
  deriving DecidableEq

namespace PhaseCall

/-- The pass that a call leaves. -/
def pass : PhaseCall → Pass → Pass
  | createAll b m, p => (Pass.createAll b p m).2.1
  | constrainAll b site m, p => (Pass.constrainAll b site p m).2.1

/-- The steps that end well in a call, in order. -/
def deeds : PhaseCall → Pass → List Deed
  | createAll b m, p => ((Phase.creation b).run 0 p m).1.map .created
  | constrainAll b site m, p => ((Phase.constraining b site).run 0 p m).1.map .constrained

end PhaseCall

/-- How far a stage is from the beginning. -/
def Stage.rank : Stage → Nat
  | declared => 0
  | created => 1
  | constrained => 2

namespace Pass

/-- The pass that calls leave which are made one after the other. -/
def after (p : Pass) : List PhaseCall → Pass
  | [] => p
  | call :: calls => after (call.pass p) calls

/-- The steps that end well in calls, in order. -/
def deeds (p : Pass) : List PhaseCall → List Deed
  | [] => []
  | call :: calls => call.deeds p ++ deeds (call.pass p) calls

/-- The stages of a pass of which some declarations are constrained, some only created and some
only declared. -/
def shape (a b c : Nat) : List Stage :=
  List.replicate a .constrained ++ List.replicate b .created ++ List.replicate c .declared

/-- The steps by which `a` declarations have been constrained and `b` more have been created. -/
def deedsOf (a b : Nat) : List Deed :=
  (List.range (a + b)).map .created ++ (List.range a).map .constrained

variable {a b c a' b' c' k : Nat} {p q : Pass} {done : List Deed}

theorem length_shape (a b c : Nat) : (shape a b c).length = a + b + c := by
  simp [shape, Nat.add_assoc]

theorem length_stages (p : Pass) : p.stages.length = p.length := by simp [stages]

/-- **How a pass stands** after some steps. -/
structure Stands (a b c : Nat) (p : Pass) (done : List Deed) : Prop where
  stages_eq : p.stages = shape a b c
  done_eq : done = deedsOf a b

theorem stands_ofDeclarations (ds : List NodeDeclaration) :
    Stands 0 0 ds.length (ofDeclarations ds) [] := by
  refine ⟨?_, rfl⟩
  simp only [stages, ofDeclarations, List.map_map, shape, List.replicate_zero, List.nil_append]
  exact List.map_const'

/-- Where the first declaration stands. -/
theorem head?_shape : (shape a b c).head? =
    if 0 < a then some .constrained else if 0 < b then some .created
      else if 0 < c then some .declared else none := by
  cases a with
  | succ a => rfl
  | zero =>
    cases b with
    | succ b => rfl
    | zero => cases c <;> rfl

/-- A phase moves nothing if the first declaration stands elsewhere. -/
theorem eq_zero_of_moves {f : Phase σ} (h : f.Moves k p q) (hhead : p.stages.head? ≠ some f.start) :
    k = 0 := by
  cases k with
  | zero => rfl
  | succ k =>
    rw [h.before] at hhead
    exact absurd rfl hhead

/-! ### Calls that are too late, or end well -/

/-- Creating is refused once the first declaration has left the beginning, without a look at the
builder. -/
theorem createAll_of_head?_ne (hne : p ≠ []) (h : p.stages.head? ≠ some .declared) :
    ∃ e, ∀ {σ : Type} (builder : Builder σ) (m : Model σ),
      createAll builder p m = (.error e, p, m) := by
  cases p with
  | nil => exact absurd rfl hne
  | cons x rest =>
    have hx : x.stage ≠ .declared := fun heq => h (congrArg some heq)
    exact ⟨_, fun builder m => by rw [createAll, if_pos hx]⟩

/-- Constraining is refused once the first declaration is constrained, without a look at the
builder and the table. -/
theorem constrainAll_of_head?_eq (h : p.stages.head? = some .constrained) :
    ∃ e, ∀ {σ : Type} (builder : Builder σ) (site : Site) (m : Model σ),
      constrainAll builder site p m = (.error e, p, m) := by
  cases p with
  | nil => cases h
  | cons x rest =>
    have hx : x.stage = .constrained := Option.some.inj h
    exact ⟨_, fun builder site m => by rw [constrainAll, hx]⟩

/-- A phase that ends well takes all declarations from its start to its goal. -/
theorem stages_of_run_eq_ok {f : Phase σ} {m : Model σ} (h : (f.run 0 p m).2.1 = .ok ()) :
    p.stages = List.replicate p.length f.start ∧
      (f.run 0 p m).2.2.1.stages = List.replicate p.length f.goal := by
  obtain ⟨k, hmoves, -, hok⟩ := f.exists_moves_run 0 p m
  obtain rfl : k = p.length := hok.mp h
  have hdrop : p.stages.drop p.length = [] :=
    List.drop_eq_nil_of_le (Nat.le_of_eq (length_stages p))
  refine ⟨?_, ?_⟩
  · conv_lhs => rw [hmoves.before, hdrop, List.append_nil]
  · rw [hmoves.after, hdrop, List.append_nil]

/-! ### What a call keeps -/

/-- What later stages keep of earlier ones: no declaration goes back, and once the pass has begun,
what has not been created stays so. -/
structure Kept (a b c a' b' c' : Nat) : Prop where
  count : a' + b' + c' = a + b + c
  constrained : a ≤ a'
  begun : a + b ≤ a' + b'
  declared : 0 < a + b → c' = c

theorem Kept.refl (a b c : Nat) : Kept a b c a b c :=
  ⟨rfl, Nat.le_refl _, Nat.le_refl _, fun _ => rfl⟩

theorem Kept.trans {a'' b'' c'' : Nat} (h : Kept a b c a' b' c') (h' : Kept a' b' c' a'' b'' c'') :
    Kept a b c a'' b'' c'' where
  count := h'.count.trans h.count
  constrained := Nat.le_trans h.constrained h'.constrained
  begun := Nat.le_trans h.begun h'.begun
  declared hbegun :=
    (h'.declared (Nat.lt_of_lt_of_le hbegun h.begun)).trans (h.declared hbegun)

/-- Creating moves declarations only as long as the pass has not begun. -/
theorem Stands.creation (h : Stands a b c p done) (builder : Builder σ)
    (hmoves : (Phase.creation builder).Moves k p q) :
    ∃ a' b' c', Stands a' b' c' q (done ++ (List.range' 0 k).map .created) ∧
      Kept a b c a' b' c' := by
  by_cases hbegun : 0 < a + b
  · obtain rfl : k = 0 := eq_zero_of_moves hmoves (by
      rw [h.stages_eq, head?_shape]
      cases a with
      | succ a => nofun
      | zero =>
        rw [if_neg (Nat.lt_irrefl 0), if_pos (by omega)]
        nofun)
    refine ⟨a, b, c, ⟨?_, by simpa using h.done_eq⟩, .refl a b c⟩
    rw [hmoves.after, ← h.stages_eq]
    rfl
  · obtain ⟨rfl, rfl⟩ : a = 0 ∧ b = 0 := by omega
    have hstages : p.stages = List.replicate c .declared := h.stages_eq
    have hk : k ≤ c := by simpa [← length_stages, hstages] using hmoves.le
    refine ⟨0, k, c - k, ⟨?_, ?_⟩,
      ⟨by omega, Nat.le_refl _, Nat.zero_le _, fun h => absurd h hbegun⟩⟩
    · rw [hmoves.after, hstages, List.drop_replicate]
      rfl
    · rw [h.done_eq, ← List.range_eq_range']
      simp [deedsOf]

/-- Constraining moves declarations only as long as none is constrained, and no more than those
that are created. -/
theorem Stands.constraining (h : Stands a b c p done) (builder : Builder σ) (site : Site)
    (hmoves : (Phase.constraining builder site).Moves k p q) :
    ∃ a' b' c', Stands a' b' c' q (done ++ (List.range' 0 k).map .constrained) ∧
      Kept a b c a' b' c' := by
  by_cases hbegun : 0 < a
  · obtain rfl : k = 0 := eq_zero_of_moves hmoves (by
      rw [h.stages_eq, head?_shape, if_pos hbegun]
      nofun)
    refine ⟨a, b, c, ⟨?_, by simpa using h.done_eq⟩, .refl a b c⟩
    rw [hmoves.after, ← h.stages_eq]
    rfl
  · obtain rfl : a = 0 := by omega
    have hstages : p.stages = List.replicate b .created ++ List.replicate c .declared :=
      h.stages_eq
    have hk : k ≤ b := by
      by_contra hlt
      have hcount : k ≤ b + c := by
        have hle := hmoves.le
        rwa [← length_stages, h.stages_eq, length_shape, Nat.zero_add] at hle
      have hcreated : p.stages[b]? = some .created := by
        rw [hmoves.before, List.getElem?_append_left (by simpa using hlt),
          List.getElem?_replicate_of_lt (by omega)]
        rfl
      have hdeclared : p.stages[b]? = some .declared := by
        rw [hstages, List.getElem?_append_right (by simp), List.length_replicate, Nat.sub_self,
          List.getElem?_replicate_of_lt (by omega)]
      rw [hcreated] at hdeclared
      cases hdeclared
    refine ⟨k, b - k, c, ⟨?_, ?_⟩, ⟨by omega, Nat.zero_le _, by omega, fun _ => rfl⟩⟩
    · rw [hmoves.after, hstages, List.drop_append_of_le_length (by simpa using hk),
        List.drop_replicate, shape, List.append_assoc]
      rfl
    · rw [h.done_eq, ← List.range_eq_range', deedsOf, deedsOf, Nat.add_sub_cancel' hk]
      simp

/-- **What a call keeps.** -/
theorem Stands.call (h : Stands a b c p done) (call : PhaseCall) :
    ∃ a' b' c', Stands a' b' c' (call.pass p) (done ++ call.deeds p) ∧ Kept a b c a' b' c' := by
  cases call with
  | createAll builder m =>
    obtain ⟨k, hmoves, hended, -⟩ := (Phase.creation builder).exists_moves_run 0 p m
    rw [PhaseCall.pass, PhaseCall.deeds, Phase.createAll_eq_run builder 0, hended]
    exact h.creation builder hmoves
  | constrainAll builder site m =>
    obtain ⟨k, hmoves, hended, -⟩ := (Phase.constraining builder site).exists_moves_run 0 p m
    rw [PhaseCall.pass, PhaseCall.deeds, Phase.constrainAll_eq_run builder site 0, hended]
    exact h.constraining builder site hmoves

/-- **What all calls keep.** -/
theorem Stands.after (h : Stands a b c p done) (calls : List PhaseCall) :
    ∃ a' b' c', Stands a' b' c' (p.after calls) (done ++ p.deeds calls) ∧ Kept a b c a' b' c' := by
  induction calls generalizing a b c p done with
  | nil => exact ⟨a, b, c, by simpa [Pass.after, deeds] using h, .refl a b c⟩
  | cons call calls ih =>
    obtain ⟨a₁, b₁, c₁, hcall, hkept⟩ := h.call call
    obtain ⟨a₂, b₂, c₂, hcalls, hkept'⟩ := ih hcall
    rw [List.append_assoc] at hcalls
    exact ⟨a₂, b₂, c₂, hcalls, hkept.trans hkept'⟩

/-! ### The lifecycle -/

/-- No call moves a declaration back. -/
theorem forall₂_rank_of_moves {f : Phase σ} (h : f.Moves k p q) (hf : f.start.rank ≤ f.goal.rank) :
    List.Forall₂ (fun s s' => s.rank ≤ s'.rank) p.stages q.stages := by
  have hmoved : List.Forall₂ (fun s s' : Stage => s.rank ≤ s'.rank)
      (List.replicate k f.start) (List.replicate k f.goal) := by
    clear h
    induction k with
    | zero => exact .nil
    | succ k ih => exact .cons hf ih
  rw [h.before, h.after]
  exact List.rel_append hmoved (List.forall₂_same.mpr fun _ _ => Nat.le_refl _)

theorem forall₂_rank_call (p : Pass) (call : PhaseCall) :
    List.Forall₂ (fun s s' => s.rank ≤ s'.rank) p.stages (call.pass p).stages := by
  cases call with
  | createAll builder m =>
    obtain ⟨k, hmoves, -⟩ := (Phase.creation builder).exists_moves_run 0 p m
    rw [PhaseCall.pass, Phase.createAll_eq_run builder 0]
    exact forall₂_rank_of_moves hmoves (Nat.le_succ _)
  | constrainAll builder site m =>
    obtain ⟨k, hmoves, -⟩ := (Phase.constraining builder site).exists_moves_run 0 p m
    rw [PhaseCall.pass, Phase.constrainAll_eq_run builder site 0]
    exact forall₂_rank_of_moves hmoves (Nat.le_succ _)

theorem nodup_deedsOf (a b : Nat) : (deedsOf a b).Nodup := by
  have hcreated : Function.Injective Deed.created := fun _ _ h => Deed.created.inj h
  have hconstrained : Function.Injective Deed.constrained := fun _ _ h => Deed.constrained.inj h
  refine (List.Nodup.map hcreated List.nodup_range).append
    (List.Nodup.map hconstrained List.nodup_range) ?_
  simp [List.disjoint_left]

/-- What has been constrained has been created before. -/
theorem created_mem_of_deedsOf {before later : List Deed} {i : Nat}
    (h : deedsOf a b = before ++ .constrained i :: later) : .created i ∈ before := by
  have hi : i < a := by
    have hmem : Deed.constrained i ∈ deedsOf a b := by rw [h]; simp
    simpa [deedsOf] using hmem
  have hcreated : Deed.created i ∈ (List.range (a + b)).map Deed.created :=
    List.mem_map_of_mem (List.mem_range.mpr (by omega))
  rcases List.append_eq_append_iff.mp h with ⟨more, rfl, -⟩ | ⟨more, hmap, hmore⟩
  · exact List.mem_append_left _ hcreated
  · cases more with
    | nil =>
      rw [List.append_nil] at hmap
      exact hmap ▸ hcreated
    | cons deed more =>
      obtain ⟨rfl, -⟩ := List.cons.inj hmore
      have hmem : Deed.constrained i ∈ (List.range (a + b)).map Deed.created := by rw [hmap]; simp
      simp at hmem

/-- **A pass in its lifecycle**: of `n` declarations `a` are constrained, `b` are only created and
`c` are only declared, in this order, and `done` are the steps that have ended well so far. -/
structure InLifecycle (n a b c : Nat) (p : Pass) (done : List Deed) : Prop where
  count : a + b + c = n
  stages_eq : p.stages = shape a b c
  /-- No call moves a declaration back. -/
  forward : ∀ call : PhaseCall,
    List.Forall₂ (fun s s' => s.rank ≤ s'.rank) p.stages (call.pass p).stages
  createAll_ok : ∀ {σ : Type} (builder : Builder σ) (m : Model σ),
    (∃ terminals, (createAll builder p m).1 = .ok terminals) →
      p.stages = shape 0 0 n ∧ (createAll builder p m).2.1.stages = shape 0 n 0
  constrainAll_ok : ∀ {σ : Type} (builder : Builder σ) (site : Site) (m : Model σ),
    (constrainAll builder site p m).1 = .ok () →
      p.stages = shape 0 n 0 ∧ (constrainAll builder site p m).2.1.stages = shape n 0 0
  /-- Each step of a declaration ends well at most once. -/
  once : done.Nodup
  inOrder : ∀ before i later, done = before ++ .constrained i :: later → .created i ∈ before
  /-- A pass that has begun does not begin again. -/
  begun : 0 < a + b → ∀ later, ∃ e, ∀ {σ : Type} (builder : Builder σ) (m : Model σ),
    createAll builder (p.after later) m = (.error e, p.after later, m)
  ended : 0 < a → ∀ later, ∃ e, ∀ {σ : Type} (builder : Builder σ) (site : Site) (m : Model σ),
    constrainAll builder site (p.after later) m = (.error e, p.after later, m)
  /-- A pass of which only a part has been created does not come to its end. -/
  halted : 0 < a + b → 0 < c → ∀ later, (p.after later).stages ≠ shape n 0 0

theorem Stands.inLifecycle {n : Nat} (h : Stands a b c p done) (hn : a + b + c = n) :
    InLifecycle n a b c p done := by
  have hlength : p.length = n := by rw [← length_stages, h.stages_eq, length_shape, hn]
  have hhead : ∀ {a' b' c' q done'}, Stands a' b' c' q done' → 0 < a' + b' →
      q ≠ [] ∧ q.stages.head? ≠ some .declared := by
    intro a' b' c' q done' hq hbegun
    have hstage : q.stages.head? = some .constrained ∨ q.stages.head? = some .created := by
      rw [hq.stages_eq, head?_shape]
      by_cases ha : 0 < a'
      · exact .inl (if_pos ha)
      · rw [if_neg ha, if_pos (by omega)]
        exact .inr rfl
    refine ⟨?_, fun heq => ?_⟩
    · rintro rfl
      rcases hstage with heq | heq <;> cases heq
    · rw [heq] at hstage
      rcases hstage with heq | heq <;> cases heq
  refine
    { count := hn, stages_eq := h.stages_eq, forward := forall₂_rank_call p, createAll_ok := ?_,
      constrainAll_ok := ?_, once := h.done_eq ▸ nodup_deedsOf a b,
      inOrder := fun before i later heq => created_mem_of_deedsOf (h.done_eq ▸ heq),
      begun := fun hbegun later => ?_, ended := fun hended later => ?_,
      halted := fun hbegun hrest later heq => ?_ }
  · rintro σ builder m ⟨terminals, hok⟩
    rw [Phase.createAll_eq_run builder 0] at hok ⊢
    have hrun : ((Phase.creation builder).run 0 p m).2.1 = .ok () := by
      cases hresult : ((Phase.creation builder).run 0 p m).2.1 with
      | ok u => rfl
      | error e => rw [hresult] at hok; cases hok
    obtain ⟨hbefore, hafter⟩ := stages_of_run_eq_ok hrun
    rw [hlength] at hbefore hafter
    exact ⟨hbefore, hafter.trans (List.append_nil _).symm⟩
  · intro σ builder site m hok
    rw [Phase.constrainAll_eq_run builder site 0] at hok ⊢
    obtain ⟨hbefore, hafter⟩ := stages_of_run_eq_ok hok
    rw [hlength] at hbefore hafter
    refine ⟨hbefore.trans (List.append_nil _).symm, hafter.trans ?_⟩
    simp [shape, Phase.constraining]
  · obtain ⟨a', b', c', hlater, hkept⟩ := h.after later
    obtain ⟨hne, hdeclared⟩ := hhead hlater (Nat.lt_of_lt_of_le hbegun hkept.begun)
    exact createAll_of_head?_ne hne hdeclared
  · obtain ⟨a', b', c', hlater, hkept⟩ := h.after later
    refine constrainAll_of_head?_eq ?_
    rw [hlater.stages_eq, head?_shape, if_pos (Nat.lt_of_lt_of_le hended hkept.constrained)]
  · obtain ⟨a', b', c', hlater, hkept⟩ := h.after later
    have hmem : Stage.declared ∈ shape a' b' c' := by
      rw [hkept.declared hbegun]
      simp [shape, Nat.ne_of_gt hrest]
    rw [← hlater.stages_eq, heq] at hmem
    simp [shape] at hmem

/-- **The lifecycle of a pass.** After any calls of its phases, in any order and with any builders,
tables and places, a pass is in its lifecycle. -/
theorem lifecycle (ds : List NodeDeclaration) (calls : List PhaseCall) :
    ∃ a b c, InLifecycle ds.length a b c ((ofDeclarations ds).after calls)
      ((ofDeclarations ds).deeds calls) := by
  obtain ⟨a, b, c, h, hkept⟩ := (stands_ofDeclarations ds).after calls
  exact ⟨a, b, c, h.inLifecycle (by simpa using hkept.count)⟩

/-- A builder with room for a single terminal. -/
def oneTerminal : Builder Nat where
  addNode _ t n :=
    if n = 0 then ((Ident.ofIndex n).mapError (.capacity t.node), 1)
    else (.error (.capacity t.node (.invalidArgument "no room")), n)
  setCost _ _ := pure ()
  setConstraint _ _ _ := pure ()
  containsNode _ _ := false
  containsName _ _ := false
  acceptsLiterals _ := true

/-- A pass over two sinks of which only the first is created is halted for good. -/
theorem lifecycle_halfway : ∃ calls, ∃ p, p = (ofDeclarations
      [.flow .output "city" {}, .flow .output "sea" {}]).after calls ∧
    p.stages = [.created, .declared] ∧
    ∀ later, (p.after later).stages ≠ [.constrained, .constrained] := by
  let ds : List NodeDeclaration := [.flow .output "city" {}, .flow .output "sea" {}]
  let calls : List PhaseCall := [.createAll oneTerminal ⟨0, .empty⟩]
  have hstages : ((ofDeclarations ds).after calls).stages = [.created, .declared] := by rfl
  obtain ⟨a, b, c, h⟩ := lifecycle ds calls
  have hshape : shape a b c = [.created, .declared] := h.stages_eq.symm.trans hstages
  have hb : b = 1 := by
    have hcount := congrArg (List.count Stage.created) hshape
    simpa [shape, List.count_replicate] using hcount
  have hc : c = 1 := by
    have hcount := congrArg (List.count Stage.declared) hshape
    simpa [shape, List.count_replicate] using hcount
  exact ⟨calls, _, rfl, hstages, h.halted (by omega) (by omega)⟩

end Pass

end WaterNetwork
