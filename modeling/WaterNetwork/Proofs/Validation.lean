import WaterNetwork.Proofs.Document

/-!
# What is reported of a document

A document that is not valid has one flaw that is reported: an unknown version before any name, the
names of the parameters before those of the nodes, and of the names in a list the earliest that is
empty or has come before. The loop over the names carries those it has seen; `FirstFlaw` speaks of
the list alone, and says that all before the earliest flawed name tell things apart.

* `checkNames_eq_error_iff` — the loop stops at the first name that is refused.
* `checkNames_eq_error_iff_firstFlaw` — from the start, that is the first flaw of the list.
* `validate_outcome` — when a document passes its validation, and what is reported if it does not.
-/

namespace WaterNetwork.Document

variable {α : Type} {context name own : String} {seen : List String}
  {names : List (String × String)} {flaw : ValidationError} {d : Document}

/-! ### The loop over the names -/

/-- **Why a name is refused**: it is empty, or it is one of those that have been seen. -/
inductive NameRefused (context : String) (seen : List String) (name own : String) :
    ValidationError → Prop where
  | empty : name = "" → NameRefused context seen name own (.emptyName own)
  | taken : name ≠ "" → name ∈ seen →
    NameRefused context seen name own (.duplicateName name context)

theorem exists_nameRefused_iff :
    (∃ flaw, NameRefused context seen name own flaw) ↔ name = "" ∨ name ∈ seen := by
  constructor
  · rintro ⟨_, hname | ⟨-, hseen⟩⟩
    · exact .inl hname
    · exact .inr hseen
  · intro h
    by_cases hname : name = ""
    · exact ⟨_, .empty hname⟩
    · exact ⟨_, .taken hname (h.resolve_left hname)⟩

theorem checkNames_cons_of_refused (h : NameRefused context seen name own flaw)
    (rest : List (String × String)) :
    checkNames context seen ((name, own) :: rest) = .error flaw := by
  cases h with
  | empty hname => rw [checkNames, if_pos hname]
  | taken hname hseen => rw [checkNames, if_neg hname, if_pos (List.contains_iff_mem.mpr hseen)]

/-- A name that is not refused joins those that have been seen. -/
theorem checkNames_cons (h : ¬ ∃ flaw, NameRefused context seen name own flaw)
    (rest : List (String × String)) :
    checkNames context seen ((name, own) :: rest) = checkNames context (name :: seen) rest := by
  rw [exists_nameRefused_iff, not_or] at h
  rw [checkNames, if_neg h.1, if_neg (mt List.contains_iff_mem.mp h.2)]

/-- **The loop stops at the first name that is refused**, after those before it. -/
theorem checkNames_eq_error_iff :
    checkNames context seen names = .error flaw ↔
      ∃ before name own after, names = before ++ (name, own) :: after ∧
        checkNames context seen before = .ok () ∧
        NameRefused context ((before.map (·.1)).reverse ++ seen) name own flaw := by
  -- the names seen grow with each step, so the statement is about any that the loop starts from
  induction names generalizing seen with
  | nil => simp [checkNames]
  | cons p rest ih =>
    obtain ⟨name, own⟩ := p
    by_cases hrefused : ∃ flaw, NameRefused context seen name own flaw
    · obtain ⟨flaw', hflaw'⟩ := hrefused
      rw [checkNames_cons_of_refused hflaw']
      constructor
      · rintro ⟨⟩
        exact ⟨[], name, own, rest, rfl, rfl, hflaw'⟩
      · rintro ⟨before, name', own', after, hsplit, hbefore, hflaw⟩
        cases before with
        | nil =>
          cases hsplit
          rw [← checkNames_cons_of_refused hflaw' [], ← checkNames_cons_of_refused hflaw []]
          rfl
        | cons first before =>
          cases hsplit
          rw [checkNames_cons_of_refused hflaw'] at hbefore
          cases hbefore
    · rw [checkNames_cons hrefused, ih]
      constructor
      · rintro ⟨before, name', own', after, rfl, hbefore, hflaw⟩
        refine ⟨(name, own) :: before, name', own', after, rfl, ?_, ?_⟩
        · rw [checkNames_cons hrefused, hbefore]
        · simpa using hflaw
      · rintro ⟨before, name', own', after, hsplit, hbefore, hflaw⟩
        cases before with
        | nil =>
          cases hsplit
          exact absurd ⟨flaw, hflaw⟩ hrefused
        | cons first before =>
          cases hsplit
          rw [checkNames_cons hrefused] at hbefore
          exact ⟨before, name', own', after, rfl, hbefore, by simpa using hflaw⟩

/-! ### The first flaw of a list -/

/-- **The first flaw of named things**: all before it tell things apart, and its name is empty or
one of theirs. An empty name is reported with a context of its own, and a name that comes again as
it is, with the context of the list. -/
inductive FirstFlaw (context : String) (name own : α → String) (xs : List α) :
    ValidationError → Prop where
  | empty {before after : List α} {x : α} : xs = before ++ x :: after →
    TellApart (before.map name) → name x = "" → FirstFlaw context name own xs (.emptyName (own x))
  | taken {before after : List α} {x : α} : xs = before ++ x :: after →
    TellApart (before.map name) → name x ∈ before.map name →
    FirstFlaw context name own xs (.duplicateName (name x) context)

/-- **What the loop reports from the start** is the first flaw. -/
theorem checkNames_eq_error_iff_firstFlaw {name own : α → String} {xs : List α} :
    checkNames context [] (xs.map fun x => (name x, own x)) = .error flaw ↔
      FirstFlaw context name own xs flaw := by
  have hapart : ∀ before : List α,
      checkNames context [] (before.map fun x => (name x, own x)) = .ok () ↔
        TellApart (before.map name) := fun before => by
    simp [checkNames_eq_ok_iff, Function.comp_def]
  rw [checkNames_eq_error_iff]
  constructor
  · rintro ⟨_, _, _, _, hsplit, hbefore, hrefused⟩
    obtain ⟨before, _, rfl, rfl, hrest⟩ := List.map_eq_append_iff.mp hsplit
    obtain ⟨x, after, rfl, hx, rfl⟩ := List.map_eq_cons_iff.mp hrest
    cases hx
    cases hrefused with
    | empty hname => exact .empty rfl ((hapart before).mp hbefore) hname
    | taken _ hseen =>
      exact .taken rfl ((hapart before).mp hbefore) (by simpa using hseen)
  · rintro (⟨rfl, hbefore, hname⟩ | ⟨rfl, hbefore, hseen⟩)
    · exact ⟨_, _, _, _, List.map_append, (hapart _).mpr hbefore, .empty hname⟩
    · exact ⟨_, _, _, _, List.map_append, (hapart _).mpr hbefore,
        .taken (hbefore.nonempty _ hseen) (by simpa using hseen)⟩

/-! ### Documents -/

theorem validate_eq_error_iff :
    d.validate = .error flaw ↔
      latestVersion < d.version ∧ flaw = .unsupportedVersion d.version ∨
        d.version ≤ latestVersion ∧
          (checkNames "parameters" [] d.parameterNames = .error flaw ∨
            checkNames "parameters" [] d.parameterNames = .ok () ∧
              checkNames "nodes" [] d.nodeNames = .error flaw) := by
  rw [validate]
  by_cases hversion : d.version ≤ latestVersion
  · rw [if_neg (UInt32.not_lt.mpr hversion)]
    cases checkNames "parameters" [] d.parameterNames with
    | error e => simp [bind, Except.bind, hversion, UInt32.not_lt.mpr hversion]
    | ok u => simp [bind, Except.bind, hversion, UInt32.not_lt.mpr hversion]
  · rw [if_pos (UInt32.not_le.mp hversion)]
    simp [bind, Except.bind, throw, throwThe, MonadExceptOf.throw, hversion,
      UInt32.not_le.mp hversion, eq_comm]

/-- **The flaw of a document**: its version is unknown; or its version is known, and the names of
its parameters have a first flaw; or they tell the parameters apart, and the names of its nodes
have a first flaw. An empty name of a node is reported with the kind of this node. -/
inductive Flawed (d : Document) : ValidationError → Prop where
  | version : latestVersion < d.version → Flawed d (.unsupportedVersion d.version)
  | parameter {flaw : ValidationError} : d.version ≤ latestVersion →
    FirstFlaw "parameters" (·.name) (fun _ => "parameters") d.parameters flaw → Flawed d flaw
  | node {flaw : ValidationError} : d.version ≤ latestVersion →
    TellApart (d.parameters.map (·.name)) →
    FirstFlaw "nodes" (·.name) (fun n => n.kind.text ++ " nodes") d.nodes flaw → Flawed d flaw

/-- **The validation of a document**: it passes just if it is valid, and otherwise the flaw that is
listed is reported, and no other. -/
theorem validate_outcome (d : Document) :
    (d.validate = .ok () ↔ d.Valid) ∧ ∀ flaw, d.validate = .error flaw ↔ d.Flawed flaw := by
  refine ⟨validate_eq_ok_iff, fun flaw => ?_⟩
  rw [validate_eq_error_iff, parameterNames, nodeNames, checkNames_eq_error_iff_firstFlaw,
    checkNames_eq_error_iff_firstFlaw, checkNames_eq_ok_iff]
  constructor
  · rintro (⟨hversion, rfl⟩ | ⟨hversion, hps | ⟨hps, hns⟩⟩)
    · exact .version hversion
    · exact .parameter hversion hps
    · exact .node hversion (by simpa [Function.comp_def] using hps.1) hns
  · rintro (hversion | ⟨hversion, hps⟩ | ⟨hversion, hps, hns⟩)
    · exact .inl ⟨hversion, rfl⟩
    · exact .inr ⟨hversion, .inl hps⟩
    · exact .inr ⟨hversion, .inr ⟨by simpa [Function.comp_def] using hps, hns⟩⟩

/-- A parameter and a node may have the same name. -/
example : Document.validate
    ⟨1, "net", [⟨"city", .constant 1⟩], [.flow .output "city" {}]⟩ = .ok () := rfl

end WaterNetwork.Document
