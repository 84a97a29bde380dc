import WaterNetwork.Proofs.Cut

/-!
# What builders are handed

To look at a call in the middle of a configuration, the builder is put under watch: a watched
builder passes its calls on, and ends the run at a call picked by its position, before passing
it on. The model that is left is the one in which the call would have been made. Since the
position and the builder are arbitrary, what holds of such a call holds of every call that any
configuration makes, whether it succeeds in the end or not.

A value that is handed over in such a call is a finite number that the builder takes, or the name
of an entry that stays in the table to the end: this is what the watched builder, as a `Cut` of
the builder behind it, and the growth of tables come to.
-/

namespace WaterNetwork

open Attempt

variable {σ α : Type}

/-- A builder's state under watch: how many more calls are passed on, and the call at which the
run was ended. -/
structure Watched (σ : Type) where
  inner : σ
  left : Nat
  endedAt : Option BuilderCall := none

namespace Watched

/-- Pass a call on, unless it is the one at which the run ends. -/
def pass (c : BuilderCall) (call : Attempt σ NetworkError α) :
    Attempt (Watched σ) NetworkError α := fun w =>
  match w.left with
  | 0 => (.error (.nodeNotFound c.terminal), { w with endedAt := some c })
  | left + 1 =>
    let (result, inner) := call.runFrom w.inner
    (result, { w with inner, left })

theorem runFrom_pass_zero {c : BuilderCall} {call : Attempt σ NetworkError α} {w : Watched σ}
    (h : w.left = 0) : (pass c call).runFrom w =
      (.error (.nodeNotFound c.terminal), { w with endedAt := some c }) := by
  simp only [runFrom, pass, h]

theorem runFrom_pass_succ {c : BuilderCall} {call : Attempt σ NetworkError α} {w : Watched σ}
    {left : Nat} (h : w.left = left + 1) : (pass c call).runFrom w =
      ((call.runFrom w.inner).1, { w with inner := (call.runFrom w.inner).2, left }) := by
  simp only [runFrom, pass, h]

/-- The watched builder. -/
def builder (b : Builder σ) : Builder (Watched σ) where
  addNode kind t := pass (.addNode kind t) (b.addNode kind t)
  setCost t value := pass (.setCost t value) (b.setCost t value)
  setConstraint t role value := pass (.setConstraint t role value) (b.setConstraint t role value)
  containsNode w := b.containsNode w.inner
  containsName w := b.containsName w.inner
  acceptsLiterals w := b.acceptsLiterals w.inner

theorem perform_eq_pass (b : Builder σ) (c : BuilderCall) :
    (builder b).perform c = pass c (b.perform c) := by
  cases c with
  | addNode kind t =>
    funext w
    show ((builder b).perform _).runFrom w = (pass _ (b.perform _)).runFrom w
    rw [Builder.perform, runFrom_bind, builder]
    cases hleft : w.left with
    | zero => rw [runFrom_pass_zero hleft, runFrom_pass_zero hleft]
    | succ left =>
      rw [runFrom_pass_succ hleft, runFrom_pass_succ hleft, Builder.perform, runFrom_bind]
      rcases (b.addNode kind t).runFrom w.inner with ⟨e | id, s⟩ <;> rfl
  | setCost t value | setConstraint t role value => rfl

/-- A watched builder is in step with the builder behind it, until the run ends. -/
def cut (b : Builder σ) (site : Site) : Cut (builder b) b site where
  inStep w s := w.inner = s ∧ w.endedAt = none
  refused c w s := w.inner = s ∧ w.endedAt = some c
  onward m m' := m.table.Built → m.table.Grows m'.table
  containsNode h := h.1 ▸ rfl
  containsName h := h.1 ▸ rfl
  acceptsLiterals h := h.1 ▸ rfl
  perform {w s} h c := by
    obtain ⟨rfl, hnone⟩ := h
    rw [perform_eq_pass]
    cases hleft : w.left with
    | zero =>
      exact .inr ⟨_, _, runFrom_pass_zero hleft, rfl, rfl⟩
    | succ left => exact .inl ⟨_, _, _, runFrom_pass_succ hleft, rfl, rfl, hnone⟩
  steps := stepRelation_grows b site
  built h ht := (h ht).built ht

theorem configure_follows (b : Builder σ) (site : Site) (ds : List NodeDeclaration) {w : Watched σ}
    (hw : w.endedAt = none) {t : ParameterTable} (ht : t.Built) :
    (cut b site).Follows ((configure (builder b) site ds).runFrom ⟨w, t⟩)
      ((configure b site ds).runFrom ⟨w.inner, t⟩) :=
  (cut b site).configure_follows ⟨rfl, hw⟩ ht ds

end Watched

/-! ### Values -/

/-- An entry is found for good. -/
theorem ParameterTable.Grows.entry?_eq_some {t t' : ParameterTable} {name : String}
    {e : ParameterEntry} (h : t.Grows t') (ht : t.Built) (he : t.entry? name = some e) :
    t'.entry? name = some e := by
  obtain ⟨added, hentries, -⟩ := h.exists_added
  exact ht.coherent.entry?_of_entries_eq_append (h.built ht).coherent hentries he

/-- **What builders are handed**: at any call that hands over a value, a number is finite and the
builder takes numbers, and the name of a parameter has an entry in the table, which the table
that the whole configuration leaves still has. -/
theorem handed_value_usable (b : Builder σ) (site : Site) (ds : List NodeDeclaration) (s : σ)
    {t : ParameterTable} (ht : t.Built) (position : Nat) {m : Model (Watched σ)}
    {r : Except ConfigurationError Summary}
    (hrun : (configure (Watched.builder b) site ds).runFrom ⟨{ inner := s, left := position }, t⟩ =
      (r, m))
    {c : BuilderCall} (hc : m.builder.endedAt = some c) {v : ConstraintValue}
    (hv : c.value? = some v) :
    (∀ x, v = .literal x → Number.isFinite x = true ∧ b.acceptsLiterals m.builder.inner = true) ∧
    ∀ name, v = .parameter name → ∃ e, m.table.entry? name = some e ∧
      ((configure b site ds).runFrom ⟨s, t⟩).2.table.entry? name = some e := by
  have hbuilt : m.table.Built := by
    have hgrows := (stepRelation_grows (Watched.builder b) site).configure ds
      ⟨{ inner := s, left := position }, t⟩ ht
    rw [hrun] at hgrows
    exact hgrows.built ht
  have hfollows := Watched.configure_follows b site ds
    (w := { inner := s, left := position }) rfl ht
  rw [hrun] at hfollows
  generalize (configure b site ds).runFrom ⟨s, t⟩ = whole at hfollows ⊢
  cases hfollows with
  | inStep hs =>
    rw [hs.2] at hc
    cases hc
  | @cut c' e r w s' t' m' hrefused husable honward =>
    obtain ⟨rfl, hended⟩ := hrefused
    obtain rfl : c' = c := Option.some.inj (hended.symm.trans hc)
    have hvalue := husable v hv
    refine ⟨?_, ?_⟩
    · rintro x rfl
      exact hvalue
    · rintro name rfl
      obtain ⟨e, he, hname⟩ := List.mem_map.mp hvalue
      have hentry := hbuilt.coherent.entry?_eq_some_iff.mpr ⟨he, hname⟩
      exact ⟨e, hentry, (honward hbuilt).entry?_eq_some hbuilt hentry⟩

/-- A builder that only remembers whether it has a node. -/
def singleNode : Builder Bool where
  addNode _ _ := fun _ => (.ok ⟨0, by decide⟩, true)
  setCost _ _ := pure ()
  setConstraint _ _ _ := pure ()
  containsNode s _ := s
  containsName s _ := s
  acceptsLiterals _ := true

/-- Its first call registers the sink, and its second one hands over the cost. -/
theorem handed_value_usable_cost : ∃ r m,
    (configure (Watched.builder singleNode) ⟨⟨[], []⟩, "."⟩
        [.flow .output "city" { cost := some (.literal 1.5) }]).runFrom
      ⟨{ inner := false, left := 1 }, .empty⟩ = (r, m) ∧
      m.builder.endedAt = some (.setCost ⟨"city", none⟩ (.literal 1.5)) ∧
      Number.isFinite 1.5 = true ∧ singleNode.acceptsLiterals m.builder.inner = true := by
  rcases hrun : (configure (Watched.builder singleNode) ⟨⟨[], []⟩, "."⟩
    [.flow .output "city" { cost := some (.literal 1.5) }]).runFrom
    ⟨{ inner := false, left := 1 }, .empty⟩ with ⟨r, m⟩
  have hended : m.builder.endedAt = some (.setCost ⟨"city", none⟩ (.literal 1.5)) := by
    rw [← show (r, m).2 = m from rfl, ← hrun]
    rfl
  exact ⟨r, m, hrun, hended,
    (handed_value_usable singleNode _ _ false .empty 1 hrun hended rfl).1 1.5 rfl⟩

end WaterNetwork
