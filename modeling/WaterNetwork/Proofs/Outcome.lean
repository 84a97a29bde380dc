import Mathlib.Data.List.Induction
import WaterNetwork.Proofs.Network
import WaterNetwork.Proofs.Settlement

/-!
# How a configuration of a network ends

On a network, and with room for the terminals to be registered, a configuration ends in one of
three ways (`Ends`), and each leaves a network made by a list of calls that can be told in
advance:

* `configure_duplicate` — a name is in use; the nodes before it have been registered.
* `configure_unresolved` — all nodes have been registered, and a setting does not resolve; the
  settings before it have been made.
* `configure_settled` — all nodes have been registered and all settings made.

No call of a configuration fails otherwise: registering fails only if the name is in use
(`create_of_vacant`), and setting a value does not fail on a registered terminal.
-/

namespace WaterNetwork

open Attempt Configuring Network Settling

variable {n n' : Network} {t t' : ParameterTable} {site : Site} {d : NodeDeclaration}
  {ds before after : List NodeDeclaration} {cs : List BuilderCall}

/-! ### Fresh declarations -/

/-- **Fresh declarations**: their names are different, and none of them is in use. -/
structure Fresh (n : Network) (ds : List NodeDeclaration) : Prop where
  nodup : (ds.map (·.name)).Nodup
  vacant : ∀ d ∈ ds, ∀ r ∈ n.nodes, r.terminal.node ≠ d.name

/-- A name is taken if it is in use or an earlier declaration has it. -/
def Taken (n : Network) (before : List NodeDeclaration) (name : String) : Prop :=
  (∃ r ∈ n.nodes, r.terminal.node = name) ∨ ∃ d ∈ before, d.name = name

theorem fresh_concat_iff : Fresh n (before ++ [d]) ↔ Fresh n before ∧ ¬ Taken n before d.name := by
  constructor
  · rintro ⟨hnodup, hvacant⟩
    rw [List.map_append, List.nodup_append] at hnodup
    refine ⟨⟨hnodup.1, fun d' hd' => hvacant d' (List.mem_append_left _ hd')⟩, ?_⟩
    rintro (⟨r, hr, hname⟩ | ⟨d', hd', hname⟩)
    · exact hvacant d (List.mem_append_right _ (List.mem_singleton_self d)) r hr hname
    · exact hnodup.2.2 _ (List.mem_map_of_mem hd') _ (by simp) hname
  · rintro ⟨⟨hnodup, hvacant⟩, hfree⟩
    refine ⟨?_, ?_⟩
    · rw [List.map_append, List.nodup_append]
      refine ⟨hnodup, List.nodup_singleton _, ?_⟩
      rintro _ hmem _ hd rfl
      obtain ⟨d', hd', hname⟩ := List.mem_map.mp hmem
      exact hfree (.inr ⟨d', hd', hname.trans (List.mem_singleton.mp hd)⟩)
    · intro d' hd' r hr hname
      rcases List.mem_append.mp hd' with hd' | hd'
      · exact hvacant d' hd' r hr hname
      · exact hfree (.inl ⟨r, hr, hname.trans (congrArg _ (List.mem_singleton.mp hd'))⟩)

theorem not_taken_of_fresh (h : Fresh n (before ++ d :: after)) : ¬ Taken n before d.name := by
  obtain ⟨hnodup, hvacant⟩ := h
  rintro (⟨r, hr, hname⟩ | ⟨d', hd', hname⟩)
  · exact hvacant d (by simp) r hr hname
  · rw [List.map_append, List.map_cons] at hnodup
    exact List.disjoint_of_nodup_append hnodup (List.mem_map_of_mem hd') (by simp [hname])

/-- Declarations are fresh, or one of them is the first whose name is taken. -/
theorem fresh_or_taken (n : Network) (ds : List NodeDeclaration) :
    Fresh n ds ∨ ∃ before d after, ds = before ++ d :: after ∧ Fresh n before ∧
      Taken n before d.name := by
  induction ds using List.reverseRecOn with
  | nil => exact .inl ⟨List.nodup_nil, by simp⟩
  | append_singleton ds d ih =>
    rcases ih with hfresh | ⟨before, d', after, rfl, hfresh, htaken⟩
    · by_cases htaken : Taken n ds d.name
      · exact .inr ⟨ds, d, [], rfl, hfresh, htaken⟩
      · exact .inl (fresh_concat_iff.mpr ⟨hfresh, htaken⟩)
    · exact .inr ⟨before, d', after ++ [d], by simp, hfresh, htaken⟩

/-! ### Creating -/

theorem runFrom_call_performAll (h : Performs n cs n') :
    (call (Network.builder.performAll cs)).runFrom ⟨n, t⟩ = (.ok (), ⟨n', t⟩) := by
  rw [runFrom_call, show (Network.builder.performAll cs).runFrom n = (.ok (), n') from h]
  rfl

namespace NodeDeclaration

theorem isNone_occupied? (hn : n.Coherent) :
    (d.occupied? Network.builder n).isNone = !n.containsName d.name := by
  cases hname : n.containsName d.name with
  | true =>
    rw [occupied?, show Network.builder.containsName n d.name = true from hname, if_pos rfl]
    generalize d.subIndices.find? _ = found
    cases found with
    | some sub => rfl
    | none => cases d <;> rfl
  | false =>
    have hno : ∀ sub, n.containsNode ⟨d.name, sub⟩ = false := fun sub =>
      hn.containsNode_eq_false (t := ⟨d.name, sub⟩) hname
    simp [occupied?, Network.builder, hname, hno]

theorem create_of_vacant (hn : n.Coherent) (hfree : n.containsName d.name = false)
    (h : Performs n d.registrations n') :
    (d.create Network.builder).runFrom ⟨n, t⟩ = (.ok (), ⟨n', t⟩) := by
  rw [create_eq, runFrom_bind_ok (runFrom_ensure_true (by simp [isNone_occupied? hn, hfree]))]
  exact runFrom_call_performAll h

theorem create_of_taken (hn : n.Coherent) (htaken : n.containsName d.name = true) :
    ∃ sub, (d.create Network.builder).runFrom ⟨n, t⟩ =
      (.error (.network (.duplicateNode ⟨d.name, sub⟩)), ⟨n, t⟩) := by
  rw [create_eq, runFrom_bind_error (runFrom_ensure_false (by simp [isNone_occupied? hn, htaken]))]
  exact ⟨_, rfl⟩

end NodeDeclaration

/-! ### Creating all nodes -/

/-- The calls that register declarations register their terminals. -/
theorem filterMap_registrations (ds : List NodeDeclaration) :
    (registrations ds).filterMap (·.registers?) = namedTerminals ds := by
  simp [registrations, namedTerminals, NodeDeclaration.registrations, List.filterMap_flatMap,
    List.filterMap_map, BuilderCall.registers?]

theorem exists_mem_namedTerminals_iff {name : String} :
    (∃ p ∈ namedTerminals ds, p.2.node = name) ↔ ∃ d ∈ ds, d.name = name := by
  simp only [namedTerminals, List.mem_flatMap]
  constructor
  · rintro ⟨p, ⟨d, hd, hp⟩, hname⟩
    obtain ⟨_, -, rfl⟩ := List.mem_map.mp hp
    exact ⟨d, hd, hname⟩
  · rintro ⟨d, hd, hname⟩
    cases d with
    | flow kind name' c => exact ⟨_, ⟨_, hd, List.mem_cons_self ..⟩, hname⟩
    | delay name' steps x => exact ⟨_, ⟨_, hd, List.mem_cons_self ..⟩, hname⟩

/-- The names that are in use after the terminals of declarations have been registered. -/
theorem containsName_iff_taken (h : n'.registered = n.registered ++ namedTerminals ds)
    {name : String} : n'.containsName name = true ↔ Taken n ds name := by
  rw [containsName_iff_registered, h, Taken, ← exists_mem_namedTerminals_iff,
    ← containsName_iff, containsName_iff_registered]
  simp only [List.mem_append, or_and_right, exists_or]

theorem containsName_of_performed (h : n.Performed (registrations ds) n') {name : String} :
    n'.containsName name = true ↔ Taken n ds name :=
  containsName_iff_taken (by rw [h.registered, filterMap_registrations])

/-- Declarations are fresh just if the first ones are, and the others are once the first ones have
been registered. -/
theorem fresh_append_iff {es : List NodeDeclaration}
    (h : n'.registered = n.registered ++ namedTerminals ds) :
    Fresh n (ds ++ es) ↔ Fresh n ds ∧ Fresh n' es := by
  have hvacant (d : NodeDeclaration) :
      (∀ r ∈ n'.nodes, r.terminal.node ≠ d.name) ↔ ¬ Taken n ds d.name := by
    rw [← containsName_iff_taken h, containsName_iff]
    simp
  constructor
  · rintro ⟨hnodup, hfree⟩
    rw [List.map_append, List.nodup_append] at hnodup
    refine ⟨⟨hnodup.1, fun d hd => hfree d (List.mem_append_left _ hd)⟩, hnodup.2.1, ?_⟩
    intro d hd
    rw [hvacant]
    rintro (⟨r, hr, hname⟩ | ⟨d', hd', hname⟩)
    · exact hfree d (List.mem_append_right _ hd) r hr hname
    · exact hnodup.2.2 _ (List.mem_map_of_mem hd') _ (List.mem_map_of_mem hd) hname
  · rintro ⟨⟨hds, hfree⟩, hes, hfree'⟩
    have htaken : ∀ d ∈ es, ¬ Taken n ds d.name := fun d hd => (hvacant d).mp (hfree' d hd)
    refine ⟨?_, fun d hd => ?_⟩
    · rw [List.map_append, List.nodup_append]
      refine ⟨hds, hes, ?_⟩
      rintro _ hmem _ hmem' rfl
      obtain ⟨d, hd, hname⟩ := List.mem_map.mp hmem
      obtain ⟨d', hd', rfl⟩ := List.mem_map.mp hmem'
      exact htaken d' hd' (.inr ⟨d, hd, hname⟩)
    · rcases List.mem_append.mp hd with hd | hd
      · exact hfree d hd
      · exact fun r hr hname => htaken d hd (.inl ⟨r, hr, hname⟩)

/-- **Creating fresh declarations** registers all their terminals, if there is room. -/
theorem runFrom_createNodes (hn : n.Coherent) (hfresh : Fresh n ds)
    (hroom : n.nodes.length + terminalCount ds ≤ Ident.limit) :
    ∃ n', (createNodes Network.builder ds).runFrom ⟨n, t⟩ = (.ok (), ⟨n', t⟩) ∧
      Performs n (registrations ds) n' := by
  induction ds using List.reverseRecOn with
  | nil => exact ⟨n, rfl, .nil⟩
  | append_singleton ds d ih =>
    obtain ⟨hfresh, hfree⟩ := fresh_concat_iff.mp hfresh
    rw [terminalCount_append] at hroom
    obtain ⟨n₁, hrun₁, hcs₁⟩ := ih hfresh (by omega)
    have hp := hn.performed hcs₁
    have hvacant : n₁.containsName d.name = false := by
      rw [Bool.eq_false_iff]
      exact fun hname => hfree ((containsName_of_performed hp).mp hname)
    have hlen : n₁.nodes.length = n.nodes.length + terminalCount ds := by
      rw [hp.length_nodes, filterMap_registrations, length_namedTerminals]
    obtain ⟨n₂, hcs₂⟩ := hp.coherent.exists_performs_registrations hvacant (by
      rw [hlen]
      simpa [terminalCount, Nat.add_assoc] using hroom)
    refine ⟨n₂, ?_, ?_⟩
    · rw [createNodes, runFrom_forM_append_ok _ hrun₁, List.forM_cons, List.forM_nil,
        bind_pure_unit]
      exact NodeDeclaration.create_of_vacant hp.coherent hvacant hcs₂
    · rw [registrations, List.flatMap_append, List.flatMap_singleton]
      exact hcs₁.append hcs₂

/-- Creating stops at the first declaration whose name is taken, before anything is registered
for it. -/
theorem runFrom_createNodes_taken (after : List NodeDeclaration) (hn : n.Coherent)
    (hfresh : Fresh n before) (htaken : Taken n before d.name)
    (hroom : n.nodes.length + terminalCount before ≤ Ident.limit) :
    ∃ n' sub, (createNodes Network.builder (before ++ d :: after)).runFrom ⟨n, t⟩ =
        (.error (.network (.duplicateNode ⟨d.name, sub⟩)), ⟨n', t⟩) ∧
      Performs n (registrations before) n' := by
  obtain ⟨n', hrun, hcs⟩ := runFrom_createNodes (t := t) hn hfresh hroom
  have hp := hn.performed hcs
  obtain ⟨sub, herr⟩ := NodeDeclaration.create_of_taken (t := t) hp.coherent
    ((containsName_of_performed hp).mpr htaken)
  refine ⟨n', sub, ?_, hcs⟩
  rw [createNodes, runFrom_forM_append_ok _ hrun, runFrom_forM_cons_error _ herr]

/-! ### Making settings -/

theorem registers?_of_mem_calls {s : Setting} {v : ConstraintValue} {c : BuilderCall}
    (h : c ∈ s.calls v) : c.registers? = none := by
  have hv := Setting.value?_of_mem_calls h
  cases c with
  | addNode kind t => cases hv
  | setCost t value | setConstraint t role value => rfl

theorem runFrom_apply_error {σ : Type} {b : Builder σ} {m : Model σ} {s : Setting}
    {e : ParameterError}
    (h : (s.resolve site (b.acceptsLiterals m.builder)).runFrom m.table = (.error e, m.table)) :
    (s.apply b site).runFrom m = (.error (.unresolved s.terminal.node s.purpose e), m) :=
  runFrom_bind_error (runFrom_resolving_error h)

/-- A setting that resolves is made, if its terminal is registered. -/
theorem runFrom_apply_ok (hn : n.Coherent) {s : Setting} {v : ConstraintValue}
    (hreg : n.containsNode s.terminal = true)
    (h : (s.resolve site n.acceptsLiterals).runFrom t = (.ok v, t')) :
    ∃ n', (s.apply Network.builder site).runFrom ⟨n, t⟩ = (.ok (), ⟨n', t'⟩) ∧
      Performs n (s.calls v) n' := by
  obtain ⟨n', hcs⟩ := hn.exists_performs_set (fun c hc => registers?_of_mem_calls hc)
    fun c hc => (Setting.terminal_of_mem_calls hc).symm ▸ hreg
  refine ⟨n', ?_, hcs⟩
  rw [Setting.apply, runFrom_bind_ok (runFrom_resolving_ok h)]
  exact runFrom_call_performAll hcs

/-- Settings that settle are all made. -/
theorem runFrom_settings (hn : n.Coherent) (ht : t.Built) {ss : List Setting}
    (hreg : ∀ s ∈ ss, n.containsNode s.terminal = true)
    (h : Settles site n.acceptsLiterals ss t t') :
    ∃ n', (forM ss (Setting.apply Network.builder site)).runFrom ⟨n, t⟩ = (.ok (), ⟨n', t'⟩) ∧
      Performs n (handed n.acceptsLiterals ss) n' := by
  generalize haccepts : n.acceptsLiterals = accepts at h
  induction h generalizing n with
  | nil => exact ⟨n, rfl, .nil⟩
  | @cons s ss v t t₁ t₂ hs h ih =>
    rw [List.forall_mem_cons] at hreg
    obtain ⟨n₁, hrun₁, hcs₁⟩ := runFrom_apply_ok (t := t) hn hreg.1 (haccepts ▸ hs)
    have hp := hn.performed hcs₁
    obtain ⟨-, rfl, hadds⟩ := (ConstraintField.resolve_eq_ok_iff ht.coherent).mp hs
    obtain ⟨n₂, hrun₂, hcs₂⟩ := ih hp.coherent (hadds.built ht)
      (fun s' hs' => hp.containsNode hn (hreg.2 s' hs')) (hp.acceptsLiterals.trans haccepts)
    refine ⟨n₂, ?_, ?_⟩
    · rw [runFrom_forM_cons_ok _ hrun₁, hrun₂]
    · rw [handed_cons]
      exact hcs₁.append hcs₂

/-! ### Constraining all nodes -/

theorem index_perform_set {c : BuilderCall} (hc : c.registers? = none) :
    Respects (fun n n' : Network => n'.index = n.index) (builder.perform c) := by
  intro n
  rcases h : (builder.perform c).runFrom n with ⟨e | ⟨⟩, n'⟩
  · rw [perform_error h]
  · exact index_of_perform_set hc h

/-- Making settings leaves the index of a network as it is. -/
theorem respects_settings (site : Site) (ss : List Setting) :
    Respects (fun m m' : Model Network => m'.builder.index = m.builder.index)
      (forM ss (Setting.apply Network.builder site)) := by
  intro m
  refine Respects.forM (R := fun m m' : Model Network => m'.builder.index = m.builder.index)
    (fun _ => rfl) (fun _ _ _ h₁ h₂ => h₂.trans h₁) (fun s _ => ?_) m
  refine Respects.bind (fun _ _ _ h₁ h₂ => h₂.trans h₁) ?_ fun v => ?_
  · exact respects_resolving fun _ => rfl
  · exact respects_call fun m => Respects.forM (R := fun n n' : Network => n'.index = n.index)
      (fun _ => rfl) (fun _ _ _ h₁ h₂ => h₂.trans h₁)
      (fun c hc => index_perform_set (registers?_of_mem_calls hc)) m.builder

/-- Once all terminals of some declarations are registered, constraining these is making their
settings. -/
theorem runFrom_constrainNodes
    (hreg : ∀ d ∈ ds, ∀ sub ∈ d.subIndices, n.containsNode ⟨d.name, sub⟩ = true) :
    (constrainNodes Network.builder site ds).runFrom ⟨n, t⟩ =
      (forM (walk ds) (Setting.apply Network.builder site)).runFrom ⟨n, t⟩ := by
  induction ds generalizing n t with
  | nil => rfl
  | cons d ds ih =>
    rw [List.forall_mem_cons] at hreg
    have hd : (d.constrain Network.builder site).runFrom ⟨n, t⟩ =
        (forM d.settings (Setting.apply Network.builder site)).runFrom ⟨n, t⟩ := by
      rw [NodeDeclaration.constrain_eq, runFrom_bind_ok (runFrom_ensure_true _)]
      exact List.all_eq_true.mpr hreg.1
    have hindex := respects_settings site d.settings ⟨n, t⟩
    rw [walk_cons]
    rcases hrun : (forM d.settings (Setting.apply Network.builder site)).runFrom ⟨n, t⟩ with
      ⟨e | ⟨⟩, ⟨n₁, t₁⟩⟩
    · rw [hrun] at hd
      rw [constrainNodes, runFrom_forM_cons_error _ hd, List.forM_append, runFrom_bind_error hrun]
    · rw [hrun] at hd hindex
      rw [constrainNodes, runFrom_forM_cons_ok _ hd, runFrom_forM_append_ok _ hrun]
      refine ih fun d' hd' sub hsub => ?_
      rw [containsNode, show n₁.index = n.index from hindex]
      exact hreg.2 d' hd' sub hsub

/-! ### The three outcomes -/

theorem containsNode_of_performed (h : n.Performed (registrations ds) n') (hd : d ∈ ds)
    {sub : Option SubIndex} (hsub : sub ∈ d.subIndices) :
    n'.containsNode ⟨d.name, sub⟩ = true := by
  obtain ⟨⟨kind, sub'⟩, hmem, rfl⟩ := List.mem_map.mp hsub
  refine h.coherent.containsNode_iff.mpr ⟨kind, ?_⟩
  rw [h.registered, filterMap_registrations]
  exact List.mem_append_right _ (List.mem_flatMap.mpr ⟨d, hd, List.mem_map.mpr ⟨_, hmem, rfl⟩⟩)

/-- Every setting of the walk is made on a terminal that has been registered. -/
theorem containsNode_of_mem_walk (h : n.Performed (registrations ds) n') {s : Setting}
    (hs : s ∈ walk ds) : n'.containsNode s.terminal = true := by
  obtain ⟨d, hd, hs⟩ := mem_walk.mp hs
  obtain ⟨hnode, hsub⟩ := NodeDeclaration.terminal_of_mem_settings hs
  have hin := containsNode_of_performed h hd hsub
  rwa [← hnode] at hin

/-- A configuration of fresh declarations registers all their terminals, if there is room, and
then makes their settings. -/
theorem runFrom_created (site : Site) (hn : n.Coherent) (hfresh : Fresh n ds)
    (hroom : n.nodes.length + terminalCount ds ≤ Ident.limit) :
    ∃ n₁, Performs n (registrations ds) n₁ ∧ n₁.Coherent ∧
      n₁.acceptsLiterals = n.acceptsLiterals ∧
      (∀ s ∈ walk ds, n₁.containsNode s.terminal = true) ∧
      (do createNodes Network.builder ds; constrainNodes Network.builder site ds).runFrom ⟨n, t⟩ =
        (forM (walk ds) (Setting.apply Network.builder site)).runFrom ⟨n₁, t⟩ := by
  obtain ⟨n₁, hrun, hcs⟩ := runFrom_createNodes (t := t) hn hfresh hroom
  have hp := hn.performed hcs
  refine ⟨n₁, hcs, hp.coherent, hp.acceptsLiterals, fun _ => containsNode_of_mem_walk hp, ?_⟩
  rw [runFrom_bind_ok hrun]
  exact runFrom_constrainNodes fun d hd sub hsub => containsNode_of_performed hp hd hsub

/-- **A name in use** ends a configuration before anything is registered for it. -/
theorem configure_duplicate (site : Site) (after : List NodeDeclaration) (hn : n.Coherent)
    (hfresh : Fresh n before) (htaken : Taken n before d.name)
    (hroom : n.nodes.length + terminalCount before ≤ Ident.limit) :
    ∃ n' sub, (configure Network.builder site (before ++ d :: after)).runFrom ⟨n, t⟩ =
        (.error (.network (.duplicateNode ⟨d.name, sub⟩)), ⟨n', t⟩) ∧
      Performs n (registrations before) n' := by
  obtain ⟨n', sub, hrun, hcs⟩ :=
    runFrom_createNodes_taken (t := t) after hn hfresh htaken hroom
  refine ⟨n', sub, ?_, hcs⟩
  rw [configure_runFrom, runFrom_bind_error hrun]
  rfl

/-- **Settings that settle** are all made, after all nodes have been registered. -/
theorem configure_settled (hn : n.Coherent) (ht : t.Built) (hfresh : Fresh n ds)
    (hroom : n.nodes.length + terminalCount ds ≤ Ident.limit)
    (h : Settles site n.acceptsLiterals (walk ds) t t') :
    ∃ n', (configure Network.builder site ds).runFrom ⟨n, t⟩ =
        (.ok { nodes := ds.length, terminals := terminalCount ds,
               parametersAdded := t'.size - t.size }, ⟨n', t'⟩) ∧
      Performs n (registrations ds ++ handed n.acceptsLiterals (walk ds)) n' := by
  obtain ⟨n₁, hcs₁, hn₁, haccepts, hreg, hrun⟩ :=
    runFrom_created (t := t) site hn hfresh hroom
  rw [← haccepts] at h ⊢
  obtain ⟨n', hrun', hcs'⟩ := runFrom_settings hn₁ ht hreg h
  refine ⟨n', ?_, hcs₁.append hcs'⟩
  rw [configure_runFrom, hrun, hrun']
  rfl

/-- **A setting that does not resolve** ends a configuration, after all nodes have been
registered and the settings before it have been made. -/
theorem configure_unresolved (hn : n.Coherent) (ht : t.Built) (hfresh : Fresh n ds)
    (hroom : n.nodes.length + terminalCount ds ≤ Ident.limit) {earlier later : List Setting}
    {s : Setting} {e : ParameterError} (hwalk : walk ds = earlier ++ s :: later)
    (h : Settles site n.acceptsLiterals earlier t t')
    (he : (s.resolve site n.acceptsLiterals).runFrom t' = (.error e, t')) :
    ∃ n', (configure Network.builder site ds).runFrom ⟨n, t⟩ =
        (.error (.unresolved s.terminal.node s.purpose e), ⟨n', t'⟩) ∧
      Performs n (registrations ds ++ handed n.acceptsLiterals earlier) n' := by
  obtain ⟨n₁, hcs₁, hn₁, haccepts, hreg, hrun⟩ :=
    runFrom_created (t := t) site hn hfresh hroom
  rw [← haccepts] at h he ⊢
  rw [hwalk] at hreg hrun
  obtain ⟨n', hrun', hcs'⟩ := runFrom_settings hn₁ ht
    (fun s' hs' => hreg s' (List.mem_append_left _ hs')) h
  have haccepts' := (hn₁.performed hcs').acceptsLiterals
  have hs := runFrom_apply_error (b := Network.builder) (m := ⟨n', t'⟩)
    (show (s.resolve site n'.acceptsLiterals).runFrom t' = (.error e, t') by
      rw [haccepts', he])
  refine ⟨n', ?_, hcs₁.append hcs'⟩
  rw [configure_runFrom, hrun, runFrom_forM_append_ok _ hrun', runFrom_forM_cons_error _ hs]
  rfl

/-- **How a configuration ends**: its outcome and the model that it leaves. -/
inductive Ends (n : Network) (t : ParameterTable) (site : Site) (ds : List NodeDeclaration) :
    Except ConfigurationError Summary × Model Network → Prop where
  | duplicate {before after : List NodeDeclaration} {d : NodeDeclaration} {n' : Network}
      {sub : Option SubIndex} :
    ds = before ++ d :: after → Fresh n before → Taken n before d.name →
    Performs n (registrations before) n' →
    Ends n t site ds (.error (.network (.duplicateNode ⟨d.name, sub⟩)), ⟨n', t⟩)
  | unresolved {earlier later : List Setting} {s : Setting} {n' : Network} {t' : ParameterTable}
      {e : ParameterError} :
    Fresh n ds → walk ds = earlier ++ s :: later →
    Settles site n.acceptsLiterals earlier t t' →
    (s.resolve site n.acceptsLiterals).runFrom t' = (.error e, t') →
    Performs n (registrations ds ++ handed n.acceptsLiterals earlier) n' →
    Ends n t site ds (.error (.unresolved s.terminal.node s.purpose e), ⟨n', t'⟩)
  | settled {n' : Network} {t' : ParameterTable} :
    Fresh n ds → Settles site n.acceptsLiterals (walk ds) t t' →
    Performs n (registrations ds ++ handed n.acceptsLiterals (walk ds)) n' →
    Ends n t site ds (.ok { nodes := ds.length, terminals := terminalCount ds,
                            parametersAdded := t'.size - t.size }, ⟨n', t'⟩)

/-- As long as there is room for the terminals, a configuration ends in one of these ways. -/
theorem configure_ends (site : Site) (hn : n.Coherent) (ht : t.Built)
    (hroom : n.nodes.length + terminalCount ds ≤ Ident.limit) :
    Ends n t site ds ((configure Network.builder site ds).runFrom ⟨n, t⟩) := by
  rcases fresh_or_taken n ds with hfresh | ⟨before, d, after, rfl, hfresh, htaken⟩
  · rcases settles_or_fails site n.acceptsLiterals (walk ds) t with
      ⟨t', h⟩ | ⟨earlier, s, later, t', e, hwalk, h, he⟩
    · obtain ⟨n', hrun, hcs⟩ := configure_settled hn ht hfresh hroom h
      exact hrun ▸ .settled hfresh h hcs
    · obtain ⟨n', hrun, hcs⟩ := configure_unresolved hn ht hfresh hroom hwalk h he
      exact hrun ▸ .unresolved hfresh hwalk h he hcs
  · rw [terminalCount_append] at hroom
    obtain ⟨n', sub, hrun, hcs⟩ := configure_duplicate (t := t) site after hn hfresh htaken
      (by omega)
    exact hrun ▸ .duplicate rfl hfresh htaken hcs

/-- **When a configuration ends well, and with what**: its declarations are fresh, its settings
settle, and the calls of both are performed. -/
theorem configure_eq_ok_iff (hn : n.Coherent) (ht : t.Built)
    (hroom : n.nodes.length + terminalCount ds ≤ Ident.limit) {summary : Summary}
    {m : Model Network} :
    (configure Network.builder site ds).runFrom ⟨n, t⟩ = (.ok summary, m) ↔
      Fresh n ds ∧ Settles site n.acceptsLiterals (walk ds) t m.table ∧
        Performs n (registrations ds ++ handed n.acceptsLiterals (walk ds)) m.builder ∧
        summary = { nodes := ds.length, terminals := terminalCount ds,
                    parametersAdded := m.table.size - t.size } := by
  constructor
  · intro h
    have hends := configure_ends site hn ht hroom
    rw [h] at hends
    cases hends with
    | settled hfresh hsettles hcs => exact ⟨hfresh, hsettles, hcs, rfl⟩
  · rintro ⟨hfresh, hsettles, hcs, rfl⟩
    obtain ⟨n', hrun, hcs'⟩ := configure_settled hn ht hfresh hroom hsettles
    rw [hrun, hcs'.unique hcs]

end WaterNetwork
