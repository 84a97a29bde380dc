import WaterNetwork.Json.Decoding
import WaterNetwork.Proofs.Content.Accepted

/-!
# What is read as a definition from a tree

A tagged value is not read at once: its tag is read where it stands, and the other entries are
collected. This comes to the same as collecting the whole value first, but for the tag, which has
to be a text. The name of a named parameter is treated alike (`Collects`). So what is read from a
tree is what its content stands for.

* `readTagged_eq_ok_iff` — reading a tagged value is reading its content.
* `readDefinition_eq_ok_iff`, `readNamed_eq_ok_iff` — definitions and named parameters.
* `readDefinition_outcome` — both together.
-/

namespace WaterNetwork

open Content (keyed record under beside IsDefinition IsNamed IsKind given)

namespace Json

variable {α κ : Type} {room : ℕ} {key : String} {j : Json} {c : Content}

/-! ### Contents of collections -/

theorem fitting_eq_ok_iff {result : Except Mismatch α} {a : α} :
    fitting result = .ok a ↔ result = .ok a := by
  cases result <;> simp [fitting, Except.mapError]

theorem entryContents_cons_iff {e : Option String × Json} {entries : List (Option String × Json)}
    {cs : List (Content × Content)} : entryContents room (e :: entries) = .ok cs ↔
      ∃ key c cs', e.1 = some key ∧ content room e.2 = .ok c ∧
        entryContents room entries = .ok cs' ∧ cs = (.string key, c) :: cs' := by
  obtain ⟨_ | key, value⟩ := e
  · simp [entryContents, entryContent, bind, Except.bind]
  · rw [entryContents, entryContent]
    simp only [bind_eq_ok_iff, pure, Except.pure, Except.ok.injEq, Option.some.injEq]
    constructor
    · rintro ⟨_, ⟨c, hc, rfl⟩, cs', hcs, rfl⟩
      exact ⟨key, c, cs', rfl, hc, hcs, rfl⟩
    · rintro ⟨_, c, cs', rfl, hc, hcs, rfl⟩
      exact ⟨_, ⟨c, hc, rfl⟩, cs', hcs, rfl⟩

/-- The keys of entries that have been collected are texts. -/
theorem exists_keyed_of_entryContents {entries : List (Option String × Json)}
    {cs : List (Content × Content)} (h : entryContents room entries = .ok cs) :
    ∃ es, cs = keyed es ∧ ∀ e ∈ es, ∃ j, content room j = .ok e.2 := by
  induction entries generalizing cs with
  | nil =>
    cases h
    exact ⟨[], rfl, List.forall_mem_nil _⟩
  | cons e entries ih =>
    obtain ⟨key, c, cs', -, hc, hcs, rfl⟩ := entryContents_cons_iff.mp h
    obtain ⟨es, rfl, hes⟩ := ih hcs
    exact ⟨(key, c) :: es, rfl, List.forall_mem_cons.mpr ⟨⟨e.2, hc⟩, hes⟩⟩

theorem entryContents_keyed_cons_iff {name : String} {value : Json}
    {entries : List (Option String × Json)} {es : List (String × Content)} :
    entryContents room ((some name, value) :: entries) = .ok (keyed es) ↔
      ∃ c es', content room value = .ok c ∧ entryContents room entries = .ok (keyed es') ∧
        es = (name, c) :: es' := by
  rw [entryContents_cons_iff]
  constructor
  · rintro ⟨_, c, cs', ⟨⟩, hc, hcs, heq⟩
    obtain ⟨es', rfl, -⟩ := exists_keyed_of_entryContents hcs
    exact ⟨c, es', hc, hcs, Content.keyed_injective heq⟩
  · rintro ⟨c, es', hc, hcs, rfl⟩
    exact ⟨name, c, keyed es', rfl, hc, hcs, rfl⟩

theorem content_object_iff {entries : List (Option String × Json)} :
    content room (.object entries) = .ok c ↔
      ∃ inner es, enter room = .ok inner ∧ entryContents inner entries = .ok (keyed es) ∧
        c = record es := by
  rw [content]
  simp only [bind_eq_ok_iff, pure, Except.pure, Except.ok.injEq]
  constructor
  · rintro ⟨inner, hroom, cs, hcs, rfl⟩
    obtain ⟨es, rfl, -⟩ := exists_keyed_of_entryContents hcs
    exact ⟨inner, es, hroom, hcs, rfl⟩
  · rintro ⟨inner, es, hroom, hcs, rfl⟩
    exact ⟨inner, hroom, _, hcs, rfl⟩

theorem content_array_iff {items : List Json} : content room (.array items) = .ok c ↔
    ∃ inner cs, enter room = .ok inner ∧ contents inner items = .ok cs ∧ c = .sequence cs := by
  rw [content]
  simp only [bind_eq_ok_iff, pure, Except.pure, Except.ok.injEq]
  constructor
  · rintro ⟨inner, hroom, cs, hcs, rfl⟩
    exact ⟨inner, cs, hroom, hcs, rfl⟩
  · rintro ⟨inner, cs, hroom, hcs, rfl⟩
    exact ⟨inner, hroom, cs, hcs, rfl⟩

theorem contents_cons_iff {item : Json} {items : List Json} {cs : List Content} :
    contents room (item :: items) = .ok cs ↔
      ∃ c cs', content room item = .ok c ∧ contents room items = .ok cs' ∧ cs = c :: cs' := by
  rw [contents]
  simp only [bind_eq_ok_iff, pure, Except.pure, Except.ok.injEq]
  constructor
  · rintro ⟨c, hc, cs', hcs, rfl⟩
    exact ⟨c, cs', hc, hcs, rfl⟩
  · rintro ⟨c, cs', hc, hcs, rfl⟩
    exact ⟨c, hc, cs', hcs, rfl⟩

/-- Only texts are keys in a tree. -/
theorem hasTextKeys_of_content (h : content room j = .ok c) : c.HasTextKeys := by
  rintro entries rfl
  cases j with
  | object entries' =>
    obtain ⟨inner, es, -, -, hes⟩ := content_object_iff.mp h
    exact ⟨es, hes⟩
  | array items =>
    obtain ⟨_, _, -, -, ⟨⟩⟩ := content_array_iff.mp h
  | _ => cases h

/-! ### Collecting -/

/-- **Collecting entries next to one that is read in its place**: the value under the key is read
where it stands, and may stand there once; the others are collected. -/
structure Collects (key : String) (room : ℕ) (read : Json → Except ReadFault α)
    (collect : Option α → List (Option String × Json) →
      Except ReadFault (Option α × List (Content × Content))) : Prop where
  nil (a? : Option α) : collect a? [] = .ok (a?, [])
  keyless (a? : Option α) (value : Json) (rest : List (Option String × Json)) :
    collect a? ((none, value) :: rest) = .error .malformed
  again (a : α) (value : Json) (rest : List (Option String × Json)) :
    collect (some a) ((some key, value) :: rest) = mismatch (.duplicateField key)
  first (value : Json) (rest : List (Option String × Json)) :
    collect none ((some key, value) :: rest) = read value >>= fun a => collect (some a) rest
  other (a? : Option α) (name : String) (value : Json) (rest : List (Option String × Json)) :
    name ≠ key → collect a? ((some name, value) :: rest) =
      content room value >>= fun c => collect a? rest >>= fun result =>
        .ok (result.1, (.string name, c) :: result.2)

theorem collects_collect (read : Content → Except Mismatch κ) (room : ℕ) :
    Collects tagKey room (readTag read) (collect read room) where
  nil a? := by rw [collect]
  keyless a? value rest := by cases a? <;> rw [collect]
  again a value rest := by rw [collect, if_pos rfl]
  first value rest := by rw [collect, if_pos rfl]
  other a? name value rest h := by
    cases a? <;> rw [collect, if_neg h] <;> rfl

theorem collects_collectNamed (room : ℕ) :
    Collects "name" room (readScalar (Content.readText "a string")) (collectNamed room) where
  nil a? := by rw [collectNamed]
  keyless a? value rest := by cases a? <;> rw [collectNamed]
  again a value rest := by rw [collectNamed, if_pos rfl]
  first value rest := by rw [collectNamed, if_pos rfl]
  other a? name value rest h := by
    cases a? <;> rw [collectNamed, if_neg h] <;> rfl

/-- **What is collected** is the entries under other keys, and what has been read stands once under
its key. -/
theorem Collects.eq_ok_iff {read : Json → Except ReadFault α}
    {collect : Option α → List (Option String × Json) →
      Except ReadFault (Option α × List (Content × Content))}
    {Is : Content → α → Prop} (h : Collects key room read collect)
    (hread : ∀ j a, read j = .ok a ↔ ∃ c, content room j = .ok c ∧ Is c a)
    {a? b? : Option α} {entries : List (Option String × Json)}
    {others : List (Content × Content)} :
    collect a? entries = .ok (b?, others) ↔
      ∃ es, entryContents room entries = .ok (keyed es) ∧ Once Is a? (under key es) b? ∧
        others = keyed (beside key es) := by
  induction entries generalizing a? b? others with
  | nil =>
    rw [h.nil]
    constructor
    · rintro ⟨⟩
      exact ⟨[], rfl, .kept _, rfl⟩
    · rintro ⟨es, hcs, honce, rfl⟩
      obtain rfl : [] = es := Content.keyed_injective (Except.ok.inj hcs)
      rw [Content.under_nil, Once.nil_iff] at honce
      rw [honce]
      rfl
  | cons e entries ih =>
    obtain ⟨_ | name, value⟩ := e
    · rw [h.keyless]
      constructor
      · rintro ⟨⟩
      · rintro ⟨es, hcs, -⟩
        obtain ⟨_, _, _, ⟨⟩, -⟩ := entryContents_cons_iff.mp hcs
    · simp only [entryContents_keyed_cons_iff]
      by_cases hkey : name = key
      · subst hkey
        cases a? with
        | some a =>
          rw [h.again]
          constructor
          · rintro ⟨⟩
          · rintro ⟨_, ⟨c, es, -, -, rfl⟩, honce, -⟩
            rw [Content.under_cons_self, Once.cons_iff] at honce
            cases honce.1
        | none =>
          rw [h.first, bind_eq_ok_iff]
          simp only [ih, hread]
          constructor
          · rintro ⟨a, ⟨c, hc, ha⟩, es, hcs, honce, rfl⟩
            refine ⟨_, ⟨c, es, hc, hcs, rfl⟩, ?_, by rw [Content.beside_cons_self]⟩
            rw [Content.under_cons_self, Once.cons_iff]
            exact ⟨rfl, a, ha, honce⟩
          · rintro ⟨_, ⟨c, es, hc, hcs, rfl⟩, honce, rfl⟩
            rw [Content.under_cons_self, Once.cons_iff] at honce
            obtain ⟨-, a, ha, honce⟩ := honce
            exact ⟨a, ⟨c, hc, ha⟩, es, hcs, honce, by rw [Content.beside_cons_self]⟩
      · rw [h.other _ _ _ _ hkey]
        simp only [bind_eq_ok_iff, Prod.exists, ih, Except.ok.injEq, Prod.mk.injEq]
        constructor
        · rintro ⟨c, hc, _, _, ⟨es, hcs, honce, rfl⟩, rfl, rfl⟩
          refine ⟨_, ⟨c, es, hc, hcs, rfl⟩, ?_, by rw [Content.beside_cons_of_ne hkey]; rfl⟩
          rwa [Content.under_cons_of_ne hkey]
        · rintro ⟨_, ⟨c, es, hc, hcs, rfl⟩, honce, rfl⟩
          rw [Content.under_cons_of_ne hkey] at honce
          exact ⟨c, hc, _, _, ⟨es, hcs, honce, rfl⟩, rfl, by
            rw [Content.beside_cons_of_ne hkey]
            rfl⟩

/-! ### Tagged values -/

/-- Read a tag that has to be a text. -/
def textTag (read : Content → Except Mismatch κ) : Content → Except Mismatch κ
  | .string text => read (.string text)
  | c => .error (.wrongType c.found "variant identifier")

theorem readTag_eq_ok_iff {read : Content → Except Mismatch κ} {tag : κ} :
    readTag read j = .ok tag ↔ ∃ c, content room j = .ok c ∧ textTag read c = .ok tag := by
  constructor
  · intro h
    obtain ⟨c, hsurface, h⟩ := bind_eq_ok_iff.mp h
    cases j with
    | string text =>
      cases hsurface
      exact ⟨.string text, rfl, fitting_eq_ok_iff.mp h⟩
    | _ => cases hsurface <;> cases h
  · rintro ⟨c, hc, h⟩
    cases j with
    | string text =>
      cases hc
      exact fitting_eq_ok_iff.mpr h
    | array items =>
      obtain ⟨_, _, -, -, rfl⟩ := content_array_iff.mp hc
      cases h
    | object entries =>
      obtain ⟨_, _, -, -, rfl⟩ := content_object_iff.mp hc
      cases h
    | _ => cases hc <;> cases h

/-- **Reading a tagged value is reading its content**, but for the tag, which has to be a text. -/
theorem readTagged_eq_ok_iff {type : String} {read : Content → Except Mismatch κ} {tag : κ}
    {body : Body} : readTagged type read room j = .ok (tag, body) ↔
      ∃ c, content room j = .ok c ∧ c.readTagged type (textTag read) = .ok (tag, body) := by
  cases j with
  | object entries =>
    have hcollect : ∀ {inner tag? others}, collect read inner none entries = .ok (tag?, others) ↔
        ∃ es, entryContents inner entries = .ok (keyed es) ∧
          Once (fun c tag => textTag read c = .ok tag) none (under tagKey es) tag? ∧
          others = keyed (beside tagKey es) :=
      (collects_collect read _).eq_ok_iff fun _ _ => readTag_eq_ok_iff
    rw [readTagged]
    simp only [bind_eq_ok_iff, Prod.exists, hcollect, content_object_iff]
    constructor
    · rintro ⟨inner, hroom, tag?, others, ⟨es, hcs, honce, rfl⟩, htag⟩
      cases tag? with
      | none => cases htag
      | some tag =>
        cases htag
        obtain ⟨c, hunder, htag⟩ := Once.none_some_iff.mp honce
        exact ⟨_, ⟨inner, es, hroom, hcs, rfl⟩,
          Content.readTagged_record_iff.mpr ⟨c, hunder, htag, rfl⟩⟩
    · rintro ⟨_, ⟨inner, es, hroom, hcs, rfl⟩, h⟩
      obtain ⟨c, hunder, htag, rfl⟩ := Content.readTagged_record_iff.mp h
      exact ⟨inner, hroom, some tag, _,
        ⟨es, hcs, Once.none_some_iff.mpr ⟨c, hunder, htag⟩, rfl⟩, rfl⟩
  | array items =>
    rw [readTagged]
    simp only [bind_eq_ok_iff, content_array_iff]
    constructor
    · rintro ⟨inner, hroom, h⟩
      cases items with
      | nil => cases h
      | cons item items =>
        obtain ⟨tag, htag, h⟩ := bind_eq_ok_iff.mp h
        obtain ⟨cs, hcs, ⟨⟩⟩ := bind_eq_ok_iff.mp h
        obtain ⟨c, hc, htag⟩ := readTag_eq_ok_iff.mp htag
        exact ⟨_, ⟨inner, c :: cs, hroom, contents_cons_iff.mpr ⟨c, cs, hc, hcs, rfl⟩, rfl⟩,
          Content.readTagged_sequence_iff.mpr ⟨c, cs, rfl, htag, rfl⟩⟩
    · rintro ⟨_, ⟨inner, _, hroom, hcs, rfl⟩, h⟩
      obtain ⟨c, cs, rfl, htag, rfl⟩ := Content.readTagged_sequence_iff.mp h
      cases items with
      | nil => cases hcs
      | cons item items =>
        obtain ⟨_, _, hc, hcs, ⟨⟩⟩ := contents_cons_iff.mp hcs
        refine ⟨inner, hroom, bind_eq_ok_iff.mpr ⟨tag, readTag_eq_ok_iff.mpr ⟨c, hc, htag⟩, ?_⟩⟩
        exact bind_eq_ok_iff.mpr ⟨cs, hcs, rfl⟩
  | _ =>
    constructor
    · rintro ⟨⟩
    · rintro ⟨c, hc, h⟩
      cases hc <;> cases h

/-! ### Definitions and named parameters -/

theorem textTag_readVariant_iff {variants : List κ} {name : κ → String} {tag : κ}
    (h : (variants.map name).Nodup) (hall : ∀ v, v ∈ variants) :
    textTag (Content.readVariant variants name) c = .ok tag ↔ c = .string (name tag) := by
  cases c with
  | string text =>
    rw [textTag, Content.readVariant_eq_ok_iff h, Content.isVariant_string_iff]
    simp [hall]
  | _ => simp [textTag]

theorem textTag_readKind_iff {k : DefinitionKind} :
    textTag Definition.readKind c = .ok k ↔ c = .string k.text :=
  textTag_readVariant_iff (by decide) fun k => by cases k <;> decide

/-- **A definition is read from just the trees whose content stands for it**, with a text as its
type. -/
theorem readDefinition_eq_ok_iff {d : Definition} : readDefinition room j = .ok d ↔
    ∃ c, content room j = .ok c ∧ IsDefinition (.string d.kind.text) d c := by
  rw [readDefinition]
  simp only [bind_eq_ok_iff, Prod.exists, fitting_eq_ok_iff, readTagged_eq_ok_iff]
  constructor
  · rintro ⟨k, body, ⟨c, hc, htagged⟩, hbody⟩
    obtain ⟨type, htype, hdefinition⟩ :=
      (Definition.readTagged_ofBody_iff (hasTextKeys_of_content hc)).mp ⟨_, htagged, hbody⟩
    exact ⟨c, hc, textTag_readKind_iff.mp htype ▸ hdefinition⟩
  · rintro ⟨c, hc, hdefinition⟩
    obtain ⟨⟨k, body⟩, htagged, hbody⟩ :=
      (Definition.readTagged_ofBody_iff (hasTextKeys_of_content hc)).mpr
        ⟨_, textTag_readKind_iff.mpr rfl, hdefinition⟩
    exact ⟨k, body, ⟨c, hc, htagged⟩, hbody⟩

/-- A scalar is read as a text just if it is one. -/
theorem readScalar_readText_iff {expected text : String} :
    readScalar (Content.readText expected) j = .ok text ↔
      ∃ c, content room j = .ok c ∧ c.IsText text := by
  simp only [readScalar, bind_eq_ok_iff, fitting_eq_ok_iff, Content.readText_eq_ok_iff]
  constructor
  · rintro ⟨_, hsurface, ⟨⟩⟩
    cases j with
    | string text' =>
      cases hsurface
      exact ⟨_, rfl, .intro text⟩
    | _ => cases hsurface
  · rintro ⟨_, hc, ⟨⟩⟩
    cases j with
    | string text' =>
      cases hc
      exact ⟨_, rfl, .intro text⟩
    | array items => obtain ⟨_, _, -, -, ⟨⟩⟩ := content_array_iff.mp hc
    | object entries => obtain ⟨_, _, -, -, ⟨⟩⟩ := content_object_iff.mp hc
    | _ => cases hc

/-- A record is a named parameter if its name stands under its key and the other entries are a
definition. -/
theorem isNamed_record_iff {p : NamedParameter} {es : List (String × Content)} :
    (record es).IsNamed p ↔ under "name" es = [.string p.name] ∧
      ∃ type : Content, type.IsKind p.definition.kind ∧
        IsDefinition type p.definition (record (beside "name" es)) := by
  have hperm : ∀ {type : Content} {parts : List (String × Option Content)},
      p.definition.HasParts parts →
      (es.Perm (given (("name", some (.string p.name)) :: (tagKey, some type) :: parts)) ↔
        under "name" es = [.string p.name] ∧
          (beside "name" es).Perm (given ((tagKey, some type) :: parts))) := by
    intro type parts hparts
    refine Content.perm_given_cons_iff ?_
    rw [List.map_cons, hparts.names, List.mem_cons, not_or]
    exact ⟨(by decide : "name" ≠ tagKey), p.definition.kind.name_notMem_fields⟩
  constructor
  · intro h
    generalize hc : record es = c at h
    cases h with
    | record hkind hparts hes =>
      obtain rfl := Content.keyed_injective (Content.mapping.inj hc)
      obtain ⟨hunder, hrest⟩ := (hperm hparts).mp hes
      exact ⟨hunder, _, hkind, .record hparts hrest⟩
  · rintro ⟨hunder, type, hkind, hdefinition⟩
    obtain ⟨parts, hparts, hrest⟩ := Definition.isDefinition_record_iff.mp hdefinition
    exact .record hkind hparts ((hperm hparts).mpr ⟨hunder, hrest⟩)

/-- **A named parameter is read from just the trees whose content stands for it.** -/
theorem readNamed_eq_ok_iff {p : NamedParameter} :
    readNamed room j = .ok p ↔ ∃ c, content room j = .ok c ∧ c.IsNamed p := by
  cases j with
  | object entries =>
    have hcollect : ∀ {inner name? others},
        collectNamed inner none entries = .ok (name?, others) ↔
          ∃ es, entryContents inner entries = .ok (keyed es) ∧
            Once Content.IsText none (under "name" es) name? ∧
            others = keyed (beside "name" es) :=
      (collects_collectNamed _).eq_ok_iff fun _ _ => readScalar_readText_iff
    have hdefinition : ∀ {es : List (String × Content)} {d : Definition},
        Definition.ofEntries (keyed es) = .ok d ↔
          ∃ type : Content, type.IsKind d.kind ∧ IsDefinition type d (record es) := fun {es d} =>
      Definition.ofContent_eq_ok_iff fun _ _ => ⟨es, rfl⟩
    rw [readNamed]
    simp only [bind_eq_ok_iff, Prod.exists, hcollect, content_object_iff]
    constructor
    · rintro ⟨inner, hroom, name?, others, ⟨es, hcs, honce, rfl⟩, h⟩
      cases name? with
      | none => cases h
      | some name =>
        obtain ⟨d, hd, ⟨⟩⟩ := bind_eq_ok_iff.mp h
        obtain ⟨_, hunder, ⟨⟩⟩ := Once.none_some_iff.mp honce
        exact ⟨_, ⟨inner, es, hroom, hcs, rfl⟩,
          isNamed_record_iff.mpr ⟨hunder, hdefinition.mp (fitting_eq_ok_iff.mp hd)⟩⟩
    · rintro ⟨_, ⟨inner, es, hroom, hcs, rfl⟩, h⟩
      obtain ⟨hunder, hd⟩ := isNamed_record_iff.mp h
      refine ⟨inner, hroom, some p.name, _,
        ⟨es, hcs, Once.none_some_iff.mpr ⟨_, hunder, .intro p.name⟩, rfl⟩, ?_⟩
      exact bind_eq_ok_iff.mpr ⟨_, fitting_eq_ok_iff.mpr (hdefinition.mpr hd), rfl⟩
  | array items =>
    constructor
    · rintro ⟨⟩
    · rintro ⟨_, hc, ⟨⟩⟩
      obtain ⟨_, _, -, -, ⟨⟩⟩ := content_array_iff.mp hc
  | _ =>
    constructor
    · rintro ⟨⟩
    · rintro ⟨_, ⟨⟩, ⟨⟩⟩

/-- **What is read as a definition and as a named parameter** is just what the content of a tree
stands for. A tree without content, which breaks off or goes too deep, is read as neither. -/
theorem readDefinition_outcome (room : ℕ) (j : Json) :
    (∀ d, readDefinition room j = .ok d ↔
      ∃ c, content room j = .ok c ∧ IsDefinition (.string d.kind.text) d c) ∧
    ∀ p, readNamed room j = .ok p ↔ ∃ c, content room j = .ok c ∧ c.IsNamed p :=
  ⟨fun _ => readDefinition_eq_ok_iff, fun _ => readNamed_eq_ok_iff⟩

/-- The type may come last, and null is no threshold. -/
example : readDefinition depthLimit (.object [(some "threshold", .null),
    (some "parameter", .string "inflow"), (some "type", .string "Max")]) =
      .ok (.bounded .max "inflow" none) := rfl

end Json

end WaterNetwork
