import WaterNetwork.Proofs.Content
import WaterNetwork.Proofs.Yaml.Number
import WaterNetwork.Proofs.Yaml.Token
import WaterNetwork.Yaml.Writer

/-!
# Written contents

What is written for a content: its lines, and the tokens that they should be divided into. A
sequence below a key has no tokens of its own, since its items are not indented.

* `ScalarForm` — the texts of scalars up to the ends of their lines, with their tokens.
* `contentTokens`, `Storable` — the tokens of contents, and the contents whose collections and keys
  are written in blocks.
* `itemLines`, `entryLines` — the lines of collections.
-/

namespace WaterNetwork.Yaml

/-! ### Forms of texts -/

/-- The style that is seen in a form. -/
def Form.style : Form → ScalarStyle
  | .plain => .plain
  | .singleQuoted | .doubleQuoted => .quoted
  | .block => .literal

/-- The token of a scalar. -/
def scalarToken : Content → Token
  | .string text => .scalar (Form.ofText text).style text
  | c => .scalar .plain (scalarText 0 c)

theorem toList_endLine (text : String) :
    (endLine text).toList = text.toList ++ lineEnd text.toList := by
  rw [endLine, lineEnd]
  split <;> simp

/-- **The texts of scalars**, up to the ends of their lines. -/
inductive ScalarForm (n : ℕ) : Token → List Char → Prop where
  | plain {text : String} (h : IsPlain text.toList) :
    ScalarForm n (.scalar .plain text) (text.toList ++ ['\n'])
  | singleQuoted {text : String} (h : allowsSingleQuotes text.toList = true)
    (hbreak : '\n' ∉ text.toList) :
    ScalarForm n (.scalar .quoted text) (Form.singleQuoted.write (n + 2) text.toList ++ ['\n'])
  | doubleQuoted {text : String} :
    ScalarForm n (.scalar .quoted text) (Form.doubleQuoted.write (n + 2) text.toList ++ ['\n'])
  | block {text : String} (h : allowsBlock text.toList = true) (hne : text.toList ≠ []) :
    ScalarForm n (.scalar .literal text)
      (Form.block.write (n + 2) text.toList ++ lineEnd text.toList)

theorem lineEnd_of_getLast? {cs : List Char} {x : Char} (h : cs.getLast? = some x)
    (hx : isBreak x = false) : lineEnd cs = ['\n'] := by
  rw [lineEnd, h, Option.any_some, hx]
  rfl

theorem lineEnd_of_isPlain {cs : List Char} (h : IsPlain cs) : lineEnd cs = ['\n'] :=
  lineEnd_of_getLast? (List.getLast?_eq_some_getLast h.ne_nil)
    (h.printable _ (List.getLast_mem h.ne_nil)).2

/-- The last line of a block ends as the text does. -/
theorem lineEnd_block {cs : List Char} (n : ℕ) (hcs : cs ≠ []) :
    lineEnd (Form.block.write n cs) = lineEnd cs := by
  have hlast : (Form.block.write n cs).getLast? = cs.getLast? := by
    rw [Form.write, List.getLast?_append, List.getLast?_cons, getLast?_indentLines,
      List.getLast?_eq_some_getLast hcs]
    rfl
  rw [lineEnd, lineEnd, hlast]

/-- Every text has a form in which it is read back. -/
theorem scalarForm_string (n : ℕ) (text : String) :
    ScalarForm n (scalarToken (.string text))
      (endLine (scalarText (n + 2) (.string text))).toList := by
  have hdouble : ScalarForm n (.scalar .quoted text)
      (Form.doubleQuoted.write (n + 2) text.toList ++
        lineEnd (Form.doubleQuoted.write (n + 2) text.toList)) := by
    have hlast : (Form.doubleQuoted.write (n + 2) text.toList).getLast? = some '"' :=
      List.getLast?_concat
    rw [lineEnd_of_getLast? hlast (by decide)]
    exact .doubleQuoted
  rw [toList_endLine, scalarText, String.toList_ofList, scalarToken, Form.ofText]
  by_cases hbreak : text.toList.contains '\n' = true
  · rw [if_pos hbreak]
    by_cases hblock : allowsBlock text.toList = true
    · rw [if_pos hblock]
      have hne : text.toList ≠ [] := List.ne_nil_of_mem (List.contains_iff_mem.mp hbreak)
      rw [lineEnd_block _ hne]
      exact .block hblock hne
    · rw [if_neg hblock]
      exact hdouble
  · rw [if_neg hbreak]
    by_cases hplain : (readsAsText text && allowsPlain text.toList) = true
    · rw [if_pos hplain]
      rw [Bool.and_eq_true, allowsPlain_iff] at hplain
      rw [Form.write, lineEnd_of_isPlain hplain.2]
      exact .plain hplain.2
    · rw [if_neg hplain]
      by_cases hsingle : allowsSingleQuotes text.toList = true
      · rw [if_pos hsingle, lineEnd_of_getLast? (x := '\'') ?_ (by decide)]
        · exact .singleQuoted hsingle fun hmem => hbreak (List.contains_iff_mem.mpr hmem)
        · rw [Form.write, List.getLast?_cons, getLast?_indentLines]
          simp
      · rw [if_neg hsingle]
        exact hdouble

theorem scalarForm_of_isWritten {c : Content} (n : ℕ) (h : c.IsWritten) :
    ScalarForm n (scalarToken c) (endLine (scalarText (n + 2) c)).toList := by
  have hplain {text : String} (h : IsPlain text.toList) :
      ScalarForm n (.scalar .plain text) (endLine text).toList := by
    rw [toList_endLine, lineEnd_of_isPlain h]
    exact .plain h
  cases c with
  | null => exact hplain (allowsPlain_iff.mp (by decide))
  | boolean value => cases value <;> exact hplain (allowsPlain_iff.mp (by decide))
  | unsigned value => exact hplain (isPlain_nat _)
  | float value => exact hplain (isPlain_float value)
  | string text => exact scalarForm_string n text
  | signed | sequence | mapping => exact h.elim

variable {p : Progress} {b : Bool} {c : Cursor} {k? : Option PossibleKey} {ts : List Token}
  {text tail line : List Char} {token : Token} {n column : ℕ}

/-- Reading settles in front of a scalar. -/
theorem ScalarForm.startsToken (h : ScalarForm n token line) (text : List Char) :
    StartsToken (line ++ text) := by
  cases h with
  | plain h =>
    obtain ⟨x, cs, hcs⟩ := List.exists_cons_of_ne_nil h.ne_nil
    rw [hcs] at h ⊢
    rw [List.append_assoc]
    exact h.startsToken _
  | singleQuoted | doubleQuoted | block =>
    simp [Form.write, StartsToken, isBlank, isBreak, byteOrderMark]

/-- **A scalar is read**, and reading goes on with the next line. -/
theorem ScalarForm.runs (h : ScalarForm n token line) (hindent : p.indent = n)
    (hc : c.rest = line ++ text) (hcolumn : n < c.column) (hnext : Next n text)
    (hpast : Past c k?) (hruns : (p.add [token]).Resumes text ts) : (p.reading b c k?).Runs ts := by
  cases h with
  | @plain value h =>
    rw [List.append_assoc] at hc
    rw [← String.ofList_toList (s := value)] at hruns
    exact Progress.runs_plain h hindent hc hcolumn hnext hpast hruns
  | @singleQuoted value h hbreak =>
    rw [List.append_assoc] at hc
    obtain ⟨c', hread, hrest, hline⟩ := readQuoted?_single h hbreak (by simp) (by omega) hc
    rw [String.ofList_toList] at hread
    exact Progress.runs_quoted (.inl rfl) hindent hc hcolumn hread hrest hline hnext hpast hruns
  | @doubleQuoted value =>
    rw [List.append_assoc] at hc
    obtain ⟨c', hread, hrest, hline⟩ := readQuoted?_double (by simp) hc
    rw [String.ofList_toList] at hread
    exact Progress.runs_quoted (.inr rfl) hindent hc hcolumn hread hrest hline hnext hpast hruns
  | @block value h hne =>
    rw [List.append_assoc] at hc
    rw [← String.ofList_toList (s := value)] at hruns
    exact Progress.runs_block h hne hindent hc hcolumn hnext hpast hruns

/-! ### Contents -/

/-- A key that is written as it is, and short enough to be found. -/
structure IsKey (key : String) : Prop where
  form : Form.ofKey key = .plain
  short : Cursor.byteLength key.toList ≤ 1024

theorem IsKey.form_ofText {key : String} (h : IsKey key) : Form.ofText key = .plain := by
  have hform := h.form
  rw [Form.ofKey] at hform
  split at hform
  · cases hform
  · exact hform

/-- The form without quotes is taken for texts that are read as themselves. -/
theorem of_form_plain {text : String} (h : Form.ofText text = .plain) :
    readsAsText text = true ∧ IsPlain text.toList := by
  rw [Form.ofText] at h
  split at h
  · split at h <;> cases h
  · split at h
    · rename_i hplain
      rwa [Bool.and_eq_true, allowsPlain_iff] at hplain
    · split at h <;> cases h

theorem IsKey.isPlain {key : String} (h : IsKey key) : IsPlain key.toList :=
  (of_form_plain h.form_ofText).2

theorem IsKey.keyText {key : String} (h : IsKey key) : keyText (.string key) = key := by
  rw [Yaml.keyText, h.form, Form.write, String.ofList_toList]

mutual

/-- **The tokens of a content.** The items below a key are not enclosed by any. -/
def contentTokens : Content → List Token
  | .sequence [] => [.flowSequenceStart, .flowSequenceEnd]
  | .sequence (item :: rest) => itemTokens (item :: rest)
  | .mapping entries => .blockMappingStart :: (entryTokens entries ++ [.blockEnd])
  | c => [scalarToken c]

/-- The tokens of items. -/
def itemTokens : List Content → List Token
  | [] => []
  | item :: rest => .blockEntry :: (contentTokens item ++ itemTokens rest)

/-- The tokens of entries. -/
def entryTokens : List (Content × Content) → List Token
  | [] => []
  | e :: rest => valueTokens e ++ entryTokens rest

/-- The tokens of an entry. -/
def valueTokens : Content × Content → List Token
  | (key, value) => [.key, scalarToken key, .value] ++ contentTokens value

end

theorem contentTokens_of_isWritten {c : Content} (h : c.IsWritten) :
    contentTokens c = [scalarToken c] := by
  cases c with
  | signed | sequence | mapping => exact h.elim
  | _ => simp [contentTokens]

/-- A content that may stand as an item. -/
def IsItem (c : Content) : Prop := c.IsWritten ∨ ∃ entries, c = .mapping entries

theorem not_isItem_sequence {items : List Content} : ¬ IsItem (.sequence items) := by
  rintro (h | ⟨_, h⟩)
  · exact h
  · cases h

/-- **Contents that are written in blocks**: keys are short texts on their lines, and the items of a
sequence are scalars or mappings. -/
inductive Storable : Content → Prop where
  | scalar {c : Content} (h : c.IsWritten) : Storable c
  | emptySequence : Storable (.sequence [])
  | sequence {items : List Content} (hne : items ≠ []) (hitems : ∀ c ∈ items, Storable c)
    (hflat : ∀ c ∈ items, IsItem c) : Storable (.sequence items)
  | mapping {entries : List (Content × Content)} (hne : entries ≠ [])
    (hkeys : ∀ e ∈ entries, ∃ key, e.1 = .string key ∧ IsKey key)
    (hvalues : ∀ e ∈ entries, Storable e.2) : Storable (.mapping entries)

/-! ### Lines -/

/-- Texts that are joined by an indentation. -/
theorem toList_intercalate_margin (n : ℕ) (line : String) (lines : List String) :
    ((margin n).intercalate (line :: lines)).toList =
      line.toList ++ lines.flatMap fun line => List.replicate n ' ' ++ line.toList := by
  rw [String.toList_intercalate, margin, String.toList_ofList]
  induction lines generalizing line with
  | nil => simp
  | cons line' lines ih =>
    rw [List.map_cons, List.map_cons, List.intercalate_cons_cons, ← List.map_cons, ih]
    simp

theorem itemTexts_eq (n : ℕ) (items : List Content) :
    itemTexts n items = items.map fun item => "- " ++ blockText (n + 2) item := by
  induction items with
  | nil => rfl
  | cons item items ih => rw [itemTexts, ih, List.map_cons]

theorem entryTexts_eq (n : ℕ) (entries : List (Content × Content)) :
    entryTexts n entries = entries.map (entryText n) := by
  induction entries with
  | nil => rfl
  | cons e entries ih => rw [entryTexts, ih, List.map_cons]

/-- The lines of items. -/
def itemLines (n : ℕ) (items : List Content) : List Char :=
  items.flatMap fun item => List.replicate n ' ' ++ '-' :: ' ' :: (blockText (n + 2) item).toList

/-- The lines of entries. -/
def entryLines (n : ℕ) (entries : List (Content × Content)) : List Char :=
  entries.flatMap fun e => List.replicate n ' ' ++ (entryText n e).toList

theorem toList_blockText_mapping (n : ℕ) (e : Content × Content) (es : List (Content × Content)) :
    (blockText n (.mapping (e :: es))).toList = (entryText n e).toList ++ entryLines n es := by
  rw [blockText, entryTexts_eq, List.map_cons, toList_intercalate_margin, entryLines,
    List.flatMap_map]

theorem toList_valueText_mapping (n : ℕ) (e : Content × Content) (es : List (Content × Content)) :
    (valueText n (.mapping (e :: es))).toList = '\n' :: entryLines (n + 2) (e :: es) := by
  rw [valueText, String.toList_append, entryTexts_eq, List.map_cons, toList_intercalate_margin,
    List.flatMap_map]
  simp [entryLines, margin]

theorem toList_valueText_sequence (n : ℕ) (item : Content) (items : List Content) :
    (valueText n (.sequence (item :: items))).toList = '\n' :: itemLines n (item :: items) := by
  rw [valueText, String.toList_append, itemTexts_eq, List.map_cons, toList_intercalate_margin,
    List.flatMap_map]
  simp [itemLines, margin]

theorem toList_endLine_space (line : String) :
    (endLine (" " ++ line)).toList = ' ' :: (endLine line).toList := by
  rw [toList_endLine, toList_endLine, String.toList_append]
  cases h : line.toList with
  | nil => rfl
  | cons x xs => simp [lineEnd]

end WaterNetwork.Yaml
