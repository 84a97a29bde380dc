import WaterNetwork.Proofs.Content
import WaterNetwork.Proofs.Json.Number
import WaterNetwork.Proofs.Json.Text

/-!
# The tree of a written text

What is written is read back, but for its numbers: a number that is not finite has no text and is
read as nothing, another one is read as what its text is, and a whole number without a minus is read
as one without a sign. The tree that a content is read as is `Json.ofContent`.

* `readValue_pretty` — a content is read at any depth, whatever white space stands before it and
  whatever closes it.
* `ofText_pretty` — the tree of the text of a content.
-/

namespace WaterNetwork.Json

/-! ### Trees of contents -/

/-- The text of a key, without quotes. -/
def keyName : Content → String
  | .string text => text
  | key => scalarText key

mutual

/-- **The tree that a content is read as** when it has been written. -/
def ofContent : Content → Json
  | .null => null
  | .boolean value => boolean value
  | .unsigned value => unsigned value
  | .signed value =>
    if value.toInt < 0 then signed value else unsigned (UInt64.ofNat value.toInt.toNat)
  | .float x => if Number.isFinite x then ofDouble? (reread? x) else null
  | .string text => string text
  | .sequence items => array (ofContents items)
  | .mapping entries => object (ofEntries entries)

/-- The trees of items. -/
def ofContents : List Content → List Json
  | [] => []
  | item :: rest => ofContent item :: ofContents rest

/-- The trees of entries. -/
def ofEntries : List (Content × Content) → List (Option String × Json)
  | [] => []
  | e :: rest => ofEntry e :: ofEntries rest

/-- The tree of an entry. -/
def ofEntry : Content × Content → Option String × Json
  | (key, value) => (some (keyName key), ofContent value)

end

theorem ofEntry_eq (e : Content × Content) : ofEntry e = (some (keyName e.1), ofContent e.2) := by
  rw [ofEntry]

theorem ofContents_eq_map (items : List Content) : ofContents items = items.map ofContent := by
  induction items with
  | nil => rfl
  | cons item rest ih => rw [ofContents, ih, List.map_cons]

theorem prettyItems_eq_map (depth : ℕ) (items : List Content) :
    prettyItems depth items = items.map (pretty depth) := by
  induction items with
  | nil => rfl
  | cons item rest ih => rw [prettyItems, ih, List.map_cons]

theorem prettyEntries_eq_map (depth : ℕ) (entries : List (Content × Content)) :
    prettyEntries depth entries = entries.map (prettyEntry depth) := by
  induction entries with
  | nil => rfl
  | cons e rest ih => rw [prettyEntries, ih, List.map_cons]

/-! ### White space -/

theorem skipSpace_of_not_isSpace {cs : List Char} (h : ∀ c ∈ cs.head?, isSpace c = false) :
    skipSpace cs = cs := by
  cases cs with
  | nil => rfl
  | cons c cs => rw [skipSpace, List.dropWhile_cons_of_neg (by simp [h c rfl])]

theorem skipSpace_append {space cs : List Char} (hspace : ∀ c ∈ space, isSpace c = true)
    (h : ∀ c ∈ cs.head?, isSpace c = false) : skipSpace (space ++ cs) = cs := by
  rw [skipSpace, List.dropWhile_append_of_pos hspace]
  exact skipSpace_of_not_isSpace h

theorem length_skipSpace_le (cs : List Char) : (skipSpace cs).length ≤ cs.length :=
  (List.dropWhile_suffix _).length_le

theorem toList_newLine (depth : ℕ) :
    (newLine depth).toList = '\n' :: List.replicate (2 * depth) ' ' := by
  rw [newLine, String.toList_append, String.toList_ofList, String.toList_ofList]
  rfl

theorem skipSpace_newLine (depth : ℕ) {cs : List Char} (h : ∀ c ∈ cs.head?, isSpace c = false) :
    skipSpace ((newLine depth).toList ++ cs) = cs := by
  rw [toList_newLine]
  refine skipSpace_append (fun c hc => ?_) h
  rcases List.mem_cons.mp hc with rfl | hc
  · rfl
  · rw [List.eq_of_mem_replicate hc]
    rfl

theorem closes_newLine (depth : ℕ) (rest : List Char) :
    Closes ((newLine depth).toList ++ rest) := by
  rw [toList_newLine]
  exact closes_break _

/-! ### Scalars -/

theorem toList_stringText (text : String) :
    (stringText text).toList = '"' :: (text.toList.flatMap escape ++ ['"']) := by
  rw [stringText, String.toList_append, String.toList_append, String.toList_ofList,
    String.toList_ofList]
  rfl

theorem readScalar?_scalarText {c : Content} {rest : List Char} (hc : c.IsScalar)
    (hrest : Closes rest) :
    readScalar? ((scalarText c).toList ++ rest) = some (ofContent c, rest) := by
  cases c with
  | null => rfl
  | boolean value => cases value <;> rfl
  | unsigned value =>
    refine (readScalar?_nat value.toNat_lt hrest).trans ?_
    rw [UInt64.ofNat_toNat, ofContent]
  | signed value => exact readScalar?_signed value hrest
  | float value =>
    rw [ofContent]
    split
    · exact readScalar?_float ‹_› hrest
    · exact readScalar?_float_of_not_finite ‹_›
  | string text =>
    rw [scalarText, toList_stringText, List.cons_append, List.append_assoc, readScalar?]
    show (readString? (_ ++ '"' :: rest)).map _ = _
    rw [readString?_escape]
    rfl
  | sequence | mapping => exact hc.elim

/-! ### First characters -/

/-- The first character of a scalar. -/
def OpensScalar (c : Char) : Prop := c ∈ ['n', 't', 'f', '"', '-'] ∨ c.isDigit = true

/-- The first character of a value. -/
def Opens (c : Char) : Prop := c ∈ ['[', '\x7b'] ∨ OpensScalar c

theorem OpensScalar.ne_bracket {c : Char} (h : OpensScalar c) : c ≠ '[' ∧ c ≠ '\x7b' := by
  constructor <;> rintro rfl <;> revert h <;> simp [OpensScalar]

theorem Opens.not_isSpace {c : Char} (h : Opens c) : isSpace c = false := by
  rw [Bool.eq_false_iff]
  intro hspace
  have : c = ' ' ∨ c = '\t' ∨ c = '\n' ∨ c = '\r' := by simpa [isSpace, or_assoc] using hspace
  revert h
  rcases this with rfl | rfl | rfl | rfl <;> simp [Opens, OpensScalar]

theorem Opens.ne_closing {c : Char} (h : Opens c) : c ≠ ']' := by
  rintro rfl
  revert h
  simp [Opens, OpensScalar]

/-- What is read as a scalar starts like one. -/
theorem opensScalar_of_readScalar? {cs : List Char} {r : Json × List Char}
    (h : readScalar? cs = some r) : ∃ c tail, cs = c :: tail ∧ OpensScalar c := by
  cases cs with
  | nil => simp [readScalar?, readNumber?, splitDigits] at h
  | cons c tail =>
    refine ⟨c, tail, rfl, ?_⟩
    by_cases hc : c.isDigit = true
    · exact .inr hc
    · -- Without a digit in front there is no number.
      have hnone : readNumber? false (c :: tail) = none := by
        simp [readNumber?, splitDigits, hc]
      unfold readScalar? at h
      split at h
      case h_6 => cases hnone.symm.trans h
      all_goals
        rename_i heq
        cases heq
        exact .inl (by simp)

theorem pretty_of_isScalar {c : Content} (hc : c.IsScalar) (depth : ℕ) :
    pretty depth c = scalarText c := by
  cases c <;> first | rfl | exact hc.elim

/-! ### Collections -/

/-- Texts of items or entries with what stands between them. -/
def joined (depth : ℕ) (texts : List String) : List Char :=
  (("," ++ newLine depth).intercalate texts).toList

theorem joined_singleton (depth : ℕ) (t : String) : joined depth [t] = t.toList := by
  rw [joined, String.intercalate_singleton]

theorem joined_cons_cons (depth : ℕ) (t u : String) (texts : List String) :
    joined depth (t :: u :: texts) =
      t.toList ++ ',' :: ((newLine depth).toList ++ joined depth (u :: texts)) := by
  rw [joined, String.intercalate_cons_cons]
  simp only [String.toList_append, List.append_assoc]
  rfl

theorem toList_lines_nil (opening closing : String) (depth : ℕ) :
    (lines opening closing depth []).toList = opening.toList ++ closing.toList := by
  rw [lines, List.isEmpty_nil, if_pos rfl, String.toList_append]

theorem toList_lines {texts : List String} (h : texts ≠ []) (opening closing : String)
    (depth : ℕ) :
    (lines opening closing depth texts).toList =
      opening.toList ++ ((newLine (depth + 1)).toList ++
        (joined (depth + 1) texts ++ ((newLine depth).toList ++ closing.toList))) := by
  rw [lines, if_neg (by simpa using h)]
  simp only [String.toList_append, List.append_assoc]
  rfl

theorem exists_head_lines (opening : String) {ch : Char} (h : opening.toList = [ch])
    (closing : String) (depth : ℕ) (texts : List String) :
    ∃ cs, (lines opening closing depth texts).toList = ch :: cs := by
  rcases eq_or_ne texts [] with rfl | hne
  · rw [toList_lines_nil, h]
    exact ⟨_, rfl⟩
  · rw [toList_lines hne, h]
    exact ⟨_, rfl⟩

theorem exists_opens_of_isScalar {c : Content} (hc : c.IsScalar) (depth : ℕ) :
    ∃ ch cs, (pretty depth c).toList = ch :: cs ∧ Opens ch := by
  have hread := readScalar?_scalarText hc closes_nil
  rw [List.append_nil] at hread
  obtain ⟨ch, cs, hcs, hopens⟩ := opensScalar_of_readScalar? hread
  rw [pretty_of_isScalar hc]
  exact ⟨ch, cs, hcs, .inr hopens⟩

/-- The text of a content starts like a value. -/
theorem exists_opens (depth : ℕ) (c : Content) :
    ∃ ch cs, (pretty depth c).toList = ch :: cs ∧ Opens ch := by
  cases c with
  | sequence items =>
    obtain ⟨cs, hcs⟩ := exists_head_lines "[" rfl "]" depth (prettyItems (depth + 1) items)
    exact ⟨'[', cs, hcs, .inl (by simp)⟩
  | mapping entries =>
    obtain ⟨cs, hcs⟩ := exists_head_lines "\x7b" rfl "\x7d" depth
      (prettyEntries (depth + 1) entries)
    exact ⟨'\x7b', cs, hcs, .inl (by simp)⟩
  | _ => exact exists_opens_of_isScalar (by trivial) depth

theorem exists_opens_joined (depth : ℕ) (c : Content) (texts : List String) :
    ∃ ch cs, joined depth (pretty depth c :: texts) = ch :: cs ∧ Opens ch := by
  obtain ⟨ch, cs, hcs, hopens⟩ := exists_opens depth c
  cases texts with
  | nil =>
    rw [joined_singleton]
    exact ⟨ch, cs, hcs, hopens⟩
  | cons t texts =>
    rw [joined_cons_cons, hcs]
    exact ⟨ch, _, rfl, hopens⟩

/-- No white space stands at the start of a value. -/
theorem Opens.not_isSpace_head? {text : List Char} (h : ∃ ch cs, text = ch :: cs ∧ Opens ch)
    (rest : List Char) : ∀ ch ∈ (text ++ rest).head?, isSpace ch = false := by
  obtain ⟨ch, cs, rfl, hopens⟩ := h
  rintro _ ⟨⟩
  exact hopens.not_isSpace

/-! ### Values -/

/-- A content is read back wherever its text stands. -/
def ReadsBack (c : Content) : Prop :=
  ∀ {depth fuel : ℕ} {cs rest : List Char}, skipSpace cs = (pretty depth c).toList ++ rest →
    Closes rest → 2 * cs.length < fuel → readValue fuel cs = (ofContent c, some rest)

theorem readsBack_of_isScalar {c : Content} (hc : c.IsScalar) : ReadsBack c := by
  intro depth fuel cs rest hcs hrest hfuel
  obtain ⟨fuel, rfl⟩ : ∃ k, fuel = k + 1 := ⟨fuel - 1, by omega⟩
  rw [pretty_of_isScalar hc] at hcs
  have hread := readScalar?_scalarText hc hrest
  rw [← hcs] at hread
  obtain ⟨ch, tail, hopens, hscalar⟩ := opensScalar_of_readScalar? hread
  rw [readValue]
  split
  · rename_i heq
    rw [hopens] at heq
    cases heq
    exact absurd rfl hscalar.ne_bracket.1
  · rename_i heq
    rw [hopens] at heq
    cases heq
    exact absurd rfl hscalar.ne_bracket.2
  · rw [hread]

/-- What comes after a value is shorter than the text with the value. -/
theorem length_lt_of_skipSpace {cs tail : List Char} {c : Char} (value : List Char)
    (h : skipSpace cs = value ++ c :: tail) : tail.length < cs.length := by
  have hle := length_skipSpace_le cs
  rw [h, List.length_append, List.length_cons] at hle
  omega

/-- The items of an array are read back if each of them is. -/
theorem readItems_joined {item : Content} {items : List Content} {depth fuel : ℕ}
    {cs rest : List Char} (hitems : ∀ c ∈ item :: items, ReadsBack c)
    (hcs : skipSpace cs = joined (depth + 1) ((item :: items).map (pretty (depth + 1))) ++
      ((newLine depth).toList ++ ']' :: rest))
    (hfuel : 2 * cs.length + 1 < fuel) :
    readItems fuel cs = (ofContents (item :: items), some rest) := by
  induction items generalizing item cs fuel with
  | nil =>
    obtain ⟨fuel, rfl⟩ : ∃ k, fuel = k + 1 := ⟨fuel - 1, by omega⟩
    rw [List.map_singleton, joined_singleton] at hcs
    have hvalue : readValue fuel cs = (ofContent item, _) :=
      hitems item List.mem_cons_self hcs (closes_newLine _ _) (by omega)
    rw [readItems, hvalue]
    dsimp only
    rw [skipSpace_newLine _ (by rintro _ ⟨⟩; rfl)]
    rfl
  | cons next items ih =>
    obtain ⟨fuel, rfl⟩ : ∃ k, fuel = k + 1 := ⟨fuel - 1, by omega⟩
    rw [List.map_cons, List.map_cons, joined_cons_cons, List.append_assoc, List.cons_append,
      List.append_assoc, ← List.map_cons] at hcs
    have hvalue : readValue fuel cs = (ofContent item, _) :=
      hitems item List.mem_cons_self hcs (closes_comma _) (by omega)
    have hlen := length_lt_of_skipSpace _ hcs
    have hnext : readItems fuel _ = (ofContents (next :: items), some rest) :=
      ih (fun c hc => hitems c (List.mem_cons_of_mem _ hc))
        (skipSpace_newLine (depth + 1)
          (Opens.not_isSpace_head? (exists_opens_joined _ next _) _)) (by omega)
    rw [readItems, hvalue]
    dsimp only
    rw [skipSpace_of_not_isSpace (by rintro _ ⟨⟩; rfl)]
    show ((ofContent item :: (readItems fuel _).1, (readItems fuel _).2) : List Json × Rest) = _
    rw [hnext]
    rfl

/-- An array that is not empty is read item by item. -/
theorem readValue_bracket {fuel : ℕ} {cs tail : List Char} (hcs : skipSpace cs = '[' :: tail)
    (htail : (skipSpace tail).head? ≠ some ']') :
    readValue (fuel + 1) cs =
      (array (readItems fuel (skipSpace tail)).1, (readItems fuel (skipSpace tail)).2) := by
  rw [readValue, hcs]
  split
  case h_1 heq =>
    cases heq
    split
    · rename_i heq
      rw [heq] at htail
      exact absurd rfl htail
    · rfl
  case h_2 heq => simp at heq
  case h_3 h _ => exact (h tail rfl).elim

/-- An object that is not empty is read entry by entry. -/
theorem readValue_brace {fuel : ℕ} {cs tail : List Char} (hcs : skipSpace cs = '\x7b' :: tail)
    (htail : (skipSpace tail).head? ≠ some '\x7d') :
    readValue (fuel + 1) cs =
      (object (readEntries fuel (skipSpace tail)).1, (readEntries fuel (skipSpace tail)).2) := by
  rw [readValue, hcs]
  split
  case h_1 heq => simp at heq
  case h_2 heq =>
    cases heq
    split
    · rename_i heq
      rw [heq] at htail
      exact absurd rfl htail
    · rfl
  case h_3 h => exact (h tail rfl).elim

theorem readsBack_sequence {items : List Content} (h : ∀ c ∈ items, ReadsBack c) :
    ReadsBack (.sequence items) := by
  intro depth fuel cs rest hcs hrest hfuel
  obtain ⟨fuel, rfl⟩ : ∃ k, fuel = k + 1 := ⟨fuel - 1, by omega⟩
  rw [pretty, prettyItems_eq_map] at hcs
  cases items with
  | nil =>
    rw [List.map_nil, toList_lines_nil] at hcs
    rw [readValue, hcs]
    rfl
  | cons item items =>
    rw [toList_lines (by simp), List.append_assoc, List.append_assoc, List.append_assoc,
      List.append_assoc, List.map_cons] at hcs
    have hcs : skipSpace cs = '[' :: ((newLine (depth + 1)).toList ++
      (joined (depth + 1) (pretty (depth + 1) item :: items.map (pretty (depth + 1))) ++
        ((newLine depth).toList ++ ']' :: rest))) := hcs
    have hopens := exists_opens_joined (depth + 1) item (items.map (pretty (depth + 1)))
    have hspace := Opens.not_isSpace_head? hopens ((newLine depth).toList ++ ']' :: rest)
    have htail := skipSpace_newLine (depth + 1) hspace
    have hlen := (length_skipSpace_le _).trans_lt (length_lt_of_skipSpace [] hcs)
    rw [htail] at hlen
    have hitems : readItems fuel _ = (ofContents (item :: items), some rest) :=
      readItems_joined h (skipSpace_of_not_isSpace hspace) (by rw [List.map_cons]; omega)
    rw [readValue_bracket hcs, htail]
    · show (array (readItems fuel _).1, (readItems fuel _).2) = _
      rw [List.map_cons] at hitems
      rw [hitems]
      rfl
    · rw [htail]
      obtain ⟨ch, text, heq, hopens⟩ := hopens
      rw [heq]
      rintro ⟨⟩
      exact hopens.ne_closing rfl

/-! ### Entries -/

theorem keyText_eq (key : Content) : keyText key = stringText (keyName key) := by
  cases key <;> rfl

theorem toList_prettyEntry (depth : ℕ) (e : Content × Content) :
    (prettyEntry depth e).toList = '"' :: ((keyName e.1).toList.flatMap escape ++
      '"' :: ':' :: ' ' :: (pretty depth e.2).toList) := by
  obtain ⟨key, value⟩ := e
  rw [prettyEntry, keyText_eq, String.toList_append, String.toList_append, toList_stringText]
  simp only [List.cons_append, List.append_assoc]
  rfl

theorem exists_head_joined (depth : ℕ) (e : Content × Content) (texts : List String) :
    ∃ cs, joined depth (prettyEntry depth e :: texts) = '"' :: cs := by
  cases texts with
  | nil => rw [joined_singleton, toList_prettyEntry]; exact ⟨_, rfl⟩
  | cons t texts => rw [joined_cons_cons, toList_prettyEntry]; exact ⟨_, rfl⟩

/-- An entry is read part by part: key, colon and value. -/
theorem readEntries_of_parts {fuel : ℕ} {cs body tail rest : List Char} {key : Option String}
    {value : Json} (hcs : skipSpace cs = '"' :: body)
    (hkey : readString? body = some (key, ':' :: tail))
    (hvalue : readValue fuel tail = (value, some rest)) :
    readEntries (fuel + 1) cs = match skipSpace rest with
      | '\x7d' :: rest => ([(key, value)], some rest)
      | ',' :: rest => ((key, value) :: (readEntries fuel rest).1, (readEntries fuel rest).2)
      | _ => ([(key, value), (none, cut)], none) := by
  have hcolon : skipSpace (':' :: tail) = ':' :: tail :=
    skipSpace_of_not_isSpace (by rintro _ ⟨⟩; rfl)
  rw [readEntries, hcs]
  simp only [hkey, hcolon]
  exact hvalue ▸ rfl

/-- An entry is read with what follows it. -/
theorem readEntries_eq {e : Content × Content} (he : ReadsBack e.2) {depth fuel : ℕ}
    {cs rest : List Char} (hcs : skipSpace cs = (prettyEntry depth e).toList ++ rest)
    (hrest : Closes rest) (hfuel : 2 * cs.length < fuel) :
    readEntries (fuel + 1) cs = match skipSpace rest with
      | '\x7d' :: rest => ([ofEntry e], some rest)
      | ',' :: rest => (ofEntry e :: (readEntries fuel rest).1, (readEntries fuel rest).2)
      | _ => ([ofEntry e, (none, cut)], none) := by
  rw [toList_prettyEntry] at hcs
  simp only [List.cons_append, List.append_assoc] at hcs
  have hlen := length_lt_of_skipSpace [] hcs
  rw [List.length_append, List.length_cons, List.length_cons] at hlen
  have hspace : skipSpace ([' '] ++ ((pretty depth e.2).toList ++ rest)) =
      (pretty depth e.2).toList ++ rest :=
    skipSpace_append (List.forall_mem_singleton.mpr rfl)
      (Opens.not_isSpace_head? (exists_opens depth e.2) rest)
  have hvalue : readValue fuel _ = (ofContent e.2, some rest) :=
    he hspace hrest (by rw [List.singleton_append]; omega)
  rw [ofEntry_eq]
  exact readEntries_of_parts hcs (readString?_escape (keyName e.1) _) hvalue

/-- The entries of an object are read back if the value of each of them is. -/
theorem readEntries_joined {e : Content × Content} {entries : List (Content × Content)}
    {depth fuel : ℕ} {cs rest : List Char} (hentries : ∀ e' ∈ e :: entries, ReadsBack e'.2)
    (hcs : skipSpace cs = joined (depth + 1) ((e :: entries).map (prettyEntry (depth + 1))) ++
      ((newLine depth).toList ++ '\x7d' :: rest))
    (hfuel : 2 * cs.length + 1 < fuel) :
    readEntries fuel cs = (ofEntries (e :: entries), some rest) := by
  induction entries generalizing e cs fuel with
  | nil =>
    obtain ⟨fuel, rfl⟩ : ∃ k, fuel = k + 1 := ⟨fuel - 1, by omega⟩
    rw [List.map_singleton, joined_singleton] at hcs
    rw [readEntries_eq (hentries e List.mem_cons_self) hcs (closes_newLine _ _) (by omega),
      skipSpace_newLine _ (by rintro _ ⟨⟩; rfl)]
    rfl
  | cons next entries ih =>
    obtain ⟨fuel, rfl⟩ : ∃ k, fuel = k + 1 := ⟨fuel - 1, by omega⟩
    rw [List.map_cons, List.map_cons, joined_cons_cons, List.append_assoc, List.cons_append,
      List.append_assoc, ← List.map_cons] at hcs
    obtain ⟨text, htext⟩ :=
      exists_head_joined (depth + 1) next (entries.map (prettyEntry (depth + 1)))
    have hlen := length_lt_of_skipSpace _ hcs
    have hnext : readEntries fuel _ = (ofEntries (next :: entries), some rest) :=
      ih (fun e' he' => hentries e' (List.mem_cons_of_mem _ he'))
        (skipSpace_newLine (depth + 1) (by rw [List.map_cons, htext]; rintro _ ⟨⟩; rfl)) (by omega)
    rw [readEntries_eq (hentries e List.mem_cons_self) hcs (closes_comma _) (by omega),
      skipSpace_of_not_isSpace (by rintro _ ⟨⟩; rfl)]
    show ((ofEntry e :: (readEntries fuel _).1, (readEntries fuel _).2) :
      List (Option String × Json) × Rest) = _
    rw [hnext]
    rfl

theorem readsBack_mapping {entries : List (Content × Content)}
    (h : ∀ e ∈ entries, ReadsBack e.2) : ReadsBack (.mapping entries) := by
  intro depth fuel cs rest hcs hrest hfuel
  obtain ⟨fuel, rfl⟩ : ∃ k, fuel = k + 1 := ⟨fuel - 1, by omega⟩
  rw [pretty, prettyEntries_eq_map] at hcs
  cases entries with
  | nil =>
    rw [List.map_nil, toList_lines_nil] at hcs
    rw [readValue, hcs]
    rfl
  | cons e entries =>
    rw [toList_lines (by simp), List.append_assoc, List.append_assoc, List.append_assoc,
      List.append_assoc] at hcs
    have hcs : skipSpace cs = '\x7b' :: ((newLine (depth + 1)).toList ++
      (joined (depth + 1) ((e :: entries).map (prettyEntry (depth + 1))) ++
        ((newLine depth).toList ++ '\x7d' :: rest))) := hcs
    obtain ⟨text, htext⟩ :=
      exists_head_joined (depth + 1) e (entries.map (prettyEntry (depth + 1)))
    have hspace : ∀ c ∈ (joined (depth + 1) ((e :: entries).map (prettyEntry (depth + 1))) ++
        ((newLine depth).toList ++ '\x7d' :: rest)).head?, isSpace c = false := by
      rw [List.map_cons, htext]
      rintro _ ⟨⟩
      rfl
    have htail := skipSpace_newLine (depth + 1) hspace
    have hlen := (length_skipSpace_le _).trans_lt (length_lt_of_skipSpace [] hcs)
    rw [htail] at hlen
    have hread : readEntries fuel _ = (ofEntries (e :: entries), some rest) :=
      readEntries_joined h (skipSpace_of_not_isSpace hspace) (by omega)
    rw [readValue_brace hcs, htail]
    · rw [hread]
      rfl
    · rw [htail, List.map_cons, htext]
      rintro ⟨⟩

/-! ### Texts -/

/-- **Every content is read back**, at any depth and before whatever closes it. -/
theorem readValue_pretty (c : Content) : ReadsBack c := by
  induction c using Content.inductionOn with
  | scalar c hc => exact readsBack_of_isScalar hc
  | sequence items ih => exact readsBack_sequence ih
  | mapping entries ih => exact readsBack_mapping ih

/-- **The tree of the text of a content**, after which the text ends. -/
theorem ofText_pretty (c : Content) : ofText (pretty 0 c) = (ofContent c, true) := by
  have hspace : skipSpace (pretty 0 c).toList = (pretty 0 c).toList ++ [] := by
    rw [List.append_nil]
    exact skipSpace_of_not_isSpace (by
      simpa using Opens.not_isSpace_head? (exists_opens 0 c) [])
  rw [ofText, readValue_pretty c hspace closes_nil (by omega)]
  rfl

end WaterNetwork.Json
