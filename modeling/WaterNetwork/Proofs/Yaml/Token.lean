import WaterNetwork.Proofs.Yaml.Reading

/-!
# Single tokens

How reading goes on behind each kind of token that is written: scalars in their four forms, empty
collections, keys with their colons, and the marks of items.

* `runs_plain`, `runs_quoted`, `runs_block`, `runs_emptySequence` — values up to the end of their
  lines.
* `Starts.key`, `Starts.item` — what stands in front of the values of entries and items.
-/

namespace WaterNetwork.Yaml

variable {p : Progress} {b : Bool} {c : Cursor} {k? : Option PossibleKey} {ts : List Token}
  {cs text tail : List Char} {x : Char} {n column : ℕ}

/-! ### The first character of a text without quotes -/

/-- A text without quotes starts no other token. -/
theorem IsPlain.first (h : IsPlain (x :: cs)) (hc : c.rest = x :: cs ++ tail) :
    (∀ y, isIndicator y = true → y ≠ '-' → y ≠ '?' → y ≠ ':' → x ≠ y) ∧
      (x = '-' ∨ x = '?' ∨ x = ':' → c.endsWord 1 = false) := by
  obtain ⟨x, cs, heq, -, -, hindicator⟩ := h.exists_cons
  cases heq
  refine ⟨?_, fun hx => ?_⟩
  · rintro y hy h₁ h₂ h₃ rfl
    rcases hindicator with hindicator | ⟨hx | hx | hx, -⟩
    · rw [hy] at hindicator
      cases hindicator
    · exact h₁ hx
    · exact h₂ hx
    · exact h₃ hx
  · rcases hindicator with hindicator | ⟨-, y, hy, hspace⟩
    · rcases hx with rfl | rfl | rfl <;> exact absurd hindicator (by decide)
    · obtain ⟨hprint, hbreak⟩ := h.printable y (List.mem_cons_of_mem _ (List.mem_of_head? hy))
      rw [Cursor.endsWord_eq_false_iff, hc, List.cons_append, List.drop_succ_cons, List.drop_zero]
      intro hends
      rcases hends y (by rw [List.head?_append, hy]; rfl) with hblank | hbreak'
      · rw [isBlank_of_isPrintable hprint] at hblank
        exact hspace (eq_of_beq hblank)
      · rw [hbreak] at hbreak'
        cases hbreak'

/-- Reading settles in front of a text without quotes. -/
theorem IsPlain.startsToken (h : IsPlain (x :: cs)) (tail : List Char) :
    StartsToken (x :: cs ++ tail) := by
  obtain ⟨hprint, hbreak⟩ := h.printable x List.mem_cons_self
  obtain ⟨hspace, hmark⟩ := h.head?_ne
  refine fun y hy => ?_
  obtain rfl : x = y := by simpa using hy
  refine ⟨?_, hbreak, fun heq => hmark (congrArg some heq), ?_⟩
  · rw [isBlank_of_isPrintable hprint, beq_eq_false_iff_ne]
    exact fun heq => hspace (congrArg some heq)
  · rintro rfl
    exact absurd hprint (by decide)

namespace Progress

/-! ### Possible keys -/

/-- Where a key may start it is remembered; it is required in the column of the block. -/
theorem rememberKey?_true (p : Progress) (c : Cursor) :
    (p.reading true c none).rememberKey? = some (p.reading true c (some {
      position := p.tokens.length
      offset := c.offset
      line := c.line
      column := c.column
      required := p.indent == c.column })) := rfl

theorem rememberKey?_false (p : Progress) (c : Cursor) :
    (p.reading false c none).rememberKey? = some (p.reading false c none) := rfl

/-- A value that is indented further than the block is no key that is required. -/
theorem exists_rememberKey? (b : Bool) (hcolumn : p.indent < c.column) :
    ∃ k?, (p.reading b c none).rememberKey? = some (p.reading b c k?) ∧
      ∀ k ∈ k?, k.required = false ∧ k.line = c.line := by
  cases b with
  | false => exact ⟨none, rememberKey?_false p c, nofun⟩
  | true =>
    refine ⟨_, rememberKey?_true p c, fun k hk => ?_⟩
    cases hk
    exact ⟨beq_eq_false_iff_ne.mpr (by omega), rfl⟩

/-! ### Plain scalars -/

/-- A text without quotes starts like a plain scalar. -/
theorem startsPlain_of_isPlain (h : IsPlain (x :: cs)) (hc : c.rest = x :: cs ++ tail) :
    (p.reading b c k?).startsPlain x = true := by
  obtain ⟨hindicator, hword⟩ := IsPlain.first h hc
  obtain ⟨hprint, hbreak⟩ := h.printable x List.mem_cons_self
  have hblank : isBlank x = false := by
    rw [isBlank_of_isPrintable hprint, beq_eq_false_iff_ne]
    exact fun hspace => h.head?_ne.1 (congrArg some hspace)
  rw [Reading.startsPlain, cursor_reading]
  cases hx : isIndicator x with
  | false => simp [hblank, hbreak]
  | true =>
    have hthree : x = '-' ∨ x = '?' ∨ x = ':' := by
      by_contra hne
      simp only [not_or] at hne
      exact hindicator x hx hne.1 hne.2.1 hne.2.2 rfl
    have hends := hword hthree
    have hnext : (c.at? 1).any isBlank = false := by
      rw [Cursor.endsWord] at hends
      cases hat : c.at? 1 with
      | none => rfl
      | some y => simp_all
    rcases hthree with rfl | rfl | rfl <;> simp [hnext, hends, Reading.inFlow, reading]

/-- A text without quotes is read as a plain scalar. -/
theorem readToken?_plain (h : IsPlain (x :: cs)) (hc : c.rest = x :: cs ++ tail)
    (htail : tail.head? ≠ some '-' ∧ tail.head? ≠ some '.') :
    (p.reading b c k?).readToken? x = (p.reading b c k?).readPlainScalar? := by
  obtain ⟨hindicator, hword⟩ := IsPlain.first h hc
  obtain ⟨hminus, hpoint⟩ : c.atDocumentMark '-' = false ∧ c.atDocumentMark '.' = false := by
    simpa [Cursor.atDocumentBoundary] using h.atDocumentBoundary hc htail
  have hstarts : (p.reading b c k?).startsPlain x = true := startsPlain_of_isPlain h hc
  have hpercent : (x == '%') = false := by
    simpa using hindicator '%' (by decide) (by decide) (by decide) (by decide)
  have hother (y : Char) (hy : y = '-' ∨ y = '?' ∨ y = ':') :
      (x == y && c.endsWord 1) = false := by
    by_cases hxy : x = y
    · rw [hword (hxy ▸ hy), Bool.and_false]
    · rw [beq_eq_false_iff_ne.mpr hxy, Bool.false_and]
  have hbar : (x == '|') = false := by
    simpa using hindicator '|' (by decide) (by decide) (by decide) (by decide)
  have hangle : (x == '>') = false := by
    simpa using hindicator '>' (by decide) (by decide) (by decide) (by decide)
  have hflow : (p.reading b c k?).inFlow = false := rfl
  unfold Reading.readToken?
  simp only [cursor_reading, hpercent, Bool.and_false, Bool.false_eq_true, if_false, hminus, hpoint]
  split
  case h_11 =>
    simp only [hflow, Bool.false_or, hother, hbar, hangle, hstarts, Bool.false_eq_true, if_false,
      Bool.false_and, if_true, true_or, or_true]
  all_goals exact absurd rfl (hindicator _ (by decide) (by decide) (by decide) (by decide))

/-- **A plain scalar is read**, and reading goes on with the next line. -/
theorem runs_plain (h : IsPlain cs) (hindent : p.indent = n) (hc : c.rest = cs ++ '\n' :: text)
    (hcolumn : n < c.column) (hnext : Next n text) (hpast : Past c k?)
    (hruns : (p.add [.scalar .plain (String.ofList cs)]).Resumes text ts) :
    (p.reading b c k?).Runs ts := by
  obtain ⟨x, cs, rfl⟩ := List.exists_cons_of_ne_nil h.ne_nil
  obtain ⟨k', hremember, hkey⟩ := exists_rememberKey? (p := p) (c := c) b (by omega)
  have hle := hnext.indentation_le (Int.natCast_nonneg n)
  obtain ⟨c', hread, hbehind, hline⟩ : ∃ c', readPlain? false (p.indent + 1).toNat c =
      some (String.ofList (x :: cs), true, c') ∧ c'.Behind text ∧ c'.line = c.line + 1 :=
    readPlain?_value h hc hnext (by omega) (by omega)
  have htoken : (p.reading b c none).readToken? x =
      some ((p.add [.scalar .plain (String.ofList (x :: cs))]).reading true c' k') := by
    rw [readToken?_plain h hc (by simp), Reading.readPlainScalar?, hremember]
    simp only [Option.bind_eq_bind, Option.bind_some, cursor_reading]
    rw [show (p.reading b c k').inFlow = false from rfl,
      show (p.reading b c k').indent = p.indent from rfl, hread]
    simp [reading, add, Reading.emit]
  have hshort := length_unindented_le text
  refine runs_token hc (h.startsToken _) (by omega) hpast htoken ?_ (hruns.runs hbehind ?_)
  · rw [cursor_reading, hbehind.rest, hc, List.length_append, List.length_cons, List.length_cons]
    omega
  · intro k hk
    obtain ⟨hrequired, hsame⟩ := hkey k hk
    exact ⟨hrequired, by omega⟩

/-! ### Quoted scalars -/

/-- **A quoted scalar is read**, and reading goes on with the next line. -/
theorem runs_quoted {quote : Char} {w : List Char} {value : String} {c' : Cursor}
    (hquote : quote = '\'' ∨ quote = '"') (hindent : p.indent = n)
    (hc : c.rest = quote :: (w ++ '\n' :: text)) (hcolumn : n < c.column)
    (hread : readQuoted? quote c = some (value, c')) (hrest : c'.rest = '\n' :: text)
    (hline : c.line ≤ c'.line) (hnext : Next n text) (hpast : Past c k?)
    (hruns : (p.add [.scalar .quoted value]).Resumes text ts) : (p.reading b c k?).Runs ts := by
  obtain ⟨k', hremember, hkey⟩ := exists_rememberKey? (p := p) (c := c) b (by omega)
  have htoken : (p.reading b c none).readToken? quote =
      some ((p.add [.scalar .quoted value]).reading false c' k') := by
    have hemit : { (p.reading b c k').emit (.scalar .quoted value) c' with keyAllowed := false } =
        (p.add [.scalar .quoted value]).reading false c' k' := by
      simp [reading, add, Reading.emit]
    unfold Reading.readToken?
    rcases hquote with rfl | rfl <;>
      simp [Cursor.atDocumentMark, Cursor.isAt, Cursor.at?_zero hc, Reading.readKeyLike?, hremember,
        hread, hemit]
  refine runs_token hc ?_ (by omega) hpast htoken ?_ ?_
  · rcases hquote with rfl | rfl <;> simp [StartsToken, isBlank, isBreak, byteOrderMark]
  · simp only [cursor_reading, hrest, hc, List.length_cons, List.length_append]
    omega
  · refine hruns.runs_break hrest hnext fun k hk => ?_
    obtain ⟨hrequired, hsame⟩ := hkey k hk
    exact ⟨hrequired, by omega⟩

/-! ### Blocks -/

/-- **A block scalar is read**, and reading goes on with the line behind it. -/
theorem runs_block (h : allowsBlock cs = true) (hcs : cs ≠ []) (hindent : p.indent = n)
    (hc : c.rest = Form.block.write (n + 2) cs ++ (lineEnd cs ++ text)) (hcolumn : n < c.column)
    (hnext : Next n text) (hpast : Past c k?)
    (hruns : (p.add [.scalar .literal (String.ofList cs)]).Resumes text ts) :
    (p.reading b c k?).Runs ts := by
  obtain ⟨c', hread, hbehind, hline⟩ := readBlock?_eq h hcs hnext hc
  rw [Form.write, List.cons_append, List.cons_append] at hc
  have htoken : (p.reading b c none).readToken? '|' =
      some ((p.add [.scalar .literal (String.ofList cs)]).reading true c' none) := by
    have hblock : (p.reading b c none).readToken? '|' =
        (p.reading b c none).readBlockScalar? .literal := by
      unfold Reading.readToken?
      simp [Cursor.atDocumentMark, Cursor.isAt, Cursor.at?_zero hc, Reading.inFlow, reading]
    rw [hblock, Reading.readBlockScalar?]
    rw [← hindent] at hread
    simp [Reading.dropKey?, reading, hread, add, Reading.emit]
  refine runs_token hc (by simp [StartsToken, isBlank, isBreak, byteOrderMark]) (by omega) hpast
    htoken ?_ (hruns.runs hbehind past_none)
  have hshort := length_unindented_le text
  rw [cursor_reading, hbehind.rest, hc]
  simp only [List.length_cons, List.length_append]
  omega

/-! ### Empty collections -/

/-- The reader behind an opening bracket. -/
def bracketed (p : Progress) (c : Cursor) : Reading :=
  { p.reading true c none with flow := 1, keys := [none, none] }

theorem settle?_bracketed (hc : StartsToken c.rest) :
    (p.bracketed c).settle? = some (p.bracketed c) := by
  have hskip : (p.bracketed c).skipToToken (c.rest.length + 1) = p.bracketed c := by
    rw [Reading.skipToToken_spaces (r := p.bracketed c) (k := 0) _ rfl hc]
    simp [bracketed, reading]
  rw [Reading.settle?, show (p.bracketed c).cursor = c from rfl, hskip]
  rfl

/-- **An empty sequence is read**, and reading goes on with the next line. -/
theorem runs_emptySequence (hindent : p.indent = n) (hc : c.rest = '[' :: ']' :: '\n' :: text)
    (hcolumn : n < c.column) (hnext : Next n text)
    (hruns : (p.add [.flowSequenceStart, .flowSequenceEnd]).Resumes text ts) :
    (p.reading false c none).Runs ts := by
  have hrest := Cursor.rest_advance_one hc
  have hrest' := Cursor.rest_advance_one hrest
  have hopen : (p.reading false c none).readToken? '[' =
      some ((p.add [.flowSequenceStart]).bracketed (c.advance 1)) := by
    have hflow : (p.reading false c none).readToken? '[' =
        (p.reading false c none).openFlow? .flowSequenceStart := by
      unfold Reading.readToken?
      simp [Cursor.atDocumentMark, Cursor.isAt, Cursor.at?_zero hc]
    rw [hflow, Reading.openFlow?, rememberKey?_false]
    simp [reading, bracketed, add, Reading.emitMark, Reading.emit]
  have hclose : ((p.add [.flowSequenceStart]).bracketed (c.advance 1)).readToken? ']' =
      some ((p.add [.flowSequenceStart, .flowSequenceEnd]).reading false
        ((c.advance 1).advance 1) none) := by
    unfold Reading.readToken?
    simp [bracketed, reading, add, Cursor.atDocumentMark, Cursor.isAt, Cursor.at?_zero hrest,
      Reading.closeFlow?, Reading.dropKey?, Reading.inFlow, Reading.emitMark, Reading.emit]
  refine runs_token hc (by simp [StartsToken, isBlank, isBreak, byteOrderMark]) (by omega) past_none
    hopen (by simp [bracketed, reading, hrest, hc]) ?_
  refine .step (settle?_bracketed ?_) hrest hclose (by simp [bracketed, reading, hrest, hrest'])
    (hruns.runs_break hrest' hnext (by simp))
  rw [hrest]
  simp [StartsToken, isBlank, isBreak, byteOrderMark]

/-! ### Keys -/

/-- The blocks that are open behind a key at a column. -/
def keyAt (p : Progress) (column : ℕ) : Progress :=
  if p.indent < column then p.enter column else p

theorem insertIdx_length {α : Type} (xs ys : List α) (x : α) :
    (xs ++ ys).insertIdx xs.length x = xs ++ x :: ys := by
  induction xs with
  | nil => rfl
  | cons z xs ih => simpa using ih

/-- A key that may still come is kept. -/
theorem settle?_key {k : PossibleKey} (hc : StartsToken c.rest) (hcolumn : p.indent ≤ c.column)
    (hfresh : (p.reading b c (some k)).isStale k = false) :
    (p.reading b c (some k)).settle? = some (p.reading b c (some k)) := by
  have hskip : (p.reading b c (some k)).skipToToken (c.rest.length + 1) =
      p.reading b c (some k) := by
    rw [Reading.skipToToken_spaces (r := p.reading b c (some k)) (k := 0) _ rfl hc]
    simp [reading]
  have hdrop : (p.reading b c (some k)).dropStale? = some (p.reading b c (some k)) := by
    rw [Reading.dropStale?, show (p.reading b c (some k)).keys = [some k] from rfl, List.mapM_cons]
    simp only [hfresh]
    rfl
  rw [Reading.settle?, cursor_reading, hskip, hdrop]
  exact congrArg some (closeBlocks_reading hcolumn)

/-- A colon makes a key of the scalar in front of it, and perhaps the beginning of a mapping. -/
theorem readToken?_colon {k : PossibleKey} {token : Token} (hc : c.rest = ':' :: tail)
    (htail : EndsWord tail) (hposition : k.position = p.tokens.length)
    (hcolumn : k.column = column) :
    ((p.add [token]).reading false c (some k)).readToken? ':' =
      some (((p.keyAt column).add [.key, token, .value]).reading false (c.advance 1) none) := by
  have hends : c.endsWord 1 = true := Cursor.endsWord_iff.mpr (by simpa [hc] using htail)
  have hcolon : ((p.add [token]).reading false c (some k)).readToken? ':' =
      ((p.add [token]).reading false c (some k)).readColon? := by
    unfold Reading.readToken?
    simp [Cursor.atDocumentMark, Cursor.isAt, Cursor.at?_zero hc, hends]
  rw [hcolon]
  unfold Reading.readColon?
  simp only [reading, add, hposition, hcolumn, List.insertIdxIfInBounds_toArray, insertIdx_length,
    Reading.openBlock, Reading.inFlow, keyAt]
  by_cases hlt : p.indent < column <;> simp [hlt, Reading.emitMark, Reading.emit, enter]

/-- A key is read as a plain scalar, and its place is remembered. -/
theorem readToken?_key (h : IsPlain (x :: cs)) (hc : c.rest = x :: cs ++ ':' :: tail)
    (htail : EndsWord tail) (hmargin : p.indent ≤ c.column) :
    (p.reading true c none).readToken? x =
      some ((p.add [.scalar .plain (String.ofList (x :: cs))]).reading false
        (c.advance (x :: cs).length) (some {
          position := p.tokens.length
          offset := c.offset
          line := c.line
          column := c.column
          required := p.indent == c.column })) := by
  have hread : readPlain? false (p.indent + 1).toNat c =
      some (String.ofList (x :: cs), false, c.advance (x :: cs).length) :=
    readPlain?_key h hc htail (by omega)
  rw [readToken?_plain h hc (by simp), Reading.readPlainScalar?, rememberKey?_true]
  simp [reading, Reading.inFlow, hread, add, Reading.emit]

/-- **A key is read** with its colon, and reading goes on with its value. -/
theorem Starts.key (h : IsPlain cs) (hlength : Cursor.byteLength cs ≤ 1024)
    (hcolumn : p.indent ≤ column) (htail : EndsWord tail)
    (hruns : ∀ c, c.rest = tail → column < c.column →
      (((p.keyAt column).add [.key, .scalar .plain (String.ofList cs), .value]).reading false c
        none).Runs ts) : p.Starts column (cs ++ ':' :: tail) ts := by
  intro c k? hc hcol hpast
  obtain ⟨x, cs, rfl⟩ := List.exists_cons_of_ne_nil h.ne_nil
  have hrest : (c.advance (x :: cs).length).rest = ':' :: tail := Cursor.rest_advance hc
  have hrest' := Cursor.rest_advance_one hrest
  have hscalar := readToken?_key h hc htail (show p.indent ≤ c.column by omega)
  refine runs_token hc (h.startsToken _) (by omega) hpast hscalar ?_
    (.step (settle?_key ?_ ?_ ?_) hrest (readToken?_colon hrest htail rfl rfl) ?_ ?_)
  · rw [cursor_reading, hrest, hc]
    simp only [List.length_append, List.length_cons]
    omega
  · rw [hrest]
    simp [StartsToken, isBlank, isBreak, byteOrderMark]
  · rw [indent_add, Cursor.column_advance]
    omega
  · have htake : c.rest.take (x :: cs).length = x :: cs := by rw [hc, List.take_left]
    have hoffset :
        (c.advance (x :: cs).length).offset = c.offset + Cursor.byteLength (x :: cs) := by
      rw [Cursor.advance, htake]
    rw [Reading.isStale, cursor_reading, Cursor.line_advance, hoffset, Bool.or_eq_false_iff,
      decide_eq_false_iff_not, decide_eq_false_iff_not]
    exact ⟨Nat.lt_irrefl _, show ¬ c.offset + 1024 < _ by omega⟩
  · rw [cursor_reading, cursor_reading, hrest, hrest']
    simp
  · refine hcol ▸ hruns _ hrest' ?_
    simp only [Cursor.column_advance]
    omega

/-! ### Items -/

/-- **The mark of an item is read**, and reading goes on with the item. -/
theorem Starts.item (hindent : p.indent = column) (htail : StartsToken tail)
    (h : (p.add [.blockEntry]).Starts (column + 2) tail ts) :
    p.Starts column ('-' :: ' ' :: tail) ts := by
  intro c k? hc hcol hpast
  have hrest := Cursor.rest_advance_one hc
  have hrest' := Cursor.rest_advance_one hrest
  have hmark : (p.reading true c none).readToken? '-' =
      some ((p.add [.blockEntry]).reading true (c.advance 1) none) := by
    have hends : c.endsWord 1 = true := by
      rw [Cursor.endsWord_iff, hc, List.drop_succ_cons, List.drop_zero, endsWord_cons]
      exact .inl rfl
    have hblock : (p.reading true c none).readToken? '-' =
        (p.reading true c none).readBlockMark? .blockSequenceStart .blockEntry true := by
      unfold Reading.readToken?
      simp [Cursor.atDocumentMark, Cursor.isAt, Cursor.at?_zero hc, Cursor.at?_one hc, hends]
    have hsame : ¬ p.indent < (c.column : ℤ) := by omega
    rw [hblock, Reading.readBlockMark?]
    simp [reading, Reading.openBlock, Reading.inFlow, hsame, Reading.dropKey?, Reading.emitMark,
      Reading.emit, add]
  refine runs_token hc (by simp [StartsToken, isBlank, isBreak, byteOrderMark]) (by omega) hpast
    hmark (by simp [hrest, hc]) ?_
  refine (h _ _ hrest' ?_ past_none).congr (settle?_space hrest htail) (by simp [hrest, hrest'])
  simp only [Cursor.column_advance]
  omega

end Progress

end WaterNetwork.Yaml
