import WaterNetwork.Proofs.Yaml.Cursor

/-!
# Quoted scalars

Between quotes a text is written character by character, with spaces and some breaks as they are. It
is read run by run: a run of written characters stands for the characters themselves, a gap of
spaces for itself, and a gap of breaks for itself as well, since only breaks that are not folded
stand between quotes, and no space stands next to one.

* `readQuoted?_eq` — a text is read back if its characters are.
* `readQuoted?_single`, `readQuoted?_double` — so are texts between single and double quotes.
-/

namespace WaterNetwork.Yaml

variable {quote x : Char} {encode : Char → List Char} {p : Char → Bool} {c d : Cursor}
  {w cs tail : List Char} {fuel m : Nat}

/-! ### Runs -/

/-- **How a character is written between quotes**: by characters that neither break the line nor
start with a blank, and that are read as this one. -/
structure Encodes (quote : Char) (encode : Char → List Char) (x : Char) : Prop where
  solid : ∀ y ∈ encode x, isBreak y = false
  head : ∃ y ys, encode x = y :: ys ∧ isBlank y = false
  read : ∀ (fuel : Nat) (c : Cursor) (tail : List Char), c.rest = encode x ++ tail →
    readQuotedRun? quote (fuel + 1) c =
      (readQuotedRun? quote fuel (c.advance (encode x).length)).map fun (run, b, c) =>
        (x :: run, b, c)

/-- A run ends here: at a blank, a break or the closing quote, which is not written twice. -/
def EndsRun (quote : Char) (tail : List Char) : Prop :=
  (∃ x rest, tail = x :: rest ∧ (isBlank x = true ∨ isBreak x = true)) ∨
    ∃ rest, tail = quote :: rest ∧ rest.head? ≠ some '\''

theorem readQuotedRun?_ends (hc : c.rest = tail) (h : EndsRun quote tail) :
    readQuotedRun? quote (fuel + 1) c = some ([], false, c) := by
  rw [readQuotedRun?]
  rcases h with ⟨x, rest, rfl, hx⟩ | ⟨rest, rfl, hrest⟩
  · simp only [Cursor.at?_zero hc]
    rw [if_pos (by simpa using hx)]
  · have hone : c.isAt 1 '\'' = false := by
      rw [Cursor.isAt, Cursor.at?_one hc]
      simpa using hrest
    simp only [Cursor.at?_zero hc, hone, Bool.false_eq_true, and_false, if_false, if_true]
    split <;> rfl

/-- A run stands for the characters that it is written for. -/
theorem readQuotedRun?_eq (hw : ∀ x ∈ w, Encodes quote encode x)
    (hc : c.rest = w.flatMap encode ++ tail) (h : EndsRun quote tail) (hfuel : w.length < fuel) :
    readQuotedRun? quote fuel c = some (w, false, c.advance (w.flatMap encode).length) := by
  induction w generalizing c fuel with
  | nil =>
    obtain ⟨fuel, rfl⟩ := Nat.exists_eq_add_one.mpr hfuel
    rw [readQuotedRun?_ends hc h]
    simp [Cursor.advance, Cursor.byteLength]
  | cons x w ih =>
    obtain ⟨fuel, rfl⟩ := Nat.exists_eq_add_one.mpr (Nat.zero_lt_of_lt hfuel)
    rw [List.forall_mem_cons] at hw
    rw [List.flatMap_cons, List.append_assoc] at hc
    rw [hw.1.read fuel c _ hc, ih hw.2 (Cursor.rest_advance hc) (by simpa using hfuel),
      Cursor.advance_add, List.flatMap_cons, List.length_append]
    rfl

/-! ### Gaps -/

/-- **A text that can be written between quotes**, where `p` says which characters stand as they
are and make up the gaps. No gap has both spaces and breaks in it, and line feeds would be
folded. -/
structure Quotable (quote : Char) (encode : Char → List Char) (p : Char → Bool)
    (cs : List Char) : Prop where
  word : ∀ x ∈ cs, p x = false → Encodes quote encode x
  gap : ∀ x ∈ cs, p x = true → encode x = [x] ∧ (x = ' ' ∨ (IsPlainBreak x ∧ x ≠ '\n'))
  chain : cs.IsChain fun a b => p a = true → p b = true →
    ¬ (a = ' ' ∧ isBreak b = true) ∧ ¬ (isBreak a = true ∧ b = ' ')

theorem Quotable.right {xs ys : List Char} (h : Quotable quote encode p (xs ++ ys)) :
    Quotable quote encode p ys :=
  ⟨fun x hx => h.word x (List.mem_append_right _ hx),
    fun x hx => h.gap x (List.mem_append_right _ hx), (List.isChain_append.mp h.chain).2.1⟩

theorem Quotable.left {xs ys : List Char} (h : Quotable quote encode p (xs ++ ys)) :
    Quotable quote encode p xs :=
  ⟨fun x hx => h.word x (List.mem_append_left _ hx),
    fun x hx => h.gap x (List.mem_append_left _ hx), (List.isChain_append.mp h.chain).1⟩

/-- A gap is made of spaces or of breaks. -/
theorem Quotable.spaces_or_breaks {g : List Char} (h : Quotable quote encode p g)
    (hg : ∀ x ∈ g, p x = true) :
    (∀ x ∈ g, x = ' ') ∨ ∀ x ∈ g, IsPlainBreak x ∧ x ≠ '\n' := by
  induction g with
  | nil => exact .inl nofun
  | cons x g ih =>
    rw [List.forall_mem_cons] at hg
    have hx := (h.gap x List.mem_cons_self hg.1).2
    cases g with
    | nil => exact hx.imp List.forall_mem_singleton.mpr List.forall_mem_singleton.mpr
    | cons y g =>
      have hright := (show Quotable quote encode p ([x] ++ y :: g) from h).right
      have hmeet := (List.isChain_cons_cons.mp h.chain).1 hg.1 (hg.2 y List.mem_cons_self)
      rcases hx with rfl | hx <;> rcases ih hright hg.2 with hall | hall
      · exact .inl (List.forall_mem_cons.mpr ⟨rfl, hall⟩)
      · exact absurd ⟨rfl, (hall y List.mem_cons_self).1.1⟩ hmeet.1
      · exact absurd ⟨hx.1.1, hall y List.mem_cons_self⟩ hmeet.2
      · exact .inr (List.forall_mem_cons.mpr ⟨hx, hall⟩)

/-- What stands behind a gap: the characters of a word, or the closing quote. -/
theorem Quotable.ends (h : Quotable quote encode p cs) (hcs : ∀ x ∈ cs.head?, p x = false)
    (hquote : isBlank quote = false ∧ isBreak quote = false) :
    ∃ y ys, cs.flatMap encode ++ [quote] = y :: ys ∧ isBlank y = false ∧ isBreak y = false := by
  cases cs with
  | nil => exact ⟨quote, [], rfl, hquote⟩
  | cons x cs =>
    have hx := h.word x List.mem_cons_self (hcs x rfl)
    obtain ⟨y, ys, hy, hblank⟩ := hx.head
    refine ⟨y, ys ++ (cs.flatMap encode ++ [quote]), by simp [hy], hblank, hx.solid y ?_⟩
    rw [hy]
    exact List.mem_cons_self

/-! ### Texts -/

/-- A gap between quotes is read as itself. -/
theorem read?_quotedGap {g ys : List Char} (hne : g ≠ [])
    (hg : (∀ x ∈ g, x = ' ') ∨ ∀ x ∈ g, IsPlainBreak x ∧ x ≠ '\n')
    (hx : isBlank x = false ∧ isBreak x = false) (hm : 0 < m)
    (hc : c.rest = indentLines m false (g ++ x :: ys) ++ tail) (hcolumn : c.column ≠ 0) :
    ∃ gap c', Gap.read? 0 (c.rest.length + 1) {} c = some (gap, c') ∧ gap.folded = g ∧
      c'.rest = indentLines m false (x :: ys) ++ tail ∧ c'.column ≠ 0 ∧ c.line ≤ c'.line := by
  have hends : Gap.Ends (indentLines m false (x :: ys) ++ tail) := by
    rw [indentLines, if_neg (by simp [hx.2]), if_neg Bool.false_ne_true]
    simpa [Gap.Ends] using hx
  rcases hg with hspaces | hbreaks
  · have hsolid : ∀ y ∈ g, isBreak y = false := fun y hy => by rw [hspaces y hy]; rfl
    rw [indentLines_word m hsolid, List.append_assoc] at hc
    refine ⟨{ blanks := g }, c.advance g.length, ?_, rfl, Cursor.rest_advance hc, ?_,
      Nat.le_refl _⟩
    · refine Gap.read?_blanks hspaces hc hends rfl ?_
      rw [hc, List.length_append]
      omega
    · rw [Cursor.column_advance]
      omega
  · obtain ⟨b, bs, rfl⟩ := List.exists_cons_of_ne_nil hne
    rw [indentLines_breaks m false (fun y hy => (hbreaks y hy).1.1) hne, indentLines_line m hx.2,
      List.append_assoc, List.append_assoc, List.cons_append] at hc
    rw [List.forall_mem_cons] at hbreaks
    have hfuel : bs.length + m < c.rest.length := by
      rw [hc]
      simp only [List.length_cons, List.length_append, List.length_replicate]
      omega
    obtain ⟨c', hread, hrest, hcolumn', hline⟩ :=
      @Gap.read?_breaks 0 c.rest.length { broken := true, first := [b] } (c.nextLine b _) _ bs m
        (fun y hy => (hbreaks.2 y hy).1) rfl rfl hends rfl hfuel
    refine ⟨{ broken := true, first := [b], more := bs }, c', ?_, ?_, hrest, by omega,
      Nat.le_of_succ_le hline⟩
    · rw [Gap.read?_break hbreaks.1.1 hc]
      exact hread
    · simp [Gap.folded, hbreaks.1.2]

theorem EndsRun.ne_nil (h : EndsRun quote tail) : tail ≠ [] := by
  rcases h with ⟨_, _, rfl, -⟩ | ⟨_, rfl, -⟩ <;> exact List.cons_ne_nil _ _

theorem Encodes.ne_nil (h : Encodes quote encode x) : encode x ≠ [] := by
  obtain ⟨y, ys, hy, -⟩ := h.head
  rw [hy]
  exact List.cons_ne_nil _ _

theorem length_le_flatMap (hw : ∀ x ∈ w, encode x ≠ []) :
    w.length ≤ (w.flatMap encode).length := by
  induction w with
  | nil => exact Nat.le_refl 0
  | cons x w ih =>
    rw [List.forall_mem_cons] at hw
    have hx := List.length_pos_iff.mpr hw.1
    have := ih hw.2
    rw [List.flatMap_cons, List.length_append, List.length_cons]
    omega

/-- A run of the body is read; then comes the closing quote, or a gap. -/
theorem readQuotedBody?_run (hw : ∀ x ∈ w, Encodes quote encode x)
    (hc : c.rest = w.flatMap encode ++ tail) (h : EndsRun quote tail) (hcolumn : c.column ≠ 0) :
    readQuotedBody? quote (fuel + 1) c =
      let d := c.advance (w.flatMap encode).length
      if d.isAt 0 quote then some (w, d.advance 1)
      else do
        let (gap, d) ← Gap.read? 0 (d.rest.length + 1) {} d
        let (more, d) ← readQuotedBody? quote fuel d
        return (w ++ gap.folded ++ more, d) := by
  have hlength := length_le_flatMap fun x hx => (hw x hx).ne_nil
  have hread : readQuotedRun? quote (c.rest.length + 1) c =
      some (w, false, c.advance (w.flatMap encode).length) :=
    readQuotedRun?_eq hw hc h (by rw [hc, List.length_append]; omega)
  have hend : c.atEnd = false := by
    rw [Cursor.atEnd, hc, List.isEmpty_eq_false_iff]
    exact List.append_ne_nil_of_right_ne_nil _ h.ne_nil
  rw [readQuotedBody?, Cursor.atDocumentBoundary_of_column hcolumn, hend, hread]
  rfl

/-- The last run is followed by the closing quote. -/
theorem readQuotedBody?_close (hw : ∀ x ∈ w, Encodes quote encode x)
    (hc : c.rest = w.flatMap encode ++ quote :: tail) (htail : tail.head? ≠ some '\'')
    (hcolumn : c.column ≠ 0) :
    readQuotedBody? quote (fuel + 1) c =
      some (w, (c.advance (w.flatMap encode).length).advance 1) := by
  have hat : (c.advance (w.flatMap encode).length).isAt 0 quote = true := by
    rw [Cursor.isAt, Cursor.at?_zero (Cursor.rest_advance hc), beq_self_eq_true]
  rw [readQuotedBody?_run hw hc (.inr ⟨tail, rfl, htail⟩) hcolumn]
  exact if_pos hat

/-- Every other run is followed by a gap and what stands behind it. -/
theorem readQuotedBody?_gap {b : Char} (hw : ∀ x ∈ w, Encodes quote encode x)
    (hc : c.rest = w.flatMap encode ++ b :: tail) (hb : isBlank b = true ∨ isBreak b = true)
    (hquote : isBlank quote = false ∧ isBreak quote = false) (hcolumn : c.column ≠ 0) :
    readQuotedBody? quote (fuel + 1) c = (do
      let d := c.advance (w.flatMap encode).length
      let (gap, d) ← Gap.read? 0 (d.rest.length + 1) {} d
      let (more, d) ← readQuotedBody? quote fuel d
      return (w ++ gap.folded ++ more, d)) := by
  have hne : b ≠ quote := by
    rintro rfl
    simp [hquote] at hb
  have hat : (c.advance (w.flatMap encode).length).isAt 0 quote = false := by
    rw [Cursor.isAt, Cursor.at?_zero (Cursor.rest_advance hc)]
    simpa using hne
  rw [readQuotedBody?_run hw hc (.inl ⟨b, tail, rfl, hb⟩) hcolumn]
  simp only [hat, Bool.false_eq_true, if_false]

theorem Encodes.solid_flatMap (hw : ∀ x ∈ w, Encodes quote encode x) :
    ∀ y ∈ w.flatMap encode, isBreak y = false := fun y hy => by
  obtain ⟨x, hx, hy⟩ := List.mem_flatMap.mp hy
  exact (hw x hx).solid y hy

/-- **The body of a quoted text is read** up to the closing quote. -/
theorem readQuotedBody?_eq (h : Quotable quote encode p cs)
    (hquote : isBlank quote = false ∧ isBreak quote = false) (htail : tail.head? ≠ some '\'')
    (hm : 0 < m) (hc : c.rest = indentLines m false (cs.flatMap encode ++ [quote]) ++ tail)
    (hcolumn : c.column ≠ 0) (hfuel : cs.length < fuel) :
    ∃ c', readQuotedBody? quote fuel c = some (cs, c') ∧ c'.rest = tail ∧ c.line ≤ c'.line := by
  induction cs using words_induction (p := p) generalizing c fuel with
  | word w hw =>
    obtain ⟨fuel, rfl⟩ := Nat.exists_eq_add_one.mpr (Nat.zero_lt_of_lt hfuel)
    have hencodes : ∀ x ∈ w, Encodes quote encode x := fun x hx => h.word x hx (hw x hx)
    have hlast : indentLines m false [quote] = [quote] := by simp [indentLines]
    rw [indentLines_word m (Encodes.solid_flatMap hencodes), hlast, List.append_assoc] at hc
    exact ⟨_, readQuotedBody?_close hencodes hc htail hcolumn,
      Cursor.rest_advance_one (Cursor.rest_advance hc), Nat.le_refl _⟩
  | gap w g xs hw hne hgap hxs ih =>
    obtain ⟨fuel, rfl⟩ := Nat.exists_eq_add_one.mpr (Nat.zero_lt_of_lt hfuel)
    have hencodes : ∀ x ∈ w, Encodes quote encode x := fun x hx => h.left.word x hx (hw x hx)
    have hg : g.flatMap encode = g := by
      have hsingle : ∀ x ∈ g, encode x = [x] := fun x hx => (h.right.left.gap x hx (hgap x hx)).1
      rw [List.flatMap_congr hsingle, List.flatMap_singleton']
    obtain ⟨y, ys, hys, hy⟩ := h.right.right.ends hxs hquote
    rw [List.flatMap_append, List.flatMap_append, hg, List.append_assoc, List.append_assoc,
      indentLines_word m (Encodes.solid_flatMap hencodes), List.append_assoc, hys] at hc
    have hsoft := h.right.left.spaces_or_breaks hgap
    obtain ⟨gap, c₁, hread, hfolded, hrest₁, hcolumn₁, hline₁⟩ :=
      read?_quotedGap hne hsoft hy hm (Cursor.rest_advance hc)
        (by rw [Cursor.column_advance]; omega)
    obtain ⟨b, bs, rfl⟩ := List.exists_cons_of_ne_nil hne
    have hb : isBlank b = true ∨ isBreak b = true :=
      hsoft.imp (fun hall => by rw [hall b List.mem_cons_self]; rfl)
        fun hall => (hall b List.mem_cons_self).1.1
    obtain ⟨c', hmore, hrest', hline⟩ :
        ∃ c', readQuotedBody? quote fuel c₁ = some (xs, c') ∧ c'.rest = tail ∧
          c₁.line ≤ c'.line := by
      refine ih h.right.right (by rw [hrest₁, hys]) hcolumn₁ ?_
      rw [List.length_append, List.length_append, List.length_cons] at hfuel
      omega
    obtain ⟨rest, hindent⟩ := exists_indentLines m b (bs ++ y :: ys)
    rw [List.cons_append, hindent, List.cons_append] at hc
    refine ⟨c', ?_, hrest', hline₁.trans hline⟩
    rw [readQuotedBody?_gap hencodes hc hb hquote hcolumn]
    simp only [hread, hmore, hfolded, Option.bind_eq_bind, Option.bind_some, List.append_assoc]
    rfl

/-- **A text is read back** from between quotes. -/
theorem readQuoted?_eq (h : Quotable quote encode p cs)
    (hquote : isBlank quote = false ∧ isBreak quote = false) (htail : tail.head? ≠ some '\'')
    (hm : 0 < m)
    (hc : c.rest = quote :: (indentLines m false (cs.flatMap encode ++ [quote]) ++ tail)) :
    ∃ c', readQuoted? quote c = some (String.ofList cs, c') ∧ c'.rest = tail ∧
      c.line ≤ c'.line := by
  have hwritten : ∀ x ∈ cs, encode x ≠ [] := fun x hx => by
    cases hpx : p x with
    | false => exact (h.word x hx hpx).ne_nil
    | true =>
      rw [(h.gap x hx hpx).1]
      exact List.cons_ne_nil _ _
  have hfuel : cs.length < c.rest.length + 1 := by
    have hencoded := length_le_flatMap hwritten
    have hindented := length_le_indentLines m false (cs.flatMap encode ++ [quote])
    rw [List.length_append] at hindented
    rw [hc, List.length_cons, List.length_append]
    omega
  obtain ⟨c', hread, hrest, hline⟩ := readQuotedBody?_eq h hquote htail hm
    (Cursor.rest_advance_one hc) (by rw [Cursor.column_advance]; omega) hfuel
  refine ⟨c', ?_, hrest, hline⟩
  rw [readQuoted?, hread]
  rfl

/-! ### Characters -/

/-- Most characters are written as they are. -/
theorem encodes_self (hself : encode x = [x]) (hx : isBlank x = false ∧ isBreak x = false)
    (hquote : x ≠ quote) (hescape : ¬ (x = '\\' ∧ quote = '"')) : Encodes quote encode x := by
  refine ⟨by simpa [hself] using hx.2, ⟨x, [], hself, hx.1⟩, fun fuel c tail hc => ?_⟩
  rw [hself] at hc
  have hsingle : ¬ (x = '\'' ∧ quote = '\'' ∧ c.isAt 1 '\'' = true) :=
    fun h => hquote (h.1.trans h.2.1.symm)
  rw [readQuotedRun?]
  simp only [Cursor.at?_zero hc]
  rw [if_neg (by simp [hx]), if_neg hsingle, if_neg hquote, if_neg hescape, hself]
  rfl

/-- A single quote is written twice between single quotes. -/
theorem encodes_doubledQuote (hx : isBlank x = false ∧ isBreak x = false) :
    Encodes '\'' doubledQuote x := by
  by_cases hquote : x = '\''
  · subst hquote
    refine ⟨List.forall_mem_cons.mpr ⟨rfl, List.forall_mem_singleton.mpr rfl⟩, ⟨_, _, rfl, rfl⟩,
      fun fuel c tail hc => ?_⟩
    have hone : c.isAt 1 '\'' = true := by
      rw [Cursor.isAt, Cursor.at?_one hc]
      rfl
    rw [readQuotedRun?]
    simp only [Cursor.at?_zero hc]
    rw [if_neg (by decide), if_pos (by simpa using hone)]
    rfl
  · exact encodes_self (if_neg hquote) hx hquote fun h => absurd h.2 (by decide)

/-- **A text between single quotes is read back.** -/
theorem readQuoted?_single (h : allowsSingleQuotes cs = true) (hcs : '\n' ∉ cs)
    (htail : tail.head? ≠ some '\'') (hm : 0 < m)
    (hc : c.rest = Form.singleQuoted.write m cs ++ tail) :
    ∃ c', readQuoted? '\'' c = some (String.ofList cs, c') ∧ c'.rest = tail ∧
      c.line ≤ c'.line := by
  simp only [allowsSingleQuotes, Bool.and_eq_true, Bool.not_eq_true', hasSpaceBreak, hasBreakSpace,
    anyNeighbours_eq_false_iff] at h
  obtain ⟨⟨hprint, hspaceBreak⟩, hbreakSpace⟩ := h
  rw [List.all_eq_true] at hprint
  refine readQuoted?_eq (p := fun x => x == ' ' || isBreak x) ⟨fun x hx hp => ?_, fun x hx hp => ?_,
    ?_⟩ (by decide) htail hm hc
  · rw [Bool.or_eq_false_iff] at hp
    exact encodes_doubledQuote ⟨by rw [isBlank_of_isPrintable (hprint x hx), hp.1], hp.2⟩
  · rw [Bool.or_eq_true, beq_iff_eq] at hp
    have hquote : x ≠ '\'' := by
      rintro rfl
      exact absurd hp (by decide)
    exact ⟨if_neg hquote, hp.imp_right fun hb => ⟨⟨hb, hprint x hx⟩, fun heq => hcs (heq ▸ hx)⟩⟩
  · rw [List.isChain_iff_getElem] at hspaceBreak hbreakSpace ⊢
    intro i hi _ _
    have hmeet := And.intro (hspaceBreak i hi) (hbreakSpace i hi)
    simpa using hmeet

/-! ### Double quotes -/

/-- The digits of a number are read as what is left of it. -/
theorem foldlM_hexDigits (k n start : Nat) :
    (Number.hexDigits k n).foldlM (fun n c => (Number.digitIn? 16 c).map (16 * n + ·)) start =
      some (16 ^ k * start + n % 16 ^ k) := by
  have hdigit : ∀ d < 16, Number.digitIn? 16 (Nat.digitChar d).toUpper = some d := by decide
  induction k generalizing n with
  | zero => simp [Number.hexDigits, Nat.mod_one]
  | succ k ih =>
    have hmod : n % 16 ^ (k + 1) = n % 16 + 16 * (n / 16 % 16 ^ k) := by
      rw [Nat.pow_succ', Nat.mod_mul]
    rw [Number.hexDigits, List.foldlM_append, ih]
    simp only [Option.bind_eq_bind, Option.bind_some, List.foldlM_cons, List.foldlM_nil,
      hdigit _ (Nat.mod_lt n (by decide)), Option.map_some, hmod]
    refine congrArg some ?_
    rw [Nat.pow_succ', Nat.mul_add, Nat.mul_assoc]
    omega

theorem length_hexDigits (k n : Nat) : (Number.hexDigits k n).length = k := by
  induction k generalizing n with
  | zero => rfl
  | succ k ih => rw [Number.hexDigits, List.length_append, ih]; rfl

theorem isBreak_of_mem_hexDigits {k n : Nat} {y : Char} (h : y ∈ Number.hexDigits k n) :
    isBreak y = false := by
  have hdigit : ∀ d < 16, isBreak (Nat.digitChar d).toUpper = false := by decide
  induction k generalizing n with
  | zero => simp [Number.hexDigits] at h
  | succ k ih =>
    rw [Number.hexDigits, List.mem_append, List.mem_singleton] at h
    rcases h with h | rfl
    · exact ih h
    · exact hdigit _ (Nat.mod_lt n (by decide))

/-- A character is read from its number. -/
theorem readEscape?_number {letter : Char} {length : Nat} (hletter : escapes.lookup letter = none)
    (hlength : escapeLengths.lookup letter = some length) (hpos : 0 < length)
    (hx : x.toNat < 16 ^ length)
    (hc : c.rest = letter :: (Number.hexDigits length x.toNat ++ tail)) :
    readEscape? c = some (x, c.advance (1 + length)) := by
  have hdigits : (c.rest.drop 1).take length = Number.hexDigits length x.toNat := by
    rw [hc, List.drop_succ_cons, List.drop_zero]
    exact List.take_left' (length_hexDigits ..)
  have hne : Number.hexDigits length x.toNat ≠ [] := by
    rw [← List.length_pos_iff, length_hexDigits]
    exact hpos
  have hvalue : Number.digitsIn? 16 (Number.hexDigits length x.toNat) = some x.toNat := by
    rw [Number.digitsIn?, if_neg (by simpa using hne), foldlM_hexDigits, Nat.mod_eq_of_lt hx,
      Nat.mul_zero, Nat.zero_add]
  rw [readEscape?, Cursor.at?_zero hc, Option.bind_eq_bind, Option.bind_some, hletter, hlength]
  dsimp only
  rw [hdigits, length_hexDigits, if_neg (Nat.lt_irrefl _), hvalue, Option.bind_eq_bind,
    Option.bind_some]
  have hvalid : x.toNat.isValidChar := x.valid
  have hself : Char.ofNatAux x.toNat hvalid = x := by
    have := x.ofNat_toNat
    rwa [Char.ofNat, dif_pos hvalid] at this
  rw [dif_pos hvalid, hself]
  rfl

/-- A character that its letter stands for is read from it. -/
theorem readEscape?_letter {letter : Char} (hletter : (letter, x) ∈ escapes)
    (hc : c.rest = letter :: tail) : readEscape? c = some (x, c.advance 1) := by
  have hlookup : ∀ e ∈ escapes, escapes.lookup e.1 = some e.2 := by decide
  rw [readEscape?, Cursor.at?_zero hc, Option.bind_eq_bind, Option.bind_some, hlookup _ hletter]
  rfl

/-- A character is written by a backslash and what is read as this character. -/
theorem encodes_of_escape {y : Char} {ys : List Char} (hwritten : encode x = '\\' :: y :: ys)
    (hsolid : ∀ z ∈ y :: ys, isBreak z = false)
    (hread : ∀ (c : Cursor) (tail : List Char), c.rest = y :: (ys ++ tail) →
      readEscape? c = some (x, c.advance (1 + ys.length))) : Encodes '"' encode x := by
  refine ⟨fun z hz => ?_, ⟨'\\', _, hwritten, rfl⟩, fun fuel c tail hc => ?_⟩
  · rw [hwritten, List.mem_cons] at hz
    exact hz.elim (fun heq => heq ▸ rfl) (hsolid z)
  · rw [hwritten, List.cons_append] at hc
    have hrest := Cursor.rest_advance_one hc
    have hbreak : (c.advance 1).readBreak? = none :=
      Cursor.readBreak?_eq_none fun z hz => hsolid z (by
        rw [hrest] at hz
        cases hz
        exact List.mem_cons_self)
    rw [readQuotedRun?]
    simp only [Cursor.at?_zero hc, hbreak, hread _ tail hrest]
    rw [if_neg (by decide), if_neg (by simp), if_neg (by decide), if_pos (by simp), hwritten,
      Cursor.advance_add]
    simp only [List.length_cons, Option.bind_eq_bind, Option.bind_some]
    rw [show ys.length + 1 + 1 = 1 + (1 + ys.length) by omega]
    cases readQuotedRun? '"' fuel (c.advance (1 + (1 + ys.length))) <;> rfl

/-- A character is written by a backslash and its number. -/
theorem encodes_number {letter : Char} {length : Nat} (hletter : escapes.lookup letter = none)
    (hlength : escapeLengths.lookup letter = some length) (hpos : 0 < length)
    (hsolid : isBreak letter = false) (hlt : x.toNat < 16 ^ length)
    (hwritten : encode x = '\\' :: letter :: Number.hexDigits length x.toNat) :
    Encodes '"' encode x := by
  refine encodes_of_escape hwritten
    (List.forall_mem_cons.mpr ⟨hsolid, fun z hz => isBreak_of_mem_hexDigits hz⟩) fun c tail hc => ?_
  rw [length_hexDigits]
  exact readEscape?_number hletter hlength hpos hlt hc

/-- Every character but the space is read back between double quotes. -/
theorem encodes_escape (hx : x ≠ ' ') : Encodes '"' escape x := by
  by_cases hself : (isPrintable x && !isBreak x && x != '"' && x != '\\') = true
  · have hwritten : escape x = [x] := if_pos hself
    simp only [Bool.and_eq_true, Bool.not_eq_true', bne_iff_ne] at hself
    obtain ⟨⟨⟨hprint, hbreak⟩, hquote⟩, hescape⟩ := hself
    refine encodes_self hwritten ⟨?_, hbreak⟩ hquote fun h => hescape h.1
    rw [isBlank_of_isPrintable hprint]
    simpa using hx
  · cases hfind : escapes.find? (·.2 == x) with
    | some e =>
      obtain ⟨letter, y⟩ := e
      obtain rfl : y = x := by simpa using List.find?_some hfind
      have hmem := List.mem_of_find?_eq_some hfind
      have hwritten : escape y = '\\' :: letter :: [] := by
        rw [escape, if_neg hself, hfind]
      have hsolid : ∀ e ∈ escapes, isBreak e.1 = false := by decide
      exact encodes_of_escape hwritten (List.forall_mem_singleton.mpr (hsolid _ hmem))
        fun c tail hc => readEscape?_letter hmem hc
    | none =>
      have hwritten : escape x =
          if x.toNat < 0x100 then '\\' :: 'x' :: Number.hexDigits 2 x.toNat
          else if x.toNat < 0x10000 then '\\' :: 'u' :: Number.hexDigits 4 x.toNat
          else '\\' :: 'U' :: Number.hexDigits 8 x.toNat := by
        rw [escape, if_neg hself, hfind]
      by_cases h₂ : x.toNat < 0x100
      · rw [if_pos h₂] at hwritten
        exact encodes_number rfl rfl (by decide) rfl h₂ hwritten
      · rw [if_neg h₂] at hwritten
        by_cases h₄ : x.toNat < 0x10000
        · rw [if_pos h₄] at hwritten
          exact encodes_number rfl rfl (by decide) rfl h₄ hwritten
        · rw [if_neg h₄] at hwritten
          have hlt : x.toNat < 16 ^ 8 := x.val.toNat_lt_size
          exact encodes_number rfl rfl (by decide) rfl hlt hwritten

/-- **A text between double quotes is read back.** -/
theorem readQuoted?_double (htail : tail.head? ≠ some '\'')
    (hc : c.rest = Form.doubleQuoted.write m cs ++ tail) :
    ∃ c', readQuoted? '"' c = some (String.ofList cs, c') ∧ c'.rest = tail ∧
      c.line ≤ c'.line := by
  have hspace : escape ' ' = [' '] := by decide
  have hquotable : Quotable '"' escape (· == ' ') cs := by
    refine ⟨fun x _ hx => encodes_escape (by simpa using hx), fun x _ hx => ?_, ?_⟩
    · obtain rfl := eq_of_beq hx
      exact ⟨hspace, .inl rfl⟩
    · rw [List.isChain_iff_getElem]
      intro i hi ha hb
      rw [eq_of_beq ha, eq_of_beq hb]
      decide
  -- What is written has no breaks, so that there are no lines to indent.
  have hsolid : ∀ y ∈ cs.flatMap escape ++ ['"'], isBreak y = false := by
    intro y hy
    rw [List.mem_append, List.mem_flatMap, List.mem_singleton] at hy
    rcases hy with ⟨x, -, hy⟩ | rfl
    · by_cases hx : x = ' '
      · rw [hx, hspace, List.mem_singleton] at hy
        exact hy ▸ rfl
      · exact (encodes_escape hx).solid y hy
    · rfl
  have hline : indentLines 1 false (cs.flatMap escape ++ ['"']) = cs.flatMap escape ++ ['"'] := by
    have hword := indentLines_word 1 hsolid []
    rwa [List.append_nil, indentLines, List.append_nil] at hword
  exact readQuoted?_eq hquotable (by decide) htail Nat.zero_lt_one (by rw [hline, hc]; rfl)

end WaterNetwork.Yaml
