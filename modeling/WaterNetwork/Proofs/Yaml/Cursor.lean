import Mathlib.Data.List.Chain
import WaterNetwork.Yaml.Form
import WaterNetwork.Yaml.Token.Scalar

/-!
# Words and places

A scalar is read word by word, and a block line by line, so what has been written is taken apart
in the same way: into runs of characters that a test refuses and gaps of characters that it
accepts. What may stand next to each other in a text is a condition on such parts, and on where
they meet.

* `words_induction` — induction on a text by its words and gaps.
* `anyNeighbours_eq_false_iff` — what neighbours may not do is a chain of conditions.
* `Gap.read?_blanks`, `Gap.read?_line` — a gap on a line, and one that ends it.
-/

namespace WaterNetwork.Yaml

/-! ### Words and gaps -/

/-- Induction on a list by its words, whose elements a test refuses, and the gaps between them. -/
theorem words_induction {α : Type} {p : α → Bool} {motive : List α → Prop}
    (word : ∀ w, (∀ x ∈ w, p x = false) → motive w)
    (gap : ∀ w g xs, (∀ x ∈ w, p x = false) → g ≠ [] → (∀ x ∈ g, p x = true) →
      (∀ x ∈ xs.head?, p x = false) → motive xs → motive (w ++ (g ++ xs))) (xs : List α) :
    motive xs := by
  have hsplit : xs = xs.takeWhile (!p ·) ++ xs.dropWhile (!p ·) :=
    List.takeWhile_append_dropWhile.symm
  have hword : ∀ x ∈ xs.takeWhile (!p ·), p x = false := fun x hx => by
    simpa using List.all_eq_true.mp List.all_takeWhile x hx
  cases hrest : xs.dropWhile (!p ·) with
  | nil =>
    rw [hrest, List.append_nil] at hsplit
    exact hsplit ▸ word _ hword
  | cons y ys =>
    have hy : p y = true := by
      have hhead := List.head?_dropWhile_not (!p ·) xs
      rw [hrest] at hhead
      simpa using hhead
    have hgap : y :: ys = (y :: ys).takeWhile p ++ (y :: ys).dropWhile p :=
      List.takeWhile_append_dropWhile.symm
    have hshorter : ((y :: ys).dropWhile p).length < xs.length := by
      have hle := congrArg List.length hsplit
      have hdrop := (List.dropWhile_sublist (l := ys) p).length_le
      rw [hrest, List.length_append, List.length_cons] at hle
      rw [List.dropWhile_cons_of_pos hy]
      omega
    rw [hsplit, hrest, hgap]
    refine gap _ _ _ hword ?_ (fun x hx => List.all_eq_true.mp List.all_takeWhile x hx) ?_
      (words_induction word gap _)
    · rw [List.takeWhile_cons_of_pos hy]
      exact List.cons_ne_nil _ _
    · intro x hx
      have hhead := List.head?_dropWhile_not p (y :: ys)
      rw [Option.mem_def.mp hx] at hhead
      exact hhead
termination_by xs.length

/-! ### Neighbours -/

theorem anyNeighbours_eq_false_iff {p : Char → Char → Bool} {cs : List Char} :
    anyNeighbours p cs = false ↔ cs.IsChain fun a b => p a b = false := by
  induction cs with
  | nil => simp [anyNeighbours]
  | cons a cs ih =>
    cases cs with
    | nil => simp [anyNeighbours]
    | cons b cs =>
      rw [List.isChain_cons_cons, ← ih]
      simp [anyNeighbours]

/-! ### Cursors -/

namespace Cursor

variable {c : Cursor} {x : Char} {w tail : List Char}

@[simp] theorem column_advance (c : Cursor) (n : Nat) : (c.advance n).column = c.column + n := rfl

@[simp] theorem line_advance (c : Cursor) (n : Nat) : (c.advance n).line = c.line := rfl

@[simp] theorem advance_zero (c : Cursor) : c.advance 0 = c := by simp [advance, byteLength]

theorem rest_advance (h : c.rest = w ++ tail) : (c.advance w.length).rest = tail := by
  simp [advance, h]

theorem rest_advance_one (h : c.rest = x :: tail) : (c.advance 1).rest = tail := by
  simp [advance, h]

theorem byteLength_append (xs ys : List Char) :
    byteLength (xs ++ ys) = byteLength xs + byteLength ys := by
  simp [byteLength, String.ofList_append]

/-- To go on twice is to go on by both counts. -/
theorem advance_add (c : Cursor) (m n : Nat) : (c.advance m).advance n = c.advance (m + n) := by
  simp only [advance, List.drop_drop, Nat.add_assoc, mk.injEq, true_and, and_true]
  rw [List.take_add, byteLength_append]

theorem at?_zero (h : c.rest = x :: tail) : c.at? 0 = some x := by simp [at?, h]

theorem at?_one (h : c.rest = x :: tail) : c.at? 1 = tail.head? := by
  cases tail <;> simp [at?, h]

theorem atDocumentBoundary_of_column (h : c.column ≠ 0) : c.atDocumentBoundary = false := by
  simp [atDocumentBoundary, atDocumentMark, h]

end Cursor

/-! ### Ends of words -/

/-- A blank, a break or nothing comes next, so that a word ends here. -/
def EndsWord (tail : List Char) : Prop := ∀ x ∈ tail.head?, isBlank x = true ∨ isBreak x = true

theorem endsWord_cons {x : Char} {tail : List Char} :
    EndsWord (x :: tail) ↔ isBlank x = true ∨ isBreak x = true := by simp [EndsWord]

theorem Cursor.endsWord_iff {c : Cursor} {n : Nat} :
    c.endsWord n = true ↔ EndsWord (c.rest.drop n) := by
  rw [Cursor.endsWord, Cursor.at?, EndsWord, List.head?_drop]
  cases c.rest[n]? <;> simp

theorem Cursor.endsWord_eq_false_iff {c : Cursor} {n : Nat} :
    c.endsWord n = false ↔ ¬ EndsWord (c.rest.drop n) := by
  rw [← Cursor.endsWord_iff, Bool.not_eq_true]

/-! ### Blanks and breaks -/

/-- The only blank that can be printed is the space. -/
theorem isBlank_of_isPrintable {x : Char} (h : isPrintable x = true) :
    isBlank x = (x == ' ') := by
  have htab : (x == '\t') = false := by
    refine Bool.eq_false_iff.mpr fun htab => ?_
    rw [eq_of_beq htab] at h
    exact absurd h (by decide)
  rw [isBlank, htab, Bool.or_false]

/-- A break that stands in a text as it is. -/
def IsPlainBreak (b : Char) : Prop := isBreak b = true ∧ isPrintable b = true

instance (b : Char) : Decidable (IsPlainBreak b) := inferInstanceAs (Decidable (_ ∧ _))

theorem IsPlainBreak.cases {b : Char} (h : IsPlainBreak b) :
    b = '\n' ∨ b = '\u2028' ∨ b = '\u2029' := by
  obtain ⟨hbreak, hprint⟩ := h
  simp only [isBreak, Bool.or_eq_true, beq_iff_eq] at hbreak
  rcases hbreak with (((rfl | rfl) | rfl) | rfl) | rfl
  · exact .inl rfl
  · exact absurd hprint (by decide)
  · exact absurd hprint (by decide)
  · exact .inr (.inl rfl)
  · exact .inr (.inr rfl)

theorem IsPlainBreak.not_isBlank {b : Char} (h : IsPlainBreak b) : isBlank b = false := by
  rcases h.cases with rfl | rfl | rfl <;> rfl

/-- The beginning of the line after a break. -/
def Cursor.nextLine (c : Cursor) (b : Char) (tail : List Char) : Cursor :=
  { rest := tail, offset := c.offset + b.utf8Size, line := c.line + 1 }

/-- Breaks that stand in a text as they are are read as themselves. -/
theorem Cursor.readBreak?_eq {c : Cursor} {b : Char} {tail : List Char} (hb : IsPlainBreak b)
    (h : c.rest = b :: tail) : c.readBreak? = some (b, c.nextLine b tail) := by
  rw [Cursor.readBreak?, h]
  rcases hb.cases with rfl | rfl | rfl <;> rfl

/-- Nothing is passed over at the end of a line. -/
theorem Cursor.skipWhile_of_break {c : Cursor} {b : Char} {tail : List Char}
    (hb : isBreak b = true) (h : c.rest = b :: tail) (p : Char → Bool) : c.skipWhile p = c := by
  have htake : (c.rest.takeWhile fun x => p x && !isBreak x) = [] := by
    rw [h, List.takeWhile_cons_of_neg (by simp [hb])]
  rw [Cursor.skipWhile, Cursor.span, htake]
  exact Cursor.advance_zero c

theorem Cursor.readBreak?_eq_none {c : Cursor} (h : ∀ x ∈ c.rest.head?, isBreak x = false) :
    c.readBreak? = none := by
  rw [Cursor.readBreak?]
  split
  · rename_i heq
    exact absurd (h '\r' (by rw [heq]; rfl)) (by decide)
  · rename_i x _ _ heq
    rw [if_neg]
    rw [h x (by rw [heq]; rfl)]
    exact Bool.false_ne_true
  · rfl

/-! ### The next line -/

/-- **What follows a line**: nothing more, or a line that is indented by at most `indent` and starts
with the character of a token. -/
inductive Next (indent : Int) : List Char → Prop where
  | nil : Next indent []
  | line {k : Nat} {x : Char} {more : List Char} (hk : (k : Int) ≤ indent)
    (hblank : isBlank x = false) (hbreak : isBreak x = false) (hmark : x ≠ '#')
    (horder : x ≠ byteOrderMark) : Next indent (List.replicate k ' ' ++ x :: more)

/-- How far a text is indented. -/
def indentation (text : List Char) : Nat := (text.takeWhile (· == ' ')).length

/-- A text without its indentation. -/
def unindented (text : List Char) : List Char := text.dropWhile (· == ' ')

theorem replicate_indentation_append (text : List Char) :
    List.replicate (indentation text) ' ' ++ unindented text = text := by
  have hspaces : text.takeWhile (· == ' ') = List.replicate (indentation text) ' ' :=
    List.eq_replicate_of_mem fun x hx => by
      simpa using List.all_eq_true.mp List.all_takeWhile x hx
  rw [← hspaces, unindented, List.takeWhile_append_dropWhile]

theorem ne_space_of_isBlank {x : Char} (h : isBlank x = false) : (x == ' ') = false := by
  simp only [isBlank, Bool.or_eq_false_iff] at h
  exact h.1

theorem indentation_replicate_append (k : Nat) (text : List Char) :
    indentation (List.replicate k ' ' ++ text) = k + indentation text := by
  rw [indentation, List.takeWhile_append_of_pos (by simp +contextual), List.length_append,
    List.length_replicate, indentation]

theorem drop_indentation (text : List Char) : text.drop (indentation text) = unindented text := by
  have hdrop : (List.replicate (indentation text) ' ' ++ unindented text).drop
      (List.replicate (indentation text) ' ').length = unindented text := List.drop_left
  rwa [replicate_indentation_append, List.length_replicate] at hdrop

theorem indentation_line {k : Nat} {x : Char} {more : List Char} (h : isBlank x = false) :
    indentation (List.replicate k ' ' ++ x :: more) = k := by
  rw [indentation, List.takeWhile_append_of_pos (by simp +contextual),
    List.takeWhile_cons_of_neg (by simp [ne_space_of_isBlank h])]
  simp

theorem unindented_line {k : Nat} {x : Char} {more : List Char} (h : isBlank x = false) :
    unindented (List.replicate k ' ' ++ x :: more) = x :: more := by
  rw [unindented, List.dropWhile_append_of_pos (by simp +contextual),
    List.dropWhile_cons_of_neg (by simp [ne_space_of_isBlank h])]

/-- The cursor stands at the first word of a line. -/
structure Cursor.Behind (text : List Char) (c : Cursor) : Prop where
  rest : c.rest = unindented text
  column : c.column = indentation text

/-! ### Gaps -/

namespace Gap

variable {margin fuel : Nat} {g : Gap} {c : Cursor} {tail : List Char}

/-- Neither a blank nor a break comes next, so that a gap ends here. -/
def Ends (tail : List Char) : Prop := ∀ x ∈ tail.head?, isBlank x = false ∧ isBreak x = false

theorem read?_ends (hc : c.rest = tail) (h : Ends tail) :
    read? margin (fuel + 1) g c = some (g, c) := by
  subst hc
  rw [read?, Cursor.readBreak?_eq_none fun x hx => (h x hx).2]
  cases hrest : c.rest with
  | nil => simp [Cursor.at?, hrest]
  | cons x rest =>
    have hx := (h x (by rw [hrest]; rfl)).1
    simp [Cursor.at?, hrest, hx]

/-- Blanks on a line are kept. -/
theorem read?_blanks {blanks : List Char} (hblanks : ∀ x ∈ blanks, x = ' ')
    (hc : c.rest = blanks ++ tail) (h : Ends tail) (hg : g.broken = false)
    (hfuel : blanks.length < fuel) :
    read? margin fuel g c =
      some ({ g with blanks := g.blanks ++ blanks }, c.advance blanks.length) := by
  induction blanks generalizing g c fuel with
  | nil =>
    obtain ⟨fuel, rfl⟩ := Nat.exists_eq_add_one.mpr hfuel
    rw [read?_ends hc h]
    simp [Cursor.advance, Cursor.byteLength]
  | cons x blanks ih =>
    rw [List.forall_mem_cons] at hblanks
    obtain ⟨rfl, hblanks⟩ := hblanks
    obtain ⟨fuel, rfl⟩ := Nat.exists_eq_add_one.mpr (Nat.zero_lt_of_lt hfuel)
    rw [read?, Cursor.readBreak?_eq_none (by rw [hc]; simp [isBreak])]
    simp only [Cursor.at?_zero hc, isBlank, beq_self_eq_true, Bool.true_or, if_true, hg,
      Bool.false_eq_true, if_false]
    rw [ih hblanks (Cursor.rest_advance_one hc) rfl (by simpa using hfuel), Cursor.advance_add]
    simp [Nat.add_comm]

/-- The indentation of a new line is passed over. -/
theorem read?_spaces {k : Nat} (hc : c.rest = List.replicate k ' ' ++ tail) (h : Ends tail)
    (hg : g.broken = true) (hfuel : k < fuel) : read? margin fuel g c = some (g, c.advance k) := by
  induction k generalizing c fuel with
  | zero =>
    obtain ⟨fuel, rfl⟩ := Nat.exists_eq_add_one.mpr hfuel
    rw [read?_ends hc h]
    simp [Cursor.advance, Cursor.byteLength]
  | succ k ih =>
    obtain ⟨fuel, rfl⟩ := Nat.exists_eq_add_one.mpr (Nat.zero_lt_of_lt hfuel)
    rw [List.replicate_succ, List.cons_append] at hc
    rw [read?, Cursor.readBreak?_eq_none (by rw [hc]; simp [isBreak])]
    simp only [Cursor.at?_zero hc, isBlank, beq_self_eq_true, Bool.true_or, if_true, hg]
    rw [if_neg (by simp), ih (Cursor.rest_advance_one hc) (by omega), Cursor.advance_add,
      Nat.add_comm]

/-- A break is the first of a gap, or one more. -/
theorem read?_break {b : Char} (hb : IsPlainBreak b) (hc : c.rest = b :: tail) :
    read? margin (fuel + 1) g c =
      read? margin fuel
        (if g.broken then { g with more := g.more ++ [b] } else { broken := true, first := [b] })
        (c.nextLine b tail) := by
  rw [read?, Cursor.readBreak?_eq hb hc]
  cases g.broken <;> simp

/-- Breaks after the first one are kept, and the indentation behind them is passed over. -/
theorem read?_breaks {breaks : List Char} {k : Nat} (hbreaks : ∀ b ∈ breaks, IsPlainBreak b)
    (hc : c.rest = breaks ++ (List.replicate k ' ' ++ tail)) (hcolumn : c.column = 0)
    (h : Ends tail) (hg : g.broken = true) (hfuel : breaks.length + k < fuel) :
    ∃ c', read? margin fuel g c = some ({ g with more := g.more ++ breaks }, c') ∧
      c'.rest = tail ∧ c'.column = k ∧ c.line ≤ c'.line := by
  induction breaks generalizing g c fuel with
  | nil =>
    rw [List.length_nil, Nat.zero_add] at hfuel
    refine ⟨c.advance k, ?_, ?_, by simp [hcolumn], Nat.le_refl _⟩
    · rw [List.append_nil]
      exact read?_spaces hc h hg hfuel
    · have hrest := Cursor.rest_advance (w := List.replicate k ' ') hc
      rwa [List.length_replicate] at hrest
  | cons b breaks ih =>
    obtain ⟨fuel, rfl⟩ := Nat.exists_eq_add_one.mpr (Nat.zero_lt_of_lt hfuel)
    rw [List.forall_mem_cons] at hbreaks
    rw [List.length_cons] at hfuel
    rw [List.cons_append] at hc
    obtain ⟨c', hread, hrest, hcolumn', hline⟩ :=
      ih (g := { g with more := g.more ++ [b] }) (c := c.nextLine b _) hbreaks.2 rfl rfl hg
        (show breaks.length + k < fuel by omega)
    refine ⟨c', ?_, hrest, hcolumn', Nat.le_of_succ_le hline⟩
    rw [read?_break hbreaks.1 hc, if_pos hg, hread, List.append_assoc]
    rfl

end Gap

theorem Next.ends {indent : Int} {text : List Char} (h : Next indent text) :
    Gap.Ends (unindented text) := by
  cases h with
  | nil => exact nofun
  | line hk hblank hbreak _ _ =>
    rw [unindented_line hblank]
    simpa [Gap.Ends] using And.intro hblank hbreak

theorem Next.indentation_le {indent : Int} {text : List Char} (h : Next indent text)
    (hindent : 0 ≤ indent) : (indentation text : Int) ≤ indent := by
  cases h with
  | nil => exact hindent
  | line hk hblank _ _ _ => rwa [indentation_line hblank]

/-- A break at the end of a line leads to the first word of the next one. -/
theorem Gap.read?_line {margin fuel : Nat} {indent : Int} {c : Cursor} {text : List Char}
    (hc : c.rest = '\n' :: text) (h : Next indent text) (hfuel : text.length + 1 < fuel) :
    ∃ c', read? margin fuel {} c = some ({ broken := true, first := ['\n'] }, c') ∧
      c'.Behind text ∧ c'.line = c.line + 1 := by
  obtain ⟨fuel, rfl⟩ := Nat.exists_eq_add_one.mpr (Nat.zero_lt_of_lt hfuel)
  have hsplit := replicate_indentation_append text
  have hlength : indentation text ≤ text.length := by
    have := congrArg List.length hsplit
    rw [List.length_append, List.length_replicate] at this
    omega
  rw [read?_break (by decide) hc]
  refine ⟨_, read?_spaces hsplit.symm h.ends rfl (by omega), ⟨?_, ?_⟩, rfl⟩
  · have hrest : (c.nextLine '\n' text).rest =
        List.replicate (indentation text) ' ' ++ unindented text :=
      hsplit.symm
    have := Cursor.rest_advance hrest
    rwa [List.length_replicate] at this
  · exact Nat.zero_add _

/-! ### Indented lines -/

section

variable (indent : Nat) {w g : List Char}

/-- A line is written as it is. -/
theorem indentLines_word (hw : ∀ x ∈ w, isBreak x = false) (cs : List Char) :
    indentLines indent false (w ++ cs) = w ++ indentLines indent false cs := by
  induction w with
  | nil => rfl
  | cons x w ih =>
    rw [List.forall_mem_cons] at hw
    rw [List.cons_append, indentLines, hw.1, ih hw.2]
    rfl

/-- Breaks are written as they are, and put what follows at the start of a line. -/
theorem indentLines_breaks (atStart : Bool) (hg : ∀ x ∈ g, isBreak x = true) (hne : g ≠ [])
    (cs : List Char) : indentLines indent atStart (g ++ cs) = g ++ indentLines indent true cs := by
  induction g generalizing atStart with
  | nil => exact absurd rfl hne
  | cons x g ih =>
    rw [List.forall_mem_cons] at hg
    rw [List.cons_append, indentLines, if_pos hg.1]
    cases g with
    | nil => rfl
    | cons y g =>
      rw [ih true hg.2 (List.cons_ne_nil _ _)]
      rfl

/-- Breaks at the end are written as they are. -/
theorem indentLines_append_breaks (atStart : Bool) (cs : List Char)
    (hg : ∀ x ∈ g, isBreak x = true) :
    indentLines indent atStart (cs ++ g) = indentLines indent atStart cs ++ g := by
  induction cs generalizing atStart with
  | nil =>
    cases g with
    | nil => rfl
    | cons x g =>
      have hbreaks := indentLines_breaks indent atStart hg (List.cons_ne_nil _ _) []
      rwa [List.append_nil, indentLines, List.append_nil] at hbreaks
  | cons x cs ih =>
    rw [List.cons_append, indentLines, indentLines, ih, ih]
    split
    · rfl
    · split <;> simp

/-- Only spaces are put into a text. -/
theorem mem_indentLines {atStart : Bool} {cs : List Char} {x : Char}
    (h : x ∈ indentLines indent atStart cs) : x ∈ cs ∨ x = ' ' := by
  induction cs generalizing atStart with
  | nil => exact .inl h
  | cons y cs ih =>
    have hrest {b : Bool} (h : x ∈ y :: indentLines indent b cs) : x ∈ y :: cs ∨ x = ' ' := by
      rcases List.mem_cons.mp h with rfl | h
      · exact .inl List.mem_cons_self
      · exact (ih h).imp_left (List.mem_cons_of_mem _)
    rw [indentLines] at h
    split at h
    · exact hrest h
    · dsimp only at h
      split at h
      · rcases List.mem_append.mp h with h | h
        · exact .inr (List.eq_of_mem_replicate h)
        · exact hrest h
      · exact hrest h

theorem length_le_indentLines (atStart : Bool) (cs : List Char) :
    cs.length ≤ (indentLines indent atStart cs).length := by
  induction cs generalizing atStart with
  | nil => exact Nat.zero_le _
  | cons x cs ih =>
    have htrue := ih true
    have hfalse := ih false
    rw [indentLines]
    split
    · simpa using htrue
    · split <;> simp <;> omega

/-- A text ends as it did before its lines were indented. -/
theorem getLast?_indentLines (atStart : Bool) (cs : List Char) :
    (indentLines indent atStart cs).getLast? = cs.getLast? := by
  induction cs generalizing atStart with
  | nil => rfl
  | cons x cs ih =>
    rw [indentLines]
    split
    · rw [List.getLast?_cons, List.getLast?_cons, ih]
    · dsimp only
      split
      · rw [List.getLast?_append, List.getLast?_cons, List.getLast?_cons, ih]
        rfl
      · rw [List.getLast?_cons, List.getLast?_cons, ih]

theorem exists_indentLines (x : Char) (cs : List Char) :
    ∃ rest, indentLines indent false (x :: cs) = x :: rest := by
  rw [indentLines]
  split
  · exact ⟨_, rfl⟩
  · exact ⟨_, rfl⟩

/-- A line that is not empty is indented. -/
theorem indentLines_line {x : Char} (hx : isBreak x = false) (cs : List Char) :
    indentLines indent true (x :: cs) =
      List.replicate indent ' ' ++ indentLines indent false (x :: cs) := by
  simp [indentLines, hx]

end

end WaterNetwork.Yaml
