import WaterNetwork.Proofs.Yaml.Cursor

/-!
# Block scalars

A text of several lines is written line by line below the sign of a block. The empty lines in front
of a line are read together with its indentation; those at the end are kept or not as the marks
after the sign say, and these are chosen by how many breaks the text ends in.

* `readBlockLines?_eq` — lines are read up to the breaks behind the last one.
* `readBlock?_eq` — a text that is written as a block is read back.
-/

namespace WaterNetwork.Yaml

variable {c : Cursor} {cs body front trail w bs tail text : List Char} {b : Char}
  {fuel m n : Nat}

/-! ### Empty lines -/

/-- Breaks are read as themselves, and the indentation behind them as far as it goes. -/
theorem readBlockBreaks?_eq (deepest : Nat) (hbs : ∀ b ∈ bs, IsPlainBreak b)
    (hc : c.rest = bs ++ text) (hcolumn : c.column = 0)
    (htext : ∀ x ∈ (text.drop (min (indentation text) m)).head?, isBreak x = false ∧ x ≠ '\t')
    (hfuel : bs.length < fuel) :
    ∃ deepest' c', readBlockBreaks? (some m) fuel deepest c = some (bs, deepest', c') ∧
      c'.rest = text.drop (min (indentation text) m) ∧ c'.column = min (indentation text) m ∧
      c.line ≤ c'.line := by
  induction bs generalizing c deepest fuel with
  | nil =>
    obtain ⟨fuel, rfl⟩ := Nat.exists_eq_add_one.mpr hfuel
    rw [List.nil_append] at hc
    have hrest : (c.advance (min (indentation text) m)).rest =
        text.drop (min (indentation text) m) := by rw [Cursor.advance, hc]
    have htab : (c.advance (min (indentation text) m)).isAt 0 '\t' = false := by
      rw [Cursor.isAt, Cursor.at?, hrest, ← List.head?_eq_getElem?, beq_eq_false_iff_ne]
      exact fun hx => (htext '\t' hx).2 rfl
    have hbreak : (c.advance (min (indentation text) m)).readBreak? = none :=
      Cursor.readBreak?_eq_none fun x hx => (htext x (hrest ▸ hx)).1
    refine ⟨max deepest (c.advance (min (indentation text) m)).column, _, ?_, hrest, ?_,
      Nat.le_refl _⟩
    · rw [readBlockBreaks?]
      simp only [Option.elim_some, hc, hcolumn, Nat.sub_zero]
      rw [show (text.takeWhile (· == ' ')).length = indentation text from rfl, htab, hbreak]
      rfl
    · rw [Cursor.column_advance, hcolumn, Nat.zero_add]
  | cons b bs ih =>
    obtain ⟨fuel, rfl⟩ := Nat.exists_eq_add_one.mpr (Nat.zero_lt_of_lt hfuel)
    rw [List.forall_mem_cons] at hbs
    rw [List.length_cons] at hfuel
    rw [List.cons_append] at hc
    obtain ⟨deepest', c', hread, hrest, hcolumn', hline⟩ :=
      ih (c := c.nextLine b (bs ++ text)) (max deepest c.column) hbs.2 rfl rfl
        (show bs.length < fuel by omega)
    refine ⟨deepest', c', ?_, hrest, hcolumn', Nat.le_of_succ_le hline⟩
    have hspaces : (c.rest.takeWhile (· == ' ')).length = 0 := by
      rw [hc, List.takeWhile_cons_of_neg (by simp [ne_space_of_isBlank hbs.1.not_isBlank])]
      rfl
    have htab : c.isAt 0 '\t' = false := by
      rw [Cursor.isAt, Cursor.at?_zero hc]
      rcases hbs.1.cases with rfl | rfl | rfl <;> rfl
    rw [readBlockBreaks?]
    simp only [Option.elim_some, hspaces, Nat.zero_min, Cursor.advance_zero, htab,
      Cursor.readBreak?_eq hbs.1 hc, hread, Option.map_some, Bool.false_eq_true, false_and,
      if_false]

/-- Breaks in front of a line of the block lead to its first character. -/
theorem readBlockBreaks?_line {x : Char} (deepest : Nat) (hbs : ∀ b ∈ bs, IsPlainBreak b)
    (hx : isPrintable x = true ∧ isBreak x = false)
    (hc : c.rest = bs ++ (List.replicate m ' ' ++ x :: tail)) (hcolumn : c.column = 0)
    (hfuel : bs.length < fuel) :
    ∃ deepest' c', readBlockBreaks? (some m) fuel deepest c = some (bs, deepest', c') ∧
      c'.rest = x :: tail ∧ c'.column = m ∧ c.line ≤ c'.line := by
  have hmin : min (indentation (List.replicate m ' ' ++ x :: tail)) m = m := by
    rw [indentation_replicate_append]
    omega
  have hdrop : (List.replicate m ' ' ++ x :: tail).drop m = x :: tail := by
    rw [List.drop_append, List.length_replicate, Nat.sub_self, List.drop_replicate, Nat.sub_self]
    rfl
  have htab : x ≠ '\t' := by
    rintro rfl
    exact absurd hx.1 (by decide)
  have hread := readBlockBreaks?_eq (m := m) deepest hbs hc hcolumn
    (by rw [hmin, hdrop]; simpa using And.intro hx.2 htab) hfuel
  rwa [hmin, hdrop] at hread

/-- Breaks at the end of the block lead to the first word of what follows. -/
theorem readBlockBreaks?_next (deepest : Nat) (hbs : ∀ b ∈ bs, IsPlainBreak b)
    (hc : c.rest = bs ++ text) (hcolumn : c.column = 0) (hnext : Next n text) (hm : n < m)
    (hfuel : bs.length < fuel) :
    ∃ deepest' c', readBlockBreaks? (some m) fuel deepest c = some (bs, deepest', c') ∧
      c'.Behind text ∧ c.line ≤ c'.line := by
  have hmin : min (indentation text) m = indentation text := by
    have := hnext.indentation_le (Int.natCast_nonneg n)
    omega
  have htext : ∀ x ∈ (unindented text).head?, isBreak x = false ∧ x ≠ '\t' := fun x hx => by
    obtain ⟨hblank, hbreak⟩ := hnext.ends x hx
    exact ⟨hbreak, fun htab => by simp [isBlank, htab] at hblank⟩
  obtain ⟨deepest', c', hread, hrest, hcolumn', hline⟩ := readBlockBreaks?_eq (m := m)
    deepest hbs hc hcolumn (by rwa [hmin, drop_indentation]) hfuel
  rw [hmin] at hrest hcolumn'
  exact ⟨deepest', c', hread, ⟨by rw [hrest, drop_indentation], hcolumn'⟩, hline⟩

/-! ### Lines -/

/-- A line is kept together with the breaks in front of it. -/
theorem readBlockLines?_line {leading breaks : List Char} {afterBlank : Bool}
    (hw : ∀ x ∈ w, isBreak x = false) (hb : IsPlainBreak b) (hc : c.rest = w ++ b :: tail)
    (hcolumn : c.column = m) :
    readBlockLines? true m (fuel + 1) leading breaks afterBlank c = do
      let (breaks', _, d) ← readBlockBreaks? (some m) (tail.length + 1) 0
        ((c.advance w.length).nextLine b tail)
      let (more, leading', breaks', d) ← readBlockLines? true m fuel [b] breaks'
        ((c.at? 0).any isBlank) d
      return (leading ++ breaks ++ w ++ more, leading', breaks', d) := by
  have hspan : c.span (fun _ => true) = (w, c.advance w.length) := by
    have htake : (c.rest.takeWhile fun x => true && !isBreak x) = w := by
      rw [hc, List.takeWhile_append_of_pos fun x hx => by simp [hw x hx],
        List.takeWhile_cons_of_neg (by simp [hb.1]), List.append_nil]
    rw [Cursor.span, htake]
  have hend : ¬ c.atEnd = true := by
    rw [Cursor.atEnd, hc]
    simp
  rw [readBlockLines?, if_pos ⟨hcolumn, hend⟩, hspan]
  simp only [Cursor.readBreak?_eq hb (Cursor.rest_advance hc)]
  rfl

/-- Where the line is not indented far enough, the block ends. -/
theorem readBlockLines?_ends {leading breaks : List Char} {afterBlank : Bool}
    (hcolumn : c.column ≠ m) :
    readBlockLines? true m (fuel + 1) leading breaks afterBlank c =
      some ([], leading, breaks, c) := by
  rw [readBlockLines?, if_neg fun h => hcolumn h.1]

theorem Cursor.Behind.column_ne (h : c.Behind text) (hnext : Next n text) (hm : n < m) :
    c.column ≠ m := by
  have := hnext.indentation_le (Int.natCast_nonneg n)
  rw [h.column]
  omega

/-- The last line is followed by breaks, and by what ends the block. -/
theorem readBlockLines?_last (leading breaks : List Char) (afterBlank : Bool)
    (hw : ∀ x ∈ w, isBreak x = false) (hb : IsPlainBreak b) (hbs : ∀ x ∈ bs, IsPlainBreak x)
    (hnext : Next n text) (hm : n < m) (hc : c.rest = w ++ b :: (bs ++ text))
    (hcolumn : c.column = m) :
    ∃ c', readBlockLines? true m (fuel + 2) leading breaks afterBlank c =
        some (leading ++ breaks ++ w, [b], bs, c') ∧ c'.Behind text ∧ c.line < c'.line := by
  obtain ⟨_, c', hbreaks, hbehind, hle⟩ := readBlockBreaks?_next 0 hbs
    (c := (c.advance w.length).nextLine b (bs ++ text)) rfl rfl hnext hm
    (show bs.length < (bs ++ text).length + 1 by rw [List.length_append]; omega)
  refine ⟨c', ?_, hbehind, hle⟩
  rw [readBlockLines?_line hw hb hc hcolumn, hbreaks]
  simp only [Option.bind_eq_bind, Option.bind_some,
    readBlockLines?_ends (hbehind.column_ne hnext hm), List.append_nil]
  rfl

/-- Every other line is followed by breaks and by the next one. -/
theorem readBlockLines?_more {x : Char} (fuel : Nat) (leading breaks : List Char)
    (afterBlank : Bool) (hw : ∀ x ∈ w, isBreak x = false) (hb : IsPlainBreak b)
    (hbs : ∀ x ∈ bs, IsPlainBreak x)
    (hx : isPrintable x = true ∧ isBreak x = false)
    (hc : c.rest = w ++ b :: (bs ++ (List.replicate m ' ' ++ x :: tail))) (hcolumn : c.column = m) :
    ∃ d, readBlockLines? true m (fuel + 1) leading breaks afterBlank c =
        (readBlockLines? true m fuel [b] bs ((c.at? 0).any isBlank) d).map
          (fun r => (leading ++ breaks ++ w ++ r.1, r.2)) ∧
      d.rest = x :: tail ∧ d.column = m ∧ c.line < d.line := by
  obtain ⟨_, d, hread, hrest, hcolumn', hle⟩ := readBlockBreaks?_line 0 hbs hx
    (c := (c.advance w.length).nextLine b _) rfl rfl
    (show bs.length < (bs ++ (List.replicate m ' ' ++ x :: tail)).length + 1 by
      rw [List.length_append]; omega)
  refine ⟨d, ?_, hrest, hcolumn', Nat.lt_of_lt_of_le (Nat.lt_succ_self _) hle⟩
  rw [readBlockLines?_line hw hb hc hcolumn, hread]
  cases h : readBlockLines? true m fuel [b] bs ((c.at? 0).any isBlank) d <;>
    simp [h]

/-- **Lines from the first one to the end of the last one.** -/
structure IsLines (cs : List Char) : Prop where
  ne_nil : cs ≠ []
  head : ∀ x ∈ cs.head?, isBreak x = false
  last : ∀ x ∈ cs.getLast?, isBreak x = false
  printable : ∀ x ∈ cs, isPrintable x = true

/-- Behind the breaks at the end of a line stand further lines. -/
theorem IsLines.split {g xs : List Char} (h : IsLines (w ++ (g ++ xs))) (hg : g ≠ [])
    (hbreaks : ∀ x ∈ g, isBreak x = true) (hxs : ∀ x ∈ xs.head?, isBreak x = false) :
    (∀ x ∈ g, IsPlainBreak x) ∧ IsLines xs := by
  have hlast := h.last
  refine ⟨fun x hx => ⟨hbreaks x hx, h.printable x (by simp [hx])⟩,
    ⟨?_, hxs, fun x hx => hlast x ?_, fun x hx => h.printable x (by simp [hx])⟩⟩
  · rintro rfl
    rw [List.append_nil, List.getLast?_append, List.getLast?_eq_some_getLast hg] at hlast
    have hbreak := hlast (g.getLast hg) rfl
    rw [hbreaks _ (List.getLast_mem hg)] at hbreak
    cases hbreak
  · rw [List.getLast?_append, List.getLast?_append, Option.mem_def.mp hx]
    rfl

/-- **The lines of a block are read** up to the breaks behind the last one. -/
theorem readBlockLines?_eq (leading breaks : List Char) (afterBlank : Bool) (hbody : IsLines body)
    (hb : IsPlainBreak b) (hbs : ∀ x ∈ bs, IsPlainBreak x) (hnext : Next n text) (hm : n < m)
    (hc : c.rest = indentLines m false body ++ b :: (bs ++ text)) (hcolumn : c.column = m)
    (hfuel : body.length < fuel) :
    ∃ c', readBlockLines? true m fuel leading breaks afterBlank c =
        some (leading ++ breaks ++ body, [b], bs, c') ∧ c'.Behind text ∧ c.line < c'.line := by
  induction body using words_induction (p := isBreak)
    generalizing c fuel leading breaks afterBlank with
  | word w hw =>
    have hpos := List.length_pos_iff.mpr hbody.ne_nil
    obtain ⟨fuel, rfl⟩ : ∃ f, fuel = f + 2 := ⟨fuel - 2, by omega⟩
    have hline : indentLines m false w = w := by
      have hword := indentLines_word m hw []
      rwa [List.append_nil, indentLines, List.append_nil] at hword
    rw [hline] at hc
    exact readBlockLines?_last leading breaks afterBlank hw hb hbs hnext hm hc hcolumn
  | gap w g xs hw hg hbreaks hxs ih =>
    obtain ⟨fuel, rfl⟩ := Nat.exists_eq_add_one.mpr (Nat.zero_lt_of_lt hfuel)
    obtain ⟨hplain, hmore⟩ := hbody.split hg hbreaks hxs
    obtain ⟨x, xs, rfl⟩ := List.exists_cons_of_ne_nil hmore.ne_nil
    obtain ⟨b', bs', rfl⟩ := List.exists_cons_of_ne_nil hg
    have hx : isPrintable x = true ∧ isBreak x = false :=
      ⟨hmore.printable x List.mem_cons_self, hxs x rfl⟩
    obtain ⟨line, hline⟩ := exists_indentLines m x xs
    -- The line ends in the gap, and the next one is indented.
    rw [indentLines_word m hw, indentLines_breaks m false hbreaks hg, indentLines_line m hx.2,
      hline] at hc
    rw [List.forall_mem_cons] at hplain
    rw [List.length_append, List.length_append, List.length_cons] at hfuel
    have hc' : c.rest = w ++ b' :: (bs' ++ (List.replicate m ' ' ++ x :: (line ++
        b :: (bs ++ text)))) := by simpa using hc
    obtain ⟨d, hread, hrest, hcolumn', hlt⟩ := readBlockLines?_more fuel leading breaks
      afterBlank hw hplain.1 hplain.2 hx hc' hcolumn
    obtain ⟨c', hlines, hbehind, hlt'⟩ := ih [b'] bs' ((c.at? 0).any isBlank) hmore
      (by rw [hrest, hline, List.cons_append]) hcolumn' (show (x :: xs).length < fuel by omega)
    refine ⟨c', ?_, hbehind, hlt.trans hlt'⟩
    rw [hread, hlines]
    simp

/-! ### Marks -/

/-- The mark of what is kept of the breaks at the end. -/
def Chomping.mark : Chomping → List Char
  | .strip => ['-']
  | .clip => []
  | .keep => ['+']

/-- What is kept of the breaks at the end: `front` is what stands before them. -/
def Chomping.ofTrail (front trail : List Char) : Chomping :=
  if trail = [] then .strip
  else if front ≠ [] ∧ trail.length = 1 then .clip
  else .keep

/-- What is kept of the first break at the end and of the others. -/
def Chomping.kept (leading breaks : List Char) : Chomping → List Char
  | .strip => []
  | .clip => leading
  | .keep => leading ++ breaks

/-- Whether the indentation cannot be seen from the first line of a text. -/
def hidesIndentation (cs : List Char) : Bool := cs.head?.any fun c => c == ' ' || isBreak c

/-- The marks after the sign of a block tell the indentation and how the text ends. -/
theorem blockMarks_eq (hfront : ∀ x ∈ front.getLast?, isBreak x = false)
    (htrail : ∀ x ∈ trail, isBreak x = true) :
    blockMarks (front ++ trail) =
      (if hidesIndentation (front ++ trail) then ['2'] else []) ++
        (Chomping.ofTrail front trail).mark := by
  rw [blockMarks]
  refine congrArg _ ?_
  cases trail using List.reverseRecOn with
  | nil =>
    rw [List.append_nil]
    cases front using List.reverseRecOn with
    | nil => rfl
    | append_singleton front x =>
      have hx : isBreak x = false := hfront x (by simp)
      rw [List.reverse_append, List.reverse_singleton, List.singleton_append]
      cases front.reverse <;> simp [hx, Chomping.ofTrail, Chomping.mark]
  | append_singleton trail b =>
    have hb : isBreak b = true := htrail b (by simp)
    rw [← List.append_assoc, List.reverse_append, List.reverse_singleton, List.singleton_append]
    cases trail using List.reverseRecOn with
    | nil =>
      cases front using List.reverseRecOn with
      | nil => simp [hb, Chomping.ofTrail, Chomping.mark]
      | append_singleton front x =>
        have hx : isBreak x = false := hfront x (by simp)
        simp [hb, hx, Chomping.ofTrail, Chomping.mark]
    | append_singleton trail b' =>
      have hb' : isBreak b' = true := htrail b' (by simp)
      simp [hb, hb', Chomping.ofTrail, Chomping.mark]

/-- The marks after the sign of a block are read. -/
theorem readBlockMarks?_eq {chomping : Chomping} {given : Bool}
    (hc : c.rest = (if given then ['2'] else []) ++ chomping.mark ++ '\n' :: tail) :
    ∃ c', readBlockMarks? c = some (chomping, if given then some 2 else none, c') ∧
      c'.rest = '\n' :: tail ∧ c'.line = c.line := by
  cases given <;> cases chomping <;>
    simp [readBlockMarks?, Chomping.mark, Cursor.isAt, Cursor.at?, Cursor.advance] at hc ⊢ <;>
    simp [hc]

/-! ### Blocks -/

/-- What ends the last line of a text, unless it has ended already. -/
def lineEnd (cs : List Char) : List Char := if cs.getLast?.any isBreak then [] else ['\n']

/-- A text is divided into its lines and the breaks at its end. -/
theorem exists_front_trail (cs : List Char) :
    ∃ front trail, cs = front ++ trail ∧ (∀ x ∈ front.getLast?, isBreak x = false) ∧
      ∀ x ∈ trail, isBreak x = true := by
  induction cs using List.reverseRecOn with
  | nil => exact ⟨[], [], rfl, nofun, nofun⟩
  | append_singleton cs x ih =>
    cases hx : isBreak x with
    | false => exact ⟨cs ++ [x], [], by simp, by simpa using hx, nofun⟩
    | true =>
      obtain ⟨front, trail, rfl, hfront, htrail⟩ := ih
      refine ⟨front, trail ++ [x], by simp, hfront, fun y hy => ?_⟩
      rw [List.mem_append, List.mem_singleton] at hy
      exact hy.elim (htrail y) fun heq => heq ▸ hx

/-- Lines are divided into the breaks in front of the first one and the rest. -/
theorem exists_lead_body (hne : front ≠ []) (hprint : ∀ x ∈ front, isPrintable x = true)
    (hfront : ∀ x ∈ front.getLast?, isBreak x = false) :
    ∃ lead body, front = lead ++ body ∧ (∀ x ∈ lead, IsPlainBreak x) ∧ IsLines body := by
  have hsplit : front.takeWhile isBreak ++ front.dropWhile isBreak = front :=
    List.takeWhile_append_dropWhile
  have hlead : ∀ x ∈ front.takeWhile isBreak, isBreak x = true := fun x hx =>
    List.all_eq_true.mp List.all_takeWhile x hx
  have hbody : front.dropWhile isBreak ≠ [] := fun hnil => by
    rw [hnil, List.append_nil] at hsplit
    rw [hsplit] at hlead
    have hlast := hfront _ (List.getLast?_eq_some_getLast hne)
    rw [hlead _ (List.getLast_mem hne)] at hlast
    cases hlast
  have hprint' : ∀ x ∈ front.takeWhile isBreak ++ front.dropWhile isBreak,
      isPrintable x = true := by
    rwa [hsplit]
  refine ⟨_, _, hsplit.symm,
    fun x hx => ⟨hlead x hx, hprint' x (List.mem_append_left _ hx)⟩,
    ⟨hbody, fun x hx => ?_, fun x hx => hfront x ?_,
      fun x hx => hprint' x (List.mem_append_right _ hx)⟩⟩
  · have hhead := List.head?_dropWhile_not isBreak front
    rw [Option.mem_def.mp hx] at hhead
    exact hhead
  · rw [← hsplit, List.getLast?_append, Option.mem_def.mp hx]
    rfl

/-- The indentation of the first line is seen if it starts with neither a space nor a break. -/
theorem readBlockBreaks?_seen {x : Char} (fuel : Nat)
    (hx : isPrintable x = true ∧ isBreak x = false) (hspace : x ≠ ' ')
    (hc : c.rest = List.replicate m ' ' ++ x :: tail) (hcolumn : c.column = 0) :
    ∃ c', readBlockBreaks? none (fuel + 1) 0 c = some ([], m, c') ∧ c'.rest = x :: tail ∧
      c'.column = m ∧ c.line ≤ c'.line := by
  have hblank : isBlank x = false := by
    rw [isBlank_of_isPrintable hx.1]
    simpa using hspace
  have hspaces : (c.rest.takeWhile (· == ' ')).length = m := by
    rw [hc]
    exact indentation_line hblank
  have hrest : (c.advance m).rest = x :: tail := by
    have := Cursor.rest_advance hc
    rwa [List.length_replicate] at this
  have htab : (c.advance m).isAt 0 '\t' = false := by
    rw [Cursor.isAt, Cursor.at?_zero hrest]
    simp only [isBlank, Bool.or_eq_false_iff] at hblank
    simpa using hblank.2
  have hbreak : (c.advance m).readBreak? = none :=
    Cursor.readBreak?_eq_none (by rw [hrest]; simpa using hx.2)
  refine ⟨c.advance m, ?_, hrest, by rw [Cursor.column_advance, hcolumn, Nat.zero_add],
    Nat.le_refl _⟩
  rw [readBlockBreaks?]
  simp only [Option.elim_none, hspaces, htab, hbreak, Cursor.column_advance, hcolumn]
  simp

/-- The breaks at the end of a text are read behind its last line, and kept as the marks say. -/
theorem exists_break_kept (hne : front ≠ []) (hfront : ∀ x ∈ front.getLast?, isBreak x = false)
    (htrail : ∀ x ∈ trail, IsPlainBreak x) :
    ∃ b bs, trail ++ lineEnd (front ++ trail) = b :: bs ∧ IsPlainBreak b ∧
      (∀ x ∈ bs, IsPlainBreak x) ∧ (Chomping.ofTrail front trail).kept [b] bs = trail := by
  cases trail with
  | nil =>
    have hlast : (front.getLast?.any isBreak) = false := by
      rw [List.getLast?_eq_some_getLast hne]
      exact hfront _ (List.getLast?_eq_some_getLast hne)
    refine ⟨'\n', [], ?_, by decide, nofun, rfl⟩
    rw [List.append_nil, lineEnd, hlast]
    rfl
  | cons b bs =>
    rw [List.forall_mem_cons] at htrail
    have hlast : ((front ++ b :: bs).getLast?.any isBreak) = true := by
      rw [List.getLast?_append, List.getLast?_eq_some_getLast (List.cons_ne_nil b bs)]
      rcases List.mem_cons.mp (List.getLast_mem (List.cons_ne_nil b bs)) with hmem | hmem
      · simpa [hmem] using htrail.1.1
      · simpa using (htrail.2 _ hmem).1
    refine ⟨b, bs, by rw [lineEnd, hlast, if_pos rfl, List.append_nil], htrail.1, htrail.2, ?_⟩
    cases bs <;> simp [Chomping.ofTrail, Chomping.kept, hne]

/-- Breaks in front of the first line are read, and its indentation is known or seen. -/
theorem readBlockBreaks?_lead {x : Char} {lead : List Char} (rest : List Char)
    (hlead : ∀ y ∈ lead, IsPlainBreak y) (hx : isPrintable x = true ∧ isBreak x = false)
    (hc : c.rest = lead ++ (List.replicate m ' ' ++ x :: tail)) (hcolumn : c.column = 0) :
    ∃ deepest d, readBlockBreaks? (if hidesIndentation (lead ++ x :: rest) then some m else none)
        (c.rest.length + 1) 0 c = some (lead, deepest, d) ∧
      (hidesIndentation (lead ++ x :: rest) = false → deepest = m) ∧ d.rest = x :: tail ∧
      d.column = m ∧ c.line ≤ d.line := by
  cases hhides : hidesIndentation (lead ++ x :: rest) with
  | true =>
    obtain ⟨deepest, d, hread, hrest, hcolumn', hle⟩ := readBlockBreaks?_line 0 hlead hx hc hcolumn
      (show lead.length < c.rest.length + 1 by rw [hc, List.length_append]; omega)
    exact ⟨deepest, d, hread, by simp, hrest, hcolumn', hle⟩
  | false =>
    cases lead with
    | cons y ys => simp [hidesIndentation, (hlead y List.mem_cons_self).1] at hhides
    | nil =>
      have hspace : x ≠ ' ' := by
        rintro rfl
        exact absurd hhides (by simp [hidesIndentation])
      obtain ⟨d, hread, hrest, hcolumn', hle⟩ := readBlockBreaks?_seen c.rest.length hx hspace hc
        hcolumn
      exact ⟨m, d, hread, fun _ => rfl, hrest, hcolumn', hle⟩

/-- Breaks in front of the first line stand as they are, and the line is indented. -/
theorem indentLines_lead {x : Char} {lead xs line : List Char}
    (hlead : ∀ y ∈ lead, isBreak y = true) (hx : isBreak x = false)
    (hline : indentLines m false (x :: xs) = x :: line) :
    indentLines m true (lead ++ x :: xs) = lead ++ (List.replicate m ' ' ++ x :: line) := by
  by_cases hnil : lead = []
  · rw [hnil, List.nil_append, indentLines_line _ hx, hline, List.nil_append]
  · rw [indentLines_breaks _ true hlead hnil, indentLines_line _ hx, hline]

/-- **What is read below the sign of a block**: the breaks in front of the first line, the lines,
and the breaks behind the last one, as far as they are kept. -/
def ReadsLines (n : Nat) (front trail : List Char) (c : Cursor) (text : List Char) : Prop :=
  ∃ breaks deepest d leading breaks' c',
    readBlockBreaks? (if hidesIndentation (front ++ trail) then some (n + 2) else none)
      (c.rest.length + 1) 0 c = some (breaks, deepest, d) ∧
    (hidesIndentation (front ++ trail) = false → deepest = n + 2) ∧
    readBlockLines? true (n + 2) (d.rest.length + 1) [] breaks false d =
      some (front, leading, breaks', c') ∧
    (Chomping.ofTrail front trail).kept leading breaks' = trail ∧ c'.Behind text ∧
    c.line ≤ c'.line

/-- If there are only breaks, what follows ends the block. -/
theorem readsLines_breaks (htrail : ∀ x ∈ trail, IsPlainBreak x) (hne : trail ≠ [])
    (hnext : Next n text) (hcolumn : c.column = 0)
    (hc : c.rest = indentLines (n + 2) true trail ++ (lineEnd trail ++ text)) :
    ReadsLines n [] trail c text := by
  have hm : n < n + 2 := by omega
  have hhides : hidesIndentation ([] ++ trail) = true := by
    obtain ⟨b, bs, rfl⟩ := List.exists_cons_of_ne_nil hne
    simp [hidesIndentation, (htrail b List.mem_cons_self).1]
  have hend : lineEnd trail = [] := by
    rw [lineEnd, List.getLast?_eq_some_getLast hne, Option.any_some,
      (htrail _ (List.getLast_mem hne)).1, if_pos rfl]
  have hlines : indentLines (n + 2) true trail = trail := by
    simpa [indentLines] using
      indentLines_append_breaks (n + 2) true [] fun x hx => (htrail x hx).1
  rw [hlines, hend, List.nil_append] at hc
  obtain ⟨deepest, d, hread, hbehind, hline⟩ := readBlockBreaks?_next 0 htrail hc hcolumn hnext hm
    (show trail.length < c.rest.length + 1 by rw [hc, List.length_append]; omega)
  have hdeepest : hidesIndentation ([] ++ trail) = false → deepest = n + 2 := by
    rw [hhides]
    simp
  refine ⟨trail, deepest, d, [], trail, d, by rwa [hhides], hdeepest,
    readBlockLines?_ends (hbehind.column_ne hnext hm), ?_, hbehind, hline⟩
  simp [Chomping.ofTrail, Chomping.kept, hne]

/-- **The lines below the sign of a block are read**, and the breaks at their end. -/
theorem readsLines_lines (hne : front ≠ []) (hprint : ∀ x ∈ front, isPrintable x = true)
    (hfront : ∀ x ∈ front.getLast?, isBreak x = false) (htrail : ∀ x ∈ trail, IsPlainBreak x)
    (hnext : Next n text) (hcolumn : c.column = 0)
    (hc : c.rest =
      indentLines (n + 2) true (front ++ trail) ++ (lineEnd (front ++ trail) ++ text)) :
    ReadsLines n front trail c text := by
  obtain ⟨lead, body, rfl, hlead, hbody⟩ := exists_lead_body hne hprint hfront
  obtain ⟨x, xs, rfl⟩ := List.exists_cons_of_ne_nil hbody.ne_nil
  obtain ⟨b, bs, hclose, hb, hbs, hkept⟩ := exists_break_kept hne hfront htrail
  obtain ⟨line, hline⟩ := exists_indentLines (n + 2) x xs
  have hx : isPrintable x = true ∧ isBreak x = false :=
    ⟨hbody.printable x List.mem_cons_self, hbody.head x rfl⟩
  have hc' : c.rest = lead ++ (List.replicate (n + 2) ' ' ++ x :: (line ++ b :: (bs ++ text))) := by
    rw [hc, indentLines_append_breaks _ true _ fun x hx => (htrail x hx).1,
      indentLines_lead (fun y hy => (hlead y hy).1) hx.2 hline, List.append_assoc,
      ← List.append_assoc trail, hclose]
    simp
  obtain ⟨deepest, d, hread, hdeepest, hrest, hcolumn', hle⟩ :=
    readBlockBreaks?_lead (xs ++ trail) hlead hx hc' hcolumn
  obtain ⟨c', hlines, hbehind, hlt⟩ := readBlockLines?_eq [] lead false hbody hb hbs hnext
    (by omega) (by rw [hrest, hline]; rfl) hcolumn' (show (x :: xs).length < d.rest.length + 1 by
      have := length_le_indentLines (n + 2) false (x :: xs)
      rw [hline] at this
      rw [hrest, ← List.cons_append, List.length_append]
      omega)
  rw [← List.cons_append, ← List.append_assoc] at hread hdeepest
  exact ⟨lead, deepest, d, [b], bs, c', hread, hdeepest, hlines, hkept, hbehind,
    hle.trans (Nat.le_of_lt hlt)⟩

/-- Behind the marks the line ends. -/
theorem Cursor.finishLine?_eq (hc : c.rest = '\n' :: tail) :
    c.finishLine? = some (c.nextLine '\n' tail) := by
  have hskip := Cursor.skipWhile_of_break (by decide) hc isBlank
  have hmark : c.isAt 0 '#' = false := by
    rw [Cursor.isAt, Cursor.at?_zero hc]
    rfl
  rw [Cursor.finishLine?]
  simp only [hskip, hmark, Cursor.readBreak?_eq (by decide) hc, Bool.false_eq_true, if_false]

/-- **A text that is written as a block is read back**, up to the first word of the next line. -/
theorem readBlock?_eq (h : allowsBlock cs = true) (hcs : cs ≠ []) (hnext : Next n text)
    (hc : c.rest = Form.block.write (n + 2) cs ++ (lineEnd cs ++ text)) :
    ∃ c', readBlock? true n c = some (String.ofList cs, c') ∧ c'.Behind text ∧
      c.line < c'.line := by
  have hprint : ∀ x ∈ cs, isPrintable x = true := by
    simp only [allowsBlock, Bool.and_eq_true] at h
    exact List.all_eq_true.mp h.1.1
  obtain ⟨front, trail, rfl, hfront, htrail⟩ := exists_front_trail cs
  have hmarks : (c.advance 1).rest = (if hidesIndentation (front ++ trail) then ['2'] else []) ++
      (Chomping.ofTrail front trail).mark ++ '\n' ::
        (indentLines (n + 2) true (front ++ trail) ++ (lineEnd (front ++ trail) ++ text)) := by
    rw [Form.write, blockMarks_eq hfront htrail] at hc
    rw [Cursor.rest_advance_one hc]
    simp
  obtain ⟨d, hread, hrest, hline⟩ := readBlockMarks?_eq hmarks
  have hplain : ∀ x ∈ trail, IsPlainBreak x := fun x hx =>
    ⟨htrail x hx, hprint x (List.mem_append_right _ hx)⟩
  have hreads : ReadsLines n front trail (d.nextLine '\n'
      (indentLines (n + 2) true (front ++ trail) ++ (lineEnd (front ++ trail) ++ text))) text := by
    by_cases hne : front = []
    · subst hne
      exact readsLines_breaks hplain hcs hnext rfl rfl
    · exact readsLines_lines hne (fun x hx => hprint x (List.mem_append_left _ hx)) hfront hplain
        hnext rfl rfl
  obtain ⟨breaks, deepest, d', leading, breaks', c', hbreaks, hdeepest, hlines, hkept, hbehind,
    hle⟩ := hreads
  refine ⟨c', ?_, hbehind, ?_⟩
  · have hgiven : Option.map (fun k => (n : Int).toNat + k)
        (if hidesIndentation (front ++ trail) then some 2 else none) =
        if hidesIndentation (front ++ trail) then some (n + 2) else none := by
      split <;> rfl
    have hindent : Option.getD (if hidesIndentation (front ++ trail) then some (n + 2) else none)
        (max deepest (max ((n : Int) + 1).toNat 1)) = n + 2 := by
      cases hhides : hidesIndentation (front ++ trail) with
      | true => rfl
      | false =>
        rw [hdeepest hhides]
        simp only [Bool.false_eq_true, if_false, Option.getD_none]
        omega
    rw [readBlock?]
    simp only [hread, Cursor.finishLine?_eq hrest, Option.bind_eq_bind, Option.bind_some, hgiven,
      hbreaks, hindent, hlines]
    exact congrArg (fun kept => some (String.ofList (front ++ kept), c')) hkept
  · have hlt : d.line < c'.line := hle
    rwa [hline] at hlt

end WaterNetwork.Yaml
