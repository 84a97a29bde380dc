import WaterNetwork.Proofs.Yaml.Cursor

/-!
# Plain scalars

A text that is written without quotes is read word by word up to the colon of a key or to the end of
its line. What is asked of such a text (`allowsPlain`) keeps every word from ending early, at a
colon, and every gap from turning into a comment.

* `readPlain?_key` — a key is read up to its colon.
* `readPlain?_value` — a value is read to the end of its line, and on to the next word.
-/

namespace WaterNetwork.Yaml

variable {margin fuel : Nat} {gap : Gap} {c c' : Cursor} {w cs tail : List Char} {broken : Bool}

/-! ### Texts that may stand without quotes -/

/-- A colon before a blank, or a number sign behind one. -/
def endsPlain (a b : Char) : Bool := (a == ':' && b == ' ') || (a == ' ' && b == '#')

/-- **What is asked of a text without quotes.** -/
structure IsPlain (cs : List Char) : Prop where
  canStart : canStartPlain cs = true
  printable : ∀ x ∈ cs, isPrintable x = true ∧ isBreak x = false
  last : ∀ x ∈ cs.getLast?, x ≠ ' ' ∧ x ≠ ':'
  chain : cs.IsChain fun a b => endsPlain a b = false

theorem allowsPlain_iff : allowsPlain cs = true ↔ IsPlain cs := by
  have hchain : _ ↔ cs.IsChain fun a b => endsPlain a b = false := anyNeighbours_eq_false_iff
  have hlast : (cs.getLast?.all fun c => c != ' ' && c != ':') = true ↔
      ∀ x ∈ cs.getLast?, x ≠ ' ' ∧ x ≠ ':' := by
    cases cs.getLast? <;> simp
  rw [allowsPlain, Bool.and_eq_true, Bool.and_eq_true, Bool.and_eq_true, hlast, Bool.not_eq_true']
  constructor
  · rintro ⟨⟨⟨hstart, hall⟩, hlast⟩, hneighbours⟩
    refine ⟨hstart, fun x hx => ?_, hlast, hchain.mp hneighbours⟩
    simpa using List.all_eq_true.mp hall x hx
  · rintro ⟨hstart, hall, hlast, hneighbours⟩
    refine ⟨⟨⟨hstart, List.all_eq_true.mpr fun x hx => ?_⟩, hlast⟩, hchain.mpr hneighbours⟩
    simpa using hall x hx

/-! ### Words -/

/-- A plain scalar, or a word of it, ends here: at the end of a word, or at a colon there. -/
def EndsPlainWord (tail : List Char) : Prop :=
  EndsWord tail ∨ ∃ rest, tail = ':' :: rest ∧ EndsWord rest

/-- A word of a plain scalar. -/
structure IsWord (w : List Char) : Prop where
  solid : ∀ x ∈ w, isBlank x = false ∧ isBreak x = false
  last : ∀ x ∈ w.getLast?, x ≠ ':'

theorem readWord?_ends (hc : c.rest = tail) (h : EndsPlainWord tail) :
    readWord? false (fuel + 1) c = some ([], c) := by
  subst hc
  rw [readWord?]
  cases hrest : c.rest with
  | nil => simp [Cursor.at?, hrest]
  | cons x rest =>
    rw [hrest] at h
    simp only [Cursor.at?_zero hrest]
    rcases h with h | ⟨rest', heq, hends⟩
    · rw [if_pos (by simpa using endsWord_cons.mp h)]
    · obtain ⟨rfl, rfl⟩ := List.cons.inj heq
      have hword : c.endsWord 1 = true := Cursor.endsWord_iff.mpr (by simpa [hrest] using hends)
      rw [if_neg (by decide), if_neg (by simp), if_pos (.inl ⟨rfl, hword⟩)]

/-- A word is read to its end. -/
theorem readWord?_eq (hw : IsWord w) (hc : c.rest = w ++ tail) (h : EndsPlainWord tail)
    (hfuel : w.length < fuel) : readWord? false fuel c = some (w, c.advance w.length) := by
  induction w generalizing c fuel with
  | nil =>
    obtain ⟨fuel, rfl⟩ := Nat.exists_eq_add_one.mpr hfuel
    rw [readWord?_ends hc h]
    simp [Cursor.advance, Cursor.byteLength]
  | cons x w ih =>
    obtain ⟨fuel, rfl⟩ := Nat.exists_eq_add_one.mpr (Nat.zero_lt_of_lt hfuel)
    obtain ⟨hblank, hbreak⟩ := hw.solid x List.mem_cons_self
    have hrest : IsWord w := by
      refine ⟨fun y hy => hw.solid y (List.mem_cons_of_mem _ hy), fun y hy => hw.last y ?_⟩
      rw [List.getLast?_cons, Option.mem_def.mp hy]
      rfl
    -- A colon is not the last character of the word, so a character of the word stands behind it.
    have hcolon : ¬ (x = ':' ∧ c.endsWord 1 = true) := by
      rintro ⟨rfl, hends⟩
      cases w with
      | nil => exact hw.last ':' rfl rfl
      | cons y w =>
        have hy := hrest.solid y List.mem_cons_self
        rw [Cursor.endsWord_iff, hc] at hends
        rcases hends y rfl with hends | hends
        · rw [hy.1] at hends
          cases hends
        · rw [hy.2] at hends
          cases hends
    rw [readWord?]
    simp only [Cursor.at?_zero hc]
    rw [if_neg (by simp [hblank, hbreak]), if_neg (by simp), if_neg (by simpa using hcolon),
      ih hrest (Cursor.rest_advance_one hc) (by simpa using hfuel), Option.map_some,
      Cursor.advance_add, List.length_cons, Nat.add_comm]

/-! ### Words and gaps -/

/-- **Where a plain scalar is left**: at the colon of a key, or behind a gap that ends its line. -/
inductive Leaves (margin : Nat) : Cursor → Bool → Cursor → Prop where
  | key {d : Cursor} {rest : List Char} : d.rest = ':' :: rest → EndsWord rest →
    Leaves margin d false d
  | line {d d' : Cursor} {g : Gap} : d.endsWord 0 = true → d.atEnd = false →
    Gap.read? margin (d.rest.length + 1) {} d = some (g, d') → d'.column < margin →
    Leaves margin d g.broken d'

theorem Leaves.endsPlainWord (h : Leaves margin c broken c') : EndsPlainWord c.rest := by
  cases h with
  | key hc hends => exact .inr ⟨_, hc, hends⟩
  | line hends _ _ _ => exact .inl (by simpa using Cursor.endsWord_iff.mp hends)

/-- A word is read, behind the gap in front of it. -/
theorem readWords?_word (hw : IsWord w) (hne : w ≠ []) (hc : c.rest = w ++ tail)
    (hmark : c.atDocumentBoundary = false) (hcomment : w.head? ≠ some '#')
    (htail : EndsPlainWord tail) :
    readWords? false margin (fuel + 1) gap c =
      if (c.advance w.length).atEnd || !(c.advance w.length).endsWord 0 then
        some (gap.folded ++ w, false, c.advance w.length)
      else do
        let (g, d) ← Gap.read? margin ((c.advance w.length).rest.length + 1) {}
          (c.advance w.length)
        if d.column < margin then return (gap.folded ++ w, g.broken, d)
        let (more, broken, d) ← readWords? false margin fuel g d
        return (gap.folded ++ w ++ more, broken, d) := by
  have hcomment : c.isAt 0 '#' = false := by
    obtain ⟨x, w, rfl⟩ := List.exists_cons_of_ne_nil hne
    have hx : x ≠ '#' := fun hx => hcomment (by rw [hx]; rfl)
    simp [Cursor.isAt, Cursor.at?_zero hc, hx]
  have hread : readWord? false (c.rest.length + 1) c = some (w, c.advance w.length) :=
    readWord?_eq hw hc htail (by rw [hc, List.length_append]; omega)
  have hempty : w.isEmpty = false := List.isEmpty_eq_false_iff.mpr hne
  rw [readWords?, hmark, hcomment, hread]
  simp [hempty, hne]

/-- The last word is followed by what ends the scalar. -/
theorem readWords?_last (hw : IsWord w) (hne : w ≠ []) (hc : c.rest = w ++ tail)
    (hmark : c.atDocumentBoundary = false) (hcomment : w.head? ≠ some '#')
    (h : Leaves margin (c.advance w.length) broken c') :
    readWords? false margin (fuel + 1) gap c = some (gap.folded ++ w, broken, c') := by
  have htail : (c.advance w.length).rest = tail := Cursor.rest_advance hc
  rw [readWords?_word hw hne hc hmark hcomment (htail ▸ h.endsPlainWord)]
  cases h with
  | key hc' hends =>
    have hword : (c.advance w.length).endsWord 0 = false := by
      rw [Cursor.endsWord_eq_false_iff, List.drop_zero, hc', endsWord_cons]
      decide
    rw [hword]
    simp
  | line hword hend hgap hcolumn => simp [hword, hend, hgap, hcolumn]

/-- A word is read with the gap behind it, if another word follows on the line. -/
theorem readWords?_gap {g : List Char} {y : Char} (hw : IsWord w) (hne : w ≠ [])
    (hg : g ≠ []) (hspaces : ∀ x ∈ g, x = ' ') (hc : c.rest = w ++ (g ++ y :: tail))
    (hy : isBlank y = false ∧ isBreak y = false) (hmark : c.atDocumentBoundary = false)
    (hcomment : w.head? ≠ some '#') (hmargin : margin ≤ c.column + 1) :
    readWords? false margin (fuel + 1) gap c =
      (readWords? false margin fuel { blanks := g } (c.advance (w ++ g).length)).map
        fun (more, broken, d) => (gap.folded ++ w ++ more, broken, d) := by
  have hrest : (c.advance w.length).rest = g ++ y :: tail := Cursor.rest_advance hc
  have hends : EndsWord (g ++ y :: tail) := fun z hz => by
    rw [List.head?_append, List.head?_eq_some_head hg, hspaces _ (List.head_mem hg)] at hz
    exact .inl (by cases hz; rfl)
  have hendsWord : (c.advance w.length).endsWord 0 = true :=
    Cursor.endsWord_iff.mpr (by rwa [List.drop_zero, hrest])
  have hend : (c.advance w.length).atEnd = false := by
    rw [Cursor.atEnd, hrest]
    simp
  have hgap : Gap.read? margin ((c.advance w.length).rest.length + 1) {} (c.advance w.length) =
      some ({ blanks := g }, (c.advance w.length).advance g.length) := by
    refine Gap.read?_blanks hspaces hrest ?_ rfl (by rw [hrest, List.length_append]; omega)
    simpa [Gap.Ends, isBlank] using hy
  -- The next word starts in the margin, since this one is not empty.
  have hfar : margin ≤ ((c.advance w.length).advance g.length).column := by
    have := List.length_pos_iff.mpr hne
    simp only [Cursor.column_advance]
    omega
  rw [readWords?_word hw hne hc hmark hcomment (.inl hends), hend, hendsWord, hgap,
    List.length_append, ← Cursor.advance_add]
  simp only [Bool.not_true, Bool.or_self, Bool.false_eq_true, if_false, Option.bind_eq_bind,
    Option.bind_some]
  rw [if_neg (by omega)]
  cases readWords? false margin fuel _ _ <;> rfl

/-- **A text of words** on a line, with gaps between them and without a comment. -/
structure IsWords (cs : List Char) : Prop where
  ne_nil : cs ≠ []
  head : cs.head? ≠ some ' ' ∧ cs.head? ≠ some '#'
  printable : ∀ x ∈ cs, isPrintable x = true ∧ isBreak x = false
  last : ∀ x ∈ cs.getLast?, x ≠ ' ' ∧ x ≠ ':'
  chain : cs.IsChain fun a b => endsPlain a b = false

namespace IsWords

theorem solid (h : IsWords cs) {x : Char} (hx : x ∈ cs) (hspace : x ≠ ' ') :
    isBlank x = false ∧ isBreak x = false := by
  refine ⟨?_, (h.printable x hx).2⟩
  rw [isBlank_of_isPrintable (h.printable x hx).1]
  simpa using hspace

/-- In front of a gap stands a word, which does not end in a colon, and behind it further words,
which are no comment. -/
theorem split {g xs : List Char} (h : IsWords (w ++ (g ++ xs))) (hg : g ≠ [])
    (hspaces : ∀ x ∈ g, x = ' ') (hword : ∀ x ∈ w, x ≠ ' ') (hxs : xs.head? ≠ some ' ') :
    w ≠ [] ∧ IsWord w ∧ IsWords xs := by
  have hghead : g.head? = some ' ' := by
    rw [List.head?_eq_some_head hg, hspaces _ (List.head_mem hg)]
  have hglast : g.getLast? = some ' ' := by
    rw [List.getLast?_eq_some_getLast hg, hspaces _ (List.getLast_mem hg)]
  obtain ⟨-, hchain, hmeet⟩ := List.isChain_append.mp h.chain
  obtain ⟨-, hchain, hmeet'⟩ := List.isChain_append.mp hchain
  have hlast := h.last
  refine ⟨?_, ⟨fun x hx => h.solid (List.mem_append_left _ hx) (hword x hx), ?_⟩,
    ⟨?_, ⟨hxs, ?_⟩, fun x hx => h.printable x (by simp [hx]), ?_, hchain⟩⟩
  · rintro rfl
    exact h.head.1 (by rw [List.nil_append, List.head?_append, hghead]; rfl)
  · intro x hx hcolon
    have := hmeet x hx ' ' (by rw [List.head?_append, hghead]; rfl)
    simp [endsPlain, hcolon] at this
  · rintro rfl
    rw [List.append_nil, List.getLast?_append, hglast] at hlast
    exact (hlast ' ' rfl).1 rfl
  · intro hx
    have := hmeet' ' ' hglast '#' hx
    simp [endsPlain] at this
  · intro x hx
    refine hlast x ?_
    rw [List.getLast?_append, List.getLast?_append, Option.mem_def.mp hx]
    rfl

end IsWords

/-- **A text of words is read as itself.** -/
theorem readWords?_eq (hcs : IsWords cs) (hc : c.rest = cs ++ tail)
    (hmark : c.atDocumentBoundary = false) (hmargin : margin ≤ c.column + 1)
    (hfuel : cs.length < fuel) (h : Leaves margin (c.advance cs.length) broken c') :
    readWords? false margin fuel gap c = some (gap.folded ++ cs, broken, c') := by
  induction cs using words_induction (p := (· == ' ')) generalizing c gap fuel with
  | word w hw =>
    obtain ⟨fuel, rfl⟩ := Nat.exists_eq_add_one.mpr (Nat.zero_lt_of_lt hfuel)
    have hword : IsWord w :=
      ⟨fun x hx => hcs.solid hx (by simpa using hw x hx), fun x hx => (hcs.last x hx).2⟩
    exact readWords?_last hword hcs.ne_nil hc hmark hcs.head.2 h
  | gap w g xs hw hg hspaces hxs ih =>
    obtain ⟨fuel, rfl⟩ := Nat.exists_eq_add_one.mpr (Nat.zero_lt_of_lt hfuel)
    have hspaces : ∀ x ∈ g, x = ' ' := fun x hx => by simpa using hspaces x hx
    obtain ⟨hne, hword, hmore⟩ := hcs.split hg hspaces (fun x hx => by simpa using hw x hx)
      (fun hx => by simpa using hxs ' ' hx)
    obtain ⟨y, ys, rfl⟩ := List.exists_cons_of_ne_nil hmore.ne_nil
    have hy := hmore.solid List.mem_cons_self (by simpa using hmore.head.1)
    have hcomment : w.head? ≠ some '#' := fun hx =>
      hcs.head.2 (by rw [List.head?_append, hx]; rfl)
    have hc' : c.rest = (w ++ g) ++ (y :: ys ++ tail) := by simpa using hc
    have hlength : 0 < g.length := List.length_pos_iff.mpr hg
    rw [← List.append_assoc, List.length_append, ← Cursor.advance_add] at h
    rw [List.length_append, List.length_append] at hfuel
    have hfar : c.column < (c.advance (w ++ g).length).column := by
      rw [Cursor.column_advance, List.length_append]
      omega
    rw [readWords?_gap hword hne hg hspaces (by simpa using hc) hy hmark hcomment hmargin,
      ih hmore (Cursor.rest_advance hc') (Cursor.atDocumentBoundary_of_column (by omega)) (by omega)
        (by omega) h]
    simp [Gap.folded]

/-! ### Scalars -/

namespace IsPlain

/-- How a text without quotes starts. -/
theorem exists_cons (h : IsPlain cs) : ∃ x rest, cs = x :: rest ∧ x ≠ ' ' ∧
    startsWithMark cs = false ∧ (isIndicator x = false ∨
      ((x = '-' ∨ x = '?' ∨ x = ':') ∧ ∃ y, rest.head? = some y ∧ y ≠ ' ')) := by
  have hstart := h.canStart
  cases cs with
  | nil => simp [canStartPlain] at hstart
  | cons x rest =>
    simp only [canStartPlain, Bool.and_eq_true, Bool.or_eq_true, bne_iff_ne, Bool.not_eq_true',
      beq_iff_eq, Option.any_eq_true_iff_get] at hstart
    obtain ⟨⟨hspace, hmark⟩, hindicator⟩ := hstart
    refine ⟨x, rest, rfl, hspace, hmark, hindicator.imp_right ?_⟩
    rintro ⟨hx, hrest, hy⟩
    exact ⟨or_assoc.mp hx, _, (Option.some_get hrest).symm, hy⟩

theorem ne_nil (h : IsPlain cs) : cs ≠ [] := by
  obtain ⟨x, rest, rfl, -⟩ := h.exists_cons
  exact List.cons_ne_nil _ _

theorem head?_ne (h : IsPlain cs) : cs.head? ≠ some ' ' ∧ cs.head? ≠ some '#' := by
  obtain ⟨x, rest, rfl, hspace, -, hindicator⟩ := h.exists_cons
  refine ⟨by simpa using hspace, ?_⟩
  simp only [List.head?_cons, ne_eq, Option.some.injEq]
  rintro rfl
  rcases hindicator with hindicator | ⟨hx, -⟩
  · exact absurd hindicator (by decide)
  · exact absurd hx (by decide)

/-- A text without quotes does not start like a mark that separates documents. -/
theorem atDocumentBoundary (h : IsPlain cs) (hc : c.rest = cs ++ tail)
    (htail : tail.head? ≠ some '-' ∧ tail.head? ≠ some '.') : c.atDocumentBoundary = false := by
  obtain ⟨x, rest, rfl, -, hmark, -⟩ := h.exists_cons
  simp only [startsWithMark, Bool.or_eq_false_iff, beq_eq_false_iff_ne] at hmark
  have hat (n : Nat) : c.at? n = (x :: rest ++ tail)[n]? := by rw [Cursor.at?, hc]
  simp only [Cursor.atDocumentBoundary, Cursor.atDocumentMark, Cursor.isAt, hat]
  rcases rest with _ | ⟨y, _ | ⟨z, rest⟩⟩
  · cases tail <;> simp_all
  · cases tail <;> simp_all
  · simp only [List.take_succ_cons, List.take_zero] at hmark
    simp_all

end IsPlain

theorem IsPlain.isWords (h : IsPlain cs) : IsWords cs :=
  ⟨h.ne_nil, h.head?_ne, h.printable, h.last, h.chain⟩

theorem readPlain?_eq (h : IsPlain cs) (hc : c.rest = cs ++ tail)
    (hmark : c.atDocumentBoundary = false) (hmargin : margin ≤ c.column + 1)
    (hleaves : Leaves margin (c.advance cs.length) broken c') :
    readPlain? false margin c = some (String.ofList cs, broken, c') := by
  have hfuel : cs.length < c.rest.length + 1 := by
    rw [hc, List.length_append]
    omega
  have hwords : readWords? false margin (c.rest.length + 1) {} c = some (cs, broken, c') :=
    readWords?_eq h.isWords hc hmark hmargin hfuel hleaves
  rw [readPlain?, hwords]
  rfl

/-- **A key is read** up to its colon. -/
theorem readPlain?_key (h : IsPlain cs) (hc : c.rest = cs ++ ':' :: tail) (htail : EndsWord tail)
    (hmargin : margin ≤ c.column + 1) :
    readPlain? false margin c = some (String.ofList cs, false, c.advance cs.length) :=
  readPlain?_eq h hc (h.atDocumentBoundary hc (by simp)) hmargin
    (.key (Cursor.rest_advance hc) htail)

/-- **A value is read** to the end of its line, and on to the first word of the next one. -/
theorem readPlain?_value {indent : Int} {text : List Char} (h : IsPlain cs)
    (hc : c.rest = cs ++ '\n' :: text) (hnext : Next indent text)
    (htext : indentation text < margin) (hmargin : margin ≤ c.column + 1) :
    ∃ c', readPlain? false margin c = some (String.ofList cs, true, c') ∧ c'.Behind text ∧
      c'.line = c.line + 1 := by
  have hrest : (c.advance cs.length).rest = '\n' :: text := Cursor.rest_advance hc
  have hends : (c.advance cs.length).endsWord 0 = true := by
    rw [Cursor.endsWord_iff, List.drop_zero, hrest, endsWord_cons]
    decide
  have hend : (c.advance cs.length).atEnd = false := by simp [Cursor.atEnd, hrest]
  obtain ⟨c', hgap, hbehind, hline⟩ := Gap.read?_line hrest hnext
    (show text.length + 1 < (c.advance cs.length).rest.length + 1 by simp [hrest])
  refine ⟨c', ?_, hbehind, hline⟩
  refine readPlain?_eq h hc (h.atDocumentBoundary hc (by simp)) hmargin (.line hends hend hgap ?_)
  rw [hbehind.column]
  exact htext

end WaterNetwork.Yaml
