import WaterNetwork.Proofs.Number.Numeral
import WaterNetwork.Proofs.Yaml.Plain
import WaterNetwork.Yaml.Scalar

/-!
# Numbers as plain scalars

A number is written without quotes. What is written consists of few characters: digits, points,
minus signs and the letter of a power; so it is none of the words that stand for something else, and
whether it is a whole number is settled by whether all of it is digits.

* `readPlainContent?_float` — the text of every double is read back, infinities and the undefined
  number among them.
* `readPlainContent?_unsigned` — so is that of a whole number.
* `isPlain_float`, `isPlain_nat` — both may stand without quotes.
-/

namespace WaterNetwork.Yaml

open Number (IsWhole Numeral digitsValue)

variable {cs ds : List Char} {c : Char} {n : ℕ}

/-! ### Characters -/

/-- The characters of numbers. -/
def isNumberChar (c : Char) : Bool := c.isDigit || c == '.' || c == '-' || c == 'e'

theorem isNumberChar_of_isDigit (h : c.isDigit = true) : isNumberChar c = true := by
  simp [isNumberChar, h]

theorem exists_of_isDigit (h : c.isDigit = true) : ∃ d < 10, c = Nat.digitChar d := by
  obtain ⟨hlow, hhigh⟩ : 48 ≤ c.toNat ∧ c.toNat ≤ 57 := by
    simpa [Char.isDigit, UInt32.le_iff_toNat_le] using h
  refine ⟨c.toNat - 48, by omega, ?_⟩
  rw [← Char.ofNat_toNat c]
  generalize c.toNat = n at hlow hhigh
  interval_cases n <;> decide

/-- What holds of the digits and of the other characters of numbers holds of all of them. -/
theorem forall_isNumberChar {p : Char → Prop} (hdigit : ∀ d < 10, p (Nat.digitChar d))
    (hpoint : p '.') (hminus : p '-') (hpower : p 'e') (h : isNumberChar c = true) : p c := by
  simp only [isNumberChar, Bool.or_eq_true, beq_iff_eq] at h
  rcases h with ((h | rfl) | rfl) | rfl
  · obtain ⟨d, hd, rfl⟩ := exists_of_isDigit h
    exact hdigit d hd
  · exact hpoint
  · exact hminus
  · exact hpower

/-- Numbers stand on a line as they are, and no key or comment can be seen in them. -/
theorem not_special_of_isNumberChar (h : isNumberChar c = true) :
    isPrintable c = true ∧ isBreak c = false ∧ c ≠ ' ' ∧ c ≠ ':' :=
  forall_isNumberChar (p := fun c => isPrintable c = true ∧ isBreak c = false ∧ c ≠ ' ' ∧ c ≠ ':')
    (by decide) (by decide) (by decide) (by decide) h

/-- A sign and a digit can start a text without quotes. -/
theorem canStartPlain_signed (negative : Bool) (hc : c.isDigit = true) :
    canStartPlain ((if negative then ['-'] else []) ++ c :: cs) = true := by
  have hdigit : ∀ d < 10, Nat.digitChar d ≠ ' ' ∧ Nat.digitChar d ≠ '-' ∧ Nat.digitChar d ≠ '.' ∧
      isIndicator (Nat.digitChar d) = false := by decide
  obtain ⟨d, hd, rfl⟩ := exists_of_isDigit hc
  obtain ⟨hspace, hminus, hpoint, hindicator⟩ := hdigit d hd
  cases negative <;> simp [canStartPlain, startsWithMark, hspace, hminus, hpoint, hindicator]

/-- A number may stand without quotes. -/
theorem isPlain_of_isNumberChar (hall : ∀ x ∈ cs, isNumberChar x = true)
    (hstart : canStartPlain cs = true) : IsPlain cs where
  canStart := hstart
  printable x hx :=
    let h := not_special_of_isNumberChar (hall x hx)
    ⟨h.1, h.2.1⟩
  last x hx := (not_special_of_isNumberChar (hall x (List.mem_of_getLast? hx))).2.2
  chain := by
    rw [List.isChain_iff_getElem]
    intro i hi
    obtain ⟨-, -, hspace, hcolon⟩ := not_special_of_isNumberChar (hall cs[i] (List.getElem_mem _))
    simp [endsPlain, hspace, hcolon]

/-! ### Digits -/

theorem digitIn?_of_isDigit (h : c.isDigit = true) :
    Number.digitIn? 10 c = some (Number.digitValue c) := by
  obtain ⟨d, hd, rfl⟩ := exists_of_isDigit h
  revert d
  decide

theorem digitIn?_eq_none (h : isNumberChar c = true) (hdigit : c.isDigit = false) :
    Number.digitIn? 10 c = none :=
  forall_isNumberChar (p := fun c => c.isDigit = false → Number.digitIn? 10 c = none)
    (by decide) (by decide) (by decide) (by decide) h hdigit

theorem foldlM_digitIn? (hds : ∀ c ∈ ds, c.isDigit = true) (start : ℕ) :
    ds.foldlM (fun n c => (Number.digitIn? 10 c).map (10 * n + ·)) start =
      some (digitsValue start ds) := by
  induction ds generalizing start with
  | nil => rfl
  | cons c ds ih =>
    rw [List.forall_mem_cons] at hds
    rw [List.foldlM_cons, digitIn?_of_isDigit hds.1]
    exact ih hds.2 _

theorem foldlM_digitIn?_eq_none (hall : ∀ x ∈ cs, isNumberChar x = true)
    (hmark : ∃ x ∈ cs, x.isDigit = false) (start : ℕ) :
    cs.foldlM (fun n c => (Number.digitIn? 10 c).map (10 * n + ·)) start = none := by
  induction cs generalizing start with
  | nil => simp at hmark
  | cons c cs ih =>
    rw [List.forall_mem_cons] at hall
    rw [List.foldlM_cons]
    cases hc : c.isDigit with
    | false =>
      rw [digitIn?_eq_none hall.1 hc]
      rfl
    | true =>
      rw [digitIn?_of_isDigit hc]
      refine ih hall.2 ?_ _
      obtain ⟨x, hx, hx'⟩ := hmark
      rcases List.mem_cons.mp hx with rfl | hx
      · rw [hc] at hx'
        cases hx'
      · exact ⟨x, hx, hx'⟩

/-! ### Whole numbers -/

/-- Without the letters that name a base, a number is read in base ten. -/
theorem readMagnitude?_eq (hall : ∀ x ∈ cs, isNumberChar x = true) :
    readMagnitude? cs = if hasLeadingZero cs then none else Number.digitsIn? 10 cs := by
  unfold readMagnitude?
  split
  · exact absurd (hall 'x' (by simp)) (by decide)
  · exact absurd (hall 'o' (by simp)) (by decide)
  · exact absurd (hall 'b' (by simp)) (by decide)
  · rfl

theorem readUnsigned?_eq (hall : ∀ x ∈ cs, isNumberChar x = true) :
    readUnsigned? cs = readMagnitude? cs := by
  unfold readUnsigned?
  split
  · exact absurd (hall '+' (by simp)) (by decide)
  · rfl

/-- What has other characters than digits is no whole number. -/
theorem readMagnitude?_eq_none (hall : ∀ x ∈ cs, isNumberChar x = true)
    (hmark : ∃ x ∈ cs, x.isDigit = false) : readMagnitude? cs = none := by
  have hne : ¬ cs.isEmpty = true := by
    obtain ⟨x, hx, -⟩ := hmark
    simpa using List.ne_nil_of_mem hx
  rw [readMagnitude?_eq hall, Number.digitsIn?, if_neg hne, foldlM_digitIn?_eq_none hall hmark,
    ite_self]

/-- A sign is told from the digits behind it. -/
theorem splitSign_append (negative : Bool) (hc : c.isDigit = true) (cs : List Char) :
    Number.splitSign ((if negative then ['-'] else []) ++ c :: cs) = (negative, c :: cs) := by
  cases negative with
  | true => rfl
  | false =>
    rw [if_neg Bool.false_ne_true, List.nil_append, Number.splitSign]
    · rintro rest ⟨rfl, -⟩
      exact absurd hc (by decide)
    · rintro rest ⟨rfl, -⟩
      exact absurd hc (by decide)

theorem readMagnitude?_toDigits (n : ℕ) : readMagnitude? (Nat.toDigits 10 n) = some n := by
  have hwhole := Number.isWhole_toDigits n
  have hzero : hasLeadingZero (Nat.toDigits 10 n) = false := by
    obtain ⟨c, ds, hcs, hc⟩ := Number.exists_digit_of_isWhole hwhole []
    have hsplit : (Number.splitSign (c :: ds)).2 = c :: ds :=
      congrArg Prod.snd (splitSign_append false hc ds)
    have hleading := hwhole.leading
    rw [List.append_nil] at hcs
    rw [hcs] at hleading ⊢
    rw [hasLeadingZero, hsplit]
    split
    · rename_i heq
      cases heq
      exact absurd rfl (hleading (by simp))
    · rfl
  rw [readMagnitude?_eq fun c hc => isNumberChar_of_isDigit (hwhole.digits c hc), hzero,
    if_neg Bool.false_ne_true, Number.digitsIn?, if_neg (by simp), foldlM_digitIn? hwhole.digits,
    Number.digitsValue_toDigits]

theorem readUnsigned?_toDigits (n : ℕ) : readUnsigned? (Nat.toDigits 10 n) = some n := by
  rw [readUnsigned?_eq fun c hc => isNumberChar_of_isDigit (Number.isDigit_of_mem_toDigits hc),
    readMagnitude?_toDigits]

/-! ### Numerals -/

section

variable {body : List Char} {digits : ℕ} {exponent : ℤ}

theorem isNumberChar_of_numeral (h : Numeral "" body digits exponent) :
    ∀ x ∈ body, isNumberChar x = true := by
  have hdigits {ds : List Char} (hds : ∀ c ∈ ds, c.isDigit = true) :
      ∀ c ∈ ds, isNumberChar c = true := fun c hc => isNumberChar_of_isDigit (hds c hc)
  intro x hx
  cases h with
  | point hwhole hne hfraction =>
    simp only [List.mem_append, List.mem_cons] at hx
    rcases hx with hx | rfl | hx
    · exact hdigits hwhole.digits x hx
    · rfl
    · exact hdigits hfraction x hx
  | power negative hwhole hfraction hne hpower =>
    simp only [List.mem_append, List.mem_cons] at hx
    rcases hx with (hx | hx) | rfl | hx | hx
    · exact hdigits hwhole.digits x hx
    · split at hx
      · cases hx
      · rcases List.mem_cons.mp hx with rfl | hx
        · rfl
        · exact hdigits hfraction x hx
    · rfl
    · cases negative with
      | true =>
        obtain rfl : x = '-' := by simpa using hx
        rfl
      | false => simp at hx
    · exact hdigits hpower x hx

/-- A numeral has a point or a power of ten. -/
theorem exists_mark_of_numeral (h : Numeral "" body digits exponent) :
    ∃ x ∈ body, x.isDigit = false := by
  cases h with
  | point => exact ⟨'.', by simp, rfl⟩
  | power => exact ⟨'e', by simp, rfl⟩

theorem takeWhile_isDigit {x : Char} (hds : ∀ c ∈ ds, c.isDigit = true) (hx : x.isDigit = false)
    (cs : List Char) :
    (ds ++ x :: cs).takeWhile Char.isDigit = ds ∧
      (ds ++ x :: cs).dropWhile Char.isDigit = x :: cs := by
  rw [List.takeWhile_append_of_pos hds, List.dropWhile_append_of_pos hds,
    List.takeWhile_cons_of_neg (by simp [hx]), List.dropWhile_cons_of_neg (by simp [hx])]
  simp

theorem readExponent?_power (negative : Bool) (hne : ds ≠ []) (hds : ∀ c ∈ ds, c.isDigit = true) :
    Number.readExponent? ('e' :: ((if negative then "-" else "").toList ++ ds)) =
      some (if negative then -(digitsValue 0 ds : ℤ) else digitsValue 0 ds) := by
  obtain ⟨c, ds, rfl⟩ := List.exists_cons_of_ne_nil hne
  have hsign : (if negative then "-" else "").toList = if negative then ['-'] else [] := by
    cases negative <;> rfl
  have hall : (c :: ds).all Char.isDigit = true := List.all_eq_true.mpr hds
  rw [Number.readExponent?, if_pos (.inl rfl), hsign,
    splitSign_append negative (hds c List.mem_cons_self)]
  simp only [hall]
  simp

/-- **A numeral is read** as the decimal that it writes down. -/
theorem read?_numeral (negative : Bool) (h : Numeral "" body digits exponent) :
    Number.Decimal.read? ((if negative then ['-'] else []) ++ body) =
      some ⟨negative, digits, exponent⟩ := by
  obtain ⟨c, cs, hcs, hc⟩ := Number.exists_digit_of_numeral h []
  rw [List.append_nil] at hcs
  have hsplit : Number.splitSign ((if negative then ['-'] else []) ++ body) = (negative, body) := by
    rw [hcs]
    exact splitSign_append negative hc cs
  rw [Number.Decimal.read?, hsplit]
  cases h with
  | @point whole fraction hwhole hne hfraction =>
    obtain ⟨htake, hdrop⟩ := takeWhile_isDigit hwhole.digits (x := '.') rfl fraction
    have htake' : fraction.takeWhile Char.isDigit = fraction :=
      List.takeWhile_eq_self_iff.mpr hfraction
    have hdrop' : fraction.dropWhile Char.isDigit = [] := List.dropWhile_eq_nil_iff.mpr hfraction
    simp only [htake, hdrop, htake', hdrop', Number.readExponent?, List.isEmpty_iff, hwhole.ne_nil,
      false_and, if_false, Option.bind_eq_bind, Option.bind_some, Number.digitsValue_append,
      Int.zero_sub]
    rfl
  | @power whole fraction power negativePower hwhole hfraction hne hpower =>
    have hexponent := readExponent?_power negativePower hne hpower
    rcases eq_or_ne fraction [] with rfl | hpoint
    · obtain ⟨htake, hdrop⟩ := takeWhile_isDigit hwhole.digits (x := 'e') rfl
        ((if negativePower then "-" else "").toList ++ power)
      simp only [if_pos, List.append_nil, htake, hdrop, List.isEmpty_iff, hwhole.ne_nil, false_and,
        if_false, Option.bind_eq_bind]
      change (Number.readExponent? ('e' :: _)).bind _ = _
      rw [hexponent]
      rfl
    · obtain ⟨htake, hdrop⟩ := takeWhile_isDigit hwhole.digits (x := '.') rfl
        (fraction ++ 'e' :: ((if negativePower then "-" else "").toList ++ power))
      obtain ⟨htake', hdrop'⟩ := takeWhile_isDigit hfraction (x := 'e') rfl
        ((if negativePower then "-" else "").toList ++ power)
      simp only [if_neg hpoint, List.append_assoc, List.cons_append, htake, hdrop, htake', hdrop',
        hexponent, List.isEmpty_iff, hwhole.ne_nil, false_and, if_false, Option.bind_eq_bind,
        Option.bind_some, Number.digitsValue_append]
      rfl

end

/-! ### Contents -/

variable {text : String}

/-- A text that consists of the characters of numbers is no word with other characters. -/
theorem contains_eq_false {words : List String} (hall : ∀ x ∈ text.toList, isNumberChar x = true)
    (hwords : ∀ w ∈ words, w.toList.all isNumberChar = false) : words.contains text = false := by
  refine Bool.eq_false_iff.mpr fun hmem => ?_
  have := hwords text (List.contains_iff_mem.mp hmem)
  rw [List.all_eq_true.mpr hall] at this
  cases this

/-- A number is none of the words that stand for something else. -/
theorem readPlainContent?_of_isNumberChar (hne : text ≠ "")
    (hall : ∀ x ∈ text.toList, isNumberChar x = true) :
    readPlainContent? text =
      match readWhole text.toList with
      | .content c => some c
      | .tooLarge => none
      | .other =>
        match if hasLeadingZero text.toList then none else readFloat? text with
        | some x => some (.float x)
        | none => some (.string text) := by
  have hnull : spellsNull text = false := contains_eq_false hall (by decide)
  have htrue : ["true", "True", "TRUE"].contains text = false := contains_eq_false hall (by decide)
  have hfalse : ["false", "False", "FALSE"].contains text = false :=
    contains_eq_false hall (by decide)
  have htruth : readTruth? text = none := by simp only [readTruth?, htrue, hfalse]; rfl
  rw [readPlainContent?, htruth, hnull]
  exact if_neg (by simpa using hne)

/-- The text of a whole number is read back. -/
theorem readPlainContent?_unsigned (n : UInt64) :
    readPlainContent? (toString n.toNat) = some (.unsigned n) := by
  have htext : (toString n.toNat).toList = Nat.toDigits 10 n.toNat := by
    rw [Nat.toString_eq_ofList_toDigits, String.toList_ofList]
  have hne : toString n.toNat ≠ "" := fun hnil => by
    rw [hnil] at htext
    exact Nat.toDigits_ne_nil htext.symm
  have hwhole : readWhole (toString n.toNat).toList = .content (.unsigned n) := by
    unfold readWhole
    rw [htext, readUnsigned?_toDigits]
    simp only [if_pos n.toNat_lt, UInt64.ofNat_toNat]
  rw [readPlainContent?_of_isNumberChar hne, hwhole]
  rw [htext]
  exact fun x hx => isNumberChar_of_isDigit (Number.isDigit_of_mem_toDigits hx)

section

variable {body : List Char} {digits : ℕ} {exponent : ℤ} {negative : Bool}

theorem isNumberChar_of_signed (h : Numeral "" body digits exponent) :
    ∀ x ∈ (if negative then ['-'] else []) ++ body, isNumberChar x = true := by
  intro x hx
  rcases List.mem_append.mp hx with hx | hx
  · cases negative with
    | true =>
      obtain rfl := List.mem_singleton.mp hx
      rfl
    | false => cases hx
  · exact isNumberChar_of_numeral h x hx

/-- A numeral is no whole number. -/
theorem readWhole_numeral (h : Numeral "" body digits exponent) :
    readWhole ((if negative then ['-'] else []) ++ body) = .other := by
  obtain ⟨x, hx, hdigit⟩ := exists_mark_of_numeral h
  have hall : ∀ x ∈ (if negative then ['-'] else []) ++ body, isNumberChar x = true :=
    isNumberChar_of_signed h
  unfold readWhole
  rw [readUnsigned?_eq hall,
    readMagnitude?_eq_none hall ⟨x, List.mem_append_right _ hx, hdigit⟩]
  cases negative with
  | true =>
    have hbody := readMagnitude?_eq_none (isNumberChar_of_numeral h) ⟨x, hx, hdigit⟩
    simp [hbody]
  | false =>
    obtain ⟨c, cs, hcs, hc⟩ := Number.exists_digit_of_numeral h []
    rw [List.append_nil] at hcs
    subst hcs
    dsimp only [Bool.false_eq_true, if_false, List.nil_append]
    split
    · rename_i heq
      cases heq
      exact absurd hc (by decide)
    · rfl

theorem hasLeadingZero_numeral (h : Numeral "" body digits exponent) :
    hasLeadingZero ((if negative then ['-'] else []) ++ body) = false := by
  obtain ⟨c, cs, hcs, hc⟩ := Number.exists_digit_of_numeral h []
  obtain ⟨x, hx, hdigit⟩ := exists_mark_of_numeral h
  rw [List.append_nil] at hcs
  subst hcs
  rw [hasLeadingZero, splitSign_append negative hc]
  dsimp only
  split
  · rename_i heq
    cases heq
    refine Bool.eq_false_iff.mpr fun hall => ?_
    rcases List.mem_cons.mp hx with rfl | hx
    · exact absurd hdigit (by decide)
    · rw [List.all_eq_true.mp hall x hx] at hdigit
      cases hdigit
  · rfl

/-- A number that has other characters than digits is read as a decimal. -/
theorem readFloat?_of_isNumberChar (hall : ∀ x ∈ text.toList, isNumberChar x = true) :
    readFloat? text =
      ((Number.Decimal.read? text.toList).map Number.Decimal.toFloat).filter Number.isFinite := by
  have hplus : ¬ (text.toList.head? = some '+') := fun hplus =>
    absurd (hall '+' (List.mem_of_head? hplus)) (by decide)
  have hword {words : List String} (hwords : ∀ w ∈ words, w.toList.all isNumberChar = false) :
      words.contains text = false := contains_eq_false hall hwords
  unfold readFloat?
  dsimp only
  split
  · rename_i heq
    exact absurd (congrArg List.head? heq) hplus
  · rw [if_neg fun h => hplus h.1, String.ofList_toList, hword (by decide), hword (by decide),
      hword (by decide)]
    rfl

/-- **The text of a decimal is read** as the double that it names. -/
theorem readPlainContent?_numeral (h : Numeral "" body digits exponent)
    (hfinite : Number.isFinite (Number.Decimal.toFloat ⟨negative, digits, exponent⟩) = true)
    (htext : text.toList = (if negative then ['-'] else []) ++ body) :
    readPlainContent? text =
      some (.float (Number.Decimal.toFloat ⟨negative, digits, exponent⟩)) := by
  have hall : ∀ x ∈ text.toList, isNumberChar x = true := by
    rw [htext]
    exact isNumberChar_of_signed h
  have hne : text ≠ "" := by
    rintro rfl
    obtain ⟨x, hx, -⟩ := exists_mark_of_numeral h
    exact List.ne_nil_of_mem (List.mem_append_right _ hx) htext.symm
  rw [readPlainContent?_of_isNumberChar hne hall, readFloat?_of_isNumberChar hall, htext,
    readWhole_numeral h, hasLeadingZero_numeral h, read?_numeral negative h]
  simp [Option.filter, hfinite]

end

/-! ### Doubles -/

/-- The text of a double that is not finite. -/
theorem text_yaml_of_not_finite {x : Float} (hx : ¬ Number.isFinite x = true) :
    (Number.yaml.text x = ".inf" ∧ x = Number.nearest false (2 ^ 1024) 1) ∨
      (Number.yaml.text x = "-.inf" ∧ x = Number.nearest true (2 ^ 1024) 1) ∨
      (Number.yaml.text x = ".nan" ∧ x = 0.0 / 0.0) := by
  unfold Number.Layout.text
  cases hm : Number.magnitude x with
  | finite m => exact absurd (Number.isFinite_of_magnitude hm) hx
  | infinite =>
    have heq := Number.eq_of_magnitude_infinite hm
    cases hneg : Number.isNegative x with
    | true => exact .inr (.inl ⟨rfl, hneg ▸ heq⟩)
    | false => exact .inl ⟨rfl, hneg ▸ heq⟩
  | undefined => exact .inr (.inr ⟨rfl, Number.eq_of_magnitude_undefined hm⟩)

/-- **The text of a double is read back.** -/
theorem readPlainContent?_float (x : Float) :
    readPlainContent? (Number.yaml.text x) = some (.float x) := by
  by_cases hx : Number.isFinite x = true
  · obtain ⟨body, digits, exponent, htext, hnumeral, hvalue⟩ :=
      Number.exists_numeral (l := Number.yaml) rfl hx
    have hread := readPlainContent?_numeral hnumeral (by rwa [hvalue]) htext
    rwa [hvalue] at hread
  · rcases text_yaml_of_not_finite hx with ⟨htext, heq⟩ | ⟨htext, heq⟩ | ⟨htext, heq⟩ <;>
      rw [htext, heq] <;> rfl

/-- The text of a double may stand without quotes. -/
theorem isPlain_float (x : Float) : IsPlain (Number.yaml.text x).toList := by
  by_cases hx : Number.isFinite x = true
  · obtain ⟨body, digits, exponent, htext, hnumeral, -⟩ :=
      Number.exists_numeral (l := Number.yaml) rfl hx
    obtain ⟨c, cs, hcs, hc⟩ := Number.exists_digit_of_numeral hnumeral []
    rw [List.append_nil] at hcs
    rw [htext]
    exact isPlain_of_isNumberChar (isNumberChar_of_signed hnumeral)
      (hcs ▸ canStartPlain_signed _ hc)
  · rcases text_yaml_of_not_finite hx with ⟨htext, -⟩ | ⟨htext, -⟩ | ⟨htext, -⟩ <;>
      rw [htext] <;> exact allowsPlain_iff.mp (by decide)

/-- The text of a whole number may stand without quotes. -/
theorem isPlain_nat (n : ℕ) : IsPlain (toString n).toList := by
  obtain ⟨c, cs, hcs, hc⟩ := Number.exists_digit_of_isWhole (Number.isWhole_toDigits n) []
  rw [List.append_nil] at hcs
  rw [Nat.toString_eq_ofList_toDigits, String.toList_ofList]
  exact isPlain_of_isNumberChar
    (fun x hx => isNumberChar_of_isDigit (Number.isDigit_of_mem_toDigits hx))
    (hcs ▸ canStartPlain_signed false hc)

end WaterNetwork.Yaml
