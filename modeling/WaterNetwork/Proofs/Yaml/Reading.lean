import WaterNetwork.Proofs.Yaml.Block
import WaterNetwork.Proofs.Yaml.Plain
import WaterNetwork.Proofs.Yaml.Quoted
import WaterNetwork.Yaml.Token.Reader

/-!
# Reading token after token

Before each token the reader settles: it goes on to the next character of a token, gives up a key
that cannot come any more, and ends the blocks that are indented further. What it then reads depends
on the settled state only, so that places in a text from which it settles in the same way can stand
for each other.

* `Runs` — the tokens that are read from a state, without fuel.
* `Progress` — what has been read: tokens, and the blocks that are open.
* `Resumes` — how reading goes on with a line, wherever it stands in the text.
-/

namespace WaterNetwork.Yaml

variable {c c' : Cursor} {k? : Option PossibleKey} {text tail : List Char} {fuel : ℕ}

namespace Reading

variable {r r' r₁ : Reading} {ts : List Token}

/-! ### Runs -/

/-- Go on to the next token. -/
def settle? (r : Reading) : Option Reading := do
  let r ← (r.skipToToken (r.cursor.rest.length + 1)).dropStale?
  return r.closeBlocks r.cursor.column

/-- **Reading token after token** yields these tokens in the end. -/
inductive Runs : Reading → List Token → Prop where
  | finish {r r₁ : Reading} {ts : List Token} : r.settle? = some r₁ → r₁.cursor.rest = [] →
    r₁.finish? = some ts.toArray → Runs r ts
  | step {r r₁ r' : Reading} {x : Char} {tail : List Char} {ts : List Token} :
    r.settle? = some r₁ → r₁.cursor.rest = x :: tail → r₁.readToken? x = some r' →
    r'.cursor.rest.length < r.cursor.rest.length → Runs r' ts → Runs r ts

theorem run?_succ (fuel : ℕ) (r : Reading) :
    run? (fuel + 1) r = r.settle?.bind fun r =>
      match r.cursor.at? 0 with
      | none => r.finish?
      | some x => (r.readToken? x).bind (run? fuel) := by
  rw [run?, settle?]
  cases (r.skipToToken (r.cursor.rest.length + 1)).dropStale? <;> rfl

/-- Every token takes characters, so the text is fuel enough. -/
theorem Runs.run? (h : Runs r ts) (hfuel : r.cursor.rest.length < fuel) :
    r.run? fuel = some ts.toArray := by
  induction h generalizing fuel with
  | finish hsettle hrest hfinish =>
    obtain ⟨fuel, rfl⟩ := Nat.exists_eq_add_one.mpr (Nat.zero_lt_of_lt hfuel)
    rw [run?_succ, hsettle]
    simp [Cursor.at?, hrest, hfinish]
  | step hsettle hrest hread hless _ ih =>
    obtain ⟨fuel, rfl⟩ := Nat.exists_eq_add_one.mpr (Nat.zero_lt_of_lt hfuel)
    rw [run?_succ, hsettle]
    simp [Cursor.at?, hrest, hread, ih (show _ < fuel by omega)]

/-- Reading goes on in the same way from where it settles in the same way. -/
theorem Runs.congr (h : Runs r' ts) (hsettle : r.settle? = r'.settle?)
    (hle : r'.cursor.rest.length ≤ r.cursor.rest.length) : Runs r ts := by
  cases h with
  | finish hsettle' hrest hfinish => exact .finish (hsettle.trans hsettle') hrest hfinish
  | step hsettle' hrest hread hless hruns =>
    exact .step (hsettle.trans hsettle') hrest hread (hless.trans_le hle) hruns

end Reading

/-! ### Between tokens -/

/-- **What has been read**: tokens, and the blocks that are open. -/
structure Progress where
  tokens : List Token
  indent : ℤ
  outer : List ℤ

namespace Progress

variable {p : Progress} {b : Bool}

/-- Some more tokens. -/
def add (p : Progress) (ts : List Token) : Progress := { p with tokens := p.tokens ++ ts }

@[simp] theorem indent_add (p : Progress) (ts : List Token) : (p.add ts).indent = p.indent := rfl

@[simp] theorem add_add (p : Progress) (ts us : List Token) :
    (p.add ts).add us = p.add (ts ++ us) := by
  simp [add, List.append_assoc]

/-- A mapping at a column inside the blocks that are open. -/
def enter (p : Progress) (column : ℕ) : Progress where
  tokens := p.tokens ++ [.blockMappingStart]
  indent := column
  outer := p.indent :: p.outer

/-- The reader between two tokens outside of brackets. -/
def reading (p : Progress) (keyAllowed : Bool) (c : Cursor) (k? : Option PossibleKey) :
    Reading where
  cursor := c
  tokens := p.tokens.toArray
  indent := p.indent
  outer := p.outer
  keyAllowed := keyAllowed
  keys := [k?]

@[simp] theorem cursor_reading (p : Progress) (b : Bool) (c : Cursor) (k? : Option PossibleKey) :
    (p.reading b c k?).cursor = c := rfl

end Progress

/-! ### Spaces and line breaks -/

/-- A token or the end comes next. -/
def StartsToken (tail : List Char) : Prop :=
  ∀ x ∈ tail.head?, isBlank x = false ∧ isBreak x = false ∧ x ≠ '#' ∧ x ≠ byteOrderMark

theorem Next.startsToken {indent : ℤ} (h : Next indent text) : StartsToken (unindented text) := by
  cases h with
  | nil => exact nofun
  | line hk hblank hbreak hmark horder =>
    rw [unindented_line hblank]
    simpa [StartsToken] using And.intro hblank ⟨hbreak, hmark, horder⟩

namespace Reading

variable {r : Reading}

/-- Spaces in front of a token are passed over. -/
theorem skipToToken_spaces {k : ℕ} (fuel : ℕ) (hc : r.cursor.rest = List.replicate k ' ' ++ tail)
    (h : StartsToken tail) :
    r.skipToToken (fuel + 1) = { r with cursor := r.cursor.advance k } := by
  have horder : r.cursor.isAt 0 byteOrderMark = false := by
    rw [Cursor.isAt, Cursor.at?, hc, ← List.head?_eq_getElem?, beq_eq_false_iff_ne]
    intro hx
    cases k with
    | zero => exact (h _ hx).2.2.2 rfl
    | succ k => exact absurd hx (by simp [List.replicate_succ, byteOrderMark])
  have hskip :
      (r.cursor.skipWhile fun x => x == ' ' || ((r.inFlow || !r.keyAllowed) && x == '\t')) =
      r.cursor.advance k := by
    have htake : (r.cursor.rest.takeWhile fun x =>
        (x == ' ' || ((r.inFlow || !r.keyAllowed) && x == '\t')) && !isBreak x) =
        List.replicate k ' ' := by
      rw [hc, List.takeWhile_append_of_pos (by simp +contextual [isBreak])]
      cases tail with
      | nil => simp
      | cons x tail =>
        have hblank := (h x rfl).1
        simp only [isBlank, Bool.or_eq_false_iff] at hblank
        rw [List.takeWhile_cons_of_neg (by simp [hblank.1, hblank.2]), List.append_nil]
    rw [Cursor.skipWhile, Cursor.span, htake]
    simp
  have hrest : (r.cursor.advance k).rest = tail := by
    have := Cursor.rest_advance hc
    rwa [List.length_replicate] at this
  have hmark : (r.cursor.advance k).isAt 0 '#' = false := by
    rw [Cursor.isAt, Cursor.at?, hrest, ← List.head?_eq_getElem?, beq_eq_false_iff_ne]
    exact fun hx => (h _ hx).2.2.1 rfl
  have hbreak : (r.cursor.advance k).readBreak? = none :=
    Cursor.readBreak?_eq_none fun x hx => (h x (hrest ▸ hx)).2.1
  rw [skipToToken]
  simp only [horder, Bool.and_false, Bool.false_eq_true, if_false, hskip, hmark, hbreak]

/-- The end of a line leads to the first token of the next one, and a key may start there. -/
theorem skipToToken_break {indent : ℤ} (fuel : ℕ) (hc : r.cursor.rest = '\n' :: text)
    (h : Next indent text) (hflow : r.flow = 0) :
    ∃ c', c'.Behind text ∧ c'.line = r.cursor.line + 1 ∧
      r.skipToToken (fuel + 2) = { r with cursor := c', keyAllowed := true } := by
  have hsplit := replicate_indentation_append text
  refine ⟨(r.cursor.nextLine '\n' text).advance (indentation text), ⟨?_, ?_⟩, rfl, ?_⟩
  · have hrest : (r.cursor.nextLine '\n' text).rest =
        List.replicate (indentation text) ' ' ++ unindented text := hsplit.symm
    have := Cursor.rest_advance hrest
    rwa [List.length_replicate] at this
  · exact Nat.zero_add _
  · have horder : r.cursor.isAt 0 byteOrderMark = false := by
      rw [Cursor.isAt, Cursor.at?_zero hc]
      decide
    have hskip := Cursor.skipWhile_of_break (by decide) hc
    have hmark : r.cursor.isAt 0 '#' = false := by
      rw [Cursor.isAt, Cursor.at?_zero hc]
      decide
    have hflow : r.inFlow = false := by simp [inFlow, hflow]
    rw [skipToToken]
    simp only [horder, Bool.and_false, Bool.false_eq_true, if_false, hskip, hmark,
      Cursor.readBreak?_eq (by decide) hc, hflow, Bool.not_false, Bool.or_true]
    exact skipToToken_spaces fuel hsplit.symm h.startsToken

end Reading

/-! ### Settling -/

/-- A possible key that cannot come any more, or none. -/
def Past (c : Cursor) (k? : Option PossibleKey) : Prop :=
  ∀ k ∈ k?, k.required = false ∧ k.line < c.line

theorem past_none : Past c none := nofun

namespace Progress

variable {p : Progress} {b : Bool} {ts : List Token} {n column : ℕ}

theorem dropStale?_past (h : Past c k?) :
    (p.reading b c k?).dropStale? = some (p.reading b c none) := by
  cases k? with
  | none => rfl
  | some k =>
    obtain ⟨hrequired, hline⟩ := h k rfl
    have hstale : (p.reading b c (some k)).isStale k = true := by
      simp [Reading.isStale, hline]
    rw [Reading.dropStale?, show (p.reading b c (some k)).keys = [some k] from rfl,
      List.mapM_cons]
    simp only [hstale, hrequired]
    rfl

/-- No block is indented further than a token at this column. -/
theorem closeBlocks_reading (h : p.indent ≤ column) :
    (p.reading b c k?).closeBlocks column = p.reading b c k? := by
  have hclose : ¬ p.indent > column := by omega
  rw [Reading.closeBlocks]
  have hflow : (p.reading b c k?).inFlow = false := rfl
  rw [hflow, if_neg Bool.false_ne_true]
  obtain ⟨tokens, indent, outer⟩ := p
  cases outer with
  | nil => rfl
  | cons next outer =>
    simp only [reading, Reading.closeBlocks.close] at hclose ⊢
    rw [if_neg hclose]

/-- A block is ended where the text is indented less. -/
theorem closeBlocks_cons {tokens : List Token} {i j : ℤ} {outer : List ℤ} {column : ℤ}
    (h : column < i) :
    (reading ⟨tokens, i, j :: outer⟩ b c k?).closeBlocks column =
      (reading ⟨tokens ++ [.blockEnd], j, outer⟩ b c k?).closeBlocks column := by
  have hflow {p : Progress} : (p.reading b c k?).inFlow = false := rfl
  rw [Reading.closeBlocks, Reading.closeBlocks, hflow, hflow, if_neg Bool.false_ne_true,
    if_neg Bool.false_ne_true]
  simp only [reading, Reading.closeBlocks.close]
  rw [if_pos h, List.push_toArray]

/-- In front of a token only a key that is past and further blocks are given up. -/
theorem settle?_token (hc : StartsToken c.rest) (h : Past c k?) :
    (p.reading b c k?).settle? = some ((p.reading b c none).closeBlocks c.column) := by
  have hskip : (p.reading b c k?).skipToToken (c.rest.length + 1) = p.reading b c k? := by
    rw [Reading.skipToToken_spaces (r := p.reading b c k?) (k := 0) _ rfl hc]
    simp [reading]
  rw [Reading.settle?, cursor_reading, hskip, dropStale?_past h]
  rfl

/-- A space in front of a token is passed over. -/
theorem settle?_space (hc : c.rest = ' ' :: tail) (htail : StartsToken tail) :
    (p.reading b c none).settle? = (p.reading b (c.advance 1) none).settle? := by
  have hrest := Cursor.rest_advance_one hc
  have hskip : (p.reading b c none).skipToToken (c.rest.length + 1) =
      p.reading b (c.advance 1) none := by
    rw [Reading.skipToToken_spaces (r := p.reading b c none) (k := 1) _ hc htail]
    rfl
  have hsettle := settle?_token (p := p) (b := b) (c := c.advance 1) (by rwa [hrest]) past_none
  rw [hsettle, Reading.settle?, cursor_reading, hskip, dropStale?_past past_none]
  rfl

/-- The end of a line is passed over, and with it a key that may have started on it. -/
theorem settle?_break {indent : ℤ} (hc : c.rest = '\n' :: text) (hnext : Next indent text)
    (h : ∀ k ∈ k?, k.required = false ∧ k.line ≤ c.line) :
    ∃ c', c'.Behind text ∧ c'.line = c.line + 1 ∧
      (p.reading b c k?).settle? = (p.reading true c' none).settle? := by
  obtain ⟨c', hbehind, hline, hskip⟩ := Reading.skipToToken_break (r := p.reading b c k?)
    text.length hc hnext rfl
  have hpast : Past c' k? := fun k hk => by
    obtain ⟨hrequired, hle⟩ := h k hk
    exact ⟨hrequired, hline ▸ Nat.lt_succ_of_le hle⟩
  refine ⟨c', hbehind, hline, ?_⟩
  have hsettle : (p.reading true c' none).settle? = _ :=
    settle?_token (by rw [hbehind.rest]; exact hnext.startsToken) past_none
  rw [hsettle, Reading.settle?, cursor_reading, hc, List.length_cons, hskip]
  exact congrArg (Option.bind · _) (dropStale?_past (b := true) hpast)

/-! ### Going on -/

/-- **Reading goes on** in the same way wherever a text stands that starts in some column. -/
def Starts (p : Progress) (column : ℕ) (text : List Char) (ts : List Token) : Prop :=
  ∀ c k?, c.rest = text → c.column = column → Past c k? → (p.reading true c k?).Runs ts

/-- **Reading goes on with a line** in the same way wherever the line stands. -/
def Resumes (p : Progress) (text : List Char) (ts : List Token) : Prop :=
  p.Starts (indentation text) (unindented text) ts

theorem Resumes.runs (h : p.Resumes text ts) (hc : c.Behind text) (hpast : Past c k?) :
    (p.reading true c k?).Runs ts :=
  h c k? hc.rest hc.column hpast

theorem length_unindented_le (text : List Char) : (unindented text).length ≤ text.length :=
  (List.dropWhile_sublist _).length_le

/-- At the end of a line reading goes on with the next one. -/
theorem Resumes.runs_break {indent : ℤ} (h : p.Resumes text ts) (hc : c.rest = '\n' :: text)
    (hnext : Next indent text) (hkey : ∀ k ∈ k?, k.required = false ∧ k.line ≤ c.line) :
    (p.reading b c k?).Runs ts := by
  obtain ⟨c', hbehind, -, hsettle⟩ := settle?_break (p := p) (b := b) hc hnext hkey
  refine (h.runs hbehind past_none).congr hsettle ?_
  have := length_unindented_le text
  rw [cursor_reading, cursor_reading, hbehind.rest, hc, List.length_cons]
  omega

/-- A block is ended by a line that is indented less. -/
theorem Resumes.close {tokens : List Token} {i j : ℤ} {outer : List ℤ}
    (h : Resumes ⟨tokens ++ [.blockEnd], j, outer⟩ text ts) (hnext : Next j text) (hj : 0 ≤ j)
    (hij : j < i) : Resumes ⟨tokens, i, j :: outer⟩ text ts := by
  intro c k? hrest hcolumn hpast
  refine (h c k? hrest hcolumn hpast).congr ?_ le_rfl
  have hstarts : StartsToken c.rest := hrest ▸ hnext.startsToken
  have hle := hnext.indentation_le hj
  rw [settle?_token hstarts hpast, settle?_token hstarts hpast, closeBlocks_cons (by omega)]

/-- The outermost block is ended by the end of the text. -/
theorem resumes_nil (tokens : List Token) :
    Resumes ⟨tokens, 0, [-1]⟩ [] (tokens ++ [.blockEnd]) := by
  intro c k? hrest hcolumn hpast
  have hrest : c.rest = [] := hrest
  have hsettle : (reading ⟨tokens, 0, [-1]⟩ true c k?).settle? = _ :=
    settle?_token (by rw [hrest]; exact nofun) hpast
  rw [closeBlocks_reading (Int.natCast_nonneg _)] at hsettle
  refine .finish hsettle hrest ?_
  have hclose : (reading ⟨tokens, 0, [-1]⟩ true c none).closeBlocks (-1) =
      reading ⟨tokens ++ [.blockEnd], -1, []⟩ true c none := by
    rw [closeBlocks_cons (by decide)]
    rfl
  rw [Reading.finish?, hclose]
  rfl

/-- **A token is read**, and reading goes on behind it. -/
theorem runs_token {x : Char} {r : Reading} (hc : c.rest = x :: tail)
    (hx : StartsToken (x :: tail)) (hcolumn : p.indent ≤ c.column) (hpast : Past c k?)
    (hread : (p.reading b c none).readToken? x = some r)
    (hless : r.cursor.rest.length < c.rest.length) (hruns : r.Runs ts) :
    (p.reading b c k?).Runs ts := by
  have hsettle := settle?_token (p := p) (b := b) (hc ▸ hx) hpast
  rw [closeBlocks_reading hcolumn] at hsettle
  exact .step hsettle hc hread hless hruns

end Progress

end WaterNetwork.Yaml
