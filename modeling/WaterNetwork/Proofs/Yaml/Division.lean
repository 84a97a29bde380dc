import WaterNetwork.Proofs.Yaml.Written

/-!
# Written texts are divided into their tokens

A mapping begins where its first key is found, and ends where the text is indented less; everything
else is found where it stands. So how reading goes on behind a content decides how it goes on in
front of it.

* `Storable.readsValue`, `Storable.readsItem` — the tokens of a content are read from its text,
  wherever it stands.
* `ofText?_render` — the text of a mapping is divided into its tokens.
-/

namespace WaterNetwork.Yaml

open Yaml.Progress (Starts Resumes)

variable {p : Progress} {c : Content} {e : Content × Content} {es : List (Content × Content)}
  {item : Content} {items : List Content} {text : List Char} {ts : List Token} {n column : ℕ}

/-! ### Where lines stand -/

theorem Next.mono {i j : ℤ} (h : Next i text) (hij : i ≤ j) : Next j text := by
  cases h with
  | nil => exact .nil
  | line hk hblank hbreak hmark horder => exact .line (hk.trans hij) hblank hbreak hmark horder

/-- A token in front of a line. -/
theorem Next.of_startsToken {k : ℕ} {i : ℤ} {tail : List Char} (hk : k ≤ i) (hne : tail ≠ [])
    (h : StartsToken tail) : Next i (List.replicate k ' ' ++ tail) := by
  obtain ⟨x, xs, rfl⟩ := List.exists_cons_of_ne_nil hne
  obtain ⟨hblank, hbreak, hmark, horder⟩ := h x rfl
  exact .line hk hblank hbreak hmark horder

theorem Progress.Starts.resumes {k : ℕ} {tail : List Char} (h : p.Starts k tail ts)
    (hne : tail ≠ []) (hstarts : StartsToken tail) :
    p.Resumes (List.replicate k ' ' ++ tail) ts := by
  obtain ⟨x, xs, rfl⟩ := List.exists_cons_of_ne_nil hne
  have hblank := (hstarts x rfl).1
  rwa [Resumes, indentation_line hblank, unindented_line hblank]

@[simp] theorem Progress.add_nil (p : Progress) : p.add [] = p := by simp [Progress.add]

/-! ### Values, items and entries -/

/-- **The tokens of a content are read where it is the value of a key**, whatever comes next. -/
def ReadsValue (c : Content) : Prop :=
  ∀ (p : Progress) (n : ℕ) (text : List Char) (ts : List Token) (d : Cursor), p.indent = n →
    Next n text → d.rest = (valueText n c).toList ++ text → n < d.column →
    (p.add (contentTokens c)).Resumes text ts → (p.reading false d none).Runs ts

/-- **The tokens of a content are read where it is an item**, whatever comes next. -/
def ReadsItem (c : Content) : Prop :=
  ∀ (p : Progress) (n : ℕ) (text : List Char) (ts : List Token), p.indent = n → Next n text →
    StartsToken ((blockText (n + 2) c).toList ++ text) ∧
      ((p.add (contentTokens c)).Resumes text ts →
        p.Starts (n + 2) ((blockText (n + 2) c).toList ++ text) ts)

theorem blockText_of_isWritten (h : c.IsWritten) (n : ℕ) :
    blockText n c = endLine (scalarText n c) := by
  cases c with
  | signed | sequence | mapping => exact h.elim
  | _ => simp [blockText]

theorem valueText_of_isWritten (h : c.IsWritten) (n : ℕ) :
    valueText n c = endLine (" " ++ scalarText (n + 2) c) := by
  cases c with
  | signed | sequence | mapping => exact h.elim
  | _ => simp [valueText]

theorem readsItem_of_isWritten (h : c.IsWritten) : ReadsItem c := by
  intro p n text ts hindent hnext
  have hform := scalarForm_of_isWritten n h
  rw [blockText_of_isWritten h, contentTokens_of_isWritten h]
  refine ⟨hform.startsToken text, fun hruns d k? hrest hcolumn hpast => ?_⟩
  exact hform.runs hindent hrest (by omega) hnext hpast hruns

theorem readsValue_of_isWritten (h : c.IsWritten) : ReadsValue c := by
  intro p n text ts d hindent hnext hrest hcolumn hruns
  have hform := scalarForm_of_isWritten n h
  rw [valueText_of_isWritten h, toList_endLine_space, List.cons_append] at hrest
  rw [contentTokens_of_isWritten h] at hruns
  have hrest' := Cursor.rest_advance_one hrest
  refine (hform.runs hindent hrest' (Nat.lt_succ_of_lt hcolumn) hnext past_none hruns).congr
    (Progress.settle?_space hrest (hform.startsToken text)) ?_
  simp [hrest, hrest']

theorem readsValue_emptySequence : ReadsValue (.sequence []) := by
  intro p n text ts d hindent hnext hrest hcolumn hruns
  have hrest : d.rest = ' ' :: '[' :: ']' :: '\n' :: text := by
    rw [hrest, valueText, toList_endLine_space, scalarText, toList_endLine]
    · rfl
    · simp
    · simp
  have hrest' := Cursor.rest_advance_one hrest
  have hstarts : StartsToken ('[' :: ']' :: '\n' :: text) := by
    simp [StartsToken, isBlank, isBreak, byteOrderMark]
  rw [contentTokens] at hruns
  refine (Progress.runs_emptySequence hindent hrest' (Nat.lt_succ_of_lt hcolumn) hnext
    hruns).congr (Progress.settle?_space hrest hstarts) ?_
  simp [hrest, hrest']

/-! ### Entries -/

/-- An entry whose key can be found and whose value is read. -/
structure ReadsEntry (e : Content × Content) : Prop where
  key : ∃ key, e.1 = .string key ∧ IsKey key
  value : ReadsValue e.2

/-- The value of a key stands behind a space or on the next line. -/
theorem endsWord_valueText (n : ℕ) (c : Content) (text : List Char) :
    EndsWord ((valueText n c).toList ++ text) := by
  have hscalar (line : String) : EndsWord ((endLine (" " ++ line)).toList ++ text) := by
    rw [toList_endLine_space, List.cons_append, endsWord_cons]
    exact .inl rfl
  cases c with
  | sequence items =>
    cases items with
    | nil => rw [valueText]; exacts [hscalar _, by simp, by simp]
    | cons item items =>
      rw [toList_valueText_sequence, List.cons_append, endsWord_cons]
      exact .inr rfl
  | mapping entries =>
    cases entries with
    | nil => rw [valueText]; exacts [hscalar _, by simp, by simp]
    | cons e es =>
      rw [toList_valueText_mapping, List.cons_append, endsWord_cons]
      exact .inr rfl
  | _ => rw [valueText]; exacts [hscalar _, by simp, by simp]

theorem indent_keyAt (h : p.indent ≤ column) : (p.keyAt column).indent = column := by
  rw [Progress.keyAt]
  split
  · rfl
  · omega

/-- Reading settles in front of an entry. -/
theorem ReadsEntry.startsToken (h : ReadsEntry e) (n : ℕ) (text : List Char) :
    StartsToken ((entryText n e).toList ++ text) := by
  obtain ⟨key, value⟩ := e
  obtain ⟨key, rfl, hkey⟩ := h.key
  rw [entryText, hkey.keyText, String.append_assoc, String.toList_append, List.append_assoc]
  obtain ⟨x, xs, hxs⟩ := List.exists_cons_of_ne_nil hkey.isPlain.ne_nil
  have hplain := hkey.isPlain
  rw [hxs] at hplain ⊢
  exact hplain.startsToken _

theorem entryText_ne_nil (h : ReadsEntry e) (n : ℕ) : (entryText n e).toList ≠ [] := by
  obtain ⟨key, value⟩ := e
  rw [entryText, String.toList_append, String.toList_append]
  simp

/-- **An entry is read**: its key, and then its value. -/
theorem ReadsEntry.starts (h : ReadsEntry e) (hcolumn : p.indent ≤ column)
    (hnext : Next column text)
    (hruns : ((p.keyAt column).add (valueTokens e)).Resumes text ts) :
    p.Starts column ((entryText column e).toList ++ text) ts := by
  obtain ⟨key, value⟩ := e
  obtain ⟨key, rfl, hkey⟩ := h.key
  have htext : (entryText column (.string key, value)).toList ++ text =
      key.toList ++ ':' :: ((valueText column value).toList ++ text) := by
    rw [entryText, hkey.keyText]
    simp
  have htoken : scalarToken (.string key) = .scalar .plain (String.ofList key.toList) := by
    rw [scalarToken, hkey.form_ofText, String.ofList_toList]
    rfl
  rw [htext]
  refine Progress.Starts.key hkey.isPlain hkey.short hcolumn (endsWord_valueText _ _ _)
    fun d hrest hd => ?_
  refine h.value _ column text ts d ?_ hnext hrest hd ?_
  · rw [Progress.indent_add, indent_keyAt hcolumn]
  · rwa [Progress.add_add, ← htoken, ← valueTokens]

/-- Entries on lines of their own in a mapping that has begun. -/
theorem resumes_entryLines (h : ∀ e ∈ es, ReadsEntry e) (hindent : p.indent = column)
    (hnext : Next column text) (hruns : (p.add (entryTokens es)).Resumes text ts) :
    Next column (entryLines column es ++ text) ∧
      p.Resumes (entryLines column es ++ text) ts := by
  induction es generalizing p with
  | nil =>
    rw [entryTokens, Progress.add_nil] at hruns
    exact ⟨hnext, hruns⟩
  | cons e es ih =>
    rw [List.forall_mem_cons] at h
    rw [entryTokens, ← Progress.add_add] at hruns
    obtain ⟨hnext', hresumes⟩ := ih h.2 (p := p.add (valueTokens e)) hindent hruns
    have hkey : p.keyAt column = p := if_neg (by omega)
    have hstarts := h.1.startsToken column (entryLines column es ++ text)
    have hne : (entryText column e).toList ++ (entryLines column es ++ text) ≠ [] :=
      List.append_ne_nil_of_left_ne_nil (entryText_ne_nil h.1 column) _
    rw [entryLines, List.flatMap_cons, List.append_assoc, List.append_assoc, ← entryLines]
    refine ⟨.of_startsToken le_rfl hne hstarts, Progress.Starts.resumes ?_ hne hstarts⟩
    exact h.1.starts hindent.le hnext' (by rwa [hkey])

/-! ### Mappings -/

/-- **A mapping is read** up to where it ends: its first key begins it. -/
theorem starts_mapping (h : ∀ e' ∈ e :: es, ReadsEntry e') (hcolumn : p.indent < column)
    (hnext : Next column text)
    (hruns : ((p.enter column).add (entryTokens (e :: es))).Resumes text ts) :
    p.Starts column ((blockText column (.mapping (e :: es))).toList ++ text) ts := by
  rw [List.forall_mem_cons] at h
  rw [entryTokens, ← Progress.add_add] at hruns
  obtain ⟨hnext', hresumes⟩ := resumes_entryLines h.2 rfl hnext hruns
  have hkey : p.keyAt column = p.enter column := if_pos hcolumn
  rw [toList_blockText_mapping, List.append_assoc]
  exact h.1.starts hcolumn.le hnext' (by rwa [hkey])

/-- A mapping inside another block ends where the text is indented as that block. -/
theorem starts_innerMapping (h : ∀ e' ∈ e :: es, ReadsEntry e') (hindent : p.indent = n)
    (hcolumn : n < column) (hnext : Next n text)
    (hruns : (p.add (contentTokens (.mapping (e :: es)))).Resumes text ts) :
    p.Starts column ((blockText column (.mapping (e :: es))).toList ++ text) ts := by
  refine starts_mapping h (by omega) (hnext.mono (by omega)) ?_
  refine Progress.Resumes.close ?_ (hindent ▸ hnext) (by omega)
    (show p.indent < (column : ℤ) by omega)
  rw [contentTokens] at hruns
  simpa [Progress.add, Progress.enter] using hruns

theorem readsItem_mapping (h : ∀ e' ∈ e :: es, ReadsEntry e') : ReadsItem (.mapping (e :: es)) := by
  intro p n text ts hindent hnext
  refine ⟨?_, starts_innerMapping h hindent (by omega) hnext⟩
  rw [toList_blockText_mapping, List.append_assoc]
  exact (h e List.mem_cons_self).startsToken _ _

theorem readsValue_mapping (h : ∀ e' ∈ e :: es, ReadsEntry e') :
    ReadsValue (.mapping (e :: es)) := by
  intro p n text ts d hindent hnext hrest hcolumn hruns
  have hfirst := h e List.mem_cons_self
  have hstarts := hfirst.startsToken (n + 2) (entryLines (n + 2) es ++ text)
  have hne : (entryText (n + 2) e).toList ++ (entryLines (n + 2) es ++ text) ≠ [] :=
    List.append_ne_nil_of_left_ne_nil (entryText_ne_nil hfirst _) _
  have hblock := starts_innerMapping h hindent (show n < n + 2 by omega) hnext hruns
  rw [toList_blockText_mapping, List.append_assoc] at hblock
  rw [toList_valueText_mapping, entryLines, List.flatMap_cons, List.append_assoc, ← entryLines,
    List.cons_append, List.append_assoc, List.append_assoc] at hrest
  exact (hblock.resumes hne hstarts).runs_break hrest (.of_startsToken le_rfl hne hstarts)
    (by simp)

/-! ### Sequences -/

/-- Items on lines of their own. -/
theorem resumes_itemLines (h : ∀ item ∈ items, ReadsItem item) (hindent : p.indent = n)
    (hnext : Next n text) (hruns : (p.add (itemTokens items)).Resumes text ts) :
    Next n (itemLines n items ++ text) ∧ p.Resumes (itemLines n items ++ text) ts := by
  induction items generalizing p with
  | nil =>
    rw [itemTokens, Progress.add_nil] at hruns
    exact ⟨hnext, hruns⟩
  | cons item items ih =>
    rw [List.forall_mem_cons] at h
    rw [itemTokens, ← List.singleton_append, ← Progress.add_add, ← Progress.add_add] at hruns
    obtain ⟨hnext', hresumes⟩ := ih h.2 (p := (p.add [.blockEntry]).add (contentTokens item))
      hindent hruns
    obtain ⟨hstarts, hitem⟩ := h.1 (p.add [.blockEntry]) n (itemLines n items ++ text) ts hindent
      hnext'
    have hmark : StartsToken ('-' :: ' ' :: ((blockText (n + 2) item).toList ++
        (itemLines n items ++ text))) := by
      simp [StartsToken, isBlank, isBreak, byteOrderMark]
    rw [itemLines, List.flatMap_cons, List.append_assoc, List.append_assoc, ← itemLines,
      List.cons_append, List.cons_append]
    refine ⟨.of_startsToken le_rfl (List.cons_ne_nil _ _) hmark,
      Progress.Starts.resumes ?_ (List.cons_ne_nil _ _) hmark⟩
    exact Progress.Starts.item hindent hstarts (hitem hresumes)

theorem readsValue_sequence (h : ∀ c ∈ item :: items, ReadsItem c) :
    ReadsValue (.sequence (item :: items)) := by
  intro p n text ts d hindent hnext hrest hcolumn hruns
  rw [contentTokens] at hruns
  obtain ⟨hnext', hresumes⟩ := resumes_itemLines h hindent hnext hruns
  rw [toList_valueText_sequence, List.cons_append] at hrest
  exact hresumes.runs_break hrest hnext' (by simp)

/-! ### Storable contents -/

/-- **The tokens of a storable content are read**, wherever it stands. -/
theorem Storable.reads (h : Storable c) : ReadsValue c ∧ (IsItem c → ReadsItem c) := by
  induction h with
  | scalar h => exact ⟨readsValue_of_isWritten h, fun _ => readsItem_of_isWritten h⟩
  | emptySequence =>
    exact ⟨readsValue_emptySequence, fun h => (not_isItem_sequence h).elim⟩
  | sequence hne hitems hflat ih =>
    obtain ⟨item, items, rfl⟩ := List.exists_cons_of_ne_nil hne
    exact ⟨readsValue_sequence fun c hc => (ih c hc).2 (hflat c hc),
      fun h => (not_isItem_sequence h).elim⟩
  | mapping hne hkeys hvalues ih =>
    obtain ⟨e, es, rfl⟩ := List.exists_cons_of_ne_nil hne
    have hentries : ∀ e' ∈ e :: es, ReadsEntry e' := fun e' he => ⟨hkeys e' he, (ih e' he).1⟩
    exact ⟨readsValue_mapping hentries, fun _ => readsItem_mapping hentries⟩

/-! ### Characters -/

/-- Whether all of a text may stand in a document. -/
def AllAllowed (cs : List Char) : Prop := ∀ x ∈ cs, isAllowed x = true

theorem allAllowed_append {cs cs' : List Char} :
    AllAllowed (cs ++ cs') ↔ AllAllowed cs ∧ AllAllowed cs' := List.forall_mem_append

theorem isAllowed_of_isPrintable {x : Char} (h : isPrintable x = true) : isAllowed x = true := by
  simp only [isPrintable, Bool.and_eq_true] at h
  exact h.1.1.1.1

theorem allAllowed_of_isPrintable {cs : List Char} (h : ∀ x ∈ cs, isPrintable x = true) :
    AllAllowed cs := fun x hx => isAllowed_of_isPrintable (h x hx)

theorem allAllowed_indentLines {cs : List Char} (h : AllAllowed cs) (n : ℕ) (atStart : Bool) :
    AllAllowed (indentLines n atStart cs) := by
  intro x hx
  rcases mem_indentLines n hx with hx | rfl
  · exact h x hx
  · decide

theorem allAllowed_lineEnd (cs : List Char) : AllAllowed (lineEnd cs) := by
  rw [lineEnd]
  split
  · exact List.forall_mem_nil _
  · exact List.forall_mem_singleton.mpr (by decide)

/-- Characters that need it are escaped by others that may stand in a document. -/
theorem allAllowed_escape (x : Char) : AllAllowed (escape x) := by
  have hhex (k m : ℕ) : AllAllowed (Number.hexDigits k m) := by
    have hdigit : ∀ d < 16, isAllowed (Nat.digitChar d).toUpper = true := by decide
    induction k generalizing m with
    | zero => exact List.forall_mem_nil _
    | succ k ih =>
      rw [Number.hexDigits, allAllowed_append]
      exact ⟨ih _, List.forall_mem_singleton.mpr (hdigit _ (Nat.mod_lt m (by decide)))⟩
  have hmark {letter : Char} {cs : List Char} (hletter : isAllowed letter = true)
      (hcs : AllAllowed cs) : AllAllowed ('\\' :: letter :: cs) :=
    List.forall_mem_cons.mpr ⟨by decide, List.forall_mem_cons.mpr ⟨hletter, hcs⟩⟩
  rw [escape]
  split
  · rename_i h
    simp only [Bool.and_eq_true] at h
    exact List.forall_mem_singleton.mpr (isAllowed_of_isPrintable h.1.1.1)
  · split
    · rename_i letter y hfind
      have hletters : ∀ e ∈ escapes, isAllowed e.1 = true := by decide
      have hletter : isAllowed letter = true :=
        hletters (letter, y) (List.mem_of_find?_eq_some hfind)
      exact hmark hletter (List.forall_mem_nil _)
    · dsimp only
      split
      · exact hmark (by decide) (hhex _ _)
      · split <;> exact hmark (by decide) (hhex _ _)

theorem allAllowed_blockMarks (cs : List Char) : AllAllowed (blockMarks cs) := by
  have hmark {x : Char} (hx : isAllowed x = true) : AllAllowed [x] :=
    List.forall_mem_singleton.mpr hx
  rw [blockMarks]
  refine allAllowed_append.mpr ⟨?_, ?_⟩
  · split
    · exact hmark (by decide)
    · exact List.forall_mem_nil _
  · split
    · exact hmark (by decide)
    · split <;> exact hmark (by decide)
    · split
      · exact hmark (by decide)
      · split
        · exact hmark (by decide)
        · exact List.forall_mem_nil _

theorem ScalarForm.allAllowed {token : Token} {line : List Char} (h : ScalarForm n token line) :
    AllAllowed line := by
  have hbreak : AllAllowed ['\n'] := List.forall_mem_singleton.mpr (by decide)
  cases h with
  | plain h =>
    exact allAllowed_append.mpr ⟨allAllowed_of_isPrintable fun x hx => (h.printable x hx).1, hbreak⟩
  | singleQuoted h =>
    simp only [allowsSingleQuotes, Bool.and_eq_true, List.all_eq_true] at h
    refine allAllowed_append.mpr ⟨List.forall_mem_cons.mpr ⟨by decide, ?_⟩, hbreak⟩
    refine allAllowed_indentLines (allAllowed_append.mpr ⟨fun x hx => ?_, ?_⟩) _ _
    · obtain ⟨y, hy, hx⟩ := List.mem_flatMap.mp hx
      rw [doubledQuote] at hx
      split at hx
      · obtain rfl : x = '\'' := by simpa using hx
        decide
      · obtain rfl := List.mem_singleton.mp hx
        exact isAllowed_of_isPrintable (h.1.1 x hy)
    · exact List.forall_mem_singleton.mpr (by decide)
  | doubleQuoted =>
    refine allAllowed_append.mpr ⟨allAllowed_append.mpr ⟨List.forall_mem_cons.mpr ⟨by decide, ?_⟩,
      List.forall_mem_singleton.mpr (by decide)⟩, hbreak⟩
    intro x hx
    obtain ⟨y, -, hx⟩ := List.mem_flatMap.mp hx
    exact allAllowed_escape y x hx
  | @block text h hne =>
    simp only [allowsBlock, Bool.and_eq_true, List.all_eq_true] at h
    refine allAllowed_append.mpr ⟨allAllowed_append.mpr ⟨List.forall_mem_cons.mpr ⟨by decide, ?_⟩,
      List.forall_mem_cons.mpr ⟨by decide, ?_⟩⟩, allAllowed_lineEnd _⟩
    · exact allAllowed_blockMarks _
    · exact allAllowed_indentLines (allAllowed_of_isPrintable h.1.1) _ _

theorem allAllowed_replicate (n : ℕ) : AllAllowed (List.replicate n ' ') := fun x hx => by
  rw [List.eq_of_mem_replicate hx]
  decide

/-- An entry whose value is written with characters that may stand in a document. -/
structure AllowedEntry (n : ℕ) (e : Content × Content) : Prop where
  key : ∃ key, e.1 = .string key ∧ IsKey key
  value : AllAllowed (valueText n e.2).toList

theorem AllowedEntry.entryText (h : AllowedEntry n e) : AllAllowed (entryText n e).toList := by
  obtain ⟨key, value⟩ := e
  obtain ⟨key, rfl, hkey⟩ := h.key
  rw [Yaml.entryText, hkey.keyText, String.toList_append, String.toList_append, allAllowed_append,
    allAllowed_append]
  exact ⟨⟨allAllowed_of_isPrintable fun x hx => (hkey.isPlain.printable x hx).1,
    List.forall_mem_singleton.mpr (by decide)⟩, h.value⟩

theorem allAllowed_entryLines (h : ∀ e ∈ es, AllowedEntry n e) : AllAllowed (entryLines n es) := by
  intro x hx
  obtain ⟨e, he, hx⟩ := List.mem_flatMap.mp hx
  exact allAllowed_append.mpr ⟨allAllowed_replicate n, (h e he).entryText⟩ x hx

theorem allAllowed_mapping (h : ∀ e' ∈ e :: es, AllowedEntry n e') :
    AllAllowed (blockText n (.mapping (e :: es))).toList := by
  rw [List.forall_mem_cons] at h
  rw [toList_blockText_mapping, allAllowed_append]
  exact ⟨h.1.entryText, allAllowed_entryLines h.2⟩

/-- **All of what is written for a storable content may stand in a document.** -/
theorem Storable.allAllowed (h : Storable c) :
    ∀ n, AllAllowed (valueText n c).toList ∧
      (IsItem c → AllAllowed (blockText (n + 2) c).toList) := by
  have hbreak : isAllowed '\n' = true := by decide
  have hspace : isAllowed ' ' = true := by decide
  induction h with
  | @scalar c h =>
    intro n
    have hform := (scalarForm_of_isWritten n h).allAllowed
    rw [valueText_of_isWritten h, blockText_of_isWritten h, toList_endLine_space]
    exact ⟨List.forall_mem_cons.mpr ⟨hspace, hform⟩, fun _ => hform⟩
  | emptySequence =>
    refine fun n => ⟨?_, fun h => (not_isItem_sequence h).elim⟩
    rw [valueText, toList_endLine_space, scalarText, toList_endLine]
    exacts [List.all_eq_true.mp (by decide), by simp, by simp]
  | sequence hne hitems hflat ih =>
    obtain ⟨item, items, rfl⟩ := List.exists_cons_of_ne_nil hne
    refine fun n => ⟨?_, fun h => (not_isItem_sequence h).elim⟩
    rw [toList_valueText_sequence]
    refine List.forall_mem_cons.mpr ⟨hbreak, fun x hx => ?_⟩
    obtain ⟨c, hc, hx⟩ := List.mem_flatMap.mp hx
    exact allAllowed_append.mpr ⟨allAllowed_replicate n, List.forall_mem_cons.mpr ⟨by decide,
      List.forall_mem_cons.mpr ⟨hspace, (ih c hc n).2 (hflat c hc)⟩⟩⟩ x hx
  | mapping hne hkeys hvalues ih =>
    obtain ⟨e, es, rfl⟩ := List.exists_cons_of_ne_nil hne
    have hentries (n : ℕ) : ∀ e' ∈ e :: es, AllowedEntry n e' := fun e' he =>
      ⟨hkeys e' he, (ih e' he n).1⟩
    refine fun n => ⟨?_, fun _ => allAllowed_mapping (hentries _)⟩
    rw [toList_valueText_mapping]
    exact List.forall_mem_cons.mpr ⟨hbreak, allAllowed_entryLines (hentries _)⟩

/-! ### Texts -/

/-- **The text of a mapping is divided into its tokens.** -/
theorem ofText?_render (h : Storable (.mapping es)) :
    Token.ofText? (render (.mapping es)) = some (contentTokens (.mapping es)) := by
  cases h with
  | scalar h => exact h.elim
  | mapping hne hkeys hvalues =>
    obtain ⟨e, es, rfl⟩ := List.exists_cons_of_ne_nil hne
    have hallowed : (render (.mapping (e :: es))).toList.all isAllowed = true :=
      List.all_eq_true.mpr (allAllowed_mapping fun e' he =>
        ⟨hkeys e' he, ((hvalues e' he).allAllowed 0).1⟩)
    have hstarts := starts_mapping (p := ⟨[], -1, []⟩)
      (fun e' he => ⟨hkeys e' he, (hvalues e' he).reads.1⟩) (show (-1 : ℤ) < (0 : ℕ) by decide) .nil
      (Progress.resumes_nil _)
    have hruns := hstarts { rest := (render (.mapping (e :: es))).toList } none
      (List.append_nil _).symm rfl past_none
    have hrun := hruns.run? (Nat.lt_succ_self _)
    rw [Token.ofText?]
    simp only [hallowed, if_true]
    refine (congrArg (Option.map Array.toList) hrun).trans ?_
    simp [contentTokens, Progress.enter]

end WaterNetwork.Yaml
