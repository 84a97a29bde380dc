import Mathlib.Data.List.DropRight
import WaterNetwork.Path

/-!
# Directories and joined paths

What joining paths and taking a directory do is said of texts, and what they are for is said of
steps. Between the two stand segments: a slash between two texts puts their segments one after the
other (`segments_append`), and so their steps (`steps_append`). Only what a path starts with is more
than its segments say, and whatever follows a slash does not change it (`Head.ofChars_append`).

* `components_join` — the steps of a joined path are those of both, one after the other.
* `exists_parent?` — the parent of a path lacks its last step.
* `components_directory` — the directory that holds a file has the steps of its path but the last.
-/

namespace WaterNetwork.Path

variable {path base dir : Path} {c : Char} {cs ds s : List Char} {body segs : List (List Char)}

/-! ### Segments -/

theorem segments_cons_slash (cs : List Char) : segments ('/' :: cs) = [] :: segments cs := by
  simp [segments]

/-- A character that is no slash belongs to the first segment. -/
theorem exists_segments_cons (hc : c ≠ '/') (cs : List Char) :
    ∃ s rest, segments cs = s :: rest ∧ segments (c :: cs) = (c :: s) :: rest := by
  obtain ⟨s, rest, hs⟩ := List.exists_cons_of_ne_nil (segments_ne_nil cs)
  exact ⟨s, rest, hs, by simp [segments, hc, hs]⟩

/-- A slash between two texts puts their segments one after the other. -/
theorem segments_append (cs ds : List Char) :
    segments (cs ++ '/' :: ds) = segments cs ++ segments ds := by
  induction cs with
  | nil => exact segments_cons_slash ds
  | cons c cs ih =>
    by_cases hc : c = '/'
    · subst hc
      rw [List.cons_append, segments_cons_slash, segments_cons_slash, ih, List.cons_append]
    · obtain ⟨s, rest, hs, hcs⟩ := exists_segments_cons hc cs
      obtain ⟨s', rest', hs', hcs'⟩ := exists_segments_cons hc (cs ++ '/' :: ds)
      rw [ih, hs, List.cons_append, List.cons.injEq] at hs'
      rw [List.cons_append, hcs, hcs', ← hs'.1, ← hs'.2, List.cons_append]

/-- There is no slash in a segment. -/
theorem slash_not_mem_of_mem_segments (hs : s ∈ segments cs) : '/' ∉ s := by
  induction cs generalizing s with
  | nil =>
    rw [List.mem_singleton.mp hs]
    exact List.not_mem_nil
  | cons c cs ih =>
    by_cases hc : c = '/'
    · subst hc
      rw [segments_cons_slash] at hs
      rcases List.mem_cons.mp hs with rfl | hs
      · exact List.not_mem_nil
      · exact ih hs
    · obtain ⟨first, rest, hfirst, hcs⟩ := exists_segments_cons hc cs
      rw [hfirst, List.forall_mem_cons] at ih
      rw [hcs] at hs
      rcases List.mem_cons.mp hs with rfl | hs
      · rw [List.mem_cons, not_or]
        exact ⟨Ne.symm hc, ih.1⟩
      · exact ih.2 s hs

theorem segments_of_slash_not_mem (hs : '/' ∉ s) : segments s = [s] := by
  induction s with
  | nil => rfl
  | cons c s ih =>
    rw [List.mem_cons, not_or] at hs
    obtain ⟨first, rest, hfirst, hcs⟩ := exists_segments_cons (Ne.symm hs.1) s
    rw [ih hs.2, List.cons.injEq] at hfirst
    rw [hcs, ← hfirst.1, ← hfirst.2]

theorem joinSegments_append (hbody : body ≠ []) (hsegs : segs ≠ []) :
    joinSegments (body ++ segs) = joinSegments body ++ '/' :: joinSegments segs := by
  induction body with
  | nil => exact absurd rfl hbody
  | cons s body ih =>
    cases body with
    | nil =>
      obtain ⟨t, rest, rfl⟩ := List.exists_cons_of_ne_nil hsegs
      rfl
    | cons t body =>
      have hcons := ih (List.cons_ne_nil t body)
      simp only [List.cons_append, joinSegments] at hcons ⊢
      rw [hcons, List.append_assoc, List.cons_append]

/-- Segments are found again in the text that puts slashes between them. -/
theorem segments_joinSegments (hne : segs ≠ []) (hfree : ∀ s ∈ segs, '/' ∉ s) :
    segments (joinSegments segs) = segs := by
  induction segs with
  | nil => exact absurd rfl hne
  | cons s segs ih =>
    rw [List.forall_mem_cons] at hfree
    cases segs with
    | nil => exact segments_of_slash_not_mem hfree.1
    | cons t segs =>
      have ht := List.cons_ne_nil t segs
      rw [← List.singleton_append, joinSegments_append (List.cons_ne_nil s []) ht,
        segments_append, ih ht hfree.2]
      exact congrArg (· ++ t :: segs) (segments_of_slash_not_mem hfree.1)

/-! ### Steps -/

/-- The steps that the segments of a text stand for. -/
def steps (cs : List Char) : List Component := (segments cs).filterMap Component.ofSegment?

@[simp] theorem steps_nil : steps [] = [] := rfl

theorem steps_append (cs ds : List Char) : steps (cs ++ '/' :: ds) = steps cs ++ steps ds := by
  rw [steps, segments_append, List.filterMap_append, steps, steps]

theorem steps_cons_slash (cs : List Char) : steps ('/' :: cs) = steps cs := steps_append [] cs

theorem steps_joinSegments (hfree : ∀ s ∈ segs, '/' ∉ s) :
    steps (joinSegments segs) = segs.filterMap Component.ofSegment? := by
  by_cases hne : segs = []
  · subst hne
    rfl
  · rw [steps, segments_joinSegments hne hfree]

/-! ### What a path starts with -/

/-- The head of a text: the root if it starts with a slash, the place where one stands if its first
segment of several, or its only one, is the dot. -/
def Head.ofChars (cs : List Char) : Head :=
  if cs.head? = some '/' then .root
  else if cs.head? = some '.' ∧ (cs.tail = [] ∨ cs.tail.head? = some '/') then .here
  else .nothing

/-- What follows a slash does not change the head. -/
theorem Head.ofChars_append (hcs : cs ≠ [])
    (hslash : cs.getLast? = some '/' ∨ ds.head? = some '/') :
    ofChars (cs ++ ds) = ofChars cs := by
  obtain ⟨c, cs, rfl⟩ := List.exists_cons_of_ne_nil hcs
  cases cs with
  | nil =>
    rcases hslash with hc | hds
    · obtain rfl : c = '/' := by simpa using hc
      rfl
    · simp [ofChars, hds]
  | cons d cs => simp [ofChars]

/-- **How a text is split**: it is that of the head and the segments, no segment has a slash, and
the segments stand for the steps of the text. -/
structure SplitsInto (cs : List Char) (head : Head) (body : List (List Char)) : Prop where
  head_eq : head = .ofChars cs
  chars_eq : cs = head.chars ++ joinSegments body
  slash_not_mem : ∀ s ∈ body, '/' ∉ s
  steps_eq : body.filterMap Component.ofSegment? = steps cs

theorem splitsInto_split (path : Path) :
    SplitsInto path.toList (split path).1 (split path).2 := by
  unfold split
  generalize path.toList = cs
  split
  case h_1 rest =>
    refine ⟨rfl, ?_, fun s => slash_not_mem_of_mem_segments, (steps_cons_slash rest).symm⟩
    rw [joinSegments_segments]
    rfl
  case h_2 => exact ⟨rfl, rfl, by simp, rfl⟩
  case h_3 rest =>
    refine ⟨rfl, ?_, fun s => slash_not_mem_of_mem_segments, ?_⟩
    · rw [joinSegments_segments]
      rfl
    · exact (steps_cons_slash rest).trans (steps_append ['.'] rest).symm
  case h_4 hroot hdot hhere =>
    -- neither a slash nor a dot segment comes first, so the head is nothing and all is segments
    refine ⟨?_, (joinSegments_segments cs).symm, fun s => slash_not_mem_of_mem_segments, rfl⟩
    rcases cs with _ | ⟨c, _ | ⟨d, cs⟩⟩
    · rfl
    · have hc : c ≠ '/' ∧ c ≠ '.' := ⟨fun h => hroot [] (by rw [h]), fun h => hdot (by rw [h])⟩
      simp [Head.ofChars, hc]
    · have hc : c ≠ '/' := fun h => hroot (d :: cs) (by rw [h])
      have hd : ¬ (c = '.' ∧ d = '/') := fun h => hhere cs (by rw [h.1, h.2])
      simp [Head.ofChars, hc, hd]

theorem components_eq (path : Path) :
    components path = (Head.ofChars path.toList).components ++ steps path.toList := by
  have h := splitsInto_split path
  rw [← h.head_eq, ← h.steps_eq]
  rfl

/-- A slash and what follows it add the steps of what follows. -/
theorem components_append_slash (hbase : base ≠ "") (cs : List Char) :
    components (String.ofList (base.toList ++ '/' :: cs)) = components base ++ steps cs := by
  have hne : base.toList ≠ [] := by simpa using hbase
  rw [components_eq, components_eq, String.toList_ofList, Head.ofChars_append hne (.inr rfl),
    steps_append, List.append_assoc]

/-! ### Joining -/

/-- **The steps of a joined path** are those of both, one after the other. -/
theorem components_join (hbase : base ≠ "") (hpath : isAbsolute path = false) :
    components (base.join path) = components base ++ steps path.toList := by
  have hne : base.toList ≠ [] := by simpa using hbase
  rw [join, if_neg (by simp [hpath, hbase])]
  split
  · rename_i hlast
    obtain ⟨before, hbefore⟩ := List.getLast?_eq_some_iff.mp hlast
    have hsteps : steps (base ++ path).toList = steps base.toList ++ steps path.toList := by
      rw [String.toList_append, hbefore, List.append_assoc, List.singleton_append, steps_append,
        steps_append, steps_nil, List.append_nil]
    rw [components_eq, components_eq, hsteps, String.toList_append,
      Head.ofChars_append hne (.inl hlast), List.append_assoc]
  · have htext : base ++ "/" ++ path = String.ofList (base.toList ++ '/' :: path.toList) :=
      String.toList_inj.mp (by simp)
    rw [htext, components_append_slash hbase]

/-- A rooted path stands for itself, wherever it is followed from. -/
theorem join_of_isAbsolute (h : isAbsolute path = true) (base : Path) : base.join path = path := by
  rw [join, if_pos (.inl h)]

theorem isAbsolute_eq_true_iff : isAbsolute path = true ↔ path.toList.head? = some '/' := by
  rw [isAbsolute, beq_iff_eq]

/-- A path made of names is not rooted, and has no steps but those of its segments. -/
theorem steps_of_components_eq_names {names : List String}
    (h : components path = names.map .name) :
    isAbsolute path = false ∧ steps path.toList = names.map .name := by
  rw [components_eq] at h
  have hnothing : Head.ofChars path.toList = .nothing := by
    cases hhead : Head.ofChars path.toList with
    | nothing => rfl
    | root | here =>
      rw [hhead] at h
      cases names <;> cases h
  rw [hnothing] at h
  refine ⟨Bool.eq_false_iff.mpr fun hroot => ?_, h⟩
  rw [Head.ofChars, if_pos (isAbsolute_eq_true_iff.mp hroot)] at hnothing
  cases hnothing

/-! ### The parent of a path -/

theorem ofSegment?_eq_none_iff : Component.ofSegment? s = none ↔ isBlank s = true := by
  unfold Component.ofSegment?
  split
  · simp_all
  · split <;> simp_all

theorem filterMap_blanks (h : ∀ s ∈ segs, isBlank s = true) :
    segs.filterMap Component.ofSegment? = [] :=
  List.filterMap_eq_nil_iff.mpr fun s hs => ofSegment?_eq_none_iff.mpr (h s hs)

theorem trimBlank_eq_rdropWhile (body : List (List Char)) :
    trimBlank body = body.rdropWhile isBlank := rfl

theorem exists_trimBlank_append (body : List (List Char)) :
    ∃ blanks, body = trimBlank body ++ blanks ∧ ∀ s ∈ blanks, isBlank s = true :=
  ⟨body.rtakeWhile isBlank, List.rdropWhile_append_rtakeWhile.symm,
    fun _ => List.mem_rtakeWhile_imp⟩

/-- What is left off of segments to leave off the last step is that step. -/
theorem exists_last_of_trimBlank {init : List (List Char)} (h : trimBlank body = init ++ [s]) :
    ∃ after last, body = trimBlank init ++ after ∧
      after.filterMap Component.ofSegment? = [last] := by
  obtain ⟨blanks, hblanks, hblank⟩ := exists_trimBlank_append init
  obtain ⟨blanks', hblanks', hblank'⟩ := exists_trimBlank_append body
  have hs : ¬ isBlank s = true := by
    have htrimmed := List.rdropWhile_idempotent isBlank body
    rw [← trimBlank_eq_rdropWhile body, h] at htrimmed
    simpa using List.rdropWhile_eq_self_iff.mp htrimmed
  obtain ⟨last, hlast⟩ := Option.ne_none_iff_exists'.mp (mt ofSegment?_eq_none_iff.mp hs)
  refine ⟨blanks ++ s :: blanks', last, ?_, ?_⟩
  · rw [← List.append_assoc, ← hblanks, hblanks', h]
    simp
  · rw [List.filterMap_append, filterMap_blanks hblank, List.filterMap_cons_some hlast,
      filterMap_blanks hblank', List.nil_append]

theorem filterMap_of_trimBlank_eq_nil (h : trimBlank body = []) :
    body.filterMap Component.ofSegment? = [] :=
  filterMap_blanks (List.rdropWhile_eq_nil_iff.mp h)

theorem parent?_of_trimBlank_eq_nil (h : trimBlank (split path).2 = []) :
    parent? path = match (split path).1 with
      | .here => some ""
      | _ => none := by
  rw [parent?]
  simp only [h]
  cases (split path).1 <;> rfl

theorem parent?_of_trimBlank_eq_concat {init : List (List Char)}
    (h : trimBlank (split path).2 = init ++ [s]) :
    parent? path =
      some (String.ofList ((split path).1.chars ++ joinSegments (trimBlank init))) := by
  have hne : init ++ [s] ≠ [] := by simp
  obtain ⟨first, rest, hcons⟩ := List.exists_cons_of_ne_nil hne
  rw [parent?]
  simp only [h]
  rw [hcons]
  simp only [← hcons, List.dropLast_concat]

/-- The head of a path and its first segments have their own steps, and those of the other segments
come after them. -/
theorem components_eq_append {head : Head} {front back : List (List Char)}
    (h : SplitsInto path.toList head body) (hbody : body = front ++ back) (hback : back ≠ []) :
    components path = components (String.ofList (head.chars ++ joinSegments front)) ++
      back.filterMap Component.ofSegment? := by
  subst hbody
  by_cases hfront : front = []
  · subst hfront
    rw [components_eq, ← h.head_eq, ← h.steps_eq]
    cases head <;> rfl
  · have hchars := h.chars_eq
    rw [joinSegments_append hfront hback, ← List.append_assoc] at hchars
    -- if it were empty, the path would start with a slash, and its head be the root, a slash itself
    have hne : String.ofList (head.chars ++ joinSegments front) ≠ "" := by
      intro hempty
      have hnil : head.chars ++ joinSegments front = [] := by simpa using hempty
      have hroot : head = .root := by
        rw [h.head_eq, hchars, hnil]
        rfl
      rw [hroot] at hnil
      cases hnil
    have hback' : ∀ s ∈ back, '/' ∉ s := fun s hs =>
      h.slash_not_mem s (List.mem_append_right _ hs)
    rw [← steps_joinSegments hback', ← components_append_slash hne, String.toList_ofList, ← hchars,
      String.ofList_toList]

/-- **The parent of a path** lacks its last step. -/
theorem exists_parent? {holder : List Component} {last : Component}
    (h : components path = holder ++ [last]) (hlast : last ≠ .root) :
    ∃ dir, parent? path = some dir ∧ components dir = holder := by
  have hsplits := splitsInto_split path
  rcases List.eq_nil_or_concat (trimBlank (split path).2) with hnil | ⟨init, s, hconcat⟩
  · rw [components_eq, ← hsplits.head_eq, ← hsplits.steps_eq,
      filterMap_of_trimBlank_eq_nil hnil, List.append_nil] at h
    rw [parent?_of_trimBlank_eq_nil hnil]
    cases hhead : (split path).1 with
    | root =>
      rw [hhead, Head.components, ← List.nil_append [_]] at h
      exact absurd (List.cons.inj (List.append_inj' h rfl).2).1.symm hlast
    | here =>
      rw [hhead, Head.components, ← List.nil_append [_]] at h
      exact ⟨"", rfl, (List.append_inj' h rfl).1⟩
    | nothing =>
      rw [hhead] at h
      simp [Head.components] at h
  · rw [List.concat_eq_append] at hconcat
    obtain ⟨after, last', hbody, hafter⟩ := exists_last_of_trimBlank hconcat
    have hback : after ≠ [] := by
      rintro rfl
      cases hafter
    refine ⟨_, parent?_of_trimBlank_eq_concat hconcat, ?_⟩
    rw [components_eq_append hsplits hbody hback, hafter] at h
    exact (List.append_inj' h rfl).1

/-! ### The directory that holds a file -/

theorem of_segments_eq_nil_cons {rest : List (List Char)} (h : segments cs = [] :: rest) :
    cs = [] ∨ cs.head? = some '/' := by
  cases cs with
  | nil => exact .inl rfl
  | cons c cs =>
    by_cases hc : c = '/'
    · exact .inr (by rw [hc, List.head?_cons])
    · obtain ⟨s, others, -, hcs⟩ := exists_segments_cons hc cs
      rw [hcs] at h
      cases h

/-- A text that has no step but starts with something starts with the root or the dot. -/
theorem ofChars_components_ne_nil (h : steps (c :: cs) = []) :
    (Head.ofChars (c :: cs)).components ≠ [] := by
  by_cases hc : c = '/'
  · rw [hc]
    exact List.cons_ne_nil _ _
  · obtain ⟨s, rest, hs, hcs⟩ := exists_segments_cons hc cs
    rw [steps, hcs, List.filterMap_eq_nil_iff, List.forall_mem_cons, ofSegment?_eq_none_iff] at h
    obtain ⟨rfl, rfl⟩ : c = '.' ∧ s = [] := by simpa [isBlank] using h.1
    have hhere : Head.ofChars ('.' :: cs) = .here := by
      rw [Head.ofChars, if_neg (by simp), if_pos ⟨rfl, of_segments_eq_nil_cons hs⟩]
    rw [hhere]
    exact List.cons_ne_nil _ _

/-- Only the empty path has no step. -/
theorem components_eq_nil_iff : components path = [] ↔ path = "" := by
  constructor
  · intro h
    rw [components_eq, List.append_eq_nil_iff] at h
    cases hcs : path.toList with
    | nil => simpa using hcs
    | cons c cs =>
      rw [hcs] at h
      exact absurd h.1 (ofChars_components_ne_nil h.2)
  · rintro rfl
    rfl

theorem directory_of_parent? (h : parent? path = some dir) :
    directory path = if dir = "" then "." else dir := by
  rw [directory, h]
  split <;> simp_all

/-- **The directory that holds a file** has the steps of its path but the last, and is the place
where one stands if there is no other step. -/
theorem components_directory {holder : List Component} {last : Component}
    (h : components path = holder ++ [last]) (hlast : last ≠ .root) :
    components (directory path) = if holder = [] then [.here] else holder := by
  obtain ⟨dir, hdir, rfl⟩ := exists_parent? h hlast
  rw [directory_of_parent? hdir]
  simp only [components_eq_nil_iff]
  split
  · rfl
  · rfl

theorem directory_ne_empty (path : Path) : directory path ≠ "" := by
  cases h : parent? path with
  | none =>
    rw [directory, h]
    decide
  | some dir =>
    rw [directory_of_parent? h]
    split
    · decide
    · assumption

end WaterNetwork.Path
