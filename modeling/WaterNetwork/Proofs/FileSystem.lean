import Mathlib.Data.List.TakeWhile
import WaterNetwork.FileSystem

/-!
# Files that have been written

What is written where a path leads is read where it leads, as long as something plain can stand
there. A file that is put into a file system changes no directory, so every step of a path that
could be taken before can be taken after; the path leads to where it was written.

* `readText_of_writeText` — what is read after writing is what was written, or nothing if there
  is a device.
* `exists_writeText` — in a rooted file system, a text can be written where a path is writable,
  and is read back.
-/

namespace WaterNetwork

open WaterNetwork.Path (Component)

namespace FileSystem

variable {fs fs' : FileSystem} {path : Path} {place place' p q holder : List String}
  {e : FileEntry} {segment : List Char} {segments followed blanks : List (List Char)}

/-! ### Entries -/

theorem lookup_filter_ne (entries : List (List String × FileEntry)) (place q : List String) :
    (entries.filter (·.1 != place)).lookup q = if q = place then none else entries.lookup q := by
  induction entries with
  | nil => simp
  | cons e entries ih =>
    obtain ⟨there, e⟩ := e
    by_cases hthere : there = place
    · rw [List.filter_cons_of_neg (by simpa using hthere), ih]
      split
      · rfl
      · rename_i hq
        rw [List.lookup_cons, beq_false_of_ne (hthere ▸ hq)]
    · rw [List.filter_cons_of_pos (by simpa using hthere), List.lookup_cons, List.lookup_cons, ih]
      by_cases hq : q = there
      · subst hq
        simp [hthere]
      · rw [beq_false_of_ne hq]

theorem entry?_put (fs : FileSystem) (place q : List String) (e : FileEntry) :
    FileSystem.entry? (fs.put place e) q = if q = place then some e else fs.entry? q := by
  rw [FileSystem.entry?, put, List.lookup_append, lookup_filter_ne]
  split
  · rename_i hq
    rw [Option.none_or, List.lookup_cons, hq, beq_self_eq_true]
  · rename_i hq
    rw [List.lookup_cons, beq_false_of_ne hq, List.lookup_nil, Option.or_none, FileSystem.entry?]

theorem entry?_put_self (fs : FileSystem) (place : List String) (e : FileEntry) :
    FileSystem.entry? (fs.put place e) place = some e := by
  rw [entry?_put, if_pos rfl]

/-- A place is free for a file if nothing but a file stands there. -/
def Free (fs : FileSystem) (place : List String) : Prop :=
  ∀ e, fs.entry? place = some e → ∃ bytes, e = .file bytes

/-- A place holds others if there is a directory, whether it may be entered or not. -/
def Holds (fs : FileSystem) (place : List String) : Prop :=
  fs.entry? place = some .directory ∨ fs.entry? place = some .closed

theorem Holds.not_free (h : fs.Holds place) : ¬ fs.Free place := by
  intro hfree
  rcases h with h | h <;> obtain ⟨bytes, ⟨⟩⟩ := hfree _ h

/-- A file that is put where nothing but a file stands is put in the stead of nothing else. -/
theorem entry?_put_of_ne_file (hfree : fs.Free place) (bytes : ByteArray)
    (hp : fs.entry? p = some e) (he : ∀ bytes, e ≠ .file bytes) :
    FileSystem.entry? (fs.put place (.file bytes)) p = some e := by
  have hne : p ≠ place := by
    rintro rfl
    obtain ⟨bytes', rfl⟩ := hfree e hp
    exact he bytes' rfl
  rw [entry?_put, if_neg hne, hp]

/-- **Rooted file systems**: the root is a directory, and what stands in a file system stands in
a directory. -/
structure Rooted (fs : FileSystem) : Prop where
  root : fs.Holds []
  holder : ∀ place, (fs.entry? place).isSome → fs.Holds place.dropLast

/-- A file system is rooted if the root is a directory and each entry stands in one. -/
theorem rooted_of_entries (hroot : fs.Holds []) (h : ∀ e ∈ fs.entries, fs.Holds e.1.dropLast) :
    fs.Rooted where
  root := hroot
  holder place hplace := by
    obtain ⟨e, he⟩ := Option.isSome_iff_exists.mp hplace
    obtain ⟨before, after, hentries, -⟩ := List.lookup_eq_some_iff.mp he
    exact h (place, e) (by rw [hentries]; simp)

theorem rooted_scratch : scratch.Rooted := by
  refine rooted_of_entries (.inl rfl) ?_
  simp only [scratch, List.forall_mem_cons]
  exact ⟨.inl rfl, .inl rfl, .inl rfl, .inl rfl, .inl rfl, .inl rfl, nofun⟩

/-! ### Steps -/

/-- A step is taken from a directory that may be entered, or it is none. -/
theorem entry?_of_step (h : fs.step p segment = .ok q) : fs.entry? p = some .directory ∨
    fs.entry? p = some .closed ∧ segment = [] ∧ q = p := by
  unfold step at h
  split at h
  · cases h
  · cases h
  · cases h
  · cases h
  · rename_i hp
    split at h
    · cases h
      exact .inr ⟨hp, ‹_›, rfl⟩
    · cases h
  · exact .inl ‹_›

/-- A step from a directory goes by the segment only. -/
theorem step_of_directory (h : fs.entry? p = some .directory) (segment : List Char) :
    fs.step p segment = match Component.ofSegment? segment with
      | some .above => .ok p.dropLast
      | some (.name name) =>
        if name.utf8ByteSize > 255 then .error .nameTooLong
        else if (fs.entry? (p ++ [name])).isSome then .ok (p ++ [name])
        else .error .notFound
      | _ => .ok p := by
  unfold step
  exact h ▸ rfl

theorem step_nil_eq_ok_iff : fs.step p [] = .ok q ↔ fs.Holds p ∧ q = p := by
  constructor
  · intro h
    rcases entry?_of_step h with hp | ⟨hp, -, rfl⟩
    · rw [step_of_directory hp] at h
      exact ⟨.inl hp, (Except.ok.inj h).symm⟩
    · exact ⟨.inr hp, rfl⟩
  · rintro ⟨hp | hp, rfl⟩
    · rw [step_of_directory hp]
      rfl
    · rw [step, hp]
      rfl

/-- **Extension**: every step that can be taken in one file system can be taken in another, and a
directory that may be entered in one may be entered in the other. -/
structure Extends (fs fs' : FileSystem) : Prop where
  current : fs'.current = fs.current
  directory : ∀ {p}, fs.entry? p = some .directory → fs'.entry? p = some .directory
  step : ∀ {p segment q}, fs.step p segment = .ok q → fs'.step p segment = .ok q

theorem Extends.refl (fs : FileSystem) : fs.Extends fs := ⟨rfl, id, id⟩

/-- A file that is put where nothing but a file stands changes no step. -/
theorem extends_put (hfree : fs.Free place) (bytes : ByteArray) :
    fs.Extends (fs.put place (.file bytes)) := by
  have hdirectory {p : List String} (hp : fs.entry? p = some .directory) :
      FileSystem.entry? (fs.put place (.file bytes)) p = some .directory :=
    entry?_put_of_ne_file hfree bytes hp nofun
  refine ⟨rfl, hdirectory, fun {p segment q} h => ?_⟩
  rcases entry?_of_step h with hp | ⟨hp, rfl, rfl⟩
  · rw [step_of_directory hp] at h
    rw [step_of_directory (hdirectory hp)]
    -- Only a step to a name looks at an entry, and all entries are still there.
    revert h
    split
    · exact id
    · rename_i name _
      split
      · nofun
      · split
        · rename_i hsome
          rw [entry?_put, if_pos (by split <;> simp [hsome])]
          exact id
        · nofun
    · exact id
  · exact step_nil_eq_ok_iff.mpr ⟨.inr (entry?_put_of_ne_file hfree bytes hp nofun), rfl⟩

theorem exists_step_of_foldlM_cons (h : (segment :: segments).foldlM fs.step p = .ok q) :
    ∃ q', fs.step p segment = .ok q' ∧ segments.foldlM fs.step q' = .ok q := by
  rw [List.foldlM_cons] at h
  cases hstep : fs.step p segment with
  | error fault =>
    rw [hstep] at h
    cases h
  | ok q' =>
    rw [hstep] at h
    exact ⟨q', rfl, h⟩

theorem Extends.foldlM_step (h : fs.Extends fs') (hsteps : segments.foldlM fs.step p = .ok q) :
    segments.foldlM fs'.step p = .ok q := by
  induction segments generalizing p with
  | nil => exact hsteps
  | cons segment segments ih =>
    obtain ⟨q', hstep, hsteps⟩ := exists_step_of_foldlM_cons hsteps
    rw [List.foldlM_cons, h.step hstep]
    exact ih hsteps

/-- Slashes behind a place lead nowhere else. -/
theorem foldlM_step_blanks (hblanks : ∀ s ∈ blanks, s = [])
    (h : blanks.foldlM fs.step p = .ok q) : q = p := by
  induction blanks with
  | nil => exact (Except.ok.inj h).symm
  | cons s blanks ih =>
    rw [List.forall_mem_cons] at hblanks
    obtain ⟨rfl, hblanks⟩ := hblanks
    obtain ⟨q', hstep, hrest⟩ := exists_step_of_foldlM_cons h
    obtain ⟨-, rfl⟩ := step_nil_eq_ok_iff.mp hstep
    exact ih hblanks hrest

/-! ### Paths for writing -/

/-- **How a path for writing ends**: after segments that are followed, it stays where it starts
or ends with the name of a file or with a step that can be taken. -/
inductive Leads (fs : FileSystem) (p : List String) :
    List (List Char) → List (List Char) → List String → Prop where
  | start {blanks : List (List Char)} : Leads fs p [] blanks p
  | name {before : List (List Char)} {last : List Char} {holder : List String} {name : String}
    (hbefore : before.foldlM fs.step p = .ok holder)
    (hlast : Component.ofSegment? last = some (.name name))
    (hholder : fs.entry? holder = some .directory) (hsize : name.utf8ByteSize ≤ 255) :
    Leads fs p (before ++ [last]) [] (holder ++ [name])
  | step {before blanks : List (List Char)} {last : List Char} {holder place : List String}
    (hbefore : before.foldlM fs.step p = .ok holder)
    (hlast : ∀ name, Component.ofSegment? last ≠ some (.name name))
    (hstep : fs.step holder last = .ok place) : Leads fs p (before ++ [last]) blanks place

/-- The segments of a path are those up to the last one that is not empty, then empty ones. -/
theorem eq_append_blanks (segments : List (List Char)) :
    segments = (segments.reverse.dropWhile (· = [])).reverse ++
      (segments.reverse.takeWhile (· = [])).reverse := by
  rw [← List.reverse_append, List.takeWhile_append_dropWhile, List.reverse_reverse]

theorem eq_nil_of_mem_blanks {s : List Char}
    (hs : s ∈ (segments.reverse.takeWhile (· = [])).reverse) : s = [] := by
  simpa using List.mem_takeWhile_imp (List.mem_reverse.mp hs)

theorem takeWhile_reverse_of_getLast? (h : segments.getLast? ≠ some []) :
    segments.reverse.takeWhile (· = []) = [] := by
  rw [← List.head?_reverse] at h
  cases hrev : segments.reverse with
  | nil => rfl
  | cons s rest =>
    rw [List.takeWhile_cons_of_neg]
    rintro hs
    exact h (by rw [hrev, List.head?_cons, of_decide_eq_true hs])

theorem leads_of_locateForWriting (h : fs.locateForWriting path = .ok place) :
    checkPath path = .ok () ∧ ∃ followed blanks, (fs.start path).2 = followed ++ blanks ∧
      (∀ s ∈ blanks, s = []) ∧ fs.Leads (fs.start path).1 followed blanks place := by
  unfold locateForWriting at h
  cases hcheck : checkPath path with
  | error fault =>
    rw [hcheck] at h
    cases h
  | ok u =>
  rw [hcheck] at h
  generalize fs.start path = started at h ⊢
  obtain ⟨p, segments⟩ := started
  refine ⟨rfl, _, _, eq_append_blanks segments, fun _ => eq_nil_of_mem_blanks, ?_⟩
  simp only [bind, Except.bind] at h
  split at h
  · rename_i hended
    cases h
    rw [hended]
    exact .start
  · rename_i last before hended
    rw [hended, List.reverse_cons]
    split at h
    · cases h
    rename_i holder hbefore
    split at h
    · rename_i name hlast
      split at h
      · rename_i hholder
        split at h
        · cases h
        rename_i hslashed
        split at h
        · cases h
        rename_i hsize
        cases h
        -- A name with a slash behind it has been refused.
        rw [takeWhile_reverse_of_getLast? hslashed]
        exact .name hbefore hlast hholder (by omega)
      · cases h
      · cases h
      · cases h
      · cases h
      · cases h
    · rename_i hlast
      exact .step hbefore hlast h

/-- A path for writing is followed to its end in a file system where that end exists. -/
theorem Leads.foldlM_step (h : fs.Leads p followed blanks place) (hextends : fs.Extends fs')
    (hplace : (fs'.entry? place).isSome) : followed.foldlM fs'.step p = .ok place := by
  cases h with
  | start => rfl
  | @name before last holder name hbefore hlast hholder hsize =>
    have hstep : fs'.step holder last = .ok (holder ++ [name]) := by
      rw [step_of_directory (hextends.directory hholder), hlast]
      simp only
      rw [if_neg (by omega), if_pos hplace]
    rw [List.foldlM_append, hextends.foldlM_step hbefore]
    exact congrArg (· >>= pure) hstep
  | @step before _ last holder _ hbefore hlast hstep =>
    rw [List.foldlM_append, hextends.foldlM_step hbefore]
    exact congrArg (· >>= pure) (hextends.step hstep)

/-- Where a path for writing leads when it is followed in an extended file system. -/
theorem Leads.locate (h : fs.Leads (fs.start path).1 followed blanks place)
    (hcheck : checkPath path = .ok ()) (hsegments : (fs.start path).2 = followed ++ blanks)
    (hextends : fs.Extends fs') (hplace : (fs'.entry? place).isSome) :
    fs'.locate path = blanks.foldlM fs'.step place := by
  have hstart : fs'.start path = fs.start path := by
    rw [FileSystem.start, hextends.current, FileSystem.start]
  have hfollowed := h.foldlM_step hextends hplace
  rw [FileSystem.locate, hcheck, hstart]
  show (fs.start path).2.foldlM fs'.step (fs.start path).1 = _
  rw [hsegments, List.foldlM_append, hfollowed]
  rfl

/-- A path that has been written to leads there, if it leads anywhere. -/
theorem eq_of_locate (h : fs.locateForWriting path = .ok place) (hextends : fs.Extends fs')
    (hplace : (fs'.entry? place).isSome) (hlocate : fs'.locate path = .ok place') :
    place' = place := by
  obtain ⟨hcheck, followed, blanks, hsegments, hblanks, hleads⟩ := leads_of_locateForWriting h
  rw [hleads.locate hcheck hsegments hextends hplace] at hlocate
  exact foldlM_step_blanks hblanks hlocate

/-! ### Writing and reading -/

/-- What a successful write does: nothing if there is a device, and it puts a file otherwise. -/
theorem writeBytes_eq_ok_iff {bytes : ByteArray} : fs.writeBytes path bytes = .ok fs' ↔
    ∃ place, fs.locateForWriting path = .ok place ∧
      (fs.entry? place = some .device ∧ fs' = fs ∨
        fs.Free place ∧ fs' = fs.put place (.file bytes)) := by
  unfold writeBytes
  cases hplace : fs.locateForWriting path with
  | error fault => exact ⟨nofun, nofun⟩
  | ok place =>
    simp only [bind, Except.bind, Except.ok.injEq, exists_eq_left', Free]
    cases hentry : fs.entry? place with
    | none => simp [pure, Except.pure, eq_comm]
    | some e => cases e <;> simp [pure, Except.pure, eq_comm]

theorem readText_file {text : String} (h : fs.locate path = .ok place)
    (he : fs.entry? place = some (.file text.toUTF8)) : fs.readText path = .ok text := by
  have hutf8 : String.fromUTF8? text.toUTF8 = some text := by
    rw [String.fromUTF8?, dif_pos (show text.toUTF8.IsValidUTF8 from text.isValidUTF8)]
    rfl
  rw [readText, readBytes, inspect, h]
  simp only [bind, Except.bind, he, hutf8]

theorem readText_device (h : fs.locate path = .ok place)
    (he : fs.entry? place = some .device) : fs.readText path = .ok "" := by
  rw [readText, readBytes, inspect, h]
  simp only [bind, Except.bind, he]
  rfl

/-- **What is read after writing** is what was written, or nothing if there is a device. -/
theorem readText_of_writeText {text text' : String} (h : fs.writeText path text = .ok fs')
    (h' : fs'.readText path = .ok text') : text' = text ∨ text' = "" := by
  obtain ⟨place', hlocate'⟩ : ∃ place', fs'.locate path = .ok place' := by
    cases hlocate' : fs'.locate path with
    | ok place' => exact ⟨place', rfl⟩
    | error fault =>
      rw [readText, readBytes, inspect, hlocate'] at h'
      cases h'
  obtain ⟨place, hplace, ⟨hdevice, rfl⟩ | ⟨hfree, rfl⟩⟩ := writeBytes_eq_ok_iff.mp h
  · obtain rfl := eq_of_locate hplace (.refl _) (by rw [hdevice]; rfl) hlocate'
    exact .inr (Except.ok.inj (h'.symm.trans (readText_device hlocate' hdevice)))
  · have hfile := fs.entry?_put_self place (.file text.toUTF8)
    obtain rfl := eq_of_locate hplace (extends_put hfree _) (by rw [hfile]; rfl) hlocate'
    exact .inl (Except.ok.inj (h'.symm.trans (readText_file hlocate' hfile)))

/-! ### Writable paths -/

/-- **A path is writable** if it leads to a place that is free for a file. -/
def Writable (fs : FileSystem) (path : Path) : Prop :=
  ∃ place, fs.locateForWriting path = .ok place ∧ fs.Free place

theorem writable_of_entry?_eq_none (place : List String)
    (h : fs.locateForWriting path = .ok place) (hnone : fs.entry? place = none) :
    fs.Writable path :=
  ⟨place, h, fun _ he => absurd (hnone.symm.trans he) nofun⟩

theorem writable_scratch : scratch.Writable "model.json" :=
  writable_of_entry?_eq_none ["work", "run", "model", "model.json"] rfl rfl

theorem exists_mem_segments {c : Char} (hc : c ≠ '/') (cs : List Char) :
    ∃ segment, c :: segment ∈ Path.segments (c :: cs) := by
  rw [Path.segments, if_neg hc]
  split
  · exact ⟨[], List.mem_cons_self⟩
  · exact ⟨_, List.mem_cons_self⟩

/-- A path that goes nowhere from where it starts starts at the root. -/
theorem start_fst_eq_nil (hcheck : checkPath path = .ok ())
    (hblank : ∀ s ∈ (fs.start path).2, s = []) : (fs.start path).1 = [] := by
  unfold start at hblank ⊢
  split
  · rfl
  · rename_i hslash
    cases hpath : path.toList with
    | nil =>
      obtain rfl : path = "" := String.toList_inj.mp hpath
      cases hcheck
    | cons c cs =>
      rw [hpath] at hslash hblank
      have hc : c ≠ '/' := fun hc => hslash cs (hc ▸ rfl)
      obtain ⟨segment, hsegment⟩ := exists_mem_segments hc cs
      split at hblank
      · exact (hc (List.cons.inj ‹_›).1).elim
      · exact (List.cons_ne_nil _ _ (hblank _ hsegment)).elim

/-- In a rooted file system, a path to a place that is free for a file ends with the name of
that file. -/
theorem Leads.of_free (h : fs.Leads p followed blanks place) (hrooted : fs.Rooted)
    (hstart : followed = [] → p = []) (hfree : fs.Free place) : blanks = [] := by
  cases h with
  | start => exact (Holds.not_free (hstart rfl ▸ hrooted.root) hfree).elim
  | name hbefore hlast hholder => rfl
  | @step before _ last holder _ hbefore hlast hstep =>
    refine (Holds.not_free ?_ hfree).elim
    rcases entry?_of_step hstep with hholder | ⟨hholder, -, rfl⟩
    · rw [step_of_directory hholder] at hstep
      split at hstep
      · cases hstep
        exact hrooted.holder holder (by rw [hholder]; rfl)
      · exact (hlast _ ‹_›).elim
      · cases hstep
        exact .inl hholder
    · exact .inr hholder

theorem leads_of_free (hrooted : fs.Rooted) (h : fs.locateForWriting path = .ok place)
    (hfree : fs.Free place) : checkPath path = .ok () ∧
      fs.Leads (fs.start path).1 (fs.start path).2 [] place := by
  obtain ⟨hcheck, followed, blanks, hsegments, hblanks, hleads⟩ := leads_of_locateForWriting h
  have hstart : followed = [] → (fs.start path).1 = [] := by
    rintro rfl
    exact start_fst_eq_nil hcheck (by rw [hsegments]; exact hblanks)
  obtain rfl := hleads.of_free hrooted hstart hfree
  rw [List.append_nil] at hsegments
  rw [hsegments]
  exact ⟨hcheck, hleads⟩

/-- **A text can be written where a path is writable, and is read back.** -/
theorem exists_writeText (hrooted : fs.Rooted) (h : fs.Writable path) (text : String) :
    ∃ fs', fs.writeText path text = .ok fs' ∧ fs'.readText path = .ok text := by
  obtain ⟨place, hplace, hfree⟩ := h
  refine ⟨_, writeBytes_eq_ok_iff.mpr ⟨place, hplace, .inr ⟨hfree, rfl⟩⟩, ?_⟩
  have hfile := fs.entry?_put_self place (.file text.toUTF8)
  obtain ⟨hcheck, hleads⟩ := leads_of_free hrooted hplace hfree
  have hlocate := hleads.locate hcheck (List.append_nil _).symm (extends_put hfree text.toUTF8)
    (by rw [hfile]; rfl)
  exact readText_file hlocate hfile

end FileSystem

end WaterNetwork
