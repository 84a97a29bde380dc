import Mathlib.Data.List.Nodup
import WaterNetwork.Proofs.Content.Reading

/-!
# Fields that have been written

A record is written as its fields in order, each under its name, and an absent field is left
out. Reading such entries comes down to reading each field by itself, whatever the key rule, as
long as the rule finds the fields by their names; entries that it passes over may follow.

* `recovers_readMapping` — a record that has been written is read field by field.
* `readTagged_kept` — what is left of a tagged value shows its tag and its fields.
-/

namespace WaterNetwork

open Content (entry kept keptEntry)

/-! ### Key rules -/

namespace KeyRule

variable {names : List String} {name : String} {i : ℕ}

theorem position?_eq_some (h : names.Nodup) (hi : names[i]? = some name) :
    position? names name = some i := by
  obtain ⟨hlt, rfl⟩ := List.getElem?_eq_some_iff.mp hi
  rw [position?, List.findIdx?_eq_some_iff_getElem]
  refine ⟨hlt, beq_self_eq_true _, fun j hj => ?_⟩
  simpa using fun heq => Nat.ne_of_lt hj (h.getElem_inj_iff.mp heq)

theorem position?_eq_none (h : name ∉ names) : position? names name = none := by
  rw [position?, List.findIdx?_eq_none_iff]
  intro other hother
  simpa using fun heq : other = name => h (heq ▸ hother)

theorem closed_of_position? (h : position? names name = some i) :
    closed names (.string name) = .ok (some i) := by
  rw [closed, h]

end KeyRule

namespace Field

variable {ν : Type} {rule : KeyRule} {fields : List (Field ν)}

/-- A key rule finds fields by their names. -/
def Finds (rule : KeyRule) (fields : List (Field ν)) : Prop :=
  ∀ i f, fields[i]? = some f → rule (.string f.name) = .ok (some i)

/-- A rule that goes by the position of a name finds fields whose names are distinct. -/
theorem finds_of_nodup (h : (fields.map (·.name)).Nodup)
    (hrule : ∀ name i, KeyRule.position? (fields.map (·.name)) name = some i →
      rule (.string name) = .ok (some i)) : Finds rule fields := by
  intro i f hf
  refine hrule f.name i (KeyRule.position?_eq_some h ?_)
  rw [List.getElem?_map, hf]
  rfl

/-! ### Writing -/

/-- **The entries of a record**: a field with a value stands under its name. -/
def written : List (Field ν) → List (Option Content) → List (Content × Content)
  | f :: fs, some c :: cs => entry f.name c :: written fs cs
  | _ :: fs, none :: cs => written fs cs
  | _, _ => []

theorem exists_name_of_mem_written {cs : List (Option Content)} {e : Content × Content}
    (he : e ∈ written fields cs) : ∃ f ∈ fields, e.1 = .string f.name := by
  induction fields generalizing cs with
  | nil => simp [written] at he
  | cons f fields ih =>
    match cs with
    | [] => simp [written] at he
    | none :: cs =>
      obtain ⟨f', hf', hkey⟩ := ih he
      exact ⟨f', List.mem_cons_of_mem _ hf', hkey⟩
    | some c :: cs =>
      rw [written, List.mem_cons] at he
      rcases he with rfl | he
      · exact ⟨f, List.mem_cons_self, rfl⟩
      · obtain ⟨f', hf', hkey⟩ := ih he
        exact ⟨f', List.mem_cons_of_mem _ hf', hkey⟩

theorem isBeside_of_mem_written {room : ℕ} {cs : List (Option Content)} {e : Content × Content}
    {name : String} (he : e ∈ written fields cs) (h : name ∉ fields.map (·.name))
    (hfits : e.2.Fits room) : Content.IsBeside room name e := by
  obtain ⟨f, hf, hkey⟩ := exists_name_of_mem_written he
  exact ⟨f.name, hkey, fun heq => h (heq ▸ List.mem_map_of_mem hf), hfits⟩

theorem mem_of_mem_written {cs : List (Option Content)} {e : Content × Content}
    (he : e ∈ written fields cs) : some e.2 ∈ cs := by
  induction fields generalizing cs with
  | nil => simp [written] at he
  | cons f fields ih =>
    match cs with
    | [] => simp [written] at he
    | none :: cs => exact List.mem_cons_of_mem _ (ih he)
    | some c :: cs =>
      rw [written, List.mem_cons] at he
      rcases he with rfl | he
      · exact List.mem_cons_self
      · exact List.mem_cons_of_mem _ (ih he)

theorem map_keptEntry_written (back : Float → Option Float) (fields : List (Field ν))
    (cs : List (Option Content)) :
    (written fields cs).map (keptEntry back) =
      written fields (cs.map (Option.map (kept back))) := by
  induction fields generalizing cs with
  | nil => cases cs <;> rfl
  | cons f fields ih =>
    match cs with
    | [] => rfl
    | none :: cs => exact ih cs
    | some c :: cs =>
      rw [written, List.map_cons, ih, Content.keptEntry_eq]
      rfl

/-! ### Reading -/

variable {back : Float → Option Float} {slots : List (Option ν)} {key value : Content}
  {es : List (Content × Content)} {cs : List (Option Content)} {xs : List Float} {vs : List ν}

/-- **Fields one by one**: the values that fields give back, each read from a content of its
own, and the numbers that they cannot do without. -/
inductive Restores (back : Float → Option Float) :
    List (Field ν) → List (Option Content) → List Float → List ν → Prop where
  | nil : Restores back [] [] [] []
  | present {f : Field ν} {c : Content} {v : ν} {fields : List (Field ν)}
    {cs : List (Option Content)} {xs ys : List Float} {vs : List ν}
    (hread : Recovers (f.read c) (AllBack back xs) v) (hrest : Restores back fields cs ys vs) :
    Restores back (f :: fields) (some c :: cs) (xs ++ ys) (v :: vs)
  | absent {f : Field ν} {v : ν} {fields : List (Field ν)} {cs : List (Option Content)}
    {ys : List Float} {vs : List ν} (hfallback : f.fallback = some v)
    (hrest : Restores back fields cs ys vs) : Restores back (f :: fields) (none :: cs) ys (v :: vs)

/-- An entry that names no field is passed over. -/
theorem readEntries_cons_none (h : rule key = .ok none) :
    readEntries rule fields slots ((key, value) :: es) = readEntries rule fields slots es := by
  rw [readEntries, h]
  rfl

theorem readEntries_of_none (h : ∀ e ∈ es, rule e.1 = .ok none) :
    readEntries rule fields slots es = .ok slots := by
  induction es with
  | nil => rfl
  | cons e es ih =>
    rw [List.forall_mem_cons] at h
    rw [readEntries_cons_none h.1, ih h.2]

/-- An entry that names a field without value is read into its slot. -/
theorem readEntries_cons_some {f : Field ν} {i : ℕ} (h : rule key = .ok (some i))
    (hf : fields[i]? = some f) (hs : slots[i]? = some none) :
    readEntries rule fields slots ((key, value) :: es) =
      f.read value >>= fun v => readEntries rule fields (slots.set i (some v)) es := by
  rw [readEntries, h]
  simp only [bind, Except.bind, hf, hs]

/-- The entries of the fields that are left are read into the slots that are left. The induction
is on these fields; those before them, with their slots, only grow. -/
theorem recovers_readEntries (before : List (Field ν)) (slots : List (Option ν))
    (h : Restores back fields cs xs vs) (hfinds : Finds rule (before ++ fields))
    (hslots : slots.length = before.length) (hes : ∀ e ∈ es, rule e.1 = .ok none) :
    ∃ filled, Recovers (readEntries rule (before ++ fields)
        (slots ++ fields.map fun _ => none) (written fields cs ++ es)) (AllBack back xs)
        (slots ++ filled) ∧
      fill fields filled = .ok vs := by
  induction h generalizing before slots with
  | nil => exact ⟨[], .of_nil (readEntries_of_none hes), rfl⟩
  | @present f c v fields cs xs ys vs hread hrest ih =>
    rw [List.append_cons] at hfinds
    obtain ⟨filled, hfilled, hfill⟩ :=
      ih (before ++ [f]) (slots ++ [some v]) hfinds (by simp [hslots])
    refine ⟨some v :: filled, ?_, by rw [fill, hfill]; rfl⟩
    have hf : (before ++ f :: fields)[slots.length]? = some f := by simp [hslots]
    have hkey : rule (.string f.name) = .ok (some slots.length) := hfinds _ f (by simpa using hf)
    rw [written, List.cons_append, entry, readEntries_cons_some hkey hf (by simp)]
    refine (hread.bind ?_).congr allBack_append_iff.symm
    simpa using hfilled
  | @absent f v fields cs ys vs hfallback hrest ih =>
    rw [List.append_cons] at hfinds
    obtain ⟨filled, hfilled, hfill⟩ :=
      ih (before ++ [f]) (slots ++ [none]) hfinds (by simp [hslots])
    refine ⟨none :: filled, ?_, by rw [fill, hfill, hfallback]; rfl⟩
    simpa [written] using hfilled

/-- **A record that has been written is read field by field.** -/
theorem recovers_readMapping (h : Restores back fields cs xs vs) (hfinds : Finds rule fields)
    (hes : ∀ e ∈ es, rule e.1 = .ok none) :
    Recovers (readMapping rule fields (written fields cs ++ es)) (AllBack back xs) vs := by
  obtain ⟨filled, hfilled, hfill⟩ := recovers_readEntries [] [] h hfinds rfl hes
  exact hfilled.andThen hfill

theorem recovers_readMapping_written (h : Restores back fields cs xs vs)
    (hfinds : Finds rule fields) :
    Recovers (readMapping rule fields (written fields cs)) (AllBack back xs) vs := by
  have hmapping := recovers_readMapping h hfinds (List.forall_mem_nil _)
  rwa [List.append_nil] at hmapping

theorem readMapping_cons_none (value : Content) (es : List (Content × Content))
    (h : rule key = .ok none) :
    readMapping rule fields ((key, value) :: es) = readMapping rule fields es := by
  rw [readMapping, readEntries_cons_none h, readMapping]

end Field

/-! ### Tags -/

namespace Content

variable {κ : Type} {readTag : Content → Except Mismatch κ} {tag : κ}
  {es : List (Content × Content)}

theorem splitTag_of_ne (h : ∀ e ∈ es, e.1 ≠ .string tagKey) :
    splitTag readTag (some tag) es = .ok (tag, es) := by
  induction es with
  | nil => rfl
  | cons e es ih =>
    rw [List.forall_mem_cons] at h
    obtain ⟨key, value⟩ := e
    cases key with
    | string key =>
      rw [splitTag, if_neg fun heq => h.1 (congrArg Content.string heq), ih h.2]
      rfl
    | _ =>
      rw [splitTag, ih h.2]
      · rfl
      · nofun

/-- **What is left of a tagged value** shows its tag and its fields. -/
theorem readTagged_kept (back : Float → Option Float) {name : String} (type : String)
    (hname : readTag (.string name) = .ok tag) {room : ℕ} (h : ∀ e ∈ es, IsBeside room tagKey e) :
    (kept back (.mapping (entry tagKey (.string name) :: es))).readTagged type readTag =
      .ok (tag, .fields (es.map (keptEntry back))) := by
  have hkeys : ∀ e ∈ es.map (keptEntry back), e.1 ≠ .string tagKey := by
    refine List.forall_mem_map.mpr fun e he => ?_
    obtain ⟨name, hname, hne, -⟩ := h e he
    rw [keptEntry_eq, hname]
    exact fun heq => hne (string.inj heq)
  rw [kept, keptEntries_eq_map, List.map_cons, readTagged]
  show (splitTag readTag none ((.string tagKey, .string name) :: _) >>= _) = _
  rw [splitTag, if_pos rfl, hname]
  simp only [bind, Except.bind, splitTag_of_ne hkeys]
  rfl

end Content

end WaterNetwork
