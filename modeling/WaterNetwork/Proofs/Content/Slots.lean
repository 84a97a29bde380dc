import WaterNetwork.Proofs.Content.Entries
import WaterNetwork.Proofs.Content.Fields

/-!
# Records part by part

The entries of a record are read one after the other, each into the slot of its field, and a slot
that is taken twice is a fault. In the end each field has read what stands under its name. `Reads`
says this part by part, and items without names, which are read in the order of the fields, come
down to the same parts.

* `readMapping_keyed_iff` — a record is read just if each field is, from what stands under its name;
  if the key rule is strict, there are no other entries.
* `readItems_eq_ok_iff` — items are read just if they are the parts in order.
-/

namespace WaterNetwork

open Content (keyed under InOrder Gives)

/-! ### Key rules -/

namespace KeyRule

variable {names : List String} {key : String}

/-- **A rule that goes by names**: it picks the position of a key among them. If it is strict, a key
that is no name is a fault, and otherwise it is passed over. -/
def Follows (rule : KeyRule) (names : List String) (strict : Prop) : Prop :=
  ∀ key pick, rule (.string key) = .ok pick ↔ pick = position? names key ∧ (strict → key ∈ names)

theorem getElem?_of_position? {i : ℕ} (h : position? names key = some i) :
    names[i]? = some key := by
  obtain ⟨hlt, hkey, -⟩ := List.findIdx?_eq_some_iff_getElem.mp h
  rw [List.getElem?_eq_getElem hlt, eq_of_beq hkey]

theorem exists_position?_iff : (∃ i, position? names key = some i) ↔ key ∈ names := by
  rw [← Option.isSome_iff_exists, position?, List.findIdx?_isSome, List.any_eq_true]
  simp

theorem follows_closed (names : List String) : Follows (closed names) names True := by
  intro key pick
  have hname : (∃ i, position? names key = some i) ↔ key ∈ names := exists_position?_iff
  rw [closed]
  cases hposition : position? names key with
  | none =>
    rw [hposition] at hname
    have hnone : key ∉ names := fun hmem => by simpa using hname.mpr hmem
    simp [hnone]
  | some i =>
    rw [hposition] at hname
    have hmem : key ∈ names := hname.mp ⟨i, rfl⟩
    simp [hmem, eq_comm]

/-- The other rules are not strict. -/
theorem follows_of_eq {rule : KeyRule}
    (h : ∀ key, rule (.string key) = .ok (position? names key)) : Follows rule names False := by
  intro key pick
  simp [h, eq_comm]

end KeyRule

namespace Field

variable {ν : Type} {f : Field ν} {fields : List (Field ν)} {rule : KeyRule} {strict : Prop}
  {key : String} {c : Content} {es : List (String × Content)} {slots filled : List (Option ν)}
  {parts : List (String × Option Content)} {vs : List ν} {i : ℕ}

/-! ### Slots -/

/-- **Slots that are filled**, each from what stands under the name of its field. -/
inductive Fills (es : List (String × Content)) :
    List (Field ν) → List (Option ν) → List (Option ν) → Prop where
  | nil : Fills es [] [] []
  | cons {f : Field ν} {fields : List (Field ν)} {old new : Option ν}
    {slots filled : List (Option ν)} :
    Once (fun c v => f.read c = .ok v) old (under f.name es) new → Fills es fields slots filled →
    Fills es (f :: fields) (old :: slots) (new :: filled)

theorem fills_cons_iff {old : Option ν} : Fills es (f :: fields) (old :: slots) filled ↔
    ∃ new rest, filled = new :: rest ∧
      Once (fun c v => f.read c = .ok v) old (under f.name es) new ∧
      Fills es fields slots rest := by
  constructor
  · rintro (_ | ⟨honce, hrest⟩)
    exact ⟨_, _, rfl, honce, hrest⟩
  · rintro ⟨new, rest, rfl, honce, hrest⟩
    exact .cons honce hrest

theorem fills_nil_iff (h : slots.length = fields.length) : Fills [] fields slots filled ↔
    filled = slots := by
  induction fields generalizing slots filled with
  | nil =>
    obtain rfl := List.length_eq_zero_iff.mp h
    constructor
    · rintro ⟨⟩
      rfl
    · rintro rfl
      exact .nil
  | cons f fields ih =>
    obtain ⟨old, slots, rfl⟩ := List.exists_of_length_succ slots h
    rw [fills_cons_iff]
    simp only [Content.under_nil, Once.nil_iff, ih (by simpa using h)]
    constructor
    · rintro ⟨new, rest, rfl, rfl, rfl⟩
      rfl
    · rintro rfl
      exact ⟨_, _, rfl, rfl, rfl⟩

/-- An entry that names no field fills no slot. -/
theorem fills_cons_foreign (h : key ∉ fields.map (·.name)) :
    Fills ((key, c) :: es) fields slots filled ↔ Fills es fields slots filled := by
  induction fields generalizing slots filled with
  | nil =>
    constructor
    · rintro ⟨⟩
      exact .nil
    · rintro ⟨⟩
      exact .nil
  | cons f fields ih =>
    rw [List.map_cons, List.mem_cons, not_or] at h
    cases slots with
    | nil =>
      constructor
      · rintro ⟨⟩
      · rintro ⟨⟩
    | cons old slots =>
      simp only [fills_cons_iff, Content.under_cons_of_ne h.1, ih h.2]

/-- An entry that names a field fills its slot, which has to be empty. -/
theorem fills_cons_own (hnodup : (fields.map (·.name)).Nodup) (hf : fields[i]? = some f)
    (hlength : slots.length = fields.length) :
    Fills ((f.name, c) :: es) fields slots filled ↔
      slots[i]? = some none ∧
        ∃ v, f.read c = .ok v ∧ Fills es fields (slots.set i (some v)) filled := by
  induction fields generalizing slots filled i with
  | nil => simp at hf
  | cons f' fields ih =>
    rw [List.map_cons, List.nodup_cons] at hnodup
    obtain ⟨old, slots, rfl⟩ := List.exists_of_length_succ slots hlength
    cases i with
    | zero =>
      obtain rfl : f' = f := by simpa using hf
      simp only [fills_cons_iff, Content.under_cons_self, Once.cons_iff,
        fills_cons_foreign hnodup.1, List.getElem?_cons_zero, Option.some.injEq,
        List.set_cons_zero]
      constructor
      · rintro ⟨new, rest, rfl, ⟨rfl, v, hread, honce⟩, hrest⟩
        exact ⟨rfl, v, hread, new, rest, rfl, honce, hrest⟩
      · rintro ⟨rfl, v, hread, new, rest, rfl, honce, hrest⟩
        exact ⟨new, rest, rfl, ⟨rfl, v, hread, honce⟩, hrest⟩
    | succ i =>
      rw [List.getElem?_cons_succ] at hf
      have hne : f.name ≠ f'.name := fun heq =>
        hnodup.1 (heq ▸ List.mem_map_of_mem (List.mem_of_getElem? hf))
      simp only [fills_cons_iff, Content.under_cons_of_ne hne,
        ih hnodup.2 hf (by simpa using hlength), List.getElem?_cons_succ, List.set_cons_succ]
      constructor
      · rintro ⟨new, rest, rfl, honce, hempty, v, hread, hrest⟩
        exact ⟨hempty, v, hread, new, rest, rfl, honce, hrest⟩
      · rintro ⟨hempty, v, hread, new, rest, rfl, honce, hrest⟩
        exact ⟨new, rest, rfl, honce, hempty, v, hread, hrest⟩

/-- **Entries are read into the slots of their fields**, if there are no others or the rule is not
strict. The induction is on the entries, with the slots that the earlier ones leave. -/
theorem readEntries_keyed_iff (hrule : rule.Follows (fields.map (·.name)) strict)
    (hnodup : (fields.map (·.name)).Nodup) (hlength : slots.length = fields.length) :
    readEntries rule fields slots (keyed es) = .ok filled ↔
      (strict → ∀ e ∈ es, e.1 ∈ fields.map (·.name)) ∧ Fills es fields slots filled := by
  induction es generalizing slots with
  | nil =>
    rw [fills_nil_iff hlength]
    simp [keyed, readEntries, eq_comm]
  | cons e es ih =>
    obtain ⟨key, c⟩ := e
    show readEntries rule fields slots ((.string key, c) :: keyed es) = .ok filled ↔ _
    rw [List.forall_mem_cons]
    cases hpick : rule (.string key) with
    | error e =>
      have hfault : ¬ (strict → key ∈ fields.map (·.name)) := fun hkey => by
        rw [(hrule key _).mpr ⟨rfl, hkey⟩] at hpick
        cases hpick
      rw [readEntries, hpick]
      constructor
      · rintro ⟨⟩
      · rintro ⟨hkeys, -⟩
        exact absurd (fun h => (hkeys h).1) hfault
    | ok pick =>
      obtain ⟨hposition, hkey⟩ := (hrule key pick).mp hpick
      cases pick with
      | none =>
        have hforeign : key ∉ fields.map (·.name) := fun hmem => by
          obtain ⟨i, hi⟩ := KeyRule.exists_position?_iff.mpr hmem
          rw [hi] at hposition
          cases hposition
        rw [readEntries_cons_none hpick, ih hlength, fills_cons_foreign hforeign]
        exact and_congr_left fun _ =>
          ⟨fun h hstrict => ⟨hkey hstrict, h hstrict⟩, fun h hstrict => (h hstrict).2⟩
      | some i =>
        have hname := KeyRule.getElem?_of_position? hposition.symm
        obtain ⟨f, hf, rfl⟩ := Option.map_eq_some_iff.mp (List.getElem?_map .. ▸ hname)
        rw [fills_cons_own hnodup hf hlength]
        by_cases hempty : slots[i]? = some none
        · rw [readEntries_cons_some hpick hf hempty, bind_eq_ok_iff]
          simp only [ih ((List.length_set ..).trans hlength), hempty, true_and]
          constructor
          · rintro ⟨v, hread, hkeys, hfills⟩
            exact ⟨fun hstrict => ⟨hkey hstrict, hkeys hstrict⟩, v, hread, hfills⟩
          · rintro ⟨hkeys, v, hread, hfills⟩
            exact ⟨v, hread, fun hstrict => (hkeys hstrict).2, hfills⟩
        · rw [readEntries, hpick]
          simp only [bind, Except.bind, hf, hempty, false_and, and_false, iff_false]
          intro h
          cases h

/-! ### Part by part -/

/-- What a field takes from a part: what it reads from a content, and its fallback from none. -/
def Takes (f : Field ν) : Option Content → ν → Prop
  | some c, v => f.read c = .ok v
  | none, v => f.fallback = some v

/-- **Fields part by part**: each takes its value from the part of its name. -/
inductive Reads : List (Field ν) → List (String × Option Content) → List ν → Prop where
  | nil : Reads [] [] []
  | cons {f : Field ν} {c? : Option Content} {v : ν} {fields : List (Field ν)}
    {parts : List (String × Option Content)} {vs : List ν} :
    f.Takes c? v → Reads fields parts vs → Reads (f :: fields) ((f.name, c?) :: parts) (v :: vs)

theorem Reads.names (h : Reads fields parts vs) : parts.map (·.1) = fields.map (·.name) := by
  induction h with
  | nil => rfl
  | cons _ _ ih => rw [List.map_cons, List.map_cons, ih]

theorem fill_cons_iff {slot : Option ν} : fill (f :: fields) (slot :: slots) = .ok vs ↔
    ∃ v vs', slot.or f.fallback = some v ∧ fill fields slots = .ok vs' ∧ vs = v :: vs' := by
  rw [fill]
  cases slot.or f.fallback with
  | none => simp
  | some v =>
    simp only [bind_eq_ok_iff, pure, Except.pure, Except.ok.injEq, Option.some.injEq]
    constructor
    · rintro ⟨vs', hfill, rfl⟩
      exact ⟨v, vs', rfl, hfill, rfl⟩
    · rintro ⟨_, vs', rfl, hfill, rfl⟩
      exact ⟨vs', hfill, rfl⟩

/-- A slot that was empty has a value in the end just if the field takes this value from what stands
under its name. -/
theorem exists_once_iff {cs : List Content} {v : ν} :
    (∃ new, Once (fun c v => f.read c = .ok v) none cs new ∧ new.or f.fallback = some v) ↔
      ∃ c? : Option Content, cs = c?.toList ∧ f.Takes c? v := by
  constructor
  · rintro ⟨_, ⟨⟩ | ⟨hread⟩, hv⟩
    · exact ⟨none, rfl, hv⟩
    · cases hv
      exact ⟨some _, rfl, hread⟩
  · rintro ⟨_ | c, rfl, htakes⟩
    · exact ⟨none, .kept none, htakes⟩
    · exact ⟨some v, .taken htakes, rfl⟩

theorem exists_fills_iff :
    (∃ filled, Fills es fields (fields.map fun _ => none) filled ∧ fill fields filled = .ok vs) ↔
      ∃ parts, Gives es parts ∧ Reads fields parts vs := by
  induction fields generalizing vs with
  | nil =>
    constructor
    · rintro ⟨_, ⟨⟩, ⟨⟩⟩
      exact ⟨[], List.forall_mem_nil _, .nil⟩
    · rintro ⟨_, -, ⟨⟩⟩
      exact ⟨[], .nil, rfl⟩
  | cons f fields ih =>
    constructor
    · rintro ⟨_, ⟨⟩ | ⟨honce, hfills⟩, hfill⟩
      obtain ⟨v, vs', hv, hrest, rfl⟩ := fill_cons_iff.mp hfill
      obtain ⟨c?, hunder, htakes⟩ := exists_once_iff.mp ⟨_, honce, hv⟩
      obtain ⟨parts, hgives, hreads⟩ := ih.mp ⟨_, hfills, hrest⟩
      exact ⟨_, Content.gives_cons.mpr ⟨hunder, hgives⟩, .cons htakes hreads⟩
    · rintro ⟨_, hgives, ⟨⟩ | ⟨htakes, hreads⟩⟩
      obtain ⟨hunder, hgives⟩ := Content.gives_cons.mp hgives
      obtain ⟨new, honce, hv⟩ := exists_once_iff.mpr ⟨_, hunder, htakes⟩
      obtain ⟨filled, hfills, hfill⟩ := ih.mpr ⟨_, hgives, hreads⟩
      exact ⟨new :: filled, .cons honce hfills, fill_cons_iff.mpr ⟨_, _, hv, hfill, rfl⟩⟩

/-- **A record is read part by part**: just if each field takes its value from what stands under its
name, and, under a strict rule, nothing else is there. -/
theorem readMapping_keyed_iff (hrule : rule.Follows (fields.map (·.name)) strict)
    (hnodup : (fields.map (·.name)).Nodup) :
    readMapping rule fields (keyed es) = .ok vs ↔
      (strict → ∀ e ∈ es, e.1 ∈ fields.map (·.name)) ∧
        ∃ parts, Gives es parts ∧ Reads fields parts vs := by
  rw [readMapping, bind_eq_ok_iff, ← exists_fills_iff]
  simp only [readEntries_keyed_iff hrule hnodup (List.length_map _), and_assoc, exists_and_left]

/-- A record is read under a rule that passes over other keys just if each field takes its value
from what stands under its name. -/
theorem readMapping_keyed_iff_of_eq
    (hrule : ∀ key, rule (.string key) = .ok (KeyRule.position? (fields.map (·.name)) key))
    (hnodup : (fields.map (·.name)).Nodup) :
    readMapping rule fields (keyed es) = .ok vs ↔
      ∃ parts, Gives es parts ∧ Reads fields parts vs := by
  rw [readMapping_keyed_iff (KeyRule.follows_of_eq hrule) hnodup]
  exact and_iff_right False.elim

/-! ### Items -/

theorem inOrder_cons_iff {items : List Content} {c? : Option Content} :
    InOrder ((key, c?) :: parts) (c :: items) ↔ c? = some c ∧ InOrder parts items := by
  simp [InOrder]

theorem inOrder_cons_nil_iff {c? : Option Content} :
    InOrder ((key, c?) :: parts) [] ↔ c? = none ∧ InOrder parts [] := by
  constructor
  · rintro ⟨absent, horder⟩
    cases absent with
    | zero => cases horder
    | succ absent =>
      obtain ⟨hnone, hrest⟩ := List.cons.inj horder
      exact ⟨hnone, absent, hrest⟩
  · rintro ⟨rfl, absent, horder⟩
    exact ⟨absent + 1, congrArg (none :: ·) horder⟩

theorem takes_none_iff {v : ν} : f.Takes none v ↔ f.fallback = some v := Iff.rfl

/-- Fields are read from the front of items just if the items are their parts in order. -/
theorem readInOrder_eq_ok_iff {expected : String} {items : List Content}
    (hlength : items.length ≤ fields.length) :
    readInOrder expected i fields items = .ok vs ↔
      ∃ parts, InOrder parts items ∧ Reads fields parts vs := by
  induction fields generalizing i items vs with
  | nil =>
    obtain rfl : items = [] := List.length_eq_zero_iff.mp (Nat.le_zero.mp hlength)
    rw [readInOrder]
    constructor
    · rintro ⟨⟩
      exact ⟨[], ⟨0, rfl⟩, .nil⟩
    · rintro ⟨_, -, ⟨⟩⟩
      rfl
  | cons f fields ih =>
    cases items with
    | cons c items =>
      rw [readInOrder]
      simp only [bind_eq_ok_iff, ih (Nat.le_of_succ_le_succ hlength)]
      constructor
      · rintro ⟨v, hread, vs', ⟨parts, horder, hreads⟩, ⟨⟩⟩
        exact ⟨_, inOrder_cons_iff.mpr ⟨rfl, horder⟩, .cons hread hreads⟩
      · rintro ⟨_, horder, ⟨⟩ | ⟨htakes, hreads⟩⟩
        obtain ⟨rfl, hrest⟩ := inOrder_cons_iff.mp horder
        exact ⟨_, htakes, _, ⟨_, hrest, hreads⟩, rfl⟩
    | nil =>
      rw [readInOrder]
      cases hfallback : f.fallback with
      | none =>
        constructor
        · rintro ⟨⟩
        · rintro ⟨_, horder, ⟨⟩ | ⟨htakes, hreads⟩⟩
          obtain ⟨rfl, -⟩ := inOrder_cons_nil_iff.mp horder
          rw [takes_none_iff, hfallback] at htakes
          cases htakes
      | some v =>
        simp only [bind_eq_ok_iff, ih (show ([] : List Content).length ≤ _ from Nat.zero_le _)]
        constructor
        · rintro ⟨vs', ⟨parts, horder, hreads⟩, ⟨⟩⟩
          exact ⟨_, inOrder_cons_nil_iff.mpr ⟨rfl, horder⟩, .cons hfallback hreads⟩
        · rintro ⟨_, horder, ⟨⟩ | ⟨htakes, hreads⟩⟩
          obtain ⟨rfl, hrest⟩ := inOrder_cons_nil_iff.mp horder
          rw [takes_none_iff, hfallback] at htakes
          cases htakes
          exact ⟨_, ⟨_, hrest, hreads⟩, rfl⟩

theorem Reads.length_le (h : Reads fields parts vs) {items : List Content}
    (horder : InOrder parts items) : items.length ≤ fields.length := by
  obtain ⟨absent, horder⟩ := horder
  have hlength := congrArg List.length horder
  have hnames := congrArg List.length h.names
  simp only [List.length_map, List.length_append, List.length_replicate] at hlength hnames
  omega

/-- **Items are read part by part**: just if they are the parts in order. -/
theorem readItems_eq_ok_iff {type : String} {items : List Content} :
    readItems type fields items = .ok vs ↔
      ∃ parts, InOrder parts items ∧ Reads fields parts vs := by
  rw [readItems, bind_eq_ok_iff]
  by_cases hlength : items.length ≤ fields.length
  · simp only [readInOrder_eq_ok_iff hlength, Nat.not_lt.mpr hlength, if_false]
    simp [pure, Except.pure]
  · constructor
    · rintro ⟨vs', -, hfinish⟩
      rw [if_pos (Nat.lt_of_not_le hlength)] at hfinish
      cases hfinish
    · rintro ⟨parts, horder, hreads⟩
      exact absurd (hreads.length_le horder) hlength

end Field

end WaterNetwork
