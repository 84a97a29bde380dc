import WaterNetwork.Content
import Mathlib.Data.Nat.Notation

/-!
# Contents that are written

Contents hold each other in lists, and keys of entries are never entered. An argument about all
contents goes by their kinds: scalars, sequences of contents for which it holds, and mappings to
such contents.

A content that is written and read again is the same content, but for its numbers: a format may
have no text for a number, or read its text as another number. What a number comes back as is
therefore a parameter here, and `kept` is what is left of a content. A reader refuses collections
that stand too deep inside each other, so a content has to fit into the room that is left.

* `Content.inductionOn` — the induction.
* `Content.kept`, `Content.kept_some` — what is left of a content, and that nothing is lost where
  all numbers come back.
* `Content.Fits` — contents that are written and not too deep.
-/

namespace WaterNetwork

/-- Whether a content holds no other ones. -/
def Content.IsScalar : Content → Prop
  | .sequence _ | .mapping _ => False
  | _ => True

/-- **Induction on contents.** -/
@[elab_as_elim]
theorem Content.inductionOn {motive : Content → Prop}
    (scalar : ∀ c : Content, c.IsScalar → motive c)
    (sequence : ∀ items, (∀ c ∈ items, motive c) → motive (.sequence items))
    (mapping : ∀ entries, (∀ e ∈ entries, motive e.2) → motive (.mapping entries)) :
    ∀ c : Content, motive c
  | .sequence items => sequence items fun c _ => inductionOn scalar sequence mapping c
  | .mapping entries => mapping entries fun e he => by
    have hsize := List.sizeOf_lt_of_mem he
    obtain ⟨key, value⟩ := e
    exact inductionOn scalar sequence mapping value
  | .null => scalar _ trivial
  | .boolean _ => scalar _ trivial
  | .unsigned _ => scalar _ trivial
  | .signed _ => scalar _ trivial
  | .float _ => scalar _ trivial
  | .string _ => scalar _ trivial
termination_by c => sizeOf c
decreasing_by
  · have := List.sizeOf_lt_of_mem ‹_›
    simp only [Content.sequence.sizeOf_spec]
    omega
  · simp only [Prod.mk.sizeOf_spec, Content.mapping.sizeOf_spec] at *
    omega

theorem map_eq_self_iff {α : Type} {f : α → α} {as : List α} :
    as.map f = as ↔ ∀ a ∈ as, f a = a := by
  induction as with
  | nil => simp
  | cons a as ih => simp [ih]

namespace Content

/-! ### What is left of a content -/

variable (back : Float → Option Float)

mutual

/-- **What is left of a content** if each of its numbers comes back as `back` says: a number that
does not come back leaves nothing behind. -/
def kept : Content → Content
  | .null => .null
  | .boolean value => .boolean value
  | .unsigned value => .unsigned value
  | .signed value => .signed value
  | .float x => (back x).elim .null .float
  | .string text => .string text
  | .sequence items => .sequence (keptItems items)
  | .mapping entries => .mapping (keptEntries entries)

/-- What is left of items. -/
def keptItems : List Content → List Content
  | [] => []
  | item :: rest => kept item :: keptItems rest

/-- What is left of entries. -/
def keptEntries : List (Content × Content) → List (Content × Content)
  | [] => []
  | e :: rest => keptEntry e :: keptEntries rest

/-- What is left of an entry. -/
def keptEntry : Content × Content → Content × Content
  | (key, value) => (key, kept value)

end

theorem keptEntry_eq (e : Content × Content) : keptEntry back e = (e.1, e.2.kept back) := by
  rw [keptEntry]

@[simp] theorem keptItems_eq_map (items : List Content) :
    keptItems back items = items.map (kept back) := by
  induction items with
  | nil => rfl
  | cons item rest ih => rw [keptItems, ih, List.map_cons]

@[simp] theorem keptEntries_eq_map (entries : List (Content × Content)) :
    keptEntries back entries = entries.map (keptEntry back) := by
  induction entries with
  | nil => rfl
  | cons e rest ih => rw [keptEntries, ih, List.map_cons]

/-- **Nothing is lost where all numbers come back.** -/
theorem kept_some (c : Content) : c.kept some = c := by
  induction c using Content.inductionOn with
  | scalar c hc =>
    cases c with
    | sequence | mapping => exact hc.elim
    | _ => rfl
  | sequence items ih => rw [kept, keptItems_eq_map, map_eq_self_iff.mpr ih]
  | mapping entries ih =>
    have hentries : ∀ e ∈ entries, keptEntry some e = e := fun e he => by rw [keptEntry_eq, ih e he]
    rw [kept, keptEntries_eq_map, map_eq_self_iff.mpr hentries]

theorem map_keptEntry_some (es : List (Content × Content)) : es.map (keptEntry some) = es :=
  map_eq_self_iff.mpr fun e _ => by rw [keptEntry_eq, kept_some]

/-! ### Numbers -/

mutual

/-- The numbers that a content holds. -/
def numbers : Content → List Float
  | .float x => [x]
  | .sequence items => itemNumbers items
  | .mapping entries => entryNumbers entries
  | _ => []

/-- The numbers that items hold. -/
def itemNumbers : List Content → List Float
  | [] => []
  | item :: rest => numbers item ++ itemNumbers rest

/-- The numbers that entries hold. -/
def entryNumbers : List (Content × Content) → List Float
  | [] => []
  | (_, value) :: rest => numbers value ++ entryNumbers rest

end

theorem itemNumbers_eq_flatMap (items : List Content) :
    itemNumbers items = items.flatMap numbers := by
  induction items with
  | nil => rfl
  | cons item rest ih => rw [itemNumbers, ih, List.flatMap_cons]

theorem entryNumbers_eq_flatMap (entries : List (Content × Content)) :
    entryNumbers entries = entries.flatMap fun e => e.2.numbers := by
  induction entries with
  | nil => rfl
  | cons e rest ih => rw [entryNumbers, ih, List.flatMap_cons]

/-! ### Depth -/

/-- Scalars that are written. A whole number with a sign is never written. -/
def IsWritten : Content → Prop
  | .null | .boolean _ | .unsigned _ | .float _ | .string _ => True
  | _ => False

/-- **Contents that are written**, with texts for keys, and that fit into the room that is left for
collections inside each other. -/
inductive Fits : ℕ → Content → Prop where
  | scalar {room : ℕ} {c : Content} (hc : c.IsWritten) : Fits room c
  | sequence {room : ℕ} {items : List Content} (hroom : 1 < room)
    (hitems : ∀ c ∈ items, Fits (room - 1) c) : Fits room (.sequence items)
  | mapping {room : ℕ} {entries : List (Content × Content)} (hroom : 1 < room)
    (hkeys : ∀ e ∈ entries, ∃ key, e.1 = .string key)
    (hentries : ∀ e ∈ entries, Fits (room - 1) e.2) : Fits room (.mapping entries)

/-- An entry beside the one under a key: it is written under another key, and fits. -/
def IsBeside (room : ℕ) (key : String) (e : Content × Content) : Prop :=
  ∃ name, e.1 = .string name ∧ name ≠ key ∧ e.2.Fits room

/-- Whether a content is written and holds at most a list of scalars. -/
def IsFlat : Content → Prop
  | .sequence items => ∀ c ∈ items, c.IsWritten
  | .mapping _ | .signed _ => False
  | _ => True

theorem IsFlat.fits {c : Content} {room : ℕ} (h : c.IsFlat) (hroom : 1 < room) : c.Fits room := by
  cases c with
  | sequence items => exact .sequence hroom fun c hc => .scalar (h c hc)
  | mapping | signed => exact h.elim
  | _ => exact .scalar trivial

end Content

end WaterNetwork
