import Mathlib.Data.List.Nodup
import Std.Data.HashMap
import WaterNetwork.Ident

/-!
# Indexed lists

A network and a parameter table both keep a list of things and, beside it, a map from the names
of these things to their identifiers. `Indexed` says that the two agree: an identifier is a
position, and the map sends a name to the position of the thing that has it. Then no name
comes twice, and what the map answers is what a search through the list would answer. The two
ways in which such a list changes keep this: a thing with a new name is added at the end
(`Indexed.concat`), or a thing is replaced by one of the same name and identifier
(`Indexed.modify`).
-/

namespace WaterNetwork

theorem Ident.eq_of_index_eq {a b : Ident} (h : a.index = b.index) : a = b := by
  cases a
  cases b
  simpa using h

theorem getElem?_concat {α : Type} (xs : List α) (x : α) (i : Nat) :
    (xs ++ [x])[i]? = if i = xs.length then some x else xs[i]? := by
  split
  · rename_i h
    rw [h, List.getElem?_concat_length]
  · rename_i h
    rcases Nat.lt_or_gt_of_ne h with hlt | hgt
    · rw [List.getElem?_append_left hlt]
    · rw [List.getElem?_eq_none (by simp; omega), List.getElem?_eq_none (by omega)]

theorem map_modify {α β : Type} {f : α → α} {g : α → β} (h : ∀ x, g (f x) = g x) (xs : List α)
    (i : Nat) : (xs.modify i f).map g = xs.map g := by
  refine List.ext_getElem? fun j => ?_
  rw [List.getElem?_map, List.getElem?_map, List.getElem?_modify]
  cases xs[j]? with
  | none => rfl
  | some x => by_cases hij : i = j <;> simp [hij, h]

variable {α κ : Type} [BEq κ] [Hashable κ]

/-- **Agreement** of a list of things, each with a key and an identifier, with a map from keys
to identifiers. -/
structure Indexed (key : α → κ) (ident : α → Ident) (xs : List α)
    (index : Std.HashMap κ Ident) : Prop where
  /-- An identifier is a position. -/
  ident_index : ∀ {i : Nat} {x : α}, xs[i]? = some x → (ident x).index = i
  /-- The map leads from a key to the thing that has it. -/
  getElem?_index : ∀ {k : κ} {id : Ident}, index[k]? = some id ↔
    ∃ x, xs[id.index]? = some x ∧ key x = k

namespace Indexed

variable {key : α → κ} {ident : α → Ident} {xs : List α} {index : Std.HashMap κ Ident}
  {k : κ} {x y : α}

theorem getElem?_ident (h : Indexed key ident xs index) (hx : x ∈ xs) :
    xs[(ident x).index]? = some x := by
  obtain ⟨i, hi⟩ := List.mem_iff_getElem?.mp hx
  rw [h.ident_index hi, hi]

theorem getElem?_key (h : Indexed key ident xs index) (hx : x ∈ xs) :
    index[key x]? = some (ident x) :=
  h.getElem?_index.mpr ⟨x, h.getElem?_ident hx, rfl⟩

theorem nil [LawfulBEq κ] : Indexed key ident [] (∅ : Std.HashMap κ Ident) where
  ident_index h := by simp at h
  getElem?_index := by simp

/-! ### What the map answers -/

theorem getElem?_eq_some_iff (h : Indexed key ident xs index) {id : Ident} :
    index[k]? = some id ↔ ∃ x ∈ xs, key x = k ∧ ident x = id := by
  constructor
  · intro hid
    obtain ⟨x, hx, hk⟩ := h.getElem?_index.mp hid
    exact ⟨x, List.mem_of_getElem? hx, hk, Ident.eq_of_index_eq (h.ident_index hx)⟩
  · rintro ⟨x, hx, rfl, rfl⟩
    exact h.getElem?_key hx

/-- Things of one key are one thing. -/
theorem eq_of_key_eq (h : Indexed key ident xs index) (hx : x ∈ xs) (hy : y ∈ xs)
    (hk : key x = key y) : x = y := by
  have hid : ident x = ident y := by
    rw [← Option.some_inj, ← h.getElem?_key hx, ← h.getElem?_key hy, hk]
  rw [← Option.some_inj, ← h.getElem?_ident hx, ← h.getElem?_ident hy, hid]

theorem nodup_keys (h : Indexed key ident xs index) : (xs.map key).Nodup := by
  refine List.Nodup.map_on (fun x hx y hy => h.eq_of_key_eq hx hy) ?_
  rw [List.nodup_iff_injective_getElem]
  rintro ⟨i, hi⟩ ⟨j, hj⟩ hij
  have h1 := h.ident_index (List.getElem?_eq_getElem hi)
  have h2 := h.ident_index (List.getElem?_eq_getElem hj)
  rw [Fin.mk.injEq, ← h1, ← h2, show xs[i] = xs[j] from hij]

theorem contains_iff [LawfulBEq κ] (h : Indexed key ident xs index) :
    index.contains k = true ↔ ∃ x ∈ xs, key x = k := by
  rw [Std.HashMap.contains_eq_isSome_getElem?, Option.isSome_iff_exists]
  constructor
  · rintro ⟨id, hid⟩
    obtain ⟨x, hx, hk⟩ := h.getElem?_index.mp hid
    exact ⟨x, List.mem_of_getElem? hx, hk⟩
  · rintro ⟨x, hx, rfl⟩
    exact ⟨ident x, h.getElem?_key hx⟩

theorem getElem?_eq_none_iff [LawfulBEq κ] (h : Indexed key ident xs index) :
    index[k]? = none ↔ ∀ x ∈ xs, key x ≠ k := by
  rw [← Option.not_isSome_iff_eq_none, ← Std.HashMap.contains_eq_isSome_getElem?, h.contains_iff]
  simp

/-- Looking a key up and going to the position leads to the thing of that key. -/
theorem bind_getElem?_eq_some_iff (h : Indexed key ident xs index) :
    (index[k]?.bind fun id => xs[id.index]?) = some x ↔ x ∈ xs ∧ key x = k := by
  rw [Option.bind_eq_some_iff]
  constructor
  · rintro ⟨id, hid, hx⟩
    obtain ⟨x', hx', hk⟩ := h.getElem?_index.mp hid
    obtain rfl : x = x' := by rw [← Option.some_inj, ← hx, ← hx']
    exact ⟨List.mem_of_getElem? hx, hk⟩
  · rintro ⟨hx, rfl⟩
    exact ⟨ident x, h.getElem?_key hx, h.getElem?_ident hx⟩

/-- The map has a key just if a search through the list finds it. -/
theorem contains_eq_any [LawfulBEq κ] (h : Indexed key ident xs index) (k : κ) :
    index.contains k = xs.any (key · == k) := by
  rw [Bool.eq_iff_iff, h.contains_iff, List.any_eq_true]
  simp only [beq_iff_eq]

/-- The map answers with the identifier of what a search through the list finds. -/
theorem getElem?_eq_find? [LawfulBEq κ] (h : Indexed key ident xs index) (k : κ) :
    index[k]? = (xs.find? (key · == k)).map ident := by
  cases hfind : xs.find? (key · == k) with
  | none =>
    rw [List.find?_eq_none] at hfind
    exact h.getElem?_eq_none_iff.mpr fun x hx hk => by simpa [hk] using hfind x hx
  | some x =>
    obtain rfl : key x = k := by simpa using List.find?_some hfind
    exact h.getElem?_key (List.mem_of_find?_eq_some hfind)

/-- Looking a key up and going to the position is searching the list. -/
theorem bind_getElem?_eq_find? [LawfulBEq κ] (h : Indexed key ident xs index) (k : κ) :
    (index[k]?.bind fun id => xs[id.index]?) = xs.find? (key · == k) := by
  rw [h.getElem?_eq_find? k]
  cases hfind : xs.find? (key · == k) with
  | none => rfl
  | some x => exact h.getElem?_ident (List.mem_of_find?_eq_some hfind)

/-! ### How the list changes -/

theorem concat [LawfulBEq κ] (h : Indexed key ident xs index) (hk : ∀ y ∈ xs, key y ≠ key x)
    (hx : (ident x).index = xs.length) :
    Indexed key ident (xs ++ [x]) (index.insert (key x) (ident x)) where
  ident_index {i y} hy := by
    rw [getElem?_concat] at hy
    split at hy
    · rename_i hi
      obtain rfl : x = y := by simpa using hy
      rw [hx, hi]
    · exact h.ident_index hy
  getElem?_index {k id} := by
    rw [Std.HashMap.getElem?_insert, getElem?_concat]
    by_cases hid : id.index = xs.length
    · obtain rfl : ident x = id := Ident.eq_of_index_eq (hx.trans hid.symm)
      have hnone : index[k]? ≠ some (ident x) := fun hs => by
        obtain ⟨y, hy, -⟩ := h.getElem?_index.mp hs
        rw [List.getElem?_eq_none (by omega)] at hy
        cases hy
      simp [hx, hnone]
    · by_cases hkx : key x = k
      · have hne : ident x ≠ id := fun he => hid (he ▸ hx)
        have hno : ¬ ∃ y, xs[id.index]? = some y ∧ key y = k := by
          rintro ⟨y, hy, rfl⟩
          exact hk y (List.mem_of_getElem? hy) hkx.symm
        simp [hkx, hid, hne, hno]
      · simp [hkx, hid, h.getElem?_index]

theorem modify (h : Indexed key ident xs index) {f : α → α} (hk : ∀ x, key (f x) = key x)
    (hi : ∀ x, ident (f x) = ident x) (i : Nat) : Indexed key ident (xs.modify i f) index where
  ident_index {j y} hy := by
    rw [List.getElem?_modify, Option.map_eq_map, Option.map_eq_some_iff] at hy
    obtain ⟨x, hx, rfl⟩ := hy
    rw [← h.ident_index hx]
    split <;> simp [hi]
  getElem?_index {k id} := by
    rw [h.getElem?_index, List.getElem?_modify]
    cases xs[id.index]? with
    | none => simp
    | some x => by_cases hid : i = id.index <;> simp [hid, hk]

end Indexed

end WaterNetwork
