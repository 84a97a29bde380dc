import WaterNetwork.Json.Reader
import WaterNetwork.Json.Writer

/-!
# Reading texts back

Between quotes a character stands for itself, or is written after a backslash, by a letter or by
its number. `Escaped` says how; each way is passed over up to the closing quote, and read back.

* `escaped_escape` — characters are written in one of these ways.
* `readString?_escape` — a text between quotes is read back.
-/

namespace WaterNetwork.Json

variable {c : Char} {cs tail rest : List Char}

/-- **How a character stands between quotes.** -/
inductive Escaped (c : Char) : List Char → Prop where
  | plain (hquote : c ≠ '"') (hslash : c ≠ '\\') (hcontrol : ¬ c.toNat < 0x20) : Escaped c [c]
  | letter {l : Char} (hl : escaped? l = some c) : Escaped c ['\\', l]
  | code {high low : Char} (hcode : hexPiece? '0' '0' high low = some (.char c))
    (hhigh : high ≠ '"' ∧ high ≠ '\\') (hlow : low ≠ '"' ∧ low ≠ '\\') :
    Escaped c ['\\', 'u', '0', '0', high, low]

/-- The two digits of a control character name it. -/
theorem escaped_controlEscape (hc : c.toNat < 0x20) : Escaped c (controlEscape c) := by
  have hdigits : ∀ n : Fin 32,
      Number.digitsIn? 16 ['0', '0', if n.val < 16 then '0' else '1', Nat.digitChar (n.val % 16)] =
        some n.val ∧
      Nat.digitChar (n.val % 16) ≠ '"' ∧ Nat.digitChar (n.val % 16) ≠ '\\' := by
    decide
  obtain ⟨hvalue, hlow⟩ := hdigits ⟨c.toNat, hc⟩
  refine .code ?_ ?_ hlow
  · rw [hexPiece?, hvalue]
    show some _ = _
    rw [if_neg (by omega), Char.ofNat_toNat]
  · split <;> decide

/-- Characters are written in one of these ways. -/
theorem escaped_escape (c : Char) : Escaped c (escape c) := by
  unfold escape
  by_cases hspecial : c = '"' ∨ c = '\\'
  · rw [if_pos hspecial]
    rcases hspecial with rfl | rfl <;> exact .letter rfl
  · rw [if_neg hspecial]
    -- The letters of control characters come before their numbers.
    repeat
      split
      · rename_i h
        exact h ▸ .letter rfl
    split
    · exact escaped_controlEscape ‹_›
    · exact .plain (fun h => hspecial (.inl h)) (fun h => hspecial (.inr h)) ‹_›

theorem splitString_cons (hquote : c ≠ '"') (hslash : c ≠ '\\') (tail : List Char) :
    splitString (c :: tail) = (splitString tail).map fun (body, rest) => (c :: body, rest) := by
  rw [splitString]
  · exact hquote
  · exact fun _ _ h => absurd h hslash

theorem splitString_escaped {text : List Char} (h : Escaped c text) (tail : List Char) :
    splitString (text ++ tail) =
      (splitString tail).map fun (body, rest) => (text ++ body, rest) := by
  cases h with
  | plain hquote hslash => exact splitString_cons hquote hslash tail
  | letter => rfl
  | @code high low _ hhigh hlow =>
    simp only [List.cons_append, List.nil_append, splitString]
    rw [splitString_cons (by decide) (by decide), splitString_cons (by decide) (by decide),
      splitString_cons hhigh.1 hhigh.2, splitString_cons hlow.1 hlow.2]
    simp only [Option.map_map]
    rfl

/-- A text is passed over up to its closing quote. -/
theorem splitString_escape (cs rest : List Char) :
    splitString (cs.flatMap escape ++ '"' :: rest) = some (cs.flatMap escape, rest) := by
  induction cs with
  | nil => rfl
  | cons c cs ih =>
    rw [List.flatMap_cons, List.append_assoc, splitString_escaped (escaped_escape c), ih]
    rfl

theorem pieces?_escaped {text : List Char} (h : Escaped c text) (tail : List Char) :
    pieces? (text ++ tail) = (pieces? tail).map (.char c :: ·) := by
  cases h with
  | plain hquote hslash hcontrol =>
    rw [List.singleton_append, pieces?, if_neg hcontrol]
    · cases pieces? tail <;> rfl
    · exact fun _ _ _ _ _ h => absurd h hslash
    · exact fun _ _ h => absurd h hslash
  | letter hl =>
    rw [List.cons_append, List.singleton_append, pieces?, hl]
    · cases pieces? tail <;> rfl
    · rintro _ _ _ _ _ rfl
      cases hl
  | code hcode =>
    simp only [List.cons_append, List.nil_append]
    rw [pieces?, hcode]
    cases pieces? tail <;> rfl

theorem pieces?_escape (cs : List Char) : pieces? (cs.flatMap escape) = some (cs.map .char) := by
  induction cs with
  | nil => rfl
  | cons c cs ih =>
    rw [List.flatMap_cons, pieces?_escaped (escaped_escape c), ih]
    rfl

theorem joinPieces?_char (cs : List Char) : joinPieces? (cs.map .char) = some cs := by
  induction cs with
  | nil => rfl
  | cons c cs ih => rw [List.map_cons, joinPieces?, ih, Option.map_some]

/-- **A text between quotes is read back.** -/
theorem readString?_escape (text : String) (rest : List Char) :
    readString? (text.toList.flatMap escape ++ '"' :: rest) = some (some text, rest) := by
  have hvalue : (joinPieces? (text.toList.map .char)).map String.ofList = some text := by
    rw [joinPieces?_char, Option.map_some, String.ofList_toList]
  rw [readString?, splitString_escape, Option.bind_eq_bind, Option.bind_some]
  dsimp only
  rw [pieces?_escape, Option.bind_eq_bind, Option.bind_some, hvalue]
  rfl

end WaterNetwork.Json
