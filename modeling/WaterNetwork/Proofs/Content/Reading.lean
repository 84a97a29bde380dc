import WaterNetwork.Content.Fields
import WaterNetwork.Proofs.Content

/-!
# Reading back what is left

A reader that is given what is left of a content gives a value back just if the numbers that it
cannot do without have come back. `Recovers` says this of a single reading, with the condition; it
goes from the parts of a value to the whole, so the condition on a whole is that on its parts, one
after the other.

* `Recovers.bind`, `Recovers.mapM` — from parts to the whole.
* `recovers_readNumber` — a number is read just if it comes back.
-/

namespace WaterNetwork

/-- **A reading that gives `a` back** just if a condition holds. -/
inductive Recovers {ε α : Type} : Except ε α → Prop → α → Prop where
  | ok {p : Prop} {a : α} (h : p) : Recovers (.ok a) p a
  | error {p : Prop} {e : ε} {a : α} (h : ¬ p) : Recovers (.error e) p a

namespace Recovers

variable {ε ε' α β : Type} {r : Except ε α} {p q : Prop} {a a' : α} {b : β}

theorem eq_ok_iff (h : Recovers r p a) : r = .ok a' ↔ p ∧ a' = a := by
  cases h with
  | ok h => exact ⟨fun heq => ⟨h, (Except.ok.inj heq).symm⟩, fun ⟨_, heq⟩ => heq ▸ rfl⟩
  | error h => exact ⟨fun heq => (nomatch heq), fun ⟨hp, _⟩ => (h hp).elim⟩

theorem eq_ok (h : Recovers r p a) (hp : p) : r = .ok a := h.eq_ok_iff.mpr ⟨hp, rfl⟩

theorem of_eq (h : r = .ok a) : Recovers r True a := h ▸ .ok trivial

theorem congr (h : Recovers r p a) (hpq : p ↔ q) : Recovers r q a := propext hpq ▸ h

theorem bind {f : α → Except ε β} (h : Recovers r p a) (hf : Recovers (f a) q b) :
    Recovers (r >>= f) (p ∧ q) b := by
  cases h with
  | ok hp => exact hf.congr (and_iff_right hp).symm
  | error hp => exact .error fun hall => hp hall.1

theorem andThen {f : α → Except ε β} (h : Recovers r p a) (hf : f a = .ok b) :
    Recovers (r >>= f) p b :=
  (h.bind (of_eq hf)).congr (and_iff_left trivial)

theorem map (f : α → β) (h : Recovers r p a) : Recovers (r.map f) p (f a) := by
  cases h with
  | ok h => exact .ok h
  | error h => exact .error h

theorem mapError (f : ε → ε') (h : Recovers r p a) : Recovers (r.mapError f) p a := by
  cases h with
  | ok h => exact .ok h
  | error h => exact .error h

/-- What is read from a list is what is read from its items, one after the other. -/
theorem mapM {γ : Type} {read : α → Except ε β} {p : γ → Prop} {kept : γ → β} (write : γ → α)
    (cs : List γ) (h : ∀ c ∈ cs, Recovers (read (write c)) (p c) (kept c)) :
    Recovers ((cs.map write).mapM read) (∀ c ∈ cs, p c) (cs.map kept) := by
  induction cs with
  | nil => exact .ok (List.forall_mem_nil p)
  | cons c cs ih =>
    rw [List.forall_mem_cons] at h
    rw [List.map_cons, List.mapM_cons]
    refine congr ?_ List.forall_mem_cons.symm
    exact h.1.bind ((ih h.2).andThen rfl)

end Recovers

/-! ### Numbers that come back -/

/-- All of the given numbers come back. -/
def AllBack (back : Float → Option Float) (xs : List Float) : Prop :=
  ∀ x ∈ xs, (back x).isSome = true

section AllBack

variable {back : Float → Option Float} {xs ys : List Float}

theorem allBack_nil (back : Float → Option Float) : AllBack back [] := List.forall_mem_nil _

theorem allBack_some (xs : List Float) : AllBack some xs := fun _ _ => rfl

theorem allBack_singleton_iff {x : Float} : AllBack back [x] ↔ (back x).isSome = true :=
  List.forall_mem_singleton

/-- A reading that can do without numbers gives a value back. -/
theorem Recovers.of_nil {ε α : Type} {r : Except ε α} {a : α} (h : r = .ok a) :
    Recovers r (AllBack back []) a :=
  (of_eq h).congr (iff_of_true trivial (allBack_nil back))

theorem allBack_append_iff : AllBack back (xs ++ ys) ↔ AllBack back xs ∧ AllBack back ys :=
  List.forall_mem_append

theorem allBack_flatMap_iff {α : Type} {as : List α} {numbers : α → List Float} :
    AllBack back (as.flatMap numbers) ↔ ∀ a ∈ as, AllBack back (numbers a) :=
  List.forall_mem_flatMap

end AllBack

namespace Content

variable (back : Float → Option Float)

/-! ### Single values -/

/-- A number is read just if it comes back. -/
theorem recovers_readNumber (x : Float) :
    Recovers (kept back (.float x)).readNumber (AllBack back [x]) ((back x).getD x) := by
  rw [allBack_singleton_iff, kept]
  cases back x with
  | none => exact .error Bool.false_ne_true
  | some y => exact .ok rfl

theorem readNatural_kept {limit : ℕ} {n : UInt64} (expected : String) (h : n.toNat < limit) :
    (kept back (.unsigned n)).readNatural limit expected = .ok n.toNat := by
  rw [kept, readNatural, if_pos h]

/-- A variant is read from its name, if it is the first one with that name. -/
theorem readVariant_name {α : Type} {variants : List α} {name : α → String} {v : α}
    (h : variants.find? (name · == name v) = some v) :
    readVariant variants name (.string (name v)) = .ok v := by
  rw [readVariant, h]

/-- A value that may be null is read as itself unless it has been lost. -/
theorem readOptional_of_ne_null {α : Type} {read : Content → Except Mismatch α} {c : Content}
    (h : c ≠ .null) : c.readOptional read = (read c).map some := by
  cases c <;> first | rfl | exact absurd rfl h

/-- A number that may be null is gone if it does not come back. -/
theorem readOptional_readNumber_kept (x : Float) :
    (kept back (.float x)).readOptional readNumber = .ok (back x) := by
  rw [kept]
  cases back x <;> rfl

theorem readSequence_kept (expected : String) (texts : List String) :
    (kept back (.sequence (texts.map .string))).readSequence (readText "a string") expected =
      .ok texts := by
  rw [kept, readSequence, keptItems_eq_map, List.map_map]
  have hitems : Recovers ((texts.map (kept back ∘ .string)).mapM (readText "a string"))
      (∀ text ∈ texts, True) (texts.map id) := .mapM _ texts fun _ _ => .of_eq rfl
  rw [List.map_id] at hitems
  exact hitems.eq_ok fun _ _ => trivial

end Content

end WaterNetwork
