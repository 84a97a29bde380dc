import WaterNetwork.Content.Fields
import WaterNetwork.Proofs.Content.Grammar

/-!
# Entries under a key

What is read from entries does not depend on their order, and can be said key by key: under each
there stands at most one content. `Once` is this for one key. The entries of parts, in some order,
are those that have one of the parts under each of their names and nothing else.

* `perm_given_iff`, `named_perm_given_iff` — when entries, or the named ones among them, are those
  of parts.
* `readTagged_eq_ok_iff` — a tagged value shows the tag that stands once under its key, or the one
  that it starts with.
-/

namespace WaterNetwork

/-! ### Steps -/

/-- What a sequence of two steps yields. -/
theorem bind_eq_ok_iff {ε α β : Type} {x : Except ε α} {g : α → Except ε β} {b : β} :
    x >>= g = .ok b ↔ ∃ a, x = .ok a ∧ g a = .ok b := by
  cases x <;> simp [bind, Except.bind]

theorem map_eq_ok_iff {ε α β : Type} {x : Except ε α} {g : α → β} {b : β} :
    x.map g = .ok b ↔ ∃ a, x = .ok a ∧ g a = b := by
  cases x <;> simp [Except.map]

/-! ### Taking a value once -/

/-- **A value taken at most once** from a list: nothing is there, and the old value is kept, or one
thing is there, and there was no value. -/
inductive Once {α β : Type} (P : α → β → Prop) : Option β → List α → Option β → Prop where
  | kept (b? : Option β) : Once P b? [] b?
  | taken {a : α} {b : β} : P a b → Once P none [a] (some b)

namespace Once

variable {α β : Type} {P : α → β → Prop} {old new : Option β} {a : α} {as : List α} {b : β}

theorem nil_iff : Once P old [] new ↔ new = old := by
  constructor
  · rintro ⟨⟩
    rfl
  · rintro rfl
    exact .kept _

theorem cons_iff : Once P old (a :: as) new ↔ old = none ∧ ∃ b, P a b ∧ Once P (some b) as new := by
  constructor
  · rintro (_ | h)
    exact ⟨rfl, _, h, .kept _⟩
  · rintro ⟨rfl, b, hb, h⟩
    cases h
    exact .taken hb

/-- From no value to a value. -/
theorem none_some_iff : Once P none as (some b) ↔ ∃ a, as = [a] ∧ P a b := by
  constructor
  · rintro (_ | h)
    exact ⟨_, rfl, h⟩
  · rintro ⟨a, rfl, h⟩
    exact .taken h

end Once

/-! ### Entries under a key -/

namespace Content

variable {key other : String} {c : Content} {c? : Option Content} {es : List (String × Content)}
  {parts : List (String × Option Content)}

theorem keyed_injective : Function.Injective keyed := by
  refine List.map_injective_iff.mpr fun e e' h => ?_
  obtain ⟨hkey, hc⟩ := Prod.mk.inj h
  exact Prod.ext (string.inj hkey) hc

/-- The entries under other keys. -/
def beside (key : String) (es : List (String × Content)) : List (String × Content) :=
  es.filter (·.1 ≠ key)

@[simp] theorem under_nil : under key [] = [] := rfl

theorem under_cons_self : under key ((key, c) :: es) = c :: under key es := by simp [under]

theorem under_cons_of_ne (h : other ≠ key) : under key ((other, c) :: es) = under key es := by
  simp [under, h]

theorem beside_cons_self : beside key ((key, c) :: es) = beside key es :=
  List.filter_cons_of_neg (by simp)

theorem beside_cons_of_ne (h : other ≠ key) :
    beside key ((other, c) :: es) = (other, c) :: beside key es :=
  List.filter_cons_of_pos (by simpa using h)

theorem under_filter {p : String → Bool} (h : p key = true) :
    under key (es.filter fun e => p e.1) = under key es := by
  rw [under, List.filter_filter, under]
  refine congrArg (List.map _) (List.filter_congr fun e _ => ?_)
  by_cases he : e.1 = key
  · simp [he, h]
  · simp [he]

theorem filter_eq_map_under (key : String) (es : List (String × Content)) :
    es.filter (·.1 = key) = (under key es).map (key, ·) := by
  rw [under, List.map_map]
  refine (List.map_id _).symm.trans (List.map_congr_left fun e he => ?_)
  have hkey : e.1 = key := by simpa using (List.mem_filter.mp he).2
  exact Prod.ext hkey rfl

theorem perm_toList_iff {α : Type} {as : List α} {a? : Option α} :
    as.Perm a?.toList ↔ as = a?.toList := by
  cases a? with
  | none => exact List.perm_nil
  | some a => exact List.perm_singleton

theorem given_cons : given ((key, c?) :: parts) = c?.toList.map (key, ·) ++ given parts := by
  cases c? <;> rfl

theorem key_ne_of_mem_given (h : key ∉ parts.map (·.1)) {e : String × Content}
    (he : e ∈ given parts) : e.1 ≠ key := by
  obtain ⟨part, hpart, hc⟩ := List.mem_filterMap.mp he
  obtain ⟨c, -, rfl⟩ := Option.map_eq_some_iff.mp hc
  rintro rfl
  exact h (List.mem_map_of_mem hpart)

theorem under_given_cons (h : key ∉ parts.map (·.1)) :
    under key (given ((key, c?) :: parts)) = c?.toList := by
  have hnone : under key (given parts) = [] := by
    rw [under, List.filter_eq_nil_iff.mpr fun e he => by simpa using key_ne_of_mem_given h he,
      List.map_nil]
  cases c? with
  | none => exact hnone
  | some c => exact under_cons_self.trans (congrArg (c :: ·) hnone)

theorem beside_given_cons (h : key ∉ parts.map (·.1)) :
    beside key (given ((key, c?) :: parts)) = given parts := by
  have hall : beside key (given parts) = given parts :=
    List.filter_eq_self.mpr fun e he => by simpa using key_ne_of_mem_given h he
  cases c? with
  | none => exact hall
  | some c => exact (List.filter_cons_of_neg (by simp)).trans hall

/-- Entries are those of one part and of others, in some order, just if the part is what stands
under its name and the rest are those of the others. -/
theorem perm_given_cons_iff (h : key ∉ parts.map (·.1)) :
    es.Perm (given ((key, c?) :: parts)) ↔
      under key es = c?.toList ∧ (beside key es).Perm (given parts) := by
  constructor
  · intro hperm
    have hunder : (under key es).Perm (under key (given ((key, c?) :: parts))) :=
      (hperm.filter _).map _
    have hbeside : (beside key es).Perm (beside key (given ((key, c?) :: parts))) :=
      hperm.filter _
    rw [under_given_cons h] at hunder
    rw [beside_given_cons h] at hbeside
    exact ⟨perm_toList_iff.mp hunder, hbeside⟩
  · rintro ⟨hunder, hbeside⟩
    have hsplit := List.filter_append_perm (fun e : String × Content => decide (e.1 = key)) es
    rw [filter_eq_map_under, hunder] at hsplit
    rw [given_cons]
    refine hsplit.symm.trans (List.Perm.append_left _ ?_)
    simpa [beside] using hbeside

/-- What stands under the name of each part is that part. -/
def Gives (es : List (String × Content)) (parts : List (String × Option Content)) : Prop :=
  ∀ part ∈ parts, under part.1 es = part.2.toList

theorem gives_cons : Gives es ((key, c?) :: parts) ↔ under key es = c?.toList ∧ Gives es parts :=
  List.forall_mem_cons

theorem gives_filter_iff {p : String → Bool} (h : ∀ part ∈ parts, p part.1 = true) :
    Gives (es.filter fun e => p e.1) parts ↔ Gives es parts :=
  forall₂_congr fun part hpart => by rw [under_filter (h part hpart)]

theorem gives_beside_iff (h : key ∉ parts.map (·.1)) :
    Gives (beside key es) parts ↔ Gives es parts :=
  gives_filter_iff (p := (· ≠ key)) fun part hpart => by
    simpa using fun heq : part.1 = key => h (heq ▸ List.mem_map_of_mem hpart)

/-- **Entries and parts**: entries are those of the parts, in some order, just if all keys are names
of parts and each part is what stands under its name. -/
theorem perm_given_iff (h : (parts.map (·.1)).Nodup) :
    es.Perm (given parts) ↔ (∀ e ∈ es, e.1 ∈ parts.map (·.1)) ∧ Gives es parts := by
  induction parts generalizing es with
  | nil => simp [given, Gives, List.eq_nil_iff_forall_not_mem]
  | cons part parts ih =>
    obtain ⟨key, c?⟩ := part
    rw [List.map_cons, List.nodup_cons] at h
    rw [perm_given_cons_iff h.1, ih h.2, gives_cons, gives_beside_iff h.1]
    have hkeys : (∀ e ∈ beside key es, e.1 ∈ parts.map (·.1)) ↔
        ∀ e ∈ es, e.1 ∈ ((key, c?) :: parts).map (·.1) := by
      simp only [beside, List.mem_filter, decide_eq_true_eq, List.map_cons, List.mem_cons, and_imp]
      exact forall₂_congr fun e _ => (Decidable.or_iff_not_imp_left).symm
    rw [hkeys]
    tauto

/-- Among other entries, the named ones are those of the parts just if each part is what stands
under its name. -/
theorem named_perm_given_iff (h : (parts.map (·.1)).Nodup) :
    (named parts es).Perm (given parts) ↔ Gives es parts := by
  rw [perm_given_iff h, named]
  constructor
  · rintro ⟨-, hgives⟩
    exact (gives_filter_iff (p := (· ∈ parts.map (·.1)))
      fun part hpart => by simpa using ⟨part.2, hpart⟩).mp hgives
  · intro hgives
    refine ⟨fun e he => by simpa using (List.mem_filter.mp he).2, ?_⟩
    exact (gives_filter_iff (p := (· ∈ parts.map (·.1)))
      fun part hpart => by simpa using ⟨part.2, hpart⟩).mpr hgives

end Content

/-! ### Tags -/

namespace Content

variable {κ : Type} {type : String} {readTag : Content → Except Mismatch κ} {tag : κ} {body : Body}
  {cs : List Content} {es : List (String × Content)}

/-- The tag is what stands once under its key, and the other entries are kept. -/
theorem splitTag_keyed_iff {tag? : Option κ} {others : List (Content × Content)} :
    splitTag readTag tag? (keyed es) = .ok (tag, others) ↔
      Once (fun c k => readTag c = .ok k) tag? (under tagKey es) (some tag) ∧
        others = keyed (beside tagKey es) := by
  induction es generalizing tag tag? others with
  | nil =>
    cases tag? with
    | none => simp [keyed, splitTag, Once.nil_iff]
    | some old => simp [keyed, splitTag, Once.nil_iff, beside, eq_comm]
  | cons e es ih =>
    obtain ⟨key, c⟩ := e
    show splitTag readTag tag? ((.string key, c) :: keyed es) = _ ↔ _
    by_cases hkey : key = tagKey
    · subst hkey
      rw [under_cons_self, Once.cons_iff, beside_cons_self]
      cases tag? with
      | some old =>
        rw [splitTag, if_pos rfl]
        simp
      | none =>
        rw [splitTag, if_pos rfl]
        simp only [bind_eq_ok_iff, ih, true_and, exists_and_right, ← and_assoc]
    · have hstep : splitTag readTag tag? ((.string key, c) :: keyed es) =
          splitTag readTag tag? (keyed es) >>= fun result =>
            .ok (result.1, (.string key, c) :: result.2) := by
        cases tag? <;> rw [splitTag, if_neg hkey] <;> rfl
      rw [hstep, under_cons_of_ne hkey, beside_cons_of_ne hkey]
      simp only [bind_eq_ok_iff, Prod.exists, ih, Except.ok.injEq, Prod.mk.injEq]
      constructor
      · rintro ⟨_, _, ⟨honce, rfl⟩, rfl, rfl⟩
        exact ⟨honce, rfl⟩
      · rintro ⟨honce, rfl⟩
        exact ⟨_, _, ⟨honce, rfl⟩, rfl, rfl⟩

/-- A tagged record shows the tag that stands once under its key, and the other entries. -/
theorem readTagged_record_iff :
    (record es).readTagged type readTag = .ok (tag, body) ↔
      ∃ c, under tagKey es = [c] ∧ readTag c = .ok tag ∧
        body = .fields (keyed (beside tagKey es)) := by
  rw [record, readTagged, bind_eq_ok_iff]
  simp only [Prod.exists, splitTag_keyed_iff, Once.none_some_iff, pure, Except.pure,
    Except.ok.injEq, Prod.mk.injEq]
  constructor
  · rintro ⟨_, _, ⟨⟨c, hunder, htag⟩, rfl⟩, rfl, rfl⟩
    exact ⟨c, hunder, htag, rfl⟩
  · rintro ⟨c, hunder, htag, rfl⟩
    exact ⟨_, _, ⟨⟨c, hunder, htag⟩, rfl⟩, rfl, rfl⟩

/-- A tagged sequence shows the tag that it starts with, and the other items. -/
theorem readTagged_sequence_iff :
    (sequence cs).readTagged type readTag = .ok (tag, body) ↔
      ∃ c items, cs = c :: items ∧ readTag c = .ok tag ∧ body = .items items := by
  cases cs with
  | nil => simp [readTagged]
  | cons c items =>
    rw [readTagged]
    simp only [bind_eq_ok_iff, pure, Except.pure, Except.ok.injEq, Prod.mk.injEq, List.cons.injEq]
    constructor
    · rintro ⟨_, htag, rfl, rfl⟩
      exact ⟨c, items, ⟨rfl, rfl⟩, htag, rfl⟩
    · rintro ⟨_, _, ⟨rfl, rfl⟩, htag, rfl⟩
      exact ⟨_, htag, rfl, rfl⟩

/-- The keys of a mapping are texts. -/
def HasTextKeys (c : Content) : Prop := ∀ entries, c = mapping entries → ∃ es, c = record es

/-- A tagged value whose keys are texts is a record or a sequence. -/
theorem readTagged_eq_ok_iff {c : Content} (hc : c.HasTextKeys) :
    c.readTagged type readTag = .ok (tag, body) ↔
      (∃ es type, c = record es ∧ under tagKey es = [type] ∧ readTag type = .ok tag ∧
        body = .fields (keyed (beside tagKey es))) ∨
      ∃ type items, c = sequence (type :: items) ∧ readTag type = .ok tag ∧
        body = .items items := by
  cases c with
  | mapping entries =>
    obtain ⟨es, hes⟩ := hc entries rfl
    rw [hes, readTagged_record_iff]
    constructor
    · rintro ⟨type, hunder, htag, rfl⟩
      exact .inl ⟨es, type, rfl, hunder, htag, rfl⟩
    · rintro (⟨es', type, hrecord, hunder, htag, rfl⟩ | ⟨_, _, ⟨⟩, -⟩)
      obtain rfl := keyed_injective (mapping.inj hrecord)
      exact ⟨type, hunder, htag, rfl⟩
  | sequence cs =>
    rw [readTagged_sequence_iff]
    constructor
    · rintro ⟨type, items, rfl, htag, rfl⟩
      exact .inr ⟨type, items, rfl, htag, rfl⟩
    · rintro (⟨_, _, ⟨⟩, -⟩ | ⟨type, items, hsequence, htag, rfl⟩)
      exact ⟨type, items, sequence.inj hsequence, htag, rfl⟩
  | _ =>
    constructor
    · rintro ⟨⟩
    · rintro (⟨_, _, ⟨⟩, -⟩ | ⟨_, _, ⟨⟩, -⟩)

end Content

end WaterNetwork
