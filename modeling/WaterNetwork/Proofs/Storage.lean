import WaterNetwork.Proofs.FileSystem
import WaterNetwork.Proofs.Json.Document

/-!
# Documents that have been saved as JSON

A document is saved just if it is valid and its file can be written, and what is saved is read
back. A valid document is read back as a whole if its numbers are finite and the reader of numbers
inverts their writer. If a number is not finite, either nothing is read back or a number that may be
left out is missing without a word.

* `save_load_json` — a document of finite numbers is saved just if it is valid, and then loaded
  again.
* `load_json_of_save` — what is loaded from a file that has been saved, and when it is the
  document.
-/

namespace WaterNetwork

namespace Document

variable {format : Format} {files files' : FileSystem} {path : Path} {d d' : Document}
  {flaw : ValidationError} {e : StorageError}

/-- What is left of a document has the same names, so it is as valid as the document. -/
theorem validate_kept (back : Float → Option Float) (d : Document) :
    (d.kept back).validate = d.validate := by
  have hparameters : (d.kept back).parameterNames = d.parameterNames := by
    rw [parameterNames, kept, List.map_map]
    rfl
  have hnodes : (d.kept back).nodeNames = d.nodeNames := by
    rw [nodeNames, kept, List.map_map]
    refine List.map_congr_left fun n _ => ?_
    cases n <;> rfl
  rw [validate, hparameters, hnodes, validate]
  rfl

/-- A document that is not valid is not written. -/
theorem save_of_validate_error (format : Format) (files : FileSystem) (path : Path)
    (h : d.validate = .error flaw) :
    d.save format files path = .error (.validation flaw) := by
  rw [save, h]
  rfl

theorem save_of_validate_ok (h : d.validate = .ok ()) :
    d.save format files path =
      (files.writeText path (format.encode d)).mapError .file := by
  rw [save, h]
  rfl

theorem load_of_readText {text : String} (h : files.readText path = .ok text) :
    load format files path = format.decode text >>= fun d =>
      d.validate.mapError .validation >>= fun _ => .ok d := by
  rw [load, h]
  rfl

/-- **A valid document is loaded** from its text, as far as it has been kept, just if no text of a
number is out of range and all required numbers come back. -/
theorem recovers_load (hvalid : d.validate = .ok ())
    (hread : files.readText path = .ok (Format.json.encode d)) :
    Recovers (load .json files path)
      ((∀ x ∈ d.numbers, Json.Legible x) ∧ AllBack Json.reread? d.requiredNumbers)
      (d.kept Json.reread?) := by
  rw [load_of_readText hread]
  refine (recovers_decode d).andThen ?_
  rw [validate_kept, hvalid]
  rfl

/-- No document is read from an empty file. -/
theorem decode_json_empty : Format.json.decode "" = .error .malformedJson := by
  rfl

theorem save_eq_ok_iff : d.save format files path = .ok files' ↔
    d.validate = .ok () ∧ files.writeText path (format.encode d) = .ok files' := by
  cases hvalid : d.validate with
  | error flaw => simp [save_of_validate_error format files path hvalid]
  | ok u =>
    rw [save_of_validate_ok hvalid]
    cases files.writeText path (format.encode d) <;> simp [Except.mapError]

/-- A valid document is saved where a path is writable. -/
theorem exists_save (format : Format) (hfiles : files.Rooted) (hpath : files.Writable path)
    (hvalid : d.validate = .ok ()) : ∃ files', d.save format files path = .ok files' ∧
      files'.readText path = .ok (format.encode d) := by
  obtain ⟨files', hwrite, hread⟩ :=
    FileSystem.exists_writeText hfiles hpath (format.encode d)
  exact ⟨files', save_eq_ok_iff.mpr ⟨hvalid, hwrite⟩, hread⟩

/-- **What is loaded from a file that has been saved** is what has been kept, so it is the document
just if all its numbers are. Where the reader of numbers inverts their writer, these are the finite
ones, and it is the document just if the numbers that may be left out are finite; the others have
to be. -/
theorem load_json_of_save (hsave : d.save .json files path = .ok files')
    (hload : load .json files' path = .ok d') :
    d' = d.kept Json.reread? ∧ (∀ x ∈ d.requiredNumbers, Number.isFinite x = true) ∧
      (d' = d ↔ ∀ x ∈ d.numbers, Json.Keeps x) ∧
      (Json.InvertsOn d.numbers →
        (d' = d ↔ ∀ x ∈ d.optionalNumbers, Number.isFinite x = true)) := by
  obtain ⟨hvalid, hwrite⟩ := save_eq_ok_iff.mp hsave
  obtain ⟨text, hread⟩ : ∃ text, files'.readText path = .ok text := by
    cases hread : files'.readText path with
    | ok text => exact ⟨text, rfl⟩
    | error fault =>
      rw [load, hread] at hload
      cases hload
  obtain rfl | rfl := FileSystem.readText_of_writeText hwrite hread
  · obtain ⟨⟨-, hback⟩, rfl⟩ := (recovers_load hvalid hread).eq_ok_iff.mp hload
    have hrequired : ∀ x ∈ d.requiredNumbers, Number.isFinite x = true := fun x hx =>
      Json.isFinite_of_isSome_reread? (hback x hx)
    have hkept : d.kept Json.reread? = d ↔ ∀ x ∈ d.numbers, Json.Keeps x := kept_eq_self_iff hback
    refine ⟨rfl, hrequired, hkept, fun hinverse => ?_⟩
    have hfinite : (∀ x ∈ d.numbers, Json.Keeps x) ↔ ∀ x ∈ d.numbers, Number.isFinite x = true :=
      forall₂_congr fun x hx => hinverse.keeps_iff hx
    rw [hkept, hfinite]
    simp only [mem_numbers_iff, or_imp, forall_and]
    exact and_iff_right hrequired
  · rw [load_of_readText hread, decode_json_empty] at hload
    cases hload

/-- A document with a cost that is not finite. -/
def boundless : Document where
  version := 1
  name := "n"
  nodes := [.flow .input "a" { cost := some (.literal (1.0 / 0.0)) }]

theorem validate_boundless : boundless.validate = .ok () := rfl

/-- What is left of the document is loaded: no required number is missing. -/
theorem recovers_boundless : (∀ x ∈ boundless.numbers, Json.Legible x) ∧
    AllBack Json.reread? boundless.requiredNumbers :=
  ⟨List.forall_mem_singleton.mpr fun h => absurd h (by decide), List.forall_mem_nil _⟩

/-- The document with that cost is saved, and loaded as another one. -/
theorem load_json_of_save_boundless : ∃ files' d',
    boundless.save .json .scratch "model.json" = .ok files' ∧
      load .json files' "model.json" = .ok d' ∧ d' = boundless.kept Json.reread? ∧
      d' ≠ boundless := by
  obtain ⟨files', hsave, hread⟩ :=
    exists_save .json FileSystem.rooted_scratch FileSystem.writable_scratch validate_boundless
  have hload := (recovers_load validate_boundless hread).eq_ok recovers_boundless
  obtain ⟨hkept, -, hiff, -⟩ := load_json_of_save hsave hload
  refine ⟨files', _, hsave, hload, hkept, fun heq => ?_⟩
  exact absurd (hiff.mp heq _ List.mem_cons_self).isFinite (by decide)

/-- The cost is gone without a word. -/
theorem load_json_boundless : ∃ files',
    boundless.save .json .scratch "model.json" = .ok files' ∧
      load .json files' "model.json" = .ok { boundless with nodes := [.flow .input "a" {}] } := by
  obtain ⟨files', hsave, hread⟩ :=
    exists_save .json FileSystem.rooted_scratch FileSystem.writable_scratch validate_boundless
  have hload := (recovers_load validate_boundless hread).eq_ok recovers_boundless
  exact ⟨files', hsave, hload⟩

end Document

end WaterNetwork
