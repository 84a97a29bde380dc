import WaterNetwork.Proofs.Path
import WaterNetwork.Proofs.Refusal

/-!
# Data files beside a document

The data files of a model are named from the directory that holds its document. For a document
whose path ends with a name, that is the place which the path gives up to this name, so a data file
is looked for where its own path leads from there. The path of the document may be written with
more slashes and dots than it needs: they are no steps, and all that is said here is said of steps.

* `prepare_eq_iff` — a definition with a data file is prepared by what stands at one path.
* `prepare_beside_document` — which path that is.
-/

namespace WaterNetwork

open WaterNetwork.Path

namespace Definition

variable {files : FileSystem} {name : String} {url : Path} {column : Option String}
  {result : Except ParameterError Definition}

/-- **What comes of a data file that is looked for at a place**: a regular file there is named in
the definition; if there is none, or the place cannot be looked at, it is named in the report. A
definition that names no file is refused before any place is looked at. -/
inductive LookedFor (files : FileSystem) (name : String) (url : Path) (column : Option String)
    (file : Path) : Except ParameterError Definition → Prop where
  | unnamed {source : ValueError} : url = "" → (timeseries url column).check = .error source →
    LookedFor files name url column file (.error (.invalid name source))
  | regular {bytes : ByteArray} : url ≠ "" → files.inspect file = .ok (.file bytes) →
    LookedFor files name url column file (.ok (.timeseries file column))
  | irregular {entry : FileEntry} : url ≠ "" → files.inspect file = .ok entry →
    (∀ bytes, entry ≠ .file bytes) →
    LookedFor files name url column file (.error (.missingDataFile name file))
  | absent : url ≠ "" → files.inspect file = .error .notFound →
    LookedFor files name url column file (.error (.missingDataFile name file))
  | unreadable {fault : FileFault} : url ≠ "" → files.inspect file = .error fault →
    fault ≠ .notFound →
    LookedFor files name url column file (.error (.unreadableDataFile name file fault))

theorem check_timeseries_eq_ok_iff : (timeseries url column).check = .ok () ↔ url ≠ "" := by
  rw [check]
  split <;> simp_all

/-- A definition with a data file is prepared by what stands where its path leads. -/
theorem prepare_eq_iff {site : Site} :
    (timeseries url column).prepare site name = result ↔
      LookedFor site.files name url column (site.path.join url) result := by
  cases hcheck : (timeseries url column).check with
  | error source =>
    have hurl : url = "" := by
      by_contra hne
      rw [check_timeseries_eq_ok_iff.mpr hne] at hcheck
      cases hcheck
    rw [prepare_of_check_error hcheck]
    constructor
    · rintro rfl
      exact .unnamed hurl hcheck
    · intro h
      cases h with
      | unnamed _ h =>
        rw [hcheck] at h
        cases h
        rfl
      | regular hne | irregular hne | absent hne | unreadable hne => exact absurd hurl hne
  | ok u =>
    have hurl := check_timeseries_eq_ok_iff.mp hcheck
    rw [prepare_of_check_ok hcheck]
    constructor
    · intro h
      cases result with
      | ok d =>
        obtain ⟨⟨bytes, hfile⟩, rfl⟩ := anchor_eq_ok_iff.mp h
        exact .regular hurl hfile
      | error e =>
        cases anchor_eq_error_iff.mp h with
        | absent hfile => exact .absent hurl hfile
        | irregular hfile hentry => exact .irregular hurl hfile hentry
        | unreadable hfile hfault => exact .unreadable hurl hfile hfault
    · intro h
      cases h with
      | unnamed hempty => exact absurd hempty hurl
      | regular _ hfile => exact anchor_eq_ok_iff.mpr ⟨⟨_, hfile⟩, rfl⟩
      | irregular _ hfile hentry => exact anchor_eq_error_iff.mpr (.irregular hfile hentry)
      | absent _ hfile => exact anchor_eq_error_iff.mpr (.absent hfile)
      | unreadable _ hfile hfault => exact anchor_eq_error_iff.mpr (.unreadable hfile hfault)

/-- **Where a data file is looked for**, if data files are named from the directory of a document.
For a document whose path ends with a name, and a path made of names, the place has the steps of
the document, the last one replaced by these names; a document that is named by itself stands
where one stands. A rooted path is looked for as it is, whatever the document. -/
theorem prepare_beside_document (document url : Path) :
    ∃ file : Path,
      (∀ (holder : List Component) (last : String) (names : List String),
        document.components = holder ++ [.name last] → url.components = names.map .name →
        file.components = (if holder = [] then [.here] else holder) ++ names.map .name) ∧
      (url.isAbsolute = true → file = url) ∧
      ∀ files name column result,
        (timeseries url column).prepare ⟨files, document.directory⟩ name = result ↔
          LookedFor files name url column file result := by
  refine ⟨document.directory.join url, ?_, fun h => join_of_isAbsolute h _,
    fun _ _ _ _ => prepare_eq_iff⟩
  intro holder last names hdocument hurl
  obtain ⟨hrelative, hsteps⟩ := steps_of_components_eq_names hurl
  rw [components_join (directory_ne_empty document) hrelative, hsteps,
    components_directory hdocument nofun]

/-- A directory with a model and, below it, a data file. -/
def thames : FileSystem where
  entries := [([], .directory), (["thames"], .directory), (["thames", "flows"], .directory),
    (["thames", "flows", "in.csv"], .file ByteArray.empty)]
  current := []

/-- Slashes and dots in and after the path of a document lead no data file astray. -/
theorem prepare_beside_document_thames :
    (timeseries "flows//in.csv" none).prepare ⟨thames, directory "thames//./model.yaml/"⟩ "inflow" =
        .ok (.timeseries "thames/flows//in.csv" none) ∧
      components "thames/flows//in.csv" = [.name "thames", .name "flows", .name "in.csv"] := by
  have hplace : (directory "thames//./model.yaml/").join "flows//in.csv" =
      "thames/flows//in.csv" := by decide
  have hfile : thames.inspect "thames/flows//in.csv" = .ok (.file ByteArray.empty) := rfl
  have hprepare : (timeseries "flows//in.csv" none).prepare
      ⟨thames, directory "thames//./model.yaml/"⟩ "inflow" =
        .ok (.timeseries "thames/flows//in.csv" none) := by
    rw [prepare_eq_iff, hplace]
    exact .regular (by decide) hfile
  obtain ⟨file, hbeside, -, hlooked⟩ :=
    prepare_beside_document "thames//./model.yaml/" "flows//in.csv"
  refine ⟨hprepare, ?_⟩
  cases (hlooked ..).mp hprepare with
  | regular _ _ => exact hbeside [.name "thames"] "model.yaml" ["flows", "in.csv"] rfl rfl

end Definition

end WaterNetwork
