/-
`reference-data.sql`: the six tables of `schema.sql` that the script fills, the rows it inserts, and a run of it as one
transaction. The other tables refer to none of the six but for `assessment`; the script writes none of them. A column
that is a foreign key or the id of a table is an integer, `active` is 0 or 1.
-/
import BuildEngine.Base.Table
import BuildEngine.Security.Schema

namespace BuildEngine.Security

open Base.Table

/-- A value that is not NULL. `Other` are the reals and the blobs, of which the script has none. -/
inductive Cell (Other : Type) where
  | integer (i : ℤ)
  | text (s : String)
  | other (o : Other)
  deriving DecidableEq

/-! ## The tables -/

section Tables

variable (Value : Type)

/-- A row of `meta`. -/
structure Metadata where
  id : ℤ
  key : Value
  value : Value

structure Language where
  id : ℤ
  code : Value
  locale : Value
  nameNative : Value
  nameEnglish : Value
  doxygenLanguage : Value
  active : Bool

structure ReferenceCategoryRow extends ReferenceCategory Value where
  sortOrder : Value
  active : Bool

structure ReferenceCategoryText where
  id : ℤ
  categoryId : ℤ
  languageId : ℤ
  label : Value
  description : Value

structure ReferenceValueRow extends ReferenceValue Value where
  sortOrder : Value
  active : Bool

structure ReferenceValueText where
  id : ℤ
  referenceValueId : ℤ
  languageId : ℤ
  label : Value
  description : Value

structure Tables where
  metadata : List (Metadata Value)
  language : List (Language Value)
  referenceCategory : List (ReferenceCategoryRow Value)
  referenceCategoryText : List (ReferenceCategoryText Value)
  referenceValue : List (ReferenceValueRow Value)
  referenceValueText : List (ReferenceValueText Value)
  assessment : List (Assessment Value)

end Tables

/-! ## The constraints -/

section Constraints

variable {Value : Type}

/-- `id INTEGER PRIMARY KEY`, `key UNIQUE` -/
abbrev Metadata.Conflict : Metadata Value → Metadata Value → Prop := Either (Same (·.id)) (Same (·.key))

/-- `id INTEGER PRIMARY KEY`, `code UNIQUE`, `locale UNIQUE` -/
abbrev Language.Conflict : Language Value → Language Value → Prop :=
  Either (Same (·.id)) (Either (Same (·.code)) (Same (·.locale)))

/-- `id INTEGER PRIMARY KEY`, `code UNIQUE` -/
abbrev ReferenceCategoryRow.Conflict : ReferenceCategoryRow Value → ReferenceCategoryRow Value → Prop :=
  Either (Same (·.id)) (Same (·.code))

/-- `id INTEGER PRIMARY KEY`, `UNIQUE(category_id, language_id)` -/
abbrev ReferenceCategoryText.Conflict : ReferenceCategoryText Value → ReferenceCategoryText Value → Prop :=
  Either (Same (·.id)) (Same fun row => (row.categoryId, row.languageId))

/-- `id INTEGER PRIMARY KEY`, `UNIQUE(category_id, code)` -/
abbrev ReferenceValueRow.Conflict : ReferenceValueRow Value → ReferenceValueRow Value → Prop :=
  Either (Same (·.id)) (Same fun row => (row.categoryId, row.code))

/-- `id INTEGER PRIMARY KEY`, `UNIQUE(reference_value_id, language_id)` -/
abbrev ReferenceValueText.Conflict : ReferenceValueText Value → ReferenceValueText Value → Prop :=
  Either (Same (·.id)) (Same fun row => (row.referenceValueId, row.languageId))

/-- The foreign keys of the tables, and those that refer to them. -/
structure Tables.ForeignKeys (t : Tables Value) : Prop where
  text_category : Refers (t.referenceCategoryText.map (·.categoryId)) (t.referenceCategory.map (·.id))
  text_language : Refers (t.referenceCategoryText.map (·.languageId)) (t.language.map (·.id))
  value_category : Refers (t.referenceValue.map (·.categoryId)) (t.referenceCategory.map (·.id))
  text_value : Refers (t.referenceValueText.map (·.referenceValueId)) (t.referenceValue.map (·.id))
  value_language : Refers (t.referenceValueText.map (·.languageId)) (t.language.map (·.id))
  assessment : ∀ a ∈ t.assessment, Refers a.references (t.referenceValue.map (·.id))

instance (t : Tables Value) : Decidable t.ForeignKeys :=
  decidable_of_iff (Refers (t.referenceCategoryText.map (·.categoryId)) (t.referenceCategory.map (·.id)) ∧
      Refers (t.referenceCategoryText.map (·.languageId)) (t.language.map (·.id)) ∧
      Refers (t.referenceValue.map (·.categoryId)) (t.referenceCategory.map (·.id)) ∧
      Refers (t.referenceValueText.map (·.referenceValueId)) (t.referenceValue.map (·.id)) ∧
      Refers (t.referenceValueText.map (·.languageId)) (t.language.map (·.id)) ∧
      ∀ a ∈ t.assessment, Refers a.references (t.referenceValue.map (·.id)))
    ⟨fun ⟨h₁, h₂, h₃, h₄, h₅, h₆⟩ => ⟨h₁, h₂, h₃, h₄, h₅, h₆⟩,
      fun ⟨h₁, h₂, h₃, h₄, h₅, h₆⟩ => ⟨h₁, h₂, h₃, h₄, h₅, h₆⟩⟩

/-- The constraints of `schema.sql` on the tables that the types of the columns do not carry. -/
structure Tables.Satisfies (t : Tables Value) : Prop where
  metadata : Unique Metadata.Conflict t.metadata
  language : Unique Language.Conflict t.language
  referenceCategory : Unique ReferenceCategoryRow.Conflict t.referenceCategory
  referenceCategoryText : Unique ReferenceCategoryText.Conflict t.referenceCategoryText
  referenceValue : Unique ReferenceValueRow.Conflict t.referenceValue
  referenceValueText : Unique ReferenceValueText.Conflict t.referenceValueText
  foreignKeys : t.ForeignKeys

end Constraints

/-! ## The rows of the script -/

section Rows

variable {Other : Type}

def languages : List (Language (Cell Other)) :=
  List.map (fun (id, code, locale, nameNative, nameEnglish, doxygenLanguage, active) =>
      ⟨id, .text code, .text locale, .text nameNative, .text nameEnglish, .text doxygenLanguage, active⟩)
    [(1, "de", "de-DE", "Deutsch", "German", "German", true),
    (2, "en", "en-US", "English", "English", "English", true)]

def referenceCategories : List (ReferenceCategoryRow (Cell Other)) :=
  List.map (fun (id, code, sortOrder, active) =>
      ⟨⟨id, .text code⟩, .integer sortOrder, active⟩)
    [(1, "applicability", 10, true), (2, "exposure", 20, true), (3, "effective-risk", 30, true),
    (4, "decision", 40, true), (5, "reason", 50, true), (6, "publication-state", 60, true)]

def referenceCategoryTexts : List (ReferenceCategoryText (Cell Other)) :=
  List.map (fun (id, categoryId, languageId, label, description) =>
      ⟨id, categoryId, languageId, .text label, .text description⟩)
    [(1, 1, 1, "Anwendbarkeit",
      "Bewertung, ob ein Provider-Finding auf die konkrete BuildEngine-Buildkonfiguration zutrifft."),
    (2, 1, 2, "Applicability",
      "Whether a provider finding applies to the concrete BuildEngine build configuration."),
    (3, 2, 1, "Exposition", "Art und Umfang der technischen Exposition innerhalb des erzeugten Builds."),
    (4, 2, 2, "Exposure", "Type and extent of technical exposure within the generated build."),
    (5, 3, 1, "Wirksames Risiko",
      "Nach technischer Bewertung verbleibendes Risiko fuer die konkrete Buildkonfiguration."),
    (6, 3, 2, "Effective risk", "Risk remaining for the concrete build configuration after technical assessment."),
    (7, 4, 1, "Entscheidung", "Dokumentierte Entscheidung fuer das Finding."),
    (8, 4, 2, "Decision", "Documented decision for the finding."),
    (9, 5, 1, "Begruendung", "Standardisierte technische Begruendung der Entscheidung."),
    (10, 5, 2, "Reason", "Standardized technical reason for the decision."),
    (11, 6, 1, "Verteilung",
      "Legt fest, ob eine Bewertung nur lokal oder als zentrale BuildEngine-Bewertung geteilt wird."),
    (12, 6, 2, "Publication",
      "Defines whether an assessment remains local or is shared as a central BuildEngine assessment.")]

def referenceValues : List (ReferenceValueRow (Cell Other)) :=
  List.map (fun (id, categoryId, code, sortOrder, active) =>
      ⟨⟨id, categoryId, .text code⟩, .integer sortOrder, active⟩)
    [(101, 1, "unreviewed", 0, true), (102, 1, "applicable", 10, true), (103, 1, "not-applicable", 20, true),
    (104, 1, "unknown", 30, true), (201, 2, "runtime", 10, true), (202, 2, "build-time-only", 20, true),
    (203, 2, "test-only", 30, true), (204, 2, "bundled-component", 40, true), (205, 2, "optional-feature", 50, true),
    (206, 2, "not-included-in-build", 60, true), (207, 2, "not-shipped", 70, true), (208, 2, "unknown", 90, true),
    (301, 3, "none", 0, true), (302, 3, "low", 10, true), (303, 3, "medium", 20, true), (304, 3, "high", 30, true),
    (305, 3, "critical", 40, true), (306, 3, "unknown", 90, true), (401, 4, "open", 10, true),
    (402, 4, "mitigated", 20, true), (403, 4, "accepted-risk", 30, true),
    (404, 4, "fixed-by-configuration", 40, true), (405, 4, "fixed-by-update", 50, true),
    (406, 4, "closed-not-applicable", 60, true), (407, 4, "needs-investigation", 90, true),
    (501, 5, "affected-feature-disabled", 10, true), (502, 5, "affected-component-not-built", 20, true),
    (503, 5, "affected-component-not-shipped", 30, true), (504, 5, "affected-version-does-not-match", 40, true),
    (505, 5, "bundled-component-not-affected", 50, true), (506, 5, "exploit-precondition-not-present", 60, true),
    (507, 5, "mitigation-configured", 70, true), (508, 5, "patched-locally", 80, true),
    (509, 5, "updated-version", 90, true), (510, 5, "provider-mapping-mismatch", 100, true),
    (511, 5, "other", 999, true), (601, 6, "local", 10, true), (602, 6, "shared", 20, true)]

def referenceValueTexts : List (ReferenceValueText (Cell Other)) :=
  List.map (fun (id, referenceValueId, languageId, label, description) =>
      ⟨id, referenceValueId, languageId, .text label, .text description⟩)
    [(1001, 101, 1, "Nicht bewertet", "Noch keine belastbare Bewertung."),
    (1002, 101, 2, "Unreviewed", "No reliable assessment yet."),
    (1003, 102, 1, "Anwendbar", "Finding trifft auf die konkrete Buildkonfiguration zu."),
    (1004, 102, 2, "Applicable", "Finding applies to the concrete build configuration."),
    (1005, 103, 1, "Nicht anwendbar", "Finding trifft auf die konkrete Buildkonfiguration nicht zu."),
    (1006, 103, 2, "Not applicable", "Finding does not apply to the concrete build configuration."),
    (1007, 104, 1, "Unklar", "Bewertung ist noch nicht moeglich."),
    (1008, 104, 2, "Unknown", "Assessment is not yet possible."),
    (2001, 201, 1, "Laufzeit", "Betroffene Funktionalitaet ist im ausgelieferten Laufzeitpaket vorhanden."),
    (2002, 201, 2, "Runtime", "Affected functionality is present in the shipped runtime package."),
    (2003, 202, 1, "Nur Buildzeit", "Betroffene Komponente oder Funktion wird nur beim Build benoetigt."),
    (2004, 202, 2, "Build-time only", "Affected component or feature is only needed during build."),
    (2005, 203, 1, "Nur Tests", "Betroffene Komponente oder Funktion wird nur in Tests verwendet."),
    (2006, 203, 2, "Test-only", "Affected component or feature is used only in tests."),
    (2007, 204, 1, "Eingebettete Komponente", "Finding betrifft eine eingebettete Komponente."),
    (2008, 204, 2, "Bundled component", "Finding concerns a bundled component."),
    (2009, 205, 1, "Optionale Funktion", "Finding betrifft eine optionale Funktion."),
    (2010, 205, 2, "Optional feature", "Finding concerns an optional feature."),
    (2011, 206, 1, "Nicht gebaut",
      "Betroffene Funktion oder Komponente ist in dieser Buildkonfiguration nicht enthalten."),
    (2012, 206, 2, "Not included in build",
      "Affected feature or component is not included in this build configuration."),
    (2013, 207, 1, "Nicht ausgeliefert", "Betroffene Funktion oder Komponente wird nicht ausgeliefert."),
    (2014, 207, 2, "Not shipped", "Affected feature or component is not shipped."),
    (2015, 208, 1, "Unklar", "Exposition ist noch nicht bewertet."),
    (2016, 208, 2, "Unknown", "Exposure has not yet been assessed."),
    (3001, 301, 1, "Kein wirksames Risiko",
      "Fuer die konkrete Buildkonfiguration besteht nach Bewertung kein wirksames Risiko."),
    (3002, 301, 2, "None", "No effective risk remains for the concrete build configuration after assessment."),
    (3003, 302, 1, "Niedrig", "Niedriges wirksames Risiko."), (3004, 302, 2, "Low", "Low effective risk."),
    (3005, 303, 1, "Mittel", "Mittleres wirksames Risiko."), (3006, 303, 2, "Medium", "Medium effective risk."),
    (3007, 304, 1, "Hoch", "Hohes wirksames Risiko."), (3008, 304, 2, "High", "High effective risk."),
    (3009, 305, 1, "Kritisch", "Kritisches wirksames Risiko."),
    (3010, 305, 2, "Critical", "Critical effective risk."),
    (3011, 306, 1, "Unklar", "Wirksames Risiko ist noch nicht bewertet."),
    (3012, 306, 2, "Unknown", "Effective risk has not yet been assessed."),
    (4001, 401, 1, "Offen", "Finding ist offen."), (4002, 401, 2, "Open", "Finding is open."),
    (4003, 402, 1, "Mitigiert", "Risiko ist durch eine dokumentierte Massnahme reduziert."),
    (4004, 402, 2, "Mitigated", "Risk is reduced by a documented mitigation."),
    (4005, 403, 1, "Risiko akzeptiert", "Bekanntes Risiko wurde bewusst akzeptiert."),
    (4006, 403, 2, "Accepted risk", "Known risk has been explicitly accepted."),
    (4007, 404, 1, "Durch Konfiguration ausgeschlossen",
      "Die Buildkonfiguration schliesst die betroffene Funktionalitaet aus."),
    (4008, 404, 2, "Fixed by configuration", "The build configuration excludes the affected functionality."),
    (4009, 405, 1, "Durch Update behoben", "Das Finding wurde durch ein Update behoben."),
    (4010, 405, 2, "Fixed by update", "The finding was fixed by an update."),
    (4011, 406, 1, "Nicht anwendbar / geschlossen", "Finding ist fuer diese Buildkonfiguration nicht anwendbar."),
    (4012, 406, 2, "Closed - not applicable", "Finding is not applicable to this build configuration."),
    (4013, 407, 1, "Pruefung erforderlich", "Weitere technische Pruefung erforderlich."),
    (4014, 407, 2, "Needs investigation", "Further technical investigation is required."),
    (5001, 501, 1, "Betroffene Funktion deaktiviert",
      "Die betroffene Funktion ist durch Buildoptionen deaktiviert."),
    (5002, 501, 2, "Affected feature disabled", "The affected feature is disabled by build options."),
    (5003, 502, 1, "Betroffene Komponente nicht gebaut",
      "Die betroffene Komponente wird in der konkreten Konfiguration nicht gebaut."),
    (5004, 502, 2, "Affected component not built",
      "The affected component is not built in the concrete configuration."),
    (5005, 503, 1, "Betroffene Komponente nicht ausgeliefert",
      "Die betroffene Komponente wird nicht in das Paket uebernommen."),
    (5006, 503, 2, "Affected component not shipped", "The affected component is not included in the package."),
    (5007, 504, 1, "Betroffene Version trifft nicht zu",
      "Die vom Provider genannte Versionsbedingung trifft auf die konkrete Identitaet nicht zu."),
    (5008, 504, 2, "Affected version does not match",
      "The provider version condition does not match the concrete identity."),
    (5009, 505, 1, "Eingebettete Komponente nicht betroffen",
      "Die eingebettete Variante ist nach Pruefung nicht betroffen."),
    (5010, 505, 2, "Bundled component not affected", "The bundled variant is not affected after review."),
    (5011, 506, 1, "Exploit-Voraussetzung fehlt",
      "Eine notwendige technische Voraussetzung fuer den Exploit ist nicht vorhanden."),
    (5012, 506, 2, "Exploit precondition not present", "A required technical exploit precondition is not present."),
    (5013, 507, 1, "Mitigation konfiguriert", "Eine konkrete technische Mitigation ist aktiv."),
    (5014, 507, 2, "Mitigation configured", "A concrete technical mitigation is active."),
    (5015, 508, 1, "Lokal gepatcht", "Die verwendete Quelle enthaelt einen dokumentierten lokalen Patch."),
    (5016, 508, 2, "Patched locally", "The used source contains a documented local patch."),
    (5017, 509, 1, "Aktualisierte Version", "Die verwendete Version enthaelt den Fix."),
    (5018, 509, 2, "Updated version", "The used version contains the fix."),
    (5019, 510, 1, "Provider-Zuordnung unzutreffend",
      "Provider-Mapping passt nicht zur tatsaechlich verwendeten Komponente oder Identitaet."),
    (5020, 510, 2, "Provider mapping mismatch",
      "Provider mapping does not match the actually used component or identity."),
    (5021, 511, 1, "Sonstiger Grund", "Begruendung steht im Kommentar."),
    (5022, 511, 2, "Other", "Reason is documented in the comment."),
    (6001, 601, 1, "Lokal", "Bewertung bleibt in der Arbeitsdatenbank und wird nicht verteilt."),
    (6002, 601, 2, "Local", "Assessment remains in the working database and is not distributed."),
    (6003, 602, 1, "Zentral geteilt",
      "Bewertung gilt fuer die BuildEngine-Buildkonfiguration und darf ueber BuildEngine-Admin verteilt werden."),
    (6004, 602, 2, "Shared centrally",
      "Assessment applies to the BuildEngine build configuration and may be distributed through BuildEngine-Admin.")]

def metadataRows : List (Metadata (Cell Other)) :=
  List.map (fun (id, key, value) =>
      ⟨id, .text key, .text value⟩)
    [(1, "schema-version", "2"), (2, "reference-data-version", "2026-09-09"), (3, "default-language-id", "1")]

end Rows

/-! ## The script -/

section Script

variable {Other : Type} [DecidableEq Other]

def insertLanguage (t : Tables (Cell Other)) : Tables (Cell Other) :=
  { t with language := replaceRows Language.Conflict t.language languages }

def insertReferenceCategory (t : Tables (Cell Other)) : Tables (Cell Other) :=
  { t with referenceCategory := replaceRows ReferenceCategoryRow.Conflict t.referenceCategory referenceCategories }

def insertReferenceCategoryText (t : Tables (Cell Other)) : Tables (Cell Other) :=
  { t with
    referenceCategoryText :=
      replaceRows ReferenceCategoryText.Conflict t.referenceCategoryText referenceCategoryTexts }

def insertReferenceValue (t : Tables (Cell Other)) : Tables (Cell Other) :=
  { t with referenceValue := replaceRows ReferenceValueRow.Conflict t.referenceValue referenceValues }

def insertReferenceValueText (t : Tables (Cell Other)) : Tables (Cell Other) :=
  { t with
    referenceValueText := replaceRows ReferenceValueText.Conflict t.referenceValueText referenceValueTexts }

def insertMeta (t : Tables (Cell Other)) : Tables (Cell Other) :=
  { t with metadata := replaceRows Metadata.Conflict t.metadata metadataRows }

/-- The statements between `BEGIN` and `COMMIT`. -/
def statements : List (Tables (Cell Other) → Tables (Cell Other)) :=
  [insertLanguage, insertReferenceCategory, insertReferenceCategoryText, insertReferenceValue,
    insertReferenceValueText, insertMeta]

/-- A statement fails if a foreign key refers to no row when all its rows are inserted. -/
def execute (t : Tables (Cell Other)) (statement : Tables (Cell Other) → Tables (Cell Other)) :
    Except String (Tables (Cell Other)) :=
  if (statement t).ForeignKeys then .ok (statement t) else .error "FOREIGN KEY constraint failed"

/-- The script as one transaction, which is rolled back when a statement fails. -/
def referenceData (t : Tables (Cell Other)) : Tables (Cell Other) × Except String Unit :=
  match statements.foldlM execute t with
  | .ok t' => (t', .ok ())
  | .error message => (t, .error message)

end Script

end BuildEngine.Security
