/-
What a run of `reference-data.sql` makes of a database that satisfies the constraints: it fails and changes nothing, or
each table has the rows of the script and those old rows that agree with none of them on a unique key
(`referenceData_refreshes`). That is fewer than the rows whose id the script does not use.
-/
import BuildEngine.Security.Reference

namespace BuildEngine.Security

open Base.Table

variable {Other : Type}

/-! ## The rows of the script do not conflict -/

/-- The values of the script are among those of any database. -/
def Cell.embed : Cell Empty → Cell Other
  | .integer i => .integer i
  | .text s => .text s
  | .other e => e.elim

theorem Cell.embed_injective : Function.Injective (Cell.embed : Cell Empty → Cell Other) := by
  intro a b h
  cases a with
  | integer i =>
    cases b with
    | integer j => exact congrArg _ (Cell.integer.inj h)
    | text s => cases h
    | other e => exact e.elim
  | text s =>
    cases b with
    | integer j => cases h
    | text s' => exact congrArg _ (Cell.text.inj h)
    | other e => exact e.elim
  | other e => exact e.elim

/-- In any database as in the one without reals and blobs. -/
theorem rows_unique :
    Unique Language.Conflict (languages : List (Language (Cell Empty))) ∧
    Unique ReferenceCategoryRow.Conflict (referenceCategories : List (ReferenceCategoryRow (Cell Empty))) ∧
    Unique ReferenceCategoryText.Conflict (referenceCategoryTexts : List (ReferenceCategoryText (Cell Empty))) ∧
    Unique ReferenceValueRow.Conflict (referenceValues : List (ReferenceValueRow (Cell Empty))) ∧
    Unique ReferenceValueText.Conflict (referenceValueTexts : List (ReferenceValueText (Cell Empty))) ∧
    Unique Metadata.Conflict (metadataRows : List (Metadata (Cell Empty))) := by
  decide

theorem languages_unique : Unique Language.Conflict (languages : List (Language (Cell Other))) := by
  obtain ⟨hid, h⟩ := unique_either.1 rows_unique.1
  obtain ⟨hcode, hlocale⟩ := unique_either.1 h
  refine unique_either.2 ⟨unique_same_of_map Function.injective_id hid rfl, unique_either.2 ⟨?_, ?_⟩⟩
  · exact unique_same_of_map Cell.embed_injective hcode rfl
  · exact unique_same_of_map Cell.embed_injective hlocale rfl

theorem referenceCategories_unique :
    Unique ReferenceCategoryRow.Conflict (referenceCategories : List (ReferenceCategoryRow (Cell Other))) := by
  obtain ⟨hid, hcode⟩ := unique_either.1 rows_unique.2.1
  refine unique_either.2 ⟨unique_same_of_map Function.injective_id hid rfl, ?_⟩
  exact unique_same_of_map Cell.embed_injective hcode rfl

theorem referenceCategoryTexts_unique :
    Unique ReferenceCategoryText.Conflict (referenceCategoryTexts : List (ReferenceCategoryText (Cell Other))) := by
  obtain ⟨hid, hkey⟩ := unique_either.1 rows_unique.2.2.1
  refine unique_either.2 ⟨unique_same_of_map Function.injective_id hid rfl, ?_⟩
  exact unique_same_of_map Function.injective_id hkey rfl

theorem referenceValues_unique :
    Unique ReferenceValueRow.Conflict (referenceValues : List (ReferenceValueRow (Cell Other))) := by
  obtain ⟨hid, hcode⟩ := unique_either.1 rows_unique.2.2.2.1
  have hinjective : Function.Injective (Prod.map id Cell.embed : ℤ × Cell Empty → ℤ × Cell Other) :=
    Function.injective_id.prodMap Cell.embed_injective
  refine unique_either.2 ⟨unique_same_of_map Function.injective_id hid rfl, ?_⟩
  exact unique_same_of_map hinjective hcode rfl

theorem referenceValueTexts_unique :
    Unique ReferenceValueText.Conflict (referenceValueTexts : List (ReferenceValueText (Cell Other))) := by
  obtain ⟨hid, hkey⟩ := unique_either.1 rows_unique.2.2.2.2.1
  refine unique_either.2 ⟨unique_same_of_map Function.injective_id hid rfl, ?_⟩
  exact unique_same_of_map Function.injective_id hkey rfl

theorem metadataRows_unique : Unique Metadata.Conflict (metadataRows : List (Metadata (Cell Other))) := by
  obtain ⟨hid, hkey⟩ := unique_either.1 rows_unique.2.2.2.2.2
  refine unique_either.2 ⟨unique_same_of_map Function.injective_id hid rfl, ?_⟩
  exact unique_same_of_map Cell.embed_injective hkey rfl

/-! The rows of the script refer to rows of the script. -/

theorem rows_refer :
    Refers ((referenceCategoryTexts : List (ReferenceCategoryText (Cell Empty))).map (·.categoryId))
      ((referenceCategories : List (ReferenceCategoryRow (Cell Empty))).map (·.id)) ∧
    Refers ((referenceCategoryTexts : List (ReferenceCategoryText (Cell Empty))).map (·.languageId))
      ((languages : List (Language (Cell Empty))).map (·.id)) ∧
    Refers ((referenceValues : List (ReferenceValueRow (Cell Empty))).map (·.categoryId))
      ((referenceCategories : List (ReferenceCategoryRow (Cell Empty))).map (·.id)) ∧
    Refers ((referenceValueTexts : List (ReferenceValueText (Cell Empty))).map (·.referenceValueId))
      ((referenceValues : List (ReferenceValueRow (Cell Empty))).map (·.id)) ∧
    Refers ((referenceValueTexts : List (ReferenceValueText (Cell Empty))).map (·.languageId))
      ((languages : List (Language (Cell Empty))).map (·.id)) := by
  decide

theorem referenceCategoryTexts_category :
    Refers ((referenceCategoryTexts : List (ReferenceCategoryText (Cell Other))).map (·.categoryId))
      ((referenceCategories : List (ReferenceCategoryRow (Cell Other))).map (·.id)) := by
  have hcolumn : (referenceCategoryTexts : List (ReferenceCategoryText (Cell Other))).map (·.categoryId) =
      ((referenceCategoryTexts : List (ReferenceCategoryText (Cell Empty))).map (·.categoryId)).map id := rfl
  have hids : (referenceCategories : List (ReferenceCategoryRow (Cell Other))).map (·.id) =
      ((referenceCategories : List (ReferenceCategoryRow (Cell Empty))).map (·.id)).map id := rfl
  rw [hcolumn, hids, List.map_id, List.map_id]
  exact rows_refer.1

theorem referenceCategoryTexts_language :
    Refers ((referenceCategoryTexts : List (ReferenceCategoryText (Cell Other))).map (·.languageId))
      ((languages : List (Language (Cell Other))).map (·.id)) := by
  have hcolumn : (referenceCategoryTexts : List (ReferenceCategoryText (Cell Other))).map (·.languageId) =
      ((referenceCategoryTexts : List (ReferenceCategoryText (Cell Empty))).map (·.languageId)).map id := rfl
  have hids : (languages : List (Language (Cell Other))).map (·.id) =
      ((languages : List (Language (Cell Empty))).map (·.id)).map id := rfl
  rw [hcolumn, hids, List.map_id, List.map_id]
  exact rows_refer.2.1

theorem referenceValues_category :
    Refers ((referenceValues : List (ReferenceValueRow (Cell Other))).map (·.categoryId))
      ((referenceCategories : List (ReferenceCategoryRow (Cell Other))).map (·.id)) := by
  have hcolumn : (referenceValues : List (ReferenceValueRow (Cell Other))).map (·.categoryId) =
      ((referenceValues : List (ReferenceValueRow (Cell Empty))).map (·.categoryId)).map id := rfl
  have hids : (referenceCategories : List (ReferenceCategoryRow (Cell Other))).map (·.id) =
      ((referenceCategories : List (ReferenceCategoryRow (Cell Empty))).map (·.id)).map id := rfl
  rw [hcolumn, hids, List.map_id, List.map_id]
  exact rows_refer.2.2.1

theorem referenceValueTexts_value :
    Refers ((referenceValueTexts : List (ReferenceValueText (Cell Other))).map (·.referenceValueId))
      ((referenceValues : List (ReferenceValueRow (Cell Other))).map (·.id)) := by
  have hcolumn : (referenceValueTexts : List (ReferenceValueText (Cell Other))).map (·.referenceValueId) =
      ((referenceValueTexts : List (ReferenceValueText (Cell Empty))).map (·.referenceValueId)).map id := rfl
  have hids : (referenceValues : List (ReferenceValueRow (Cell Other))).map (·.id) =
      ((referenceValues : List (ReferenceValueRow (Cell Empty))).map (·.id)).map id := rfl
  rw [hcolumn, hids, List.map_id, List.map_id]
  exact rows_refer.2.2.2.1

theorem referenceValueTexts_language :
    Refers ((referenceValueTexts : List (ReferenceValueText (Cell Other))).map (·.languageId))
      ((languages : List (Language (Cell Other))).map (·.id)) := by
  have hcolumn : (referenceValueTexts : List (ReferenceValueText (Cell Other))).map (·.languageId) =
      ((referenceValueTexts : List (ReferenceValueText (Cell Empty))).map (·.languageId)).map id := rfl
  have hids : (languages : List (Language (Cell Other))).map (·.id) =
      ((languages : List (Language (Cell Empty))).map (·.id)).map id := rfl
  rw [hcolumn, hids, List.map_id, List.map_id]
  exact rows_refer.2.2.2.2

/-! ## A run of statements -/

section Run

variable {t t' : Tables (Cell Other)} {run : List (Tables (Cell Other) → Tables (Cell Other))}

theorem foldlM_execute_cons {statement : Tables (Cell Other) → Tables (Cell Other)} :
    (statement :: run).foldlM execute t = .ok t' ↔
      (statement t).ForeignKeys ∧ run.foldlM execute (statement t) = .ok t' := by
  rw [List.foldlM_cons, execute]
  split
  next h => exact ⟨fun hrest => ⟨h, hrest⟩, fun ⟨_, hrest⟩ => hrest⟩
  next h =>
    constructor
    · intro hrest
      cases hrest
    · rintro ⟨h', -⟩
      exact absurd h' h

/-- A run that succeeds has done all its statements, and ends where the foreign keys hold. -/
theorem foldlM_execute_ok (hforeign : t.ForeignKeys) (h : run.foldlM execute t = .ok t') :
    t' = run.foldl (fun t statement => statement t) t ∧ t'.ForeignKeys := by
  induction run generalizing t with
  | nil =>
    obtain rfl := Except.ok.inj h
    exact ⟨rfl, hforeign⟩
  | cons statement run ih =>
    obtain ⟨hforeign, h⟩ := foldlM_execute_cons.1 h
    exact ih hforeign h

theorem foldlM_execute_same (hforeign : t.ForeignKeys) (h : ∀ statement ∈ run, statement t = t) :
    run.foldlM execute t = .ok t := by
  induction run with
  | nil => rfl
  | cons statement run ih =>
    rw [foldlM_execute_cons, h statement (.head _)]
    exact ⟨hforeign, ih fun statement hstatement => h statement (.tail _ hstatement)⟩

end Run

/-! ## Columns behind a statement -/

section Columns

theorem Refers.mono {column ids ids' : List ℤ} (h : Refers column ids) (hids : ids ⊆ ids') : Refers column ids' :=
  fun i hi => hids (h i hi)

variable {Row : Type} {Conflict : Row → Row → Prop} [DecidableRel Conflict] [Std.Symm Conflict]
  {rows news : List Row}

theorem refers_replaceRows {column : Row → ℤ} {ids : List ℤ} (hnews : Unique Conflict news)
    (hold : Refers (rows.map column) ids) (hnew : Refers (news.map column) ids) :
    Refers ((replaceRows Conflict rows news).map column) ids := by
  intro i hi
  obtain ⟨row, hrow, rfl⟩ := List.mem_map.1 hi
  rcases (mem_replaceRows hnews).1 hrow with hrow | ⟨hrow, -⟩
  · exact hnew _ (List.mem_map_of_mem hrow)
  · exact hold _ (List.mem_map_of_mem hrow)

/-- The rows of the script can be referred to behind their statement. -/
theorem ids_subset {id : Row → ℤ} (hnews : Unique Conflict news) :
    news.map id ⊆ (replaceRows Conflict rows news).map id :=
  List.map_subset _ fun _ hrow => (mem_replaceRows hnews).2 (.inl hrow)

end Columns

variable [DecidableEq Other]

/-! ## What the script makes of the tables -/

/-- A table with the rows of the script and those old rows that conflict with none of them. -/
def Refreshed {Row : Type} (Conflict : Row → Row → Prop) (seeds old new : List Row) : Prop :=
  ∀ row, row ∈ new ↔ row ∈ seeds ∨ row ∈ old ∧ ∀ seed ∈ seeds, ¬ Conflict seed row

/-- The tables behind all statements. -/
def refreshed (t : Tables (Cell Other)) : Tables (Cell Other) := statements.foldl (fun t statement => statement t) t

/-- A database behind a run that succeeds on another one. -/
structure Refresh (t t' : Tables (Cell Other)) : Prop where
  satisfies : t'.Satisfies
  metadata : Refreshed Metadata.Conflict metadataRows t.metadata t'.metadata
  language : Refreshed Language.Conflict languages t.language t'.language
  referenceCategory :
    Refreshed ReferenceCategoryRow.Conflict referenceCategories t.referenceCategory t'.referenceCategory
  referenceCategoryText :
    Refreshed ReferenceCategoryText.Conflict referenceCategoryTexts t.referenceCategoryText t'.referenceCategoryText
  referenceValue : Refreshed ReferenceValueRow.Conflict referenceValues t.referenceValue t'.referenceValue
  referenceValueText :
    Refreshed ReferenceValueText.Conflict referenceValueTexts t.referenceValueText t'.referenceValueText
  assessment : t'.assessment = t.assessment
  again : referenceData t' = (t', .ok ())

theorem referenceData_ok {t t' : Tables (Cell Other)} :
    referenceData t = (t', .ok ()) ↔ statements.foldlM execute t = .ok t' := by
  rw [referenceData]
  cases statements.foldlM execute t with
  | ok t₁ => simp
  | error message => simp

theorem referenceData_refresh {t t' : Tables (Cell Other)} (hsatisfies : t.Satisfies)
    (h : referenceData t = (t', .ok ())) : Refresh t t' := by
  obtain ⟨rfl, hforeign⟩ := foldlM_execute_ok hsatisfies.foreignKeys (referenceData_ok.1 h)
  refine {
    satisfies := {
      metadata := unique_replaceRows hsatisfies.metadata
      language := unique_replaceRows hsatisfies.language
      referenceCategory := unique_replaceRows hsatisfies.referenceCategory
      referenceCategoryText := unique_replaceRows hsatisfies.referenceCategoryText
      referenceValue := unique_replaceRows hsatisfies.referenceValue
      referenceValueText := unique_replaceRows hsatisfies.referenceValueText
      foreignKeys := hforeign }
    metadata := fun _ => mem_replaceRows metadataRows_unique
    language := fun _ => mem_replaceRows languages_unique
    referenceCategory := fun _ => mem_replaceRows referenceCategories_unique
    referenceCategoryText := fun _ => mem_replaceRows referenceCategoryTexts_unique
    referenceValue := fun _ => mem_replaceRows referenceValues_unique
    referenceValueText := fun _ => mem_replaceRows referenceValueTexts_unique
    assessment := rfl
    again := referenceData_ok.2 (foldlM_execute_same hforeign ?_) }
  -- each statement finds its table as it would leave it
  simp only [statements, List.forall_mem_cons]
  refine ⟨?_, ?_, ?_, ?_, ?_, ?_, fun _ h => absurd h List.not_mem_nil⟩
  · exact congrArg (fun rows => { refreshed t with language := rows }) (replaceRows_again languages_unique)
  · exact congrArg (fun rows => { refreshed t with referenceCategory := rows })
      (replaceRows_again referenceCategories_unique)
  · exact congrArg (fun rows => { refreshed t with referenceCategoryText := rows })
      (replaceRows_again referenceCategoryTexts_unique)
  · exact congrArg (fun rows => { refreshed t with referenceValue := rows }) (replaceRows_again referenceValues_unique)
  · exact congrArg (fun rows => { refreshed t with referenceValueText := rows })
      (replaceRows_again referenceValueTexts_unique)
  · exact congrArg (fun rows => { refreshed t with metadata := rows }) (replaceRows_again metadataRows_unique)

/-- On a database that satisfies the constraints, the script fails and changes nothing, or each of its tables has the
rows of the script and those old rows that agree with none of them on a unique key; the constraints hold again, and
another run changes nothing. -/
theorem referenceData_refreshes (t : Tables (Cell Other)) (h : t.Satisfies) :
    (∃ message, referenceData t = (t, .error message)) ∨ ∃ t', referenceData t = (t', .ok ()) ∧ Refresh t t' := by
  cases hrun : (statements : List (Tables (Cell Other) → Tables (Cell Other))).foldlM execute t with
  | error message =>
    left
    exact ⟨message, by rw [referenceData, hrun]⟩
  | ok t' =>
    have hok := referenceData_ok.2 hrun
    exact .inr ⟨t', hok, referenceData_refresh h hok⟩

/-! ## When the script commits -/

/-- A row that agrees with a row of the script on a unique key has its id. -/
def OwnIds {Row : Type} (Conflict : Row → Row → Prop) (id : Row → ℤ) (seeds rows : List Row) : Prop :=
  ∀ row ∈ rows, ∀ seed ∈ seeds, Conflict seed row → id row = id seed

section Commit

variable {t : Tables (Cell Other)}

theorem insertLanguage_foreignKeys (h : t.ForeignKeys) (hown : OwnIds Language.Conflict (·.id) languages t.language) :
    (insertLanguage t).ForeignKeys := by
  have hids := map_replaceRows_subset languages_unique hown
  unfold insertLanguage
  constructor
  · exact h.text_category
  · exact h.text_language.mono hids
  · exact h.value_category
  · exact h.text_value
  · exact h.value_language.mono hids
  · exact h.assessment

theorem insertReferenceCategory_foreignKeys (h : t.ForeignKeys)
    (hown : OwnIds ReferenceCategoryRow.Conflict (·.id) referenceCategories t.referenceCategory) :
    (insertReferenceCategory t).ForeignKeys := by
  have hids := map_replaceRows_subset referenceCategories_unique hown
  unfold insertReferenceCategory
  constructor
  · exact h.text_category.mono hids
  · exact h.text_language
  · exact h.value_category.mono hids
  · exact h.text_value
  · exact h.value_language
  · exact h.assessment

omit [DecidableEq Other] in
theorem insertReferenceCategoryText_foreignKeys (h : t.ForeignKeys)
    (hcategories : (referenceCategories : List (ReferenceCategoryRow (Cell Other))).map (·.id) ⊆
      t.referenceCategory.map (·.id))
    (hlanguages : (languages : List (Language (Cell Other))).map (·.id) ⊆ t.language.map (·.id)) :
    (insertReferenceCategoryText t).ForeignKeys := by
  have hcategory := referenceCategoryTexts_category.mono hcategories
  have hlanguage := referenceCategoryTexts_language.mono hlanguages
  unfold insertReferenceCategoryText
  constructor
  · exact refers_replaceRows referenceCategoryTexts_unique h.text_category hcategory
  · exact refers_replaceRows referenceCategoryTexts_unique h.text_language hlanguage
  · exact h.value_category
  · exact h.text_value
  · exact h.value_language
  · exact h.assessment

theorem insertReferenceValue_foreignKeys (h : t.ForeignKeys)
    (hown : OwnIds ReferenceValueRow.Conflict (·.id) referenceValues t.referenceValue)
    (hcategories : (referenceCategories : List (ReferenceCategoryRow (Cell Other))).map (·.id) ⊆
      t.referenceCategory.map (·.id)) : (insertReferenceValue t).ForeignKeys := by
  have hids := map_replaceRows_subset referenceValues_unique hown
  have hcategory := referenceValues_category.mono hcategories
  unfold insertReferenceValue
  constructor
  · exact h.text_category
  · exact h.text_language
  · exact refers_replaceRows referenceValues_unique h.value_category hcategory
  · exact h.text_value.mono hids
  · exact h.value_language
  · exact fun a ha => (h.assessment a ha).mono hids

omit [DecidableEq Other] in
theorem insertReferenceValueText_foreignKeys (h : t.ForeignKeys)
    (hvalues : (referenceValues : List (ReferenceValueRow (Cell Other))).map (·.id) ⊆ t.referenceValue.map (·.id))
    (hlanguages : (languages : List (Language (Cell Other))).map (·.id) ⊆ t.language.map (·.id)) :
    (insertReferenceValueText t).ForeignKeys := by
  have hvalue := referenceValueTexts_value.mono hvalues
  have hlanguage := referenceValueTexts_language.mono hlanguages
  unfold insertReferenceValueText
  constructor
  · exact h.text_category
  · exact h.text_language
  · exact h.value_category
  · exact refers_replaceRows referenceValueTexts_unique h.text_value hvalue
  · exact refers_replaceRows referenceValueTexts_unique h.value_language hlanguage
  · exact h.assessment

theorem insertMeta_foreignKeys (h : t.ForeignKeys) : (insertMeta t).ForeignKeys := by
  unfold insertMeta
  constructor
  · exact h.text_category
  · exact h.text_language
  · exact h.value_category
  · exact h.text_value
  · exact h.value_language
  · exact h.assessment

/-- The script commits if the rows that it replaces in the tables that others refer to have the ids of its own. -/
theorem referenceData_commits (h : t.ForeignKeys) (hlanguage : OwnIds Language.Conflict (·.id) languages t.language)
    (hcategory : OwnIds ReferenceCategoryRow.Conflict (·.id) referenceCategories t.referenceCategory)
    (hvalue : OwnIds ReferenceValueRow.Conflict (·.id) referenceValues t.referenceValue) :
    referenceData t = (refreshed t, .ok ()) := by
  have h₁ := insertLanguage_foreignKeys h hlanguage
  have h₂ := insertReferenceCategory_foreignKeys h₁ hcategory
  have h₃ := insertReferenceCategoryText_foreignKeys h₂ (ids_subset referenceCategories_unique)
    (ids_subset languages_unique)
  have h₄ := insertReferenceValue_foreignKeys h₃ hvalue (ids_subset referenceCategories_unique)
  have h₅ := insertReferenceValueText_foreignKeys h₄ (ids_subset referenceValues_unique)
    (ids_subset languages_unique)
  have h₆ := insertMeta_foreignKeys h₅
  rw [referenceData_ok, statements]
  iterate 6 rw [foldlM_execute_cons]
  exact ⟨h₁, h₂, h₃, h₄, h₅, h₆, rfl⟩

end Commit

/-! ## A row that the script removes -/

/-- The reference tables as they are distributed, and the default language under an id that the script does not use. -/
def ownDefault : Tables (Cell Empty) where
  metadata :=
    [⟨1, .text "schema-version", .text "2"⟩,
      ⟨2, .text "database-purpose", .text "BuildEngine shared build security assessments"⟩,
      ⟨4, .text "default-language-id", .text "2"⟩]
  language := languages
  referenceCategory := referenceCategories
  referenceCategoryText := referenceCategoryTexts
  referenceValue := referenceValues
  referenceValueText := referenceValueTexts
  assessment := []

theorem ownDefault_satisfies : ownDefault.Satisfies where
  metadata := by decide
  language := languages_unique
  referenceCategory := referenceCategories_unique
  referenceCategoryText := referenceCategoryTexts_unique
  referenceValue := referenceValues_unique
  referenceValueText := referenceValueTexts_unique
  foreignKeys := {
    text_category := referenceCategoryTexts_category
    text_language := referenceCategoryTexts_language
    value_category := referenceValues_category
    text_value := referenceValueTexts_value
    value_language := referenceValueTexts_language
    assessment := fun _ h => absurd h List.not_mem_nil }

theorem ownDefault_commits : referenceData ownDefault = (refreshed ownDefault, .ok ()) := by
  refine referenceData_commits ownDefault_satisfies.foreignKeys ?_ ?_ ?_
  · unfold OwnIds
    decide
  · unfold OwnIds
    decide
  · unfold OwnIds
    decide

theorem ownDefault_refreshes : ∃ t', referenceData ownDefault = (t', .ok ()) ∧ Refresh ownDefault t' := by
  rcases referenceData_refreshes ownDefault ownDefault_satisfies with ⟨message, h⟩ | h
  · have herror := (Prod.mk.inj (ownDefault_commits.symm.trans h)).2
    cases herror
  · exact h

/-- The script removes the row of the default language, whose id it does not use. -/
theorem ownDefault_removed : ownDefault.Satisfies ∧ referenceData ownDefault = (refreshed ownDefault, .ok ()) ∧
    ¬ ∀ row ∈ ownDefault.metadata, row.id ∉ (metadataRows : List (Metadata (Cell Empty))).map (·.id) →
      row ∈ (refreshed ownDefault).metadata := by
  refine ⟨ownDefault_satisfies, ownDefault_commits, fun hkept => ?_⟩
  have hnot : (refreshed ownDefault).metadata.map (·.id) = [1, 2, 3] := by decide
  have hrow := hkept ⟨4, .text "default-language-id", .text "2"⟩ (.tail _ (.tail _ (.head _))) (by decide)
  have hid := List.mem_map_of_mem (f := (·.id)) hrow
  rw [hnot] at hid
  exact absurd hid (by decide)

end BuildEngine.Security
