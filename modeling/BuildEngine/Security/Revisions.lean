/-
What the constraints of `schema.sql` keep of the assessments over any run of `INSERT` statements into
`provider_finding`, `build_finding` and `assessment`. A column of an assessment refers to some reference value, and
`supersedes` to some assessment; the category of the one and the finding and revision of the other are not constrained
(`insertAll_refers`, `insertAll_settles`).
-/
import BuildEngine.Security.Refresh
import BuildEngine.Base.Chain

namespace BuildEngine.Security

open Base.Table Base.Chain

section Model

variable {Value : Type} {text : String → Value} {db db' : Database text}

/-! ## Following `supersedes` -/

/-- The assessment that an assessment supersedes. -/
def Database.superseded (db : Database text) (a : Assessment Value) : Option (Assessment Value) :=
  a.supersedes.bind fun i => db.assessment.find? (·.id = i)

theorem superseded_eq_some {a b : Assessment Value} :
    db.superseded a = some b ↔ a.supersedes = some b.id ∧ b ∈ db.assessment := by
  constructor
  · intro h
    obtain ⟨i, hi, hfind⟩ := Option.bind_eq_some_iff.1 h
    have hid : b.id = i := by simpa using List.find?_some hfind
    exact ⟨hid ▸ hi, List.mem_of_find?_eq_some hfind⟩
  · rintro ⟨hi, hb⟩
    rw [Database.superseded, hi, Option.bind_some]
    cases hfind : db.assessment.find? (·.id = b.id) with
    | none =>
      have hnone := List.find?_eq_none.1 hfind b hb
      simp at hnone
    | some c =>
      have hid : c.id = b.id := by simpa using List.find?_some hfind
      rw [List.inj_on_of_nodup_map db.assessment_id (List.mem_of_find?_eq_some hfind) hb hid]

theorem exists_superseded {a : Assessment Value} (ha : a ∈ db.assessment) {i : ℤ} (hi : a.supersedes = some i) :
    ∃ b ∈ db.assessment, b.id = i :=
  List.mem_map.1 (db.assessment_supersedes i (List.mem_filterMap.2 ⟨a, ha, hi⟩))

theorem superseded_closed : Closed db.superseded db.assessment := fun _ _ _ hb => (superseded_eq_some.1 hb).2

/-- Behind a statement that keeps the assessments, each of them supersedes the same one as before. -/
theorem superseded_append {added : List (Assessment Value)} (h : db'.assessment = db.assessment ++ added) :
    ∀ a ∈ db.assessment, db'.superseded a = db.superseded a := by
  intro a ha
  cases hi : a.supersedes with
  | none => rw [Database.superseded, Database.superseded, hi, Option.bind_none, Option.bind_none]
  | some i =>
    obtain ⟨b, hb, rfl⟩ := exists_superseded ha hi
    have hb' : b ∈ db'.assessment := h ▸ List.mem_append_left added hb
    rw [superseded_eq_some.2 ⟨hi, hb⟩, superseded_eq_some.2 ⟨hi, hb'⟩]

variable [DecidableEq Value]

/-! ## Insertions -/

/-- `id INTEGER PRIMARY KEY`, `UNIQUE(provider, advisory_id)` -/
abbrev ProviderFinding.Conflict : ProviderFinding Value → ProviderFinding Value → Prop :=
  Either (Same (·.id)) (Same fun p => (p.provider, p.advisoryId))

/-- `id INTEGER PRIMARY KEY`, `ux_build_finding_identity` -/
abbrev BuildFinding.Conflict (text : String → Value) : BuildFinding Value → BuildFinding Value → Prop :=
  Either (Same (·.id)) (Same (·.identity text))

instance (f g : BuildFinding Value) : Decidable (Same (·.identity text) f g) :=
  inferInstanceAs (Decidable (f.identity text = g.identity text))

/-- `id INTEGER PRIMARY KEY`, `UNIQUE(finding_id, revision)` -/
abbrev Assessment.Conflict : Assessment Value → Assessment Value → Prop :=
  Either (Same (·.id)) (Same fun a => (a.findingId, a.revision))

/-- `INSERT`, `INSERT OR IGNORE` or `INSERT OR REPLACE` of rows into one of the three tables. -/
inductive Insert (Value : Type) where
  | providerFinding (onConflict : OnConflict) (rows : List (ProviderFinding Value))
  | buildFinding (onConflict : OnConflict) (rows : List (BuildFinding Value))
  | assessment (onConflict : OnConflict) (rows : List (Assessment Value))

def Insert.onConflict : Insert Value → OnConflict
  | .providerFinding onConflict _ => onConflict
  | .buildFinding onConflict _ => onConflict
  | .assessment onConflict _ => onConflict

/-- The assessments of a statement. -/
def Insert.assessments : Insert Value → List (Assessment Value)
  | .assessment _ rows => rows
  | _ => []

/-- The database with other provider findings, if it satisfies the constraints. -/
def Database.setProviderFinding (db : Database text) (rows : List (ProviderFinding Value)) : Option (Database text) :=
  if h : (rows.map (·.id)).Nodup ∧ (rows.map fun p => (p.provider, p.advisoryId)).Nodup ∧
      Refers (db.osvObservation.map (·.providerFindingId)) (rows.map (·.id)) ∧
      Refers (db.nvdObservation.map (·.providerFindingId)) (rows.map (·.id)) ∧
      Refers (db.epssObservation.map (·.providerFindingId)) (rows.map (·.id)) ∧
      Refers (db.kevObservation.map (·.providerFindingId)) (rows.map (·.id)) ∧
      Refers (db.buildFinding.map (·.providerFindingId)) (rows.map (·.id)) then
    some { db with
      providerFinding := rows
      providerFinding_id := h.1
      providerFinding_advisory := h.2.1
      osvObservation_finding := h.2.2.1
      nvdObservation_finding := h.2.2.2.1
      epssObservation_finding := h.2.2.2.2.1
      kevObservation_finding := h.2.2.2.2.2.1
      buildFinding_finding := h.2.2.2.2.2.2 }
  else none

/-- The database with other build findings, if it satisfies the constraints. -/
def Database.setBuildFinding (db : Database text) (rows : List (BuildFinding Value)) : Option (Database text) :=
  if h : (rows.map (·.id)).Nodup ∧ (rows.map (·.identity text)).Nodup ∧
      Refers (rows.map (·.providerFindingId)) (db.providerFinding.map (·.id)) ∧
      Refers (db.assessment.map (·.findingId)) (rows.map (·.id)) ∧
      ∀ row ∈ rows, row.isCurrent = 0 ∨ row.isCurrent = 1 then
    some { db with
      buildFinding := rows
      buildFinding_id := h.1
      buildFinding_identity := h.2.1
      buildFinding_finding := h.2.2.1
      assessment_finding := h.2.2.2.1 }
  else none

/-- The database with other assessments, if it satisfies the constraints. -/
def Database.setAssessment (db : Database text) (rows : List (Assessment Value)) : Option (Database text) :=
  if h : (rows.map (·.id)).Nodup ∧ (rows.map fun a => (a.findingId, a.revision)).Nodup ∧
      Refers (rows.map (·.findingId)) (db.buildFinding.map (·.id)) ∧
      (∀ a ∈ rows, Refers a.references (db.referenceValue.map (·.id))) ∧
      Refers (rows.filterMap (·.supersedes)) (rows.map (·.id)) then
    some { db with
      assessment := rows
      assessment_id := h.1
      assessment_revision := h.2.1
      assessment_finding := h.2.2.1
      assessment_references := h.2.2.2.1
      assessment_supersedes := h.2.2.2.2 }
  else none

/-- A statement, if the schema accepts it. -/
def Database.insert (db : Database text) : Insert Value → Option (Database text)
  | .providerFinding onConflict rows =>
    (insertRows ProviderFinding.Conflict onConflict db.providerFinding rows).bind db.setProviderFinding
  | .buildFinding onConflict rows =>
    (insertRows (BuildFinding.Conflict text) onConflict db.buildFinding rows).bind db.setBuildFinding
  | .assessment onConflict rows =>
    (insertRows Assessment.Conflict onConflict db.assessment rows).bind db.setAssessment

/-- The statements of a run, all of which the schema accepts. -/
def Database.insertAll (db : Database text) (run : List (Insert Value)) : Option (Database text) :=
  run.foldlM Database.insert db

/-! ## What a statement changes -/

theorem setProviderFinding_frame {rows : List (ProviderFinding Value)} (h : db.setProviderFinding rows = some db') :
    db'.referenceValue = db.referenceValue ∧ db'.assessment = db.assessment := by
  rw [Database.setProviderFinding] at h
  split at h
  next =>
    obtain rfl := Option.some.inj h
    exact ⟨rfl, rfl⟩
  next => cases h

theorem setBuildFinding_frame {rows : List (BuildFinding Value)} (h : db.setBuildFinding rows = some db') :
    db'.referenceValue = db.referenceValue ∧ db'.assessment = db.assessment := by
  rw [Database.setBuildFinding] at h
  split at h
  next =>
    obtain rfl := Option.some.inj h
    exact ⟨rfl, rfl⟩
  next => cases h

theorem setAssessment_frame {rows : List (Assessment Value)} (h : db.setAssessment rows = some db') :
    db'.referenceValue = db.referenceValue ∧ db'.assessment = rows := by
  rw [Database.setAssessment] at h
  split at h
  next =>
    obtain rfl := Option.some.inj h
    exact ⟨rfl, rfl⟩
  next => cases h

/-- A statement leaves the reference values as they are, and, unless it replaces, adds some of its assessments behind
those that there are. -/
theorem insert_frame {statement : Insert Value} (h : db.insert statement = some db') :
    db'.referenceValue = db.referenceValue ∧ (statement.onConflict ≠ .replace →
      ∃ added, added.Sublist statement.assessments ∧ db'.assessment = db.assessment ++ added) := by
  cases statement with
  | providerFinding onConflict rows =>
    obtain ⟨rows', -, hset⟩ := Option.bind_eq_some_iff.1 h
    obtain ⟨hvalue, hassessment⟩ := setProviderFinding_frame hset
    exact ⟨hvalue, fun _ => ⟨[], .slnil, by rw [hassessment, List.append_nil]⟩⟩
  | buildFinding onConflict rows =>
    obtain ⟨rows', -, hset⟩ := Option.bind_eq_some_iff.1 h
    obtain ⟨hvalue, hassessment⟩ := setBuildFinding_frame hset
    exact ⟨hvalue, fun _ => ⟨[], .slnil, by rw [hassessment, List.append_nil]⟩⟩
  | assessment onConflict rows =>
    obtain ⟨rows', hinsert, hset⟩ := Option.bind_eq_some_iff.1 h
    obtain ⟨hvalue, rfl⟩ := setAssessment_frame hset
    exact ⟨hvalue, fun hkeeps => insertRows_append hkeeps hinsert⟩

/-! ## Runs -/

theorem insertAll_append {run run' : List (Insert Value)} :
    db.insertAll (run ++ run') = (db.insertAll run).bind fun db' => db'.insertAll run' :=
  List.foldlM_append

theorem insertAll_singleton {statement : Insert Value} : db.insertAll [statement] = db.insert statement := by
  rw [Database.insertAll, List.foldlM_cons]
  exact bind_pure _

theorem insertAll_referenceValue {run : List (Insert Value)} (h : db.insertAll run = some db') :
    db'.referenceValue = db.referenceValue := by
  induction run generalizing db with
  | nil =>
    obtain rfl := Option.some.inj h
    rfl
  | cons statement run ih =>
    rw [Database.insertAll, List.foldlM_cons] at h
    obtain ⟨db₁, hstatement, hrun⟩ := Option.bind_eq_some_iff.1 h
    exact (ih hrun).trans (insert_frame hstatement).1

/-- Unless a statement replaces, a run changes and removes no assessment. -/
theorem insertAll_prefix {run : List (Insert Value)} (hkeeps : ∀ statement ∈ run, statement.onConflict ≠ .replace)
    (h : db.insertAll run = some db') : db.assessment <+: db'.assessment := by
  induction run generalizing db with
  | nil =>
    obtain rfl := Option.some.inj h
    exact List.prefix_rfl
  | cons statement run ih =>
    rw [Database.insertAll, List.foldlM_cons] at h
    obtain ⟨db₁, hstatement, hrun⟩ := Option.bind_eq_some_iff.1 h
    obtain ⟨hkeep, hkeeps⟩ := List.forall_mem_cons.1 hkeeps
    obtain ⟨added, -, hadded⟩ := (insert_frame hstatement).2 hkeep
    calc db.assessment <+: db.assessment ++ added := List.prefix_append _ _
      _ = db₁.assessment := hadded.symm
      _ <+: db'.assessment := ih hkeeps hrun

/-! ## Following `supersedes` over a run -/

/-- Unless a statement replaces, following `supersedes` ends or comes to stay among the assessments of one statement. -/
theorem insertAll_settles {run : List (Insert Value)} (hnone : db.assessment = [])
    (hkeeps : ∀ statement ∈ run, statement.onConflict ≠ .replace) (h : db.insertAll run = some db') :
    ∀ a ∈ db'.assessment, Settles db'.superseded (run.map (·.assessments)) a := by
  induction run using List.reverseRecOn generalizing db' with
  | nil =>
    obtain rfl := Option.some.inj h
    rw [hnone]
    exact fun a ha => absurd ha List.not_mem_nil
  | append_singleton run statement ih =>
    rw [insertAll_append] at h
    obtain ⟨db₁, hrun, hstatement⟩ := Option.bind_eq_some_iff.1 h
    rw [insertAll_singleton] at hstatement
    obtain ⟨added, hadded, hassessment⟩ := (insert_frame hstatement).2 (hkeeps statement (by simp))
    have hold : ∀ a ∈ db₁.assessment, Settles db'.superseded (run.map (·.assessments)) a := fun a ha =>
      (ih (fun s hs => hkeeps s (List.mem_append_left _ hs)) hrun a ha).congr superseded_closed
        (superseded_append hassessment) ha
    have hclosed : Closed db'.superseded (db₁.assessment ++ added) := hassessment ▸ superseded_closed
    rw [hassessment]
    intro a ha
    refine (settles_append hclosed hold a ha).mono fun layer hlayer => ?_
    rw [List.map_append, List.map_singleton]
    rcases List.mem_append.1 hlayer with hlayer | hlayer
    · exact ⟨layer, List.mem_append_left _ hlayer, List.Subset.refl layer⟩
    · obtain rfl := List.mem_singleton.1 hlayer
      exact ⟨statement.assessments, List.mem_append_right _ (.head _), hadded.subset⟩

end Model

/-! ## Runs from the reference data -/

variable {Other : Type} [DecidableEq Other]

/-- The tables that `schema.sql` creates. -/
def noTables : Tables (Cell Other) := ⟨[], [], [], [], [], [], []⟩

theorem noTables_refresh : Refresh (noTables : Tables (Cell Other)) (refreshed noTables) := by
  have hsatisfies : (noTables : Tables (Cell Other)).Satisfies := by
    refine ⟨.nil, .nil, .nil, .nil, .nil, .nil, ?_⟩
    constructor <;> exact fun _ h => absurd h List.not_mem_nil
  refine referenceData_refresh hsatisfies (referenceData_commits hsatisfies.foreignKeys ?_ ?_ ?_)
  all_goals exact fun _ h => absurd h List.not_mem_nil

/-- The database with these reference tables and no findings. -/
def Tables.withoutFindings {t : Tables (Cell Other)} (h : t.Satisfies) : Database (Cell.text : String → Cell Other) where
  referenceCategory := t.referenceCategory.map (·.toReferenceCategory)
  referenceValue := t.referenceValue.map (·.toReferenceValue)
  providerFinding := []
  osvObservation := []
  nvdObservation := []
  epssObservation := []
  kevObservation := []
  buildFinding := []
  assessment := []
  referenceCategory_id := by
    rw [List.map_map]
    exact unique_same.1 (unique_either.1 h.referenceCategory).1
  referenceCategory_code := by
    rw [List.map_map]
    exact unique_same.1 (unique_either.1 h.referenceCategory).2
  referenceValue_id := by
    rw [List.map_map]
    exact unique_same.1 (unique_either.1 h.referenceValue).1
  referenceValue_code := by
    rw [List.map_map]
    exact unique_same.1 (unique_either.1 h.referenceValue).2
  referenceValue_category := by
    rw [List.map_map, List.map_map]
    exact h.foreignKeys.value_category
  providerFinding_id := .nil
  providerFinding_advisory := .nil
  osvObservation_id := .nil
  osvObservation_finding := fun _ h => absurd h List.not_mem_nil
  nvdObservation_id := .nil
  nvdObservation_finding := fun _ h => absurd h List.not_mem_nil
  epssObservation_id := .nil
  epssObservation_finding := fun _ h => absurd h List.not_mem_nil
  kevObservation_id := .nil
  kevObservation_finding := fun _ h => absurd h List.not_mem_nil
  buildFinding_id := .nil
  buildFinding_identity := .nil
  buildFinding_finding := fun _ h => absurd h List.not_mem_nil
  assessment_id := .nil
  assessment_revision := .nil
  assessment_finding := fun _ h => absurd h List.not_mem_nil
  assessment_references := fun _ h => absurd h List.not_mem_nil
  assessment_supersedes := fun _ h => absurd h List.not_mem_nil

/-- The database behind `schema.sql` and `reference-data.sql`. -/
def initial : Database (Cell.text : String → Cell Other) := Tables.withoutFindings noTables_refresh.satisfies

theorem mem_initial_referenceValue {v : ReferenceValue (Cell Other)} :
    v ∈ (initial : Database (Cell.text : String → Cell Other)).referenceValue ↔
      ∃ row ∈ (referenceValues : List (ReferenceValueRow (Cell Other))), row.toReferenceValue = v := by
  have hrows : ∀ row, row ∈ (refreshed (noTables : Tables (Cell Other))).referenceValue ↔ row ∈ referenceValues := by
    intro row
    rw [noTables_refresh.referenceValue]
    exact or_iff_left fun h => absurd h.1 List.not_mem_nil
  rw [initial, Tables.withoutFindings, List.mem_map]
  exact exists_congr fun row => and_congr_left fun _ => hrows row

/-- In every database that a run reaches from the reference data, each assessment refers to values of the reference data
and, if it supersedes something, to an assessment. Unless a statement replaces, the run has changed and removed no
assessment, and following `supersedes` ends or comes to stay among the assessments of one statement, which is at one that
supersedes itself where no statement has two of them. -/
theorem insertAll_keeps (run : List (Insert (Cell Other))) (db : Database (Cell.text : String → Cell Other))
    (h : initial.insertAll run = some db) :
    (∀ a ∈ db.assessment,
      Refers a.references ((referenceValues : List (ReferenceValueRow (Cell Other))).map (·.id)) ∧
        ∀ i, a.supersedes = some i → ∃ b ∈ db.assessment, b.id = i) ∧
    ((∀ statement ∈ run, statement.onConflict ≠ .replace) →
      (∀ run₁ run₂ db₁, run = run₁ ++ run₂ → initial.insertAll run₁ = some db₁ → db₁.assessment <+: db.assessment) ∧
      (∀ a ∈ db.assessment, Settles db.superseded (run.map (·.assessments)) a) ∧
      ((∀ statement ∈ run, statement.assessments.length ≤ 1) → ∀ a ∈ db.assessment,
        ∃ n, after db.superseded n a = none ∨
          ∃ b, db.superseded b = some b ∧ after db.superseded n a = some b)) := by
  refine ⟨fun a ha => ⟨fun i hi => ?_, fun i hi => exists_superseded ha hi⟩, fun hkeeps => ?_⟩
  · have hvalue := db.assessment_references a ha i hi
    rw [insertAll_referenceValue h] at hvalue
    obtain ⟨v, hv, rfl⟩ := List.mem_map.1 hvalue
    obtain ⟨row, hrow, rfl⟩ := mem_initial_referenceValue.1 hv
    exact List.mem_map_of_mem hrow
  · have hsettles := insertAll_settles rfl hkeeps h
    refine ⟨?_, hsettles, fun hone a ha => ?_⟩
    · rintro run₁ run₂ db₁ rfl hrun
      rw [insertAll_append, hrun, Option.bind_some] at h
      exact insertAll_prefix (fun statement hstatement => hkeeps statement (List.mem_append_right _ hstatement)) h
    · refine (hsettles a ha).loop fun layer hlayer => ?_
      obtain ⟨statement, hstatement, rfl⟩ := List.mem_map.1 hlayer
      exact hone statement hstatement

/-! ## An assessment that the schema accepts -/

/-- The value with id `i` is of the category with this code. -/
def InCategory (db : Database (Cell.text : String → Cell Other)) (code : String) (i : ℤ) : Prop :=
  ∃ v ∈ db.referenceValue, v.id = i ∧ ∃ c ∈ db.referenceCategory, c.id = v.categoryId ∧ c.code = .text code

/-- Its applicability is a publication state, and it supersedes itself. -/
def oddAssessment : Assessment (Cell Empty) where
  id := 1
  findingId := 1
  revision := .integer 1
  applicabilityId := 602
  exposureId := 201
  effectiveRiskId := 301
  decisionId := 401
  reasonId := 501
  publicationStateId := 602
  comment := .text ""
  reviewer := .text "reviewer"
  createdAt := .text "2026-09-09T00:00:00Z"
  supersedes := some 1
  evidenceFingerprint := .text ""

def oddRun : List (Insert (Cell Empty)) :=
  [.providerFinding .abort [⟨1, .text "OSV", .text "OSV-2026-1", .text "CVE-2026-1", none⟩],
    .buildFinding .abort [⟨1, .text "zlib", .text "1.3.1", .text "zlib", none, none, none, none, 1, none, 1⟩],
    .assessment .abort [oddAssessment]]

deriving instance DecidableEq for Assessment

instance (db : Database (Cell.text : String → Cell Empty)) (code : String) (i : ℤ) : Decidable (InCategory db code i) :=
  inferInstanceAs (Decidable (∃ v ∈ db.referenceValue, v.id = i ∧
    ∃ c ∈ db.referenceCategory, c.id = v.categoryId ∧ c.code = .text code))

theorem oddRun_accepted : ∃ db, initial.insertAll oddRun = some db ∧ db.assessment = [oddAssessment] ∧
    ¬ InCategory db "applicability" oddAssessment.applicabilityId := by
  have hrun : (initial.insertAll oddRun).map
      (fun db => (db.assessment, decide (InCategory db "applicability" oddAssessment.applicabilityId))) =
        some ([oddAssessment], false) := by decide
  obtain ⟨db, hdb, heq⟩ := Option.map_eq_some_iff.1 hrun
  obtain ⟨hassessment, hcategory⟩ := Prod.mk.inj heq
  exact ⟨db, hdb, hassessment, of_decide_eq_false hcategory⟩

/-- What holds of every run holds of this one. -/
theorem oddRun_keeps : ∃ db, initial.insertAll oddRun = some db ∧
    (∀ a ∈ db.assessment, Settles db.superseded (oddRun.map (·.assessments)) a) ∧
    ∀ a ∈ db.assessment, ∃ n, after db.superseded n a = none ∨
      ∃ b, db.superseded b = some b ∧ after db.superseded n a = some b := by
  obtain ⟨db, hdb, -, -⟩ := oddRun_accepted
  have hkeeps : ∀ statement ∈ oddRun, statement.onConflict ≠ .replace := by decide
  have hone : ∀ statement ∈ oddRun, statement.assessments.length ≤ 1 := by decide
  obtain ⟨-, hsettles, hloop⟩ := (insertAll_keeps oddRun db hdb).2 hkeeps
  exact ⟨db, hdb, hsettles, hloop hone⟩

/-- The schema accepts an assessment with a value of a wrong category that supersedes itself, and following `supersedes`
from it does not end. -/
theorem oddAssessment_accepted : ∃ db, initial.insertAll oddRun = some db ∧
    ¬ (∀ a ∈ db.assessment, InCategory db "applicability" a.applicabilityId) ∧
    ¬ (∀ a ∈ db.assessment, ∀ b, db.superseded a = some b → b.findingId = a.findingId ∧ b.revision ≠ a.revision) ∧
    ¬ (∀ a ∈ db.assessment, ∃ n, after db.superseded n a = none) := by
  obtain ⟨db, hdb, hassessment, hcategory⟩ := oddRun_accepted
  have hodd : oddAssessment ∈ db.assessment := by
    rw [hassessment]
    exact .head _
  have hself : db.superseded oddAssessment = some oddAssessment := superseded_eq_some.2 ⟨rfl, hodd⟩
  refine ⟨db, hdb, fun h => hcategory (h _ hodd), fun h => (h _ hodd _ hself).2 rfl, fun h => ?_⟩
  have hafter : ∀ n, after db.superseded n oddAssessment = some oddAssessment := by
    intro n
    induction n with
    | zero => rfl
    | succ n ih => rw [after, hself, Option.bind_some, ih]
  obtain ⟨n, hn⟩ := h _ hodd
  rw [hafter n] at hn
  cases hn

end BuildEngine.Security
