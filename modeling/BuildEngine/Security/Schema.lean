/-
The tables of `schema.sql` that its views read, with the columns they read. A `Database` carries the primary keys,
unique constraints and foreign keys of these tables as fields; a column that may be NULL is an `Option`. `Value` is
what a column holds that is not NULL, in the order in which values are compared, and `text` the value of a text
literal. Ids and the columns that refer to them are integers.
-/
import BuildEngine.Base.Relational

namespace BuildEngine.Security

variable (Value : Type)

structure ReferenceCategory where
  id : ℤ
  code : Value

structure ReferenceValue where
  id : ℤ
  categoryId : ℤ
  code : Value

structure ProviderFinding where
  id : ℤ
  provider : Value
  advisoryId : Value
  primaryId : Value
  summary : Option Value

structure OsvObservation where
  id : ℤ
  providerFindingId : ℤ
  observedAt : Value
  sourceModified : Option Value
  fixAvailable : Value
  affectedVersionsJson : Value
  fixedVersionsJson : Value
  lastAffectedJson : Value
  rangesJson : Value

structure NvdObservation where
  id : ℤ
  providerFindingId : ℤ
  observedAt : Value
  sourceLastModified : Option Value
  vulnStatus : Option Value
  cvssVersion : Option Value
  cvssBaseScore : Option Value
  cvssBaseSeverity : Option Value
  cvssVector : Option Value
  cvssExploitabilityScore : Option Value
  cvssImpactScore : Option Value

structure EpssObservation where
  id : ℤ
  providerFindingId : ℤ
  observedAt : Value
  scoreDate : Option Value
  epssScore : Option Value
  percentile : Option Value

structure KevObservation where
  id : ℤ
  providerFindingId : ℤ
  observedAt : Value
  isKnownExploited : Value
  dateAdded : Option Value
  dueDate : Option Value
  knownRansomwareCampaignUse : Option Value
  requiredAction : Option Value

structure BuildFinding where
  id : ℤ
  libraryId : Value
  libraryVersion : Value
  componentName : Value
  componentVersion : Option Value
  identityCommit : Option Value
  sbomSha256 : Option Value
  buildContractFingerprint : Option Value
  providerFindingId : ℤ
  providerSeverity : Option Value
  isCurrent : ℤ

structure Assessment where
  id : ℤ
  findingId : ℤ
  revision : Value
  applicabilityId : ℤ
  exposureId : ℤ
  effectiveRiskId : ℤ
  decisionId : ℤ
  reasonId : ℤ
  publicationStateId : ℤ
  comment : Value
  reviewer : Value
  createdAt : Value
  supersedes : Option ℤ
  evidenceFingerprint : Value

variable {Value}

/-- The columns of `ux_build_finding_identity`. -/
def BuildFinding.identity (text : String → Value) (f : BuildFinding Value) :
    Value × Value × Value × Value × Value × ℤ :=
  (f.libraryId, f.libraryVersion, f.componentName, f.componentVersion.getD (text ""),
    f.identityCommit.getD (text ""), f.providerFindingId)

/-- The columns of an assessment that refer to `reference_value`. -/
def Assessment.references (a : Assessment Value) : List ℤ :=
  [a.applicabilityId, a.exposureId, a.effectiveRiskId, a.decisionId, a.reasonId, a.publicationStateId]

/-- A foreign key: every value of the column is an id of the table it refers to. -/
def Refers (column ids : List ℤ) : Prop := ∀ i ∈ column, i ∈ ids

instance (column ids : List ℤ) : Decidable (Refers column ids) :=
  inferInstanceAs (Decidable (∀ i ∈ column, i ∈ ids))

/-- A state of the database that satisfies the constraints of the schema. -/
structure Database (text : String → Value) where
  referenceCategory : List (ReferenceCategory Value)
  referenceValue : List (ReferenceValue Value)
  providerFinding : List (ProviderFinding Value)
  osvObservation : List (OsvObservation Value)
  nvdObservation : List (NvdObservation Value)
  epssObservation : List (EpssObservation Value)
  kevObservation : List (KevObservation Value)
  buildFinding : List (BuildFinding Value)
  assessment : List (Assessment Value)
  referenceCategory_id : (referenceCategory.map (·.id)).Nodup
  referenceCategory_code : (referenceCategory.map (·.code)).Nodup
  referenceValue_id : (referenceValue.map (·.id)).Nodup
  referenceValue_code : (referenceValue.map fun v => (v.categoryId, v.code)).Nodup
  referenceValue_category : Refers (referenceValue.map (·.categoryId)) (referenceCategory.map (·.id))
  providerFinding_id : (providerFinding.map (·.id)).Nodup
  providerFinding_advisory : (providerFinding.map fun p => (p.provider, p.advisoryId)).Nodup
  osvObservation_id : (osvObservation.map (·.id)).Nodup
  osvObservation_finding : Refers (osvObservation.map (·.providerFindingId)) (providerFinding.map (·.id))
  nvdObservation_id : (nvdObservation.map (·.id)).Nodup
  nvdObservation_finding : Refers (nvdObservation.map (·.providerFindingId)) (providerFinding.map (·.id))
  epssObservation_id : (epssObservation.map (·.id)).Nodup
  epssObservation_finding : Refers (epssObservation.map (·.providerFindingId)) (providerFinding.map (·.id))
  kevObservation_id : (kevObservation.map (·.id)).Nodup
  kevObservation_finding : Refers (kevObservation.map (·.providerFindingId)) (providerFinding.map (·.id))
  buildFinding_id : (buildFinding.map (·.id)).Nodup
  buildFinding_identity : (buildFinding.map (·.identity text)).Nodup
  buildFinding_finding : Refers (buildFinding.map (·.providerFindingId)) (providerFinding.map (·.id))
  assessment_id : (assessment.map (·.id)).Nodup
  assessment_revision : (assessment.map fun a => (a.findingId, a.revision)).Nodup
  assessment_finding : Refers (assessment.map (·.findingId)) (buildFinding.map (·.id))
  assessment_references : ∀ a ∈ assessment, Refers a.references (referenceValue.map (·.id))
  assessment_supersedes : Refers (assessment.filterMap (·.supersedes)) (assessment.map (·.id))

end BuildEngine.Security
