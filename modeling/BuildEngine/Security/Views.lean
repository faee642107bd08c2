/-
The views of `schema.sql`, and what they contain in every state of the database that satisfies the constraints: the
review queue has one row for each current build finding, `current_external_vulnerability` one for each provider
finding, `shared_current_assessment` the shared ones among the latest assessments (`views_exact`).
-/
import BuildEngine.Security.Schema
import Mathlib.Data.String.Basic
import Mathlib.Data.Sum.Order

namespace BuildEngine.Security

open Base.Relational

variable {Value : Type} [LinearOrder Value] {text : String → Value}

/-! ## The views -/

/-- `current_assessment` -/
def currentAssessment (db : Database text) : List (Assessment Value) :=
  (join db.assessment (groupMax (·.findingId) (·.revision) db.assessment)
    fun a latest => latest.1 = a.findingId ∧ latest.2 = a.revision).map Prod.fst

/-- `SELECT o.* FROM o JOIN (SELECT provider_finding_id, MAX(id) id FROM o GROUP BY provider_finding_id) latest
ON latest.id=o.id` -/
def latestObservation {Observation : Type} (providerFindingId id : Observation → ℤ) (o : List Observation) :
    List Observation :=
  (join o (groupMax providerFindingId id o) fun a latest => latest.2 = id a).map Prod.fst

def latestOsvObservation (db : Database text) : List (OsvObservation Value) :=
  latestObservation (·.providerFindingId) (·.id) db.osvObservation

def latestNvdObservation (db : Database text) : List (NvdObservation Value) :=
  latestObservation (·.providerFindingId) (·.id) db.nvdObservation

def latestEpssObservation (db : Database text) : List (EpssObservation Value) :=
  latestObservation (·.providerFindingId) (·.id) db.epssObservation

def latestKevObservation (db : Database text) : List (KevObservation Value) :=
  latestObservation (·.providerFindingId) (·.id) db.kevObservation

/-- A row of `current_external_vulnerability`. -/
structure ExternalVulnerability (Value : Type) where
  providerFindingId : ℤ
  primaryId : Value
  osvObservedAt : Option Value
  osvSourceModified : Option Value
  fixAvailable : Option Value
  affectedVersionsJson : Option Value
  fixedVersionsJson : Option Value
  lastAffectedJson : Option Value
  rangesJson : Option Value
  nvdObservedAt : Option Value
  nvdLastModified : Option Value
  nvdStatus : Option Value
  cvssVersion : Option Value
  cvssBaseScore : Option Value
  cvssBaseSeverity : Option Value
  cvssVector : Option Value
  cvssExploitabilityScore : Option Value
  cvssImpactScore : Option Value
  epssObservedAt : Option Value
  epssDate : Option Value
  epssScore : Option Value
  epssPercentile : Option Value
  kevObservedAt : Option Value
  isKnownExploited : Option Value
  kevDateAdded : Option Value
  kevDueDate : Option Value
  knownRansomwareCampaignUse : Option Value
  kevRequiredAction : Option Value

/-- The columns selected from a provider finding and the observations joined to it; a missing one gives NULL. -/
def ExternalVulnerability.select (pf : ProviderFinding Value) (oo : Option (OsvObservation Value))
    (no : Option (NvdObservation Value)) (eo : Option (EpssObservation Value))
    (ko : Option (KevObservation Value)) : ExternalVulnerability Value where
  providerFindingId := pf.id
  primaryId := pf.primaryId
  osvObservedAt := oo.map (·.observedAt)
  osvSourceModified := oo.bind (·.sourceModified)
  fixAvailable := oo.map (·.fixAvailable)
  affectedVersionsJson := oo.map (·.affectedVersionsJson)
  fixedVersionsJson := oo.map (·.fixedVersionsJson)
  lastAffectedJson := oo.map (·.lastAffectedJson)
  rangesJson := oo.map (·.rangesJson)
  nvdObservedAt := no.map (·.observedAt)
  nvdLastModified := no.bind (·.sourceLastModified)
  nvdStatus := no.bind (·.vulnStatus)
  cvssVersion := no.bind (·.cvssVersion)
  cvssBaseScore := no.bind (·.cvssBaseScore)
  cvssBaseSeverity := no.bind (·.cvssBaseSeverity)
  cvssVector := no.bind (·.cvssVector)
  cvssExploitabilityScore := no.bind (·.cvssExploitabilityScore)
  cvssImpactScore := no.bind (·.cvssImpactScore)
  epssObservedAt := eo.map (·.observedAt)
  epssDate := eo.bind (·.scoreDate)
  epssScore := eo.bind (·.epssScore)
  epssPercentile := eo.bind (·.percentile)
  kevObservedAt := ko.map (·.observedAt)
  isKnownExploited := ko.map (·.isKnownExploited)
  kevDateAdded := ko.bind (·.dateAdded)
  kevDueDate := ko.bind (·.dueDate)
  knownRansomwareCampaignUse := ko.bind (·.knownRansomwareCampaignUse)
  kevRequiredAction := ko.bind (·.requiredAction)

/-- `current_external_vulnerability` -/
def currentExternalVulnerability (db : Database text) : List (ExternalVulnerability Value) :=
  let osv := leftJoin db.providerFinding (latestOsvObservation db) fun pf oo => oo.providerFindingId = pf.id
  let nvd := leftJoin osv (latestNvdObservation db) fun x no => no.providerFindingId = x.1.id
  let epss := leftJoin nvd (latestEpssObservation db) fun x eo => eo.providerFindingId = x.1.1.id
  let kev := leftJoin epss (latestKevObservation db) fun x ko => ko.providerFindingId = x.1.1.1.id
  kev.map fun x => .select x.1.1.1.1 x.1.1.1.2 x.1.1.2 x.1.2 x.2

/-- A row of `review_queue`. -/
structure ReviewRow (Value : Type) where
  findingId : ℤ
  libraryId : Value
  libraryVersion : Value
  componentName : Value
  componentVersion : Option Value
  identityCommit : Option Value
  provider : Value
  advisoryId : Value
  providerSeverity : Option Value
  primaryId : Value
  summary : Option Value
  assessmentId : Option ℤ
  assessmentRevision : Option Value
  applicabilityId : Option ℤ
  exposureId : Option ℤ
  effectiveRiskId : Option ℤ
  decisionId : Option ℤ
  reasonId : Option ℤ
  publicationStateId : Option ℤ
  assessmentEvidenceFingerprint : Option Value
  buildContractFingerprint : Option Value
  sbomSha256 : Option Value

def ReviewRow.select (f : BuildFinding Value) (pf : ProviderFinding Value) (a : Option (Assessment Value)) :
    ReviewRow Value where
  findingId := f.id
  libraryId := f.libraryId
  libraryVersion := f.libraryVersion
  componentName := f.componentName
  componentVersion := f.componentVersion
  identityCommit := f.identityCommit
  provider := pf.provider
  advisoryId := pf.advisoryId
  providerSeverity := f.providerSeverity
  primaryId := pf.primaryId
  summary := pf.summary
  assessmentId := a.map (·.id)
  assessmentRevision := a.map (·.revision)
  applicabilityId := a.map (·.applicabilityId)
  exposureId := a.map (·.exposureId)
  effectiveRiskId := a.map (·.effectiveRiskId)
  decisionId := a.map (·.decisionId)
  reasonId := a.map (·.reasonId)
  publicationStateId := a.map (·.publicationStateId)
  assessmentEvidenceFingerprint := a.map (·.evidenceFingerprint)
  buildContractFingerprint := f.buildContractFingerprint
  sbomSha256 := f.sbomSha256

/-- `review_queue` -/
def reviewQueue (db : Database text) : List (ReviewRow Value) :=
  let found := join db.buildFinding db.providerFinding fun f pf => pf.id = f.providerFindingId
  let assessed := leftJoin found (currentAssessment db) fun x a => a.findingId = x.1.id
  (assessed.filter fun x => x.1.1.isCurrent = 1).map fun x => .select x.1.1 x.1.2 x.2

/-- The rows of `current_assessment` with their publication state. -/
def publicationState (db : Database text) : List (Assessment Value × ReferenceValue Value) :=
  join (currentAssessment db) db.referenceValue fun a state => state.id = a.publicationStateId

/-- And with its category. -/
def publicationCategory (db : Database text) :
    List ((Assessment Value × ReferenceValue Value) × ReferenceCategory Value) :=
  join (publicationState db) db.referenceCategory fun x category => category.id = x.2.categoryId

/-- `shared_current_assessment` -/
def sharedCurrentAssessment (db : Database text) : List (Assessment Value) :=
  ((publicationCategory db).filter fun x =>
    x.2.code = text "publication-state" ∧ x.1.2.code = text "shared").map fun x => x.1.1

/-! ## The latest rows -/

theorem currentAssessment_eq (db : Database text) :
    currentAssessment db = db.assessment.filter (Greatest (·.findingId) (·.revision) db.assessment) :=
  join_groupMax

theorem latestObservation_eq {Observation : Type} {providerFindingId id : Observation → ℤ}
    {o : List Observation} (hid : (o.map id).Nodup) :
    latestObservation providerFindingId id o = o.filter (Greatest providerFindingId id o) :=
  join_groupMax_rank hid

/-- A left join with the latest observations keeps every row once. -/
theorem leftJoin_latestObservation {Observation γ : Type} {providerFindingId id : Observation → ℤ}
    {o : List Observation} (hid : (o.map id).Nodup) (r : List γ) (k : γ → ℤ) :
    leftJoin r (latestObservation providerFindingId id o) (fun x a => providerFindingId a = k x) =
      r.map fun x => (x, latest providerFindingId id o (k x)) := by
  have hpairs : (o.map fun a => (providerFindingId a, id a)).Nodup := by
    refine List.Nodup.of_map Prod.snd ?_
    rwa [List.map_map]
  rw [latestObservation_eq hid]
  exact leftJoin_latest hpairs r k

/-- A foreign key leads to one row. -/
theorem exists_filter_id {Row : Type} {id : Row → ℤ} {rows : List Row} (hid : (rows.map id).Nodup) {i : ℤ}
    (hi : i ∈ rows.map id) : ∃ row, rows.filter (id · = i) = [row] ∧ row ∈ rows ∧ id row = i := by
  obtain ⟨row, hrow, rfl⟩ := List.mem_map.1 hi
  exact ⟨row, filter_key hid hrow, hrow, rfl⟩

/-! ## What the views contain -/

/-- The columns of a row of `review_queue` that an assessment fills, or NULL without one. -/
def ReviewRow.ShowsAssessment (row : ReviewRow Value) : Option (Assessment Value) → Prop
  | none => row.assessmentId = none ∧ row.assessmentRevision = none ∧ row.applicabilityId = none ∧
      row.exposureId = none ∧ row.effectiveRiskId = none ∧ row.decisionId = none ∧ row.reasonId = none ∧
      row.publicationStateId = none ∧ row.assessmentEvidenceFingerprint = none
  | some a => row.assessmentId = some a.id ∧ row.assessmentRevision = some a.revision ∧
      row.applicabilityId = some a.applicabilityId ∧ row.exposureId = some a.exposureId ∧
      row.effectiveRiskId = some a.effectiveRiskId ∧ row.decisionId = some a.decisionId ∧
      row.reasonId = some a.reasonId ∧ row.publicationStateId = some a.publicationStateId ∧
      row.assessmentEvidenceFingerprint = some a.evidenceFingerprint

/-- What a row of `review_queue` says of a build finding. -/
structure ReviewRow.Shows (db : Database text) (f : BuildFinding Value) (row : ReviewRow Value) : Prop where
  finding : row.findingId = f.id ∧ row.libraryId = f.libraryId ∧ row.libraryVersion = f.libraryVersion ∧
    row.componentName = f.componentName ∧ row.componentVersion = f.componentVersion ∧
    row.identityCommit = f.identityCommit ∧ row.providerSeverity = f.providerSeverity ∧
    row.buildContractFingerprint = f.buildContractFingerprint ∧ row.sbomSha256 = f.sbomSha256
  provider : ∃ pf ∈ db.providerFinding, pf.id = f.providerFindingId ∧ row.provider = pf.provider ∧
    row.advisoryId = pf.advisoryId ∧ row.primaryId = pf.primaryId ∧ row.summary = pf.summary
  assessment : ∃ a, LatestOf (·.findingId) (·.revision) db.assessment f.id a ∧ row.ShowsAssessment a
  unassessed : row.ShowsAssessment none ↔ ∀ a ∈ db.assessment, a.findingId ≠ f.id

/-- The columns of a row of `current_external_vulnerability` that an OSV observation fills, or NULL without one. -/
def ExternalVulnerability.ShowsOsv (row : ExternalVulnerability Value) : Option (OsvObservation Value) → Prop
  | none => row.osvObservedAt = none ∧ row.osvSourceModified = none ∧ row.fixAvailable = none ∧
      row.affectedVersionsJson = none ∧ row.fixedVersionsJson = none ∧ row.lastAffectedJson = none ∧
      row.rangesJson = none
  | some oo => row.osvObservedAt = some oo.observedAt ∧ row.osvSourceModified = oo.sourceModified ∧
      row.fixAvailable = some oo.fixAvailable ∧ row.affectedVersionsJson = some oo.affectedVersionsJson ∧
      row.fixedVersionsJson = some oo.fixedVersionsJson ∧ row.lastAffectedJson = some oo.lastAffectedJson ∧
      row.rangesJson = some oo.rangesJson

/-- Those of an NVD observation. -/
def ExternalVulnerability.ShowsNvd (row : ExternalVulnerability Value) : Option (NvdObservation Value) → Prop
  | none => row.nvdObservedAt = none ∧ row.nvdLastModified = none ∧ row.nvdStatus = none ∧ row.cvssVersion = none ∧
      row.cvssBaseScore = none ∧ row.cvssBaseSeverity = none ∧ row.cvssVector = none ∧
      row.cvssExploitabilityScore = none ∧ row.cvssImpactScore = none
  | some no => row.nvdObservedAt = some no.observedAt ∧ row.nvdLastModified = no.sourceLastModified ∧
      row.nvdStatus = no.vulnStatus ∧ row.cvssVersion = no.cvssVersion ∧ row.cvssBaseScore = no.cvssBaseScore ∧
      row.cvssBaseSeverity = no.cvssBaseSeverity ∧ row.cvssVector = no.cvssVector ∧
      row.cvssExploitabilityScore = no.cvssExploitabilityScore ∧ row.cvssImpactScore = no.cvssImpactScore

/-- Those of an EPSS observation. -/
def ExternalVulnerability.ShowsEpss (row : ExternalVulnerability Value) : Option (EpssObservation Value) → Prop
  | none => row.epssObservedAt = none ∧ row.epssDate = none ∧ row.epssScore = none ∧ row.epssPercentile = none
  | some eo => row.epssObservedAt = some eo.observedAt ∧ row.epssDate = eo.scoreDate ∧
      row.epssScore = eo.epssScore ∧ row.epssPercentile = eo.percentile

/-- Those of a KEV observation. -/
def ExternalVulnerability.ShowsKev (row : ExternalVulnerability Value) : Option (KevObservation Value) → Prop
  | none => row.kevObservedAt = none ∧ row.isKnownExploited = none ∧ row.kevDateAdded = none ∧
      row.kevDueDate = none ∧ row.knownRansomwareCampaignUse = none ∧ row.kevRequiredAction = none
  | some ko => row.kevObservedAt = some ko.observedAt ∧ row.isKnownExploited = some ko.isKnownExploited ∧
      row.kevDateAdded = ko.dateAdded ∧ row.kevDueDate = ko.dueDate ∧
      row.knownRansomwareCampaignUse = ko.knownRansomwareCampaignUse ∧ row.kevRequiredAction = ko.requiredAction

/-- What a row of `current_external_vulnerability` says of a provider finding. -/
structure ExternalVulnerability.Shows (db : Database text) (pf : ProviderFinding Value)
    (row : ExternalVulnerability Value) : Prop where
  finding : row.providerFindingId = pf.id ∧ row.primaryId = pf.primaryId
  osv : ∃ oo, LatestOf (·.providerFindingId) (·.id) db.osvObservation pf.id oo ∧ row.ShowsOsv oo
  nvd : ∃ no, LatestOf (·.providerFindingId) (·.id) db.nvdObservation pf.id no ∧ row.ShowsNvd no
  epss : ∃ eo, LatestOf (·.providerFindingId) (·.id) db.epssObservation pf.id eo ∧ row.ShowsEpss eo
  kev : ∃ ko, LatestOf (·.providerFindingId) (·.id) db.kevObservation pf.id ko ∧ row.ShowsKev ko
  noOsv : row.ShowsOsv none ↔ ∀ oo ∈ db.osvObservation, oo.providerFindingId ≠ pf.id
  noNvd : row.ShowsNvd none ↔ ∀ no ∈ db.nvdObservation, no.providerFindingId ≠ pf.id
  noEpss : row.ShowsEpss none ↔ ∀ eo ∈ db.epssObservation, eo.providerFindingId ≠ pf.id
  noKev : row.ShowsKev none ↔ ∀ ko ∈ db.kevObservation, ko.providerFindingId ≠ pf.id

/-- A row shows the latest row of a table, and NULL exactly when that has none with the key. -/
theorem shows_none_iff {Row : Type} {R : Type} [LE R] {key : Row → ℤ} {rank : Row → R} {rows : List Row} {k : ℤ}
    {Shows : Option Row → Prop} {a : Option Row} (ha : LatestOf key rank rows k a) (hshows : Shows a)
    (hsome : ∀ b, Shows (some b) → ¬ Shows none) : Shows none ↔ ∀ b ∈ rows, key b ≠ k := by
  cases a with
  | none => exact ⟨fun _ => ha, fun _ => hshows⟩
  | some b => exact ⟨fun hnone => absurd hnone (hsome b hshows), fun hall => absurd ha.2.1 (hall b ha.1)⟩

omit [LinearOrder Value] in
/-- The number of an assessment is never NULL. -/
theorem ReviewRow.ShowsAssessment.ne_none {row : ReviewRow Value} {a : Assessment Value}
    (h : row.ShowsAssessment (some a)) : ¬ row.ShowsAssessment none := by
  intro hnone
  have hid := h.1.symm.trans hnone.1
  cases hid

omit [LinearOrder Value] in
theorem ReviewRow.shows_select (f : BuildFinding Value) (pf : ProviderFinding Value) (a : Option (Assessment Value)) :
    (ReviewRow.select f pf a).ShowsAssessment a := by
  cases a <;> exact ⟨rfl, rfl, rfl, rfl, rfl, rfl, rfl, rfl, rfl⟩

omit [LinearOrder Value] in
theorem ExternalVulnerability.shows_select (pf : ProviderFinding Value) (oo : Option (OsvObservation Value))
    (no : Option (NvdObservation Value)) (eo : Option (EpssObservation Value)) (ko : Option (KevObservation Value)) :
    (ExternalVulnerability.select pf oo no eo ko).ShowsOsv oo ∧
    (ExternalVulnerability.select pf oo no eo ko).ShowsNvd no ∧
    (ExternalVulnerability.select pf oo no eo ko).ShowsEpss eo ∧
    (ExternalVulnerability.select pf oo no eo ko).ShowsKev ko := by
  refine ⟨?_, ?_, ?_, ?_⟩
  · cases oo <;> exact ⟨rfl, rfl, rfl, rfl, rfl, rfl, rfl⟩
  · cases no <;> exact ⟨rfl, rfl, rfl, rfl, rfl, rfl, rfl, rfl, rfl⟩
  · cases eo <;> exact ⟨rfl, rfl, rfl, rfl⟩
  · cases ko <;> exact ⟨rfl, rfl, rfl, rfl, rfl, rfl⟩

theorem reviewQueue_rows (db : Database text) :
    List.Forall₂ (ReviewRow.Shows db) (db.buildFinding.filter (·.isCurrent = 1)) (reviewQueue db) := by
  set found := join db.buildFinding db.providerFinding fun f pf => pf.id = f.providerFindingId with hjoin
  -- the foreign key meets one provider finding
  have hfound : List.Forall₂ (fun f x => x.1 = f ∧ (x.2 ∈ db.providerFinding ∧ x.2.id = f.providerFindingId))
      db.buildFinding found := by
    refine forall₂_join
      (P := fun (f : BuildFinding Value) pf => pf ∈ db.providerFinding ∧ pf.id = f.providerFindingId) fun f hf => ?_
    exact exists_filter_id db.providerFinding_id (db.buildFinding_finding _ (List.mem_map_of_mem hf))
  -- a finding has at most one assessment of the greatest revision, so the left join keeps every row once
  have hassessed : leftJoin found (currentAssessment db) (fun x a => a.findingId = x.1.id) =
      found.map fun x => (x, latest (·.findingId) (·.revision) db.assessment x.1.id) := by
    rw [currentAssessment_eq]
    exact leftJoin_latest db.assessment_revision found fun x => x.1.id
  have hrows : reviewQueue db = (found.filter fun x => x.1.isCurrent = 1).map fun x =>
      .select x.1 x.2 (latest (·.findingId) (·.revision) db.assessment x.1.id) := by
    simp only [reviewQueue, ← hjoin, hassessed, List.filter_map, List.map_map]
    rfl
  rw [hrows, List.forall₂_map_right_iff]
  have hcurrent := List.rel_filter (p := fun f => decide (f.isCurrent = 1))
    (q := fun x => decide (x.1.isCurrent = 1)) (fun f x h => h.1 ▸ Iff.rfl) hfound
  refine hcurrent.imp ?_
  rintro _ ⟨f, pf⟩ ⟨rfl, hpf, hid⟩
  have ha : LatestOf (·.findingId) (·.revision) db.assessment f.id
      (latest (·.findingId) (·.revision) db.assessment f.id) := latest_latestOf f.id
  have hshows := ReviewRow.shows_select f pf (latest (·.findingId) (·.revision) db.assessment f.id)
  exact {
    finding := ⟨rfl, rfl, rfl, rfl, rfl, rfl, rfl, rfl, rfl⟩
    provider := ⟨pf, hpf, hid, rfl, rfl, rfl, rfl⟩
    assessment := ⟨_, ha, hshows⟩
    unassessed := shows_none_iff ha hshows fun _ h => h.ne_none }

omit [LinearOrder Value] in
theorem currentExternalVulnerability_rows (db : Database text) :
    List.Forall₂ (ExternalVulnerability.Shows db) db.providerFinding (currentExternalVulnerability db) := by
  have heq : currentExternalVulnerability db = db.providerFinding.map fun pf =>
      .select pf (latest (·.providerFindingId) (·.id) db.osvObservation pf.id)
        (latest (·.providerFindingId) (·.id) db.nvdObservation pf.id)
        (latest (·.providerFindingId) (·.id) db.epssObservation pf.id)
        (latest (·.providerFindingId) (·.id) db.kevObservation pf.id) := by
    unfold currentExternalVulnerability latestOsvObservation latestNvdObservation latestEpssObservation
      latestKevObservation
    simp only [leftJoin_latestObservation db.osvObservation_id, leftJoin_latestObservation db.nvdObservation_id,
      leftJoin_latestObservation db.epssObservation_id, leftJoin_latestObservation db.kevObservation_id,
      List.map_map]
    rfl
  rw [heq, List.forall₂_map_right_iff]
  refine List.forall₂_same.2 fun pf _ => ?_
  obtain ⟨hosv, hnvd, hepss, hkev⟩ := ExternalVulnerability.shows_select pf
    (latest (·.providerFindingId) (·.id) db.osvObservation pf.id)
    (latest (·.providerFindingId) (·.id) db.nvdObservation pf.id)
    (latest (·.providerFindingId) (·.id) db.epssObservation pf.id)
    (latest (·.providerFindingId) (·.id) db.kevObservation pf.id)
  -- the time of an observation is never NULL
  have hsome : ∀ {at? : Option Value} {observedAt : Value}, at? = some observedAt → at? ≠ none := by
    rintro _ _ rfl hnone
    cases hnone
  exact {
    finding := ⟨rfl, rfl⟩
    osv := ⟨_, latest_latestOf _, hosv⟩
    nvd := ⟨_, latest_latestOf _, hnvd⟩
    epss := ⟨_, latest_latestOf _, hepss⟩
    kev := ⟨_, latest_latestOf _, hkev⟩
    noOsv := shows_none_iff (latest_latestOf _) hosv fun _ h hnone => hsome h.1 hnone.1
    noNvd := shows_none_iff (latest_latestOf _) hnvd fun _ h hnone => hsome h.1 hnone.1
    noEpss := shows_none_iff (latest_latestOf _) hepss fun _ h hnone => hsome h.1 hnone.1
    noKev := shows_none_iff (latest_latestOf _) hkev fun _ h hnone => hsome h.1 hnone.1 }

theorem sharedCurrentAssessment_nodup (db : Database text) : (sharedCurrentAssessment db).Nodup := by
  have hstate : ((publicationState db).map Prod.fst).Sublist (currentAssessment db) :=
    join_fst_sublist fun a _ => filter_key_length_le db.referenceValue_id a.publicationStateId
  have hcategory : ((publicationCategory db).map Prod.fst).Sublist (publicationState db) :=
    join_fst_sublist fun x _ => filter_key_length_le db.referenceCategory_id x.2.categoryId
  have hnodup : (currentAssessment db).Nodup := by
    rw [currentAssessment_eq]
    exact (db.assessment_id.of_map _).filter _
  have hall : ((publicationCategory db).map fun x => x.1.1).Nodup := by
    have hsub := (hcategory.map Prod.fst).trans hstate
    rw [List.map_map] at hsub
    exact hsub.nodup hnodup
  exact (List.filter_sublist.map _).nodup hall

theorem mem_sharedCurrentAssessment (db : Database text) (a : Assessment Value) :
    a ∈ sharedCurrentAssessment db ↔
      LatestOf (·.findingId) (·.revision) db.assessment a.findingId (some a) ∧
      ∃ state ∈ db.referenceValue, state.id = a.publicationStateId ∧ state.code = text "shared" ∧
      ∃ category ∈ db.referenceCategory, category.id = state.categoryId ∧
        category.code = text "publication-state" := by
  have hlatest : a ∈ currentAssessment db ↔
      LatestOf (·.findingId) (·.revision) db.assessment a.findingId (some a) := by
    rw [currentAssessment_eq, List.mem_filter, decide_eq_true_iff]
    exact ⟨fun ⟨ha, h⟩ => ⟨ha, rfl, h⟩, fun ⟨ha, _, h⟩ => ⟨ha, h⟩⟩
  rw [← hlatest]
  unfold sharedCurrentAssessment publicationCategory publicationState
  simp only [List.mem_map, List.mem_filter, mem_join, decide_eq_true_iff]
  constructor
  · rintro ⟨⟨⟨_, state⟩, category⟩, ⟨⟨⟨ha, hstate, hid⟩, hcategory, hid'⟩, hcode', hcode⟩, rfl⟩
    exact ⟨ha, state, hstate, hid, hcode, category, hcategory, hid', hcode'⟩
  · rintro ⟨ha, state, hstate, hid, hcode, category, hcategory, hid', hcode'⟩
    exact ⟨⟨⟨a, state⟩, category⟩, ⟨⟨⟨ha, hstate, hid⟩, hcategory, hid'⟩, hcode', hcode⟩, rfl⟩

/-- The three views that the review works with, in every state of the database. -/
theorem views_exact (db : Database text) :
    List.Forall₂ (ReviewRow.Shows db) (db.buildFinding.filter (·.isCurrent = 1)) (reviewQueue db) ∧
    List.Forall₂ (ExternalVulnerability.Shows db) db.providerFinding (currentExternalVulnerability db) ∧
    (sharedCurrentAssessment db).Nodup ∧
    ∀ a, a ∈ sharedCurrentAssessment db ↔
      LatestOf (·.findingId) (·.revision) db.assessment a.findingId (some a) ∧
      ∃ state ∈ db.referenceValue, state.id = a.publicationStateId ∧ state.code = text "shared" ∧
      ∃ category ∈ db.referenceCategory, category.id = state.categoryId ∧
        category.code = text "publication-state" :=
  ⟨reviewQueue_rows db, currentExternalVulnerability_rows db, sharedCurrentAssessment_nodup db,
    mem_sharedCurrentAssessment db⟩

instance instDecidableEqIntOrText : DecidableEq (ℤ ⊕ₗ String) := inferInstanceAs (DecidableEq (ℤ ⊕ String))

/-- A finding with two revisions of its assessment, the second of which is shared, and two observations of its
advisory; a second finding is no longer current. Integers come before texts. -/
def revised : Database (Sum.inrₗ : String → ℤ ⊕ₗ String) where
  referenceCategory := [⟨1, Sum.inrₗ "publication-state"⟩]
  referenceValue := [⟨1, 1, Sum.inrₗ "local"⟩, ⟨2, 1, Sum.inrₗ "shared"⟩]
  providerFinding := [⟨1, Sum.inrₗ "osv", Sum.inrₗ "GHSA-1", Sum.inrₗ "CVE-1", none⟩]
  osvObservation := [
    ⟨1, 1, Sum.inrₗ "2026-01-01", none, Sum.inlₗ 0, Sum.inrₗ "[]", Sum.inrₗ "[]", Sum.inrₗ "[]", Sum.inrₗ "[]"⟩,
    ⟨2, 1, Sum.inrₗ "2026-02-01", none, Sum.inlₗ 1, Sum.inrₗ "[]", Sum.inrₗ "[]", Sum.inrₗ "[]", Sum.inrₗ "[]"⟩]
  nvdObservation := []
  epssObservation := []
  kevObservation := [⟨1, 1, Sum.inrₗ "2026-02-01", Sum.inlₗ 1, none, none, none, none⟩]
  buildFinding := [
    ⟨1, Sum.inrₗ "zlib", Sum.inrₗ "1.3", Sum.inrₗ "zlib", none, none, none, none, 1, none, 1⟩,
    ⟨2, Sum.inrₗ "zlib", Sum.inrₗ "1.2", Sum.inrₗ "zlib", none, none, none, none, 1, none, 0⟩]
  assessment := [
    ⟨1, 1, Sum.inlₗ 2, 1, 1, 1, 1, 1, 2, Sum.inrₗ "", Sum.inrₗ "a", Sum.inrₗ "2026-02-02", some 2, Sum.inrₗ "f"⟩,
    ⟨2, 1, Sum.inlₗ 1, 1, 1, 1, 1, 1, 1, Sum.inrₗ "", Sum.inrₗ "a", Sum.inrₗ "2026-01-02", none, Sum.inrₗ "f"⟩]
  referenceCategory_id := by decide
  referenceCategory_code := by decide
  referenceValue_id := by decide
  referenceValue_code := by decide
  referenceValue_category := by decide
  providerFinding_id := by decide
  providerFinding_advisory := by decide
  osvObservation_id := by decide
  osvObservation_finding := by decide
  nvdObservation_id := by decide
  nvdObservation_finding := by decide
  epssObservation_id := by decide
  epssObservation_finding := by decide
  kevObservation_id := by decide
  kevObservation_finding := by decide
  buildFinding_id := by decide
  buildFinding_identity := by decide
  buildFinding_finding := by decide
  assessment_id := by decide
  assessment_revision := by decide
  assessment_finding := by decide
  assessment_references := by decide
  assessment_supersedes := by decide

example : ((reviewQueue revised).map fun row => (row.findingId, row.assessmentRevision)) =
    [(1, some (Sum.inlₗ 2))] := by
  decide

example : ((currentExternalVulnerability revised).map fun row =>
      (row.providerFindingId, row.osvObservedAt, row.nvdObservedAt, row.isKnownExploited)) =
    [(1, some (Sum.inrₗ "2026-02-01"), none, some (Sum.inlₗ 1))] := by
  decide

example : (sharedCurrentAssessment revised).map (·.id) = [1] := by decide

end BuildEngine.Security
