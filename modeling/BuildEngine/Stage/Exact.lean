/-
One staging run as a whole: it succeeds exactly when the eligible candidates are PE images that agree with
each other and with the output directory, and then it leaves the output directory without the excluded
files and with one file for each eligible name. Neither depends on the order of the package roots, of the
toolchain DLLs or of the excluded names.
-/
import BuildEngine.Stage.Loops

namespace BuildEngine.Stage

open Base

section Spec

variable (F : CaseFold) (i : Invocation)

/-- The names, directories and files an invocation declares are present and of the form the script accepts. -/
structure Accepted : Prop where
  roots : isTrue (i.vecRoots.map PackageRoot.theRoot) = true
  configuration : i.configuration = "Debug".toList ∨ i.configuration = "Release".toList
  excluded : ∀ n ∈ i.vecExcludedNames, matchesDllName n = true
  toolchain : ∀ n ∈ i.vecToolchainDlls, matchesDllName n = true ∧
    ∃ bin files, i.toolchainBin = some (bin, files) ∧ ∃ f ∈ files, F.name f.name = F.name n
  present : ∀ root ∈ i.vecRoots, root.isDirectory = true

/-- A name that Windows takes for an excluded one. -/
def Excluded (name : Text) : Prop := ∃ n ∈ i.vecExcludedNames, F.name name = F.name n

/-- A regular file of one of the two directories of a declared package root. -/
def PackageFile (c : Source) : Prop :=
  ∃ root ∈ i.vecRoots, ∃ bin files, (bin = "bin/win64/".toList ++ i.configuration ∨ bin = "bin".toList) ∧
    root.files bin = some files ∧ c.file ∈ files ∧ c.directory = root.theRoot ++ '/' :: bin

/-- A declared toolchain DLL, under the declared name and with the content of the file that Windows finds by it. -/
def ToolchainFile (c : Source) : Prop :=
  c.file.name ∈ i.vecToolchainDlls ∧ ∃ files f, i.toolchainBin = some (c.directory, files) ∧
    files.find? (fun f => F.name f.name = F.name c.file.name) = some f ∧ c.file.bytes = f.bytes

/-- What an invocation offers for staging. -/
def Candidate (c : Source) : Prop := ToolchainFile F i c ∨ PackageFile i c

/-- A candidate whose name ends in `.dll`, in any case, and is not excluded. -/
def Eligible (c : Source) : Prop :=
  Candidate F i c ∧ endsInDll (toLower c.file.name) = true ∧ ¬ Excluded F i c.file.name

/-- The contents a run compares: those of the eligible candidates and of the files in the output directory. -/
def Contents (output : Folder F) (bytes : List UInt8) : Prop :=
  (∃ c, Eligible F i c ∧ c.file.bytes = bytes) ∨ ∃ f ∈ output.files, f.bytes = bytes

/-- The eligible candidates pass the PE check, those of one name have one content, and a file of such a name
in the output directory has that content. -/
structure Deployable (output : Folder F) : Prop where
  pe : ∀ c, Eligible F i c → peCheck c.theFile c.file.bytes = none
  agree : ∀ c d, Eligible F i c → Eligible F i d → F.name c.file.name = F.name d.file.name →
    c.file.bytes = d.file.bytes
  output : ∀ c, Eligible F i c → ∀ f ∈ output.files, F.name f.name = F.name c.file.name → f.bytes = c.file.bytes

/-- The output directory without the excluded files and with one file for each eligible name. -/
structure Deployed (output output' : Folder F) : Prop where
  kept : ∀ f ∈ output.files, ¬ Excluded F i f.name → f ∈ output'.files
  added : ∀ c, Eligible F i c → output'.lookup (F.name c.file.name) = some c.file.bytes
  only : ∀ f ∈ output'.files, (f ∈ output.files ∧ ¬ Excluded F i f.name) ∨ ∃ c, Eligible F i c ∧ c.file = f

/-- The same declarations in another order. -/
structure Reordered (i i' : Invocation) : Prop where
  roots : i.vecRoots.Perm i'.vecRoots
  configuration : i.configuration = i'.configuration
  excluded : i.vecExcludedNames.Perm i'.vecExcludedNames
  toolchain : i.vecToolchainDlls.Perm i'.vecToolchainDlls
  toolchainBin : i.toolchainBin = i'.toolchainBin

end Spec

section

variable {F : CaseFold} {sha256 : List UInt8 → Text} {i : Invocation}

/-! ## The candidates -/

theorem mem_binSources {root : PackageRoot} {bin : Text} {c : Source} :
    c ∈ binSources root bin ↔ ∃ files, root.files bin = some files ∧ c.file ∈ files ∧
      c.directory = root.theRoot ++ '/' :: bin := by
  unfold binSources
  cases root.files bin with
  | none =>
    constructor
    · intro h
      cases h
    · rintro ⟨files, hfiles, -⟩
      cases hfiles
  | some files =>
    simp only [sortedFiles, List.mem_map, List.mem_mergeSort, Option.some.injEq, exists_eq_left']
    constructor
    · rintro ⟨f, hf, rfl⟩
      exact ⟨hf, rfl⟩
    · rintro ⟨hf, hdirectory⟩
      exact ⟨c.file, hf, by rw [← hdirectory]⟩

theorem mem_toolchainSources {c : Source} : c ∈ toolchainSources F i ↔ ToolchainFile F i c := by
  unfold toolchainSources ToolchainFile
  cases i.toolchainBin with
  | none =>
    constructor
    · intro h
      cases h
    · rintro ⟨-, files, f, hbin, -⟩
      cases hbin
  | some bin =>
    obtain ⟨toolchainBin, files⟩ := bin
    simp only [List.mem_filterMap, Option.map_eq_some_iff]
    constructor
    · rintro ⟨strDll, hdll, f, hf, rfl⟩
      exact ⟨hdll, files, f, rfl, hf, rfl⟩
    · rintro ⟨hdll, files', f, hbin, hf, hbytes⟩
      cases hbin
      exact ⟨c.file.name, hdll, f, hf, by rw [← hbytes]⟩

/-- The loops of the script go through all candidates and nothing else. -/
theorem mem_candidates {c : Source} : c ∈ candidates F i ↔ Candidate F i c := by
  unfold candidates Candidate PackageFile rootSources bins
  rw [List.mem_append, mem_toolchainSources]
  simp only [List.mem_flatMap, List.mem_cons, List.not_mem_nil, or_false, mem_binSources]
  refine or_congr_right (exists_congr fun root => and_congr_right fun _ => ?_)
  constructor
  · rintro ⟨bin, hbin, files, h⟩
    exact ⟨bin, files, hbin, h⟩
  · rintro ⟨bin, files, hbin, h⟩
    exact ⟨bin, hbin, files, h⟩

/-- The keys of the excluded names. -/
def excludedKeys (i : Invocation) : List Text := (i.vecExcludedNames.map toLower).eraseDups

theorem excludedKeys_iff (h : ∀ n ∈ i.vecExcludedNames, matchesDllName n = true) (name : Text) :
    toLower name ∈ excludedKeys i ↔ Excluded F i name := by
  unfold excludedKeys Excluded
  rw [List.mem_eraseDups, List.mem_map]
  constructor
  · rintro ⟨n, hn, hkey⟩
    exact ⟨n, hn, (F.name_ascii (matchesDllName_ascii (h n hn))).2 hkey.symm⟩
  · rintro ⟨n, hn, hname⟩
    exact ⟨n, hn, ((F.name_ascii (matchesDllName_ascii (h n hn))).1 hname).symm⟩

theorem excludedKeys_last (h : ∀ n ∈ i.vecExcludedNames, matchesDllName n = true) :
    ∀ k ∈ excludedKeys i, k.getLast? = some 'l' := by
  intro k hk
  unfold excludedKeys at hk
  rw [List.mem_eraseDups] at hk
  obtain ⟨n, hn, rfl⟩ := List.mem_map.1 hk
  unfold toLower
  rw [List.getLast?_map, matchesDllName_last (h n hn)]
  rfl

theorem eligible_iff (h : ∀ n ∈ i.vecExcludedNames, matchesDllName n = true) (c : Source) :
    c ∈ (candidates F i).filter (eligible (excludedKeys i)) ↔ Eligible F i c := by
  unfold Eligible eligible
  rw [List.mem_filter, mem_candidates, Bool.and_eq_true, Bool.not_eq_true', ← excludedKeys_iff h, ← Bool.not_eq_true,
    List.contains_iff_mem]

/-- The script behind its checks. -/
def stageAll (F : CaseFold) (sha256 : List UInt8 → Text) (outputDir : Text) (i : Invocation) (s : StageState F) :
    Outcome (StageState F) :=
  (stageToolchain sha256 outputDir (excludedKeys i) i s).bind
    (forEach (stageRoot sha256 outputDir (excludedKeys i) i.configuration) i.vecRoots)

theorem stageAll_stages (outputDir : Text) (accepted : Accepted F i) {inPlay : List UInt8 → Prop}
    (hsha : NoCollision sha256 inPlay) (hplay : ∀ c, Eligible F i c → inPlay c.file.bytes) :
    Stages (F := F) inPlay (excludedKeys i) (candidates F i) (stageAll F sha256 outputDir i) := by
  have hmem : ∀ c ∈ candidates F i, eligible (excludedKeys i) c = true → inPlay c.file.bytes := fun c hc hel =>
    hplay c ((eligible_iff accepted.excluded c).1 (List.mem_filter.2 ⟨hc, hel⟩))
  refine (stageToolchain_stages outputDir hsha accepted.toolchain fun c hc => hmem c ?_).bind
    (Stages.forEach fun root hroot => stageRoot_stages outputDir hsha i.configuration (accepted.present root hroot)
      fun c hc => hmem c ?_)
  · exact List.mem_append_left _ hc
  · exact List.mem_append_right _ (List.mem_flatMap.2 ⟨root, hroot, hc⟩)

/-- An accepted run is the purge followed by the staging. -/
theorem stageRuntime_eq (outputDir : Text) (accepted : Accepted F i) (output : Folder F) :
    stageRuntime sha256 outputDir i output =
      (stageAll F sha256 outputDir i (purge (excludedKeys i) (StageState.start output))).bind fun s =>
        .done (s.status ("BuildEngine runtime: ".toList ++ (toString s.uStaged).toList ++
          " Windows x64 DLLs staged in ".toList ++ outputDir)) := by
  have hconf : ¬ (i.configuration ≠ "Debug".toList ∧ i.configuration ≠ "Release".toList) := by
    rintro ⟨hd, hr⟩
    rcases accepted.configuration with h | h
    · exact hd h
    · exact hr h
  unfold stageRuntime
  dsimp only
  rw [if_neg (by simp [accepted.roots]), if_neg hconf, excludedDlls_ok accepted.excluded]
  unfold stageAll
  dsimp only
  unfold excludedKeys
  cases stageToolchain sha256 outputDir (i.vecExcludedNames.map toLower).eraseDups i
      (purge (i.vecExcludedNames.map toLower).eraseDups (StageState.start output)) with
  | done s => rfl
  | fatal message s => rfl

/-! ## The state behind the purge -/

theorem purged_files (accepted : Accepted F i) (output : Folder F) (f : File) :
    f ∈ (purge (excludedKeys i) (StageState.start output)).output.files ↔
      f ∈ output.files ∧ ¬ Excluded F i f.name := by
  rw [(purge_files (excludedKeys_last accepted.excluded) _).2, excludedKeys_iff accepted.excluded]
  rfl

theorem purged_inv (accepted : Accepted F i) (output : Folder F) :
    Inv (Contents F i output) (purge (excludedKeys i) (StageState.start output)) := by
  have hvec := (purge_files (excludedKeys_last accepted.excluded) (StageState.start output)).1
  refine ⟨?_, ?_, ?_⟩
  · rw [hvec]
    intro x hx
    cases hx
  · rw [hvec]
    intro x hx
    cases hx
  · intro f hf
    exact .inr ⟨f, ((purged_files accepted output f).1 hf).1, rfl⟩

theorem Excluded.congr {a b : Text} (h : F.name a = F.name b) (ha : Excluded F i a) : Excluded F i b := by
  obtain ⟨n, hn, hname⟩ := ha
  exact ⟨n, hn, h.symm.trans hname⟩

/-- The candidates are admissible to the purged directory exactly when the invocation is deployable. -/
theorem admissible_iff (accepted : Accepted F i) (output : Folder F) :
    Admissible F (excludedKeys i) (purge (excludedKeys i) (StageState.start output)).output.lookup
      (candidates F i) ↔ Deployable F i output := by
  have hel := eligible_iff (F := F) accepted.excluded
  have hitem : ∀ c, Eligible F i c → c.item F ∈ items F (excludedKeys i) (candidates F i) := fun c hc =>
    List.mem_map_of_mem ((hel c).2 hc)
  constructor
  · rintro ⟨hpe, hitems, hmap⟩
    refine ⟨fun c hc => peCheck_none.2 (hpe c ((hel c).2 hc)), fun c d hc hd hname => ?_, fun c hc f hf hname => ?_⟩
    · exact hitems _ (hitem c hc) _ (hitem d hd) hname
    · refine hmap _ (hitem c hc) _ (Folder.lookup_eq_some.2 ⟨f, ?_, hname, rfl⟩)
      exact (purged_files accepted output f).2 ⟨hf, fun hex => hc.2.2 (hex.congr hname)⟩
  · intro h
    refine ⟨fun c hc => peCheck_none.1 (h.pe c ((hel c).1 hc)), ⟨?_, ?_⟩⟩
    · intro x hx y hy hname
      obtain ⟨c, hc, rfl⟩ := List.mem_map.1 hx
      obtain ⟨d, hd, rfl⟩ := List.mem_map.1 hy
      exact h.agree c d ((hel c).1 hc) ((hel d).1 hd) hname
    · intro x hx v hv
      obtain ⟨c, hc, rfl⟩ := List.mem_map.1 hx
      obtain ⟨f, hf, hname, rfl⟩ := Folder.lookup_eq_some.1 hv
      exact h.output c ((hel c).1 hc) f ((purged_files accepted output f).1 hf).1 hname

/-- What the staging leaves is the deployed directory. -/
theorem deployed_of_staged (accepted : Accepted F i) {output : Folder F} {s : StageState F}
    (hdep : Deployable F i output)
    (h : Staged (Contents F i output) (excludedKeys i) (candidates F i)
      (purge (excludedKeys i) (StageState.start output)) s) : Deployed F i output s.output where
  kept := fun f hf hex => h.kept ((purged_files accepted output f).2 ⟨hf, hex⟩)
  added := by
    intro c hc
    have hadm := (admissible_iff accepted output).2 hdep
    rw [h.lookup]
    refine (Merge.overlay_eq_some hadm.2 _ _).2 (.inr ?_)
    exact List.mem_map_of_mem (f := Source.item F) ((eligible_iff accepted.excluded c).2 hc)
  only := by
    intro f hf
    rcases h.only f hf with hf | ⟨c, hc, hcf⟩
    · exact .inl ((purged_files accepted output f).1 hf)
    · exact .inr ⟨c, (eligible_iff accepted.excluded c).1 hc, hcf⟩

/-- The run of an accepted invocation. -/
theorem stageRuntime_run (outputDir : Text) (accepted : Accepted F i) (output : Folder F)
    (hsha : NoCollision sha256 (Contents F i output)) :
    ((stageRuntime sha256 outputDir i output).succeeded = true ↔ Deployable F i output) ∧
    ∀ s, stageRuntime sha256 outputDir i output = .done s → Deployed F i output s.output := by
  obtain ⟨hok, hstaged⟩ := stageAll_stages outputDir accepted hsha (fun c hc => .inl ⟨c, hc, rfl⟩) _
    (purged_inv accepted output)
  rw [admissible_iff accepted] at hok
  rw [stageRuntime_eq outputDir accepted]
  cases hrun : stageAll F sha256 outputDir i (purge (excludedKeys i) (StageState.start output)) with
  | fatal message t =>
    rw [hrun] at hok
    exact ⟨hok, fun s h => (by cases h)⟩
  | done t =>
    rw [hrun] at hok
    refine ⟨hok, fun s h => ?_⟩
    cases h
    have hdeployed := deployed_of_staged accepted (hok.1 rfl) (hstaged t hrun)
    exact hdeployed

/-! ## Order -/

theorem Deployed.lookup_iff {output output' : Folder F} (h : Deployed F i output output') (key : Text)
    (bytes : List UInt8) : output'.lookup key = some bytes ↔
      (∃ f ∈ output.files, ¬ Excluded F i f.name ∧ F.name f.name = key ∧ f.bytes = bytes) ∨
      ∃ c, Eligible F i c ∧ F.name c.file.name = key ∧ c.file.bytes = bytes := by
  constructor
  · intro hl
    obtain ⟨f, hf, hkey, hbytes⟩ := Folder.lookup_eq_some.1 hl
    rcases h.only f hf with ⟨hf, hex⟩ | ⟨c, hc, rfl⟩
    · exact .inl ⟨f, hf, hex, hkey, hbytes⟩
    · exact .inr ⟨c, hc, hkey, hbytes⟩
  · rintro (⟨f, hf, hex, hkey, hbytes⟩ | ⟨c, hc, rfl, rfl⟩)
    · exact Folder.lookup_eq_some.2 ⟨f, h.kept f hf hex, hkey, hbytes⟩
    · exact h.added c hc

theorem Reordered.symm {i' : Invocation} (h : Reordered i i') : Reordered i' i :=
  ⟨h.roots.symm, h.configuration.symm, h.excluded.symm, h.toolchain.symm, h.toolchainBin.symm⟩

theorem Reordered.candidate {i' : Invocation} (h : Reordered i i') {c : Source} (hc : Candidate F i c) :
    Candidate F i' c := by
  rcases hc with ⟨hdll, files, f, hbin, hf⟩ | ⟨root, hroot, bin, files, hbin, hfiles⟩
  · exact .inl ⟨h.toolchain.subset hdll, files, f, h.toolchainBin ▸ hbin, hf⟩
  · exact .inr ⟨root, h.roots.subset hroot, bin, files, h.configuration ▸ hbin, hfiles⟩

theorem Reordered.excluded_iff {i' : Invocation} (h : Reordered i i') (name : Text) :
    Excluded F i name ↔ Excluded F i' name := by
  constructor
  · rintro ⟨n, hn, hname⟩
    exact ⟨n, h.excluded.subset hn, hname⟩
  · rintro ⟨n, hn, hname⟩
    exact ⟨n, h.excluded.symm.subset hn, hname⟩

theorem Reordered.eligible_iff {i' : Invocation} (h : Reordered i i') (c : Source) :
    Eligible F i c ↔ Eligible F i' c := by
  unfold Eligible
  rw [h.excluded_iff]
  constructor
  · rintro ⟨hc, hrest⟩
    exact ⟨h.candidate hc, hrest⟩
  · rintro ⟨hc, hrest⟩
    exact ⟨h.symm.candidate hc, hrest⟩

theorem Reordered.deployable {i' : Invocation} (h : Reordered i i') {output : Folder F}
    (hdep : Deployable F i output) : Deployable F i' output where
  pe := fun c hc => hdep.pe c ((h.eligible_iff c).2 hc)
  agree := fun c d hc hd => hdep.agree c d ((h.eligible_iff c).2 hc) ((h.eligible_iff d).2 hd)
  output := fun c hc => hdep.output c ((h.eligible_iff c).2 hc)

theorem Reordered.lookup_eq {i' : Invocation} (h : Reordered i i') {output o o' : Folder F}
    (ho : Deployed F i output o) (ho' : Deployed F i' output o') : o.lookup = o'.lookup := by
  funext key
  refine Option.ext fun bytes => ?_
  rw [ho.lookup_iff, ho'.lookup_iff]
  simp only [h.excluded_iff, h.eligible_iff]

end

/-- Exactness and order independence of a staging run. -/
theorem stageRuntime_exact (F : CaseFold) (sha256 : List UInt8 → Text) (outputDir : Text) (i : Invocation)
    (output : Folder F) (accepted : Accepted F i) (collisionFree : NoCollision sha256 (Contents F i output)) :
    ((stageRuntime sha256 outputDir i output).succeeded = true ↔ Deployable F i output) ∧
    (∀ s, stageRuntime sha256 outputDir i output = .done s → Deployed F i output s.output) ∧
    ∀ i', Reordered i i' → Accepted F i' →
      (stageRuntime sha256 outputDir i' output).succeeded = (stageRuntime sha256 outputDir i output).succeeded ∧
      ∀ s s', stageRuntime sha256 outputDir i output = .done s → stageRuntime sha256 outputDir i' output = .done s' →
        s'.output.lookup = s.output.lookup := by
  obtain ⟨hok, hdeployed⟩ := stageRuntime_run outputDir accepted output collisionFree
  refine ⟨hok, hdeployed, fun i' hre accepted' => ?_⟩
  have hsha' : NoCollision sha256 (Contents F i' output) := by
    have hsame : ∀ b, Contents F i' output b → Contents F i output b := by
      rintro b (⟨c, hc, rfl⟩ | ⟨f, hf, rfl⟩)
      · exact .inl ⟨c, (hre.eligible_iff c).2 hc, rfl⟩
      · exact .inr ⟨f, hf, rfl⟩
    exact fun a b ha hb => collisionFree a b (hsame a ha) (hsame b hb)
  obtain ⟨hok', hdeployed'⟩ := stageRuntime_run outputDir accepted' output hsha'
  constructor
  · rw [Bool.eq_iff_iff, hok, hok']
    exact ⟨hre.symm.deployable, hre.deployable⟩
  · intro s s' hs hs'
    exact (hre.lookup_eq (hdeployed s hs) (hdeployed' s' hs')).symm

/-- ASCII case folding. -/
def asciiFold : CaseFold where
  char := Char.toLower
  ascii _ _ _ := Iff.rfl

/-- A package with one DLL of the given content. -/
def packageRoot (bytes : List UInt8) : PackageRoot where
  theRoot := "C:/packages/a".toList
  isDirectory := true
  files bin := if bin = "bin".toList then some [⟨"A.dll".toList, bytes⟩] else none

def packageInvocation (bytes : List UInt8) : Invocation where
  rootsFile := "roots.txt".toList
  vecRoots := [packageRoot bytes]
  configuration := "Release".toList
  vecExcludedNames := ["old.dll".toList]
  vecToolchainDlls := []
  toolchainBin := none

theorem packageInvocation_accepted (bytes : List UInt8) : Accepted asciiFold (packageInvocation bytes) where
  roots := by
    show isTrue ["C:/packages/a".toList] = true
    decide
  configuration := .inr rfl
  excluded := by
    show ∀ n ∈ ["old.dll".toList], matchesDllName n = true
    decide
  toolchain := fun n hn => by cases hn
  present := fun root hroot => by rw [List.mem_singleton.1 hroot]; rfl

/-- An output directory with an excluded DLL. -/
def oldOutput : Folder asciiFold := ⟨[⟨"Old.DLL".toList, [0]⟩], by decide⟩

theorem candidate_package {bytes : List UInt8} {c : Source} : Candidate asciiFold (packageInvocation bytes) c ↔
    c = ⟨"C:/packages/a/bin".toList, ⟨"A.dll".toList, bytes⟩⟩ := by
  constructor
  · rintro (⟨hdll, -⟩ | ⟨root, hroot, bin, files, hbin, hfiles, hfile, hdirectory⟩)
    · cases hdll
    · obtain rfl := List.mem_singleton.1 hroot
      rcases hbin with rfl | rfl
      · have hnone : (packageRoot bytes).files ("bin/win64/".toList ++ "Release".toList) = none := rfl
        rw [show (packageInvocation bytes).configuration = "Release".toList from rfl, hnone] at hfiles
        cases hfiles
      · obtain rfl : [⟨"A.dll".toList, bytes⟩] = files := Option.some.inj hfiles
        obtain ⟨directory, file⟩ := c
        obtain rfl : file = ⟨"A.dll".toList, bytes⟩ := List.mem_singleton.1 hfile
        obtain rfl : directory = (packageRoot bytes).theRoot ++ '/' :: "bin".toList := hdirectory
        rfl
  · rintro rfl
    exact .inr ⟨packageRoot bytes, .head _, "bin".toList, _, .inr rfl, rfl, .head _, rfl⟩

theorem eligible_package {bytes : List UInt8} {c : Source} : Eligible asciiFold (packageInvocation bytes) c ↔
    c = ⟨"C:/packages/a/bin".toList, ⟨"A.dll".toList, bytes⟩⟩ := by
  unfold Eligible
  rw [candidate_package, and_iff_left_iff_imp]
  rintro rfl
  have hends : endsInDll (toLower "A.dll".toList) = true := by decide
  have hold : asciiFold.name "A.dll".toList ≠ asciiFold.name "old.dll".toList := by decide
  refine ⟨hends, ?_⟩
  rintro ⟨n, hn, hname⟩
  rw [List.mem_singleton.1 hn] at hname
  exact hold hname

/-- The DLL of the package is there after the run, and the excluded one is not. -/
theorem packageInvocation_deployable : Deployable asciiFold (packageInvocation bareCoff) oldOutput ∧
    ∃ s, stageRuntime toHex "C:/app".toList (packageInvocation bareCoff) oldOutput = .done s ∧
      s.output.lookup "a.dll".toList = some bareCoff ∧ ∀ f ∈ s.output.files, f = ⟨"A.dll".toList, bareCoff⟩ := by
  obtain ⟨hok, hdeployed, -⟩ := stageRuntime_exact asciiFold toHex "C:/app".toList (packageInvocation bareCoff) oldOutput
    (packageInvocation_accepted bareCoff) fun _ _ _ _ h => toHex_inj h
  have hsucceeded : (stageRuntime toHex "C:/app".toList (packageInvocation bareCoff) oldOutput).succeeded = true := by
    decide +kernel
  refine ⟨hok.1 hsucceeded, ?_⟩
  cases hrun : stageRuntime toHex "C:/app".toList (packageInvocation bareCoff) oldOutput with
  | fatal message s =>
    rw [hrun] at hsucceeded
    cases hsucceeded
  | done s =>
    have hdep := hdeployed s hrun
    refine ⟨s, rfl, hdep.added _ (eligible_package.2 rfl), fun f hf => ?_⟩
    rcases hdep.only f hf with ⟨hold, hex⟩ | ⟨c, hc, rfl⟩
    · rw [List.mem_singleton.1 hold] at hex
      exact absurd ⟨"old.dll".toList, .head _, by decide⟩ hex
    · rw [eligible_package.1 hc]

end BuildEngine.Stage
