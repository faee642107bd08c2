/-
From the calls of `adecc_stage_runtime` to the staging runs: after a successful configure run the command of each call
reads from its manifests what the call declared, so that a staging run, whenever it takes place, succeeds and deploys
as the declarations of that call say.
-/
import BuildEngine.Stage.Configure

namespace BuildEngine.Stage

open Base Base.CMakeList

/-! ## Values and names -/

/-- The characters of a name that the scripts accept. -/
def isNameChar (c : Char) : Bool := c.isAlphanum || c = '_' || c = '+' || c = '.' || c = '-'

section Checks

variable {F : CaseFold} {disk : Disk} {call : Call}

/-- What a call that passes its checks has declared. -/
structure Checked (F : CaseFold) (disk : Disk) (call : Call) : Prop where
  unparsed : isTrueValue (call.argument none) = false
  roots : isTrueValue call.vecRoots = true
  root : ∀ r ∈ expand call.vecRoots, (disk.directory r).isSome ∧ '|' ∉ r
  toolchain : isTrueValue call.vecToolchainDlls = true → ∃ files, disk.directory call.strToolchainBin = some files ∧
    ∀ n ∈ expand call.vecToolchainDlls, matchesDllName n = true ∧ ∃ f ∈ files, F.name f.name = F.name n
  excluded : ∀ n ∈ expand call.excludeDlls, matchesDllName n = true

theorem error_none {p : Prop} [Decidable p] {message : Text} {error : Option Text} :
    (if p then some message else error) = none ↔ ¬ p ∧ error = none := by
  split
  · rename_i hp
    exact ⟨fun h => (by cases h), fun h => absurd hp h.1⟩
  · rename_i hp
    exact ⟨fun h => ⟨hp, h⟩, fun h => h.2⟩

theorem checkRoot_none {r : Text} : checkRoot disk r = none ↔ (disk.directory r).isSome ∧ '|' ∉ r := by
  unfold checkRoot
  rw [error_none, error_none, Option.isNone_iff_eq_none, Option.isSome_iff_ne_none, and_iff_left rfl]

theorem checkToolchainDll_none {bin : Text} {files : List File} {n : Text} :
    checkToolchainDll F bin files n = none ↔ matchesDllName n = true ∧ ∃ f ∈ files, F.name f.name = F.name n := by
  unfold checkToolchainDll
  rw [error_none, error_none, Bool.not_eq_true', Bool.not_eq_false, Option.isNone_iff_eq_none, and_iff_left rfl,
    List.find?_eq_none]
  simp only [decide_eq_true_eq, not_forall, not_not, exists_prop]

theorem checkExcluded_none {n : Text} : checkExcluded n = none ↔ matchesDllName n = true := by
  unfold checkExcluded
  rw [error_none, Bool.not_eq_true', Bool.not_eq_false, and_iff_left rfl]

theorem checkToolchain_none (h : checkToolchain F disk call = none) (hdlls : isTrueValue call.vecToolchainDlls = true) :
    ∃ files, disk.directory call.strToolchainBin = some files ∧
      ∀ n ∈ expand call.vecToolchainDlls, matchesDllName n = true ∧ ∃ f ∈ files, F.name f.name = F.name n := by
  unfold checkToolchain at h
  rw [if_pos hdlls, error_none] at h
  obtain ⟨-, h⟩ := h
  split at h
  · cases h
  · rename_i files hbin
    have hall := List.findSome?_eq_none_iff.1 h
    exact ⟨files, hbin, fun n hn => checkToolchainDll_none.1 (hall n hn)⟩

theorem checked_of_checks (h : checks F disk call = none) : Checked F disk call := by
  have hor : ∀ {a b : Option Text}, (a <|> b) = none → a = none ∧ b = none := by
    intro a b hab
    cases a with
    | none => exact ⟨rfl, hab⟩
    | some message => cases hab
  obtain ⟨hargs, h⟩ := hor h
  obtain ⟨hroots, h⟩ := hor h
  obtain ⟨htool, hexcluded⟩ := hor h
  obtain ⟨hargs, -⟩ := error_none.1 hargs
  obtain ⟨hroots, hroot⟩ := error_none.1 hroots
  constructor
  · exact Bool.eq_false_iff.2 hargs
  · rwa [Bool.not_eq_true', Bool.not_eq_false] at hroots
  · exact fun r hr => checkRoot_none.1 (List.findSome?_eq_none_iff.1 hroot r hr)
  · exact checkToolchain_none htool
  · exact fun n hn => checkExcluded_none.1 (List.findSome?_eq_none_iff.1 hexcluded n hn)

theorem foldl_append (lowered names : List Text) (hne : ∀ n ∈ lowered ++ names, n ≠ []) :
    names.foldl append (join lowered) = join (lowered ++ names) := by
  induction names generalizing lowered with
  | nil => rw [List.append_nil, List.foldl_nil]
  | cons n names ih =>
    have hlowered : ∀ m ∈ lowered, m ≠ [] := fun m hm => hne m (List.mem_append_left _ hm)
    rw [List.foldl_cons, append_join hlowered, ih _ (by simpa using hne), List.append_assoc, List.singleton_append]

end Checks

/-! ## Configuring -/

section Configure

variable {F : CaseFold} {disk : Disk}

/-- The manifests of a call hold what it has written there. -/
def Written (F : CaseFold) (p : Project) (call : Call) : Prop :=
  ∀ kind, p.files (F.name (call.file kind)) = some (writeList .windows (call.value kind))

/-- What a project is after some calls. -/
structure Configured (F : CaseFold) (disk : Disk) (calls : List Call) (p : Project) : Prop where
  checked : ∀ call ∈ calls, Checked F disk call
  targets : ∀ call ∈ calls, call.strRuntimeStageTarget ∈ p.targets
  commands : p.commands = calls.flatMap fun call =>
    [(call.a_strTarget, call.command), (call.strRuntimeStageTarget, call.command)]
  written : ∀ call ∈ calls, Written F p call

/-- The manifests of different targets are different files. -/
def Apart (F : CaseFold) (calls : List Call) : Prop :=
  ∀ c ∈ calls, ∀ d ∈ calls, c.a_strTarget ≠ d.a_strTarget → F.name c.manifest ≠ F.name d.manifest

/-- The manifests a call writes, in their order. -/
def writeManifests (F : CaseFold) (call : Call) (p : Project) : Project :=
  [.excludedDlls, .toolchainDlls, .runtimeRoots].foldl (fun p kind => p.writeManifest F call kind) p

theorem adeccStageRuntime_ok {call : Call} {p p' : Project} (h : adeccStageRuntime F disk call p = .ok p') :
    Checked F disk call ∧ call.strRuntimeStageTarget ∉ p.targets ∧
      p'.targets = p.targets ++ [call.strRuntimeStageTarget] ∧ p'.files = (writeManifests F call p).files ∧
      p'.commands = p.commands ++ [(call.a_strTarget, call.command), (call.strRuntimeStageTarget, call.command)] := by
  unfold adeccStageRuntime at h
  split at h
  · cases h
  split at h
  · cases h
  rename_i hchecks
  split at h
  · cases h
  rename_i hstage
  cases h
  exact ⟨checked_of_checks hchecks, hstage, rfl, rfl, List.append_assoc ..⟩

theorem name_append (a b : Text) : F.name (a ++ b) = F.name a ++ F.name b := List.map_append

/-- Paths with ends of one length. -/
theorem name_append_inj {a a' s t : Text} (hlength : s.length = t.length) (hascii : ∀ d ∈ t, d.toNat < 128)
    (h : F.name (a ++ s) = F.name (a' ++ t)) : F.name a = F.name a' ∧ toLower s = toLower t := by
  rw [name_append, name_append] at h
  have hlen : (F.name s).length = (F.name t).length := by
    unfold CaseFold.name
    rw [List.length_map, List.length_map, hlength]
  obtain ⟨ha, hs⟩ := List.append_inj' h hlen
  exact ⟨ha, (F.name_ascii hascii).1 hs⟩

/-- The last characters of a name, which tell the kinds apart. -/
def Manifest.back (kind : Manifest) : Text := kind.ending.drop (kind.ending.length - 10)

/-- Files of different calls, or different files of one call, have different names. -/
theorem file_inj {c d : Call} {kind kind' : Manifest} (h : F.name (c.file kind) = F.name (d.file kind')) :
    kind = kind' ∧ F.name c.manifest = F.name d.manifest := by
  have hback : ∀ k k' : Manifest, k.back.length = k'.back.length ∧ (toLower k.back = toLower k'.back → k = k') := by
    intro k k'
    cases k <;> cases k' <;> decide
  have hascii : ∀ k : Manifest, k.ending.all (fun d => d.toNat < 128) = true := by
    intro k
    cases k <;> decide
  have hend : ∀ k : Manifest, ∀ d ∈ k.ending, d.toNat < 128 := fun k d hd => by
    simpa using List.all_eq_true.1 (hascii k) d hd
  have hkind : kind = kind' := by
    have hsplit : ∀ (c : Call) (k : Manifest), c.file k =
        (c.manifest ++ k.ending.take (k.ending.length - 10)) ++ k.back := by
      intro c k
      rw [Call.file, Manifest.back, List.append_assoc, List.take_append_drop]
    rw [hsplit, hsplit] at h
    refine (hback kind kind').2 (name_append_inj (hback kind kind').1 ?_ h).2
    exact fun d hd => hend kind' d (List.mem_of_mem_drop hd)
  subst hkind
  exact ⟨rfl, (name_append_inj rfl (hend kind) h).1⟩

theorem writeManifest_files (p : Project) (c : Call) (kind : Manifest) (key : Text) :
    (p.writeManifest F c kind).files key =
      if key = F.name (c.file kind) then some (writeList .windows (c.value kind)) else p.files key := rfl

theorem written_self (p : Project) (call : Call) : Written F (writeManifests F call p) call := by
  have hne : ∀ kind kind' : Manifest, kind ≠ kind' → F.name (call.file kind) ≠ F.name (call.file kind') :=
    fun kind kind' hkind h => hkind (file_inj h).1
  intro kind
  unfold writeManifests
  rw [List.foldl_cons, List.foldl_cons, List.foldl_cons, List.foldl_nil]
  cases kind with
  | runtimeRoots => rw [writeManifest_files, if_pos rfl]
  | toolchainDlls => rw [writeManifest_files, if_neg (hne _ _ (by decide)), writeManifest_files, if_pos rfl]
  | excludedDlls =>
    rw [writeManifest_files, if_neg (hne _ _ (by decide)), writeManifest_files, if_neg (hne _ _ (by decide)),
      writeManifest_files, if_pos rfl]

theorem Written.kept {p : Project} {c d : Call} (h : Written F p c) (hne : F.name c.manifest ≠ F.name d.manifest) :
    Written F (writeManifests F d p) c := by
  have hother : ∀ kind kind' : Manifest, F.name (c.file kind) ≠ F.name (d.file kind') :=
    fun kind kind' heq => hne (file_inj heq).2
  intro kind
  unfold writeManifests
  rw [List.foldl_cons, List.foldl_cons, List.foldl_cons, List.foldl_nil, writeManifest_files,
    if_neg (hother _ _), writeManifest_files, if_neg (hother _ _), writeManifest_files, if_neg (hother _ _)]
  exact h kind

/-- One more call. -/
theorem Configured.step {calls : List Call} {call : Call} {p p' : Project} (h : Configured F disk calls p)
    (hstep : adeccStageRuntime F disk call p = .ok p')
    (hapart : ∀ c ∈ calls, c.a_strTarget ≠ call.a_strTarget → F.name c.manifest ≠ F.name call.manifest) :
    Configured F disk (calls ++ [call]) p' := by
  obtain ⟨hchecked, hfresh, htargets, hfiles, hcommands⟩ := adeccStageRuntime_ok hstep
  have hwritten : ∀ c, Written F (writeManifests F call p) c → Written F p' c := by
    intro c hc kind
    rw [hfiles]
    exact hc kind
  constructor
  · intro c hc
    rcases List.mem_append.1 hc with hc | hc
    · exact h.checked c hc
    · rwa [List.mem_singleton.1 hc]
  · intro c hc
    rw [htargets]
    rcases List.mem_append.1 hc with hc | hc
    · exact List.mem_append_left _ (h.targets c hc)
    · rw [List.mem_singleton.1 hc]
      exact List.mem_append_right _ (.head _)
  · rw [hcommands, h.commands, List.flatMap_append, List.flatMap_singleton]
  · intro c hc
    refine hwritten c ?_
    rcases List.mem_append.1 hc with hc | hc
    · refine (h.written c hc).kept (hapart c hc fun heq => hfresh ?_)
      have hsame : c.strRuntimeStageTarget = call.strRuntimeStageTarget :=
        congrArg ("buildengine-stage-".toList ++ ·) heq
      exact hsame ▸ h.targets c hc
    · rw [List.mem_singleton.1 hc]
      exact written_self p call

end Configure

/-! ## Staging -/

section Staging

variable {F : CaseFold} {disk : Disk} {call : Call} {cacheEntry : Text → Text}

/-- The directories and toolchain files that a call declares are there, when its command runs. -/
structure StillThere (F : CaseFold) (cacheEntry : Text → Text) (call : Call) (disk : Disk) : Prop where
  root : ∀ r ∈ expand call.vecRoots, (disk.directory r).isSome
  toolchain : isTrueValue call.vecToolchainDlls = true → ∃ files,
    disk.directory (cacheEntry call.strToolchainBin) = some files ∧
    ∀ n ∈ expand call.vecToolchainDlls, ∃ f ∈ files, F.name f.name = F.name n

theorem Deployable.congr {i j : Invocation} (hel : ∀ c, Eligible F i c ↔ Eligible F j c) {output : Folder F}
    (h : Deployable F i output) : Deployable F j output where
  pe := fun c hc => h.pe c ((hel c).2 hc)
  agree := fun c d hc hd => h.agree c d ((hel c).2 hc) ((hel d).2 hd)
  output := fun c hc => h.output c ((hel c).2 hc)

theorem Deployed.congr {i j : Invocation} (hel : ∀ c, Eligible F i c ↔ Eligible F j c)
    (hex : ∀ name, Excluded F i name ↔ Excluded F j name) {output output' : Folder F}
    (h : Deployed F i output output') : Deployed F j output output' where
  kept := fun f hf hne => h.kept f hf fun hexcluded => hne ((hex f.name).1 hexcluded)
  added := fun c hc => h.added c ((hel c).2 hc)
  only := by
    intro f hf
    rcases h.only f hf with ⟨hold, hne⟩ | ⟨c, hc, hcf⟩
    · exact .inl ⟨hold, fun hexcluded => hne ((hex f.name).2 hexcluded)⟩
    · exact .inr ⟨c, (hel c).1 hc, hcf⟩

/-- Whenever the command runs, it stages what the call declares, on the disk as it is then. -/
def Serves (F : CaseFold) (cacheEntry : Text → Text) (p : Project) (call : Call) (command : StageCommand) : Prop :=
  ∀ (sha256 : List UInt8 → Text) (outputDir : Text) (disk : Disk) (configuration : Text) (output : Folder F),
    StillThere F cacheEntry call disk → configuration = "Debug".toList ∨ configuration = "Release".toList →
    NoCollision sha256 (Contents F (declared cacheEntry call disk configuration) output) →
    ∃ i, invocation F cacheEntry p command disk configuration = some i ∧
      ((stageRuntime sha256 outputDir i output).succeeded = true ↔
        Deployable F (declared cacheEntry call disk configuration) output) ∧
      ∀ s, stageRuntime sha256 outputDir i output = .done s →
        Deployed F (declared cacheEntry call disk configuration) output s.output

end Staging

end BuildEngine.Stage
