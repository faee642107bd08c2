/-
The search path that Meson gets: directories with the registered tools in front, each of them once up to case, and
the old search path behind.
-/
import BuildEngine.Meson.Served

namespace BuildEngine.Meson.Main

open Base

section Expose

variable {host : Host} {process : Process} {w : World} {registry : Registry}

/-- One of the directories, up to case, holds the executables of the tool. -/
def Exposes (host : Host) (process : Process) (w : World) (directories : List Text) (tool : Text × List String) :
    Prop :=
  ∃ directory : PurePath, (∃ value ∈ directories, host.casefold value = host.casefold directory.str) ∧
    ∀ expected ∈ tool.2, isFile host process w (directory.join [expected]) = true

theorem Exposes.mono {directories directories' : List Text} {tool : Text × List String}
    (h : Exposes host process w directories tool) (hsub : directories ⊆ directories') :
    Exposes host process w directories' tool := by
  obtain ⟨directory, ⟨value, hvalue, heq⟩, hfiles⟩ := h
  exact ⟨directory, ⟨value, hsub hvalue, heq⟩, hfiles⟩

/-- Directories that stand for each tool once. -/
def Distinct (host : Host) (directories : List Text) : Prop := (directories.map host.casefold).Nodup

theorem exposeTool_ok {tool : Text × List String} {directories directories' : List Text}
    (h : exposeTool host process w registry tool directories = .ok directories') (hdistinct : Distinct host directories) :
    directories ⊆ directories' ∧ Distinct host directories' ∧ Exposes host process w directories' tool := by
  unfold exposeTool at h
  split at h
  · cases h
  · rename_i node _
    simp only at h
    split at h
    · cases h
    · split at h
      · cases h
      · rename_i hfind
        have hfiles : ∀ expected ∈ tool.2,
            isFile host process w ((PurePath.parse node.path).parent.join [expected]) = true := fun expected he => by
          simpa using List.find?_eq_none.1 hfind expected he
        split at h
        · rename_i hthere
          cases h
          obtain ⟨value, hvalue, heq⟩ := List.any_eq_true.1 hthere
          exact ⟨List.Subset.refl _, hdistinct, _, ⟨value, hvalue, of_decide_eq_true heq⟩, hfiles⟩
        · rename_i hnew
          cases h
          refine ⟨List.subset_append_left .., ?_, _, ⟨_, List.mem_append_right _ (.head _), rfl⟩, hfiles⟩
          rw [Distinct, List.map_append, List.map_singleton, ← List.concat_eq_append, List.nodup_concat]
          refine ⟨fun hmem => hnew ?_, hdistinct⟩
          obtain ⟨value, hvalue, heq⟩ := List.mem_map.1 hmem
          exact List.any_eq_true.2 ⟨value, hvalue, decide_eq_true heq⟩

theorem exposeTools_ok : ∀ {tools : List (Text × List String)} {directories directories' : List Text},
    exposeTools host process w registry tools directories = .ok directories' → Distinct host directories →
    directories ⊆ directories' ∧ Distinct host directories' ∧ ∀ tool ∈ tools, Exposes host process w directories' tool
  | [], directories, _, h, hdistinct => by
    cases h
    exact ⟨List.Subset.refl _, hdistinct, fun _ htool => by cases htool⟩
  | tool :: tools, directories, directories', h, hdistinct => by
    rw [exposeTools] at h
    split at h
    · cases h
    · rename_i directories₁ hfirst
      obtain ⟨hsub, hdistinct₁, hexposes⟩ := exposeTool_ok hfirst hdistinct
      obtain ⟨hsub', hdistinct', hexposes'⟩ := exposeTools_ok h hdistinct₁
      refine ⟨List.Subset.trans hsub hsub', hdistinct', fun tool' htool' => ?_⟩
      rcases List.mem_cons.1 htool' with rfl | htool'
      · exact hexposes.mono hsub'
      · exact hexposes' tool' htool'

/-- A search path with the required tools in front of an old one. -/
def Finds (host : Host) (process : Process) (w : World) (path : Text) : Prop :=
  ∃ directories, path = [';'].intercalate (directories ++ [process.path.getD []]) ∧ Distinct host directories ∧
    ∀ tool ∈ required, Exposes host process w directories tool

theorem exposeBuildengineTools_finds {path : Text} (h : exposeBuildengineTools host process w = .ok path) :
    Finds host process w path := by
  unfold exposeBuildengineTools at h
  split at h
  · cases h
  · rename_i directories hdirectories
    cases h
    unfold exposedDirectories at hdirectories
    split at hdirectories
    · cases hdirectories
    · split at hdirectories
      · cases hdirectories
      · split at hdirectories
        · cases hdirectories
        · obtain ⟨-, hdistinct, hexposes⟩ := exposeTools_ok hdirectories List.nodup_nil
          exact ⟨directories, rfl, hdistinct, hexposes⟩

theorem Finds.congr {v : World} {path : Text} (h : Finds host process v path)
    (hpresent : ∀ p, (v p).isSome = (w p).isSome) : Finds host process w path := by
  obtain ⟨directories, hpath, hdistinct, hexposes⟩ := h
  refine ⟨directories, hpath, hdistinct, fun tool htool => ?_⟩
  obtain ⟨directory, hvalue, hfiles⟩ := hexposes tool htool
  exact ⟨directory, hvalue, fun expected he => (hpresent _).symm.trans (hfiles expected he)⟩

end Expose

theorem main_finds {host : Host} {process : Process} {script : Script} {w : World} {argv : List Text}
    {sysPath path : Text} (h : (main host process script w).2 = .meson argv sysPath path) :
    argv = (mesonEntry host process).str :: process.argv.drop 2 ∧ sysPath = (mesonRoot host process).str ∧
      (w (mesonEntry host process)).isSome = true ∧ Finds host process w path := by
  unfold main at h
  split at h
  · cases h
  · split at h
    · cases h
    · rename_i hentry
      split at h
      · cases h
      · rename_i path' hpath
        split at h
        · cases h
        · cases h
          refine ⟨rfl, rfl, ?_, exposeBuildengineTools_finds hpath⟩
          exact Option.isSome_iff_ne_none.2 (by simpa using hentry)

/-- In any session a process that starts Meson starts the entry point of its tree, with the arguments that it was
called with and the tree in front of `sys.path`; the search path finds every required tool. -/
theorem session_finds (host : Host) : ∀ (runs : List (Script × Process)) (w : World) (run : Script × Process)
    (argv : List Text) (sysPath path : Text),
    (run, Outcome.meson argv sysPath path) ∈ runs.zip (session host runs w).2 →
      argv = (mesonEntry host run.2).str :: run.2.argv.drop 2 ∧ sysPath = (mesonRoot host run.2).str ∧
        (w (mesonEntry host run.2)).isSome = true ∧ Finds host run.2 w path
  | [], _, _, _, _, _, h => by cases h
  | run :: runs, w, run', argv, sysPath, path, h => by
    have hzip : (run', Outcome.meson argv sysPath path) ∈ (run, (main host run.2 run.1 w).2) ::
        runs.zip (session host runs (main host run.2 run.1 w).1).2 := h
    have hpresent := (main_keeps host run.2 run.1 w).1.present
    rcases List.mem_cons.1 hzip with heq | hmem
    · obtain ⟨rfl, houtcome⟩ := Prod.mk.inj heq
      exact main_finds houtcome.symm
    · obtain ⟨hargv, hsysPath, hentry, hfinds⟩ := session_finds host runs _ run' argv sysPath path hmem
      exact ⟨hargv, hsysPath, (hpresent _).symm.trans hentry, hfinds.congr hpresent⟩

theorem session_finds_bench : Finds benchHost (benchProcess ["setup", "build", "C:/mesa"]) bench benchPath := by
  have hmem : ((.openglMeson, benchProcess ["setup", "build", "C:/mesa"]),
      started benchHost (benchProcess ["setup", "build", "C:/mesa"]) benchPath) ∈
      benchRuns.zip (session benchHost benchRuns bench).2 := by
    rw [bench_prepared.outcomes]
    exact .head _
  exact (session_finds benchHost benchRuns bench _ _ _ _ hmem).2.2.2

end BuildEngine.Meson.Main
