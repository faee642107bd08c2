/-
Whole runs of the loader probe: `main` with `ProbeOne`, over any process. The modules that are loaded and freed, the calls
of `LoadLibraryExW`, and the lines that say how each check ended.
-/
import BuildEngine.Probe.ProbeOne
import BuildEngine.Probe.TreeLog

namespace BuildEngine.Probe

open Base Base.Handles

variable {σ : Type} (L : Loader σ)

/-- What an event does to the references that the process holds. -/
def use : ProbeEvent → Option (Use HMODULE)
  | .loadLibrary _ _ (.ok module) => some (.acquire module)
  | .freeLibrary module => some (.release module)
  | _ => none

def uses (log : List ProbeEvent) : List (Use HMODULE) := log.filterMap use

/-- A call of `LoadLibraryExW`. -/
structure Load where
  file : WString
  flags : ℕ
  loaded : Except ℕ HMODULE

def loadOf : ProbeEvent → Option Load
  | .loadLibrary file flags loaded => some ⟨file, flags, loaded⟩
  | _ => none

def loads (log : List ProbeEvent) : List Load := log.filterMap loadOf

/-- The line of an event, whoever has printed it. -/
def lineOf : ProbeEvent → Option (String × List Arg)
  | .wprintf format args => some (format, args)
  | .file _ (.wprintf format args) => some (format, args)
  | .tree _ (.wprintf format args) => some (format, args)
  | _ => none

/-- What a line says about the check of a DLL. -/
inductive Verdict where
  | began (index total : ℕ) (name : WString)
  | result (name : WString) (passed : Bool)
  deriving DecidableEq, Repr

def verdictOfLine : String × List Arg → Option Verdict
  | (format, [.num index, .num total, .wide name]) =>
    if format = probeFormat then some (.began index total name) else none
  | (format, [.wide name]) =>
    if format = passFormat then some (.result name true)
    else if format ∈ [failFormat, invalidNameFormat, notFoundFormat, unresolvedPathFormat] then some (.result name false)
    else none
  | _ => none

/-- What the lines of a log say, in their order. -/
def verdicts (log : List ProbeEvent) : List Verdict := log.filterMap fun e => (lineOf e).bind verdictOfLine

/-! ## The lines of the functions that are called for a file -/

/-- A line without a wide string in it. -/
def NoWide : Event → Prop
  | .wprintf _ args => ∀ w, .wide w ∉ args
  | _ => True

theorem wprintf_noWide {format : String} {args : List Arg} (h : ∀ w, .wide w ∉ args) : (wprintf format args).All NoWide :=
  (Traced.all_emit _).2 h

section NoWide

variable {f : MappedFile}

theorem atOffset_noWide {α : Type} {T : Layout α} {pos : ℕ} : (f.atOffset T pos).All NoWide :=
  atOffset_all fun _ => trivial

theorem rva_noWide {dos : ImageDosHeader} {nt : ImageNtHeaders64} {address need : ℕ} :
    (rva f dos nt address need).All NoWide :=
  translated_all (sectionSearch_all (fun _ _ => trivial) _ _) trivial

theorem rawOffset_noWide {dos : ImageDosHeader} {nt : ImageNtHeaders64} {address bytes : ℕ} :
    (rawOffset f dos nt address bytes).All NoWide :=
  translated_all (sectionSearch_all (fun _ _ => trivial) _ _) trivial

theorem reportLoop_noWide {dos : ImageDosHeader} {nt : ImageNtHeaders64} {dir : ImageDataDirectory} :
    ∀ n i, (reportLoop f dos nt dir n i).All NoWide
  | 0, _ => Traced.all_pure _
  | n + 1, i => by
    have ih : (reportLoop f dos nt dir n (i + 1)).All NoWide := reportLoop_noWide n (i + 1)
    rw [reportLoop]
    refine rva_noWide.bind (atOffset_noWide.bind ?_)
    split
    · exact wprintf_noWide (by simp)
    · split
      · exact Traced.all_pure _
      · refine rva_noWide.bind ?_
        split
        · exact (wprintf_noWide (by simp)).bind ih
        · refine (findZero_all trivial).bind ?_
          split
          · exact (wprintf_noWide (by simp)).bind ih
          · exact (readString_all trivial).bind ((wprintf_noWide (by simp)).bind ih)

theorem reportImports_noWide (f : MappedFile) : (reportImports f).All NoWide := by
  unfold reportImports
  refine atOffset_noWide.bind ?_
  split
  · exact wprintf_noWide (by simp)
  · split
    · exact wprintf_noWide (by simp)
    · refine atOffset_noWide.bind ?_
      split
      · exact wprintf_noWide (by simp)
      · split
        · exact wprintf_noWide (by simp)
        · refine (wprintf_noWide (by simp)).bind ?_
          split
          · exact wprintf_noWide (by simp)
          · split
            · exact Traced.all_pure _
            · dsimp only
              split
              · exact wprintf_noWide (by simp)
              · exact reportLoop_noWide _ _

theorem systemError_noWide {code : ℕ} : (systemError code).All NoWide := wprintf_noWide (by simp)

theorem reportMapping_noWide (mapping : ImageMapping) : (reportMapping mapping).All NoWide := by
  cases mapping with
  | fileFailed error => exact (wprintf_noWide (by simp)).bind systemError_noWide
  | mappingFailed error => exact (wprintf_noWide (by simp)).bind systemError_noWide
  | viewFailed error => exact (wprintf_noWide (by simp)).bind systemError_noWide
  | mapped => exact wprintf_noWide (by simp)

theorem sectionReport_noWide {opt : ImageOptionalHeader64} {sectionOffset : ℕ} :
    ∀ n i k, (sectionReport f opt sectionOffset n i k).All NoWide
  | 0, _, _ => Traced.all_pure _
  | n + 1, i, k => by
    rw [sectionReport]
    refine atOffset_noWide.bind ?_
    split
    · exact (wprintf_noWide (by simp)).bind (Traced.all_pure _)
    · exact (wprintf_noWide (by simp [flag])).bind (sectionReport_noWide n (i + 1) _)

theorem directoryReport_noWide {opt : ImageOptionalHeader64} {entry : ℕ} {format : String} :
    (directoryReport opt entry format).All NoWide := by
  unfold directoryReport
  split
  · exact wprintf_noWide (by simp)
  · exact Traced.all_pure _

theorem loadConfigReport_noWide {dos : ImageDosHeader} {nt : ImageNtHeaders64} :
    (loadConfigReport f dos nt).All NoWide := by
  unfold loadConfigReport
  dsimp only
  split
  · refine (wprintf_noWide (by simp [flag])).bind ?_
    split
    · refine rawOffset_noWide.bind (atOffset_noWide.bind ?_)
      split
      on_goal 2 => refine (wprintf_noWide (by simp)).bind ?_
      -- the guard flags, behind either report
      all_goals
        split
        · refine rawOffset_noWide.bind (atOffset_noWide.bind ?_)
          split
          · exact wprintf_noWide (by simp)
          · exact wprintf_noWide (by simp)
        · exact Traced.all_pure _
    · exact Traced.all_pure _
  · exact Traced.all_pure _

theorem tlsReport_noWide {dos : ImageDosHeader} {nt : ImageNtHeaders64} : (tlsReport f dos nt).All NoWide := by
  unfold tlsReport
  dsimp only
  split
  · refine (wprintf_noWide (by simp)).bind ?_
    split
    · refine rawOffset_noWide.bind (atOffset_noWide.bind ?_)
      split
      · exact wprintf_noWide (by simp)
      · exact (wprintf_noWide (by simp)).bind (wprintf_noWide (by simp [flag]))
    · exact Traced.all_pure _
  · exact Traced.all_pure _

theorem diagnoseImage_noWide (f : MappedFile) (mapping : ImageMapping) : (diagnoseImage f mapping).All NoWide := by
  unfold diagnoseImage
  refine atOffset_noWide.bind ?_
  split
  · exact wprintf_noWide (by simp)
  · split
    · exact wprintf_noWide (by simp)
    · refine atOffset_noWide.bind ?_
      split
      · exact wprintf_noWide (by simp)
      · split
        · exact wprintf_noWide (by simp)
        · refine (wprintf_noWide (by simp [flag])).bind ((wprintf_noWide (by simp)).bind ((wprintf_noWide (by simp)).bind ?_))
          refine directoryReport_noWide.bind (directoryReport_noWide.bind (directoryReport_noWide.bind ?_))
          refine (sectionReport_noWide _ _ _).bind ((wprintf_noWide (by simp)).bind ?_)
          exact loadConfigReport_noWide.bind (tlsReport_noWide.bind (reportMapping_noWide _))

end NoWide

theorem verdictOfLine_noWide {format : String} {args : List Arg} (h : ∀ w, .wide w ∉ args) :
    verdictOfLine (format, args) = none := by
  unfold verdictOfLine
  split
  · rename_i name heq
    cases heq
    exact absurd (by simp) (h name)
  · rename_i name heq
    cases heq
    exact absurd (by simp) (h name)
  · rfl

/-- The lines of the traversal say nothing about a check. -/
theorem verdictOfLine_tree {format : String} {args : List Arg} (h : format ∈ treeFormats) :
    verdictOfLine (format, args) = none := by
  have hother : format ≠ probeFormat ∧ format ≠ passFormat ∧
      format ∉ [failFormat, invalidNameFormat, notFoundFormat, unresolvedPathFormat] := by
    revert format
    decide
  obtain ⟨hprobe, hpass, hfail⟩ := hother
  unfold verdictOfLine
  split
  · rename_i heq
    cases heq
    exact if_neg hprobe
  · rename_i heq
    cases heq
    rw [if_neg hpass, if_neg hfail]
  · rfl

/-! ## Parts that neither load nor decide -/

/-- Events that are neither a load, nor a release, nor a line about the check. -/
structure Idle (log : List ProbeEvent) : Prop where
  uses : uses log = []
  loads : loads log = []
  verdicts : verdicts log = []

theorem uses_append (log log' : List ProbeEvent) : uses (log ++ log') = uses log ++ uses log' := List.filterMap_append

theorem loads_append (log log' : List ProbeEvent) : loads (log ++ log') = loads log ++ loads log' := List.filterMap_append

theorem verdicts_append (log log' : List ProbeEvent) : verdicts (log ++ log') = verdicts log ++ verdicts log' :=
  List.filterMap_append

theorem Idle.nil : Idle [] := ⟨rfl, rfl, rfl⟩

theorem Idle.append {log log' : List ProbeEvent} (h : Idle log) (h' : Idle log') : Idle (log ++ log') where
  uses := by rw [uses_append, h.uses, h'.uses, List.append_nil]
  loads := by rw [loads_append, h.loads, h'.loads, List.append_nil]
  verdicts := by rw [verdicts_append, h.verdicts, h'.verdicts, List.append_nil]

theorem idle_of_all {log : List ProbeEvent} (h : ∀ e ∈ log, use e = none ∧ loadOf e = none ∧
    (lineOf e).bind verdictOfLine = none) : Idle log where
  uses := List.filterMap_eq_nil_iff.2 fun e he => (h e he).1
  loads := List.filterMap_eq_nil_iff.2 fun e he => (h e he).2.1
  verdicts := List.filterMap_eq_nil_iff.2 fun e he => (h e he).2.2

theorem idle_onFile (path : WString) {m : Probing Unit} (h : m.All NoWide) : Idle (onFile path m).log := by
  refine idle_of_all fun e he => ?_
  obtain ⟨event, hevent, rfl⟩ := List.mem_map.1 he
  refine ⟨rfl, rfl, ?_⟩
  cases event with
  | wprintf format args => exact verdictOfLine_noWide (h _ hevent)
  | deref => rfl
  | translated => rfl
  | memchr => rfl
  | cstring => rfl

theorem idle_tree (w : World) (strAppDir strRoot : WString) :
    Idle ((reportDependencyTree w strAppDir strRoot).log.map fun e => .tree e.1 e.2) := by
  refine idle_of_all fun e he => ?_
  obtain ⟨⟨strPath, event⟩, hevent, rfl⟩ := List.mem_map.1 he
  refine ⟨rfl, rfl, ?_⟩
  cases event with
  | wprintf format args =>
    exact verdictOfLine_tree (reportDependencyTree_formats w strAppDir strRoot _ hevent format args rfl)
  | deref => rfl
  | translated => rfl
  | memchr => rfl
  | cstring => rfl

/-- A line of `ProbeOne` that does not say how a check goes. -/
theorem idle_printLine {format : String} {args : List Arg} (h : verdictOfLine (format, args) = none) :
    Idle (printLine format args).log := by
  refine idle_of_all fun e he => ?_
  rw [List.mem_singleton.1 he]
  exact ⟨rfl, rfl, h⟩

/-! ## The diagnosis of a failure -/

/-- Every module that is loaded is freed next, each load is an allowed one, and no line says how the check ended. -/
structure Diagnoses (allowed : Load → Prop) (log : List ProbeEvent) : Prop where
  paired : Paired (uses log)
  loads : ∀ load ∈ loads log, allowed load
  verdicts : verdicts log = []

section Diagnoses

variable {allowed allowed' : Load → Prop} {log log' : List ProbeEvent}

theorem Diagnoses.append (h : Diagnoses allowed log) (h' : Diagnoses allowed log') : Diagnoses allowed (log ++ log') where
  paired := by
    rw [uses_append]
    exact h.paired.append h'.paired
  loads := by
    intro load hload
    rw [loads_append, List.mem_append] at hload
    exact hload.elim (h.loads load) (h'.loads load)
  verdicts := by rw [verdicts_append, h.verdicts, h'.verdicts, List.append_nil]

theorem Diagnoses.mono (h : Diagnoses allowed log) (himp : ∀ load, allowed load → allowed' load) : Diagnoses allowed' log :=
  ⟨h.paired, fun load hload => himp load (h.loads load hload), h.verdicts⟩

theorem Idle.diagnoses (h : Idle log) : Diagnoses allowed log where
  paired := by
    rw [h.uses]
    exact .nil
  loads := by
    intro load hload
    rw [h.loads] at hload
    exact absurd hload List.not_mem_nil
  verdicts := h.verdicts

end Diagnoses

/-- What `LoadLibraryExW` leaves when it fails. -/
theorem diagnoses_load_error {file : WString} {flags : ℕ} {s : σ} {error : ℕ}
    (h : (L.loadLibrary s file flags).1 = .error error) : Diagnoses (fun load => load.file = file ∧ load.flags = flags)
      (load L file flags s).log := by
  have hlog : (load L file flags s).log = [.loadLibrary file flags (.error error)] := by
    rw [← h]
    rfl
  rw [hlog]
  exact ⟨.nil, fun load hload => by rw [List.mem_singleton.1 hload]; exact ⟨rfl, rfl⟩, rfl⟩

/-- A module that is freed behind a line. -/
theorem diagnoses_load_free {file : WString} {flags : ℕ} {s : σ} {module : HMODULE}
    (h : (L.loadLibrary s file flags).1 = .ok module) {line : List ProbeEvent} (hline : Idle line) (s' : σ) :
    Diagnoses (fun load => load.file = file ∧ load.flags = flags)
      ((load L file flags s).log ++ (line ++ (free L module s').log)) := by
  have hlog : (load L file flags s).log = [.loadLibrary file flags (.ok module)] := by
    rw [← h]
    rfl
  rw [hlog]
  refine ⟨?_, fun load hload => ?_, ?_⟩
  · rw [uses_append, uses_append, hline.uses]
    exact .one module
  · rw [loads_append, loads_append, hline.loads] at hload
    rw [List.mem_singleton.1 hload]
    exact ⟨rfl, rfl⟩
  · rw [verdicts_append, verdicts_append, hline.verdicts]
    rfl

theorem diagnoses_reportRuntime (szDependency : WString) (s : σ) :
    Diagnoses (fun load => load.file = szDependency ∧ load.flags = loadLibrarySearchDefaultDirs)
      (reportRuntime L szDependency s).log := by
  unfold reportRuntime
  cases L.getModuleHandle s szDependency with
  | some hExisting => exact (idle_printLine rfl).append .nil |>.diagnoses
  | none =>
    dsimp only
    rw [Traced.log_bind]
    have hval : (load L szDependency loadLibrarySearchDefaultDirs s).val =
        L.loadLibrary s szDependency loadLibrarySearchDefaultDirs := rfl
    rw [hval]
    cases hloaded : (L.loadLibrary s szDependency loadLibrarySearchDefaultDirs).1 with
    | error error =>
      refine (diagnoses_load_error L hloaded).append ?_
      exact (idle_printLine rfl).append .nil |>.diagnoses
    | ok module => exact diagnoses_load_free L hloaded (idle_printLine rfl) _

theorem diagnoses_mapImage (path : WString) (s : σ) :
    Diagnoses (fun load => load.file = path ∧ load.flags = dontResolveDllReferences) (mapImage L path s).log := by
  unfold mapImage
  rw [Traced.log_bind]
  have hval : (load L path dontResolveDllReferences s).val = L.loadLibrary s path dontResolveDllReferences := rfl
  rw [hval]
  dsimp only
  cases hloaded : (L.loadLibrary s path dontResolveDllReferences).1 with
  | error error =>
    refine (diagnoses_load_error L hloaded).append ?_
    exact (idle_printLine rfl).append ((idle_onFile path systemError_noWide).append .nil) |>.diagnoses
  | ok module => exact diagnoses_load_free L hloaded (idle_printLine rfl) _

theorem diagnoses_runtimes : ∀ (names : List WString) (s : σ),
    Diagnoses (fun load => load.file ∈ names ∧ load.flags = loadLibrarySearchDefaultDirs)
      (names.foldlM (fun s szDependency => reportRuntime L szDependency s) s).log
  | [], _ => Idle.nil.diagnoses
  | szDependency :: names, s => by
    rw [List.foldlM_cons, Traced.log_bind]
    refine ((diagnoses_reportRuntime L szDependency s).mono ?_).append ((diagnoses_runtimes names _).mono ?_)
    · rintro load ⟨rfl, hflags⟩
      exact ⟨.head _, hflags⟩
    · rintro load ⟨hfile, hflags⟩
      exact ⟨.tail _ hfile, hflags⟩

/-- The calls that follow when `LoadLibraryExW` has failed for `path` with this error. -/
def Diagnostic (path : WString) (error : ℕ) (load : Load) : Prop :=
  (load.file ∈ runtimes ∧ load.flags = loadLibrarySearchDefaultDirs) ∨
    (error = errorBadExeFormat ∧ load.file = path ∧ load.flags = dontResolveDllReferences)

theorem diagnoses_reportFailure (call : Call) (path : WString) (error : ℕ) (s : σ) :
    Diagnoses (Diagnostic path error) (reportFailure L call path error s).log := by
  unfold reportFailure
  simp only [Traced.log_bind]
  refine (idle_printLine rfl).diagnoses.append ((idle_onFile path systemError_noWide).diagnoses.append
    (((diagnoses_runtimes L runtimes s).mono fun load hload => .inl hload).append ?_))
  split
  · rename_i hformat
    simp only [Traced.log_bind]
    refine (idle_onFile path (diagnoseImage_noWide _ _)).diagnoses.append ((idle_tree _ _ _).diagnoses.append ?_)
    exact (diagnoses_mapImage L path _).mono fun load hload => .inr ⟨hformat, hload⟩
  · exact Idle.nil.diagnoses

/-! ## One check -/

/-- The path that is loaded: a plain name next to the application, or a module that is in the process under this name. -/
def Located (call : Call) (s : σ) (path : WString) : Prop :=
  invalidName call.name = false ∧
    (L.isFile s (call.directory ++ call.name) = true ∧ path = call.directory ++ call.name ∨
      L.isFile s (call.directory ++ call.name) = false ∧
        ∃ alreadyLoaded, L.getModuleHandle s call.name = some alreadyLoaded ∧
          resolved (L.getModuleFileName s alreadyLoaded) = some path)

/-- The calls of `LoadLibraryExW` in a check that ends with `passed`. -/
inductive Loads (call : Call) (s : σ) : Bool → List Load → Prop where
  | refused (h : ∀ path, ¬ Located L call s path) : Loads call s false []
  | passed {path : WString} {module : HMODULE} (h : Located L call s path) :
    Loads call s true [⟨path, loadLibrarySearch, .ok module⟩]
  | failed {path : WString} {error : ℕ} {diagnostics : List Load} (h : Located L call s path)
    (hdiagnostics : ∀ load ∈ diagnostics, Diagnostic path error load) :
    Loads call s false (⟨path, loadLibrarySearch, .error error⟩ :: diagnostics)

/-- What one check does, whatever the process answers. -/
structure Checks (call : Call) (s : σ) (passed : Bool) (log : List ProbeEvent) : Prop where
  paired : Paired (uses log)
  loads : Loads L call s passed (loads log)
  verdicts : verdicts log = [.began call.index call.total call.name, .result call.name passed]

theorem verdicts_result {format : String} (h : format ∈ [failFormat, invalidNameFormat, notFoundFormat, unresolvedPathFormat])
    (name : WString) : verdicts (printLine format [.wide name]).log = [.result name false] := by
  have hpass : format ≠ passFormat := by
    revert format
    decide
  simp [verdicts, printLine, lineOf, verdictOfLine, hpass, h]

theorem uses_printLine (format : String) (args : List Arg) : uses (printLine format args).log = [] := rfl

theorem loads_printLine (format : String) (args : List Arg) : loads (printLine format args).log = [] := rfl

/-- A DLL that is not located. -/
theorem locate_none {call : Call} {s : σ} (h : (locate L call s).val = none) :
    (∀ path, ¬ Located L call s path) ∧ uses (locate L call s).log = [] ∧ loads (locate L call s).log = [] ∧
      verdicts (locate L call s).log = [.result call.name false] := by
  unfold locate at h ⊢
  dsimp only at h ⊢
  split at h
  · cases h
  · rename_i hfile
    rw [if_neg hfile]
    split at h
    · rename_i hunloaded
      refine ⟨?_, rfl, rfl, verdicts_result (by decide) call.name⟩
      rintro path ⟨-, ⟨hthere, -⟩ | ⟨-, module, hmodule, -⟩⟩
      · exact hfile hthere
      · rw [hunloaded] at hmodule
        cases hmodule
    · rename_i alreadyLoaded hloaded
      split at h
      · rename_i hunresolved
        refine ⟨?_, rfl, rfl, verdicts_result (by decide) call.name⟩
        rintro path ⟨-, ⟨hthere, -⟩ | ⟨-, module, hmodule, hresolved⟩⟩
        · exact hfile hthere
        · obtain rfl := Option.some.inj (hloaded.symm.trans hmodule)
          rw [hunresolved] at hresolved
          cases hresolved
      · cases h

theorem locate_some {call : Call} {s : σ} {path : WString} (hname : invalidName call.name = false)
    (h : (locate L call s).val = some path) : Located L call s path ∧ Idle (locate L call s).log := by
  unfold locate at h ⊢
  dsimp only at h ⊢
  split at h
  · rename_i hfile
    cases h
    rw [if_pos hfile]
    exact ⟨⟨hname, .inl ⟨hfile, rfl⟩⟩, (idle_printLine rfl).append .nil⟩
  · rename_i hfile
    rw [if_neg hfile]
    split at h
    · cases h
    · rename_i alreadyLoaded hloaded
      split at h
      · cases h
      · rename_i path' hresolved
        cases h
        exact ⟨⟨hname, .inr ⟨by simpa using hfile, alreadyLoaded, hloaded, hresolved⟩⟩, (idle_printLine rfl).append .nil⟩

/-- A check behind its first line. -/
structure Ends (call : Call) (s : σ) (passed : Bool) (log : List ProbeEvent) : Prop where
  paired : Paired (uses log)
  loads : Loads L call s passed (loads log)
  verdicts : verdicts log = [.result call.name passed]

variable {L}

theorem Ends.after {call : Call} {s : σ} {passed : Bool} {before log : List ProbeEvent} (hbefore : Idle before)
    (h : Ends L call s passed log) : Ends L call s passed (before ++ log) where
  paired := by
    rw [uses_append, hbefore.uses]
    exact h.paired
  loads := by
    rw [loads_append, hbefore.loads]
    exact h.loads
  verdicts := by
    rw [verdicts_append, hbefore.verdicts]
    exact h.verdicts

/-- A line that refuses the DLL. -/
theorem ends_refused {call : Call} {s : σ} {log : List ProbeEvent} (hnowhere : ∀ path, ¬ Located L call s path)
    (huses : uses log = []) (hloads : loads log = []) (hverdicts : verdicts log = [.result call.name false]) :
    Ends L call s false log where
  paired := by
    rw [huses]
    exact .nil
  loads := by
    rw [hloads]
    exact .refused hnowhere
  verdicts := hverdicts

theorem ends_failed {call : Call} {s : σ} {path : WString} (h : Located L call s path) {error : ℕ}
    {diagnosis : List ProbeEvent} (hdiagnosis : Diagnoses (Diagnostic path error) diagnosis) :
    Ends L call s false ([.loadLibrary path loadLibrarySearch (.error error)] ++ (diagnosis ++
      (printLine failFormat [.wide call.name]).log)) where
  paired := by
    rw [uses_append, uses_append, uses_printLine, List.append_nil]
    exact hdiagnosis.paired
  loads := by
    rw [loads_append, loads_append, loads_printLine, List.append_nil]
    exact .failed h hdiagnosis.loads
  verdicts := by
    rw [verdicts_append, verdicts_append, hdiagnosis.verdicts, verdicts_result (by decide)]
    rfl

theorem ends_passed {call : Call} {s : σ} {path : WString} (h : Located L call s path) {module : HMODULE}
    {line : List ProbeEvent} (hline : Idle line) (s' : σ) :
    Ends L call s true ([.loadLibrary path loadLibrarySearch (.ok module)] ++ (line ++
      ((printLine passFormat [.wide call.name]).log ++ (free L module s').log))) where
  paired := by
    rw [uses_append, uses_append, uses_append, hline.uses, uses_printLine]
    exact .one module
  loads := by
    rw [loads_append, loads_append, loads_append, hline.loads, loads_printLine]
    exact .passed h
  verdicts := by
    rw [verdicts_append, verdicts_append, verdicts_append, hline.verdicts]
    simp [verdicts, printLine, lineOf, verdictOfLine, free]

theorem ends_loadLocated {call : Call} {s : σ} {path : WString} (h : Located L call s path) :
    Ends L call s (loadLocated L call path s).val.1 (loadLocated L call path s).log := by
  unfold loadLocated
  rw [Traced.log_bind, Traced.val_bind]
  refine .after (idle_onFile path (reportImports_noWide _)) ?_
  have hval : (load L path loadLibrarySearch s).val = L.loadLibrary s path loadLibrarySearch := rfl
  have hlog : (load L path loadLibrarySearch s).log =
      [.loadLibrary path loadLibrarySearch (L.loadLibrary s path loadLibrarySearch).1] := rfl
  rw [Traced.log_bind, Traced.val_bind, hval, hlog]
  dsimp only
  cases (L.loadLibrary s path loadLibrarySearch).1 with
  | error error =>
    have hfailure := diagnoses_reportFailure L call path error (L.loadLibrary s path loadLibrarySearch).2
    exact ends_failed h hfailure
  | ok module =>
    dsimp only
    cases resolved (L.getModuleFileName (L.loadLibrary s path loadLibrarySearch).2 module) with
    | none => exact ends_passed h .nil (L.loadLibrary s path loadLibrarySearch).2
    | some actual => exact ends_passed h (idle_printLine rfl) (L.loadLibrary s path loadLibrarySearch).2

theorem ends_probeOne (call : Call) (s : σ) : ∃ rest,
    (probeOne L call s).log = (printLine probeFormat [.num call.index, .num call.total, .wide call.name]).log ++ rest ∧
      Ends L call s (probeOne L call s).val.1 rest := by
  unfold probeOne
  rw [Traced.log_bind, Traced.val_bind]
  refine ⟨_, rfl, ?_⟩
  cases hname : invalidName call.name with
  | true =>
    have hnowhere : ∀ path, ¬ Located L call s path := fun path h => by
      rw [h.1] at hname
      cases hname
    exact ends_refused hnowhere rfl rfl (verdicts_result (by decide) call.name)
  | false =>
    rw [if_neg Bool.false_ne_true, Traced.log_bind, Traced.val_bind]
    cases hlocated : (locate L call s).val with
    | none =>
      obtain ⟨hnowhere, huses, hloads, hverdicts⟩ := locate_none L hlocated
      exact ends_refused hnowhere (by rw [uses_append, huses]; rfl) (by rw [loads_append, hloads]; rfl)
        (by rw [verdicts_append, hverdicts]; rfl)
    | some path =>
      obtain ⟨h, hidle⟩ := locate_some L hname hlocated
      exact (ends_loadLocated h).after hidle

/-- One check: what it loads, it frees; it loads what it is meant to load; and it says how it began and ended. -/
theorem checks_probeOne (call : Call) (s : σ) : Checks L call s (probeOne L call s).val.1 (probeOne L call s).log := by
  obtain ⟨rest, hlog, h⟩ := ends_probeOne (L := L) call s
  have hbegan : verdicts (printLine probeFormat [.num call.index, .num call.total, .wide call.name]).log =
      [.began call.index call.total call.name] := by
    simp [verdicts, printLine, lineOf, verdictOfLine]
  rw [hlog]
  refine ⟨?_, ?_, ?_⟩
  · rw [uses_append, uses_printLine]
    exact h.paired
  · rw [loads_append, loads_printLine]
    exact h.loads
  · rw [verdicts_append, hbegan, h.verdicts]
    rfl

/-! ## A list of checks -/

variable (L)

/-- `ProbeOne` without what it records. -/
def probe (call : Call) (s : σ) : Bool × σ := (probeOne L call s).val

/-- `ProbeOne` on a state that keeps the record of all calls. -/
def recorded (call : Call) (s : σ × List ProbeEvent) : Bool × (σ × List ProbeEvent) :=
  ((probeOne L call s.1).val.1, ((probeOne L call s.1).val.2, s.2 ++ (probeOne L call s.1).log))

/-- The program. -/
def program (process : Process) (s : σ) : Traced MainEvent (Exit × (σ × List ProbeEvent)) :=
  main (recorded L) process (s, [])

/-- The record of a run. -/
def events (process : Process) (s : σ) : List ProbeEvent := (program L process s).val.2.2

theorem statesOf_recorded (calls : List Call) (s : σ) (log : List ProbeEvent) :
    resultsOf (recorded L) calls (s, log) = resultsOf (probe L) calls s ∧
      (stateAfter (recorded L) calls (s, log)).2 =
        log ++ (statesOf (probe L) calls s).flatMap fun r => (probeOne L r.1 r.2).log := by
  induction calls generalizing s log with
  | nil => exact ⟨rfl, (List.append_nil log).symm⟩
  | cons call calls ih =>
    obtain ⟨hresults, hlog⟩ := ih (probe L call s).2 (log ++ (probeOne L call s).log)
    rw [statesOf, List.flatMap_cons, ← List.append_assoc]
    exact ⟨congrArg (_ :: ·) hresults, hlog⟩

/-- A run is one check after another, for each item of the list in turn. -/
theorem program_checks (process : Process) (s : σ) :
    probed (program L process s).log = resultsOf (probe L) process.calls s ∧
      events L process s = (statesOf (probe L) process.calls s).flatMap fun r => (probeOne L r.1 r.2).log := by
  by_cases hnil : process.calls = []
  · obtain ⟨hprobed, hval⟩ := main_refused (recorded L) process (s, []) hnil
    rw [hnil, program, hprobed, events, program, hval]
    exact ⟨rfl, rfl⟩
  · obtain ⟨specification, directory, hspecification, hdirectory, haccepted, hcalls⟩ := process.calls_ne_nil hnil
    obtain ⟨hprobed, hval⟩ := main_accepted (recorded L) process (s, []) hspecification hdirectory haccepted
    obtain ⟨hresults, hlog⟩ := statesOf_recorded L process.calls s []
    rw [← hcalls] at hprobed hval
    rw [program, hprobed, hresults, events, program, hval, hlog]
    exact ⟨rfl, rfl⟩

/-- How a run ends, by the results of its calls. -/
theorem main_exit {τ : Type} (probe : Call → τ → Bool × τ) (process : Process) (s : τ) :
    let run := main probe process s
    run.val.1 = .status 0 ∧ probed run.log ≠ [] ∧ (∀ r ∈ probed run.log, r.2 = true) ∨
      run.val.1 = .status 1 ∧ (∃ r ∈ probed run.log, r.2 = false) ∨ run.val.1 = .status 2 ∧ probed run.log = [] := by
  intro run
  simp only [run]
  by_cases hnil : process.calls = []
  · obtain ⟨hprobed, hval⟩ := main_refused probe process s hnil
    exact .inr (.inr ⟨congrArg Prod.fst hval, hprobed⟩)
  · obtain ⟨specification, directory, hspecification, hdirectory, haccepted, hcalls⟩ := process.calls_ne_nil hnil
    obtain ⟨hprobed, hval⟩ := main_accepted probe process s hspecification hdirectory haccepted
    rw [← hcalls] at hprobed hval
    rw [hprobed, hval]
    by_cases hall : ∀ r ∈ resultsOf probe process.calls s, r.2 = true
    · refine .inl ⟨by rw [if_pos hall], fun hempty => hnil ?_, hall⟩
      rw [← resultsOf_calls probe process.calls s, hempty, List.map_nil]
    · refine .inr (.inl ⟨by rw [if_neg hall], ?_⟩)
      simpa using hall

/-! ## Runs of the program -/

section Runs

variable (process : Process) (s : σ)

/-- Every module that a run loads is freed by the next use of a module, and nothing else is freed: the references of the
process are in the end those of the beginning, and at no time more than one more. -/
theorem program_releases :
    Paired (uses (events L process s)) ∧ ∀ counts, replay (uses (events L process s)) counts = some counts ∧
      ∀ begun, begun <+: uses (events L process s) → replay begun counts = some counts ∨
        ∃ module, replay begun counts = some (Function.update counts module (counts module + 1)) := by
  have hpaired : Paired (uses (events L process s)) := by
    have huses : uses (events L process s) =
        (statesOf (probe L) process.calls s).flatMap fun r => uses (probeOne L r.1 r.2).log := by
      simp only [(program_checks L process s).2, uses, List.filterMap_flatMap]
    rw [huses]
    exact .flatMap fun r _ => (checks_probeOne r.1 r.2).paired
  exact ⟨hpaired, fun counts => ⟨hpaired.replay counts, fun begun hbegun => hpaired.replay_prefix counts hbegun⟩⟩

/-- The lines of a run say for each DLL of the list, in its order, that its check begins and how it ends, and the exit code
says the same of all of them. -/
theorem program_verdicts :
    (probed (program L process s).log).map Prod.fst = process.calls ∧
      verdicts (events L process s) = (probed (program L process s).log).flatMap
        (fun r => [.began r.1.index r.1.total r.1.name, .result r.1.name r.2]) ∧
      probed (program L process s).log =
        (statesOf (probe L) process.calls s).map (fun r => (r.1, (probe L r.1 r.2).1)) ∧
      ((program L process s).val.1 = .status 0 ↔ verdicts (events L process s) ≠ [] ∧
        ∀ name, .result name false ∉ verdicts (events L process s)) ∧
      ((program L process s).val.1 = .status 1 ↔ ∃ name, .result name false ∈ verdicts (events L process s)) ∧
      ((program L process s).val.1 = .status 2 ↔ verdicts (events L process s) = []) := by
  obtain ⟨hprobed, hlog⟩ := program_checks L process s
  have hcalls : (probed (program L process s).log).map Prod.fst = process.calls := by
    rw [hprobed, resultsOf_calls]
  set run := program L process s with hrun
  set said := verdicts (events L process s) with hverdicts
  have hsaid : said = (probed run.log).flatMap
      (fun r => [.began r.1.index r.1.total r.1.name, .result r.1.name r.2]) := by
    rw [hverdicts, hlog, hprobed, verdicts, List.filterMap_flatMap, resultsOf, List.flatMap_map]
    exact List.flatMap_congr fun r _ => (checks_probeOne r.1 r.2).verdicts
  have hfailed : ∀ name, Verdict.result name false ∈ said ↔ ∃ r ∈ probed run.log, r.1.name = name ∧ r.2 = false := by
    intro name
    rw [hsaid, List.mem_flatMap]
    refine exists_congr fun r => and_congr_right fun _ => ?_
    rw [List.mem_cons, List.mem_singleton]
    constructor
    · rintro (h | h)
      · cases h
      · obtain ⟨hname, hpassed⟩ := Verdict.result.inj h
        exact ⟨hname.symm, hpassed.symm⟩
    · rintro ⟨rfl, hfalse⟩
      exact .inr (by rw [hfalse])
  have hempty : said = [] ↔ probed run.log = [] := by
    rw [hsaid, List.flatMap_eq_nil_iff]
    constructor
    · intro h
      exact List.eq_nil_iff_forall_not_mem.2 fun r hr => List.cons_ne_nil _ _ (h r hr)
    · intro h r hr
      rw [h] at hr
      exact absurd hr List.not_mem_nil
  refine ⟨hcalls, hsaid, hprobed, ?_⟩
  have hsomeFailed : (∃ name, Verdict.result name false ∈ said) ↔ ∃ r ∈ probed run.log, r.2 = false := by
    constructor
    · rintro ⟨name, hname⟩
      obtain ⟨r, hr, -, hfalse⟩ := (hfailed name).1 hname
      exact ⟨r, hr, hfalse⟩
    · rintro ⟨r, hr, hfalse⟩
      exact ⟨r.1.name, (hfailed _).2 ⟨r, hr, rfl, hfalse⟩⟩
  have hnoneFailed : (∀ name, Verdict.result name false ∉ said) ↔ ∀ r ∈ probed run.log, r.2 = true := by
    rw [← not_exists, hsomeFailed]
    simp
  rw [ne_eq, hempty, hsomeFailed, hnoneFailed]
  rcases main_exit (recorded L) process (s, []) with ⟨hexit, hne, hall⟩ | ⟨hexit, r, hr, hfalse⟩ | ⟨hexit, hnil⟩
  · have hno : ¬ ∃ r ∈ probed run.log, r.2 = false := by
      rintro ⟨r, hr, hfalse⟩
      exact Bool.false_ne_true (hfalse.symm.trans (hall r hr))
    exact ⟨iff_of_true hexit ⟨hne, hall⟩, iff_of_false (hexit ▸ by decide) hno, iff_of_false (hexit ▸ by decide) hne⟩
  · have hno : ¬ ∀ r ∈ probed run.log, r.2 = true := fun hall => Bool.false_ne_true (hfalse.symm.trans (hall r hr))
    have hne : probed run.log ≠ [] := List.ne_nil_of_mem hr
    exact ⟨iff_of_false (hexit ▸ by decide) fun h => hno h.2, iff_of_true hexit ⟨r, hr, hfalse⟩,
      iff_of_false (hexit ▸ by decide) hne⟩
  · have hno : ¬ ∃ r ∈ probed run.log, r.2 = false := by
      rintro ⟨r, hr, -⟩
      exact absurd (hnil ▸ hr) List.not_mem_nil
    exact ⟨iff_of_false (hexit ▸ by decide) fun h => h.1 hnil, iff_of_false (hexit ▸ by decide) hno, iff_of_true hexit hnil⟩

end Runs

end BuildEngine.Probe
