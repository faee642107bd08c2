/-
`BuildEngineStageRuntime.cmake`: one staging run. Its caller, `adecc_stage_runtime`, defines the three
variables the script requires and writes the manifests it names, and the output directory is the directory
of the target it has just built; a run starts behind these checks. `file(REMOVE)` and `file(COPY_FILE)`
succeed. The packages and the toolchain lie outside the output directory, so their files do not change
during a run.

A fatal error ends the run and leaves the output directory as it is at that point.
-/
import BuildEngine.Stage.Folder
import Mathlib.Data.Char
import Mathlib.Data.List.Lex

namespace BuildEngine.Stage

/-! ## CMake -/

/-- How a piece of the script ends. -/
inductive Outcome (σ : Type) where
  | done (s : σ)
  /-- `message(FATAL_ERROR)` -/
  | fatal (message : Text) (s : σ)

namespace Outcome

variable {σ : Type}

def bind (o : Outcome σ) (k : σ → Outcome σ) : Outcome σ :=
  match o with
  | done s => k s
  | fatal message s => fatal message s

/-- The state a piece of the script leaves. -/
def state : Outcome σ → σ
  | done s => s
  | fatal _ s => s

def succeeded : Outcome σ → Bool
  | done _ => true
  | fatal _ _ => false

end Outcome

/-- `foreach`. -/
def forEach {α σ : Type} (body : α → σ → Outcome σ) : List α → σ → Outcome σ
  | [], s => .done s
  | a :: as, s => (body a s).bind (forEach body as)

/-- The false constants of `if(<variable>)`. -/
def falseConstants : List Text :=
  ["", "0", "OFF", "NO", "FALSE", "N", "IGNORE", "NOTFOUND"].map String.toList

/-- `if(<variable>)` on a list variable. -/
def isTrue (elements : List Text) : Bool :=
  let value := List.intercalate [';'] elements
  !(falseConstants.contains (value.map Char.toUpper) || "-NOTFOUND".toList.isSuffixOf value)

/-- `MATCHES "^[A-Za-z0-9_+.-]+[.]dll$"`. -/
def matchesDllName (text : Text) : Bool :=
  ".dll".toList.isSuffixOf text && 4 < text.length &&
    text.all fun c => c.isAlphanum || c = '_' || c = '+' || c = '.' || c = '-'

/-- `MATCHES "[.]dll$"`. -/
def endsInDll (text : Text) : Bool := ".dll".toList.isSuffixOf text

/-! ## What a run reads -/

/-- A file of a package or of the toolchain: the directory it is listed in, its name and its content. -/
structure Source where
  directory : Text
  file : File
  deriving DecidableEq

def Source.theFile (c : Source) : Text := c.directory ++ '/' :: c.file.name

structure PackageRoot where
  theRoot : Text
  isDirectory : Bool
  /-- the regular files of a subdirectory, when it is a directory -/
  files : Text → Option (List File)

structure Invocation where
  /-- the path of the roots manifest -/
  rootsFile : Text
  vecRoots : List PackageRoot
  configuration : Text
  vecExcludedNames : List Text
  vecToolchainDlls : List Text
  /-- the toolchain `bin64` directory and its regular files, when it is a directory -/
  toolchainBin : Option (Text × List File)

/-! ## The staging state -/

/-- The output directory and the variables of the script. The lists `vecNames` and `vecSources` grow together;
`vecStaged` pairs their elements. -/
structure StageState (F : CaseFold) where
  output : Folder F
  vecStaged : List (Text × Source)
  uStaged : Nat
  messages : List Text

namespace StageState

variable {F : CaseFold}

def start (output : Folder F) : StageState F := ⟨output, [], 0, []⟩

/-- `message(STATUS)`. -/
def status (s : StageState F) (message : Text) : StageState F := { s with messages := s.messages ++ [message] }

/-- A DLL is in the output directory: report it and remember its name and source. -/
def staged (s : StageState F) (strKey : Text) (theFile : Source) (hash : Text) : StageState F :=
  { s.status ("[RUNTIME] ".toList ++ theFile.file.name ++ " SHA256=".toList ++ hash ++ " source=".toList ++
      theFile.theFile) with
    vecStaged := s.vecStaged ++ [(strKey, theFile)]
    uStaged := s.uStaged + 1 }

end StageState

section Script

variable {F : CaseFold} (sha256 : List UInt8 → Text)

/-- The keys of the excluded names, or the error for the first invalid one. -/
def excludedDlls : List Text → Except Text (List Text)
  | [] => .ok []
  | strName :: vecNames =>
    if !matchesDllName strName then .error ("Invalid excluded DLL basename: ".toList ++ strName)
    else (excludedDlls vecNames).map (toLower strName :: ·)

/-- The purge of one file of the output directory. -/
def purgeFile (vecExcludedDlls : List Text) (theExisting : File) (s : StageState F) : StageState F :=
  if toLower theExisting.name ∈ vecExcludedDlls then
    { s with output := s.output.remove theExisting.name }.status
      ("[RUNTIME] removed retired DLL from consumer output: ".toList ++ theExisting.name)
  else s

/-- The purge of the excluded names. -/
def purge (vecExcludedDlls : List Text) (s : StageState F) : StageState F :=
  if isTrue vecExcludedDlls then s.output.files.foldl (fun s f => purgeFile vecExcludedDlls f s) s else s

/-- `_adecc_stage_dll`. -/
def stageDll (outputDir : Text) (vecExcludedDlls : List Text) (theFile : Source) (s : StageState F) :
    Outcome (StageState F) :=
  let strName := theFile.file.name
  let strKey := toLower strName
  if !endsInDll strKey then .done s
  else if strKey ∈ vecExcludedDlls then
    .done (s.status ("[RUNTIME] retired DLL not deployed: ".toList ++ strName ++ "; source=".toList ++
      theFile.theFile))
  else
    match peCheck theFile.theFile theFile.file.bytes with
    | some message => .fatal message s
    | none =>
      match s.vecStaged.find? fun x => x.1 = strKey with
      | some (_, theOldFile) =>
        if sha256 theOldFile.file.bytes ≠ sha256 theFile.file.bytes then
          .fatal ("DLL name collision '".toList ++ strName ++ "': ".toList ++ theOldFile.theFile ++
            " versus ".toList ++ theFile.theFile) s
        else .done s
      | none =>
        match s.output.find strName with
        | some theDest =>
          if sha256 theDest.bytes ≠ sha256 theFile.file.bytes then
            .fatal ("Application DLL conflicts with package DLL: ".toList ++ outputDir ++ '/' :: strName ++
              " versus ".toList ++ theFile.theFile) s
          else .done (s.staged strKey theFile (sha256 theFile.file.bytes))
        | none =>
          .done ({ s with output := s.output.copyFile theFile.file }.staged strKey theFile
            (sha256 theFile.file.bytes))

/-- The body of the loop over the toolchain DLLs. -/
def stageToolchainDll (outputDir : Text) (vecExcludedDlls : List Text) (toolchainBin : Text) (files : List File)
    (strDll : Text) (s : StageState F) : Outcome (StageState F) :=
  if !matchesDllName strDll then .fatal ("Invalid BCC64X runtime DLL name: ".toList ++ strDll) s
  else
    match files.find? fun f => F.name f.name = F.name strDll with
    | none => .fatal ("Declared BCC64X runtime is missing: ".toList ++ toolchainBin ++ '/' :: strDll) s
    | some f => stageDll sha256 outputDir vecExcludedDlls ⟨toolchainBin, ⟨strDll, f.bytes⟩⟩ s

/-- The staging of the toolchain DLLs. -/
def stageToolchain (outputDir : Text) (vecExcludedDlls : List Text) (i : Invocation) (s : StageState F) :
    Outcome (StageState F) :=
  if isTrue i.vecToolchainDlls then
    match i.toolchainBin with
    | none => .fatal "Selected BCC64X runtime requires toolchain bin64".toList s
    | some (toolchainBin, files) =>
      forEach (stageToolchainDll sha256 outputDir vecExcludedDlls toolchainBin files) i.vecToolchainDlls s
  else .done s

/-- The files of a directory in the order of `file(GLOB)` and `list(SORT)`. -/
def sortedFiles (theBin : Text) (files : List File) : List Source :=
  (files.mergeSort fun f g => f.name ≤ g.name).map fun f => ⟨theBin, f⟩

/-- The two directories of a package root that are staged from. -/
def bins (configuration : Text) : List Text := ["bin/win64/".toList ++ configuration, "bin".toList]

/-- The staging of one directory of a package root. -/
def stageBin (outputDir : Text) (vecExcludedDlls : List Text) (root : PackageRoot) (bin : Text)
    (s : StageState F) : Outcome (StageState F) :=
  match root.files bin with
  | none => .done s
  | some files =>
    forEach (stageDll sha256 outputDir vecExcludedDlls) (sortedFiles (root.theRoot ++ '/' :: bin) files) s

/-- The staging of one package root. -/
def stageRoot (outputDir : Text) (vecExcludedDlls : List Text) (configuration : Text) (root : PackageRoot)
    (s : StageState F) : Outcome (StageState F) :=
  if !root.isDirectory then .fatal ("Declared runtime package root is missing: ".toList ++ root.theRoot) s
  else forEach (stageBin sha256 outputDir vecExcludedDlls root) (bins configuration) s

/-- A run of the script against the output directory. -/
def stageRuntime (outputDir : Text) (i : Invocation) (output : Folder F) : Outcome (StageState F) :=
  let s := StageState.start output
  if !isTrue (i.vecRoots.map PackageRoot.theRoot) then
    .fatal ("Runtime package roots manifest is empty: ".toList ++ i.rootsFile) s
  else if i.configuration ≠ "Debug".toList ∧ i.configuration ≠ "Release".toList then
    .fatal ("Unsupported runtime variant: ".toList ++ i.configuration) s
  else
    match excludedDlls i.vecExcludedNames with
    | .error message => .fatal message s
    | .ok vecExcludedKeys =>
      let vecExcludedDlls := vecExcludedKeys.eraseDups
      (stageToolchain sha256 outputDir vecExcludedDlls i (purge vecExcludedDlls s)).bind fun s =>
        (forEach (stageRoot sha256 outputDir vecExcludedDlls i.configuration) i.vecRoots s).bind fun s =>
          .done (s.status ("BuildEngine runtime: ".toList ++ (toString s.uStaged).toList ++
            " Windows x64 DLLs staged in ".toList ++ outputDir))

end Script

end BuildEngine.Stage
