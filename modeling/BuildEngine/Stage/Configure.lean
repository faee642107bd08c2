/-
`BuildEngineRuntime.cmake`: `adecc_stage_runtime`. A call checks what its arguments and the environment declare, writes
three manifests into the build directory and registers the staging command of its target. The command runs in the
build, perhaps much later, and has only the manifests. The target is an executable of the current directory, the
manifests can be written, and `CMAKE_CURRENT_BINARY_DIR` is an absolute path with forward slashes. Other paths of the
command line go through the cache; `cacheEntry` is what that makes of them.
-/
import BuildEngine.Base.CMakeList
import BuildEngine.Stage.Exact

namespace BuildEngine.Stage

open Base Base.CMakeList

/-- `if(<variable>)` on a value. -/
def isTrueValue (value : Text) : Bool :=
  !(falseConstants.contains (value.map Char.toUpper) || "-NOTFOUND".toList.isSuffixOf value)

/-- The directories, each with its regular files. -/
structure Disk where
  directory : Text → Option (List File)

/-- A call and the variables it reads. -/
structure Call where
  a_strTarget : Text
  /-- `ARGN` -/
  argn : Text
  cmakePrefixPath : Text
  /-- `ADECC_BUILDENGINE_SDK_ROOT`, if it is defined -/
  sdkRoot : Option Text
  currentBinaryDir : Text
  /-- `$ENV{ADECC_RUNTIME_TOOLCHAIN_DLLS}`, if it is defined -/
  runtimeToolchainDlls : Option Text
  /-- `$ENV{CB_BDS}`, if it is defined -/
  cbBds : Option Text

inductive Manifest where
  | runtimeRoots
  | toolchainDlls
  | excludedDlls
  deriving DecidableEq

def Manifest.ending : Manifest → Text
  | runtimeRoots => ".buildengine-runtime-roots.txt".toList
  | toolchainDlls => ".buildengine-toolchain-dlls.txt".toList
  | excludedDlls => ".buildengine-excluded-dlls.txt".toList

/-- What the staging command passes to the script. -/
structure StageCommand where
  rootsFile : Text
  toolchainDllsFile : Text
  excludedDllsFile : Text
  toolchainBin : Text
  deriving DecidableEq

/-! ## Arguments -/

/-- `cmake_parse_arguments` without options and single values: each argument with the keyword it belongs to. -/
def parseArguments (keywords : List Text) : Option Text → List Text → List (Option Text × Text)
  | _, [] => []
  | keyword, argument :: rest =>
    if argument ∈ keywords then parseArguments keywords (some argument) rest
    else (keyword, argument) :: parseArguments keywords keyword rest

namespace Call

variable (call : Call)

def keywords : List Text := ["PACKAGE_ROOTS".toList, "TOOLCHAIN_DLLS".toList, "EXCLUDE_DLLS".toList]

/-- `a_Arg_<keyword>`, or `a_Arg_UNPARSED_ARGUMENTS` -/
def argument (keyword : Option Text) : Text :=
  let parsed := parseArguments keywords none ((arguments call.argn).flatMap arguments)
  join ((parsed.filter fun x => x.1 = keyword).map fun x => x.2)

def packageRoots : Text := call.argument (some "PACKAGE_ROOTS".toList)

def excludeDlls : Text := call.argument (some "EXCLUDE_DLLS".toList)

def vecRoots : Text :=
  removeDuplicates <|
    if isTrueValue call.packageRoots then join (arguments call.packageRoots)
    else
      match call.sdkRoot with
      | some sdkRoot => prepend sdkRoot (join (arguments call.cmakePrefixPath))
      | none => join (arguments call.cmakePrefixPath)

def vecToolchainDlls : Text :=
  let declared := call.argument (some "TOOLCHAIN_DLLS".toList)
  removeDuplicates <|
    if isTrueValue declared then join (arguments declared)
    else
      match call.runtimeToolchainDlls with
      | some dlls => if dlls ≠ [] then dlls else []
      | none => []

def strToolchainBin : Text :=
  if isTrueValue call.vecToolchainDlls then call.cbBds.getD [] ++ "/bin64".toList else []

/-- The excluded names behind their checks. -/
def vecExcludedDlls : Text :=
  removeDuplicates ((expand call.excludeDlls).foldl (fun dlls strDll => append dlls (toLower strDll)) [])

/-- The path that the names of the manifests start with. -/
def manifest : Text := call.currentBinaryDir ++ '/' :: call.a_strTarget

def file (kind : Manifest) : Text := call.manifest ++ kind.ending

/-- The list that a manifest holds. -/
def value : Manifest → Text
  | .runtimeRoots => call.vecRoots
  | .toolchainDlls => call.vecToolchainDlls
  | .excludedDlls => call.vecExcludedDlls

def command : StageCommand where
  rootsFile := call.file .runtimeRoots
  toolchainDllsFile := call.file .toolchainDlls
  excludedDllsFile := call.file .excludedDlls
  toolchainBin := call.strToolchainBin

def strRuntimeStageTarget : Text := "buildengine-stage-".toList ++ call.a_strTarget

end Call

/-! ## Checks

Each is the message of the fatal error, if there is one.
-/

section Checks

variable (F : CaseFold) (disk : Disk) (call : Call)

def checkArguments : Option Text :=
  if isTrueValue (call.argument none) then some ("Unexpected runtime arguments: ".toList ++ call.argument none)
  else none

def checkRoot (theRoot : Text) : Option Text :=
  if (disk.directory theRoot).isNone then some ("Package root is missing: ".toList ++ theRoot)
  else if '|' ∈ theRoot then some ("Invalid pipe character in package root: ".toList ++ theRoot)
  else none

def checkRoots : Option Text :=
  if !isTrueValue call.vecRoots then some "Runtime staging requires PACKAGE_ROOTS or CMAKE_PREFIX_PATH".toList
  else (expand call.vecRoots).findSome? (checkRoot disk)

def checkToolchainDll (strToolchainBin : Text) (files : List File) (strDll : Text) : Option Text :=
  if !matchesDllName strDll then some ("Invalid selected BCC64X DLL name: ".toList ++ strDll)
  else if (files.find? fun f => F.name f.name = F.name strDll).isNone then
    some ("Required BCC64X DLL missing: ".toList ++ strToolchainBin ++ '/' :: strDll)
  else none

def checkToolchain : Option Text :=
  if isTrueValue call.vecToolchainDlls then
    if call.cbBds = none ∨ call.cbBds = some [] then some "Selected BCC64X runtime DLLs require CB_BDS".toList
    else
      match disk.directory call.strToolchainBin with
      | none => some ("Embarcadero runtime directory missing: ".toList ++ call.strToolchainBin)
      | some files => (expand call.vecToolchainDlls).findSome? (checkToolchainDll F call.strToolchainBin files)
  else none

def checkExcluded (strDll : Text) : Option Text :=
  if !matchesDllName strDll then some ("Invalid excluded runtime DLL basename: ".toList ++ strDll) else none

def checks : Option Text :=
  checkArguments call <|> checkRoots disk call <|> checkToolchain F disk call <|>
    (expand call.excludeDlls).findSome? checkExcluded

end Checks

/-! ## Configuring -/

/-- What configuring has made so far: the targets, the files that have been written, by their folded paths, and the
staging commands, each with the target that runs it. -/
structure Project where
  targets : List Text
  files : Text → Option Text
  commands : List (Text × StageCommand)

namespace Project

/-- A project whose targets are declared and that stages nothing yet. -/
def start (targets : List Text) : Project := ⟨targets, fun _ => none, []⟩

variable (F : CaseFold)

/-- `file(WRITE)` -/
def write (p : Project) (path content : Text) : Project :=
  { p with files := fun key => if key = F.name path then some content else p.files key }

/-- The command that `add_custom_command` and `add_custom_target` attach to a target. -/
def attach (p : Project) (target : Text) (command : StageCommand) : Project :=
  { p with commands := p.commands ++ [(target, command)] }

def writeManifest (p : Project) (call : Call) (kind : Manifest) : Project :=
  p.write F (call.file kind) (writeList .windows (call.value kind))

end Project

section Configure

variable (F : CaseFold) (disk : Disk)

def adeccStageRuntime (call : Call) (p : Project) : Except Text Project :=
  if call.a_strTarget ∉ p.targets then .error ("Unknown application target: ".toList ++ call.a_strTarget)
  else
    match checks F disk call with
    | some message => .error message
    | none =>
      if call.strRuntimeStageTarget ∈ p.targets then
        .error ("add_custom_target cannot create target ".toList ++ call.strRuntimeStageTarget)
      else
        let p := [.excludedDlls, .toolchainDlls, .runtimeRoots].foldl (fun p kind => p.writeManifest F call kind) p
        let p := p.attach call.a_strTarget call.command
        .ok (Project.attach { p with targets := p.targets ++ [call.strRuntimeStageTarget] } call.strRuntimeStageTarget
          call.command)

end Configure

/-! ## Staging -/

/-- A package root as the script finds it. -/
def rootAt (disk : Disk) (theRoot : Text) : PackageRoot where
  theRoot := theRoot
  isDirectory := (disk.directory theRoot).isSome
  files bin := disk.directory (theRoot ++ '/' :: bin)

/-- What the script reads when the command of a project runs, if the manifests are there. -/
def invocation (F : CaseFold) (cacheEntry : Text → Text) (p : Project) (command : StageCommand) (disk : Disk)
    (configuration : Text) : Option Invocation := do
  let roots ← p.files (F.name command.rootsFile)
  let excluded ← p.files (F.name command.excludedDllsFile)
  let toolchain ← p.files (F.name command.toolchainDllsFile)
  return {
    rootsFile := command.rootsFile
    vecRoots := (expand (readList roots)).map (rootAt disk)
    configuration := configuration
    vecExcludedNames := expand (readList excluded)
    vecToolchainDlls := expand (readList toolchain)
    toolchainBin := (disk.directory (cacheEntry command.toolchainBin)).map (cacheEntry command.toolchainBin, ·) }

/-- What a call declares, on the disk as it is when its command runs. -/
def declared (cacheEntry : Text → Text) (call : Call) (disk : Disk) (configuration : Text) : Invocation where
  rootsFile := call.command.rootsFile
  vecRoots := (expand call.vecRoots).map (rootAt disk)
  configuration := configuration
  vecExcludedNames := expand call.excludeDlls
  vecToolchainDlls := if isTrueValue call.vecToolchainDlls then expand call.vecToolchainDlls else []
  toolchainBin := (disk.directory (cacheEntry call.strToolchainBin)).map (cacheEntry call.strToolchainBin, ·)

end BuildEngine.Stage
