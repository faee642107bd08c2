/-
`ProbeOne` of `RuntimeLoaderProbe.cpp`, over any process that answers its calls of Windows (`Loader`): the check of one DLL,
with everything it prints and every module it loads and frees.
-/
import BuildEngine.Base.Handles
import BuildEngine.Probe.Diagnose
import BuildEngine.Probe.Main
import BuildEngine.Probe.Tree

namespace BuildEngine.Probe

open Base Base.Handles

/-- A module in the process. -/
abbrev HMODULE := ℕ

/-- The answers of Windows to the calls of `ProbeOne`. Loading and freeing change the state of the process. -/
structure Loader (σ : Type) where
  /-- `std::towlower` -/
  towlower : UInt16 → UInt16
  /-- the file that can be opened and mapped under a path -/
  content : σ → WString → Option (List UInt8)
  content_fold : ∀ s, ∀ p q : WString, p.map towlower = q.map towlower → content s p = content s q
  /-- `GetFileAttributesW` succeeds and the path is not a directory -/
  isFile : σ → WString → Bool
  /-- `GetSystemDirectoryW`, when it succeeds -/
  systemDirectory : Option WString
  /-- the kernel's answer to the request to map the file as an image -/
  imageMapping : σ → WString → ImageMapping
  getModuleHandle : σ → WString → Option HMODULE
  /-- the path of a module, empty if `GetModuleFileNameW` fails -/
  getModuleFileName : σ → HMODULE → WString
  /-- `LoadLibraryExW(file, nullptr, flags)`, with `GetLastError()` where it fails -/
  loadLibrary : σ → WString → ℕ → Except ℕ HMODULE × σ
  freeLibrary : σ → HMODULE → σ

/-- The path in a buffer of 32768 characters, if it fits. -/
def resolved (path : WString) : Option WString :=
  let length := moduleLength 32768 path
  if length = 0 ∨ length ≥ 32768 then none else some (path.take length)

namespace Loader

variable {σ : Type} (L : Loader σ)

def mapFile (s : σ) (path : WString) : MappedFile := .ofFile (L.content s path)

/-- What the traversal of the imports sees of the process. -/
def world (s : σ) : World where
  towlower := L.towlower
  content := L.content s
  content_fold := L.content_fold s
  isFile := L.isFile s
  systemDirectory := L.systemDirectory
  loaded name := (L.getModuleHandle s name).bind fun hLoaded => resolved (L.getModuleFileName s hLoaded)

end Loader

/-! ## Flags and lines -/

def errorBadExeFormat : ℕ := 193

def dontResolveDllReferences : ℕ := 0x1

def loadLibrarySearchDefaultDirs : ℕ := 0x1000

/-- `LOAD_LIBRARY_SEARCH_DLL_LOAD_DIR | LOAD_LIBRARY_SEARCH_DEFAULT_DIRS` -/
def loadLibrarySearch : ℕ := 0x100 ||| loadLibrarySearchDefaultDirs

def probeFormat : String := "[LOADER] BEGIN %zu/%zu: %ls\n"

def passFormat : String := "[LOADER] RESULT %ls: PASS\n"

def failFormat : String := "[LOADER] RESULT %ls: FAIL\n"

def invalidNameFormat : String := "[LOADER] RESULT %ls: FAIL (invalid DLL filename)\n"

def notFoundFormat : String := "[LOADER] RESULT %ls: FAIL (not application-local or already loaded)\n"

def unresolvedPathFormat : String := "[LOADER] RESULT %ls: FAIL (cannot resolve already-loaded DLL path)\n"

/-- What `ProbeOne` does. -/
inductive ProbeEvent where
  | wprintf (format : String) (args : List Arg)
  /-- a step of `ReportImports` or `DiagnoseImage` on the file -/
  | file (path : WString) (event : Event)
  /-- a step of `ReportDependencyTree` -/
  | tree (strPath : WString) (event : Event)
  | loadLibrary (file : WString) (flags : ℕ) (loaded : Except ℕ HMODULE)
  | freeLibrary (module : HMODULE)

variable {σ : Type}

def printLine (format : String) (args : List Arg) : Traced ProbeEvent Unit := Traced.emit (.wprintf format args)

def onFile (path : WString) (m : Probing Unit) : Traced ProbeEvent Unit := ⟨(), m.log.map (.file path)⟩

section ProbeOne

variable (L : Loader σ)

def load (file : WString) (flags : ℕ) (s : σ) : Traced ProbeEvent (Except ℕ HMODULE × σ) := do
  let loaded := L.loadLibrary s file flags
  Traced.emit (.loadLibrary file flags loaded.1)
  pure loaded

def free (module : HMODULE) (s : σ) : Traced ProbeEvent σ := do
  Traced.emit (.freeLibrary module)
  pure (L.freeLibrary s module)

/-- `name.empty() || name == L"." || name == L".." || name.find_first_of(L"\\/:") != std::wstring::npos` -/
def invalidName (name : WString) : Bool :=
  name.isEmpty || name == [0x2E] || name == [0x2E, 0x2E] || name.any fun c => c = 0x5C ∨ c = 0x2F ∨ c = 0x3A

/-- The path of the DLL: next to the application, or that of a module in the process. -/
def locate (call : Call) (s : σ) : Traced ProbeEvent (Option WString) :=
  let path := call.directory ++ call.name
  if L.isFile s path then do
    printLine "[LOADER] application-local module: %ls\n" [.wide path]
    pure (some path)
  else
    match L.getModuleHandle s call.name with
    | none => do
      printLine notFoundFormat [.wide call.name]
      pure none
    | some alreadyLoaded =>
      match resolved (L.getModuleFileName s alreadyLoaded) with
      | none => do
        printLine unresolvedPathFormat [.wide call.name]
        pure none
      | some path => do
        printLine "[LOADER] already-loaded module: %ls\n" [.wide path]
        pure (some path)

/-- What `szResolved` holds after `GetModuleFileNameW`. -/
def resolvedBuffer (path : WString) : WString := path.take 32767

/-- One turn of the loop over the runtimes. -/
def reportRuntime (szDependency : WString) (s : σ) : Traced ProbeEvent σ := do
  let runtimeFormat := "[LOADER] RUNTIME %ls: %ls already-loaded=%u Win32=%lu path=%ls\n"
  match L.getModuleHandle s szDependency with
  | some hExisting => do
    printLine runtimeFormat [.wide szDependency, .text "PASS", .num 1, .num 0,
      .wide (resolvedBuffer (L.getModuleFileName s hExisting))]
    pure s
  | none => do
    let (loaded, s) ← load L szDependency loadLibrarySearchDefaultDirs s
    match loaded with
    | .ok hModule => do
      printLine runtimeFormat [.wide szDependency, .text "PASS", .num 0, .num 0,
        .wide (resolvedBuffer (L.getModuleFileName s hModule))]
      free L hModule s
    | .error uDependencyError => do
      printLine runtimeFormat [.wide szDependency, .text "FAIL", .num 0, .num uDependencyError, .text "<unresolved>"]
      pure s

/-- `L"libc++-370.dll"` and `L"libunwind-370.dll"` -/
def runtimes : List WString :=
  [[0x6C, 0x69, 0x62, 0x63, 0x2B, 0x2B, 0x2D, 0x33, 0x37, 0x30, 0x2E, 0x64, 0x6C, 0x6C],
    [0x6C, 0x69, 0x62, 0x75, 0x6E, 0x77, 0x69, 0x6E, 0x64, 0x2D, 0x33, 0x37, 0x30, 0x2E, 0x64, 0x6C, 0x6C]]

/-- The attempt to map the DLL without its imports. -/
def mapImage (path : WString) (s : σ) : Traced ProbeEvent σ := do
  let (imageOnly, s) ← load L path dontResolveDllReferences s
  match imageOnly with
  | .ok imageOnly => do
    printLine "[LOADER] DONT_RESOLVE_DLL_REFERENCES: PASS (target mapped without import resolution or DllMain)\n" []
    free L imageOnly s
  | .error mapError => do
    printLine "[LOADER] DONT_RESOLVE_DLL_REFERENCES: FAIL Win32=%lu (0x%08lX)\n" [.num mapError, .num mapError]
    onFile path (systemError mapError)
    pure s

/-- What follows a failure of `LoadLibraryExW`, up to the line with the result. -/
def reportFailure (call : Call) (path : WString) (error : ℕ) (s : σ) : Traced ProbeEvent σ := do
  printLine "[LOADER] LoadLibraryExW FAILED: Win32=%lu (0x%08lX), DLL=%ls\n" [.num error, .num error, .wide call.name]
  onFile path (systemError error)
  let s ← runtimes.foldlM (fun s szDependency => reportRuntime L szDependency s) s
  if error = errorBadExeFormat then do
    onFile path (diagnoseImage (L.mapFile s path) (L.imageMapping s path))
    Traced.mk () ((reportDependencyTree (L.world s) call.directory path).log.map fun e => .tree e.1 e.2)
    mapImage L path s
  else pure s

/-- What follows when the DLL has been located. -/
def loadLocated (call : Call) (path : WString) (s : σ) : Traced ProbeEvent (Bool × σ) := do
  onFile path (reportImports (L.mapFile s path))
  let (loaded, s) ← load L path loadLibrarySearch s
  match loaded with
  | .error error => do
    let s ← reportFailure L call path error s
    printLine failFormat [.wide call.name]
    pure (false, s)
  | .ok loaded => do
    match resolved (L.getModuleFileName s loaded) with
    | some actual => printLine "[LOADER] loaded DLL: %ls\n" [.wide actual]
    | none => pure ()
    printLine passFormat [.wide call.name]
    let s ← free L loaded s
    pure (true, s)

def probeOne (call : Call) (s : σ) : Traced ProbeEvent (Bool × σ) := do
  printLine probeFormat [.num call.index, .num call.total, .wide call.name]
  if invalidName call.name then do
    printLine invalidNameFormat [.wide call.name]
    pure (false, s)
  else do
    match ← locate L call s with
    | none => pure (false, s)
    | some path => loadLocated L call path s

end ProbeOne

end BuildEngine.Probe
