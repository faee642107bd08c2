/-
`sitecustomize.py` of the embedded Python: it puts the entries of `PYTHONPATH` and the directory of the script in front of
`sys.path`. Texts are the characters of the strings; `pathlib` and the file system behind it are a parameter.
-/
import BuildEngine.Base.SearchOrder

namespace BuildEngine.Python

open Base.SearchOrder

abbrev Text := List Char

scoped instance : LawfulBEq Text := inferInstanceAs (LawfulBEq (List Char))

/-- `pathlib.Path` and what it learns from the file system. -/
structure PathLib where
  Path : Type
  /-- `Path(argument)` -/
  path : Text → Path
  str : Path → Text
  isDir : Path → Bool
  parent : Path → Path
  isAbsolute : Path → Bool
  cwd : Path
  /-- `path / other` -/
  join : Path → Path → Path
  /-- `path.resolve()`, or nothing if it raises `OSError` -/
  resolve : Path → Option Path
  absolute : Path → Path
  /-- The empty path is written as a dot. -/
  str_ne_nil : ∀ path, str path ≠ []

/-! ## The script -/

/-- `_prepend_path` -/
def prependPath (entry : Text) (path : List Text) : List Text :=
  if entry ≠ [] ∧ entry ∉ path then entry :: path else path

/-- `[entry for entry in value.split(os.pathsep) if entry]` -/
def entries (value : Text) : List Text := (value.splitOn ';').filter (· ≠ [])

/-- `_apply_buildengine_pythonpath`, where `PYTHONPATH` may be missing from the environment. -/
def applyBuildenginePythonpath (pythonpath : Option Text) (path : List Text) : List Text :=
  let value := pythonpath.getD []
  if value = [] then path
  else (entries value).reverse.foldl (fun path entry => prependPath entry path) path

variable (lib : PathLib)

/-- The path that `_apply_script_directory` makes of the first argument. -/
def scriptDirectory (argument : Text) : Text :=
  let script := lib.path argument
  let directory := if lib.isDir script then script else lib.parent script
  let directory := if lib.isAbsolute directory then directory else lib.join lib.cwd directory
  match lib.resolve directory with
  | some resolved => lib.str resolved
  | none => lib.str (lib.absolute directory)

/-- `_apply_script_directory` -/
def applyScriptDirectory (argv : List Text) (path : List Text) : List Text :=
  match argv with
  | [] => path
  | argument :: _ =>
    if argument = [] ∨ argument.head? = some '-' then path
    else prependPath (scriptDirectory lib argument) path

/-- `sys.path` behind the script. -/
def sitecustomize (pythonpath : Option Text) (argv : List Text) (path : List Text) : List Text :=
  applyScriptDirectory lib argv (applyBuildenginePythonpath pythonpath path)

/-! ## The order -/

/-- What a normal start puts in front of `sys.path`. -/
def front (pythonpath : Option Text) (argument : Text) : List Text :=
  scriptDirectory lib argument :: entries (pythonpath.getD [])

/-- The modules are looked for as after a normal start. -/
structure Restored (front path path' : List Text) : Prop where
  order : path'.eraseDups = (front ++ path).eraseDups
  /-- Nothing else is added. -/
  added : ∀ entry ∈ path', entry ∈ front ∨ entry ∈ path
  /-- No entry is lost. -/
  kept : ∀ entry ∈ path, entry ∈ path'

theorem prependPath_eq {entry : Text} (h : entry ≠ []) (path : List Text) : prependPath entry path = prepend entry path := by
  rw [prependPath, prepend]
  by_cases hpath : entry ∈ path
  · simp [hpath]
  · simp [hpath, h]

theorem foldr_prependPath {front : List Text} (h : ∀ entry ∈ front, entry ≠ []) (path : List Text) :
    front.foldr prependPath path = front.foldr prepend path := by
  induction front with
  | nil => rfl
  | cons entry front ih =>
    obtain ⟨hentry, hfront⟩ := List.forall_mem_cons.1 h
    rw [List.foldr_cons, List.foldr_cons, ih hfront, prependPath_eq hentry]

theorem mem_entries {value entry : Text} (h : entry ∈ entries value) : entry ≠ [] := by
  simpa using (List.mem_filter.1 h).2

/-- The entries are put in front from right to left. -/
theorem applyBuildenginePythonpath_eq (pythonpath : Option Text) (path : List Text) :
    applyBuildenginePythonpath pythonpath path = (entries (pythonpath.getD [])).foldr prependPath path := by
  rw [applyBuildenginePythonpath]
  split
  · rename_i hempty
    rw [hempty]
    rfl
  · rw [List.foldl_reverse]

theorem scriptDirectory_ne_nil (argument : Text) : scriptDirectory lib argument ≠ [] := by
  rw [scriptDirectory]
  split
  · exact lib.str_ne_nil _
  · exact lib.str_ne_nil _

theorem sitecustomize_eq (pythonpath : Option Text) {argument : Text} (rest path : List Text) (hargument : argument ≠ [])
    (hdash : argument.head? ≠ some '-') :
    sitecustomize lib pythonpath (argument :: rest) path = (front lib pythonpath argument).foldr prepend path := by
  have hfront : ∀ entry ∈ front lib pythonpath argument, entry ≠ [] := by
    rw [front, List.forall_mem_cons]
    exact ⟨scriptDirectory_ne_nil lib argument, fun entry hentry => mem_entries hentry⟩
  rw [← foldr_prependPath hfront, front, List.foldr_cons, ← applyBuildenginePythonpath_eq, sitecustomize,
    applyScriptDirectory, if_neg]
  rintro (h | h)
  · exact hargument h
  · exact hdash h

/-- The order of a normal start is restored if and only if, in the sequence of the script's directory and the entries of
`PYTHONPATH`, the entries that are not on the path come first and in the same order from the left and from the right, and
the others are the first ones of the path, in its order. -/
theorem sitecustomize_restores_iff (pythonpath : Option Text) {argument : Text} (rest path : List Text)
    (hargument : argument ≠ []) (hdash : argument.head? ≠ some '-') :
    Restored (front lib pythonpath argument) path (sitecustomize lib pythonpath (argument :: rest) path) ↔
      InOrder (front lib pythonpath argument) path := by
  rw [sitecustomize_eq lib pythonpath rest path hargument hdash, ← eraseDups_foldr_prepend_iff]
  constructor
  · exact fun h => h.order
  · intro horder
    refine ⟨horder, ?_, ?_⟩
    · intro entry hentry
      rw [← List.mem_append, ← List.mem_eraseDups, ← horder, List.mem_eraseDups]
      exact hentry
    · intro entry hentry
      rw [← List.mem_eraseDups, horder, List.mem_eraseDups]
      exact List.mem_append_right _ hentry

/-- Absolute paths of files that exist, without links. -/
def plainPaths : PathLib where
  Path := Text
  path := id
  str path := if path = [] then ['.'] else path
  isDir _ := false
  parent path := ((path.reverse.dropWhile (· ≠ '\\')).drop 1).reverse
  isAbsolute path := [':', '\\'].isPrefixOf (path.drop 1)
  cwd := ['C', ':']
  join path other := path ++ '\\' :: other
  resolve := some
  absolute := id
  str_ne_nil path := by
    split
    · exact List.cons_ne_nil _ _
    · assumption

theorem sitecustomize_restores_outside :
    Restored (front plainPaths (some "C:\\a;C:\\b".toList) "C:\\s\\x.py".toList) ["C:\\p.zip".toList]
      (sitecustomize plainPaths (some "C:\\a;C:\\b".toList) ["C:\\s\\x.py".toList] ["C:\\p.zip".toList]) := by
  rw [sitecustomize_restores_iff plainPaths _ [] _ (by decide) (by decide)]
  decide

/-- The directory of the script is the second entry of `PYTHONPATH`, and is not looked at first. -/
theorem script_directory_stays :
    sitecustomize plainPaths (some "C:\\a;C:\\b".toList) ["C:\\b\\x.py".toList] ["C:\\p.zip".toList] =
      ["C:\\a".toList, "C:\\b".toList, "C:\\p.zip".toList] ∧
    ¬ Restored (front plainPaths (some "C:\\a;C:\\b".toList) "C:\\b\\x.py".toList) ["C:\\p.zip".toList]
      (sitecustomize plainPaths (some "C:\\a;C:\\b".toList) ["C:\\b\\x.py".toList] ["C:\\p.zip".toList]) := by
  refine ⟨by decide, fun hrestored => ?_⟩
  have horder := hrestored.order
  revert horder
  decide

end BuildEngine.Python
