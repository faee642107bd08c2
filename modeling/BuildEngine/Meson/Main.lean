/-
`main` of `meson_bootstrap.py` and of `bcc64x_bootstrap.py`: the registry check and the search path of
`expose_buildengine_tools`, the patchers as they find and read their files, and the hand-over to Meson. A
process reads and writes regular files (`World`) and changes its own environment only.
-/
import BuildEngine.Base.PurePath
import BuildEngine.Base.Regex
import BuildEngine.Meson.Converge
import Mathlib.Data.List.DropRight

namespace BuildEngine.Meson.Main

open Base Base.Text
open Base.Regex (isSpace)

/-! ## Files and processes -/

/-- The regular files by their resolved paths, with their contents. Below a Meson root and a Mesa root there are no
links. -/
abbrev World := PurePath → Option Text

/-- A `tool` element: its `id` and `path`, empty without the attribute. -/
structure Tool where
  id : Text
  path : Text

/-- A registry file: the tag of the root and the `tool` elements below it. -/
structure Registry where
  tag : Text
  tools : List Tool

/-- What the file system, `ElementTree` and Unicode add. -/
structure Host where
  /-- `Path.resolve` in a working directory -/
  resolve : PurePath → PurePath → PurePath
  /-- `ET.parse`, with the text of its error -/
  parse : Text → Except Text Registry
  /-- `str.casefold` -/
  casefold : Text → Text

inductive Script where
  | openglMeson
  | mesonBcc64x
  deriving DecidableEq, Repr

/-- The arguments and the environment of a process. -/
structure Process where
  argv : List Text
  cc : Option Text
  buildengineToolsState : Option Text
  path : Option Text
  cwd : PurePath

def strip (p : Char → Bool) (text : Text) : Text := (text.dropWhile p).rdropWhile p

section

variable (host : Host) (process : Process)

def isBcc64x : Bool :=
  let compiler := strip (· = '"') (strip isSpace (process.cc.getD []))
  let name := host.casefold (PurePath.parse compiler).name
  name = "bcc64x".toList || name = "bcc64x.exe".toList

/-! ## `expose_buildengine_tools` -/

/-- `required` -/
def required : List (Text × List String) :=
  [("winflexbison".toList, ["win_flex.exe", "win_bison.exe"]), ("pkg-config".toList, ["pkg-config.exe"])]

/-- The registry file of a process. -/
def toolsState : PurePath :=
  host.resolve process.cwd (match process.buildengineToolsState with
    | some text => PurePath.parse text
    | none => process.cwd.join ["admin", "tools.xml"])

def isFile (w : World) (path : PurePath) : Bool := (w (host.resolve process.cwd path)).isSome

/-- One required tool: the directories with its own behind, unless that is one of them. -/
def exposeTool (w : World) (registry : Registry) (tool : Text × List String) (directories : List Text) :
    Except Text (List Text) :=
  -- a later element takes the place of an earlier one
  match (registry.tools.filter fun node => node.id = tool.1).getLast? with
  | none => .error ("BuildEngine tool is not registered: ".toList ++ tool.1)
  | some node =>
    let executable := PurePath.parse node.path
    if !isFile host process w executable then
      .error ("BuildEngine registered tool executable does not exist: ".toList ++ tool.1 ++ ": ".toList ++ executable.str)
    else
      match tool.2.find? fun expected => !isFile host process w (executable.parent.join [expected]) with
      | some expected =>
        .error ("BuildEngine managed tool companion is missing: ".toList ++ tool.1 ++ ": ".toList ++
          (executable.parent.join [expected]).str)
      | none =>
        let directoryText := executable.parent.str
        if directories.any fun value => host.casefold value = host.casefold directoryText then .ok directories
        else .ok (directories ++ [directoryText])

def exposeTools (w : World) (registry : Registry) : List (Text × List String) → List Text → Except Text (List Text)
  | [], directories => .ok directories
  | tool :: tools, directories =>
    match exposeTool host process w registry tool directories with
    | .error message => .error message
    | .ok directories => exposeTools w registry tools directories

/-- The directories that come to the front of the search path. -/
def exposedDirectories (w : World) : Except Text (List Text) :=
  match w (toolsState host process) with
  | none => .error ("BuildEngine tool registry not found: ".toList ++ (toolsState host process).str)
  | some content =>
    match host.parse content with
    | .error error => .error ("BuildEngine tool registry cannot be read: ".toList ++ error)
    | .ok registry =>
      if registry.tag ≠ "tools".toList then
        .error ("BuildEngine tool registry has unexpected root: ".toList ++ registry.tag)
      else exposeTools host process w registry required []

/-- `PATH` behind `expose_buildengine_tools`. -/
def exposeBuildengineTools (w : World) : Except Text Text :=
  match exposedDirectories host process w with
  | .error message => .error message
  | .ok directories => .ok ([';'].intercalate (directories ++ [process.path.getD []]))

/-! ## The patchers -/

/-- A patcher: the path of its file, the message when that is missing, and what to do with its text. -/
structure Patcher where
  path : PurePath
  missing : Text
  decide : Text → Decision

/-- `if not file.is_file(): raise SystemExit(...)`, and the edit: the files, and the message when it stops. -/
def Patcher.run (e : Patcher) (w : World) : World × Option Text :=
  match w e.path with
  | none => (w, some (e.missing ++ e.path.str))
  | some content =>
    match e.decide (TextFile.read content) with
    | .keep => (w, none)
    | .write text => (Function.update w e.path (some text), none)
    | .stop message => (w, some message.toList)

/-- `meson_root` -/
def mesonRoot : PurePath := host.resolve process.cwd (.parse (process.argv.getD 1 []))

/-- `meson_entry` -/
def mesonEntry : PurePath := (mesonRoot host process).join ["meson.py"]

/-- The files of the Meson tree. -/
def mesonPath (mesonRoot : PurePath) : MesonFile → PurePath
  | .detect => mesonRoot.join ["mesonbuild", "linkers", "detect.py"]
  | .linkers => mesonRoot.join ["mesonbuild", "linkers", "linkers.py"]
  | .vsenv => mesonRoot.join ["mesonbuild", "utils", "vsenv.py"]

/-- The patcher of a file of the Meson tree, when the compiler is BCC64X. -/
def mesonPatcher (missing : Text) (f : MesonFile) : Option Patcher :=
  if !isBcc64x host process then none else some ⟨mesonPath (mesonRoot host process) f, missing, patch f⟩

def patchBcc64xLldDetection : Option Patcher :=
  mesonPatcher host process "Meson linker detection implementation not found: ".toList .detect

def patchWindowsLldAllowUndefined : Option Patcher :=
  mesonPatcher host process "Meson linker implementation not found: ".toList .linkers

def patchBcc64xVsenvDetection : Option Patcher :=
  mesonPatcher host process "Meson Visual Studio environment helper not found: ".toList .vsenv

def originalGlcpp : Text := lines [
    "    # Bison 3.6 changed '$end' to 'end of file' in its error messages",
    "    # See: https://gitlab.freedesktop.org/mesa/mesa/-/issues/3181",
    "    actual = actual.replace('$end', 'end of file')",
    "",
    "    if actual == expected:"]

def patchedGlcpp : Text := lines [
    "    # Bison 3.6 changed '$end' to 'end of file' in its error messages",
    "    # See: https://gitlab.freedesktop.org/mesa/mesa/-/issues/3181",
    "    actual = actual.replace('$end', 'end of file')",
    "",
    "    # Native Windows stdio expands LF to CRLF. The upstream reference files",
    "    # are LF-only in the release archive; compare content independently of",
    "    # that transport-level newline convention.",
    "    actual = actual.replace('\\r\\n', '\\n')",
    "    expected = expected.replace('\\r\\n', '\\n')",
    "",
    "    if actual == expected:"]

/-- What `patch_mesa_glcpp_test_newlines` does with the text of the test driver. -/
def patchGlcpp (text : Text) : Decision :=
  if patchedGlcpp <:+: text then .keep
  else if count originalGlcpp text ≠ 1 then
    .stop "Mesa 26.2.1 GLCPP newline compatibility patch context does not match"
  else .write (replaceFirst originalGlcpp patchedGlcpp text)

/-- `test_driver` -/
def testDriver (mesaRoot : PurePath) : PurePath :=
  mesaRoot.join ["src", "compiler", "glsl", "glcpp", "tests", "glcpp_test.py"]

def patchMesaGlcppTestNewlines : Option Patcher :=
  match process.argv with
  | _ :: _ :: command :: _ :: source :: _ =>
    if !isBcc64x host process || command ≠ "setup".toList then none
    else some ⟨testDriver (host.resolve process.cwd (.parse source)), "Mesa GLCPP test driver not found: ".toList, patchGlcpp⟩
  | _ => none

/-! ## `main` -/

/-- The patchers of the Meson tree, in the order of `main`. -/
def treePatchers : List (Option Patcher) :=
  [patchBcc64xLldDetection host process, patchWindowsLldAllowUndefined host process,
    patchBcc64xVsenvDetection host process]

/-- The patchers of a script, in the order of its `main`. -/
def patchers : Script → List Patcher
  | .openglMeson => (treePatchers host process ++ [patchMesaGlcppTestNewlines host process]).reduceOption
  | .mesonBcc64x => (treePatchers host process).reduceOption

/-- Patchers one after the other; one that stops ends the process. -/
def runPatchers : List Patcher → World → World × Option Text
  | [], w => (w, none)
  | e :: es, w =>
    match e.run w with
    | (w, none) => runPatchers es w
    | (w, some message) => (w, some message)

/-- How a process goes on. -/
inductive Outcome where
  /-- `SystemExit` -/
  | stopped (message : Text)
  /-- Meson runs: its arguments, the first entry of `sys.path`, and `PATH` -/
  | meson (argv : List Text) (sysPath : Text) (path : Text)
  deriving DecidableEq

/-- `main`, over the files that it finds. -/
def main (script : Script) (w : World) : World × Outcome :=
  if process.argv.length < 3 then
    (w, .stopped "usage: meson_bootstrap.py <meson-source-root> <meson arguments...>".toList)
  else if (w (mesonEntry host process)).isNone then
    (w, .stopped ("Meson entry point not found: ".toList ++ (mesonEntry host process).str))
  else
    match exposeBuildengineTools host process w with
    | .error message => (w, .stopped message)
    | .ok path =>
      match runPatchers (patchers host process script) w with
      | (w, some message) => (w, .stopped message)
      | (w, none) =>
        (w, .meson ((mesonEntry host process).str :: process.argv.drop 2) (mesonRoot host process).str path)

end

end BuildEngine.Meson.Main
