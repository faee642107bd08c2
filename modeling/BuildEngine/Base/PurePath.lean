/-
`PureWindowsPath` of Python: a path is its drive, whether it has a root, and its parts. Reading a path text drops
empty parts and `.`, and takes both separators for one.
-/
import Mathlib.Tactic

namespace Base

structure PurePath where
  drive : List Char
  root : Bool
  parts : List (List Char)
  deriving DecidableEq

namespace PurePath

/-- The place of the first separator from a place on. -/
def findSeparator (path : List Char) (start : ℕ) : Option ℕ :=
  ((path.drop start).findIdx? (· = '\\')).map (start + ·)

/-- `ntpath.splitroot` on a path with `\` only: the drive, the root and the rest. -/
def splitroot (path : List Char) : List Char × List Char × List Char :=
  if path.take 2 = "\\\\".toList then
    let start := if (path.take 8).map Char.toUpper = "\\\\?\\UNC\\".toList then 8 else 2
    match findSeparator path start with
    | none => (path, [], [])
    | some index =>
      match findSeparator path (index + 1) with
      | none => (path, [], [])
      | some index2 => (path.take index2, (path.drop index2).take 1, path.drop (index2 + 1))
  else if path.take 1 = ['\\'] then ([], ['\\'], path.drop 1)
  else if (path.drop 1).take 1 = [':'] then
    if (path.drop 2).take 1 = ['\\'] then (path.take 2, ['\\'], path.drop 3) else (path.take 2, [], path.drop 2)
  else ([], [], path)

/-- A drive `\\server\share` or `\\?\UNC\server\share` has a root of its own. -/
def rootedDrive (drive : List Char) : Bool :=
  drive.take 1 = ['\\'] && drive.getLast? ≠ some '\\' &&
    match drive.splitOn '\\' with
    | [_, _, server, _] => !([[], ['?'], ['.'], ['?', '.']].any (· = server))
    | [_, _, _, _, _, _] => true
    | _ => false

/-- `PureWindowsPath(<text>)`. -/
def parse (text : List Char) : PurePath :=
  let (drive, root, rest) := splitroot (text.map fun c => if c = '/' then '\\' else c)
  ⟨drive, !root.isEmpty || rootedDrive drive, (rest.splitOn '\\').filter fun part => part ≠ [] ∧ part ≠ ['.']⟩

/-- `str(<path>)`. -/
def str (p : PurePath) : List Char :=
  let parts := ['\\'].intercalate
  if p.drive ≠ [] ∨ p.root then p.drive ++ (if p.root then ['\\'] else []) ++ parts p.parts
  else if p.parts = [] then ['.']
  else if (splitroot (p.parts.headD [])).1 ≠ [] then parts (['.'] :: p.parts)
  else parts p.parts

/-- `<path>.name` -/
def name (p : PurePath) : List Char := p.parts.getLast?.getD []

/-- `<path>.parent` -/
def parent (p : PurePath) : PurePath := { p with parts := p.parts.dropLast }

/-- `<path> / <words>`, each word a plain file name. -/
def join (p : PurePath) (words : List String) : PurePath := { p with parts := p.parts ++ words.map String.toList }

example : (parse "C:/Studio\\bin64/./bcc64x.exe".toList).name = "bcc64x.exe".toList := by decide

example : (parse "C:/Studio\\bin64/./bcc64x.exe".toList).parent.str = "C:\\Studio\\bin64".toList := by decide

end PurePath

end Base
