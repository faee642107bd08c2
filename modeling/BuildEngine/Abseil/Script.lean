/-
`abseil-installed-includes.cmake`: the Source run rewrites the includes of the bundled Abseil in the sources of
PDFium to those of the installed one, the Build run (`ABSEIL_INCLUDE_VERIFY_ONLY`) looks at two pinned files only. A
file is its bytes, one character each; what is counted for the status messages is left out.
-/
import BuildEngine.Base.CMakeFile
import BuildEngine.Base.Cut
import Mathlib.Data.List.Sort

namespace BuildEngine.Abseil

open Base.Cut Base.CMakeFile
open Base.TextFile (Platform write)

abbrev Text := List Char

scoped instance : LawfulBEq Text := inferInstanceAs (LawfulBEq (List Char))

/-- A path below `PDFIUM_SOURCE_ROOT`. -/
abbrev Path := List String

scoped instance : LawfulBEq Path := inferInstanceAs (LawfulBEq (List String))

/-! ## The source tree -/

/-- The files of a tree and their contents. -/
structure Tree where
  paths : List Path
  file : Path → Text

/-- The text of a file as `file(READ)` returns it. -/
def Tree.text (platform : Platform) (tree : Tree) (path : Path) : Text := read platform (tree.file path)

def Tree.read (platform : Platform) (tree : Tree) (path : Path) : Option Text :=
  if path ∈ tree.paths then some (tree.text platform path) else none

/-- `file(WRITE)` -/
def Tree.write (platform : Platform) (tree : Tree) (path : Path) (text : Text) : Tree :=
  { tree with file := Function.update tree.file path (Base.TextFile.write platform text) }

def relative (path : Path) : String := "/".intercalate path

def absolute (root : String) (path : Path) : String := root ++ "/" ++ relative path

def directories : List String :=
  ["core", "fpdfsdk", "fxbarcode", "fxjs", "public", "samples", "skia", "testing", "xfa", "third_party"]

def extensions : List String := ["h", "hpp", "c", "cc", "cpp", "cxx", "mm"]

/-- `*.ext`, without regard to case -/
def hasExtension (ext name : String) : Bool := ('.' :: ext.toList).isSuffixOf (name.toList.map Char.toLower)

/-- `file(GLOB_RECURSE _found LIST_DIRECTORIES FALSE dir/*.ext)` -/
def glob (tree : Tree) (dir ext : String) : List Path :=
  tree.paths.filter fun path => path.head? == some dir && path.tail.getLast?.any (hasExtension ext)

/-- `_paths` -/
def scanned (tree : Tree) : List Path :=
  ((directories.flatMap fun dir => extensions.flatMap fun ext => glob tree dir ext).dedup).insertionSort
    fun a b => relative a ≤ relative b

/-! ## The patterns -/

def old : Text := "third_party/abseil-cpp/absl/".toList

def new : Text := "absl/".toList

/-- `[ \t]` -/
def isBlank (c : Char) : Bool := c == ' ' || c == '\t'

/-- `["<]` -/
def isOpening (c : Char) : Bool := c == '"' || c == '<'

/-- What stands behind a match of `#[ \t]*include[ \t]*` at the front of a text. -/
def afterInclude : Text → Option Text
  | '#' :: t => ((t.dropWhile isBlank).dropPrefix? "include".toList).map (·.dropWhile isBlank)
  | _ => none

/-- `["<]third_party/abseil-cpp/absl/`, and what stands behind it. -/
def afterOld : Text → Option Text
  | c :: t => if isOpening c then t.dropPrefix? old else none
  | [] => none

/-- `[^">\r\n]+[">]` -/
def isName (t : Text) : Bool :=
  let inside (c : Char) := c != '"' && c != '>' && c != '\r' && c != '\n'
  !(t.takeWhile inside).isEmpty && (t.dropWhile inside).head?.any fun c => c == '"' || c == '>'

/-- Some match of the pattern by which the includes of a file are counted. -/
def hasInclude (text : Text) : Bool := text.tails.any fun t => ((afterInclude t).bind afterOld).any isName

/-- A match of the pattern that is to be found nowhere afterwards. -/
def includeRemains (text : Text) : Bool := text.tails.any fun t => ((afterInclude t).bind afterOld).isSome

/-- `${_header}[\" >]`, where the dot of the header is any character. -/
def headerPattern (header : String) : List (Char → Bool) :=
  (header.toList.map fun p c => p == '.' || p == c) ++ [fun c => c == '"' || c == ' ' || c == '>']

def matchesPattern : List (Char → Bool) → Text → Bool
  | [], _ => true
  | _ :: _, [] => false
  | p :: ps, c :: t => p c && matchesPattern ps t

/-- `#[ \t]*include[ \t]*["<]${_header}[" >]` at the front of a text -/
def atHeader (header : String) (t : Text) : Bool :=
  match afterInclude t with
  | some (c :: t) => isOpening c && matchesPattern (headerPattern header) t
  | _ => false

def includesHeader (header : String) (text : Text) : Bool := text.tails.any (atHeader header)

/-! ## The two runs -/

/-- The pinned files and the header of each. -/
def samples : List (Path × String) :=
  [(["core", "fpdfdoc", "cpdf_nametree.cpp"], "absl/container/flat_hash_set.h"),
    (["core", "fpdfapi", "page", "cpdf_sampledfunc.cpp"], "absl/container/inlined_vector.h")]

def verifySample (platform : Platform) (tree : Tree) (sample : Path × String) : Except String Unit :=
  let (file, header) := sample
  match tree.read platform file with
  | none => .error ("Pinned PDFium source file missing: " ++ relative file)
  | some text =>
    if includesHeader header text then .ok ()
    else .error ("Unpatched installed Abseil include in " ++ relative file ++ ": " ++ header)

def checkSample (platform : Platform) (tree : Tree) (sample : Path × String) : Except String Unit :=
  let (file, header) := sample
  match tree.read platform file with
  | none => .error ("Pinned PDFium source file missing: " ++ relative file)
  | some text =>
    if ('"' :: header.toList ++ ['"']) <:+: text then .ok ()
    else .error ("Installed Abseil include missing in " ++ relative file ++ ": " ++ header)

/-- The two calls of `string(REPLACE)`. -/
def rewrite (before : Text) : Text :=
  replaceAll ('<' :: old) ('<' :: new) (replaceAll ('"' :: old) ('"' :: new) before)

/-- One turn of the loop over `_paths`. -/
def rewriteFile (platform : Platform) (root : String) (verifyOnly : Bool) (tree : Tree) (path : Path) :
    Tree × Except String Unit :=
  match tree.read platform path with
  | none => (tree, .error ("file failed to open for reading: " ++ absolute root path))
  | some before =>
    if hasInclude before then
      if verifyOnly then
        (tree, .error ("[ABSEIL-INCLUDE-VERIFY] Source state is stale: " ++ relative path ++
          " still uses third_party/abseil-cpp/absl/. Re-run PDFium Source patch before GN/Ninja."))
      else
        let after := rewrite before
        if after = before then (tree, .error ("Abseil include rewrite failed: " ++ absolute root path))
        else
          let tree := tree.write platform path after
          if includeRemains (tree.text platform path) then
            (tree, .error ("Bundled Abseil include remains: " ++ absolute root path))
          else (tree, .ok ())
    else if includeRemains before then (tree, .error ("Bundled Abseil include remains: " ++ absolute root path))
    else (tree, .ok ())

/-- The loop ends at the first error, and the files that are written already stay written. -/
def rewriteFiles (platform : Platform) (root : String) (verifyOnly : Bool) :
    List Path → Tree → Tree × Except String Unit
  | [], tree => (tree, .ok ())
  | path :: paths, tree =>
    match rewriteFile platform root verifyOnly tree path with
    | (tree, .ok ()) => rewriteFiles platform root verifyOnly paths tree
    | (tree, .error message) => (tree, .error message)

/-- The script with its two parameters. -/
def script (platform : Platform) (root : String) (verifyOnly : Bool) (tree : Tree) : Tree × Except String Unit :=
  if verifyOnly then (tree, samples.forM (verifySample platform tree))
  else
    match rewriteFiles platform root verifyOnly (scanned tree) tree with
    | (tree, .ok ()) => (tree, samples.forM (checkSample platform tree))
    | (tree, .error message) => (tree, .error message)

end BuildEngine.Abseil
