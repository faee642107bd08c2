/-
CMake lists and how they pass through a file. The value of a list is a text in which `;` separates the elements, except
behind a backslash and between square brackets. A list that is written with one element on a line and read with
`file(STRINGS)` has its elements again if it can be separated: no element but the last ends with a backslash or leaves a
bracket open. The elements of a value always can.
-/
import BuildEngine.Base.TextFile
import Mathlib.Data.List.Infix

namespace Base.CMakeList

open TextFile (Platform)

/-! ## Elements -/

/-- A character in front of the first element. -/
def push (c : Char) : List (List Char) → List (List Char)
  | [] => [[c]]
  | e :: es => (c :: e) :: es

/-- How many square brackets a character opens. -/
def weight (c : Char) : ℤ := if c = '[' then 1 else if c = ']' then -1 else 0

def elements : ℤ → List Char → List (List Char)
  | _, [] => [[]]
  | nesting, '\\' :: ';' :: t => push ';' (elements nesting t)
  | nesting, c :: t =>
    if c = ';' ∧ nesting = 0 then [] :: elements nesting t else push c (elements (nesting + weight c) t)

/-- The elements of a value, as `foreach(<element> IN LISTS <list>)` and `list(...)` take it. -/
def expand (value : List Char) : List (List Char) := if value = [] then [] else elements 0 value

/-- The arguments an unquoted value stands for. -/
def arguments (value : List Char) : List (List Char) := (expand value).filter (· ≠ [])

/-- The value that `set(<list> ...)` and `list(...)` leave. -/
def join (es : List (List Char)) : List Char := List.intercalate [';'] es

def escape (e : List Char) : List Char := e.flatMap fun c => if c = ';' then ['\\', ';'] else [c]

/-- The value of a list whose semicolons are escaped. -/
def encode (es : List (List Char)) : List Char := join (es.map escape)

/-- `list(REMOVE_DUPLICATES)` -/
def removeDuplicates (value : List Char) : List Char := join (expand value).eraseDups

/-- `list(APPEND)` -/
def append (value e : List Char) : List Char := if value = [] then e else value ++ ';' :: e

/-- `list(PREPEND)` -/
def prepend (e value : List Char) : List Char := if value = [] then e else e ++ ';' :: value

theorem join_cons {e : List Char} {es : List (List Char)} (h : es ≠ []) : join (e :: es) = e ++ ';' :: join es := by
  unfold join
  rw [List.intercalate_cons_of_ne_nil h, List.append_assoc, List.singleton_append]

theorem join_snoc {es : List (List Char)} (h : es ≠ []) (e : List Char) : join (es ++ [e]) = join es ++ ';' :: e := by
  induction es with
  | nil => exact absurd rfl h
  | cons e' es ih =>
    cases es with
    | nil => simp [join, List.intercalate]
    | cons e'' es =>
      have hne : e'' :: es ≠ [] := List.cons_ne_nil _ _
      rw [List.cons_append, join_cons (by simp), ih hne, join_cons hne, List.append_assoc, List.cons_append]

theorem join_ne_nil {es : List (List Char)} (hne : es ≠ []) (h : ∀ e ∈ es, e ≠ []) : join es ≠ [] := by
  cases es with
  | nil => exact absurd rfl hne
  | cons e es =>
    have he : e ≠ [] := h e (.head _)
    by_cases hes : es = []
    · simpa [hes, join, List.intercalate] using he
    · rw [join_cons hes]
      simp [he]

theorem append_join {es : List (List Char)} (h : ∀ e ∈ es, e ≠ []) (e : List Char) :
    append (join es) e = join (es ++ [e]) := by
  unfold append
  by_cases hes : es = []
  · subst hes
    simp [join, List.intercalate]
  · rw [if_neg (join_ne_nil hes h), join_snoc hes]

/-! ## Reading a value back -/

/-- How many square brackets an element leaves open. -/
def net (e : List Char) : ℤ := (e.map weight).sum

/-- An element that means nothing else in a list. -/
structure Plain (e : List Char) : Prop where
  nonempty : e ≠ []
  separator : ';' ∉ e
  closed : net e = 0
  backslash : e.getLast? ≠ some '\\'

/-- The characters `file(STRINGS)` takes for text. -/
def isText (c : Char) : Bool := c = '\t' || (0x20 ≤ c.toNat && c.toNat ≠ 0x7F)

/-- The strings of a file, behind the text of the current line. -/
def strings (current : List Char) : List Char → List (List Char)
  | [] => if current = [] then [] else [current]
  | c :: file =>
    if c = '\r' then strings current file
    else if c = '\n' then current :: strings [] file
    else if isText c then strings (current ++ [c]) file
    else if current = [] then strings [] file
    else current :: strings [] file

/-- `file(STRINGS <file> <list> ENCODING UTF-8)` -/
def readList (file : List Char) : List Char := encode (strings [] file)

/-- `list(JOIN <list> "\n" <text>)` and `file(WRITE <file> "<text>\n")` -/
def writeList (platform : Platform) (value : List Char) : List Char :=
  TextFile.write platform (List.intercalate ['\n'] (expand value) ++ ['\n'])

end Base.CMakeList
