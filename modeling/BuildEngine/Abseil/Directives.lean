/-
What an include directive is: the preprocessing tokens of a C++ text as far as they tell where one stands. Comments,
string and character literals, raw strings and spliced lines are told apart from code; a directive begins with `#` as
the first token of its line.
-/
import BuildEngine.Abseil.Script

namespace BuildEngine.Abseil

open Base.Cut

/-- Where a character stands. -/
inductive Place where
  /-- behind nothing but blanks and comments in its line -/
  | lineStart
  /-- behind the `#` of a directive -/
  | hash
  /-- in the name of a directive, of which `w` has been read -/
  | directive (w : Text)
  /-- behind `include` -/
  | header
  /-- in a header name, which ends with `close` -/
  | headerName (close : Char)
  | code
  /-- in an identifier or a number, of which `w` has been read -/
  | word (w : Text)
  /-- in a literal, which ends with `close` -/
  | literal (close : Char)
  | lineComment
  | blockComment (back : Place)
  /-- in front of the parenthesis of a raw string -/
  | rawOpen (delimiter : Text)
  | raw (delimiter : Text)
  /-- in front of the last `rest` characters of a raw string -/
  | rawClose (rest : ℕ)
  /-- at a character that belongs to the one in front of it -/
  | second (back : Place)

def isWordChar (c : Char) : Bool := c.isAlphanum || c == '_'

def isLineBlank (c : Char) : Bool := c == ' ' || c == '\t' || c == '\r' || c == '\x0b' || c == '\x0c'

def rawPrefixes : List Text := ["R".toList, "uR".toList, "UR".toList, "LR".toList, "u8R".toList]

/-- A backslash at the end of a line. -/
def isSplice (c : Char) (rest : Text) : Bool := c == '\\' && (rest.head? == some '\n' || "\r\n".toList.isPrefixOf rest)

/-- Behind the line end of a spliced line. -/
def splice (rest : Text) (here : Place) : Place := if rest.head? = some '\r' then .second (.second here) else .second here

/-- Behind a character of the code, in front of `rest`. -/
def codeStep (c : Char) (rest : Text) : Place :=
  if c = '\n' then .lineStart
  else if c = '"' ∨ c = '\'' then .literal c
  else if c = '/' ∧ rest.head? = some '/' then .lineComment
  else if c = '/' ∧ rest.head? = some '*' then .second (.blockComment .code)
  else if isSplice c rest then splice rest .code
  else if isWordChar c then .word [c]
  else .code

/-- Behind a character where blanks, comments and spliced lines change nothing. -/
def blankStep (here : Place) (c : Char) (rest : Text) (other : Place) : Place :=
  if isLineBlank c then here
  else if c = '/' ∧ rest.head? = some '*' then .second (.blockComment here)
  else if isSplice c rest then splice rest here
  else other

def lineStartStep (c : Char) (rest : Text) : Place :=
  if c = '\n' then .lineStart
  else if c = '#' then .hash
  -- the other spelling of `#`
  else if c = '%' ∧ rest.head? = some ':' then .second .hash
  else blankStep .lineStart c rest (codeStep c rest)

def headerStep (c : Char) (rest : Text) : Place :=
  if c = '"' then .headerName '"'
  else if c = '<' then .headerName '>'
  else blankStep .header c rest (codeStep c rest)

/-- Where the text goes on behind the character `c`, in front of `rest`. -/
def Place.next : Place → Char → Text → Place
  | .lineStart, c, rest => lineStartStep c rest
  | .hash, c, rest => blankStep .hash c rest (if isWordChar c then .directive [c] else codeStep c rest)
  | .directive w, c, rest =>
    if isWordChar c then .directive (w ++ [c])
    else if isSplice c rest then splice rest (.directive w)
    else if w = "include".toList then headerStep c rest
    else codeStep c rest
  | .header, c, rest => headerStep c rest
  | .headerName close, c, rest =>
    if c = '\n' then .lineStart
    else if c = close then .code
    else if isSplice c rest then splice rest (.headerName close)
    else .headerName close
  | .code, c, rest => codeStep c rest
  | .word w, c, rest =>
    if isWordChar c then .word (w ++ [c])
    else if c = '"' ∧ w ∈ rawPrefixes then .rawOpen []
    -- a separator between the digits of a number
    else if c = '\'' ∧ w.head?.any Char.isDigit ∧ rest.head?.any isWordChar then .word (w ++ [c])
    else if isSplice c rest then splice rest (.word w)
    else codeStep c rest
  | .literal close, c, rest =>
    if isSplice c rest then splice rest (.literal close)
    else if c = '\\' then .second (.literal close)
    else if c = close then .code
    else if c = '\n' then .lineStart
    else .literal close
  | .lineComment, c, rest =>
    if c = '\n' then .lineStart else if isSplice c rest then splice rest .lineComment else .lineComment
  | .blockComment back, c, rest => if c = '*' ∧ rest.head? = some '/' then .second back else .blockComment back
  | .rawOpen delimiter, c, _ => if c = '(' then .raw delimiter else .rawOpen (delimiter ++ [c])
  | .raw delimiter, c, rest =>
    if c = ')' ∧ delimiter ++ ['"'] <+: rest then .rawClose (delimiter.length + 1) else .raw delimiter
  | .rawClose rest, _, _ => if rest ≤ 1 then .code else .rawClose (rest - 1)
  | .second back, _, _ => back

/-- Whether the name of a header begins with the character `c`. -/
def Place.opensHeader : Place → Char → Bool
  | .header, c => isOpening c
  | .directive w, c => w == "include".toList && isOpening c
  | _, _ => false

/-- The characters of a text, and for each whether the header name of an include directive begins with it. -/
def annotate : Place → Text → List (Char × Bool)
  | _, [] => []
  | here, c :: t => (c, here.opensHeader c) :: annotate (here.next c t) t

def annotated (text : Text) : List (Char × Bool) := annotate .lineStart text

theorem annotate_chars (text : Text) : ∀ here : Place, (annotate here text).map Prod.fst = text := by
  induction text with
  | nil => exact fun _ => rfl
  | cons c t ih => exact fun here => congrArg (c :: ·) (ih (here.next c t))

/-- A header name begins with a quote or with an angle bracket. -/
theorem annotate_opening (text : Text) : ∀ here : Place, ∀ x ∈ annotate here text, x.2 → isOpening x.1 := by
  have hopens : ∀ (here : Place) (c : Char), here.opensHeader c → isOpening c := by
    intro here c h
    cases here with
    | header => exact h
    | directive w => exact (Bool.and_eq_true_iff.1 h).2
    | _ => cases h
  induction text with
  | nil => exact fun _ x hx => absurd hx List.not_mem_nil
  | cons c t ih =>
    rintro here x (_ | ⟨_, hx⟩)
    · exact hopens here c
    · exact ih (here.next c t) x hx

end BuildEngine.Abseil
