/-
`TranslateLinkResponse` of `gn_argument_adapter.py`: the substitutions it makes one after another in the text of a
linker response file, and the two searches that refuse a text. Every pattern begins with `(?<!\S)`.
-/
import BuildEngine.Base.Regex

namespace BuildEngine.Adapter

open Base.Regex

abbrev Text := List Char

scoped instance : LawfulBEq Text := inferInstanceAs (LawfulBEq (List Char))

/-! ## Character classes -/

/-- `[A-Za-z]` -/
def isLetter (c : Char) : Bool := 'A' ≤ c && c ≤ 'Z' || 'a' ≤ c && c ≤ 'z'

/-- `[\\/]` -/
def isSlash (c : Char) : Bool := c == '\\' || c == '/'

/-- `[A-Za-z0-9_+.-]` -/
def isNameChar (c : Char) : Bool :=
  isLetter c || '0' ≤ c && c ≤ '9' || c == '_' || c == '+' || c == '.' || c == '-'

/-- `[A-Za-z0-9_+.-]` without regard to case, which adds four characters -/
def isNameCharAnyCase (c : Char) : Bool :=
  isNameChar c || c == '\u0130' || c == '\u0131' || c == '\u017F' || c == '\u212A'

/-- `l` and `b` without regard to case -/
def isL (c : Char) : Bool := c == 'l' || c == 'L'

def isB (c : Char) : Bool := c == 'b' || c == 'B'

/-- `i` without regard to case -/
def isI (c : Char) : Bool := c == 'i' || c == 'I' || c == '\u0130' || c == '\u0131'

/-- `(?=\s|$)` -/
def atEnd : Option Char → Bool
  | none => true
  | some c => isSpace c

/-! ## The patterns -/

def literal (text : Text) : List (Item Char) := text.map fun c => .one (· == c)

def colorDiagnostics : Rule Char where
  items := literal "--color-diagnostics".toList
  ahead := atEnd
  replace _ := "-fcolor-diagnostics".toList

/-- `full_lib_path` on the group -/
def fullLibPath (group : Text) : Text := group.map fun c => if c = '\\' then '/' else c

/-- `([A-Za-z]:[\\/][^"]+)"` behind one of the two beginnings of a quoted import. -/
def importRule (front : Text) : Rule Char where
  items := literal front ++
    [.one isLetter, .one (· == ':'), .one isSlash, .plus (· != '"'), .one (· == '"')]
  ahead _ := true
  replace m := '"' :: fullLibPath (m.drop 3).dropLast ++ ['"']

/-- `"-l([A-Za-z]:[\\/][^"]+)"` -/
def quotedImport : Rule Char := importRule ['"', '-', 'l']

/-- `-l"([A-Za-z]:[\\/][^"]+)"` -/
def importQuoted : Rule Char := importRule ['-', 'l', '"']

/-- `-l([A-Za-z]:[\\/][^\s"]+)` -/
def bareImport : Rule Char where
  items := literal ['-', 'l'] ++
    [.one isLetter, .one (· == ':'), .one isSlash, .plus fun c => !isSpace c && c != '"']
  ahead _ := true
  replace m := fullLibPath (m.drop 2)

/-- `-l([A-Za-z0-9_+.-]+)\.lib(?=\s|$)` without regard to case -/
def systemLib : Rule Char where
  items := [.one (· == '-'), .one isL, .plus isNameCharAnyCase, .one (· == '.'), .one isL, .one isI, .one isB]
  ahead := atEnd
  replace m := '-' :: 'l' :: (m.drop 2).take (m.length - 6)

/-- `/(?=[A-Za-z])` -/
def linkSwitch : Rule Char where
  items := [.one (· == '/')]
  ahead o := o.any isLetter
  replace _ := "-Xlinker -Xlink=/".toList

/-- `"/[A-Za-z][^"]*"` -/
def hasQuotedSwitch (s : Text) : Bool :=
  search isSpace (fun _ => true) [.one (· == '"'), .one (· == '/'), .one isLetter, .one (· == '"')] true s ||
    search isSpace (fun _ => true)
      [.one (· == '"'), .one (· == '/'), .one isLetter, .plus (· != '"'), .one (· == '"')] true s

/-- `-l[A-Za-z]:` -/
def hasDriveImport (s : Text) : Bool :=
  search isSpace (fun _ => true) (literal ['-', 'l'] ++ [.one isLetter, .one (· == ':')]) true s

/-! ## The function -/

def translateLinkResponse (content : Text) : Except String Text :=
  let content := sub isSpace colorDiagnostics content
  if hasQuotedSwitch content then .error "quoted MSVC linker switch requires explicit handling"
  else
    let content := sub isSpace quotedImport content
    let content := sub isSpace importQuoted content
    let content := sub isSpace bareImport content
    if hasDriveImport content then .error "unhandled drive-qualified GN import-library path"
    else
      let content := sub isSpace systemLib content
      .ok (sub isSpace linkSwitch content)

theorem translateLinkResponse_ok {s r : Text} (h : translateLinkResponse s = .ok r) :
    r = sub isSpace linkSwitch (sub isSpace systemLib (sub isSpace bareImport (sub isSpace importQuoted
      (sub isSpace quotedImport (sub isSpace colorDiagnostics s))))) := by
  simp only [translateLinkResponse] at h
  split at h
  · cases h
  · split at h
    · cases h
    · cases h
      rfl

end BuildEngine.Adapter
