/-
What the translation of a linker response file is meant to be, token by token. The tokens of a response file are
separated by blanks outside of quotes.
-/
import BuildEngine.Adapter.LinkResponse
import BuildEngine.Base.Tokens

namespace BuildEngine.Adapter

open Base.Regex Base.Tokens

/-- The tokens of a response file. -/
def linkTokens (s : Text) : List Text := tokens isSpace '"' s

/-- `D:\p` or `D:/p`, where `p` is not empty and has no quote -/
def isDrivePath : Text → Bool
  | d :: ':' :: s :: p => isLetter d && isSlash s && !p.isEmpty && !p.contains '"'
  | _ => false

/-- A drive path and a quote behind it. -/
def isQuotedDrivePath (t : Text) : Bool := isDrivePath t.dropLast && t.getLast? == some '"'

/-- The path of an import in one of the spellings `"-lD:\p"`, `-l"D:\p"` and `-lD:\p`, with its quotes. -/
def importPath : Text → Option Text
  | '"' :: '-' :: 'l' :: t => if isQuotedDrivePath t then some ('"' :: fullLibPath t) else none
  | '-' :: 'l' :: '"' :: t => if isQuotedDrivePath t then some ('"' :: fullLibPath t) else none
  | '-' :: 'l' :: t => if isDrivePath t then some (fullLibPath t) else none
  | _ => none

def dotLib : Text := ['.', 'l', 'i', 'b']

/-- `-lNAME.lib` as `-lNAME` -/
def systemLibName : Text → Option Text
  | '-' :: 'l' :: t =>
    let name := t.take (t.length - 4)
    if t = name ++ dotLib ∧ name ≠ [] ∧ name.all isNameChar then some ('-' :: 'l' :: name) else none
  | _ => none

/-- A token that begins with `/` and a letter. -/
def isSwitch : Text → Bool
  | '/' :: c :: _ => isLetter c
  | _ => false

/-- The tokens that a token stands for. -/
def translateToken (t : Text) : List Text :=
  if t = "--color-diagnostics".toList then ["-fcolor-diagnostics".toList]
  else
    match importPath t with
    | some path => [path]
    | none =>
      match systemLibName t with
      | some name => [name]
      | none => if isSwitch t then ["-Xlinker".toList, "-Xlink=".toList ++ t] else [t]

end BuildEngine.Adapter
