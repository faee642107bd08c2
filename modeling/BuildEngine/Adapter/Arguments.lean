/-
`Translate` of `gn_argument_adapter.py`: one Chromium or MSVC compiler argument as arguments of BCC64X, or the
message of the `ValueError` it raises.
-/
import BuildEngine.Adapter.LinkResponse

namespace BuildEngine.Adapter

/-! ## Tables -/

def text (s : String) : Text := s.toList

/-- A table from arguments to arguments. -/
def table (rows : List (String × List String)) : List (Text × List Text) :=
  rows.map fun row => (text row.1, row.2.map text)

/-- `WARNING_EQUIVALENTS` -/
def warningEquivalents : List (Text × List Text) := table [
  ("4244", ["-Wno-shorten-64-to-32", "-Wno-implicit-int-conversion", "-Wno-implicit-float-conversion",
    "-Wno-float-conversion"]),
  ("4267", ["-Wno-shorten-64-to-32", "-Wno-implicit-int-conversion"]),
  ("4800", ["-Wno-bool-conversion"])]

/-- `mpDirect` -/
def direct : List (Text × List Text) := table [
  ("/WX", ["-Werror"]),
  ("/Gy", ["-ffunction-sections"]),
  ("/Gw", ["-fdata-sections"]),
  ("/Oy-", ["-fno-omit-frame-pointer"]),
  ("/O2", ["-O2"]),
  ("/Od", ["-O0"]),
  ("/Ob0", ["-fno-inline"]),
  ("/GF", ["-fmerge-all-constants"]),
  ("/GR-", ["-fno-rtti"]),
  ("/GR", ["-frtti"]),
  ("/Zi", ["-gcodeview"]),
  ("/utf-8", ["-finput-charset=UTF-8"]),
  ("/Zc:sizedDealloc-", ["-fno-sized-deallocation"]),
  ("/Z7", ["-gcodeview"]),
  ("/W3", ["-Wall"]),
  ("/W4", ["-Wall", "-Wextra"]),
  ("/guard:cf", ["-mguard=cf"]),
  ("/guard:cf,nochecks", ["-mguard=cf"])]

/-- The keys of `mpIntrinsic`: switches without an effect under BCC64X. -/
def intrinsic : List Text :=
  ["/FS", "/bigobj", "/Zc:inline", "/Zc:twoPhase", "/Brepro", "/Zc:__cplusplus"].map text

/-- `mpArchitecture` -/
def architecture : List (Text × List Text) := table [
  ("/arch:AVX2", ["-mavx2", "-mf16c", "-mfma"]),
  ("/arch:AVX512", ["-mavx512f", "-mavx512bw", "-mavx512dq", "-mavx512vl", "-mf16c", "-mfma"])]

/-! ## `Translate` -/

/-- `a_strArgument.lower() == "/wd4117"`; the letters `w` and `d` are the lower case of `W` and `D` only. -/
def isWd4117 (argument : Text) : Bool := argument.map Char.toLower == text "/wd4117"

/-- `[0-9]` -/
def isDigit (c : Char) : Bool := '0' ≤ c && c ≤ '9'

/-- The group of `re.fullmatch(r"/wd([0-9]{4})", a_strArgument, re.IGNORECASE)`. -/
def wdNumber : Text → Option Text
  | '/' :: w :: d :: number =>
    if w.toLower = 'w' ∧ d.toLower = 'd' ∧ number.length = 4 ∧ number.all isDigit then some number else none
  | _ => none

/-- `a_strArgument.startswith("/") and not a_strArgument.startswith("//")` -/
def SlashOption (argument : Text) : Prop := text "/" <+: argument ∧ ¬ text "//" <+: argument

instance (argument : Text) : Decidable (SlashOption argument) := inferInstanceAs (Decidable (_ ∧ _))

/-- `Translate`. -/
def translate (argument : Text) : Except Text (List Text) :=
  if isWd4117 argument then .ok []
  else
    match wdNumber argument with
    | some number =>
      match warningEquivalents.lookup number with
      | none => .error (text "no verified BCC64X warning equivalent for MSVC C" ++ number)
      | some options => .ok options
    | none =>
      if argument = text "-Wno-uninitialized-const-pointer" then .ok []
      else if argument = text "/TC" then .ok []
      else
        match direct.lookup argument with
        | some options => .ok options
        | none =>
          if argument ∈ intrinsic then .ok []
          else if argument = text "/MT" ∨ argument = text "/MTd" then
            .error (text "static MSVC CRT option forbidden by BuildEngine dynamic RTL policy: " ++ argument)
          else if argument = text "/MD" ∨ argument = text "/MDd" then .ok [text "-tR"]
          else
            match architecture.lookup argument with
            | some options => .ok options
            | none =>
              if text "/D" <+: argument then .ok [text "-D" ++ argument.drop 2]
              else if text "/std:" <+: argument then .ok [text "-std=" ++ argument.drop 5]
              else if text "/clang:" <+: argument then .ok [argument.drop 7]
              else if SlashOption argument then .error (text "unsupported MSVC option for BCC64X: " ++ argument)
              else .ok [argument]

/-! ## What is translated -/

/-- The MSVC options that `Translate` knows. -/
inductive Listed : Text → Prop
  | wd4117 {argument : Text} : isWd4117 argument = true → Listed argument
  | warning {argument number : Text} : wdNumber argument = some number → number ∈ warningEquivalents.map Prod.fst →
    Listed argument
  | sourceKind : Listed (text "/TC")
  | direct {argument : Text} : argument ∈ direct.map Prod.fst → Listed argument
  | intrinsic {argument : Text} : argument ∈ intrinsic → Listed argument
  | runtime {argument : Text} : argument = text "/MD" ∨ argument = text "/MDd" → Listed argument
  | architecture {argument : Text} : argument ∈ architecture.map Prod.fst → Listed argument
  | macroDefinition {definition : Text} : Listed (text "/D" ++ definition)
  | standard {name : Text} : Listed (text "/std:" ++ name)
  | clang {payload : Text} : Listed (text "/clang:" ++ payload)

/-- The arguments without a translation. -/
inductive Dropped : Text → Prop
  | wd4117 {argument : Text} : isWd4117 argument = true → Dropped argument
  | suppression : Dropped (text "-Wno-uninitialized-const-pointer")
  | sourceKind : Dropped (text "/TC")
  | intrinsic {argument : Text} : argument ∈ intrinsic → Dropped argument

/-- What `Translate` accepts, and as what: arguments without a translation, listed options, the payload of a
`/clang:` option, and everything that is not an MSVC option. -/
inductive Accepted : Text → List Text → Prop
  | dropped {argument : Text} : Dropped argument → Accepted argument []
  | listed {argument : Text} {options : List Text} : Listed argument → options ≠ [] →
    (∀ option ∈ options, ¬ SlashOption option) → Accepted argument options
  | clang {payload : Text} : Accepted (text "/clang:" ++ payload) [payload]
  | kept {argument : Text} : ¬ SlashOption argument → Accepted argument [argument]

theorem mem_of_lookup {rows : List (Text × List Text)} {argument : Text} {options : List Text}
    (h : rows.lookup argument = some options) : (argument, options) ∈ rows := by
  obtain ⟨l₁, l₂, heq, -⟩ := List.lookup_eq_some_iff.1 h
  rw [heq]
  exact List.mem_append_right _ (List.mem_cons_self ..)

/-- A row of a table of options. -/
def RowOk (row : Text × List Text) : Prop := row.2 ≠ [] ∧ ∀ option ∈ row.2, ¬ SlashOption option

instance (row : Text × List Text) : Decidable (RowOk row) := inferInstanceAs (Decidable (_ ∧ _))

theorem rows_ok : ∀ row ∈ warningEquivalents ++ direct ++ architecture, RowOk row := by decide

theorem not_slashOption_of_dash (t : Text) : ¬ SlashOption ('-' :: t) := by
  rintro ⟨⟨rest, h⟩, -⟩
  cases h

theorem eq_append_drop {front argument : Text} (h : front <+: argument) :
    argument = front ++ argument.drop front.length := by
  obtain ⟨rest, rfl⟩ := h
  rw [List.drop_left]

theorem translate_accepted {argument : Text} {options : List Text} (h : translate argument = .ok options) :
    Accepted argument options := by
  have hrow : ∀ {rows : List (Text × List Text)} {key : Text}, rows ⊆ warningEquivalents ++ direct ++ architecture →
      rows.lookup key = some options → Listed argument → Accepted argument options := by
    intro rows key hrows hlookup hlisted
    obtain ⟨hne, hoptions⟩ := rows_ok _ (hrows (mem_of_lookup hlookup))
    exact .listed hlisted hne hoptions
  have hdash : Listed argument → ∀ t, Accepted argument ['-' :: t] := fun hlisted t =>
    .listed hlisted (List.cons_ne_nil _ _) fun option hmem => by
      rw [List.mem_singleton.1 hmem]
      exact not_slashOption_of_dash t
  unfold translate at h
  -- one test of the source after the other
  by_cases hwd : isWd4117 argument = true
  case pos =>
    rw [if_pos hwd] at h
    cases h
    exact .dropped (.wd4117 hwd)
  rw [if_neg hwd] at h
  rcases hnumber : wdNumber argument with _ | number
  case some =>
    rw [hnumber] at h
    dsimp only at h
    rcases hlookup : warningEquivalents.lookup number with _ | options'
    case none =>
      rw [hlookup] at h
      cases h
    rw [hlookup] at h
    cases h
    refine hrow (fun row hmem => ?_) hlookup (.warning hnumber (List.mem_map_of_mem (mem_of_lookup hlookup)))
    exact List.mem_append_left _ (List.mem_append_left _ hmem)
  rw [hnumber] at h
  dsimp only at h
  by_cases hsuppression : argument = text "-Wno-uninitialized-const-pointer"
  case pos =>
    rw [if_pos hsuppression] at h
    cases h
    exact hsuppression ▸ .dropped .suppression
  rw [if_neg hsuppression] at h
  by_cases hkind : argument = text "/TC"
  case pos =>
    rw [if_pos hkind] at h
    cases h
    exact hkind ▸ .dropped .sourceKind
  rw [if_neg hkind] at h
  rcases hdirect : direct.lookup argument with _ | options'
  case some =>
    rw [hdirect] at h
    cases h
    refine hrow (fun row hmem => ?_) hdirect (.direct (List.mem_map_of_mem (mem_of_lookup hdirect)))
    exact List.mem_append_left _ (List.mem_append_right _ hmem)
  rw [hdirect] at h
  dsimp only at h
  by_cases hintrinsic : argument ∈ intrinsic
  case pos =>
    rw [if_pos hintrinsic] at h
    cases h
    exact .dropped (.intrinsic hintrinsic)
  rw [if_neg hintrinsic] at h
  by_cases hstatic : argument = text "/MT" ∨ argument = text "/MTd"
  case pos =>
    rw [if_pos hstatic] at h
    cases h
  rw [if_neg hstatic] at h
  by_cases hruntime : argument = text "/MD" ∨ argument = text "/MDd"
  case pos =>
    rw [if_pos hruntime] at h
    cases h
    exact hdash (.runtime hruntime) _
  rw [if_neg hruntime] at h
  rcases harchitecture : architecture.lookup argument with _ | options'
  case some =>
    rw [harchitecture] at h
    cases h
    refine hrow (fun row hmem => ?_) harchitecture (.architecture (List.mem_map_of_mem (mem_of_lookup harchitecture)))
    exact List.mem_append_right _ hmem
  rw [harchitecture] at h
  dsimp only at h
  by_cases hmacro : text "/D" <+: argument
  case pos =>
    rw [if_pos hmacro] at h
    cases h
    exact hdash (eq_append_drop hmacro ▸ .macroDefinition) _
  rw [if_neg hmacro] at h
  by_cases hstandard : text "/std:" <+: argument
  case pos =>
    rw [if_pos hstandard] at h
    cases h
    exact hdash (eq_append_drop hstandard ▸ .standard) _
  rw [if_neg hstandard] at h
  by_cases hclang : text "/clang:" <+: argument
  case pos =>
    rw [if_pos hclang] at h
    cases h
    have hargument : argument = text "/clang:" ++ argument.drop 7 := eq_append_drop hclang
    generalize argument.drop 7 = payload at hargument ⊢
    rw [hargument]
    exact .clang
  rw [if_neg hclang] at h
  by_cases hslash : SlashOption argument
  case pos =>
    rw [if_pos hslash] at h
    cases h
  rw [if_neg hslash] at h
  cases h
  exact .kept hslash

section Accepted

variable {argument option : Text} {options : List Text} (h : translate argument = .ok options)
include h

/-- An MSVC option in the translation is the payload of a `/clang:` option. -/
theorem translate_slashOption (hmem : option ∈ options) (hslash : SlashOption option) :
    argument = text "/clang:" ++ option := by
  cases translate_accepted h with
  | dropped => cases hmem
  | listed _ _ hnone => exact absurd hslash (hnone option hmem)
  | clang => rw [List.mem_singleton.1 hmem]
  | kept hnot => exact absurd (List.mem_singleton.1 hmem ▸ hslash) hnot

/-- An MSVC option that is accepted is listed. -/
theorem translate_listed (hslash : SlashOption argument) : Listed argument := by
  cases translate_accepted h with
  | dropped hdropped =>
    cases hdropped with
    | wd4117 hwd => exact .wd4117 hwd
    | suppression => exact absurd hslash (not_slashOption_of_dash _)
    | sourceKind => exact .sourceKind
    | intrinsic hmem => exact .intrinsic hmem
  | listed hlisted => exact hlisted
  | clang => exact .clang
  | kept hnot => exact absurd hslash hnot

theorem translate_wd {number : Text} (hnumber : wdNumber argument = some number) :
    isWd4117 argument = true ∨ number ∈ warningEquivalents.map Prod.fst := by
  unfold translate at h
  split at h
  · rename_i hwd
    exact .inl hwd
  · rw [hnumber] at h
    simp only at h
    split at h
    · cases h
    · rename_i options' hlookup
      exact .inr (List.mem_map_of_mem (mem_of_lookup hlookup))

theorem translate_runtime : argument ≠ text "/MT" ∧ argument ≠ text "/MTd" := by
  constructor
  · rintro rfl
    have hMT : ∃ message, translate (text "/MT") = .error message := ⟨_, by rfl⟩
    obtain ⟨message, herror⟩ := hMT
    rw [herror] at h
    cases h
  · rintro rfl
    have hMTd : ∃ message, translate (text "/MTd") = .error message := ⟨_, by rfl⟩
    obtain ⟨message, herror⟩ := hMTd
    rw [herror] at h
    cases h

end Accepted

theorem translate_nil {argument : Text} (h : translate argument = .ok []) : Dropped argument := by
  cases translate_accepted h with
  | dropped hdropped => exact hdropped
  | listed _ hne => exact absurd rfl hne

end BuildEngine.Adapter
