/-
The compile path of `Main` of `gn_argument_adapter.py`: a scan over the arguments with one iterator, which takes
`-mllvm` together with its value and collects the translations and the errors, three conditional suffixes, and the
call of the compiler when no error was collected.
-/
import BuildEngine.Adapter.Arguments

namespace BuildEngine.Adapter

/-! ## `Main` -/

def mllvm : Text := text "-mllvm"

/-- The tuning option of Chromium's LLVM that BCC64X does not have. -/
def pickMergedSourceLocations : Text := text "-pick-merged-source-locations"

def missingValue : Text := text "missing value after -mllvm"

/-- The loop over the arguments, with `vecArguments` and `lstErrors`. -/
def scanArguments : List Text → List Text → List Text → List Text × List Text
  | [], vecArguments, lstErrors => (vecArguments, lstErrors)
  | strArgument :: arguments, vecArguments, lstErrors =>
    if strArgument = mllvm then
      match arguments with
      | [] => (vecArguments, lstErrors ++ [missingValue])
      | strBackendOption :: arguments =>
        if strBackendOption = pickMergedSourceLocations then scanArguments arguments vecArguments lstErrors
        else scanArguments arguments (vecArguments ++ [mllvm, strBackendOption]) lstErrors
    else
      match translate strArgument with
      | .ok options => scanArguments arguments (vecArguments ++ options) lstErrors
      | .error message =>
        scanArguments arguments vecArguments (if message ∈ lstErrors then lstErrors else lstErrors ++ [message])

/-- A predefined build timestamp among the arguments. -/
def hasTimestamp (arguments : List Text) : Bool :=
  arguments.any fun argument => (text "-D__DATE__=").isPrefixOf argument || (text "-D__TIME__=").isPrefixOf argument ||
    (text "-D__TIMESTAMP__=").isPrefixOf argument

/-- The configuration header of Skia among the arguments. -/
def hasSkiaConfig (arguments : List Text) : Bool :=
  arguments.any fun argument => decide (text "SK_USER_CONFIG_HEADER=" <:+: argument)

/-- The HSW source among the arguments. -/
def hasHswSource (arguments : List Text) : Bool :=
  arguments.any fun argument =>
    (text "/src/opts/SkOpts_hsw.cpp").isSuffixOf (argument.map fun c => if c = '\\' then '/' else c)

def redefinedFlag : Text := text "-Wno-builtin-macro-redefined"

def forceinlineFlag : Text := text "-D__forceinline=inline __attribute__((always_inline))"

def fmaFlag : Text := text "-mfma"

/-- The three conditional additions, each looking at the list as the ones before it left it. -/
def addSuffixes (vecArguments : List Text) : List Text :=
  let vecArguments := if hasTimestamp vecArguments then vecArguments ++ [redefinedFlag] else vecArguments
  let vecArguments := if hasSkiaConfig vecArguments then vecArguments ++ [forceinlineFlag] else vecArguments
  if hasHswSource vecArguments && !vecArguments.contains fmaFlag then vecArguments ++ [fmaFlag] else vecArguments

/-- What `Main` does. -/
inductive Outcome where
  /-- `RunLinkResponse` is called -/
  | linkResponse
  /-- the usage is printed -/
  | usage
  /-- the errors are printed, the compiler is not started -/
  | failed (lstErrors : List Text)
  /-- `subprocess.call([strCompiler, *vecArguments])` -/
  | started (strCompiler : Text) (vecArguments : List Text)
  deriving DecidableEq

/-- `Main` on `sys.argv[1:]`. -/
def main : List Text → Outcome
  | [] => .usage
  | strCompiler :: arguments =>
    if strCompiler = text "--link-rsp" then .linkResponse
    else if arguments = [] then .usage
    else
      let (vecArguments, lstErrors) := scanArguments arguments [] []
      let vecArguments := addSuffixes vecArguments
      if lstErrors ≠ [] then .failed lstErrors else .started strCompiler vecArguments

/-! ## The arguments of a scan -/

/-- What the scan takes at a time: `-mllvm` with its value, `-mllvm` without one, or another argument. -/
inductive Piece where
  | pair (strBackendOption : Text)
  | dangling
  | single (strArgument : Text)
  deriving DecidableEq, Repr

/-- The pieces of an argument list. -/
def pieces : List Text → List Piece
  | [] => []
  | strArgument :: arguments =>
    if strArgument = mllvm then
      match arguments with
      | [] => [.dangling]
      | strBackendOption :: arguments => .pair strBackendOption :: pieces arguments
    else .single strArgument :: pieces arguments

/-- A piece that is accepted: not a dangling `-mllvm`, and no argument that `Translate` refuses. -/
def Piece.Accepted : Piece → Prop
  | .pair _ => True
  | .dangling => False
  | .single strArgument => ∃ options, translate strArgument = .ok options

/-- What a piece adds to the arguments. -/
def Piece.translation : Piece → List Text
  | .pair strBackendOption =>
    if strBackendOption = pickMergedSourceLocations then [] else [mllvm, strBackendOption]
  | .dangling => []
  | .single strArgument =>
    match translate strArgument with
    | .ok options => options
    | .error _ => []

/-- The arguments of a piece. -/
def Piece.source : Piece → List Text
  | .pair strBackendOption => [mllvm, strBackendOption]
  | .dangling => [mllvm]
  | .single strArgument => [strArgument]

@[simp] theorem pieces_nil : pieces [] = [] := rfl

@[simp] theorem pieces_dangling : pieces [mllvm] = [.dangling] := by
  rw [pieces.eq_def]
  simp

@[simp] theorem pieces_pair (strBackendOption : Text) (arguments : List Text) :
    pieces (mllvm :: strBackendOption :: arguments) = .pair strBackendOption :: pieces arguments := by
  rw [pieces.eq_def]
  simp

theorem pieces_single {strArgument : Text} (h : strArgument ≠ mllvm) (arguments : List Text) :
    pieces (strArgument :: arguments) = .single strArgument :: pieces arguments := by
  rw [pieces.eq_def]
  simp [h]

/-- Induction along the pieces of an argument list. -/
theorem pieces_induction {P : List Text → Prop} (nil : P []) (dangling : P [mllvm])
    (pair : ∀ strBackendOption arguments, P arguments → P (mllvm :: strBackendOption :: arguments))
    (single : ∀ strArgument arguments, strArgument ≠ mllvm → P arguments → P (strArgument :: arguments)) :
    ∀ arguments, P arguments
  | [] => nil
  | [strArgument] => by
    by_cases h : strArgument = mllvm
    · exact h ▸ dangling
    · exact single strArgument [] h nil
  | strArgument :: strBackendOption :: arguments => by
    by_cases h : strArgument = mllvm
    · exact h ▸ pair strBackendOption arguments (pieces_induction nil dangling pair single arguments)
    · exact single strArgument _ h (pieces_induction nil dangling pair single (strBackendOption :: arguments))

/-- The pieces are the argument list, cut from left to right; a dangling `-mllvm` is its last argument. -/
theorem pieces_source (arguments : List Text) : (pieces arguments).flatMap Piece.source = arguments := by
  induction arguments using pieces_induction with
  | nil => rfl
  | dangling =>
    rw [pieces_dangling]
    rfl
  | pair strBackendOption arguments ih =>
    rw [pieces_pair, List.flatMap_cons, ih]
    rfl
  | single strArgument arguments h ih =>
    rw [pieces_single h, List.flatMap_cons, ih]
    rfl

/-! ## The scan -/

section Scan

variable (vecArguments lstErrors : List Text)

theorem scanArguments_nil : scanArguments [] vecArguments lstErrors = (vecArguments, lstErrors) := rfl

theorem scanArguments_dangling :
    scanArguments [mllvm] vecArguments lstErrors = (vecArguments, lstErrors ++ [missingValue]) := by
  rw [scanArguments.eq_def]
  simp

theorem scanArguments_pair (strBackendOption : Text) (arguments : List Text) :
    scanArguments (mllvm :: strBackendOption :: arguments) vecArguments lstErrors =
      scanArguments arguments (vecArguments ++ (Piece.pair strBackendOption).translation) lstErrors := by
  rw [scanArguments.eq_def, Piece.translation]
  simp only [if_true]
  split
  · rw [List.append_nil]
  · rfl

theorem scanArguments_ok {strArgument : Text} {options : List Text} (h : strArgument ≠ mllvm)
    (htranslate : translate strArgument = .ok options) (arguments : List Text) :
    scanArguments (strArgument :: arguments) vecArguments lstErrors =
      scanArguments arguments (vecArguments ++ options) lstErrors := by
  rw [scanArguments.eq_def]
  simp only [h, if_false, htranslate]

theorem scanArguments_error {strArgument message : Text} (h : strArgument ≠ mllvm)
    (htranslate : translate strArgument = .error message) (arguments : List Text) :
    scanArguments (strArgument :: arguments) vecArguments lstErrors =
      scanArguments arguments vecArguments (if message ∈ lstErrors then lstErrors else lstErrors ++ [message]) := by
  rw [scanArguments.eq_def]
  simp only [h, if_false, htranslate]

/-- The errors after a message was collected. -/
theorem collected_ne_nil (message : Text) :
    (if message ∈ lstErrors then lstErrors else lstErrors ++ [message]) ≠ [] := by
  split
  · rename_i hmem
    exact List.ne_nil_of_mem hmem
  · simp

end Scan

/-- Errors are never taken back. -/
theorem scanArguments_errors (arguments vecArguments : List Text) {lstErrors : List Text} (h : lstErrors ≠ []) :
    (scanArguments arguments vecArguments lstErrors).2 ≠ [] := by
  induction arguments using pieces_induction generalizing vecArguments lstErrors with
  | nil => exact h
  | dangling =>
    rw [scanArguments_dangling]
    simp
  | pair strBackendOption arguments ih =>
    rw [scanArguments_pair]
    exact ih _ h
  | single strArgument arguments hmllvm ih =>
    cases htranslate : translate strArgument with
    | ok options =>
      rw [scanArguments_ok _ _ hmllvm htranslate]
      exact ih _ h
    | error message =>
      rw [scanArguments_error _ _ hmllvm htranslate]
      exact ih _ (collected_ne_nil lstErrors message)

/-- A scan over accepted pieces collects their translations and no error. -/
theorem scanArguments_accepted (arguments vecArguments lstErrors : List Text)
    (h : ∀ piece ∈ pieces arguments, piece.Accepted) :
    scanArguments arguments vecArguments lstErrors =
      (vecArguments ++ (pieces arguments).flatMap Piece.translation, lstErrors) := by
  induction arguments using pieces_induction generalizing vecArguments with
  | nil => rw [scanArguments_nil, pieces_nil, List.flatMap_nil, List.append_nil]
  | dangling =>
    rw [pieces_dangling] at h
    exact absurd (h .dangling (List.mem_singleton_self _)) id
  | pair strBackendOption arguments ih =>
    rw [pieces_pair] at h ⊢
    rw [scanArguments_pair, ih _ (List.forall_mem_cons.1 h).2, List.flatMap_cons, List.append_assoc]
  | single strArgument arguments hmllvm ih =>
    rw [pieces_single hmllvm] at h ⊢
    obtain ⟨⟨options, htranslate⟩, hrest⟩ := List.forall_mem_cons.1 h
    rw [scanArguments_ok _ _ hmllvm htranslate, ih _ hrest, List.flatMap_cons, Piece.translation, htranslate]
    simp only [List.append_assoc]

/-- A scan over a piece that is not accepted collects an error. -/
theorem scanArguments_refused (arguments vecArguments lstErrors : List Text)
    (h : ¬ ∀ piece ∈ pieces arguments, piece.Accepted) :
    (scanArguments arguments vecArguments lstErrors).2 ≠ [] := by
  induction arguments using pieces_induction generalizing vecArguments lstErrors with
  | nil =>
    rw [pieces_nil] at h
    exact absurd (fun piece hmem => by cases hmem) h
  | dangling =>
    rw [scanArguments_dangling]
    simp
  | pair strBackendOption arguments ih =>
    rw [pieces_pair] at h
    rw [scanArguments_pair]
    exact ih _ _ fun hall => h (List.forall_mem_cons.2 ⟨trivial, hall⟩)
  | single strArgument arguments hmllvm ih =>
    rw [pieces_single hmllvm] at h
    cases htranslate : translate strArgument with
    | ok options =>
      rw [scanArguments_ok _ _ hmllvm htranslate]
      exact ih _ _ fun hall => h (List.forall_mem_cons.2 ⟨⟨options, htranslate⟩, hall⟩)
    | error message =>
      rw [scanArguments_error _ _ hmllvm htranslate]
      exact scanArguments_errors arguments _ (collected_ne_nil lstErrors message)

/-! ## The suffixes -/

/-- The conditional additions to a translated list. -/
def suffixes (arguments : List Text) : List Text :=
  (if hasTimestamp arguments then [redefinedFlag] else []) ++
    (if hasSkiaConfig arguments then [forceinlineFlag] else []) ++
    if hasHswSource arguments && !arguments.contains fmaFlag then [fmaFlag] else []

/-- The additions trigger none of the tests behind them. -/
theorem suffixes_quiet : hasSkiaConfig [redefinedFlag] = false ∧
    (∀ flag ∈ [redefinedFlag, forceinlineFlag], hasHswSource [flag] = false ∧ fmaFlag ≠ flag) := by decide

theorem hasHswSource_append (arguments : List Text) (flags : List Text) :
    hasHswSource (arguments ++ flags) = (hasHswSource arguments || hasHswSource flags) := List.any_append

theorem addSuffixes_eq (arguments : List Text) : addSuffixes arguments = arguments ++ suffixes arguments := by
  obtain ⟨hskia, hflags⟩ := suffixes_quiet
  -- the list before the last test is the translated one and flags that do not matter to it
  have hlast : ∀ flags : List Text, (∀ flag ∈ flags, flag ∈ [redefinedFlag, forceinlineFlag]) →
      (hasHswSource (arguments ++ flags) && !(arguments ++ flags).contains fmaFlag) =
        (hasHswSource arguments && !arguments.contains fmaFlag) := by
    intro flags hmem
    have hnone : hasHswSource flags = false := by
      rw [hasHswSource, List.any_eq_false]
      intro flag hflag
      have := (hflags flag (hmem flag hflag)).1
      rw [hasHswSource, List.any_eq_false] at this
      exact this flag (List.mem_singleton_self _)
    have hfma : flags.contains fmaFlag = false := by
      rw [List.contains_eq_mem, decide_eq_false_iff_not]
      exact fun hflag => (hflags _ (hmem _ hflag)).2 rfl
    rw [hasHswSource_append, hnone, Bool.or_false, List.contains_append, hfma, Bool.or_false]
  have hconfig : hasSkiaConfig (arguments ++ [redefinedFlag]) = hasSkiaConfig arguments := by
    rw [hasSkiaConfig, List.any_append, ← hasSkiaConfig, ← hasSkiaConfig, hskia, Bool.or_false]
  unfold addSuffixes suffixes
  cases htimestamp : hasTimestamp arguments with
  | true =>
    simp only [if_true, hconfig]
    cases hasSkiaConfig arguments with
    | true =>
      simp only [if_true, List.append_assoc]
      rw [hlast _ (by simp)]
      split
      · simp
      · simp
    | false =>
      simp only [Bool.false_eq_true, if_false]
      rw [hlast _ (by simp)]
      split
      · simp
      · simp
  | false =>
    simp only [Bool.false_eq_true, if_false]
    cases hasSkiaConfig arguments with
    | true =>
      simp only [if_true]
      rw [hlast _ (by simp)]
      split
      · simp
      · simp
    | false =>
      simp only [Bool.false_eq_true, if_false]
      split
      · simp
      · simp

/-! ## The compile path -/

/-- An MSVC option among the suffixes: there is none. -/
theorem suffixes_not_slashOption {arguments : List Text} : ∀ flag ∈ suffixes arguments, ¬ SlashOption flag := by
  have hflags : ∀ flag ∈ [redefinedFlag, forceinlineFlag, fmaFlag], ¬ SlashOption flag := by decide
  intro flag hmem
  refine hflags flag ?_
  unfold suffixes at hmem
  simp only [List.mem_append, List.mem_ite_nil_right, List.mem_singleton] at hmem
  simp only [List.mem_cons, List.not_mem_nil, or_false]
  rcases hmem with (⟨-, hflag⟩ | ⟨-, hflag⟩) | ⟨-, hflag⟩
  · exact .inl hflag
  · exact .inr (.inl hflag)
  · exact .inr (.inr hflag)

/-- An MSVC option in the translation of a piece: a value of `-mllvm`, or the payload of a `/clang:` option. -/
theorem Piece.translation_slashOption {piece : Piece} {option : Text} (hmem : option ∈ piece.translation)
    (hslash : SlashOption option) :
    piece = .pair option ∨ piece = .single (text "/clang:" ++ option) := by
  cases piece with
  | pair strBackendOption =>
    rw [Piece.translation] at hmem
    split at hmem
    · cases hmem
    · rcases List.mem_cons.1 hmem with rfl | hmem
      · exact absurd hslash (not_slashOption_of_dash _)
      · exact .inl (by rw [List.mem_singleton.1 hmem])
  | dangling => cases hmem
  | single strArgument =>
    rw [Piece.translation] at hmem
    cases htranslate : translate strArgument with
    | ok options =>
      rw [htranslate] at hmem
      exact .inr (by rw [translate_slashOption htranslate hmem hslash])
    | error message =>
      rw [htranslate] at hmem
      cases hmem

/-- What an argument must be to pass: an MSVC option that passes is listed, neither `/MT` nor `/MTd`, and a warning
number with an equivalent; an argument that adds nothing is one of those without a translation. -/
structure Passes (strArgument : Text) : Prop where
  listed : SlashOption strArgument → Listed strArgument
  runtime : strArgument ≠ text "/MT" ∧ strArgument ≠ text "/MTd"
  warning : ∀ number, wdNumber strArgument = some number →
    isWd4117 strArgument = true ∨ number ∈ warningEquivalents.map Prod.fst
  dropped : (Piece.single strArgument).translation = [] → Dropped strArgument

theorem Piece.Accepted.passes {strArgument : Text} (h : (Piece.single strArgument).Accepted) : Passes strArgument := by
  obtain ⟨options, htranslate⟩ := h
  refine ⟨translate_listed htranslate, translate_runtime htranslate, fun _ => translate_wd htranslate, fun hnil => ?_⟩
  rw [Piece.translation, htranslate] at hnil
  simp only at hnil
  subst hnil
  exact translate_nil htranslate

/-- The compile path starts the compiler exactly when no `-mllvm` is without a value and every other argument is
accepted; what it starts it with are the translations in order and the conditional additions, and no MSVC option
gets through or gets lost. -/
theorem main_compile {strCompiler : Text} (hcompiler : strCompiler ≠ text "--link-rsp") {arguments : List Text}
    (harguments : arguments ≠ []) :
    ((∀ piece ∈ pieces arguments, piece.Accepted) →
      main (strCompiler :: arguments) = .started strCompiler
        ((pieces arguments).flatMap Piece.translation ++ suffixes ((pieces arguments).flatMap Piece.translation))) ∧
    (¬ (∀ piece ∈ pieces arguments, piece.Accepted) →
      ∃ lstErrors, lstErrors ≠ [] ∧ main (strCompiler :: arguments) = .failed lstErrors) ∧
    (∀ compiler vecArguments, main (strCompiler :: arguments) = .started compiler vecArguments →
      (∀ option ∈ vecArguments, SlashOption option →
        Piece.pair option ∈ pieces arguments ∨ Piece.single (text "/clang:" ++ option) ∈ pieces arguments) ∧
      ∀ strArgument, Piece.single strArgument ∈ pieces arguments → Passes strArgument) := by
  have hstarted : (∀ piece ∈ pieces arguments, piece.Accepted) → main (strCompiler :: arguments) =
      .started strCompiler
        ((pieces arguments).flatMap Piece.translation ++ suffixes ((pieces arguments).flatMap Piece.translation)) := by
    intro haccepted
    rw [main, if_neg hcompiler, if_neg harguments, scanArguments_accepted _ _ _ haccepted, List.nil_append,
      ← addSuffixes_eq]
    rfl
  have hfailed : ¬ (∀ piece ∈ pieces arguments, piece.Accepted) →
      ∃ lstErrors, lstErrors ≠ [] ∧ main (strCompiler :: arguments) = .failed lstErrors := by
    intro hrefused
    have herrors := scanArguments_refused arguments [] [] hrefused
    refine ⟨_, herrors, ?_⟩
    rw [main, if_neg hcompiler, if_neg harguments]
    exact if_pos herrors
  refine ⟨hstarted, hfailed, fun compiler vecArguments hmain => ?_⟩
  by_cases haccepted : ∀ piece ∈ pieces arguments, piece.Accepted
  · rw [hstarted haccepted] at hmain
    cases hmain
    refine ⟨fun option hmem hslash => ?_, fun strArgument hmem => (haccepted _ hmem).passes⟩
    rcases List.mem_append.1 hmem with hmem | hmem
    · obtain ⟨piece, hpiece, hmem⟩ := List.mem_flatMap.1 hmem
      rcases Piece.translation_slashOption hmem hslash with rfl | rfl
      · exact .inl hpiece
      · exact .inr hpiece
    · exact absurd hslash (suffixes_not_slashOption option hmem)
  · obtain ⟨lstErrors, -, hmain'⟩ := hfailed haccepted
    rw [hmain'] at hmain
    cases hmain

/-- `/O2 -mllvm -pick-merged-source-locations -mllvm /x file.cpp` -/
def plainArguments : List Text :=
  [text "/O2", mllvm, pickMergedSourceLocations, mllvm, text "/x", text "file.cpp"]

/-- Arguments for the HSW source of Skia, with a build timestamp and the configuration header. -/
def hswArguments : List Text :=
  [text "/D__DATE__=0", text "/DSK_USER_CONFIG_HEADER=config.h", text "..\\src\\opts\\SkOpts_hsw.cpp"]

theorem plainArguments_pieces : pieces plainArguments =
    [.single (text "/O2"), .pair pickMergedSourceLocations, .pair (text "/x"), .single (text "file.cpp")] := by
  decide

theorem hswArguments_pieces : pieces hswArguments = hswArguments.map .single := by
  decide

theorem main_sample :
    main (text "bcc64x" :: plainArguments) =
      .started (text "bcc64x") [text "-O2", mllvm, text "/x", text "file.cpp"] ∧
    main (text "bcc64x" :: hswArguments) = .started (text "bcc64x")
      [text "-D__DATE__=0", text "-DSK_USER_CONFIG_HEADER=config.h", text "..\\src\\opts\\SkOpts_hsw.cpp",
        text "-Wno-builtin-macro-redefined", text "-D__forceinline=inline __attribute__((always_inline))",
        text "-mfma"] := by
  have hcompiler : text "bcc64x" ≠ text "--link-rsp" := by decide
  have hplain : ∀ piece ∈ pieces plainArguments, piece.Accepted := by
    have hO2 : (Piece.single (text "/O2")).Accepted := ⟨[text "-O2"], by decide⟩
    have hfile : (Piece.single (text "file.cpp")).Accepted := ⟨[text "file.cpp"], by decide⟩
    rw [plainArguments_pieces]
    simp only [List.forall_mem_cons]
    exact ⟨hO2, trivial, trivial, hfile, fun _ h => by cases h⟩
  have hhsw : ∀ piece ∈ pieces hswArguments, piece.Accepted := by
    have hdate : (Piece.single (text "/D__DATE__=0")).Accepted := ⟨[text "-D__DATE__=0"], by decide⟩
    have hconfig : (Piece.single (text "/DSK_USER_CONFIG_HEADER=config.h")).Accepted :=
      ⟨[text "-DSK_USER_CONFIG_HEADER=config.h"], by decide⟩
    have hsource : (Piece.single (text "..\\src\\opts\\SkOpts_hsw.cpp")).Accepted :=
      ⟨[text "..\\src\\opts\\SkOpts_hsw.cpp"], by decide⟩
    rw [hswArguments_pieces]
    simp only [hswArguments, List.map_cons, List.map_nil, List.forall_mem_cons]
    exact ⟨hdate, hconfig, hsource, fun _ h => by cases h⟩
  have hplainNe : plainArguments ≠ [] := List.cons_ne_nil _ _
  have hhswNe : hswArguments ≠ [] := List.cons_ne_nil _ _
  have hplainMain := (main_compile hcompiler hplainNe).1 hplain
  have hhswMain := (main_compile hcompiler hhswNe).1 hhsw
  rw [hplainMain, hhswMain, plainArguments_pieces, hswArguments_pieces]
  decide

end BuildEngine.Adapter
