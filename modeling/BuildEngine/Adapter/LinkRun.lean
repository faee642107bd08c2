/-
`RunLinkResponse`, and what may be left of the switches and imports of a response file after its translation. One in
a spelling that no pattern knows, such as `"-lC:x.lib"` or `/"OPT:REF"`, comes out as it went in.
-/
import BuildEngine.Adapter.Words

namespace BuildEngine.Adapter

open Base.Regex Base.Tokens

/-! ## Tokens that are left over -/

/-- A token without its quotes. -/
def unquoted (t : Text) : Text := t.filter (· != '"')

/-- A token that begins with `-lD:`, the pattern of `hasDriveImport`. -/
def isDriveImport (t : Text) : Bool :=
  (matchLength (fun _ => true) (literal ['-', 'l'] ++ [.one isLetter, .one (· == ':')]) t).isSome

/-- A token that is, without its quotes, an import with a drive or a switch. -/
def isRaw (t : Text) : Bool := isDriveImport (unquoted t) || isSwitch (unquoted t)

/-- `/[A-Za-z]` -/
def switchItems : List (Item Char) := [.one (· == '/'), .one isLetter]

def hasSwitch (s : Text) : Bool := search isSpace (fun _ => true) switchItems true s

/-! ## The run -/

inductive Effect where
  | print (strMessage : String)
  | write (strPath : String) (strText : Text)
  | start (vecCommand : List String)
  deriving DecidableEq

/-- What a run finds: the path of a file as `Path` has it, the text of the file or the error of reading it, the error
of writing a file, and the exit code of the compiler or the error of starting it. -/
structure World where
  path : String → String
  read : String → Except String Text
  write : String → Text → Except String Unit
  call : List String → Except String ℕ

def strUsage : String := "usage: gn_argument_adapter.py --link-rsp <compiler> <GN-rsp> <compiler-flags>"

/-- The run on `sys.argv`. An error of starting the compiler is not caught. -/
def runLinkResponse (world : World) : List String → List Effect × Except String ℕ
  | _ :: _ :: strCompiler :: strInput :: strFlag :: vecFlags =>
    let theSource := world.path strInput
    let failed (strError : String) := Effect.print ("BCC64X linker response translation failed: " ++ strError)
    match world.read theSource with
    | .error theError => ([failed theError], .ok 2)
    | .ok strOriginal =>
      match translateLinkResponse strOriginal with
      | .error theError => ([failed theError], .ok 2)
      | .ok strTranslated =>
        if hasSwitch strTranslated then
          ([failed "raw MSVC-style linker switch remains after translation"], .ok 2)
        else
          let theTranslated := world.path (theSource ++ ".bcc64x")
          match world.write theTranslated strTranslated with
          | .error theError => ([.write theTranslated strTranslated, failed theError], .ok 2)
          | .ok () =>
            let vecCommand := strCompiler :: strFlag :: vecFlags ++ ["@" ++ theTranslated]
            ([.write theTranslated strTranslated, .start vecCommand], world.call vecCommand)
  | _ => ([.print strUsage], .ok 2)

/-- The run is on a response file with this text. -/
def Reads (world : World) (argv : List String) (s : Text) : Prop :=
  ∃ strInput ∈ argv[3]?, world.read (world.path strInput) = .ok s

/-- The run stops before it writes a file and before it starts the compiler. -/
def Rejects (world : World) (argv : List String) : Prop :=
  ∃ strMessage, runLinkResponse world argv = ([.print strMessage], .ok 2)

/-- Nothing raw is left: no token of the translation `r` is raw, the search of the run finds nothing, and if a token
were left raw, the run would stop. -/
structure Translates (s r : Text) : Prop where
  tokens : ∀ t ∈ linkTokens r, ¬ isRaw t
  unfound : hasSwitch r = false
  stops : (∃ t ∈ linkTokens r, isRaw t) → ∀ world argv, Reads world argv s → Rejects world argv

/-! ## What is read of a response file -/

/-- What is known at the front of a word: whether it stands between quotes, and whether an import in the spelling
`"-lD:\p"` or `-l"D:\p"` is running that began with a quote further in front. -/
structure Reading where
  quoted : Bool
  whole : Bool
  behind : Bool

def Reading.start : Reading := ⟨false, false, false⟩

def Reading.next (x : Reading) (later : Bool) (w : Text) : Reading where
  quoted := w.foldl (toggle '"') x.quoted
  whole := runs quotedImport later x.whole w
  behind := runs importQuoted later x.behind w

/-- A word when the imports that are running have turned its backslashes. -/
def Reading.word (x : Reading) (w : Text) : Text := if x.whole || x.behind then turned w else w

/-- An import that one of the two rules for quotes takes, unless an import in the same spelling takes its quote. -/
def Reading.Imported (x : Reading) (later : Bool) (w : Text) : Prop :=
  x.whole = false ∧ taken quotedImport later w ∨ x.behind = false ∧ taken importQuoted later w

/-- A word that is written as a switch or as an import, so that a rule takes it. -/
def Reading.Converted (x : Reading) (later : Bool) (w : Text) : Prop :=
  isSwitch w ∨ x.Imported later w ∨ taken bareImport later w

/-- Every token at the front of which an import or a switch is left when its quotes are dropped is written such that a
rule takes it. -/
def Converts : Reading → List Text → Prop
  | _, [] => True
  | x, w :: ws =>
    let later := ws.any (·.contains '"')
    (x.quoted = false → isRaw (x.word w) → x.Converted later (x.word w)) ∧ Converts (x.next later w) ws

instance (x : Reading) (later : Bool) (w : Text) : Decidable (x.Imported later w) := inferInstanceAs (Decidable (_ ∨ _))

instance (x : Reading) (later : Bool) (w : Text) : Decidable (x.Converted later w) :=
  inferInstanceAs (Decidable (_ ∨ _ ∨ _))

instance decidableConverts : ∀ x ws, Decidable (Converts x ws)
  | _, [] => inferInstanceAs (Decidable True)
  | x, w :: ws =>
    haveI := decidableConverts (x.next (ws.any (·.contains '"')) w) ws
    inferInstanceAs (Decidable ((_ → _ → _) ∧ _))

/-! ## Raw tokens and raw words -/

theorem isDriveImport_iff {t : Text} : isDriveImport t ↔ ∃ d y, t = '-' :: 'l' :: d :: ':' :: y ∧ isLetter d := by
  rw [isDriveImport, matchLength_isSome_iff]
  constructor
  · rintro ⟨x, y, rfl, hmatch, -⟩
    obtain ⟨x, rfl, d, x, rfl, hd, e, x, rfl, he, rfl⟩ := matches_literal.1 hmatch
    obtain rfl : e = ':' := by simpa using he
    exact ⟨d, y, rfl, hd⟩
  · rintro ⟨d, y, rfl, hd⟩
    exact ⟨['-', 'l', d, ':'], y, rfl, matches_literal.2 ⟨[d, ':'], rfl, d, _, rfl, hd, ':', _, rfl, rfl, rfl⟩, rfl⟩

theorem isDriveImport_append {t u : Text} (hu : Blank isSpace u) : isDriveImport (t ++ u) = isDriveImport t := by
  have hlocal : Local isSpace (fun _ => true) (literal ['-', 'l'] ++ [.one isLetter, .one (· == ':')]) := by
    refine ⟨fun i hi c hc hic => ?_, fun _ _ => rfl⟩
    have hplain : Plain c := by
      rcases List.mem_append.1 hi with hi | hi
      · have hall : ∀ c ∈ ['-', 'l'], Plain c := forall_mem_of_all (by decide)
        exact hall c (accepts_literal hi hic)
      · simp only [List.mem_cons, List.not_mem_nil, or_false] at hi
        rcases hi with rfl | rfl
        · exact plain_of_letter hic
        · obtain rfl : c = ':' := by simpa [Item.accepts] using hic
          decide
    exact hplain.1 hc
  rw [isDriveImport, matchLength_local hlocal hu, isDriveImport]

theorem unquoted_append (t u : Text) : unquoted (t ++ u) = unquoted t ++ unquoted u := List.filter_append ..

theorem unquoted_cons {c : Char} (hc : c ≠ '"') (t : Text) : unquoted (c :: t) = c :: unquoted t :=
  List.filter_cons_of_pos (by simpa using hc)

theorem unquoted_quote (t : Text) : unquoted ('"' :: t) = unquoted t := rfl

theorem isRaw_append {t u : Text} (hu : Blank isSpace u) : isRaw (t ++ u) = isRaw t := by
  have hblank : Blank isSpace (unquoted u) := by
    cases u with
    | nil => exact hu
    | cons c u =>
      have hc : isSpace c := hu c rfl
      have hquote : c ≠ '"' := by
        rintro rfl
        exact absurd hc (by decide)
      rw [unquoted_cons hquote]
      exact blank_cons hc
  rw [isRaw, isRaw, unquoted_append, isDriveImport_append hblank, isSwitch_append hblank]

/-- An import or a switch begins with one of two characters. -/
theorem not_isRaw {t : Text} (h : ∀ c ∈ (unquoted t).head?, c ≠ '-' ∧ c ≠ '/') : isRaw t = false := by
  rw [Bool.eq_false_iff, isRaw, Ne, Bool.or_eq_true, not_or]
  constructor
  · intro himport
    obtain ⟨d, y, heq, -⟩ := isDriveImport_iff.1 himport
    exact (h '-' (by rw [heq]; rfl)).1 rfl
  · rw [isSwitch_of_head]
    · exact Bool.false_ne_true
    · intro hhead
      exact (h '/' hhead).2 rfl

theorem not_isRaw_letter {d : Char} (hd : isLetter d) (t : Text) : isRaw (d :: t) = false := by
  refine not_isRaw ?_
  rw [unquoted_cons (plain_of_letter hd).2]
  rintro c ⟨⟩
  refine ⟨?_, letter_ne_slash hd⟩
  rintro rfl
  exact absurd hd (by decide)

theorem not_isRaw_quote {d : Char} (hd : isLetter d) (t : Text) : isRaw ('"' :: d :: t) = false := by
  have hraw := not_isRaw_letter hd t
  rwa [isRaw, ← unquoted_quote, ← isRaw] at hraw

theorem isRaw_nil : isRaw [] = false := rfl

/-- The raw words that stand in front of a token. -/
def RawFront : Bool → List Text → Prop
  | _, [] => False
  | quoted, w :: ws => quoted = false ∧ isRaw w ∨ RawFront (w.foldl (toggle '"') quoted) ws

theorem scan_word {w : Text} (hw : Word w) (quoted : Bool) :
    scan isSpace '"' quoted w = some (w.foldl (toggle '"') quoted) := by
  induction w generalizing quoted with
  | nil => rfl
  | cons c w ih =>
    obtain ⟨hc, hw⟩ := Word.cons.1 hw
    rw [scan, if_neg (by simp [hc]), ih hw, List.foldl_cons]

/-- A word that keeps its quotes leaves the text behind it inside or outside of quotes as before. -/
theorem foldl_toggle_eq {w w' : Text} (hw : Word w) (hw' : Word w') {quoted : Bool}
    (hscan : scan isSpace '"' quoted w' = scan isSpace '"' quoted w) :
    w'.foldl (toggle '"') quoted = w.foldl (toggle '"') quoted := by
  rw [scan_word hw, scan_word hw'] at hscan
  exact Option.some.inj hscan

/-- A token is raw if its first word is. `current` has been read of the first token. -/
theorem exists_raw_tokensFrom {s : Text} : ∀ (quoted : Bool) (current : Text), (quoted = false → current = []) →
    (quoted = true → ∃ x c y, current = x ++ c :: y ∧ isSpace c) →
      ((∃ t ∈ tokensFrom isSpace '"' quoted current s, isRaw t) ↔ isRaw current ∨ RawFront quoted (words s)) := by
  -- the first word of the text is the front of a token, or it lies behind a blank of `current`
  have hfront : ∀ {quoted : Bool} {current : Text} (w : Text), (quoted = false → current = []) →
      (quoted = true → ∃ x c y, current = x ++ c :: y ∧ isSpace c) →
        (isRaw (current ++ w) ↔ isRaw current ∨ quoted = false ∧ isRaw w) := by
    intro quoted current w hout hin
    cases quoted with
    | false =>
      obtain rfl := hout rfl
      simp [isRaw_nil]
    | true =>
      obtain ⟨x, c, y, rfl, hc⟩ := hin rfl
      rw [List.append_assoc, List.cons_append, isRaw_append (blank_cons hc), isRaw_append (blank_cons hc)]
      simp
  induction s using word_induction isSpace with
  | last w hw =>
    intro quoted current hout hin
    have htokens : tokensFrom isSpace '"' quoted current (w ++ []) =
        tokensFrom isSpace '"' (w.foldl (toggle '"') quoted) (current ++ w) [] := tokensFrom_append (scan_word hw quoted)
    rw [List.append_nil, tokensFrom] at htokens
    rw [htokens, words_word hw, RawFront, RawFront, or_false, ← hfront w hout hin]
    split
    next hnil => simp [hnil, isRaw_nil]
    next => simp
  | more w c v hw hc ih =>
    intro quoted current hout hin
    have htokens : tokensFrom isSpace '"' quoted current (w ++ c :: v) =
        tokensFrom isSpace '"' (w.foldl (toggle '"') quoted) (current ++ w) (c :: v) :=
      tokensFrom_append (scan_word hw quoted)
    have hquote : c ≠ '"' := by
      rintro rfl
      exact absurd hc (by decide)
    rw [htokens, words_append hw hc, RawFront, ← or_assoc, ← hfront w hout hin]
    cases w.foldl (toggle '"') quoted with
    | false =>
      have hrest := ih false [] (fun _ => rfl) (fun h => Bool.noConfusion h)
      rw [tokensFrom, hc, Bool.not_false, Bool.and_self, if_pos rfl]
      simp only [List.mem_append, or_and_right, exists_or]
      rw [hrest, isRaw_nil]
      split
      next hnil => simp [hnil, isRaw_nil]
      next => simp
    | true =>
      have hrest := ih true (current ++ w ++ [c]) (fun h => Bool.noConfusion h)
        fun _ => ⟨current ++ w, c, [], rfl, hc⟩
      rw [tokensFrom, Bool.not_true, Bool.and_false, if_neg Bool.false_ne_true, toggle, if_neg hquote, hrest,
        isRaw_append (blank_cons hc)]

theorem exists_raw {s : Text} : (∃ t ∈ linkTokens s, isRaw t) ↔ RawFront false (words s) := by
  rw [linkTokens, tokens, exists_raw_tokensFrom false [] (fun _ => rfl) (fun h => Bool.noConfusion h)]
  simp [isRaw_nil]

/-! ## What the rules make of a word -/

theorem sub_none {r : Rule Char} {k : ℤ} (hr : Edits k r) {w : Text} (hw : Word w)
    (h : matchLength r.ahead r.items w = none) : sub isSpace r w = w := by
  have hsub := sub_word_of_none hr.starts hw blank_nil (by rwa [List.append_nil])
  rw [List.append_nil] at hsub
  exact hsub.trans (List.append_nil w)

theorem sub_some {r : Rule Char} {k : ℤ} (hr : Edits k r) {w : Text} (hw : Word w)
    (h : (matchLength r.ahead r.items w).isSome) : ∃ x y, w = x ++ y ∧ Matches r.items x ∧ r.ahead y.head? ∧
      sub isSpace r w = r.replace x ++ y := by
  obtain ⟨n, hn, hle, hmatch⟩ := hr.exists_match (Option.isSome_iff_ne_none.1 h)
  obtain ⟨-, -, hahead⟩ := matches_take hn
  have hsub := sub_word_of_some hr.starts hw blank_nil (by rwa [List.append_nil]) hle
  rw [List.append_nil] at hsub
  exact ⟨_, _, (List.take_append_drop (n + 1) w).symm, hmatch, hahead, hsub.trans (List.append_nil _)⟩

/-- A match that asks for a blank behind it is the whole word. -/
theorem eq_nil_of_atEnd {x y : Text} (hw : Word (x ++ y)) (h : atEnd y.head?) : y = [] := by
  cases y with
  | nil => rfl
  | cons c y => exact absurd h (hw c (by simp))

/-- A replacement without blanks and quotes. -/
theorem sub_some_plain {r : Rule Char} {k : ℤ} (hr : Edits k r) (hplain : ∀ x, Matches r.items x → Word (r.replace x))
    {w : Text} (hw : Word w) : Word (sub isSpace r w) := by
  by_cases h : (matchLength r.ahead r.items w).isSome
  · obtain ⟨x, y, rfl, hmatch, -, heq⟩ := sub_some hr hw h
    rw [heq]
    exact Word.append.2 ⟨hplain x hmatch, (Word.append.1 hw).2⟩
  · rw [sub_none hr hw (Option.not_isSome_iff_eq_none.1 h)]
    exact hw

theorem sub_color {w : Text} (hw : Word w) : sub isSpace colorDiagnostics w = w ∨
    w = "--color-diagnostics".toList ∧ sub isSpace colorDiagnostics w = "-fcolor-diagnostics".toList := by
  by_cases h : (matchLength colorDiagnostics.ahead colorDiagnostics.items w).isSome
  · obtain ⟨x, y, rfl, hmatch, hahead, heq⟩ := sub_some colorDiagnostics_edits hw h
    obtain rfl := eq_nil_of_atEnd hw hahead
    rw [List.append_nil] at heq ⊢
    exact .inr ⟨matches_colorDiagnostics hmatch, heq.trans (List.append_nil _)⟩
  · exact .inl (sub_none colorDiagnostics_edits hw (Option.not_isSome_iff_eq_none.1 h))

theorem sub_bareImport_word {w : Text} (hw : Word w) : Word (sub isSpace bareImport w) := by
  refine sub_some_plain bareImport_edits ?_ hw
  intro x hmatch
  obtain ⟨d, s, p, rfl, hd, hs, hp⟩ := matches_bareImport hmatch
  have hpath : Word (d :: ':' :: s :: p) :=
    Word.cons.2 ⟨(plain_of_letter hd).1, Word.cons.2 ⟨by decide, Word.cons.2 ⟨(plain_of_slash hs).1, .of_plain hp⟩⟩⟩
  exact fullLibPath_word hpath

theorem sub_systemLib_word {w : Text} (hw : Word w) : Word (sub isSpace systemLib w) := by
  refine sub_some_plain systemLib_edits ?_ hw
  intro x hmatch
  obtain ⟨l, name, l', i, b, rfl, -, -, hname, -⟩ := matches_systemLib hmatch
  rw [systemLib_replace]
  exact Word.cons.2 ⟨by decide, Word.cons.2 ⟨by decide, .of_plain fun c hc => plain_of_nameChar (hname c hc)⟩⟩

theorem taken_local {r : Rule Char} (hlocal : Local isSpace r.ahead r.items) {later : Bool} {w : Text} :
    taken r later w = (matchLength r.ahead r.items w).isSome := by
  rw [taken, matchLength_local hlocal (blank_lookahead later)]

/-- An import becomes its path, which is neither an import nor a switch. -/
theorem isRaw_bareImport {w : Text} (hw : Word w) (later : Bool) :
    isRaw (sub isSpace bareImport w) ↔ isRaw w ∧ ¬ taken bareImport later w := by
  rw [taken_local bareImport_local]
  by_cases h : (matchLength bareImport.ahead bareImport.items w).isSome
  · obtain ⟨x, y, rfl, hmatch, -, heq⟩ := sub_some bareImport_edits hw h
    obtain ⟨d, s, p, rfl, hd, -⟩ := matches_bareImport hmatch
    have hreplace : bareImport.replace ('-' :: 'l' :: d :: ':' :: s :: p) = d :: fullLibPath (':' :: s :: p) :=
      fullLibPath_letter hd _
    rw [heq, hreplace, List.cons_append, not_isRaw_letter hd]
    exact iff_of_false Bool.false_ne_true fun hboth => hboth.2 h
  · rw [sub_none bareImport_edits hw (Option.not_isSome_iff_eq_none.1 h)]
    exact (and_iff_left h).symm

theorem not_isRaw_dash {t : Text} (h : ':' ∉ t) : isRaw ('-' :: t) = false := by
  by_contra hraw
  rw [Bool.not_eq_false, isRaw, Bool.or_eq_true, unquoted_cons (by decide)] at hraw
  rcases hraw with hraw | hraw
  · obtain ⟨d, y, heq, -⟩ := isDriveImport_iff.1 hraw
    have hcolon : ':' ∈ unquoted t := by
      rw [(List.cons.inj heq).2]
      simp
    exact h (List.mem_of_mem_filter hcolon)
  · cases hraw

/-- A system library is neither an import with a drive nor a switch, before and after. -/
theorem isRaw_systemLib {w : Text} (hw : Word w) : isRaw (sub isSpace systemLib w) = isRaw w := by
  by_cases h : (matchLength systemLib.ahead systemLib.items w).isSome
  · obtain ⟨x, y, rfl, hmatch, hahead, heq⟩ := sub_some systemLib_edits hw h
    obtain rfl := eq_nil_of_atEnd hw hahead
    obtain ⟨l, name, l', i, b, rfl, hl, -, hname, hl', hi, hb⟩ := matches_systemLib hmatch
    have hcolon : ':' ∉ name := fun hmem => absurd (hname _ hmem) (by decide)
    have hbefore : ':' ∉ l :: (name ++ ['.', l', i, b]) := by
      have hnot : ¬ isL ':' ∧ ¬ isI ':' ∧ ¬ isB ':' := by decide
      simp only [List.mem_cons, List.mem_append, List.not_mem_nil, or_false, not_or]
      exact ⟨fun h => hnot.1 (h ▸ hl), hcolon, by decide, fun h => hnot.1 (h ▸ hl'), fun h => hnot.2.1 (h ▸ hi),
        fun h => hnot.2.2 (h ▸ hb)⟩
    have hafter : ':' ∉ 'l' :: name := by simpa using hcolon
    rw [heq, systemLib_replace, List.append_nil, List.append_nil, not_isRaw_dash hafter]
    exact (not_isRaw_dash hbefore).symm
  · rw [sub_none systemLib_edits hw (Option.not_isSome_iff_eq_none.1 h)]

/-! ## Turned words and the imports in quotes -/

theorem turned_cons {c : Char} (hc : c ≠ '"') (t : Text) : turned (c :: t) = fullLibPath [c] ++ turned t := by
  simp [turned, hc, fullLibPath]

theorem turned_eq_quote {w y : Text} : turned w = '"' :: y ↔ w = '"' :: y := by
  cases w with
  | nil => exact Iff.rfl
  | cons c w =>
    by_cases hc : c = '"'
    · rw [hc, turned_quote]
    · rw [turned_cons hc]
      refine iff_of_false (fun h => ?_) fun h => hc (List.cons.inj h).1
      have hhead : '"' ∈ fullLibPath [c] := (List.cons.inj h).1 ▸ .head _
      exact hc (List.mem_singleton.1 (quote_mem_fullLibPath.1 hhead)).symm

theorem turned_eq_cons {w y : Text} {a : Char} (hquote : a ≠ '"') (hslash : a ≠ '/') (hback : a ≠ '\\') :
    turned w = a :: y ↔ ∃ t, w = a :: t ∧ turned t = y := by
  constructor
  · intro h
    cases w with
    | nil => cases h
    | cons c w =>
      by_cases hc : c = '"'
      · rw [hc, turned_quote] at h
        exact absurd (List.cons.inj h).1.symm hquote
      · rw [turned_cons hc, fullLibPath, List.map_singleton, List.singleton_append] at h
        obtain ⟨hhead, htail⟩ := List.cons.inj h
        by_cases hcback : c = '\\'
        · rw [if_pos hcback] at hhead
          exact absurd hhead.symm hslash
        · rw [if_neg hcback] at hhead
          exact ⟨w, by rw [hhead], htail⟩
  · rintro ⟨t, rfl, rfl⟩
    simp [turned_cons hquote, fullLibPath, hback]

/-- The front of an import in quotes has no backslash. -/
def Unturned (front : Text) : Prop := ∀ {w y : Text}, turned w = front ++ y ↔ w = front ++ y

theorem quotedImport_unturned : Unturned ['"', '-', 'l'] := turned_eq_quote

theorem importQuoted_unturned : Unturned ['-', 'l', '"'] := by
  intro w y
  have hdash : turned w = '-' :: 'l' :: '"' :: y ↔ ∃ t, w = '-' :: t ∧ turned t = 'l' :: '"' :: y :=
    turned_eq_cons (by decide) (by decide) (by decide)
  have hl : ∀ t, turned t = 'l' :: '"' :: y ↔ ∃ t', t = 'l' :: t' ∧ turned t' = '"' :: y := fun t =>
    turned_eq_cons (by decide) (by decide) (by decide)
  refine hdash.trans ⟨?_, ?_⟩
  · rintro ⟨t, rfl, ht⟩
    obtain ⟨t', rfl, ht'⟩ := (hl t).1 ht
    rw [turned_eq_quote.1 ht']
    rfl
  · rintro rfl
    exact ⟨_, rfl, (hl _).2 ⟨_, rfl, turned_quote y⟩⟩

section Import

variable {front : Text} (hfront : ImportFront front) (hturned : Unturned front)
include hfront

include hturned in
theorem taken_turned {w : Text} {later : Bool} :
    taken (importRule front) later (turned w) = taken (importRule front) later w := by
  rw [Bool.eq_iff_iff]
  constructor
  · intro h
    obtain ⟨d, y, heq, -⟩ := exists_front hfront h
    rwa [heq, ← hturned.1 heq] at h
  · intro h
    obtain ⟨d, y, heq, -⟩ := exists_front hfront h
    rwa [hturned.2 heq, ← heq]

/-- An import in quotes becomes its quoted path. -/
theorem importWord_taken {w : Text} {later : Bool} (h : taken (importRule front) later w) :
    ∃ d y, importWord front later false w = '"' :: d :: y ∧ isLetter d := by
  obtain ⟨d, y, rfl, hd⟩ := exists_front hfront h
  have hquote := (plain_of_letter hd).2
  have hletter : fullLibPath [d] = [d] := fullLibPath_letter hd []
  refine ⟨d, turned y, ?_, hd⟩
  rw [importWord, if_neg Bool.false_ne_true, if_pos h, drop_front hfront, turned_cons hquote, hletter,
    List.singleton_append]

omit hfront in
theorem importWord_not_taken {w : Text} {later : Bool} (h : ¬ taken (importRule front) later w) :
    importWord front later false w = w := by
  rw [importWord, if_neg Bool.false_ne_true, if_neg h]

omit hfront in
/-- Whether a match runs on is told by the quotes of a word and by the matches at its front. -/
theorem runs_congr {w w' : Text} (hquote : '"' ∈ w' ↔ '"' ∈ w)
    (htaken : ∀ later, taken (importRule front) later w' = taken (importRule front) later w) (later running : Bool) :
    runs (importRule front) later running w' = runs (importRule front) later running w := by
  have hclosed : ∀ w, matchLength (importRule front).ahead (importRule front).items w =
      matchLength (importRule front).ahead (importRule front).items (w ++ lookahead false) := fun w => by
    rw [lookahead, if_neg Bool.false_ne_true, List.append_nil]
  have hnone : ∀ w, (matchLength (importRule front).ahead (importRule front).items w).isNone =
      !taken (importRule front) false w := fun w => by
    rw [hclosed, taken, Option.not_isSome]
  have hcontains : w'.contains '"' = w.contains '"' := by
    rw [Bool.eq_iff_iff, List.contains_iff_mem, List.contains_iff_mem, hquote]
  rw [runs, runs, hcontains, hnone, hnone, htaken, htaken]

end Import

/-- A word that begins with a quote is not taken behind it. -/
theorem not_taken_quote (w : Text) (later : Bool) : ¬ taken importQuoted later ('"' :: w) := by
  intro h
  obtain ⟨d, y, heq, -⟩ := exists_front importQuoted_front h
  exact absurd (List.cons.inj heq).1 (by decide)

theorem taken_importQuoted (w : Text) (later running : Bool) (later' : Bool) :
    taken importQuoted later' (importWord ['"', '-', 'l'] later running w) = taken importQuoted later' w := by
  cases running with
  | true => exact taken_turned importQuoted_front importQuoted_unturned
  | false =>
    by_cases h : taken quotedImport later w
    · obtain ⟨d, y, heq, -⟩ := importWord_taken quotedImport_front h
      obtain ⟨d', y', rfl, -⟩ := exists_front quotedImport_front h
      have hbefore := not_taken_quote ('-' :: 'l' :: d' :: y') later'
      have hafter := not_taken_quote (d :: y) later'
      rw [heq, Bool.eq_false_iff.2 hafter]
      exact (Bool.eq_false_iff.2 hbefore).symm
    · rw [importWord_not_taken h]

theorem taken_color {w : Text} (hw : Word w) {r : Rule Char} (hr : r = quotedImport ∨ r = importQuoted) (later : Bool) :
    taken r later (sub isSpace colorDiagnostics w) = taken r later w := by
  rcases sub_color hw with heq | ⟨rfl, heq⟩
  · rw [heq]
  · rw [heq]
    revert later
    rcases hr with rfl | rfl <;> decide

/-! ## All rules on a word -/

/-- What the rules make of a word, `linkSwitch` apart. -/
def Reading.remake (x : Reading) (later : Bool) (w : Text) : Text :=
  sub isSpace systemLib (sub isSpace bareImport (importWord ['-', 'l', '"'] later x.behind
    (importWord ['"', '-', 'l'] later x.whole (sub isSpace colorDiagnostics w))))

/-- What they make of a text, at the front of which an import may be running. -/
def Reading.remakeText (x : Reading) (u : Text) : Text :=
  sub isSpace systemLib (sub isSpace bareImport (resume importQuoted x.behind
    (resume quotedImport x.whole (sub isSpace colorDiagnostics u))))

theorem sub_local {r : Rule Char} {k : ℤ} (hr : Edits k r) (hlocal : Local isSpace r.ahead r.items) {w u : Text}
    (hw : Word w) (hu : Blank isSpace u) : sub isSpace r (w ++ u) = sub isSpace r w ++ sub isSpace r u :=
  sub_word hr.starts hlocal hr.items hw hu

theorem sub_color_word {w : Text} (hw : Word w) : Word (sub isSpace colorDiagnostics w) := by
  rcases sub_color hw with heq | ⟨-, heq⟩
  · rw [heq]
    exact hw
  · have hplain : ∀ c ∈ "-fcolor-diagnostics".toList, ¬ isSpace c := forall_mem_of_all (by decide)
    rw [heq]
    exact hplain

theorem remake_word {w : Text} (hw : Word w) (x : Reading) (later : Bool) : Word (x.remake later w) :=
  sub_systemLib_word (sub_bareImport_word (importWord_word importQuoted_front
    (importWord_word quotedImport_front (sub_color_word hw) later x.whole) later x.behind))

theorem scan_sub {r : Rule Char} {k : ℤ} (hr : Edits k r) {w : Text} (hw : Word w) (quoted : Bool) :
    scan isSpace '"' quoted (sub isSpace r w) = scan isSpace '"' quoted w := by
  by_cases h : (matchLength r.ahead r.items w).isSome
  · obtain ⟨x, y, rfl, hmatch, -, heq⟩ := sub_some hr hw h
    rw [heq, scan_append, scan_append, hr.scans x hmatch]
  · rw [sub_none hr hw (Option.not_isSome_iff_eq_none.1 h)]

theorem scan_remake {w : Text} (hw : Word w) (x : Reading) (later quoted : Bool) :
    scan isSpace '"' quoted (x.remake later w) = scan isSpace '"' quoted w := by
  have hcolor := sub_color_word hw
  have hwhole := importWord_word quotedImport_front hcolor later x.whole
  have hbehind := importWord_word importQuoted_front hwhole later x.behind
  have hbare := sub_bareImport_word hbehind
  rw [Reading.remake, scan_sub systemLib_edits hbare, scan_sub bareImport_edits hbehind,
    scan_importWord importQuoted_front, scan_importWord quotedImport_front, scan_sub colorDiagnostics_edits hw]

theorem head_resume {front : Text} (hfront : ImportFront front) {running : Bool} {u : Text} (hu : Blank isSpace u) :
    (resume (importRule front) running u).head? = u.head? := by
  cases u with
  | nil => cases running <;> rfl
  | cons c u => rw [resume_blank hfront running (hu c rfl), List.head?_cons, List.head?_cons]

theorem runs_remake {w : Text} (hw : Word w) (x : Reading) (later : Bool) :
    runs quotedImport later x.whole (sub isSpace colorDiagnostics w) = runs quotedImport later x.whole w ∧
      runs importQuoted later x.behind
        (importWord ['"', '-', 'l'] later x.whole (sub isSpace colorDiagnostics w)) =
          runs importQuoted later x.behind w := by
  have hquote : '"' ∈ sub isSpace colorDiagnostics w ↔ '"' ∈ w := colorDiagnostics_edits.quote_mem_sub
  constructor
  · exact runs_congr hquote (fun later' => taken_color hw (.inl rfl) later') later x.whole
  · refine runs_congr ((quote_mem_importWord quotedImport_front).trans hquote) (fun later' => ?_) later x.behind
    exact (taken_importQuoted _ later x.whole later').trans (taken_color hw (.inr rfl) later')

theorem remakeText_word {w u : Text} (hw : Word w) (hu : Blank isSpace u) {later : Bool}
    (hlater : '"' ∈ u ↔ later = true) (x : Reading) :
    x.remakeText (w ++ u) = x.remake later w ++ (x.next later w).remakeText u := by
  have hcolor := sub_color_word hw
  have hwhole := importWord_word quotedImport_front hcolor later x.whole
  have hbehind := importWord_word importQuoted_front hwhole later x.behind
  have hbare := sub_bareImport_word hbehind
  obtain ⟨hruns, hruns'⟩ := runs_remake hw x later
  -- what follows the word begins as before and has a quote or none as before
  set u₁ := sub isSpace colorDiagnostics u
  set u₂ := resume quotedImport (runs quotedImport later x.whole w) u₁
  set u₃ := resume importQuoted (runs importQuoted later x.behind w) u₂
  have hu₁ : Blank isSpace u₁ := hu.congr (colorDiagnostics_edits.head_sub_blank hu)
  have hu₂ : Blank isSpace u₂ := hu₁.congr (head_resume quotedImport_front hu₁)
  have hu₃ : Blank isSpace u₃ := hu₂.congr (head_resume importQuoted_front hu₂)
  have hu₄ := hu₃.congr (bareImport_edits.head_sub_blank hu₃)
  have hlater₁ : '"' ∈ u₁ ↔ later = true := colorDiagnostics_edits.quote_mem_sub.trans hlater
  have hlater₂ : '"' ∈ u₂ ↔ later = true := (quote_mem_resume quotedImport_front _).trans hlater₁
  have hresume : resume quotedImport x.whole (sub isSpace colorDiagnostics w ++ u₁) =
      importWord ['"', '-', 'l'] later x.whole (sub isSpace colorDiagnostics w) ++
        resume quotedImport (runs quotedImport later x.whole (sub isSpace colorDiagnostics w)) u₁ :=
    resume_importRule quotedImport_front hcolor hu₁ hlater₁
  have hresume' : resume importQuoted x.behind
      (importWord ['"', '-', 'l'] later x.whole (sub isSpace colorDiagnostics w) ++ u₂) =
      importWord ['-', 'l', '"'] later x.behind (importWord ['"', '-', 'l'] later x.whole (sub isSpace colorDiagnostics w)) ++
        resume importQuoted (runs importQuoted later x.behind
          (importWord ['"', '-', 'l'] later x.whole (sub isSpace colorDiagnostics w))) u₂ :=
    resume_importRule importQuoted_front hwhole hu₂ hlater₂
  rw [hruns] at hresume
  rw [hruns'] at hresume'
  rw [Reading.remakeText, sub_local colorDiagnostics_edits colorDiagnostics_local hw hu, hresume, hresume',
    sub_local bareImport_edits bareImport_local hbehind hu₃, sub_local systemLib_edits systemLib_local hbare hu₄]
  rfl

theorem remakeText_blank (x : Reading) {c : Char} (hc : isSpace c) (v : Text) :
    x.remakeText (c :: v) = c :: x.remakeText v := by
  have hwhole : ∀ v, resume quotedImport x.whole (c :: v) = c :: resume quotedImport x.whole v :=
    resume_blank quotedImport_front x.whole hc
  have hbehind : ∀ v, resume importQuoted x.behind (c :: v) = c :: resume importQuoted x.behind v :=
    resume_blank importQuoted_front x.behind hc
  rw [Reading.remakeText, sub_blank colorDiagnostics_edits.starts hc, hwhole, hbehind,
    sub_blank bareImport_edits.starts hc, sub_blank systemLib_edits.starts hc]
  rfl

/-! ## The words that stay raw -/

/-- A rule for quotes leaves a word that is no import in its spelling, and turns one that an import runs over. -/
theorem importWord_eq {front : Text} {w : Text} {later running : Bool}
    (h : running = true ∨ ¬ taken (importRule front) later w) :
    importWord front later running w = if running then turned w else w := by
  cases running with
  | true => rfl
  | false => exact importWord_not_taken (h.resolve_left Bool.false_ne_true)

/-- Both rules for quotes on a word: it is an import of which the path is left, or it is turned at most. -/
theorem importWord_importWord (x : Reading) (later : Bool) (w : Text) :
    (¬ x.Imported later (x.word w) ∧
      importWord ['-', 'l', '"'] later x.behind (importWord ['"', '-', 'l'] later x.whole w) = x.word w) ∨
    (x.Imported later (x.word w) ∧ ∃ d y, isLetter d ∧
      importWord ['-', 'l', '"'] later x.behind (importWord ['"', '-', 'l'] later x.whole w) = '"' :: d :: y) := by
  obtain ⟨quoted, whole, behind⟩ := x
  have hturned : taken quotedImport later (turned w) = taken quotedImport later w :=
    taken_turned quotedImport_front quotedImport_unturned
  by_cases hwhole : whole = false ∧ taken quotedImport later w
  · -- the path of an import begins with a quote, so that the second rule does nothing with it
    obtain ⟨rfl, htaken⟩ := hwhole
    obtain ⟨d, y, heq, hd⟩ := importWord_taken quotedImport_front htaken
    have hword : taken quotedImport later (Reading.word ⟨quoted, false, behind⟩ w) := by
      cases behind with
      | false => exact htaken
      | true => exact hturned.trans htaken
    refine .inr ⟨.inl ⟨rfl, hword⟩, d, y, hd, ?_⟩
    rw [heq, importWord_eq (.inr (not_taken_quote _ later)), turned_quote, ite_self]
  · have hfirst : importWord ['"', '-', 'l'] later whole w = if whole then turned w else w := by
      refine importWord_eq ?_
      cases whole with
      | true => exact .inl rfl
      | false => exact .inr fun htaken => hwhole ⟨rfl, htaken⟩
    have hnot : ¬ (whole = false ∧ taken quotedImport later (Reading.word ⟨quoted, whole, behind⟩ w)) := by
      rintro ⟨rfl, htaken⟩
      refine hwhole ⟨rfl, ?_⟩
      cases behind with
      | false => exact htaken
      | true => exact hturned.symm.trans htaken
    rw [hfirst]
    cases behind with
    | true =>
      have hword : turned (if whole then turned w else w) = turned w := by
        split
        · exact turned_turned w
        · rfl
      refine .inl ⟨?_, ?_⟩
      · rintro (h | ⟨h, -⟩)
        · exact hnot h
        · cases h
      · rw [importWord_eq (.inl rfl), if_pos rfl, hword]
        simp [Reading.word]
    | false =>
      have hword : Reading.word ⟨quoted, whole, false⟩ w = if whole then turned w else w := by simp [Reading.word]
      rw [hword] at hnot ⊢
      by_cases htaken : taken importQuoted later (if whole then turned w else w)
      · obtain ⟨d, y, heq, hd⟩ := importWord_taken importQuoted_front htaken
        exact .inr ⟨.inr ⟨rfl, htaken⟩, d, y, hd, heq⟩
      · refine .inl ⟨?_, importWord_not_taken htaken⟩
        rintro (h | ⟨-, h⟩)
        · exact hnot h
        · exact htaken h

/-- A word stays raw if no rule takes it. -/
theorem isRaw_remake {w : Text} (hw : Word w) (x : Reading) (later : Bool) :
    isRaw (x.remake later w) ∧ isSwitch (x.remake later w) = false ↔
      isRaw (x.word w) ∧ ¬ x.Converted later (x.word w) := by
  rcases sub_color hw with hcolor | ⟨rfl, hcolor⟩
  · have hswitch : isSwitch (x.remake later w) = isSwitch (importWord ['-', 'l', '"'] later x.behind
        (importWord ['"', '-', 'l'] later x.whole w)) := by
      rw [Reading.remake, hcolor, systemLib_edits.isSwitch_sub, bareImport_edits.isSwitch_sub]
    have hwhole := importWord_word quotedImport_front hw later x.whole
    have hbehind := importWord_word importQuoted_front hwhole later x.behind
    have hraw : isRaw (x.remake later w) ↔ isRaw (importWord ['-', 'l', '"'] later x.behind
        (importWord ['"', '-', 'l'] later x.whole w)) ∧ ¬ taken bareImport later
          (importWord ['-', 'l', '"'] later x.behind (importWord ['"', '-', 'l'] later x.whole w)) := by
      rw [Reading.remake, hcolor, isRaw_systemLib (sub_bareImport_word hbehind), isRaw_bareImport hbehind]
    rw [hraw, hswitch]
    rcases importWord_importWord x later w with ⟨hnot, heq⟩ | ⟨himport, d, y, hd, heq⟩
    · have hfalse : isSwitch (x.word w) = false ↔ ¬ isSwitch (x.word w) := Bool.eq_false_iff
      rw [heq, hfalse, Reading.Converted, not_or, not_or]
      exact ⟨fun ⟨⟨hr, hb⟩, hs⟩ => ⟨hr, hs, hnot, hb⟩, fun ⟨hr, hs, _, hb⟩ => ⟨⟨hr, hb⟩, hs⟩⟩
    · rw [heq, not_isRaw_quote hd]
      exact iff_of_false (fun h => Bool.false_ne_true h.1.1) fun h => h.2 (.inr (.inl himport))
  · obtain ⟨quoted, whole, behind⟩ := x
    have hflag : ∀ whole behind later, isRaw (Reading.remake ⟨false, whole, behind⟩ later "--color-diagnostics".toList) =
        false ∧ isRaw (Reading.word ⟨false, whole, behind⟩ "--color-diagnostics".toList) = false := by decide
    obtain ⟨hbefore, hafter⟩ := hflag whole behind later
    refine iff_of_false (fun h => ?_) fun h => ?_
    · exact absurd h.1 (Bool.eq_false_iff.1 hbefore)
    · exact absurd h.1 (Bool.eq_false_iff.1 hafter)

/-! ## The rule that splits a switch -/

theorem sub_linkSwitch_word {w u : Text} (hw : Word w) (hu : Blank isSpace u) :
    sub isSpace linkSwitch (w ++ u) =
      (if isSwitch w then "-Xlinker -Xlink=/".toList ++ w.tail else w) ++ sub isSpace linkSwitch u := by
  have hmatch := linkSwitch_match (w ++ u)
  rw [isSwitch_append hu] at hmatch
  split
  next h =>
    rw [if_pos h] at hmatch
    have hlength : 0 + 1 ≤ w.length := by
      rcases w with _ | ⟨c, w⟩
      · cases h
      · exact Nat.succ_le_succ (Nat.zero_le _)
    rw [sub_word_of_some linkSwitch_starts hw hu hmatch hlength, List.drop_one]
    rfl
  next h =>
    rw [if_neg h] at hmatch
    exact sub_word_of_none linkSwitch_starts hw hu hmatch

theorem search_switch {blank : Bool} {c : Char} {t : Text} : search isSpace (fun _ => true) switchItems blank (c :: t) =
    (blank && isSwitch (c :: t) || search isSpace (fun _ => true) switchItems (isSpace c) t) := by
  have hmatch : (matchLength (fun _ => true) switchItems (c :: t)).isSome = isSwitch (c :: t) := by
    by_cases hc : c = '/'
    · subst hc
      rcases t with _ | ⟨d, t⟩
      · rfl
      · by_cases hd : isLetter d
        · simp [switchItems, matchLength, isSwitch, hd]
        · simp [switchItems, matchLength, isSwitch, hd]
    · rw [isSwitch_of_head (by simpa using hc)]
      simp [switchItems, matchLength, hc]
  rw [search, hmatch]

/-- Nothing is found in front of an equals sign if there is no slash. -/
theorem search_equals {t : Text} : ∀ {a : Text} {blank : Bool}, (∀ c ∈ a, c ≠ '/') →
    search isSpace (fun _ => true) switchItems blank (a ++ '=' :: t) =
      search isSpace (fun _ => true) switchItems false t
  | [], blank, _ => by
    rw [List.nil_append, search_switch, isSwitch_of_head (by simp), Bool.and_false, Bool.false_or]
    rfl
  | c :: a, blank, ha => by
    have hc : (c :: (a ++ '=' :: t)).head? ≠ some '/' := by simpa using ha c (.head _)
    rw [List.cons_append, search_switch, isSwitch_of_head hc, Bool.and_false, Bool.false_or,
      search_equals fun d hd => ha d (.tail _ hd)]

theorem search_linkSwitch : ∀ (t : Text) (blank : Bool),
    search isSpace (fun _ => true) switchItems blank (subFrom isSpace linkSwitch blank 0 t) = false
  | [], _ => rfl
  | c :: t, blank => by
    have ih := search_linkSwitch t (isSpace c)
    by_cases h : blank = true → isSwitch (c :: t) = false
    · rw [subFrom_linkSwitch_none h, search_switch, ih, Bool.or_false, Bool.and_eq_false_imp]
      intro hblank
      by_cases hc : c = '/'
      · -- behind the slash the text goes on as before
        subst hc
        have hnot := h hblank
        rcases t with _ | ⟨d, t⟩
        · rfl
        · rwa [subFrom_linkSwitch_none fun h => absurd h (by decide)]
      · exact isSwitch_of_head (by simpa using hc)
    · obtain ⟨rfl, h⟩ := Classical.not_imp.1 h
      have h : isSwitch (c :: t) = true := by simpa using h
      obtain rfl : c = '/' := by
        by_contra hslash
        rw [isSwitch_of_head (by simpa using hslash)] at h
        cases h
      have hsplit : "-Xlinker -Xlink=/".toList = "-Xlinker -Xlink".toList ++ '=' :: ['/'] := by decide
      have hprefix : ∀ c ∈ "-Xlinker -Xlink".toList, c ≠ '/' := forall_mem_of_all (by decide)
      rw [subFrom_linkSwitch_some h, hsplit, List.append_assoc, List.cons_append, search_equals hprefix,
        List.singleton_append, search_switch, ih]
      rfl

/-- The search of the run never finds a switch. -/
theorem hasSwitch_linkSwitch (s : Text) : hasSwitch (sub isSpace linkSwitch s) = false := search_linkSwitch s true

/-! ## The whole text -/

theorem rawFront_blank {quoted : Bool} {c : Char} (hc : isSpace c) (v : Text) :
    RawFront quoted (words (c :: v)) ↔ RawFront quoted (words v) := by
  have hnil : Word [] := fun c hc => absurd hc List.not_mem_nil
  have hwords : words ([] ++ c :: v) = [] :: words v := words_append hnil hc
  rw [List.nil_append] at hwords
  rw [hwords, RawFront, isRaw_nil]
  simp

theorem rawFront_append {w v : Text} (hw : Word w) (hv : Blank isSpace v) (quoted : Bool) :
    RawFront quoted (words (w ++ v)) ↔ quoted = false ∧ isRaw w ∨ RawFront (w.foldl (toggle '"') quoted) (words v) := by
  cases v with
  | nil =>
    have hnil : words [] = [[]] := words_word fun c hc => absurd hc List.not_mem_nil
    rw [List.append_nil, words_word hw, hnil, RawFront, RawFront, RawFront, RawFront, isRaw_nil]
    simp
  | cons c v =>
    have hc : isSpace c := hv c rfl
    rw [words_append hw hc, RawFront, rawFront_blank hc]

/-- Of a switch, neither of its two words is raw. -/
theorem rawFront_linkSwitch {w v : Text} (hw : Word w) (hv : Blank isSpace v) (quoted : Bool) :
    RawFront quoted (words ((if isSwitch w then "-Xlinker -Xlink=/".toList ++ w.tail else w) ++ v)) ↔
      quoted = false ∧ isRaw w ∧ isSwitch w = false ∨ RawFront (w.foldl (toggle '"') quoted) (words v) := by
  by_cases h : isSwitch w
  · obtain ⟨w, rfl⟩ : ∃ w', w = '/' :: w' := by
      unfold isSwitch at h
      split at h
      · exact ⟨_, rfl⟩
      · cases h
    have hsplit : "-Xlinker -Xlink=/".toList = "-Xlinker".toList ++ ' ' :: "-Xlink=/".toList := by decide
    have hxlinker : Word "-Xlinker".toList := by
      have hall : ∀ c ∈ "-Xlinker".toList, ¬ isSpace c := forall_mem_of_all (by decide)
      exact hall
    have hxlink : Word ("-Xlink=/".toList ++ w) := by
      have hall : ∀ c ∈ "-Xlink=/".toList, ¬ isSpace c := forall_mem_of_all (by decide)
      exact Word.append.2 ⟨hall, (Word.cons.1 hw).2⟩
    have hraw : isRaw "-Xlinker".toList = false := by decide
    have hraw' : isRaw ("-Xlink=/".toList ++ w) = false := by
      have hhead : "-Xlink=/".toList = '-' :: 'X' :: "link=/".toList := by decide
      rw [hhead]
      by_contra hraw
      rw [Bool.not_eq_false, isRaw, Bool.or_eq_true, List.cons_append, List.cons_append, unquoted_cons (by decide),
        unquoted_cons (by decide)] at hraw
      rcases hraw with hraw | hraw
      · obtain ⟨d, y, heq, -⟩ := isDriveImport_iff.1 hraw
        exact absurd (List.cons.inj (List.cons.inj heq).2).1 (by decide)
      · cases hraw
    have hquotes : "-Xlinker".toList.foldl (toggle '"') quoted = quoted := by
      revert quoted
      decide
    have hquotes' : ("-Xlink=/".toList ++ w).foldl (toggle '"') quoted = ('/' :: w).foldl (toggle '"') quoted := by
      have hprefix : ∀ quoted, "-Xlink=/".toList.foldl (toggle '"') quoted = quoted := by decide
      rw [List.foldl_append, hprefix]
      rfl
    rw [if_pos h, List.tail_cons, hsplit, List.append_assoc, List.append_assoc, List.cons_append, ← List.append_assoc,
      rawFront_append hxlinker (blank_cons (by decide)), hquotes, rawFront_blank (by decide),
      rawFront_append hxlink hv, hquotes', hraw, hraw', h]
    simp
  · have hfalse : isSwitch w = false := by simpa using h
    rw [if_neg h, rawFront_append hw hv, hfalse]
    simp

theorem rawFront_remakeText (s : Text) : ∀ x : Reading,
    RawFront x.quoted (words (sub isSpace linkSwitch (x.remakeText s))) ↔ ¬ Converts x (words s) := by
  have hnil : ∀ x : Reading, x.remakeText [] = [] := by
    rintro ⟨quoted, whole, behind⟩
    cases whole <;> cases behind <;> rfl
  -- what the rules make of a word keeps its quotes, and stays raw if no rule takes it
  have hstep : ∀ {w : Text}, Word w → ∀ (x : Reading) (later : Bool) (P : Prop),
      x.quoted = false ∧ isRaw (x.remake later w) ∧ isSwitch (x.remake later w) = false ∨ ¬ P ↔
        ¬ ((x.quoted = false → isRaw (x.word w) → x.Converted later (x.word w)) ∧ P) := by
    intro w hw x later P
    rw [isRaw_remake hw x later]
    tauto
  have hquotes : ∀ {w : Text}, Word w → ∀ (x : Reading) (later : Bool),
      (x.remake later w).foldl (toggle '"') x.quoted = (x.next later w).quoted := fun hw x later =>
    foldl_toggle_eq hw (remake_word hw x later) (scan_remake hw x later x.quoted)
  induction s using word_induction isSpace with
  | last w hw =>
    intro x
    have hlater : '"' ∈ ([] : Text) ↔ false = true := by simp
    have htext := remakeText_word hw blank_nil hlater x
    rw [List.append_nil] at htext
    have hword := remake_word hw x false
    have hfront : ∀ quoted, RawFront quoted (words []) ↔ ¬ Converts (x.next false w) [] := by
      intro quoted
      have hwords : words [] = [[]] := words_word fun c hc => absurd hc List.not_mem_nil
      rw [hwords, RawFront, RawFront, isRaw_nil, Converts]
      simp
    have hempty : sub isSpace linkSwitch [] = [] := rfl
    rw [htext, hnil, sub_linkSwitch_word hword blank_nil, hempty, rawFront_linkSwitch hword blank_nil, hfront, hstep hw,
      words_word hw]
    rfl
  | more w c v hw hc ih =>
    intro x
    have hlater : '"' ∈ c :: v ↔ (words v).any (·.contains '"') = true := by
      have hne : '"' ≠ c := by
        rintro rfl
        exact absurd hc (by decide)
      rw [mem_words_quote, decide_eq_true_iff, List.mem_cons, or_iff_right hne]
    have htext := remakeText_word hw (blank_cons hc) hlater x
    set later := (words v).any (·.contains '"') with hdef
    have hword := remake_word hw x later
    have hblank := remakeText_blank (x.next later w) hc v
    rw [htext, hblank, sub_linkSwitch_word hword (blank_cons hc), sub_blank linkSwitch_starts hc,
      rawFront_linkSwitch hword (blank_cons hc), rawFront_blank hc, hquotes hw, ih, hstep hw, words_append hw hc]
    rfl

theorem rejects_error {s : Text} {strError : String} (h : translateLinkResponse s = .error strError) {world : World}
    {argv : List String} (hreads : Reads world argv s) : Rejects world argv := by
  obtain ⟨strInput, hinput, hread⟩ := hreads
  rcases argv with _ | ⟨a, _ | ⟨b, _ | ⟨c, _ | ⟨d, flags⟩⟩⟩⟩
  · cases hinput
  · cases hinput
  · cases hinput
  · cases hinput
  · obtain rfl : d = strInput := by simpa using hinput
    cases flags with
    | nil => exact ⟨_, rfl⟩
    | cons flag flags => exact ⟨_, by simp only [runLinkResponse, hread, h]; rfl⟩

/-- A text that is not translated is rejected. In the translation of a text nothing raw is left if and only if every
token that is raw without its quotes is written such that a rule takes it. -/
theorem translates_iff (s : Text) :
    (∀ strError, translateLinkResponse s = .error strError →
      ∀ world argv, Reads world argv s → Rejects world argv) ∧
    ∀ r, translateLinkResponse s = .ok r → (Translates s r ↔ Converts .start (words s)) := by
  refine ⟨fun strError h world argv hreads => rejects_error h hreads, fun r h => ?_⟩
  have htext : r = sub isSpace linkSwitch (Reading.start.remakeText s) := translateLinkResponse_ok h
  have hraw : (∃ t ∈ linkTokens r, isRaw t) ↔ ¬ Converts .start (words s) := by
    rw [exists_raw, htext]
    exact rawFront_remakeText s .start
  constructor
  · intro htranslates
    by_contra hnot
    obtain ⟨t, ht, hraw⟩ := hraw.2 hnot
    exact htranslates.tokens t ht hraw
  · intro hconverts
    have hnone : ¬ ∃ t ∈ linkTokens r, isRaw t := fun hex => hraw.1 hex hconverts
    refine ⟨fun t ht hraw => hnone ⟨t, ht, hraw⟩, ?_, fun hex => absurd hex hnone⟩
    rw [htext]
    exact hasSwitch_linkSwitch _

/-- An import in quotes whose path is relative to its drive. Without the quotes, it is refused. -/
def quotedDriveImport : Text := "\"-lC:foo.lib\"".toList

/-- A run whose response file is this import. -/
def quotedDriveWorld : World where
  path strPath := strPath
  read _ := .ok quotedDriveImport
  write _ _ := .ok ()
  call _ := .ok 0

def quotedDriveRun : List String := ["gn_argument_adapter.py", "--link-rsp", "bcc64x", "a.rsp", "-o"]

/-- The import passes through the translation and reaches the compiler. -/
theorem quotedDriveImport_survives : translateLinkResponse quotedDriveImport = .ok quotedDriveImport ∧
    linkTokens quotedDriveImport = [quotedDriveImport] ∧ isRaw quotedDriveImport ∧
    Reads quotedDriveWorld quotedDriveRun quotedDriveImport ∧
    runLinkResponse quotedDriveWorld quotedDriveRun =
      ([.write "a.rsp.bcc64x" quotedDriveImport, .start ["bcc64x", "-o", "@a.rsp.bcc64x"]], .ok 0) ∧
    ¬ Translates quotedDriveImport quotedDriveImport ∧
    translateLinkResponse (unquoted quotedDriveImport) = .error "unhandled drive-qualified GN import-library path" := by
  have htranslate : translateLinkResponse quotedDriveImport = .ok quotedDriveImport := by decide
  have htokens : linkTokens quotedDriveImport = [quotedDriveImport] := by decide
  have hraw : isRaw quotedDriveImport := by decide
  refine ⟨htranslate, htokens, hraw, ⟨"a.rsp", rfl, rfl⟩, by decide, fun h => ?_, by decide⟩
  exact h.tokens quotedDriveImport (htokens ▸ .head _) hraw

/-- A quote that ends a token begins an import that runs on and takes the quote of the next one. -/
example : ¬ Converts .start (words "\"x \"-lC:/y \"-lD:/foo\"".toList) := by decide

end BuildEngine.Adapter
