/-
The substitutions of `translateLinkResponse` translate a response file token by token if and only if its tokens are
clean. A token that is not comes out heavier than what it stands for.
-/
import BuildEngine.Adapter.Spellings

namespace BuildEngine.Adapter

open Base.Regex Base.Tokens

/-! ## The switches of a text -/

/-- The tokens that `linkSwitch` leaves of a token. -/
def splitSwitch (t : Text) : List Text :=
  if isSwitch t then ["-Xlinker".toList, "-Xlink=".toList ++ inner t] else [inner t]

theorem head_linkSwitch_blank {u : Text} (hu : Blank isSpace u) : (sub isSpace linkSwitch u).head? = u.head? := by
  cases u with
  | nil => rfl
  | cons c u =>
    rw [sub_blank linkSwitch_starts (hu c rfl), List.head?_cons, List.head?_cons]

theorem inner_token {t : Text} {quoted : Bool} (ht : IsToken isSpace '"' t quoted) :
    scan isSpace '"' false (inner t) = some quoted ∧ weigh t ≤ weigh (inner t) ∧
      (¬ Quiet isSpace linkSwitch false t [] → weigh t < weigh (inner t)) :=
  subFrom_linkSwitch_scan ht.2 fun h => Bool.noConfusion h

theorem inner_of_quiet {t : Text} (h : Quiet isSpace linkSwitch false t []) : inner t = t := by
  obtain ⟨blank', heq⟩ := h.subFrom_append
  rwa [List.append_nil, subFrom, List.append_nil] at heq

theorem linkTokens_linkSwitch {t u : Text} {quoted : Bool} (ht : IsToken isSpace '"' t quoted)
    (hu : Follows isSpace quoted u) :
    linkTokens (sub isSpace linkSwitch (t ++ u)) = splitSwitch t ++ linkTokens (sub isSpace linkSwitch u) := by
  have hscan := (inner_token ht).1
  have hfollows := hu.congr (head_linkSwitch_blank hu.blank)
  obtain ⟨c, t, rfl⟩ := List.exists_cons_of_ne_nil ht.1
  have hinner : inner (c :: t) = c :: subFrom isSpace linkSwitch (isSpace c) 0 t :=
    subFrom_linkSwitch_none fun h => Bool.noConfusion h
  rw [sub, subFrom_linkSwitch_append hu.blank, splitSwitch]
  split
  next hswitch =>
    obtain rfl : c = '/' := by
      by_contra hslash
      rw [isSwitch_of_head (by simpa using hslash)] at hswitch
      cases hswitch
    -- the second token begins where the replacement has its blank
    have hxlinker : IsToken isSpace '"' "-Xlinker".toList false := by
      refine ⟨?_, ?_⟩ <;> decide
    have hxlink : IsToken isSpace '"' ("-Xlink=".toList ++ inner ('/' :: t)) quoted := by
      have hprefix : scan isSpace '"' false "-Xlink=".toList = some false := by decide
      refine ⟨List.append_ne_nil_of_left_ne_nil (by decide) _, ?_⟩
      rw [scan_append, hprefix, Option.bind_some, hscan]
    have hsplit : "-Xlinker -Xlink=/".toList = "-Xlinker".toList ++ ' ' :: ("-Xlink=".toList ++ ['/']) := by
      decide
    have htext : subFrom isSpace linkSwitch true 0 ('/' :: t) ++ sub isSpace linkSwitch u =
        "-Xlinker".toList ++ ' ' :: ("-Xlink=".toList ++ inner ('/' :: t) ++ sub isSpace linkSwitch u) := by
      rw [subFrom_linkSwitch_some hswitch, hinner, hsplit]
      simp
    rw [htext, linkTokens, tokens_append hxlinker (.inr ⟨rfl, ' ', _, rfl, rfl⟩), tokens_blank (by decide),
      tokens_append hxlink hfollows]
    rfl
  next hswitch =>
    have htoken : IsToken isSpace '"' (inner (c :: t)) quoted := ⟨by rw [hinner]; exact List.cons_ne_nil _ _, hscan⟩
    rw [subFrom_linkSwitch_none fun _ => by simpa using hswitch, ← hinner, linkTokens, tokens_append htoken hfollows]
    rfl

/-! ## One token -/

/-- A token that is neither renamed nor an import. -/
def keepToken (t : Text) : List Text :=
  if isSwitch t then ["-Xlinker".toList, "-Xlink=".toList ++ t] else [t]

theorem keepToken_of_not_switch {t : Text} (h : isSwitch t = false) : keepToken t = [t] := by
  rw [keepToken, h]
  rfl

theorem splitSwitch_of_inner {t : Text} (h : inner t = t) : splitSwitch t = keepToken t := by
  rw [splitSwitch, keepToken, h]

theorem length_splitSwitch (t : Text) : (splitSwitch t).length = (keepToken t).length := by
  unfold splitSwitch keepToken
  split <;> rfl

theorem length_keepToken {t t' : Text} (h : isSwitch t' = isSwitch t) :
    (keepToken t').length = (keepToken t).length := by
  rw [keepToken, keepToken, h]
  split <;> rfl

/-- A token that has become heavier is not kept. -/
theorem splitSwitch_ne {t t' : Text} (hswitch : isSwitch t' = isSwitch t) (h : weigh t < weigh (inner t')) :
    splitSwitch t' ≠ keepToken t := by
  have hne : inner t' ≠ t := by
    rintro rfl
    exact absurd h (lt_irrefl _)
  rw [splitSwitch, keepToken, hswitch]
  split
  · intro heq
    exact hne (List.append_cancel_left (List.cons.inj (List.cons.inj heq).2).1)
  · intro heq
    exact hne (List.cons.inj heq).1

/-- What the rules make of the token `t` in front of `u`. -/
structure Result (rs : List (Rule Char)) (t u t' u' : Text) : Prop where
  text : passes rs (t ++ u) = t' ++ u'
  ends : u'.head? = u.head?
  scans : scan isSpace '"' false t' = scan isSpace '"' false t

section Result

variable {rs : List (Rule Char)} (hrs : ∀ r ∈ rs, Edits 1 r ∧ Shortsighted r) {t u t' u' : Text} {quoted : Bool}
  (ht : IsToken isSpace '"' t quoted) (hu : Follows isSpace quoted u)

theorem IsToken.head (ht : IsToken isSpace '"' t quoted) : ∃ c ∈ t.head?, ¬ isSpace c := by
  obtain ⟨hne, hscan⟩ := ht
  obtain ⟨c, t, rfl⟩ := List.exists_cons_of_ne_nil hne
  refine ⟨c, rfl, fun hc => ?_⟩
  rw [scan, if_pos (by simpa using hc)] at hscan
  cases hscan

include hrs ht hu

theorem Result.isToken (h : Result rs t u t' u') : IsToken isSpace '"' t' quoted := by
  refine ⟨?_, h.scans.trans ht.2⟩
  rintro rfl
  have hhead : ∃ c ∈ (passes rs (t ++ u)).head?, ¬ isSpace c := by
    refine head_passes (fun r hr => (hrs r hr).1) ?_
    rw [List.head?_append_of_ne_nil _ ht.1]
    exact IsToken.head ht
  obtain ⟨c, hc, hspace⟩ := hhead
  rw [h.text, List.nil_append, h.ends] at hc
  exact hspace (hu.blank c hc)

omit ht in
theorem Result.isSwitch (h : Result rs t u t' u') : isSwitch t' = isSwitch t := by
  have hpasses := isSwitch_passes (fun r hr => (hrs r hr).1) (t ++ u)
  have hu' : Blank isSpace u' := Blank.congr hu.blank h.ends
  rwa [h.text, isSwitch_append hu', isSwitch_append hu.blank] at hpasses

/-- The token stays as it is if no rule matches in it, and becomes heavier if one does. -/
theorem result_untouched_or_heavier (later : Bool) (hlater : '"' ∈ u ↔ later = true) :
    ∃ t' u', Result rs t u t' u' ∧ weigh t ≤ weigh (inner t') ∧
      (Untouched rs later t → t' = t ∧ u' = passes rs u ∧ inner t = t) ∧
      (¬ Untouched rs later t → weigh t < weigh (inner t')) := by
  have hedits : ∀ r ∈ rs, Edits 1 r := fun r hr => (hrs r hr).1
  have hquiet := quietAll_lookahead hrs hu.blank hlater (t := t)
  have hswitch : Quiet isSpace linkSwitch false t (lookahead later) ↔ Quiet isSpace linkSwitch false t [] :=
    quiet_local linkSwitch_local (blank_lookahead later)
  obtain ⟨-, hgrows, hgain⟩ := inner_token ht
  rw [Untouched, ← hquiet, hswitch]
  by_cases hall : QuietAll rs t u
  · have hresult : Result rs t u t (passes rs u) :=
      ⟨passes_quiet hedits hu.blank hall, head_passes_blank hedits hu.blank, rfl⟩
    refine ⟨t, passes rs u, hresult, hgrows, fun h => ⟨rfl, rfl, inner_of_quiet h.2⟩, fun h => ?_⟩
    exact hgain fun hlocal => h ⟨hall, hlocal⟩
  · obtain ⟨t', u', htext, hedit, hheavier⟩ := passes_heavier hedits hu.blank hall
    have hresult : Result rs t u t' u' := ⟨htext, hedit.ends, hedit.scans false⟩
    have hgrows' := (inner_token (hresult.isToken hrs ht hu)).2.1
    exact ⟨t', u', hresult, by omega, fun h => absurd h.1 hall, fun _ => by omega⟩

end Result

/-! ## The translation of a token -/

theorem translateToken_import {t path : Text} (h : importPath t = some path) : translateToken t = [path] := by
  have hne : t ≠ "--color-diagnostics".toList := by
    rintro rfl
    have hnone : importPath "--color-diagnostics".toList = none := by decide
    rw [hnone] at h
    cases h
  rw [translateToken, if_neg hne, h]

theorem translateToken_keep {t : Text} (hcolor : t ≠ "--color-diagnostics".toList) (himport : importPath t = none)
    (hlib : systemLibName t = none) : translateToken t = keepToken t := by
  rw [translateToken, if_neg hcolor, himport, hlib]
  rfl

/-- A word that is not a switch passes `linkSwitch`. -/
theorem splitSwitch_word {t : Text} (ht : ∀ c ∈ t, ¬ isSpace c) (hhead : t.head? ≠ some '/') : splitSwitch t = [t] := by
  rw [splitSwitch_of_inner (inner_of_quiet (quiet_word ht)), keepToken_of_not_switch (isSwitch_of_head hhead)]

section Step

variable {t u : Text} {quoted : Bool} (ht : IsToken isSpace '"' t quoted) (hu : Follows isSpace quoted u)

variable (t u) in
/-- The token comes out as its translation if and only if it is clean, and then the text behind it is on its own. -/
def Exact : Prop := ∃ t' u', Result editRules t u t' u' ∧ (translateToken t).length = (keepToken t).length ∧
  (splitSwitch t' = translateToken t ↔ CleanToken (decide ('"' ∈ u)) t) ∧
  (CleanToken (decide ('"' ∈ u)) t → u' = passes editRules u)

include hu

theorem exact_colorDiagnostics : Exact "--color-diagnostics".toList u := by
  have himport : importPath "--color-diagnostics".toList = none := by decide
  have hsplit : splitSwitch "-fcolor-diagnostics".toList = translateToken "--color-diagnostics".toList := by
    decide
  have hscan : scan isSpace '"' false "-fcolor-diagnostics".toList =
      scan isSpace '"' false "--color-diagnostics".toList := by decide
  have hclean : CleanToken (decide ('"' ∈ u)) "--color-diagnostics".toList := by
    rw [CleanToken, himport]
    exact .inl rfl
  have hends := head_passes_blank (fun r hr => (editRules_sound r hr).1) hu.blank
  exact ⟨_, _, ⟨passes_colorDiagnostics hu.blank, hends, hscan⟩, by decide, iff_of_true hsplit hclean,
    fun _ => rfl⟩

theorem exact_systemLib {name : Text} (himport : importPath t = none) (hlib : systemLibName t = some name) :
    Exact t u := by
  obtain ⟨n, rfl, hne, hn, rfl⟩ := systemLibName_eq_some hlib
  have hplain : ∀ c ∈ n, Plain c := fun c hc => plain_of_nameChar (by simp [isNameCharAnyCase, hn c hc])
  have hname : ∀ c ∈ '-' :: 'l' :: n, Plain c := by
    simp only [List.mem_cons]
    rintro c (rfl | rfl | hc)
    · decide
    · decide
    · exact hplain c hc
  have htoken : ∀ c ∈ '-' :: 'l' :: (n ++ dotLib), Plain c := by
    intro c hc
    rcases List.mem_append.1 (show c ∈ '-' :: 'l' :: n ++ dotLib from hc) with hc | hc
    · exact hname c hc
    · have hdot : ∀ c ∈ dotLib, Plain c := forall_mem_of_all (by decide)
      exact hdot c hc
  have hcolor : '-' :: 'l' :: (n ++ dotLib) ≠ "--color-diagnostics".toList := by
    rintro heq
    have hliteral : "--color-diagnostics".toList = '-' :: '-' :: "color-diagnostics".toList := by decide
    rw [hliteral] at heq
    exact absurd (List.cons.inj (List.cons.inj heq).2).1 (by decide)
  have htranslate : translateToken ('-' :: 'l' :: (n ++ dotLib)) = ['-' :: 'l' :: n] := by
    rw [translateToken, if_neg hcolor, himport, hlib]
  have hclean : CleanToken (decide ('"' ∈ u)) ('-' :: 'l' :: (n ++ dotLib)) := by
    rw [CleanToken, himport]
    exact .inr (.inl (by rw [hlib]; rfl))
  have hsplit : splitSwitch ('-' :: 'l' :: n) = ['-' :: 'l' :: n] :=
    splitSwitch_word (fun c hc => (hname c hc).1) (by simp)
  have hends := head_passes_blank (fun r hr => (editRules_sound r hr).1) hu.blank
  refine ⟨_, _, ⟨passes_systemLib hu.blank hne hn, hends, ?_⟩, ?_, ?_, fun _ => rfl⟩
  · rw [scan_plain hname, scan_plain htoken]
  · rw [htranslate, keepToken_of_not_switch (isSwitch_of_head (by simp))]
    rfl
  · exact iff_of_true (hsplit.trans htranslate.symm) hclean

include ht

theorem exact_bareImport {p : Text} (hp : isDrivePath p) (hform : t = '-' :: 'l' :: p)
    (hpath : importPath t = some (fullLibPath p)) : Exact t u := by
  subst hform
  have hquote : '"' ∉ '-' :: 'l' :: p := by
    simp only [List.mem_cons]
    rintro (h | h | h)
    · exact absurd h (by decide)
    · exact absurd h (by decide)
    · exact isDrivePath_quote hp _ h rfl
  obtain ⟨hword, -⟩ := scan_unquoted hquote ht.2
  have htoken : ∀ c ∈ '-' :: 'l' :: p, Plain c := by
    rintro c hc
    refine ⟨hword c hc, ?_⟩
    rintro rfl
    exact hquote hc
  have hplain : ∀ c ∈ p, Plain c := fun c hc => htoken c (by simp [hc])
  have hpathPlain := fullLibPath_plain hplain
  obtain ⟨d, q, hd, hletter⟩ : ∃ d q, fullLibPath p = d :: q ∧ isLetter d := by
    obtain ⟨d, s, p, rfl, hd, -⟩ := isDrivePath_iff.1 hp
    exact ⟨d, _, fullLibPath_letter hd _, hd⟩
  have hdash : d ≠ '-' := by
    rintro rfl
    exact absurd hletter (by decide)
  have hpathWord : ∀ c ∈ d :: q, ¬ isSpace c := fun c hc => (hpathPlain c (hd ▸ hc)).1
  have hclean : CleanToken (decide ('"' ∈ u)) ('-' :: 'l' :: p) := by
    rw [CleanToken, hpath]
    refine ⟨quiet_word_front hword (colorDiagnostics_none (by decide)), ?_, ?_⟩
    · rw [hd]
      simp only [List.mem_cons, List.not_mem_nil, or_false]
      rintro r (rfl | rfl)
      · exact quiet_word_front hpathWord (if_neg (by simpa using hdash))
      · exact quiet_word_front hpathWord (if_neg (by simpa using hdash))
    · rw [hd]
      exact quiet_word hpathWord
  have hsplit : splitSwitch (fullLibPath p) = [fullLibPath p] := by
    rw [hd]
    exact splitSwitch_word hpathWord (by simpa using letter_ne_slash hletter)
  have hends := head_passes_blank (fun r hr => (editRules_sound r hr).1) hu.blank
  refine ⟨_, _, ⟨passes_bareImport hu.blank hp hplain, hends, ?_⟩, ?_, ?_, fun _ => rfl⟩
  · rw [scan_plain hpathPlain, scan_plain htoken]
  · rw [translateToken_import hpath, keepToken_of_not_switch (isSwitch_of_head (by simp))]
    rfl
  · exact iff_of_true (hsplit.trans (translateToken_import hpath).symm) hclean

/-- The import of a quoted path, whose path is heavier than the import by no more than one. -/
theorem exact_quotedImport {p : Text} (hp : isDrivePath p)
    (hform : t = ['"', '-', 'l'] ++ (p ++ ['"']) ∨ t = ['-', 'l', '"'] ++ (p ++ ['"']))
    (hpath : importPath t = some ('"' :: fullLibPath p ++ ['"'])) : Exact t u := by
  obtain ⟨front, hfront, heq⟩ : ∃ front, ImportFront front ∧ t = front ++ (p ++ ['"']) := by
    rcases hform with rfl | rfl
    · exact ⟨_, quotedImport_front, rfl⟩
    · exact ⟨_, importQuoted_front, rfl⟩
  have hscan : scan isSpace '"' false ('"' :: fullLibPath p ++ ['"']) = scan isSpace '"' false t := by
    rw [heq, hfront.scan_replaced]
  have hweigh : weigh ('"' :: fullLibPath p ++ ['"']) = weigh t + 1 := by
    have hquote : weight '"' = 0 := by decide
    rw [heq]
    simp only [weigh_append, weigh_cons, weigh_fullLibPath, hfront.weighs, hquote, weigh_nil]
    omega
  have hswitch : isSwitch ('"' :: fullLibPath p ++ ['"']) = false := isSwitch_of_head (by simp)
  have hswitch' : isSwitch t = false := by
    rw [heq, isSwitch_of_head]
    rw [List.head?_append_of_ne_nil _ hfront.ne_nil]
    exact hfront.head
  set path := '"' :: fullLibPath p ++ ['"'] with hdef
  have hclean : CleanToken (decide ('"' ∈ u)) t ↔
      Quiet isSpace colorDiagnostics true t (lookahead (decide ('"' ∈ u))) ∧
        Untouched [bareImport, systemLib] (decide ('"' ∈ u)) path := by
    rw [CleanToken, hpath]
  rw [Exact, hclean, translateToken_import hpath, keepToken_of_not_switch hswitch', ← keepToken_of_not_switch hswitch]
  by_cases hcolor : Quiet isSpace colorDiagnostics true t (lookahead (decide ('"' ∈ u)))
  · -- the import has become its path, and the rules behind those of the quoted imports are left
    have htext := passes_quotedImport hu.blank hp hform hcolor
    have hsound : ∀ r ∈ quotedRules, Edits 1 r := by
      intro r hr
      exact (editRules_sound r (List.mem_append_left [bareImport, systemLib] hr)).1
    have hsound' : ∀ r ∈ [bareImport, systemLib], Edits 1 r ∧ Shortsighted r := fun r hr =>
      editRules_sound r (List.mem_append_right quotedRules hr)
    have hends := head_passes_blank hsound hu.blank
    have hpathToken : IsToken isSpace '"' path quoted := ⟨List.cons_ne_nil _ _, hscan.trans ht.2⟩
    have hlater : '"' ∈ passes quotedRules u ↔ decide ('"' ∈ u) = true := by
      rw [quote_mem_passes hsound, decide_eq_true_iff]
    obtain ⟨t', u', hresult, -, huntouched, hheavier⟩ :=
      result_untouched_or_heavier hsound' hpathToken (hu.congr hends) _ hlater
    refine ⟨t', u', ⟨?_, hresult.ends.trans hends, hresult.scans.trans hscan⟩, rfl, ⟨fun heq => ⟨hcolor, ?_⟩, ?_⟩, ?_⟩
    · rw [← hresult.text, ← htext]
      exact passes_append quotedRules [bareImport, systemLib] (t ++ u)
    · by_contra hnot
      exact splitSwitch_ne (hresult.isSwitch hsound' (hu.congr hends)) (hheavier hnot) heq
    · rintro ⟨-, h⟩
      obtain ⟨rfl, -, hinner⟩ := huntouched h
      exact splitSwitch_of_inner hinner
    · rintro ⟨-, h⟩
      rw [(huntouched h).2.1]
      exact (passes_append quotedRules [bareImport, systemLib] u).symm
  · -- the flag in the path makes the token heavier than the path
    have hquiet : ¬ Quiet isSpace colorDiagnostics true t u := by
      rwa [Local.shortsighted colorDiagnostics_local hu.blank (blank_lookahead (decide ('"' ∈ u)))
        (by rw [quote_mem_lookahead, decide_eq_true_iff])]
    obtain ⟨t₁, u₁, htext₁, hedit₁, hgain⟩ := colorDiagnostics_edits.sub_append (by decide) hu.blank (t := t)
    have hsound : ∀ r ∈ [quotedImport, importQuoted, bareImport, systemLib], Edits 1 r := fun r hr =>
      (editRules_sound r (List.mem_cons_of_mem colorDiagnostics hr)).1
    obtain ⟨t', u', htext, hedit⟩ := passes_edited hsound (Blank.congr hu.blank hedit₁.ends) (t := t₁)
    have hresult : Result editRules t u t' u' := by
      refine ⟨?_, hedit.ends.trans hedit₁.ends, (hedit.scans false).trans (hedit₁.scans false)⟩
      rw [← htext, ← htext₁]
      rfl
    have hswitch₁ : isSwitch t' = isSwitch path := by
      rw [hresult.isSwitch editRules_sound hu, hswitch, hswitch']
    have hheavier : weigh path < weigh (inner t') := by
      have hgrows := (inner_token (hresult.isToken editRules_sound ht hu)).2.1
      have hgain := hgain hquiet
      have hgrows' := hedit.grows
      omega
    exact ⟨t', u', hresult, rfl, iff_of_false (splitSwitch_ne hswitch₁ hheavier) fun h => hcolor h.1,
      fun h => absurd h.1 hcolor⟩

theorem exact_keep (hcolor : t ≠ "--color-diagnostics".toList) (himport : importPath t = none)
    (hlib : systemLibName t = none) : Exact t u := by
  have hclean : CleanToken (decide ('"' ∈ u)) t ↔ Untouched editRules (decide ('"' ∈ u)) t := by
    simp only [CleanToken, himport, hlib, hcolor, Option.isSome_none, Bool.false_eq_true, false_or]
  obtain ⟨t', u', hresult, -, huntouched, hheavier⟩ :=
    result_untouched_or_heavier editRules_sound ht hu (decide ('"' ∈ u)) (by simp)
  rw [Exact, hclean, translateToken_keep hcolor himport hlib]
  refine ⟨t', u', hresult, rfl, ⟨fun heq => ?_, fun h => ?_⟩, fun h => (huntouched h).2.1⟩
  · by_contra hnot
    exact splitSwitch_ne (hresult.isSwitch editRules_sound hu) (hheavier hnot) heq
  · obtain ⟨rfl, -, hinner⟩ := huntouched h
    exact splitSwitch_of_inner hinner

theorem exact_token : Exact t u := by
  by_cases hcolor : t = "--color-diagnostics".toList
  · subst hcolor
    exact exact_colorDiagnostics hu
  cases himport : importPath t with
  | some path =>
    obtain ⟨p, hp, ⟨hform, rfl⟩ | ⟨rfl, rfl⟩⟩ := importPath_eq_some himport
    · exact exact_quotedImport ht hu hp hform himport
    · exact exact_bareImport ht hu hp rfl himport
  | none =>
    cases hlib : systemLibName t with
    | some name => exact exact_systemLib hu himport hlib
    | none => exact exact_keep ht hu hcolor himport hlib

end Step

/-! ## The whole text -/

theorem linkTokens_passes (s : Text) :
    linkTokens (sub isSpace linkSwitch (passes editRules s)) = (linkTokens s).flatMap translateToken ↔
      Clean (linkTokens s) := by
  induction s using token_induction isSpace '"' with
  | nil => exact iff_of_true rfl trivial
  | blank c s hc ih =>
    have hpasses := passes_blank (fun r hr => (editRules_sound r hr).1) hc s
    have htokens : ∀ s, linkTokens (c :: s) = linkTokens s := fun s => tokens_blank hc
    rwa [hpasses, sub_blank linkSwitch_starts hc, htokens, htokens]
  | token t u quoted ht hu ih =>
    obtain ⟨t', u', hresult, hlength, hexact, hrest⟩ := exact_token ht hu
    have ht' := hresult.isToken editRules_sound ht hu
    have hu' := hu.congr hresult.ends
    have hquote : ¬ isSpace '"' := by decide
    have hlater : (linkTokens u).any (·.contains '"') = decide ('"' ∈ u) := by
      rw [Bool.eq_iff_iff, decide_eq_true_iff, ← mem_tokens '"' hquote]
      simp [linkTokens]
    have htokens : linkTokens (t ++ u) = t :: linkTokens u := tokens_append ht hu
    have hlength' : (splitSwitch t').length = (translateToken t).length := by
      rw [length_splitSwitch, length_keepToken (hresult.isSwitch editRules_sound hu), hlength]
    rw [hresult.text, linkTokens_linkSwitch ht' hu', htokens, List.flatMap_cons, Clean, hlater]
    constructor
    · intro heq
      obtain ⟨htoken, heq⟩ := List.append_inj heq hlength'
      have hclean := hexact.1 htoken
      rw [hrest hclean] at heq
      exact ⟨hclean, ih.1 heq⟩
    · rintro ⟨hclean, hclean'⟩
      rw [hexact.2 hclean, hrest hclean, ih.2 hclean']

theorem translateLinkResponse_tokens {s r : Text} (h : translateLinkResponse s = .ok r) :
    linkTokens r = (linkTokens s).flatMap translateToken ↔ Clean (linkTokens s) := by
  rw [translateLinkResponse_ok h]
  exact linkTokens_passes s

/-- A response file with one token of each kind. -/
def response : Text :=
  "--color-diagnostics -luser32.lib ".toList ++ "-lC:\\a\\b.lib \"-lC:\\c d\\e.lib\" ".toList ++
    "/OPT:REF,ICF -LC:/libs \"C:/f g.o\"".toList

def translated : Text :=
  "-fcolor-diagnostics -luser32 ".toList ++ "C:/a/b.lib \"C:/c d/e.lib\" ".toList ++
    "-Xlinker -Xlink=/OPT:REF,ICF ".toList ++ "-LC:/libs \"C:/f g.o\"".toList

theorem translateLinkResponse_response : translateLinkResponse response = .ok translated ∧
    Clean (linkTokens response) ∧ linkTokens translated = (linkTokens response).flatMap translateToken := by
  have hok : translateLinkResponse response = .ok translated := by decide
  have hclean : Clean (linkTokens response) := by decide
  exact ⟨hok, hclean, (translateLinkResponse_tokens hok).2 hclean⟩

/-- The patterns match between quotes: a folder behind a blank in a quoted path is taken for a switch. -/
theorem translateLinkResponse_quoted : ∃ s r, s = "\"C:/a /b\"".toList ∧ translateLinkResponse s = .ok r ∧
    linkTokens r = ["\"C:/a -Xlinker -Xlink=/b\"".toList] ∧ (linkTokens s).flatMap translateToken = [s] ∧
      linkTokens r ≠ (linkTokens s).flatMap translateToken :=
  ⟨"\"C:/a /b\"".toList, "\"C:/a -Xlinker -Xlink=/b\"".toList, rfl, by decide⟩

/-- Without regard to case, a search folder is the name of a library. -/
example : translateLinkResponse "-LFoo.lib".toList = .ok "-lFoo".toList := by decide

end BuildEngine.Adapter
