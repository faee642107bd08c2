/-
The tokens that a substitution takes as a whole: the spellings of an import, the name of a system library and the
flag for colored diagnostics. Each is what exactly one of the patterns matches, up to the end of the token.
-/
import BuildEngine.Adapter.Clean

namespace BuildEngine.Adapter

open Base.Regex Base.Tokens

/-! ## The spellings -/

theorem isDrivePath_iff {t : Text} : isDrivePath t ↔
    ∃ d s p, t = d :: ':' :: s :: p ∧ isLetter d ∧ isSlash s ∧ p ≠ [] ∧ ∀ c ∈ p, c ≠ '"' := by
  constructor
  · intro h
    unfold isDrivePath at h
    split at h
    next d s p =>
      simp only [Bool.and_eq_true, Bool.not_eq_true', List.isEmpty_eq_false_iff] at h
      obtain ⟨⟨⟨hd, hs⟩, hne⟩, hquote⟩ := h
      refine ⟨d, s, p, rfl, hd, hs, hne, ?_⟩
      rintro c hc rfl
      simp [hc] at hquote
    next => cases h
  · rintro ⟨d, s, p, rfl, hd, hs, hne, hp⟩
    have hquote : '"' ∉ p := fun hmem => hp '"' hmem rfl
    simp [isDrivePath, hd, hs, hne, hquote]

theorem isDrivePath_quote {t : Text} (h : isDrivePath t) : ∀ c ∈ t, c ≠ '"' := by
  obtain ⟨d, s, p, rfl, hd, hs, -, hp⟩ := isDrivePath_iff.1 h
  simp only [List.mem_cons]
  rintro c (rfl | rfl | rfl | hc)
  · exact (plain_of_letter hd).2
  · decide
  · exact (plain_of_slash hs).2
  · exact hp c hc

theorem isQuotedDrivePath_iff {t : Text} : isQuotedDrivePath t ↔ ∃ p, t = p ++ ['"'] ∧ isDrivePath p := by
  rw [isQuotedDrivePath, Bool.and_eq_true, beq_iff_eq]
  constructor
  · rintro ⟨hpath, hlast⟩
    exact ⟨t.dropLast, (List.dropLast_append_getLast? '"' hlast).symm, hpath⟩
  · rintro ⟨p, rfl, hp⟩
    rw [List.dropLast_concat, List.getLast?_concat]
    exact ⟨hp, rfl⟩

/-- The text of an import is a quoted path behind one of two fronts, or a path without quotes. -/
theorem importPath_eq_some {t path : Text} (h : importPath t = some path) : ∃ p, isDrivePath p ∧
    ((t = ['"', '-', 'l'] ++ (p ++ ['"']) ∨ t = ['-', 'l', '"'] ++ (p ++ ['"'])) ∧
        path = '"' :: fullLibPath p ++ ['"'] ∨
      t = '-' :: 'l' :: p ∧ path = fullLibPath p) := by
  have hquoted : ∀ {t : Text}, (if isQuotedDrivePath t then some ('"' :: fullLibPath t) else none) = some path →
      ∃ p, isDrivePath p ∧ t = p ++ ['"'] ∧ path = '"' :: fullLibPath p ++ ['"'] := by
    intro t h
    split at h
    next hpath =>
      obtain ⟨p, rfl, hp⟩ := isQuotedDrivePath_iff.1 hpath
      cases h
      exact ⟨p, hp, rfl, by simp [fullLibPath]⟩
    next => cases h
  unfold importPath at h
  split at h
  · obtain ⟨p, hp, rfl, hpath⟩ := hquoted h
    exact ⟨p, hp, .inl ⟨.inl rfl, hpath⟩⟩
  · obtain ⟨p, hp, rfl, hpath⟩ := hquoted h
    exact ⟨p, hp, .inl ⟨.inr rfl, hpath⟩⟩
  · split at h
    next hp =>
      cases h
      exact ⟨_, hp, .inr ⟨rfl, rfl⟩⟩
    next => cases h
  · cases h

theorem systemLibName_eq_some {t name : Text} (h : systemLibName t = some name) : ∃ n,
    t = '-' :: 'l' :: (n ++ dotLib) ∧ n ≠ [] ∧ (∀ c ∈ n, isNameChar c) ∧ name = '-' :: 'l' :: n := by
  unfold systemLibName at h
  split at h
  next t =>
    simp only at h
    split at h
    next hname =>
      obtain ⟨heq, hne, hall⟩ := hname
      cases h
      exact ⟨t.take (t.length - 4), by rw [← heq], hne, by simpa using hall, rfl⟩
    next => cases h
  next => cases h

/-! ## Matches up to the end of a token -/

theorem matchLength_literal {ahead : Option Char → Bool} {is : List (Item Char)} : ∀ {s t : Text},
    matchLength ahead (literal s ++ is) (s ++ t) = (matchLength ahead is t).map (· + s.length)
  | [], t => by simp [literal]
  | c :: s, t => by
    have ih : matchLength ahead (literal s ++ is) (s ++ t) = (matchLength ahead is t).map (· + s.length) :=
      matchLength_literal
    rw [literal, List.map_cons, List.cons_append, List.cons_append, matchLength, if_pos (beq_self_eq_true c),
      ← literal, ih, Option.map_map]
    rfl

theorem importRule_matchLength {front p u : Text} (hp : isDrivePath p) :
    matchLength (importRule front).ahead (importRule front).items (front ++ (p ++ ['"']) ++ u) =
      some (front ++ (p ++ ['"'])).length := by
  obtain ⟨d, s, p, rfl, hd, hs, hne, hp⟩ := isDrivePath_iff.1 hp
  have hpath : matchLength (fun _ => true) [.plus (· != '"'), .one (· == '"')] (p ++ '"' :: u) = some (p.length + 1) :=
    matchLength_until (fun _ => rfl) (by simp) hne (by simpa using hp) (by decide)
  rw [List.append_assoc, importRule, matchLength_literal]
  simp [matchLength, hd, hs, hpath]
  omega

theorem bareImport_matchLength {p u : Text} (hp : isDrivePath p) (hplain : ∀ c ∈ p, Plain c) (hu : Blank isSpace u) :
    matchLength bareImport.ahead bareImport.items ('-' :: 'l' :: p ++ u) = some ('-' :: 'l' :: p).length := by
  obtain ⟨d, s, p, rfl, hd, hs, hne, -⟩ := isDrivePath_iff.1 hp
  have hpath : matchLength (fun _ => true) [.plus fun c => !isSpace c && c != '"'] (p ++ u) = some p.length := by
    refine matchLength_plus (fun _ => rfl) hne (fun c hc => ?_) fun c hc => ?_
    · simpa [Plain] using hplain c (by simp [hc])
    · simp [hu c hc]
  -- behind the front, the pattern is that of a path
  have hliteral : matchLength (fun _ => true) (literal ['-', 'l'] ++ [.one isLetter, .one (· == ':'), .one isSlash,
      .plus fun c => !isSpace c && c != '"']) (['-', 'l'] ++ (d :: ':' :: s :: p ++ u)) = _ := matchLength_literal
  refine hliteral.trans ?_
  simp [matchLength, hd, hs, hpath]

/-- A match that asks for a blank behind it ends where the word ends. -/
theorem matchLength_word {items : List (Item Char)} {t u : Text} (ht : ∀ c ∈ t, ¬ isSpace c)
    (hlocal : Local isSpace atEnd items) (hmatch : Matches items t) (hu : Blank isSpace u) :
    matchLength atEnd items (t ++ u) = some t.length := by
  have hsome : (matchLength atEnd items (t ++ [])).isSome := matchLength_isSome hmatch rfl
  rw [List.append_nil] at hsome
  obtain ⟨n, hn⟩ := Option.isSome_iff_exists.1 hsome
  obtain ⟨hle, -, hahead⟩ := matches_take hn
  obtain rfl : n = t.length := by
    by_contra hne
    have hlt : n < t.length := by omega
    rw [List.head?_drop, List.getElem?_eq_getElem hlt] at hahead
    exact ht _ (List.getElem_mem hlt) hahead
  rw [matchLength_local hlocal hu, hn]

/-! ## Tokens that are no match -/

/-- A match of an import rule has its front in the token, and not at the end of it. -/
theorem importRule_none {front t u : Text} (hfront : ImportFront front) (hu : Blank isSpace u)
    (h : ∀ w, w ≠ [] → t ≠ front ++ w) :
    matchLength (importRule front).ahead (importRule front).items (t ++ u) = none := by
  rw [← Option.not_isSome_iff_eq_none, matchLength_importRule hfront hu]
  rintro (hsome | ⟨-, d, s, p, heq, -⟩)
  · obtain ⟨x, z, rfl, hmatch, -⟩ := matchLength_isSome_iff.1 hsome
    obtain ⟨d, s, p, rfl, -⟩ := matches_importRule.1 hmatch
    exact h (d :: ':' :: s :: p ++ ['"'] ++ z) (by simp) (List.append_assoc ..)
  · exact h _ (by simp) heq

theorem importRule_none_of_quote {front t u : Text} (hfront : ImportFront front) (hu : Blank isSpace u)
    (ht : '"' ∉ t) : matchLength (importRule front).ahead (importRule front).items (t ++ u) = none := by
  refine importRule_none hfront hu ?_
  rintro w - rfl
  exact ht (List.mem_append_left w hfront.quote)

/-- The quote at the end of a token is not that of a front. -/
theorem importRule_quiet {front u : Text} (hfront : ImportFront front) (hu : Blank isSpace u) :
    ∀ {b : Text} {blank : Bool}, (∀ c ∈ b, c ≠ '"') → Quiet isSpace (importRule front) blank (b ++ ['"']) u
  | [], _, _ => by
    refine ⟨fun _ => importRule_none hfront hu fun w hw heq => ?_, trivial⟩
    have hlength := congrArg List.length heq
    have hpos := List.length_pos_iff.2 hw
    rw [List.length_append, hfront.length, List.length_singleton] at hlength
    omega
  | c :: b, _, hb => by
    refine ⟨fun _ => importRule_none hfront hu fun w hw heq => ?_, ?_⟩
    · obtain ⟨w, e, rfl⟩ := (List.eq_nil_or_concat' w).resolve_left hw
      rw [← List.append_assoc] at heq
      have hsplit : (c :: b) ++ ['"'] = front ++ w ++ [e] := heq
      obtain ⟨hfrontw, -⟩ := List.append_inj' hsplit rfl
      have hquote : '"' ∈ c :: b := hfrontw ▸ List.mem_append_left w hfront.quote
      exact hb '"' hquote rfl
    · exact importRule_quiet hfront hu fun d hd => hb d (.tail _ hd)

theorem colorDiagnostics_none {c : Char} {t : Text} (hc : c ≠ '-') :
    matchLength colorDiagnostics.ahead colorDiagnostics.items ('-' :: c :: t) = none := by
  by_contra hsome
  obtain ⟨n, hn⟩ := Option.ne_none_iff_exists'.1 hsome
  obtain ⟨-, hmatch, -⟩ := matches_take hn
  have hliteral : "--color-diagnostics".toList = '-' :: '-' :: "color-diagnostics".toList := by decide
  have heq := (matches_colorDiagnostics hmatch).trans hliteral
  rcases n with _ | _ | n
  · cases heq
  · cases heq
  · exact hc (List.cons.inj (List.cons.inj heq).2).1

theorem bareImport_none {t u : Text} (hu : Blank isSpace u) (ht : ':' ∉ t) :
    matchLength bareImport.ahead bareImport.items (t ++ u) = none := by
  rw [matchLength_local bareImport_local hu]
  by_contra hsome
  obtain ⟨n, hn⟩ := Option.ne_none_iff_exists'.1 hsome
  obtain ⟨-, hmatch, -⟩ := matches_take hn
  obtain ⟨d, s, p, heq, -⟩ := matches_bareImport hmatch
  have hcolon : ':' ∈ t.take n := by simp [heq]
  exact ht (List.mem_of_mem_take hcolon)

/-! ## One rule takes the token, the others leave it alone -/

theorem quietAll_lookahead {rs : List (Rule Char)} (hrs : ∀ r ∈ rs, Edits 1 r ∧ Shortsighted r) {t u : Text}
    (hu : Blank isSpace u) {later : Bool} (hlater : '"' ∈ u ↔ later = true) :
    QuietAll rs t u ↔ ∀ r ∈ rs, Quiet isSpace r true t (lookahead later) := by
  rw [quietAll_iff hrs hu]
  refine forall₂_congr fun r hr => ?_
  exact (hrs r hr).2 hu (blank_lookahead later) (hlater.trans quote_mem_lookahead.symm)

theorem passes_exact (rs rs' : List (Rule Char)) {r : Rule Char}
    (hrs : ∀ r' ∈ rs ++ r :: rs', Edits 1 r' ∧ Shortsighted r') {t u : Text} (ht : t ≠ []) (hu : Blank isSpace u)
    (later : Bool) (hlater : '"' ∈ u ↔ later = true)
    (hbefore : ∀ r' ∈ rs, Quiet isSpace r' true t (lookahead later))
    (hmatch : ∀ u, Blank isSpace u → matchLength r.ahead r.items (t ++ u) = some t.length)
    (hbehind : ∀ r' ∈ rs', Quiet isSpace r' true (r.replace t) (lookahead later)) :
    passes (rs ++ r :: rs') (t ++ u) = r.replace t ++ passes (rs ++ r :: rs') u := by
  have hedits : ∀ r' ∈ rs, Edits 1 r' := fun r' hr' => (hrs r' (List.mem_append_left _ hr')).1
  have hr : Edits 1 r := (hrs r (List.mem_append_right _ (.head _))).1
  have hrs' : ∀ r' ∈ rs', Edits 1 r' ∧ Shortsighted r' := fun r' hr' =>
    hrs r' (List.mem_append_right _ (.tail _ hr'))
  have hu₁ := hu.congr (head_passes_blank hedits hu)
  have hu₂ := hu₁.congr (hr.head_sub_blank hu₁)
  have hlater' : '"' ∈ sub isSpace r (passes rs u) ↔ later = true := by
    rw [hr.quote_mem_sub, quote_mem_passes hedits, hlater]
  have hquiet : QuietAll rs t u := by
    rw [quietAll_lookahead (fun r' hr' => hrs r' (List.mem_append_left _ hr')) hu hlater]
    exact hbefore
  have hquiet' : QuietAll rs' (r.replace t) (sub isSpace r (passes rs u)) := by
    rw [quietAll_lookahead hrs' hu₂ hlater']
    exact hbehind
  rw [passes_append, passes_append, passes_quiet hedits hu hquiet, passes_cons, passes_cons,
    sub_of_match hr.starts ht hu₁ (hmatch _ hu₁), passes_quiet (fun r' hr' => (hrs' r' hr').1) hu₂ hquiet']

section Kinds

variable {u : Text} (hu : Blank isSpace u)
include hu

theorem passes_colorDiagnostics : passes editRules ("--color-diagnostics".toList ++ u) =
    "-fcolor-diagnostics".toList ++ passes editRules u := by
  have hquiet : ∀ later, ∀ r ∈ [quotedImport, importQuoted, bareImport, systemLib],
      Quiet isSpace r true "-fcolor-diagnostics".toList (lookahead later) := by decide
  have hmatch : matchLength colorDiagnostics.ahead colorDiagnostics.items "--color-diagnostics".toList =
      some "--color-diagnostics".toList.length := by decide
  refine passes_exact [] _ editRules_sound (by decide) hu (decide ('"' ∈ u)) (by simp)
    (by simp) (fun u hu => ?_) (hquiet _)
  rw [matchLength_local colorDiagnostics_local hu, hmatch]

theorem passes_systemLib {n : Text} (hne : n ≠ []) (hn : ∀ c ∈ n, isNameChar c) :
    passes editRules ('-' :: 'l' :: (n ++ dotLib) ++ u) = '-' :: 'l' :: n ++ passes editRules u := by
  have hname : ∀ c ∈ '-' :: 'l' :: (n ++ dotLib), isNameChar c := by
    intro c hc
    simp only [List.mem_cons, List.mem_append, dotLib, List.not_mem_nil, or_false] at hc
    rcases hc with rfl | rfl | hc | rfl | rfl | rfl | rfl
    · rfl
    · rfl
    · exact hn c hc
    all_goals rfl
  have hany : ∀ {c : Char}, isNameChar c → isNameCharAnyCase c := by
    intro c hc
    simp [isNameCharAnyCase, hc]
  have hword : ∀ c ∈ '-' :: 'l' :: (n ++ dotLib), ¬ isSpace c := fun c hc =>
    (plain_of_nameChar (hany (hname c hc))).1
  have hcolon : ':' ∉ '-' :: 'l' :: (n ++ dotLib) := fun hmem => absurd (hname _ hmem) (by decide)
  have hquote : '"' ∉ '-' :: 'l' :: (n ++ dotLib) := fun hmem => absurd (hname _ hmem) (by decide)
  have hmatch : Matches systemLib.items ('-' :: 'l' :: (n ++ dotLib)) :=
    ⟨'-', _, rfl, rfl, 'l', _, rfl, rfl, n, dotLib, rfl, hne, fun c hc => hany (hn c hc), '.', _, rfl, rfl,
      'l', _, rfl, rfl, 'i', _, rfl, rfl, 'b', _, rfl, rfl, rfl⟩
  have hreplace : systemLib.replace ('-' :: 'l' :: (n ++ dotLib)) = '-' :: 'l' :: n := systemLib_replace
  have hblank := blank_lookahead (decide ('"' ∈ u))
  rw [← hreplace]
  refine passes_exact [colorDiagnostics, quotedImport, importQuoted, bareImport] [] editRules_sound
    (List.cons_ne_nil _ _) hu (decide ('"' ∈ u)) (by simp) ?_
    (fun u hu => matchLength_word hword systemLib_local hmatch hu) (by simp)
  simp only [List.mem_cons, List.not_mem_nil, or_false]
  rintro r (rfl | rfl | rfl | rfl)
  · exact quiet_word_front hword (colorDiagnostics_none (by decide))
  · exact quiet_word_front hword (importRule_none_of_quote quotedImport_front hblank hquote)
  · exact quiet_word_front hword (importRule_none_of_quote importQuoted_front hblank hquote)
  · exact quiet_word_front hword (bareImport_none hblank hcolon)

theorem passes_bareImport {p : Text} (hp : isDrivePath p) (hplain : ∀ c ∈ p, Plain c) :
    passes editRules ('-' :: 'l' :: p ++ u) = fullLibPath p ++ passes editRules u := by
  have hall : ∀ c ∈ '-' :: 'l' :: p, Plain c := by
    simp only [List.mem_cons]
    rintro c (rfl | rfl | hc)
    · decide
    · decide
    · exact hplain c hc
  have hword : ∀ c ∈ '-' :: 'l' :: p, ¬ isSpace c := fun c hc => (hall c hc).1
  have hquote : '"' ∉ '-' :: 'l' :: p := fun hmem => (hall _ hmem).2 rfl
  have hblank := blank_lookahead (decide ('"' ∈ u))
  refine passes_exact [colorDiagnostics, quotedImport, importQuoted] [systemLib] editRules_sound
    (List.cons_ne_nil _ _) hu (decide ('"' ∈ u)) (by simp) ?_
    (fun u hu => bareImport_matchLength hp hplain hu) ?_
  · simp only [List.mem_cons, List.not_mem_nil, or_false]
    rintro r (rfl | rfl | rfl)
    · exact quiet_word_front hword (colorDiagnostics_none (by decide))
    · exact quiet_word_front hword (importRule_none_of_quote quotedImport_front hblank hquote)
    · exact quiet_word_front hword (importRule_none_of_quote importQuoted_front hblank hquote)
  · -- the path begins with the letter of a drive
    obtain ⟨d, s, p, rfl, hd, -⟩ := isDrivePath_iff.1 hp
    have hpath : ∀ c ∈ fullLibPath (d :: ':' :: s :: p), ¬ isSpace c := fun c hc => (fullLibPath_plain hplain c hc).1
    have hdash : d ≠ '-' := by
      rintro rfl
      exact absurd hd (by decide)
    intro r hr
    obtain rfl := List.mem_singleton.1 hr
    have hreplace : bareImport.replace ('-' :: 'l' :: d :: ':' :: s :: p) = fullLibPath (d :: ':' :: s :: p) := rfl
    rw [hreplace]
    rw [fullLibPath_letter hd] at hpath ⊢
    exact quiet_word_front hpath (if_neg (by simpa using hdash))

/-- The rules up to those of the quoted imports. -/
def quotedRules : List (Rule Char) := [colorDiagnostics, quotedImport, importQuoted]

theorem passes_quotedImport {t p : Text} (hp : isDrivePath p)
    (ht : t = ['"', '-', 'l'] ++ (p ++ ['"']) ∨ t = ['-', 'l', '"'] ++ (p ++ ['"']))
    (hcolor : Quiet isSpace colorDiagnostics true t (lookahead (decide ('"' ∈ u)))) :
    passes quotedRules (t ++ u) = '"' :: fullLibPath p ++ ['"'] ++ passes quotedRules u := by
  have hsound : ∀ r ∈ quotedRules, Edits 1 r ∧ Shortsighted r := by
    simp only [quotedRules, List.mem_cons, List.not_mem_nil, or_false]
    rintro r (rfl | rfl | rfl) <;> exact editRules_sound _ (by simp [editRules])
  have hblank := blank_lookahead (decide ('"' ∈ u))
  have hquote := isDrivePath_quote hp
  rcases ht with rfl | rfl
  · rw [← importRule_replace quotedImport_front]
    refine passes_exact [colorDiagnostics] [importQuoted] hsound (List.cons_ne_nil _ _) hu
      (decide ('"' ∈ u)) (by simp) (by simpa using hcolor)
      (fun u _ => importRule_matchLength hp) ?_
    intro r hr
    obtain rfl := List.mem_singleton.1 hr
    have hpath : ∀ c ∈ fullLibPath p, c ≠ '"' := by
      rintro c hc rfl
      exact hquote _ (quote_mem_fullLibPath.1 hc) rfl
    rw [quotedImport, importRule_replace quotedImport_front]
    exact ⟨fun _ => importRule_none importQuoted_front hblank (by simp), importRule_quiet importQuoted_front hblank hpath⟩
  · rw [← importRule_replace importQuoted_front]
    refine passes_exact [colorDiagnostics, quotedImport] [] hsound (List.cons_ne_nil _ _) hu
      (decide ('"' ∈ u)) (by simp) ?_ (fun u _ => importRule_matchLength hp) (by simp)
    simp only [List.mem_cons, List.not_mem_nil, or_false]
    rintro r (rfl | rfl)
    · exact hcolor
    · -- the front of a quoted import would have to begin behind a blank
      refine ⟨fun _ => importRule_none quotedImport_front hblank (by simp), fun h => absurd h (by decide),
        fun h => absurd h (by decide), importRule_quiet quotedImport_front hblank hquote⟩

end Kinds

end BuildEngine.Adapter
