/-
The tokens of a response file that the substitutions treat as tokens. A pattern may find a match inside a token, behind
a blank between its quotes; what it finds depends on the text behind the token only through the question whether a
quote stands there.
-/
import BuildEngine.Adapter.Passes

namespace BuildEngine.Adapter

open Base.Regex Base.Tokens

/-- The rules in front of `linkSwitch`, in order. -/
def editRules : List (Rule Char) := [colorDiagnostics, quotedImport, importQuoted, bareImport, systemLib]

/-- The text behind a token, as far as the patterns look at it. -/
def lookahead (later : Bool) : Text := if later then [' ', '"'] else []

/-- None of the rules matches in the token, and `linkSwitch` at most at its front. `later` says whether a quote stands
behind the token. -/
def Untouched (rs : List (Rule Char)) (later : Bool) (t : Text) : Prop :=
  (∀ r ∈ rs, Quiet isSpace r true t (lookahead later)) ∧ Quiet isSpace linkSwitch false t (lookahead later)

/-- A token that is translated as one: an import whose path the later rules leave alone, a token that is renamed, or
one in which no rule matches. -/
def CleanToken (later : Bool) (t : Text) : Prop :=
  match importPath t with
  | some path =>
    Quiet isSpace colorDiagnostics true t (lookahead later) ∧ Untouched [bareImport, systemLib] later path
  | none => t = "--color-diagnostics".toList ∨ (systemLibName t).isSome ∨ Untouched editRules later t

def Clean : List Text → Prop
  | [] => True
  | t :: ts => CleanToken (ts.any (·.contains '"')) t ∧ Clean ts

/-! ## Decidability -/

instance decidableQuiet {space : Char → Bool} {r : Rule Char} : ∀ blank t u, Decidable (Quiet space r blank t u)
  | _, [], _ => inferInstanceAs (Decidable True)
  | blank, c :: t, u =>
    haveI : Decidable (Quiet space r (space c) t u) := decidableQuiet _ t u
    inferInstanceAs (Decidable ((blank = true → matchLength r.ahead r.items (c :: t ++ u) = none) ∧ _))

instance (rs : List (Rule Char)) (later : Bool) (t : Text) : Decidable (Untouched rs later t) :=
  inferInstanceAs (Decidable (_ ∧ _))

instance (later : Bool) (t : Text) : Decidable (CleanToken later t) := by
  unfold CleanToken
  cases importPath t with
  | some path => exact inferInstanceAs (Decidable (_ ∧ Untouched _ later path))
  | none => exact inferInstanceAs (Decidable (_ ∨ _ ∨ Untouched _ later t))

instance decidableClean : ∀ ts, Decidable (Clean ts)
  | [] => inferInstanceAs (Decidable True)
  | t :: ts =>
    haveI := decidableClean ts
    inferInstanceAs (Decidable (CleanToken _ t ∧ _))

/-! ## What a rule sees behind a token -/

/-- A rule sees of the text behind a token whether there is a quote in it, and no more. -/
def Shortsighted (r : Rule Char) : Prop :=
  ∀ {u u' : Text}, Blank isSpace u → Blank isSpace u' → ('"' ∈ u ↔ '"' ∈ u') →
    ∀ {t : Text} {blank : Bool}, Quiet isSpace r blank t u ↔ Quiet isSpace r blank t u'

theorem Local.shortsighted {r : Rule Char} (hlocal : Local isSpace r.ahead r.items) : Shortsighted r := by
  intro u u' hu hu' _ t blank
  rw [quiet_local hlocal hu, quiet_local hlocal hu']

theorem PlainItems.to_local {r : Rule Char} (hplain : PlainItems r)
    (hahead : ∀ c, isSpace c → r.ahead (some c) = r.ahead none) : Local isSpace r.ahead r.items :=
  ⟨fun i hi c hc hic => (hplain i hi c hic).1 hc, hahead⟩

theorem colorDiagnostics_local : Local isSpace colorDiagnostics.ahead colorDiagnostics.items :=
  colorDiagnostics_plain.to_local fun _ hc => hc

theorem bareImport_local : Local isSpace bareImport.ahead bareImport.items :=
  bareImport_plain.to_local fun _ _ => rfl

theorem systemLib_local : Local isSpace systemLib.ahead systemLib.items := systemLib_plain.to_local fun _ hc => hc

/-- A match of an import rule that starts in a token ends in it, or at a quote behind it. -/
theorem matchLength_importRule {front : Text} (hfront : ImportFront front) {t u : Text} (hu : Blank isSpace u) :
    (matchLength (importRule front).ahead (importRule front).items (t ++ u)).isSome ↔
      (matchLength (importRule front).ahead (importRule front).items t).isSome ∨
        '"' ∈ u ∧ ∃ d s p, t = front ++ (d :: ':' :: s :: p) ∧ isLetter d ∧ isSlash s ∧ ∀ c ∈ p, c ≠ '"' := by
  constructor
  · intro h
    obtain ⟨x, z, heq, hmatch, -⟩ := matchLength_isSome_iff.1 h
    rcases List.append_eq_append_iff.1 heq with ⟨w, rfl, rfl⟩ | ⟨w, rfl, rfl⟩
    · cases w with
      | nil =>
        left
        rw [List.append_nil] at hmatch
        rw [← List.append_nil t]
        exact matchLength_isSome hmatch rfl
      | cons c w =>
        -- the match goes on behind the token
        right
        obtain ⟨d, s, p, heq, hd, hs, -, hp⟩ := matches_importRule.1 hmatch
        have hc : isSpace c := hu c rfl
        have hblank : ∀ e ∈ front ++ [d, ':', s], ¬ isSpace e := hfront.blank_path hd hs
        obtain ⟨y, rfl, hy⟩ := exists_append_of_blank (b := p ++ ['"']) (by simpa using heq) hblank hc
        obtain ⟨p', rfl, rfl⟩ := exists_append_of_quote hy hc
        refine ⟨by simp, d, s, y, by simp, hd, hs, fun e he => hp e (List.mem_append_left _ he)⟩
    · left
      exact matchLength_isSome hmatch rfl
  · rintro (h | ⟨hquote, d, s, p, rfl, hd, hs, hp⟩)
    · obtain ⟨x, z, rfl, hmatch, -⟩ := matchLength_isSome_iff.1 h
      rw [List.append_assoc]
      exact matchLength_isSome hmatch rfl
    · -- the quote that ends the match is the first one
      obtain ⟨w, z, rfl, hw⟩ := List.eq_append_cons_of_mem hquote
      have hne : w ≠ [] := by
        rintro rfl
        exact absurd (hu '"' rfl) (by decide)
      have hmatch : Matches (importRule front).items (front ++ (d :: ':' :: s :: (p ++ w) ++ ['"'])) := by
        refine matches_importRule.2 ⟨d, s, p ++ w, rfl, hd, hs, List.append_ne_nil_of_right_ne_nil p hne, ?_⟩
        intro c hc
        rcases List.mem_append.1 hc with hc | hc
        · exact hp c hc
        · rintro rfl
          exact hw hc
      have hsome : (matchLength (importRule front).ahead (importRule front).items
          (front ++ (d :: ':' :: s :: (p ++ w) ++ ['"']) ++ z)).isSome := matchLength_isSome hmatch rfl
      simpa using hsome

theorem importRule_shortsighted {front : Text} (hfront : ImportFront front) : Shortsighted (importRule front) := by
  intro u u' hu hu' hquote t
  induction t with
  | nil => exact Iff.rfl
  | cons c t ih =>
    intro blank
    have hmatch : matchLength (importRule front).ahead (importRule front).items (c :: t ++ u) = none ↔
        matchLength (importRule front).ahead (importRule front).items (c :: t ++ u') = none := by
      rw [← Option.not_isSome_iff_eq_none, ← Option.not_isSome_iff_eq_none, matchLength_importRule hfront hu,
        matchLength_importRule hfront hu', hquote]
    rw [Quiet, Quiet, hmatch, ih]

theorem editRules_sound : ∀ r ∈ editRules, Edits 1 r ∧ Shortsighted r := by
  simp only [editRules, List.mem_cons, List.not_mem_nil, or_false]
  rintro r (rfl | rfl | rfl | rfl | rfl)
  · exact ⟨colorDiagnostics_edits.mono (by decide), Local.shortsighted colorDiagnostics_local⟩
  · exact ⟨importRule_edits quotedImport_front, importRule_shortsighted quotedImport_front⟩
  · exact ⟨importRule_edits importQuoted_front, importRule_shortsighted importQuoted_front⟩
  · exact ⟨bareImport_edits, Local.shortsighted bareImport_local⟩
  · exact ⟨systemLib_edits, Local.shortsighted systemLib_local⟩

/-- The rules look at the same text behind a token, in whatever order they come. -/
theorem quietAll_iff {rs : List (Rule Char)} (hrs : ∀ r ∈ rs, Edits 1 r ∧ Shortsighted r) {t u : Text}
    (hu : Blank isSpace u) : QuietAll rs t u ↔ ∀ r ∈ rs, Quiet isSpace r true t u := by
  induction rs generalizing u with
  | nil => simp [QuietAll]
  | cons r rs ih =>
    obtain ⟨hr, -⟩ := hrs r (.head _)
    have hrs' : ∀ r ∈ rs, Edits 1 r ∧ Shortsighted r := fun r hr => hrs r (.tail _ hr)
    have hu' := hu.congr (hr.head_sub_blank hu)
    rw [QuietAll, ih hrs' hu', List.forall_mem_cons]
    refine and_congr_right fun _ => forall₂_congr fun r' hr' => ?_
    exact (hrs' r' hr').2 hu' hu hr.quote_mem_sub

theorem blank_lookahead (later : Bool) : Blank isSpace (lookahead later) := by
  cases later with
  | false => rintro c ⟨⟩
  | true =>
    rintro c ⟨⟩
    decide

theorem quote_mem_lookahead {later : Bool} : '"' ∈ lookahead later ↔ later = true := by
  cases later <;> decide

end BuildEngine.Adapter
