/-
A response file as words between blanks. A rule whose matches contain no blank works on one word at a time. An
imported path in quotes may run on over the words behind it, up to the next quote; how it comes out is then told
word by word as well, together with the question whether it is still running.
-/
import BuildEngine.Adapter.Spellings

namespace BuildEngine.Adapter

open Base.Regex Base.Tokens

/-- The words of a response file, whether they stand between quotes or not. -/
def words (s : Text) : List Text := s.splitOnP isSpace

def Word (w : Text) : Prop := ∀ c ∈ w, ¬ isSpace c

theorem words_word {w : Text} (hw : Word w) : words w = [w] :=
  List.splitOnP_eq_singleton fun c hc => by simpa using hw c hc

theorem words_append {w v : Text} {c : Char} (hw : Word w) (hc : isSpace c) : words (w ++ c :: v) = w :: words v :=
  List.splitOnP_append_cons_of_forall_mem (fun d hd => by simpa using hw d hd) c hc v

theorem mem_words_quote {s : Text} : (words s).any (·.contains '"') = decide ('"' ∈ s) := by
  induction s using word_induction isSpace with
  | last w hw => simp [words_word hw]
  | more w c v hw hc ih =>
    have hne : '"' ≠ c := by
      rintro rfl
      exact absurd hc (by decide)
    rw [words_append hw hc, List.any_cons, ih]
    simp [hne]

theorem blank_nil : Blank isSpace [] := by
  rintro c ⟨⟩

theorem blank_cons {c : Char} {v : Text} (hc : isSpace c) : Blank isSpace (c :: v) := by
  rintro d ⟨⟩
  exact hc

theorem Word.append {x y : Text} : Word (x ++ y) ↔ Word x ∧ Word y := List.forall_mem_append

theorem Word.cons {c : Char} {w : Text} : Word (c :: w) ↔ ¬ isSpace c ∧ Word w := List.forall_mem_cons

theorem Word.of_plain {w : Text} (h : ∀ c ∈ w, Plain c) : Word w := fun c hc => (h c hc).1

theorem fullLibPath_word {w : Text} (hw : Word w) : Word (fullLibPath w) := by
  intro c hc
  obtain ⟨d, hd, rfl⟩ := List.mem_map.1 hc
  split
  · decide
  · exact hw d hd

/-! ## An import that runs on -/

/-- The backslashes in front of the first quote become slashes. -/
def turned (w : Text) : Text := fullLibPath (w.takeWhile (· != '"')) ++ w.dropWhile (· != '"')

theorem turned_of_not_mem {w : Text} (hw : '"' ∉ w) : turned w = fullLibPath w := by
  have hall : ∀ c ∈ w, (c != '"') = true := by
    intro c hc
    rw [bne_iff_ne]
    rintro rfl
    exact hw hc
  rw [turned, List.takeWhile_eq_self_iff.2 hall, List.dropWhile_eq_nil_iff.2 hall, List.append_nil]

theorem turned_append {p z : Text} (hp : '"' ∉ p) : turned (p ++ '"' :: z) = fullLibPath p ++ '"' :: z := by
  have hall : ∀ c ∈ p, (c != '"') = true := by
    intro c hc
    rw [bne_iff_ne]
    rintro rfl
    exact hp hc
  rw [turned, List.takeWhile_append_of_pos hall, List.dropWhile_append_of_pos hall]
  simp

theorem turned_quote (z : Text) : turned ('"' :: z) = '"' :: z := turned_append (p := []) (List.not_mem_nil)

/-- A text whose first quote is in it. -/
theorem exists_quote {w : Text} (h : '"' ∈ w) : ∃ p z, w = p ++ '"' :: z ∧ '"' ∉ p := by
  obtain ⟨p, z, rfl, hp⟩ := List.eq_append_cons_of_mem h
  exact ⟨p, z, rfl, hp⟩

theorem turned_word {w : Text} (hw : Word w) : Word (turned w) := by
  by_cases hquote : '"' ∈ w
  · obtain ⟨p, z, rfl, hp⟩ := exists_quote hquote
    obtain ⟨hword, hrest⟩ := Word.append.1 hw
    rw [turned_append hp]
    exact Word.append.2 ⟨fullLibPath_word hword, hrest⟩
  · rw [turned_of_not_mem hquote]
    exact fullLibPath_word hw

theorem quote_mem_turned {w : Text} : '"' ∈ turned w ↔ '"' ∈ w := by
  rw [turned, List.mem_append, quote_mem_fullLibPath, ← List.mem_append, List.takeWhile_append_dropWhile]

theorem scan_turned (quoted : Bool) (w : Text) :
    scan isSpace '"' quoted (turned w) = scan isSpace '"' quoted w := by
  have hsplit : w.takeWhile (· != '"') ++ w.dropWhile (· != '"') = w := List.takeWhile_append_dropWhile
  rw [turned, scan_append, scan_fullLibPath, ← scan_append, hsplit]

theorem fullLibPath_fullLibPath (t : Text) : fullLibPath (fullLibPath t) = fullLibPath t := by
  rw [fullLibPath, fullLibPath, List.map_map]
  refine List.map_congr_left fun c _ => ?_
  by_cases hc : c = '\\'
  · simp [hc]
  · simp [hc]

theorem turned_turned (w : Text) : turned (turned w) = turned w := by
  by_cases hquote : '"' ∈ w
  · obtain ⟨p, z, rfl, hp⟩ := exists_quote hquote
    have hp' : '"' ∉ fullLibPath p := fun h => hp (quote_mem_fullLibPath.1 h)
    rw [turned_append hp, turned_append hp', fullLibPath_fullLibPath]
  · have hquote' : '"' ∉ fullLibPath w := fun h => hquote (quote_mem_fullLibPath.1 h)
    rw [turned_of_not_mem hquote, turned_of_not_mem hquote', fullLibPath_fullLibPath]

/-- Behind the first part of a match of an import: the match ends at the next quote, and the text behind it is on
its own. -/
def runOn (r : Rule Char) : Text → Text
  | [] => []
  | c :: u => if c = '"' then c :: subFrom isSpace r false 0 u else fullLibPath [c] ++ runOn r u

theorem runOn_append {r : Rule Char} : ∀ {p : Text} (u : Text), '"' ∉ p → runOn r (p ++ u) = fullLibPath p ++ runOn r u
  | [], _, _ => rfl
  | c :: p, u, hp => by
    obtain ⟨hc, hp⟩ := List.ne_and_not_mem_of_not_mem_cons hp
    rw [List.cons_append, runOn, if_neg hc.symm, runOn_append u hp]
    rfl

theorem runOn_quote (r : Rule Char) (u : Text) : runOn r ('"' :: u) = '"' :: subFrom isSpace r false 0 u := if_pos rfl

/-- A rule at the front of a text, where a match may be running. -/
def resume (r : Rule Char) (running : Bool) (u : Text) : Text := if running then runOn r u else sub isSpace r u

/-- Whether a match starts at the front of a word. `later` says whether a quote stands behind the word. -/
def taken (r : Rule Char) (later : Bool) (w : Text) : Bool :=
  (matchLength r.ahead r.items (w ++ lookahead later)).isSome

/-- Whether a match goes on behind a word. -/
def runs (r : Rule Char) (later running : Bool) (w : Text) : Bool :=
  if running then !w.contains '"' else taken r later w && (matchLength r.ahead r.items w).isNone

/-- What the rule of a quoted import makes of a word. -/
def importWord (front : Text) (later running : Bool) (w : Text) : Text :=
  if running then turned w else if taken (importRule front) later w then '"' :: turned (w.drop 3) else w

section Import

variable {front : Text} (hfront : ImportFront front)
include hfront

theorem resume_blank (running : Bool) {c : Char} (hc : isSpace c) (v : Text) :
    resume (importRule front) running (c :: v) = c :: resume (importRule front) running v := by
  cases running with
  | false => exact sub_blank (importRule_edits hfront).starts hc v
  | true =>
    have hquote : c ≠ '"' := by
      rintro rfl
      exact absurd hc (by decide)
    have hslash : c ≠ '\\' := by
      rintro rfl
      exact absurd hc (by decide)
    simp [resume, runOn, fullLibPath, hquote, hslash]

theorem quote_mem_resume (running : Bool) {u : Text} : '"' ∈ resume (importRule front) running u ↔ '"' ∈ u := by
  cases running with
  | false => exact (importRule_edits hfront).quote_mem_sub
  | true =>
    by_cases hquote : '"' ∈ u
    · obtain ⟨p, z, rfl, hp⟩ := exists_quote hquote
      simp [resume, runOn_append _ hp, runOn_quote]
    · have heq := runOn_append (r := importRule front) [] hquote
      rw [List.append_nil] at heq
      simp [resume, heq, runOn, quote_mem_fullLibPath]

/-- A match starts at the front of a word and ends in it, or it goes on to a quote behind the word. -/
theorem taken_importRule {w : Text} {later : Bool} : taken (importRule front) later w ↔
    (∃ p z, w = front ++ (p ++ '"' :: z) ∧ isDrivePath p) ∨
      later = true ∧ ∃ d s p, w = front ++ (d :: ':' :: s :: p) ∧ isLetter d ∧ isSlash s ∧ '"' ∉ p := by
  rw [taken, matchLength_importRule hfront (blank_lookahead later), quote_mem_lookahead, matchLength_isSome_iff]
  refine or_congr ⟨?_, ?_⟩ (and_congr_right fun _ => ?_)
  · rintro ⟨x, y, rfl, hmatch, -⟩
    obtain ⟨d, s, p, rfl, hpath⟩ := matches_importRule.1 hmatch
    exact ⟨d :: ':' :: s :: p, y, by simp, isDrivePath_iff.2 ⟨d, s, p, rfl, hpath⟩⟩
  · rintro ⟨p, z, rfl, hp⟩
    obtain ⟨d, s, p, rfl, hpath⟩ := isDrivePath_iff.1 hp
    exact ⟨_, z, by simp, matches_importRule.2 ⟨d, s, p, rfl, hpath⟩, rfl⟩
  · simp only [← List.forall_mem_ne', ne_eq]

/-- A match that ends in its word. -/
theorem closed_importRule {w : Text} :
    (matchLength (importRule front).ahead (importRule front).items w).isSome ↔
      ∃ p z, w = front ++ (p ++ '"' :: z) ∧ isDrivePath p := by
  have htaken : taken (importRule front) false w ↔ _ := taken_importRule hfront
  rw [taken, lookahead, if_neg Bool.false_ne_true, List.append_nil] at htaken
  simpa using htaken

/-- A word that a match starts in has the front of the rule. -/
theorem exists_front {w : Text} {later : Bool} (h : taken (importRule front) later w) :
    ∃ d y, w = front ++ d :: y ∧ isLetter d := by
  rcases (taken_importRule hfront).1 h with ⟨p, z, rfl, hp⟩ | ⟨-, d, s, p, rfl, hd, -⟩
  · obtain ⟨d, s, p, rfl, hd, -⟩ := isDrivePath_iff.1 hp
    exact ⟨d, _, rfl, hd⟩
  · exact ⟨d, _, rfl, hd⟩

theorem drop_front (y : Text) : (front ++ y).drop 3 = y := List.drop_left' hfront.length

/-- The match that starts in a word and goes on to a quote behind it. -/
theorem sub_importRule_open {d s : Char} {p u : Text} (hd : isLetter d) (hs : isSlash s) (hp : '"' ∉ p)
    (hu : Blank isSpace u) (hquote : '"' ∈ u) : sub isSpace (importRule front) (front ++ (d :: ':' :: s :: p) ++ u) =
      '"' :: fullLibPath (d :: ':' :: s :: p) ++ runOn (importRule front) u := by
  obtain ⟨v, z, rfl, hv⟩ := exists_quote hquote
  have hne : v ≠ [] := by
    rintro rfl
    exact absurd (hu '"' rfl) (by decide)
  have hpath : isDrivePath (d :: ':' :: s :: (p ++ v)) := by
    refine isDrivePath_iff.2 ⟨d, s, p ++ v, rfl, hd, hs, List.append_ne_nil_of_right_ne_nil p hne, ?_⟩
    rw [List.forall_mem_ne', List.mem_append, not_or]
    exact ⟨hp, hv⟩
  have hmatch : matchLength (importRule front).ahead (importRule front).items
      (front ++ (d :: ':' :: s :: (p ++ v) ++ ['"']) ++ z) = _ := importRule_matchLength hpath
  have htext : front ++ (d :: ':' :: s :: p) ++ (v ++ '"' :: z) =
      front ++ (d :: ':' :: s :: (p ++ v) ++ ['"']) ++ z := by simp
  have hskip : ∀ {e : Char} {t : Text} {n : ℕ}, front ++ (d :: ':' :: s :: (p ++ v)) = e :: t → n = t.length + 1 →
      subFrom isSpace (importRule front) (isSpace e) n (t ++ '"' :: z) = subFrom isSpace (importRule front) false 0 z := by
    rintro e t n - rfl
    exact subFrom_skip_last '"' z t (isSpace e)
  obtain ⟨e, t, he⟩ := List.exists_cons_of_ne_nil (List.append_ne_nil_of_left_ne_nil hfront.ne_nil _ :
    front ++ (d :: ':' :: s :: (p ++ v)) ≠ [])
  have hlength : (front ++ (d :: ':' :: s :: (p ++ v) ++ ['"'])).length = t.length + 1 + 1 := by
    rw [← List.append_assoc, he, List.length_append, List.length_cons, List.length_singleton]
  have hcons : front ++ (d :: ':' :: s :: (p ++ v) ++ ['"']) ++ z = e :: (t ++ '"' :: z) := by
    rw [← List.append_assoc, he]
    simp
  have htake : (e :: (t ++ '"' :: z)).take (t.length + 1 + 1) =
      front ++ (d :: ':' :: s :: (p ++ v) ++ ['"']) := by
    rw [← hcons]
    exact List.take_left' hlength
  rw [hlength, hcons] at hmatch
  rw [htext, hcons, sub, subFrom_of_some hmatch, hskip he rfl, htake, importRule_replace hfront,
    runOn_append _ hv, runOn_quote]
  simp [fullLibPath]

/-- A rule of a quoted import on the word at the front of a text. -/
theorem resume_importRule {w u : Text} (hw : Word w) (hu : Blank isSpace u) {later running : Bool}
    (hlater : '"' ∈ u ↔ later = true) :
    resume (importRule front) running (w ++ u) = importWord front later running w ++
      resume (importRule front) (runs (importRule front) later running w) u := by
  have hstarts := (importRule_edits hfront).starts
  cases running with
  | true =>
    by_cases hquote : '"' ∈ w
    · obtain ⟨p, z, rfl, hp⟩ := exists_quote hquote
      have hz : Word z := fun c hc => hw c (by simp [hc])
      have hrest : subFrom isSpace (importRule front) false 0 (z ++ u) = z ++ sub isSpace (importRule front) u :=
        subFrom_word hstarts hu hz (Nat.zero_le _)
      simp [resume, importWord, runs, runOn_append _ hp, runOn_quote, hrest, turned_append hp]
    · simp [resume, importWord, runs, runOn_append _ hquote, turned_of_not_mem hquote, hquote]
  | false =>
    have hlook : matchLength (importRule front).ahead (importRule front).items (w ++ u) = none ↔
        ¬ taken (importRule front) later w := by
      rw [taken, ← Option.not_isSome_iff_eq_none, matchLength_importRule hfront hu,
        matchLength_importRule hfront (blank_lookahead later), hlater, quote_mem_lookahead]
    by_cases htaken : taken (importRule front) later w
    · by_cases hclosed : (matchLength (importRule front).ahead (importRule front).items w).isSome
      · obtain ⟨p, z, rfl, hp⟩ := (closed_importRule hfront).1 hclosed
        have hquote : '"' ∉ p := List.forall_mem_ne'.1 (isDrivePath_quote hp)
        have hmatch : matchLength (importRule front).ahead (importRule front).items
            (front ++ (p ++ ['"']) ++ (z ++ u)) = _ := importRule_matchLength hp
        have htext : front ++ (p ++ ['"']) ++ (z ++ u) = front ++ (p ++ '"' :: z) ++ u := by simp
        have hsplit : front ++ (p ++ '"' :: z) = front ++ (p ++ ['"']) ++ z := by simp
        obtain ⟨n, hn⟩ : ∃ n, (front ++ (p ++ ['"'])).length = n + 1 := ⟨front.length + p.length, by simp; omega⟩
        rw [htext, hn] at hmatch
        have hle : n + 1 ≤ (front ++ (p ++ '"' :: z)).length := by
          have hlength : (front ++ (p ++ ['"']) ++ z).length = (front ++ (p ++ ['"'])).length + z.length :=
            List.length_append
          rw [← hn, hsplit, hlength]
          exact Nat.le_add_right _ _
        have hsub := sub_word_of_some hstarts hw hu hmatch hle
        rw [← hn, hsplit, List.take_left, List.drop_left, importRule_replace hfront, ← hsplit] at hsub
        have hruns : runs (importRule front) later false (front ++ (p ++ '"' :: z)) = false := by
          simp only [runs, if_neg Bool.false_ne_true, Bool.and_eq_false_iff, Option.isNone_eq_false_iff]
          exact .inr hclosed
        rw [hruns, importWord, if_neg Bool.false_ne_true, if_pos htaken, drop_front hfront, turned_append hquote]
        refine hsub.trans ?_
        simp [resume]
      · rcases (taken_importRule hfront).1 htaken with hsome | ⟨rfl, d, s, p, rfl, hd, hs, hp⟩
        · exact absurd ((closed_importRule hfront).2 hsome) hclosed
        · have hruns : runs (importRule front) true false (front ++ (d :: ':' :: s :: p)) = true := by
            simp only [runs, if_neg Bool.false_ne_true, htaken, Bool.true_and, Option.isNone_iff_eq_none]
            exact Option.not_isSome_iff_eq_none.1 hclosed
          have hquote : '"' ∉ d :: ':' :: s :: p := by
            have hd' := (plain_of_letter hd).2
            have hs' := (plain_of_slash hs).2
            simp [hp, hd'.symm, hs'.symm]
          have hsub := sub_importRule_open hfront hd hs hp hu (hlater.2 rfl)
          rw [hruns, importWord, if_neg Bool.false_ne_true, if_pos htaken, drop_front hfront,
            turned_of_not_mem hquote]
          exact hsub
    · have hsub := sub_word_of_none hstarts hw hu (hlook.2 htaken)
      have hruns : runs (importRule front) later false w = false := by simp [runs, htaken]
      rw [hruns, importWord, if_neg Bool.false_ne_true, if_neg htaken]
      exact hsub

theorem importWord_word {w : Text} (hw : Word w) (later running : Bool) : Word (importWord front later running w) := by
  unfold importWord
  split
  · exact turned_word hw
  · split
    next htaken =>
      obtain ⟨d, y, rfl, -⟩ := exists_front hfront htaken
      rw [drop_front hfront]
      exact Word.cons.2 ⟨by decide, turned_word (Word.append.1 hw).2⟩
    next => exact hw

theorem quote_mem_importWord {w : Text} {later running : Bool} :
    '"' ∈ importWord front later running w ↔ '"' ∈ w := by
  unfold importWord
  split
  · exact quote_mem_turned
  · split
    next htaken =>
      obtain ⟨d, y, rfl, -⟩ := exists_front hfront htaken
      exact iff_of_true (.head _) (List.mem_append_left _ hfront.quote)
    next => exact Iff.rfl

theorem scan_importWord (quoted : Bool) {w : Text} {later running : Bool} :
    scan isSpace '"' quoted (importWord front later running w) = scan isSpace '"' quoted w := by
  unfold importWord
  split
  · exact scan_turned quoted w
  · split
    next htaken =>
      obtain ⟨d, y, rfl, -⟩ := exists_front hfront htaken
      rw [drop_front hfront, scan_quote, scan_turned, scan_append, hfront.scans, Option.bind_some]
    next => rfl

end Import

end BuildEngine.Adapter
