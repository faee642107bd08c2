/-
What a substitution does to the token at the front of a text. A rule that only edits (`Edits`) leaves the blanks and
the quotes of its matches where they are, and every replacement makes the text heavier (`weigh`), so that a token in
which a match starts never comes out as it went in. The first five rules edit; the last one edits between quotes and
splits a switch in two.
-/
import BuildEngine.Adapter.LinkTokens

namespace BuildEngine.Adapter

open Base.Regex Base.Tokens

/-! ## Weights -/

/-- The weights are such that every replacement makes the text heavier. -/
def weight (c : Char) : ℤ :=
  if c = 'f' then 100 else if c = '-' ∨ c = '.' then -1 else if c = '=' then 10 else 0

def weigh (t : Text) : ℤ := (t.map weight).sum

@[simp] theorem weigh_nil : weigh [] = 0 := rfl

@[simp] theorem weigh_cons (c : Char) (t : Text) : weigh (c :: t) = weight c + weigh t := rfl

@[simp] theorem weigh_append (x y : Text) : weigh (x ++ y) = weigh x + weigh y := by
  rw [weigh, List.map_append, List.sum_append]
  rfl

/-! ## Characters and slashes -/

theorem isSpace_iff {c : Char} : isSpace c ↔ 9 ≤ c.toNat ∧ c.toNat ≤ 13 ∨ 28 ≤ c.toNat ∧ c.toNat ≤ 32 ∨
    c.toNat = 0x85 ∨ c.toNat = 0xA0 ∨ c.toNat = 0x1680 ∨ 0x2000 ≤ c.toNat ∧ c.toNat ≤ 0x200A ∨
    c.toNat = 0x2028 ∨ c.toNat = 0x2029 ∨ c.toNat = 0x202F ∨ c.toNat = 0x205F ∨ c.toNat = 0x3000 := by
  simp [isSpace, or_assoc]

theorem isLetter_iff {c : Char} : isLetter c ↔
    65 ≤ c.toNat ∧ c.toNat ≤ 90 ∨ 97 ≤ c.toNat ∧ c.toNat ≤ 122 := by
  simp only [isLetter, Bool.or_eq_true, Bool.and_eq_true, decide_eq_true_eq]
  rfl

/-- Not a blank and not a quote. -/
def Plain (c : Char) : Prop := ¬ isSpace c ∧ c ≠ '"'

instance (c : Char) : Decidable (Plain c) := inferInstanceAs (Decidable (_ ∧ _))

/-- A text is checked character by character, and not over all characters there are. -/
theorem forall_mem_of_all {p : Char → Prop} [DecidablePred p] {t : Text} (h : t.all fun c => p c) : ∀ c ∈ t, p c := by
  simpa using h

theorem plain_of_letter {c : Char} (h : isLetter c) : Plain c := by
  rw [isLetter_iff] at h
  refine ⟨fun hspace => ?_, ?_⟩
  · rw [isSpace_iff] at hspace
    omega
  · rintro rfl
    revert h
    decide

@[simp] theorem weigh_fullLibPath (t : Text) : weigh (fullLibPath t) = weigh t := by
  induction t with
  | nil => rfl
  | cons c t ih =>
    rw [fullLibPath, List.map_cons, weigh_cons, weigh_cons, ← fullLibPath, ih]
    split
    · subst c
      rfl
    · rfl

@[simp] theorem scan_fullLibPath (quoted : Bool) (t : Text) : scan isSpace '"' quoted (fullLibPath t) = scan isSpace '"' quoted t := by
  induction t generalizing quoted with
  | nil => rfl
  | cons c t ih =>
    rw [fullLibPath, List.map_cons, ← fullLibPath, scan, scan, ih]
    split
    · subst c
      rfl
    · rfl

theorem scan_plain {t : Text} (h : ∀ c ∈ t, Plain c) (quoted : Bool) :
    scan isSpace '"' quoted t = some quoted := by
  induction t with
  | nil => rfl
  | cons c t ih =>
    obtain ⟨hc, hquote⟩ := h c (.head _)
    rw [scan, toggle, if_neg hquote, if_neg (by simp [hc])]
    exact ih fun d hd => h d (.tail _ hd)

/-! ## Rules that edit -/

structure Edits (k : ℤ) (r : Rule Char) : Prop where
  items : r.items ≠ []
  starts : ∀ c t, isSpace c → matchLength r.ahead r.items (c :: t) = none
  front : ∀ x, Matches r.items x → x.head? ≠ some '/'
  replaced : ∀ x, Matches r.items x → ∃ c y, r.replace x = c :: y ∧ c ≠ '/' ∧ ¬ isSpace c
  quotes : ∀ x, Matches r.items x → ('"' ∈ r.replace x ↔ '"' ∈ x)
  scans : ∀ x, Matches r.items x → ∀ quoted, scan isSpace '"' quoted (r.replace x) = scan isSpace '"' quoted x
  gains : ∀ x, Matches r.items x → weigh x + k ≤ weigh (r.replace x)
  /-- a match that goes on behind its token -/
  crosses : ∀ y c z, isSpace c → Matches r.items (y ++ c :: z) → ∃ y' z', r.replace (y ++ c :: z) = y' ++ c :: z' ∧
    (∀ quoted, scan isSpace '"' quoted y' = scan isSpace '"' quoted y) ∧ weigh y + k ≤ weigh y'

section Edits

variable {k : ℤ} {r : Rule Char} (hr : Edits k r) (hk : 0 ≤ k)

/-- What becomes of the front `t` of a text. -/
structure Edited (t u t' u' : Text) : Prop where
  ends : u'.head? = u.head?
  scans : ∀ quoted, scan isSpace '"' quoted t' = scan isSpace '"' quoted t
  grows : weigh t ≤ weigh t'

theorem Edited.refl {t u : Text} : Edited t u t u := ⟨rfl, fun _ => rfl, le_rfl⟩

theorem Edited.trans {t u t' u' t'' u'' : Text} (h : Edited t u t' u') (h' : Edited t' u' t'' u'') :
    Edited t u t'' u'' :=
  ⟨h'.ends.trans h.ends, fun q => (h'.scans q).trans (h.scans q), h.grows.trans h'.grows⟩

include hr hk

omit hk in
theorem Edits.exists_match {t : Text} (h : matchLength r.ahead r.items t ≠ none) :
    ∃ n, matchLength r.ahead r.items t = some (n + 1) ∧ n + 1 ≤ t.length ∧ Matches r.items (t.take (n + 1)) := by
  obtain ⟨m, hm⟩ := Option.ne_none_iff_exists'.1 h
  obtain ⟨hle, hmatch, -⟩ := matches_take hm
  cases m with
  | zero => exact absurd rfl (hmatch.ne_nil hr.items)
  | succ n => exact ⟨n, hm, hle, hmatch⟩

/-- The front of a text, of which `n` characters belong to a match already. -/
theorem Edits.subFrom_append {u : Text} (hu : Blank isSpace u) : ∀ (t : Text) (blank : Bool) {n : ℕ}, n ≤ t.length →
    ∃ t' u', subFrom isSpace r blank n (t ++ u) = t' ++ u' ∧ Edited (t.drop n) u t' u' ∧
      (n = 0 → ¬ Quiet isSpace r blank t u → weigh t + k ≤ weigh t')
  | [], blank, n, hn => by
    obtain rfl : n = 0 := Nat.le_zero.1 hn
    refine ⟨[], subFrom isSpace r blank 0 u, rfl, ⟨?_, fun _ => rfl, le_rfl⟩, fun _ h => absurd trivial h⟩
    cases u with
    | nil => rfl
    | cons c u =>
      rw [subFrom_of_none fun _ => hr.starts c u (hu c rfl)]
      rfl
  | a :: t, blank, n + 1, hn => by
    obtain ⟨t', u', heq, hedit, -⟩ := Edits.subFrom_append hu t (isSpace a) (Nat.le_of_succ_le_succ hn)
    refine ⟨t', u', ?_, hedit, fun h => Nat.noConfusion h⟩
    rw [List.cons_append, subFrom, heq]
  | a :: t, blank, 0, _ => by
    by_cases hnone : blank = true → matchLength r.ahead r.items (a :: t ++ u) = none
    · obtain ⟨t', u', heq, hedit, hgain⟩ := Edits.subFrom_append hu t (isSpace a) (Nat.zero_le _)
      refine ⟨a :: t', u', ?_, ⟨hedit.ends, fun q => ?_, ?_⟩, fun _ hnoisy => ?_⟩
      · rw [List.cons_append] at hnone ⊢
        rw [subFrom_of_none hnone, heq, List.cons_append]
      · rw [List.drop_zero, scan, scan, hedit.scans, List.drop_zero]
      · have hgrows := hedit.grows
        rw [List.drop_zero] at hgrows ⊢
        rw [weigh_cons, weigh_cons]
        omega
      · have hgain := hgain rfl fun hquiet => hnoisy ⟨hnone, hquiet⟩
        rw [weigh_cons, weigh_cons]
        omega
    · obtain ⟨rfl, hsome⟩ := Classical.not_imp.1 hnone
      obtain ⟨n, hn, hle, hmatch⟩ := hr.exists_match hsome
      have hsub : subFrom isSpace r true 0 (a :: t ++ u) =
          r.replace ((a :: t ++ u).take (n + 1)) ++ subFrom isSpace r (isSpace a) n (t ++ u) := subFrom_of_some hn
      rw [hsub]
      by_cases hin : n ≤ t.length
      · -- the match ends in the token
        obtain ⟨t', u', heq, hedit, -⟩ := Edits.subFrom_append hu t (isSpace a) hin
        rw [List.take_append_of_le_length (by simpa using hin)] at hmatch ⊢
        have hsplit : (a :: t).take (n + 1) ++ t.drop n = a :: t := List.take_append_drop (n + 1) (a :: t)
        have hgain := hr.gains _ hmatch
        have hgrows := hedit.grows
        have hweigh := congrArg weigh hsplit
        rw [weigh_append] at hweigh
        refine ⟨r.replace ((a :: t).take (n + 1)) ++ t', u', ?_, ⟨hedit.ends, fun q => ?_, ?_⟩, fun _ _ => ?_⟩
        · rw [heq, List.append_assoc]
        · rw [List.drop_zero, scan_append, hr.scans _ hmatch]
          simp only [hedit.scans]
          rw [← scan_append, hsplit]
        · rw [List.drop_zero, weigh_append]
          omega
        · rw [weigh_append]
          omega
      · -- the match goes on behind it
        cases u with
        | nil =>
          rw [List.append_nil] at hle
          exact absurd (Nat.le_of_succ_le_succ hle) hin
        | cons c v =>
          obtain ⟨j, hj⟩ : ∃ j, n + 1 - (a :: t).length = j + 1 := ⟨n - (t.length + 1), by simp; omega⟩
          rw [List.take_append, hj, List.take_of_length_le (by simp; omega), List.take_succ_cons] at hmatch ⊢
          obtain ⟨t', z', heq, hscan, hgain⟩ := hr.crosses _ c _ (hu c rfl) hmatch
          refine ⟨t', c :: z' ++ subFrom isSpace r (isSpace a) n (t ++ c :: v), ?_, ⟨rfl, hscan, ?_⟩,
            fun _ _ => hgain⟩
          · rw [heq, List.append_assoc]
          · rw [List.drop_zero]
            omega

theorem Edits.sub_append {t u : Text} (hu : Blank isSpace u) : ∃ t' u', sub isSpace r (t ++ u) = t' ++ u' ∧
    Edited t u t' u' ∧ (¬ Quiet isSpace r true t u → weigh t + k ≤ weigh t') := by
  obtain ⟨t', u', heq, hedit, hgain⟩ := hr.subFrom_append hk hu t true (Nat.zero_le _)
  exact ⟨t', u', heq, hedit, hgain rfl⟩

omit hk

/-- A text keeps its quotes. -/
theorem Edits.quote_mem_subFrom : ∀ {t : Text} {blank : Bool} {n : ℕ},
    '"' ∈ subFrom isSpace r blank n t ↔ '"' ∈ t.drop n
  | [], blank, n => by
    rw [subFrom, List.drop_nil]
  | a :: t, blank, n + 1 => by
    rw [subFrom, List.drop_succ_cons]
    exact Edits.quote_mem_subFrom
  | a :: t, blank, 0 => by
    rw [List.drop_zero]
    by_cases hnone : blank = true → matchLength r.ahead r.items (a :: t) = none
    · rw [subFrom_of_none hnone, List.mem_cons, List.mem_cons, Edits.quote_mem_subFrom, List.drop_zero]
    · obtain ⟨rfl, hsome⟩ := Classical.not_imp.1 hnone
      obtain ⟨n, hn, -, hmatch⟩ := hr.exists_match hsome
      rw [subFrom_of_some hn, List.mem_append, hr.quotes _ hmatch, Edits.quote_mem_subFrom, ← List.mem_append]
      exact iff_of_eq (congrArg _ (List.take_append_drop (n + 1) (a :: t)))

theorem Edits.quote_mem_sub {t : Text} : '"' ∈ sub isSpace r t ↔ '"' ∈ t := hr.quote_mem_subFrom

omit hr in
theorem isSwitch_of_head {t : Text} (h : t.head? ≠ some '/') : isSwitch t = false := by
  unfold isSwitch
  split
  · exact absurd rfl h
  · rfl

/-- A text begins with a switch or not, before and after. -/
theorem Edits.isSwitch_sub (t : Text) : isSwitch (sub isSpace r t) = isSwitch t := by
  cases t with
  | nil => rfl
  | cons a t =>
    by_cases hnone : matchLength r.ahead r.items (a :: t) = none
    · rw [sub, subFrom_of_none fun _ => hnone]
      by_cases ha : a = '/'
      · -- behind the slash no match starts
        subst ha
        cases t with
        | nil => rfl
        | cons b t => rw [subFrom_of_none fun h => absurd h (by decide)]; rfl
      · rw [isSwitch_of_head (by simpa using ha), isSwitch_of_head (by simpa using ha)]
    · obtain ⟨n, hn, -, hmatch⟩ := hr.exists_match hnone
      obtain ⟨c, y, heq, hc, -⟩ := hr.replaced _ hmatch
      have ha := hr.front _ hmatch
      rw [sub, subFrom_of_some hn, heq, isSwitch_of_head (by simpa using hc), isSwitch_of_head (by simpa using ha)]

/-- A text that does not begin with a blank does not begin with one afterwards. -/
theorem Edits.head_sub {t : Text} (ht : ∃ c ∈ t.head?, ¬ isSpace c) : ∃ c ∈ (sub isSpace r t).head?, ¬ isSpace c := by
  cases t with
  | nil =>
    obtain ⟨c, ⟨⟩, -⟩ := ht
  | cons a t =>
    by_cases hnone : matchLength r.ahead r.items (a :: t) = none
    · rw [sub, subFrom_of_none fun _ => hnone]
      exact ht
    · obtain ⟨n, hn, -, hmatch⟩ := hr.exists_match hnone
      obtain ⟨c, y, heq, -, hc⟩ := hr.replaced _ hmatch
      rw [sub, subFrom_of_some hn, heq]
      exact ⟨c, rfl, hc⟩

end Edits

/-! ## The five rules -/

/-- The matches of the rule hold neither blanks nor quotes. -/
def PlainItems (r : Rule Char) : Prop := ∀ i ∈ r.items, ∀ c, i.accepts c → Plain c

theorem Edits.of_plain {k : ℤ} {r : Rule Char} (hitems : r.items ≠ []) (haccepts : PlainItems r) (hfront : ∀ x, Matches r.items x → x.head? ≠ some '/')
    (hreplaced : ∀ x, Matches r.items x → ∃ c y, r.replace x = c :: y ∧ c ≠ '/' ∧ ∀ d ∈ c :: y, Plain d)
    (hgains : ∀ x, Matches r.items x → weigh x + k ≤ weigh (r.replace x)) : Edits k r := by
  have hplain : ∀ x, Matches r.items x → ∀ c ∈ x, Plain c := by
    intro x hx c hc
    obtain ⟨i, hi, hic⟩ := hx.accepts c hc
    exact haccepts i hi c hic
  have hplain' : ∀ x, Matches r.items x → ∀ c ∈ r.replace x, Plain c := by
    intro x hx
    obtain ⟨c, y, heq, -, hall⟩ := hreplaced x hx
    rw [heq]
    exact hall
  refine ⟨hitems, fun c t hc => ?_, hfront, fun x hx => ?_, fun x hx => ?_, fun x hx q => ?_, hgains, ?_⟩
  · cases hitem : r.items with
    | nil => exact absurd hitem hitems
    | cons i is =>
      have hi : ¬ i.accepts c := fun h => (haccepts i (by rw [hitem]; exact .head _) c h).1 hc
      cases i with
      | one p => exact if_neg hi
      | plus p => exact if_neg hi
  · obtain ⟨c, y, heq, hc, hall⟩ := hreplaced x hx
    exact ⟨c, y, heq, hc, (hall c (.head _)).1⟩
  · exact iff_of_false (fun h => (hplain' x hx _ h).2 rfl) fun h => (hplain x hx _ h).2 rfl
  · rw [scan_plain (hplain x hx), scan_plain (hplain' x hx)]
  · intro y c z hc hmatch
    exact absurd hc (hplain _ hmatch c (by simp)).1

theorem matches_literal {is : List (Item Char)} : ∀ {s x : Text}, Matches (literal s ++ is) x ↔
    ∃ y, x = s ++ y ∧ Matches is y
  | [], x => by simp [literal]
  | c :: s, x => by
    rw [literal, List.map_cons, List.cons_append, ← literal, Matches]
    constructor
    · rintro ⟨d, y, rfl, hd, h⟩
      obtain ⟨z, rfl, hz⟩ := matches_literal.1 h
      obtain rfl : d = c := by simpa using hd
      exact ⟨z, rfl, hz⟩
    · rintro ⟨z, rfl, hz⟩
      exact ⟨c, s ++ z, rfl, by simp, matches_literal.2 ⟨z, rfl, hz⟩⟩

theorem accepts_literal {s : Text} {i : Item Char} (hi : i ∈ literal s) {c : Char} (hc : i.accepts c) : c ∈ s := by
  obtain ⟨d, hd, rfl⟩ := List.mem_map.1 hi
  obtain rfl : c = d := by simpa [Item.accepts] using hc
  exact hd

theorem plain_of_slash {c : Char} (h : isSlash c) : Plain c := by
  obtain rfl | rfl : c = '\\' ∨ c = '/' := by simpa [isSlash] using h
  · decide
  · decide

theorem fullLibPath_letter {d : Char} (hd : isLetter d) (t : Text) : fullLibPath (d :: t) = d :: fullLibPath t := by
  have hne : d ≠ '\\' := by
    rintro rfl
    revert hd
    decide
  rw [fullLibPath, List.map_cons, if_neg hne, ← fullLibPath]

theorem letter_ne_slash {d : Char} (hd : isLetter d) : d ≠ '/' := by
  rintro rfl
  revert hd
  decide

theorem fullLibPath_plain {t : Text} (h : ∀ c ∈ t, Plain c) : ∀ c ∈ fullLibPath t, Plain c := by
  intro c hc
  obtain ⟨d, hd, rfl⟩ := List.mem_map.1 hc
  split
  · decide
  · exact h d hd

/-- The text of a match of `colorDiagnostics`. -/
theorem matches_colorDiagnostics {x : Text} (h : Matches colorDiagnostics.items x) :
    x = "--color-diagnostics".toList := by
  rw [colorDiagnostics, ← List.append_nil (literal _), matches_literal] at h
  obtain ⟨y, rfl, rfl⟩ := h
  exact List.append_nil _

theorem colorDiagnostics_plain : PlainItems colorDiagnostics := by
  intro i hi c hc
  have hplain : ∀ c ∈ "--color-diagnostics".toList, Plain c := forall_mem_of_all (by decide)
  exact hplain c (accepts_literal hi hc)

theorem colorDiagnostics_edits : Edits 101 colorDiagnostics := by
  refine .of_plain (by decide) colorDiagnostics_plain ?_ ?_ ?_
  · intro x hx
    rw [matches_colorDiagnostics hx]
    decide
  · intro x _
    have hreplace : "-fcolor-diagnostics".toList = '-' :: "fcolor-diagnostics".toList := by decide
    exact ⟨'-', "fcolor-diagnostics".toList, hreplace, by decide, forall_mem_of_all (by decide)⟩
  · intro x hx
    rw [matches_colorDiagnostics hx]
    decide

/-- The text of a match of `bareImport`. -/
theorem matches_bareImport {x : Text} (h : Matches bareImport.items x) : ∃ d s p, x = '-' :: 'l' :: d :: ':' :: s :: p ∧
    isLetter d ∧ isSlash s ∧ ∀ c ∈ p, Plain c := by
  rw [bareImport, matches_literal] at h
  obtain ⟨y, rfl, d, y, rfl, hd, e, y, rfl, he, s, y, rfl, hs, p, y, rfl, -, hp, rfl⟩ := h
  obtain rfl : e = ':' := by simpa using he
  refine ⟨d, s, p, by simp, hd, hs, fun c hc => ?_⟩
  simpa [Plain] using hp c hc

theorem bareImport_plain : PlainItems bareImport := by
  intro i hi c hc
  rcases List.mem_append.1 hi with hi | hi
  · have hplain : ∀ c ∈ ['-', 'l'], Plain c := forall_mem_of_all (by decide)
    exact hplain c (accepts_literal hi hc)
  · simp only [List.mem_cons, List.not_mem_nil, or_false] at hi
    rcases hi with rfl | rfl | rfl | rfl
    · exact plain_of_letter hc
    · obtain rfl : c = ':' := by simpa [Item.accepts] using hc
      decide
    · exact plain_of_slash hc
    · simpa [Item.accepts, Plain] using hc

theorem bareImport_edits : Edits 1 bareImport := by
  refine .of_plain (by simp [bareImport]) bareImport_plain ?_ ?_ ?_
  · intro x hx
    obtain ⟨d, s, p, rfl, -⟩ := matches_bareImport hx
    simp
  · intro x hx
    obtain ⟨d, s, p, rfl, hd, hs, hp⟩ := matches_bareImport hx
    refine ⟨d, fullLibPath (':' :: s :: p), fullLibPath_letter hd _, letter_ne_slash hd, ?_⟩
    rw [← fullLibPath_letter hd]
    refine fullLibPath_plain fun c hc => ?_
    simp only [List.mem_cons] at hc
    rcases hc with rfl | rfl | rfl | hc
    · exact plain_of_letter hd
    · decide
    · exact plain_of_slash hs
    · exact hp c hc
  · intro x hx
    obtain ⟨d, s, p, rfl, -⟩ := matches_bareImport hx
    have hreplace : bareImport.replace ('-' :: 'l' :: d :: ':' :: s :: p) = fullLibPath (d :: ':' :: s :: p) := rfl
    have hdash : weight '-' = -1 := by decide
    have hl : weight 'l' = 0 := by decide
    rw [hreplace, weigh_fullLibPath, weigh_cons, weigh_cons, hdash, hl]
    omega

theorem plain_of_nameChar {c : Char} (h : isNameCharAnyCase c) : Plain c := by
  simp only [isNameCharAnyCase, isNameChar, Bool.or_eq_true, beq_iff_eq, Bool.and_eq_true, decide_eq_true_eq] at h
  rcases h with ((((((((h | h) | rfl) | rfl) | rfl) | rfl) | rfl) | rfl) | rfl) | rfl
  · exact plain_of_letter h
  · have h : 48 ≤ c.toNat ∧ c.toNat ≤ 57 := h
    refine ⟨fun hspace => ?_, ?_⟩
    · rw [isSpace_iff] at hspace
      omega
    · rintro rfl
      revert h
      decide
  all_goals decide

/-- The text of a match of `systemLib`. -/
theorem matches_systemLib {x : Text} (h : Matches systemLib.items x) : ∃ l name l' i b,
    x = '-' :: l :: name ++ ['.', l', i, b] ∧ isL l ∧ name ≠ [] ∧ (∀ c ∈ name, isNameCharAnyCase c) ∧
      isL l' ∧ isI i ∧ isB b := by
  obtain ⟨d, y, rfl, hd, l, y, rfl, hl, name, y, rfl, hne, hname, e, y, rfl, he, l', y, rfl, hl', i, y, rfl, hi,
    b, y, rfl, hb, rfl⟩ := h
  obtain rfl : d = '-' := by simpa using hd
  obtain rfl : e = '.' := by simpa using he
  exact ⟨l, name, l', i, b, rfl, hl, hne, hname, hl', hi, hb⟩

theorem systemLib_replace {l l' i b : Char} {name : Text} :
    systemLib.replace ('-' :: l :: name ++ ['.', l', i, b]) = '-' :: 'l' :: name := by
  simp [systemLib]

theorem isL_weight {c : Char} (h : isL c) : Plain c ∧ weight c = 0 := by
  obtain rfl | rfl : c = 'l' ∨ c = 'L' := by simpa [isL] using h
  · decide
  · decide

theorem isI_weight {c : Char} (h : isI c) : Plain c ∧ weight c = 0 := by
  obtain ((rfl | rfl) | rfl) | rfl : ((c = 'i' ∨ c = 'I') ∨ c = '\u0130') ∨ c = '\u0131' := by simpa [isI] using h
  all_goals decide

theorem isB_weight {c : Char} (h : isB c) : Plain c ∧ weight c = 0 := by
  obtain rfl | rfl : c = 'b' ∨ c = 'B' := by simpa [isB] using h
  · decide
  · decide

theorem systemLib_plain : PlainItems systemLib := by
  intro i hi c hc
  simp only [systemLib, List.mem_cons, List.not_mem_nil, or_false] at hi
  rcases hi with rfl | rfl | rfl | rfl | rfl | rfl | rfl
  · obtain rfl : c = '-' := by simpa [Item.accepts] using hc
    decide
  · exact (isL_weight hc).1
  · exact plain_of_nameChar hc
  · obtain rfl : c = '.' := by simpa [Item.accepts] using hc
    decide
  · exact (isL_weight hc).1
  · exact (isI_weight hc).1
  · exact (isB_weight hc).1

theorem systemLib_edits : Edits 1 systemLib := by
  refine .of_plain (by simp [systemLib]) systemLib_plain ?_ ?_ ?_
  · intro x hx
    obtain ⟨l, name, l', i, b, rfl, -⟩ := matches_systemLib hx
    simp
  · intro x hx
    obtain ⟨l, name, l', i, b, rfl, -, -, hname, -⟩ := matches_systemLib hx
    refine ⟨'-', 'l' :: name, systemLib_replace, by decide, ?_⟩
    simp only [List.mem_cons]
    rintro c (rfl | rfl | hc)
    · decide
    · decide
    · exact plain_of_nameChar (hname c hc)
  · intro x hx
    obtain ⟨l, name, l', i, b, rfl, hl, -, -, hl', hi, hb⟩ := matches_systemLib hx
    rw [systemLib_replace]
    simp only [weigh_cons, weigh_append, weigh_nil, (isL_weight hl).2, (isL_weight hl').2, (isI_weight hi).2,
      (isB_weight hb).2]
    have hdot : weight '.' = -1 := by decide
    have hl : weight 'l' = 0 := by decide
    omega

/-- The beginnings of a quoted import. -/
structure ImportFront (front : Text) : Prop where
  length : front.length = 3
  quote : '"' ∈ front
  head : front.head? ≠ some '/'
  blank : ∀ c ∈ front, ¬ isSpace c
  scans : ∀ quoted, scan isSpace '"' quoted front = some !quoted
  weighs : weigh front = -1

theorem quotedImport_front : ImportFront ['"', '-', 'l'] := by
  refine ⟨rfl, by decide, by decide, forall_mem_of_all (by decide), ?_, by decide⟩
  decide

theorem importQuoted_front : ImportFront ['-', 'l', '"'] := by
  refine ⟨rfl, by decide, by decide, forall_mem_of_all (by decide), ?_, by decide⟩
  decide

section Import

variable {front : Text}

/-- The text of a match of an import rule. -/
theorem matches_importRule {x : Text} : Matches (importRule front).items x ↔ ∃ d s p,
    x = front ++ (d :: ':' :: s :: p ++ ['"']) ∧ isLetter d ∧ isSlash s ∧ p ≠ [] ∧ ∀ c ∈ p, c ≠ '"' := by
  rw [importRule, matches_literal]
  constructor
  · rintro ⟨y, rfl, d, y, rfl, hd, e, y, rfl, he, s, y, rfl, hs, p, y, rfl, hne, hp, q, y, rfl, hq, rfl⟩
    obtain rfl : e = ':' := by simpa using he
    obtain rfl : q = '"' := by simpa using hq
    exact ⟨d, s, p, rfl, hd, hs, hne, fun c hc => by simpa using hp c hc⟩
  · rintro ⟨d, s, p, rfl, hd, hs, hne, hp⟩
    exact ⟨_, rfl, d, _, rfl, hd, ':', _, rfl, rfl, s, _, rfl, hs, p, _, rfl, hne, fun c hc => by simpa using hp c hc,
      '"', _, rfl, rfl, rfl⟩

theorem importRule_replace (hfront : ImportFront front) (group : Text) :
    (importRule front).replace (front ++ (group ++ ['"'])) = '"' :: fullLibPath group ++ ['"'] := by
  have hdrop : (front ++ (group ++ ['"'])).drop 3 = group ++ ['"'] := List.drop_left' hfront.length
  rw [importRule]
  simp only [hdrop, List.dropLast_concat]

theorem quote_mem_fullLibPath {t : Text} : '"' ∈ fullLibPath t ↔ '"' ∈ t := by
  constructor
  · intro h
    obtain ⟨c, hc, heq⟩ := List.mem_map.1 h
    split at heq
    · exact absurd heq (by decide)
    · exact heq ▸ hc
  · intro h
    exact List.mem_map.2 ⟨'"', h, rfl⟩

theorem ImportFront.ne_nil (hfront : ImportFront front) : front ≠ [] := by
  rintro rfl
  exact absurd hfront.length (by decide)

theorem scan_quote (quoted : Bool) (t : Text) :
    scan isSpace '"' quoted ('"' :: t) = scan isSpace '"' (!quoted) t := by
  cases quoted <;> rfl

/-- Both sides of the replacement leave the quotes alike. -/
theorem ImportFront.scan_replaced (hfront : ImportFront front) (quoted : Bool) (t u : Text) :
    scan isSpace '"' quoted ('"' :: fullLibPath t ++ u) = scan isSpace '"' quoted (front ++ (t ++ u)) := by
  rw [List.cons_append, scan_quote, scan_append, scan_fullLibPath, scan_append, hfront.scans,
    Option.bind_some, scan_append]

theorem ImportFront.weigh_replaced (hfront : ImportFront front) (t u : Text) :
    weigh (front ++ (t ++ u)) + 1 ≤ weigh ('"' :: fullLibPath t ++ u) := by
  have hquote : weight '"' = 0 := by decide
  simp only [weigh_append, weigh_cons, weigh_fullLibPath, hfront.weighs, hquote]
  omega

theorem ImportFront.blank_path (hfront : ImportFront front) {d s : Char} (hd : isLetter d) (hs : isSlash s) :
    ∀ c ∈ front ++ [d, ':', s], ¬ isSpace c := by
  intro c hc
  simp only [List.mem_append, List.mem_cons, List.not_mem_nil, or_false] at hc
  rcases hc with hc | rfl | rfl | rfl
  · exact hfront.blank c hc
  · exact (plain_of_letter hd).1
  · decide
  · exact (plain_of_slash hs).1

/-- A blank behind a text without blanks. -/
theorem exists_append_of_blank {a b y z : Text} {c : Char} (heq : y ++ c :: z = a ++ b)
    (ha : ∀ e ∈ a, ¬ isSpace e) (hc : isSpace c) : ∃ w, y = a ++ w ∧ b = w ++ c :: z := by
  rcases List.append_eq_append_iff.1 heq with ⟨a', rfl, hb⟩ | ⟨w, rfl, hb⟩
  · cases a' with
    | nil => exact ⟨[], by simp, hb.symm⟩
    | cons e a' =>
      obtain rfl := (List.cons.inj hb).1
      exact absurd hc (ha c (by simp))
  · exact ⟨w, rfl, hb⟩

/-- A blank in front of a closing quote. -/
theorem exists_append_of_quote {p w z : Text} {c : Char} (heq : p ++ ['"'] = w ++ c :: z) (hc : isSpace c) :
    ∃ p', p = w ++ c :: p' ∧ z = p' ++ ['"'] := by
  rcases List.append_eq_append_iff.1 heq with ⟨a, rfl, ha⟩ | ⟨p', rfl, hz⟩
  · cases a with
    | nil =>
      obtain ⟨rfl, -⟩ := List.cons.inj ha
      exact absurd hc (by decide)
    | cons e a =>
      have hlength := congrArg List.length ha
      simp at hlength
  · cases p' with
    | nil =>
      obtain ⟨rfl, -⟩ := List.cons.inj hz
      exact absurd hc (by decide)
    | cons e p' =>
      obtain ⟨rfl, rfl⟩ := List.cons.inj hz
      exact ⟨p', rfl, rfl⟩

theorem importRule_edits (hfront : ImportFront front) : Edits 1 (importRule front) := by
  refine ⟨by simp [importRule], ?_, ?_, ?_, ?_, ?_, ?_, ?_⟩
  · intro c t hc
    by_contra hsome
    obtain ⟨n, hn⟩ := Option.ne_none_iff_exists'.1 hsome
    obtain ⟨-, hmatch, -⟩ := matches_take hn
    obtain ⟨d, s, p, heq, -⟩ := matches_importRule.1 hmatch
    have hmem : c ∈ front := by
      obtain ⟨a, front', rfl⟩ := List.exists_cons_of_ne_nil hfront.ne_nil
      cases n with
      | zero => cases heq
      | succ n => exact (List.cons.inj heq).1 ▸ .head _
    exact hfront.blank c hmem hc
  · intro x hx
    obtain ⟨d, s, p, rfl, -⟩ := matches_importRule.1 hx
    rw [List.head?_append_of_ne_nil _ hfront.ne_nil]
    exact hfront.head
  · intro x hx
    obtain ⟨d, s, p, rfl, -⟩ := matches_importRule.1 hx
    exact ⟨'"', _, importRule_replace hfront _, by decide, by decide⟩
  · intro x hx
    obtain ⟨d, s, p, rfl, -⟩ := matches_importRule.1 hx
    rw [importRule_replace hfront]
    exact iff_of_true (by simp) (by simp)
  · intro x hx q
    obtain ⟨d, s, p, rfl, -⟩ := matches_importRule.1 hx
    rw [importRule_replace hfront]
    exact hfront.scan_replaced q _ _
  · intro x hx
    obtain ⟨d, s, p, rfl, -⟩ := matches_importRule.1 hx
    rw [importRule_replace hfront]
    exact hfront.weigh_replaced _ _
  · intro y c z hc hx
    obtain ⟨d, s, p, heq, hd, hs, -, -⟩ := matches_importRule.1 hx
    -- the blank stands behind the first slash and in front of the closing quote
    obtain ⟨p₁, p₂, rfl, rfl, rfl⟩ : ∃ p₁ p₂, p = p₁ ++ c :: p₂ ∧ y = front ++ (d :: ':' :: s :: p₁) ∧
        z = p₂ ++ ['"'] := by
      have hblank := hfront.blank_path hd hs
      obtain ⟨w, rfl, hw⟩ := exists_append_of_blank (b := p ++ ['"']) (by simpa using heq) hblank hc
      obtain ⟨p', rfl, rfl⟩ := exists_append_of_quote hw hc
      exact ⟨w, p', rfl, by simp, rfl⟩
    refine ⟨'"' :: fullLibPath (d :: ':' :: s :: p₁), fullLibPath p₂ ++ ['"'], ?_, fun q => ?_, ?_⟩
    · have hblank : c ≠ '\\' := by
        rintro rfl
        exact absurd hc (by decide)
      have hgroup : front ++ (d :: ':' :: s :: p₁) ++ c :: (p₂ ++ ['"']) =
          front ++ ((d :: ':' :: s :: (p₁ ++ c :: p₂)) ++ ['"']) := by simp
      rw [hgroup, importRule_replace hfront]
      simp [fullLibPath, hblank]
    · have hscan := hfront.scan_replaced q (d :: ':' :: s :: p₁) []
      rwa [List.append_nil, List.append_nil] at hscan
    · have hweigh := hfront.weigh_replaced (d :: ':' :: s :: p₁) []
      rwa [List.append_nil, List.append_nil] at hweigh

end Import

end BuildEngine.Adapter
