/-
Texts from which a word is left out at some places: behind a character that is chosen for it, and where a second word
follows the first. The characters that may be chosen (the marks) occur in neither word, so that the places do not
interfere with each other, and the words begin with different characters, so that a text tells where something was
left out.
-/
import Mathlib.Data.List.Infix
import Mathlib.Tactic

namespace Base.Cut

variable {α β : Type} [DecidableEq β] {dropped kept : List β}

variable (dropped kept) in
/-- The characters of a text behind the next `skip`, without `dropped` behind the chosen ones that `dropped ++ kept`
follows. -/
def cutFrom (char : α → β) (chosen : α → Bool) : ℕ → List α → List β
  | _, [] => []
  | skip + 1, _ :: t => cutFrom char chosen skip t
  | 0, x :: t =>
    char x ::
      cutFrom char chosen (if chosen x && (dropped ++ kept).isPrefixOf (t.map char) then dropped.length else 0) t

variable (dropped kept) in
def cut (char : α → β) (chosen : α → Bool) (t : List α) : List β := cutFrom dropped kept char chosen 0 t

/-- The text behind the next `skip` characters with every occurrence of `v` replaced by `w`, from left to right. -/
def replaceFrom (v w : List β) : ℕ → List β → List β
  | _, [] => []
  | skip + 1, _ :: t => replaceFrom v w skip t
  | 0, c :: t =>
    if v.isPrefixOf (c :: t) then w ++ replaceFrom v w (v.length - 1) t else c :: replaceFrom v w 0 t

def replaceAll (v w t : List β) : List β := replaceFrom v w 0 t

/-- The words that are left out and kept behind a mark. -/
structure Words (mark : β → Bool) (dropped kept : List β) : Prop where
  unmarked : ∀ c ∈ dropped ++ kept, ¬ mark c
  heads : ∃ d ds k ks, dropped = d :: ds ∧ kept = k :: ks ∧ d ≠ k

section Cut

variable {char : α → β} {chosen : α → Bool}

theorem cutFrom_skip : ∀ (a t : List α), cutFrom dropped kept char chosen a.length (a ++ t) =
    cut dropped kept char chosen t
  | [], _ => rfl
  | x :: a, t => by
    rw [List.length_cons, List.cons_append, cutFrom]
    exact cutFrom_skip a t

theorem cut_append : ∀ {a : List α} (t : List α), (∀ x ∈ a, ¬ chosen x) →
    cut dropped kept char chosen (a ++ t) = a.map char ++ cut dropped kept char chosen t
  | [], _, _ => rfl
  | x :: a, t, ha => by
    have hx : chosen x = false := Bool.eq_false_iff.2 (ha x (.head _))
    have hrest := cut_append t fun y hy => ha y (.tail _ hy)
    rw [List.cons_append, cut, cutFrom, hx, Bool.false_and, if_neg Bool.false_ne_true, List.map_cons,
      List.cons_append]
    exact congrArg (char x :: ·) hrest

/-- At a chosen place, the first word is left out. -/
theorem cut_cons_place {x : α} {p t : List α} (hx : chosen x) (hp : p.map char = dropped) (ht : kept <+: t.map char) :
    cut dropped kept char chosen (x :: (p ++ t)) = char x :: cut dropped kept char chosen t := by
  have hstart : (dropped ++ kept).isPrefixOf ((p ++ t).map char) := by
    rw [List.isPrefixOf_iff_prefix, List.map_append, hp]
    exact (List.prefix_append_right_inj dropped).2 ht
  have hlength : dropped.length = p.length := by rw [← hp, List.length_map]
  rw [cut, cutFrom, hx, hstart, Bool.and_self, if_pos rfl, hlength, cutFrom_skip]

/-- Elsewhere, the character stays alone. -/
theorem cut_cons {x : α} {t : List α} (h : ¬ (chosen x ∧ dropped ++ kept <+: t.map char)) :
    cut dropped kept char chosen (x :: t) = char x :: cut dropped kept char chosen t := by
  have hnot : ¬ (chosen x && (dropped ++ kept).isPrefixOf (t.map char)) := by
    rwa [Bool.and_eq_true, List.isPrefixOf_iff_prefix]
  rw [cut, cutFrom, if_neg hnot]
  rfl

omit [DecidableEq β] in
/-- A text that begins with both words, split behind the first one. -/
theorem exists_words {t : List α} (h : dropped ++ kept <+: t.map char) :
    ∃ p t', t = p ++ t' ∧ p.map char = dropped ∧ kept <+: t'.map char := by
  obtain ⟨u, hu⟩ := h
  rw [List.append_assoc] at hu
  obtain ⟨p, t', rfl, hp, ht'⟩ := List.map_eq_append_iff.1 hu.symm
  exact ⟨p, t', rfl, hp, u, ht'.symm⟩

variable (dropped kept) in
omit [DecidableEq β] in
/-- Induction over a text by the places where the two words stand behind a character. -/
theorem place_induction (char : α → β) {P : List α → Prop} (nil : P [])
    (place : ∀ x p t, p.map char = dropped → kept <+: t.map char → P (p ++ t) → P t → P (x :: (p ++ t)))
    (other : ∀ x t, ¬ dropped ++ kept <+: t.map char → P t → P (x :: t)) : ∀ t, P t := by
  intro t
  induction hn : t.length using Nat.strong_induction_on generalizing t with
  | _ n ih =>
    subst hn
    cases t with
    | nil => exact nil
    | cons x t =>
      by_cases hplace : dropped ++ kept <+: t.map char
      · obtain ⟨p, t, rfl, hp, ht⟩ := exists_words hplace
        have hlt : t.length < (x :: (p ++ t)).length := by
          rw [List.length_cons, List.length_append]
          omega
        exact place x p t hp ht (ih _ (Nat.lt_succ_self _) _ rfl) (ih _ hlt _ rfl)
      · exact other x t hplace (ih _ (Nat.lt_succ_self _) _ rfl)

/-- What is left out of a text has none of the characters with a property that the first word has not. -/
theorem filter_cut {char : α → β} {chosen : α → Bool} {p : β → Bool} (hdropped : dropped.filter p = []) (t : List α) :
    (cut dropped kept char chosen t).filter p = (t.map char).filter p := by
  induction t using place_induction dropped kept char with
  | nil => rfl
  | place x q t hq ht ih ih' =>
    by_cases hx : chosen x
    · rw [cut_cons_place hx hq ht, List.map_cons, List.map_append, hq, List.filter_cons, List.filter_cons,
        List.filter_append, hdropped, List.nil_append, ih']
    · rw [cut_cons fun h => hx h.1, List.map_cons, List.filter_cons, List.filter_cons, ih]
  | other x t ht ih => rw [cut_cons fun h => ht h.2, List.map_cons, List.filter_cons, List.filter_cons, ih]

end Cut

section Marks

variable {mark : β → Bool}

/-- A word without marks stands at the front before and after. -/
theorem prefix_cut {char : α → β} {chosen : α → Bool} (hmark : ∀ x, chosen x → mark (char x)) {w : List β}
    (hw : ∀ c ∈ w, ¬ mark c) {t : List α} : w <+: cut dropped kept char chosen t ↔ w <+: t.map char := by
  induction w generalizing t with
  | nil => simp
  | cons c w ih =>
    cases t with
    | nil => exact Iff.rfl
    | cons x t =>
      by_cases hplace : chosen x ∧ dropped ++ kept <+: t.map char
      · -- the word does not begin with a mark
        have hne : c ≠ char x := by
          rintro rfl
          exact hw _ (.head _) (hmark x hplace.1)
        obtain ⟨p, t, rfl, hp, ht⟩ := exists_words hplace.2
        rw [cut_cons_place hplace.1 hp ht, List.map_cons, List.cons_prefix_cons, List.cons_prefix_cons]
        exact iff_of_false (fun h => hne h.1) fun h => hne h.1
      · rw [cut_cons hplace, List.map_cons, List.cons_prefix_cons, List.cons_prefix_cons,
          ih fun d hd => hw d (.tail _ hd)]

variable (hwords : Words mark dropped kept)
include hwords

omit [DecidableEq β] in
theorem Words.unmarked_place {char : α → β} {p : List α} (hp : p.map char = dropped) : ∀ x ∈ p, ¬ mark (char x) :=
  fun _ hx => hwords.unmarked _ (List.mem_append_left _ (hp ▸ List.mem_map_of_mem hx))

omit [DecidableEq β] in
/-- The words do not begin with the same character. -/
theorem Words.apart {u : List β} (hkept : kept <+: u) : ¬ dropped ++ kept <+: u := by
  obtain ⟨d, ds, k, ks, rfl, rfl, hne⟩ := hwords.heads
  rintro ⟨v, rfl⟩
  rw [List.append_assoc, List.cons_append, List.cons_prefix_cons] at hkept
  exact hne hkept.1.symm

/-- Behind a cut no place is left. -/
theorem no_place {char : α → β} {chosen : α → Bool} (hmark : ∀ x, chosen x ↔ mark (char x)) {t : List α} :
    ∀ {c : β} {post : List β}, c :: post <:+ cut dropped kept char chosen t → mark c → ¬ dropped ++ kept <+: post := by
  have hstart : ∀ {t : List α}, dropped ++ kept <+: cut dropped kept char chosen t ↔ dropped ++ kept <+: t.map char :=
    prefix_cut (fun x hx => (hmark x).1 hx) hwords.unmarked
  induction t using place_induction dropped kept char with
  | nil =>
    intro c post hsuffix
    cases List.suffix_nil.1 hsuffix
  | place x p t hp ht ih ih' =>
    intro c post hsuffix hc
    by_cases hx : chosen x
    · rw [cut_cons_place hx hp ht] at hsuffix
      rcases List.suffix_cons_iff.1 hsuffix with heq | hsuffix
      · obtain ⟨-, rfl⟩ := List.cons.inj heq
        rw [hstart]
        exact hwords.apart ht
      · exact ih' hsuffix hc
    · rw [cut_cons fun h => hx h.1] at hsuffix
      rcases List.suffix_cons_iff.1 hsuffix with heq | hsuffix
      · obtain ⟨rfl, -⟩ := List.cons.inj heq
        exact absurd ((hmark x).2 hc) hx
      · exact ih hsuffix hc
  | other x t ht ih =>
    intro c post hsuffix hc
    rw [cut_cons fun h => ht h.2] at hsuffix
    rcases List.suffix_cons_iff.1 hsuffix with heq | hsuffix
    · obtain ⟨-, rfl⟩ := List.cons.inj heq
      rwa [hstart]
    · exact ih hsuffix hc

/-- The replacement of a mark with both words by the mark with the second one. -/
theorem replaceAll_eq_cut {m : β} (hm : mark m) (t : List β) :
    replaceAll (m :: (dropped ++ kept)) (m :: kept) t = cut dropped kept id (· == m) t := by
  set v := m :: (dropped ++ kept)
  have hskip : ∀ (a t : List β), replaceFrom v (m :: kept) a.length (a ++ t) = replaceAll v (m :: kept) t := by
    intro a t
    induction a with
    | nil => rfl
    | cons x a ih => rw [List.length_cons, List.cons_append, replaceFrom, ih]
  have hcons : ∀ {x : β} {t : List β}, ¬ v <+: x :: t →
      replaceAll v (m :: kept) (x :: t) = x :: replaceAll v (m :: kept) t := by
    intro x t h
    rw [replaceAll, replaceFrom, if_neg (by rwa [List.isPrefixOf_iff_prefix])]
    rfl
  have happend : ∀ {a t : List β}, (∀ c ∈ a, ¬ mark c) →
      replaceAll v (m :: kept) (a ++ t) = a ++ replaceAll v (m :: kept) t := by
    intro a t ha
    induction a with
    | nil => rfl
    | cons x a ih =>
      have hnot : ¬ v <+: x :: (a ++ t) := by
        rw [List.cons_prefix_cons]
        rintro ⟨rfl, -⟩
        exact ha _ (.head _) hm
      rw [List.cons_append, hcons hnot, ih fun d hd => ha d (.tail _ hd), List.cons_append]
  induction t using place_induction dropped kept id with
  | nil => rfl
  | place x p t hp ht ih ih' =>
    rw [List.map_id] at hp ht
    subst hp
    by_cases hx : x = m
    · subst hx
      obtain ⟨t, rfl⟩ := ht
      have hstart : v.isPrefixOf (x :: (p ++ (kept ++ t))) := by
        rw [List.isPrefixOf_iff_prefix]
        exact ⟨t, by simp [v]⟩
      have hkept : ∀ c ∈ kept, ¬ mark c := fun c hc => hwords.unmarked c (List.mem_append_right _ hc)
      have hlength : v.length - 1 = (p ++ kept).length := rfl
      have hplace : kept <+: (kept ++ t).map id := by simp
      rw [cut_cons_place (by simp) (List.map_id p) hplace, ← ih', happend hkept, replaceAll, replaceFrom, if_pos hstart,
        hlength, ← List.append_assoc, hskip]
      rfl
    · have hnot : ¬ v <+: x :: (p ++ t) := by
        rw [List.cons_prefix_cons]
        exact fun h => hx h.1.symm
      rw [hcons hnot, ih, cut_cons (by simp [hx])]
      rfl
  | other x t ht ih =>
    have hnot : ¬ v <+: x :: t := by
      rw [List.cons_prefix_cons]
      rw [List.map_id] at ht
      exact fun h => ht h.2
    rw [hcons hnot, ih, cut_cons fun h => ht h.2]
    rfl

/-- Cutting behind some marks and then behind others. -/
theorem cut_cut {first second : β → Bool} (hfirst : ∀ c, first c → mark c)
    (hdisjoint : ∀ c, first c → ¬ second c) (t : List β) :
    cut dropped kept id second (cut dropped kept id first t) = cut dropped kept id (fun c => first c || second c) t := by
  have hstart : ∀ {t : List β}, dropped ++ kept <+: cut dropped kept id first t ↔ dropped ++ kept <+: t.map id :=
    prefix_cut hfirst hwords.unmarked
  induction t using place_induction dropped kept id with
  | nil => rfl
  | place x p t hp ht ih ih' =>
    have hboth : ∀ h : first x ∨ second x, cut dropped kept id (fun c => first c || second c) (x :: (p ++ t)) =
        x :: cut dropped kept id (fun c => first c || second c) t := fun h =>
      cut_cons_place (by simpa using h) hp ht
    by_cases hx : first x
    · rw [cut_cons_place hx hp ht, id_eq, cut_cons fun h => hdisjoint _ hx h.1, ih', hboth (.inl hx)]
      rfl
    · rw [cut_cons fun h => hx h.1]
      by_cases hx' : second x
      · -- the words stand behind the mark after the first cut, too
        have hp' : p = dropped := by rw [← hp, List.map_id]
        have hword : ∀ c ∈ p, ¬ first c := fun c hc h => hwords.unmarked_place hp c hc (hfirst c h)
        have hkept : ∀ c ∈ kept, ¬ mark c := fun c hc => hwords.unmarked c (List.mem_append_right _ hc)
        have hrest : kept <+: (cut dropped kept id first t).map id := by
          rw [List.map_id]
          exact (prefix_cut hfirst hkept).2 ht
        rw [cut_append _ hword, List.map_id, id_eq, cut_cons_place hx' hp hrest, ih', hboth (.inr hx')]
        rfl
      · rw [id_eq, cut_cons fun h => hx' h.1, ih, cut_cons (by simp [hx, hx']), id_eq]
  | other x t ht ih =>
    have hnot : ¬ (second x ∧ dropped ++ kept <+: (cut dropped kept id first t).map id) := by
      rintro ⟨-, h⟩
      rw [List.map_id, hstart] at h
      exact ht h
    rw [cut_cons fun h => ht h.2, id_eq, cut_cons hnot, ih, cut_cons fun h => ht h.2, id_eq]

end Marks

end Base.Cut
