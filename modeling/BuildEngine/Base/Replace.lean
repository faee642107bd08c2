/-
The replacement of every occurrence of a word, from left to right, of which no proper suffix is a prefix: what it leaves of
the two words, and of a text without the first one.
-/
import BuildEngine.Base.Cut
import BuildEngine.Base.Text

namespace Base.Text

open Base.Cut

variable {α : Type} [DecidableEq α] {v w : List α}

theorem replaceFrom_skip (b : List α) : ∀ a : List α, replaceFrom v w a.length (a ++ b) = replaceAll v w b
  | [] => rfl
  | _ :: a => replaceFrom_skip b a

theorem replaceAll_absent {t : List α} (h : ¬ v <:+: t) : replaceAll v w t = t := by
  induction t with
  | nil => rfl
  | cons c t ih =>
    have hstart : ¬ v.isPrefixOf (c :: t) := fun hp => h (List.isPrefixOf_iff_prefix.1 hp).isInfix
    have hrest : ¬ v <:+: t := fun ht => h (List.infix_cons ht)
    rw [replaceAll, replaceFrom, if_neg hstart]
    exact congrArg (c :: ·) (ih hrest)

/-- At the first occurrence. -/
theorem replaceAll_around (hv : v ≠ []) (hborderless : Borderless v) (b : List α) {a : List α} (ha : ¬ v <:+: a) :
    replaceAll v w (a ++ v ++ b) = a ++ w ++ replaceAll v w b := by
  induction a with
  | nil =>
    obtain ⟨c, v', rfl⟩ := List.exists_cons_of_ne_nil hv
    have hstart : (c :: v').isPrefixOf (c :: (v' ++ b)) := by
      rw [List.isPrefixOf_iff_prefix]
      exact List.prefix_append (c :: v') b
    rw [List.nil_append, List.nil_append, List.cons_append, replaceAll, replaceFrom, if_pos hstart, List.length_cons,
      Nat.add_sub_cancel, replaceFrom_skip]
  | cons c a ih =>
    have hstart : ¬ v.isPrefixOf (c :: (a ++ v ++ b)) := by
      rw [List.isPrefixOf_iff_prefix]
      exact hborderless.prefix_drop ha (Nat.succ_pos a.length)
    have hrest : ¬ v <:+: a := fun h => ha (List.infix_cons h)
    rw [List.cons_append, List.cons_append, replaceAll, replaceFrom, if_neg hstart]
    exact congrArg (c :: ·) (ih hrest)

/-- A text is cut at the first occurrence, if there is one. -/
theorem first_induction (hv : v ≠ []) {P : List α → Prop} (none : ∀ t, ¬ v <:+: t → P t)
    (around : ∀ a b, ¬ v <:+: a → P b → P (a ++ v ++ b)) (t : List α) : P t := by
  induction hn : t.length using Nat.strong_induction_on generalizing t with
  | _ n ih =>
    by_cases hin : v <:+: t
    · obtain ⟨i, hi⟩ := find_isSome hin
      obtain ⟨heq, -⟩ := find_some hi
      have hbefore : ¬ v <:+: t.take i := find_take hv hi
      rw [heq]
      apply around _ _ hbefore
      refine ih _ ?_ _ rfl
      have hpos : 0 < v.length := List.length_pos_iff.2 hv
      have hlength := congrArg List.length heq
      simp only [List.length_append, List.length_drop] at hlength ⊢
      omega
    · exact none t hin

/-- Nothing of the replaced word is left. -/
theorem count_replaceAll_self (hv : v ≠ []) (hborderless : Borderless v) (h : Apart v w) (t : List α) :
    count v (replaceAll v w t) = 0 := by
  induction t using first_induction hv with
  | none t ht =>
    rw [replaceAll_absent ht]
    by_contra hne
    exact ht ((count_pos_iff hv).1 (by omega))
  | around a b ha ih =>
    have hzero : count v a = 0 := by
      by_contra hne
      exact ha ((count_pos_iff hv).1 (by omega))
    rw [replaceAll_around hv hborderless b ha, h.count_around hv, ih, hzero]

/-- Each of its occurrences has become one of the other word. -/
theorem count_replaceAll (hv : v ≠ []) (hw : w ≠ []) (hborderless : Borderless v) (hborderless' : Borderless w)
    (h : Apart w v) (t : List α) : count w (replaceAll v w t) = count w t + count v t := by
  induction t using first_induction hv with
  | none t ht =>
    have hzero : count v t = 0 := by
      by_contra hne
      exact ht ((count_pos_iff hv).1 (by omega))
    rw [replaceAll_absent ht, hzero, Nat.add_zero]
  | around a b ha ih =>
    have hzero : count v a = 0 := by
      by_contra hne
      exact ha ((count_pos_iff hv).1 (by omega))
    rw [replaceAll_around hv hborderless b ha, hborderless'.count_around hw, h.count_around hw, hborderless.count_around hv,
      ih, hzero]
    omega

/-- A word apart from both occurs as often as before. -/
theorem count_replaceAll_of_apart {p : List α} (hp : p ≠ []) (hv : v ≠ []) (hborderless : Borderless v) (hpv : Apart p v)
    (hpw : Apart p w) (t : List α) : count p (replaceAll v w t) = count p t := by
  induction t using first_induction hv with
  | none t ht => rw [replaceAll_absent ht]
  | around a b ha ih => rw [replaceAll_around hv hborderless b ha, hpw.count_around hp, hpv.count_around hp, ih]

theorem count_eq_zero_iff (hv : v ≠ []) {t : List α} : count v t = 0 ↔ ¬ v <:+: t := by
  rw [← count_pos_iff hv]
  omega

/-- The replacement of the only occurrence. -/
theorem replaceAll_once (hv : v ≠ []) (hborderless : Borderless v) {t : List α} (hone : count v t = 1) :
    ∃ a b, t = a ++ v ++ b ∧ count v a = 0 ∧ count v b = 0 ∧ replaceAll v w t = a ++ w ++ b := by
  have hin : v <:+: t := (count_pos_iff hv).1 (by omega)
  obtain ⟨i, hi⟩ := find_isSome hin
  obtain ⟨heq, -⟩ := find_some hi
  have hbefore : count v (t.take i) = 0 := (count_eq_zero_iff hv).2 (find_take hv hi)
  have hbehind : count v (t.drop (i + v.length)) = 0 := by
    rw [heq, hborderless.count_around hv] at hone
    omega
  refine ⟨_, _, heq, hbefore, hbehind, ?_⟩
  conv_lhs => rw [heq]
  rw [replaceAll_around hv hborderless _ ((count_eq_zero_iff hv).1 hbefore),
    replaceAll_absent ((count_eq_zero_iff hv).1 hbehind)]

/-! ## A word that is put between two others -/

section Wrapped

variable {x y : List α} (hv : v ≠ []) (hborderless : Borderless v) (hx : Apart v x) (hy : Apart v y)
include hv hborderless hx hy

theorem count_wrapped (a b : List α) : count v (a ++ (x ++ v ++ y) ++ b) = count v a + 1 + count v b := by
  have hsplit : a ++ (x ++ v ++ y) ++ b = (a ++ x ++ []) ++ v ++ ([] ++ y ++ b) := by
    simp only [List.append_assoc, List.append_nil, List.nil_append]
  have hnil : count v [] = 0 := rfl
  rw [hsplit, hborderless.count_around hv, hx.count_around hv, hy.count_around hv, hnil]
  omega

/-- Around the only occurrence of the word the others occur once at most. -/
theorem count_wrapped_eq_one (hborderless' : Borderless (x ++ v ++ y)) {t : List α} (hone : count v t = 1)
    (hin : x ++ v ++ y <:+: t) : count (x ++ v ++ y) t = 1 := by
  have hw : x ++ v ++ y ≠ [] := by simp [hv]
  have hinside : v <:+: x ++ v ++ y := List.infix_append x v y
  obtain ⟨a, b, rfl⟩ := hin
  rw [count_wrapped hv hborderless hx hy] at hone
  have hzero : ∀ u, count v u = 0 → count (x ++ v ++ y) u = 0 := by
    intro u hu
    rw [count_eq_zero_iff hv] at hu
    rw [count_eq_zero_iff hw]
    exact fun h => hu (hinside.trans h)
  rw [hborderless'.count_around hw, hzero a (by omega), hzero b (by omega)]

theorem count_replaceAll_wrapped (hborderless' : Borderless (x ++ v ++ y)) {t : List α} (hone : count v t = 1) :
    count v (replaceAll v (x ++ v ++ y) t) = 1 ∧ count (x ++ v ++ y) (replaceAll v (x ++ v ++ y) t) = 1 := by
  obtain ⟨a, b, -, ha, hb, heq⟩ := replaceAll_once (w := x ++ v ++ y) hv hborderless hone
  have hcount : count v (a ++ (x ++ v ++ y) ++ b) = 1 := by rw [count_wrapped hv hborderless hx hy, ha, hb]
  rw [heq]
  exact ⟨hcount, count_wrapped_eq_one hv hborderless hx hy hborderless' hcount (List.infix_append a _ b)⟩

end Wrapped

end Base.Text
