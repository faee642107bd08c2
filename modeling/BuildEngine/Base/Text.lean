/-
Searching and replacing in texts: the first occurrence of a pattern (`find`), the number of occurrences
that do not overlap (`count`) and the replacement of the first one (`replaceFirst`), for texts over any
type with decidable equality.

`Apart v u` says that no occurrence of `v` can share a character with an occurrence of `u`. Then the
occurrences of `v` in `a ++ u ++ b` are those in `a` and those in `b`, whatever `a` and `b` are, and editing
the one pattern leaves the other alone. It is decidable, so the patterns of a program are compared by
evaluation.
-/
import Mathlib.Data.List.Infix
import Mathlib.Tactic

namespace Base.Text

variable {α : Type} [DecidableEq α]

/-- The position of the first occurrence of `v`. -/
def find (v : List α) : List α → Option Nat
  | [] => if v = [] then some 0 else none
  | c :: t => if v.isPrefixOf (c :: t) then some 0 else (find v t).map (· + 1)

/-- The number of occurrences of `v` behind the next `skip` characters that do not overlap, from left to
right. -/
def countFrom (v : List α) : Nat → List α → Nat
  | _, [] => 0
  | skip + 1, _ :: t => countFrom v skip t
  | 0, c :: t => if v.isPrefixOf (c :: t) then countFrom v (v.length - 1) t + 1 else countFrom v 0 t

/-- The number of occurrences of a pattern that is not empty. -/
def count (v text : List α) : Nat := countFrom v 0 text

/-- The text with the first occurrence of `v` replaced by `w`. -/
def replaceFirst (v w text : List α) : List α :=
  match find v text with
  | none => text
  | some i => text.take i ++ w ++ text.drop (i + v.length)

/-! ## The first occurrence -/

theorem find_some {v : List α} : ∀ {text : List α} {i : Nat}, find v text = some i →
    text = text.take i ++ v ++ text.drop (i + v.length) ∧ ∀ j < i, ¬ v <+: text.drop j
  | [], i, h => by
    unfold find at h
    split at h
    · rename_i hv
      cases h
      subst hv
      exact ⟨rfl, fun j hj => by omega⟩
    · cases h
  | c :: t, i, h => by
    unfold find at h
    split at h
    · rename_i hp
      cases h
      obtain ⟨rest, hrest⟩ := List.isPrefixOf_iff_prefix.1 hp
      refine ⟨?_, fun j hj => by omega⟩
      rw [← hrest]
      simp
    · rename_i hp
      obtain ⟨k, hk, rfl⟩ := Option.map_eq_some_iff.1 h
      obtain ⟨heq, hfirst⟩ := find_some hk
      constructor
      · rw [show k + 1 + v.length = (k + v.length) + 1 by omega, List.take_succ_cons, List.drop_succ_cons,
          List.cons_append, List.cons_append, ← heq]
      · intro j hj
        cases j with
        | zero => exact fun hpre => hp (List.isPrefixOf_iff_prefix.2 hpre)
        | succ j => exact hfirst j (by omega)

theorem find_none {v : List α} : ∀ {text : List α}, find v text = none ↔ ¬ v <:+: text
  | [] => by
    unfold find
    split
    · rename_i hv
      subst hv
      simp
    · rename_i hv
      simp [hv]
  | c :: t => by
    unfold find
    rw [List.infix_cons_iff]
    split
    · rename_i hp
      simp [List.isPrefixOf_iff_prefix.1 hp]
    · rename_i hp
      rw [Option.map_eq_none_iff, find_none]
      have hpre : ¬ v <+: c :: t := fun h => hp (List.isPrefixOf_iff_prefix.2 h)
      simp [hpre]

/-- In front of the first occurrence there is none. -/
theorem find_take {v text : List α} {i : Nat} (hv : v ≠ []) (h : find v text = some i) : ¬ v <:+: text.take i := by
  obtain ⟨-, hfirst⟩ := find_some h
  rintro ⟨x, y, hxy⟩
  refine hfirst x.length ?_ ?_
  · have hlength := congrArg List.length hxy
    have hpos : 0 < v.length := List.length_pos_iff.2 hv
    simp only [List.length_append, List.length_take] at hlength
    omega
  · have hdrop : text.drop x.length = v ++ (y ++ text.drop i) := by
      conv_lhs => rw [← List.take_append_drop i text, ← hxy, List.append_assoc, List.append_assoc, List.drop_left]
    rw [hdrop]
    exact List.prefix_append _ _

theorem find_isSome {v text : List α} (h : v <:+: text) : ∃ i, find v text = some i := by
  cases hf : find v text with
  | none => exact absurd h (find_none.1 hf)
  | some i => exact ⟨i, rfl⟩

/-! ## Counting -/

theorem countFrom_of_not_infix {v : List α} : ∀ {text : List α} {skip : Nat}, ¬ v <:+: text →
    countFrom v skip text = 0
  | [], _, _ => by unfold countFrom; rfl
  | c :: t, skip + 1, h => by
    unfold countFrom
    exact countFrom_of_not_infix fun ht => h (List.infix_cons ht)
  | c :: t, 0, h => by
    unfold countFrom
    rw [if_neg fun hp => h (List.isPrefixOf_iff_prefix.1 hp).isInfix]
    exact countFrom_of_not_infix fun ht => h (List.infix_cons ht)

/-- No occurrence of `v` that starts in `a` runs into `b`. -/
def Closed (v a b : List α) : Prop := ∀ x y, a = x ++ y → y ≠ [] → v <+: y ++ b → v.length ≤ y.length

omit [DecidableEq α] in
theorem Closed.tail {v a b : List α} {c : α} (h : Closed v (c :: a) b) : Closed v a b := by
  intro x y hxy
  exact h (c :: x) y (by rw [hxy, List.cons_append])

/-- Behind an `a` that no occurrence leaves the count starts anew. -/
theorem countFrom_append {v : List α} (hv : v ≠ []) : ∀ {a b : List α} {skip : Nat}, Closed v a b →
    skip ≤ a.length → countFrom v skip (a ++ b) = countFrom v skip a + countFrom v 0 b
  | [], b, skip, _, hs => by
    have hzero : skip = 0 := by simpa using hs
    subst hzero
    rw [List.nil_append]
    conv_rhs => rw [countFrom]
    omega
  | c :: a, b, skip + 1, h, hs => by
    rw [List.cons_append, countFrom, countFrom]
    exact countFrom_append hv h.tail (by simpa using hs)
  | c :: a, b, 0, h, _ => by
    rw [List.cons_append, countFrom, countFrom]
    by_cases hp : v <+: c :: (a ++ b)
    · have hlen : v.length ≤ (c :: a).length := h [] (c :: a) rfl (List.cons_ne_nil _ _) hp
      have hpa : v <+: c :: a := List.prefix_of_prefix_length_le hp (List.prefix_append (c :: a) b) hlen
      have hskip : v.length - 1 ≤ a.length := by
        rw [List.length_cons] at hlen
        omega
      rw [if_pos (List.isPrefixOf_iff_prefix.2 hp), if_pos (List.isPrefixOf_iff_prefix.2 hpa),
        countFrom_append hv h.tail hskip]
      omega
    · have hpa : ¬ v <+: c :: a := fun hpre => hp (hpre.trans (List.prefix_append (c :: a) b))
      rw [if_neg fun h => hp (List.isPrefixOf_iff_prefix.1 h), if_neg fun h => hpa (List.isPrefixOf_iff_prefix.1 h)]
      exact countFrom_append hv h.tail (Nat.zero_le _)

theorem count_append {v a b : List α} (hv : v ≠ []) (h : Closed v a b) : count v (a ++ b) = count v a + count v b :=
  countFrom_append hv h (Nat.zero_le _)

theorem count_pos_iff {v : List α} (hv : v ≠ []) : ∀ {text : List α}, 0 < count v text ↔ v <:+: text
  | [] => by simp [count, countFrom, hv]
  | c :: t => by
    unfold count countFrom
    rw [List.infix_cons_iff]
    split
    · rename_i hp
      simp [List.isPrefixOf_iff_prefix.1 hp]
    · rename_i hp
      have hpre : ¬ v <+: c :: t := fun h => hp (List.isPrefixOf_iff_prefix.2 h)
      have ih : 0 < count v t ↔ v <:+: t := count_pos_iff hv
      unfold count at ih
      simp [hpre, ih]

/-! ## Patterns that do not touch -/

/-- No occurrence of `v` shares a character with an occurrence of `u`: no suffix of the one is a prefix of the
other, and neither is inside the other. -/
def Apart (v u : List α) : Prop :=
  (∀ x ∈ v.tails, x ≠ [] → x ≠ v → ¬ x <+: u ∧ ¬ u <+: x) ∧
  ∀ y ∈ u.tails, y ≠ [] → ¬ y <+: v ∧ ¬ v <+: y

instance (v u : List α) : Decidable (Apart v u) :=
  inferInstanceAs (Decidable ((∀ x ∈ v.tails, x ≠ [] → x ≠ v → ¬ x <+: u ∧ ¬ u <+: x) ∧
    ∀ y ∈ u.tails, y ≠ [] → ¬ y <+: v ∧ ¬ v <+: y))

omit [DecidableEq α] in
theorem Apart.symm {v u : List α} (hu : u ≠ []) (h : Apart v u) : Apart u v := by
  refine ⟨fun y hy hne _ => h.2 y hy hne, fun x hx hne => ?_⟩
  by_cases hxv : x = v
  · subst hxv
    exact (h.2 u ((List.mem_tails _ _).2 (List.suffix_refl u)) hu).symm
  · exact h.1 x hx hne hxv

section Apart

variable {v u : List α} (h : Apart v u)
include h

omit [DecidableEq α] in
/-- An occurrence of `v` does not run from the text before `u` into `u`. -/
theorem Apart.closed_before (a b : List α) : Closed v a (u ++ b) := by
  intro x y _ hy hpre
  by_contra hlen
  have hyv : y <+: v := List.prefix_of_prefix_length_le (List.prefix_append y (u ++ b)) hpre (by omega)
  obtain ⟨z, rfl⟩ := hyv
  have hz : z <+: u ++ b := by
    rwa [List.prefix_append_right_inj] at hpre
  have hzne : z ≠ [] := by
    rintro rfl
    rw [List.append_nil] at hlen
    omega
  have hzy : z ≠ y ++ z := by
    intro heq
    have := congrArg List.length heq
    rw [List.length_append] at this
    have : y.length = 0 := by omega
    exact hy (List.length_eq_zero_iff.1 this)
  obtain ⟨h1, h2⟩ := h.1 z ((List.mem_tails _ _).2 (List.suffix_append y z)) hzne hzy
  rcases List.prefix_or_prefix_of_prefix hz (List.prefix_append u b) with hzu | huz
  · exact h1 hzu
  · exact h2 huz

omit [DecidableEq α] in
/-- No occurrence of `v` starts inside `u`. -/
theorem Apart.not_prefix {x y : List α} (b : List α) (hu : u = x ++ y) (hy : y ≠ []) : ¬ v <+: y ++ b := by
  intro hpre
  obtain ⟨h1, h2⟩ := h.2 y ((List.mem_tails _ _).2 (hu ▸ List.suffix_append x y)) hy
  rcases List.prefix_or_prefix_of_prefix hpre (List.prefix_append y b) with hvy | hyv
  · exact h2 hvy
  · exact h1 hyv

omit [DecidableEq α] in
theorem Apart.not_infix (hv : v ≠ []) : ¬ v <:+: u := by
  rintro ⟨x, b, hxb⟩
  refine h.not_prefix [] (x := x) (y := v ++ b) (by rw [← hxb, List.append_assoc]) (by simp [hv]) ?_
  rw [List.append_nil]
  exact List.prefix_append v b

theorem Apart.count_around (hv : v ≠ []) (a b : List α) : count v (a ++ u ++ b) = count v a + count v b := by
  have hclosed : Closed v u b := fun x y hu hy hpre => absurd hpre (h.not_prefix b hu hy)
  have hzero : count v u = 0 := by
    by_contra hne
    exact h.not_infix hv ((count_pos_iff hv).1 (by omega))
  rw [List.append_assoc, count_append hv (h.closed_before a b), count_append hv hclosed, hzero, Nat.zero_add]

theorem Apart.infix_around (hv : v ≠ []) (a b : List α) : v <:+: a ++ u ++ b ↔ v <:+: a ∨ v <:+: b := by
  rw [← count_pos_iff hv, h.count_around hv, ← count_pos_iff hv, ← count_pos_iff hv]
  omega

omit [DecidableEq α] in
/-- An occurrence of `v` in a text with an occurrence of `u` is before it or behind it. -/
theorem Apart.before_or_behind {a b c d : List α} (heq : a ++ u ++ b = c ++ v ++ d) :
    (c ++ v).length ≤ a.length ∨ (a ++ u).length ≤ c.length := by
  rcases Nat.lt_or_ge c.length a.length with hca | hca
  · left
    have hc : c <+: a ++ u ++ b := by
      rw [heq, List.append_assoc]
      exact List.prefix_append _ _
    have ha : a <+: a ++ u ++ b := by
      rw [List.append_assoc]
      exact List.prefix_append _ _
    have hc := List.prefix_of_prefix_length_le hc ha (by omega)
    obtain ⟨y, rfl⟩ := hc
    have hy : y ≠ [] := by
      rintro rfl
      simp at hca
    have hpre : v <+: y ++ (u ++ b) := by
      simp only [List.append_assoc, List.append_cancel_left_eq] at heq
      exact heq ▸ List.prefix_append v d
    have := h.closed_before (c ++ y) b c y rfl hy hpre
    simp only [List.length_append]
    omega
  · right
    by_contra hlt
    have hc : c <+: a ++ u ++ b := by
      rw [heq, List.append_assoc]
      exact List.prefix_append _ _
    have ha : a <+: a ++ u ++ b := by
      rw [List.append_assoc]
      exact List.prefix_append _ _
    obtain ⟨x, rfl⟩ := List.prefix_of_prefix_length_le ha hc hca
    simp only [List.append_assoc, List.append_cancel_left_eq] at heq
    have hx : x <+: u ++ b := heq ▸ List.prefix_append x (v ++ d)
    have hx : x <+: u := by
      refine List.prefix_of_prefix_length_le hx (List.prefix_append u b) ?_
      simp only [List.length_append] at hlt
      omega
    obtain ⟨y, rfl⟩ := hx
    have hy : y ≠ [] := by
      rintro rfl
      simp at hlt
    simp only [List.append_assoc, List.append_cancel_left_eq] at heq
    exact h.not_prefix b rfl hy (heq ▸ List.prefix_append v d)

end Apart

/-! ## Replacing -/

theorem replaceFirst_eq {v w text : List α} (h : v <:+: text) :
    ∃ a b, text = a ++ v ++ b ∧ replaceFirst v w text = a ++ w ++ b := by
  obtain ⟨i, hi⟩ := find_isSome h
  refine ⟨text.take i, text.drop (i + v.length), (find_some hi).1, ?_⟩
  unfold replaceFirst
  rw [hi]

theorem infix_replaceFirst {v w text : List α} (h : v <:+: text) : w <:+: replaceFirst v w text := by
  obtain ⟨a, b, -, heq⟩ := replaceFirst_eq (w := w) h
  rw [heq]
  exact List.infix_append a w b

/-- A replacement leaves a pattern apart from the replaced one where it is. -/
theorem infix_replaceFirst_of_apart {v w u text : List α} (hu : u <:+: text) (h : Apart v u) :
    u <:+: replaceFirst v w text := by
  by_cases hin : v <:+: text
  · obtain ⟨c, d, htext, heq⟩ := replaceFirst_eq (w := w) hin
    obtain ⟨a, b, hab⟩ := hu
    rw [heq]
    rcases h.before_or_behind (hab.trans htext) with hle | hle
    · -- the replaced text ends before `u`
      have hcv : c ++ v <+: text := by
        rw [htext]
        exact List.prefix_append _ _
      have ha : a <+: text := by
        rw [← hab, List.append_assoc]
        exact List.prefix_append _ _
      obtain ⟨x, rfl⟩ := List.prefix_of_prefix_length_le hcv ha hle
      have hd : d = x ++ u ++ b := by
        rw [← hab] at htext
        simp only [List.append_assoc, List.append_cancel_left_eq] at htext
        rw [← htext, List.append_assoc]
      rw [hd]
      exact ⟨c ++ w ++ x, b, by simp only [List.append_assoc]⟩
    · have hau : a ++ u <+: text := by
        rw [← hab]
        exact List.prefix_append _ _
      have hc : c <+: text := by
        rw [htext, List.append_assoc]
        exact List.prefix_append _ _
      obtain ⟨x, rfl⟩ := List.prefix_of_prefix_length_le hau hc hle
      exact ⟨a, x ++ w ++ d, by simp only [List.append_assoc]⟩
  · unfold replaceFirst
    rw [find_none.2 hin]
    exact hu

/-- A replacement brings in no pattern apart from the replacing one. -/
theorem not_infix_replaceFirst {v w p text : List α} (hp : p ≠ []) (hno : ¬ p <:+: text) (h : Apart p w) :
    ¬ p <:+: replaceFirst v w text := by
  by_cases hin : v <:+: text
  · obtain ⟨a, b, htext, heq⟩ := replaceFirst_eq (w := w) hin
    rw [heq, h.infix_around hp]
    rintro (ha | hb)
    · exact hno (ha.trans ⟨[], v ++ b, by rw [htext, List.nil_append, List.append_assoc]⟩)
    · exact hno (hb.trans ⟨a ++ v, [], by rw [htext, List.append_nil]⟩)
  · unfold replaceFirst
    rw [find_none.2 hin]
    exact hno

/-- A replacement does not change how often a pattern apart from both occurs. -/
theorem count_replaceFirst {v w p text : List α} (hp : p ≠ []) (hv : Apart p v) (hw : Apart p w) :
    count p (replaceFirst v w text) = count p text := by
  by_cases hin : v <:+: text
  · obtain ⟨a, b, htext, heq⟩ := replaceFirst_eq (w := w) hin
    rw [heq, hw.count_around hp]
    conv_rhs => rw [htext]
    rw [hv.count_around hp]
  · unfold replaceFirst
    rw [find_none.2 hin]

theorem mem_replaceFirst {v w text : List α} {c : α} (h : c ∈ replaceFirst v w text) : c ∈ text ∨ c ∈ w := by
  unfold replaceFirst at h
  split at h
  · exact .inl h
  · rcases List.mem_append.1 h with h | h
    · rcases List.mem_append.1 h with h | h
      · exact .inl (List.mem_of_mem_take h)
      · exact .inr h
    · exact .inl (List.mem_of_mem_drop h)

/-! ## Patterns that do not overlap themselves -/

/-- No proper suffix of `v` is a prefix of it: two occurrences of `v` are the same or share no character. -/
def Borderless (v : List α) : Prop := ∀ x ∈ v.tails, x ≠ [] → x ≠ v → ¬ x <+: v

instance (v : List α) : Decidable (Borderless v) :=
  inferInstanceAs (Decidable (∀ x ∈ v.tails, x ≠ [] → x ≠ v → ¬ x <+: v))

section Borderless

variable {v : List α} (h : Borderless v)
include h

omit [DecidableEq α] in
/-- An occurrence that starts before another one ends before it. -/
theorem Borderless.closed_before (a b : List α) : Closed v a (v ++ b) := by
  intro x y _ hy hpre
  by_contra hlen
  have hyv : y <+: v := List.prefix_of_prefix_length_le (List.prefix_append y (v ++ b)) hpre (by omega)
  obtain ⟨z, rfl⟩ := hyv
  have hz : z <+: y ++ z ++ b := by
    rwa [List.prefix_append_right_inj] at hpre
  have hzne : z ≠ [] := by
    rintro rfl
    rw [List.append_nil] at hlen
    omega
  have hzy : z ≠ y ++ z := by
    intro heq
    have := congrArg List.length heq
    rw [List.length_append] at this
    exact hy (List.length_eq_zero_iff.1 (by omega))
  refine h z ((List.mem_tails _ _).2 (List.suffix_append y z)) hzne hzy ?_
  refine List.prefix_of_prefix_length_le hz (List.prefix_append (y ++ z) b) ?_
  rw [List.length_append]
  omega

omit [DecidableEq α] in
theorem Borderless.closed_self (b : List α) : Closed v v b := by
  intro x y hxy hy hpre
  by_contra hlen
  have hyv : y <+: v := List.prefix_of_prefix_length_le (List.prefix_append y b) hpre (by omega)
  refine h y ((List.mem_tails _ _).2 (hxy ▸ List.suffix_append x y)) hy ?_ hyv
  rintro rfl
  exact hlen le_rfl

theorem Borderless.count_self (hv : v ≠ []) : count v v = 1 := by
  have hzero : count v (v ++ []) = count v v + count v [] := count_append hv (h.closed_self [])
  have hone : countFrom v 0 v = 1 := by
    obtain ⟨c, t, hct⟩ := List.exists_cons_of_ne_nil hv
    conv_lhs => rw [hct]
    rw [countFrom, if_pos (List.isPrefixOf_iff_prefix.2 (List.prefix_refl _))]
    have hskip : ∀ (n : Nat) (s : List α), n = s.length → countFrom (c :: t) n s = 0 := by
      intro n
      induction n with
      | zero =>
        intro s hs
        rw [List.eq_nil_of_length_eq_zero hs.symm]
        rfl
      | succ n ih =>
        intro s hs
        obtain ⟨d, s', rfl⟩ := List.exists_cons_of_length_eq_add_one hs.symm
        rw [countFrom]
        exact ih s' (by simpa using hs)
    rw [hskip _ t (by simp)]
  exact hone

theorem Borderless.count_around (hv : v ≠ []) (a b : List α) : count v (a ++ v ++ b) = count v a + 1 + count v b := by
  rw [List.append_assoc, count_append hv (h.closed_before a b), count_append hv (h.closed_self b), h.count_self hv]
  omega

omit [DecidableEq α] in
/-- Behind a text without `v` the first occurrence is the next one. -/
theorem Borderless.prefix_drop {a b : List α} (ha : ¬ v <:+: a) {j : Nat} (hj : j < a.length) :
    ¬ v <+: (a ++ v ++ b).drop j := by
  intro hpre
  rw [List.append_assoc, List.drop_append_of_le_length (by omega)] at hpre
  have hne : a.drop j ≠ [] := by
    intro hnil
    have := congrArg List.length hnil
    rw [List.length_drop, List.length_nil] at this
    omega
  have hlen := h.closed_before a b (a.take j) (a.drop j) (List.take_append_drop j a).symm hne hpre
  have hin : v <+: a.drop j := List.prefix_of_prefix_length_le hpre (List.prefix_append _ _) hlen
  exact ha (hin.isInfix.trans (List.drop_suffix j a).isInfix)

theorem Borderless.replaceFirst_around {w a : List α} (b : List α) (ha : ¬ v <:+: a) :
    replaceFirst v w (a ++ v ++ b) = a ++ w ++ b := by
  have hin : v <:+: a ++ v ++ b := List.infix_append a v b
  obtain ⟨i, hi⟩ := find_isSome hin
  obtain ⟨heq, hfirst⟩ := find_some hi
  have hle : i ≤ a.length := by
    by_contra hlt
    refine hfirst a.length (by omega) ?_
    rw [List.append_assoc, List.drop_left]
    exact List.prefix_append v b
  have hge : a.length ≤ i := by
    by_contra hlt
    refine h.prefix_drop (b := b) ha (j := i) (by omega) ?_
    have hin : v <+: (a ++ v ++ b).drop i := by
      have hlength : ((a ++ v ++ b).take i).length = i := by
        rw [List.length_take, List.length_append, List.length_append]
        omega
      refine ⟨(a ++ v ++ b).drop (i + v.length), ?_⟩
      conv_rhs => rw [heq, List.append_assoc, List.drop_left' hlength]
    exact hin
  have hi' : i = a.length := le_antisymm hle hge
  unfold replaceFirst
  rw [hi, hi']
  simp only
  have htake : (a ++ v ++ b).take a.length = a := by
    rw [List.append_assoc, List.take_left]
  have hdrop : (a ++ v ++ b).drop (a.length + v.length) = b := by
    rw [← List.length_append, List.drop_left]
  rw [htake, hdrop]

/-! ## Texts with one occurrence -/

theorem Borderless.eq_nil_of_count (hv : v ≠ []) {a y b b' : List α} (hone : count v (a ++ (y ++ (v ++ b'))) = 1)
    (heq : v ++ b = y ++ (v ++ b')) : y = [] := by
  by_contra hy
  have hpre : v <+: y ++ (v ++ b') := heq ▸ List.prefix_append v b
  have hlength := h.closed_before y b' [] y rfl hy hpre
  obtain ⟨z, rfl⟩ := List.prefix_of_prefix_length_le hpre (List.prefix_append y _) hlength
  have htwo : a ++ (v ++ z ++ (v ++ b')) = a ++ v ++ (z ++ v ++ b') := by simp only [List.append_assoc]
  rw [htwo, h.count_around hv, h.count_around hv] at hone
  omega

theorem Borderless.eq_of_count (hv : v ≠ []) {s a b a' b' : List α} (hone : count v s = 1) (heq : s = a ++ v ++ b)
    (heq' : s = a' ++ v ++ b') : a = a' ∧ b = b' := by
  rw [List.append_assoc] at heq heq'
  rcases List.append_eq_append_iff.1 (heq.symm.trans heq') with ⟨y, rfl, hy⟩ | ⟨y, rfl, hy⟩
  · rw [heq', List.append_assoc] at hone
    obtain rfl := h.eq_nil_of_count hv hone hy
    exact ⟨(List.append_nil a).symm, List.append_cancel_left hy⟩
  · rw [heq, List.append_assoc] at hone
    obtain rfl := h.eq_nil_of_count hv hone hy
    exact ⟨List.append_nil a', (List.append_cancel_left hy).symm⟩

/-- A text in which a search finds one occurrence and no other one behind it. -/
theorem Borderless.find_once (hv : v ≠ []) {s : List α} {i : Nat} :
    find v s = some i ∧ find v (s.drop (i + 1)) = none ↔ count v s = 1 ∧ ∃ a b, s = a ++ v ++ b ∧ a.length = i := by
  constructor
  · rintro ⟨hfind, hnone⟩
    obtain ⟨heq, -⟩ := find_some hfind
    have hfront : count v (s.take i) = 0 := by
      by_contra hne
      exact find_take hv hfind ((count_pos_iff hv).1 (by omega))
    have hback : count v (s.drop (i + v.length)) = 0 := by
      by_contra hne
      have hpos : 0 < v.length := List.length_pos_iff.2 hv
      have hdrop : s.drop (i + v.length) = (s.drop (i + 1)).drop (v.length - 1) := by
        rw [List.drop_drop, Nat.add_assoc, Nat.add_sub_cancel' hpos]
      have hin : v <:+: s.drop (i + v.length) := (count_pos_iff hv).1 (by omega)
      refine find_none.1 hnone (hin.trans ?_)
      rw [hdrop]
      exact (List.drop_suffix _ _).isInfix
    refine ⟨?_, s.take i, s.drop (i + v.length), heq, ?_⟩
    · rw [heq, h.count_around hv, hfront, hback]
    · have hlength := congrArg List.length heq
      simp only [List.length_append, List.length_take, List.length_drop] at hlength ⊢
      have hpos : 0 < v.length := List.length_pos_iff.2 hv
      omega
  · rintro ⟨hone, a, b, heq, rfl⟩
    obtain ⟨i, hi⟩ := find_isSome (heq ▸ List.infix_append a v b : v <:+: s)
    obtain ⟨hcut, -⟩ := find_some hi
    obtain ⟨hfront, -⟩ := h.eq_of_count hv hone hcut heq
    have hlength : i = a.length := by
      have hcount := congrArg List.length hcut
      have hpos : 0 < v.length := List.length_pos_iff.2 hv
      rw [← hfront]
      simp only [List.length_append, List.length_take, List.length_drop] at hcount ⊢
      omega
    refine ⟨hlength ▸ hi, find_none.2 ?_⟩
    rintro ⟨x, y, hxy⟩
    have hother : s = s.take (a.length + 1) ++ x ++ v ++ y := by
      conv_lhs => rw [← List.take_append_drop (a.length + 1) s, ← hxy]
      simp only [List.append_assoc]
    obtain ⟨hsame, -⟩ := h.eq_of_count hv hone heq hother
    have hcount := congrArg List.length hsame
    have htotal := congrArg List.length heq
    have hpos : 0 < v.length := List.length_pos_iff.2 hv
    simp only [List.length_append, List.length_take] at hcount htotal
    omega

end Borderless

end Base.Text
