/-
The natural order of texts, `strverscmp`: the texts are compared at their first difference, but numbers of different
lengths by their lengths. A text is taken here as characters and numbers (`Piece`); where no number has a leading zero,
the order is the lexicographic one of the pieces, with the numbers in the place of the digits.
-/
import Mathlib.Data.Prod.Lex
import Mathlib.Data.List.Lex
import Mathlib.Tactic

namespace Base.NaturalOrder

/-! ## The comparison -/

/-- The character at a position, as C reads it. -/
def charAt (s : List Char) (i : ℕ) : Char := s.getD i '\x00'

/-- The first position at which the texts differ, or the common end. -/
def firstDifference : List Char → List Char → ℕ
  | c :: s, d :: t => if c = d then firstDifference s t + 1 else 0
  | _, _ => 0

/-- Back over the digits in front of a position. -/
def digitsBegin (s : List Char) : ℕ → ℕ
  | 0 => 0
  | i + 1 => if (charAt s i).isDigit then digitsBegin s i else i + 1

/-- Ahead over the digits from a position on. -/
def digitsEnd (s : List Char) (i : ℕ) : ℕ := i + ((s.drop i).takeWhile Char.isDigit).length

/-- The zeros in front that a digit follows. -/
def zeros : List Char → ℕ
  | '0' :: c :: t => if c.isDigit then zeros (c :: t) + 1 else 0
  | _ => 0

def leadingZeros (s : List Char) (b : ℕ) : ℕ := zeros (s.drop b)

/-- Negative, zero or positive as `lhs` comes before `rhs`, is the same or comes behind it. -/
def strverscmp (lhs rhs : List Char) : ℤ :=
  let i := firstDifference lhs rhs
  let l := charAt lhs i
  let r := charAt rhs i
  let bytes : ℤ := (l.toNat : ℤ) - r.toNat
  let b := digitsBegin lhs i
  if l ≠ r ∧ (b ≠ i ∨ (l.isDigit ∧ r.isDigit)) then
    if leadingZeros lhs b ≠ leadingZeros rhs b then (leadingZeros rhs b : ℤ) - leadingZeros lhs b
    else if leadingZeros lhs b = 0 ∧ digitsEnd lhs i ≠ digitsEnd rhs i then
      (digitsEnd lhs i : ℤ) - digitsEnd rhs i
    else bytes
  else bytes

/-! ## Around the first difference -/

theorem firstDifference_append (p s t : List Char) :
    firstDifference (p ++ s) (p ++ t) = p.length + firstDifference s t := by
  induction p with
  | nil => rw [List.nil_append, List.nil_append, List.length_nil, Nat.zero_add]
  | cons c p ih => rw [List.cons_append, List.cons_append, firstDifference, if_pos rfl, ih, List.length_cons]; omega

theorem charAt_append (p s : List Char) : charAt (p ++ s) p.length = s.headD '\x00' := by
  unfold charAt
  rw [List.getD_eq_getElem?_getD, List.getElem?_append_right (Nat.le_refl _), Nat.sub_self]
  cases s with
  | nil => rfl
  | cons c s => rfl

/-- In front of the position are the digits `ds`, and before them none. -/
theorem digitsBegin_append {x : List Char} (hx : ∀ c ∈ x.getLast?, c.isDigit = false) {ds : List Char}
    (hds : ∀ c ∈ ds, c.isDigit = true) (s : List Char) : digitsBegin (x ++ ds ++ s) (x ++ ds).length = x.length := by
  induction ds using List.reverseRecOn generalizing s with
  | nil =>
    rw [List.append_nil]
    cases x using List.reverseRecOn with
    | nil => rfl
    | append_singleton x c =>
      have hc : c.isDigit = false := hx c (by simp)
      rw [List.length_append, List.length_singleton, List.append_assoc, digitsBegin, charAt_append]
      simp [hc]
  | append_singleton ds d ih =>
    have hd : d.isDigit = true := hds d (by simp)
    have hassoc : x ++ (ds ++ [d]) ++ s = x ++ ds ++ (d :: s) := by simp
    have hlength : (x ++ (ds ++ [d])).length = (x ++ ds).length + 1 := by simp; omega
    rw [hassoc, hlength, digitsBegin, charAt_append, List.headD_cons, if_pos hd]
    exact ih (fun c hc => hds c (List.mem_append_left _ hc)) (d :: s)

/-- The number of digits at the front. -/
def run (s : List Char) : ℕ := (s.takeWhile Char.isDigit).length

/-- The comparison of two texts that differ behind a common front: characters `x` and then digits `ds`. -/
theorem strverscmp_append {x ds s t : List Char} (hx : ∀ c ∈ x.getLast?, c.isDigit = false)
    (hds : ∀ c ∈ ds, c.isDigit = true) (hne : s.headD '\x00' ≠ t.headD '\x00') (hs : zeros (ds ++ s) = 0)
    (ht : zeros (ds ++ t) = 0) :
    strverscmp (x ++ ds ++ s) (x ++ ds ++ t) =
      if (ds ≠ [] ∨ ((s.headD '\x00').isDigit ∧ (t.headD '\x00').isDigit)) ∧ run s ≠ run t then (run s : ℤ) - run t
      else ((s.headD '\x00').toNat : ℤ) - (t.headD '\x00').toNat := by
  have hfirst : firstDifference (x ++ ds ++ s) (x ++ ds ++ t) = (x ++ ds).length := by
    rw [firstDifference_append, Nat.add_eq_left]
    cases s with
    | nil => rfl
    | cons c s =>
      cases t with
      | nil => rfl
      | cons d t =>
        have hcd : c ≠ d := hne
        rw [firstDifference, if_neg hcd]
  have hdrop : ∀ u, leadingZeros (x ++ ds ++ u) x.length = zeros (ds ++ u) := by
    intro u
    rw [leadingZeros, List.append_assoc, List.drop_left]
  have hend : ∀ u, digitsEnd (x ++ ds ++ u) (x ++ ds).length = (x ++ ds).length + run u := by
    intro u
    rw [digitsEnd, List.drop_left, run]
  have hbegin : x.length ≠ (x ++ ds).length ↔ ds ≠ [] := by
    rw [List.length_append, ne_eq, Nat.left_eq_add, List.length_eq_zero_iff]
  have hrun : (x ++ ds).length + run s ≠ (x ++ ds).length + run t ↔ run s ≠ run t := by
    rw [ne_eq, Nat.add_left_cancel_iff]
  unfold strverscmp
  dsimp only
  rw [hfirst, charAt_append, charAt_append, digitsBegin_append hx hds, hdrop, hdrop, hend, hend, hs, ht]
  simp only [hbegin, hrun, hne, ne_eq, not_true_eq_false, if_false, not_false_eq_true, true_and]
  by_cases hdigits : ds ≠ [] ∨ ((s.headD '\x00').isDigit ∧ (t.headD '\x00').isDigit)
  · by_cases hsame : run s = run t
    · simp [hsame]
    · rw [if_pos hdigits, if_pos hsame, if_pos ⟨hdigits, hsame⟩]
      omega
  · rw [if_neg hdigits, if_neg fun h => hdigits h.1]

/-! ## Numbers -/

/-- The text does not go on with a digit. -/
def Stops (t : List Char) : Prop := ∀ c ∈ t.head?, c.isDigit = false

theorem isDigit_iff {c : Char} : c.isDigit = true ↔ 48 ≤ c.toNat ∧ c.toNat ≤ 57 := by
  unfold Char.isDigit
  rw [Bool.and_eq_true, decide_eq_true_eq, decide_eq_true_eq]
  rfl

theorem isDigit_of_mem {n : ℕ} : ∀ c ∈ Nat.toDigits 10 n, c.isDigit = true := fun _ h =>
  Nat.isDigit_of_mem_toDigits (by decide) (by decide) h

theorem ofDigitChars_cons_zero (c : Char) (ds : List Char) :
    Nat.ofDigitChars 10 (c :: ds) 0 = 10 ^ ds.length * (c.toNat - 48) + Nat.ofDigitChars 10 ds 0 := by
  rw [Nat.ofDigitChars_cons, Nat.ofDigitChars_eq_ofDigitChars_zero, Nat.mul_zero, Nat.zero_add]
  rfl

theorem ofDigitChars_lt {ds : List Char} (h : ∀ c ∈ ds, c.isDigit = true) :
    Nat.ofDigitChars 10 ds 0 < 10 ^ ds.length := by
  induction ds with
  | nil => simp
  | cons c ds ih =>
    obtain ⟨hc, hds⟩ := List.forall_mem_cons.1 h
    have hdigit : c.toNat - 48 ≤ 9 := by
      have := isDigit_iff.1 hc
      omega
    calc Nat.ofDigitChars 10 (c :: ds) 0
        = 10 ^ ds.length * (c.toNat - 48) + Nat.ofDigitChars 10 ds 0 := ofDigitChars_cons_zero c ds
      _ < 10 ^ ds.length * (c.toNat - 48) + 10 ^ ds.length := Nat.add_lt_add_left (ih hds) _
      _ = 10 ^ ds.length * (c.toNat - 48 + 1) := by ring
      _ ≤ 10 ^ ds.length * 10 := Nat.mul_le_mul_left _ (by omega)
      _ = 10 ^ (c :: ds).length := by rw [List.length_cons, pow_succ]

theorem zeros_cons {c : Char} {t : List Char} (h : c = '0' → Stops t) : zeros (c :: t) = 0 := by
  by_cases hc : c = '0'
  · subst hc
    cases t with
    | nil => rfl
    | cons d t =>
      have hd : d.isDigit = false := h rfl d rfl
      rw [zeros, if_neg (by simp [hd])]
  · rw [zeros]
    intro d t' heq
    exact hc (List.cons.inj heq).1

/-- A number has no leading zero. -/
theorem zeros_toDigits (n : ℕ) {t : List Char} (ht : Stops t) : zeros (Nat.toDigits 10 n ++ t) = 0 := by
  have hdigits := isDigit_of_mem (n := n)
  have hvalue : Nat.ofDigitChars 10 (Nat.toDigits 10 n) 0 = n := Nat.ofDigitChars_ten_toDigits
  have hlength : ∀ k, 0 < k → ((Nat.toDigits 10 n).length ≤ k ↔ n < 10 ^ k) := fun k hk =>
    Nat.length_toDigits_le_iff (by decide) hk
  have hne : Nat.toDigits 10 n ≠ [] := Nat.toDigits_ne_nil
  generalize Nat.toDigits 10 n = ds at hdigits hvalue hlength hne
  match ds with
  | [] => exact absurd rfl hne
  | [c] => exact zeros_cons fun _ => ht
  | c :: d :: ds =>
    refine zeros_cons ?_
    rintro rfl
    -- the value of a numeral with a zero in front fits into fewer digits
    obtain ⟨-, hrest⟩ := List.forall_mem_cons.1 hdigits
    have hlt := ofDigitChars_lt hrest
    have hzero : Nat.ofDigitChars 10 ('0' :: d :: ds) 0 = Nat.ofDigitChars 10 (d :: ds) 0 := by
      rw [ofDigitChars_cons_zero]
      simp
    rw [← hzero, hvalue] at hlt
    have := (hlength _ (Nat.succ_pos ds.length)).2 hlt
    simp at this

theorem exists_front {s t : List Char} (h : s ≠ t) :
    ∃ p s' t', s = p ++ s' ∧ t = p ++ t' ∧ s'.head? ≠ t'.head? := by
  induction s generalizing t with
  | nil =>
    cases t with
    | nil => exact absurd rfl h
    | cons d t => exact ⟨[], [], d :: t, rfl, rfl, by simp⟩
  | cons c s ih =>
    cases t with
    | nil => exact ⟨[], c :: s, [], rfl, rfl, by simp⟩
    | cons d t =>
      by_cases hcd : c = d
      · subst hcd
        obtain ⟨p, s', t', rfl, rfl, hne⟩ := ih fun hst => h (by rw [hst])
        exact ⟨c :: p, s', t', rfl, rfl, hne⟩
      · exact ⟨[], c :: s, d :: t, rfl, rfl, by simpa using hcd⟩

theorem toDigits_lt_of_length {m n : ℕ} (h : (Nat.toDigits 10 m).length < (Nat.toDigits 10 n).length) : m < n := by
  have hpos : 0 < (Nat.toDigits 10 m).length := Nat.length_toDigits_pos
  have hm := (Nat.length_toDigits_le_iff (by decide : 1 < 10) hpos).1 (Nat.le_refl (Nat.toDigits 10 m).length)
  have hn := (Nat.length_toDigits_le_iff (by decide : 1 < 10) hpos (n := n)).not.1 (by omega)
  omega

/-- Numbers of one length are in the order of the first digits that differ. -/
theorem toDigits_lt_of_head {m n : ℕ} {p s t : List Char} {c d : Char} (hm : Nat.toDigits 10 m = p ++ c :: s)
    (hn : Nat.toDigits 10 n = p ++ d :: t) (hlength : s.length = t.length) (hlt : c.toNat < d.toNat) : m < n := by
  have hdigits : ∀ {k q}, Nat.toDigits 10 k = p ++ q → ∀ c ∈ q, c.isDigit = true := fun h c hc =>
    isDigit_of_mem c (h ▸ List.mem_append_right _ hc)
  have hvalue : ∀ {k c q}, Nat.toDigits 10 k = p ++ c :: q → k = 10 ^ (q.length + 1) * Nat.ofDigitChars 10 p 0 +
      (10 ^ q.length * (c.toNat - 48) + Nat.ofDigitChars 10 q 0) := by
    intro k c q h
    rw [← ofDigitChars_cons_zero, ← List.length_cons (a := c), ← Nat.ofDigitChars_eq_ofDigitChars_zero,
      ← Nat.ofDigitChars_append, ← h, Nat.ofDigitChars_ten_toDigits]
  have hs := ofDigitChars_lt (List.forall_mem_cons.1 (hdigits hm)).2
  obtain ⟨hc, -⟩ := isDigit_iff.1 (hdigits hm c (.head _))
  rw [hvalue hm, hvalue hn, ← hlength]
  refine Nat.add_lt_add_left ?_ _
  calc 10 ^ s.length * (c.toNat - 48) + Nat.ofDigitChars 10 s 0
      < 10 ^ s.length * (c.toNat - 48) + 10 ^ s.length := Nat.add_lt_add_left hs _
    _ = 10 ^ s.length * (c.toNat - 48 + 1) := by ring
    _ ≤ 10 ^ s.length * (d.toNat - 48) := Nat.mul_le_mul_left _ (by omega)
    _ ≤ 10 ^ s.length * (d.toNat - 48) + Nat.ofDigitChars 10 t 0 := Nat.le_add_right _ _

theorem run_append {ds t : List Char} (hds : ∀ c ∈ ds, c.isDigit = true) (ht : Stops t) : run (ds ++ t) = ds.length := by
  unfold run
  rw [List.takeWhile_append_of_pos hds]
  cases t with
  | nil => simp
  | cons c t =>
    have hc : c.isDigit = false := ht c rfl
    simp [hc]

theorem run_of_stops {t : List Char} (ht : Stops t) : run t = 0 := by
  have hnone : ∀ c ∈ ([] : List Char), c.isDigit = true := fun _ h => by cases h
  simpa using run_append hnone ht

theorem strverscmp_self (s : List Char) : strverscmp s s = 0 := by
  simp [strverscmp]

/-- Where no number runs into the difference, it decides. -/
theorem strverscmp_heads {x ds s t : List Char} (hx : ∀ c ∈ x.getLast?, c.isDigit = false)
    (hds : ∀ c ∈ ds, c.isDigit = true) (hne : s.headD '\x00' ≠ t.headD '\x00') (hs : zeros (ds ++ s) = 0)
    (ht : zeros (ds ++ t) = 0)
    (h : run s = run t ∨ ds = [] ∧ ¬ ((s.headD '\x00').isDigit = true ∧ (t.headD '\x00').isDigit = true)) :
    strverscmp (x ++ ds ++ s) (x ++ ds ++ t) = ((s.headD '\x00').toNat : ℤ) - (t.headD '\x00').toNat := by
  rw [strverscmp_append hx hds hne hs ht, if_neg]
  rintro ⟨hdigits, hrun⟩
  rcases h with h | ⟨hnil, hboth⟩
  · exact hrun h
  · exact hdigits.elim (fun h => h hnil) hboth

theorem Stops.headD {w : List Char} (h : Stops w) : (w.headD '\x00').isDigit = false := by
  cases w with
  | nil => rfl
  | cons c w => exact h c rfl

theorem isDigit_headD {u s : List Char} (hu : ∀ c ∈ u, c.isDigit = true) (hne : u ≠ []) :
    ((u ++ s).headD '\x00').isDigit = true := by
  cases u with
  | nil => exact absurd rfl hne
  | cons c u => exact hu c (.head _)

theorem headD_ne {u v s t : List Char} (hu : ∀ c ∈ u, c.isDigit = true) (hv : ∀ c ∈ v, c.isDigit = true)
    (hs : Stops s) (ht : Stops t) (h : u.head? ≠ v.head?) : (u ++ s).headD '\x00' ≠ (v ++ t).headD '\x00' := by
  intro heq
  cases u with
  | nil =>
    cases v with
    | nil => exact h rfl
    | cons d v =>
      have hd := isDigit_headD (s := t) hv (List.cons_ne_nil d v)
      rw [← heq, List.nil_append, hs.headD] at hd
      cases hd
  | cons c u =>
    cases v with
    | nil =>
      have hc := isDigit_headD (s := s) hu (List.cons_ne_nil c u)
      rw [heq, List.nil_append, ht.headD] at hc
      cases hc
    | cons d v => exact h (congrArg some heq)

/-- Two numbers behind a common front. -/
theorem strverscmp_num {x s t : List Char} (hx : ∀ c ∈ x.getLast?, c.isDigit = false) (hs : Stops s) (ht : Stops t)
    {m n : ℕ} (hne : m ≠ n) :
    strverscmp (x ++ (Nat.toDigits 10 m ++ s)) (x ++ (Nat.toDigits 10 n ++ t)) < 0 ↔ m < n := by
  have htext : Nat.toDigits 10 m ≠ Nat.toDigits 10 n := by
    intro heq
    have hvalue := congrArg (fun ds => Nat.ofDigitChars 10 ds 0) heq
    simp only [Nat.ofDigitChars_ten_toDigits] at hvalue
    exact hne hvalue
  obtain ⟨p, u, v, hm, hn, hhead⟩ := exists_front htext
  have hp : ∀ c ∈ p, c.isDigit = true := fun c hc => isDigit_of_mem c (hm ▸ List.mem_append_left _ hc)
  have hu : ∀ c ∈ u, c.isDigit = true := fun c hc => isDigit_of_mem c (hm ▸ List.mem_append_right _ hc)
  have hv : ∀ c ∈ v, c.isDigit = true := fun c hc => isDigit_of_mem c (hn ▸ List.mem_append_right _ hc)
  have hzm : zeros (p ++ (u ++ s)) = 0 := by
    rw [← List.append_assoc, ← hm]
    exact zeros_toDigits m hs
  have hzn : zeros (p ++ (v ++ t)) = 0 := by
    rw [← List.append_assoc, ← hn]
    exact zeros_toDigits n ht
  have hheads := headD_ne hu hv hs ht hhead
  have hdigits : p ≠ [] ∨
      (((u ++ s).headD '\x00').isDigit = true ∧ ((v ++ t).headD '\x00').isDigit = true) := by
    by_cases hnil : p = []
    · subst hnil
      have hune : u ≠ [] := fun h => Nat.toDigits_ne_nil (hm.trans h)
      have hvne : v ≠ [] := fun h => Nat.toDigits_ne_nil (hn.trans h)
      exact .inr ⟨isDigit_headD hu hune, isDigit_headD hv hvne⟩
    · exact .inl hnil
  have hmlength : (Nat.toDigits 10 m).length = p.length + u.length := by rw [hm, List.length_append]
  have hnlength : (Nat.toDigits 10 n).length = p.length + v.length := by rw [hn, List.length_append]
  have hassoc : ∀ w z : List Char, x ++ (p ++ w ++ z) = x ++ p ++ (w ++ z) := fun w z => by simp
  rw [hm, hn, hassoc, hassoc, strverscmp_append hx hp hheads hzm hzn, run_append hu hs, run_append hv ht]
  rcases lt_trichotomy u.length v.length with hlt | heq | hgt
  · have hmn : m < n := toDigits_lt_of_length (by omega)
    rw [if_pos ⟨hdigits, by omega⟩]
    omega
  · rw [if_neg fun h => h.2 heq]
    cases u with
    | nil =>
      have hnil : v = [] := List.length_eq_zero_iff.1 heq.symm
      exact absurd (by rw [hnil]) hhead
    | cons c u =>
      cases v with
      | nil => cases heq
      | cons d v =>
        have hlength : u.length = v.length := Nat.succ.inj heq
        show (c.toNat : ℤ) - d.toNat < 0 ↔ m < n
        constructor
        · intro hcd
          exact toDigits_lt_of_head hm hn hlength (by omega)
        · intro hmn
          by_contra hcd
          have hdc : d.toNat ≠ c.toNat := by
            intro h
            exact hhead (congrArg some (Char.ext (UInt32.toNat_inj.1 h)).symm)
          have := toDigits_lt_of_head hn hm hlength.symm (by omega)
          omega
  · have hmn : n < m := toDigits_lt_of_length (by omega)
    rw [if_pos ⟨hdigits, by omega⟩]
    omega

/-! ## Pieces -/

/-- A character that is no digit, or a number. -/
inductive Piece where
  | chr (c : Char) (proper : c.toNat ≠ 0 ∧ c.isDigit = false)
  | num (n : ℕ)

namespace Piece

def text : Piece → List Char
  | chr c _ => [c]
  | num n => Nat.toDigits 10 n

/-- The numbers take the place of the digits among the characters. -/
def key : Piece → ℕ ×ₗ ℕ
  | chr c _ => toLex (c.toNat, 0)
  | num n => toLex (48, n)

def isNum : Piece → Bool
  | chr _ _ => false
  | num _ => true

end Piece

def text (ps : List Piece) : List Char := ps.flatMap Piece.text

def keys (ps : List Piece) : List (ℕ ×ₗ ℕ) := ps.map Piece.key

/-- No number follows another one. -/
def Apart : List Piece → Prop
  | [] => True
  | p :: ps => (p.isNum = true → ∀ q ∈ ps.head?, q.isNum = false) ∧ Apart ps

theorem stops_text {ps : List Piece} (h : ∀ q ∈ ps.head?, q.isNum = false) : Stops (text ps) := by
  intro c hc
  cases ps with
  | nil => cases hc
  | cons p ps =>
    cases p with
    | chr d proper =>
      obtain rfl : d = c := Option.some.inj hc
      exact proper.2
    | num n => cases h _ rfl

theorem zeros_text {ps : List Piece} (h : Apart ps) : zeros (text ps) = 0 := by
  cases ps with
  | nil => rfl
  | cons p ps =>
    cases p with
    | chr c proper =>
      refine zeros_cons ?_
      rintro rfl
      exact absurd proper.2 (by decide)
    | num n => exact zeros_toDigits n (stops_text (h.1 rfl))

/-- The first character of a piece, in the place of the keys. -/
theorem head_num (n : ℕ) (t : List Char) : 48 ≤ ((Nat.toDigits 10 n ++ t).headD '\x00').toNat ∧
    ((Nat.toDigits 10 n ++ t).headD '\x00').toNat ≤ 57 :=
  isDigit_iff.1 (isDigit_headD isDigit_of_mem Nat.toDigits_ne_nil)

theorem not_digit {c : Char} (h : c.isDigit = false) : c.toNat < 48 ∨ 57 < c.toNat := by
  by_contra hrange
  have hdigit : c.isDigit = true := isDigit_iff.2 (by omega)
  rw [hdigit] at h
  cases h

theorem toNat_inj {c d : Char} (h : c.toNat = d.toNat) : c = d := Char.ext (UInt32.toNat_inj.1 h)

/-- A text begins with a character that is not the end. -/
theorem head_pos (p : Piece) (ps : List Piece) : 0 < ((text (p :: ps)).headD '\x00').toNat := by
  cases p with
  | chr c proper => exact Nat.pos_of_ne_zero proper.1
  | num n =>
    have := head_num n (text ps)
    exact Nat.lt_of_lt_of_le (by decide) this.1

theorem stops_chr (c : Char) (proper : c.toNat ≠ 0 ∧ c.isDigit = false) (ps : List Piece) :
    Stops (text (.chr c proper :: ps)) := by
  refine stops_text fun q hq => ?_
  obtain rfl := Option.some.inj hq
  rfl

theorem keys_cons_lt {p q : Piece} {ps qs : List Piece} (h : p.key ≠ q.key) :
    keys (p :: ps) < keys (q :: qs) ↔ p.key < q.key := by
  unfold keys
  rw [List.map_cons, List.map_cons, List.cons_lt_cons_iff]
  exact or_iff_left fun heq => h heq.1

theorem keys_cons_self (p : Piece) {ps qs : List Piece} : keys (p :: ps) < keys (p :: qs) ↔ keys ps < keys qs := by
  unfold keys
  rw [List.map_cons, List.map_cons, List.cons_lt_cons_iff, or_iff_right (lt_irrefl _), and_iff_right rfl]

section Compare

variable {x ds : List Char}

/-- Texts of which not both begin with a number. -/
theorem strverscmp_mixed (hx : ∀ c ∈ x.getLast?, c.isDigit = false) (hds : ds = [] ∨ ∃ n, ds = Nat.toDigits 10 n)
    {s t : List Char} (hs : zeros s = 0) (ht : zeros t = 0) (hfree : ds ≠ [] → Stops s ∧ Stops t)
    (hmix : Stops s ∨ Stops t) (hne : (s.headD '\x00').toNat ≠ (t.headD '\x00').toNat) :
    strverscmp (x ++ ds ++ s) (x ++ ds ++ t) < 0 ↔ (s.headD '\x00').toNat < (t.headD '\x00').toNat := by
  have hne : s.headD '\x00' ≠ t.headD '\x00' := fun h => hne (by rw [h])
  have hcompare : strverscmp (x ++ ds ++ s) (x ++ ds ++ t) =
      ((s.headD '\x00').toNat : ℤ) - (t.headD '\x00').toNat := by
    rcases hds with rfl | ⟨n, rfl⟩
    · refine strverscmp_heads hx (fun _ h => by cases h) hne hs ht (.inr ⟨rfl, fun hboth => ?_⟩)
      rcases hmix with h | h
      · rw [h.headD] at hboth
        cases hboth.1
      · rw [h.headD] at hboth
        cases hboth.2
    · obtain ⟨hs', ht'⟩ := hfree Nat.toDigits_ne_nil
      refine strverscmp_heads hx isDigit_of_mem hne (zeros_toDigits n hs') (zeros_toDigits n ht') (.inl ?_)
      rw [run_of_stops hs', run_of_stops ht']
  rw [hcompare]
  omega

/-- Behind a common front, the order of the pieces decides. -/
theorem strverscmp_pieces (hx : ∀ c ∈ x.getLast?, c.isDigit = false) (hds : ds = [] ∨ ∃ n, ds = Nat.toDigits 10 n)
    {ps qs : List Piece} (hps : Apart ps) (hqs : Apart qs)
    (hfree : ds ≠ [] → (∀ p ∈ ps.head?, p.isNum = false) ∧ ∀ q ∈ qs.head?, q.isNum = false) :
    strverscmp (x ++ ds ++ text ps) (x ++ ds ++ text qs) < 0 ↔ keys ps < keys qs := by
  have hstops : ds ≠ [] → Stops (text ps) ∧ Stops (text qs) := fun h =>
    ⟨stops_text (hfree h).1, stops_text (hfree h).2⟩
  have hnil : Stops (text []) := fun c hc => by cases hc
  have hzero : ((text []).headD '\x00').toNat = 0 := rfl
  induction ps generalizing x ds qs with
  | nil =>
    cases qs with
    | nil => simp [strverscmp_self, keys]
    | cons q qs =>
      have hpos := head_pos q qs
      rw [strverscmp_mixed hx hds (zeros_text hps) (zeros_text hqs) hstops (.inl hnil) (by omega)]
      exact iff_of_true (by omega) (List.nil_lt_cons ..)
  | cons p ps ih =>
    cases qs with
    | nil =>
      have hpos := head_pos p ps
      rw [strverscmp_mixed hx hds (zeros_text hps) (zeros_text hqs) hstops (.inr hnil) (by omega)]
      exact iff_of_false (by omega) (List.not_lt_nil _)
    | cons q qs =>
      have hmixed := strverscmp_mixed hx hds (zeros_text hps) (zeros_text hqs) hstops
      cases p with
      | chr c hc =>
        cases q with
        | chr d hd =>
          by_cases hcd : c = d
          · -- the same character: it joins the front
            subst hcd
            have hfront : ∀ rs, x ++ ds ++ text (.chr c hc :: rs) = (x ++ ds ++ [c]) ++ [] ++ text rs := fun rs => by
              simp [text, Piece.text]
            have hstep : strverscmp ((x ++ ds ++ [c]) ++ [] ++ text ps) ((x ++ ds ++ [c]) ++ [] ++ text qs) < 0 ↔
                keys ps < keys qs :=
              ih (by simpa using hc.2) (.inl rfl) hps.2 hqs.2 (fun h => absurd rfl h) fun h => absurd rfl h
            rw [hfront, hfront, hstep, keys_cons_self]
          · have hne : c.toNat ≠ d.toNat := fun h => hcd (toNat_inj h)
            have hkey : (Piece.chr c hc).key ≠ (Piece.chr d hd).key := fun h => hne (congrArg Prod.fst h)
            rw [hmixed (.inl (stops_chr c hc ps)) hne, keys_cons_lt hkey, Piece.key, Piece.key, Prod.Lex.toLex_lt_toLex]
            exact (or_iff_left fun h => hne h.1).symm
        | num n =>
          have hhead := head_num n (text qs)
          have hc' := not_digit hc.2
          have hkey : (Piece.chr c hc).key ≠ (Piece.num n).key := by
            intro h
            have h48 : c.toNat = 48 := congrArg Prod.fst h
            omega
          have hne : c.toNat ≠ ((text (.num n :: qs)).headD '\x00').toNat := by
            show c.toNat ≠ ((Nat.toDigits 10 n ++ text qs).headD '\x00').toNat
            omega
          rw [hmixed (.inl (stops_chr c hc ps)) hne, keys_cons_lt hkey, Piece.key, Piece.key, Prod.Lex.toLex_lt_toLex]
          show c.toNat < ((Nat.toDigits 10 n ++ text qs).headD '\x00').toNat ↔ c.toNat < 48 ∨ _
          constructor
          · intro h
            exact .inl (by omega)
          · rintro (h | h)
            · omega
            · omega
      | num m =>
        cases q with
        | chr d hd =>
          have hhead := head_num m (text ps)
          have hd' := not_digit hd.2
          have hkey : (Piece.num m).key ≠ (Piece.chr d hd).key := by
            intro h
            have h48 : 48 = d.toNat := congrArg Prod.fst h
            omega
          have hne : ((text (.num m :: ps)).headD '\x00').toNat ≠ d.toNat := by
            show ((Nat.toDigits 10 m ++ text ps).headD '\x00').toNat ≠ d.toNat
            omega
          rw [hmixed (.inr (stops_chr d hd qs)) hne, keys_cons_lt hkey, Piece.key, Piece.key, Prod.Lex.toLex_lt_toLex]
          show ((Nat.toDigits 10 m ++ text ps).headD '\x00').toNat < d.toNat ↔ 48 < d.toNat ∨ _
          constructor
          · intro h
            exact .inl (by omega)
          · rintro (h | h)
            · omega
            · omega
        | num n =>
          have hfront : ds = [] := by
            by_contra h
            cases (hfree h).1 _ rfl
          subst hfront
          have happly : ∀ k rs, x ++ [] ++ text (.num k :: rs) = x ++ (Nat.toDigits 10 k ++ text rs) := fun k rs => by
            simp [text, Piece.text]
          by_cases hmn : m = n
          · -- the same number: it joins the front, and no number follows
            subst hmn
            have hnext := And.intro (hps.1 rfl) (hqs.1 rfl)
            have hstep : strverscmp (x ++ Nat.toDigits 10 m ++ text ps) (x ++ Nat.toDigits 10 m ++ text qs) < 0 ↔
                keys ps < keys qs :=
              ih hx (.inr ⟨m, rfl⟩) hps.2 hqs.2 (fun _ => hnext) fun _ => ⟨stops_text hnext.1, stops_text hnext.2⟩
            rw [happly, happly, ← List.append_assoc, ← List.append_assoc, hstep, keys_cons_self]
          · have hkey : (Piece.num m).key ≠ (Piece.num n).key := fun h => hmn (congrArg Prod.snd h)
            rw [happly, happly, strverscmp_num hx (stops_text (hps.1 rfl)) (stops_text (hqs.1 rfl)) hmn,
              keys_cons_lt hkey, Piece.key, Piece.key, Prod.Lex.toLex_lt_toLex]
            simp

end Compare

/-! ## Sorting -/

/-- `list(SORT <list> COMPARE NATURAL ORDER DESCENDING)` -/
def sortDescending (l : List (List Char)) : List (List Char) :=
  l.mergeSort fun a b => decide (¬ strverscmp a b < 0)

/-- Where the natural order is that of some keys, a text with the greatest key comes first. -/
theorem sortDescending_head {ι κ : Type} [LinearOrder κ] {l : List ι} (hne : l ≠ []) {f : ι → List Char} {key : ι → κ}
    (h : ∀ a ∈ l, ∀ b ∈ l, strverscmp (f a) (f b) < 0 ↔ key a < key b) :
    ∃ a ∈ l, (sortDescending (l.map f)).head? = some (f a) ∧ ∀ b ∈ l, key b ≤ key a := by
  have hmap : (l.mergeSort fun a b => decide (key b ≤ key a)).map f = sortDescending (l.map f) := by
    refine List.map_mergeSort fun a ha b hb => ?_
    rw [decide_eq_decide, h a ha b hb, not_lt]
  have hsorted : (l.mergeSort fun a b => decide (key b ≤ key a)).Pairwise fun a b => decide (key b ≤ key a) = true :=
    List.pairwise_mergeSort
      (fun a b c hab hbc => by
        rw [decide_eq_true_eq] at hab hbc ⊢
        exact hbc.trans hab)
      (fun a b => by
        rw [Bool.or_eq_true, decide_eq_true_eq, decide_eq_true_eq]
        exact le_total _ _) l
  have hmem : ∀ a, a ∈ l.mergeSort (fun a b => decide (key b ≤ key a)) ↔ a ∈ l := fun a => List.mem_mergeSort
  rw [← hmap]
  cases hsort : l.mergeSort fun a b => decide (key b ≤ key a) with
  | nil =>
    obtain ⟨a, ha⟩ := List.exists_mem_of_ne_nil l hne
    have := (hmem a).2 ha
    rw [hsort] at this
    cases this
  | cons a rest =>
    rw [hsort] at hmem hsorted
    refine ⟨a, (hmem a).1 (.head _), rfl, fun b hb => ?_⟩
    rcases List.mem_cons.1 ((hmem b).2 hb) with rfl | hrest
    · exact le_rfl
    · simpa using (List.pairwise_cons.1 hsorted).1 b hrest

end Base.NaturalOrder
