/-
The searches of `std::basic_string`, for characters of any type. A position is a number, and the number `npos` says that
nothing was found; a search in a string shorter than that answers `npos` in no other case.
-/
import Mathlib.Data.List.DropRight
import Mathlib.Tactic

namespace Base.BasicString

variable {α : Type} [DecidableEq α]

/-- The largest `std::size_t`. -/
def npos : ℕ := 2 ^ 64 - 1

/-- `s.find(c, pos)` -/
def find (s : List α) (c : α) (pos : ℕ) : ℕ :=
  match (s.drop pos).findIdx? (· == c) with
  | none => npos
  | some i => pos + i

/-- `s.find_first_not_of(chars)` -/
def findFirstNotOf (s chars : List α) : ℕ := (s.findIdx? (· ∉ chars)).getD npos

/-- `s.find_last_not_of(chars)` -/
def findLastNotOf (s chars : List α) : ℕ :=
  match s.reverse.findIdx? (· ∉ chars) with
  | none => npos
  | some i => s.length - 1 - i

/-- `s.find_last_of(chars)` -/
def findLastOf (s chars : List α) : ℕ :=
  match s.reverse.findIdx? (· ∈ chars) with
  | none => npos
  | some i => s.length - 1 - i

/-- `s.substr(pos, count)`, which throws `std::out_of_range` behind the end. -/
def substr (s : List α) (pos count : ℕ) : Option (List α) :=
  if pos ≤ s.length then some ((s.drop pos).take count) else none

/-- `s.erase(pos)`, where `pos` is not behind the end -/
def erase (s : List α) (pos : ℕ) : List α := s.take pos

/-- `s` without the characters of `chars` at both ends. -/
def trim (chars s : List α) : List α := (s.dropWhile (· ∈ chars)).rdropWhile (· ∈ chars)

/-! ## Cutting at a separator -/

section Find

variable {s : List α} {c : α} {pos : ℕ}

theorem find_of_not_mem (h : c ∉ s.drop pos) : find s c pos = npos := by
  have hnone : (s.drop pos).findIdx? (· == c) = none := by
    rw [List.findIdx?_eq_none_iff]
    rintro d hd
    apply beq_eq_false_iff_ne.2
    rintro rfl
    exact h hd
  rw [find, hnone]

theorem find_of_eq {item rest : List α} (h : s.drop pos = item ++ c :: rest) (hitem : c ∉ item) :
    find s c pos = pos + item.length := by
  have hnone : item.findIdx? (· == c) = none := by
    rw [List.findIdx?_eq_none_iff]
    rintro d hd
    apply beq_eq_false_iff_ne.2
    rintro rfl
    exact hitem hd
  have hsome : (s.drop pos).findIdx? (· == c) = some item.length := by
    rw [h, List.findIdx?_append, hnone]
    simp [List.findIdx?_cons]
  rw [find, hsome]

/-- A separator found is in the string. -/
theorem find_lt (h : find s c pos ≠ npos) : pos ≤ find s c pos ∧ find s c pos < s.length := by
  unfold find at h ⊢
  split at h
  · exact absurd rfl h
  · rename_i i hi
    have hlt := (List.findIdx?_eq_some_iff_findIdx_eq.1 hi).1
    rw [List.length_drop] at hlt
    constructor
    · exact Nat.le_add_right pos i
    · show pos + i < s.length
      omega

end Find

omit [DecidableEq α] in
theorem substr_npos {s : List α} {pos : ℕ} (hpos : pos ≤ s.length) (hlen : s.length < npos) :
    substr s pos npos = some (s.drop pos) := by
  rw [substr, if_pos hpos, List.take_of_length_le]
  rw [List.length_drop]
  omega

omit [DecidableEq α] in
theorem substr_of_eq {s item rest : List α} {pos : ℕ} (hpos : pos ≤ s.length) (h : s.drop pos = item ++ rest) :
    substr s pos item.length = some item := by
  rw [substr, if_pos hpos, h, List.take_left]

/-! ## Trimming -/

section Trim

variable {s chars : List α}

theorem findFirstNotOf_eq_npos (hlen : s.length < npos) : findFirstNotOf s chars = npos ↔ ∀ c ∈ s, c ∈ chars := by
  unfold findFirstNotOf
  cases h : s.findIdx? (· ∉ chars) with
  | none =>
    rw [List.findIdx?_eq_none_iff] at h
    simpa using h
  | some i =>
    obtain ⟨hlt, heq⟩ := List.findIdx?_eq_some_iff_findIdx_eq.1 h
    constructor
    · intro hi
      simp only [Option.getD_some] at hi
      omega
    · intro hall
      have hlength : s.findIdx (· ∉ chars) = s.length := by
        apply List.findIdx_eq_length_of_false
        simpa using hall
      omega

theorem findIdx?_of_exists (h : ∃ c ∈ s, c ∉ chars) :
    s.findIdx? (· ∉ chars) = some (s.findIdx fun c => !decide (c ∈ chars)) ∧
      s.findIdx (fun c => !decide (c ∈ chars)) < s.length := by
  obtain ⟨c, hc, hchars⟩ := h
  have hlt : s.findIdx (fun c => !decide (c ∈ chars)) < s.length := by
    apply List.findIdx_lt_length_of_exists
    exact ⟨c, hc, by simpa using hchars⟩
  refine ⟨?_, hlt⟩
  rw [List.findIdx?_eq_some_iff_findIdx_eq]
  simpa using hlt

/-- From the first to the last character that is not of `chars` it is the trimmed string. -/
theorem substr_trim (h : ∃ c ∈ s, c ∉ chars) :
    substr s (findFirstNotOf s chars) (findLastNotOf s chars - findFirstNotOf s chars + 1) = some (trim chars s) := by
  have hreversed : ∃ c ∈ s.reverse, c ∉ chars := by simpa using h
  obtain ⟨hfirst, hlt⟩ := findIdx?_of_exists h
  obtain ⟨hlast, -⟩ := findIdx?_of_exists hreversed
  set p : α → Bool := fun c => decide (c ∈ chars)
  set f := s.findIdx fun c => !p c with hf
  have hdrop : s.dropWhile p = s.drop f := List.dropWhile_eq_drop_findIdx_not
  -- seen from behind, the last such character comes before the first `f` ones
  have hrest : ∃ c ∈ (s.drop f).reverse, c ∉ chars := by
    refine ⟨s[f], ?_, ?_⟩
    · rw [List.mem_reverse, List.mem_iff_getElem]
      exact ⟨0, by simpa using hlt, by simp⟩
    · simpa [p] using List.findIdx_getElem (w := hlt)
  obtain ⟨-, hk⟩ := findIdx?_of_exists hrest
  set k := (s.drop f).reverse.findIdx fun c => !p c
  have hreverse : s.reverse.findIdx (fun c => !p c) = k := by
    conv_lhs => rw [← List.take_append_drop f s]
    rw [List.reverse_append, List.findIdx_append, if_pos hk]
  have hlength : (s.drop f).length = s.length - f := List.length_drop
  have htrim : trim chars s = (s.drop f).take (s.length - f - k) := by
    calc trim chars s = (s.drop f).rdropWhile p := by rw [trim, hdrop]
      _ = ((s.drop f).reverse.drop k).reverse := by rw [List.rdropWhile, List.dropWhile_eq_drop_findIdx_not]
      _ = (s.drop f).take (s.length - f - k) := by
        rw [List.reverse_drop, List.reverse_reverse, List.length_reverse, hlength]
  have hcount : s.length - 1 - k - f + 1 = s.length - f - k := by
    rw [List.length_reverse, hlength] at hk
    omega
  rw [findFirstNotOf, findLastNotOf, hfirst, hlast, Option.getD_some, hreverse, substr, if_pos hlt.le, htrim, hcount]

theorem trim_eq_self (hfirst : ∀ c ∈ s.head?, c ∉ chars) (hlast : ∀ c ∈ s.getLast?, c ∉ chars) :
    trim chars s = s := by
  have hstart : s.dropWhile (· ∈ chars) = s := by
    cases s with
    | nil => rfl
    | cons c t => exact List.dropWhile_cons_of_neg (by simpa using hfirst c rfl)
  rw [trim, hstart, List.rdropWhile_eq_self_iff]
  intro hne
  simpa using hlast _ (List.getLast?_eq_some_getLast hne)

end Trim

end Base.BasicString
