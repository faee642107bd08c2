/-
Brackets in a text that is read from left to right: the state of the reader decides whether a character is a bracket.
`closeAt` counts the characters up to the bracket that closes what is open, `Closes` says that a text ends with that one.
A text that closes what is open ends before or behind a balanced text, never inside.
-/
import Mathlib.Tactic

namespace Base.Brackets

inductive Bracket where
  | opening
  | closing
  | other
  deriving DecidableEq, Repr

section Brackets

variable {σ α : Type} (next : σ → α → σ) (bracket : σ → α → Bracket)

/-- The number of characters up to the one that closes the bracket around `level` other ones. -/
def closeAt : σ → ℕ → List α → Option ℕ
  | _, _, [] => none
  | state, level, a :: s =>
    match bracket state a, level with
    | .opening, level => (closeAt (next state a) (level + 1) s).map (· + 1)
    | .closing, 0 => some 1
    | .closing, level + 1 => (closeAt (next state a) level s).map (· + 1)
    | .other, level => (closeAt (next state a) level s).map (· + 1)

/-- The last character closes the bracket around `level` other ones. -/
inductive Closes : σ → ℕ → List α → Prop
  | done {state a} : bracket state a = .closing → Closes state 0 [a]
  | opening {state level a s} : bracket state a = .opening → Closes (next state a) (level + 1) s →
      Closes state level (a :: s)
  | closing {state level a s} : bracket state a = .closing → Closes (next state a) level s →
      Closes state (level + 1) (a :: s)
  | other {state level a s} : bracket state a = .other → Closes (next state a) level s → Closes state level (a :: s)

/-- Whatever closes behind the text closes with the text in front of it. -/
def Balanced (state : σ) (text : List α) : Prop :=
  ∀ level s, Closes next bracket (text.foldl next state) level s → Closes next bracket state level (text ++ s)

variable {next bracket} {state : σ} {level : ℕ}

/-! ## Where a text closes -/

theorem Closes.closeAt_append {w : List α} (h : Closes next bracket state level w) (rest : List α) :
    closeAt next bracket state level (w ++ rest) = some w.length := by
  induction h with
  | done hbracket => simp [closeAt, hbracket]
  | opening hbracket _ ih => simp [closeAt, hbracket, ih]
  | closing hbracket _ ih => simp [closeAt, hbracket, ih]
  | other hbracket _ ih => simp [closeAt, hbracket, ih]

theorem closes_of_closeAt {s : List α} {n : ℕ} (h : closeAt next bracket state level s = some n) :
    ∃ w rest, s = w ++ rest ∧ w.length = n ∧ Closes next bracket state level w := by
  induction s generalizing state level n with
  | nil => cases h
  | cons a s ih =>
    cases hbracket : bracket state a with
    | opening =>
      simp only [closeAt, hbracket, Option.map_eq_some_iff] at h
      obtain ⟨m, hm, rfl⟩ := h
      obtain ⟨w, rest, rfl, rfl, hw⟩ := ih hm
      exact ⟨a :: w, rest, rfl, rfl, .opening hbracket hw⟩
    | closing =>
      cases level with
      | zero =>
        simp only [closeAt, hbracket, Option.some.injEq] at h
        exact ⟨[a], s, rfl, h, .done hbracket⟩
      | succ level =>
        simp only [closeAt, hbracket, Option.map_eq_some_iff] at h
        obtain ⟨m, hm, rfl⟩ := h
        obtain ⟨w, rest, rfl, rfl, hw⟩ := ih hm
        exact ⟨a :: w, rest, rfl, rfl, .closing hbracket hw⟩
    | other =>
      simp only [closeAt, hbracket, Option.map_eq_some_iff] at h
      obtain ⟨m, hm, rfl⟩ := h
      obtain ⟨w, rest, rfl, rfl, hw⟩ := ih hm
      exact ⟨a :: w, rest, rfl, rfl, .other hbracket hw⟩

theorem closes_iff {w : List α} : Closes next bracket state level w ↔ closeAt next bracket state level w = some w.length := by
  constructor
  · intro h
    have hcount := h.closeAt_append []
    rwa [List.append_nil] at hcount
  · intro h
    obtain ⟨w', rest, rfl, hlength, hw⟩ := closes_of_closeAt h
    have hrest : rest = [] := by
      rw [List.length_append] at hlength
      exact List.length_eq_zero_iff.1 (by omega)
    rwa [hrest, List.append_nil]

instance (w : List α) : Decidable (Closes next bracket state level w) := decidable_of_iff _ closes_iff.symm

/-- A text closes at one place. -/
theorem Closes.append_inj {w w' rest rest' : List α} (h : Closes next bracket state level w)
    (h' : Closes next bracket state level w') (heq : w ++ rest = w' ++ rest') : w = w' ∧ rest = rest' := by
  have hlength : some w.length = some w'.length := by
    rw [← h.closeAt_append rest, ← h'.closeAt_append rest', heq]
  exact List.append_inj heq (Option.some.inj hlength)

/-! ## Parts of a text that closes -/

theorem Closes.of_other {a : α} {s : List α} (h : Closes next bracket state level (a :: s))
    (ha : bracket state a = .other) : Closes next bracket (next state a) level s := by
  cases h with
  | done hbracket => rw [ha] at hbracket; cases hbracket
  | opening hbracket _ => rw [ha] at hbracket; cases hbracket
  | closing hbracket _ => rw [ha] at hbracket; cases hbracket
  | other _ h => exact h

theorem Closes.getLast? {w : List α} (h : Closes next bracket state level w) :
    ∃ state a, w.getLast? = some a ∧ bracket state a = .closing := by
  induction h with
  | done hbracket => exact ⟨_, _, rfl, hbracket⟩
  | opening _ _ ih | closing _ _ ih | other _ _ ih =>
    obtain ⟨state, a, hlast, hbracket⟩ := ih
    exact ⟨state, a, by rw [List.getLast?_cons, hlast, Option.getD_some], hbracket⟩

/-- In front of the end some brackets are open. -/
theorem Closes.behind {x v : List α} (h : Closes next bracket state level (x ++ v)) (hv : v ≠ []) :
    ∃ level', Closes next bracket (x.foldl next state) level' v := by
  induction x generalizing state level with
  | nil => exact ⟨level, h⟩
  | cons a x ih =>
    rw [List.cons_append] at h
    generalize hs : x ++ v = s at h
    cases h with
    | done _ => exact absurd (List.append_eq_nil_iff.1 hs).2 hv
    | opening _ h => exact ih (hs ▸ h)
    | closing _ h => exact ih (hs ▸ h)
    | other _ h => exact ih (hs ▸ h)

/-- What closes the bracket around `level` others leaves those open that stand around it. -/
theorem Closes.inside {w s : List α} {n : ℕ} (h : Closes next bracket state level w)
    (hs : Closes next bracket (w.foldl next state) n s) : Closes next bracket state (level + n + 1) (w ++ s) := by
  induction h with
  | done hbracket =>
    rw [Nat.zero_add]
    exact .closing hbracket hs
  | opening hbracket _ ih =>
    refine .opening hbracket ?_
    have hlevel := ih hs
    rwa [Nat.add_right_comm _ 1 n] at hlevel
  | closing hbracket _ ih =>
    rw [Nat.add_right_comm _ 1 n]
    exact .closing hbracket (ih hs)
  | other hbracket _ ih => exact .other hbracket (ih hs)

theorem balanced_of_other {x : List α} (h : ∀ state, ∀ a ∈ x, bracket state a = .other) (state : σ) :
    Balanced next bracket state x := by
  intro level s hs
  induction x generalizing state with
  | nil => exact hs
  | cons a x ih =>
    rw [List.cons_append]
    exact .other (h state a (.head _)) (ih (fun state b hb => h state b (.tail _ hb)) _ hs)

/-- A bracket with what closes it, behind characters that are none. -/
theorem Closes.balanced {x w : List α} {a : α} (hx : ∀ state, ∀ b ∈ x, bracket state b = .other)
    (ha : bracket (x.foldl next state) a = .opening) (hw : Closes next bracket (next (x.foldl next state) a) 0 w) :
    Balanced next bracket state (x ++ a :: w) := by
  intro level s hs
  rw [List.foldl_append, List.foldl_cons] at hs
  rw [List.append_assoc, List.cons_append]
  apply balanced_of_other hx
  refine .opening ha ?_
  have hlevel := hw.inside hs
  rwa [Nat.zero_add] at hlevel

/-- A text that closes what is open ends before a balanced one or behind it. -/
theorem Closes.before_or_behind {w x b d e : List α} (h : Closes next bracket state level w)
    (hb : Balanced next bracket (x.foldl next state) b) (heq : w ++ d = x ++ b ++ e)
    (hclosable : ∀ state level, ∃ s, Closes next bracket state level s) :
    (∃ z, x = w ++ z) ∨ ∃ z, w = x ++ b ++ z := by
  rw [List.append_assoc] at heq
  rcases List.append_eq_append_iff.1 heq with ⟨z, hx, -⟩ | ⟨v, hw, hrest⟩
  · exact .inl ⟨z, hx⟩
  · -- `v` is what the text has behind `x`
    by_cases hv : v = []
    · exact .inl ⟨[], by rw [hw, hv, List.append_nil, List.append_nil]⟩
    · right
      subst hw
      obtain ⟨level', hv⟩ := h.behind hv
      rcases List.append_eq_append_iff.1 hrest with ⟨y, hv', -⟩ | ⟨y, hb', -⟩
      · exact ⟨y, by rw [hv', List.append_assoc]⟩
      · -- inside of the balanced text, what is open can be closed behind it only
        obtain ⟨s, hs⟩ := hclosable (b.foldl next (x.foldl next state)) level'
        have hvs : v ++ (y ++ s) = (b ++ s) ++ [] := by rw [hb', List.append_assoc, List.append_nil, List.append_assoc]
        obtain ⟨hvs, -⟩ := hv.append_inj (hb level' s hs) hvs
        exact ⟨s, by rw [hvs, List.append_assoc]⟩

end Brackets

end Base.Brackets
