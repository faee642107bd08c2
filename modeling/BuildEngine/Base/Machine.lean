/-
Runs of a deterministic machine that names what it does: each step has a label, and a run is a list of labels. An
invariant may speak of the labels so far. A machine whose measure falls at every step has bounded runs, and every
run can be continued to a halting state.
-/
import Mathlib.Tactic

namespace Base.Machine

variable {S L : Type} {step : S → Option (L × S)}

/-- The steps from `s` with the labels `ls` lead to `s'`. -/
inductive Run (step : S → Option (L × S)) (s : S) : List L → S → Prop
  | nil : Run step s [] s
  | snoc {ls : List L} {l : L} {s' s'' : S} : Run step s ls s' → step s' = some (l, s'') → Run step s (ls ++ [l]) s''

theorem Run.single {s s' : S} {l : L} (h : step s = some (l, s')) : Run step s [l] s' := by
  have hrun : Run step s ([] ++ [l]) s' := .snoc .nil h
  exact hrun

theorem Run.trans {s s' s'' : S} {ls ls' : List L} (h : Run step s ls s') (h' : Run step s' ls' s'') :
    Run step s (ls ++ ls') s'' := by
  induction h' with
  | nil => rwa [List.append_nil]
  | snoc _ hstep ih =>
    rw [← List.append_assoc]
    exact .snoc ih hstep

/-- The run lemma: what holds at the start and is kept by every step holds along every run. -/
theorem Run.invariant {Inv : List L → S → Prop} {s : S} (h0 : Inv [] s)
    (hstep : ∀ {ls l s' s''}, Inv ls s' → step s' = some (l, s'') → Inv (ls ++ [l]) s'') {ls : List L} {s' : S}
    (h : Run step s ls s') : Inv ls s' := by
  induction h with
  | nil => exact h0
  | snoc _ hs ih => exact hstep ih hs

/-! ## Termination -/

section Measure

variable {μ : S → ℕ} (hμ : ∀ {l s s'}, step s = some (l, s') → μ s' < μ s)
include hμ

theorem Run.length_add_measure {s s' : S} {ls : List L} (h : Run step s ls s') : ls.length + μ s' ≤ μ s := by
  induction h with
  | nil => simp
  | snoc _ hs ih =>
    have hlt := hμ hs
    rw [List.length_append, List.length_singleton]
    omega

/-- From every state a run leads to a state without a step. -/
theorem exists_halt (s : S) : ∃ ls s', Run step s ls s' ∧ step s' = none := by
  induction hn : μ s using Nat.strong_induction_on generalizing s with
  | _ n ih =>
    cases hs : step s with
    | none => exact ⟨[], s, .nil, hs⟩
    | some next =>
      obtain ⟨l, s'⟩ := next
      obtain ⟨ls, s'', hrun, hhalt⟩ := ih (μ s') (hn ▸ hμ hs) s' rfl
      exact ⟨[l] ++ ls, s'', (Run.single hs).trans hrun, hhalt⟩

end Measure

/-! ## Determinism -/

/-- A run that halts continues every other run from its start. -/
theorem Run.continues {s s₁ s₂ : S} {ls₁ ls₂ : List L} (h₁ : Run step s ls₁ s₁) (h₂ : Run step s ls₂ s₂)
    (hhalt : step s₂ = none) : ∃ rest, ls₂ = ls₁ ++ rest ∧ Run step s₁ rest s₂ := by
  induction h₁ with
  | nil => exact ⟨ls₂, rfl, h₂⟩
  | @snoc ls l s' s'' _ hstep ih =>
    obtain ⟨rest, hrest, hrun⟩ := ih
    -- the first step of what is left is the step taken
    have hfirst : ∀ {rest : List L} {t : S}, Run step s' rest t → t = s' ∧ rest = [] ∨
        ∃ rest', rest = l :: rest' ∧ Run step s'' rest' t := by
      intro rest t hrun
      induction hrun with
      | nil => exact .inl ⟨rfl, rfl⟩
      | snoc _ hs ih =>
        rcases ih with ⟨rfl, rfl⟩ | ⟨rest', rfl, hrun'⟩
        · rw [hs] at hstep
          cases hstep
          exact .inr ⟨[], rfl, .nil⟩
        · exact .inr ⟨rest' ++ [_], rfl, .snoc hrun' hs⟩
    rcases hfirst hrun with ⟨rfl, -⟩ | ⟨rest', rfl, hrun'⟩
    · rw [hhalt] at hstep
      cases hstep
    · exact ⟨rest', by rw [hrest, List.append_assoc]; rfl, hrun'⟩

theorem Run.of_halt {s s' : S} {ls : List L} (hhalt : step s = none) (h : Run step s ls s') : ls = [] ∧ s' = s := by
  induction h with
  | nil => exact ⟨rfl, rfl⟩
  | snoc _ hs ih =>
    rw [ih.2, hhalt] at hs
    cases hs

/-- All runs to a halting state end in the same state. -/
theorem Run.unique {s s₁ s₂ : S} {ls₁ ls₂ : List L} (h₁ : Run step s ls₁ s₁) (hhalt₁ : step s₁ = none)
    (h₂ : Run step s ls₂ s₂) (hhalt₂ : step s₂ = none) : ls₁ = ls₂ ∧ s₁ = s₂ := by
  obtain ⟨rest, hrest, hrun⟩ := h₁.continues h₂ hhalt₂
  obtain ⟨rfl, rfl⟩ := hrun.of_halt hhalt₁
  exact ⟨by rw [hrest, List.append_nil], rfl⟩

end Base.Machine
