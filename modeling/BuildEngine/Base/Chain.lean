/-
Chains `a`, `next a`, `next (next a)`, .. of a partial function, and sets that grow layer by layer, each of which `next`
does not leave: a chain ends, or it comes to stay in one layer (`settles_append`).
-/
import Mathlib.Data.List.Basic
import Mathlib.Tactic

namespace Base.Chain

variable {α : Type}

/-- The chain from `a` after `n` steps, if it has not ended. -/
def after (next : α → Option α) : ℕ → α → Option α
  | 0, a => some a
  | n + 1, a => (next a).bind (after next n)

/-- The chain from `a` ends, or comes to stay in one of the layers. -/
def Settles (next : α → Option α) (layers : List (List α)) (a : α) : Prop :=
  ∃ n, after next n a = none ∨ ∃ layer ∈ layers, ∀ m, n ≤ m → ∃ b ∈ layer, after next m a = some b

/-- No step leaves the set. -/
def Closed (next : α → Option α) (s : List α) : Prop := ∀ a ∈ s, ∀ b, next a = some b → b ∈ s

variable {next next' : α → Option α} {layers layers' : List (List α)} {s : List α}

theorem after_add (n m : ℕ) (a : α) : after next (n + m) a = (after next n a).bind (after next m) := by
  induction n generalizing a with
  | zero => rw [Nat.zero_add, after, Option.bind_some]
  | succ n ih =>
    have hassoc : n + 1 + m = (n + m) + 1 := by omega
    rw [hassoc, after, after, Option.bind_assoc]
    exact congrArg _ (funext fun b => ih b)

theorem after_one (a : α) : after next 1 a = next a := by
  rw [after]
  cases next a with
  | none => rfl
  | some b => rfl

theorem after_mem (h : Closed next s) {n : ℕ} {a b : α} (ha : a ∈ s) (hb : after next n a = some b) : b ∈ s := by
  induction n generalizing a with
  | zero =>
    obtain rfl := Option.some.inj hb
    exact ha
  | succ n ih =>
    obtain ⟨c, hc, hb⟩ := Option.bind_eq_some_iff.1 hb
    exact ih (h a ha c hc) hb

theorem after_congr (h : Closed next s) (heq : ∀ a ∈ s, next' a = next a) (n : ℕ) {a : α} (ha : a ∈ s) :
    after next' n a = after next n a := by
  induction n generalizing a with
  | zero => rfl
  | succ n ih =>
    rw [after, after, heq a ha]
    cases hnext : next a with
    | none => rfl
    | some b => exact ih (h a ha b hnext)

theorem Settles.congr (h : Closed next s) (heq : ∀ a ∈ s, next' a = next a) {a : α} (ha : a ∈ s)
    (hsettles : Settles next layers a) : Settles next' layers a := by
  obtain ⟨n, hn⟩ := hsettles
  refine ⟨n, ?_⟩
  simp only [after_congr h heq _ ha]
  exact hn

theorem Settles.mono (hlayers : ∀ layer ∈ layers, ∃ layer' ∈ layers', layer ⊆ layer') {a : α}
    (h : Settles next layers a) : Settles next layers' a := by
  obtain ⟨n, hn | ⟨layer, hlayer, hn⟩⟩ := h
  · exact ⟨n, .inl hn⟩
  · obtain ⟨layer', hlayer', hsubset⟩ := hlayers layer hlayer
    refine ⟨n, .inr ⟨layer', hlayer', fun m hm => ?_⟩⟩
    obtain ⟨b, hb, hafter⟩ := hn m hm
    exact ⟨b, hsubset hb, hafter⟩

/-- A chain settles if it comes to where the chain settles. -/
theorem Settles.of_after {n : ℕ} {a b : α} (hb : after next n a = some b) (h : Settles next layers b) :
    Settles next layers a := by
  obtain ⟨m, hm | ⟨layer, hlayer, hm⟩⟩ := h
  · exact ⟨n + m, .inl (by rw [after_add, hb, Option.bind_some, hm])⟩
  · refine ⟨n + m, .inr ⟨layer, hlayer, fun k hk => ?_⟩⟩
    obtain ⟨c, hc, hafter⟩ := hm (k - n) (by omega)
    have hsum : k = n + (k - n) := by omega
    refine ⟨c, hc, ?_⟩
    rw [hsum, after_add, hb, Option.bind_some, hafter]

/-- In layers of one element at most, a chain ends or comes to an element that follows on itself. -/
theorem Settles.loop (hlayers : ∀ layer ∈ layers, layer.length ≤ 1) {a : α} (h : Settles next layers a) :
    ∃ n, after next n a = none ∨ ∃ b, next b = some b ∧ after next n a = some b := by
  obtain ⟨n, hn | ⟨layer, hlayer, hn⟩⟩ := h
  · exact ⟨n, .inl hn⟩
  · obtain ⟨b, hb, hafter⟩ := hn n le_rfl
    obtain ⟨c, hc, hafter'⟩ := hn (n + 1) (by omega)
    have hone := hlayers layer hlayer
    have heq : b = c := by
      rcases layer with _ | ⟨d, _ | ⟨_, _⟩⟩
      · cases hb
      · rw [List.mem_singleton.1 hb, List.mem_singleton.1 hc]
      · simp at hone
    refine ⟨n, .inr ⟨b, ?_, hafter⟩⟩
    rwa [after_add, hafter, Option.bind_some, after_one, ← heq] at hafter'

/-- Where all chains settle in a set that no step leaves, they do so with one more layer. -/
theorem settles_append {layer : List α} (h : Closed next (s ++ layer)) (hs : ∀ a ∈ s, Settles next layers a) :
    ∀ a ∈ s ++ layer, Settles next (layers ++ [layer]) a := by
  have hold : ∀ a ∈ s, Settles next (layers ++ [layer]) a := fun a ha =>
    (hs a ha).mono fun layer hlayer => ⟨layer, List.mem_append_left _ hlayer, List.Subset.refl layer⟩
  intro a ha
  by_cases hends : ∃ n, after next n a = none
  · obtain ⟨n, hn⟩ := hends
    exact ⟨n, .inl hn⟩
  by_cases hleaves : ∃ n b, after next n a = some b ∧ b ∈ s
  · obtain ⟨n, b, hb, hmem⟩ := hleaves
    exact .of_after hb (hold b hmem)
  · -- the chain never ends and never meets the set
    refine ⟨0, .inr ⟨layer, List.mem_append_right _ (.head _), fun m _ => ?_⟩⟩
    obtain ⟨b, hb⟩ := Option.ne_none_iff_exists'.1 fun hnone => hends ⟨m, hnone⟩
    rcases List.mem_append.1 (after_mem h ha hb) with hmem | hmem
    · exact absurd ⟨m, b, hb, hmem⟩ hleaves
    · exact ⟨b, hmem, hb⟩

end Base.Chain
