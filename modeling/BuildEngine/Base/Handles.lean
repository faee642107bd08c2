/-
Uses of counted references: each use acquires a reference to a resource or releases one. Where every acquisition is followed
by the release of the same resource, nothing is released that was not acquired before, at most one reference is held, and
the counts in the end are those of the beginning.
-/
import Mathlib.Data.List.Infix
import Mathlib.Tactic

namespace Base.Handles

variable {H : Type}

inductive Use (H : Type) where
  | acquire (h : H)
  | release (h : H)
  deriving DecidableEq, Repr

/-- Each reference is released by the next use. -/
inductive Paired : List (Use H) → Prop where
  | nil : Paired []
  | cons (h : H) {uses : List (Use H)} : Paired uses → Paired (.acquire h :: .release h :: uses)

theorem Paired.one (h : H) : Paired [.acquire h, .release h] := .cons h .nil

theorem Paired.append {uses uses' : List (Use H)} (h : Paired uses) (h' : Paired uses') : Paired (uses ++ uses') := by
  induction h with
  | nil => exact h'
  | cons r _ ih => exact .cons r ih

theorem Paired.flatMap {α : Type} {l : List α} {f : α → List (Use H)} (h : ∀ a ∈ l, Paired (f a)) : Paired (l.flatMap f) := by
  induction l with
  | nil => exact .nil
  | cons a l ih =>
    rw [List.flatMap_cons]
    exact (h a (.head _)).append (ih fun b hb => h b (.tail _ hb))

/-! ## Counting references -/

variable [DecidableEq H]

/-- The counts after a use, if a reference that is released was held. -/
def count (counts : H → ℕ) : Use H → Option (H → ℕ)
  | .acquire h => some (Function.update counts h (counts h + 1))
  | .release h => if counts h = 0 then none else some (Function.update counts h (counts h - 1))

def replay (uses : List (Use H)) (counts : H → ℕ) : Option (H → ℕ) := uses.foldlM count counts

theorem count_pair (h : H) (counts : H → ℕ) : (count counts (.acquire h)).bind (fun c => count c (.release h)) = some counts := by
  simp [count, Function.update_idem]

/-- Every resource is left with the references it had. -/
theorem Paired.replay {uses : List (Use H)} (h : Paired uses) (counts : H → ℕ) : replay uses counts = some counts := by
  induction h with
  | nil => rfl
  | cons r _ ih =>
    have hpair := count_pair r counts
    rw [Handles.replay] at ih ⊢
    simp only [List.foldlM_cons, Option.bind_eq_bind, ← Option.bind_assoc]
    rw [hpair]
    exact ih

/-- On the way there is at most one reference more than at the beginning. -/
theorem Paired.replay_prefix {uses : List (Use H)} (h : Paired uses) (counts : H → ℕ) {begun : List (Use H)}
    (hbegun : begun <+: uses) :
    Handles.replay begun counts = some counts ∨
      ∃ r, Handles.replay begun counts = some (Function.update counts r (counts r + 1)) := by
  induction h generalizing begun with
  | nil =>
    obtain rfl := List.prefix_nil.1 hbegun
    exact .inl rfl
  | cons r _ ih =>
    rcases List.prefix_cons_iff.1 hbegun with rfl | ⟨behind, rfl, hbehind⟩
    · exact .inl rfl
    · rcases List.prefix_cons_iff.1 hbehind with rfl | ⟨rest, rfl, hrest⟩
      · exact .inr ⟨r, rfl⟩
      · have hpair := count_pair r counts
        have hreplay : Handles.replay (.acquire r :: .release r :: rest) counts = Handles.replay rest counts := by
          simp only [Handles.replay, List.foldlM_cons, Option.bind_eq_bind, ← Option.bind_assoc]
          rw [hpair]
          rfl
        rw [hreplay]
        exact ih hrest

end Base.Handles
