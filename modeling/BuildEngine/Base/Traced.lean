/-
Programs that record what they do: a value together with the list of the events emitted on the
way to it. `All P` says that every emitted event satisfies `P`; its rules follow the program's
structure, so a property of the whole trace is proved command by command.
-/
import Mathlib.Tactic

namespace Base

/-- A value of type `α` and the events of type `ε` emitted while computing it, in order. -/
structure Traced (ε α : Type) where
  val : α
  log : List ε

namespace Traced

variable {ε α β : Type}

instance : Monad (Traced ε) where
  pure a := ⟨a, []⟩
  bind m k := ⟨(k m.val).val, m.log ++ (k m.val).log⟩

/-- Emit one event. -/
def emit (e : ε) : Traced ε Unit := ⟨(), [e]⟩

@[simp] theorem val_pure (a : α) : (pure a : Traced ε α).val = a := rfl
@[simp] theorem log_pure (a : α) : (pure a : Traced ε α).log = [] := rfl
@[simp] theorem val_bind (m : Traced ε α) (k : α → Traced ε β) : (m >>= k).val = (k m.val).val := rfl
@[simp] theorem log_bind (m : Traced ε α) (k : α → Traced ε β) :
    (m >>= k).log = m.log ++ (k m.val).log := rfl
@[simp] theorem val_emit (e : ε) : (emit e).val = () := rfl
@[simp] theorem log_emit (e : ε) : (emit e).log = [e] := rfl

/-- Every event emitted satisfies `P`. -/
def All (P : ε → Prop) (m : Traced ε α) : Prop := ∀ e ∈ m.log, P e

variable {P : ε → Prop}

@[simp] theorem all_pure (a : α) : (pure a : Traced ε α).All P := by simp [All]

@[simp] theorem all_emit (e : ε) : (emit e).All P ↔ P e := by simp [All]

/-- A sequence emits only `P`-events exactly when both parts do, the second on the first's value. -/
theorem all_bind (m : Traced ε α) (k : α → Traced ε β) :
    (m >>= k).All P ↔ m.All P ∧ (k m.val).All P := by
  simp only [All, log_bind, List.mem_append]
  constructor
  · intro h; exact ⟨fun e he => h e (.inl he), fun e he => h e (.inr he)⟩
  · rintro ⟨h1, h2⟩ e (he | he)
    · exact h1 e he
    · exact h2 e he

theorem All.bind {m : Traced ε α} {k : α → Traced ε β} (h1 : m.All P) (h2 : (k m.val).All P) :
    (m >>= k).All P := (all_bind m k).2 ⟨h1, h2⟩

end Traced

end Base
