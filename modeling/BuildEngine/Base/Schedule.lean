/-
Runs of processes that take their steps one at a time, in the order of a schedule. `Follows` says that every
step of a run is allowed in the state in which it is taken; an invariant that the allowed steps keep holds in
every state of such a run.
-/
import Mathlib.Tactic

namespace Base.Schedule

variable {P S : Type}

/-- The state after the steps of a schedule. -/
def run (step : P → S → S) (schedule : List P) (s : S) : S := schedule.foldl (fun s p => step p s) s

/-- Every step of the run is allowed. -/
def Follows (step : P → S → S) (allowed : P → S → Prop) : List P → S → Prop
  | [], _ => True
  | p :: ps, s => allowed p s ∧ Follows step allowed ps (step p s)

variable {step : P → S → S} {allowed : P → S → Prop}

instance instDecidableFollows [∀ p s, Decidable (allowed p s)] : ∀ ps s, Decidable (Follows step allowed ps s)
  | [], _ => .isTrue trivial
  | p :: ps, s =>
    have := instDecidableFollows ps (step p s)
    inferInstanceAs (Decidable (allowed p s ∧ Follows step allowed ps (step p s)))

@[simp] theorem run_nil (s : S) : run step [] s = s := rfl

@[simp] theorem run_cons (p : P) (ps : List P) (s : S) : run step (p :: ps) s = run step ps (step p s) := rfl

theorem run_append (ps qs : List P) (s : S) : run step (ps ++ qs) s = run step qs (run step ps s) :=
  List.foldl_append ..

theorem follows_append : ∀ {ps qs : List P} {s : S},
    Follows step allowed (ps ++ qs) s ↔ Follows step allowed ps s ∧ Follows step allowed qs (run step ps s)
  | [], qs, s => by
    constructor
    · intro h; exact ⟨trivial, h⟩
    · rintro ⟨-, h⟩; exact h
  | p :: ps, qs, s => by
    rw [List.cons_append, Follows, Follows, follows_append, and_assoc]
    rfl

/-- What the invariant and the permission to take a step give for that step holds of every step of the run. -/
theorem Follows.mono {inv : S → Prop} {good : P → S → Prop}
    (hstep : ∀ p s, inv s → allowed p s → inv (step p s)) (hgood : ∀ p s, inv s → allowed p s → good p s) :
    ∀ {schedule : List P} {s : S}, Follows step allowed schedule s → inv s → Follows step good schedule s
  | [], _, _, _ => trivial
  | p :: _, s, ⟨hp, h⟩, hs => ⟨hgood p s hs hp, Follows.mono hstep hgood h (hstep p s hs hp)⟩

end Base.Schedule
