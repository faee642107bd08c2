/-
Runs that a later run has to finish. A run goes through its steps up to the first one that fails, it can be broken off
between two steps, and the next run starts with the first step again. Where a step that fails changes nothing, a step that
has succeeded finds nothing left to do, and no later step undoes an earlier one, the run that is not broken off ends as a
single run would have ended, whatever came before it.
-/
import Mathlib.Data.List.Basic
import Mathlib.Tactic

namespace Base.Resume

variable {S E : Type}

abbrev Step (S E : Type) := S → S × Except E Unit

def run : List (Step S E) → Step S E
  | [], s => (s, .ok ())
  | f :: steps, s =>
    match f s with
    | (s', .error e) => (s', .error e)
    | (s', .ok ()) => run steps s'

/-- There is nothing left to do for the step. -/
def Settled (f : Step S E) (s : S) : Prop := f s = (s, .ok ())

structure Resumable (f : Step S E) : Prop where
  failed : ∀ {s s' e}, f s = (s', .error e) → s' = s
  again : ∀ {s s'}, f s = (s', .ok ()) → Settled f s'

/-- What `f` has done is not undone by `g`. -/
def Keeps (f g : Step S E) : Prop := ∀ s, Settled f s → Settled f (g s).1

/-! ## Runs in two parts -/

variable {steps : List (Step S E)} {s s' : S} {e : E}

theorem run_append_ok (h : run steps s = (s', .ok ())) (rest : List (Step S E)) : run (steps ++ rest) s = run rest s' := by
  induction steps generalizing s with
  | nil =>
    cases h
    rfl
  | cons f steps ih =>
    rw [List.cons_append, run]
    unfold run at h
    split at h
    · cases h
    · exact ih h

/-- A failing run has gone up to the step that fails. -/
theorem run_error (h : run steps s = (s', .error e)) :
    ∃ done f rest s'', steps = done ++ f :: rest ∧ run done s = (s'', .ok ()) ∧ f s'' = (s', .error e) := by
  induction steps generalizing s with
  | nil => cases h
  | cons f steps ih =>
    unfold run at h
    split at h
    · rename_i s₁ e₁ hf
      cases h
      exact ⟨[], f, steps, s, rfl, rfl, hf⟩
    · rename_i s₁ hf
      obtain ⟨done, g, rest, s₂, rfl, hdone, hg⟩ := ih h
      refine ⟨f :: done, g, rest, s₂, rfl, ?_, hg⟩
      rw [run, hf]
      exact hdone

/-- Steps with nothing left to do are passed over. -/
theorem run_settled (rest : List (Step S E)) (h : ∀ f ∈ steps, Settled f s) : run (steps ++ rest) s = run rest s := by
  induction steps with
  | nil => rfl
  | cons f steps ih =>
    have hf : f s = (s, .ok ()) := h f (.head _)
    rw [List.cons_append, run, hf]
    exact ih fun g hg => h g (.tail _ hg)

/-! ## Runs behind other runs -/

theorem settled_run {f : Step S E} (hkeeps : ∀ g ∈ steps, Keeps f g) (h : Settled f s) : Settled f (run steps s).1 := by
  induction steps generalizing s with
  | nil => exact h
  | cons g steps ih =>
    have hg : Settled f (g s).1 := hkeeps g (.head _) s h
    unfold run
    split
    · rename_i s₁ e₁ hs
      rwa [hs] at hg
    · rename_i s₁ hs
      rw [hs] at hg
      exact ih (fun g' hg' => hkeeps g' (.tail _ hg')) hg

/-- A run that succeeds leaves nothing to do for any of its steps. -/
theorem settled_of_run_ok (hsteps : ∀ f ∈ steps, Resumable f) (hkeeps : steps.Pairwise Keeps)
    (h : run steps s = (s', .ok ())) : ∀ f ∈ steps, Settled f s' := by
  induction steps generalizing s with
  | nil => exact fun f hf => absurd hf List.not_mem_nil
  | cons f steps ih =>
    obtain ⟨hlater, hrest⟩ := List.pairwise_cons.1 hkeeps
    unfold run at h
    split at h
    · cases h
    · rename_i s₁ hf
      intro g hg
      rcases List.mem_cons.1 hg with rfl | hg
      · have hfirst : Settled g (run steps s₁).1 := settled_run hlater ((hsteps g (.head _)).again hf)
        rwa [h] at hfirst
      · exact ih (fun g' hg' => hsteps g' (.tail _ hg')) hrest h g hg

/-- A run behind one that was broken off ends like a run from where that one started. -/
theorem run_broken_off (hsteps : ∀ f ∈ steps, Resumable f) (hkeeps : steps.Pairwise Keeps) (n : ℕ) (s : S) :
    run steps (run (steps.take n) s).1 = run steps s := by
  have hdone : ∀ f ∈ steps.take n, Resumable f := fun f hf => hsteps f (List.mem_of_mem_take hf)
  have hordered : (steps.take n).Pairwise Keeps := hkeeps.sublist (List.take_sublist n steps)
  rcases hrun : run (steps.take n) s with ⟨s₁, e₁ | ⟨⟨⟩⟩⟩
  · -- the step that failed fails again, in the state that it has not changed
    obtain ⟨done, f, rest, s₂, htake, hok, hf⟩ := run_error hrun
    rw [htake] at hdone hordered
    obtain rfl := (hdone f (by simp)).failed hf
    have hsettled : ∀ g ∈ done, Settled g s₁ :=
      settled_of_run_ok (fun g hg => hdone g (List.mem_append_left _ hg)) (List.pairwise_append.1 hordered).1 hok
    have hsteps' : steps = done ++ (f :: rest ++ steps.drop n) := by
      rw [← List.append_assoc, ← htake, List.take_append_drop]
    rw [hsteps', run_settled _ hsettled, run_append_ok hok]
  · have hsettled : ∀ g ∈ steps.take n, Settled g s₁ := settled_of_run_ok hdone hordered hrun
    have hsplit := run_settled (steps.drop n) hsettled
    have hsplit' := run_append_ok hrun (steps.drop n)
    rw [List.take_append_drop] at hsplit hsplit'
    rw [hsplit, hsplit']

/-- However many runs were broken off, and wherever. -/
theorem run_resumed (hsteps : ∀ f ∈ steps, Resumable f) (hkeeps : steps.Pairwise Keeps) (broken : List ℕ) (s : S) :
    run steps (broken.foldl (fun s n => (run (steps.take n) s).1) s) = run steps s := by
  induction broken generalizing s with
  | nil => rfl
  | cons n broken ih => rw [List.foldl_cons, ih, run_broken_off hsteps hkeeps]

end Base.Resume
