/-
A text as its lines, each with the character that ends it. Only the last line can be without one, so any choice of the
lines, put together again, has the chosen lines as its lines.
-/
import Mathlib.Data.List.Basic
import Mathlib.Tactic

namespace Base.Lines

variable {α : Type} (ends : α → Bool)

def splitLines : List α → List (List α)
  | [] => []
  | c :: t =>
    if ends c then [c] :: splitLines t
    else
      match splitLines t with
      | [] => [[c]]
      | line :: lines => (c :: line) :: lines

/-- A line with the character that ends it. -/
def Ended (line : List α) : Prop := ∃ body c, line = body ++ [c] ∧ (∀ d ∈ body, ¬ ends d) ∧ ends c

/-- What remains behind the ended lines, if the text does not stop there. -/
def Unended (line : List α) : Prop := line ≠ [] ∧ ∀ d ∈ line, ¬ ends d

/-- Each line is ended, or it is the last one. -/
structure IsLines (lines : List (List α)) : Prop where
  line : ∀ line ∈ lines, Ended ends line ∨ Unended ends line
  ended : lines.Pairwise fun line _ => Ended ends line

variable {ends}

theorem splitLines_body {body : List α} (hbody : ∀ d ∈ body, ¬ ends d) {c : α} (hc : ends c) (t : List α) :
    splitLines ends (body ++ c :: t) = (body ++ [c]) :: splitLines ends t := by
  induction body with
  | nil => rw [List.nil_append, splitLines, if_pos hc, List.nil_append]
  | cons d body ih =>
    have hd : ¬ ends d := hbody d (.head _)
    rw [List.cons_append, splitLines, if_neg hd, ih fun e he => hbody e (.tail _ he)]
    rfl

theorem splitLines_unended {line : List α} (h : Unended ends line) : splitLines ends line = [line] := by
  obtain ⟨hne, hline⟩ := h
  induction line with
  | nil => exact absurd rfl hne
  | cons c line ih =>
    rw [splitLines, if_neg (hline c (.head _))]
    cases line with
    | nil => rfl
    | cons d line => rw [ih (List.cons_ne_nil d line) fun e he => hline e (.tail _ he)]

theorem flatten_splitLines (t : List α) : (splitLines ends t).flatten = t := by
  induction t with
  | nil => rfl
  | cons c t ih =>
    unfold splitLines
    split
    · rw [List.flatten_cons, ih, List.singleton_append]
    · split
      · rename_i hnil
        rw [hnil] at ih
        rw [← ih]
        rfl
      · rename_i line lines hlines
        rw [hlines, List.flatten_cons] at ih
        rw [List.flatten_cons, List.cons_append, ih]

/-- Lines are read back from the text that they make. -/
theorem splitLines_flatten {lines : List (List α)} (h : IsLines ends lines) : splitLines ends lines.flatten = lines := by
  induction lines with
  | nil => rfl
  | cons line lines ih =>
    obtain ⟨hended, hrest⟩ := List.pairwise_cons.1 h.ended
    have hlines : IsLines ends lines := ⟨fun l hl => h.line l (.tail _ hl), hrest⟩
    have hsplit : Ended ends line → splitLines ends (line ++ lines.flatten) = line :: lines := by
      rintro ⟨body, c, rfl, hbody, hc⟩
      rw [List.append_assoc, List.singleton_append, splitLines_body hbody hc, ih hlines]
    rw [List.flatten_cons]
    cases lines with
    | nil =>
      rcases h.line line (.head _) with hline | hline
      · exact hsplit hline
      · rw [List.flatten_nil, List.append_nil, splitLines_unended hline]
    | cons next lines => exact hsplit (hended next (.head _))

theorem isLines_splitLines (t : List α) : IsLines ends (splitLines ends t) := by
  induction t with
  | nil => exact ⟨fun _ h => absurd h List.not_mem_nil, .nil⟩
  | cons c t ih =>
    unfold splitLines
    split
    · rename_i hc
      have hline : Ended ends [c] := ⟨[], c, rfl, fun _ h => absurd h List.not_mem_nil, hc⟩
      exact ⟨List.forall_mem_cons.2 ⟨.inl hline, ih.line⟩, List.pairwise_cons.2 ⟨fun _ _ => hline, ih.ended⟩⟩
    · rename_i hc
      have hended : ∀ line, Ended ends line → Ended ends (c :: line) := by
        rintro line ⟨body, d, rfl, hbody, hd⟩
        exact ⟨c :: body, d, rfl, List.forall_mem_cons.2 ⟨hc, hbody⟩, hd⟩
      split
      · refine ⟨List.forall_mem_singleton.2 (.inr ⟨List.cons_ne_nil _ _, ?_⟩), List.pairwise_singleton ..⟩
        exact List.forall_mem_singleton.2 hc
      · rename_i line lines hlines
        rw [hlines] at ih
        obtain ⟨hfirst, hrest⟩ := List.forall_mem_cons.1 ih.line
        obtain ⟨hahead, hpairs⟩ := List.pairwise_cons.1 ih.ended
        refine ⟨List.forall_mem_cons.2 ⟨?_, hrest⟩, List.pairwise_cons.2 ⟨fun next hnext => ?_, hpairs⟩⟩
        · rcases hfirst with hline | ⟨-, hline⟩
          · exact .inl (hended line hline)
          · exact .inr ⟨List.cons_ne_nil _ _, List.forall_mem_cons.2 ⟨hc, hline⟩⟩
        · exact hended line (hahead next hnext)

theorem IsLines.sublist {lines chosen : List (List α)} (h : IsLines ends lines) (hsub : chosen.Sublist lines) :
    IsLines ends chosen :=
  ⟨fun line hline => h.line line (hsub.subset hline), h.ended.sublist hsub⟩

/-- The lines of a text from which some lines have been taken out. -/
theorem splitLines_filter (keep : List α → Bool) (t : List α) :
    splitLines ends ((splitLines ends t).filter keep).flatten = (splitLines ends t).filter keep :=
  splitLines_flatten ((isLines_splitLines t).sublist List.filter_sublist)

end Base.Lines
