/-
Search paths: lists of which only the first occurrence of an entry counts, so that two of them search alike if they are
the same without duplicates (`List.eraseDups`). A program that puts entries in front of a path, the last one first, and
leaves out those that are on it already, does not always search as the concatenation does; it is told here when it does.
-/
import Mathlib.Data.List.Lattice
import Mathlib.Tactic

namespace Base.SearchOrder

variable {α : Type} [BEq α] [LawfulBEq α]

/-! ## Without duplicates -/

theorem nodup_eraseDups (l : List α) : l.eraseDups.Nodup := by
  induction hn : l.length using Nat.strong_induction_on generalizing l with
  | _ n ih =>
    cases l with
    | nil => simp
    | cons a l =>
      subst hn
      have hlt : (l.filter fun b => !b == a).length < (a :: l).length :=
        Nat.lt_succ_of_le (List.length_filter_le _ _)
      rw [List.eraseDups_cons, List.nodup_cons]
      constructor
      · simp [List.mem_eraseDups]
      · exact ih _ hlt _ rfl

theorem eraseDups_of_nodup {l : List α} (h : l.Nodup) : l.eraseDups = l := by
  induction l with
  | nil => rfl
  | cons a l ih =>
    obtain ⟨ha, hl⟩ := List.nodup_cons.1 h
    have hfilter : l.filter (fun b => !b == a) = l := by
      rw [List.filter_eq_self]
      intro b hb
      simp only [Bool.not_eq_true', beq_eq_false_iff_ne]
      rintro rfl
      exact ha hb
    rw [List.eraseDups_cons, hfilter, ih hl]

theorem eraseDups_filter (p : α → Bool) (l : List α) : (l.filter p).eraseDups = l.eraseDups.filter p := by
  induction hn : l.length using Nat.strong_induction_on generalizing l with
  | _ n ih =>
    cases l with
    | nil => simp
    | cons a l =>
      subst hn
      have hlt : (l.filter fun b => !b == a).length < (a :: l).length :=
        Nat.lt_succ_of_le (List.length_filter_le _ _)
      have hrest := ih _ hlt _ rfl
      rw [List.filter_filter] at hrest
      rw [List.eraseDups_cons, List.filter_cons, List.filter_cons, ← hrest]
      split
      · rw [List.eraseDups_cons, List.filter_filter]
        simp only [Bool.and_comm]
      · rename_i ha
        congr 1
        apply List.filter_congr
        intro b _
        have hne : p b = true → b ≠ a := by
          rintro hb rfl
          exact ha hb
        cases hb : p b with
        | false => rfl
        | true => simpa using hne hb

/-- Of two disjoint paths one behind the other. -/
theorem eraseDups_append_of_disjoint {l l' : List α} (h : ∀ a ∈ l', a ∉ l) :
    (l ++ l').eraseDups = l.eraseDups ++ l'.eraseDups := by
  have hremove : l'.removeAll l = l' := by
    rw [List.removeAll, List.filter_eq_self]
    simpa using h
  rw [List.eraseDups_append, hremove]

/-! ## Putting entries in front -/

/-- An entry that is on the path already stays where it is. -/
def prepend (entry : α) (path : List α) : List α := if entry ∈ path then path else entry :: path

/-- The entries that are not on the path, in the order of their last occurrences, come in front of it. -/
theorem foldr_prepend (front path : List α) :
    front.foldr prepend path = (front.filter (· ∉ path)).reverse.eraseDups.reverse ++ path := by
  induction front with
  | nil => rfl
  | cons entry front ih =>
    rw [List.foldr_cons, ih, prepend]
    by_cases hpath : entry ∈ path
    · simp [hpath]
    · have hfilter : (entry :: front).filter (· ∉ path) = entry :: front.filter (· ∉ path) :=
        List.filter_cons_of_pos (by simpa using hpath)
      rw [hfilter, List.reverse_cons, List.eraseDups_append]
      by_cases hfront : entry ∈ front.filter (· ∉ path)
      · have hnone : [entry].removeAll (front.filter (· ∉ path)).reverse = [] := by
          simpa [List.removeAll] using hfront
        rw [if_pos, hnone, List.eraseDups_nil, List.append_nil]
        apply List.mem_append_left
        simpa [List.mem_eraseDups] using hfront
      · have hself : [entry].removeAll (front.filter (· ∉ path)).reverse = [entry] := by
          have hnot : entry ∉ front := fun h => hfront (List.mem_filter.2 ⟨h, by simpa using hpath⟩)
          simp [List.removeAll, hnot]
        rw [if_neg, hself, eraseDups_of_nodup (List.nodup_singleton entry), List.reverse_append]
        · rfl
        · rw [List.mem_append, List.mem_reverse, List.mem_eraseDups, List.mem_reverse]
          exact fun h => h.elim hfront hpath

/-- When `prepend` restores the order of the concatenation. -/
structure InOrder (front path : List α) : Prop where
  /-- The entries that are not on the path are met in the same order from the front and from behind. -/
  repeated : (front.filter (· ∉ path)).reverse.eraseDups = (front.filter (· ∉ path)).eraseDups.reverse
  /-- They come before those that are on the path. -/
  new_first : front.eraseDups = (front.filter (· ∉ path)).eraseDups ++ (front.filter (· ∈ path)).eraseDups
  /-- Those that are on the path are the first ones of it, in its order. -/
  leading : (front.filter (· ∈ path)).eraseDups <+: path.eraseDups

instance [DecidableEq α] (front path : List α) : Decidable (InOrder front path) :=
  decidable_of_iff (_ ∧ _ ∧ _) ⟨fun ⟨h, h', h''⟩ => ⟨h, h', h''⟩, fun ⟨h, h', h''⟩ => ⟨h, h', h''⟩⟩

theorem eraseDups_foldr_prepend_iff (front path : List α) :
    (front.foldr prepend path).eraseDups = (front ++ path).eraseDups ↔ InOrder front path := by
  set new := front.filter (· ∉ path) with hnew
  set old := front.filter (· ∈ path) with hold
  set placed := new.reverse.eraseDups.reverse with hplaced
  have hmem : ∀ a, a ∈ placed ↔ a ∈ front ∧ a ∉ path := by
    intro a
    simp [hplaced, hnew, List.mem_eraseDups]
  have hnodup : placed.Nodup := List.nodup_reverse.2 (nodup_eraseDups _)
  have hleft : (front.foldr prepend path).eraseDups = placed ++ path.eraseDups := by
    rw [foldr_prepend, eraseDups_append_of_disjoint, eraseDups_of_nodup hnodup]
    intro a ha hplaced
    exact ((hmem a).1 hplaced).2 ha
  have hright : (front ++ path).eraseDups = front.eraseDups ++ path.eraseDups.filter (· ∉ front) := by
    rw [List.eraseDups_append, List.removeAll, eraseDups_filter]
    simp
  have hnewfilter : new.eraseDups = front.eraseDups.filter (· ∉ path) := eraseDups_filter _ front
  have holdfilter : old.eraseDups = front.eraseDups.filter (· ∈ path) := eraseDups_filter _ front
  rw [hleft, hright]
  constructor
  · intro heq
    -- the new entries are those of both sides that the path does not have
    have hplacednew : placed = new.eraseDups := by
      have hfilter := congrArg (List.filter (· ∉ path)) heq
      rw [List.filter_append, List.filter_append, ← hnewfilter] at hfilter
      have hself : placed.filter (· ∉ path) = placed := by
        rw [List.filter_eq_self]
        simpa using fun a ha => ((hmem a).1 ha).2
      have hnone : path.eraseDups.filter (· ∉ path) = [] := by
        simp [List.filter_eq_nil_iff, List.mem_eraseDups]
      have hnone' : (path.eraseDups.filter (· ∉ front)).filter (· ∉ path) = [] := by
        simp only [List.filter_eq_nil_iff, List.mem_filter, List.mem_eraseDups]
        simpa using fun a ha _ => ha
      rwa [hself, hnone, hnone', List.append_nil, List.append_nil] at hfilter
    have hlength : placed.length ≤ front.eraseDups.length := by
      rw [hplacednew, hnewfilter]
      exact List.length_filter_le _ _
    have hstart : placed <+: front.eraseDups ++ path.eraseDups.filter (· ∉ front) := by
      rw [← heq]
      exact List.prefix_append _ _
    obtain ⟨common, hcommon⟩ := List.prefix_of_prefix_length_le hstart (List.prefix_append _ _) hlength
    rw [← hcommon, List.append_assoc, List.append_cancel_left_eq] at heq
    have holdcommon : old.eraseDups = common := by
      have hnone : placed.filter (· ∈ path) = [] := by
        rw [List.filter_eq_nil_iff]
        simpa using fun a ha => ((hmem a).1 ha).2
      have hself : common.filter (· ∈ path) = common := by
        rw [List.filter_eq_self]
        intro a ha
        have hpath : a ∈ path.eraseDups := by
          rw [heq]
          exact List.mem_append_left _ ha
        simpa [List.mem_eraseDups] using hpath
      rw [holdfilter, ← hcommon, List.filter_append, hnone, hself, List.nil_append]
    refine ⟨?_, ?_, ?_⟩
    · rw [← hplacednew, hplaced, List.reverse_reverse]
    · rw [← hplacednew, holdcommon, hcommon]
    · rw [holdcommon, heq]
      exact List.prefix_append _ _
  · rintro ⟨hrepeated, hfirst, rest, hrest⟩
    have hplacednew : placed = new.eraseDups := by rw [hplaced, hrepeated, List.reverse_reverse]
    have hnone : old.eraseDups.filter (· ∉ front) = [] := by
      rw [holdfilter, List.filter_filter, List.filter_eq_nil_iff]
      intro a ha
      have hfront : a ∈ front := List.mem_eraseDups.1 ha
      simp [hfront]
    have hself : rest.filter (· ∉ front) = rest := by
      rw [List.filter_eq_self]
      intro a ha
      have hnodup := nodup_eraseDups path
      rw [← hrest, List.nodup_append] at hnodup
      have hpath : a ∈ path := by
        rw [← List.mem_eraseDups, ← hrest]
        exact List.mem_append_right _ ha
      have hfront : a ∉ front := by
        intro hfront
        have hold : a ∈ old.eraseDups := by
          rw [List.mem_eraseDups]
          simpa [hold] using ⟨hfront, hpath⟩
        exact hnodup.2.2 a hold a ha rfl
      simpa using hfront
    calc placed ++ path.eraseDups = new.eraseDups ++ (old.eraseDups ++ rest) := by rw [hplacednew, hrest]
      _ = front.eraseDups ++ rest := by rw [hfirst, List.append_assoc]
      _ = front.eraseDups ++ (old.eraseDups ++ rest).filter (· ∉ front) := by
        rw [List.filter_append, hnone, hself, List.nil_append]
      _ = front.eraseDups ++ path.eraseDups.filter (· ∉ front) := by rw [hrest]

end Base.SearchOrder
