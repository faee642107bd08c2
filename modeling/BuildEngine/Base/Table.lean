/-
Tables with unique keys, and `INSERT`. Two rows conflict where they agree on a unique key; no two rows of a table do. The
rows of a statement are inserted one after the other: one that conflicts with the table makes a plain `INSERT` fail,
`INSERT OR IGNORE` passes over it, and `INSERT OR REPLACE` removes every row that it conflicts with.
-/
import Mathlib.Data.List.Sublists
import Mathlib.Tactic

namespace Base.Table

inductive OnConflict where
  | abort | ignore | replace
  deriving DecidableEq

variable {Row : Type}

/-! ## Conflicts -/

/-- Two rows agree on a key. -/
def Same {Key : Type} (key : Row → Key) (a b : Row) : Prop := key a = key b

/-- Two rows conflict in one of two ways. -/
def Either (R S : Row → Row → Prop) (a b : Row) : Prop := R a b ∨ S a b

section Conflict

variable {Key : Type} {key : Row → Key} {R S : Row → Row → Prop}

instance [DecidableEq Key] (a b : Row) : Decidable (Same key a b) := inferInstanceAs (Decidable (key a = key b))

instance (a b : Row) [Decidable (R a b)] [Decidable (S a b)] : Decidable (Either R S a b) :=
  inferInstanceAs (Decidable (R a b ∨ S a b))

instance : Std.Symm (Same key) := ⟨fun _ _ h => h.symm⟩

instance : Std.Refl (Same key) := ⟨fun _ => rfl⟩

instance [Std.Symm R] [Std.Symm S] : Std.Symm (Either R S) :=
  ⟨fun _ _ h => h.imp (Std.Symm.symm _ _) (Std.Symm.symm _ _)⟩

instance [Std.Refl R] : Std.Refl (Either R S) := ⟨fun row => .inl (Std.Refl.refl row)⟩

end Conflict

variable (Conflict : Row → Row → Prop)

/-- No two rows conflict. -/
def Unique (rows : List Row) : Prop := rows.Pairwise fun a b => ¬ Conflict a b

variable [DecidableRel Conflict]

instance (rows : List Row) : Decidable (Unique Conflict rows) :=
  inferInstanceAs (Decidable (rows.Pairwise fun a b => ¬ Conflict a b))

/-- `INSERT OR REPLACE` of a row. -/
def replaceRow (rows : List Row) (new : Row) : List Row := rows.filter (fun row => ¬ Conflict new row) ++ [new]

def insertRow : OnConflict → List Row → Row → Option (List Row)
  | .abort, rows, new => if ∃ row ∈ rows, Conflict new row then none else some (rows ++ [new])
  | .ignore, rows, new => if ∃ row ∈ rows, Conflict new row then some rows else some (rows ++ [new])
  | .replace, rows, new => some (replaceRow Conflict rows new)

/-- The rows of a table behind a statement that inserts `news`, if none of them makes it fail. -/
def insertRows (onConflict : OnConflict) (rows news : List Row) : Option (List Row) :=
  news.foldlM (insertRow Conflict onConflict) rows

/-- `INSERT OR REPLACE` of several rows. -/
def replaceRows (rows news : List Row) : List Row := news.foldl (replaceRow Conflict) rows

variable {Conflict} {rows news rows' : List Row}

/-! ## Keys -/

omit [DecidableRel Conflict] in
theorem unique_same {Key : Type} {key : Row → Key} : Unique (Same key) rows ↔ (rows.map key).Nodup := by
  rw [List.Nodup, List.pairwise_map]
  rfl

omit [DecidableRel Conflict] in
/-- Rows whose keys are the images of different keys do not conflict. -/
theorem unique_same_of_map {Row' Key Key' : Type} {key : Row → Key} {key' : Row' → Key'} {f : Key' → Key}
    {rows' : List Row'} (hf : Function.Injective f) (h : Unique (Same key') rows')
    (hkeys : rows.map key = (rows'.map key').map f) : Unique (Same key) rows := by
  rw [unique_same, hkeys]
  exact (unique_same.1 h).map hf

omit [DecidableRel Conflict] in
theorem unique_either {R S : Row → Row → Prop} : Unique (Either R S) rows ↔ Unique R rows ∧ Unique S rows := by
  rw [Unique, Unique, Unique, ← List.pairwise_and_iff]
  exact ⟨List.Pairwise.imp not_or.1, List.Pairwise.imp not_or.2⟩

/-! ## One row -/

omit [DecidableRel Conflict] in
theorem unique_append_singleton {new : Row} (h : Unique Conflict rows) (hnew : ∀ row ∈ rows, ¬ Conflict row new) :
    Unique Conflict (rows ++ [new]) := by
  refine List.pairwise_append.2 ⟨h, List.pairwise_singleton _ _, fun row hrow new' hnew' => ?_⟩
  rw [List.mem_singleton.1 hnew']
  exact hnew row hrow

theorem unique_replaceRow [Std.Symm Conflict] {new : Row} (h : Unique Conflict rows) :
    Unique Conflict (replaceRow Conflict rows new) := by
  refine unique_append_singleton (h.filter _) fun row hrow hconflict => ?_
  have hnot := (List.mem_filter.1 hrow).2
  exact of_decide_eq_true hnot (Std.Symm.symm _ _ hconflict)

/-- Unless it replaces, an insertion keeps every row. -/
theorem insertRow_append {onConflict : OnConflict} (hkeeps : onConflict ≠ .replace) {new : Row}
    (hinsert : insertRow Conflict onConflict rows new = some rows') : rows' = rows ∨ rows' = rows ++ [new] := by
  cases onConflict with
  | abort =>
    rw [insertRow] at hinsert
    split at hinsert
    next => cases hinsert
    next => exact .inr (Option.some.inj hinsert).symm
  | ignore =>
    rw [insertRow] at hinsert
    split at hinsert
    next => exact .inl (Option.some.inj hinsert).symm
    next => exact .inr (Option.some.inj hinsert).symm
  | replace => exact absurd rfl hkeeps

/-! ## Replacing -/

theorem unique_replaceRows [Std.Symm Conflict] (h : Unique Conflict rows) :
    Unique Conflict (replaceRows Conflict rows news) := by
  induction news generalizing rows with
  | nil => exact h
  | cons new news ih => exact ih (unique_replaceRow h)

/-- Rows of which no two conflict stand behind those that conflict with none of them. -/
theorem replaceRows_eq [Std.Symm Conflict] (hnews : Unique Conflict news) :
    replaceRows Conflict rows news = rows.filter (fun row => ∀ new ∈ news, ¬ Conflict new row) ++ news := by
  induction news generalizing rows with
  | nil =>
    have hall : rows.filter (fun row => ∀ new ∈ ([] : List Row), ¬ Conflict new row) = rows := by simp
    rw [hall, List.append_nil]
    rfl
  | cons new news ih =>
    obtain ⟨hnew, hnews⟩ := List.pairwise_cons.1 hnews
    have hstays : [new].filter (fun row => ∀ new' ∈ news, ¬ Conflict new' row) = [new] := by
      refine List.filter_eq_self.2 fun row hrow => ?_
      rw [List.mem_singleton.1 hrow]
      exact decide_eq_true fun new' hnew' hconflict => hnew new' hnew' (Std.Symm.symm _ _ hconflict)
    have hrest : (rows.filter fun row => ¬ Conflict new row).filter (fun row => ∀ new' ∈ news, ¬ Conflict new' row) =
        rows.filter fun row => ∀ new' ∈ new :: news, ¬ Conflict new' row := by
      rw [List.filter_filter]
      refine List.filter_congr fun row _ => ?_
      simp [Bool.and_comm]
    calc replaceRows Conflict rows (new :: news) = replaceRows Conflict (replaceRow Conflict rows new) news := rfl
      _ = (replaceRow Conflict rows new).filter (fun row => ∀ new' ∈ news, ¬ Conflict new' row) ++ news := ih hnews
      _ = _ := by rw [replaceRow, List.filter_append, hstays, hrest, List.append_assoc, List.singleton_append]

theorem mem_replaceRows [Std.Symm Conflict] (hnews : Unique Conflict news) {row : Row} :
    row ∈ replaceRows Conflict rows news ↔ row ∈ news ∨ row ∈ rows ∧ ∀ new ∈ news, ¬ Conflict new row := by
  rw [replaceRows_eq hnews, List.mem_append, List.mem_filter, decide_eq_true_iff]
  exact or_comm

/-- Replacing the rows again changes nothing. -/
theorem replaceRows_again [Std.Symm Conflict] [Std.Refl Conflict] (hnews : Unique Conflict news) :
    replaceRows Conflict (replaceRows Conflict rows news) news = replaceRows Conflict rows news := by
  have hnone : news.filter (fun row => ∀ new ∈ news, ¬ Conflict new row) = [] :=
    List.filter_eq_nil_iff.2 fun row hrow h => of_decide_eq_true h row hrow (Std.Refl.refl row)
  rw [replaceRows_eq hnews, replaceRows_eq hnews, List.filter_append, List.filter_filter, hnone, List.append_nil]
  simp only [Bool.and_self]

/-- A key of the table is kept if the rows that are removed have the keys of those that are inserted. -/
theorem map_replaceRows_subset [Std.Symm Conflict] {Key : Type} {key : Row → Key} (hnews : Unique Conflict news)
    (hkey : ∀ row ∈ rows, ∀ new ∈ news, Conflict new row → key row = key new) :
    rows.map key ⊆ (replaceRows Conflict rows news).map key := by
  intro k hk
  obtain ⟨row, hrow, rfl⟩ := List.mem_map.1 hk
  by_cases h : ∃ new ∈ news, Conflict new row
  · obtain ⟨new, hnew, hconflict⟩ := h
    exact List.mem_map.2 ⟨new, (mem_replaceRows hnews).2 (.inl hnew), (hkey row hrow new hnew hconflict).symm⟩
  · have hnone : ∀ new ∈ news, ¬ Conflict new row := fun new hnew hconflict => h ⟨new, hnew, hconflict⟩
    exact List.mem_map_of_mem ((mem_replaceRows hnews).2 (.inr ⟨hrow, hnone⟩))

/-! ## The rows of a statement -/

/-- Unless it replaces, a statement adds some of its rows behind those of the table. -/
theorem insertRows_append {onConflict : OnConflict} (hkeeps : onConflict ≠ .replace)
    (hinsert : insertRows Conflict onConflict rows news = some rows') :
    ∃ added, added.Sublist news ∧ rows' = rows ++ added := by
  induction news generalizing rows with
  | nil =>
    obtain rfl := Option.some.inj hinsert
    exact ⟨[], .slnil, (List.append_nil rows).symm⟩
  | cons new news ih =>
    rw [insertRows, List.foldlM_cons] at hinsert
    obtain ⟨rows₁, hrow, hrest⟩ := Option.bind_eq_some_iff.1 hinsert
    obtain ⟨added, hsublist, rfl⟩ := ih hrest
    rcases insertRow_append hkeeps hrow with rfl | rfl
    · exact ⟨added, hsublist.cons new, rfl⟩
    · exact ⟨new :: added, hsublist.cons_cons new, List.append_assoc ..⟩

end Base.Table
