/-
Relations as lists of rows, the order of which means nothing: inner and left joins, the grouped maximum
`SELECT key, MAX(rank) .. GROUP BY key`, and the two ways to get from it the row of greatest rank of every group: a
join on key and rank, and, where no two rows share a rank, a join on the rank alone. A left join with these rows
keeps every row of the left relation once.
-/
import Mathlib.Data.List.Dedup
import Mathlib.Tactic

namespace Base.Relational

variable {α β K R : Type}

def join (r : List α) (s : List β) (on : α → β → Prop) [∀ a, DecidablePred (on a)] : List (α × β) :=
  r.flatMap fun a => (s.filter (on a)).map (a, ·)

def leftJoin (r : List α) (s : List β) (on : α → β → Prop) [∀ a, DecidablePred (on a)] :
    List (α × Option β) :=
  r.flatMap fun a =>
    match s.filter (on a) with
    | [] => [(a, none)]
    | bs => bs.map fun b => (a, some b)

/-- Every key of a row, with the greatest rank of a row that has it. -/
def groupMax [DecidableEq K] [LinearOrder R] (key : α → K) (rank : α → R) (rows : List α) : List (K × R) :=
  (rows.map key).dedup.filterMap fun k => ((rows.filter (key · = k)).map rank).max?.map (k, ·)

/-- The row of greatest rank among those with a key, if there are any. -/
def LatestOf [LE R] (key : α → K) (rank : α → R) (rows : List α) (k : K) : Option α → Prop
  | none => ∀ a ∈ rows, key a ≠ k
  | some a => a ∈ rows ∧ key a = k ∧ ∀ b ∈ rows, key b = k → rank b ≤ rank a

/-! ## Joins in which a row meets one other -/

section Join

variable {r : List α} {s : List β} {on : α → β → Prop} [∀ a, DecidablePred (on a)]

theorem mem_join {x : α × β} : x ∈ join r s on ↔ x.1 ∈ r ∧ x.2 ∈ s ∧ on x.1 x.2 := by
  obtain ⟨a, b⟩ := x
  simp [join]

/-- A join in which a row meets exactly one other keeps every row once. -/
theorem forall₂_join {P : α → β → Prop} (h : ∀ a ∈ r, ∃ b, s.filter (on a) = [b] ∧ P a b) :
    List.Forall₂ (fun a x => x.1 = a ∧ P a x.2) r (join r s on) := by
  unfold join
  induction r with
  | nil => exact .nil
  | cons a r ih =>
    obtain ⟨b, hb, hP⟩ := h a (.head _)
    rw [List.flatMap_cons, hb]
    exact .cons ⟨rfl, hP⟩ (ih fun c hc => h c (.tail _ hc))

/-- A join in which a row meets one other at most repeats no row. -/
theorem join_fst_sublist (h : ∀ a ∈ r, (s.filter (on a)).length ≤ 1) : ((join r s on).map Prod.fst).Sublist r := by
  rw [join, List.map_flatMap]
  induction r with
  | nil => exact .slnil
  | cons a r ih =>
    have ih := ih fun b hb => h b (.tail _ hb)
    have hle := h a (.head _)
    rw [List.flatMap_cons]
    rcases hs : s.filter (on a) with _ | ⟨b, _ | ⟨c, bs⟩⟩
    · rw [hs]
      exact ih.cons a
    · rw [hs]
      exact ih.cons_cons a
    · rw [hs] at hle
      simp at hle

theorem leftJoin_eq_map {f : α → Option β} (h : ∀ a ∈ r, s.filter (on a) = (f a).toList) :
    leftJoin r s on = r.map fun a => (a, f a) := by
  rw [List.map_eq_flatMap, leftJoin]
  refine List.flatMap_congr fun a ha => ?_
  rw [h a ha]
  cases f a <;> rfl

/-- A join in which a row meets one other or none keeps the rows that meet one. -/
theorem join_fst_eq_filter {p : α → Prop} [DecidablePred p] {f : α → β}
    (h : ∀ a ∈ r, s.filter (on a) = if p a then [f a] else []) :
    (join r s on).map Prod.fst = r.filter p := by
  rw [join, List.map_flatMap]
  induction r with
  | nil => rfl
  | cons a r ih =>
    rw [List.flatMap_cons, h a (.head _), ih fun b hb => h b (.tail _ hb)]
    by_cases hp : p a
    · rw [if_pos hp, List.filter_cons_of_pos (by simpa using hp)]
      rfl
    · rw [if_neg hp, List.filter_cons_of_neg (by simpa using hp)]
      rfl

end Join

theorem eq_singleton {l : List α} {a : α} (hl : l.Nodup) (ha : a ∈ l) (hall : ∀ b ∈ l, b = a) : l = [a] := by
  have heq := List.eq_replicate_of_mem hall
  have hle : l.length ≤ 1 := by
    rw [heq] at hl
    exact List.nodup_replicate.1 hl
  have hpos := List.length_pos_of_mem ha
  rw [heq, show l.length = 1 by omega]
  rfl

/-- A key that no two rows share finds its row. -/
theorem filter_key [DecidableEq K] {key : α → K} {rows : List α} (hnodup : (rows.map key).Nodup) {a : α}
    (ha : a ∈ rows) : rows.filter (key · = key a) = [a] := by
  refine eq_singleton (hnodup.of_map.filter _) (List.mem_filter.2 ⟨ha, by simp⟩) ?_
  intro b hb
  obtain ⟨hb, hkey⟩ := List.mem_filter.1 hb
  exact List.inj_on_of_nodup_map hnodup hb ha (by simpa using hkey)

theorem filter_key_length_le [DecidableEq K] {key : α → K} {rows : List α} (hnodup : (rows.map key).Nodup) (k : K) :
    (rows.filter (key · = k)).length ≤ 1 := by
  by_cases hk : k ∈ rows.map key
  · obtain ⟨a, ha, rfl⟩ := List.mem_map.1 hk
    rw [filter_key hnodup ha]
    exact le_rfl
  · rw [List.filter_eq_nil_iff.2 fun a ha hak => hk (List.mem_map.2 ⟨a, ha, of_decide_eq_true hak⟩)]
    exact Nat.zero_le 1

/-! ## The rows of greatest rank -/

section Latest

variable [DecidableEq K] [LinearOrder R] {key : α → K} {rank : α → R} {rows : List α}

variable (key rank rows) in
/-- No row with the key of `a` has a greater rank. -/
def Greatest (a : α) : Prop := ∀ b ∈ rows, key b = key a → rank b ≤ rank a

instance : DecidablePred (Greatest key rank rows) := fun a =>
  inferInstanceAs (Decidable (∀ b ∈ rows, key b = key a → rank b ≤ rank a))

variable (key rank) in
theorem exists_greatest {a : α} (ha : a ∈ rows) : ∃ b ∈ rows, key b = key a ∧ Greatest key rank rows b := by
  cases hmax : ((rows.filter (key · = key a)).map rank).max? with
  | none =>
    rw [List.max?_eq_none_iff, List.map_eq_nil_iff, List.filter_eq_nil_iff] at hmax
    exact absurd (hmax a ha) (by simp)
  | some m =>
    obtain ⟨hm, hle⟩ := List.max?_eq_some_iff.1 hmax
    obtain ⟨b, hb, rfl⟩ := List.mem_map.1 hm
    obtain ⟨hb, hkey⟩ := List.mem_filter.1 hb
    have hkey : key b = key a := by simpa using hkey
    refine ⟨b, hb, hkey, fun c hc hck => hle _ (List.mem_map_of_mem (List.mem_filter.2 ⟨hc, ?_⟩))⟩
    simpa using hck.trans hkey

theorem mem_groupMax {k : K} {m : R} : (k, m) ∈ groupMax key rank rows ↔
    ∃ a ∈ rows, Greatest key rank rows a ∧ key a = k ∧ rank a = m := by
  simp only [groupMax, List.mem_filterMap, List.mem_dedup, List.mem_map, Option.map_eq_some_iff, Prod.mk.injEq]
  constructor
  · rintro ⟨_, -, _, hmax, rfl, rfl⟩
    obtain ⟨hm, hle⟩ := List.max?_eq_some_iff.1 hmax
    obtain ⟨a, ha, hrank⟩ := List.mem_map.1 hm
    obtain ⟨ha, hkey⟩ := List.mem_filter.1 ha
    have hkey := of_decide_eq_true hkey
    refine ⟨a, ha, fun b hb hbk => ?_, hkey, hrank⟩
    rw [hrank]
    exact hle _ (List.mem_map_of_mem (List.mem_filter.2 ⟨hb, decide_eq_true (hbk.trans hkey)⟩))
  · rintro ⟨a, ha, hgreatest, rfl, rfl⟩
    refine ⟨key a, ⟨a, ha, rfl⟩, rank a, List.max?_eq_some_iff.2 ⟨?_, fun m hm => ?_⟩, rfl, rfl⟩
    · exact List.mem_map_of_mem (List.mem_filter.2 ⟨ha, by simp⟩)
    · obtain ⟨b, hb, rfl⟩ := List.mem_map.1 hm
      obtain ⟨hb, hkey⟩ := List.mem_filter.1 hb
      exact hgreatest b hb (of_decide_eq_true hkey)

theorem groupMax_nodup : (groupMax key rank rows).Nodup := by
  refine List.Nodup.filterMap ?_ (List.nodup_dedup _)
  rintro k k' ⟨j, m⟩ h h'
  obtain ⟨_, -, hk⟩ := Option.map_eq_some_iff.1 (Option.mem_def.1 h)
  obtain ⟨_, -, hk'⟩ := Option.map_eq_some_iff.1 (Option.mem_def.1 h')
  exact (Prod.mk.inj hk).1.trans (Prod.mk.inj hk').1.symm

/-- What a row meets among the grouped maxima when it meets at most its own key and rank. -/
theorem filter_groupMax {on : K × R → Prop} [DecidablePred on] {a : α} (ha : a ∈ rows)
    (hon : ∀ g ∈ groupMax key rank rows, on g ↔ g = (key a, rank a)) :
    (groupMax key rank rows).filter on = if Greatest key rank rows a then [(key a, rank a)] else [] := by
  split
  next hgreatest =>
    have hmem : (key a, rank a) ∈ groupMax key rank rows := mem_groupMax.2 ⟨a, ha, hgreatest, rfl, rfl⟩
    refine eq_singleton (groupMax_nodup.filter _) (List.mem_filter.2 ⟨hmem, ?_⟩) fun g hg => ?_
    · exact decide_eq_true ((hon _ hmem).2 rfl)
    · obtain ⟨hg, hg'⟩ := List.mem_filter.1 hg
      exact (hon g hg).1 (of_decide_eq_true hg')
  next hgreatest =>
    refine List.filter_eq_nil_iff.2 fun g hg hg' => hgreatest ?_
    obtain rfl := (hon g hg).1 (of_decide_eq_true hg')
    obtain ⟨b, hb, hb', hkey, hrank⟩ := mem_groupMax.1 hg
    intro c hc hck
    rw [← hrank]
    exact hb' c hc (hck.trans hkey.symm)

/-- `SELECT rows.* FROM rows JOIN groupMax latest ON latest.key = rows.key AND latest.rank = rows.rank` -/
theorem join_groupMax : (join rows (groupMax key rank rows) fun a g => g.1 = key a ∧ g.2 = rank a).map Prod.fst =
    rows.filter (Greatest key rank rows) :=
  join_fst_eq_filter (f := fun a => (key a, rank a)) fun a ha => filter_groupMax ha fun g _ => by
    rw [Prod.ext_iff]

/-- `SELECT rows.* FROM rows JOIN groupMax latest ON latest.rank = rows.rank`, where no two rows share a rank -/
theorem join_groupMax_rank (hnodup : (rows.map rank).Nodup) :
    (join rows (groupMax key rank rows) fun a g => g.2 = rank a).map Prod.fst =
      rows.filter (Greatest key rank rows) := by
  refine join_fst_eq_filter (f := fun a => (key a, rank a)) fun a ha =>
    filter_groupMax ha fun g hg => ⟨fun hrank => ?_, fun h => h ▸ rfl⟩
  obtain ⟨b, hb, -, hkey, hrank'⟩ := mem_groupMax.1 hg
  obtain rfl := List.inj_on_of_nodup_map hnodup hb ha (hrank'.trans hrank)
  exact Prod.ext hkey.symm hrank

variable (key rank rows) in
/-- The row of greatest rank among those with key `k`. -/
def latest (k : K) : Option α := (rows.filter (Greatest key rank rows)).find? (key · = k)

theorem latest_latestOf (k : K) : LatestOf key rank rows k (latest key rank rows k) := by
  cases h : latest key rank rows k with
  | none =>
    intro a ha hkey
    obtain ⟨b, hb, hbkey, hgreatest⟩ := exists_greatest key rank ha
    refine List.find?_eq_none.1 h b (List.mem_filter.2 ⟨hb, decide_eq_true hgreatest⟩) ?_
    exact decide_eq_true (hbkey.trans hkey)
  | some a =>
    obtain ⟨ha, hgreatest⟩ := List.mem_filter.1 (List.mem_of_find?_eq_some h)
    have hkey : key a = k := by simpa using List.find?_some h
    refine ⟨ha, hkey, fun b hb hbk => ?_⟩
    exact of_decide_eq_true hgreatest b hb (hbk.trans hkey.symm)

/-- Where no two rows share key and rank, a key has one row of greatest rank at most. -/
theorem filter_greatest (hnodup : (rows.map fun a => (key a, rank a)).Nodup) (k : K) :
    (rows.filter (Greatest key rank rows)).filter (key · = k) = (latest key rank rows k).toList := by
  cases h : latest key rank rows k with
  | none => exact List.filter_eq_nil_iff.2 (List.find?_eq_none.1 h)
  | some a =>
    have hmem := List.mem_of_find?_eq_some h
    have hkey : key a = k := by simpa using List.find?_some h
    refine eq_singleton ((hnodup.of_map.filter _).filter _) (List.mem_filter.2 ⟨hmem, decide_eq_true hkey⟩) ?_
    intro b hb
    obtain ⟨hb, hbkey⟩ := List.mem_filter.1 hb
    have hbkey : key b = key a := (of_decide_eq_true hbkey).trans hkey.symm
    obtain ⟨ha, hagreatest⟩ := List.mem_filter.1 hmem
    obtain ⟨hb, hbgreatest⟩ := List.mem_filter.1 hb
    have hrank : rank b = rank a :=
      le_antisymm (of_decide_eq_true hagreatest b hb hbkey) (of_decide_eq_true hbgreatest a ha hbkey.symm)
    exact List.inj_on_of_nodup_map hnodup hb ha (Prod.ext hbkey hrank)

/-- A left join with the rows of greatest rank keeps every row of the left relation once. -/
theorem leftJoin_latest {γ : Type} (hnodup : (rows.map fun a => (key a, rank a)).Nodup) (r : List γ) (k : γ → K) :
    leftJoin r (rows.filter (Greatest key rank rows)) (fun x a => key a = k x) =
      r.map fun x => (x, latest key rank rows (k x)) :=
  leftJoin_eq_map fun x _ => filter_greatest hnodup (k x)

end Latest

end Base.Relational
