/-
Merging keyed items into a partial map that admits an item only when its key is free or holds the same
value. Whether a list of items is admitted, and the map it leads to, depend on the set of the items only,
not on their order.
-/
import Mathlib.Tactic

namespace Base.Merge

variable {K V : Type} [DecidableEq K]

/-- The map with an item put at its key, if that is free. -/
def put (m : K → Option V) (x : K × V) (k : K) : Option V := (m k).or (if x.1 = k then some x.2 else none)

/-- The map with the first item of each free key. -/
def overlay (m : K → Option V) (xs : List (K × V)) : K → Option V := xs.foldl put m

/-- The items agree with each other and with the map. -/
structure Consistent (m : K → Option V) (xs : List (K × V)) : Prop where
  items : ∀ x ∈ xs, ∀ y ∈ xs, x.1 = y.1 → x.2 = y.2
  map : ∀ x ∈ xs, ∀ v, m x.1 = some v → v = x.2

theorem put_self (m : K → Option V) (x : K × V) : put m x x.1 = some ((m x.1).getD x.2) := by
  unfold put
  cases m x.1 with
  | none => simp
  | some v => rfl

theorem put_of_some {m : K → Option V} {x : K × V} {v : V} (h : m x.1 = some v) : put m x = m := by
  funext k
  unfold put
  by_cases hk : x.1 = k
  · rw [← hk, h]
    rfl
  · rw [if_neg hk, Option.or_none]

theorem put_eq_some (m : K → Option V) (x : K × V) (k : K) (v : V) :
    put m x k = some v ↔ m k = some v ∨ (m k = none ∧ x.1 = k ∧ x.2 = v) := by
  unfold put
  cases m k with
  | none => simp
  | some u => simp

theorem consistent_cons {m : K → Option V} {x : K × V} {xs : List (K × V)} :
    Consistent m (x :: xs) ↔ (∀ v, m x.1 = some v → v = x.2) ∧ Consistent (put m x) xs := by
  constructor
  · intro h
    refine ⟨h.map x (List.mem_cons_self ..), fun y hy z hz => ?_, fun y hy v hv => ?_⟩
    · exact h.items y (List.mem_cons_of_mem _ hy) z (List.mem_cons_of_mem _ hz)
    · rcases (put_eq_some ..).1 hv with hm | ⟨-, hkey, rfl⟩
      · exact h.map y (List.mem_cons_of_mem _ hy) v hm
      · exact h.items x (List.mem_cons_self ..) y (List.mem_cons_of_mem _ hy) hkey
  · rintro ⟨hx, h⟩
    have hhead : ∀ y ∈ xs, x.1 = y.1 → x.2 = y.2 := by
      intro y hy hkey
      refine h.map y hy x.2 ?_
      rw [← hkey, put_self]
      cases hm : m x.1 with
      | none => rfl
      | some v => rw [Option.getD_some, hx v hm]
    constructor
    · intro y hy z hz hkey
      rcases List.mem_cons.1 hy with rfl | hy'
      · rcases List.mem_cons.1 hz with rfl | hz'
        · rfl
        · exact hhead z hz' hkey
      · rcases List.mem_cons.1 hz with rfl | hz'
        · exact (hhead y hy' hkey.symm).symm
        · exact h.items y hy' z hz' hkey
    · intro y hy v hv
      rcases List.mem_cons.1 hy with rfl | hy
      · exact hx v hv
      · exact h.map y hy v ((put_eq_some ..).2 (.inl hv))

theorem consistent_append {m : K → Option V} {xs ys : List (K × V)} :
    Consistent m (xs ++ ys) ↔ Consistent m xs ∧ Consistent (overlay m xs) ys := by
  induction xs generalizing m with
  | nil =>
    have hnil : Consistent m ([] : List (K × V)) := ⟨fun x hx => (by cases hx), fun x hx => (by cases hx)⟩
    exact ⟨fun h => ⟨hnil, h⟩, fun h => h.2⟩
  | cons x xs ih =>
    rw [List.cons_append, consistent_cons, consistent_cons, ih, and_assoc]
    rfl

/-- What the overlay of consistent items holds. -/
theorem overlay_eq_some : ∀ {xs : List (K × V)} {m : K → Option V}, Consistent m xs → ∀ (k : K) (v : V),
    (overlay m xs k = some v ↔ m k = some v ∨ (k, v) ∈ xs)
  | [], m, _, k, v => by simp [overlay]
  | x :: xs, m, h, k, v => by
    obtain ⟨hx, hxs⟩ := consistent_cons.1 h
    have ih := overlay_eq_some hxs k v
    show overlay (put m x) xs k = some v ↔ _
    rw [ih, put_eq_some, List.mem_cons]
    constructor
    · rintro ((hm | ⟨-, rfl, rfl⟩) | hmem)
      · exact .inl hm
      · exact .inr (.inl rfl)
      · exact .inr (.inr hmem)
    · rintro (hm | rfl | hmem)
      · exact .inl (.inl hm)
      · cases hm : m k with
        | none => exact .inl (.inr ⟨rfl, rfl, rfl⟩)
        | some u => exact .inl (.inl (by rw [hx u hm]))
      · exact .inr hmem

end Base.Merge
