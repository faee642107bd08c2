/-
Outlines read from top to bottom: a heading has a depth, and an entry of depth `d + 1` stands below the last heading of
depth `d`. The reader keeps one heading for each depth, so a heading is closed by the next one of its depth or of a lower
one, and what stands in between does not change what it is above of.
-/
import Mathlib.Data.List.Basic
import Mathlib.Tactic

namespace Base.Outline

variable {α β : Type}

inductive Item (α β : Type) where
  | heading (depth : ℕ) (a : α)
  | entry (depth : ℕ) (b : β)
  deriving DecidableEq, Repr

/-- The headings that are open, by their depths, and the entries so far, each with its heading. -/
structure Reader (α β : Type) where
  headings : List α
  entries : List (α × β)

def Reader.empty : Reader α β := ⟨[], []⟩

def Reader.item (r : Reader α β) : Item α β → Reader α β
  | .heading depth a => { r with headings := r.headings.take depth ++ [a] }
  | .entry depth b =>
    match r.headings[depth - 1]? with
    | some a => { r with entries := r.entries ++ [(a, b)] }
    | none => r

def read (items : List (Item α β)) : Reader α β := items.foldl Reader.item Reader.empty

/-- The entries below the headings that `chosen` names. -/
def Reader.below (r : Reader α β) (chosen : α → Bool) : List β :=
  r.entries.filterMap fun e => if chosen e.1 then some e.2 else none

@[simp] theorem read_nil : read ([] : List (Item α β)) = Reader.empty := rfl

theorem read_append (items items' : List (Item α β)) : read (items ++ items') = items'.foldl Reader.item (read items) :=
  List.foldl_append ..

/-- Where a heading is read, those of lower depths stay open, and it is the one of its depth. -/
theorem heading_headings {r : Reader α β} {depth : ℕ} (h : depth ≤ r.headings.length) (a : α) :
    (r.item (.heading depth a)).headings.take depth = r.headings.take depth ∧
      (r.item (.heading depth a)).headings[depth]? = some a := by
  have hlength : (r.headings.take depth).length = depth := List.length_take_of_le h
  constructor
  · rw [Reader.item, List.take_append_of_le_length hlength.ge, List.take_take, min_self]
  · rw [Reader.item, List.getElem?_append_right hlength.le, hlength, Nat.sub_self]
    rfl

/-- An entry stands below the open heading of its depth. -/
theorem entry_below {r : Reader α β} {depth : ℕ} {a : α} (h : r.headings[depth]? = some a) (b : β) :
    r.item (.entry (depth + 1) b) = ⟨r.headings, r.entries ++ [(a, b)]⟩ := by
  simp only [Reader.item, Nat.add_sub_cancel, h]

theorem below_append (r : Reader α β) (chosen : α → Bool) (a : α) (b : β) :
    (⟨r.headings, r.entries ++ [(a, b)]⟩ : Reader α β).below chosen = r.below chosen ++ if chosen a then [b] else [] := by
  rw [Reader.below, List.filterMap_append]
  congr 1
  cases h : chosen a <;> simp [h]

end Base.Outline
