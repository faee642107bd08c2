/-
Texts split into tokens: maximal runs of characters in which blanks stand only between quotes. `scan` follows the
quotes through a token and fails at a blank outside of them; `token_induction` is the induction over a text that
takes a blank or a token at a time.
-/
import Mathlib.Data.List.Infix
import Mathlib.Data.List.TakeWhile
import Mathlib.Tactic

namespace Base.Tokens

variable {α : Type} [DecidableEq α] (space : α → Bool) (quote : α)

/-- Whether a character stands between quotes after `c`. -/
def toggle (quoted : Bool) (c : α) : Bool := if c = quote then !quoted else quoted

/-- The tokens of a text, of which `current` has been read. -/
def tokensFrom : Bool → List α → List α → List (List α)
  | _, current, [] => if current = [] then [] else [current]
  | quoted, current, c :: t =>
    if space c && !quoted then (if current = [] then [] else [current]) ++ tokensFrom false [] t
    else tokensFrom (toggle quote quoted c) (current ++ [c]) t

def tokens (t : List α) : List (List α) := tokensFrom space quote false [] t

/-- Whether the end of `t` stands between quotes, if no blank of `t` stands outside of them. -/
def scan : Bool → List α → Option Bool
  | quoted, [] => some quoted
  | quoted, c :: t => if space c && !quoted then none else scan (toggle quote quoted c) t

/-- What may follow a token: nothing, or a blank if it is closed. -/
def Follows (quoted : Bool) (u : List α) : Prop := u = [] ∨ quoted = false ∧ ∃ c v, u = c :: v ∧ space c

/-- A token, and whether it ends between quotes. -/
def IsToken (t : List α) (quoted : Bool) : Prop := t ≠ [] ∧ scan space quote false t = some quoted

variable {space quote}

omit [DecidableEq α] in
theorem Follows.blank {quoted : Bool} {u : List α} (h : Follows space quoted u) : ∀ c ∈ u.head?, space c := by
  rcases h with rfl | ⟨-, c, v, rfl, hc⟩
  · rintro c ⟨⟩
  · rintro d ⟨⟩
    exact hc

omit [DecidableEq α] in
theorem Follows.congr {quoted : Bool} {u u' : List α} (hu : Follows space quoted u) (h : u'.head? = u.head?) :
    Follows space quoted u' := by
  rcases hu with rfl | ⟨hq, c, v, rfl, hc⟩
  · exact .inl (List.head?_eq_none_iff.1 h)
  · obtain ⟨v', rfl⟩ := List.head?_eq_some_iff.1 h
    exact .inr ⟨hq, c, v', rfl, hc⟩

theorem scan_append {quoted : Bool} {t u : List α} :
    scan space quote quoted (t ++ u) = (scan space quote quoted t).bind fun q => scan space quote q u := by
  induction t generalizing quoted with
  | nil => rfl
  | cons c t ih =>
    rw [List.cons_append, scan, scan, ih]
    split <;> rfl

/-- Without a quote in it, a token has no blanks. -/
theorem scan_unquoted {t : List α} {quoted : Bool} (hquote : quote ∉ t) (h : scan space quote false t = some quoted) :
    (∀ c ∈ t, ¬ space c) ∧ quoted = false := by
  induction t with
  | nil =>
    cases h
    exact ⟨by simp, rfl⟩
  | cons c t ih =>
    obtain ⟨hc, ht⟩ := List.ne_and_not_mem_of_not_mem_cons hquote
    rw [scan, toggle, if_neg hc.symm] at h
    split at h
    · cases h
    next hspace =>
      obtain ⟨hword, hquoted⟩ := ih ht h
      refine ⟨?_, hquoted⟩
      rintro d (_ | ⟨_, hd⟩)
      · simpa using hspace
      · exact hword d hd

theorem tokensFrom_append {quoted quoted' : Bool} {t u current : List α}
    (h : scan space quote quoted t = some quoted') :
    tokensFrom space quote quoted current (t ++ u) = tokensFrom space quote quoted' (current ++ t) u := by
  induction t generalizing quoted current with
  | nil =>
    cases h
    rw [List.append_nil, List.nil_append]
  | cons c t ih =>
    rw [scan] at h
    split at h
    · cases h
    next hc =>
      rw [List.cons_append, tokensFrom, if_neg hc, ih h, List.append_assoc, List.singleton_append]

@[simp] theorem tokens_nil : tokens space quote [] = [] := rfl

theorem tokens_blank {c : α} {t : List α} (hc : space c) : tokens space quote (c :: t) = tokens space quote t := by
  rw [tokens, tokensFrom, hc]
  rfl

theorem tokens_append {t u : List α} {quoted : Bool} (ht : IsToken space quote t quoted)
    (hu : Follows space quoted u) : tokens space quote (t ++ u) = t :: tokens space quote u := by
  obtain ⟨hne, hscan⟩ := ht
  rw [tokens, tokensFrom_append hscan, List.nil_append]
  rcases hu with rfl | ⟨rfl, c, v, rfl, hc⟩
  · rw [tokensFrom, if_neg hne]
    rfl
  · rw [tokens_blank hc, tokensFrom, hc, Bool.not_false, Bool.and_self, if_pos rfl, if_neg hne]
    rfl

variable (quote) in
/-- A text that is not empty starts with a blank or with a token. -/
theorem exists_token {c : α} {t : List α} (hc : ¬ space c) :
    ∃ x u quoted, c :: t = x ++ u ∧ IsToken space quote x quoted ∧ Follows space quoted u := by
  have hsplit : ∀ (t : List α) (quoted : Bool), ∃ x u quoted', t = x ++ u ∧
      scan space quote quoted x = some quoted' ∧ Follows space quoted' u := by
    intro t
    induction t with
    | nil => exact fun quoted => ⟨[], [], quoted, rfl, rfl, .inl rfl⟩
    | cons d t ih =>
      intro quoted
      by_cases hd : space d && !quoted
      · obtain ⟨hd, hq⟩ := Bool.and_eq_true_iff.1 hd
        exact ⟨[], d :: t, quoted, rfl, rfl, .inr ⟨by simpa using hq, d, t, rfl, hd⟩⟩
      · obtain ⟨x, u, quoted', rfl, hx, hu⟩ := ih (toggle quote quoted d)
        exact ⟨d :: x, u, quoted', rfl, by rw [scan, if_neg hd, hx], hu⟩
  obtain ⟨x, u, quoted, rfl, hx, hu⟩ := hsplit t (toggle quote false c)
  refine ⟨c :: x, u, quoted, rfl, ⟨List.cons_ne_nil _ _, ?_⟩, hu⟩
  rw [scan, if_neg (by simpa using hc), hx]

variable (space quote) in
/-- Induction over a text by its blanks and tokens. -/
theorem token_induction {P : List α → Prop} (nil : P []) (blank : ∀ c t, space c → P t → P (c :: t))
    (token : ∀ t u quoted, IsToken space quote t quoted → Follows space quoted u → P u → P (t ++ u)) :
    ∀ t, P t := by
  intro t
  induction hn : t.length using Nat.strong_induction_on generalizing t with
  | _ n ih =>
    subst hn
    cases t with
    | nil => exact nil
    | cons c t =>
      by_cases hc : space c
      · exact blank c t hc (ih _ (Nat.lt_succ_self _) t rfl)
      · obtain ⟨x, u, quoted, heq, hx, hu⟩ := exists_token quote (t := t) hc
        have hlt : u.length < (c :: t).length := by
          have hpos := List.length_pos_iff.2 hx.1
          rw [heq, List.length_append]
          omega
        rw [heq]
        exact token x u quoted hx hu (ih _ hlt u rfl)

omit [DecidableEq α] in
variable (space) in
/-- Induction over a text by its words: one alone, or one in front of a blank. A word may be empty. -/
theorem word_induction {P : List α → Prop} (last : ∀ w, (∀ c ∈ w, ¬ space c) → P w)
    (more : ∀ w c v, (∀ c ∈ w, ¬ space c) → space c → P v → P (w ++ c :: v)) : ∀ t, P t := by
  intro t
  induction hn : t.length using Nat.strong_induction_on generalizing t with
  | _ n ih =>
    subst hn
    have hword : ∀ c ∈ t.takeWhile (!space ·), ¬ space c := fun c hc => by simpa using List.mem_takeWhile_imp hc
    have hsplit : t.takeWhile (!space ·) ++ t.dropWhile (!space ·) = t := List.takeWhile_append_dropWhile
    cases hrest : t.dropWhile (!space ·) with
    | nil =>
      rw [hrest, List.append_nil] at hsplit
      rw [← hsplit]
      exact last _ hword
    | cons c v =>
      have hc : space c := by
        have hhead := List.head?_dropWhile_not (!space ·) t
        rw [hrest] at hhead
        simpa using hhead
      rw [hrest] at hsplit
      have hlt : v.length < t.length := by
        rw [← hsplit, List.length_append, List.length_cons]
        omega
      rw [← hsplit]
      exact more _ c v hword hc (ih _ hlt v rfl)

variable (quote) in
/-- The characters of the tokens are those of the text, blanks apart. -/
theorem mem_tokens {c : α} (hc : ¬ space c) {u : List α} : (∃ t ∈ tokens space quote u, c ∈ t) ↔ c ∈ u := by
  induction u using token_induction space quote with
  | nil => simp
  | blank d u hd ih =>
    have hne : c ≠ d := by
      rintro rfl
      exact hc hd
    rw [tokens_blank hd, ih, List.mem_cons, or_iff_right hne]
  | token t u q ht hu ih => rw [tokens_append ht hu, List.exists_mem_cons_iff, ih, List.mem_append]

end Base.Tokens
