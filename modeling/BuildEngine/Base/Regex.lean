/-
Patterns that are a sequence of items (one character of a class, or one or more of them, greedily and with
backtracking) and a condition on what follows, and the replacement of every match that starts behind a blank or at
the front of the text, from left to right, without overlaps.
-/
import Mathlib.Data.List.Infix
import Mathlib.Tactic

namespace Base.Regex

/-- `\s`, which is also what `str.strip()` takes away. -/
def isSpace (c : Char) : Bool :=
  let n := c.toNat
  9 ≤ n && n ≤ 13 || 28 ≤ n && n ≤ 32 || n == 0x85 || n == 0xA0 || n == 0x1680 || 0x2000 ≤ n && n ≤ 0x200A ||
    n == 0x2028 || n == 0x2029 || n == 0x202F || n == 0x205F || n == 0x3000

variable {α : Type}

inductive Item (α : Type) where
  | one (p : α → Bool)
  /-- one or more, as many as possible -/
  | plus (p : α → Bool)

def Item.accepts : Item α → α → Bool
  | .one p => p
  | .plus p => p

/-- The items, the condition on the character behind the match, and the text a match is replaced by. -/
structure Rule (α : Type) where
  items : List (Item α)
  ahead : Option α → Bool
  replace : List α → List α

/-- The length of the match at the front of a text. -/
def matchLength (ahead : Option α → Bool) : List (Item α) → List α → Option ℕ
  | [], t => if ahead t.head? then some 0 else none
  | _ :: _, [] => none
  | .one p :: is, c :: t => if p c then (matchLength ahead is t).map (· + 1) else none
  | .plus p :: is, c :: t =>
    if p c then ((matchLength ahead (.plus p :: is) t).or (matchLength ahead is t)).map (· + 1) else none

/-- `re.sub` with `(?<!\S)` in front of the pattern, behind the next `skip` characters: `blank` says whether the
character before is one or there is none. -/
def subFrom (space : α → Bool) (r : Rule α) : Bool → ℕ → List α → List α
  | _, _, [] => []
  | _, skip + 1, c :: t => subFrom space r (space c) skip t
  | blank, 0, c :: t =>
    match if blank then matchLength r.ahead r.items (c :: t) else none with
    | some (n + 1) => r.replace ((c :: t).take (n + 1)) ++ subFrom space r (space c) n t
    | _ => c :: subFrom space r (space c) 0 t

def sub (space : α → Bool) (r : Rule α) (t : List α) : List α := subFrom space r true 0 t

/-- `re.search` with `(?<!\S)` in front of the pattern. -/
def search (space : α → Bool) (ahead : Option α → Bool) (items : List (Item α)) : Bool → List α → Bool
  | _, [] => false
  | blank, c :: t => (blank && (matchLength ahead items (c :: t)).isSome) || search space ahead items (space c) t

/-! ## What a match is -/

/-- The text of a match. -/
def Matches : List (Item α) → List α → Prop
  | [], x => x = []
  | .one p :: is, x => ∃ c y, x = c :: y ∧ p c ∧ Matches is y
  | .plus p :: is, x => ∃ y z, x = y ++ z ∧ y ≠ [] ∧ (∀ c ∈ y, p c) ∧ Matches is z

theorem Matches.cons_plus {p : α → Bool} {is : List (Item α)} {c : α} {x : List α} (hc : p c)
    (h : Matches (.plus p :: is) x ∨ Matches is x) : Matches (.plus p :: is) (c :: x) := by
  rcases h with ⟨y, z, rfl, -, hy, hz⟩ | h
  · refine ⟨c :: y, z, rfl, List.cons_ne_nil _ _, ?_, hz⟩
    rintro d (_ | ⟨_, hd⟩)
    · exact hc
    · exact hy d hd
  · exact ⟨[c], x, rfl, List.cons_ne_nil _ _, by simpa using hc, h⟩

variable {ahead : Option α → Bool}

theorem matches_take : ∀ {items : List (Item α)} {t : List α} {n : ℕ}, matchLength ahead items t = some n →
    n ≤ t.length ∧ Matches items (t.take n) ∧ ahead (t.drop n).head?
  | [], t, n, h => by
    unfold matchLength at h
    split at h
    · cases h
      exact ⟨Nat.zero_le _, rfl, ‹_›⟩
    · cases h
  | .one p :: is, [], n, h | .plus p :: is, [], n, h => by
    unfold matchLength at h
    cases h
  | .one p :: is, c :: t, n, h => by
    unfold matchLength at h
    split at h
    next hc =>
      obtain ⟨m, hm, rfl⟩ := Option.map_eq_some_iff.1 h
      obtain ⟨hle, hmatch, hahead⟩ := matches_take hm
      exact ⟨Nat.succ_le_succ hle, ⟨c, _, rfl, hc, hmatch⟩, hahead⟩
    next => cases h
  | .plus p :: is, c :: t, n, h => by
    unfold matchLength at h
    split at h
    next hc =>
      obtain ⟨m, hm, rfl⟩ := Option.map_eq_some_iff.1 h
      rcases Option.or_eq_some_iff.1 hm with hm | ⟨-, hm⟩
      · obtain ⟨hle, hmatch, hahead⟩ := matches_take hm
        exact ⟨Nat.succ_le_succ hle, .cons_plus hc (.inl hmatch), hahead⟩
      · obtain ⟨hle, hmatch, hahead⟩ := matches_take hm
        exact ⟨Nat.succ_le_succ hle, .cons_plus hc (.inr hmatch), hahead⟩
    next => cases h

theorem matchLength_isSome : ∀ {items : List (Item α)} {x y : List α}, Matches items x → ahead y.head? →
    (matchLength ahead items (x ++ y)).isSome
  | [], x, y, h, hahead => by
    obtain rfl := h
    rw [List.nil_append, matchLength, if_pos hahead]
    rfl
  | .one p :: is, x, y, h, hahead => by
    obtain ⟨c, x, rfl, hc, h⟩ := h
    rw [List.cons_append, matchLength, if_pos hc, Option.isSome_map]
    exact matchLength_isSome h hahead
  | .plus p :: is, x, y, h, hahead => by
    obtain ⟨w, z, rfl, hne, hw, h⟩ := h
    -- greed does not lose the match: the items behind are tried at the end of `w` at the latest
    induction w with
    | nil => exact absurd rfl hne
    | cons c w ih =>
      have hc : p c := hw c (.head _)
      rw [List.cons_append, List.cons_append, matchLength, if_pos hc, Option.isSome_map, Option.isSome_or]
      rcases eq_or_ne w [] with rfl | hw'
      · rw [List.nil_append, matchLength_isSome h hahead, Bool.or_true]
      · rw [ih hw' fun d hd => hw d (.tail _ hd), Bool.true_or]

theorem matchLength_isSome_iff {items : List (Item α)} {t : List α} :
    (matchLength ahead items t).isSome ↔ ∃ x y, t = x ++ y ∧ Matches items x ∧ ahead y.head? := by
  constructor
  · intro h
    obtain ⟨n, hn⟩ := Option.isSome_iff_exists.1 h
    obtain ⟨-, hmatch, hahead⟩ := matches_take hn
    exact ⟨t.take n, t.drop n, (List.take_append_drop n t).symm, hmatch, hahead⟩
  · rintro ⟨x, y, rfl, hmatch, hahead⟩
    exact matchLength_isSome hmatch hahead

/-- The characters of a match are accepted by its items. -/
theorem Matches.accepts : ∀ {items : List (Item α)} {x : List α}, Matches items x → ∀ c ∈ x,
    ∃ i ∈ items, i.accepts c
  | [], x, h, c, hc => by
    obtain rfl := h
    cases hc
  | .one p :: is, x, h, c, hc => by
    obtain ⟨d, y, rfl, hd, h⟩ := h
    rcases List.mem_cons.1 hc with rfl | hc
    · exact ⟨.one p, .head _, hd⟩
    · obtain ⟨i, hi, hic⟩ := h.accepts c hc
      exact ⟨i, .tail _ hi, hic⟩
  | .plus p :: is, x, h, c, hc => by
    obtain ⟨y, z, rfl, -, hy, h⟩ := h
    rcases List.mem_append.1 hc with hc | hc
    · exact ⟨.plus p, .head _, hy c hc⟩
    · obtain ⟨i, hi, hic⟩ := h.accepts c hc
      exact ⟨i, .tail _ hi, hic⟩

theorem Matches.ne_nil : ∀ {items : List (Item α)} {x : List α}, Matches items x → items ≠ [] → x ≠ []
  | [], _, _, hne => absurd rfl hne
  | .one p :: is, x, h, _ => by
    obtain ⟨c, y, rfl, -⟩ := h
    exact List.cons_ne_nil c y
  | .plus p :: is, x, h, _ => by
    obtain ⟨y, z, rfl, hne, -⟩ := h
    exact List.append_ne_nil_of_left_ne_nil hne z

/-- A last item takes all it can. -/
theorem matchLength_plus {p : α → Bool} (hahead : ∀ o, ahead o) : ∀ {y u : List α}, y ≠ [] → (∀ c ∈ y, p c) →
    (∀ c ∈ u.head?, ¬ p c) → matchLength ahead [.plus p] (y ++ u) = some y.length
  | [], _, hne, _, _ => absurd rfl hne
  | [c], u, _, hy, hu => by
    have hrest : matchLength ahead [.plus p] u = none := by
      cases u with
      | nil => rfl
      | cons d u => exact if_neg (hu d rfl)
    rw [List.cons_append, List.nil_append, matchLength, if_pos (hy c (.head _)), hrest, Option.none_or, matchLength,
      if_pos (hahead _)]
    rfl
  | c :: d :: y, u, _, hy, hu => by
    have ih := matchLength_plus hahead (List.cons_ne_nil d y) (fun e he => hy e (.tail _ he)) hu
    rw [List.cons_append, matchLength, if_pos (hy c (.head _)), ih]
    rfl

/-- One or more characters up to the first one of another class. -/
theorem matchLength_until {p q : α → Bool} (hahead : ∀ o, ahead o) (hpq : ∀ c, q c → ¬ p c) :
    ∀ {y u : List α} {c : α}, y ≠ [] → (∀ c ∈ y, p c) → q c →
      matchLength ahead [.plus p, .one q] (y ++ c :: u) = some (y.length + 1)
  | [], _, _, hne, _, _ => absurd rfl hne
  | [d], u, c, _, hy, hc => by
    have hrest : matchLength ahead [.plus p, .one q] (c :: u) = none := if_neg (hpq c hc)
    rw [List.cons_append, List.nil_append, matchLength, if_pos (hy d (.head _)), hrest, Option.none_or,
      matchLength, if_pos hc, matchLength, if_pos (hahead _)]
    rfl
  | d :: e :: y, u, c, _, hy, hc => by
    have ih := matchLength_until (u := u) hahead hpq (List.cons_ne_nil e y) (fun f hf => hy f (.tail _ hf)) hc
    rw [List.cons_append, matchLength, if_pos (hy d (.head _)), ih]
    rfl

/-! ## Where no match starts -/

section Sub

variable {space : α → Bool} {r : Rule α}

variable (space r) in
/-- No match of the rule starts in `t`, where `u` is what follows `t`. -/
def Quiet : Bool → List α → List α → Prop
  | _, [], _ => True
  | blank, c :: t, u => (blank = true → matchLength r.ahead r.items (c :: t ++ u) = none) ∧ Quiet (space c) t u

theorem subFrom_of_none {blank : Bool} {c : α} {t : List α}
    (h : blank = true → matchLength r.ahead r.items (c :: t) = none) :
    subFrom space r blank 0 (c :: t) = c :: subFrom space r (space c) 0 t := by
  rw [subFrom]
  cases blank with
  | false => rfl
  | true => rw [if_pos rfl, h rfl]

theorem subFrom_of_some {c : α} {t : List α} {n : ℕ} (h : matchLength r.ahead r.items (c :: t) = some (n + 1)) :
    subFrom space r true 0 (c :: t) =
      r.replace ((c :: t).take (n + 1)) ++ subFrom space r (space c) n t := by
  rw [subFrom, if_pos rfl, h]

/-- A quiet text stays as it is. -/
theorem Quiet.subFrom_append : ∀ {t : List α} {blank : Bool} {u : List α}, Quiet space r blank t u →
    ∃ blank', subFrom space r blank 0 (t ++ u) = t ++ subFrom space r blank' 0 u
  | [], blank, u, _ => ⟨blank, rfl⟩
  | c :: t, blank, u, ⟨hc, ht⟩ => by
    obtain ⟨blank', ih⟩ := ht.subFrom_append
    rw [List.cons_append] at hc
    exact ⟨blank', by rw [List.cons_append, subFrom_of_none hc, ih, List.cons_append]⟩

/-- Without a blank in it, a text is quiet behind a character that is none. -/
theorem quiet_word : ∀ {t u : List α}, (∀ c ∈ t, ¬ space c) → Quiet space r false t u
  | [], _, _ => trivial
  | c :: t, u, h => by
    refine ⟨fun hblank => Bool.noConfusion hblank, ?_⟩
    rw [Bool.eq_false_iff.2 (h c (.head _))]
    exact quiet_word fun d hd => h d (.tail _ hd)

/-- A match may start at the front of a word only. -/
theorem quiet_word_front {c : α} {t u : List α} (h : ∀ d ∈ c :: t, ¬ space d)
    (hnone : matchLength r.ahead r.items (c :: t ++ u) = none) : Quiet space r true (c :: t) u :=
  ⟨fun _ => hnone, (quiet_word h).2⟩

theorem subFrom_skip : ∀ (t u : List α) (blank : Bool), ∃ blank',
    subFrom space r blank t.length (t ++ u) = subFrom space r blank' 0 u
  | [], _, blank => ⟨blank, rfl⟩
  | c :: t, u, _ => by
    obtain ⟨blank', ih⟩ := subFrom_skip t u (space c)
    exact ⟨blank', by rw [List.length_cons, List.cons_append, subFrom, ih]⟩

/-- A match that ends in `c`. -/
theorem subFrom_skip_last (c : α) (u : List α) : ∀ (t : List α) (blank : Bool),
    subFrom space r blank (t.length + 1) (t ++ c :: u) = subFrom space r (space c) 0 u
  | [], _ => by rw [List.length_nil, List.nil_append, subFrom]
  | d :: t, _ => by rw [List.length_cons, List.cons_append, subFrom, subFrom_skip_last]

/-- What follows a token. -/
def Blank (space : α → Bool) (u : List α) : Prop := ∀ c ∈ u.head?, space c

theorem Blank.congr {u u' : List α} (hu : Blank space u) (h : u'.head? = u.head?) : Blank space u' := by
  unfold Blank
  rw [h]
  exact hu

/-- At a blank nothing depends on what is in front. -/
theorem subFrom_blank (hstarts : ∀ c t, space c → matchLength r.ahead r.items (c :: t) = none) {u : List α}
    (hu : Blank space u) (blank : Bool) : subFrom space r blank 0 u = sub space r u := by
  cases u with
  | nil => rfl
  | cons c u =>
    have hnone := hstarts c u (hu c rfl)
    rw [sub, subFrom_of_none fun _ => hnone, subFrom_of_none fun _ => hnone]

/-- A blank stays as it is, and what is behind it is on its own. -/
theorem sub_blank (hstarts : ∀ c t, space c → matchLength r.ahead r.items (c :: t) = none) {c : α} (hc : space c)
    (t : List α) : sub space r (c :: t) = c :: sub space r t := by
  rw [sub, subFrom_of_none fun _ => hstarts c t hc, hc]
  rfl

theorem Quiet.sub (hstarts : ∀ c t, space c → matchLength r.ahead r.items (c :: t) = none) {t u : List α}
    (hu : Blank space u) (h : Quiet space r true t u) : sub space r (t ++ u) = t ++ sub space r u := by
  obtain ⟨blank', heq⟩ := h.subFrom_append
  rw [Regex.sub, heq, subFrom_blank hstarts hu]

/-- The match is the whole of `t`. -/
theorem sub_of_match (hstarts : ∀ c t, space c → matchLength r.ahead r.items (c :: t) = none) {t u : List α}
    (ht : t ≠ []) (hu : Blank space u) (h : matchLength r.ahead r.items (t ++ u) = some t.length) :
    sub space r (t ++ u) = r.replace t ++ sub space r u := by
  cases t with
  | nil => exact absurd rfl ht
  | cons c t =>
    obtain ⟨blank', hskip⟩ : ∃ blank', subFrom space r (space c) t.length (t ++ u) = subFrom space r blank' 0 u :=
      subFrom_skip t u (space c)
    rw [List.cons_append] at h ⊢
    rw [Regex.sub, subFrom_of_some h, hskip, subFrom_blank hstarts hu, List.take_succ_cons, List.take_left]

/-! ## Words -/

/-- Behind a match, a word goes on as it is. -/
theorem subFrom_word (hstarts : ∀ c t, space c → matchLength r.ahead r.items (c :: t) = none) {u : List α}
    (hu : Blank space u) : ∀ {t : List α} {n : ℕ}, (∀ c ∈ t, ¬ space c) → n ≤ t.length →
      subFrom space r false n (t ++ u) = t.drop n ++ sub space r u
  | t, 0, ht, _ => by
    obtain ⟨blank', heq⟩ := (quiet_word (r := r) (u := u) ht).subFrom_append
    rw [heq, subFrom_blank hstarts hu, List.drop_zero]
  | c :: t, n + 1, ht, hn => by
    rw [List.cons_append, subFrom, Bool.eq_false_iff.2 (ht c (.head _)), List.drop_succ_cons]
    exact subFrom_word hstarts hu (fun d hd => ht d (.tail _ hd)) (Nat.le_of_succ_le_succ hn)

/-- A word at whose front no match starts. -/
theorem sub_word_of_none (hstarts : ∀ c t, space c → matchLength r.ahead r.items (c :: t) = none) {w u : List α}
    (hw : ∀ c ∈ w, ¬ space c) (hu : Blank space u) (h : matchLength r.ahead r.items (w ++ u) = none) :
    sub space r (w ++ u) = w ++ sub space r u := by
  cases w with
  | nil => rfl
  | cons c w => exact (quiet_word_front hw h).sub hstarts hu

/-- A word with a match at its front. -/
theorem sub_word_of_some (hstarts : ∀ c t, space c → matchLength r.ahead r.items (c :: t) = none) {w u : List α}
    (hw : ∀ c ∈ w, ¬ space c) (hu : Blank space u) {n : ℕ} (h : matchLength r.ahead r.items (w ++ u) = some (n + 1))
    (hn : n + 1 ≤ w.length) : sub space r (w ++ u) = r.replace (w.take (n + 1)) ++ w.drop (n + 1) ++ sub space r u := by
  cases w with
  | nil => exact absurd hn (Nat.not_succ_le_zero n)
  | cons c w =>
    have hrest : subFrom space r false n (w ++ u) = w.drop n ++ sub space r u :=
      subFrom_word hstarts hu (fun d hd => hw d (.tail _ hd)) (Nat.le_of_succ_le_succ hn)
    have htake : (c :: (w ++ u)).take (n + 1) = (c :: w).take (n + 1) := List.take_append_of_le_length hn
    rw [List.cons_append] at h ⊢
    rw [sub, subFrom_of_some h, Bool.eq_false_iff.2 (hw c (.head _)), hrest, htake, List.drop_succ_cons,
      List.append_assoc]

/-! ## Rules whose matches contain no blank -/

/-- No item accepts a blank, and the condition on what follows does not tell a blank from the end. -/
def Local (space : α → Bool) (ahead : Option α → Bool) (items : List (Item α)) : Prop :=
  (∀ i ∈ items, ∀ c, space c → ¬ i.accepts c) ∧ ∀ c, space c → ahead (some c) = ahead none

theorem matchLength_local : ∀ {items : List (Item α)} {t u : List α}, Local space ahead items → Blank space u →
    matchLength ahead items (t ++ u) = matchLength ahead items t
  | [], t, u, hlocal, hu => by
    unfold matchLength
    cases t with
    | nil =>
      cases u with
      | nil => rfl
      | cons c u => rw [List.nil_append, List.head?_cons, List.head?_nil, hlocal.2 c (hu c rfl)]
    | cons c t => rfl
  | i :: is, [], u, hlocal, hu => by
    cases u with
    | nil => rfl
    | cons c u =>
      have hc := hlocal.1 i (.head _) c (hu c rfl)
      cases i with
      | one p => exact if_neg hc
      | plus p => exact if_neg hc
  | .one p :: is, c :: t, u, hlocal, hu => by
    have hrest : Local space ahead is := ⟨fun i hi => hlocal.1 i (.tail _ hi), hlocal.2⟩
    rw [List.cons_append, matchLength, matchLength, matchLength_local hrest hu]
  | .plus p :: is, c :: t, u, hlocal, hu => by
    have hrest : Local space ahead is := ⟨fun i hi => hlocal.1 i (.tail _ hi), hlocal.2⟩
    rw [List.cons_append, matchLength, matchLength, matchLength_local hrest hu, matchLength_local hlocal hu]

theorem quiet_local (hlocal : Local space r.ahead r.items) {u : List α} (hu : Blank space u) :
    ∀ {t : List α} {blank : Bool}, Quiet space r blank t u ↔ Quiet space r blank t []
  | [], _ => Iff.rfl
  | c :: t, blank => by
    unfold Quiet
    rw [matchLength_local hlocal hu, List.append_nil, quiet_local hlocal hu]

/-- A rule that works on one word at a time. -/
theorem sub_word (hstarts : ∀ c t, space c → matchLength r.ahead r.items (c :: t) = none)
    (hlocal : Local space r.ahead r.items) (hitems : r.items ≠ []) {w u : List α} (hw : ∀ c ∈ w, ¬ space c)
    (hu : Blank space u) : sub space r (w ++ u) = sub space r w ++ sub space r u := by
  have hlength := matchLength_local hlocal hu (t := w)
  have hnil : Blank space [] := by
    rintro c ⟨⟩
  cases hmatch : matchLength r.ahead r.items w with
  | none =>
    have hword := sub_word_of_none hstarts hw hnil (by rwa [List.append_nil])
    rw [List.append_nil] at hword
    rw [hword, sub_word_of_none hstarts hw hu (hlength.trans hmatch)]
    exact congrArg (· ++ _) (List.append_nil w).symm
  | some n =>
    obtain ⟨hle, htext, -⟩ := matches_take hmatch
    cases n with
    | zero => exact absurd rfl (htext.ne_nil hitems)
    | succ n =>
      have hword := sub_word_of_some hstarts hw hnil (by rwa [List.append_nil]) hle
      rw [List.append_nil] at hword
      rw [hword, sub_word_of_some hstarts hw hu (hlength.trans hmatch) hle]
      exact congrArg (· ++ _) (List.append_nil _).symm

theorem Local.starts {items : List (Item α)} (hlocal : Local space ahead items) (hne : items ≠ []) (c : α)
    (t : List α) (hc : space c) : matchLength ahead items (c :: t) = none := by
  cases items with
  | nil => exact absurd rfl hne
  | cons i is =>
    have hi := hlocal.1 i (.head _) c hc
    cases i with
    | one p => exact if_neg hi
    | plus p => exact if_neg hi

end Sub

end Base.Regex
