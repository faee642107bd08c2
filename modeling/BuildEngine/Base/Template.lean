/-
Texts with slots. A template is a list of pieces, each followed by a named slot, and a last piece; `fill` puts a
value into every slot. When the patterns of a program do not touch, a text in which each occurs once is a template
filled with them (`exists_template`), and replacing one of them changes the value of its slot and nothing else
(`replaceFirst_fill`), whatever the other slots hold.
-/
import BuildEngine.Base.Text

namespace Base.Text

variable {α ι : Type}

/-- The text of a template with the values of its slots. -/
def fill (pieces : List (List α × ι)) (last : List α) (value : ι → List α) : List α :=
  (pieces.flatMap fun p => p.1 ++ value p.2) ++ last

/-- The slots of a template, in order. -/
def slots (pieces : List (List α × ι)) : List ι := pieces.map Prod.snd

@[simp] theorem fill_nil (last : List α) (value : ι → List α) : fill [] last value = last := rfl

@[simp] theorem slots_nil : slots ([] : List (List α × ι)) = [] := rfl

@[simp] theorem slots_cons (p : List α × ι) (pieces : List (List α × ι)) : slots (p :: pieces) = p.2 :: slots pieces :=
  rfl

@[simp] theorem slots_append (pieces pieces' : List (List α × ι)) :
    slots (pieces ++ pieces') = slots pieces ++ slots pieces' := List.map_append

theorem fill_cons (p : List α × ι) (pieces : List (List α × ι)) (last : List α) (value : ι → List α) :
    fill (p :: pieces) last value = p.1 ++ value p.2 ++ fill pieces last value := by
  simp [fill]

/-- The text around one slot. -/
theorem fill_append (pieces pieces' : List (List α × ι)) (q : List α) (i : ι) (last : List α) (value : ι → List α) :
    fill (pieces ++ (q, i) :: pieces') last value = fill pieces q value ++ value i ++ fill pieces' last value := by
  simp [fill]

theorem fill_congr {pieces : List (List α × ι)} {last : List α} {value value' : ι → List α}
    (h : ∀ i ∈ slots pieces, value i = value' i) : fill pieces last value = fill pieces last value' := by
  unfold fill
  congr 1
  refine List.flatMap_congr fun p hp => ?_
  rw [h p.2 (List.mem_map_of_mem hp)]

theorem exists_split {pieces : List (List α × ι)} {i : ι} (h : i ∈ slots pieces) :
    ∃ before q behind, pieces = before ++ (q, i) :: behind := by
  obtain ⟨p, hp, rfl⟩ := List.mem_map.1 h
  obtain ⟨before, behind, rfl⟩ := List.append_of_mem hp
  exact ⟨before, p.1, behind, rfl⟩

section

variable [DecidableEq α]

/-- How often a pattern occurs in the pieces. -/
def pieceCount (v : List α) (pieces : List (List α × ι)) (last : List α) : Nat :=
  (pieces.map fun p => count v p.1).sum + count v last

/-- A pattern apart from the values of the slots occurs in the pieces only. -/
theorem count_fill {v : List α} (hv : v ≠ []) {value : ι → List α} : ∀ {pieces : List (List α × ι)} {last : List α},
    (∀ i ∈ slots pieces, Apart v (value i)) → count v (fill pieces last value) = pieceCount v pieces last
  | [], last, _ => by simp [pieceCount]
  | p :: pieces, last, h => by
    have ih : count v (fill pieces last value) = pieceCount v pieces last :=
      count_fill hv fun i hi => h i (List.mem_cons_of_mem _ hi)
    rw [fill_cons, (h p.2 (List.mem_cons_self ..)).count_around hv, ih]
    simp [pieceCount, Nat.add_assoc]

theorem infix_fill {v : List α} (hv : v ≠ []) {value : ι → List α} {pieces : List (List α × ι)} {last : List α}
    (h : ∀ i ∈ slots pieces, Apart v (value i)) : v <:+: fill pieces last value ↔ 0 < pieceCount v pieces last := by
  rw [← count_pos_iff hv, count_fill hv h]

theorem pieceCount_append (v : List α) (pieces pieces' : List (List α × ι)) (q : List α) (i : ι) (last : List α) :
    pieceCount v (pieces ++ (q, i) :: pieces') last = pieceCount v pieces q + pieceCount v pieces' last := by
  simp [pieceCount, Nat.add_assoc]

/-- A pattern that is not in the text is not in a piece. -/
theorem pieceCount_of_not_infix {v : List α} (hv : v ≠ []) {value : ι → List α} :
    ∀ {pieces : List (List α × ι)} {last : List α}, ¬ v <:+: fill pieces last value → pieceCount v pieces last = 0
  | [], last, h => by
    rw [fill_nil] at h
    simp [pieceCount, count, countFrom_of_not_infix h]
  | p :: pieces, last, h => by
    rw [fill_cons] at h
    have hp : ¬ v <:+: p.1 := fun hin => h (hin.trans ⟨[], value p.2 ++ fill pieces last value, by simp⟩)
    have hrest : ¬ v <:+: fill pieces last value := fun hin =>
      h (hin.trans (List.suffix_append (p.1 ++ value p.2) _).isInfix)
    have ih : pieceCount v pieces last = 0 := pieceCount_of_not_infix hv hrest
    have hcount : count v p.1 = 0 := countFrom_of_not_infix hp
    simp only [pieceCount, List.map_cons, List.sum_cons, hcount] at ih ⊢
    omega

/-- Slots whose old and new values are apart from a pattern do not change how often it occurs. -/
theorem count_fill_congr {v : List α} (hv : v ≠ []) {value value' : ι → List α} :
    ∀ {pieces : List (List α × ι)} {last : List α} (front : List α),
      (∀ i ∈ slots pieces, value i = value' i ∨ (Apart v (value i) ∧ Apart v (value' i))) →
      count v (front ++ fill pieces last value) = count v (front ++ fill pieces last value')
  | [], _, _, _ => rfl
  | p :: pieces, last, front, h => by
    have hrest : ∀ i ∈ slots pieces, value i = value' i ∨ (Apart v (value i) ∧ Apart v (value' i)) := fun i hi =>
      h i (List.mem_cons_of_mem _ hi)
    rw [fill_cons, fill_cons]
    rcases h p.2 (List.mem_cons_self ..) with heq | ⟨hapart, hapart'⟩
    · have ih : count v ((front ++ p.1 ++ value p.2) ++ fill pieces last value) =
          count v ((front ++ p.1 ++ value p.2) ++ fill pieces last value') := count_fill_congr hv _ hrest
      rw [← heq]
      simpa only [List.append_assoc] using ih
    · have ih : count v ([] ++ fill pieces last value) = count v ([] ++ fill pieces last value') :=
        count_fill_congr hv [] hrest
      simp only [List.nil_append] at ih
      have hsplit : ∀ (u rest : List α), Apart v u → count v (front ++ (p.1 ++ u ++ rest)) =
          count v (front ++ p.1) + count v rest := fun u rest hu => by
        rw [← hu.count_around hv]
        simp only [List.append_assoc]
      rw [hsplit _ _ hapart, hsplit _ _ hapart', ih]

/-- Replacing the value of a slot, where the other slots and the pieces do not contain it. -/
theorem replaceFirst_fill [DecidableEq ι] {value : ι → List α} {pieces : List (List α × ι)} {last : List α} {i : ι}
    (w : List α) (hi : i ∈ slots pieces) (hnodup : (slots pieces).Nodup) (hborderless : Borderless (value i))
    (hne : value i ≠ []) (hapart : ∀ j ∈ slots pieces, j ≠ i → Apart (value i) (value j))
    (hpieces : pieceCount (value i) pieces last = 0) :
    replaceFirst (value i) w (fill pieces last value) = fill pieces last (Function.update value i w) := by
  obtain ⟨before, q, behind, rfl⟩ := exists_split hi
  rw [slots_append, slots_cons, List.nodup_append, List.nodup_cons] at hnodup
  obtain ⟨-, ⟨hbehind, -⟩, hbefore⟩ := hnodup
  have hbefore' : i ∉ slots before := fun hmem => hbefore i hmem i (List.mem_cons_self ..) rfl
  rw [pieceCount_append] at hpieces
  have hnone : ¬ value i <:+: fill before q value := by
    rw [infix_fill hne fun j hj => hapart j (by simp [hj]) fun heq => hbefore' (heq ▸ hj)]
    omega
  rw [fill_append, fill_append, hborderless.replaceFirst_around _ hnone, Function.update_self]
  congr 1
  · congr 1
    refine fill_congr fun j hj => ?_
    have hji : j ≠ i := fun heq => hbefore' (heq ▸ hj)
    rw [Function.update_of_ne hji]
  · refine fill_congr fun j hj => ?_
    have hji : j ≠ i := fun heq => hbehind (heq ▸ hj)
    rw [Function.update_of_ne hji]

omit ι in
/-- The text around the only occurrence of a pattern. -/
theorem exists_around {v q : List α} (hv : v ≠ []) (hborderless : Borderless v) (h : count v q = 1) :
    ∃ a b, q = a ++ v ++ b ∧ count v a = 0 ∧ count v b = 0 ∧
      ∀ u : List α, u ≠ [] → count u q = 0 → count u a = 0 ∧ count u b = 0 := by
  obtain ⟨a, b, rfl, -⟩ := replaceFirst_eq (w := []) ((count_pos_iff hv).1 (show 0 < count v q by omega))
  rw [hborderless.count_around hv] at h
  refine ⟨a, b, rfl, by omega, by omega, fun u hu hzero => ?_⟩
  have hno : ¬ u <:+: a ++ v ++ b := fun hin => by
    have hpos := (count_pos_iff hu).2 hin
    omega
  constructor
  · exact countFrom_of_not_infix fun hin => hno (hin.trans ⟨[], v ++ b, by simp⟩)
  · exact countFrom_of_not_infix fun hin => hno (hin.trans ⟨a ++ v, [], by simp⟩)

/-- One slot more, for a pattern that occurs once in the pieces. -/
theorem exists_piece {v : List α} (hv : v ≠ []) (hborderless : Borderless v) (i : ι) :
    ∀ {pieces : List (List α × ι)} {last : List α}, pieceCount v pieces last = 1 →
      ∃ pieces' last', (slots pieces').Perm (i :: slots pieces) ∧
        (∀ value : ι → List α, value i = v → fill pieces' last' value = fill pieces last value) ∧
        pieceCount v pieces' last' = 0 ∧
        ∀ u : List α, u ≠ [] → pieceCount u pieces last = 0 → pieceCount u pieces' last' = 0
  | [], last, h => by
    have hcount : count v last = 1 := by simpa [pieceCount] using h
    obtain ⟨a, b, rfl, ha, hb, hother⟩ := exists_around hv hborderless hcount
    refine ⟨[(a, i)], b, .refl _, fun value hvalue => ?_, ?_, fun u hu hzero => ?_⟩
    · rw [fill_cons, fill_nil, fill_nil, hvalue]
    · simp [pieceCount, ha, hb]
    · obtain ⟨hua, hub⟩ := hother u hu (by simpa [pieceCount] using hzero)
      simp [pieceCount, hua, hub]
  | (q, j) :: pieces, last, h => by
    have hcons : ∀ (u : List α) (q : List α) (j : ι) (pieces : List (List α × ι)) (last : List α),
        pieceCount u ((q, j) :: pieces) last = count u q + pieceCount u pieces last := fun u q j pieces last => by
      simp [pieceCount, Nat.add_assoc]
    rw [hcons] at h
    by_cases hq : count v q = 1
    · obtain ⟨a, b, rfl, ha, hb, hother⟩ := exists_around hv hborderless hq
      refine ⟨(a, i) :: (b, j) :: pieces, last, .refl _, fun value hvalue => ?_, ?_, fun u hu hzero => ?_⟩
      · simp only [fill_cons, hvalue, List.append_assoc]
      · rw [hcons, hcons]
        omega
      · rw [hcons] at hzero ⊢
        obtain ⟨hua, hub⟩ := hother u hu (by omega)
        rw [hcons]
        omega
    · obtain ⟨pieces', last', hperm, hfill, hzero, hother⟩ :=
        exists_piece hv hborderless i (show pieceCount v pieces last = 1 by omega)
      refine ⟨(q, j) :: pieces', last', ?_, fun value hvalue => ?_, ?_, fun u hu hu' => ?_⟩
      · exact (hperm.cons j).trans (.swap ..)
      · rw [fill_cons, fill_cons, hfill value hvalue]
      · rw [hcons, hzero]
        omega
      · rw [hcons] at hu' ⊢
        rw [hother u hu (by omega)]
        omega

/-- A text in which patterns that do not touch occur once each is a template filled with them. -/
theorem exists_template {text : List α} {value : ι → List α} : ∀ {is : List ι},
    is.Nodup → (∀ i ∈ is, value i ≠ [] ∧ Borderless (value i) ∧ count (value i) text = 1) →
    (∀ i ∈ is, ∀ j ∈ is, i ≠ j → Apart (value i) (value j)) →
    ∃ pieces last, (slots pieces).Perm is ∧ text = fill pieces last value ∧
      (∀ i ∈ is, pieceCount (value i) pieces last = 0)
  | [], _, _, _ => ⟨[], text, .refl _, rfl, fun i hi => by cases hi⟩
  | i :: is, hnodup, hvalue, hapart => by
    obtain ⟨hi, hnodup⟩ := List.nodup_cons.1 hnodup
    obtain ⟨pieces, last, hperm, htext, hzero⟩ := exists_template hnodup
      (fun j hj => hvalue j (List.mem_cons_of_mem _ hj))
      fun j hj k hk => hapart j (List.mem_cons_of_mem _ hj) k (List.mem_cons_of_mem _ hk)
    obtain ⟨hne, hborderless, hcount⟩ := hvalue i (List.mem_cons_self ..)
    have hone : pieceCount (value i) pieces last = 1 := by
      rw [← hcount, htext, count_fill hne]
      intro j hj
      have hj' := hperm.subset hj
      exact hapart i (List.mem_cons_self ..) j (List.mem_cons_of_mem _ hj') fun heq => hi (heq ▸ hj')
    obtain ⟨pieces', last', hperm', hfill, hzero', hother⟩ := exists_piece hne hborderless i hone
    refine ⟨pieces', last', hperm'.trans (hperm.cons i), by rw [htext, hfill value rfl], fun j hj => ?_⟩
    rcases List.mem_cons.1 hj with rfl | hj
    · exact hzero'
    · exact hother _ (hvalue j (List.mem_cons_of_mem _ hj)).1 (hzero j hj)

end

end Base.Text
