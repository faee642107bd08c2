/-
The substitutions one after another on the token at the front of a text: the five rules that edit, in order
(`passes`), and the rule that splits a switch in two.
-/
import BuildEngine.Adapter.Edits

namespace BuildEngine.Adapter

open Base.Regex Base.Tokens

/-! ## The rules that edit, in order -/

def passes (rules : List (Rule Char)) (s : Text) : Text := rules.foldl (fun s r => sub isSpace r s) s

/-- No match of a rule starts in `t`, where the text behind `t` goes through the rules, too. -/
def QuietAll : List (Rule Char) → Text → Text → Prop
  | [], _, _ => True
  | r :: rs, t, u => Quiet isSpace r true t u ∧ QuietAll rs t (sub isSpace r u)

@[simp] theorem passes_nil (s : Text) : passes [] s = s := rfl

@[simp] theorem passes_cons (r : Rule Char) (rs : List (Rule Char)) (s : Text) :
    passes (r :: rs) s = passes rs (sub isSpace r s) := rfl

theorem passes_append (rs rs' : List (Rule Char)) (s : Text) : passes (rs ++ rs') s = passes rs' (passes rs s) :=
  List.foldl_append ..

theorem Edits.mono {k : ℤ} {r : Rule Char} (hr : Edits k r) (hk : 1 ≤ k) : Edits 1 r := by
  refine ⟨hr.items, hr.starts, hr.front, hr.replaced, hr.quotes, hr.scans, fun x hx => ?_, fun y c z hc hx => ?_⟩
  · have := hr.gains x hx
    omega
  · obtain ⟨y', z', heq, hscan, hgain⟩ := hr.crosses y c z hc hx
    exact ⟨y', z', heq, hscan, by omega⟩

theorem Edits.head_sub_blank {k : ℤ} {r : Rule Char} (hr : Edits k r) {u : Text} (hu : Blank isSpace u) :
    (sub isSpace r u).head? = u.head? := by
  cases u with
  | nil => rfl
  | cons c u => rw [sub_blank hr.starts (hu c rfl), List.head?_cons, List.head?_cons]

section Passes

variable {rs : List (Rule Char)} (hrs : ∀ r ∈ rs, Edits 1 r)
include hrs

theorem head_passes_blank {u : Text} (hu : Blank isSpace u) : (passes rs u).head? = u.head? := by
  induction rs generalizing u with
  | nil => rfl
  | cons r rs ih =>
    have hhead := (hrs r (.head _)).head_sub_blank hu
    rw [passes_cons, ih (fun r hr => hrs r (.tail _ hr)) (hu.congr hhead), hhead]

theorem passes_blank {c : Char} (hc : isSpace c) (s : Text) : passes rs (c :: s) = c :: passes rs s := by
  induction rs generalizing s with
  | nil => rfl
  | cons r rs ih =>
    rw [passes_cons, passes_cons, sub_blank (hrs r (.head _)).starts hc]
    exact ih (fun r hr => hrs r (.tail _ hr)) _

theorem passes_quiet {t u : Text} (hu : Blank isSpace u) (h : QuietAll rs t u) :
    passes rs (t ++ u) = t ++ passes rs u := by
  induction rs generalizing u with
  | nil => rfl
  | cons r rs ih =>
    obtain ⟨hquiet, hall⟩ := h
    have hr := hrs r (.head _)
    rw [passes_cons, passes_cons, hquiet.sub hr.starts hu]
    exact ih (fun r hr => hrs r (.tail _ hr)) (hu.congr (hr.head_sub_blank hu)) hall

theorem passes_edited {t u : Text} (hu : Blank isSpace u) :
    ∃ t' u', passes rs (t ++ u) = t' ++ u' ∧ Edited t u t' u' := by
  induction rs generalizing t u with
  | nil => exact ⟨t, u, rfl, .refl⟩
  | cons r rs ih =>
    obtain ⟨t₁, u₁, heq, hedit, -⟩ := (hrs r (.head _)).sub_append (by decide) hu (t := t)
    obtain ⟨t', u', heq', hedit'⟩ := ih (fun r hr => hrs r (.tail _ hr)) (hu.congr hedit.ends)
    exact ⟨t', u', by rw [passes_cons, heq, heq'], hedit.trans hedit'⟩

/-- Where a match starts, the text gets heavier. -/
theorem passes_heavier {t u : Text} (hu : Blank isSpace u) (h : ¬ QuietAll rs t u) :
    ∃ t' u', passes rs (t ++ u) = t' ++ u' ∧ Edited t u t' u' ∧ weigh t + 1 ≤ weigh t' := by
  induction rs generalizing u with
  | nil => exact absurd trivial h
  | cons r rs ih =>
    have hr := hrs r (.head _)
    have hrs' : ∀ r ∈ rs, Edits 1 r := fun r hr => hrs r (.tail _ hr)
    by_cases hquiet : Quiet isSpace r true t u
    · have hhead := hr.head_sub_blank hu
      obtain ⟨t', u', heq, hedit, hgain⟩ := ih hrs' (hu.congr hhead) fun hall => h ⟨hquiet, hall⟩
      refine ⟨t', u', ?_, ⟨hedit.ends.trans hhead, hedit.scans, hedit.grows⟩, hgain⟩
      rw [passes_cons, hquiet.sub hr.starts hu, heq]
    · obtain ⟨t₁, u₁, heq, hedit, hgain⟩ := hr.sub_append (by decide) hu (t := t)
      obtain ⟨t', u', heq', hedit'⟩ := passes_edited hrs' (hu.congr hedit.ends) (t := t₁)
      have hgain := hgain hquiet
      have hgrows := hedit'.grows
      exact ⟨t', u', by rw [passes_cons, heq, heq'], hedit.trans hedit', by omega⟩

theorem isSwitch_passes (s : Text) : isSwitch (passes rs s) = isSwitch s := by
  induction rs generalizing s with
  | nil => rfl
  | cons r rs ih =>
    rw [passes_cons, ih fun r hr => hrs r (.tail _ hr)]
    exact (hrs r (.head _)).isSwitch_sub s

theorem head_passes {s : Text} (hs : ∃ c ∈ s.head?, ¬ isSpace c) : ∃ c ∈ (passes rs s).head?, ¬ isSpace c := by
  induction rs generalizing s with
  | nil => exact hs
  | cons r rs ih => exact ih (fun r hr => hrs r (.tail _ hr)) ((hrs r (.head _)).head_sub hs)

theorem quote_mem_passes {s : Text} : '"' ∈ passes rs s ↔ '"' ∈ s := by
  induction rs generalizing s with
  | nil => exact Iff.rfl
  | cons r rs ih =>
    rw [passes_cons, ih fun r hr => hrs r (.tail _ hr)]
    exact (hrs r (.head _)).quote_mem_sub

end Passes

/-! ## The rule that splits a switch -/

theorem linkSwitch_local : Local isSpace linkSwitch.ahead linkSwitch.items := by
  refine ⟨fun i hi c hc => ?_, fun c hc => ?_⟩
  · obtain rfl := List.mem_singleton.1 hi
    intro h
    obtain rfl : c = '/' := by simpa [Item.accepts] using h
    exact absurd hc (by decide)
  · have hletter : isLetter c = false := Bool.eq_false_iff.2 fun h => (plain_of_letter h).1 hc
    simp [linkSwitch, hletter]

theorem linkSwitch_starts (c : Char) (t : Text) (hc : isSpace c) :
    matchLength linkSwitch.ahead linkSwitch.items (c :: t) = none :=
  linkSwitch_local.starts (by simp [linkSwitch]) c t hc

theorem linkSwitch_match (t : Text) :
    matchLength linkSwitch.ahead linkSwitch.items t = if isSwitch t then some 1 else none := by
  rcases t with _ | ⟨c, t⟩
  · rfl
  · by_cases hc : c = '/'
    · subst hc
      rcases t with _ | ⟨d, t⟩
      · rfl
      · by_cases hd : isLetter d
        · simp [linkSwitch, matchLength, isSwitch, hd]
        · simp [linkSwitch, matchLength, isSwitch, hd]
    · rw [isSwitch_of_head (by simpa using hc)]
      simp [linkSwitch, matchLength, hc]

theorem isSwitch_append {t u : Text} (hu : Blank isSpace u) : isSwitch (t ++ u) = isSwitch t := by
  have hlocal := matchLength_local linkSwitch_local hu (t := t)
  rw [linkSwitch_match, linkSwitch_match] at hlocal
  cases h : isSwitch t <;> cases h' : isSwitch (t ++ u) <;> simp [h, h'] at hlocal ⊢

/-- A token behind its first character. -/
def inner (t : Text) : Text := subFrom isSpace linkSwitch false 0 t

theorem subFrom_linkSwitch_none {blank : Bool} {c : Char} {t : Text} (h : blank = true → isSwitch (c :: t) = false) :
    subFrom isSpace linkSwitch blank 0 (c :: t) = c :: subFrom isSpace linkSwitch (isSpace c) 0 t := by
  refine subFrom_of_none fun hblank => ?_
  rw [linkSwitch_match, h hblank]
  rfl

theorem subFrom_linkSwitch_some {c : Char} {t : Text} (h : isSwitch (c :: t)) :
    subFrom isSpace linkSwitch true 0 (c :: t) =
      "-Xlinker -Xlink=/".toList ++ subFrom isSpace linkSwitch (isSpace c) 0 t := by
  have hmatch := linkSwitch_match (c :: t)
  rw [if_pos h] at hmatch
  exact subFrom_of_some hmatch

theorem subFrom_linkSwitch_append {u : Text} (hu : Blank isSpace u) : ∀ {t : Text} {blank : Bool},
    subFrom isSpace linkSwitch blank 0 (t ++ u) = subFrom isSpace linkSwitch blank 0 t ++ sub isSpace linkSwitch u
  | [], blank => subFrom_blank linkSwitch_starts hu blank
  | c :: t, blank => by
    have hswitch := isSwitch_append (t := c :: t) hu
    rw [List.cons_append] at hswitch ⊢
    by_cases h : blank = true → isSwitch (c :: t) = false
    · rw [subFrom_linkSwitch_none h, subFrom_linkSwitch_none fun hb => hswitch.trans (h hb),
        subFrom_linkSwitch_append hu, List.cons_append]
    · obtain ⟨rfl, h⟩ := Classical.not_imp.1 h
      have h : isSwitch (c :: t) = true := by simpa using h
      rw [subFrom_linkSwitch_some h, subFrom_linkSwitch_some (hswitch.trans h), subFrom_linkSwitch_append hu,
        List.append_assoc]

/-- Between quotes the rule leaves the tokens of a text alone, and every match makes the text heavier. -/
theorem subFrom_linkSwitch_scan : ∀ {t : Text} {blank quoted quoted' : Bool},
    scan isSpace '"' quoted t = some quoted' → (blank = true → quoted = true) →
    scan isSpace '"' quoted (subFrom isSpace linkSwitch blank 0 t) = some quoted' ∧
      weigh t ≤ weigh (subFrom isSpace linkSwitch blank 0 t) ∧
      (¬ Quiet isSpace linkSwitch blank t [] → weigh t < weigh (subFrom isSpace linkSwitch blank 0 t))
  | [], _, _, _, hscan, _ => ⟨hscan, le_rfl, fun h => absurd trivial h⟩
  | c :: t, blank, quoted, quoted', hscan, hblank => by
    rw [scan] at hscan
    split at hscan
    · cases hscan
    next hc =>
      -- behind a blank the text stands between quotes
      have hnext : isSpace c = true → toggle '"' quoted c = true := by
        intro hspace
        have hquote : c ≠ '"' := by
          rintro rfl
          exact absurd hspace (by decide)
        rw [toggle, if_neg hquote]
        simpa [hspace] using hc
      obtain ⟨hscan', hgrows, hgain⟩ := subFrom_linkSwitch_scan hscan hnext
      by_cases h : blank = true → isSwitch (c :: t) = false
      · rw [subFrom_linkSwitch_none h, scan, if_neg hc, weigh_cons, weigh_cons]
        refine ⟨hscan', by omega, fun hnoisy => ?_⟩
        have hrest : ¬ Quiet isSpace linkSwitch (isSpace c) t [] := by
          intro hquiet
          refine hnoisy ⟨fun hb => ?_, hquiet⟩
          rw [List.append_nil, linkSwitch_match, h hb]
          rfl
        have := hgain hrest
        omega
      · obtain ⟨rfl, h⟩ := Classical.not_imp.1 h
        have h : isSwitch (c :: t) = true := by simpa using h
        obtain rfl : c = '/' := by
          by_contra hslash
          rw [isSwitch_of_head (by simpa using hslash)] at h
          cases h
        obtain rfl := hblank rfl
        -- the two blanks of the replacement stand between quotes
        have hprefix : scan isSpace '"' true "-Xlinker -Xlink=/".toList = some true := by decide
        have hweight : weigh "-Xlinker -Xlink=/".toList = 8 := by decide
        have hslash : weight '/' = 0 := by decide
        rw [subFrom_linkSwitch_some h, scan_append, hprefix, weigh_append, hweight, weigh_cons, hslash]
        exact ⟨hscan', by omega, fun _ => by omega⟩

end BuildEngine.Adapter
