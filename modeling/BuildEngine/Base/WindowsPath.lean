/-
Paths as Windows writes them: components between separators of two kinds, of which `.` stays where it is and `..` goes up.
A path lies below a root if what is left of its components, taken from any place, goes down from the root.
-/
import Mathlib.Data.List.DropRight
import Mathlib.Tactic

namespace Base.WindowsPath

def isSeparator (c : Char) : Bool := c == '\\' || c == '/'

def components (path : List Char) : List (List Char) := (path.splitOnP isSeparator).filter (· ≠ [])

/-- `Join-Path`, with the separators as they are spelled. -/
def join (path child : List Char) : List Char :=
  if path.getLast?.any isSeparator then path ++ child.dropWhile isSeparator
  else path ++ '\\' :: child.dropWhile isSeparator

/-- `Split-Path -Parent`; the separator behind a drive stays. -/
def parent (path : List Char) : List Char :=
  let before := (path.rdropWhile isSeparator).rdropWhile (fun c => !isSeparator c)
  if before.dropLast = [] ∨ before.dropLast.getLast? = some ':' then before else before.dropLast

/-- One component further. -/
def step (place : List (List Char)) (component : List Char) : List (List Char) :=
  if component = ['.'] then place
  else if component = ['.', '.'] then place.dropLast
  else place ++ [component]

def resolve (start components : List (List Char)) : List (List Char) := components.foldl step start

/-- A path that leads to a place below the one of the root. -/
def Below (root path : List Char) : Prop :=
  ∀ start, ∃ rest, rest ≠ [] ∧ resolve start (components path) = resolve start (components root) ++ rest

/-! ## Components -/

theorem components_append {sep : Char} (hsep : isSeparator sep) (a b : List Char) :
    components (a ++ sep :: b) = components a ++ components b := by
  rw [components, List.splitOnP_append_cons a b hsep, List.filter_append]
  rfl

theorem components_separators {s : List Char} (h : ∀ c ∈ s, isSeparator c) : components s = [] := by
  induction s with
  | nil => rfl
  | cons c s ih =>
    obtain ⟨hc, hs⟩ := List.forall_mem_cons.1 h
    have happend := components_append hc [] s
    rw [List.nil_append, ih hs, List.append_nil] at happend
    exact happend

theorem components_trailing {s : List Char} (h : ∀ c ∈ s, isSeparator c) (a : List Char) :
    components (a ++ s) = components a := by
  cases s with
  | nil => rw [List.append_nil]
  | cons c s =>
    obtain ⟨hc, hs⟩ := List.forall_mem_cons.1 h
    rw [components_append hc, components_separators hs, List.append_nil]

theorem components_leading {s : List Char} (h : ∀ c ∈ s, isSeparator c) (a : List Char) :
    components (s ++ a) = components a := by
  induction s with
  | nil => rfl
  | cons c s ih =>
    obtain ⟨hc, hs⟩ := List.forall_mem_cons.1 h
    have happend := components_append hc [] (s ++ a)
    rw [List.nil_append, ih hs] at happend
    exact happend

theorem components_seam {path tail : List Char} (h : tail.head?.any isSeparator ∨ path.getLast?.any isSeparator) :
    components (path ++ tail) = components path ++ components tail := by
  rcases h with h | h
  · obtain ⟨sep, hsome, hsep⟩ := (Option.any_eq_true _ _).1 h
    obtain ⟨tail, rfl⟩ := List.head?_eq_some_iff.1 hsome
    rw [components_append hsep path tail]
    exact congrArg _ (components_leading (s := [sep]) (by simpa using hsep) tail).symm
  · obtain ⟨sep, hsome, hsep⟩ := (Option.any_eq_true _ _).1 h
    obtain ⟨front, rfl⟩ := List.getLast?_eq_some_iff.1 hsome
    rw [List.append_assoc, List.singleton_append, components_append hsep, components_trailing (by simpa using hsep)]

theorem components_word {w : List Char} (hne : w ≠ []) (h : ∀ c ∈ w, isSeparator c = false) : components w = [w] := by
  rw [components, List.splitOnP_eq_singleton h]
  exact List.filter_cons_of_pos (by simpa using hne)

theorem components_dropWhile (path : List Char) : components (path.dropWhile isSeparator) = components path := by
  conv_rhs => rw [← List.takeWhile_append_dropWhile (p := isSeparator) (l := path)]
  rw [components_leading]
  exact fun c hc => List.mem_takeWhile_imp hc

/-- A separator stands between the path and its child. -/
theorem join_eq (path child : List Char) : ∃ front sep, isSeparator sep ∧ components front = components path ∧
    join path child = front ++ sep :: child.dropWhile isSeparator := by
  rw [join]
  split
  · rename_i hlast
    obtain ⟨sep, hsome, hsep⟩ := (Option.any_eq_true _ _).1 hlast
    obtain ⟨front, rfl⟩ := List.getLast?_eq_some_iff.1 hsome
    refine ⟨front, sep, hsep, ?_, by rw [List.append_assoc, List.singleton_append]⟩
    exact (components_trailing (by simpa using hsep) front).symm
  · exact ⟨path, '\\', rfl, rfl, rfl⟩

theorem components_join (path child : List Char) : components (join path child) = components path ++ components child := by
  obtain ⟨front, sep, hsep, hfront, hjoin⟩ := join_eq path child
  rw [hjoin, components_append hsep, hfront, components_dropWhile]

theorem mem_components {w path : List Char} (h : w ∈ components path) :
    w ≠ [] ∧ (∀ c ∈ w, isSeparator c = false) ∧ w <:+: path := by
  obtain ⟨hw, hne⟩ := List.mem_filter.1 h
  -- the first piece is at the front
  have hpieces : ∀ path : List Char, ∃ first rest, path.splitOnP isSeparator = first :: rest ∧ first <+: path ∧
      (∀ w ∈ rest, w <:+: path) ∧ ∀ w ∈ first :: rest, ∀ c ∈ w, isSeparator c = false := by
    intro path
    induction path with
    | nil => exact ⟨[], [], rfl, List.prefix_refl _, by simp, by simp⟩
    | cons c path ih =>
      obtain ⟨first, rest, hsplit, hfirst, hrest, hword⟩ := ih
      rw [List.splitOnP_cons_eq_if_modifyHead, hsplit]
      split
      · refine ⟨[], first :: rest, rfl, List.nil_prefix, ?_, ?_⟩
        · rw [List.forall_mem_cons]
          exact ⟨List.infix_cons hfirst.isInfix, fun w hw => List.infix_cons (hrest w hw)⟩
        · rw [List.forall_mem_cons]
          exact ⟨fun c hc => absurd hc List.not_mem_nil, hword⟩
      · rename_i hc
        obtain ⟨hstart, hothers⟩ := List.forall_mem_cons.1 hword
        refine ⟨c :: first, rest, rfl, List.cons_prefix_cons.2 ⟨rfl, hfirst⟩, ?_, ?_⟩
        · exact fun w hw => List.infix_cons (hrest w hw)
        · rw [List.forall_mem_cons, List.forall_mem_cons]
          exact ⟨⟨by simpa using hc, hstart⟩, hothers⟩
  obtain ⟨first, rest, hsplit, hfirst, hrest, hword⟩ := hpieces path
  rw [hsplit] at hw
  refine ⟨by simpa using hne, hword w hw, ?_⟩
  rcases List.mem_cons.1 hw with rfl | hw
  · exact hfirst.isInfix
  · exact hrest w hw

theorem components_ne_nil {c : Char} {path : List Char} (hc : isSeparator c = false) : components (c :: path) ≠ [] := by
  obtain ⟨first, rest, hsplit⟩ := List.exists_cons_of_ne_nil (List.splitOnP_ne_nil isSeparator path)
  have hmem : c :: first ∈ components (c :: path) := by
    rw [components, List.splitOnP_cons_eq_if_modifyHead, hc, if_neg Bool.false_ne_true, hsplit, List.modifyHead_cons,
      List.mem_filter]
    exact ⟨.head _, by simp⟩
  exact List.ne_nil_of_mem hmem

/-- Behind the parent of a path stands its last component. -/
theorem parent_append (front : List Char) {rest : List Char} {sep : Char} (hsep : isSeparator sep) (hrest : components rest ≠ []) :
    ∃ tail, front ++ sep :: rest = parent (front ++ sep :: rest) ++ tail ∧
      (tail.head?.any isSeparator ∨ (parent (front ++ sep :: rest)).getLast?.any isSeparator) ∧
      ∃ word, components tail = [word] ∧ (components rest).getLast? = some word := by
  set path := front ++ sep :: rest with hpath
  set trimmed := path.rdropWhile isSeparator with htrimmed
  set seps := path.rtakeWhile isSeparator with hseps
  set before := trimmed.rdropWhile (fun c => !isSeparator c) with hbefore
  set last := trimmed.rtakeWhile (fun c => !isSeparator c) with hlast
  have htrim : trimmed ++ seps = path := List.rdropWhile_append_rtakeWhile
  have hsplit : before ++ last = trimmed := List.rdropWhile_append_rtakeWhile
  have hall : ∀ c ∈ seps, isSeparator c := fun c hc => List.mem_rtakeWhile_imp hc
  have hword : ∀ c ∈ last, isSeparator c = false := fun c hc => by simpa using List.mem_rtakeWhile_imp hc
  -- `rest` does not consist of separators, so `sep` is not one of those at the end
  have hinside : sep ∈ trimmed := by
    rcases List.append_eq_append_iff.1 (htrim.trans hpath) with ⟨a, -, h⟩ | ⟨a, h, h'⟩
    · have hends : ∀ c ∈ rest, isSeparator c := by
        intro c hc
        apply hall
        rw [h]
        exact List.mem_append_right _ (List.mem_cons_of_mem _ hc)
      exact absurd (components_separators hends) hrest
    · cases a with
      | nil =>
        have hends : ∀ c ∈ rest, isSeparator c := by
          intro c hc
          apply hall
          rw [List.nil_append] at h'
          rw [← h']
          exact List.mem_cons_of_mem _ hc
        exact absurd (components_separators hends) hrest
      | cons d a =>
        obtain ⟨rfl, -⟩ := List.cons.inj h'
        rw [h]
        exact List.mem_append_right _ (.head _)
  have htrimmed_ne : trimmed ≠ [] := List.ne_nil_of_mem hinside
  have hlast_ne : last ≠ [] := by
    intro hnil
    rw [hlast, List.rtakeWhile_eq_nil_iff] at hnil
    have hnot := List.rdropWhile_last_not isSeparator path htrimmed_ne
    exact hnot (by simpa using hnil htrimmed_ne)
  obtain ⟨up, sep', hconcat⟩ : ∃ up sep', before = up ++ [sep'] := by
    rcases List.eq_nil_or_concat before with hnil | ⟨up, sep', h⟩
    · rw [hbefore, List.rdropWhile_eq_nil_iff] at hnil
      have hnot := hnil sep hinside
      rw [hsep] at hnot
      cases hnot
    · exact ⟨up, sep', by rw [h, List.concat_eq_append]⟩
  have hsep' : isSeparator sep' := by
    have hnot := List.rdropWhile_last_not (fun c => !isSeparator c) trimmed (by rw [← hbefore, hconcat]; simp)
    simpa [← hbefore, hconcat] using hnot
  have hcomponents : components path = components up ++ [last] := by
    rw [← htrim, components_trailing hall, ← hsplit, hconcat, List.append_assoc, List.singleton_append,
      components_append hsep', components_word hlast_ne hword]
  have hname : (components rest).getLast? = some last := by
    have hpieces : components path = components front ++ components rest := components_append hsep front rest
    have hsame := congrArg List.getLast? (hpieces.symm.trans hcomponents)
    rwa [List.getLast?_append_of_ne_nil _ hrest, List.getLast?_append_of_ne_nil _ (List.cons_ne_nil _ _),
      List.getLast?_singleton] at hsame
  have hwhole : path = up ++ sep' :: (last ++ seps) := by
    rw [← htrim, ← hsplit, hconcat, List.append_assoc, List.append_assoc, List.singleton_append]
  have htail : components (last ++ seps) = [last] := by rw [components_trailing hall, components_word hlast_ne hword]
  have hparent : parent path = up ++ [sep'] ∨ parent path = up := by
    simp only [parent, ← htrimmed, ← hbefore, hconcat, List.dropLast_concat]
    split
    · exact .inl rfl
    · exact .inr rfl
  rcases hparent with h | h
  · refine ⟨last ++ seps, ?_, .inr ?_, last, htail, hname⟩
    · rw [h, hwhole, List.append_assoc, List.singleton_append]
    · rw [h, List.getLast?_concat]
      exact hsep'
  · refine ⟨sep' :: (last ++ seps), by rw [h]; exact hwhole, .inl hsep', last, ?_, hname⟩
    have happend := components_append hsep' [] (last ++ seps)
    rw [List.nil_append, htail] at happend
    exact happend

/-! ## Places -/

theorem resolve_append (start cs ds : List (List Char)) : resolve start (cs ++ ds) = resolve (resolve start cs) ds :=
  List.foldl_append ..

/-- Components that do not go up. -/
theorem resolve_down {cs : List (List Char)} (h : ['.', '.'] ∉ cs) (start : List (List Char)) :
    resolve start cs = start ++ cs.filter (· ≠ ['.']) := by
  induction cs generalizing start with
  | nil => simp [resolve]
  | cons c cs ih =>
    rw [List.mem_cons, not_or] at h
    have hrest : resolve start (c :: cs) = resolve (step start c) cs := rfl
    rw [hrest, ih h.2, step]
    by_cases hdot : c = ['.']
    · simp [hdot]
    · rw [if_neg hdot, if_neg (Ne.symm h.1), List.filter_cons_of_pos (by simpa using hdot), List.append_assoc]
      rfl

theorem resolve_dots {cs : List (List Char)} (h : ∀ c ∈ cs, c = ['.']) (start : List (List Char)) :
    resolve start cs = start := by
  have hup : ['.', '.'] ∉ cs := fun hmem => absurd (h _ hmem) (by decide)
  rw [resolve_down hup, List.filter_eq_nil_iff.2 (by simpa using h), List.append_nil]

/-- Components that do not go up and of which one goes down. -/
theorem below_of_components {root path : List Char} {cs : List (List Char)} (hpath : components path = components root ++ cs)
    (hup : ['.', '.'] ∉ cs) (hdown : ∃ c ∈ cs, c ≠ ['.']) : Below root path := by
  intro start
  refine ⟨cs.filter (· ≠ ['.']), ?_, ?_⟩
  · obtain ⟨c, hc, hdot⟩ := hdown
    exact List.ne_nil_of_mem (List.mem_filter.2 ⟨hc, by simpa using hdot⟩)
  · rw [hpath, resolve_append, resolve_down hup]

end Base.WindowsPath
