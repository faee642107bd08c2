/-
What the Source run does to the texts: it leaves out the directory of the bundled Abseil behind every quote and every
angle bracket of a file in which some include names it. That is a rewrite of include directives if and only if it finds
nothing else there.
-/
import BuildEngine.Abseil.Directives

namespace BuildEngine.Abseil

open Base.Cut Base.CMakeFile
open Base.TextFile (Platform write)

/-- The part of `old` that the rewrite leaves out. -/
def bundled : Text := "third_party/abseil-cpp/".toList

/-- A text with the directory of the bundled Abseil left out of its include directives, and of nothing else. -/
def rewriteDirectives (text : Text) : Text := cut bundled new Prod.fst Prod.snd (annotated text)

/-- Some include directive names the bundled Abseil. -/
def OldInclude (text : Text) : Prop := ∃ x post, x :: post <:+ annotated text ∧ x.2 ∧ old <+: post.map Prod.fst

/-- The run has changed include directives only, none that names the bundled Abseil is left in a file it looks at, and
another run changes nothing. -/
structure Exact (platform : Platform) (root : String) (tree tree' : Tree) : Prop where
  directives : ∀ path ∈ scanned tree, tree'.file path = rewriteDirectives (tree.file path)
  others : tree'.paths = tree.paths ∧ ∀ path, path ∉ scanned tree → tree'.file path = tree.file path
  none_left : ∀ path ∈ scanned tree', ¬ OldInclude (tree'.file path)
  again : script platform root false tree' = (tree', .ok ())

/-- If the pattern of an include is found in a file as it is read, then the directory of the bundled Abseil stands, behind
a quote or an angle bracket, in include directives only; and otherwise no include directive names it. -/
def Disciplined (platform : Platform) (file : Text) : Prop :=
  ∀ x post, x :: post <:+ annotated file → old <+: post.map Prod.fst →
    (hasInclude (read platform file) && isOpening x.1) = x.2

instance (platform : Platform) (file : Text) : Decidable (Disciplined platform file) :=
  decidable_of_iff (∀ s ∈ (annotated file).tails, ∀ x ∈ s.head?, old <+: s.tail.map Prod.fst →
      (hasInclude (read platform file) && isOpening x.1) = x.2) <| by
    constructor
    · intro h x post hsuffix
      exact h (x :: post) ((List.mem_tails _ _).2 hsuffix) x rfl
    · intro h s hs x hx
      obtain ⟨post, rfl⟩ := List.head?_eq_some_iff.1 hx
      exact h x post ((List.mem_tails _ _).1 hs)

/-! ## Places -/

theorem old_eq : old = bundled ++ new := by
  unfold old bundled new
  repeat rw [String.toList_ofList]
  rfl

theorem bundled_eq : bundled = 't' :: "hird_party/abseil-cpp/".toList := by
  unfold bundled
  repeat rw [String.toList_ofList]

theorem new_eq : new = 'a' :: "bsl/".toList := by
  unfold new
  repeat rw [String.toList_ofList]

theorem old_chars {c : Char} (hc : c ∈ old) : ¬ isOpening c ∧ ¬ isEnd c ∧ c ≠ '#' := by
  have hall : old.all (fun c => !isOpening c && (!isEnd c && c != '#')) := by decide
  simpa using List.all_eq_true.1 hall c hc

theorem mem_old_of_bundled {c : Char} (hc : c ∈ bundled) : c ∈ old := old_eq ▸ List.mem_append_left _ hc

theorem mem_old_of_new {c : Char} (hc : c ∈ new) : c ∈ old := old_eq ▸ List.mem_append_right _ hc

theorem filter_bundled : bundled.filter isEnd = [] :=
  List.filter_eq_nil_iff.2 fun _ hc => (old_chars (mem_old_of_bundled hc)).2.1

theorem opening_words : Words isOpening bundled new :=
  ⟨fun _ hc => (old_chars (old_eq ▸ hc)).1, 't', _, 'a', _, bundled_eq, new_eq, by decide⟩

theorem rewrite_eq (text : Text) : rewrite text = cut bundled new id isOpening text := by
  have hquote : isOpening '"' := rfl
  have hangle : isOpening '<' := rfl
  have hdisjoint : ∀ c, (c == '"') = true → ¬ (c == '<') = true := by
    intro c h
    rw [beq_iff_eq.1 h]
    decide
  have hopening : ∀ c, (c == '"') = true → isOpening c := by
    intro c h
    rw [beq_iff_eq.1 h]
    rfl
  rw [rewrite, old_eq, replaceAll_eq_cut opening_words hquote, replaceAll_eq_cut opening_words hangle,
    cut_cut opening_words hopening hdisjoint]
  rfl

theorem rewrite_cons {c : Char} {t : Text} (h : ¬ (isOpening c ∧ old <+: t)) : rewrite (c :: t) = c :: rewrite t := by
  rw [rewrite_eq, rewrite_eq, cut_cons]
  · rfl
  · rwa [List.map_id, ← old_eq]

/-- The first character stays. -/
theorem exists_rewrite_cons (c : Char) (t : Text) : ∃ u, rewrite (c :: t) = c :: u := by
  rw [rewrite_eq]
  exact ⟨_, rfl⟩

theorem rewrite_place {c : Char} {t : Text} (hc : isOpening c) (ht : new <+: t) :
    rewrite (c :: (bundled ++ t)) = c :: rewrite t := by
  rw [rewrite_eq, rewrite_eq, cut_cons_place hc (List.map_id bundled) (by rwa [List.map_id])]
  rfl

theorem rewrite_append {w : Text} (hw : ∀ c ∈ w, ¬ isOpening c) (t : Text) : rewrite (w ++ t) = w ++ rewrite t := by
  rw [rewrite_eq, rewrite_eq, cut_append t hw, List.map_id]

/-- A word without quotes and angle brackets stands at the front before and after. -/
theorem prefix_rewrite {w t : Text} (hw : ∀ c ∈ w, ¬ isOpening c) : w <+: rewrite t ↔ w <+: t := by
  have hstart : w <+: cut bundled new id isOpening t ↔ w <+: t.map id := prefix_cut (fun _ h => h) hw
  rwa [List.map_id, ← rewrite_eq] at hstart

theorem dropPrefix_eq_some {w t u : Text} : t.dropPrefix? w = some u ↔ t = w ++ u := by
  rw [List.dropPrefix?_eq_some_iff]
  constructor
  · rintro ⟨w', rfl, h⟩
    rw [eq_of_beq h]
  · rintro rfl
    exact ⟨w, rfl, beq_self_eq_true w⟩

theorem afterInclude_suffix {t u : Text} (h : afterInclude t = some u) : u <:+ t := by
  unfold afterInclude at h
  split at h
  next t =>
    obtain ⟨v, hv, rfl⟩ := Option.map_eq_some_iff.1 h
    have hinclude := dropPrefix_eq_some.1 hv
    calc v.dropWhile isBlank <:+ v := List.dropWhile_suffix _
      _ <:+ "include".toList ++ v := List.suffix_append _ v
      _ = t.dropWhile isBlank := hinclude.symm
      _ <:+ t := List.dropWhile_suffix _
      _ <:+ '#' :: t := List.suffix_cons _ t
  next => cases h

/-- A match of the patterns has a place of the rewrite in it. -/
theorem includeRemains_place {text : Text} (h : includeRemains text) :
    ∃ c post, c :: post <:+ text ∧ isOpening c ∧ old <+: post := by
  obtain ⟨t, ht, hmatch⟩ := List.any_eq_true.1 h
  obtain ⟨v, hv⟩ := Option.isSome_iff_exists.1 hmatch
  obtain ⟨u, hu, hv⟩ := Option.bind_eq_some_iff.1 hv
  have hsuffix := (afterInclude_suffix hu).trans ((List.mem_tails t text).1 ht)
  cases u with
  | nil => cases hv
  | cons c u =>
    rw [afterOld] at hv
    split at hv
    next hc => exact ⟨c, u, hsuffix, hc, v, (dropPrefix_eq_some.1 hv).symm⟩
    next => cases hv

theorem hasInclude_remains {text : Text} (h : hasInclude text) : includeRemains text := by
  obtain ⟨t, ht, hmatch⟩ := List.any_eq_true.1 h
  refine List.any_eq_true.2 ⟨t, ht, ?_⟩
  obtain ⟨v, hv, -⟩ := (Option.any_eq_true _ _).1 hmatch
  rw [hv]
  rfl

theorem rewrite_no_place {text post : Text} {c : Char} (h : c :: post <:+ rewrite text) (hc : isOpening c) :
    ¬ old <+: post := by
  rw [rewrite_eq] at h
  rw [old_eq]
  exact no_place opening_words (fun _ => Iff.rfl) h hc

theorem includeRemains_rewrite (text : Text) : includeRemains (rewrite text) = false := by
  by_contra h
  obtain ⟨c, post, hsuffix, hc, hold⟩ := includeRemains_place (by simpa using h)
  exact rewrite_no_place hsuffix hc hold

theorem hasInclude_rewrite (text : Text) : hasInclude (rewrite text) = false := by
  by_contra h
  have hremains := hasInclude_remains (by simpa using h)
  rw [includeRemains_rewrite] at hremains
  cases hremains

theorem rewrite_ne {text : Text} (h : hasInclude text) : rewrite text ≠ text := by
  intro heq
  rw [← heq, hasInclude_rewrite] at h
  cases h

/-! ## Line ends -/

/-- A change of line ends does not interfere with the rewrite. -/
theorem rewrite_comm {change : Text → Text} (hnil : change [] = [])
    (hcons : ∀ c t, ¬ isEnd c → change (c :: t) = c :: change t)
    (hend : ∀ c t, isEnd c → ∀ d ∈ (change (c :: t)).head?, isEnd d)
    (hcomm : ∀ c t, isEnd c → change (rewrite t) = rewrite (change t) →
      change (c :: rewrite t) = rewrite (change (c :: t))) (text : Text) :
    change (rewrite text) = rewrite (change text) := by
  have hfront : ∀ {w : Text}, (∀ c ∈ w, ¬ isEnd c) → ∀ t, w <+: change t ↔ w <+: t := by
    intro w hw
    induction w with
    | nil => exact fun t => iff_of_true List.nil_prefix List.nil_prefix
    | cons c w ih =>
      obtain ⟨hc, hw⟩ := List.forall_mem_cons.1 hw
      intro t
      cases t with
      | nil => rw [hnil]
      | cons d t =>
        by_cases hd : isEnd d
        · -- the word begins with no line end
          refine iff_of_false ?_ ?_
          · rintro ⟨u, hu⟩
            exact hc (hend d t hd c (by rw [← hu]; rfl))
          · intro h
            exact hc ((List.cons_prefix_cons.1 h).1 ▸ hd)
        · rw [hcons d t hd, List.cons_prefix_cons, List.cons_prefix_cons, ih hw]
  have happend : ∀ {w : Text}, (∀ c ∈ w, ¬ isEnd c) → ∀ t, change (w ++ t) = w ++ change t := by
    intro w hw t
    induction w with
    | nil => rfl
    | cons c w ih =>
      obtain ⟨hc, hw⟩ := List.forall_mem_cons.1 hw
      rw [List.cons_append, hcons c _ hc, ih hw, List.cons_append]
  have hopening : ∀ {c : Char}, isOpening c → ¬ isEnd c := by
    intro c h
    obtain rfl | rfl : c = '"' ∨ c = '<' := by simpa [isOpening] using h
    · decide
    · decide
  have hold : ∀ c ∈ old, ¬ isEnd c := fun c hc => (old_chars hc).2.1
  have hbundled : ∀ c ∈ bundled, ¬ isEnd c := fun c hc => hold c (mem_old_of_bundled hc)
  have hnew : ∀ c ∈ new, ¬ isEnd c := fun c hc => hold c (mem_old_of_new hc)
  -- a character that nothing is left out behind
  have hkeep : ∀ c t, ¬ (isOpening c ∧ old <+: t) → change (rewrite t) = rewrite (change t) →
      change (rewrite (c :: t)) = rewrite (change (c :: t)) := by
    intro c t hplace ih
    rw [rewrite_cons hplace]
    by_cases hc : isEnd c
    · exact hcomm c t hc ih
    · rw [hcons c _ hc, hcons c _ hc, ih, rewrite_cons]
      rwa [hfront hold]
  induction text using place_induction bundled new id with
  | nil => rw [hnil]; exact hnil
  | place c p t hp ht ih ih' =>
    rw [List.map_id] at hp ht
    subst hp
    by_cases hc : isOpening c
    · rw [rewrite_place hc ht, hcons c _ (hopening hc), hcons c _ (hopening hc), happend hbundled, ih', rewrite_place hc]
      rwa [hfront hnew]
    · exact hkeep c _ (fun h => hc h.1) ih
  | other c t ht ih =>
    refine hkeep c t (fun h => ht ?_) ih
    rw [List.map_id, ← old_eq]
    exact h.2

theorem rewrite_end {c : Char} (hc : isEnd c) (t : Text) : rewrite (c :: t) = c :: rewrite t := by
  refine rewrite_cons fun h => ?_
  obtain rfl | rfl : c = '"' ∨ c = '<' := by simpa [isOpening] using h.1
  · exact absurd hc (by decide)
  · exact absurd hc (by decide)

theorem dropReturns_rewrite (text : Text) : dropReturns (rewrite text) = rewrite (dropReturns text) := by
  refine rewrite_comm rfl (fun c t hc => ?_) (fun c t hc d hd => ?_) (fun c t hc ih => ?_) text
  · refine dropReturns_cons ?_ t
    rintro rfl
    exact hc rfl
  · by_cases hcr : c = '\r'
    · subst hcr
      cases t with
      | nil => cases hd
      | cons e t =>
        by_cases he : e = '\n'
        · subst he
          exact Option.some.inj hd ▸ rfl
        · rw [dropReturns_return (List.cons_ne_nil _ _) fun h => he (Option.some.inj h)] at hd
          exact Option.some.inj hd ▸ rfl
    · rw [dropReturns_cons hcr] at hd
      exact Option.some.inj hd ▸ hc
  · by_cases hcr : c = '\r'
    · subst hcr
      cases t with
      | nil => rfl
      | cons e t =>
        by_cases he : e = '\n'
        · subst he
          have hdrop : ∀ t, dropReturns ('\r' :: '\n' :: t) = dropReturns ('\n' :: t) := fun t => by
            rw [dropReturns, dropReturns_cons (by decide)]
          rw [rewrite_end rfl] at ih ⊢
          rw [hdrop, hdrop, ih]
        · have hhead : (e :: t).head? ≠ some '\n' := fun h => he (Option.some.inj h)
          have hhead' : (rewrite (e :: t)).head? ≠ some '\n' := by
            obtain ⟨u, hu⟩ := exists_rewrite_cons e t
            rwa [hu]
          have hne : rewrite (e :: t) ≠ [] := by
            obtain ⟨u, hu⟩ := exists_rewrite_cons e t
            rw [hu]
            exact List.cons_ne_nil _ _
          rw [dropReturns_return hne hhead', dropReturns_return (List.cons_ne_nil _ _) hhead, rewrite_end hc, ih]
    · rw [dropReturns_cons hcr, dropReturns_cons hcr, rewrite_end hc, ih]

/-! ## The loop -/

/-- What a turn of the loop makes of a file. -/
def rewritten (platform : Platform) (file : Text) : Text :=
  if hasInclude (read platform file) then write platform (rewrite (read platform file)) else file

/-- A text as it is read again: a file that has been written loses a carriage return in front of a newline once more. -/
def settled (text : Text) : Text := if hasInclude text then dropReturns text else text

variable {platform : Platform}

theorem read_rewritten {file : Text} (h : hasInclude (read platform file)) :
    read platform (rewritten platform file) = rewrite (dropReturns (read platform file)) := by
  rw [rewritten, if_pos h, read_write, dropReturns_rewrite]
  rintro rfl hmem
  -- the rewrite adds no character
  rw [rewrite_eq] at hmem
  have hfilter := List.mem_filter.2 ⟨hmem, (rfl : isEnd '\x1a' = true)⟩
  rw [filter_cut filter_bundled, List.map_id] at hfilter
  exact not_mem_read file (List.mem_filter.1 hfilter).1

theorem includeRemains_rewritten {file : Text} (h : hasInclude (read platform file)) :
    includeRemains (read platform (rewritten platform file)) = false := by
  rw [read_rewritten h, includeRemains_rewrite]

theorem rewritten_rewritten (file : Text) :
    rewritten platform (rewritten platform file) = rewritten platform file := by
  by_cases h : hasInclude (read platform file)
  · rw [rewritten, read_rewritten h, hasInclude_rewrite, if_neg Bool.false_ne_true]
  · have hsame : rewritten platform file = file := if_neg h
    rw [hsame, hsame]

theorem read_eq {tree : Tree} {path : Path} (h : path ∈ tree.paths) :
    tree.read platform path = some (tree.text platform path) := if_pos h

theorem rewriteFile_eq {root : String} {tree : Tree} {path : Path} (h : path ∈ tree.paths) :
    rewriteFile platform root false tree path =
      ({ tree with file := Function.update tree.file path (rewritten platform (tree.file path)) },
        if includeRemains (read platform (rewritten platform (tree.file path))) then
          .error ("Bundled Abseil include remains: " ++ absolute root path) else .ok ()) := by
  rw [rewriteFile, read_eq h]
  by_cases hinclude : hasInclude (tree.text platform path)
  · have hfile : rewritten platform (tree.file path) = write platform (rewrite (tree.text platform path)) :=
      if_pos hinclude
    have htext : (tree.write platform path (rewrite (tree.text platform path))).text platform path =
        read platform (rewritten platform (tree.file path)) := by
      rw [hfile]
      exact congrArg (read platform) (Function.update_self ..)
    have hremains : includeRemains (read platform (rewritten platform (tree.file path))) = false :=
      includeRemains_rewritten hinclude
    simp only [hinclude, if_true, if_neg Bool.false_ne_true, if_neg (rewrite_ne hinclude), htext, hremains]
    rw [hfile]
    rfl
  · have hfile : rewritten platform (tree.file path) = tree.file path := if_neg hinclude
    simp only [hfile, if_neg hinclude, Function.update_eq_self]
    exact apply_ite (Prod.mk tree) _ _ _ |>.symm

/-- The tree behind a loop over these files. -/
def Tree.rewritten (platform : Platform) (tree : Tree) (paths : List Path) : Tree where
  paths := tree.paths
  file path := if path ∈ paths then Abseil.rewritten platform (tree.file path) else tree.file path

theorem rewriteFiles_ok {root : String} {paths : List Path} {tree tree' : Tree} (hpaths : ∀ path ∈ paths, path ∈ tree.paths) :
    rewriteFiles platform root false paths tree = (tree', .ok ()) ↔ tree' = tree.rewritten platform paths ∧
      ∀ path ∈ paths, includeRemains (read platform (rewritten platform (tree.file path))) = false := by
  induction paths generalizing tree with
  | nil =>
    have hnone : tree.rewritten platform [] = tree := by simp [Tree.rewritten]
    rw [rewriteFiles, hnone, Prod.mk.injEq, and_iff_left rfl, and_iff_left (by simp)]
    exact eq_comm
  | cons path paths ih =>
    set tree₁ : Tree := { tree with file := Function.update tree.file path (rewritten platform (tree.file path)) }
      with htree₁
    have hfile : ∀ path', tree₁.file path' =
        if path' = path then rewritten platform (tree.file path) else tree.file path' := fun path' =>
      Function.update_apply ..
    have hsame : ∀ path', rewritten platform (tree₁.file path') = rewritten platform (tree.file path') := by
      intro path'
      rw [hfile]
      split
      next heq => rw [heq, rewritten_rewritten]
      next => rfl
    have hrest : tree₁.rewritten platform paths = tree.rewritten platform (path :: paths) := by
      rw [Tree.rewritten, Tree.rewritten, Tree.mk.injEq]
      refine ⟨rfl, funext fun path' => ?_⟩
      rw [hsame, hfile]
      by_cases hpath : path' = path
      · simp [hpath]
      · simp [hpath]
    have hloop : rewriteFiles platform root false paths tree₁ = (tree', .ok ()) ↔ _ :=
      ih fun path' hpath' => hpaths path' (.tail _ hpath')
    simp only [hsame, hrest] at hloop
    rw [rewriteFiles, rewriteFile_eq (hpaths path (.head _)), ← htree₁, List.forall_mem_cons]
    cases includeRemains (read platform (rewritten platform (tree.file path))) with
    | true => simp
    | false => simpa using hloop

/-! ## The whole run -/

theorem mem_scanned {tree : Tree} {path : Path} (h : path ∈ scanned tree) : path ∈ tree.paths := by
  rw [scanned, List.mem_insertionSort, List.mem_dedup, List.mem_flatMap] at h
  obtain ⟨dir, -, h⟩ := h
  obtain ⟨ext, -, h⟩ := List.mem_flatMap.1 h
  exact (List.mem_filter.1 h).1

/-- A run that succeeds has rewritten the files it looks at, leaves no match of its pattern and finds the pinned
headers. -/
theorem script_ok {root : String} {tree tree' : Tree} : script platform root false tree = (tree', .ok ()) ↔
    tree' = tree.rewritten platform (scanned tree) ∧
      (∀ path ∈ scanned tree, includeRemains (read platform (rewritten platform (tree.file path))) = false) ∧
      samples.forM (checkSample platform tree') = .ok () := by
  have hfiles : rewriteFiles platform root false (scanned tree) tree = (tree', .ok ()) ↔ _ :=
    rewriteFiles_ok fun _ => mem_scanned
  rw [script, if_neg Bool.false_ne_true, ← and_assoc, ← hfiles]
  rcases rewriteFiles platform root false (scanned tree) tree with ⟨tree₁, message | ⟨⟩⟩
  · simp
  · constructor
    · intro h
      obtain ⟨rfl, hsamples⟩ := Prod.mk.inj h
      exact ⟨rfl, hsamples⟩
    · rintro ⟨h, hsamples⟩
      obtain ⟨rfl, -⟩ := Prod.mk.inj h
      exact congrArg (Prod.mk _) hsamples

theorem file_rewritten {tree : Tree} {path : Path} (h : path ∈ scanned tree) :
    (tree.rewritten platform (scanned tree)).file path = rewritten platform (tree.file path) := if_pos h

theorem annotated_chars (text : Text) : (annotated text).map Prod.fst = text := annotate_chars text .lineStart

theorem oldInclude_place {text : Text} (h : OldInclude text) : ∃ c post, c :: post <:+ text ∧ isOpening c ∧ old <+: post := by
  obtain ⟨x, post, hsuffix, hdirective, hold⟩ := h
  have hchars := hsuffix.map Prod.fst
  rw [annotated_chars, List.map_cons] at hchars
  exact ⟨x.1, _, hchars, annotate_opening text .lineStart x (hsuffix.mem (.head _)) hdirective, hold⟩

/-- A tree of these files. -/
def Tree.of (files : List (Path × Text)) : Tree := ⟨files.map Prod.fst, fun path => (files.lookup path).getD []⟩

/-- The pinned files of the sources as they are delivered, with the line ends of Windows. -/
def pinnedFiles : List (Path × Text) :=
  [(["core", "fpdfdoc", "cpdf_nametree.cpp"],
      "#include \"third_party/abseil-cpp/absl/container/flat_hash_set.h\"\r\n".toList),
    (["core", "fpdfapi", "page", "cpdf_sampledfunc.cpp"],
      "#include \"third_party/abseil-cpp/absl/container/inlined_vector.h\"\r\n".toList)]

def pinnedPaths : List Path :=
  [["core", "fpdfapi", "page", "cpdf_sampledfunc.cpp"], ["core", "fpdfdoc", "cpdf_nametree.cpp"]]

/-- What the Source run makes of them. -/
def pinnedRewritten : Tree := (Tree.of pinnedFiles).rewritten .windows pinnedPaths

theorem pinned_checks : scanned (.of pinnedFiles) = pinnedPaths ∧
    (∀ path ∈ pinnedPaths, hasInclude ((Tree.of pinnedFiles).text .windows path) ∧
      Disciplined .windows ((Tree.of pinnedFiles).file path) ∧ Native .windows ((Tree.of pinnedFiles).file path)) ∧
    samples.forM (checkSample .windows pinnedRewritten) = .ok () := by
  -- the literals as characters, with which the computation is much faster
  unfold pinnedRewritten pinnedFiles
  repeat rw [String.toList_ofList]
  decide

theorem script_pinned : script .windows "" false (.of pinnedFiles) = (pinnedRewritten, .ok ()) := by
  obtain ⟨hscanned, hfiles, hsamples⟩ := pinned_checks
  rw [script_ok, hscanned]
  exact ⟨rfl, fun path hpath => includeRemains_rewritten (hfiles path hpath).1, hsamples⟩

end BuildEngine.Abseil
