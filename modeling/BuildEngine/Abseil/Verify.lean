/-
The two runs look at the same pinned files. The Source run looks for the quoted name of a header anywhere in a file, the
Build run for an include of it, in quotes or in angle brackets; each accepts files that the other one refuses.
-/
import BuildEngine.Abseil.Rewrite

namespace BuildEngine.Abseil

open Base.Cut Base.CMakeFile
open Base.TextFile (Platform)

/-- `#[ \t]*include[ \t]*["<](third_party/abseil-cpp/)?${_header}[" >]` at the front of a text -/
def atEither (header : String) (t : Text) : Bool :=
  match afterInclude t with
  | some (c :: t) => isOpening c && (matchesPattern (headerPattern header) t ||
      (t.dropPrefix? bundled).any (matchesPattern (headerPattern header)))
  | _ => false

def includesEither (header : String) (text : Text) : Bool := text.tails.any (atEither header)

/-! ## The pinned files -/

theorem forM_ok {α : Type} {f : α → Except String Unit} : ∀ {l : List α},
    l.forM f = .ok () ↔ ∀ x ∈ l, f x = .ok ()
  | [] => iff_of_true rfl (by simp)
  | x :: l => by
    have hcons : (x :: l).forM f = (f x >>= fun _ => l.forM f) := rfl
    rw [hcons, List.forall_mem_cons, ← forM_ok]
    cases f x with
    | error message => simp [bind, Except.bind]
    | ok => simp [bind, Except.bind]

variable {platform : Platform}

theorem verifySample_ok {tree : Tree} {sample : Path × String} : verifySample platform tree sample = .ok () ↔
    sample.1 ∈ tree.paths ∧ includesHeader sample.2 (tree.text platform sample.1) := by
  by_cases h : sample.1 ∈ tree.paths
  · simp only [verifySample, read_eq h, true_and, h]
    split
    next hinclude => simp [hinclude]
    next hinclude => simp [hinclude]
  · simp [verifySample, Tree.read, h]

theorem checkSample_ok {tree : Tree} {sample : Path × String} : checkSample platform tree sample = .ok () ↔
    sample.1 ∈ tree.paths ∧ '"' :: sample.2.toList ++ ['"'] <:+: tree.text platform sample.1 := by
  by_cases h : sample.1 ∈ tree.paths
  · simp only [checkSample, read_eq h, true_and, h]
    split
    next hquoted => exact iff_of_true rfl hquoted
    next hquoted => exact iff_of_false (fun h => by cases h) hquoted
  · simp [checkSample, Tree.read, h]

/-- The loop over the sources reaches the pinned files. -/
theorem sample_scanned {tree : Tree} {sample : Path × String} (hsample : sample ∈ samples)
    (h : sample.1 ∈ tree.paths) : sample.1 ∈ scanned tree := by
  have hglob : ∀ sample ∈ samples, (sample.1.head? == some "core" && sample.1.tail.getLast?.any (hasExtension "cpp")) =
      true := by decide
  rw [scanned, List.mem_insertionSort, List.mem_dedup, List.mem_flatMap]
  refine ⟨"core", by decide, List.mem_flatMap.2 ⟨"cpp", by decide, List.mem_filter.2 ⟨h, hglob sample hsample⟩⟩⟩

/-! ## The include of a header before and after the rewrite -/

theorem dropPrefix_rewrite {w t : Text} (hw : ∀ c ∈ w, ¬ isOpening c) :
    (rewrite t).dropPrefix? w = (t.dropPrefix? w).map rewrite := by
  by_cases h : w <+: t
  · obtain ⟨u, rfl⟩ := h
    have hbefore := (dropPrefix_eq_some (t := w ++ u)).2 rfl
    rw [hbefore, rewrite_append hw, Option.map_some]
    exact dropPrefix_eq_some.2 rfl
  · have hnone : ∀ {t : Text}, ¬ w <+: t → t.dropPrefix? w = none := by
      intro t h
      by_contra hsome
      obtain ⟨u, hu⟩ := Option.ne_none_iff_exists'.1 hsome
      exact h ⟨u, (dropPrefix_eq_some.1 hu).symm⟩
    rw [hnone h, hnone (by rwa [prefix_rewrite hw]), Option.map_none]

theorem dropWhile_rewrite (t : Text) : (rewrite t).dropWhile isBlank = rewrite (t.dropWhile isBlank) := by
  induction t with
  | nil => rfl
  | cons c t ih =>
    by_cases hc : isBlank c
    · have hopening : ¬ isOpening c := by
        obtain rfl | rfl : c = ' ' ∨ c = '\t' := by simpa [isBlank] using hc
        · decide
        · decide
      rw [rewrite_cons fun h => hopening h.1, List.dropWhile_cons_of_pos hc, List.dropWhile_cons_of_pos hc, ih]
    · obtain ⟨u, hu⟩ := exists_rewrite_cons c t
      rw [List.dropWhile_cons_of_neg hc, hu, List.dropWhile_cons_of_neg hc]

theorem afterInclude_of_ne {c : Char} {t : Text} (hc : c ≠ '#') : afterInclude (c :: t) = none := by
  unfold afterInclude
  split
  next heq => exact absurd (List.cons.inj heq).1 hc
  next => rfl

theorem afterInclude_rewrite (t : Text) : afterInclude (rewrite t) = (afterInclude t).map rewrite := by
  have hinclude : ∀ c ∈ "include".toList, ¬ isOpening c := by
    rw [String.toList_ofList]
    simp [isOpening]
  cases t with
  | nil => rfl
  | cons c t =>
    by_cases hc : c = '#'
    · subst hc
      rw [rewrite_cons fun h => absurd h.1 (by decide), afterInclude, afterInclude, dropWhile_rewrite,
        dropPrefix_rewrite hinclude, Option.map_map, Option.map_map]
      exact congrArg (Option.map · _) (funext fun u => dropWhile_rewrite u)
    · obtain ⟨u, hu⟩ := exists_rewrite_cons c t
      rw [hu, afterInclude_of_ne hc, afterInclude_of_ne hc, Option.map_none]

/-- A pattern that a rewrite does not disturb: where it accepts a quote or an angle bracket, it ends, or it goes on with
neither of the words. -/
def Robust : List (Char → Bool) → Prop
  | [] => True
  | p :: ps =>
    ((∀ c, isOpening c → ¬ p c) ∨ ps = [] ∨ ∃ q qs, ps = q :: qs ∧ ¬ q 'a' ∧ ¬ q 't') ∧ Robust ps

theorem matchesPattern_rewrite {ps : List (Char → Bool)} (hps : Robust ps) {t : Text} :
    matchesPattern ps (rewrite t) = matchesPattern ps t := by
  induction ps generalizing t with
  | nil => rfl
  | cons p ps ih =>
    obtain ⟨hp, hps⟩ := hps
    cases t with
    | nil => rfl
    | cons c t =>
      by_cases hplace : isOpening c ∧ old <+: t
      · obtain ⟨hc, u, rfl⟩ := hplace
        have hnew : new <+: new ++ u := List.prefix_append ..
        have hrewrite : rewrite (c :: (old ++ u)) = c :: rewrite (new ++ u) := by
          rw [old_eq, List.append_assoc]
          exact rewrite_place hc hnew
        rw [hrewrite, matchesPattern, matchesPattern]
        rcases hp with hp | rfl | ⟨q, qs, rfl, ha, ht⟩
        · rw [Bool.eq_false_iff.2 (hp c hc), Bool.false_and, Bool.false_and]
        · rfl
        · -- behind `c` stand the two words, one before and one after the rewrite
          obtain ⟨v, hv⟩ := exists_rewrite_cons 'a' ("bsl/".toList ++ u)
          rw [old_eq, bundled_eq, new_eq, List.cons_append, List.cons_append, List.cons_append, hv, matchesPattern,
            matchesPattern, Bool.eq_false_iff.2 ha, Bool.eq_false_iff.2 ht, Bool.false_and, Bool.false_and]
      · rw [rewrite_cons hplace, matchesPattern, matchesPattern, ih hps]

/-- A header of the installed Abseil, which ends with `.h`. -/
def IsHeader (header : String) : Prop :=
  ∃ name, header.toList = new ++ name ++ ['.', 'h'] ∧ ∀ c ∈ new ++ name, c ≠ '.' ∧ ¬ isOpening c

theorem samples_header : ∀ sample ∈ samples, IsHeader sample.2 := by
  have hname : ∀ name : Text, (new ++ name).all (fun c => c != '.' && !isOpening c) →
      ∀ c ∈ new ++ name, c ≠ '.' ∧ ¬ isOpening c := by
    intro name h c hc
    simpa using List.all_eq_true.1 h c hc
  simp only [samples, List.forall_mem_cons]
  refine ⟨⟨"container/flat_hash_set".toList, by decide, hname _ (by decide)⟩,
    ⟨"container/inlined_vector".toList, by decide, hname _ (by decide)⟩, fun _ h => absurd h List.not_mem_nil⟩

theorem IsHeader.robust {header : String} (h : IsHeader header) : Robust (headerPattern header) := by
  obtain ⟨name, heq, hname⟩ := h
  rw [headerPattern, heq, List.map_append, List.append_assoc]
  generalize new ++ name = w at hname
  induction w with
  | nil =>
    refine ⟨.inr (.inr ⟨_, _, rfl, by decide, by decide⟩), .inl fun c hc => ?_, .inr (.inl rfl), trivial⟩
    obtain rfl | rfl : c = '"' ∨ c = '<' := by simpa [isOpening] using hc
    · decide
    · decide
  | cons p w ih =>
    obtain ⟨⟨hdot, hopening⟩, hname⟩ := List.forall_mem_cons.1 hname
    refine ⟨.inl fun c hc => ?_, ih hname⟩
    have hne : p ≠ c := by
      rintro rfl
      exact hopening hc
    simp [hdot, hne]

/-- What the pattern of a header accepts begins with `absl/`. -/
theorem IsHeader.new_prefix {header : String} (h : IsHeader header) {t : Text}
    (ht : matchesPattern (headerPattern header) t) : new <+: t := by
  obtain ⟨name, heq, hname⟩ := h
  rw [headerPattern, heq, List.append_assoc, List.map_append, List.append_assoc] at ht
  have hnew : ∀ c ∈ new, c ≠ '.' := fun c hc => (hname c (List.mem_append_left _ hc)).1
  generalize new = w at ht hnew
  induction w generalizing t with
  | nil => exact List.nil_prefix
  | cons p w ih =>
    obtain ⟨hdot, hnew⟩ := List.forall_mem_cons.1 hnew
    cases t with
    | nil => cases ht
    | cons c t =>
      rw [List.map_cons, List.cons_append, matchesPattern, Bool.and_eq_true] at ht
      obtain ⟨hp, ht⟩ := ht
      obtain rfl : p = c := by simpa [hdot] using hp
      exact List.cons_prefix_cons.2 ⟨rfl, ih ht hnew⟩

/-- Behind a match that names the bundled Abseil the header stands without its directory afterwards. -/
theorem atHeader_rewrite {header : String} (h : IsHeader header) (t : Text) :
    atHeader header (rewrite t) = atEither header t := by
  rw [atHeader, atEither, afterInclude_rewrite]
  rcases afterInclude t with _ | _ | ⟨c, u⟩
  · rfl
  · rfl
  · rw [Option.map_some]
    by_cases hplace : isOpening c ∧ old <+: u
    · obtain ⟨hc, v, rfl⟩ := hplace
      have hdrop : (old ++ v).dropPrefix? bundled = some (new ++ v) := by
        rw [dropPrefix_eq_some, old_eq, List.append_assoc]
      have hnot : matchesPattern (headerPattern header) (old ++ v) = false := by
        rw [Bool.eq_false_iff]
        intro hmatch
        refine opening_words.apart (h.new_prefix hmatch) ?_
        rw [← old_eq]
        exact List.prefix_append old v
      have hrewrite : rewrite (c :: (old ++ v)) = c :: rewrite (new ++ v) := by
        rw [old_eq, List.append_assoc]
        exact rewrite_place hc (List.prefix_append new v)
      simp only [hrewrite, hdrop, hnot, matchesPattern_rewrite h.robust, Option.any_some, Bool.false_or]
    · have hnot : isOpening c → (u.dropPrefix? bundled).any (matchesPattern (headerPattern header)) = false := by
        intro hc
        rw [Bool.eq_false_iff]
        intro hany
        obtain ⟨v, hv, hmatch⟩ := (Option.any_eq_true _ _).1 hany
        refine hplace ⟨hc, ?_⟩
        rw [dropPrefix_eq_some.1 hv, old_eq]
        exact (List.prefix_append_right_inj bundled).2 (h.new_prefix hmatch)
      simp only [rewrite_cons hplace, matchesPattern_rewrite h.robust]
      cases hc : isOpening c with
      | false => rfl
      | true => rw [hnot hc, Bool.or_false]

theorem includesHeader_rewrite {header : String} (h : IsHeader header) (text : Text) :
    includesHeader header (rewrite text) = includesEither header text := by
  have hcons : ∀ (c : Char) (t : Text), includesEither header (c :: t) =
      (atEither header (c :: t) || includesEither header t) := fun c t => by
    rw [includesEither, List.tails_cons, List.any_cons, includesEither]
  have hcons' : ∀ (c : Char) (t : Text), includesHeader header (c :: t) =
      (atHeader header (c :: t) || includesHeader header t) := fun c t => by
    rw [includesHeader, List.tails_cons, List.any_cons, includesHeader]
  -- no include starts in the part that is left out
  have hbundled : ∀ {p : Text} (t : Text), (∀ c ∈ p, c ≠ '#') → includesEither header (p ++ t) = includesEither header t := by
    intro p t hp
    induction p with
    | nil => rfl
    | cons c p ih =>
      obtain ⟨hc, hp⟩ := List.forall_mem_cons.1 hp
      rw [List.cons_append, hcons, ih hp, atEither, afterInclude_of_ne hc, Bool.false_or]
  induction text using place_induction bundled new id with
  | nil => rfl
  | place c p t hp ht ih ih' =>
    rw [List.map_id] at hp ht
    subst hp
    have hat := atHeader_rewrite h (c :: (bundled ++ t))
    by_cases hc : isOpening c
    · have hhash : ∀ c ∈ bundled, c ≠ '#' := fun c hc => (old_chars (mem_old_of_bundled hc)).2.2
      rw [hcons, ← hat, hbundled t hhash, rewrite_place hc ht, hcons', ih']
    · have hrewrite : rewrite (c :: (bundled ++ t)) = c :: rewrite (bundled ++ t) := rewrite_cons fun h => hc h.1
      rw [hcons, ← hat, hrewrite, hcons', ih]
  | other c t ht ih =>
    have hrewrite : rewrite (c :: t) = c :: rewrite t := by
      refine rewrite_cons fun h => ht ?_
      rw [List.map_id, ← old_eq]
      exact h.2
    rw [hcons, ← atHeader_rewrite h, hrewrite, hcons', ih]

/-- The pattern of the Build run matches in the file that the loop leaves if the file had the include of the header, of
the installed or of the bundled Abseil. -/
theorem includesHeader_rewritten {header : String} (h : IsHeader header) {file : Text}
    (hremains : includeRemains (read platform (rewritten platform file)) = false) :
    includesHeader header (read platform (rewritten platform file)) =
      includesEither header (settled (read platform file)) := by
  by_cases hhas : hasInclude (read platform file)
  · rw [read_rewritten hhas, settled, if_pos hhas, includesHeader_rewrite h]
  · rw [rewritten, if_neg hhas] at hremains ⊢
    rw [settled, if_neg hhas]
    generalize read platform file = text at hremains
    rw [Bool.eq_iff_iff, includesHeader, includesEither, List.any_eq_true, List.any_eq_true]
    refine exists_congr fun t => and_congr_right fun ht => ?_
    -- the include of the bundled header would be a match that remains
    have hnone : ((afterInclude t).bind afterOld).isSome = false := by
      have hall := List.any_eq_false.1 hremains t ht
      simpa using hall
    rw [atHeader, atEither]
    rcases hafter : afterInclude t with _ | _ | ⟨c, u⟩
    · exact Iff.rfl
    · exact Iff.rfl
    · rw [hafter, Option.bind_some, afterOld] at hnone
      cases hc : isOpening c with
      | false => simp [hc]
      | true =>
        have hnot : (u.dropPrefix? bundled).any (matchesPattern (headerPattern header)) = false := by
          rw [Bool.eq_false_iff]
          intro hany
          obtain ⟨v, hv, hmatch⟩ := (Option.any_eq_true _ _).1 hany
          obtain ⟨w, rfl⟩ := h.new_prefix hmatch
          have hold : u.dropPrefix? old = some w := by
            rw [dropPrefix_eq_some, dropPrefix_eq_some.1 hv, old_eq, List.append_assoc]
          rw [hc, if_pos rfl, hold] at hnone
          cases hnone
        simp only [hc, hnot, Bool.or_false]

/-! ## Where the runs agree -/

theorem OldInclude.occurs {text : Text} (h : OldInclude text) : old <:+: text := by
  obtain ⟨c, post, hsuffix, -, hold⟩ := oldInclude_place h
  calc old <:+: post := hold.isInfix
    _ <:+: c :: post := (List.suffix_cons c post).isInfix
    _ <:+: text := hsuffix.isInfix

theorem rewritten_same {file : Text} (h : includeRemains (read platform file) = false) :
    rewritten platform file = file := by
  rw [rewritten, if_neg]
  intro hhas
  have hremains := hasInclude_remains hhas
  rw [h] at hremains
  cases hremains

/-- The loop passes over a tree in which its patterns match nowhere. -/
theorem rewriteFiles_same (root : String) {tree : Tree}
    (h : ∀ path ∈ scanned tree, includeRemains (tree.text platform path) = false) :
    rewriteFiles platform root false (scanned tree) tree = (tree, .ok ()) := by
  have hfile : tree.file = (tree.rewritten platform (scanned tree)).file := by
    funext path
    by_cases hpath : path ∈ scanned tree
    · exact (rewritten_same (h path hpath)).symm.trans (file_rewritten hpath).symm
    · exact (if_neg hpath).symm
  rw [rewriteFiles_ok fun path => mem_scanned]
  constructor
  · calc tree = ⟨tree.paths, tree.file⟩ := rfl
      _ = ⟨tree.paths, (tree.rewritten platform (scanned tree)).file⟩ := by rw [← hfile]
      _ = tree.rewritten platform (scanned tree) := rfl
  · intro path hpath
    rw [rewritten_same (h path hpath)]
    exact h path hpath

/-- On the tree that a successful Source run leaves, the Build run succeeds if and only if each pinned file had an
include of its header, of the installed or of the bundled Abseil. On a tree that the Build run accepts and in which no
include directive names the bundled Abseil, the Source run succeeds and changes nothing if and only if nothing in its
sources is taken for such an include, not even in a comment or a literal, and each pinned file has the name of its header
in quotes. -/
theorem runs_agree_iff (platform : Platform) (root : String) (tree : Tree) :
    (∀ tree', script platform root false tree = (tree', .ok ()) →
      (script platform root true tree' = (tree', .ok ()) ↔
        ∀ sample ∈ samples, includesEither sample.2 (settled (tree.text platform sample.1)))) ∧
    (script platform root true tree = (tree, .ok ()) → (∀ path ∈ scanned tree, ¬ OldInclude (tree.file path)) →
      (script platform root false tree = (tree, .ok ()) ↔
        (∀ path ∈ scanned tree, includeRemains (tree.text platform path) = false) ∧
          ∀ sample ∈ samples, '"' :: sample.2.toList ++ ['"'] <:+: tree.text platform sample.1)) := by
  have hverify : ∀ tree : Tree, script platform root true tree = (tree, .ok ()) ↔
      ∀ sample ∈ samples, sample.1 ∈ tree.paths ∧ includesHeader sample.2 (tree.text platform sample.1) := by
    intro tree
    have hscript : script platform root true tree = (tree, samples.forM (verifySample platform tree)) := rfl
    rw [hscript, Prod.mk.injEq, and_iff_right rfl, forM_ok]
    exact forall₂_congr fun sample _ => verifySample_ok
  constructor
  · intro tree' hsource
    obtain ⟨rfl, hremains, hcheck⟩ := script_ok.1 hsource
    rw [hverify]
    refine forall₂_congr fun sample hsample => ?_
    obtain ⟨hpath, -⟩ := checkSample_ok.1 (forM_ok.1 hcheck sample hsample)
    have hscanned := sample_scanned hsample hpath
    have htext : (tree.rewritten platform (scanned tree)).text platform sample.1 =
        read platform (rewritten platform (tree.file sample.1)) := congrArg (read platform) (file_rewritten hscanned)
    have hheader := includesHeader_rewritten (samples_header sample hsample) (hremains _ hscanned)
    rw [htext, hheader, and_iff_right hpath]
    exact Iff.rfl
  · intro hbuild _
    rw [script_ok, forM_ok]
    constructor
    · rintro ⟨htree, hremains, hcheck⟩
      refine ⟨fun path hpath => ?_, fun sample hsample => (checkSample_ok.1 (hcheck sample hsample)).2⟩
      have hfile : tree.file path = rewritten platform (tree.file path) := by
        conv_lhs => rw [htree]
        exact file_rewritten hpath
      rw [Tree.text, hfile]
      exact hremains path hpath
    · rintro ⟨hremains, hquoted⟩
      obtain ⟨htree, hremains⟩ := rewriteFiles_ok (fun path => mem_scanned) |>.1 (rewriteFiles_same "" hremains)
      refine ⟨htree, hremains, fun sample hsample => ?_⟩
      obtain ⟨hpath, -⟩ := (hverify tree).1 hbuild sample hsample
      exact checkSample_ok.2 ⟨hpath, hquoted sample hsample⟩

/-- The Build run accepts the pinned files as the Source run leaves them, and so does another Source run. -/
theorem runs_agree_pinned : script .windows "" false (.of pinnedFiles) = (pinnedRewritten, .ok ()) ∧
    script .windows "" true pinnedRewritten = (pinnedRewritten, .ok ()) ∧
    script .windows "" false pinnedRewritten = (pinnedRewritten, .ok ()) := by
  have hfiles : scanned pinnedRewritten = pinnedPaths ∧
      (∀ sample ∈ samples, includesEither sample.2 (settled ((Tree.of pinnedFiles).text .windows sample.1))) ∧
      (∀ path ∈ pinnedPaths, ¬ old <:+: pinnedRewritten.file path) ∧
      (∀ path ∈ pinnedPaths, includeRemains (pinnedRewritten.text .windows path) = false) ∧
      ∀ sample ∈ samples, '"' :: sample.2.toList ++ ['"'] <:+: pinnedRewritten.text .windows sample.1 := by
    unfold pinnedRewritten pinnedFiles
    repeat rw [String.toList_ofList]
    decide
  obtain ⟨hscanned, hincludes, hnot, hremains, hquoted⟩ := hfiles
  have hbuild := ((runs_agree_iff .windows "" (.of pinnedFiles)).1 pinnedRewritten script_pinned).2 hincludes
  refine ⟨script_pinned, hbuild, ((runs_agree_iff .windows "" pinnedRewritten).2 hbuild ?_).2 ⟨?_, hquoted⟩⟩
  · rw [hscanned]
    exact fun path hpath hinclude => hnot path hpath hinclude.occurs
  · rw [hscanned]
    exact hremains

/-- The second pinned file as the Source run leaves it. -/
def installedFile : Path × Text :=
  (["core", "fpdfapi", "page", "cpdf_sampledfunc.cpp"], "#include \"absl/container/inlined_vector.h\"\r\n".toList)

/-- The first pinned file has the name of its header in a comment only. -/
def commentTree : Tree :=
  .of [(["core", "fpdfdoc", "cpdf_nametree.cpp"], "// \"absl/container/flat_hash_set.h\"\r\n".toList), installedFile]

/-- The first pinned file has its include in angle brackets. -/
def angleTree : Tree :=
  .of [(["core", "fpdfdoc", "cpdf_nametree.cpp"], "#include <absl/container/flat_hash_set.h>\r\n".toList), installedFile]

/-- The Source run accepts the comment that the Build run refuses, and refuses the angle brackets that the Build run
accepts. -/
theorem runs_disagree :
    script .windows "" false commentTree = (commentTree, .ok ()) ∧
    script .windows "" true commentTree = (commentTree, .error
      "Unpatched installed Abseil include in core/fpdfdoc/cpdf_nametree.cpp: absl/container/flat_hash_set.h") ∧
    script .windows "" true angleTree = (angleTree, .ok ()) ∧
    (∀ path ∈ scanned angleTree, ¬ OldInclude (angleTree.file path)) ∧
    script .windows "" false angleTree = (angleTree, .error
      "Installed Abseil include missing in core/fpdfdoc/cpdf_nametree.cpp: absl/container/flat_hash_set.h") := by
  have htrees : (∀ tree ∈ [commentTree, angleTree], scanned tree = pinnedPaths ∧
        ∀ path ∈ pinnedPaths, includeRemains (tree.text .windows path) = false) ∧
      samples.forM (checkSample .windows commentTree) = .ok () ∧
      samples.forM (verifySample .windows commentTree) = .error
        "Unpatched installed Abseil include in core/fpdfdoc/cpdf_nametree.cpp: absl/container/flat_hash_set.h" ∧
      samples.forM (verifySample .windows angleTree) = .ok () ∧
      (∀ path ∈ pinnedPaths, ¬ old <:+: angleTree.file path) ∧
      samples.forM (checkSample .windows angleTree) = .error
        "Installed Abseil include missing in core/fpdfdoc/cpdf_nametree.cpp: absl/container/flat_hash_set.h" := by
    -- the literals as characters, with which the computation is much faster
    unfold commentTree angleTree installedFile
    repeat rw [String.toList_ofList]
    decide
  obtain ⟨hscanned, hcomment, hcommentVerify, hangleVerify, hnot, hangle⟩ := htrees
  have hloop : ∀ tree ∈ [commentTree, angleTree], rewriteFiles .windows "" false (scanned tree) tree = (tree, .ok ()) := by
    intro tree htree
    obtain ⟨hpaths, hremains⟩ := hscanned tree htree
    exact rewriteFiles_same "" fun path hpath => hremains path (hpaths ▸ hpath)
  have hsource : ∀ tree ∈ [commentTree, angleTree],
      script .windows "" false tree = (tree, samples.forM (checkSample .windows tree)) := by
    intro tree htree
    rw [script, if_neg Bool.false_ne_true, hloop tree htree]
  refine ⟨?_, ?_, ?_, ?_, ?_⟩
  · rw [hsource commentTree (.head _), hcomment]
  · exact congrArg (Prod.mk commentTree) hcommentVerify
  · exact congrArg (Prod.mk angleTree) hangleVerify
  · rw [(hscanned angleTree (.tail _ (.head _))).1]
    exact fun path hpath hinclude => hnot path hpath hinclude.occurs
  · rw [hsource angleTree (.tail _ (.head _)), hangle]

end BuildEngine.Abseil
