/-
Completeness of the dependency tree. `Visit` marks a file as visited at the depth at which it is first met
and never looks at it again, so a file first met at depth 32 hides its imports even when it is also a
direct import of the root (`reportDependencyTree_misses`). Along every chain of imports the traversal
expands each file or says, by a `TREE LIMIT` line, that it cut the chain behind such a file.
-/
import BuildEngine.Probe.TreeRun

namespace BuildEngine.Probe

open Base

/-- An import of `p` is resolved to `q`. -/
def ImportEdge (w : World) (strAppDir : WString) (p q : WString) : Prop := q ∈ w.imports strAppDir p

/-- Fewer than 512 distinct files are on the chains of import edges from the root. -/
def FewModules (w : World) (strAppDir strRoot : WString) : Prop :=
  Search.Small w.key (w.imports strAppDir) 512 strRoot

/-- No chain of import edges through distinct files is longer than 32. -/
def ShortChains (w : World) (strAppDir strRoot : WString) : Prop :=
  ∀ way p, Search.Trail w.key (w.imports strAppDir) strRoot way p → way.length ≤ 32

section

variable {w : World} {strAppDir strRoot : WString}

/-- Files of one key are expanded together. -/
theorem expansions_key {p q : WString} (h : w.key p = w.key q) (log : List (WString × Event)) :
    expansions w p log = expansions w q log := by
  have hsame : expansionDepth w p = expansionDepth w q := by
    funext e
    unfold expansionDepth
    rw [h]
  unfold expansions
  rw [hsame]

/-- A key entered by the search belongs to an expanded file. -/
theorem expansions_of_entered {s : TreeState} {a : Search.State WString} (h : Refines w s a) {p : WString}
    (hp : w.key p ∈ a.keys w.key) : expansions w p s.log ≠ [] := by
  obtain ⟨x, hx, hkey⟩ := List.mem_map.1 hp
  have hmem := h.entered x hx
  rw [expansions_key hkey] at hmem
  exact List.ne_nil_of_mem hmem

theorem reportDependencyTree_refines (w : World) (strAppDir strRoot : WString) :
    Refines w (reportDependencyTree w strAppDir strRoot)
      (Search.search w.key (w.imports strAppDir) 512 32 strRoot) :=
  (refines_simulation w).print (dependencyTree_refines w strAppDir strRoot) strRoot _ (by decide)

theorem reportDependencyTree_reports (w : World) (strAppDir strRoot : WString) :
    Reports w (reportDependencyTree w strAppDir strRoot)
      (Search.search w.key (w.imports strAppDir) 512 32 strRoot) :=
  (reports_simulation w).print (dependencyTree_reports w strAppDir strRoot) strRoot _ (by decide)

end

/-! ## A file hidden by the depth limit -/

/-- The image of a file that imports the files named by the given characters. -/
def importingImage (names : List UInt8) : List UInt8 :=
  imageBytes 0 0x1000 328 20
    ((List.range names.length).flatMap (fun i => importBytes (328 + 20 * (names.length + 1) + 2 * i)) ++
      importBytes 0 ++ names.flatMap fun name => [name, 0])

/-- The files `]`, `^`, `_` and so on up to the `n`th. The first imports the second and the last but one; each
other imports the next. -/
def chainContent (n : Nat) : WString → Option (List UInt8)
  | [c] =>
    if c.toNat < 0x5D ∨ c.toNat > 0x5D + n then none
    else if c.toNat = 0x5D then some (importingImage [0x5E, UInt8.ofNat (0x5C + n)])
    else if c.toNat < 0x5D + n then some (importingImage [UInt8.ofNat (c.toNat + 1)])
    else some (importingImage [])
  | _ => none

def chainWorld (n : Nat) : World where
  towlower := id
  content := chainContent n
  isFile p := (chainContent n p).isSome
  loaded _ := none
  systemDirectory := none
  content_fold p q h := by rw [show p = q by simpa using h]

/-- The files of `chainWorld`. -/
def chainFiles (n : Nat) : List WString := (List.range (n + 1)).map fun i => [UInt16.ofNat (0x5D + i)]

/-- The import edges of `chainWorld 33`. -/
def chainImports : WString → List WString
  | [c] => if c = 0x5D then [[0x5E], [0x7D]] else if c < 0x7E then [[c + 1]] else []
  | _ => []

/-- The images are read a few at a time. -/
theorem imports_chainWorld : ∀ p ∈ chainFiles 33, (chainWorld 33).imports [] p = chainImports p := by
  have h1 : ∀ p ∈ (chainFiles 33).take 12, (chainWorld 33).imports [] p = chainImports p := by decide +kernel
  have h2 : ∀ p ∈ ((chainFiles 33).drop 12).take 12, (chainWorld 33).imports [] p = chainImports p := by
    decide +kernel
  have h3 : ∀ p ∈ ((chainFiles 33).drop 12).drop 12, (chainWorld 33).imports [] p = chainImports p := by
    decide +kernel
  intro p hp
  rw [← List.take_append_drop 12 (chainFiles 33), List.mem_append] at hp
  rcases hp with hp | hp
  · exact h1 p hp
  · rw [← List.take_append_drop 12 ((chainFiles 33).drop 12), List.mem_append] at hp
    exact hp.elim (h2 p) (h3 p)

theorem chainImports_closed : ∀ p ∈ chainFiles 33, ∀ c ∈ (chainWorld 33).imports [] p, c ∈ chainFiles 33 := by
  have h : ∀ p ∈ chainFiles 33, ∀ c ∈ chainImports p, c ∈ chainFiles 33 := by decide +kernel
  intro p hp
  rw [imports_chainWorld p hp]
  exact h p hp

/-- The depths at which `chainWorld 33` expands a file are those of the search over `chainImports`. -/
theorem expansions_chainWorld (p : WString) :
    expansions (chainWorld 33) p (reportDependencyTree (chainWorld 33) [] [0x5D]).log =
      enteredDepths (chainWorld 33) p (Search.search (chainWorld 33).key chainImports 512 32 [0x5D]) := by
  rw [(reportDependencyTree_reports (chainWorld 33) [] [0x5D]).expansions,
    Search.search_congr (chainFiles 33) (by decide +kernel) chainImports_closed imports_chainWorld]

/-- The root imports a file, and this one the last file of 34; the last file is never expanded, because its
importer was first met at depth 32. -/
theorem reportDependencyTree_misses :
    FewModules (chainWorld 33) [] [0x5D] ∧
    ImportEdge (chainWorld 33) [] [0x5D] [0x7D] ∧ ImportEdge (chainWorld 33) [] [0x7D] [0x7E] ∧
    expansions (chainWorld 33) [0x7D] (reportDependencyTree (chainWorld 33) [] [0x5D]).log = [32] ∧
    expansions (chainWorld 33) [0x7E] (reportDependencyTree (chainWorld 33) [] [0x5D]).log = [] := by
  have hroot : [0x5D] ∈ chainFiles 33 ∧ [0x7D] ∈ chainFiles 33 := by decide +kernel
  refine ⟨Search.small_of_closed (chainFiles 33) hroot.1 chainImports_closed (by decide +kernel), ?_, ?_, ?_, ?_⟩
  · rw [ImportEdge, imports_chainWorld _ hroot.1]
    decide
  · rw [ImportEdge, imports_chainWorld _ hroot.2]
    decide
  · rw [expansions_chainWorld]
    decide +kernel
  · rw [expansions_chainWorld]
    decide +kernel

/-! ## What the traversal expands -/

/-- When fewer than 512 distinct files are reachable, every file on a chain of import edges from the root is
expanded, unless the chain goes on behind a file that was expanded at depth 32, where a `TREE LIMIT` line
reports the cut. When no chain of distinct files is longer than 32 edges, every reachable file is expanded. -/
theorem reportDependencyTree_expands (w : World) (strAppDir strRoot : WString)
    (few : FewModules w strAppDir strRoot) :
    (∀ ms : List WString, (strRoot :: ms).IsChain (ImportEdge w strAppDir) →
      (∀ m ∈ strRoot :: ms, expansions w m (reportDependencyTree w strAppDir strRoot).log ≠ []) ∨
      ∃ m ∈ strRoot :: ms, ∃ c ∈ ms, ImportEdge w strAppDir m c ∧
        32 ∈ expansions w m (reportDependencyTree w strAppDir strRoot).log ∧
        LimitReported (reportDependencyTree w strAppDir strRoot).log c 33) ∧
    (ShortChains w strAppDir strRoot → ∀ p, Relation.ReflTransGen (ImportEdge w strAppDir) strRoot p →
      expansions w p (reportDependencyTree w strAppDir strRoot).log ≠ []) := by
  have href := reportDependencyTree_refines w strAppDir strRoot
  have hkey := w.imports_key strAppDir
  constructor
  · intro ms hchain
    rcases Search.search_chain 32 hkey few ms strRoot (Search.search_root few) hchain with
      hall | ⟨m, hm, c, hc, hmc, ⟨x, hx, hxm, hdepth⟩, hcut, -⟩
    · exact .inl fun m hm => expansions_of_entered href (hall m hm)
    · refine .inr ⟨m, hm, c, hc, hmc, ?_, href.cut _ hcut⟩
      have hmem := href.entered x hx
      rwa [hdepth, expansions_key hxm] at hmem
  · intro hshort p hp
    exact expansions_of_entered href (Search.search_complete hkey few hshort hp)

theorem chainWorld_expands : expansions (chainWorld 2) [0x5F] (reportDependencyTree (chainWorld 2) [] [0x5D]).log ≠ [] := by
  have hroot : [0x5D] ∈ chainFiles 2 := by decide +kernel
  have hclosed : ∀ p ∈ chainFiles 2, ∀ c ∈ (chainWorld 2).imports [] p, c ∈ chainFiles 2 := by decide +kernel
  have hedge : ImportEdge (chainWorld 2) [] [0x5D] [0x5E] ∧ ImportEdge (chainWorld 2) [] [0x5E] [0x5F] := by
    unfold ImportEdge; decide +kernel
  refine (reportDependencyTree_expands (chainWorld 2) [] [0x5D]
    (Search.small_of_closed (chainFiles 2) hroot hclosed (by decide))).2 ?_ _
      ((Relation.ReflTransGen.single hedge.1).tail hedge.2)
  intro way p htrail
  have := htrail.length_lt (chainFiles 2) hroot hclosed
  rw [show (chainFiles 2).length = 3 from rfl] at this
  omega

end BuildEngine.Probe
