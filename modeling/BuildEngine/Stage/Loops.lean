/-
The pieces of one staging run. The three loops of the script stage a list of candidates one after the other
(`Stages`), and staging a candidate puts it into the output directory as `Base.Merge` puts an item into a
map; the purge before them keeps exactly the files whose names are not excluded.
-/
import BuildEngine.Stage.Script

namespace BuildEngine.Stage

open Base

section Candidates

variable {F : CaseFold}

/-- The name of a candidate ends in `.dll` and is not excluded. -/
def eligible (vecExcludedDlls : List Text) (c : Source) : Bool :=
  endsInDll (toLower c.file.name) && !vecExcludedDlls.contains (toLower c.file.name)

/-- A candidate as an item: its folded name and its content. -/
def Source.item (F : CaseFold) (c : Source) : Text × List UInt8 := (F.name c.file.name, c.file.bytes)

/-- The items of the eligible candidates. -/
def items (F : CaseFold) (vecExcludedDlls : List Text) (cs : List Source) : List (Text × List UInt8) :=
  (cs.filter (eligible vecExcludedDlls)).map (Source.item F)

/-- The eligible candidates are PE images, and they agree with each other and with the map. -/
def Admissible (F : CaseFold) (vecExcludedDlls : List Text) (m : Text → Option (List UInt8)) (cs : List Source) :
    Prop :=
  (∀ c ∈ cs.filter (eligible vecExcludedDlls), CoffX64 c.file.bytes) ∧
    Merge.Consistent m (items F vecExcludedDlls cs)

theorem items_append (vecExcludedDlls : List Text) (cs ds : List Source) :
    items F vecExcludedDlls (cs ++ ds) = items F vecExcludedDlls cs ++ items F vecExcludedDlls ds := by
  unfold items
  rw [List.filter_append, List.map_append]

theorem admissible_append {vecExcludedDlls : List Text} {m : Text → Option (List UInt8)} {cs ds : List Source} :
    Admissible F vecExcludedDlls m (cs ++ ds) ↔ Admissible F vecExcludedDlls m cs ∧
      Admissible F vecExcludedDlls (Merge.overlay m (items F vecExcludedDlls cs)) ds := by
  unfold Admissible
  rw [List.filter_append, items_append, Merge.consistent_append]
  constructor
  · rintro ⟨hpe, hcs, hds⟩
    exact ⟨⟨fun c hc => hpe c (List.mem_append_left _ hc), hcs⟩, fun c hc => hpe c (List.mem_append_right _ hc), hds⟩
  · rintro ⟨⟨hpe, hcs⟩, hpe', hds⟩
    refine ⟨fun c hc => ?_, hcs, hds⟩
    rcases List.mem_append.1 hc with hc | hc
    · exact hpe c hc
    · exact hpe' c hc

end Candidates

/-! ## The invariant of a run -/

section Run

variable {F : CaseFold} (sha256 : List UInt8 → Text) (inPlay : List UInt8 → Prop)

/-- SHA-256 has no collision among the contents in play. -/
def NoCollision : Prop := ∀ a b, inPlay a → inPlay b → sha256 a = sha256 b → a = b

/-- Every DLL the run remembers is in the output directory with the content of its source; the contents of
both are in play. -/
structure Inv (s : StageState F) : Prop where
  key : ∀ x ∈ s.vecStaged, x.1 = toLower x.2.file.name
  content : ∀ x ∈ s.vecStaged, s.output.lookup (F.name x.2.file.name) = some x.2.file.bytes
  inPlay : ∀ f ∈ s.output.files, inPlay f.bytes

/-- What staging candidates does to the state. -/
structure Staged (vecExcludedDlls : List Text) (cs : List Source) (s s' : StageState F) : Prop where
  inv : Inv inPlay s'
  lookup : s'.output.lookup = Merge.overlay s.output.lookup (items F vecExcludedDlls cs)
  kept : s.output.files ⊆ s'.output.files
  only : ∀ f ∈ s'.output.files, f ∈ s.output.files ∨ ∃ c ∈ cs.filter (eligible vecExcludedDlls), c.file = f

/-- A piece of the script stages the candidates: it succeeds exactly when they are admissible. -/
def Stages (vecExcludedDlls : List Text) (cs : List Source) (body : StageState F → Outcome (StageState F)) : Prop :=
  ∀ s, Inv inPlay s →
    ((body s).succeeded = true ↔ Admissible F vecExcludedDlls s.output.lookup cs) ∧
    ∀ s', body s = .done s' → Staged inPlay vecExcludedDlls cs s s'

variable {sha256 inPlay} {vecExcludedDlls : List Text}

theorem Stages.skip : Stages (F := F) inPlay vecExcludedDlls [] .done := by
  intro s hs
  refine ⟨⟨fun _ => ⟨fun c hc => (by cases hc), fun x hx => (by cases hx), fun x hx => (by cases hx)⟩, fun _ => rfl⟩, ?_⟩
  intro s' h
  cases h
  exact ⟨hs, rfl, List.Subset.refl _, fun f hf => .inl hf⟩

theorem Stages.bind {cs ds : List Source} {body body' : StageState F → Outcome (StageState F)}
    (h : Stages inPlay vecExcludedDlls cs body) (h' : Stages inPlay vecExcludedDlls ds body') :
    Stages inPlay vecExcludedDlls (cs ++ ds) fun s => (body s).bind body' := by
  intro s hs
  obtain ⟨hok, hstaged⟩ := h s hs
  rw [admissible_append]
  show (((body s).bind body').succeeded = true ↔ _) ∧ ∀ s', (body s).bind body' = .done s' → _
  cases hbody : body s with
  | fatal message t =>
    rw [hbody] at hok
    constructor
    · constructor
      · intro hf; cases hf
      · rintro ⟨hadm, -⟩
        cases hok.2 hadm
    · intro s' hf; cases hf
  | done t =>
    rw [hbody] at hok
    have ht := hstaged t hbody
    obtain ⟨hok', hstaged'⟩ := h' t ht.inv
    rw [ht.lookup] at hok'
    constructor
    · constructor
      · intro hsucc
        exact ⟨hok.1 rfl, hok'.1 hsucc⟩
      · rintro ⟨-, hadm⟩
        exact hok'.2 hadm
    · intro s' hdone
      have hs' := hstaged' s' hdone
      refine ⟨hs'.inv, ?_, List.Subset.trans ht.kept hs'.kept, ?_⟩
      · rw [hs'.lookup, ht.lookup, items_append]
        exact (List.foldl_append ..).symm
      · intro f hf
        rw [List.filter_append]
        rcases hs'.only f hf with hf | ⟨c, hc, hcf⟩
        · rcases ht.only f hf with hf | ⟨c, hc, hcf⟩
          · exact .inl hf
          · exact .inr ⟨c, List.mem_append_left _ hc, hcf⟩
        · exact .inr ⟨c, List.mem_append_right _ hc, hcf⟩

theorem Stages.forEach {α : Type} {body : α → StageState F → Outcome (StageState F)} {sources : α → List Source} :
    ∀ {as : List α}, (∀ a ∈ as, Stages inPlay vecExcludedDlls (sources a) (body a)) →
      Stages inPlay vecExcludedDlls (as.flatMap sources) (forEach body as)
  | [], _ => Stages.skip
  | a :: as, h => by
    have hrest : Stages inPlay vecExcludedDlls (as.flatMap sources) (Stage.forEach body as) :=
      Stages.forEach fun b hb => h b (List.mem_cons_of_mem _ hb)
    exact (h a (List.mem_cons_self ..)).bind hrest

/-! ## One candidate -/

theorem stageDll_ineligible (outputDir : Text) {c : Source} (h : eligible vecExcludedDlls c = false) :
    Stages (F := F) inPlay vecExcludedDlls [c] (stageDll sha256 outputDir vecExcludedDlls c) := by
  have hfilter : [c].filter (eligible vecExcludedDlls) = [] := by
    rw [List.filter_cons_of_neg (by rw [h]; exact Bool.false_ne_true), List.filter_nil]
  have hitems : items F vecExcludedDlls [c] = [] := by
    unfold items
    rw [hfilter, List.map_nil]
  have hdone : ∀ s : StageState F, ∃ s', stageDll sha256 outputDir vecExcludedDlls c s = .done s' ∧
      s'.output = s.output ∧ s'.vecStaged = s.vecStaged := by
    intro s
    unfold stageDll eligible at *
    dsimp only
    split
    · exact ⟨s, rfl, rfl, rfl⟩
    · split
      · exact ⟨_, rfl, rfl, rfl⟩
      · rename_i hdll hex
        simp only [Bool.not_eq_true', Bool.not_eq_false] at hdll
        simp [hdll, hex] at h
  intro s hs
  obtain ⟨t, ht, hout, hvec⟩ := hdone s
  rw [ht]
  constructor
  · constructor
    · intro _
      unfold Admissible
      rw [hfilter, hitems]
      exact ⟨fun c hc => (by cases hc), fun x hx => (by cases hx), fun x hx => (by cases hx)⟩
    · intro _; rfl
  · intro s' hs'
    cases hs'
    refine ⟨⟨?_, ?_, ?_⟩, ?_, ?_, ?_⟩
    · rw [hvec]; exact hs.key
    · rw [hvec, hout]; exact hs.content
    · rw [hout]; exact hs.inPlay
    · rw [hout, hitems]; rfl
    · rw [hout]; exact List.Subset.refl _
    · rw [hout]; exact fun f hf => .inl hf

/-- A DLL that is already there, remembered or not, is staged by doing nothing to the output directory. -/
theorem Staged.present {c : Source} {s s' : StageState F} (hs : Inv inPlay s)
    (hel : eligible vecExcludedDlls c = true) (hlookup : s.output.lookup (F.name c.file.name) = some c.file.bytes)
    (hout : s'.output = s.output)
    (hvec : s'.vecStaged = s.vecStaged ∨ s'.vecStaged = s.vecStaged ++ [(toLower c.file.name, c)]) :
    Staged inPlay vecExcludedDlls [c] s s' := by
  have hmem : ∀ x ∈ s'.vecStaged, x ∈ s.vecStaged ∨ x = (toLower c.file.name, c) := by
    intro x hx
    rcases hvec with h | h
    · rw [h] at hx
      exact .inl hx
    · rw [h, List.mem_append, List.mem_singleton] at hx
      exact hx
  refine ⟨⟨?_, ?_, ?_⟩, ?_, ?_, ?_⟩
  · intro x hx
    rcases hmem x hx with hx | rfl
    · exact hs.key x hx
    · rfl
  · intro x hx
    rw [hout]
    rcases hmem x hx with hx | rfl
    · exact hs.content x hx
    · exact hlookup
  · rw [hout]; exact hs.inPlay
  · rw [hout]
    unfold items
    rw [List.filter_cons_of_pos hel, List.filter_nil]
    exact (Merge.put_of_some hlookup).symm
  · rw [hout]; exact List.Subset.refl _
  · rw [hout]; exact fun f hf => .inl hf

/-- A DLL with a free name is copied. -/
theorem Staged.copied {c : Source} {s s' : StageState F} (hs : Inv inPlay s)
    (hel : eligible vecExcludedDlls c = true) (hplay : inPlay c.file.bytes) (hfree : s.output.find c.file.name = none)
    (hout : s'.output = s.output.copyFile c.file)
    (hvec : s'.vecStaged = s.vecStaged ++ [(toLower c.file.name, c)]) :
    Staged inPlay vecExcludedDlls [c] s s' := by
  have hput := Folder.lookup_copyFile hfree
  have hfiles : ∀ f, f ∈ (s.output.copyFile c.file).files ↔ f ∈ (s.output.remove c.file.name).files ∨ f = c.file := by
    intro f
    show f ∈ (s.output.remove c.file.name).files ++ [c.file] ↔ _
    rw [List.mem_append, List.mem_singleton]
  refine ⟨⟨?_, ?_, ?_⟩, ?_, ?_, ?_⟩
  · intro x hx
    rw [hvec, List.mem_append, List.mem_singleton] at hx
    rcases hx with hx | rfl
    · exact hs.key x hx
    · rfl
  · intro x hx
    rw [hvec, List.mem_append, List.mem_singleton] at hx
    rw [hout, hput]
    rcases hx with hx | rfl
    · exact (Merge.put_eq_some ..).2 (.inl (hs.content x hx))
    · refine (Merge.put_eq_some ..).2 (.inr ⟨?_, rfl, rfl⟩)
      rw [← Folder.find_bytes, hfree]
      rfl
  · intro f hf
    rw [hout, hfiles] at hf
    rcases hf with hf | rfl
    · exact hs.inPlay f (List.mem_filter.1 hf).1
    · exact hplay
  · rw [hout, hput]
    unfold items
    rw [List.filter_cons_of_pos hel, List.filter_nil]
    rfl
  · intro f hf
    rw [hout, hfiles]
    refine .inl (List.mem_filter.2 ⟨hf, ?_⟩)
    have := List.find?_eq_none.1 hfree f hf
    simpa using this
  · intro f hf
    rw [hout, hfiles] at hf
    rcases hf with hf | rfl
    · exact .inl (List.mem_filter.1 hf).1
    · exact .inr ⟨c, List.mem_filter.2 ⟨List.mem_singleton_self _, hel⟩, rfl⟩

theorem admissible_singleton {m : Text → Option (List UInt8)} {c : Source} (hel : eligible vecExcludedDlls c = true) :
    Admissible F vecExcludedDlls m [c] ↔
      CoffX64 c.file.bytes ∧ ∀ v, m (F.name c.file.name) = some v → v = c.file.bytes := by
  unfold Admissible items
  rw [List.filter_cons_of_pos hel, List.filter_nil]
  constructor
  · rintro ⟨hpe, hcon⟩
    exact ⟨hpe c (List.mem_singleton_self _), hcon.map _ (List.mem_singleton_self _)⟩
  · rintro ⟨hpe, hmap⟩
    refine ⟨fun d hd => by rw [List.mem_singleton.1 hd]; exact hpe, ⟨?_, ?_⟩⟩
    · intro x hx y hy _
      rw [List.map_singleton, List.mem_singleton] at hx hy
      rw [hx, hy]
    · intro x hx
      rw [List.map_singleton, List.mem_singleton] at hx
      rw [hx]
      exact hmap

theorem stageDll_eligible (outputDir : Text) (hsha : NoCollision sha256 inPlay) {c : Source}
    (hel : eligible vecExcludedDlls c = true) (hplay : inPlay c.file.bytes) :
    Stages (F := F) inPlay vecExcludedDlls [c] (stageDll sha256 outputDir vecExcludedDlls c) := by
  intro s hs
  rw [admissible_singleton hel]
  have hhash : ∀ b, inPlay b → (sha256 b = sha256 c.file.bytes ↔ b = c.file.bytes) := fun b hb =>
    ⟨hsha b _ hb hplay, fun h => by rw [h]⟩
  have hdll : endsInDll (toLower c.file.name) = true ∧ toLower c.file.name ∉ vecExcludedDlls := by
    simpa [eligible] using hel
  unfold stageDll
  dsimp only
  rw [if_neg (by simp [hdll.1]), if_neg hdll.2]
  cases hpe : peCheck c.theFile c.file.bytes with
  | some message =>
    have hno : ¬ CoffX64 c.file.bytes := fun h => by
      rw [peCheck_none.2 h] at hpe
      cases hpe
    exact ⟨⟨fun h => (by cases h), fun h => absurd h.1 hno⟩, fun s' h => (by cases h)⟩
  | none =>
    have hcoff := peCheck_none.1 hpe
    dsimp only
    cases hseen : s.vecStaged.find? fun x => x.1 = toLower c.file.name with
    | some x =>
      obtain ⟨strKey, theOldFile⟩ := x
      -- the remembered source is in the output directory under the name of the candidate
      have hx := List.mem_of_find?_eq_some hseen
      have hkey : strKey = toLower c.file.name := by simpa using List.find?_some hseen
      have hname : F.name theOldFile.file.name = F.name c.file.name :=
        F.name_of_toLower ((hs.key _ hx).symm.trans hkey)
      have hlookup : s.output.lookup (F.name c.file.name) = some theOldFile.file.bytes := by
        rw [← hname]
        exact hs.content _ hx
      obtain ⟨f, hf, -, hfb⟩ := Folder.lookup_eq_some.1 hlookup
      have hold := hhash theOldFile.file.bytes (hfb ▸ hs.inPlay f hf)
      dsimp only
      by_cases heq : theOldFile.file.bytes = c.file.bytes
      · rw [if_neg (by simp [heq])]
        rw [heq] at hlookup
        refine ⟨⟨fun _ => ⟨hcoff, fun v hv => ?_⟩, fun _ => rfl⟩, fun s' h => ?_⟩
        · rw [hlookup] at hv
          cases hv
          rfl
        · cases h
          exact Staged.present hs hel hlookup rfl (.inl rfl)
      · rw [if_pos (fun h => heq (hold.1 h))]
        exact ⟨⟨fun h => (by cases h), fun h => absurd (h.2 _ hlookup) heq⟩, fun s' h => (by cases h)⟩
    | none =>
      dsimp only
      cases hfind : s.output.find c.file.name with
      | some theDest =>
        have hlookup : s.output.lookup (F.name c.file.name) = some theDest.bytes := by
          rw [← Folder.find_bytes, hfind]
          rfl
        have hdest := hhash theDest.bytes (hs.inPlay _ (List.mem_of_find?_eq_some hfind))
        dsimp only
        by_cases heq : theDest.bytes = c.file.bytes
        · rw [if_neg (by simp [heq])]
          rw [heq] at hlookup
          refine ⟨⟨fun _ => ⟨hcoff, fun v hv => ?_⟩, fun _ => rfl⟩, fun s' h => ?_⟩
          · rw [hlookup] at hv
            cases hv
            rfl
          · cases h
            exact Staged.present hs hel hlookup rfl (.inr rfl)
        · rw [if_pos (fun h => heq (hdest.1 h))]
          exact ⟨⟨fun h => (by cases h), fun h => absurd (h.2 _ hlookup) heq⟩, fun s' h => (by cases h)⟩
      | none =>
        have hlookup : s.output.lookup (F.name c.file.name) = none := by
          rw [← Folder.find_bytes, hfind]
          rfl
        refine ⟨⟨fun _ => ⟨hcoff, fun v hv => ?_⟩, fun _ => rfl⟩, fun s' h => ?_⟩
        · rw [hlookup] at hv
          cases hv
        · cases h
          exact Staged.copied hs hel hplay hfind rfl rfl

/-- `_adecc_stage_dll` stages its file. -/
theorem stageDll_stages (outputDir : Text) (hsha : NoCollision sha256 inPlay) {c : Source}
    (hplay : eligible vecExcludedDlls c = true → inPlay c.file.bytes) :
    Stages (F := F) inPlay vecExcludedDlls [c] (stageDll sha256 outputDir vecExcludedDlls c) := by
  cases hel : eligible vecExcludedDlls c with
  | false => exact stageDll_ineligible outputDir hel
  | true => exact stageDll_eligible outputDir hsha hel (hplay hel)

end Run

/-! ## The candidates of a run -/

section Loops

variable {F : CaseFold} {sha256 : List UInt8 → Text} {inPlay : List UInt8 → Prop} {vecExcludedDlls : List Text}

variable (F) in
/-- The declared toolchain DLLs, under their declared names. -/
def toolchainSources (i : Invocation) : List Source :=
  match i.toolchainBin with
  | none => []
  | some (toolchainBin, files) =>
    i.vecToolchainDlls.filterMap fun strDll =>
      (files.find? fun f => F.name f.name = F.name strDll).map fun f => ⟨toolchainBin, ⟨strDll, f.bytes⟩⟩

/-- The files of one directory of a package root. -/
def binSources (root : PackageRoot) (bin : Text) : List Source :=
  match root.files bin with
  | none => []
  | some files => sortedFiles (root.theRoot ++ '/' :: bin) files

/-- The files of a package root, in the order in which they are staged. -/
def rootSources (configuration : Text) (root : PackageRoot) : List Source :=
  (bins configuration).flatMap (binSources root)

variable (F) in
/-- The candidates of a run, in the order in which they are staged. -/
def candidates (i : Invocation) : List Source :=
  toolchainSources F i ++ i.vecRoots.flatMap (rootSources i.configuration)

/-- Staging a list of files. -/
theorem stageFiles_stages (outputDir : Text) (hsha : NoCollision sha256 inPlay) {cs : List Source}
    (hplay : ∀ c ∈ cs, eligible vecExcludedDlls c = true → inPlay c.file.bytes) :
    Stages (F := F) inPlay vecExcludedDlls cs (forEach (stageDll sha256 outputDir vecExcludedDlls) cs) := by
  have h := Stages.forEach (F := F) fun c hc => stageDll_stages outputDir hsha (hplay c hc)
  rwa [List.flatMap_singleton'] at h

theorem stageBin_stages (outputDir : Text) (hsha : NoCollision sha256 inPlay) (root : PackageRoot) (bin : Text)
    (hplay : ∀ c ∈ binSources root bin, eligible vecExcludedDlls c = true → inPlay c.file.bytes) :
    Stages (F := F) inPlay vecExcludedDlls (binSources root bin)
      (stageBin sha256 outputDir vecExcludedDlls root bin) := by
  intro s hs
  unfold stageBin binSources at *
  cases hfiles : root.files bin with
  | none => exact Stages.skip s hs
  | some files =>
    rw [hfiles] at hplay
    exact stageFiles_stages outputDir hsha hplay s hs

theorem stageRoot_stages (outputDir : Text) (hsha : NoCollision sha256 inPlay) (configuration : Text)
    {root : PackageRoot} (hdir : root.isDirectory = true)
    (hplay : ∀ c ∈ rootSources configuration root, eligible vecExcludedDlls c = true → inPlay c.file.bytes) :
    Stages (F := F) inPlay vecExcludedDlls (rootSources configuration root)
      (stageRoot sha256 outputDir vecExcludedDlls configuration root) := by
  intro s hs
  unfold stageRoot
  rw [if_neg (by simp [hdir])]
  exact Stages.forEach (fun bin hbin => stageBin_stages outputDir hsha root bin fun c hc =>
    hplay c (List.mem_flatMap.2 ⟨bin, hbin, hc⟩)) s hs

/-! ## What the script checks before it stages -/

theorem matchesDllName_last {n : Text} (h : matchesDllName n = true) : n.getLast? = some 'l' := by
  unfold matchesDllName at h
  simp only [Bool.and_eq_true] at h
  obtain ⟨t, rfl⟩ := List.isSuffixOf_iff_suffix.1 h.1.1
  rw [List.getLast?_append]
  rfl

/-- The characters of a name the script accepts are ASCII. -/
theorem matchesDllName_ascii {n : Text} (h : matchesDllName n = true) : ∀ d ∈ n, d.toNat < 128 := by
  intro d hd
  unfold matchesDllName at h
  simp only [Bool.and_eq_true, List.all_eq_true, Bool.or_eq_true, decide_eq_true_eq] at h
  rcases h.2 d hd with (((halnum | rfl) | rfl) | rfl) | rfl
  · unfold Char.isAlphanum Char.isAlpha Char.isUpper Char.isLower Char.isDigit at halnum
    simp only [Bool.or_eq_true, Bool.and_eq_true, decide_eq_true_eq] at halnum
    show d.val.toNat < 128
    rcases halnum with (h | h) | h
    · have : d.val.toNat ≤ 90 := h.2
      omega
    · have : d.val.toNat ≤ 122 := h.2
      omega
    · have : d.val.toNat ≤ 57 := h.2
      omega
  · decide
  · decide
  · decide
  · decide

theorem getLast?_intercalate {names : List Text} (hne : names ≠ []) (h : ∀ n ∈ names, n.getLast? = some 'l') :
    (List.intercalate [';'] names).getLast? = some 'l' := by
  induction names with
  | nil => exact absurd rfl hne
  | cons n names ih =>
    cases names with
    | nil =>
      have hone : List.intercalate [';'] [n] = n := by simp [List.intercalate]
      rw [hone]
      exact h n (List.mem_cons_self ..)
    | cons m names =>
      have hsplit : List.intercalate [';'] (n :: m :: names) =
          (n ++ [';']) ++ List.intercalate [';'] (m :: names) := by
        simp [List.intercalate, List.intersperse]
      rw [hsplit, List.getLast?_append,
        ih (List.cons_ne_nil _ _) fun k hk => h k (List.mem_cons_of_mem _ hk)]
      rfl

/-- A list of names that end in `l` is no false constant. -/
theorem isTrue_of_last {names : List Text} (hne : names ≠ []) (h : ∀ n ∈ names, n.getLast? = some 'l') :
    isTrue names = true := by
  have hlast := getLast?_intercalate hne h
  unfold isTrue
  generalize List.intercalate [';'] names = value at hlast
  have hconst : falseConstants.contains (value.map Char.toUpper) = false := by
    have hupper : (value.map Char.toUpper).getLast? = some 'L' := by
      rw [List.getLast?_map, hlast]
      rfl
    rw [Bool.eq_false_iff]
    intro hmem
    have hall : ∀ t ∈ falseConstants, t.getLast? ≠ some 'L' := by decide
    exact hall _ (List.contains_iff_mem.1 hmem) hupper
  have hsuffix : "-NOTFOUND".toList.isSuffixOf value = false := by
    rw [Bool.eq_false_iff]
    intro hs
    obtain ⟨t, rfl⟩ := List.isSuffixOf_iff_suffix.1 hs
    rw [List.getLast?_append] at hlast
    cases hlast
  simp only [hconst, hsuffix]
  rfl

theorem excludedDlls_ok {names : List Text} (h : ∀ n ∈ names, matchesDllName n = true) :
    excludedDlls names = .ok (names.map toLower) := by
  induction names with
  | nil => rfl
  | cons n names ih =>
    rw [excludedDlls, if_neg (by simp [h n (List.mem_cons_self ..)]), ih fun m hm => h m (List.mem_cons_of_mem _ hm)]
    rfl

theorem stageToolchain_stages (outputDir : Text) (hsha : NoCollision sha256 inPlay) {i : Invocation}
    (htoolchain : ∀ n ∈ i.vecToolchainDlls, matchesDllName n = true ∧
      ∃ bin files, i.toolchainBin = some (bin, files) ∧ ∃ f ∈ files, F.name f.name = F.name n)
    (hplay : ∀ c ∈ toolchainSources F i, eligible vecExcludedDlls c = true → inPlay c.file.bytes) :
    Stages (F := F) inPlay vecExcludedDlls (toolchainSources F i)
      (stageToolchain sha256 outputDir vecExcludedDlls i) := by
  intro s hs
  unfold stageToolchain toolchainSources at *
  by_cases hne : i.vecToolchainDlls = []
  · rw [hne, if_neg (by decide)]
    cases i.toolchainBin with
    | none => exact Stages.skip s hs
    | some bin => exact Stages.skip s hs
  · rw [if_pos (isTrue_of_last hne fun n hn => matchesDllName_last (htoolchain n hn).1)]
    obtain ⟨n, hn⟩ := List.exists_mem_of_ne_nil _ hne
    obtain ⟨-, bin, files, hbin, -⟩ := htoolchain n hn
    rw [hbin] at hplay ⊢
    -- one declared DLL after the other
    have hbody : ∀ n ∈ i.vecToolchainDlls, Stages (F := F) inPlay vecExcludedDlls
        ((files.find? fun f => F.name f.name = F.name n).map fun f => (⟨bin, ⟨n, f.bytes⟩⟩ : Source)).toList
        (stageToolchainDll sha256 outputDir vecExcludedDlls bin files n) := by
      intro n hn t ht
      obtain ⟨hname, bin', files', hbin', f, hf, hfn⟩ := htoolchain n hn
      rw [hbin, Option.some.injEq, Prod.mk.injEq] at hbin'
      obtain ⟨rfl, rfl⟩ := hbin'
      unfold stageToolchainDll
      rw [if_neg (by simp [hname])]
      cases hfind : files.find? fun f => F.name f.name = F.name n with
      | none =>
        have := List.find?_eq_none.1 hfind f hf
        simp [hfn] at this
      | some g =>
        refine stageDll_stages outputDir hsha (hplay _ ?_) t ht
        exact List.mem_filterMap.2 ⟨n, hn, by rw [hfind]; rfl⟩
    have h := Stages.forEach hbody s hs
    rwa [← List.filterMap_eq_flatMap_toList] at h

/-! ## The purge -/

variable (vecExcludedDlls) in
theorem purgeFile_files (s : StageState F) (g : File) :
    (purgeFile vecExcludedDlls g s).vecStaged = s.vecStaged ∧
    ∀ f, f ∈ (purgeFile vecExcludedDlls g s).output.files ↔
      f ∈ s.output.files ∧ ¬ (toLower g.name ∈ vecExcludedDlls ∧ F.name f.name = F.name g.name) := by
  unfold purgeFile
  split
  · rename_i hex
    refine ⟨rfl, fun f => ?_⟩
    show f ∈ (s.output.remove g.name).files ↔ _
    unfold Folder.remove
    rw [List.mem_filter]
    simp [hex]
  · rename_i hex
    exact ⟨rfl, fun f => by simp [hex]⟩

variable (vecExcludedDlls) in
theorem purgeFiles_files (fs : List File) (s : StageState F) :
    (fs.foldl (fun s f => purgeFile vecExcludedDlls f s) s).vecStaged = s.vecStaged ∧
    ∀ f, f ∈ (fs.foldl (fun s f => purgeFile vecExcludedDlls f s) s).output.files ↔
      f ∈ s.output.files ∧ ¬ ∃ g ∈ fs, toLower g.name ∈ vecExcludedDlls ∧ F.name f.name = F.name g.name := by
  induction fs generalizing s with
  | nil => exact ⟨rfl, fun f => by simp⟩
  | cons g fs ih =>
    obtain ⟨hvec, hfiles⟩ := purgeFile_files vecExcludedDlls s g
    obtain ⟨hvec', hfiles'⟩ := ih (purgeFile vecExcludedDlls g s)
    refine ⟨hvec'.trans hvec, fun f => ?_⟩
    rw [List.foldl_cons, hfiles', hfiles]
    constructor
    · rintro ⟨⟨hf, hg⟩, hrest⟩
      refine ⟨hf, ?_⟩
      rintro ⟨g', hg', h⟩
      rcases List.mem_cons.1 hg' with rfl | hg'
      · exact hg h
      · exact hrest ⟨g', hg', h⟩
    · rintro ⟨hf, hno⟩
      exact ⟨⟨hf, fun h => hno ⟨g, List.mem_cons_self .., h⟩⟩,
        fun ⟨g', hg', h⟩ => hno ⟨g', List.mem_cons_of_mem _ hg', h⟩⟩

/-- The purge keeps exactly the files whose names are not excluded. -/
theorem purge_files (hkeys : ∀ k ∈ vecExcludedDlls, k.getLast? = some 'l') (s : StageState F) :
    (purge vecExcludedDlls s).vecStaged = s.vecStaged ∧
    ∀ f, f ∈ (purge vecExcludedDlls s).output.files ↔
      f ∈ s.output.files ∧ toLower f.name ∉ vecExcludedDlls := by
  unfold purge
  split
  · obtain ⟨hvec, hfiles⟩ := purgeFiles_files vecExcludedDlls s.output.files s
    refine ⟨hvec, fun f => ?_⟩
    rw [hfiles]
    constructor
    · rintro ⟨hf, hno⟩
      exact ⟨hf, fun hex => hno ⟨f, hf, hex, rfl⟩⟩
    · rintro ⟨hf, hex⟩
      refine ⟨hf, ?_⟩
      rintro ⟨g, hg, hgex, hname⟩
      have heq : f = g := List.inj_on_of_nodup_map s.output.nodup hf hg hname
      exact hex (heq ▸ hgex)
  · rename_i htrue
    have hnil : vecExcludedDlls = [] := by
      by_contra hne
      exact htrue (isTrue_of_last hne hkeys)
    refine ⟨rfl, fun f => ?_⟩
    simp [hnil]

end Loops

end BuildEngine.Stage
