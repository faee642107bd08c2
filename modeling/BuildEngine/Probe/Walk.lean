/-
`ReportDependencyTree` step by step: a machine with the stack of the calls of `Visit` in progress, for any assignment
of files to paths and of paths to import names. `Move` says what one step does to the stack, to `setVisited` and to
the counters; `run_visit` connects the machine with the recursive `visit`.
-/
import BuildEngine.Base.Machine
import BuildEngine.Probe.Tree

namespace BuildEngine.Probe

open Base

/-! ## The machine -/

/-- The files and the resolutions of import names that the traversal meets, for one application directory. -/
structure Modules where
  /-- `std::towlower` -/
  towlower : UInt16 → UInt16
  /-- the file mapped under a path -/
  file : WString → MappedFile
  /-- the file an import name is resolved to, with the kind of the resolution -/
  resolve : WString → Option (String × WString)

def Modules.key (m : Modules) (strPath : WString) : WString := strPath.map m.towlower

def World.modules (w : World) (strAppDir : WString) : Modules where
  towlower := w.towlower
  file := w.mapFile
  resolve := w.resolve strAppDir

/-- A call of `Visit` that is about to start, or one whose descriptor loop is at index `u`. -/
inductive Frame where
  | call (strPath : WString) (uDepth : Nat)
  | loop (strPath : WString) (uDepth u : Nat) (pDos : ImageDosHeader) (pNt : ImageNtHeaders64)
    (aDir : ImageDataDirectory)

structure Config where
  stack : List Frame
  state : TreeState

/-- What a step does. -/
inductive Action where
  /-- the call returns at its depth or node limit -/
  | limit (strPath : WString) (uDepth : Nat)
  /-- the call returns because its file was entered before -/
  | revisit (strPath : WString) (uDepth : Nat)
  /-- the call enters its file -/
  | expand (strPath : WString) (uDepth : Nat)
  /-- the loop examines descriptor `u` and finds `found` -/
  | examine (strPath : WString) (u : Nat) (found : Descriptor)
  /-- the loop has examined 1024 descriptors -/
  | leave (strPath : WString)
  deriving DecidableEq, Repr

section Step

variable (m : Modules)

/-- The part of `Visit` below `++uNodes`, up to its descriptor loop. -/
def openFile (strPath : WString) (uDepth : Nat) (rest : List Frame) (s : TreeState) : Config :=
  let aFile := m.file strPath
  let s := s.record strPath (visitHeader aFile).log
  match (visitHeader aFile).val with
  | .error .dos => ⟨rest, s.invalid.print strPath invalidDosFormat [.num uDepth, .wide strPath]⟩
  | .error .architectureOrPe => ⟨rest, s.invalid.print strPath invalidPeFormat [.num uDepth, .wide strPath]⟩
  | .ok (pDos, pNt) =>
    let s := s.print strPath nodeFormat [.num uDepth, .num pNt.fileHeader.machine,
      .num pNt.optionalHeader.subsystem, .wide strPath]
    match visitDirectory pNt with
    | none => ⟨rest, s⟩
    | some aDir => ⟨.loop strPath uDepth 0 pDos pNt aDir :: rest, s⟩

/-- What the loop does with a name it has read; `next` is the loop at the next index. -/
def importName (strPath : WString) (uDepth : Nat) (strImport : List UInt8) (next : List Frame) (s : TreeState) :
    Config :=
  let strName := strImport.map widen
  if rejectedName strName then ⟨next, s.invalid⟩
  else
    match m.resolve strName with
    | none =>
      ⟨next, (s.print strPath unresolvedFormat [.num (uDepth + 1), .wide strName, .wide strPath]).missing⟩
    | some (szKind, strCandidate) =>
      ⟨.call strCandidate (uDepth + 1) :: next,
        s.print strPath edgeFormat [.num (uDepth + 1), .wide strName, .text szKind, .wide strCandidate]⟩

/-- One iteration of the loop, up to the call it makes. -/
def examineDescriptor (strPath : WString) (uDepth : Nat) (found : Descriptor) (rest next : List Frame)
    (s : TreeState) : Config :=
  match found with
  | .wrapped => ⟨rest, s⟩
  | .malformed => ⟨rest, s.invalid.print strPath invalidTableFormat [.num uDepth, .wide strPath]⟩
  | .last => ⟨rest, s⟩
  | .badName => ⟨next, s.invalid⟩
  | .named strImport => importName m strPath uDepth strImport next s

/-- One step of the traversal. -/
def walkStep : Config → Option (Action × Config)
  | ⟨[], _⟩ => none
  | ⟨.call strPath uDepth :: rest, s⟩ =>
    if uDepth > 32 ∨ s.uNodes ≥ 512 then
      some (.limit strPath uDepth, ⟨rest, s.print strPath limitFormat [.num uDepth, .num s.uNodes]⟩)
    else if m.key strPath ∈ s.setVisited then
      some (.revisit strPath uDepth, ⟨rest, s.print strPath revisitFormat [.num uDepth, .wide strPath]⟩)
    else
      some (.expand strPath uDepth, openFile m strPath uDepth rest (s.enter (m.key strPath)))
  | ⟨.loop strPath uDepth u pDos pNt aDir :: rest, s⟩ =>
    if u < 1024 then
      let found := readDescriptor (m.file strPath) pDos pNt aDir u
      some (.examine strPath u found.val, examineDescriptor m strPath uDepth found.val rest
        (.loop strPath uDepth (u + 1) pDos pNt aDir :: rest) (s.record strPath found.log))
    else
      some (.leave strPath, ⟨rest, s⟩)

/-- The start of `ReportDependencyTree`, behind `TREE BEGIN`. -/
def walkStart (strRoot : WString) : Config :=
  ⟨[.call strRoot 0], TreeState.initial.print strRoot beginFormat [.wide strRoot]⟩

end Step

/-- A descriptor with a usable name: NUL-terminated in the file, not empty and without `\`, `/` and `:`. -/
def Descriptor.Usable : Descriptor → Prop
  | .named strImport => rejectedName (strImport.map widen) = false
  | _ => False

instance : DecidablePred Descriptor.Usable := fun found => by
  cases found <;> unfold Descriptor.Usable <;> infer_instance

/-! ## What a step does -/

/-- The state after lines were printed and invalid files counted. -/
structure Keeps (s s' : TreeState) : Prop where
  visited : s'.setVisited = s.setVisited
  nodes : s'.uNodes = s.uNodes

/-- What `Visit` does with a descriptor: stop, go on at the next index, count the import as unresolved and go on, or
make one call before it goes on. -/
inductive Effect (found : Descriptor) (uDepth : Nat) (rest next : List Frame) (s : TreeState) : Config → Prop
  | stop {s' : TreeState} : ¬ found.Usable → s'.uMissing = s.uMissing → Keeps s s' →
    Effect found uDepth rest next s ⟨rest, s'⟩
  | skip {s' : TreeState} : ¬ found.Usable → s'.uMissing = s.uMissing → Keeps s s' →
    Effect found uDepth rest next s ⟨next, s'⟩
  | unresolved {s' : TreeState} : found.Usable → s'.uMissing = s.uMissing + 1 → Keeps s s' →
    Effect found uDepth rest next s ⟨next, s'⟩
  | call {s' : TreeState} {strCandidate : WString} : found.Usable → s'.uMissing = s.uMissing → Keeps s s' →
    Effect found uDepth rest next s ⟨.call strCandidate (uDepth + 1) :: next, s'⟩

/-- What one step does to the stack, the visited set and the counters. -/
inductive Move (m : Modules) : Config → Action → Config → Prop
  | limit {strPath : WString} {uDepth : Nat} {rest : List Frame} {s s' : TreeState} :
    s'.uMissing = s.uMissing → Keeps s s' →
    Move m ⟨.call strPath uDepth :: rest, s⟩ (.limit strPath uDepth) ⟨rest, s'⟩
  | revisit {strPath : WString} {uDepth : Nat} {rest : List Frame} {s s' : TreeState} :
    s'.uMissing = s.uMissing → Keeps s s' →
    Move m ⟨.call strPath uDepth :: rest, s⟩ (.revisit strPath uDepth) ⟨rest, s'⟩
  | expand {strPath : WString} {uDepth : Nat} {rest stack : List Frame} {s s' : TreeState} :
    uDepth ≤ 32 → s.uNodes < 512 → m.key strPath ∉ s.setVisited →
    s'.uMissing = s.uMissing → Keeps (s.enter (m.key strPath)) s' →
    (stack = rest ∨ ∃ pDos pNt aDir, stack = .loop strPath uDepth 0 pDos pNt aDir :: rest) →
    Move m ⟨.call strPath uDepth :: rest, s⟩ (.expand strPath uDepth) ⟨stack, s'⟩
  | examine {strPath : WString} {uDepth u : Nat} {pDos : ImageDosHeader} {pNt : ImageNtHeaders64}
    {aDir : ImageDataDirectory} {found : Descriptor} {rest : List Frame} {s : TreeState} {c : Config} :
    u < 1024 → Effect found uDepth rest (.loop strPath uDepth (u + 1) pDos pNt aDir :: rest) s c →
    Move m ⟨.loop strPath uDepth u pDos pNt aDir :: rest, s⟩ (.examine strPath u found) c
  | leave {strPath : WString} {uDepth u : Nat} {pDos : ImageDosHeader} {pNt : ImageNtHeaders64}
    {aDir : ImageDataDirectory} {rest : List Frame} {s : TreeState} :
    Move m ⟨.loop strPath uDepth u pDos pNt aDir :: rest, s⟩ (.leave strPath) ⟨rest, s⟩

section Move

variable {m : Modules}

theorem importName_effect (strPath : WString) (uDepth : Nat) (strImport : List UInt8) (rest next : List Frame)
    {s s' : TreeState} (hmissing : s'.uMissing = s.uMissing) (hkeeps : Keeps s s') :
    Effect (.named strImport) uDepth rest next s (importName m strPath uDepth strImport next s') := by
  unfold importName
  dsimp only
  split
  · rename_i hrejected
    exact .skip (by simp [Descriptor.Usable, hrejected]) hmissing ⟨hkeeps.visited, hkeeps.nodes⟩
  · rename_i hrejected
    have husable : (Descriptor.named strImport).Usable := by simpa [Descriptor.Usable] using hrejected
    split
    · exact .unresolved husable (congrArg (· + 1) hmissing) ⟨hkeeps.visited, hkeeps.nodes⟩
    · exact .call husable hmissing ⟨hkeeps.visited, hkeeps.nodes⟩

theorem examineDescriptor_effect (strPath : WString) (uDepth : Nat) (found : Descriptor) (rest next : List Frame)
    {s s' : TreeState} (hmissing : s'.uMissing = s.uMissing) (hkeeps : Keeps s s') :
    Effect found uDepth rest next s (examineDescriptor m strPath uDepth found rest next s') := by
  cases found with
  | wrapped => exact .stop id hmissing hkeeps
  | malformed => exact .stop id hmissing ⟨hkeeps.visited, hkeeps.nodes⟩
  | last => exact .stop id hmissing hkeeps
  | badName => exact .skip id hmissing ⟨hkeeps.visited, hkeeps.nodes⟩
  | named strImport => exact importName_effect strPath uDepth strImport rest next hmissing hkeeps

theorem openFile_keeps (strPath : WString) (uDepth : Nat) (rest : List Frame) (s : TreeState) :
    Keeps s (openFile m strPath uDepth rest s).state ∧
      (openFile m strPath uDepth rest s).state.uMissing = s.uMissing ∧
      ((openFile m strPath uDepth rest s).stack = rest ∨ ∃ pDos pNt aDir,
        (openFile m strPath uDepth rest s).stack = .loop strPath uDepth 0 pDos pNt aDir :: rest) := by
  unfold openFile
  dsimp only
  split
  · exact ⟨⟨rfl, rfl⟩, rfl, .inl rfl⟩
  · exact ⟨⟨rfl, rfl⟩, rfl, .inl rfl⟩
  · rename_i pDos pNt _
    split
    · exact ⟨⟨rfl, rfl⟩, rfl, .inl rfl⟩
    · rename_i aDir _
      exact ⟨⟨rfl, rfl⟩, rfl, .inr ⟨pDos, pNt, aDir, rfl⟩⟩

/-- The steps of the machine are moves. -/
theorem walkStep_move {c c' : Config} {a : Action} (h : walkStep m c = some (a, c')) : Move m c a c' := by
  obtain ⟨stack, s⟩ := c
  rcases stack with _ | ⟨frame, rest⟩
  · cases h
  cases frame with
  | call strPath uDepth =>
    rw [walkStep] at h
    split at h
    · cases h
      exact .limit rfl ⟨rfl, rfl⟩
    · rename_i hlimit
      split at h
      · cases h
        exact .revisit rfl ⟨rfl, rfl⟩
      · rename_i hnew
        obtain ⟨hkeeps, hmissing, hstack⟩ := openFile_keeps (m := m) strPath uDepth rest (s.enter (m.key strPath))
        cases h
        exact .expand (by omega) (by omega) hnew hmissing hkeeps hstack
  | loop strPath uDepth u pDos pNt aDir =>
    rw [walkStep] at h
    split at h
    · rename_i hu
      cases h
      exact .examine hu (examineDescriptor_effect strPath uDepth _ rest _ rfl ⟨rfl, rfl⟩)
    · cases h
      exact .leave

theorem walkStep_none {c : Config} : walkStep m c = none ↔ c.stack = [] := by
  obtain ⟨stack, s⟩ := c
  rcases stack with _ | ⟨frame, rest⟩
  · exact ⟨fun _ => rfl, fun _ => rfl⟩
  · refine ⟨fun h => ?_, fun h => by cases h⟩
    cases frame with
    | call strPath uDepth =>
      rw [walkStep] at h
      split at h
      · cases h
      · split at h
        · cases h
        · cases h
    | loop strPath uDepth u pDos pNt aDir =>
      rw [walkStep] at h
      split at h
      · cases h
      · cases h

end Move

/-! ## Termination -/

/-- How many steps a frame can still take without entering another file. -/
def Frame.work : Frame → Nat
  | .call .. => 1
  | .loop _ _ u _ _ _ => 2 * (1024 - u) + 1

/-- A bound for the steps left: those of the frames, and those of the files that can still be entered. -/
def Config.work (c : Config) : Nat := (c.stack.map Frame.work).sum + (512 - c.state.uNodes) * 2049

theorem Move.work_lt {m : Modules} {c c' : Config} {a : Action} (h : Move m c a c') : c'.work < c.work := by
  have hnext : ∀ u < 1024, 2 * (1024 - (u + 1)) + 1 + 1 < 2 * (1024 - u) + 1 := fun u hu => by omega
  cases h with
  | limit _ hkeeps => simp [Config.work, Frame.work, hkeeps.nodes]
  | revisit _ hkeeps => simp [Config.work, Frame.work, hkeeps.nodes]
  | expand _ hnodes _ _ hkeeps hstack =>
    have hentered := hkeeps.nodes
    simp only [TreeState.enter] at hentered
    rcases hstack with rfl | ⟨pDos, pNt, aDir, rfl⟩
    · simp only [Config.work, Frame.work, hentered, List.map_cons, List.sum_cons]
      omega
    · simp only [Config.work, Frame.work, hentered, List.map_cons, List.sum_cons]
      omega
  | @examine _ _ u _ _ _ _ _ _ _ hu heffect =>
    have hu' := hnext u hu
    cases heffect with
    | stop _ _ hkeeps =>
      simp only [Config.work, Frame.work, hkeeps.nodes, List.map_cons, List.sum_cons]
      omega
    | skip _ _ hkeeps =>
      simp only [Config.work, Frame.work, hkeeps.nodes, List.map_cons, List.sum_cons]
      omega
    | unresolved _ _ hkeeps =>
      simp only [Config.work, Frame.work, hkeeps.nodes, List.map_cons, List.sum_cons]
      omega
    | call _ _ hkeeps =>
      simp only [Config.work, Frame.work, hkeeps.nodes, List.map_cons, List.sum_cons]
      omega
  | leave =>
    simp only [Config.work, Frame.work, List.map_cons, List.sum_cons]
    omega

/-! ## Every file is entered once -/

section Invariants

variable (m : Modules)

/-- The key of the file a step enters. -/
def entry : Action → Option WString
  | .expand strPath _ => some (m.key strPath)
  | _ => none

/-- The node counter counts the visited set, and the visited set is the files entered. -/
structure Entered (actions : List Action) (c : Config) : Prop where
  nodes : c.state.uNodes = c.state.setVisited.length
  nodup : c.state.setVisited.Nodup
  bound : c.state.uNodes ≤ 512
  entries : actions.filterMap (entry m) = c.state.setVisited.reverse
  depth : ∀ strPath uDepth, Action.expand strPath uDepth ∈ actions → uDepth ≤ 32

variable {m}

/-- Steps that enter no file. -/
theorem Entered.same {actions : List Action} {a : Action} {c c' : Config} (h : Entered m actions c)
    (ha : ∀ strPath uDepth, a ≠ .expand strPath uDepth) (hkeeps : Keeps c.state c'.state) :
    Entered m (actions ++ [a]) c' where
  nodes := by rw [hkeeps.nodes, hkeeps.visited, h.nodes]
  nodup := by rw [hkeeps.visited]; exact h.nodup
  bound := by rw [hkeeps.nodes]; exact h.bound
  entries := by
    have hentry : entry m a = none := by
      cases a with
      | expand strPath uDepth => exact absurd rfl (ha strPath uDepth)
      | limit => rfl
      | revisit => rfl
      | examine => rfl
      | leave => rfl
    rw [List.filterMap_append, List.filterMap_cons_none hentry, List.filterMap_nil, List.append_nil, hkeeps.visited,
      h.entries]
  depth := by
    intro strPath uDepth hmem
    rcases List.mem_append.1 hmem with hmem | hmem
    · exact h.depth strPath uDepth hmem
    · exact absurd (List.mem_singleton.1 hmem).symm (ha strPath uDepth)

theorem Effect.keeps {found : Descriptor} {uDepth : Nat} {rest next : List Frame} {s : TreeState} {c : Config}
    (h : Effect found uDepth rest next s c) : Keeps s c.state := by
  cases h with
  | stop _ _ hkeeps => exact hkeeps
  | skip _ _ hkeeps => exact hkeeps
  | unresolved _ _ hkeeps => exact hkeeps
  | call _ _ hkeeps => exact hkeeps

theorem Entered.step {actions : List Action} {a : Action} {c c' : Config} (h : Entered m actions c)
    (hmove : Move m c a c') : Entered m (actions ++ [a]) c' := by
  cases hmove with
  | limit _ hkeeps => exact h.same (fun _ _ => nofun) hkeeps
  | revisit _ hkeeps => exact h.same (fun _ _ => nofun) hkeeps
  | examine _ heffect => exact h.same (fun _ _ => nofun) heffect.keeps
  | leave => exact h.same (fun _ _ => nofun) ⟨rfl, rfl⟩
  | @expand strPath uDepth rest stack s s' hdepth hnodes hnew _ hkeeps _ =>
    have hvisited := hkeeps.visited
    have hcount := hkeeps.nodes
    simp only [TreeState.enter] at hvisited hcount
    have hlength := h.nodes
    simp only at hlength
    refine ⟨?_, ?_, ?_, ?_, ?_⟩
    · rw [hvisited, hcount, List.length_cons, hlength]
    · rw [hvisited]
      exact List.nodup_cons.2 ⟨hnew, h.nodup⟩
    · simp only [hcount]
      omega
    · rw [List.filterMap_append, h.entries, hvisited, List.reverse_cons]
      rfl
    · intro strPath' uDepth' hmem
      rcases List.mem_append.1 hmem with hmem | hmem
      · exact h.depth strPath' uDepth' hmem
      · cases List.mem_singleton.1 hmem
        exact hdepth

/-! ## At most 1024 descriptors of a file are examined -/

variable (m)

/-- The index of the descriptor a step examines in the file with key `strKey`. -/
def examination (strKey : WString) : Action → Option Nat
  | .examine strPath u _ => if m.key strPath = strKey then some u else none
  | _ => none

/-- The descriptors examined in the file with key `strKey`, in order. -/
def examinations (strKey : WString) (actions : List Action) : List Nat := actions.filterMap (examination m strKey)

/-- The key of the file of a loop, with its index. -/
def loopIndex : Frame → Option (WString × Nat)
  | .loop strPath _ u _ _ _ => some (m.key strPath, u)
  | .call .. => none

/-- Every loop on the stack has examined the descriptors below its index, and no two loops are over one file. -/
structure InProgress (actions : List Action) (c : Config) : Prop where
  loops : ∀ p ∈ c.stack.filterMap (loopIndex m), p.1 ∈ c.state.setVisited ∧ p.2 ≤ 1024 ∧
    examinations m p.1 actions = List.range p.2
  distinct : ((c.stack.filterMap (loopIndex m)).map Prod.fst).Nodup
  fresh : ∀ strKey ∉ c.state.setVisited, examinations m strKey actions = []
  examined : ∀ strKey, ∃ n ≤ 1024, examinations m strKey actions = List.range n

variable {m}

theorem examinations_same {strKey : WString} {actions : List Action} {a : Action}
    (h : examination m strKey a = none) : examinations m strKey (actions ++ [a]) = examinations m strKey actions := by
  rw [examinations, List.filterMap_append, List.filterMap_cons_none h, List.filterMap_nil, List.append_nil,
    examinations]

/-- Steps that examine nothing and leave the visited set larger and the stack with fewer loops. -/
theorem InProgress.same {actions : List Action} {a : Action} {c c' : Config} (h : InProgress m actions c)
    (ha : ∀ strKey, examination m strKey a = none) (hvisited : c.state.setVisited ⊆ c'.state.setVisited)
    (hloops : (c'.stack.filterMap (loopIndex m)).Sublist (c.stack.filterMap (loopIndex m))) :
    InProgress m (actions ++ [a]) c' where
  loops := by
    intro p hp
    obtain ⟨hmem, hle, hexamined⟩ := h.loops p (hloops.subset hp)
    exact ⟨hvisited hmem, hle, by rw [examinations_same (ha p.1), hexamined]⟩
  distinct := h.distinct.sublist (hloops.map Prod.fst)
  fresh := by
    intro strKey hnew
    rw [examinations_same (ha strKey)]
    exact h.fresh strKey fun hmem => hnew (hvisited hmem)
  examined := by
    intro strKey
    rw [examinations_same (ha strKey)]
    exact h.examined strKey

/-- A loop examines the descriptor at its index; it goes on at the next index or is over. -/
theorem InProgress.examine {actions : List Action} {strPath : WString} {uDepth u : Nat} {pDos : ImageDosHeader}
    {pNt : ImageNtHeaders64} {aDir : ImageDataDirectory} {found : Descriptor} {rest : List Frame} {s : TreeState}
    {c : Config} (h : InProgress m actions ⟨.loop strPath uDepth u pDos pNt aDir :: rest, s⟩) (hu : u < 1024)
    (hvisited : c.state.setVisited = s.setVisited)
    (hstack : c.stack.filterMap (loopIndex m) = rest.filterMap (loopIndex m) ∨
      c.stack.filterMap (loopIndex m) = (m.key strPath, u + 1) :: rest.filterMap (loopIndex m)) :
    InProgress m (actions ++ [.examine strPath u found]) c := by
  have hfirst : (Frame.loop strPath uDepth u pDos pNt aDir :: rest).filterMap (loopIndex m) =
      (m.key strPath, u) :: rest.filterMap (loopIndex m) := rfl
  have hloops := h.loops
  have hdistinct := h.distinct
  simp only [hfirst, List.map_cons, List.nodup_cons] at hloops hdistinct
  obtain ⟨hmem, -, hexamined⟩ := hloops _ (List.mem_cons_self ..)
  have hthis : examinations m (m.key strPath) (actions ++ [.examine strPath u found]) = List.range (u + 1) := by
    rw [examinations, List.filterMap_append, ← examinations, hexamined, List.range_succ]
    simp [examination]
  have hother : ∀ strKey, m.key strPath ≠ strKey →
      examinations m strKey (actions ++ [.examine strPath u found]) = examinations m strKey actions := fun strKey hne =>
    examinations_same (by simp [examination, hne])
  -- a loop below the top one is over another file
  have hrest : ∀ p ∈ rest.filterMap (loopIndex m), p.1 ∈ c.state.setVisited ∧ p.2 ≤ 1024 ∧
      examinations m p.1 (actions ++ [.examine strPath u found]) = List.range p.2 := by
    intro p hp
    obtain ⟨hmem', hle, hexamined'⟩ := hloops p (List.mem_cons_of_mem _ hp)
    have hne : m.key strPath ≠ p.1 := fun heq => hdistinct.1 (heq ▸ List.mem_map_of_mem hp)
    exact ⟨by rw [hvisited]; exact hmem', hle, by rw [hother p.1 hne, hexamined']⟩
  refine ⟨?_, ?_, ?_, ?_⟩
  · rcases hstack with hstack | hstack
    · rw [hstack]
      exact hrest
    · rw [hstack]
      intro p hp
      rcases List.mem_cons.1 hp with rfl | hp
      · exact ⟨by rw [hvisited]; exact hmem, by omega, hthis⟩
      · exact hrest p hp
  · rcases hstack with hstack | hstack
    · rw [hstack]
      exact hdistinct.2
    · rw [hstack, List.map_cons]
      exact List.nodup_cons.2 hdistinct
  · intro strKey hnew
    rw [hvisited] at hnew
    rw [hother strKey fun heq => hnew (heq ▸ hmem)]
    exact h.fresh strKey hnew
  · intro strKey
    by_cases hkey : m.key strPath = strKey
    · exact ⟨u + 1, by omega, hkey ▸ hthis⟩
    · rw [hother strKey hkey]
      exact h.examined strKey

theorem InProgress.step {actions : List Action} {a : Action} {c c' : Config} (h : InProgress m actions c)
    (hmove : Move m c a c') : InProgress m (actions ++ [a]) c' := by
  cases hmove with
  | limit _ hkeeps => exact h.same (fun _ => rfl) (by rw [hkeeps.visited]; exact List.Subset.refl _) (.refl _)
  | revisit _ hkeeps => exact h.same (fun _ => rfl) (by rw [hkeeps.visited]; exact List.Subset.refl _) (.refl _)
  | leave => exact h.same (fun _ => rfl) (List.Subset.refl _) (List.sublist_cons_self _ _)
  | @examine strPath uDepth u pDos pNt aDir found rest s c hu heffect =>
    refine h.examine hu heffect.keeps.visited ?_
    cases heffect with
    | stop => exact .inl rfl
    | skip => exact .inr rfl
    | unresolved => exact .inr rfl
    | call => exact .inr rfl
  | @expand strPath uDepth rest stack s s' _ _ hnew _ hkeeps hstack =>
    have hvisited := hkeeps.visited
    simp only [TreeState.enter] at hvisited
    have hgrows : s.setVisited ⊆ s'.setVisited := by
      rw [hvisited]
      exact List.subset_cons_self _ _
    have hrest : InProgress m (actions ++ [.expand strPath uDepth]) ⟨rest, s'⟩ := h.same (fun _ => rfl) hgrows (.refl _)
    rcases hstack with rfl | ⟨pDos, pNt, aDir, rfl⟩
    · exact hrest
    -- the new loop is over a file of which nothing was examined yet
    have hnone : examinations m (m.key strPath) (actions ++ [.expand strPath uDepth]) = [] := by
      rw [examinations_same rfl]
      exact h.fresh _ hnew
    have hloops : (Frame.loop strPath uDepth 0 pDos pNt aDir :: rest).filterMap (loopIndex m) =
        (m.key strPath, 0) :: rest.filterMap (loopIndex m) := rfl
    refine ⟨?_, ?_, hrest.fresh, hrest.examined⟩
    · rw [hloops]
      intro p hp
      rcases List.mem_cons.1 hp with rfl | hp
      · exact ⟨by rw [hvisited]; exact List.mem_cons_self .., Nat.zero_le _, hnone⟩
      · exact hrest.loops p hp
    · rw [hloops, List.map_cons]
      refine List.nodup_cons.2 ⟨fun hmem => ?_, hrest.distinct⟩
      obtain ⟨p, hp, hkey⟩ := List.mem_map.1 hmem
      simp only at hkey
      exact hnew (hkey ▸ (h.loops p hp).1)

/-! ## Every usable name is an unresolved import or a call -/

/-- A step that examines a descriptor with a usable name. -/
def usableFound : Action → Bool
  | .examine _ _ found => found.Usable
  | _ => false

/-- A step that is the start of a call. -/
def callStarted : Action → Bool
  | .limit .. | .revisit .. | .expand .. => true
  | _ => false

/-- A call on the stack that has not started. -/
def pendingCall : Frame → Bool
  | .call .. => true
  | .loop .. => false

/-- The usable names found, and the call of the root, are the imports counted as unresolved, the calls started and
the calls about to start. -/
def Accounted (actions : List Action) (c : Config) : Prop :=
  actions.countP usableFound + 1 = c.state.uMissing + actions.countP callStarted + c.stack.countP pendingCall

/-- A usable name is counted as unresolved without a call, or leads to one call without being counted. -/
structure Unresolved (c c' : Config) : Prop where
  counted : c'.state.uMissing = c.state.uMissing + 1
  calls : c'.stack.countP pendingCall = c.stack.countP pendingCall

structure Called (c c' : Config) : Prop where
  counted : c'.state.uMissing = c.state.uMissing
  top : ∃ strCandidate uDepth next, c'.stack = .call strCandidate uDepth :: next
  calls : c'.stack.countP pendingCall = c.stack.countP pendingCall + 1

theorem Move.usable {c c' : Config} {strPath : WString} {u : Nat} {found : Descriptor}
    (h : Move m c (.examine strPath u found) c') (hfound : found.Usable) : Unresolved c c' ∨ Called c c' := by
  cases h with
  | examine _ heffect =>
    cases heffect with
    | stop hnot => exact absurd hfound hnot
    | skip hnot => exact absurd hfound hnot
    | unresolved _ hmissing _ => exact .inl ⟨hmissing, rfl⟩
    | call _ hmissing _ => exact .inr ⟨hmissing, ⟨_, _, _, rfl⟩, List.countP_cons_of_pos rfl⟩

theorem Accounted.step {actions : List Action} {a : Action} {c c' : Config} (h : Accounted actions c)
    (hmove : Move m c a c') : Accounted (actions ++ [a]) c' := by
  unfold Accounted at h ⊢
  rw [List.countP_append, List.countP_append, List.countP_singleton, List.countP_singleton]
  cases hmove with
  | limit hmissing =>
    simp only [List.countP_cons, pendingCall] at h
    simp only [usableFound, callStarted, hmissing]
    simp only [if_true, Bool.false_eq_true, if_false] at h ⊢
    omega
  | revisit hmissing =>
    simp only [List.countP_cons, pendingCall] at h
    simp only [usableFound, callStarted, hmissing]
    simp only [if_true, Bool.false_eq_true, if_false] at h ⊢
    omega
  | leave =>
    simp only [List.countP_cons, pendingCall] at h
    simp only [usableFound, callStarted]
    simp only [Bool.false_eq_true, if_false] at h ⊢
    omega
  | @expand _ _ rest stack _ _ _ _ _ hmissing _ hstack =>
    have hstack' : stack.countP pendingCall = rest.countP pendingCall := by
      rcases hstack with rfl | ⟨pDos, pNt, aDir, rfl⟩
      · rfl
      · rfl
    simp only [List.countP_cons, pendingCall] at h
    simp only [usableFound, callStarted, hmissing, hstack']
    simp only [if_true, Bool.false_eq_true, if_false] at h ⊢
    omega
  | examine _ heffect =>
    simp only [List.countP_cons, pendingCall] at h
    cases heffect with
    | stop hnot hmissing =>
      simp only [usableFound, callStarted, hmissing, hnot]
      simp only [decide_false, Bool.false_eq_true, if_false] at h ⊢
      omega
    | skip hnot hmissing =>
      simp only [usableFound, callStarted, hmissing, hnot, List.countP_cons, pendingCall]
      simp only [decide_false, Bool.false_eq_true, if_false] at h ⊢
      omega
    | unresolved hfound hmissing =>
      simp only [usableFound, callStarted, hmissing, hfound, List.countP_cons, pendingCall]
      simp only [decide_true, if_true, Bool.false_eq_true, if_false] at h ⊢
      omega
    | call hfound hmissing =>
      simp only [usableFound, callStarted, hmissing, hfound, List.countP_cons, pendingCall]
      simp only [decide_true, if_true, Bool.false_eq_true, if_false] at h ⊢
      omega

/-! ## The bounds along every run -/

variable (m)

/-- What holds in every state of a traversal. -/
structure Bounded (actions : List Action) (c : Config) : Prop where
  /-- the node counter is the number of distinct folded paths in the visited set, at most 512 -/
  nodes : c.state.uNodes = c.state.setVisited.length ∧ c.state.setVisited.Nodup ∧ c.state.uNodes ≤ 512
  /-- the files entered so far are the visited set: no folded path is entered twice -/
  entries : actions.filterMap (entry m) = c.state.setVisited.reverse
  /-- no file is entered at a depth greater than 32 -/
  depth : ∀ strPath uDepth, Action.expand strPath uDepth ∈ actions → uDepth ≤ 32
  /-- the descriptors examined in a file are its first ones, each once, at most 1024 -/
  examined : ∀ strKey, ∃ n ≤ 1024, examinations m strKey actions = List.range n
  /-- every usable name and the root are an unresolved import or a call -/
  accounted : Accounted actions c

variable {m}

theorem walkStart_entered (strRoot : WString) : Entered m [] (walkStart strRoot) where
  nodes := rfl
  nodup := List.nodup_nil
  bound := Nat.zero_le _
  entries := rfl
  depth := fun _ _ h => by cases h

theorem walkStart_inProgress (strRoot : WString) : InProgress m [] (walkStart strRoot) where
  loops := fun _ h => by cases h
  distinct := List.nodup_nil
  fresh := fun _ _ => rfl
  examined := fun _ => ⟨0, Nat.zero_le _, rfl⟩

theorem run_bounded {strRoot : WString} {actions : List Action} {c : Config}
    (h : Machine.Run (walkStep m) (walkStart strRoot) actions c) : Bounded m actions c := by
  have hentered : Entered m actions c :=
    h.invariant (walkStart_entered strRoot) fun hinv hstep => hinv.step (walkStep_move hstep)
  have hprogress : InProgress m actions c :=
    h.invariant (walkStart_inProgress strRoot) fun hinv hstep => hinv.step (walkStep_move hstep)
  have hstart : Accounted [] (walkStart strRoot) := rfl
  have haccounted : Accounted actions c :=
    h.invariant hstart fun hinv hstep => hinv.step (walkStep_move hstep)
  exact ⟨⟨hentered.nodes, hentered.nodup, hentered.bound⟩, hentered.entries, hentered.depth, hprogress.examined,
    haccounted⟩

end Invariants

/-! ## The recursive traversal -/

section Recursive

variable {w : World} {strAppDir : WString}

/-- A first step and a run from where it leads. -/
theorem run_of_step {m : Modules} {c c' c'' : Config} {a : Action} (hstep : walkStep m c = some (a, c'))
    (h : ∃ actions, Machine.Run (walkStep m) c' actions c'') : ∃ actions, Machine.Run (walkStep m) c actions c'' := by
  obtain ⟨actions, hrun⟩ := h
  exact ⟨[a] ++ actions, (Machine.Run.single hstep).trans hrun⟩

/-- The loop of a call, when the calls it makes run to their ends. -/
theorem run_visitLoop {child : WString → TreeState → TreeState} {strPath : WString} {uDepth : Nat}
    (hchild : ∀ strCandidate rest s, ∃ actions, Machine.Run (walkStep (w.modules strAppDir))
      ⟨.call strCandidate (uDepth + 1) :: rest, s⟩ actions ⟨rest, child strCandidate s⟩)
    (pDos : ImageDosHeader) (pNt : ImageNtHeaders64) (aDir : ImageDataDirectory) (rest : List Frame) :
    ∀ (n u : Nat) (s : TreeState), u + n = 1024 → ∃ actions, Machine.Run (walkStep (w.modules strAppDir))
      ⟨.loop strPath uDepth u pDos pNt aDir :: rest, s⟩ actions
      ⟨rest, visitLoop w strAppDir child strPath uDepth (readDescriptor (w.mapFile strPath) pDos pNt aDir) n u s⟩
  | 0, u, s, h => by
    have hstep : walkStep (w.modules strAppDir) ⟨.loop strPath uDepth u pDos pNt aDir :: rest, s⟩ =
        some (.leave strPath, ⟨rest, s⟩) := by
      rw [walkStep, if_neg (by omega)]
    exact ⟨_, .single hstep⟩
  | n + 1, u, s, h => by
    have hnext : ∀ s', ∃ actions, Machine.Run (walkStep (w.modules strAppDir))
        ⟨.loop strPath uDepth (u + 1) pDos pNt aDir :: rest, s'⟩ actions _ := fun s' =>
      run_visitLoop hchild pDos pNt aDir rest n (u + 1) s' (by omega)
    refine run_of_step (by rw [walkStep, if_pos (by omega)]) ?_
    simp only [World.modules]
    rw [visitLoop]
    cases (readDescriptor (w.mapFile strPath) pDos pNt aDir u).val with
    | wrapped => exact ⟨[], .nil⟩
    | malformed => exact ⟨[], .nil⟩
    | last => exact ⟨[], .nil⟩
    | badName => exact hnext _
    | named strImport =>
      simp only [examineDescriptor, importName, visitImport]
      split
      · exact hnext _
      · cases w.resolve strAppDir (strImport.map widen) with
        | none => exact hnext _
        | some resolution =>
          -- the call first, then the rest of the loop
          obtain ⟨actions, hrun⟩ := hchild resolution.2 _ _
          obtain ⟨actions', hrun'⟩ := hnext _
          exact ⟨actions ++ actions', hrun.trans hrun'⟩

/-- The machine runs a call to its end, in the state of the recursive `visit`. -/
theorem run_visit : ∀ (fuel : Nat) (strPath : WString) (uDepth : Nat) (rest : List Frame) (s : TreeState),
    uDepth ≤ 33 → 34 ≤ fuel + uDepth → ∃ actions, Machine.Run (walkStep (w.modules strAppDir))
      ⟨.call strPath uDepth :: rest, s⟩ actions ⟨rest, visit w strAppDir fuel strPath uDepth s⟩
  | 0, _, uDepth, _, _, hdepth, hfuel => by omega
  | fuel + 1, strPath, uDepth, rest, s, hdepth, hfuel => by
    rw [visit]
    split
    · rename_i hlimit
      exact run_of_step (by rw [walkStep, if_pos hlimit]) ⟨[], .nil⟩
    · rename_i hlimit
      have hkey : (w.modules strAppDir).key strPath = w.key strPath := rfl
      split
      · rename_i hseen
        exact run_of_step (by rw [walkStep, if_neg hlimit, if_pos (by rw [hkey]; exact hseen)]) ⟨[], .nil⟩
      · rename_i hnew
        refine run_of_step (by rw [walkStep, if_neg hlimit, if_neg (by rw [hkey]; exact hnew)]) ?_
        rw [hkey]
        unfold openFile visitFile
        simp only [World.modules]
        cases (visitHeader (w.mapFile strPath)).val with
        | error reason =>
          cases reason with
          | dos => exact ⟨[], .nil⟩
          | architectureOrPe => exact ⟨[], .nil⟩
        | ok headers =>
          obtain ⟨pDos, pNt⟩ := headers
          dsimp only
          cases visitDirectory pNt with
          | none => exact ⟨[], .nil⟩
          | some aDir =>
            exact run_visitLoop (fun strCandidate rest s =>
              run_visit fuel strCandidate (uDepth + 1) rest s (by omega) (by omega)) pDos pNt aDir rest 1024 0 _ rfl

theorem run_dependencyTree (w : World) (strAppDir strRoot : WString) :
    ∃ actions, Machine.Run (walkStep (w.modules strAppDir)) (walkStart strRoot) actions
      ⟨[], dependencyTree w strAppDir strRoot⟩ :=
  run_visit visitFuel strRoot 0 [] _ (by decide) (by decide)

end Recursive

/-- The traversal ends on every graph of imports, and keeps its bounds in every state on the way: the limits on
files, depth and descriptors hold, and every usable name is counted as unresolved or leads to one call. It ends in
the state of the recursive traversal. -/
theorem dependencyWalk_bounded (m : Modules) (strRoot : WString) :
    (∃ actions c, Machine.Run (walkStep m) (walkStart strRoot) actions c ∧ c.stack = []) ∧
    (∀ actions c, Machine.Run (walkStep m) (walkStart strRoot) actions c →
      actions.length ≤ 512 * 2049 + 1 ∧ Bounded m actions c ∧
      (c.stack ≠ [] → ∃ a c', walkStep m c = some (a, c')) ∧
      (∀ strPath u found c', walkStep m c = some (.examine strPath u found, c') → found.Usable →
        Unresolved c c' ∨ Called c c') ∧
      (∀ (w : World) (strAppDir : WString), w.modules strAppDir = m → c.stack = [] →
        c.state = dependencyTree w strAppDir strRoot)) := by
  have hwork : ∀ {a c c'}, walkStep m c = some (a, c') → c'.work < c.work := fun hstep => (walkStep_move hstep).work_lt
  constructor
  · obtain ⟨actions, c, hrun, hhalt⟩ := Machine.exists_halt hwork (walkStart strRoot)
    exact ⟨actions, c, hrun, walkStep_none.1 hhalt⟩
  · intro actions c hrun
    refine ⟨?_, run_bounded hrun, ?_, fun strPath u found c' hstep husable => (walkStep_move hstep).usable husable, ?_⟩
    · have hlength := hrun.length_add_measure hwork
      have hstart : (walkStart strRoot).work = 512 * 2049 + 1 := by
        simp [Config.work, walkStart, Frame.work, TreeState.initial, TreeState.print, TreeState.record, Nat.add_comm]
      omega
    · intro hstack
      cases hstep : walkStep m c with
      | none => exact absurd (walkStep_none.1 hstep) hstack
      | some next => exact ⟨next.1, next.2, rfl⟩
    · rintro w strAppDir rfl hstack
      obtain ⟨actions', hrun'⟩ := run_dependencyTree w strAppDir strRoot
      obtain ⟨-, rfl⟩ := hrun.unique (walkStep_none.2 hstack) hrun' rfl
      rfl

end BuildEngine.Probe
