/-
`ReportDependencyTree`: the depth-first traversal of the static imports of a file, over any state of
the file system and of the process that answers its Windows calls (`World`).

`visit` recurses on explicit fuel. The recursion stops at depth 33, so the fuel of
`reportDependencyTree` is never exhausted (`visit_fuel` in `Probe.TreeRun`).
-/
import BuildEngine.Probe.Imports

namespace BuildEngine.Probe

open Base

/-- The answers of Windows to the calls of the traversal. File names are compared without regard to
case, so the content of a file depends on its folded path only. -/
structure World where
  /-- `std::towlower` -/
  towlower : UInt16 → UInt16
  /-- the file that can be opened and mapped under a path -/
  content : WString → Option (List UInt8)
  /-- `GetFileAttributesW` succeeds and the path is not a directory -/
  isFile : WString → Bool
  /-- `GetModuleHandleW` followed by `GetModuleFileNameW`, when both succeed -/
  loaded : WString → Option WString
  /-- `GetSystemDirectoryW`, when it succeeds -/
  systemDirectory : Option WString
  content_fold : ∀ p q : WString, p.map towlower = q.map towlower → content p = content q

namespace World

/-- The key of a path in `setVisited`. -/
def key (w : World) (strPath : WString) : WString := strPath.map w.towlower

/-- The file mapped by `MappedFile const aFile(strPath)`. -/
def mapFile (w : World) (strPath : WString) : MappedFile := .ofFile (w.content strPath)

/-- The file an import name is resolved to, with the kind of the resolution: next to the application,
already loaded, or in the system directory. -/
def resolve (w : World) (strAppDir strName : WString) : Option (String × WString) :=
  if w.isFile (strAppDir ++ strName) then some ("app-local", strAppDir ++ strName)
  else
    match w.loaded strName with
    | some szResolved => some ("already-loaded", szResolved)
    | none =>
      match w.systemDirectory with
      | none => none
      | some szSystem =>
        -- the directory, a backslash and the name
        if w.isFile (szSystem ++ 0x5C :: strName) then some ("System32-candidate", szSystem ++ 0x5C :: strName)
        else none

end World

/-- A `char` assigned to a `wchar_t`: sign-extended. -/
def widen (c : UInt8) : UInt16 := if c < 128 then c.toUInt16 else 0xFF00 + c.toUInt16

/-- The names `Visit` rejects: the empty one, and those with a backslash, a slash or a colon. -/
def rejectedName (strName : WString) : Bool :=
  strName.isEmpty || strName.any fun c => c = 0x5C ∨ c = 0x2F ∨ c = 0x3A

/-- The state shared by the nested calls of `Visit`: `setVisited`, the three counters, and the events so
far, each with the path of the call that caused it. -/
structure TreeState where
  setVisited : List WString
  uMissing : Nat
  uInvalid : Nat
  uNodes : Nat
  log : List (WString × Event)

namespace TreeState

def initial : TreeState := ⟨[], 0, 0, 0, []⟩

/-- Append the events of the call for `strPath`. -/
def record (s : TreeState) (strPath : WString) (events : List Event) : TreeState :=
  { s with log := s.log ++ events.map fun e => (strPath, e) }

def print (s : TreeState) (strPath : WString) (format : String) (args : List Arg) : TreeState :=
  s.record strPath [.wprintf format args]

def invalid (s : TreeState) : TreeState := { s with uInvalid := s.uInvalid + 1 }
def missing (s : TreeState) : TreeState := { s with uMissing := s.uMissing + 1 }

/-- `setVisited.insert(strKey)` of a new key, and `++uNodes`. -/
def enter (s : TreeState) (strKey : WString) : TreeState :=
  { s with setVisited := strKey :: s.setVisited, uNodes := s.uNodes + 1 }

end TreeState

def limitFormat : String := "[LOADER] TREE LIMIT depth=%u nodes=%u\n"
def revisitFormat : String := "[LOADER] TREE REVISIT depth=%u path=%ls\n"
def invalidDosFormat : String := "[LOADER] TREE INVALID depth=%u path=%ls reason=DOS\n"
def invalidPeFormat : String := "[LOADER] TREE INVALID depth=%u path=%ls reason=architecture-or-PE\n"
def invalidTableFormat : String := "[LOADER] TREE INVALID depth=%u path=%ls reason=import-table\n"
def nodeFormat : String := "[LOADER] TREE NODE depth=%u machine=0x%04X subsystem=%u path=%ls\n"
def unresolvedFormat : String :=
  "[LOADER] TREE UNRESOLVED depth=%u import=%ls parent=%ls (API-set or search path not simulated)\n"
def edgeFormat : String := "[LOADER] TREE EDGE depth=%u import=%ls resolution=%ls path=%ls\n"
def beginFormat : String :=
  "[LOADER] TREE BEGIN root=%ls (PE import directory traversal, no DLL loading or initialization)\n"
def summaryFormat : String := "[LOADER] TREE SUMMARY nodes=%u invalid=%u unresolved=%u\n"

section Visit

variable (w : World) (strAppDir : WString)

/-- What `Visit` does with a name it has read: reject it, count it as unresolved, or visit the file it
is resolved to (`child`). -/
def visitImport (child : WString → TreeState → TreeState) (strPath : WString) (uDepth : Nat)
    (strImport : List UInt8) (s : TreeState) : TreeState :=
  let strName := strImport.map widen
  if rejectedName strName then s.invalid
  else
    match w.resolve strAppDir strName with
    | none =>
      (s.print strPath unresolvedFormat [.num (uDepth + 1), .wide strName, .wide strPath]).missing
    | some (szKind, strCandidate) =>
      child strCandidate
        (s.print strPath edgeFormat [.num (uDepth + 1), .wide strName, .text szKind, .wide strCandidate])

/-- The descriptor loop of `Visit`: `n` iterations from index `u` on. -/
def visitLoop (child : WString → TreeState → TreeState) (strPath : WString) (uDepth : Nat)
    (read : Nat → Probing Descriptor) : Nat → Nat → TreeState → TreeState
  | 0, _, s => s
  | n + 1, u, s =>
    let s := s.record strPath (read u).log
    match (read u).val with
    | .wrapped => s
    | .malformed => s.invalid.print strPath invalidTableFormat [.num uDepth, .wide strPath]
    | .last => s
    | .badName => visitLoop child strPath uDepth read n (u + 1) s.invalid
    | .named strImport =>
      visitLoop child strPath uDepth read n (u + 1)
        (visitImport w strAppDir child strPath uDepth strImport s)

/-- The part of `Visit` below `++uNodes`: test the headers, then walk the import directory. -/
def visitFile (child : WString → TreeState → TreeState) (strPath : WString) (uDepth : Nat) (s : TreeState) :
    TreeState :=
  let aFile := w.mapFile strPath
  let s := s.record strPath (visitHeader aFile).log
  match (visitHeader aFile).val with
  | .error .dos => s.invalid.print strPath invalidDosFormat [.num uDepth, .wide strPath]
  | .error .architectureOrPe => s.invalid.print strPath invalidPeFormat [.num uDepth, .wide strPath]
  | .ok (pDos, pNt) =>
    let s := s.print strPath nodeFormat [.num uDepth, .num pNt.fileHeader.machine,
      .num pNt.optionalHeader.subsystem, .wide strPath]
    match visitDirectory pNt with
    | none => s
    | some aDir => visitLoop w strAppDir child strPath uDepth (readDescriptor aFile pDos pNt aDir) 1024 0 s

/-- `Visit(strPath, uDepth)`. -/
def visit : Nat → WString → Nat → TreeState → TreeState
  | 0, _, _, s => s
  | fuel + 1, strPath, uDepth, s =>
    if uDepth > 32 ∨ s.uNodes ≥ 512 then
      s.print strPath limitFormat [.num uDepth, .num s.uNodes]
    else if w.key strPath ∈ s.setVisited then
      s.print strPath revisitFormat [.num uDepth, .wide strPath]
    else
      visitFile w strAppDir (fun strCandidate s => visit fuel strCandidate (uDepth + 1) s) strPath uDepth
        (s.enter (w.key strPath))

/-- Enough fuel for a traversal from depth 0. -/
def visitFuel : Nat := 34

/-- The traversal of `ReportDependencyTree`, from `TREE BEGIN` to the end of `Visit(strRoot, 0U)`. -/
def dependencyTree (strRoot : WString) : TreeState :=
  visit w strAppDir visitFuel strRoot 0 (TreeState.initial.print strRoot beginFormat [.wide strRoot])

/-- `ReportDependencyTree`. -/
def reportDependencyTree (strRoot : WString) : TreeState :=
  let s := dependencyTree w strAppDir strRoot
  s.print strRoot summaryFormat [.num s.uNodes, .num s.uInvalid, .num s.uMissing]

end Visit

/-! ## What is recorded -/

/-- Every event of the log satisfies `P`, together with the path of the call that caused it. -/
def TreeState.All (P : WString → Event → Prop) (s : TreeState) : Prop := ∀ e ∈ s.log, P e.1 e.2

/-- `P` holds of the lines printed, and of what `Visit` does on any file: the header tests, and the descriptors
of the import directory. -/
structure Recorded (w : World) (P : WString → Event → Prop) : Prop where
  printed : ∀ strPath format args, P strPath (.wprintf format args)
  header : ∀ strPath, (visitHeader (w.mapFile strPath)).All (P strPath)
  descriptor : ∀ strPath pDos pNt aDir, (visitHeader (w.mapFile strPath)).val = .ok (pDos, pNt) →
    visitDirectory pNt = some aDir → ∀ u < 1024, (readDescriptor (w.mapFile strPath) pDos pNt aDir u).All (P strPath)

section Recording

variable {w : World} {strAppDir : WString} {P : WString → Event → Prop}

theorem TreeState.All.record {s : TreeState} {strPath : WString} {events : List Event} (h : s.All P)
    (he : ∀ e ∈ events, P strPath e) : (s.record strPath events).All P := by
  intro e hm
  rcases List.mem_append.1 hm with hm | hm
  · exact h e hm
  · obtain ⟨e', he', rfl⟩ := List.mem_map.1 hm
    exact he e' he'

theorem Recorded.print (hP : Recorded w P) {s : TreeState} {strPath : WString} {format : String} {args : List Arg}
    (h : s.All P) : (s.print strPath format args).All P :=
  h.record fun e he => by rw [List.mem_singleton.1 he]; exact hP.printed ..

theorem Recorded.visitImport (hP : Recorded w P) {child : WString → TreeState → TreeState}
    (hc : ∀ p s, s.All P → (child p s).All P) {strPath : WString} {uDepth : Nat} {strImport : List UInt8}
    {s : TreeState} (h : s.All P) : (visitImport w strAppDir child strPath uDepth strImport s).All P := by
  unfold BuildEngine.Probe.visitImport
  dsimp only
  split
  · exact h
  · split
    · exact hP.print h
    · exact hc _ _ (hP.print h)

theorem Recorded.visitLoop (hP : Recorded w P) {child : WString → TreeState → TreeState}
    (hc : ∀ p s, s.All P → (child p s).All P) {strPath : WString} {uDepth : Nat} {read : Nat → Probing Descriptor} :
    ∀ (n u : Nat) (s : TreeState), (∀ i < u + n, (read i).All (P strPath)) → s.All P →
      (visitLoop w strAppDir child strPath uDepth read n u s).All P
  | 0, _, _, _, h => h
  | n + 1, u, s, hr, h => by
    have hs := h.record (hr u (by omega))
    have hr' : ∀ i < u + 1 + n, (read i).All (P strPath) := fun i hi => hr i (by omega)
    rw [BuildEngine.Probe.visitLoop]
    split
    · exact hs
    · exact hP.print hs
    · exact hs
    · exact hP.visitLoop hc n (u + 1) _ hr' hs
    · exact hP.visitLoop hc n (u + 1) _ hr' (hP.visitImport hc hs)

theorem Recorded.visit (hP : Recorded w P) : ∀ (fuel : Nat) (strPath : WString) (uDepth : Nat) (s : TreeState),
    s.All P → (visit w strAppDir fuel strPath uDepth s).All P
  | 0, _, _, _, h => h
  | fuel + 1, strPath, uDepth, s, h => by
    rw [BuildEngine.Probe.visit]
    split
    · exact hP.print h
    · split
      · exact hP.print h
      · have hs : ((s.enter (w.key strPath)).record strPath (visitHeader (w.mapFile strPath)).log).All P :=
          TreeState.All.record h (hP.header strPath)
        unfold visitFile
        dsimp only
        split
        · exact hP.print hs
        · exact hP.print hs
        · rename_i pDos pNt hheader
          split
          · exact hP.print hs
          · rename_i aDir hdir
            exact hP.visitLoop (fun p s hs => hP.visit fuel p (uDepth + 1) s hs) 1024 0 _
              (fun i hi => hP.descriptor strPath pDos pNt aDir hheader hdir i (by omega)) (hP.print hs)

/-- What holds of the lines and of what `Visit` does on any file holds of every event of the traversal. -/
theorem Recorded.reportDependencyTree (hP : Recorded w P) (strRoot : WString) :
    (reportDependencyTree w strAppDir strRoot).All P := by
  have h0 : TreeState.initial.All P := fun e he => by cases he
  exact hP.print (hP.visit visitFuel strRoot 0 _ (hP.print h0))

end Recording

end BuildEngine.Probe
