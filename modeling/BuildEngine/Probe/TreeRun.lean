/-
Runs of `Visit`: the fuel of the model is never exhausted (`visit_fuel`), a call that enters a file reads
exactly the names of `visitImports` from it (`visit_reads`), and the traversal is the bounded depth-first
search of `Base.Search` over the resolved imports (`dependencyTree_refines`).
-/
import BuildEngine.Base.Search
import BuildEngine.Probe.Enumerate

namespace BuildEngine.Probe

open Base

/-! ## Fuel -/

section Fuel

variable {w : World} {strAppDir : WString}

/-- From depth `uDepth` the calls nest at most `33 - uDepth` levels deep. -/
theorem visit_fuel : ∀ (fuel fuel' : Nat) (strPath : WString) (uDepth : Nat) (s : TreeState),
    uDepth ≤ 33 → 34 ≤ fuel + uDepth → 34 ≤ fuel' + uDepth →
    visit w strAppDir fuel strPath uDepth s = visit w strAppDir fuel' strPath uDepth s
  | 0, _, _, uDepth, _, h, hf, _ => by omega
  | _, 0, _, uDepth, _, h, _, hf => by omega
  | fuel + 1, fuel' + 1, strPath, uDepth, s, h, hf, hf' => by
    rw [visit, visit]
    split
    · rfl
    · rename_i hlimit
      split
      · rfl
      · have hchild : (fun strCandidate s => visit w strAppDir fuel strCandidate (uDepth + 1) s) =
            fun strCandidate s => visit w strAppDir fuel' strCandidate (uDepth + 1) s := by
          funext strCandidate s
          exact visit_fuel fuel fuel' strCandidate (uDepth + 1) s (by omega) (by omega) (by omega)
        rw [hchild]

theorem dependencyTree_fuel (strRoot : WString) {fuel : Nat} (h : visitFuel ≤ fuel) :
    visit w strAppDir fuel strRoot 0 (TreeState.initial.print strRoot beginFormat [.wide strRoot]) =
      dependencyTree w strAppDir strRoot :=
  visit_fuel fuel visitFuel strRoot 0 _ (by omega) h (by decide)

end Fuel

/-! ## The names a call reads -/

/-- The string an event reads. -/
def readName : Event → Option (List UInt8)
  | .cstring _ s => some s
  | _ => none

/-- The names read from the file with key `strKey`, in order. -/
def namesRead (w : World) (strKey : WString) (log : List (WString × Event)) : List (List UInt8) :=
  log.filterMap fun e => if w.key e.1 = strKey then readName e.2 else none

section Reads

variable (w : World) (strAppDir strKey : WString)

theorem namesRead_record (s : TreeState) (strPath : WString) (events : List Event) :
    namesRead w strKey (s.record strPath events).log =
      namesRead w strKey s.log ++ if w.key strPath = strKey then events.filterMap readName else [] := by
  unfold namesRead TreeState.record
  rw [List.filterMap_append, List.filterMap_map]
  congr 1
  split
  · rename_i h
    exact List.filterMap_congr fun e _ => by simp [h]
  · rename_i h
    exact List.filterMap_eq_nil_iff.2 fun e _ => by simp [h]

@[simp] theorem namesRead_print (s : TreeState) (strPath : WString) (format : String) (args : List Arg) :
    namesRead w strKey (s.print strPath format args).log = namesRead w strKey s.log := by
  rw [TreeState.print, namesRead_record]
  split
  · simp [readName]
  · exact List.append_nil _

theorem readNames_of_all {α : Type} {m : Probing α} (h : m.All fun e => readName e = none) :
    m.log.filterMap readName = [] := List.filterMap_eq_nil_iff.2 h

theorem readNames_visitHeader (f : MappedFile) : (visitHeader f).log.filterMap readName = [] :=
  readNames_of_all (visitHeader_all fun _ _ _ => rfl)

/-- A descriptor reads the name it yields and nothing else. -/
theorem readNames_readDescriptor (f : MappedFile) (pDos : ImageDosHeader) (pNt : ImageNtHeaders64)
    (aDir : ImageDataDirectory) (u : Nat) :
    (readDescriptor f pDos pNt aDir u).log.filterMap readName =
      match (readDescriptor f pDos pNt aDir u).val with
      | .named strImport => [strImport]
      | _ => [] := by
  have hto : ∀ address need, (toOffset f pDos pNt address need).log.filterMap readName = [] :=
    fun address need => readNames_of_all (toOffset_all (fun _ _ => rfl) rfl)
  have hat : ∀ pos, (f.atOffset imageImportDescriptor pos).log.filterMap readName = [] :=
    fun pos => readNames_of_all (atOffset_all fun _ => rfl)
  unfold readDescriptor
  dsimp only
  split
  · rfl
  · rw [Traced.log_bind, Traced.val_bind, List.filterMap_append, hto, List.nil_append, Traced.log_bind,
      Traced.val_bind, List.filterMap_append, hat, List.nil_append]
    split
    · rfl
    · split
      · rfl
      · rw [Traced.log_bind, Traced.val_bind, List.filterMap_append, hto, List.nil_append]
        split
        · rfl
        · rw [Traced.log_bind, Traced.val_bind, List.filterMap_append]
          split
          · rfl
          · rfl

/-- A call of `Visit` on another file: it leaves `strKey` visited and reads nothing from the file with
that key. -/
def Foreign (child : TreeState → TreeState) : Prop :=
  ∀ s, strKey ∈ s.setVisited → strKey ∈ (child s).setVisited ∧
    namesRead w strKey (child s).log = namesRead w strKey s.log

variable {w strKey}

theorem visitImport_foreign {child : WString → TreeState → TreeState}
    (hc : ∀ p, Foreign w strKey (child p)) (strPath : WString) (uDepth : Nat) (strImport : List UInt8) :
    Foreign w strKey (visitImport w strAppDir child strPath uDepth strImport) := by
  intro s hs
  unfold visitImport
  dsimp only
  split
  · exact ⟨hs, rfl⟩
  · split
    · exact ⟨hs, namesRead_print _ _ _ _ _ _⟩
    · obtain ⟨h1, h2⟩ := hc _ (s.print strPath edgeFormat _) hs
      exact ⟨h1, by rw [h2, namesRead_print]⟩

/-- The loop of a call reads the names of its walk from its own file. -/
theorem visitLoop_reads {child : WString → TreeState → TreeState}
    (hc : ∀ p, Foreign w strKey (child p)) (strPath : WString) (uDepth : Nat) {read : Nat → Probing Descriptor}
    (hread : ∀ u, (read u).log.filterMap readName =
      match (read u).val with
      | .named strImport => [strImport]
      | _ => []) :
    ∀ (n u : Nat) (s : TreeState), strKey ∈ s.setVisited →
      strKey ∈ (visitLoop w strAppDir child strPath uDepth read n u s).setVisited ∧
      namesRead w strKey (visitLoop w strAppDir child strPath uDepth read n u s).log =
        namesRead w strKey s.log ++
          if w.key strPath = strKey then (importsFrom (fun i => (read i).val) n u).map Prod.snd else []
  | 0, _, s, hs => by
    refine ⟨hs, ?_⟩
    rw [visitLoop, importsFrom, List.map_nil, ite_self, List.append_nil]
  | n + 1, u, s, hs => by
    have hrec := namesRead_record w strKey s strPath (read u).log
    rw [hread] at hrec
    have hstop : namesRead w strKey s.log ++ (if w.key strPath = strKey then [] else []) =
        namesRead w strKey s.log := by rw [ite_self, List.append_nil]
    rw [visitLoop, importsFrom]
    cases hval : (read u).val with
    | wrapped =>
      rw [hval] at hrec
      exact ⟨hs, hrec⟩
    | malformed =>
      rw [hval] at hrec
      refine ⟨hs, ?_⟩
      rw [namesRead_print]
      exact hrec
    | last =>
      rw [hval] at hrec
      exact ⟨hs, hrec⟩
    | badName =>
      rw [hval] at hrec
      obtain ⟨h1, h2⟩ := visitLoop_reads hc strPath uDepth hread n (u + 1) ((s.record strPath (read u).log).invalid) hs
      refine ⟨h1, ?_⟩
      rw [h2]
      show namesRead w strKey (s.record strPath (read u).log).log ++ _ = _
      rw [hrec, hstop]
    | named strImport =>
      rw [hval] at hrec
      obtain ⟨h1, h2⟩ := visitImport_foreign strAppDir hc strPath uDepth strImport
        (s.record strPath (read u).log) hs
      obtain ⟨h3, h4⟩ := visitLoop_reads hc strPath uDepth hread n (u + 1) _ h1
      refine ⟨h3, ?_⟩
      rw [h4, h2, hrec, List.append_assoc]
      congr 1
      split
      · rfl
      · rfl

/-- A call of `Visit` on a file that was entered before reads nothing from it; no call reads from a file
with another key. -/
theorem visit_foreign : ∀ (fuel : Nat) (strPath : WString) (uDepth : Nat),
    Foreign w strKey (visit w strAppDir fuel strPath uDepth)
  | 0, _, _, s, hs => ⟨hs, rfl⟩
  | fuel + 1, strPath, uDepth, s, hs => by
    rw [visit]
    split
    · exact ⟨hs, namesRead_print _ _ _ _ _ _⟩
    · split
      · exact ⟨hs, namesRead_print _ _ _ _ _ _⟩
      · rename_i hnew
        have hkey : w.key strPath ≠ strKey := fun h => hnew (h ▸ hs)
        have hrec := namesRead_record w strKey (s.enter (w.key strPath)) strPath
          (visitHeader (w.mapFile strPath)).log
        rw [if_neg hkey, List.append_nil] at hrec
        have hmem : strKey ∈ (s.enter (w.key strPath)).setVisited := List.mem_cons_of_mem _ hs
        unfold visitFile
        dsimp only
        split
        · exact ⟨hmem, by rw [namesRead_print]; exact hrec⟩
        · exact ⟨hmem, by rw [namesRead_print]; exact hrec⟩
        · rename_i pDos pNt _
          split
          · exact ⟨hmem, by rw [namesRead_print]; exact hrec⟩
          · rename_i aDir _
            obtain ⟨h1, h2⟩ := visitLoop_reads strAppDir (fun p => visit_foreign fuel p (uDepth + 1)) strPath uDepth
              (readNames_readDescriptor (w.mapFile strPath) pDos pNt aDir) 1024 0
              (TreeState.print ((s.enter (w.key strPath)).record strPath (visitHeader (w.mapFile strPath)).log)
                strPath nodeFormat [.num uDepth, .num pNt.fileHeader.machine, .num pNt.optionalHeader.subsystem,
                  .wide strPath]) hmem
            exact ⟨h1, by rw [h2, if_neg hkey, List.append_nil, namesRead_print]; exact hrec⟩

/-- A call of `Visit` that enters a file reads the names of `visitImports` from it; the calls nested in it
read no other. -/
theorem visit_reads (fuel : Nat) (strPath : WString) (uDepth : Nat) (s : TreeState)
    (hlimit : ¬ (uDepth > 32 ∨ s.uNodes ≥ 512)) (hnew : w.key strPath ∉ s.setVisited) :
    namesRead w (w.key strPath) (visit w strAppDir (fuel + 1) strPath uDepth s).log =
      namesRead w (w.key strPath) s.log ++ (visitImports (w.mapFile strPath)).map Prod.snd := by
  have hrec := namesRead_record w (w.key strPath) (s.enter (w.key strPath)) strPath
    (visitHeader (w.mapFile strPath)).log
  rw [readNames_visitHeader, ite_self, List.append_nil] at hrec
  rw [visit, if_neg hlimit, if_neg hnew]
  unfold visitFile visitImports
  dsimp only
  split
  · rename_i h
    rw [namesRead_print, h]
    exact hrec.trans (List.append_nil _).symm
  · rename_i h
    rw [namesRead_print, h]
    exact hrec.trans (List.append_nil _).symm
  · rename_i pDos pNt h
    rw [h]
    dsimp only
    cases hdir : visitDirectory pNt with
    | none =>
      dsimp only
      rw [namesRead_print]
      exact hrec.trans (List.append_nil _).symm
    | some aDir =>
      obtain ⟨-, h2⟩ := visitLoop_reads strAppDir (fun p => visit_foreign strAppDir fuel p (uDepth + 1)) strPath uDepth
        (readNames_readDescriptor (w.mapFile strPath) pDos pNt aDir) 1024 0
        (((s.enter (w.key strPath)).record strPath (visitHeader (w.mapFile strPath)).log).print strPath nodeFormat
          [.num uDepth, .num pNt.fileHeader.machine, .num pNt.optionalHeader.subsystem, .wide strPath])
        (List.mem_cons_self ..)
      dsimp only
      rw [h2, if_pos rfl, namesRead_print]
      exact congrArg (· ++ _) hrec

end Reads

/-! ## The search behind the traversal -/

namespace World

variable (w : World) (strAppDir : WString)

/-- The file `Visit` goes on to from an import name: none when the name is rejected or not resolved. -/
def candidate (strImport : List UInt8) : Option WString :=
  if rejectedName (strImport.map widen) then none
  else (w.resolve strAppDir (strImport.map widen)).map Prod.snd

/-- The resolvable import edges of a file, in the order of its descriptors. -/
def imports (strPath : WString) : List WString :=
  (visitImports (w.mapFile strPath)).filterMap fun p => w.candidate strAppDir p.2

/-- Paths of one key have the same imports. -/
theorem imports_key (p q : WString) (h : w.key p = w.key q) : w.imports strAppDir p = w.imports strAppDir q := by
  unfold imports mapFile
  rw [w.content_fold p q h]

end World

/-- The depth at which a line reports the file with the key of `strPath` as expanded: as a `TREE NODE`, or
as counted invalid by its headers. -/
def expansionDepth (w : World) (strPath : WString) : WString × Event → Option Nat
  | (p, .wprintf format (.num uDepth :: _)) =>
    if w.key p = w.key strPath ∧ (format = nodeFormat ∨ format = invalidDosFormat ∨ format = invalidPeFormat) then
      some uDepth
    else none
  | _ => none

/-- The depths at which a file was expanded. -/
def expansions (w : World) (strPath : WString) (log : List (WString × Event)) : List Nat :=
  log.filterMap (expansionDepth w strPath)

/-- A `TREE LIMIT` line at `uDepth` for a call on `strPath`. -/
def LimitReported (log : List (WString × Event)) (strPath : WString) (uDepth : Nat) : Prop :=
  ∃ uNodes, (strPath, Event.wprintf limitFormat [.num uDepth, .num uNodes]) ∈ log

/-- The state of the traversal against the state of the search: the same keys are entered, every entered
file has been reported, and every call cut off has printed its line. -/
structure Refines (w : World) (s : TreeState) (a : Search.State WString) : Prop where
  visited : s.setVisited = a.keys w.key
  nodes : s.uNodes = a.entered.length
  entered : ∀ x ∈ a.entered, x.2 ∈ expansions w x.1 s.log
  cut : ∀ x ∈ a.cut, LimitReported s.log x.1 x.2

/-- Nothing in the log reports a file as expanded. -/
def Silent (w : World) (log : List (WString × Event)) : Prop := ∀ strPath, expansions w strPath log = []

/-- The relations between a traversal and a search that the steps of `Visit` keep: a step that prints or counts, one
that is cut off, and one that enters a file. -/
structure Simulation (w : World) (R : TreeState → Search.State WString → Prop) : Prop where
  visited : ∀ {s : TreeState} {a : Search.State WString}, R s a → s.setVisited = a.keys w.key
  nodes : ∀ {s : TreeState} {a : Search.State WString}, R s a → s.uNodes = a.entered.length
  grow : ∀ {s s' : TreeState} {a : Search.State WString} {log : List (WString × Event)}, R s a →
    s'.setVisited = s.setVisited → s'.uNodes = s.uNodes → s'.log = s.log ++ log → Silent w log → R s' a
  cutOff : ∀ {s : TreeState} {a : Search.State WString} (strPath : WString) (uDepth : Nat), R s a →
    R (s.print strPath limitFormat [.num uDepth, .num s.uNodes]) (a.cutOff strPath uDepth)
  enter : ∀ {s s' : TreeState} {a : Search.State WString} {log : List (WString × Event)} (strPath : WString)
    (uDepth : Nat) (format : String) (args : List Arg), R s a →
    (format = nodeFormat ∨ format = invalidDosFormat ∨ format = invalidPeFormat) →
    s'.setVisited = w.key strPath :: s.setVisited → s'.uNodes = s.uNodes + 1 → s'.log = s.log ++ log → Silent w log →
    R (s'.print strPath format (.num uDepth :: args)) (a.enter strPath uDepth)

/-! ### Silent steps -/

section Silent

variable {w : World}

theorem silent_nil : Silent w [] := fun _ => rfl

/-- Reading a file reports none. -/
theorem silent_events {strPath : WString} {events : List Event} (h : ∀ e ∈ events, ∀ format args, e ≠ .wprintf format args) :
    Silent w (events.map fun e => (strPath, e)) := by
  intro q
  rw [expansions, List.filterMap_map, List.filterMap_eq_nil_iff]
  intro e he
  cases e with
  | wprintf format args => exact absurd rfl (h _ he format args)
  | deref => rfl
  | translated => rfl
  | memchr => rfl
  | cstring => rfl

theorem silent_visitHeader (f : MappedFile) (strPath : WString) :
    Silent w ((visitHeader f).log.map fun e => (strPath, e)) :=
  silent_events (visitHeader_all fun _ _ _ _ _ h => by cases h)

theorem silent_readDescriptor (f : MappedFile) (pDos : ImageDosHeader) (pNt : ImageNtHeaders64) (aDir : ImageDataDirectory)
    (u : Nat) (strPath : WString) : Silent w ((readDescriptor f pDos pNt aDir u).log.map fun e => (strPath, e)) := by
  refine silent_events (readDescriptor_all (fun _ _ _ _ _ h => by cases h) ?_ ?_ ?_ ?_)
  · exact fun _ _ _ _ _ h => by cases h
  · exact fun _ _ _ h => by cases h
  · exact fun _ _ _ _ h => by cases h
  · exact fun _ _ _ _ h => by cases h

/-- Only three of the lines report a file. -/
theorem silent_print (strPath : WString) {format : String} (args : List Arg)
    (h : format ≠ nodeFormat ∧ format ≠ invalidDosFormat ∧ format ≠ invalidPeFormat) :
    Silent w [(strPath, .wprintf format args)] := by
  obtain ⟨hnode, hdos, hpe⟩ := h
  intro q
  rw [expansions, List.filterMap_cons_none, List.filterMap_nil]
  unfold expansionDepth
  split
  · rename_i heq
    cases heq
    simp only [hnode, hdos, hpe, or_self, and_false, if_false]
  · rfl

end Silent

section Refinement

variable {w : World} {strAppDir : WString}

theorem expansions_mono {strPath : WString} {log log' : List (WString × Event)} (h : log ⊆ log') :
    expansions w strPath log ⊆ expansions w strPath log' := by
  intro d hd
  obtain ⟨e, he, hed⟩ := List.mem_filterMap.1 hd
  exact List.mem_filterMap.2 ⟨e, h he, hed⟩

theorem record_subset (s : TreeState) (strPath : WString) (events : List Event) :
    s.log ⊆ (s.record strPath events).log := List.subset_append_left ..

section Simulation

variable {R : TreeState → Search.State WString → Prop} (hR : Simulation w R) {child : WString → TreeState → TreeState}
  {search : WString → Search.State WString → Search.State WString}
include hR

theorem Simulation.print {s : TreeState} {a : Search.State WString} (h : R s a) (strPath : WString) {format : String}
    (args : List Arg) (hformat : format ≠ nodeFormat ∧ format ≠ invalidDosFormat ∧ format ≠ invalidPeFormat) :
    R (s.print strPath format args) a := hR.grow h rfl rfl rfl (silent_print strPath args hformat)

theorem Simulation.count {s s' : TreeState} {a : Search.State WString} (h : R s a) (hv : s'.setVisited = s.setVisited)
    (hn : s'.uNodes = s.uNodes) (hl : s'.log = s.log) : R s' a :=
  hR.grow h hv hn (hl.trans (List.append_nil _).symm) silent_nil

variable (strAppDir) in
theorem Simulation.visitImport (hc : ∀ p s a, R s a → R (child p s) (search p a))
    (strPath : WString) (uDepth : Nat) (strImport : List UInt8) {s : TreeState} {a : Search.State WString} (h : R s a) :
    R (visitImport w strAppDir child strPath uDepth strImport s)
      ((w.candidate strAppDir strImport).toList.foldl (fun a c => search c a) a) := by
  unfold BuildEngine.Probe.visitImport World.candidate
  dsimp only
  split
  · exact hR.count h rfl rfl rfl
  · cases w.resolve strAppDir (strImport.map widen) with
    | none => exact hR.count (hR.print h strPath _ (by decide)) rfl rfl rfl
    | some r => exact hc _ _ _ (hR.print h strPath _ (by decide))

/-- The descriptor loop searches from the imports it reads, in their order. -/
theorem Simulation.visitLoop (hc : ∀ p s a, R s a → R (child p s) (search p a)) (strPath : WString) (uDepth : Nat)
    {read : Nat → Probing Descriptor} (hread : ∀ u, Silent w ((read u).log.map fun e => (strPath, e))) :
    ∀ (n u : Nat) (s : TreeState) (a : Search.State WString), R s a →
      R (visitLoop w strAppDir child strPath uDepth read n u s)
        (((importsFrom (fun i => (read i).val) n u).filterMap fun p => w.candidate strAppDir p.2).foldl
          (fun a c => search c a) a)
  | 0, _, _, _, h => h
  | n + 1, u, s, a, h => by
    have hrec : R (s.record strPath (read u).log) a := hR.grow h rfl rfl rfl (hread u)
    have hinvalid : R (s.record strPath (read u).log).invalid a := hR.count hrec rfl rfl rfl
    rw [BuildEngine.Probe.visitLoop, importsFrom]
    cases (read u).val with
    | wrapped => exact hrec
    | malformed =>
      have hline : invalidTableFormat ≠ nodeFormat ∧ invalidTableFormat ≠ invalidDosFormat ∧
        invalidTableFormat ≠ invalidPeFormat := by decide
      exact hR.print hinvalid strPath [.num uDepth, .wide strPath] hline
    | last => exact hrec
    | badName => exact Simulation.visitLoop hc strPath uDepth hread n (u + 1) _ a hinvalid
    | named strImport =>
      have hi := hR.visitImport strAppDir hc strPath uDepth strImport hrec
      have hl := Simulation.visitLoop hc strPath uDepth hread n (u + 1) _ _ hi
      rw [← List.foldl_append] at hl
      have hcons : ((u, strImport) :: importsFrom (fun i => (read i).val) n (u + 1)).filterMap
            (fun p => w.candidate strAppDir p.2) =
          (w.candidate strAppDir strImport).toList ++
            (importsFrom (fun i => (read i).val) n (u + 1)).filterMap fun p => w.candidate strAppDir p.2 := by
        rw [List.filterMap_cons]
        cases w.candidate strAppDir strImport with
        | none => rfl
        | some c => rfl
      rw [← hcons] at hl
      exact hl

theorem Simulation.visit : ∀ (left : Nat) (strPath : WString) (uDepth : Nat) (s : TreeState)
    (a : Search.State WString), uDepth + left = 33 → R s a →
    R (visit w strAppDir (left + 1) strPath uDepth s)
      (Search.dfs w.key (w.imports strAppDir) 512 left strPath uDepth a)
  | 0, strPath, uDepth, s, a, hd, h => by
    rw [BuildEngine.Probe.visit, if_pos (.inl (by omega)), Search.dfs]
    exact hR.cutOff strPath uDepth h
  | left + 1, strPath, uDepth, s, a, hd, h => by
    rw [BuildEngine.Probe.visit, Search.dfs, ← hR.nodes h, ← hR.visited h]
    by_cases hfull : s.uNodes ≥ 512
    · rw [if_pos (.inr hfull), if_pos hfull]
      exact hR.cutOff strPath uDepth h
    · rw [if_neg (by omega), if_neg hfull]
      by_cases hseen : w.key strPath ∈ s.setVisited
      · rw [if_pos hseen, if_pos hseen]
        exact hR.print h strPath _ (by decide)
      · rw [if_neg hseen, if_neg hseen]
        have hheader := silent_visitHeader (w := w) (w.mapFile strPath) strPath
        unfold visitFile World.imports visitImports
        dsimp only
        split
        · rename_i hh
          rw [hh]
          exact hR.enter strPath uDepth _ _ h (.inr (.inl rfl)) rfl rfl rfl hheader
        · rename_i hh
          rw [hh]
          exact hR.enter strPath uDepth _ _ h (.inr (.inr rfl)) rfl rfl rfl hheader
        · rename_i pDos pNt hh
          rw [hh]
          have hnode : R (((s.enter (w.key strPath)).record strPath (visitHeader (w.mapFile strPath)).log).print strPath
              nodeFormat [.num uDepth, .num pNt.fileHeader.machine, .num pNt.optionalHeader.subsystem, .wide strPath])
              (a.enter strPath uDepth) :=
            hR.enter strPath uDepth nodeFormat _ h (.inl rfl) rfl rfl rfl hheader
          dsimp only
          cases visitDirectory pNt with
          | none => exact hnode
          | some aDir =>
            exact hR.visitLoop (fun p s a hs => Simulation.visit left p (uDepth + 1) s a (by omega) hs)
              strPath uDepth (fun u => silent_readDescriptor _ pDos pNt aDir u strPath) 1024 0 _ _ hnode

/-- The traversal of `ReportDependencyTree` is the search with 32 levels below the root and 512 nodes. -/
theorem Simulation.dependencyTree (strRoot : WString)
    (h : R (TreeState.initial.print strRoot beginFormat [.wide strRoot]) .empty) :
    R (dependencyTree w strAppDir strRoot) (Search.search w.key (w.imports strAppDir) 512 32 strRoot) :=
  hR.visit 33 strRoot 0 _ _ rfl h

end Simulation

theorem refines_simulation (w : World) : Simulation w (Refines w) where
  visited h := h.visited
  nodes h := h.nodes
  grow := by
    intro s s' a log h hv hn hl _
    have hsub : s.log ⊆ s'.log := by
      rw [hl]
      exact List.subset_append_left ..
    refine ⟨hv.trans h.visited, hn.trans h.nodes, fun x hx => expansions_mono hsub (h.entered x hx), fun x hx => ?_⟩
    obtain ⟨uNodes, hline⟩ := h.cut x hx
    exact ⟨uNodes, hsub hline⟩
  cutOff := by
    intro s a strPath uDepth h
    refine ⟨h.visited, h.nodes, fun x hx => expansions_mono (record_subset ..) (h.entered x hx), fun x hx => ?_⟩
    rcases List.mem_cons.1 hx with rfl | hx
    · exact ⟨s.uNodes, List.mem_append_right _ (List.mem_singleton_self _)⟩
    · obtain ⟨uNodes, hline⟩ := h.cut x hx
      exact ⟨uNodes, List.mem_append_left _ hline⟩
  enter := by
    intro s s' a log strPath uDepth format args h hformat hv hn hl _
    have hsub : s.log ⊆ s'.log := by
      rw [hl]
      exact List.subset_append_left ..
    refine ⟨?_, ?_, fun x hx => ?_, fun x hx => ?_⟩
    · show s'.setVisited = _
      rw [hv, h.visited]
      rfl
    · show s'.uNodes = _
      rw [hn, h.nodes]
      rfl
    · rcases List.mem_cons.1 hx with rfl | hx
      · refine List.mem_filterMap.2 ⟨_, List.mem_append_right _ (List.mem_singleton_self _), ?_⟩
        exact if_pos ⟨rfl, hformat⟩
      · exact expansions_mono (List.Subset.trans hsub (record_subset ..)) (h.entered x hx)
    · obtain ⟨uNodes, hline⟩ := h.cut x hx
      exact ⟨uNodes, List.mem_append_left _ (hsub hline)⟩

theorem dependencyTree_refines (w : World) (strAppDir strRoot : WString) :
    Refines w (dependencyTree w strAppDir strRoot) (Search.search w.key (w.imports strAppDir) 512 32 strRoot) := by
  refine (refines_simulation w).dependencyTree strRoot ⟨rfl, rfl, ?_, ?_⟩
  · intro x hx; cases hx
  · intro x hx; cases hx

/-- The depths at which the search has entered files of the key of `strPath`, the first one first. -/
def enteredDepths (w : World) (strPath : WString) (a : Search.State WString) : List Nat :=
  ((a.entered.filter fun x => w.key x.1 = w.key strPath).map Prod.snd).reverse

/-- Each file that is entered is reported once, at its depth, and no other one is. -/
structure Reports (w : World) (s : TreeState) (a : Search.State WString) : Prop where
  visited : s.setVisited = a.keys w.key
  nodes : s.uNodes = a.entered.length
  expansions : ∀ strPath, expansions w strPath s.log = enteredDepths w strPath a

theorem reports_simulation (w : World) : Simulation w (Reports w) where
  visited h := h.visited
  nodes h := h.nodes
  grow := by
    intro s s' a log h hv hn hl hsilent
    refine ⟨hv.trans h.visited, hn.trans h.nodes, fun p => ?_⟩
    rw [hl, expansions, List.filterMap_append]
    exact (congrArg₂ _ (h.expansions p) (hsilent p)).trans (List.append_nil _)
  cutOff := by
    intro s a strPath uDepth h
    refine ⟨h.visited, h.nodes, fun p => ?_⟩
    have hsilent : expansions w p [(strPath, .wprintf limitFormat [.num uDepth, .num s.uNodes])] = [] :=
      silent_print strPath _ (by decide) p
    show expansions w p (s.log ++ [(strPath, .wprintf limitFormat [.num uDepth, .num s.uNodes])]) = enteredDepths w p a
    rw [expansions, List.filterMap_append]
    exact (congrArg₂ _ (h.expansions p) hsilent).trans (List.append_nil _)
  enter := by
    intro s s' a log strPath uDepth format args h hformat hv hn hl hsilent
    refine ⟨?_, ?_, fun p => ?_⟩
    · show s'.setVisited = _
      rw [hv, h.visited]
      rfl
    · show s'.uNodes = _
      rw [hn, h.nodes]
      rfl
    · show expansions w p (s'.log ++ [(strPath, .wprintf format (.num uDepth :: args))]) = _
      rw [hl, expansions, List.filterMap_append, List.filterMap_append]
      have hbefore : (s.log.filterMap (expansionDepth w p)) ++ log.filterMap (expansionDepth w p) = enteredDepths w p a :=
        (congrArg₂ _ (h.expansions p) (hsilent p)).trans (List.append_nil _)
      rw [hbefore, enteredDepths, enteredDepths, Search.State.enter, List.filter_cons]
      by_cases hkey : w.key strPath = w.key p
      · have hline : expansionDepth w p (strPath, .wprintf format (.num uDepth :: args)) = some uDepth :=
          if_pos ⟨hkey, hformat⟩
        rw [List.filterMap_cons_some hline, List.filterMap_nil, if_pos (by simpa using hkey), List.map_cons,
          List.reverse_cons]
      · have hline : expansionDepth w p (strPath, .wprintf format (.num uDepth :: args)) = none :=
          if_neg fun h => hkey h.1
        rw [List.filterMap_cons_none hline, List.filterMap_nil, if_neg (by simpa using hkey), List.append_nil]

theorem dependencyTree_reports (w : World) (strAppDir strRoot : WString) :
    Reports w (dependencyTree w strAppDir strRoot) (Search.search w.key (w.imports strAppDir) 512 32 strRoot) := by
  refine (reports_simulation w).dependencyTree strRoot ⟨rfl, rfl, fun p => ?_⟩
  exact silent_print strRoot [.wide strRoot] (by decide) p

end Refinement

end BuildEngine.Probe
