/-
The log of `ReportDependencyTree` read back. A `TREE NODE` line opens a heading of its depth, and the `TREE EDGE` and
`TREE UNRESOLVED` lines are the entries of their depth. Only the lines are read, not which call has printed them; an edge
does not name the importing file.
-/
import BuildEngine.Base.Outline
import BuildEngine.Probe.TreeRun

namespace BuildEngine.Probe

open Base Base.Outline

/-- What a line says about an import. -/
inductive Entry where
  | edge (strName : WString) (szKind : String) (strCandidate : WString)
  | unresolved (strName : WString)
  deriving DecidableEq, Repr

/-- What a line is in the outline. -/
def itemOf : WString × Event → Option (Item WString Entry)
  | (_, .wprintf format [.num uDepth, .num _, .num _, .wide strPath]) =>
    if format = nodeFormat then some (.heading uDepth strPath) else none
  | (_, .wprintf format [.num uDepth, .wide strName, .text szKind, .wide strCandidate]) =>
    if format = edgeFormat then some (.entry uDepth (.edge strName szKind strCandidate)) else none
  | (_, .wprintf format [.num uDepth, .wide strName, .wide _]) =>
    if format = unresolvedFormat then some (.entry uDepth (.unresolved strName)) else none
  | _ => none

def outline (log : List (WString × Event)) : List (Item WString Entry) := log.filterMap itemOf

/-- What the lines of a log tell. -/
def told (log : List (WString × Event)) : Reader WString Entry := read (outline log)

/-- The entries of the files with this key. -/
def below (w : World) (strKey : WString) (log : List (WString × Event)) : List Entry :=
  (told log).below fun strPath => w.key strPath = strKey

/-- The line of an expanded file. -/
def isFileLine : WString × Event → Bool
  | (_, .wprintf format _) => format = nodeFormat || format = invalidDosFormat || format = invalidPeFormat
  | _ => false

/-- The line of an unresolved import. -/
def isUnresolved : Item WString Entry → Bool
  | .entry _ (.unresolved _) => true
  | _ => false

/-- What a line of an import says. -/
def entryOf : Item WString Entry → Option Entry
  | .entry _ b => some b
  | .heading _ _ => none

def treeFormats : List String :=
  [limitFormat, revisitFormat, invalidDosFormat, invalidPeFormat, invalidTableFormat, nodeFormat, unresolvedFormat,
    edgeFormat, beginFormat, summaryFormat]

/-- What the process finds for a name that `Visit` has read, if it is not rejected. -/
def World.entry (w : World) (strAppDir : WString) (strImport : List UInt8) : Option Entry :=
  let strName := strImport.map widen
  if rejectedName strName then none
  else
    match w.resolve strAppDir strName with
    | none => some (.unresolved strName)
    | some (szKind, strCandidate) => some (.edge strName szKind strCandidate)

/-- The imports of a file, in the order of its descriptors. -/
def World.entries (w : World) (strAppDir strPath : WString) : List Entry :=
  (visitImports (w.mapFile strPath)).filterMap fun p => w.entry strAppDir p.2

/-- Paths of one key have the same entries. -/
theorem World.entries_key (w : World) (strAppDir : WString) {p q : WString} (h : w.key p = w.key q) :
    w.entries strAppDir p = w.entries strAppDir q := by
  unfold entries mapFile
  rw [w.content_fold p q h]

/-! ## Steps -/

/-- The log of a state of the traversal. -/
structure Logged (w : World) (s : TreeState) : Prop where
  entries : ∀ e ∈ (told s.log).entries, w.key e.1 ∈ s.setVisited
  headings : ∀ uDepth strPath, .heading uDepth strPath ∈ outline s.log → w.key strPath ∈ s.setVisited
  /-- every line of an import stands below a heading -/
  placed : (told s.log).entries.map Prod.snd = (outline s.log).filterMap entryOf
  missing : s.uMissing = (outline s.log).countP isUnresolved
  nodes : s.uNodes = s.log.countP isFileLine
  formats : ∀ e ∈ s.log, ∀ format args, e.2 = .wprintf format args → format ∈ treeFormats

/-- What a part of the traversal adds below the headings of lower depths than `uDepth`: `found` to the file with the key
`own`, nothing to the other files that were entered before, and to each file entered in between its imports. -/
structure Tells (w : World) (strAppDir : WString) (uDepth : ℕ) (own : WString) (found : List Entry) (s s' : TreeState) :
    Prop where
  visited : s.setVisited ⊆ s'.setVisited
  headings : (told s'.log).headings.take uDepth = (told s.log).headings.take uDepth
  logged : Logged w s'
  kept : ∀ strKey ∈ s.setVisited, below w strKey s'.log = below w strKey s.log ++ if strKey = own then found else []
  new : ∀ strPath, w.key strPath ∈ s'.setVisited → w.key strPath ∉ s.setVisited →
    below w (w.key strPath) s'.log = w.entries strAppDir strPath

section Tells

variable {w : World} {strAppDir : WString} {uDepth : ℕ} {own : WString} {found found' : List Entry}
  {s s' s'' : TreeState}

theorem Tells.trans (h : Tells w strAppDir uDepth own found s s') (h' : Tells w strAppDir uDepth own found' s' s'')
    (hown : own ∈ s.setVisited) : Tells w strAppDir uDepth own (found ++ found') s s'' where
  visited := fun _ hk => h'.visited (h.visited hk)
  headings := h'.headings.trans h.headings
  logged := h'.logged
  kept := by
    intro strKey hkey
    rw [h'.kept strKey (h.visited hkey), h.kept strKey hkey, List.append_assoc]
    split <;> rfl
  new := by
    intro strPath hvisited hnew
    by_cases hmem : w.key strPath ∈ s'.setVisited
    · have hne : w.key strPath ≠ own := fun heq => hnew (heq ▸ hown)
      rw [h'.kept _ hmem, if_neg hne, List.append_nil, h.new strPath hmem hnew]
    · exact h'.new strPath hvisited hmem

theorem Tells.mono (h : Tells w strAppDir (uDepth + 1) own found s s') : Tells w strAppDir uDepth own found s s' where
  visited := h.visited
  headings := by
    have htake := congrArg (List.take uDepth) h.headings
    rwa [List.take_take, List.take_take, min_eq_left (Nat.le_succ uDepth)] at htake
  logged := h.logged
  kept := h.kept
  new := h.new

/-- An open heading stays open below. -/
theorem Tells.open (h : Tells w strAppDir (uDepth + 1) own found s s') {strPath : WString}
    (hopen : (told s.log).headings[uDepth]? = some strPath) : (told s'.log).headings[uDepth]? = some strPath := by
  have htake := congrArg (fun l => l[uDepth]?) h.headings
  simp only [List.getElem?_take_of_lt (Nat.lt_succ_self uDepth)] at htake
  rw [htake, hopen]

/-! ### Steps that say nothing about an import -/

/-- An event that is no line of the outline, nor of an expanded file. -/
def QuietEvent (e : WString × Event) : Prop :=
  itemOf e = none ∧ isFileLine e = false ∧ ∀ format args, e.2 = .wprintf format args → format ∈ treeFormats

theorem outline_append_quiet {log new : List (WString × Event)} (h : ∀ e ∈ new, QuietEvent e) :
    outline (log ++ new) = outline log := by
  rw [outline, List.filterMap_append, List.filterMap_eq_nil_iff.2 fun e he => (h e he).1, List.append_nil]
  rfl

theorem Logged.grow (hs : Logged w s) {new : List (WString × Event)} (hlog : s'.log = s.log ++ new)
    (hnew : ∀ e ∈ new, QuietEvent e) (hvisited : s.setVisited ⊆ s'.setVisited) (hmissing : s'.uMissing = s.uMissing)
    (hnodes : s'.uNodes = s.uNodes) : Logged w s' := by
  have houtline : outline s'.log = outline s.log := by rw [hlog, outline_append_quiet hnew]
  refine ⟨fun e he => ?_, fun uDepth strPath hmem => ?_, ?_, ?_, ?_, fun e he format args heq => ?_⟩
  · rw [told, houtline] at he
    exact hvisited (hs.entries e he)
  · rw [houtline] at hmem
    exact hvisited (hs.headings uDepth strPath hmem)
  · rw [told, houtline]
    exact hs.placed
  · rw [hmissing, houtline, hs.missing]
  · have hzero : new.countP isFileLine = 0 := List.countP_eq_zero.2 fun e he => by simp [(hnew e he).2.1]
    rw [hnodes, hlog, List.countP_append, hzero, hs.nodes, Nat.add_zero]
  · rw [hlog, List.mem_append] at he
    rcases he with he | he
    · exact hs.formats e he format args heq
    · exact (hnew e he).2.2 format args heq

theorem Tells.quiet (hs : Logged w s) {new : List (WString × Event)} (hlog : s'.log = s.log ++ new)
    (hnew : ∀ e ∈ new, QuietEvent e) (hvisited : s'.setVisited = s.setVisited) (hmissing : s'.uMissing = s.uMissing)
    (hnodes : s'.uNodes = s.uNodes) : Tells w strAppDir uDepth own [] s s' := by
  have htold : told s'.log = told s.log := by rw [told, hlog, outline_append_quiet hnew, told]
  refine ⟨hvisited ▸ fun _ h => h, by rw [htold], hs.grow hlog hnew (hvisited ▸ fun _ h => h) hmissing hnodes,
    fun strKey _ => ?_, fun strPath hmem hno => ?_⟩
  · rw [below, htold, ite_self, List.append_nil, below]
  · rw [hvisited] at hmem
    exact absurd hmem hno

theorem quiet_events {strPath : WString} {events : List Event} (h : ∀ e ∈ events, ∀ format args, e ≠ .wprintf format args) :
    ∀ e ∈ events.map fun e => (strPath, e), QuietEvent e := by
  intro e he
  obtain ⟨event, hevent, rfl⟩ := List.mem_map.1 he
  cases event with
  | wprintf format args => exact absurd rfl (h _ hevent format args)
  | deref => exact ⟨rfl, rfl, fun _ _ h => by cases h⟩
  | translated => exact ⟨rfl, rfl, fun _ _ h => by cases h⟩
  | memchr => exact ⟨rfl, rfl, fun _ _ h => by cases h⟩
  | cstring => exact ⟨rfl, rfl, fun _ _ h => by cases h⟩

/-- A line that is not read. -/
theorem quiet_line (strPath : WString) {format : String} (args : List Arg)
    (h : format ∈ [limitFormat, revisitFormat, invalidTableFormat, beginFormat, summaryFormat]) :
    QuietEvent (strPath, .wprintf format args) := by
  have hother : format ≠ nodeFormat ∧ format ≠ edgeFormat ∧ format ≠ unresolvedFormat ∧ format ≠ invalidDosFormat ∧
      format ≠ invalidPeFormat ∧ format ∈ treeFormats := by
    revert format
    decide
  obtain ⟨hnode, hedge, hunresolved, hdos, hpe, hformat⟩ := hother
  refine ⟨?_, by simp [isFileLine, hnode, hdos, hpe], fun format' args' heq => ?_⟩
  · unfold itemOf
    split
    · rename_i heq
      cases heq
      exact if_neg hnode
    · rename_i heq
      cases heq
      exact if_neg hedge
    · rename_i heq
      cases heq
      exact if_neg hunresolved
    · rfl
  · cases heq
    exact hformat

/-! ### The lines of the imports -/

/-- A line that says something about an import of the file whose heading is open. -/
theorem Tells.entry (hs : Logged w s) {strPath : WString} (hopen : (told s.log).headings[uDepth]? = some strPath)
    (hown : w.key strPath ∈ s.setVisited) {event : WString × Event} {b : Entry}
    (hitem : itemOf event = some (.entry (uDepth + 1) b)) (hline : isFileLine event = false)
    (hformat : ∀ format args, event.2 = .wprintf format args → format ∈ treeFormats) (hlog : s'.log = s.log ++ [event])
    (hvisited : s'.setVisited = s.setVisited) (hnodes : s'.uNodes = s.uNodes)
    (hmissing : s'.uMissing = s.uMissing + if isUnresolved (.entry (uDepth + 1) b) then 1 else 0) :
    Tells w strAppDir (uDepth + 1) (w.key strPath) [b] s s' := by
  have houtline : outline s'.log = outline s.log ++ [.entry (uDepth + 1) b] := by
    rw [hlog, outline, List.filterMap_append, List.filterMap_cons_some hitem]
    rfl
  have htold : told s'.log = ⟨(told s.log).headings, (told s.log).entries ++ [(strPath, b)]⟩ := by
    rw [told, houtline, read_append]
    exact entry_below hopen b
  refine ⟨hvisited ▸ fun _ h => h, by rw [htold], ⟨?_, ?_, ?_, ?_, ?_, ?_⟩, ?_, ?_⟩
  · intro e he
    rw [htold, List.mem_append, List.mem_singleton] at he
    rw [hvisited]
    rcases he with he | rfl
    · exact hs.entries e he
    · exact hown
  · intro uDepth' strPath' hmem
    rw [houtline, List.mem_append, List.mem_singleton] at hmem
    rw [hvisited]
    rcases hmem with hmem | hmem
    · exact hs.headings uDepth' strPath' hmem
    · cases hmem
  · rw [htold, houtline, List.map_append, List.filterMap_append, hs.placed]
    rfl
  · rw [hmissing, houtline, List.countP_append, List.countP_singleton, hs.missing]
  · rw [hnodes, hlog, List.countP_append, List.countP_singleton, hline, hs.nodes]
    rfl
  · intro e he format args heq
    rw [hlog, List.mem_append, List.mem_singleton] at he
    rcases he with he | rfl
    · exact hs.formats e he format args heq
    · exact hformat format args heq
  · intro strKey _
    rw [below, htold, below_append, below]
    congr 1
    by_cases heq : strKey = w.key strPath
    · simp [heq]
    · simp [heq, Ne.symm heq]
  · intro strPath' hmem hno
    rw [hvisited] at hmem
    exact absurd hmem hno

theorem itemOf_node (strPath : WString) (uDepth machine subsystem : ℕ) (path : WString) :
    itemOf (strPath, .wprintf nodeFormat [.num uDepth, .num machine, .num subsystem, .wide path]) =
      some (.heading uDepth path) := by simp [itemOf]

theorem itemOf_edge (strPath : WString) (uDepth : ℕ) (strName : WString) (szKind : String) (strCandidate : WString) :
    itemOf (strPath, .wprintf edgeFormat [.num uDepth, .wide strName, .text szKind, .wide strCandidate]) =
      some (.entry uDepth (.edge strName szKind strCandidate)) := by simp [itemOf]

theorem itemOf_unresolved (strPath : WString) (uDepth : ℕ) (strName parent : WString) :
    itemOf (strPath, .wprintf unresolvedFormat [.num uDepth, .wide strName, .wide parent]) =
      some (.entry uDepth (.unresolved strName)) := by simp [itemOf]

/-- What is known of the state in the loop of a call, while its heading is open. -/
structure Inside (w : World) (strPath : WString) (uDepth : ℕ) (s : TreeState) : Prop where
  logged : Logged w s
  heading : (told s.log).headings[uDepth]? = some strPath
  visited : w.key strPath ∈ s.setVisited

theorem Tells.inside {strPath : WString} (h : Tells w strAppDir (uDepth + 1) own found s s') (hs : Inside w strPath uDepth s) :
    Inside w strPath uDepth s' :=
  ⟨h.logged, h.open hs.heading, h.visited hs.visited⟩

theorem Inside.invalid {strPath : WString} (hs : Inside w strPath uDepth s) :
    Tells w strAppDir (uDepth + 1) (w.key strPath) [] s s.invalid :=
  .quiet hs.logged (List.append_nil _).symm (fun _ h => absurd h List.not_mem_nil) rfl rfl rfl

theorem tells_visitImport {child : WString → TreeState → TreeState} {strPath : WString}
    (hc : ∀ p s, Logged w s → uDepth + 1 ≤ (told s.log).headings.length →
      Tells w strAppDir (uDepth + 1) (w.key strPath) [] s (child p s))
    (hs : Inside w strPath uDepth s) (strImport : List UInt8) :
    Tells w strAppDir (uDepth + 1) (w.key strPath) (w.entry strAppDir strImport).toList s
      (visitImport w strAppDir child strPath uDepth strImport s) := by
  simp only [visitImport, World.entry]
  split
  · exact hs.invalid
  · cases hresolve : w.resolve strAppDir (strImport.map widen) with
    | none =>
      refine .entry hs.logged hs.heading hs.visited (itemOf_unresolved ..) rfl ?_ rfl rfl rfl rfl
      rintro _ _ ⟨⟩
      decide
    | some found =>
      obtain ⟨szKind, strCandidate⟩ := found
      have hedge : Tells w strAppDir (uDepth + 1) (w.key strPath) [.edge (strImport.map widen) szKind strCandidate] s
          (s.print strPath edgeFormat
            [.num (uDepth + 1), .wide (strImport.map widen), .text szKind, .wide strCandidate]) := by
        refine .entry hs.logged hs.heading hs.visited (itemOf_edge ..) rfl ?_ rfl rfl rfl rfl
        rintro _ _ ⟨⟩
        decide
      have hlength : uDepth + 1 ≤ (told (s.print strPath edgeFormat
          [.num (uDepth + 1), .wide (strImport.map widen), .text szKind, .wide strCandidate]).log).headings.length :=
        (List.getElem?_eq_some_iff.1 (hedge.open hs.heading)).1
      exact hedge.trans (hc _ _ hedge.logged hlength) hs.visited

theorem tells_record {strPath strPath' : WString} (hs : Inside w strPath uDepth s) {events : List Event}
    (hevents : ∀ e ∈ events, ∀ format args, e ≠ .wprintf format args) :
    Tells w strAppDir (uDepth + 1) (w.key strPath) [] s (s.record strPath' events) :=
  .quiet hs.logged rfl (quiet_events hevents) rfl rfl rfl

/-- The loop of a call adds the imports that it reads to its file. -/
theorem tells_visitLoop {child : WString → TreeState → TreeState} {strPath : WString}
    (hc : ∀ p s, Logged w s → uDepth + 1 ≤ (told s.log).headings.length →
      Tells w strAppDir (uDepth + 1) (w.key strPath) [] s (child p s))
    {read : ℕ → Probing Descriptor} (hread : ∀ u, ∀ e ∈ (read u).log, ∀ format args, e ≠ .wprintf format args) :
    ∀ (n u : ℕ) (s : TreeState), Inside w strPath uDepth s →
      Tells w strAppDir (uDepth + 1) (w.key strPath)
        ((importsFrom (fun i => (read i).val) n u).filterMap fun p => w.entry strAppDir p.2) s
        (visitLoop w strAppDir child strPath uDepth read n u s)
  | 0, _, s, hs => .quiet hs.logged (List.append_nil _).symm (fun _ h => absurd h List.not_mem_nil) rfl rfl rfl
  | n + 1, u, s, hs => by
    have hrecord : Tells w strAppDir (uDepth + 1) (w.key strPath) [] s (s.record strPath (read u).log) :=
      tells_record hs (hread u)
    have hs' := hrecord.inside hs
    rw [visitLoop, importsFrom]
    cases (read u).val with
    | wrapped => exact hrecord
    | malformed =>
      refine hrecord.trans ?_ hs.visited
      refine .quiet hs'.logged rfl (fun e he => ?_) rfl rfl rfl
      rw [List.map_singleton, List.mem_singleton] at he
      rw [he]
      exact quiet_line _ _ (by decide)
    | last => exact hrecord
    | badName =>
      have hinvalid : Tells w strAppDir (uDepth + 1) (w.key strPath) [] _ (s.record strPath (read u).log).invalid :=
        hs'.invalid
      exact (hrecord.trans hinvalid hs.visited).trans
        (tells_visitLoop hc hread n (u + 1) _ (hinvalid.inside hs')) hs.visited
    | named strImport =>
      have himport := tells_visitImport hc hs' strImport
      have hrest := tells_visitLoop hc hread n (u + 1) _ (himport.inside hs')
      have hboth := (hrecord.trans himport hs.visited).trans hrest hs.visited
      dsimp only at hboth ⊢
      rw [List.filterMap_cons]
      cases hentry : w.entry strAppDir strImport with
      | none =>
        rw [hentry] at hboth
        exact hboth
      | some b =>
        rw [hentry] at hboth
        exact hboth

/-- A call that has entered a new file, seen from the state before it. -/
theorem Tells.entered {strPath : WString} (hs : Logged w s) (hnew : w.key strPath ∉ s.setVisited)
    (hvisited : s'.setVisited = w.key strPath :: s.setVisited) (hentries : (told s'.log).entries = (told s.log).entries)
    (hheadings : (told s'.log).headings.take uDepth = (told s.log).headings.take uDepth)
    (h : Tells w strAppDir uDepth (w.key strPath) (w.entries strAppDir strPath) s' s'') :
    Tells w strAppDir uDepth own [] s s'' := by
  have hbelow : ∀ strKey, below w strKey s'.log = below w strKey s.log := by
    intro strKey
    rw [below, Reader.below, hentries, below, Reader.below]
  have hempty : below w (w.key strPath) s.log = [] := by
    rw [below, Reader.below, List.filterMap_eq_nil_iff]
    intro e he
    have hne : w.key e.1 ≠ w.key strPath := fun heq => hnew (heq ▸ hs.entries e he)
    simp [hne]
  have hsub : s.setVisited ⊆ s'.setVisited := fun _ hk => hvisited ▸ List.mem_cons_of_mem _ hk
  refine ⟨fun _ hk => h.visited (hsub hk), h.headings.trans hheadings, h.logged, fun strKey hkey => ?_,
    fun q hmem hno => ?_⟩
  · have hne : strKey ≠ w.key strPath := fun heq => hnew (heq ▸ hkey)
    rw [h.kept strKey (hsub hkey), if_neg hne, hbelow, ite_self]
  · by_cases heq : w.key q = w.key strPath
    · have hmem' : w.key strPath ∈ s'.setVisited := hvisited ▸ List.mem_cons_self ..
      rw [heq, h.kept _ hmem', if_pos rfl, hbelow, hempty, List.nil_append, w.entries_key strAppDir heq]
    · refine h.new q hmem fun hq => ?_
      rw [hvisited, List.mem_cons] at hq
      exact hq.elim heq hno

/-- The line of an expanded file, which is a heading or not read. -/
theorem Logged.expand (hs : Logged w s) {new : List (WString × Event)} (line : WString × Event)
    (heading : Option (ℕ × WString)) (hlog : s'.log = s.log ++ (new ++ [line])) (hnew : ∀ e ∈ new, QuietEvent e) (hline : isFileLine line = true)
    (hformat : ∀ format args, line.2 = .wprintf format args → format ∈ treeFormats)
    (hitem : itemOf line = heading.map fun h => .heading h.1 h.2) (hheading : ∀ h ∈ heading, w.key h.2 ∈ s'.setVisited)
    (hvisited : s.setVisited ⊆ s'.setVisited) (hmissing : s'.uMissing = s.uMissing) (hnodes : s'.uNodes = s.uNodes + 1) :
    Logged w s' ∧ outline s'.log = outline s.log ++ (heading.map fun h => Item.heading h.1 h.2).toList ∧
      (told s'.log).entries = (told s.log).entries := by
  have houtline : outline s'.log = outline s.log ++ (heading.map fun h => Item.heading h.1 h.2).toList := by
    rw [hlog, ← List.append_assoc, outline, List.filterMap_append, ← outline, outline_append_quiet hnew]
    cases heading with
    | none => rw [List.filterMap_cons_none (by simpa using hitem)]; rfl
    | some h => rw [List.filterMap_cons_some (by simpa using hitem)]; rfl
  have hentries : (told s'.log).entries = (told s.log).entries := by
    rw [told, houtline, read_append]
    cases heading <;> rfl
  refine ⟨⟨fun e he => ?_, fun uDepth strPath hmem => ?_, ?_, ?_, ?_, fun e he format args heq => ?_⟩, houtline, hentries⟩
  · rw [hentries] at he
    exact hvisited (hs.entries e he)
  · rw [houtline, List.mem_append] at hmem
    rcases hmem with hmem | hmem
    · exact hvisited (hs.headings uDepth strPath hmem)
    · cases heading with
      | none => exact absurd hmem List.not_mem_nil
      | some h =>
        cases List.mem_singleton.1 hmem
        exact hheading h rfl
  · have hnone : (heading.map fun h => Item.heading h.1 h.2).toList.filterMap entryOf = [] := by
      cases heading <;> rfl
    rw [hentries, houtline, List.filterMap_append, hnone, List.append_nil, hs.placed]
  · have hcount : (heading.map fun h => Item.heading h.1 h.2).toList.countP isUnresolved = 0 := by
      cases heading <;> rfl
    rw [hmissing, houtline, List.countP_append, hcount, hs.missing]
    rfl
  · have hzero : new.countP isFileLine = 0 := List.countP_eq_zero.2 fun e he => by simp [(hnew e he).2.1]
    rw [hnodes, hlog, List.countP_append, List.countP_append, hzero, List.countP_singleton, hline, hs.nodes]
    rfl
  · rw [hlog, List.mem_append, List.mem_append, List.mem_singleton] at he
    rcases he with he | he | rfl
    · exact hs.formats e he format args heq
    · exact (hnew e he).2.2 format args heq
    · exact hformat format args heq

/-- A file whose headers are refused. -/
theorem tells_refused (hs : Logged w s) {strPath : WString} (hnew : w.key strPath ∉ s.setVisited) {format : String}
    (hformat : format = invalidDosFormat ∨ format = invalidPeFormat) (hempty : w.entries strAppDir strPath = []) :
    Tells w strAppDir uDepth own [] s
      ((((s.enter (w.key strPath)).record strPath (visitHeader (w.mapFile strPath)).log).invalid).print strPath format
        [.num uDepth, .wide strPath]) := by
  have hquiet : ∀ e ∈ (visitHeader (w.mapFile strPath)).log.map fun e => (strPath, e), QuietEvent e :=
    quiet_events (visitHeader_all fun _ _ _ _ _ h => by cases h)
  have hline : isFileLine (strPath, .wprintf format [.num uDepth, .wide strPath]) = true := by
    rcases hformat with rfl | rfl <;> simp [isFileLine]
  set s' := (((s.enter (w.key strPath)).record strPath (visitHeader (w.mapFile strPath)).log).invalid).print strPath format
    [.num uDepth, .wide strPath]
  have hlog : s'.log = s.log ++ ((visitHeader (w.mapFile strPath)).log.map (fun e => (strPath, e)) ++
      [(strPath, .wprintf format [.num uDepth, .wide strPath])]) := List.append_assoc ..
  obtain ⟨hlogged, houtline, hentries⟩ := hs.expand _ none hlog hquiet hline
    (by rintro _ _ ⟨⟩; rcases hformat with rfl | rfl <;> decide) rfl (fun _ h => by cases h)
    (fun _ hk => List.mem_cons_of_mem _ hk) rfl rfl
  have hsame : Tells w strAppDir uDepth (w.key strPath) [] s' s' :=
    .quiet hlogged (List.append_nil _).symm (fun _ h => absurd h List.not_mem_nil) rfl rfl rfl
  rw [← hempty] at hsame
  refine .entered hs hnew rfl hentries ?_ hsame
  rw [told, houtline, told]
  simp

/-- The state in which the loop over the imports of a new file begins. -/
theorem inside_node (hs : Logged w s) (strPath : WString) (hlength : uDepth ≤ (told s.log).headings.length)
    (machine subsystem : ℕ) :
    let s' := ((s.enter (w.key strPath)).record strPath (visitHeader (w.mapFile strPath)).log).print strPath nodeFormat
      [.num uDepth, .num machine, .num subsystem, .wide strPath]
    Inside w strPath uDepth s' ∧ (told s'.log).headings.take uDepth = (told s.log).headings.take uDepth ∧
      (told s'.log).entries = (told s.log).entries := by
  intro s'
  have hquiet : ∀ e ∈ (visitHeader (w.mapFile strPath)).log.map fun e => (strPath, e), QuietEvent e :=
    quiet_events (visitHeader_all fun _ _ _ _ _ h => by cases h)
  have hmem : w.key strPath ∈ s'.setVisited := List.mem_cons_self ..
  have hlog : s'.log = s.log ++ ((visitHeader (w.mapFile strPath)).log.map (fun e => (strPath, e)) ++
      [(strPath, .wprintf nodeFormat [.num uDepth, .num machine, .num subsystem, .wide strPath])]) := List.append_assoc ..
  obtain ⟨hlogged, houtline, hentries⟩ := hs.expand _ (some (uDepth, strPath)) hlog hquiet (by simp [isFileLine]) (by rintro _ _ ⟨⟩; decide) (itemOf_node ..)
    (by rintro _ ⟨⟩; exact hmem) (fun _ hk => List.mem_cons_of_mem _ hk) rfl rfl
  have htold : told s'.log = (told s.log).item (.heading uDepth strPath) := by
    rw [told, houtline, read_append]
    rfl
  obtain ⟨htake, hopen⟩ := heading_headings hlength strPath
  rw [← htold] at htake hopen
  exact ⟨⟨hlogged, hopen, hmem⟩, htake, hentries⟩

theorem readDescriptor_quiet (f : MappedFile) (pDos : ImageDosHeader) (pNt : ImageNtHeaders64) (aDir : ImageDataDirectory)
    (u : ℕ) : ∀ e ∈ (readDescriptor f pDos pNt aDir u).log, ∀ format args, e ≠ .wprintf format args := by
  refine readDescriptor_all (fun _ _ _ _ _ h => by cases h) ?_ ?_ ?_ ?_
  · exact fun _ _ _ _ _ h => by cases h
  · exact fun _ _ _ h => by cases h
  · exact fun _ _ _ _ h => by cases h
  · exact fun _ _ _ _ h => by cases h

/-- What a call of `Visit` adds below the open headings. -/
theorem tells_visit : ∀ (fuel : ℕ) (strPath : WString) (uDepth : ℕ) (own : WString) (s : TreeState), Logged w s →
    uDepth ≤ (told s.log).headings.length → Tells w strAppDir uDepth own [] s (visit w strAppDir fuel strPath uDepth s)
  | 0, _, _, _, s, hs, _ => .quiet hs (List.append_nil _).symm (fun _ h => absurd h List.not_mem_nil) rfl rfl rfl
  | fuel + 1, strPath, uDepth, own, s, hs, hlength => by
    have hprint : ∀ (format : String) (args : List Arg),
        format ∈ [limitFormat, revisitFormat, invalidTableFormat, beginFormat, summaryFormat] →
        Tells w strAppDir uDepth own [] s (s.print strPath format args) := by
      intro format args hformat
      refine .quiet hs rfl (fun e he => ?_) rfl rfl rfl
      rw [List.map_singleton, List.mem_singleton] at he
      rw [he]
      exact quiet_line _ _ hformat
    rw [visit]
    split
    · exact hprint _ _ (by decide)
    · split
      · exact hprint _ _ (by decide)
      · rename_i hnew
        unfold visitFile
        dsimp only
        split
        · rename_i hheader
          exact tells_refused hs hnew (.inl rfl) (by simp [World.entries, visitImports, hheader])
        · rename_i hheader
          exact tells_refused hs hnew (.inr rfl) (by simp [World.entries, visitImports, hheader])
        · rename_i pDos pNt hheader
          obtain ⟨hinside, htake, hentries⟩ := inside_node hs strPath hlength
            pNt.fileHeader.machine pNt.optionalHeader.subsystem
          split
          · rename_i hdir
            have hempty : w.entries strAppDir strPath = [] := by simp [World.entries, visitImports, hheader, hdir]
            have hsame : Tells w strAppDir uDepth (w.key strPath) [] _ _ := .quiet hinside.logged
              (List.append_nil _).symm (fun _ h => absurd h List.not_mem_nil) rfl rfl rfl
            rw [← hempty] at hsame
            exact .entered hs hnew rfl hentries htake hsame
          · rename_i aDir hdir
            have hfound : w.entries strAppDir strPath =
                (importsFrom (fun u => (readDescriptor (w.mapFile strPath) pDos pNt aDir u).val) 1024 0).filterMap
                  fun p => w.entry strAppDir p.2 := by
              simp [World.entries, visitImports, hheader, hdir]
            have hloop := tells_visitLoop (fun p s hs hlength => tells_visit fuel p (uDepth + 1) (w.key strPath) s hs hlength)
              (readDescriptor_quiet (w.mapFile strPath) pDos pNt aDir) 1024 0 _ hinside
            rw [← hfound] at hloop
            exact .entered hs hnew rfl hentries htake hloop.mono

end Tells

/-! ## The log of a traversal -/

theorem logged_begin (w : World) (strRoot : WString) :
    Logged w (TreeState.initial.print strRoot beginFormat [.wide strRoot]) := by
  have hinitial : Logged w TreeState.initial :=
    ⟨fun _ h => absurd h List.not_mem_nil, fun _ _ h => absurd h List.not_mem_nil, rfl, rfl, rfl,
      fun _ h => absurd h List.not_mem_nil⟩
  refine hinitial.grow rfl (fun e he => ?_) (fun _ h => h) rfl rfl
  rw [List.map_singleton, List.mem_singleton] at he
  rw [he]
  exact quiet_line _ _ (by decide)

theorem dependencyTree_tells (w : World) (strAppDir strRoot : WString) :
    Tells w strAppDir 0 [] [] (TreeState.initial.print strRoot beginFormat [.wide strRoot])
      (dependencyTree w strAppDir strRoot) :=
  tells_visit visitFuel strRoot 0 [] _ (logged_begin w strRoot) (Nat.zero_le _)

theorem reportDependencyTree_formats (w : World) (strAppDir strRoot : WString) :
    ∀ e ∈ (reportDependencyTree w strAppDir strRoot).log, ∀ format args, e.2 = .wprintf format args →
      format ∈ treeFormats := by
  intro e he
  rcases List.mem_append.1 he with he | he
  · exact (dependencyTree_tells w strAppDir strRoot).logged.formats e he
  · rw [List.map_singleton, List.mem_singleton] at he
    rw [he]
    rintro _ _ ⟨⟩
    decide

/-- What the lines of a traversal tell. -/
structure Telling (w : World) (strAppDir strRoot : WString) (log : List (WString × Event)) : Prop where
  /-- below the line of a file stand its imports, in the order of its descriptors, and what each was resolved to -/
  complete : ∀ uDepth strPath, .heading uDepth strPath ∈ outline log →
    below w (w.key strPath) log = w.entries strAppDir strPath
  /-- each line of an import stands below the line of a file -/
  placed : (told log).entries.map Prod.snd = (outline log).filterMap entryOf
  sound : ∀ e ∈ (told log).entries, e.2 ∈ w.entries strAppDir e.1
  /-- the last line counts the files and the unresolved imports -/
  summary : ∃ uInvalid, log.getLast? = some (strRoot, .wprintf summaryFormat
    [.num (log.countP isFileLine), .num uInvalid, .num ((outline log).countP isUnresolved)])

theorem reportDependencyTree_told (w : World) (strAppDir strRoot : WString) :
    Telling w strAppDir strRoot (reportDependencyTree w strAppDir strRoot).log := by
  have hvisit := dependencyTree_tells w strAppDir strRoot
  have hlogged := hvisit.logged
  set log := (reportDependencyTree w strAppDir strRoot).log
  set s := dependencyTree w strAppDir strRoot
  have hlog : log = s.log ++ [(strRoot, .wprintf summaryFormat [.num s.uNodes, .num s.uInvalid, .num s.uMissing])] := rfl
  have houtline : outline log = outline s.log := by
    rw [hlog]
    refine outline_append_quiet fun e he => ?_
    rw [List.mem_singleton.1 he]
    exact quiet_line _ _ (by decide)
  have htold : told log = told s.log := by rw [told, houtline, told]
  have hcomplete : ∀ strPath, w.key strPath ∈ s.setVisited →
      below w (w.key strPath) log = w.entries strAppDir strPath := by
    intro strPath hmem
    rw [below, htold]
    exact hvisit.new strPath hmem List.not_mem_nil
  refine ⟨fun uDepth strPath hmem => ?_, ?_, fun e he => ?_, s.uInvalid, ?_⟩
  · rw [houtline] at hmem
    exact hcomplete strPath (hlogged.headings uDepth strPath hmem)
  · rw [htold, houtline]
    exact hlogged.placed
  · rw [htold] at he
    rw [← hcomplete e.1 (hlogged.entries e he), below, htold, Reader.below, List.mem_filterMap]
    exact ⟨e, he, by simp⟩
  · have hcount : log.countP isFileLine = s.log.countP isFileLine := by
      rw [hlog, List.countP_append, List.countP_singleton]
      rfl
    rw [hcount, houtline, ← hlogged.nodes, ← hlogged.missing, hlog, List.getLast?_append]
    rfl

end BuildEngine.Probe
