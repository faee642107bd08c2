/-
Sessions: bootstraps of both scripts one after the other, over any number of Meson and Mesa trees. The files end as
each patcher alone would leave its own, whatever the order, and a second session changes nothing: every process finds
each file as it was or as its patcher leaves it (`Between`), and does the same with both (`Leads`).
-/
import BuildEngine.Meson.Main
import Mathlib.Data.List.ReduceOption

namespace BuildEngine.Meson.Main

open Base Base.Text

/-- Processes one after the other. -/
def session (host : Host) : List (Script × Process) → World → World × List Outcome
  | [], w => (w, [])
  | (script, process) :: rest, w =>
    let (w, outcome) := main host process script w
    let (w, outcomes) := session host rest w
    (w, outcome :: outcomes)

/-! ## One patcher -/

/-- A decision brings a text to another one, and then leaves it there. -/
structure Settles (decide : Text → Decision) (before after : Text) : Prop where
  first : decide before = .write after ∨ (decide before = .keep ∧ before = after)
  again : decide after = .keep ∨ decide after = .write after
  newlines : TextFile.read after = after

/-- Between `w` and `w'` the patcher leaves its file as `w'` has it. -/
def Leads (w w' : World) (e : Patcher) : Prop :=
  ∀ v : World, v e.path = w e.path ∨ v e.path = w' e.path → e.run v = (Function.update v e.path (w' e.path), none)

section Patcher

variable {e : Patcher} {v : World} {content : Text}

theorem Patcher.run_missing (hv : v e.path = none) : e.run v = (v, some (e.missing ++ e.path.str)) := by
  unfold Patcher.run
  rw [hv]

theorem Patcher.run_stop {message : String} (hv : v e.path = some content)
    (h : e.decide (TextFile.read content) = .stop message) : e.run v = (v, some message.toList) := by
  unfold Patcher.run
  rw [hv]
  simp only [h]

theorem Patcher.run_keep (hv : v e.path = some content) (h : e.decide (TextFile.read content) = .keep) :
    e.run v = (Function.update v e.path (some content), none) := by
  have hself : Function.update v e.path (some content) = v := by rw [← hv, Function.update_eq_self]
  unfold Patcher.run
  rw [hself, hv]
  simp only [h]

theorem Patcher.run_write {text : Text} (hv : v e.path = some content)
    (h : e.decide (TextFile.read content) = .write text) :
    e.run v = (Function.update v e.path (some text), none) := by
  unfold Patcher.run
  rw [hv]
  simp only [h]

/-- A patcher on a file that settles. -/
theorem Settles.leads {w w' : World} {after : Text} (h : Settles e.decide (TextFile.read content) after)
    (hw : w e.path = some content) (hw' : w' e.path = (e.run w).1 e.path) :
    Leads w w' e ∧ ∃ content', w' e.path = some content' ∧ TextFile.read content' = after := by
  rcases h.first with hwrite | ⟨hkeep, hafter⟩
  · have hleft : w' e.path = some after := by
      rw [hw', Patcher.run_write hw hwrite]
      exact Function.update_self ..
    refine ⟨fun v hv => ?_, after, hleft, h.newlines⟩
    rw [hleft]
    rcases hv with hv | hv
    · exact Patcher.run_write (hv.trans hw) hwrite
    · have hread : e.decide (TextFile.read after) = e.decide after := congrArg e.decide h.newlines
      rcases h.again with hkeep | hwrite'
      · exact Patcher.run_keep (hv.trans hleft) (hread.trans hkeep)
      · exact Patcher.run_write (hv.trans hleft) (hread.trans hwrite')
  · have hleft : w' e.path = some content := by
      rw [hw', Patcher.run_keep hw hkeep]
      exact Function.update_self ..
    refine ⟨fun v hv => ?_, content, hleft, hafter⟩
    rw [hleft]
    rcases hv with hv | hv
    · exact Patcher.run_keep (hv.trans hw) hkeep
    · exact Patcher.run_keep (hv.trans hleft) hkeep

end Patcher

/-! ## Patchers between two worlds -/

/-- Every file is as in the one or as in the other. -/
def Between (w w' v : World) : Prop := ∀ p, v p = w p ∨ v p = w' p

/-- A run from `v` to `v'` stays between the worlds, undoes nothing, and finishes the paths. -/
structure Advances (w w' v v' : World) (paths : PurePath → Prop) : Prop where
  between : Between w w' v'
  keeps : ∀ p, v p = w' p → v' p = w' p
  finishes : ∀ p, paths p → v' p = w' p

section Run

variable {w w' : World}

theorem Advances.refl {v : World} (hv : Between w w' v) : Advances w w' v v fun _ => False :=
  ⟨hv, fun _ h => h, fun _ h => h.elim⟩

theorem Advances.trans {v v' v'' : World} {paths paths' : PurePath → Prop} (h : Advances w w' v v' paths)
    (h' : Advances w w' v' v'' paths') : Advances w w' v v'' fun p => paths p ∨ paths' p := by
  refine ⟨h'.between, fun p hp => h'.keeps p (h.keeps p hp), fun p hp => ?_⟩
  rcases hp with hp | hp
  · exact h'.keeps p (h.finishes p hp)
  · exact h'.finishes p hp

theorem Leads.advances {e : Patcher} (h : Leads w w' e) {v : World} (hv : Between w w' v) :
    ∃ v', e.run v = (v', none) ∧ Advances w w' v v' (· = e.path) := by
  refine ⟨_, h v (hv e.path), fun p => ?_, fun p hp => ?_, fun p hp => ?_⟩
  · by_cases heq : p = e.path
    · subst heq
      exact .inr (Function.update_self ..)
    · rw [Function.update_of_ne heq]
      exact hv p
  · by_cases heq : p = e.path
    · subst heq
      exact Function.update_self ..
    · rwa [Function.update_of_ne heq]
  · subst hp
    exact Function.update_self ..

theorem runPatchers_advances : ∀ {es : List Patcher}, (∀ e ∈ es, Leads w w' e) → ∀ {v : World}, Between w w' v →
    ∃ v', runPatchers es v = (v', none) ∧ Advances w w' v v' fun p => ∃ e ∈ es, e.path = p
  | [], _, v, hv => by
    refine ⟨v, rfl, hv, fun _ h => h, ?_⟩
    rintro p ⟨e, he, -⟩
    cases he
  | e :: es, h, v, hv => by
    obtain ⟨v₁, hrun, hstep⟩ := (h e (List.mem_cons_self ..)).advances hv
    obtain ⟨v', hrest, hsteps⟩ := runPatchers_advances (fun e' he' => h e' (List.mem_cons_of_mem _ he')) hstep.between
    have hall := hstep.trans hsteps
    refine ⟨v', ?_, hall.between, hall.keeps, ?_⟩
    · rw [runPatchers, hrun]
      exact hrest
    · rintro p ⟨e', he', rfl⟩
      rcases List.mem_cons.1 he' with rfl | he'
      · exact hall.finishes _ (.inl rfl)
      · exact hall.finishes _ (.inr ⟨e', he', rfl⟩)

end Run

/-! ## Processes between two worlds -/

section Process

variable {host : Host} {process : Process} {w w' v : World}

theorem exposeTools_congr (registry : Registry) (hpresent : ∀ p, (v p).isSome = (w p).isSome) :
    ∀ (tools : List (Text × List String)) (directories : List Text),
      exposeTools host process v registry tools directories = exposeTools host process w registry tools directories
  | [], _ => rfl
  | tool :: tools, directories => by
    have hfile : isFile host process v = isFile host process w := funext fun p => hpresent _
    have htool : exposeTool host process v registry tool directories =
        exposeTool host process w registry tool directories := by
      unfold exposeTool
      rw [hfile]
    rw [exposeTools, exposeTools, htool]
    cases exposeTool host process w registry tool directories with
    | error message => rfl
    | ok directories' => exact exposeTools_congr registry hpresent tools directories'

/-- The search path depends on the registry and on which files there are. -/
theorem exposeBuildengineTools_congr (hregistry : v (toolsState host process) = w (toolsState host process))
    (hpresent : ∀ p, (v p).isSome = (w p).isSome) :
    exposeBuildengineTools host process v = exposeBuildengineTools host process w := by
  have htools : exposeTools host process v = exposeTools host process w := by
    funext registry tools directories
    exact exposeTools_congr registry hpresent tools directories
  unfold exposeBuildengineTools exposedDirectories
  rw [hregistry, htools]

/-- The hand-over to Meson. -/
def started (host : Host) (process : Process) (searchPath : Text) : Outcome :=
  .meson ((mesonEntry host process).str :: process.argv.drop 2) (mesonRoot host process).str searchPath

/-- What a process needs of the files besides its patchers. -/
structure Starts (host : Host) (w : World) (process : Process) (searchPath : Text) : Prop where
  arguments : 3 ≤ process.argv.length
  entry : (w (mesonEntry host process)).isSome
  tools : exposeBuildengineTools host process w = .ok searchPath

theorem Starts.congr {searchPath : Text} (h : Starts host w process searchPath)
    (hregistry : v (toolsState host process) = w (toolsState host process))
    (hpresent : ∀ p, (v p).isSome = (w p).isSome) : Starts host v process searchPath where
  arguments := h.arguments
  entry := (hpresent _).trans h.entry
  tools := (exposeBuildengineTools_congr hregistry hpresent).trans h.tools

theorem main_eq {searchPath : Text} (h : Starts host v process searchPath) {script : Script}
    (hrun : runPatchers (patchers host process script) v = (w', none)) :
    main host process script v = (w', started host process searchPath) := by
  have harguments : ¬ process.argv.length < 3 := Nat.not_lt.2 h.arguments
  have hentry : (v (mesonEntry host process)).isNone = false := by
    rw [Option.isNone_eq_false_iff]
    exact h.entry
  unfold main started
  rw [if_neg harguments, if_neg (Bool.not_eq_true _ ▸ hentry), h.tools]
  simp only [hrun]

end Process

/-- The files of a session. -/
def Patched (host : Host) (runs : List (Script × Process)) (p : PurePath) : Prop :=
  ∃ run ∈ runs, ∃ e ∈ patchers host run.2 run.1, e.path = p

theorem session_advances {host : Host} {w w' : World} {searchPath : Process → Text}
    (hpresent : ∀ p, (w' p).isSome = (w p).isSome) : ∀ {runs : List (Script × Process)},
    (∀ run ∈ runs, Starts host w run.2 (searchPath run.2) ∧
      w' (toolsState host run.2) = w (toolsState host run.2) ∧ ∀ e ∈ patchers host run.2 run.1, Leads w w' e) →
    ∀ {v : World}, Between w w' v →
    ∃ v', session host runs v = (v', runs.map fun run => started host run.2 (searchPath run.2)) ∧
      Advances w w' v v' (Patched host runs)
  | [], _, v, hv => by
    refine ⟨v, rfl, hv, fun _ h => h, ?_⟩
    rintro p ⟨run, hrun, -⟩
    cases hrun
  | run :: runs, h, v, hv => by
    obtain ⟨hstarts, hregistry, hleads⟩ := h run (List.mem_cons_self ..)
    have hpresent' : ∀ p, (v p).isSome = (w p).isSome := fun p => by
      rcases hv p with hp | hp
      · rw [hp]
      · rw [hp, hpresent p]
    have hregistry' : v (toolsState host run.2) = w (toolsState host run.2) := by
      rcases hv (toolsState host run.2) with hp | hp
      · exact hp
      · exact hp.trans hregistry
    obtain ⟨v₁, hrun, hstep⟩ := runPatchers_advances hleads hv
    obtain ⟨v', hrest, hsteps⟩ := session_advances hpresent
      (fun run' hrun' => h run' (List.mem_cons_of_mem _ hrun')) hstep.between
    have hall := hstep.trans hsteps
    refine ⟨v', ?_, hall.between, hall.keeps, ?_⟩
    · rw [session, main_eq (hstarts.congr hregistry' hpresent') hrun]
      simp only [hrest, List.map_cons]
    · rintro p ⟨run', hrun', he⟩
      rcases List.mem_cons.1 hrun' with rfl | hrun'
      · exact hall.finishes p (.inl he)
      · exact hall.finishes p (.inr ⟨run', hrun', he⟩)

/-! ## The files of the patchers -/

theorem meson_settles {f : MesonFile} {text : Text} {edits : List Meson.Edit} (hup : Upstream f text)
    (hnewlines : '\r' ∉ text) (hnodup : edits.Nodup) : Settles (patch f) (variant edits f text) (migrated f text) := by
  refine ⟨variant_migrates hup hnodup, ?_, TextFile.read_eq_self (not_mem_migrated hnewlines)⟩
  have hagain := patch_migrated hup
  split at hagain
  · exact .inr hagain
  · exact .inl hagain

/-- The text of the test driver with the line ends of both sides normalised. -/
def driven (text : Text) : Text :=
  if patchedGlcpp <:+: text then text else replaceFirst originalGlcpp patchedGlcpp text

theorem not_mem_patchedGlcpp : '\r' ∉ patchedGlcpp := by
  simp only [patchedGlcpp, lines, List.flatMap_cons, List.flatMap_nil]
  repeat rw [String.toList_ofList]
  decide +kernel

theorem glcpp_settles {text : Text} (hnewlines : '\r' ∉ text)
    (h : patchedGlcpp <:+: text ∨ count originalGlcpp text = 1) : Settles patchGlcpp text (driven text) := by
  by_cases hin : patchedGlcpp <:+: text
  · have hdriven : driven text = text := if_pos hin
    have hkeep : patchGlcpp text = .keep := if_pos hin
    rw [hdriven]
    exact ⟨.inr ⟨hkeep, rfl⟩, .inl hkeep, TextFile.read_eq_self hnewlines⟩
  · have hcount := h.resolve_left hin
    have hdriven : driven text = replaceFirst originalGlcpp patchedGlcpp text := if_neg hin
    have hne : originalGlcpp ≠ [] := by decide +kernel
    have horiginal : originalGlcpp <:+: text := (count_pos_iff hne).1 (by omega)
    rw [hdriven]
    refine ⟨.inl ?_, .inl (if_pos (infix_replaceFirst horiginal)), TextFile.read_eq_self fun hmem => ?_⟩
    · rw [patchGlcpp, if_neg hin, if_neg (not_not.2 hcount)]
    · rcases mem_replaceFirst hmem with hmem | hmem
      · exact hnewlines hmem
      · exact not_mem_patchedGlcpp hmem

/-- What a patcher does is known by the name of its file. -/
def Known (e : Patcher) : Prop :=
  (∃ root f, e.path = mesonPath root f ∧ e.decide = patch f) ∨ ∃ root, e.path = testDriver root ∧ e.decide = patchGlcpp

theorem mesonPath_ne_testDriver {root root' : PurePath} {f : MesonFile} : mesonPath root f ≠ testDriver root' := by
  intro h
  have hname : (mesonPath root f).name = (testDriver root').name := congrArg PurePath.name h
  revert hname
  cases f <;> simp [mesonPath, testDriver, PurePath.name, PurePath.join]

theorem mesonPath_file {root root' : PurePath} {f f' : MesonFile} (h : mesonPath root f = mesonPath root' f') :
    f = f' := by
  have hname : (mesonPath root f).name = (mesonPath root' f').name := congrArg PurePath.name h
  revert hname
  cases f <;> cases f' <;> simp [mesonPath, PurePath.name, PurePath.join]

theorem Known.decide_eq {e e' : Patcher} (h : Known e) (h' : Known e') (hpath : e.path = e'.path) :
    e.decide = e'.decide := by
  rcases h with ⟨root, f, hp, hd⟩ | ⟨root, hp, hd⟩
  · rcases h' with ⟨root', f', hp', hd'⟩ | ⟨root', hp', hd'⟩
    · obtain rfl := mesonPath_file (hp.symm.trans (hpath.trans hp'))
      exact hd.trans hd'.symm
    · exact absurd (hp.symm.trans (hpath.trans hp')) mesonPath_ne_testDriver
  · rcases h' with ⟨root', f', hp', hd'⟩ | ⟨root', hp', hd'⟩
    · exact absurd (hp'.symm.trans (hpath.symm.trans hp)) mesonPath_ne_testDriver
    · exact hd.trans hd'.symm

section Members

variable {host : Host} {process : Process} {script : Script} {e : Patcher}

theorem mesonPatcher_some {missing : Text} {f : MesonFile} (h : mesonPatcher host process missing f = some e) :
    isBcc64x host process = true ∧ e.path = mesonPath (mesonRoot host process) f ∧ e.decide = patch f := by
  unfold mesonPatcher at h
  split at h
  · cases h
  · rename_i hcompiler
    cases h
    exact ⟨by simpa using hcompiler, rfl, rfl⟩

theorem mesa_known (h : patchMesaGlcppTestNewlines host process = some e) :
    ∃ root, e.path = testDriver root ∧ e.decide = patchGlcpp := by
  unfold patchMesaGlcppTestNewlines at h
  split at h
  · split at h
    · cases h
    · cases h
      exact ⟨_, rfl, rfl⟩
  · cases h

theorem mem_treePatchers (h : some e ∈ treePatchers host process) :
    isBcc64x host process = true ∧ ∃ f, e.path = mesonPath (mesonRoot host process) f ∧ e.decide = patch f := by
  have hpatcher : ∃ missing f, mesonPatcher host process missing f = some e := by
    rw [treePatchers, List.mem_cons, List.mem_cons, List.mem_singleton] at h
    rcases h with h | h | h
    · exact ⟨_, .detect, h.symm⟩
    · exact ⟨_, .linkers, h.symm⟩
    · exact ⟨_, .vsenv, h.symm⟩
  obtain ⟨missing, f, hsome⟩ := hpatcher
  obtain ⟨hcompiler, hpath, hdecide⟩ := mesonPatcher_some hsome
  exact ⟨hcompiler, f, hpath, hdecide⟩

theorem mem_patchers (h : e ∈ patchers host process script) :
    (isBcc64x host process = true ∧ ∃ f, e.path = mesonPath (mesonRoot host process) f ∧ e.decide = patch f) ∨
      (script = .openglMeson ∧ patchMesaGlcppTestNewlines host process = some e) := by
  cases script with
  | openglMeson =>
    rw [patchers, List.reduceOption_mem_iff, List.mem_append, List.mem_singleton] at h
    rcases h with h | h
    · exact .inl (mem_treePatchers h)
    · exact .inr ⟨rfl, h.symm⟩
  | mesonBcc64x =>
    rw [patchers, List.reduceOption_mem_iff] at h
    exact .inl (mem_treePatchers h)

theorem known (h : e ∈ patchers host process script) : Known e := by
  rcases mem_patchers h with ⟨-, f, hpath, hdecide⟩ | ⟨-, hmesa⟩
  · exact .inl ⟨_, f, hpath, hdecide⟩
  · exact .inr (mesa_known hmesa)

theorem exists_patcher (script : Script) (hcompiler : isBcc64x host process = true) (f : MesonFile) :
    ∃ e ∈ patchers host process script, e.path = mesonPath (mesonRoot host process) f := by
  have hsome : ∀ missing : Text, mesonPatcher host process missing f =
      some ⟨mesonPath (mesonRoot host process) f, missing, patch f⟩ := fun missing => by
    rw [mesonPatcher, hcompiler]
    rfl
  have htree : ∃ missing : Text, some ⟨mesonPath (mesonRoot host process) f, missing, patch f⟩ ∈
      treePatchers host process := by
    cases f with
    | detect => exact ⟨_, by rw [← hsome]; exact .head _⟩
    | linkers => exact ⟨_, by rw [← hsome]; exact .tail _ (.head _)⟩
    | vsenv => exact ⟨_, by rw [← hsome]; exact .tail _ (.tail _ (.head _))⟩
  obtain ⟨missing, hmem⟩ := htree
  refine ⟨⟨mesonPath (mesonRoot host process) f, missing, patch f⟩, ?_, rfl⟩
  cases script with
  | openglMeson => exact List.reduceOption_mem_iff.2 (List.mem_append_left _ hmem)
  | mesonBcc64x => exact List.reduceOption_mem_iff.2 hmem

theorem mesa_mem_patchers (h : patchMesaGlcppTestNewlines host process = some e) :
    e ∈ patchers host process .openglMeson :=
  List.reduceOption_mem_iff.2 (List.mem_append_right _ (List.mem_singleton.2 h.symm))

end Members

/-! ## Where a session leads -/

/-- The files as the first patcher of each path leaves them. -/
def patchedBy (es : List Patcher) (w : World) : World := fun p =>
  match es.find? fun e => e.path = p with
  | some e => (e.run w).1 p
  | none => w p

theorem run_congr {e e' : Patcher} (hpath : e.path = e'.path) (hdecide : e.decide = e'.decide) (w : World)
    (p : PurePath) : (e.run w).1 p = (e'.run w).1 p := by
  unfold Patcher.run
  rw [hpath, hdecide]
  cases w e'.path with
  | none => rfl
  | some content => cases e'.decide (TextFile.read content) <;> rfl

theorem patchedBy_of_mem {es : List Patcher} (hknown : ∀ e ∈ es, Known e) {e : Patcher} (he : e ∈ es) (w : World) :
    patchedBy es w e.path = (e.run w).1 e.path := by
  unfold patchedBy
  cases hfind : es.find? fun e' => decide (e'.path = e.path) with
  | none =>
    have hno := List.find?_eq_none.1 hfind e he
    exact absurd (decide_eq_true rfl) hno
  | some e' =>
    have hpath : e'.path = e.path := by simpa using List.find?_some hfind
    have hmem : e' ∈ es := List.mem_of_find?_eq_some hfind
    exact run_congr hpath ((hknown e' hmem).decide_eq (hknown e he) hpath) w e.path

theorem patchedBy_of_not_mem {es : List Patcher} {p : PurePath} (h : ∀ e ∈ es, e.path ≠ p) (w : World) :
    patchedBy es w p = w p := by
  have hfind : (es.find? fun e => decide (e.path = p)) = none := List.find?_eq_none.2 fun e he => by simpa using h e he
  rw [patchedBy, hfind]

/-- The files of the pinned Meson at a root, with any edits of the bootstrap or of its first version. -/
def MesonTree (upstream : MesonFile → Text) (w : World) (root : PurePath) : Prop :=
  ∀ f, ∃ content edits, w (mesonPath root f) = some content ∧ edits.Nodup ∧
    TextFile.read content = variant edits f (upstream f)

/-- A test driver that is patched, or has the context once. -/
def MesaDriver (w : World) (path : PurePath) : Prop :=
  ∃ content, w path = some content ∧
    (patchedGlcpp <:+: TextFile.read content ∨ count originalGlcpp (TextFile.read content) = 1)

/-- Files on which every process of a session can start Meson. -/
structure Prepared (host : Host) (upstream : MesonFile → Text) (searchPath : Process → Text)
    (runs : List (Script × Process)) (w : World) : Prop where
  pinned : ∀ f, Upstream f (upstream f)
  newlines : ∀ f, '\r' ∉ upstream f
  starts : ∀ run ∈ runs, Starts host w run.2 (searchPath run.2)
  registry : ∀ run ∈ runs, ¬ Patched host runs (toolsState host run.2)
  trees : ∀ run ∈ runs, isBcc64x host run.2 = true → MesonTree upstream w (mesonRoot host run.2)
  drivers : ∀ run ∈ runs, run.1 = .openglMeson → ∀ e, patchMesaGlcppTestNewlines host run.2 = some e →
    MesaDriver w e.path

/-- The Meson trees are migrated, the test drivers driven, and all other files as they were. -/
structure Migrated (host : Host) (upstream : MesonFile → Text) (runs : List (Script × Process)) (w w' : World) :
    Prop where
  trees : ∀ run ∈ runs, isBcc64x host run.2 = true → ∀ f, ∃ content,
    w' (mesonPath (mesonRoot host run.2) f) = some content ∧ TextFile.read content = migrated f (upstream f)
  drivers : ∀ run ∈ runs, run.1 = .openglMeson → ∀ e, patchMesaGlcppTestNewlines host run.2 = some e →
    ∃ content content', w e.path = some content ∧ w' e.path = some content' ∧
      TextFile.read content' = driven (TextFile.read content)
  rest : ∀ p, ¬ Patched host runs p → w' p = w p

section Session

variable {host : Host} {upstream : MesonFile → Text} {searchPath : Process → Text} {runs : List (Script × Process)}
variable {w : World}

/-- The patchers of a session. -/
def sessionPatchers (host : Host) (runs : List (Script × Process)) : List Patcher :=
  runs.flatMap fun run => patchers host run.2 run.1

theorem mem_sessionPatchers {e : Patcher} :
    e ∈ sessionPatchers host runs ↔ ∃ run ∈ runs, e ∈ patchers host run.2 run.1 := List.mem_flatMap

/-- What the patchers of a prepared session come to. -/
theorem Prepared.settles (h : Prepared host upstream searchPath runs w) {run : Script × Process} (hrun : run ∈ runs)
    {e : Patcher} (he : e ∈ patchers host run.2 run.1) :
    ∃ content after, w e.path = some content ∧ Settles e.decide (TextFile.read content) after ∧
      (∀ f root, e.path = mesonPath root f → after = migrated f (upstream f)) ∧
      (∀ root, e.path = testDriver root → after = driven (TextFile.read content)) := by
  rcases mem_patchers he with ⟨hcompiler, f, hpath, hdecide⟩ | ⟨hscript, hmesa⟩
  · obtain ⟨content, edits, hcontent, hnodup, htext⟩ := h.trees run hrun hcompiler f
    refine ⟨content, migrated f (upstream f), hpath ▸ hcontent, ?_, fun f' root hpath' => ?_, fun root hpath' => ?_⟩
    · rw [hdecide, htext]
      exact meson_settles (h.pinned f) (h.newlines f) hnodup
    · obtain rfl := mesonPath_file (hpath.symm.trans hpath')
      rfl
    · exact absurd (hpath.symm.trans hpath') mesonPath_ne_testDriver
  · obtain ⟨content, hcontent, htext⟩ := h.drivers run hrun hscript e hmesa
    obtain ⟨root, hpath, hdecide⟩ := mesa_known hmesa
    refine ⟨content, driven (TextFile.read content), hcontent, ?_, fun f root' hpath' => ?_, fun _ _ => rfl⟩
    · rw [hdecide]
      exact glcpp_settles (TextFile.not_mem_read content) htext
    · exact absurd (hpath'.symm.trans hpath) mesonPath_ne_testDriver

/-- Each patcher alone leads to the files behind all of them. -/
theorem Prepared.leads (h : Prepared host upstream searchPath runs w) {run : Script × Process} (hrun : run ∈ runs)
    {e : Patcher} (he : e ∈ patchers host run.2 run.1) :
    Leads w (patchedBy (sessionPatchers host runs) w) e ∧ ∃ content content', w e.path = some content ∧
      patchedBy (sessionPatchers host runs) w e.path = some content' ∧
      (∀ f root, e.path = mesonPath root f → TextFile.read content' = migrated f (upstream f)) ∧
      (∀ root, e.path = testDriver root → TextFile.read content' = driven (TextFile.read content)) := by
  have hknown : ∀ e ∈ sessionPatchers host runs, Known e := fun e he => by
    obtain ⟨run, -, he⟩ := mem_sessionPatchers.1 he
    exact known he
  have hleft := patchedBy_of_mem hknown (mem_sessionPatchers.2 ⟨run, hrun, he⟩) w
  obtain ⟨content, after, hcontent, hsettles, hmeson, hmesa⟩ := h.settles hrun he
  obtain ⟨hleads, content', hcontent', htext⟩ := hsettles.leads hcontent hleft
  exact ⟨hleads, content, content', hcontent, hcontent', fun f root hpath => htext.trans (hmeson f root hpath),
    fun root hpath => htext.trans (hmesa root hpath)⟩

theorem patchedBy_rest {p : PurePath} (hp : ¬ Patched host runs p) :
    patchedBy (sessionPatchers host runs) w p = w p := by
  refine patchedBy_of_not_mem (fun e he hpath => hp ?_) w
  obtain ⟨run, hrun, he⟩ := mem_sessionPatchers.1 he
  exact ⟨run, hrun, e, he, hpath⟩

/-- The processes of a prepared session, in any order and number, from any files on the way. -/
theorem Prepared.advances (h : Prepared host upstream searchPath runs w) {runs' : List (Script × Process)}
    (hsame : ∀ run ∈ runs', run ∈ runs) {v : World} (hv : Between w (patchedBy (sessionPatchers host runs) w) v) :
    ∃ v', session host runs' v = (v', runs'.map fun run => started host run.2 (searchPath run.2)) ∧
      Advances w (patchedBy (sessionPatchers host runs) w) v v' (Patched host runs') := by
  have hpresent : ∀ p, (patchedBy (sessionPatchers host runs) w p).isSome = (w p).isSome := fun p => by
    by_cases hp : Patched host runs p
    · obtain ⟨run, hrun, e, he, rfl⟩ := hp
      obtain ⟨-, content, content', hcontent, hcontent', -⟩ := h.leads hrun he
      rw [hcontent, hcontent']
      rfl
    · rw [patchedBy_rest hp]
  exact session_advances hpresent (fun run hrun => ⟨h.starts run (hsame run hrun),
    patchedBy_rest (h.registry run (hsame run hrun)), fun e he => (h.leads (hsame run hrun) he).1⟩) hv

theorem Prepared.outcomes (h : Prepared host upstream searchPath runs w) :
    (session host runs w).2 = runs.map fun run => started host run.2 (searchPath run.2) := by
  obtain ⟨v', hsession, -⟩ := h.advances (fun _ hrun => hrun) (v := w) fun _ => .inl rfl
  rw [hsession]

/-- A session of processes that can start Meson: every one of them does, with what it was called with. The files end
as migrated and driven; so they do when the processes come in another order or more often, and when a session before
has stopped at any place. -/
theorem session_migrates (h : Prepared host upstream searchPath runs w) :
    ∃ w', Migrated host upstream runs w w' ∧ ∀ runs' : List (Script × Process), (∀ run, run ∈ runs' ↔ run ∈ runs) →
      ∀ v, Between w w' v →
        session host runs' v = (w', runs'.map fun run => started host run.2 (searchPath run.2)) := by
  refine ⟨patchedBy (sessionPatchers host runs) w, ⟨fun run hrun hcompiler f => ?_, fun run hrun hscript e hmesa => ?_,
    fun p hp => patchedBy_rest hp⟩, fun runs' hsame v hv => ?_⟩
  · obtain ⟨e, he, hpath⟩ := exists_patcher run.1 hcompiler f
    obtain ⟨-, content, content', -, hcontent', hmeson, -⟩ := h.leads hrun he
    exact ⟨content', hpath ▸ hcontent', hmeson f _ hpath⟩
  · have he : e ∈ patchers host run.2 run.1 := hscript ▸ mesa_mem_patchers hmesa
    obtain ⟨root, hpath, -⟩ := mesa_known hmesa
    obtain ⟨-, content, content', hcontent, hcontent', -, hdriver⟩ := h.leads hrun he
    exact ⟨content, content', hcontent, hcontent', hdriver root hpath⟩
  · obtain ⟨v', hsession, hadvances⟩ := h.advances (fun run hrun => (hsame run).1 hrun) hv
    have hall : v' = patchedBy (sessionPatchers host runs) w := by
      funext p
      by_cases hp : Patched host runs p
      · obtain ⟨run, hrun, he⟩ := hp
        exact hadvances.finishes p ⟨run, (hsame run).2 hrun, he⟩
      · rcases hadvances.between p with heq | heq
        · rw [heq, patchedBy_rest hp]
        · exact heq
    rw [hsession, hall]

end Session

/-! ## One session -/

def benchHost : Host where
  resolve _ p := p
  parse _ := .ok ⟨"tools".toList, [⟨"winflexbison".toList, "C:/flex/win_flex.exe".toList⟩,
    ⟨"pkg-config".toList, "C:/pkg/pkg-config.exe".toList⟩]⟩
  casefold text := text.map Char.toLower

def benchProcess (arguments : List String) : Process where
  argv := "meson_bootstrap.py".toList :: "C:/meson".toList :: arguments.map String.toList
  cc := some "\"C:/Studio/bin64/bcc64x.exe\"".toList
  buildengineToolsState := some "C:/admin/tools.xml".toList
  path := some "C:/Windows".toList
  cwd := .parse "C:/".toList

/-- Mesa and another project, configured one after the other. -/
def benchRuns : List (Script × Process) :=
  [(.openglMeson, benchProcess ["setup", "build", "C:/mesa"]), (.mesonBcc64x, benchProcess ["setup", "build"])]

def benchPath : Text := "C:\\flex;C:\\pkg;C:/Windows".toList

/-- A path on drive `C:`. -/
def onDrive (words : List String) : PurePath := (PurePath.mk "C:".toList true []).join words

/-- A Meson tree that the first version of the bootstrap has been at, and an upstream test driver. -/
def bench : World := fun p =>
  List.lookup p ([(["meson", "meson.py"], []), (["admin", "tools.xml"], []), (["flex", "win_flex.exe"], []),
    (["flex", "win_bison.exe"], []), (["pkg", "pkg-config.exe"], []),
    (["meson", "mesonbuild", "linkers", "detect.py"], variant [.nix, .method] .detect (originals .detect)),
    (["meson", "mesonbuild", "linkers", "linkers.py"], variant [.nix, .method] .linkers (originals .linkers)),
    (["meson", "mesonbuild", "utils", "vsenv.py"], variant [.nix, .method] .vsenv (originals .vsenv)),
    (["mesa", "src", "compiler", "glsl", "glcpp", "tests", "glcpp_test.py"], originalGlcpp)].map fun file =>
      (onDrive file.1, file.2))

theorem mem_benchRuns {run : Script × Process} (h : run ∈ benchRuns) :
    run = (.openglMeson, benchProcess ["setup", "build", "C:/mesa"]) ∨
      run = (.mesonBcc64x, benchProcess ["setup", "build"]) := by
  rwa [benchRuns, List.mem_cons, List.mem_singleton] at h

theorem Known.name_ne {e : Patcher} (h : Known e) : e.path.name ≠ "tools.xml".toList := by
  rcases h with ⟨root, f, hpath, -⟩ | ⟨root, hpath, -⟩
  · rw [hpath]
    cases f <;> simp [mesonPath, PurePath.name, PurePath.join]
  · rw [hpath]
    simp [testDriver, PurePath.name, PurePath.join]

theorem bench_meson (f : MesonFile) :
    bench (mesonPath (.parse "C:/meson".toList) f) = some (variant [.nix, .method] f (originals f)) := by
  cases f <;> decide +kernel

theorem bench_prepared : Prepared benchHost originals (fun _ => benchPath) benchRuns bench := by
  refine ⟨originals_upstream, not_mem_originals, fun run hrun => ?_, fun run hrun => ?_, fun run hrun _ f => ?_,
    fun run hrun hscript e hmesa => ?_⟩
  · rcases mem_benchRuns hrun with rfl | rfl
    · exact ⟨by decide, by decide +kernel, by decide +kernel⟩
    · exact ⟨by decide, by decide +kernel, by decide +kernel⟩
  · rintro ⟨run', -, e, he, hpath⟩
    have hname : (toolsState benchHost run.2).name = "tools.xml".toList := by
      rcases mem_benchRuns hrun with rfl | rfl <;> decide +kernel
    exact (known he).name_ne (hpath ▸ hname)
  · have hroot : mesonRoot benchHost run.2 = .parse "C:/meson".toList := by
      rcases mem_benchRuns hrun with rfl | rfl <;> rfl
    refine ⟨_, [.nix, .method], hroot ▸ bench_meson f, by decide, ?_⟩
    exact TextFile.read_eq_self (not_mem_foldl _ (not_mem_originals f))
  · rcases mem_benchRuns hrun with rfl | rfl
    · have hpath : (patchMesaGlcppTestNewlines benchHost (benchProcess ["setup", "build", "C:/mesa"])).map
          Patcher.path = some (testDriver (.parse "C:/mesa".toList)) := by decide +kernel
      rw [hmesa, Option.map_some, Option.some_inj] at hpath
      rw [hpath]
      exact ⟨originalGlcpp, by decide +kernel, .inr (by decide +kernel)⟩
    · cases hscript

theorem session_migrates_bench : ∃ w', Migrated benchHost originals benchRuns bench w' ∧
    session benchHost benchRuns bench =
      (w', benchRuns.map fun run => started benchHost run.2 benchPath) := by
  obtain ⟨w', hmigrated, hsession⟩ := session_migrates bench_prepared
  exact ⟨w', hmigrated, hsession benchRuns (fun _ => Iff.rfl) bench fun _ => .inl rfl⟩

end BuildEngine.Meson.Main
