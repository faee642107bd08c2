/-
Any session, from any files: a BCC64X process that starts Meson leaves the patched contexts in its files, and they
stay there whatever the later processes do or where they stop; only the files of the patchers change, and none
appears or goes away.
-/
import BuildEngine.Meson.Session

namespace BuildEngine.Meson

open Base Base.Text

/-! ## What a decision brings in -/

/-- A text that is not stopped at has the marks afterwards, and no carriage return. -/
def Bears (decide : Text → Decision) (marks : List Text) : Prop :=
  ∀ text, '\r' ∉ text → ∀ result, (decide text = .write result ∨ (decide text = .keep ∧ result = text)) →
    '\r' ∉ result ∧ ∀ mark ∈ marks, mark <:+: result

/-- The patched contexts of a file. -/
def marks (f : MesonFile) : List Text := (Edit.contexts f).map Edit.edited

section Contexts

variable {text text' : Text}

theorem Edit.infix_apply {e : Edit} (h : count e.original text = 1) : e.edited <:+: e.apply text :=
  infix_replaceFirst ((count_pos_iff e.borderless.1.1).1 (by omega))

/-- A context that is replaced, or was before, beside another one. -/
theorem patchContext_bears {e : Edit} {isPatched : Bool} {message : String}
    (h : patchContext isPatched e.original e.edited message text = .ok text')
    (hpatched : isPatched = true → e.edited <:+: text) (hno : '\r' ∉ text) :
    '\r' ∉ text' ∧ e.edited <:+: text' ∧
      ∀ e' : Edit, e.file = e'.file → e ≠ e' → e'.edited <:+: text → e'.edited <:+: text' := by
  unfold patchContext at h
  split at h
  · rename_i htrue
    cases h
    exact ⟨hno, hpatched htrue, fun _ _ _ h => h⟩
  · split at h
    · cases h
    · rename_i hcount
      cases h
      exact ⟨e.not_mem_apply hno, Edit.infix_apply (not_not.1 hcount), fun e' hfile hne hin =>
        infix_replaceFirst_of_apart hin (Edit.apart_of_ne hfile hne).1.2⟩

theorem detect_bears : Bears (patch .detect) (marks .detect) := by
  intro text hno result hresult
  have hall : patchedWin <:+: result → patchedNix <:+: result → ∀ mark ∈ marks .detect, mark <:+: result := by
    intro hwin hnix mark hmark
    rcases List.mem_cons.1 hmark with rfl | hmark
    · exact hwin
    · exact List.mem_singleton.1 hmark ▸ hnix
  rw [patch_detect] at hresult
  unfold patchBcc64xLldDetection at hresult
  simp only at hresult
  split at hresult
  · rename_i hboth
    obtain ⟨hwin, hnix⟩ := Bool.and_eq_true_iff.1 hboth
    rcases hresult with hresult | ⟨-, rfl⟩
    · cases hresult
    · exact ⟨hno, hall (of_decide_eq_true hwin) (of_decide_eq_true hnix)⟩
  · split at hresult
    · rcases hresult with hresult | ⟨hresult, -⟩ <;> cases hresult
    · rename_i text₁ hfirst
      obtain ⟨hno₁, hwin, hkeeps⟩ := patchContext_bears (e := .win) hfirst of_decide_eq_true hno
      split at hresult
      · rcases hresult with hresult | ⟨hresult, -⟩ <;> cases hresult
      · rename_i text₂ hsecond
        -- whether the second context is patched was asked before the first one was replaced
        obtain ⟨hno₂, hnix, hkeeps₂⟩ := patchContext_bears (e := .nix) hsecond
          (fun hpatched => hkeeps .nix rfl (by decide) (of_decide_eq_true hpatched)) hno₁
        rcases hresult with hresult | ⟨hresult, -⟩
        · cases hresult
          exact ⟨hno₂, hall (hkeeps₂ .win rfl (by decide) hwin) hnix⟩
        · cases hresult

theorem not_mem_migrateMethod (hno : '\r' ∉ text) : '\r' ∉ migrateMethod text := by
  have horiginal : '\r' ∉ originalMethod := by
    simp only [originalMethod, lines, List.flatMap_cons, List.flatMap_nil]
    repeat rw [String.toList_ofList]
    decide
  unfold migrateMethod
  split
  · exact fun hmem => (mem_replaceFirst hmem).elim hno horiginal
  · exact hno

theorem linkers_bears : Bears (patch .linkers) (marks .linkers) := by
  intro text hno result hresult
  have hno' := not_mem_migrateMethod hno
  rw [patch_linkers] at hresult
  unfold patchWindowsLldAllowUndefined at hresult
  simp only at hresult
  generalize migrateMethod text = text' at hno' hresult
  split at hresult
  · rename_i hin
    rcases hresult with hresult | ⟨hresult, -⟩
    · cases hresult
      exact ⟨hno', fun mark hmark => List.mem_singleton.1 hmark ▸ hin⟩
    · cases hresult
  · split at hresult
    · rcases hresult with hresult | ⟨hresult, -⟩ <;> cases hresult
    · rename_i hcount
      rcases hresult with hresult | ⟨hresult, -⟩
      · cases hresult
        have hin : Edit.probe.edited <:+: Edit.probe.apply text' := Edit.infix_apply (not_not.1 hcount)
        exact ⟨Edit.probe.not_mem_apply hno', fun mark hmark => List.mem_singleton.1 hmark ▸ hin⟩
      · cases hresult

/-- A decision that keeps a patched text, stops unless the context occurs once, and replaces it. -/
theorem replacing_bears {original patched : Text} {message : String} {decide : Text → Decision}
    (hdecide : ∀ text, decide text = if patched <:+: text then .keep
      else if count original text ≠ 1 then .stop message else .write (replaceFirst original patched text))
    (hne : original ≠ []) (hpatched : '\r' ∉ patched) : Bears decide [patched] := by
  intro text hno result hresult
  rw [hdecide] at hresult
  split at hresult
  · rename_i hin
    rcases hresult with hresult | ⟨-, rfl⟩
    · cases hresult
    · exact ⟨hno, fun mark hmark => List.mem_singleton.1 hmark ▸ hin⟩
  · split at hresult
    · rcases hresult with hresult | ⟨hresult, -⟩ <;> cases hresult
    · rename_i hcount
      rcases hresult with hresult | ⟨hresult, -⟩
      · cases hresult
        have hin : original <:+: text := (count_pos_iff hne).1 (by omega)
        refine ⟨fun hmem => (mem_replaceFirst hmem).elim hno hpatched, fun mark hmark => ?_⟩
        exact List.mem_singleton.1 hmark ▸ infix_replaceFirst hin
      · cases hresult

theorem meson_bears (f : MesonFile) : Bears (patch f) (marks f) := by
  cases f with
  | detect => exact detect_bears
  | linkers => exact linkers_bears
  | vsenv => exact replacing_bears (fun _ => rfl) Edit.vsenv.borderless.1.1 Edit.vsenv.not_mem_edited

end Contexts

end BuildEngine.Meson

namespace BuildEngine.Meson.Main

open Base Base.Text

theorem glcpp_bears : Bears patchGlcpp [patchedGlcpp] := by
  have hne : originalGlcpp ≠ [] := by decide
  exact replacing_bears (fun _ => rfl) hne not_mem_patchedGlcpp

/-! ## Marks that stay -/

/-- A file that has the marks. -/
def Served (w : World) (p : PurePath) (marks : List Text) : Prop :=
  ∃ content, w p = some content ∧ ∀ mark ∈ marks, mark <:+: TextFile.read content

/-- Marks that every patcher of the file brings in. -/
def Serves (p : PurePath) (marks : List Text) : Prop := ∀ e, Known e → e.path = p → Bears e.decide marks

theorem serves_meson (root : PurePath) (f : MesonFile) : Serves (mesonPath root f) (marks f) := by
  rintro e (⟨root', f', hpath', hdecide⟩ | ⟨root', hpath', -⟩) hpath
  · obtain rfl := mesonPath_file (hpath'.symm.trans hpath)
    exact hdecide ▸ meson_bears f'
  · exact absurd (hpath.symm.trans hpath') mesonPath_ne_testDriver

theorem serves_driver (root : PurePath) : Serves (testDriver root) [patchedGlcpp] := by
  rintro e (⟨root', f', hpath', -⟩ | ⟨root', hpath', hdecide⟩) hpath
  · exact absurd (hpath'.symm.trans hpath) mesonPath_ne_testDriver
  · exact hdecide ▸ glcpp_bears

/-- What any step does to the files: it changes those of the paths only, none appears or goes away, and marks stay. -/
structure Keeps (paths : PurePath → Prop) (w w' : World) : Prop where
  rest : ∀ p, ¬ paths p → w' p = w p
  present : ∀ p, (w' p).isSome = (w p).isSome
  served : ∀ p marks, Serves p marks → Served w p marks → Served w' p marks

namespace Keeps

variable {w w' w'' : World} {paths paths' : PurePath → Prop}

theorem refl (w : World) (paths : PurePath → Prop) : Keeps paths w w :=
  ⟨fun _ _ => rfl, fun _ => rfl, fun _ _ _ h => h⟩

theorem trans (h : Keeps paths w w') (h' : Keeps paths' w' w'') : Keeps (fun p => paths p ∨ paths' p) w w'' where
  rest p hp := (h'.rest p fun h => hp (.inr h)).trans (h.rest p fun h => hp (.inl h))
  present p := (h'.present p).trans (h.present p)
  served p marks hserves hw := h'.served p marks hserves (h.served p marks hserves hw)

theorem mono (h : Keeps paths w w') (hpaths : ∀ p, paths p → paths' p) : Keeps paths' w w' :=
  ⟨fun p hp => h.rest p fun hpath => hp (hpaths p hpath), h.present, h.served⟩

end Keeps

theorem served_update {w : World} {p : PurePath} {content : Text} {marks : List Text}
    (h : ∀ mark ∈ marks, mark <:+: TextFile.read content) : Served (Function.update w p (some content)) p marks :=
  ⟨content, Function.update_self .., h⟩

/-- A file that is there gets a text with all its marks. -/
theorem Keeps.update {w : World} {path : PurePath} {content : Text} (hpresent : (w path).isSome = true)
    (h : ∀ marks, Serves path marks → ∀ mark ∈ marks, mark <:+: TextFile.read content) :
    Keeps (· = path) w (Function.update w path (some content)) := by
  refine ⟨fun p hp => Function.update_of_ne hp .., fun p => ?_, fun p marks hserves hp => ?_⟩
  · by_cases heq : p = path
    · subst heq
      rw [Function.update_self, hpresent]
      rfl
    · rw [Function.update_of_ne heq]
  · by_cases heq : p = path
    · subst heq
      exact served_update (h marks hserves)
    · obtain ⟨content₀, hcontent₀, hall⟩ := hp
      exact ⟨content₀, (Function.update_of_ne heq ..).trans hcontent₀, hall⟩

/-- A patcher that does not stop leaves its marks. -/
theorem run_keeps {e : Patcher} (hknown : Known e) (w : World) :
    Keeps (· = e.path) w (e.run w).1 ∧
      ((e.run w).2 = none → ∀ marks, Serves e.path marks → Served (e.run w).1 e.path marks) := by
  cases hw : w e.path with
  | none =>
    rw [Patcher.run_missing hw]
    exact ⟨.refl w _, fun h => by cases h⟩
  | some content =>
    have hpresent : (w e.path).isSome = true := by rw [hw, Option.isSome_some]
    have hread := TextFile.not_mem_read content
    cases hdecide : e.decide (TextFile.read content) with
    | keep =>
      have hmarks : ∀ marks, Serves e.path marks → ∀ mark ∈ marks, mark <:+: TextFile.read content :=
        fun marks hserves => (hserves e hknown rfl _ hread _ (.inr ⟨hdecide, rfl⟩)).2
      rw [Patcher.run_keep hw hdecide]
      exact ⟨.update hpresent hmarks, fun _ marks hserves => served_update (hmarks marks hserves)⟩
    | write text =>
      have hmarks : ∀ marks, Serves e.path marks → ∀ mark ∈ marks, mark <:+: TextFile.read text := by
        intro marks hserves
        obtain ⟨hno, hall⟩ := hserves e hknown rfl _ hread text (.inl hdecide)
        rw [TextFile.read_eq_self hno]
        exact hall
      rw [Patcher.run_write hw hdecide]
      exact ⟨.update hpresent hmarks, fun _ marks hserves => served_update (hmarks marks hserves)⟩
    | stop message =>
      rw [Patcher.run_stop hw hdecide]
      exact ⟨.refl w _, fun h => by cases h⟩

theorem runPatchers_keeps : ∀ {es : List Patcher}, (∀ e ∈ es, Known e) → ∀ w : World,
    Keeps (fun p => ∃ e ∈ es, e.path = p) w (runPatchers es w).1 ∧
      ((runPatchers es w).2 = none → ∀ e ∈ es, ∀ marks, Serves e.path marks →
        Served (runPatchers es w).1 e.path marks)
  | [], _, w => ⟨.refl w _, fun _ e he => by cases he⟩
  | e :: es, hknown, w => by
    obtain ⟨hkeeps, hserved⟩ := run_keeps (hknown e (List.mem_cons_self ..)) w
    have hhere : Keeps (fun p => ∃ e' ∈ e :: es, e'.path = p) w (e.run w).1 :=
      hkeeps.mono fun p hp => ⟨e, List.mem_cons_self .., hp.symm⟩
    rw [runPatchers]
    rcases hrun : e.run w with ⟨w₁, _ | message⟩
    · rw [hrun] at hhere hserved
      simp only
      obtain ⟨hkeeps', hserved'⟩ := runPatchers_keeps (fun e' he' => hknown e' (List.mem_cons_of_mem _ he')) w₁
      refine ⟨(hhere.trans hkeeps').mono fun p hp => ?_, fun hnone e' he' marks hserves => ?_⟩
      · rcases hp with hp | ⟨e', he', hp⟩
        · exact hp
        · exact ⟨e', List.mem_cons_of_mem _ he', hp⟩
      · rcases List.mem_cons.1 he' with rfl | he'
        · exact hkeeps'.served _ marks hserves (hserved rfl marks hserves)
        · exact hserved' hnone e' he' marks hserves
    · rw [hrun] at hhere
      exact ⟨hhere, fun h => by cases h⟩

section Process

variable (host : Host)

theorem main_keeps (process : Process) (script : Script) (w : World) :
    Keeps (fun p => ∃ e ∈ patchers host process script, e.path = p) w (main host process script w).1 ∧
      ∀ argv sysPath path, (main host process script w).2 = .meson argv sysPath path →
        ∀ e ∈ patchers host process script, ∀ marks, Serves e.path marks →
          Served (main host process script w).1 e.path marks := by
  have hknown : ∀ e ∈ patchers host process script, Known e := fun _ he => known he
  obtain ⟨hkeeps, hserved⟩ := runPatchers_keeps hknown w
  unfold main
  split
  · exact ⟨.refl w _, fun _ _ _ h => by cases h⟩
  · split
    · exact ⟨.refl w _, fun _ _ _ h => by cases h⟩
    · split
      · exact ⟨.refl w _, fun _ _ _ h => by cases h⟩
      · split
        · rename_i w' message hrun
          rw [hrun] at hkeeps
          exact ⟨hkeeps, fun _ _ _ h => by cases h⟩
        · rename_i w' hrun
          rw [hrun] at hkeeps hserved
          exact ⟨hkeeps, fun _ _ _ _ => hserved rfl⟩

theorem session_keeps : ∀ (runs : List (Script × Process)) (w : World),
    Keeps (Patched host runs) w (session host runs w).1 ∧
      ∀ run argv sysPath path, (run, Outcome.meson argv sysPath path) ∈ runs.zip (session host runs w).2 →
        ∀ e ∈ patchers host run.2 run.1, ∀ marks, Serves e.path marks →
          Served (session host runs w).1 e.path marks
  | [], w => ⟨.refl w _, fun _ _ _ _ h => by cases h⟩
  | run :: runs, w => by
    obtain ⟨hkeeps, hserved⟩ := main_keeps host run.2 run.1 w
    obtain ⟨hkeeps', hserved'⟩ := session_keeps runs (main host run.2 run.1 w).1
    refine ⟨(hkeeps.trans hkeeps').mono fun p hp => ?_, fun run' argv sysPath path hmem e he marks hserves => ?_⟩
    · rcases hp with hp | ⟨run', hrun', hp⟩
      · exact ⟨run, List.mem_cons_self .., hp⟩
      · exact ⟨run', List.mem_cons_of_mem _ hrun', hp⟩
    · have hzip : (run', Outcome.meson argv sysPath path) ∈ (run, (main host run.2 run.1 w).2) ::
          runs.zip (session host runs (main host run.2 run.1 w).1).2 := hmem
      rcases List.mem_cons.1 hzip with heq | hmem
      · obtain ⟨rfl, houtcome⟩ := Prod.mk.inj heq
        exact hkeeps'.served _ marks hserves (hserved argv sysPath path houtcome.symm e he marks hserves)
      · exact hserved' run' argv sysPath path hmem e he marks hserves

/-- A session over any files. A BCC64X process that starts Meson leaves the patched contexts in its Meson tree and in
its test driver, where the processes behind it keep them; a file that no patcher is for stays as it was, and none
appears or goes away. -/
theorem session_serves (runs : List (Script × Process)) (w : World) :
    (∀ run argv sysPath path, (run, Outcome.meson argv sysPath path) ∈ runs.zip (session host runs w).2 →
      (isBcc64x host run.2 = true → ∀ f, Served (session host runs w).1 (mesonPath (mesonRoot host run.2) f) (marks f)) ∧
      (run.1 = .openglMeson → ∀ e, patchMesaGlcppTestNewlines host run.2 = some e →
        Served (session host runs w).1 e.path [patchedGlcpp])) ∧
    (∀ p, ¬ Patched host runs p → (session host runs w).1 p = w p) ∧
    ∀ p, ((session host runs w).1 p).isSome = (w p).isSome := by
  obtain ⟨hkeeps, hserved⟩ := session_keeps host runs w
  refine ⟨fun run argv sysPath path hmem => ⟨fun hcompiler f => ?_, fun hscript e hmesa => ?_⟩, hkeeps.rest,
    hkeeps.present⟩
  · obtain ⟨e, he, hpath⟩ := exists_patcher run.1 hcompiler f
    have hserves : Serves e.path (marks f) := hpath ▸ serves_meson _ f
    exact hpath ▸ hserved run argv sysPath path hmem e he (marks f) hserves
  · have he : e ∈ patchers host run.2 run.1 := hscript ▸ mesa_mem_patchers hmesa
    obtain ⟨root, hpath, -⟩ := mesa_known hmesa
    have hserves : Serves e.path [patchedGlcpp] := hpath ▸ serves_driver root
    exact hserved run argv sysPath path hmem e he [patchedGlcpp] hserves

end Process

end BuildEngine.Meson.Main
