/-
Staging runs one after the other against one output directory, while the packages change between them. The
script cannot tell a DLL that an earlier run staged from one the application owns: it compares the DLL of
the package with the file of that name and fails when they differ. So the runs refresh the output directory
exactly as long as no staged DLL changes.
-/
import BuildEngine.Stage.Exact

namespace BuildEngine.Stage

open Base

section Histories

variable (F : CaseFold)

/-- The output directory holds the current content of every eligible DLL. -/
def Current (i : Invocation) (output : Folder F) : Prop :=
  ∀ c, Eligible F i c → output.lookup (F.name c.file.name) = some c.file.bytes

/-- Every run succeeds and leaves the current content of every eligible DLL. Each run starts on the output
directory that the previous one left. -/
def Refreshes (sha256 : List UInt8 → Text) (outputDir : Text) : Folder F → List Invocation → Prop
  | _, [] => True
  | output, i :: runs =>
    (stageRuntime sha256 outputDir i output).succeeded = true ∧
    Current F i (stageRuntime sha256 outputDir i output).state.output ∧
    Refreshes sha256 outputDir (stageRuntime sha256 outputDir i output).state.output runs

/-- An invocation whose declarations are accepted, with valid DLLs of one content for each name. -/
structure WellFormed (i : Invocation) : Prop where
  accepted : Accepted F i
  pe : ∀ c, Eligible F i c → peCheck c.theFile c.file.bytes = none
  agree : ∀ c d, Eligible F i c → Eligible F i d → F.name c.file.name = F.name d.file.name →
    c.file.bytes = d.file.bytes

/-- No DLL differs between a run and a later one in both of which it is eligible, unless its name is excluded in
a run between them. -/
def Unchanged (runs : List Invocation) : Prop :=
  ∀ before i between j after, runs = before ++ i :: (between ++ j :: after) →
    ∀ c d, Eligible F i c → Eligible F j d → F.name c.file.name = F.name d.file.name →
      (∀ k ∈ between, ¬ Excluded F k c.file.name) → c.file.bytes = d.file.bytes

/-- The files of the output directory have the content of the eligible DLLs of the runs, as far as they are
still there in the run. -/
def Agrees (output : Folder F) (runs : List Invocation) : Prop :=
  ∀ before j after, runs = before ++ j :: after → ∀ d, Eligible F j d → ∀ f ∈ output.files,
    F.name f.name = F.name d.file.name → (∀ k ∈ before, ¬ Excluded F k f.name) → f.bytes = d.file.bytes

/-- No file of the output directory has the name of an eligible DLL of a run. -/
def Fresh (output : Folder F) (runs : List Invocation) : Prop :=
  ∀ i ∈ runs, ∀ c, Eligible F i c → ∀ f ∈ output.files, F.name f.name ≠ F.name c.file.name

/-- The contents the runs compare. -/
def AllContents (output : Folder F) (runs : List Invocation) (bytes : List UInt8) : Prop :=
  (∃ i ∈ runs, ∃ c, Eligible F i c ∧ c.file.bytes = bytes) ∨ ∃ f ∈ output.files, f.bytes = bytes

end Histories

section

variable {F : CaseFold} {sha256 : List UInt8 → Text} {outputDir : Text}

theorem unchanged_cons {i : Invocation} {runs : List Invocation} :
    Unchanged F (i :: runs) ↔ Unchanged F runs ∧
      ∀ between j after, runs = between ++ j :: after → ∀ c d, Eligible F i c → Eligible F j d →
        F.name c.file.name = F.name d.file.name → (∀ k ∈ between, ¬ Excluded F k c.file.name) →
        c.file.bytes = d.file.bytes := by
  constructor
  · intro h
    constructor
    · intro before i' between j after hruns
      exact h (i :: before) i' between j after (by rw [hruns, List.cons_append])
    · intro between j after hruns
      exact h [] i between j after (by rw [hruns, List.nil_append])
  · rintro ⟨hrest, hfirst⟩ before i' between j after hruns
    cases before with
    | nil =>
      rw [List.nil_append, List.cons.injEq] at hruns
      obtain ⟨rfl, hruns⟩ := hruns
      exact hfirst between j after hruns
    | cons k before =>
      rw [List.cons_append, List.cons.injEq] at hruns
      exact hrest before i' between j after hruns.2

/-- The condition of a history after its first run, on the directory that run has deployed. -/
theorem agrees_cons {i : Invocation} {runs : List Invocation} {output output' : Folder F}
    (hdep : Deployed F i output output') (hfirst : Deployable F i output) :
    (Agrees F output (i :: runs) ∧ Unchanged F (i :: runs)) ↔ (Agrees F output' runs ∧ Unchanged F runs) := by
  rw [unchanged_cons]
  constructor
  · rintro ⟨hagrees, hrest, hchanged⟩
    refine ⟨fun before j after hruns d hd f hf hname hex => ?_, hrest⟩
    rcases hdep.only f hf with ⟨hf, hfex⟩ | ⟨c, hc, rfl⟩
    · refine hagrees (i :: before) j after (by rw [hruns, List.cons_append]) d hd f hf hname fun k hk => ?_
      rcases List.mem_cons.1 hk with rfl | hk
      · exact hfex
      · exact hex k hk
    · exact hchanged before j after hruns c d hc hd hname hex
  · rintro ⟨hagrees, hrest⟩
    refine ⟨fun before j after hruns d hd f hf hname hex => ?_, hrest, ?_⟩
    · cases before with
      | nil =>
        rw [List.nil_append, List.cons.injEq] at hruns
        obtain ⟨rfl, -⟩ := hruns
        exact hfirst.output d hd f hf hname
      | cons k before =>
        rw [List.cons_append, List.cons.injEq] at hruns
        obtain ⟨rfl, hruns⟩ := hruns
        have hf' := hdep.kept f hf (hex i (List.mem_cons_self ..))
        exact hagrees before j after hruns d hd f hf' hname fun k hk => hex k (List.mem_cons_of_mem _ hk)
    · intro between j after hruns c d hc hd hname hex
      -- the staged copy of `c`, possibly under another spelling of its name
      obtain ⟨f, hf, hfname, hbytes⟩ := Folder.lookup_eq_some.1 (hdep.added c hc)
      rw [← hbytes]
      exact hagrees between j after hruns d hd f hf (hfname.trans hname) fun k hk hexk =>
        hex k hk (hexk.congr hfname)

/-- The runs refresh the output directory exactly when no DLL differs from the file that is in its place. -/
theorem refreshes_iff_agrees : ∀ {runs : List Invocation} {output : Folder F}, (∀ i ∈ runs, WellFormed F i) →
    NoCollision sha256 (AllContents F output runs) →
    (Refreshes F sha256 outputDir output runs ↔ Agrees F output runs ∧ Unchanged F runs)
  | [], output, _, _ => by
    constructor
    · intro _
      constructor
      · intro before j after hruns
        cases before with
        | nil => cases hruns
        | cons k before => cases hruns
      · intro before i between j after hruns
        cases before with
        | nil => cases hruns
        | cons k before => cases hruns
    · intro _; trivial
  | i :: runs, output, hwf, hsha => by
    have hi := hwf i (List.mem_cons_self ..)
    have hcontents : ∀ b, Contents F i output b → AllContents F output (i :: runs) b := by
      rintro b (⟨c, hc, rfl⟩ | hf)
      · exact .inl ⟨i, List.mem_cons_self .., c, hc, rfl⟩
      · exact .inr hf
    obtain ⟨hok, hdeployed⟩ := stageRuntime_run outputDir hi.accepted output
      fun a b ha hb => hsha a b (hcontents a ha) (hcontents b hb)
    have hfirst : Agrees F output (i :: runs) → Deployable F i output := fun h =>
      ⟨hi.pe, hi.agree, fun c hc f hf hname => h [] i runs rfl c hc f hf hname fun k hk => by cases hk⟩
    unfold Refreshes
    cases hrun : stageRuntime sha256 outputDir i output with
    | fatal message t =>
      rw [hrun] at hok
      constructor
      · rintro ⟨hsucc, -⟩
        cases hsucc
      · rintro ⟨hagrees, -⟩
        cases hok.2 (hfirst hagrees)
    | done t =>
      rw [hrun] at hok
      have hdep := hdeployed t hrun
      have hdeployable := hok.1 rfl
      have hnext : ∀ b, AllContents F t.output runs b → AllContents F output (i :: runs) b := by
        rintro b (⟨j, hj, c, hc, rfl⟩ | ⟨f, hf, rfl⟩)
        · exact .inl ⟨j, List.mem_cons_of_mem _ hj, c, hc, rfl⟩
        · rcases hdep.only f hf with ⟨hf, -⟩ | ⟨c, hc, rfl⟩
          · exact .inr ⟨f, hf, rfl⟩
          · exact .inl ⟨i, List.mem_cons_self .., c, hc, rfl⟩
      have ih : Refreshes F sha256 outputDir t.output runs ↔ Agrees F t.output runs ∧ Unchanged F runs :=
        refreshes_iff_agrees (fun j hj => hwf j (List.mem_cons_of_mem _ hj))
          fun a b ha hb => hsha a b (hnext a ha) (hnext b hb)
      rw [agrees_cons hdep hdeployable, ← ih]
      constructor
      · rintro ⟨-, -, hrest⟩
        exact hrest
      · intro hrest
        exact ⟨rfl, hdep.added, hrest⟩

end

/-- When the output directory starts without DLLs of the names in question, the runs refresh it exactly when no
DLL changes between two runs in which it is eligible, without being excluded in between. -/
theorem refreshes_iff (F : CaseFold) (sha256 : List UInt8 → Text) (outputDir : Text) (output : Folder F)
    (runs : List Invocation) (wellFormed : ∀ i ∈ runs, WellFormed F i) (fresh : Fresh F output runs)
    (collisionFree : NoCollision sha256 (AllContents F output runs)) :
    Refreshes F sha256 outputDir output runs ↔ Unchanged F runs := by
  rw [refreshes_iff_agrees wellFormed collisionFree]
  constructor
  · rintro ⟨-, h⟩
    exact h
  · intro h
    refine ⟨fun before j after hruns d hd f hf hname _ => ?_, h⟩
    have hj : j ∈ runs := by rw [hruns]; simp
    exact absurd hname (fresh j hj d hd f hf)

/-! ## A rebuilt DLL -/

theorem packageInvocation_wellFormed {bytes : List UInt8}
    (h : peCheck "C:/packages/a/bin/A.dll".toList bytes = none) : WellFormed asciiFold (packageInvocation bytes) := by
  refine ⟨packageInvocation_accepted bytes, fun c hc => ?_, fun c d hc hd _ => ?_⟩
  · rw [eligible_package.1 hc]
    exact h
  · rw [eligible_package.1 hc, eligible_package.1 hd]

/-- A package whose DLL is rebuilt with another content after the first run. -/
def rebuiltRuns : List Invocation := [packageInvocation bareCoff, packageInvocation (bareCoff ++ [0])]

theorem rebuiltRuns_wellFormed : ∀ i ∈ rebuiltRuns, WellFormed asciiFold i := by
  intro i hi
  rcases List.mem_cons.1 hi with rfl | hi
  · exact packageInvocation_wellFormed (by decide)
  · rw [List.mem_singleton.1 hi]
    exact packageInvocation_wellFormed (by decide)

theorem fresh_empty (F : CaseFold) (runs : List Invocation) : Fresh F .empty runs :=
  fun _ _ _ _ f hf => by cases hf

theorem rebuiltRuns_refreshes : Refreshes asciiFold toHex "C:/app".toList .empty rebuiltRuns ↔
    Unchanged asciiFold rebuiltRuns :=
  refreshes_iff asciiFold toHex "C:/app".toList .empty rebuiltRuns rebuiltRuns_wellFormed
    (fresh_empty asciiFold rebuiltRuns) fun _ _ _ _ h => toHex_inj h

/-- The run after the rebuild fails. -/
theorem rebuiltRuns_fails : (∀ i ∈ rebuiltRuns, WellFormed asciiFold i) ∧ Fresh asciiFold .empty rebuiltRuns ∧
    ¬ Refreshes asciiFold toHex "C:/app".toList .empty rebuiltRuns := by
  refine ⟨rebuiltRuns_wellFormed, fresh_empty _ _, ?_⟩
  rintro ⟨-, -, hsecond, -⟩
  revert hsecond
  decide +kernel

end BuildEngine.Stage
