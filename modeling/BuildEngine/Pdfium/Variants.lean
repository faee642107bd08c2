/-
The step `disable-pdfium-chromium-cfg` in the Release and the Debug variant of one build. Each execution reads the
one `BUILD.gn` of the workspace, computes, truncates the file and writes it; the variants take their steps in any
order. The executions are safe exactly in the orders in which both variants read before one truncates, and both
truncate before one has written (`variants_safe_iff`).
-/
import BuildEngine.Base.Schedule
import BuildEngine.Pdfium.DisableCfg

namespace BuildEngine.Pdfium

open Base.Schedule

inductive Variant where
  | release
  | debug
  deriving DecidableEq, Repr

def Variant.other : Variant → Variant
  | .release => .debug
  | .debug => .release

inductive Phase where
  | ready
  | loaded (s : Text)
  | computed (t : Text)
  | truncated (t : Text)
  | finished
  | failed (message : String)
  deriving DecidableEq, Repr

structure Workspace where
  text : Text
  phase : Variant → Phase

def Workspace.start (s : Text) : Workspace := ⟨s, fun _ => .ready⟩

def Workspace.goto (w : Workspace) (v : Variant) (phase : Phase) : Workspace :=
  { w with phase := Function.update w.phase v phase }

/-- The next step of the execution in variant `v`. -/
def step (v : Variant) (w : Workspace) : Workspace :=
  match w.phase v with
  | .ready => w.goto v (.loaded w.text)
  | .loaded s =>
    match script s with
    | .ok t => w.goto v (.computed t)
    | .error message => w.goto v (.failed message)
  | .computed t => { w.goto v (.truncated t) with text := [] }
  | .truncated t => { w.goto v .finished with text := t ++ w.text.drop t.length }
  | .finished => w
  | .failed _ => w

/-- Every variant takes the four steps of its execution. -/
def Complete (schedule : List Variant) : Prop := ∀ v, schedule.count v = 4

/-- Both executions succeed with the text `t`, and a variant that has finished finds `t` whenever it looks. -/
structure Safe (s t : Text) (schedule : List Variant) : Prop where
  succeeds : ∀ v, (run step schedule (.start s)).phase v = .finished
  final : (run step schedule (.start s)).text = t
  observed : ∀ pre, pre <+: schedule → ∀ v, (run step pre (.start s)).phase v = .finished →
    (run step pre (.start s)).text = t

/-- A variant reads while the other one has not truncated the file (which is the third step), and it truncates
while the other one has not written it (which is the fourth). -/
def Ordered (schedule : List Variant) : Prop :=
  ∀ pre v, pre ++ [v] <+: schedule → (pre.count v = 0 → pre.count v.other ≤ 2) ∧
    (pre.count v = 2 → pre.count v.other ≤ 3)

/-! ## One step -/

@[simp] theorem goto_text (w : Workspace) (v : Variant) (phase : Phase) : (w.goto v phase).text = w.text := rfl

@[simp] theorem goto_phase_self (w : Workspace) (v : Variant) (phase : Phase) : (w.goto v phase).phase v = phase :=
  Function.update_self ..

theorem other_ne (v : Variant) : v.other ≠ v := by
  cases v <;> decide

theorem eq_other {u v : Variant} (h : u ≠ v) : u = v.other := by
  cases u <;> cases v <;> first | rfl | exact absurd rfl h

/-! ## The ordered runs -/

section Ordered

variable (s t : Text)

/-- The phase of an execution that has taken `n` steps. -/
def phaseAt : ℕ → Phase
  | 0 => .ready
  | 1 => .loaded s
  | 2 => .computed t
  | 3 => .truncated t
  | _ => .finished

/-- The text of the file when the executions have taken `m` and `n` steps. -/
def textAt (m n : ℕ) : Text :=
  if m ≤ 2 ∧ n ≤ 2 then s else if m ≤ 3 ∧ n ≤ 3 then [] else t

def workspaceAt (pre : List Variant) : Workspace :=
  ⟨textAt s t (pre.count .release) (pre.count .debug), fun v => phaseAt s t (pre.count v)⟩

variable {s t}

theorem textAt_comm (m n : ℕ) : textAt s t m n = textAt s t n m := by
  unfold textAt
  simp only [and_comm]

theorem textAt_before {m n : ℕ} (hm : m ≤ 2) (hn : n ≤ 2) : textAt s t m n = s := if_pos ⟨hm, hn⟩

theorem textAt_open {m n : ℕ} (h : m = 3) (hn : n ≤ 3) : textAt s t m n = [] := by
  unfold textAt
  rw [if_neg (by omega), if_pos (by omega)]

theorem textAt_written {m n : ℕ} (h : 4 ≤ m ∨ 4 ≤ n) : textAt s t m n = t := by
  unfold textAt
  rw [if_neg (by omega), if_neg (by omega)]

theorem workspaceAt_nil : workspaceAt s t [] = .start s := rfl

theorem workspaceAt_phase (pre : List Variant) (v : Variant) :
    (workspaceAt s t pre).phase v = phaseAt s t (pre.count v) := rfl

theorem workspaceAt_text (pre : List Variant) (v : Variant) :
    (workspaceAt s t pre).text = textAt s t (pre.count v) (pre.count v.other) := by
  cases v with
  | release => rfl
  | debug => exact textAt_comm ..

theorem count_snoc_self (pre : List Variant) (v : Variant) : (pre ++ [v]).count v = pre.count v + 1 := by
  rw [List.count_append, List.count_singleton_self]

theorem count_snoc_other (pre : List Variant) (v : Variant) : (pre ++ [v]).count v.other = pre.count v.other := by
  rw [List.count_append, List.count_singleton, if_neg (by simpa using (other_ne v).symm), Nat.add_zero]

theorem workspaceAt_snoc (pre : List Variant) (v : Variant) : workspaceAt s t (pre ++ [v]) =
    { (workspaceAt s t pre).goto v (phaseAt s t (pre.count v + 1)) with
      text := textAt s t (pre.count v + 1) (pre.count v.other) } := by
  have htext := workspaceAt_text (s := s) (t := t) (pre ++ [v]) v
  rw [count_snoc_self, count_snoc_other] at htext
  have hphase : (workspaceAt s t (pre ++ [v])).phase =
      Function.update (workspaceAt s t pre).phase v (phaseAt s t (pre.count v + 1)) := by
    funext u
    by_cases hu : u = v
    · subst hu
      rw [Function.update_self]
      rw [workspaceAt_phase, count_snoc_self]
    · obtain rfl := eq_other hu
      rw [Function.update_of_ne hu]
      rw [workspaceAt_phase, workspaceAt_phase, count_snoc_other]
  rw [← htext]
  exact congrArg₂ Workspace.mk rfl hphase

/-- The step lemma: in order, an execution reads `s`, and it writes into an empty file or over `t`. -/
theorem step_workspaceAt (hscript : script s = .ok t) {pre : List Variant} {v : Variant}
    (hcount : pre.count v ≤ 3) (hread : pre.count v = 0 → pre.count v.other ≤ 2)
    (htruncate : pre.count v = 2 → pre.count v.other ≤ 3) :
    step v (workspaceAt s t pre) = workspaceAt s t (pre ++ [v]) := by
  have htext := workspaceAt_text (s := s) (t := t) pre v
  have hphase := workspaceAt_phase (s := s) (t := t) pre v
  rw [workspaceAt_snoc]
  generalize pre.count v = n at *
  generalize pre.count v.other = m at *
  unfold step
  match n, hcount with
  | 0, _ =>
    rw [hphase, phaseAt, htext, textAt_before (by omega) (hread rfl)]
    refine congrArg₂ Workspace.mk ?_ rfl
    rw [htext, textAt_before (by omega) (hread rfl), textAt_before (by omega) (hread rfl)]
  | 1, _ =>
    rw [hphase, phaseAt]
    simp only [hscript]
    refine congrArg₂ Workspace.mk ?_ rfl
    rw [htext]
    -- the file of another execution does not depend on whether this one has computed
    simp [textAt]
  | 2, _ =>
    rw [hphase, phaseAt]
    refine congrArg₂ Workspace.mk ?_ rfl
    rw [textAt_open rfl (htruncate rfl)]
  | 3, _ =>
    rw [hphase, phaseAt]
    refine congrArg₂ Workspace.mk ?_ rfl
    rw [htext, textAt_written (.inl le_rfl)]
    by_cases hm : m ≤ 3
    · rw [textAt_open rfl hm, List.drop_nil, List.append_nil]
    · rw [textAt_written (.inr (by omega)), List.drop_length, List.append_nil]

end Ordered

/-- The workspace in an ordered run: what the executions have done so far says it all. -/
theorem run_eq_workspaceAt {s t : Text} (hscript : script s = .ok t) {schedule : List Variant}
    (hcomplete : Complete schedule) (hordered : Ordered schedule) :
    ∀ pre, pre <+: schedule → run step pre (.start s) = workspaceAt s t pre := by
  intro pre
  induction pre using List.reverseRecOn with
  | nil => exact fun _ => workspaceAt_nil.symm
  | append_singleton pre v ih =>
    intro hpre
    have hcount : (pre ++ [v]).count v ≤ 4 := hcomplete v ▸ hpre.sublist.count_le v
    rw [count_snoc_self] at hcount
    obtain ⟨hread, htruncate⟩ := hordered pre v hpre
    rw [run_append, ih ((List.prefix_append ..).trans hpre)]
    exact step_workspaceAt hscript (by omega) hread htruncate

theorem Ordered.safe {s t : Text} (hscript : script s = .ok t) {schedule : List Variant}
    (hcomplete : Complete schedule) (hordered : Ordered schedule) : Safe s t schedule := by
  have hrun := run_eq_workspaceAt hscript hcomplete hordered
  refine ⟨fun v => ?_, ?_, fun pre hpre v hfinished => ?_⟩
  · rw [hrun _ List.prefix_rfl, workspaceAt_phase, hcomplete v]
    rfl
  · rw [hrun _ List.prefix_rfl, workspaceAt_text _ .release, hcomplete]
    exact textAt_written (.inl le_rfl)
  · rw [hrun pre hpre, workspaceAt_phase] at hfinished
    rw [hrun pre hpre, workspaceAt_text _ v]
    refine textAt_written (.inl ?_)
    by_contra hlt
    have hlt : pre.count v < 4 := by omega
    interval_cases pre.count v <;> cases hfinished

/-! ## The orders that go wrong -/

/-- The number of steps an execution in a phase has taken. -/
def Phase.steps : Phase → Option ℕ
  | .ready => some 0
  | .loaded _ => some 1
  | .computed _ => some 2
  | .truncated _ => some 3
  | .finished => some 4
  | .failed _ => none

/-- The execution in `v` has failed, or it has read a text that the script refuses. -/
def Doomed (v : Variant) (w : Workspace) : Prop :=
  (∃ message, w.phase v = .failed message) ∨ ∃ s message, w.phase v = .loaded s ∧ script s = .error message

theorem step_phase_of_ne {u v : Variant} {w : Workspace} (h : u ≠ v) : (step v w).phase u = w.phase u := by
  unfold step
  split
  · exact Function.update_of_ne h ..
  · split <;> exact Function.update_of_ne h ..
  · exact Function.update_of_ne h ..
  · exact Function.update_of_ne h ..
  · rfl
  · rfl

theorem doomed_step {u v : Variant} {w : Workspace} (h : Doomed u w) : Doomed u (step v w) := by
  by_cases huv : u = v
  · subst huv
    refine .inl ?_
    rcases h with ⟨message, h⟩ | ⟨s, message, h, hscript⟩
    · exact ⟨message, by simp [step, h]⟩
    · exact ⟨message, by simp [step, h, hscript]⟩
  · unfold Doomed
    rw [step_phase_of_ne huv]
    exact h

theorem doomed_run {u : Variant} : ∀ {post : List Variant} {w : Workspace}, Doomed u w →
    Doomed u (run step post w)
  | [], _, h => h
  | v :: vs, w, h => by
    rw [run_cons]
    exact doomed_run (doomed_step h)

theorem Doomed.not_finished {v : Variant} {w : Workspace} (h : Doomed v w) : w.phase v ≠ .finished := by
  rcases h with ⟨message, h⟩ | ⟨s, message, h, -⟩
  · rw [h]
    exact Phase.noConfusion
  · rw [h]
    exact Phase.noConfusion

/-- An execution that is not doomed by its step counts it. -/
theorem steps_step {v : Variant} {w : Workspace} {n : ℕ} (hdoomed : ¬ Doomed v (step v w))
    (hn : (w.phase v).steps = some n) (hlt : n < 4) : ((step v w).phase v).steps = some (n + 1) := by
  cases hp : w.phase v with
  | ready =>
    obtain rfl : 0 = n := by simpa [hp, Phase.steps] using hn
    simp [step, hp, Phase.steps]
  | loaded s =>
    obtain rfl : 1 = n := by simpa [hp, Phase.steps] using hn
    cases hscript : script s with
    | ok t => simp [step, hp, hscript, Phase.steps]
    | error message => exact absurd (.inl ⟨message, by simp [step, hp, hscript]⟩) hdoomed
  | computed t =>
    obtain rfl : 2 = n := by simpa [hp, Phase.steps] using hn
    simp [step, hp, Phase.steps]
  | truncated t =>
    obtain rfl : 3 = n := by simpa [hp, Phase.steps] using hn
    simp [step, hp, Phase.steps]
  | finished =>
    rw [hp] at hn
    cases hn
    omega
  | failed message =>
    rw [hp] at hn
    cases hn

/-- In a run without a doomed execution the phases count the steps. -/
theorem steps_run {s : Text} {schedule : List Variant} (hcomplete : Complete schedule)
    (hdoomed : ∀ pre, pre <+: schedule → ∀ v, ¬ Doomed v (run step pre (.start s))) :
    ∀ pre, pre <+: schedule → ∀ v, ((run step pre (.start s)).phase v).steps = some (pre.count v) := by
  intro pre
  induction pre using List.reverseRecOn with
  | nil => exact fun _ _ => rfl
  | append_singleton pre u ih =>
    intro hpre v
    have hpre' : pre <+: schedule := (List.prefix_append ..).trans hpre
    have hih := ih hpre' v
    rw [run_append]
    by_cases hv : v = u
    · subst hv
      have hcount : (pre ++ [v]).count v ≤ 4 := hcomplete v ▸ hpre.sublist.count_le v
      have hnot := hdoomed _ hpre v
      rw [run_append] at hnot
      rw [count_snoc_self] at hcount ⊢
      exact steps_step hnot hih (by omega)
    · obtain rfl := eq_other hv
      rw [count_snoc_other]
      exact (congrArg _ (step_phase_of_ne hv)).trans hih

theorem Safe.not_doomed {s t : Text} {schedule : List Variant} (h : Safe s t schedule) :
    ∀ pre, pre <+: schedule → ∀ v, ¬ Doomed v (run step pre (.start s)) := by
  rintro pre ⟨post, rfl⟩ v hdoomed
  have hfinished := h.succeeds v
  rw [run_append] at hfinished
  exact (doomed_run hdoomed).not_finished hfinished

/-- The step of `v` with number `n`, counted from 0. -/
theorem exists_step {v : Variant} : ∀ {schedule : List Variant} {n : ℕ}, n < schedule.count v →
    ∃ pre, pre ++ [v] <+: schedule ∧ pre.count v = n
  | [], n, h => absurd h (Nat.not_lt_zero n)
  | u :: us, n, h => by
    by_cases hu : u = v
    · subst hu
      cases n with
      | zero => exact ⟨[], by simp, rfl⟩
      | succ n =>
        rw [List.count_cons_self] at h
        obtain ⟨pre, hpre, hcount⟩ := exists_step (Nat.lt_of_succ_lt_succ h)
        exact ⟨u :: pre, by simpa using hpre, by rw [List.count_cons_self, hcount]⟩
    · rw [List.count_cons_of_ne hu] at h
      obtain ⟨pre, hpre, hcount⟩ := exists_step h
      exact ⟨u :: pre, by simpa using hpre, by rw [List.count_cons_of_ne hu, hcount]⟩

theorem phase_of_steps {phase : Phase} : phase.steps = some 4 → phase = .finished := by
  cases phase <;> simp [Phase.steps]

theorem step_truncates {v : Variant} {w : Workspace} (h : (w.phase v).steps = some 2) : (step v w).text = [] := by
  cases hp : w.phase v with
  | computed t => simp [step, hp]
  | ready | loaded | truncated | finished | failed => simp [hp, Phase.steps] at h

section Unordered

variable {s t : Text} {schedule : List Variant} (hscript : script s = .ok t) (hcomplete : Complete schedule)
  (hsafe : Safe s t schedule)
include hscript hcomplete hsafe

/-- No execution truncates what the other one has written and may look at. -/
theorem Safe.truncates {pre : List Variant} {v : Variant} (hpre : pre ++ [v] <+: schedule)
    (hcount : pre.count v = 2) : pre.count v.other ≤ 3 := by
  by_contra hlt
  have hpre' : pre <+: schedule := (List.prefix_append ..).trans hpre
  have hother : pre.count v.other = 4 := by
    have := hcomplete v.other ▸ hpre'.sublist.count_le v.other
    omega
  have hsteps := steps_run hcomplete hsafe.not_doomed pre hpre'
  have htext : (run step (pre ++ [v]) (.start s)).text = [] := by
    rw [run_append]
    exact step_truncates (hcount ▸ hsteps v)
  have hfinished : (run step (pre ++ [v]) (.start s)).phase v.other = .finished := by
    rw [run_append]
    exact (step_phase_of_ne (other_ne v)).trans (phase_of_steps (hother ▸ hsteps v.other))
  exact script_ne_nil hscript ((hsafe.observed _ hpre v.other hfinished).symm.trans htext)

/-- No execution reads what the other one has truncated, and none reads what it has written: it would truncate that
later. -/
theorem Safe.reads {pre : List Variant} {v : Variant} (hpre : pre ++ [v] <+: schedule)
    (hcount : pre.count v = 0) : pre.count v.other ≤ 2 := by
  by_contra hlt
  have hpre' : pre <+: schedule := (List.prefix_append ..).trans hpre
  have hle : pre.count v.other ≤ 4 := hcomplete v.other ▸ hpre'.sublist.count_le v.other
  rcases (by omega : pre.count v.other = 3 ∨ pre.count v.other = 4) with hother | hother
  · -- the other execution alone has run, up to the truncation
    obtain rfl : pre = [v.other, v.other, v.other] := by
      have hall : ∀ u ∈ pre, u = v.other := by
        rintro u hu
        refine eq_other ?_
        rintro rfl
        exact List.count_eq_zero.1 hcount hu
      have hlength : pre.length = 3 := by rw [← List.count_eq_length.2 fun u hu => (hall u hu).symm, hother]
      exact (List.eq_replicate_iff.2 ⟨hlength, hall⟩ : pre = List.replicate 3 v.other)
    refine hsafe.not_doomed _ hpre v (.inr ⟨[], _, ?_, script_nil⟩)
    simp [step, Workspace.start, hscript, Workspace.goto, (other_ne v).symm]
  · have hv : 2 < schedule.count v := by rw [hcomplete v]; omega
    obtain ⟨later, hlater, htwo⟩ := exists_step hv
    have hle := hsafe.truncates hscript hcomplete hlater htwo
    rcases List.prefix_or_prefix_of_prefix hpre' ((List.prefix_append ..).trans hlater) with hbefore | hbehind
    · have := hbefore.sublist.count_le v.other
      omega
    · have := hbehind.sublist.count_le v
      omega

end Unordered

/-- Exactly the ordered runs are safe. -/
theorem variants_safe_iff {s t : Text} (hscript : script s = .ok t) {schedule : List Variant}
    (hcomplete : Complete schedule) : Safe s t schedule ↔ Ordered schedule := by
  constructor
  · intro hsafe pre v hpre
    exact ⟨hsafe.reads hscript hcomplete hpre, hsafe.truncates hscript hcomplete hpre⟩
  · intro hordered
    exact hordered.safe hscript hcomplete

/-! ## A small file -/

/-- The two blocks and nothing else. -/
def blocks : Text :=
  key "default_cfg_compiler" ++ "/guard:cf".toList ++ ['\x7d'] ++ key "cfi_linker" ++ "/guard:cf".toList ++ ['\x7d']

def emptyBlocks : Text := replacement "default_cfg_compiler" ++ replacement "cfi_linker"

theorem script_blocks : script blocks = .ok emptyBlocks := by decide +kernel

/-- The variants in lockstep. -/
def lockstep : List Variant := [.release, .debug, .release, .debug, .release, .debug, .release, .debug]

theorem lockstep_complete : Complete lockstep := by
  rintro (_ | _) <;> decide

theorem lockstep_ordered : Ordered lockstep := by
  have hall : ∀ pre ∈ lockstep.inits, ∀ v ∈ [Variant.release, .debug], pre ++ [v] <+: lockstep →
      (pre.count v = 0 → pre.count v.other ≤ 2) ∧ (pre.count v = 2 → pre.count v.other ≤ 3) := by decide
  intro pre v hpre
  refine hall pre ((List.mem_inits _ _).2 ((List.prefix_append ..).trans hpre)) v ?_ hpre
  cases v <;> decide

theorem variants_safe_lockstep : Safe blocks emptyBlocks lockstep :=
  (variants_safe_iff script_blocks lockstep_complete).2 lockstep_ordered

/-- One variant after the other: the first one has finished when the second one truncates the file. And a variant
that reads between the truncation and the write of the other one fails. -/
theorem variants_unsafe :
    let sequential : List Variant := List.replicate 4 .release ++ List.replicate 4 .debug
    let between : List Variant := List.replicate 3 .release ++ List.replicate 4 .debug ++ [.release]
    script blocks = .ok emptyBlocks ∧
    Complete sequential ∧ ¬ Safe blocks emptyBlocks sequential ∧
    Complete between ∧ (run step between (.start blocks)).phase .debug =
      .failed "CFG GN config not unique: default_cfg_compiler" := by
  refine ⟨script_blocks, ?_, fun h => ?_, ?_, ?_⟩
  · rintro (_ | _) <;> decide
  · have hobserved := h.observed (List.replicate 4 .release ++ List.replicate 3 .debug)
      ⟨[.debug], rfl⟩ .release (by decide +kernel)
    exact absurd hobserved (by decide +kernel)
  · rintro (_ | _) <;> decide
  · decide +kernel

end BuildEngine.Pdfium
