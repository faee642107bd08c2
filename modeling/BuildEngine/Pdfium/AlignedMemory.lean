/-
The script of the step `adapt-pdfium-win32-aligned-memory`: the guards of the aligned allocation in `fx_memory.cpp` and in
`fx_memory.h` are made to ask for Windows, not for the compiler. One loop checks and writes a file before it looks at the
next one. Texts are as `read_text` returns them.
-/
import BuildEngine.Base.Replace
import BuildEngine.Pdfium.DisableCfg

namespace BuildEngine.Pdfium.AlignedMemory

open Base.Text Base.Cut

def original : Text := "#if defined(COMPILER_MSVC)".toList

def replacement : Text := "#if defined(_WIN32)".toList

/-- The texts of the files, and which of them have been written. -/
structure Workspace where
  text : String → Text
  written : List String

def Workspace.write (w : Workspace) (name : String) (text : Text) : Workspace where
  text := Function.update w.text name text
  written := w.written ++ [name]

/-- One turn of the loop. -/
def adapt (name : String) (expected_count : ℕ) (w : Workspace) : Workspace × Except String Unit :=
  let old_text := w.text name
  let old_count := count original old_text
  let new_count := count replacement old_text
  if old_count + new_count ≠ expected_count then
    (w, .error (name ++ ": unexpected platform guards; no modification"))
  else if old_count ≠ 0 ∧ old_count ≠ expected_count then (w, .error (name ++ ": partially patched guard set"))
  else
    let revised := replaceAll original replacement old_text
    (if revised ≠ old_text then w.write name revised else w, .ok ())

def loop : List (String × ℕ) → Workspace → Workspace × Except String Unit
  | [], w => (w, .ok ())
  | (name, expected_count) :: files, w =>
    match adapt name expected_count w with
    | (w, .error message) => (w, .error message)
    | (w, .ok ()) => loop files w

def source : String := "core/fxcrt/fx_memory.cpp"

def header : String := "core/fxcrt/fx_memory.h"

/-- A run over files with these texts. -/
def run (text : String → Text) : Workspace × Except String Unit := loop [(source, 1), (header, 2)] ⟨text, []⟩

/-! ## The guards change together -/

/-- The allocation is patched, a guard of the header is not. -/
def Mismatched (text : String → Text) : Prop :=
  count original (text source) = 0 ∧ 0 < count replacement (text source) ∧ 0 < count original (text header)

/-- A run patches both files, or it fails and writes none. -/
structure Together (text : String → Text) : Prop where
  success : (run text).2 = .ok () → ∀ file ∈ [(source, 1), (header, 2)],
    (run text).1.text file.1 = replaceAll original replacement (text file.1) ∧
      count original ((run text).1.text file.1) = 0 ∧ count replacement ((run text).1.text file.1) = file.2
  failure : ∀ message, (run text).2 = .error message → (run text).1 = ⟨text, []⟩
  /-- No run patches the allocation alone. -/
  no_mismatch : Mismatched (run text).1.text → Mismatched text
  again : (run text).2 = .ok () → run (run text).1.text = (⟨(run text).1.text, []⟩, .ok ())

/-- The expected number of guards, all of them patched or none. -/
def Consistent (expected_count : ℕ) (text : Text) : Prop :=
  count original text + count replacement text = expected_count ∧
    (count original text = 0 ∨ count original text = expected_count)

instance (expected_count : ℕ) (text : Text) : Decidable (Consistent expected_count text) :=
  inferInstanceAs (Decidable (_ ∧ (_ ∨ _)))

/-! ## One file -/

/-- What a turn leaves of a text that it accepts. -/
def adapted (text : Text) : Text := replaceAll original replacement text

/-- The two guards do not overlap, each other or themselves. -/
theorem guards_apart : (Borderless original ∧ Borderless replacement) ∧
    Apart original replacement ∧ Apart replacement original := by
  unfold original replacement
  repeat rw [String.toList_ofList]
  decide

theorem original_ne_nil : original ≠ [] := by
  unfold original
  rw [String.toList_ofList]
  exact List.cons_ne_nil _ _

theorem replacement_ne_nil : replacement ≠ [] := by
  unfold replacement
  rw [String.toList_ofList]
  exact List.cons_ne_nil _ _

theorem count_original_adapted (text : Text) : count original (adapted text) = 0 :=
  count_replaceAll_self original_ne_nil guards_apart.1.1 guards_apart.2.1 text

theorem count_replacement_adapted (text : Text) :
    count replacement (adapted text) = count replacement text + count original text :=
  count_replaceAll original_ne_nil replacement_ne_nil guards_apart.1.1 guards_apart.1.2 guards_apart.2.2 text

theorem adapted_eq_self_iff (text : Text) : adapted text = text ↔ count original text = 0 := by
  constructor
  · intro h
    rw [← h, count_original_adapted]
  · intro h
    apply replaceAll_absent
    rw [← count_pos_iff original_ne_nil]
    omega

theorem Consistent.adapted {expected_count : ℕ} {text : Text} (h : Consistent expected_count text) :
    count replacement (adapted text) = expected_count ∧ Consistent expected_count (adapted text) := by
  have hcount : count replacement (AlignedMemory.adapted text) = expected_count := by
    rw [count_replacement_adapted]
    have hsum := h.1
    omega
  refine ⟨hcount, ?_, .inl (count_original_adapted text)⟩
  rw [count_original_adapted, hcount, Nat.zero_add]

/-- A turn that succeeds writes the adapted text, if it is another one. -/
theorem adapt_ok {name : String} {expected_count : ℕ} {w : Workspace} (h : Consistent expected_count (w.text name)) :
    adapt name expected_count w =
      (if count original (w.text name) = 0 then w else w.write name (adapted (w.text name)), .ok ()) := by
  obtain ⟨hsum, hold⟩ := h
  have hnot : ¬ (count original (w.text name) ≠ 0 ∧ count original (w.text name) ≠ expected_count) := by
    rintro ⟨hzero, hall⟩
    exact hold.elim hzero hall
  have hrevised : replaceAll original replacement (w.text name) = adapted (w.text name) := rfl
  simp only [adapt, hrevised]
  rw [if_neg (not_not.2 hsum), if_neg hnot]
  by_cases hzero : count original (w.text name) = 0
  · rw [if_neg (not_not.2 ((adapted_eq_self_iff _).2 hzero)), if_pos hzero]
  · rw [if_pos fun heq => hzero ((adapted_eq_self_iff _).1 heq), if_neg hzero]

/-- A turn that fails changes nothing. -/
theorem adapt_error {name : String} {expected_count : ℕ} {w : Workspace} (h : ¬ Consistent expected_count (w.text name)) :
    ∃ message, adapt name expected_count w = (w, .error message) := by
  simp only [adapt]
  split
  · exact ⟨_, rfl⟩
  · rename_i hsum
    split
    · exact ⟨_, rfl⟩
    · rename_i hold
      exact absurd ⟨not_not.1 hsum, by tauto⟩ h

/-! ## A run -/

variable {text : String → Text}

/-- The workspace behind the first file, if it is accepted. -/
def sourceAdapted (text : String → Text) : Workspace :=
  if count original (text source) = 0 then ⟨text, []⟩ else Workspace.write ⟨text, []⟩ source (adapted (text source))

/-- The texts behind both files. -/
def patched (text : String → Text) : String → Text :=
  Function.update (Function.update text source (adapted (text source))) header (adapted (text header))

theorem header_ne_source : header ≠ source := by decide

theorem patched_source (text : String → Text) : patched text source = adapted (text source) := by
  rw [patched, Function.update_of_ne header_ne_source.symm, Function.update_self]

theorem patched_header (text : String → Text) : patched text header = adapted (text header) := Function.update_self ..

theorem sourceAdapted_text (text : String → Text) :
    (sourceAdapted text).text = Function.update text source (adapted (text source)) := by
  rw [sourceAdapted]
  split
  · rename_i hzero
    rw [(adapted_eq_self_iff _).2 hzero, Function.update_eq_self]
  · rfl

theorem sourceAdapted_header (text : String → Text) : (sourceAdapted text).text header = text header := by
  rw [sourceAdapted_text, Function.update_of_ne header_ne_source]

/-- The first file is refused. -/
theorem run_source_error (h : ¬ Consistent 1 (text source)) : ∃ message, run text = (⟨text, []⟩, .error message) := by
  obtain ⟨message, heq⟩ := adapt_error (w := ⟨text, []⟩) h
  exact ⟨message, by rw [run, loop, heq]⟩

/-- The second file is refused, when the first one has been adapted. -/
theorem run_header_error (hsource : Consistent 1 (text source)) (hheader : ¬ Consistent 2 (text header)) :
    ∃ message, run text = (sourceAdapted text, .error message) := by
  rw [← sourceAdapted_header text] at hheader
  obtain ⟨message, heq⟩ := adapt_error hheader
  refine ⟨message, ?_⟩
  rw [run, loop, adapt_ok (w := ⟨text, []⟩) hsource]
  show loop [(header, 2)] (sourceAdapted text) = _
  rw [loop, heq]

/-- Both files are accepted. -/
theorem run_ok (hsource : Consistent 1 (text source)) (hheader : Consistent 2 (text header)) :
    ∃ written, run text = (⟨patched text, written⟩, .ok ()) ∧
      (count original (text source) = 0 → count original (text header) = 0 → written = []) := by
  have hheader' : Consistent 2 ((sourceAdapted text).text header) := by rwa [sourceAdapted_header]
  have hrun : run text = (if count original ((sourceAdapted text).text header) = 0 then sourceAdapted text
      else (sourceAdapted text).write header (adapted ((sourceAdapted text).text header)), .ok ()) := by
    rw [run, loop, adapt_ok (w := ⟨text, []⟩) hsource]
    show loop [(header, 2)] (sourceAdapted text) = _
    rw [loop, adapt_ok hheader']
    rfl
  rw [sourceAdapted_header] at hrun
  rw [hrun]
  split
  · rename_i hzero
    have htext : (sourceAdapted text).text = patched text := by
      rw [patched, (adapted_eq_self_iff _).2 hzero, sourceAdapted_text, ← Function.update_of_ne header_ne_source
        (adapted (text source)) text, Function.update_eq_self]
    refine ⟨(sourceAdapted text).written, ?_, fun hold _ => ?_⟩
    · rw [← htext]
    · rw [sourceAdapted, if_pos hold]
  · rename_i hpositive
    refine ⟨(sourceAdapted text).written ++ [header], ?_, fun _ hzero => absurd hzero hpositive⟩
    rw [Workspace.write, sourceAdapted_text, patched]

/-- A run that writes nothing and fails. -/
theorem together_of_error (h : ∃ message, run text = (⟨text, []⟩, .error message)) : Together text := by
  obtain ⟨message, hrun⟩ := h
  have hfailed : (run text).2 ≠ .ok () := by simp [hrun]
  refine ⟨fun hok => absurd hok hfailed, fun _ _ => ?_, fun hmismatched => ?_, fun hok => absurd hok hfailed⟩
  · rw [hrun]
  · rwa [hrun] at hmismatched

/-- A run that accepts both files. -/
theorem together_of_ok (hsource : Consistent 1 (text source)) (hheader : Consistent 2 (text header)) : Together text := by
  obtain ⟨written, hrun, -⟩ := run_ok hsource hheader
  have htext : (run text).1.text = patched text := by rw [hrun]
  refine ⟨fun _ => ?_, fun message hfailed => ?_, fun hmismatched => ?_, fun _ => ?_⟩
  · simp only [List.forall_mem_cons, htext, patched_source, patched_header]
    exact ⟨⟨rfl, count_original_adapted _, hsource.adapted.1⟩, ⟨rfl, count_original_adapted _, hheader.adapted.1⟩,
      fun _ h => absurd h List.not_mem_nil⟩
  · rw [hrun] at hfailed
    cases hfailed
  · have hpositive := hmismatched.2.2
    rw [htext, patched_header, count_original_adapted] at hpositive
    exact absurd hpositive (lt_irrefl 0)
  · have hzero : count original (patched text source) = 0 := by rw [patched_source, count_original_adapted]
    have hzero' : count original (patched text header) = 0 := by rw [patched_header, count_original_adapted]
    have hsource' : Consistent 1 (patched text source) := by
      rw [patched_source]
      exact hsource.adapted.2
    have hheader' : Consistent 2 (patched text header) := by
      rw [patched_header]
      exact hheader.adapted.2
    have hsame : patched (patched text) = patched text := by
      rw [patched, (adapted_eq_self_iff _).2 hzero, (adapted_eq_self_iff _).2 hzero', Function.update_eq_self,
        Function.update_eq_self]
    obtain ⟨written', hrun', hnone⟩ := run_ok hsource' hheader'
    rw [htext, hrun', hsame, hnone hzero hzero']

/-- A run that has patched the guard of the source when the header is refused. -/
theorem not_together (hold : count original (text source) = 1) (hnew : count replacement (text source) = 0)
    (hheader : ¬ Consistent 2 (text header)) : ¬ Together text := by
  intro htogether
  have hsource : Consistent 1 (text source) := ⟨by omega, .inr hold⟩
  obtain ⟨message, hrun⟩ := run_header_error hsource hheader
  have hunchanged := htogether.failure message (by rw [hrun])
  rw [hrun, sourceAdapted, if_neg (by omega)] at hunchanged
  exact absurd (congrArg Workspace.written hunchanged) (List.cons_ne_nil _ _)

/-- The files are patched together, or left as they are, if and only if the header is accepted whenever the guard of the
source is still to be patched. -/
theorem together_iff (text : String → Text) : Together text ↔
    (count original (text source) = 1 → count replacement (text source) = 0 → Consistent 2 (text header)) := by
  constructor
  · intro htogether hold hnew
    by_contra hheader
    exact not_together hold hnew hheader htogether
  · intro hcondition
    by_cases hsource : Consistent 1 (text source)
    · by_cases hheader : Consistent 2 (text header)
      · exact together_of_ok hsource hheader
      · -- the guard of the source has been patched before, so its turn has written nothing
        have hold : count original (text source) = 0 := by
          have hsum := hsource.1
          rcases hsource.2 with hzero | hone
          · exact hzero
          · exact absurd (hcondition hone (by omega)) hheader
        obtain ⟨message, hrun⟩ := run_header_error hsource hheader
        rw [sourceAdapted, if_pos hold] at hrun
        exact together_of_error ⟨message, hrun⟩
    · exact together_of_error (run_source_error hsource)

/-- The source as it is delivered, and a header of which one guard has been patched. -/
def halfPatched (name : String) : Text :=
  if name = source then "#if defined(COMPILER_MSVC)\n".toList
  else "#if defined(COMPILER_MSVC)\n#if defined(_WIN32)\n".toList

/-- The header is refused, and the source has been written. -/
theorem source_patched_alone :
    (run halfPatched).1.written = [source] ∧ Mismatched (run halfPatched).1.text ∧ ¬ Mismatched halfPatched ∧
      ¬ Together halfPatched := by
  have hcounts : count original (halfPatched source) = 1 ∧ count replacement (halfPatched source) = 0 ∧
      count original (halfPatched header) = 1 ∧ count replacement (halfPatched header) = 1 := by
    -- the literals as characters, with which the computation is much faster
    unfold halfPatched original replacement
    repeat rw [String.toList_ofList]
    decide
  obtain ⟨hold, hnew, hold', hnew'⟩ := hcounts
  have hheader : ¬ Consistent 2 (halfPatched header) := fun h => by
    have hall := h.2
    omega
  obtain ⟨message, hrun⟩ := run_header_error ⟨by omega, .inr hold⟩ hheader
  rw [hrun]
  refine ⟨?_, ?_, fun h => absurd h.1 (by omega), not_together hold hnew hheader⟩
  · rw [sourceAdapted, if_neg (by omega)]
    rfl
  · rw [Mismatched, sourceAdapted_header, sourceAdapted_text, Function.update_self, count_original_adapted,
      count_replacement_adapted]
    omega

end BuildEngine.Pdfium.AlignedMemory
