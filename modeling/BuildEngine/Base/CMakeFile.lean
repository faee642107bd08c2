/-
Files as CMake opens them. `file(READ)` takes lines from a stream in text mode and drops a carriage return at the end
of each; `file(WRITE)` writes a newline as the platform's line end. A file is native if it is written as it has been
read.
-/
import BuildEngine.Base.TextFile
import Mathlib.Data.List.TakeWhile

namespace Base.CMakeFile

open TextFile (Platform write)

/-- The line ends of Windows as newlines. -/
def newlines : List Char → List Char
  | '\r' :: '\n' :: file => '\n' :: newlines file
  | c :: file => c :: newlines file
  | [] => []

/-- What a stream in text mode delivers. On Windows it ends at Ctrl+Z. -/
def stream : Platform → List Char → List Char
  | .posix, file => file
  | .windows, file => newlines (file.takeWhile (· ≠ '\x1a'))

/-- A text without the carriage return at the end of each line. -/
def dropReturns : List Char → List Char
  | '\r' :: '\n' :: text => '\n' :: dropReturns text
  | ['\r'] => []
  | c :: text => c :: dropReturns text
  | [] => []

/-- `file(READ)` -/
def read (platform : Platform) (file : List Char) : List Char := dropReturns (stream platform file)

def Native (platform : Platform) (file : List Char) : Prop := write platform (read platform file) = file

instance (platform : Platform) (file : List Char) : Decidable (Native platform file) :=
  inferInstanceAs (Decidable (write platform (read platform file) = file))

example : Native .windows "a\r\nb\r\n".toList ∧ ¬ Native .windows "a\nb\r\n".toList ∧ Native .posix "a\nb".toList := by
  decide

/-! ## Reading -/

theorem newlines_cons {c : Char} (hc : c ≠ '\r') (file : List Char) : newlines (c :: file) = c :: newlines file := by
  rw [newlines]
  exact fun _ h _ => hc h

theorem newlines_return {file : List Char} (h : file.head? ≠ some '\n') :
    newlines ('\r' :: file) = '\r' :: newlines file := by
  rw [newlines]
  rintro file' - rfl
  exact h rfl

theorem dropReturns_cons {c : Char} (hc : c ≠ '\r') (text : List Char) :
    dropReturns (c :: text) = c :: dropReturns text := by
  rw [dropReturns]
  · exact fun _ h _ => hc h
  · exact fun h _ => hc h

theorem dropReturns_return {text : List Char} (hne : text ≠ []) (h : text.head? ≠ some '\n') :
    dropReturns ('\r' :: text) = '\r' :: dropReturns text := by
  rw [dropReturns]
  · rintro text' - rfl
    exact h rfl
  · exact fun _ => hne

theorem newlines_subset (file : List Char) : newlines file ⊆ file := by
  fun_induction newlines file with
  | case1 file ih => exact List.subset_cons_of_subset _ (List.cons_subset_cons '\n' ih)
  | case2 c file _ ih => exact List.cons_subset_cons c ih
  | case3 => exact List.Subset.refl []

theorem dropReturns_subset (text : List Char) : dropReturns text ⊆ text := by
  fun_induction dropReturns text with
  | case1 text ih => exact List.subset_cons_of_subset _ (List.cons_subset_cons '\n' ih)
  | case2 => exact List.nil_subset _
  | case3 c text _ _ ih => exact List.cons_subset_cons c ih
  | case4 => exact List.Subset.refl []

/-- On Windows nothing behind Ctrl+Z is read. -/
theorem not_mem_read (file : List Char) : '\x1a' ∉ read .windows file := by
  intro h
  have hmem := newlines_subset _ (dropReturns_subset _ h)
  simpa using List.mem_takeWhile_imp hmem

/-! ## Reading what has been written -/

theorem head?_write_windows (text : List Char) : (write .windows text).head? ≠ some '\n' := by
  cases text with
  | nil => simp [write]
  | cons c text =>
    by_cases hc : c = '\n'
    · subst hc
      simp [write, Platform.linesep]
    · simpa [TextFile.write_cons .windows hc] using hc

theorem newlines_write (text : List Char) : newlines (write .windows text) = text := by
  induction text with
  | nil => rfl
  | cons c text ih =>
    by_cases hnl : c = '\n'
    · subst hnl
      exact congrArg ('\n' :: ·) ih
    · rw [TextFile.write_cons .windows hnl]
      by_cases hcr : c = '\r'
      · subst hcr
        rw [newlines_return (head?_write_windows text), ih]
      · rw [newlines_cons hcr, ih]

theorem mem_write {platform : Platform} {c : Char} {text : List Char} (h : c ∈ write platform text) :
    c ∈ text ∨ c ∈ platform.linesep := by
  obtain ⟨d, hd, hc⟩ := List.mem_flatMap.1 h
  split at hc
  next => exact .inr hc
  next => exact .inl (List.mem_singleton.1 hc ▸ hd)

/-- What has been written comes back but for the carriage returns in front of newlines. -/
theorem read_write {platform : Platform} {text : List Char} (h : platform = .windows → '\x1a' ∉ text) :
    read platform (write platform text) = dropReturns text := by
  cases platform with
  | posix => exact congrArg dropReturns (TextFile.write_posix text)
  | windows =>
    have hwhole : (write .windows text).takeWhile (· ≠ '\x1a') = write .windows text := by
      refine List.takeWhile_eq_self_iff.2 fun c hc => ?_
      have hne : c ≠ '\x1a' := by
        rintro rfl
        rcases mem_write hc with hc | hc
        · exact h rfl hc
        · exact absurd hc (by decide)
      simpa using hne
    show dropReturns (newlines ((write .windows text).takeWhile (· ≠ '\x1a'))) = dropReturns text
    rw [hwhole, newlines_write]

/-! ## Native files -/

/-- The characters that mean something to a stream in text mode. -/
def isEnd (c : Char) : Bool := c == '\r' || c == '\n' || c == '\x1a'

end Base.CMakeFile
