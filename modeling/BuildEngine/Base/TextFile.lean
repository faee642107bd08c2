/-
Text files as Python opens them: every line end is read as a newline, and a newline is written as the platform's line end.
A text is native if it is written as it has been read.
-/
import Mathlib.Tactic

namespace Base.TextFile

inductive Platform where
  | posix
  | windows
  deriving DecidableEq, Repr

/-- `os.linesep` -/
def Platform.linesep : Platform → List Char
  | .posix => ['\n']
  | .windows => ['\r', '\n']

def read : List Char → List Char
  | '\r' :: '\n' :: file => '\n' :: read file
  | '\r' :: file => '\n' :: read file
  | c :: file => c :: read file
  | [] => []

def write (platform : Platform) (text : List Char) : List Char :=
  text.flatMap fun c => if c = '\n' then platform.linesep else [c]

def Native (platform : Platform) (file : List Char) : Prop := write platform (read file) = file

instance (platform : Platform) (file : List Char) : Decidable (Native platform file) :=
  inferInstanceAs (Decidable (write platform (read file) = file))

/-! ## Reading -/

theorem read_cons {c : Char} (hc : c ≠ '\r') (file : List Char) : read (c :: file) = c :: read file := by
  rw [read]
  · exact fun _ h _ => hc h
  · exact hc

theorem read_eq_self {text : List Char} (h : '\r' ∉ text) : read text = text := by
  induction text with
  | nil => rfl
  | cons c text ih =>
    rw [List.mem_cons, not_or] at h
    rw [read_cons (Ne.symm h.1), ih h.2]

theorem not_mem_read (file : List Char) : '\r' ∉ read file := by
  fun_induction read file with
  | case1 file ih => simpa using ih
  | case2 file _ ih => simpa using ih
  | case3 c file _ hc ih => simpa [Ne.symm hc] using ih
  | case4 => exact List.not_mem_nil

/-- No line end runs from the one text into the other. -/
def Seam (a b : List Char) : Prop := a.getLast? ≠ some '\r' ∨ b.head? ≠ some '\n'

theorem Seam.tail {c : Char} {a b : List Char} (h : Seam (c :: a) b) : Seam a b := by
  rcases h with h | h
  · left
    cases a with
    | nil => simp
    | cons d a => rwa [List.getLast?_cons_cons] at h
  · exact .inr h

theorem read_append {a b : List Char} (h : Seam a b) : read (a ++ b) = read a ++ read b := by
  fun_induction read a with
  | case1 file ih => rw [List.cons_append, List.cons_append, read, ih h.tail.tail, List.cons_append]
  | case2 file hfile ih =>
    rw [List.cons_append, read, ih h.tail, List.cons_append]
    intro file' heq
    cases file with
    | nil =>
      rw [List.nil_append] at heq
      exact h.elim (fun h => h rfl) fun h => h (by rw [heq, List.head?_cons])
    | cons d file =>
      obtain ⟨rfl, -⟩ := List.cons.inj heq
      exact hfile file rfl
  | case3 c file _ hc ih => rw [List.cons_append, read_cons hc, ih h.tail, List.cons_append]
  | case4 => rfl

/-! ## Writing -/

theorem write_append (platform : Platform) (a b : List Char) :
    write platform (a ++ b) = write platform a ++ write platform b := List.flatMap_append

theorem write_cons (platform : Platform) {c : Char} (hc : c ≠ '\n') (text : List Char) :
    write platform (c :: text) = c :: write platform text := by
  rw [write, List.flatMap_cons, if_neg hc]
  rfl

theorem write_posix (text : List Char) : write .posix text = text := by
  induction text with
  | nil => rfl
  | cons c text ih =>
    by_cases hc : c = '\n'
    · subst hc
      exact congrArg ('\n' :: ·) ih
    · rw [write_cons _ hc, ih]

/-- What is written is read again. -/
theorem read_write (platform : Platform) {text : List Char} (h : '\r' ∉ text) : read (write platform text) = text := by
  induction text with
  | nil => rfl
  | cons c text ih =>
    rw [List.mem_cons, not_or] at h
    by_cases hc : c = '\n'
    · subst hc
      cases platform with
      | posix =>
        show read ('\n' :: write .posix text) = _
        rw [read_cons (by decide), ih h.2]
      | windows =>
        show read ('\r' :: '\n' :: write .windows text) = _
        rw [read, ih h.2]
    · rw [write_cons _ hc, read_cons (Ne.symm h.1), ih h.2]

theorem native_write (platform : Platform) {text : List Char} (h : '\r' ∉ text) :
    Native platform (write platform text) := by
  rw [Native, read_write platform h]

/-- Lone characters of line ends are dropped, or they grow. -/
theorem length_native (platform : Platform) :
    (∀ file, (write platform (read file)).length ≤ file.length) ∨
      ∀ file, file.length ≤ (write platform (read file)).length := by
  cases platform with
  | posix =>
    left
    intro file
    rw [write_posix]
    fun_induction read file with
    | case1 file ih =>
      -- the carriage return is lost
      simp only [List.length_cons]
      omega
    | case2 file _ ih | case3 c file _ _ ih =>
      simp only [List.length_cons]
      omega
    | case4 => exact le_rfl
  | windows =>
    right
    intro file
    have hnewline : ∀ text, (write .windows ('\n' :: text)).length = (write .windows text).length + 2 := fun _ => rfl
    fun_induction read file with
    | case1 file ih =>
      rw [hnewline]
      simp only [List.length_cons]
      omega
    | case2 file _ ih =>
      -- a lone carriage return comes back as two characters
      rw [hnewline]
      simp only [List.length_cons]
      omega
    | case3 c file _ _ ih =>
      by_cases hc : c = '\n'
      · subst hc
        rw [hnewline, List.length_cons]
        omega
      · rw [write_cons _ hc, List.length_cons, List.length_cons]
        omega
    | case4 => exact le_rfl

/-- The parts of a text that is native are. -/
theorem native_append {platform : Platform} {a b : List Char} (h : Seam a b) :
    Native platform (a ++ b) ↔ Native platform a ∧ Native platform b := by
  rw [Native, read_append h, write_append]
  constructor
  · intro heq
    have hlength := congrArg List.length heq
    rw [List.length_append, List.length_append] at hlength
    -- no part can grow while the other one shrinks
    have ha : (write platform (read a)).length = a.length := by
      rcases length_native platform with hle | hge
      · have hle_a := hle a
        have hle_b := hle b
        omega
      · have hge_a := hge a
        have hge_b := hge b
        omega
    exact List.append_inj heq ha
  · rintro ⟨ha, hb⟩
    rw [ha, hb]

end Base.TextFile
