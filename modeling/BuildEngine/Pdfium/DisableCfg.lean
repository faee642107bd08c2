/-
The script of the step `disable-pdfium-chromium-cfg`: it empties two `config` blocks of
`build/config/win/BUILD.gn`, if each occurs once, is closed, and still holds the guard flag or is empty already.
An assertion that fails ends the script before it writes. Texts are as `read_text` returns them, with normalised line
endings.
-/
import BuildEngine.Base.Text

namespace BuildEngine.Pdfium

open Base.Text

abbrev Text := List Char

/-- `'config("' + name + '") ' + chr(123)` -/
def key (name : String) : Text := "config(\"".toList ++ name.toList ++ "\") ".toList ++ ['\x7b']

def replacement (name : String) : Text :=
  key name ++ "\n  # PDFium BCC64X CFG-off loader diagnostic.\n".toList ++ ['\x7d']

/-- The number of characters up to the brace that brings `level` back to 0. -/
def blockLength (level : ℤ) : Text → Option Nat
  | [] => none
  | c :: s =>
    if c = '\x7b' then (blockLength (level + 1) s).map (· + 1)
    else if c = '\x7d' then
      if level - 1 = 0 then some 1 else (blockLength (level - 1) s).map (· + 1)
    else (blockLength level s).map (· + 1)

/-- One turn of the loop over the names. -/
def disable (s : Text) (name : String) : Except String Text :=
  match find (key name) s with
  | none => .error ("CFG GN config not unique: " ++ name)
  | some start =>
    if (find (key name) (s.drop (start + 1))).isSome then .error ("CFG GN config not unique: " ++ name)
    else
      let brace := start + (key name).length - 1
      match blockLength 0 (s.drop brace) with
      | none => .error ("Unclosed CFG GN config: " ++ name)
      | some n =>
        let stop := brace + n
        let old := (s.take stop).drop start
        if ¬ (name ≠ "default_cfg_compiler" ∨ "/guard:cf".toList <:+: old ∨ old = replacement name) then
          .error "Compiler CFG guard source changed"
        else if ¬ (name ≠ "cfi_linker" ∨ "/guard:cf".toList <:+: old ∨ old = replacement name) then
          .error "Linker CFG guard source changed"
        else .ok (s.take start ++ replacement name ++ s.drop stop)

/-- The text the script computes from the text it reads. -/
def script (s : Text) : Except String Text := ["default_cfg_compiler", "cfi_linker"].foldlM disable s

/-! ## What a successful run says -/

theorem key_ne_nil (name : String) : key name ≠ [] := List.append_ne_nil_of_right_ne_nil _ (List.cons_ne_nil _ _)

theorem disable_nil (name : String) : disable [] name = .error ("CFG GN config not unique: " ++ name) := by
  have hnone : find (key name) [] = none := by
    rw [find_none]
    intro h
    exact key_ne_nil name (List.eq_nil_of_infix_nil h)
  simp only [disable, hnone]

/-- An empty file is refused. -/
theorem script_nil : script [] = .error "CFG GN config not unique: default_cfg_compiler" := by
  rw [script, List.foldlM_cons, disable_nil]
  rfl

theorem disable_ne_nil {s t : Text} {name : String} (h : disable s name = .ok t) : t ≠ [] := by
  unfold disable at h
  split at h
  · cases h
  · split at h
    · cases h
    · simp only at h
      split at h
      · cases h
      · split at h
        · cases h
        · split at h
          · cases h
          · cases h
            apply List.append_ne_nil_of_left_ne_nil
            apply List.append_ne_nil_of_right_ne_nil
            exact List.append_ne_nil_of_right_ne_nil _ (List.cons_ne_nil _ _)

/-- The script writes no empty file. -/
theorem script_ne_nil {s t : Text} (h : script s = .ok t) : t ≠ [] := by
  simp only [script, List.foldlM_cons, List.foldlM_nil, bind, Except.bind] at h
  cases hcompiler : disable s "default_cfg_compiler" with
  | error message =>
    rw [hcompiler] at h
    cases h
  | ok u =>
    cases hlinker : disable u "cfi_linker" with
    | error message =>
      simp only [hcompiler, hlinker] at h
      cases h
    | ok t' =>
      simp only [hcompiler, hlinker] at h
      cases h
      exact disable_ne_nil hlinker

end BuildEngine.Pdfium
