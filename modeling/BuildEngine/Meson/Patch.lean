/-
The three patchers of `meson_bootstrap.py` that edit the shared Meson 1.12.0 tree, when the configured compiler
is BCC64X and the files they edit are present. A patcher reads its file, decides (`Decision`) and, when it has
decided so, truncates the file and writes the new text. Line endings are normalised by `read_text`.
-/
import BuildEngine.Base.Text

namespace BuildEngine.Meson

open Base.Text

abbrev Text := List Char

/-- What a patcher does after reading its file. -/
inductive Decision where
  /-- return without writing -/
  | keep
  | write (text : Text)
  /-- `SystemExit` -/
  | stop (message : String)
  deriving DecidableEq, Repr

/-- A text of lines. -/
def lines (ls : List String) : Text := ls.flatMap fun line => line.toList ++ ['\n']

/-! ## `patch_bcc64x_lld_detection` -/

def originalWin : Text := lines [
    "    if 'LLD' in o.split('\\n', maxsplit=1)[0]:",
    "        if 'compatible with GNU linkers' in o:"]

def patchedWin : Text := lines [
    "    if 'LLD' in o:",
    "        if 'compatible with GNU linkers' in o:"]

def originalNix : Text :=
  lines ["    if 'LLD' in o.split('\\n', maxsplit=1)[0] or 'tiarmlnk' in e:"]

def patchedNix : Text :=
  lines ["    if 'LLD' in o or 'tiarmlnk' in e:"]

/-- `if not is_patched: if text.count(original) != 1: raise SystemExit(message); text = text.replace(...)`. -/
def patchContext (isPatched : Bool) (original patched : Text) (message : String) (text : Text) :
    Except String Text :=
  if isPatched then .ok text
  else if count original text ≠ 1 then .error message
  else .ok (replaceFirst original patched text)

def patchBcc64xLldDetection (text : Text) : Decision :=
  let winIsPatched := decide (patchedWin <:+: text)
  let nixIsPatched := decide (patchedNix <:+: text)
  if winIsPatched && nixIsPatched then .keep
  else
    match patchContext winIsPatched originalWin patchedWin
        "Meson 1.12.0 Windows LLD detection patch context does not match" text with
    | .error message => .stop message
    | .ok text =>
      match patchContext nixIsPatched originalNix patchedNix
          "Meson 1.12.0 Unix-like LLD detection patch context does not match" text with
      | .error message => .stop message
      | .ok text => .write text

/-! ## `patch_windows_lld_allow_undefined` -/

def originalProbe : Text :=
  lines ["        self.has_allow_shlib_undefined = self._supports_flag('--allow-shlib-undefined', always_args)"]

def patchedProbe : Text := lines [
    "        self.has_allow_shlib_undefined = (",
    "            not env.machines[for_machine].is_windows()",
    "            and self._supports_flag('--allow-shlib-undefined', always_args)",
    "        )"]

def previousMethod : Text := lines [
    "    def get_allow_undefined_args(self) -> T.List[str]:",
    "        if self.system == 'windows':",
    "            return []",
    "        if self.has_allow_shlib_undefined:",
    "            return self._apply_prefix('--allow-shlib-undefined')",
    "        return []"]

def originalMethod : Text := lines [
    "    def get_allow_undefined_args(self) -> T.List[str]:",
    "        if self.has_allow_shlib_undefined:",
    "            return self._apply_prefix('--allow-shlib-undefined')",
    "        return []"]

/-- The migration from the first compatibility attempt. -/
def migrateMethod (text : Text) : Text :=
  if previousMethod <:+: text then replaceFirst previousMethod originalMethod text else text

def patchWindowsLldAllowUndefined (text : Text) : Decision :=
  let text := migrateMethod text
  if patchedProbe <:+: text then .write text
  else if count originalProbe text ≠ 1 then
    .stop "Meson 1.12.0 Windows-LLD capability patch context does not match"
  else .write (replaceFirst originalProbe patchedProbe text)

/-! ## `patch_bcc64x_vsenv_detection` -/

def originalVsenv : Text := lines [
    "        if shutil.which('clang-cl'):",
    "            return False"]

def patchedVsenv : Text := lines [
    "        if shutil.which('clang-cl'):",
    "            return False",
    "        if shutil.which('bcc64x'):",
    "            return False"]

def patchBcc64xVsenvDetection (text : Text) : Decision :=
  if patchedVsenv <:+: text then .keep
  else if count originalVsenv text ≠ 1 then
    .stop "Meson 1.12.0 BCC64X Visual Studio environment patch context does not match"
  else .write (replaceFirst originalVsenv patchedVsenv text)

/-! ## The three files -/

inductive MesonFile where
  | detect
  | linkers
  | vsenv
  deriving DecidableEq, Repr

/-- The patcher of a file. -/
def patch : MesonFile → Text → Decision
  | .detect => patchBcc64xLldDetection
  | .linkers => patchWindowsLldAllowUndefined
  | .vsenv => patchBcc64xVsenvDetection

@[simp] theorem patch_detect (text : Text) : patch .detect text = patchBcc64xLldDetection text := rfl

@[simp] theorem patch_linkers (text : Text) : patch .linkers text = patchWindowsLldAllowUndefined text := rfl

@[simp] theorem patch_vsenv (text : Text) : patch .vsenv text = patchBcc64xVsenvDetection text := rfl

/-- The text a patcher leaves. -/
def patched (f : MesonFile) (text : Text) : Text :=
  match patch f text with
  | .write text' => text'
  | .keep => text
  | .stop _ => text

/-- An upstream text: every original context of the file occurs exactly once, no patched context and no
`previous_method` occurs. -/
def Upstream : MesonFile → Text → Prop
  | .detect, text => count originalWin text = 1 ∧ count originalNix text = 1 ∧
      ¬ patchedWin <:+: text ∧ ¬ patchedNix <:+: text
  | .linkers, text => count originalProbe text = 1 ∧ count originalMethod text = 1 ∧
      ¬ patchedProbe <:+: text ∧ ¬ previousMethod <:+: text
  | .vsenv, text => count originalVsenv text = 1 ∧ ¬ patchedVsenv <:+: text

/-! ## The contexts do not touch -/

theorem lines_ne_nil (line : String) (ls : List String) : lines (line :: ls) ≠ [] := by simp [lines]

theorem nix_apart_win : Apart originalNix originalWin ∧ Apart originalNix patchedWin := by
  unfold originalNix originalWin patchedWin
  simp only [lines, List.flatMap_cons, List.flatMap_nil]
  -- the characters of the literals, which the kernel would decode again and again
  repeat rw [String.toList_ofList]
  decide +kernel

theorem previous_apart_probe : Apart previousMethod patchedProbe := by
  unfold previousMethod patchedProbe
  simp only [lines, List.flatMap_cons, List.flatMap_nil]
  repeat rw [String.toList_ofList]
  decide +kernel

/-! ## Patching an upstream text, and patching it again -/

/-- What the patchers do on an upstream text and on the patched one. -/
structure Converges (f : MesonFile) (text : Text) : Prop where
  first : patch f text = .write (patched f text)
  again : patch f (patched f text) = if f = .linkers then .write (patched f text) else .keep
  changed : patched f text ≠ text
  empty : ¬ (text = [] ∨ patched f text = [])

theorem patched_of_write {f : MesonFile} {text text' : Text} (h : patch f text = .write text') :
    patched f text = text' := by
  unfold patched
  rw [h]

/-- A text becomes another one, not empty, when a pattern that was not in it is now. -/
theorem ne_of_infix {p text text' : Text} (hp : p ≠ []) (hno : ¬ p <:+: text) (hin : p <:+: text') :
    text' ≠ text ∧ text' ≠ [] := by
  constructor
  · intro h
    exact hno (h ▸ hin)
  · rintro rfl
    exact hp (List.eq_nil_of_infix_nil hin)

theorem ne_nil_of_count {p text : Text} (h : count p text = 1) : text ≠ [] := by
  rintro rfl
  cases h

theorem detect_converges {text : Text} (h : Upstream .detect text) : Converges .detect text := by
  obtain ⟨hwin, hnix, hnowin, hnonix⟩ := h
  have hnewin : originalWin ≠ [] := lines_ne_nil _ _
  have hnenix : originalNix ≠ [] := lines_ne_nil _ _
  have hin : originalWin <:+: text := (count_pos_iff hnewin).1 (by omega)
  have hcount : count originalNix (replaceFirst originalWin patchedWin text) = 1 := by
    rw [count_replaceFirst hnenix nix_apart_win.1 nix_apart_win.2, hnix]
  have hin' : originalNix <:+: replaceFirst originalWin patchedWin text := (count_pos_iff hnenix).1 (by omega)
  have hfirst : patch .detect text =
      .write (replaceFirst originalNix patchedNix (replaceFirst originalWin patchedWin text)) := by
    rw [patch_detect]
    unfold patchBcc64xLldDetection patchContext
    simp only [hnowin, hnonix, decide_false, Bool.false_and, Bool.false_eq_true, if_false, hwin, ne_eq,
      not_true_eq_false, hcount]
  have hboth : patchedWin <:+: replaceFirst originalNix patchedNix (replaceFirst originalWin patchedWin text) ∧
      patchedNix <:+: replaceFirst originalNix patchedNix (replaceFirst originalWin patchedWin text) :=
    ⟨infix_replaceFirst_of_apart (infix_replaceFirst hin) nix_apart_win.2, infix_replaceFirst hin'⟩
  obtain ⟨hne, hnil⟩ := ne_of_infix (lines_ne_nil _ _) hnowin hboth.1
  have htext := patched_of_write hfirst
  rw [← htext] at hfirst hboth hne hnil
  refine ⟨hfirst, ?_, hne, ?_⟩
  · rw [patch_detect]
    unfold patchBcc64xLldDetection
    simp only [hboth.1, hboth.2, decide_true, Bool.and_self, if_true, reduceCtorEq, if_false]
  · rintro (h | h)
    · exact ne_nil_of_count hwin h
    · exact hnil h

theorem migrateMethod_eq_self {text : Text} (h : ¬ previousMethod <:+: text) : migrateMethod text = text :=
  if_neg h

/-- Its two siblings return here. -/
theorem patchWindowsLldAllowUndefined_patched {text : Text} (hno : ¬ previousMethod <:+: text)
    (hin : patchedProbe <:+: text) : patchWindowsLldAllowUndefined text = .write text := by
  have hself := migrateMethod_eq_self hno
  simp only [patchWindowsLldAllowUndefined, hself, hin, if_true]

theorem linkers_converges {text : Text} (h : Upstream .linkers text) : Converges .linkers text := by
  obtain ⟨hprobe, -, hnoprobe, hnoprevious⟩ := h
  have hneprobe : originalProbe ≠ [] := lines_ne_nil _ _
  have hin : originalProbe <:+: text := (count_pos_iff hneprobe).1 (by omega)
  have hfirst : patch .linkers text = .write (replaceFirst originalProbe patchedProbe text) := by
    rw [patch_linkers]
    unfold patchWindowsLldAllowUndefined migrateMethod
    simp only [hnoprevious, if_false, hnoprobe, hprobe, ne_eq, not_true_eq_false]
  have hpatched : patchedProbe <:+: replaceFirst originalProbe patchedProbe text := infix_replaceFirst hin
  have hnoprevious' : ¬ previousMethod <:+: replaceFirst originalProbe patchedProbe text :=
    not_infix_replaceFirst (lines_ne_nil _ _) hnoprevious previous_apart_probe
  obtain ⟨hne, hnil⟩ := ne_of_infix (lines_ne_nil _ _) hnoprobe hpatched
  have htext := patched_of_write hfirst
  rw [← htext] at hfirst hpatched hnoprevious' hne hnil
  refine ⟨hfirst, ?_, hne, ?_⟩
  · rw [patch_linkers, if_pos rfl]
    exact patchWindowsLldAllowUndefined_patched hnoprevious' hpatched
  · rintro (h | h)
    · exact ne_nil_of_count hprobe h
    · exact hnil h

theorem vsenv_converges {text : Text} (h : Upstream .vsenv text) : Converges .vsenv text := by
  obtain ⟨hvsenv, hno⟩ := h
  have hnevsenv : originalVsenv ≠ [] := lines_ne_nil _ _
  have hin : originalVsenv <:+: text := (count_pos_iff hnevsenv).1 (by omega)
  have hfirst : patch .vsenv text = .write (replaceFirst originalVsenv patchedVsenv text) := by
    rw [patch_vsenv]
    unfold patchBcc64xVsenvDetection
    simp only [hno, if_false, hvsenv, ne_eq, not_true_eq_false]
  have hpatched : patchedVsenv <:+: replaceFirst originalVsenv patchedVsenv text := infix_replaceFirst hin
  obtain ⟨hne, hnil⟩ := ne_of_infix (lines_ne_nil _ _) hno hpatched
  have htext := patched_of_write hfirst
  rw [← htext] at hfirst hpatched hne hnil
  refine ⟨hfirst, ?_, hne, ?_⟩
  · rw [patch_vsenv]
    unfold patchBcc64xVsenvDetection
    simp only [hpatched, if_true, reduceCtorEq, if_false]
  · rintro (h | h)
    · exact ne_nil_of_count hvsenv h
    · exact hnil h

theorem upstream_converges {f : MesonFile} {text : Text} (h : Upstream f text) : Converges f text := by
  cases f with
  | detect => exact detect_converges h
  | linkers => exact linkers_converges h
  | vsenv => exact vsenv_converges h

end BuildEngine.Meson
