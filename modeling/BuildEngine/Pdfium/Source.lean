/-
The execute actions of the source step that edit the checkout: each reads the texts it needs, refuses those it does not
expect, and writes one file. There are six; the two turns of the loop of the first one are two scripts here. The source
state can be resumed, and then they run again from the first one. The patches that are applied between them touch none of
these files. Texts are as `read_text` returns them, of files that are all there: the error of a missing one is left out.
-/
import BuildEngine.Base.Lines
import BuildEngine.Base.Regex
import BuildEngine.Base.Resume
import BuildEngine.Pdfium.AlignedMemory
import Mathlib.Data.List.DropRight

namespace BuildEngine.Pdfium.Source

open Base.Text Base.Cut Base.Lines Base.Resume
open Base.Regex (isSpace)
open AlignedMemory (Workspace Workspace.write adapt source header Consistent adapted adapt_ok adapt_error)

abbrev Script := Step Workspace String

/-! ## `bind-local-freetype` -/

namespace Freetype

def build : String := "build/config/freetype/BUILD.gn"

def old_bundled : Text := "public_deps = [ \"//third_party/freetype\" ]".toList

def old_system : Text := "public_configs = [ \"//build/linux:freetype_from_pkgconfig\" ]".toList

def new : Text := "public_configs = [ \"//build/config/freetype:buildengine_freetype\" ]".toList

def pkgconfig : Text := "freetype_from_pkgconfig".toList

def marker : Text := "config(\"buildengine_freetype\") \x7b".toList

/-- What is appended to a text without the marker. -/
def config : Text :=
  "\n".toList ++ marker ++ "\n  include_dirs = [ getenv(\"CB_PDFIUM_FREETYPE_INCLUDE\") ]\n".toList ++
    "  libs = [ getenv(\"CB_PDFIUM_FREETYPE_LIB\") ]\n\x7d\n".toList

/-- The text with both dependencies exchanged. -/
def replaced (s : Text) : Text := replaceAll old_system new (replaceAll old_bundled new s)

def extended (t : Text) : Text := if marker <:+: t then t else t ++ config

def script : Script := fun w =>
  let s := w.text build
  if ¬ count old_bundled s ≤ 1 then (w, .error "Duplicate bundled FreeType dependencies")
  else if ¬ count old_system s ≤ 1 then (w, .error "Duplicate pkg-config FreeType dependency")
  else
    let t := replaced s
    if ¬ (count new t = 1 ∨ count new t = 2) then (w, .error "Unexpected FreeType GN target")
    else if pkgconfig <:+: t then (w, .error "Unmanaged FreeType pkg-config path remains")
    else
      let t := extended t
      if count marker t ≠ 1 then (w, .error "Duplicate BuildEngine FreeType config")
      else (if t ≠ s then w.write build t else w, .ok ())

end Freetype

/-! ## `adapt-fxcrt-string-view-instantiation-bcc64x` -/

namespace StringView

def header : String := "core/fxcrt/string_view_template.h"

def old : Text :=
  "extern template class StringViewTemplate<char>;\nextern template class StringViewTemplate<wchar_t>;".toList

def new : Text := "// BCC64X: instantiate required inline StringViewTemplate members at use sites.".toList

/-- The files that instantiate the templates, and how. -/
def owners : List (String × Text) :=
  [("core/fxcrt/bytestring.cpp", "template class fxcrt::StringViewTemplate<char>;".toList),
    ("core/fxcrt/widestring.cpp", "template class fxcrt::StringViewTemplate<wchar_t>;".toList)]

def script : Script := fun w =>
  let s := w.text header
  if count old s + count new s ≠ 1 then (w, .error "Unexpected PDFium StringViewTemplate declaration contract")
  else
    match owners.find? fun owner => count owner.2 (w.text owner.1) ≠ 1 with
    | some owner => (w, .error ("Missing PDFium owning template instantiation: " ++ owner.1))
    | none =>
      let t := replaceAll old new s
      (if t ≠ s then w.write header t else w, .ok ())

end StringView

/-! ## `exclude-standalone-test-fonts` -/

namespace TestFonts

def build : String := "testing/BUILD.gn"

def needle : Text := "\"//third_party/test_fonts\",".toList

/-- The characters at which `splitlines` ends a line, of those that `read_text` leaves. -/
def endsLine (c : Char) : Bool :=
  c == '\n' || c == '\x0b' || c == '\x0c' || c == '\x1c' || c == '\x1d' || c == '\x1e' || c == '\u0085' || c == '\u2028' ||
    c == '\u2029'

def strip (line : Text) : Text := (line.dropWhile isSpace).rdropWhile isSpace

def matched (line : Text) : Bool := strip line = needle

/-- The text without the lines that name the fonts. -/
def cleared (s : Text) : Text := ((splitLines endsLine s).filter fun line => !matched line).flatten

def script : Script := fun w =>
  let s := w.text build
  let found := (splitLines endsLine s).countP matched
  if ¬ (found = 0 ∨ found = 1) then (w, .error "Unexpected PDFium test_fonts dependency count")
  else (if found ≠ 0 then w.write build (cleared s) else w, .ok ())

end TestFonts

/-! ## `adapt-bcc64x-chromium-compiler-builtins` and `adapt-local-clang-revision` -/

def compilerBuild : String := "build/config/compiler/BUILD.gn"

namespace Builtins

def old : Text := "configs += [ \"//build/config/clang:compiler_builtins\" ]".toList

def new : Text :=
  "if (current_toolchain != \"//build/toolchain/bcc64x:bcc64x\") \x7b\n      ".toList ++ old ++ "\n    \x7d".toList

def result (s : Text) : Text := if new <:+: s then s else replaceAll old new s

/-- The last assertion stands behind the write. -/
def script : Script := fun w =>
  let s := w.text compilerBuild
  if count old s ≠ 1 then (w, .error "Unexpected Chromium compiler_builtins GN contract")
  else
    let w := if new <:+: s then w else w.write compilerBuild (result s)
    if count new (result s) ≠ 1 then (w, .error "BCC64X compiler builtins exclusion failed") else (w, .ok ())

end Builtins

namespace Revision

def old : Text := "if (is_clang && clang_base_path == default_clang_base_path &&".toList

def new : Text :=
  "if (is_clang && path_exists(\"//third_party/llvm-build/Release+Asserts/cr_build_revision\")".toList ++
    " && clang_base_path == default_clang_base_path &&".toList

def script : Script := fun w =>
  let s := w.text compilerBuild
  if count old s + count new s ≠ 1 then (w, .error "Unexpected Chromium clang_revision guard")
  else (if old <:+: s then w.write compilerBuild (replaceAll old new s) else w, .ok ())

end Revision

/-- The scripts in the order of the source step. -/
def scripts : List Script :=
  [adapt source 1, adapt header 2, Freetype.script, StringView.script, TestFonts.script, Builtins.script, Revision.script]

/-! ## Scripts that edit one file -/

/-- The file that a script edits, the other ones it reads, the texts it accepts, and what it makes of its file. -/
structure Editor where
  file : String
  others : List String
  accepts : (String → Text) → Prop
  result : Text → Text

namespace Editor

def apply (e : Editor) (text : String → Text) : String → Text := Function.update text e.file (e.result (text e.file))

/-- The script writes what the editor makes of an accepted text, if it is another one, and else nothing. -/
structure Spec (e : Editor) (script : Script) : Prop where
  ok : ∀ w, e.accepts w.text →
    script w = (if e.result (w.text e.file) ≠ w.text e.file then w.write e.file (e.result (w.text e.file)) else w, .ok ())
  error : ∀ w, ¬ e.accepts w.text → ∃ message, script w = (w, .error message)
  reads : ∀ text text', (∀ name ∈ e.file :: e.others, text name = text' name) → (e.accepts text ↔ e.accepts text')
  again : ∀ text, e.accepts text → e.accepts (e.apply text) ∧ e.result (e.result (text e.file)) = e.result (text e.file)

/-- What `e` accepts does not depend on `e'`, and what it has made is left by `e'`. -/
structure Independent (e e' : Editor) : Prop where
  later : ∀ text, e.accepts text → (e'.accepts (e.apply text) ↔ e'.accepts text)
  earlier : ∀ text, e.accepts text → e.result (text e.file) = text e.file → e'.accepts text →
    e.accepts (e'.apply text) ∧ e.result (e'.apply text e.file) = e'.apply text e.file

variable {e e' : Editor} {script script' : Script} {w w' : Workspace}

theorem Spec.text_of_ok (h : e.Spec script) (hok : script w = (w', .ok ())) : e.accepts w.text ∧ w'.text = e.apply w.text := by
  have haccepts : e.accepts w.text := by
    by_contra hno
    obtain ⟨message, herror⟩ := h.error w hno
    rw [herror] at hok
    cases hok
  refine ⟨haccepts, ?_⟩
  rw [h.ok w haccepts] at hok
  obtain rfl := congrArg Prod.fst hok
  split
  · rfl
  · rename_i hsame
    rw [apply, not_not.1 hsame, Function.update_eq_self]

theorem Spec.settled_iff (h : e.Spec script) :
    Settled script w ↔ e.accepts w.text ∧ e.result (w.text e.file) = w.text e.file := by
  constructor
  · intro hsettled
    obtain ⟨haccepts, -⟩ := h.text_of_ok hsettled
    refine ⟨haccepts, ?_⟩
    by_contra hne
    rw [Settled, h.ok w haccepts, if_pos hne] at hsettled
    have hwritten := congrArg (fun r => r.1.written.length) hsettled
    simp [Workspace.write] at hwritten
  · rintro ⟨haccepts, hsame⟩
    rw [Settled, h.ok w haccepts, if_neg (not_not.2 hsame)]

theorem Spec.resumable (h : e.Spec script) : Resumable script where
  failed := by
    intro w w' message herror
    have hno : ¬ e.accepts w.text := by
      intro haccepts
      rw [h.ok w haccepts] at herror
      cases herror
    obtain ⟨message', heq⟩ := h.error w hno
    rw [heq] at herror
    exact (congrArg Prod.fst herror).symm
  again := by
    intro w w' hok
    obtain ⟨haccepts, htext⟩ := h.text_of_ok hok
    obtain ⟨hagain, hresult⟩ := h.again w.text haccepts
    rw [h.settled_iff, htext]
    refine ⟨hagain, ?_⟩
    rw [apply, Function.update_self, hresult]

theorem Spec.keeps (h : e.Spec script) (h' : e'.Spec script') (hindependent : e.Independent e') : Keeps script script' := by
  intro w hsettled
  obtain ⟨haccepts, hresult⟩ := h.settled_iff.1 hsettled
  by_cases hok : e'.accepts w.text
  · have hrun : script' w = ((script' w).1, .ok ()) := by rw [h'.ok w hok]
    rw [h.settled_iff, (h'.text_of_ok hrun).2]
    exact hindependent.earlier w.text haccepts hresult hok
  · obtain ⟨message, herror⟩ := h'.error w hok
    rwa [herror]

/-- Neither reads the file of the other one. -/
def Disjoint (e e' : Editor) : Prop := e.file ∉ e'.file :: e'.others ∧ e'.file ∉ e.file :: e.others

instance (e e' : Editor) : Decidable (e.Disjoint e') := inferInstanceAs (Decidable (_ ∧ _))

theorem Disjoint.independent (h : e.Spec script) (h' : e'.Spec script') (hdisjoint : e.Disjoint e') :
    e.Independent e' where
  later := by
    intro text _
    apply h'.reads
    intro name hname
    rw [apply, Function.update_of_ne (ne_of_mem_of_not_mem hname hdisjoint.1)]
  earlier := by
    intro text haccepts hresult _
    have hsame : ∀ name ∈ e.file :: e.others, text name = e'.apply text name := by
      intro name hname
      rw [apply, Function.update_of_ne (ne_of_mem_of_not_mem hname hdisjoint.2)]
    rw [← h.reads text _ hsame, ← hsame e.file (.head _)]
    exact ⟨haccepts, hresult⟩

/-! ## All of them -/

def applyAll (editors : List Editor) (text : String → Text) : String → Text := editors.foldl (fun text e => e.apply text) text

variable {editors : List Editor} {scripts : List Script}

theorem exists_of_forall₂ {α β : Type} {R : α → β → Prop} {l : List α} {l' : List β} (h : List.Forall₂ R l l') {b : β}
    (hb : b ∈ l') : ∃ a ∈ l, R a b := by
  induction h with
  | nil => exact absurd hb List.not_mem_nil
  | @cons a _ _ _ hfirst _ ih =>
    rcases List.mem_cons.1 hb with rfl | hb
    · exact ⟨a, .head _, hfirst⟩
    · obtain ⟨a', ha', h'⟩ := ih hb
      exact ⟨a', .tail _ ha', h'⟩

theorem keeps_of_independent (hspec : List.Forall₂ Spec editors scripts) (hpairs : editors.Pairwise Independent) :
    (∀ script ∈ scripts, Resumable script) ∧ scripts.Pairwise Keeps := by
  induction hspec with
  | nil => exact ⟨fun _ h => absurd h List.not_mem_nil, .nil⟩
  | @cons e script editors scripts h hspec ih =>
    obtain ⟨hfirst, hrest⟩ := List.pairwise_cons.1 hpairs
    obtain ⟨hresumable, hkeeps⟩ := ih hrest
    refine ⟨List.forall_mem_cons.2 ⟨h.resumable, hresumable⟩, List.pairwise_cons.2 ⟨fun script' hscript' => ?_, hkeeps⟩⟩
    obtain ⟨e', he', h'⟩ := exists_of_forall₂ hspec hscript'
    exact h.keeps h' (hfirst e' he')

/-- The run gets through if each editor accepts the texts as they were at the beginning. -/
theorem run_ok_iff (hspec : List.Forall₂ Spec editors scripts) (hpairs : editors.Pairwise Independent) (w : Workspace) :
    (run scripts w).2 = .ok () ↔ ∀ e ∈ editors, e.accepts w.text := by
  induction hspec generalizing w with
  | nil => simp [run]
  | @cons e script editors scripts h hspec ih =>
    obtain ⟨hfirst, hrest⟩ := List.pairwise_cons.1 hpairs
    rw [List.forall_mem_cons]
    by_cases haccepts : e.accepts w.text
    · have hrun : script w = ((script w).1, .ok ()) := by rw [h.ok w haccepts]
      have hlater : ∀ e' ∈ editors, (e'.accepts (script w).1.text ↔ e'.accepts w.text) := by
        intro e' he'
        rw [(h.text_of_ok hrun).2]
        exact (hfirst e' he').later w.text haccepts
      rw [run, hrun]
      simp only [haccepts, true_and]
      rw [ih hrest]
      exact forall₂_congr hlater
    · obtain ⟨message, herror⟩ := h.error w haccepts
      rw [run, herror]
      simp [haccepts]

theorem run_text (hspec : List.Forall₂ Spec editors scripts) {w w' : Workspace} (hok : run scripts w = (w', .ok ())) :
    w'.text = applyAll editors w.text := by
  induction hspec generalizing w with
  | nil =>
    cases hok
    rfl
  | @cons e script editors scripts h hspec ih =>
    unfold run at hok
    split at hok
    · cases hok
    · rename_i w₁ hrun
      rw [ih hok, (h.text_of_ok hrun).2]
      rfl

end Editor

/-! ## The guards of the allocation -/

open Editor

def allocation (name : String) (expected_count : ℕ) : Editor where
  file := name
  others := []
  accepts text := Consistent expected_count (text name)
  result := adapted

theorem allocation_spec (name : String) (expected_count : ℕ) :
    (allocation name expected_count).Spec (adapt name expected_count) where
  ok := by
    intro w haccepts
    rw [adapt_ok haccepts, ite_not]
    simp only [allocation, AlignedMemory.adapted_eq_self_iff]
  error := fun w h => adapt_error h
  reads := by
    intro text text' hsame
    simp only [allocation, hsame name (.head _)]
  again := by
    intro text haccepts
    refine ⟨?_, ?_⟩
    · simp only [allocation, apply, Function.update_self]
      exact haccepts.adapted.2
    · exact (AlignedMemory.adapted_eq_self_iff _).2 (AlignedMemory.count_original_adapted _)

/-! ## The FreeType target -/

namespace Freetype

theorem words_borderless : Borderless old_bundled ∧ Borderless old_system ∧ Borderless new ∧ Borderless marker := by
  unfold old_bundled old_system new marker
  repeat rw [String.toList_ofList]
  decide +kernel

/-- The words that are counted do not touch the words that are exchanged. -/
theorem words_apart : Apart old_bundled new ∧ Apart old_bundled old_system ∧ Apart old_system new ∧
    Apart new old_bundled ∧ Apart new old_system ∧ Apart marker old_bundled ∧ Apart marker old_system ∧
    Apart marker new := by
  unfold old_bundled old_system new marker
  repeat rw [String.toList_ofList]
  decide +kernel

/-- What is appended has the marker in it, and none of the other words. -/
theorem config_apart : Apart old_bundled config ∧ Apart old_system config ∧ Apart new config ∧ Apart pkgconfig config := by
  unfold old_bundled old_system new pkgconfig config marker
  repeat rw [String.toList_ofList]
  decide +kernel

theorem words_ne_nil : old_bundled ≠ [] ∧ old_system ≠ [] ∧ new ≠ [] ∧ marker ≠ [] ∧ pkgconfig ≠ [] := by
  unfold old_bundled old_system new marker pkgconfig
  repeat rw [String.toList_ofList]
  decide

/-- The marker of the appended text is the only one in it. -/
theorem config_eq : ∃ rest, config = "\n".toList ++ marker ++ rest ∧ Apart marker "\n".toList ∧ count marker rest = 0 := by
  refine ⟨_, by rw [config, List.append_assoc _ _ "  libs = [ getenv(\"CB_PDFIUM_FREETYPE_LIB\") ]\n\x7d\n".toList], ?_⟩
  unfold marker
  repeat rw [String.toList_ofList]
  decide +kernel

structure Accepted (s : Text) : Prop where
  bundled : count old_bundled s ≤ 1
  system : count old_system s ≤ 1
  target : count new s + count old_bundled s + count old_system s = 1 ∨
    count new s + count old_bundled s + count old_system s = 2
  managed : ¬ pkgconfig <:+: replaced s
  configured : count marker s ≤ 1

def editor : Editor where
  file := build
  others := []
  accepts text := Accepted (text build)
  result s := extended (replaced s)

/-- A text with which the script is done. -/
structure Ready (s : Text) : Prop where
  bundled : count old_bundled s = 0
  system : count old_system s = 0
  target : count new s = 1 ∨ count new s = 2
  managed : ¬ pkgconfig <:+: s
  configured : count marker s = 1

theorem count_new_replaced (s : Text) :
    count new (replaced s) = count new s + count old_bundled s + count old_system s := by
  obtain ⟨hbundled, hsystem, hnew, -⟩ := words_borderless
  obtain ⟨-, hsb, -, hnb, hns, -⟩ := words_apart
  obtain ⟨hb, hs, hn, -⟩ := words_ne_nil
  have hkept : count old_system (replaceAll old_bundled new s) = count old_system s :=
    count_replaceAll_of_apart hs hb hbundled (hsb.symm hs) words_apart.2.2.1 s
  rw [replaced, count_replaceAll hs hn hsystem hnew hns, count_replaceAll hb hn hbundled hnew hnb, hkept]

theorem count_bundled_replaced (s : Text) : count old_bundled (replaced s) = 0 := by
  obtain ⟨hbundled, hsystem, -⟩ := words_borderless
  obtain ⟨hbn, hbs, -⟩ := words_apart
  obtain ⟨hb, hs, -⟩ := words_ne_nil
  rw [replaced, count_replaceAll_of_apart hb hs hsystem hbs hbn, count_replaceAll_self hb hbundled hbn]

theorem count_system_replaced (s : Text) : count old_system (replaced s) = 0 :=
  count_replaceAll_self words_ne_nil.2.1 words_borderless.2.1 words_apart.2.2.1 _

theorem count_marker_replaced (s : Text) : count marker (replaced s) = count marker s := by
  obtain ⟨hbundled, hsystem, -⟩ := words_borderless
  obtain ⟨-, -, -, -, -, hmb, hms, hmn⟩ := words_apart
  obtain ⟨hb, hs, -, hm, -⟩ := words_ne_nil
  rw [replaced, count_replaceAll_of_apart hm hs hsystem hms hmn, count_replaceAll_of_apart hm hb hbundled hmb hmn]

theorem replaced_eq_self {s : Text} (hbundled : count old_bundled s = 0) (hsystem : count old_system s = 0) :
    replaced s = s := by
  obtain ⟨hb, hs, -⟩ := words_ne_nil
  rw [replaced, replaceAll_absent ((count_eq_zero_iff hb).1 hbundled), replaceAll_absent ((count_eq_zero_iff hs).1 hsystem)]

theorem count_extended {v : Text} (hv : v ≠ []) (h : Apart v config) (t : Text) : count v (extended t) = count v t := by
  rw [extended]
  split
  · rfl
  · have hcount := h.count_around hv t []
    rwa [List.append_nil] at hcount

theorem count_marker_extended {t : Text} (h : count marker t ≤ 1) : count marker (extended t) = 1 := by
  obtain ⟨-, -, -, hm, -⟩ := words_ne_nil
  rw [extended]
  split
  · rename_i hin
    have hpos := (count_pos_iff hm).2 hin
    omega
  · rename_i hno
    obtain ⟨rest, heq, hnewline, hrest⟩ := config_eq
    have hfront : count marker (t ++ "\n".toList) = 0 := by
      have hcount := hnewline.count_around hm t []
      rwa [List.append_nil, (count_eq_zero_iff hm).2 hno] at hcount
    have hsplit : t ++ config = t ++ "\n".toList ++ marker ++ rest := by rw [heq]; simp only [List.append_assoc]
    rw [hsplit, words_borderless.2.2.2.count_around hm, hfront, hrest]

theorem Accepted.ready {s : Text} (h : Accepted s) : Ready (extended (replaced s)) := by
  obtain ⟨hb, hs, hn, hm, hp⟩ := words_ne_nil
  obtain ⟨hbundled, hsystem, hnew, hpkgconfig⟩ := config_apart
  refine ⟨?_, ?_, ?_, ?_, ?_⟩
  · rw [count_extended hb hbundled, count_bundled_replaced]
  · rw [count_extended hs hsystem, count_system_replaced]
  · rw [count_extended hn hnew, count_new_replaced]
    exact h.target
  · rw [← count_eq_zero_iff hp, count_extended hp hpkgconfig, count_eq_zero_iff hp]
    exact h.managed
  · apply count_marker_extended
    rw [count_marker_replaced]
    exact h.configured

theorem Accepted.ready_of_fixed {s : Text} (h : Accepted s) (hfixed : extended (replaced s) = s) : Ready s := by
  have hready := h.ready
  rwa [hfixed] at hready

theorem Ready.fixed {s : Text} (h : Ready s) : Accepted s ∧ extended (replaced s) = s := by
  have hreplaced := replaced_eq_self h.bundled h.system
  refine ⟨⟨?_, ?_, ?_, ?_, ?_⟩, ?_⟩
  · rw [h.bundled]
    exact Nat.zero_le 1
  · rw [h.system]
    exact Nat.zero_le 1
  · rw [h.bundled, h.system]
    exact h.target
  · rw [hreplaced]
    exact h.managed
  · exact h.configured.le
  · have hin : marker <:+: s := (count_pos_iff words_ne_nil.2.2.2.1).1 (by rw [h.configured]; exact Nat.one_pos)
    rw [hreplaced, extended, if_pos hin]

theorem editor_spec : editor.Spec script where
  ok := by
    intro w h
    have htarget := h.target
    have hmarker : count marker (extended (replaced (w.text build))) = 1 := h.ready.configured
    rw [← count_new_replaced] at htarget
    simp only [script]
    rw [if_neg (not_not.2 h.bundled), if_neg (not_not.2 h.system), if_neg (not_not.2 htarget), if_neg h.managed,
      if_neg (not_not.2 hmarker)]
    rfl
  error := by
    intro w h
    simp only [script]
    split
    · exact ⟨_, rfl⟩
    rename_i hbundled
    split
    · exact ⟨_, rfl⟩
    rename_i hsystem
    split
    · exact ⟨_, rfl⟩
    rename_i htarget
    split
    · exact ⟨_, rfl⟩
    rename_i hmanaged
    rw [not_not] at hbundled hsystem htarget
    rw [count_new_replaced] at htarget
    have hmany : ¬ count marker (w.text build) ≤ 1 := fun hconfigured =>
      h ⟨hbundled, hsystem, htarget, hmanaged, hconfigured⟩
    have hmarker : count marker (extended (replaced (w.text build))) ≠ 1 := by
      have hin : marker <:+: replaced (w.text build) := by
        rw [← count_pos_iff words_ne_nil.2.2.2.1, count_marker_replaced]
        omega
      rw [extended, if_pos hin, count_marker_replaced]
      omega
    rw [if_pos hmarker]
    exact ⟨_, rfl⟩
  reads := by
    intro text text' hsame
    simp only [editor, hsame build (.head _)]
  again := by
    intro text h
    have hfixed := (Accepted.ready h).fixed
    refine ⟨?_, hfixed.2⟩
    simp only [editor, apply, Function.update_self]
    exact hfixed.1

end Freetype

/-! ## The declarations of the string views -/

namespace StringView

theorem words : Borderless old ∧ Borderless new ∧ Apart old new ∧ Apart new old ∧ old ≠ [] ∧ new ≠ [] := by
  unfold old new
  repeat rw [String.toList_ofList]
  decide +kernel

structure Accepted (text : String → Text) : Prop where
  declared : count old (text header) + count new (text header) = 1
  owned : ∀ owner ∈ owners, count owner.2 (text owner.1) = 1

def editor : Editor where
  file := header
  others := owners.map Prod.fst
  accepts := Accepted
  result := replaceAll old new

theorem count_old_replaced (s : Text) : count old (replaceAll old new s) = 0 :=
  count_replaceAll_self words.2.2.2.2.1 words.1 words.2.2.1 s

theorem count_new_replaced (s : Text) : count new (replaceAll old new s) = count new s + count old s :=
  count_replaceAll words.2.2.2.2.1 words.2.2.2.2.2 words.1 words.2.1 words.2.2.2.1 s

theorem count_old_of_fixed {s : Text} (h : replaceAll old new s = s) : count old s = 0 := by
  rw [← h, count_old_replaced]

theorem header_not_owner : header ∉ owners.map Prod.fst := by decide

theorem editor_spec : editor.Spec script where
  ok := by
    intro w h
    have hnone : (owners.find? fun owner => count owner.2 (w.text owner.1) ≠ 1) = none := by
      simpa [List.find?_eq_none] using h.owned
    simp only [script]
    rw [if_neg (not_not.2 h.declared), hnone]
    rfl
  error := by
    intro w h
    simp only [script]
    split
    · exact ⟨_, rfl⟩
    · rename_i hdeclared
      split
      · exact ⟨_, rfl⟩
      · rename_i hnone
        refine absurd ⟨not_not.1 hdeclared, ?_⟩ h
        simpa [List.find?_eq_none] using hnone
  reads := by
    intro text text' hsame
    have howner : ∀ owner ∈ owners, text owner.1 = text' owner.1 := by
      intro owner howner
      exact hsame owner.1 (.tail _ (List.mem_map_of_mem howner))
    have hheader := hsame header (.head _)
    constructor
    · intro h
      refine ⟨hheader ▸ h.declared, fun owner hmem => ?_⟩
      rw [← howner owner hmem]
      exact h.owned owner hmem
    · intro h
      refine ⟨hheader ▸ h.declared, fun owner hmem => ?_⟩
      rw [howner owner hmem]
      exact h.owned owner hmem
  again := by
    intro text h
    have hdeclared := h.declared
    refine ⟨⟨?_, fun owner hmem => ?_⟩, ?_⟩
    · simp only [editor, apply, Function.update_self, count_old_replaced, count_new_replaced]
      omega
    · have hne : owner.1 ≠ header := ne_of_mem_of_not_mem (List.mem_map_of_mem hmem) header_not_owner
      simp only [editor, apply]
      rw [Function.update_of_ne hne]
      exact h.owned owner hmem
    · exact replaceAll_absent ((count_eq_zero_iff words.2.2.2.2.1).1 (count_old_replaced _))

end StringView

/-! ## The lines of the test fonts -/

namespace TestFonts

def editor : Editor where
  file := build
  others := []
  accepts text := (splitLines endsLine (text build)).countP matched ≤ 1
  result := cleared

theorem splitLines_cleared (s : Text) :
    splitLines endsLine (cleared s) = (splitLines endsLine s).filter fun line => !matched line :=
  splitLines_filter _ s

theorem countP_cleared (s : Text) : (splitLines endsLine (cleared s)).countP matched = 0 := by
  rw [splitLines_cleared, List.countP_eq_zero]
  intro line hline
  simpa using (List.mem_filter.1 hline).2

theorem cleared_eq_self_iff (s : Text) : cleared s = s ↔ (splitLines endsLine s).countP matched = 0 := by
  constructor
  · intro h
    rw [← h, countP_cleared]
  · intro h
    rw [List.countP_eq_zero] at h
    have hall : (splitLines endsLine s).filter (fun line => !matched line) = splitLines endsLine s := by
      rw [List.filter_eq_self]
      simpa using h
    rw [cleared, hall, flatten_splitLines]

theorem editor_spec : editor.Spec script where
  ok := by
    intro w h
    have hfound : (splitLines endsLine (w.text build)).countP matched = 0 ∨
        (splitLines endsLine (w.text build)).countP matched = 1 := by
      have hle : (splitLines endsLine (w.text build)).countP matched ≤ 1 := h
      omega
    simp only [script]
    rw [if_neg (not_not.2 hfound)]
    simp only [editor, ne_eq, cleared_eq_self_iff]
  error := by
    intro w h
    simp only [script]
    split
    · exact ⟨_, rfl⟩
    · rename_i hfound
      refine absurd ?_ h
      show (splitLines endsLine (w.text build)).countP matched ≤ 1
      omega
  reads := by
    intro text text' hsame
    simp only [editor, hsame build (.head _)]
  again := by
    intro text _
    constructor
    · simp only [editor, apply, Function.update_self, countP_cleared]
      exact Nat.zero_le 1
    · exact (cleared_eq_self_iff _).2 (countP_cleared _)

end TestFonts

/-! ## The two guards in the file of the compiler -/

namespace Builtins

/-- What the new text puts before the old one, and behind it. -/
def before : Text := "if (current_toolchain != \"//build/toolchain/bcc64x:bcc64x\") \x7b\n      ".toList

def behind : Text := "\n    \x7d".toList

theorem words : old ≠ [] ∧ Borderless old ∧ Apart old before ∧ Apart old behind ∧ Borderless (before ++ old ++ behind) := by
  unfold old before behind
  repeat rw [String.toList_ofList]
  decide +kernel

def editor : Editor where
  file := compilerBuild
  others := []
  accepts text := count old (text compilerBuild) = 1
  result := result

/-- The exclusion occurs once, wherever it comes from, and the excluded line is still there. -/
theorem count_result {s : Text} (h : count old s = 1) : count old (result s) = 1 ∧ count new (result s) = 1 := by
  obtain ⟨hold, hborderless, hbefore, hbehind, hborderless'⟩ := words
  rw [result]
  split
  · rename_i hin
    exact ⟨h, count_wrapped_eq_one hold hborderless hbefore hbehind hborderless' h hin⟩
  · exact count_replaceAll_wrapped hold hborderless hbefore hbehind hborderless' h

theorem new_ne_nil : new ≠ [] := List.append_ne_nil_of_left_ne_nil (List.append_ne_nil_of_right_ne_nil _ words.1) _

theorem result_eq_self_iff {s : Text} (h : count old s = 1) : result s = s ↔ count new s = 1 := by
  constructor
  · intro heq
    rw [← heq]
    exact (count_result h).2
  · intro hone
    rw [result, if_pos ((count_pos_iff new_ne_nil).1 (by omega))]

/-- The assertion behind the write does not fail. -/
theorem editor_spec : editor.Spec script where
  ok := by
    intro w h
    have hold : count old (w.text compilerBuild) = 1 := h
    have hcount : count new (result (w.text compilerBuild)) = 1 := (count_result hold).2
    simp only [script]
    rw [if_neg (not_not.2 hold), if_neg (not_not.2 hcount)]
    by_cases hin : new <:+: w.text compilerBuild
    · have hsame : editor.result (w.text editor.file) = w.text editor.file := if_pos hin
      rw [if_pos hin, if_neg (not_not.2 hsame)]
    · have hother : editor.result (w.text editor.file) ≠ w.text editor.file := by
        intro heq
        have hone := (result_eq_self_iff hold).1 heq
        exact hin ((count_pos_iff new_ne_nil).1 (by omega))
      rw [if_neg hin, if_pos hother]
      rfl
  error := by
    intro w h
    have hold : count old (w.text compilerBuild) ≠ 1 := h
    simp only [script]
    rw [if_pos hold]
    exact ⟨_, rfl⟩
  reads := by
    intro text text' hsame
    simp only [editor, hsame compilerBuild (.head _)]
  again := by
    intro text h
    obtain ⟨hold, hnew⟩ := count_result h
    refine ⟨?_, (result_eq_self_iff hold).2 hnew⟩
    simp only [editor, apply, Function.update_self]
    exact hold

end Builtins

namespace Revision

theorem words : Borderless old ∧ Borderless new ∧ Apart old new ∧ Apart new old ∧ old ≠ [] ∧ new ≠ [] := by
  unfold old new
  repeat rw [String.toList_ofList]
  decide +kernel

def editor : Editor where
  file := compilerBuild
  others := []
  accepts text := count old (text compilerBuild) + count new (text compilerBuild) = 1
  result := replaceAll old new

theorem count_old_replaced (s : Text) : count old (replaceAll old new s) = 0 :=
  count_replaceAll_self words.2.2.2.2.1 words.1 words.2.2.1 s

theorem count_new_replaced (s : Text) : count new (replaceAll old new s) = count new s + count old s :=
  count_replaceAll words.2.2.2.2.1 words.2.2.2.2.2 words.1 words.2.1 words.2.2.2.1 s

theorem replaced_eq_self_iff (s : Text) : replaceAll old new s = s ↔ ¬ old <:+: s := by
  constructor
  · intro h
    rw [← h, ← count_eq_zero_iff words.2.2.2.2.1, count_old_replaced]
  · exact replaceAll_absent

theorem editor_spec : editor.Spec script where
  ok := by
    intro w h
    have hdeclared : count old (w.text compilerBuild) + count new (w.text compilerBuild) = 1 := h
    simp only [script]
    rw [if_neg (not_not.2 hdeclared)]
    simp only [editor, ne_eq, replaced_eq_self_iff, not_not]
  error := by
    intro w h
    have hdeclared : count old (w.text compilerBuild) + count new (w.text compilerBuild) ≠ 1 := h
    simp only [script]
    rw [if_pos hdeclared]
    exact ⟨_, rfl⟩
  reads := by
    intro text text' hsame
    simp only [editor, hsame compilerBuild (.head _)]
  again := by
    intro text h
    have hdeclared : count old (text compilerBuild) + count new (text compilerBuild) = 1 := h
    constructor
    · simp only [editor, apply, Function.update_self, count_old_replaced, count_new_replaced]
      omega
    · rw [editor, replaced_eq_self_iff, ← count_eq_zero_iff words.2.2.2.2.1]
      exact count_old_replaced _

end Revision

/-- Neither guard has a word of the other one. -/
theorem guards_apart : Apart Revision.old Builtins.old ∧ Apart Revision.old Builtins.new ∧
    Apart Revision.new Builtins.old ∧ Apart Revision.new Builtins.new ∧ Apart Builtins.old Revision.old ∧
    Apart Builtins.old Revision.new ∧ Apart Builtins.new Revision.old ∧ Apart Builtins.new Revision.new := by
  unfold Revision.old Revision.new Builtins.new Builtins.old
  repeat rw [String.toList_ofList]
  decide +kernel

theorem count_builtins_result {v : Text} (hv : v ≠ []) (hold : Apart v Builtins.old) (hnew : Apart v Builtins.new)
    (s : Text) : count v (Builtins.result s) = count v s := by
  rw [Builtins.result]
  split
  · rfl
  · exact count_replaceAll_of_apart hv Builtins.words.1 Builtins.words.2.1 hold hnew s

theorem compiler_independent : Builtins.editor.Independent Revision.editor where
  later := by
    intro text _
    obtain ⟨hoo, hon, hno, hnn, -⟩ := guards_apart
    simp only [Revision.editor, apply, Builtins.editor, Function.update_self]
    rw [count_builtins_result Revision.words.2.2.2.2.1 hoo hon, count_builtins_result Revision.words.2.2.2.2.2 hno hnn]
  earlier := by
    intro text haccepts hresult _
    obtain ⟨-, -, -, -, hoo, hon, hno, hnn⟩ := guards_apart
    obtain ⟨-, -, -, -, hrev, -⟩ := Revision.words
    have hold : count Builtins.old (text compilerBuild) = 1 := haccepts
    have hnew : count Builtins.new (text compilerBuild) = 1 := (Builtins.result_eq_self_iff hold).1 hresult
    have hold' := count_replaceAll_of_apart Builtins.words.1 hrev Revision.words.1 hoo hon (text compilerBuild)
    have hnew' := count_replaceAll_of_apart Builtins.new_ne_nil hrev Revision.words.1 hno hnn (text compilerBuild)
    rw [hold] at hold'
    rw [hnew] at hnew'
    simp only [Revision.editor, apply, Builtins.editor, Function.update_self]
    exact ⟨hold', (Builtins.result_eq_self_iff hold').2 hnew'⟩

/-! ## The source step -/

def editors : List Editor :=
  [allocation source 1, allocation header 2, Freetype.editor, StringView.editor, TestFonts.editor, Builtins.editor,
    Revision.editor]

theorem editors_spec : List.Forall₂ Spec editors scripts :=
  .cons (allocation_spec source 1) <| .cons (allocation_spec header 2) <| .cons Freetype.editor_spec <|
    .cons StringView.editor_spec <| .cons TestFonts.editor_spec <| .cons Builtins.editor_spec <|
    .cons Revision.editor_spec .nil

theorem editors_disjoint : editors.dropLast.Pairwise Disjoint ∧ ∀ e ∈ editors.take 5, e.Disjoint Revision.editor := by decide

theorem editors_independent : editors.Pairwise Independent := by
  have hindependent : ∀ e ∈ editors, ∀ e' ∈ editors, e.Disjoint e' → e.Independent e' := by
    intro e he e' he' hdisjoint
    obtain ⟨script, -, h⟩ := exists_of_forall₂ editors_spec.flip he
    obtain ⟨script', -, h'⟩ := exists_of_forall₂ editors_spec.flip he'
    exact hdisjoint.independent h h'
  have hsplit : editors = editors.dropLast ++ [Revision.editor] := rfl
  obtain ⟨hbefore, hrevision⟩ := editors_disjoint
  rw [hsplit, List.pairwise_append]
  refine ⟨?_, List.pairwise_singleton .., fun e he e' he' => ?_⟩
  · apply hbefore.imp_of_mem
    intro e e' he he' hdisjoint
    exact hindependent e (List.mem_of_mem_dropLast he) e' (List.mem_of_mem_dropLast he') hdisjoint
  · obtain rfl := List.mem_singleton.1 he'
    -- the two editors of the compiler's file come last
    have hlast : editors.dropLast = editors.take 5 ++ [Builtins.editor] := rfl
    rw [hlast, List.mem_append, List.mem_singleton] at he
    rcases he with he | rfl
    · exact hindependent e (List.mem_of_mem_take he) _ (by simp [editors]) (hrevision e he)
    · exact compiler_independent

/-- Runs that were broken off, or have ended, do not change where a run ends, nor what is written in the end. -/
theorem resumes (broken : List ℕ) (w : Workspace) :
    run scripts (broken.foldl (fun w n => (run (scripts.take n) w).1) w) = run scripts w := by
  obtain ⟨hresumable, hkeeps⟩ := keeps_of_independent editors_spec editors_independent
  exact run_resumed hresumable hkeeps broken w

/-- The texts that the scripts expect in the checkout, edited or not. -/
structure Expected (text : String → Text) : Prop where
  source : Consistent 1 (text source)
  header : Consistent 2 (text header)
  freetype : Freetype.Accepted (text Freetype.build)
  stringView : StringView.Accepted text
  testFonts : (splitLines TestFonts.endsLine (text TestFonts.build)).countP TestFonts.matched ≤ 1
  builtins : count Builtins.old (text compilerBuild) = 1
  revision : count Revision.old (text compilerBuild) + count Revision.new (text compilerBuild) = 1

/-- The texts that the builds need. -/
structure Prepared (text : String → Text) : Prop where
  source : count AlignedMemory.original (text source) = 0 ∧ count AlignedMemory.replacement (text source) = 1
  header : count AlignedMemory.original (text header) = 0 ∧ count AlignedMemory.replacement (text header) = 2
  freetype : Freetype.Ready (text Freetype.build)
  stringView : count StringView.old (text StringView.header) = 0 ∧ count StringView.new (text StringView.header) = 1
  owned : ∀ owner ∈ StringView.owners, count owner.2 (text owner.1) = 1
  testFonts : ∀ line ∈ splitLines TestFonts.endsLine (text TestFonts.build), ¬ TestFonts.matched line
  builtins : count Builtins.old (text compilerBuild) = 1 ∧ count Builtins.new (text compilerBuild) = 1
  revision : count Revision.old (text compilerBuild) = 0 ∧ count Revision.new (text compilerBuild) = 1

theorem expected_iff {text : String → Text} : Expected text ↔ ∀ e ∈ editors, e.accepts text := by
  simp only [editors, List.forall_mem_cons]
  constructor
  · intro h
    exact ⟨h.source, h.header, h.freetype, h.stringView, h.testFonts, h.builtins, h.revision,
      fun _ h => absurd h List.not_mem_nil⟩
  · rintro ⟨hsource, hheader, hfreetype, hstringView, htestFonts, hbuiltins, hrevision, -⟩
    exact ⟨hsource, hheader, hfreetype, hstringView, htestFonts, hbuiltins, hrevision⟩

theorem guards_of_fixed {expected_count : ℕ} {s : Text} (h : Consistent expected_count s) (hfixed : adapted s = s) :
    count AlignedMemory.original s = 0 ∧ count AlignedMemory.replacement s = expected_count := by
  have hnone : count AlignedMemory.original s = 0 := (AlignedMemory.adapted_eq_self_iff s).1 hfixed
  have hsum := h.1
  exact ⟨hnone, by omega⟩

/-- Texts that no editor would change. -/
theorem prepared_of_fixed {text : String → Text}
    (h : ∀ e ∈ editors, e.accepts text ∧ e.result (text e.file) = text e.file) : Prepared text := by
  simp only [editors, List.forall_mem_cons] at h
  obtain ⟨⟨hsource, hsource'⟩, ⟨hheader, hheader'⟩, ⟨hfreetype, hfreetype'⟩, ⟨hview, hview'⟩, ⟨-, hfonts'⟩,
    ⟨hbuiltins, hbuiltins'⟩, ⟨hrevision, hrevision'⟩, -⟩ := h
  have hviewNone : count StringView.old (text StringView.header) = 0 := StringView.count_old_of_fixed hview'
  have hrevisionNone : count Revision.old (text compilerBuild) = 0 := by
    rw [count_eq_zero_iff Revision.words.2.2.2.2.1]
    exact (Revision.replaced_eq_self_iff _).1 hrevision'
  refine ⟨guards_of_fixed hsource hsource', guards_of_fixed hheader hheader', ?_, ⟨hviewNone, ?_⟩, hview.owned, ?_,
    ⟨hbuiltins, (Builtins.result_eq_self_iff hbuiltins).1 hbuiltins'⟩, ⟨hrevisionNone, ?_⟩⟩
  · exact Freetype.Accepted.ready_of_fixed hfreetype hfreetype'
  · have hdeclared := hview.declared
    omega
  · rw [← List.countP_eq_zero]
    exact (TestFonts.cleared_eq_self_iff _).1 hfonts'
  · have hdeclared : count Revision.old (text compilerBuild) + count Revision.new (text compilerBuild) = 1 := hrevision
    omega

theorem applyAll_of_not_mem {name : String} : ∀ {editors : List Editor} (text : String → Text),
    name ∉ editors.map Editor.file → applyAll editors text name = text name
  | [], _, _ => rfl
  | e :: editors, text, hname => by
    rw [List.map_cons, List.mem_cons, not_or] at hname
    rw [applyAll, List.foldl_cons]
    refine (applyAll_of_not_mem (e.apply text) hname.2).trans ?_
    rw [apply, Function.update_of_ne hname.1]

/-- The scripts get through if and only if the checkout is as they expect it from the beginning, and then it is
prepared, with no other file changed. -/
theorem prepares (w : Workspace) :
    ((run scripts w).2 = .ok () ↔ Expected w.text) ∧
      ((run scripts w).2 = .ok () → Prepared (run scripts w).1.text ∧
        ∀ name ∉ editors.map Editor.file, (run scripts w).1.text name = w.text name) := by
  rw [expected_iff]
  refine ⟨run_ok_iff editors_spec editors_independent w, fun hok => ?_⟩
  obtain ⟨hresumable, hkeeps⟩ := keeps_of_independent editors_spec editors_independent
  have hrun : run scripts w = ((run scripts w).1, .ok ()) := by rw [← hok]
  have hsettled := settled_of_run_ok hresumable hkeeps hrun
  refine ⟨prepared_of_fixed fun e he => ?_, fun name hname => ?_⟩
  · obtain ⟨script, hscript, h⟩ := exists_of_forall₂ editors_spec.flip he
    exact h.settled_iff.1 (hsettled script hscript)
  · rw [run_text editors_spec hrun]
    exact applyAll_of_not_mem w.text hname

/-- Texts with what the scripts look for, as it is delivered. -/
def delivered (name : String) : Text :=
  if name = source then "#if defined(COMPILER_MSVC)\n".toList
  else if name = header then "#if defined(COMPILER_MSVC)\n#if defined(COMPILER_MSVC)\n".toList
  else if name = Freetype.build then "public_deps = [ \"//third_party/freetype\" ]\n".toList
  else if name = StringView.header then
    "extern template class StringViewTemplate<char>;\nextern template class StringViewTemplate<wchar_t>;\n".toList
  else if name = "core/fxcrt/bytestring.cpp" then "template class fxcrt::StringViewTemplate<char>;\n".toList
  else if name = "core/fxcrt/widestring.cpp" then "template class fxcrt::StringViewTemplate<wchar_t>;\n".toList
  else if name = TestFonts.build then "  deps = [\n    \"//third_party/test_fonts\",\n  ]\n".toList
  else
    "configs += [ \"//build/config/clang:compiler_builtins\" ]\n".toList ++
      "if (is_clang && clang_base_path == default_clang_base_path &&\n".toList

/-- What the words occur in, text by text. -/
theorem delivered_texts :
    (delivered source = "#if defined(COMPILER_MSVC)\n".toList ∧
      delivered header = "#if defined(COMPILER_MSVC)\n#if defined(COMPILER_MSVC)\n".toList) ∧
    delivered Freetype.build = "public_deps = [ \"//third_party/freetype\" ]\n".toList ∧
    (delivered StringView.header =
        "extern template class StringViewTemplate<char>;\nextern template class StringViewTemplate<wchar_t>;\n".toList ∧
      delivered "core/fxcrt/bytestring.cpp" = "template class fxcrt::StringViewTemplate<char>;\n".toList ∧
      delivered "core/fxcrt/widestring.cpp" = "template class fxcrt::StringViewTemplate<wchar_t>;\n".toList) ∧
    delivered TestFonts.build = "  deps = [\n    \"//third_party/test_fonts\",\n  ]\n".toList ∧
    delivered compilerBuild = "configs += [ \"//build/config/clang:compiler_builtins\" ]\n".toList ++
      "if (is_clang && clang_base_path == default_clang_base_path &&\n".toList := by
  repeat' constructor

theorem delivered_freetype : Freetype.Accepted (delivered Freetype.build) := by
  have hcounts : count Freetype.old_bundled (delivered Freetype.build) = 1 ∧
      count Freetype.old_system (delivered Freetype.build) = 0 ∧ count Freetype.new (delivered Freetype.build) = 0 ∧
      count Freetype.marker (delivered Freetype.build) = 0 ∧
      ¬ Freetype.pkgconfig <:+: Freetype.replaced (delivered Freetype.build) := by
    rw [delivered_texts.2.1]
    unfold Freetype.replaced Freetype.old_bundled Freetype.old_system Freetype.new Freetype.marker Freetype.pkgconfig
    repeat rw [String.toList_ofList]
    decide +kernel
  obtain ⟨hbundled, hsystem, hnew, hmarker, hmanaged⟩ := hcounts
  exact ⟨by omega, by omega, by omega, hmanaged, by omega⟩

theorem delivered_stringView : StringView.Accepted delivered := by
  obtain ⟨-, -, ⟨hheader, hbyte, hwide⟩, -⟩ := delivered_texts
  have hcounts : count StringView.old (delivered StringView.header) = 1 ∧
      count StringView.new (delivered StringView.header) = 0 := by
    rw [hheader]
    unfold StringView.old StringView.new
    repeat rw [String.toList_ofList]
    decide +kernel
  constructor
  · rw [hcounts.1, hcounts.2]
  · rw [StringView.owners, List.forall_mem_cons, List.forall_mem_singleton, hbyte, hwide]
    repeat rw [String.toList_ofList]
    decide +kernel

theorem delivered_aligned : Consistent 1 (delivered source) ∧ Consistent 2 (delivered header) := by
  obtain ⟨⟨hsource, hheader⟩, -⟩ := delivered_texts
  have hcounts : (count AlignedMemory.original (delivered source) = 1 ∧
        count AlignedMemory.replacement (delivered source) = 0) ∧
      count AlignedMemory.original (delivered header) = 2 ∧ count AlignedMemory.replacement (delivered header) = 0 := by
    rw [hsource, hheader]
    unfold AlignedMemory.original AlignedMemory.replacement
    repeat rw [String.toList_ofList]
    decide +kernel
  obtain ⟨⟨hold, hnew⟩, hold', hnew'⟩ := hcounts
  exact ⟨⟨by rw [hold, hnew], .inr hold⟩, by rw [hold', hnew'], .inr hold'⟩

theorem delivered_compiler : count Builtins.old (delivered compilerBuild) = 1 ∧
    count Revision.old (delivered compilerBuild) = 1 ∧ count Revision.new (delivered compilerBuild) = 0 := by
  obtain ⟨-, -, -, -, hcompiler⟩ := delivered_texts
  rw [hcompiler]
  unfold Builtins.old Revision.old Revision.new
  repeat rw [String.toList_ofList]
  decide +kernel

theorem delivered_expected : Expected delivered := by
  obtain ⟨-, -, -, hfonts, -⟩ := delivered_texts
  obtain ⟨hbuiltins, hold, hnew⟩ := delivered_compiler
  refine ⟨delivered_aligned.1, delivered_aligned.2, delivered_freetype, delivered_stringView, ?_, hbuiltins, ?_⟩
  · rw [hfonts]
    unfold TestFonts.matched TestFonts.needle
    repeat rw [String.toList_ofList]
    decide +kernel
  · rw [hold, hnew]

/-- The delivered texts are prepared. -/
theorem delivered_prepared : Prepared (run scripts ⟨delivered, []⟩).1.text :=
  ((prepares ⟨delivered, []⟩).2 ((prepares ⟨delivered, []⟩).1.2 delivered_expected)).1

end BuildEngine.Pdfium.Source
