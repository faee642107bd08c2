/-
File names and directories as `BuildEngineStageRuntime.cmake` meets them on Windows. CMake compares names
after `TOLOWER`, which lowers the letters `A` to `Z`; Windows compares them by its own case folding, which
agrees with it on ASCII characters (`CaseFold`). A `Folder` holds the regular files of a directory; no two
of them have the same folded name.
-/
import BuildEngine.Base.Merge
import BuildEngine.Stage.Gate

namespace BuildEngine.Stage

open Base

/-! ## Names -/

/-- `string(TOLOWER <text> <out>)`. -/
def toLower (text : Text) : Text := text.map Char.toLower

/-- The case folding of Windows file names, character by character. A character folds like an ASCII
character only when it is that character up to ASCII case. -/
structure CaseFold where
  char : Char → Char
  ascii : ∀ c d : Char, d.toNat < 128 → (char c = char d ↔ c.toLower = d.toLower)

namespace CaseFold

variable (F : CaseFold)

/-- The folded name: Windows takes names with one folding for the same file. -/
def name (text : Text) : Text := text.map F.char

theorem char_of_toLower {c d : Char} (h : c.toLower = d.toLower) : F.char c = F.char d := by
  by_cases hd : d.toNat < 128
  · exact (F.ascii c d hd).2 h
  · by_cases hc : c.toNat < 128
    · exact ((F.ascii d c hc).2 h.symm).symm
    · have hself : ∀ e : Char, ¬ e.toNat < 128 → e.toLower = e := by
        intro e he
        unfold Char.toLower
        rw [dif_neg]
        rintro ⟨-, hle⟩
        refine he ?_
        have : e.val.toNat ≤ 90 := hle
        show e.val.toNat < 128
        omega
      rw [hself c hc, hself d hd] at h
      rw [h]

/-- Names equal after `TOLOWER` are one name to Windows. -/
theorem name_of_toLower {a b : Text} (h : toLower a = toLower b) : F.name a = F.name b := by
  unfold toLower at h
  unfold name
  induction a generalizing b with
  | nil =>
    cases b with
    | nil => rfl
    | cons d b => cases h
  | cons c a ih =>
    cases b with
    | nil => cases h
    | cons d b =>
      rw [List.map_cons, List.map_cons, List.cons.injEq] at h
      rw [List.map_cons, List.map_cons, F.char_of_toLower h.1, ih h.2]

/-- Only the spellings of an ASCII name in other ASCII case are the same name to Windows. -/
theorem name_ascii {a b : Text} (hb : ∀ d ∈ b, d.toNat < 128) : F.name a = F.name b ↔ toLower a = toLower b := by
  refine ⟨fun h => ?_, F.name_of_toLower⟩
  unfold name at h
  unfold toLower
  induction a generalizing b with
  | nil =>
    cases b with
    | nil => rfl
    | cons d b => cases h
  | cons c a ih =>
    cases b with
    | nil => cases h
    | cons d b =>
      rw [List.map_cons, List.map_cons, List.cons.injEq] at h
      rw [List.map_cons, List.map_cons, (F.ascii c d (hb d (List.mem_cons_self ..))).1 h.1,
        ih (fun e he => hb e (List.mem_cons_of_mem _ he)) h.2]

end CaseFold

/-! ## Folders -/

structure File where
  name : Text
  bytes : List UInt8
  deriving DecidableEq

/-- The regular files of a directory. -/
structure Folder (F : CaseFold) where
  files : List File
  nodup : (files.map fun f => F.name f.name).Nodup

namespace Folder

variable {F : CaseFold}

def empty : Folder F := ⟨[], List.nodup_nil⟩

/-- The file Windows finds under a name. -/
def find (d : Folder F) (name : Text) : Option File := d.files.find? fun f => F.name f.name = F.name name

/-- `file(REMOVE)`. -/
def remove (d : Folder F) (name : Text) : Folder F where
  files := d.files.filter fun f => F.name f.name ≠ F.name name
  nodup := d.nodup.sublist (List.Sublist.map _ List.filter_sublist)

/-- `file(COPY_FILE)` of a file into the directory. -/
def copyFile (d : Folder F) (file : File) : Folder F where
  files := (d.remove file.name).files ++ [file]
  nodup := by
    rw [List.map_append, List.nodup_append]
    refine ⟨(d.remove file.name).nodup, List.nodup_singleton _, ?_⟩
    intro a ha b hb hab
    obtain ⟨f, hf, rfl⟩ := List.mem_map.1 ha
    have hb : b = F.name file.name := by simpa using hb
    have := (List.mem_filter.1 hf).2
    simp [hab, hb] at this

/-- The content of the file with a folded name. -/
def lookup (d : Folder F) (key : Text) : Option (List UInt8) :=
  (d.files.find? fun f => F.name f.name = key).map File.bytes

theorem find_bytes (d : Folder F) (name : Text) : (d.find name).map File.bytes = d.lookup (F.name name) := rfl

theorem lookup_eq_some {d : Folder F} {key : Text} {bytes : List UInt8} :
    d.lookup key = some bytes ↔ ∃ f ∈ d.files, F.name f.name = key ∧ f.bytes = bytes := by
  unfold lookup
  rw [Option.map_eq_some_iff]
  constructor
  · rintro ⟨f, hf, rfl⟩
    exact ⟨f, List.mem_of_find?_eq_some hf, by simpa using List.find?_some hf, rfl⟩
  · rintro ⟨f, hf, hkey, rfl⟩
    cases hfind : d.files.find? fun g => F.name g.name = key with
    | none =>
      have := List.find?_eq_none.1 hfind f hf
      simp [hkey] at this
    | some g =>
      have hg : F.name g.name = key := by simpa using List.find?_some hfind
      have heq : g = f :=
        List.inj_on_of_nodup_map d.nodup (List.mem_of_find?_eq_some hfind) hf (hg.trans hkey.symm)
      exact ⟨g, rfl, by rw [heq]⟩

/-- Copying a file under a free name puts it into the lookup map. -/
theorem lookup_copyFile {d : Folder F} {file : File} (h : d.find file.name = none) :
    (d.copyFile file).lookup = Merge.put d.lookup (F.name file.name, file.bytes) := by
  have hfree : d.lookup (F.name file.name) = none := by rw [← find_bytes, h]; rfl
  funext key
  refine Option.ext fun bytes => ?_
  rw [lookup_eq_some, Merge.put_eq_some, lookup_eq_some]
  have hmem : ∀ f, f ∈ (d.copyFile file).files ↔ f ∈ (d.remove file.name).files ∨ f = file := by
    intro f
    show f ∈ (d.remove file.name).files ++ [file] ↔ _
    rw [List.mem_append, List.mem_singleton]
  constructor
  · rintro ⟨f, hf, hkey, hbytes⟩
    rcases (hmem f).1 hf with hf | rfl
    · exact .inl ⟨f, (List.mem_filter.1 hf).1, hkey, hbytes⟩
    · exact .inr ⟨by rw [← hkey, hfree], hkey, hbytes⟩
  · rintro (⟨f, hf, hkey, hbytes⟩ | ⟨-, hkey, hbytes⟩)
    · refine ⟨f, (hmem f).2 (.inl (List.mem_filter.2 ⟨hf, ?_⟩)), hkey, hbytes⟩
      have hne : F.name f.name ≠ F.name file.name := by
        intro heq
        have := lookup_eq_some.2 ⟨f, hf, heq, rfl⟩
        rw [hfree] at this
        cases this
      simpa using hne
    · exact ⟨file, (hmem file).2 (.inr rfl), hkey, hbytes⟩

end Folder

end BuildEngine.Stage
