/-
`BuildEngineStageRuntime.cmake` as one of several processes on an output directory. `adecc_stage_runtime`
makes a run of the script the post-build step of a target, and a target of its own that every build runs; the
targets of one directory are built side by side, so their runs take turns at the directory with every file
command. A copy is not done at once: the file is there with some other content until it has been written, and
whoever touches it in that time may read anything or be refused.

A process alone does what `stageRuntime` says.
-/
import BuildEngine.Base.Interleave
import BuildEngine.Stage.Exact

namespace BuildEngine.Stage

open Base Interleave

/-! ## Writing a file -/

namespace Folder

variable {F : CaseFold}

/-- A file opened for writing, with a content: one that exists keeps its name. -/
def write (d : Folder F) (file : File) : Folder F where
  files :=
    if d.find file.name = none then d.files ++ [file]
    else d.files.map fun f => if F.name f.name = F.name file.name then ⟨f.name, file.bytes⟩ else f
  nodup := by
    by_cases hfree : d.find file.name = none
    · rw [if_pos hfree, List.map_append, List.nodup_append]
      refine ⟨d.nodup, List.nodup_singleton _, ?_⟩
      intro a ha b hb hab
      obtain ⟨f, hf, rfl⟩ := List.mem_map.1 ha
      have hb : b = F.name file.name := by simpa using hb
      have hne := List.find?_eq_none.1 hfree f hf
      simp [hab, hb] at hne
    · rw [if_neg hfree, List.map_map]
      have hnames : ((fun f => F.name f.name) ∘ fun f : File =>
          if F.name f.name = F.name file.name then ⟨f.name, file.bytes⟩ else f) = fun f => F.name f.name := by
        funext f
        dsimp only [Function.comp_apply]
        split <;> rfl
      rw [hnames]
      exact d.nodup

theorem find_eq_none {d : Folder F} {name : Text} :
    d.find name = none ↔ ∀ f ∈ d.files, F.name f.name ≠ F.name name := by
  unfold find
  rw [List.find?_eq_none]
  simp

theorem mem_write {d : Folder F} {file f : File} (hf : f ∈ (d.write file).files) :
    f ∈ d.files ∧ F.name f.name ≠ F.name file.name ∨ F.name f.name = F.name file.name ∧ f.bytes = file.bytes := by
  unfold write at hf
  dsimp only at hf
  by_cases hfree : d.find file.name = none
  · rw [if_pos hfree] at hf
    rcases List.mem_append.1 hf with hf | hf
    · exact .inl ⟨hf, find_eq_none.1 hfree f hf⟩
    · rw [List.mem_singleton.1 hf]
      exact .inr ⟨rfl, rfl⟩
  · rw [if_neg hfree] at hf
    obtain ⟨g, hg, rfl⟩ := List.mem_map.1 hf
    by_cases hname : F.name g.name = F.name file.name
    · rw [if_pos hname]
      exact .inr ⟨hname, rfl⟩
    · rw [if_neg hname]
      exact .inl ⟨hg, hname⟩

theorem lookup_write (d : Folder F) (file : File) (key : Text) :
    (d.write file).lookup key = if F.name file.name = key then some file.bytes else d.lookup key := by
  refine Option.ext fun bytes => ?_
  rw [lookup_eq_some]
  constructor
  · rintro ⟨f, hf, rfl, rfl⟩
    rcases mem_write hf with ⟨hf, hne⟩ | ⟨hname, hbytes⟩
    · rw [if_neg (Ne.symm hne)]
      exact lookup_eq_some.2 ⟨f, hf, rfl, rfl⟩
    · rw [if_pos hname.symm, hbytes]
  · intro h
    unfold write
    dsimp only
    by_cases hfree : d.find file.name = none
    · rw [if_pos hfree]
      by_cases hkey : F.name file.name = key
      · rw [if_pos hkey] at h
        exact ⟨file, List.mem_append_right _ (List.mem_singleton_self _), hkey, Option.some.inj h⟩
      · rw [if_neg hkey] at h
        obtain ⟨f, hf, hname, hbytes⟩ := lookup_eq_some.1 h
        exact ⟨f, List.mem_append_left _ hf, hname, hbytes⟩
    · rw [if_neg hfree]
      by_cases hkey : F.name file.name = key
      · rw [if_pos hkey] at h
        obtain ⟨f, hf⟩ := Option.ne_none_iff_exists'.1 hfree
        have hname : F.name f.name = F.name file.name := by simpa using List.find?_some hf
        refine ⟨⟨f.name, file.bytes⟩, List.mem_map.2 ⟨f, List.mem_of_find?_eq_some hf, if_pos hname⟩, ?_, ?_⟩
        · exact hname.trans hkey
        · exact Option.some.inj h
      · rw [if_neg hkey] at h
        obtain ⟨f, hf, hname, hbytes⟩ := lookup_eq_some.1 h
        refine ⟨f, List.mem_map.2 ⟨f, hf, if_neg ?_⟩, hname, hbytes⟩
        rw [hname]
        exact fun h => hkey h.symm

theorem lookup_remove (d : Folder F) (name key : Text) :
    (d.remove name).lookup key = if F.name name = key then none else d.lookup key := by
  refine Option.ext fun bytes => ?_
  rw [lookup_eq_some]
  constructor
  · rintro ⟨f, hf, rfl, rfl⟩
    obtain ⟨hf, hne⟩ := List.mem_filter.1 hf
    rw [if_neg fun h => by simp [h] at hne]
    exact lookup_eq_some.2 ⟨f, hf, rfl, rfl⟩
  · intro h
    by_cases hkey : F.name name = key
    · rw [if_pos hkey] at h
      cases h
    · rw [if_neg hkey] at h
      obtain ⟨f, hf, hname, hbytes⟩ := lookup_eq_some.1 h
      refine ⟨f, List.mem_filter.2 ⟨hf, ?_⟩, hname, hbytes⟩
      simpa [hname] using Ne.symm hkey

theorem files_injective {d d' : Folder F} (h : d.files = d'.files) : d = d' := by
  cases d
  cases d'
  cases h
  rfl

/-- Opening a new file with some content and writing it is the copy of the file. -/
theorem write_write (d : Folder F) {file : File} (hfree : d.find file.name = none) (torn : List UInt8) :
    (d.write ⟨file.name, torn⟩).write file = d.copyFile file := by
  have hne := find_eq_none.1 hfree
  have hfirst : (d.write ⟨file.name, torn⟩).files = d.files ++ [⟨file.name, torn⟩] := if_pos hfree
  have hthere : (d.write ⟨file.name, torn⟩).find file.name ≠ none := by
    rw [ne_eq, find_eq_none, hfirst]
    intro h
    exact h ⟨file.name, torn⟩ (List.mem_append_right _ (List.mem_singleton_self _)) rfl
  have hsecond : ((d.write ⟨file.name, torn⟩).write file).files =
      (d.write ⟨file.name, torn⟩).files.map fun f =>
        if F.name f.name = F.name file.name then ⟨f.name, file.bytes⟩ else f := if_neg hthere
  have hkeep : d.files.map (fun f => if F.name f.name = F.name file.name then ⟨f.name, file.bytes⟩ else f) =
      d.files := by
    conv_rhs => rw [← List.map_id d.files]
    exact List.map_congr_left fun f hf => if_neg (hne f hf)
  have hcopy : (d.copyFile file).files = d.files ++ [file] := by
    show (d.files.filter _) ++ [file] = _
    rw [List.filter_eq_self.2 fun f hf => by simpa using hne f hf]
  refine files_injective ?_
  rw [hsecond, hfirst, List.map_append, List.map_singleton, if_pos rfl, hkeep, hcopy]

end Folder

/-! ## The directory and what is being written -/

variable {P : Type}

/-- The output directory, and the folded name of the file that each process has open for writing. -/
structure OpenFolder (F : CaseFold) (P : Type) where
  folder : Folder F
  handle : P → Option Text

namespace OpenFolder

variable {F : CaseFold}

def BeingWritten (d : OpenFolder F P) (key : Text) : Prop := ∃ q, d.handle q = some key

/-- A folder in which no file is being written. -/
def quiet (folder : Folder F) : OpenFolder F P := ⟨folder, fun _ => none⟩

theorem not_beingWritten_quiet (folder : Folder F) (key : Text) :
    ¬ (quiet folder : OpenFolder F P).BeingWritten key := by
  rintro ⟨q, hq⟩
  cases hq

end OpenFolder

/-- The file commands of the script on the output directory. -/
inductive Action
  /-- `file(GLOB)`: the names of the files -/
  | glob
  /-- `file(REMOVE)` -/
  | remove (name : Text)
  /-- `if(EXISTS)` -/
  | stands (name : Text)
  /-- the reading of a file by `file(SHA256)` or `file(COPY_FILE ... ONLY_IF_DIFFERENT)` -/
  | read (name : Text)
  /-- the opening of a file by `file(COPY_FILE)` -/
  | create (name : Text)
  /-- the writing and closing of it -/
  | fill (file : File)

abbrev Action.Answer : Action → Type
  | glob => List Text
  | remove _ => Unit
  | stands _ => Bool
  | read _ => Option (List UInt8)
  | create _ => Bool
  | fill _ => Unit

/-- What an action of a process does. Where `overlap` holds, a process may also touch a file that is being
written: reading it gives any content or none, and it may refuse to be opened or removed. -/
def does {F : CaseFold} [DecidableEq P] (overlap : Prop) (p : P) :
    (e : Action) → OpenFolder F P → e.Answer → OpenFolder F P → Prop
  | .glob, d, names, d' => names = d.folder.files.map File.name ∧ d' = d
  | .remove name, d, _, d' =>
    (¬ d.BeingWritten (F.name name) ∨ overlap) ∧ d' = { d with folder := d.folder.remove name } ∨
    (d.BeingWritten (F.name name) ∧ overlap) ∧ d' = d
  | .stands name, d, there, d' => there = (d.folder.find name).isSome ∧ d' = d
  | .read name, d, content, d' =>
    (¬ d.BeingWritten (F.name name) ∧ content = d.folder.lookup (F.name name) ∨
      d.BeingWritten (F.name name) ∧ overlap) ∧ d' = d
  | .create name, d, opened, d' =>
    (¬ d.BeingWritten (F.name name) ∨ overlap) ∧ opened = true ∧ (∃ torn : List UInt8,
      d' = ⟨d.folder.write ⟨name, torn⟩, Function.update d.handle p (some (F.name name))⟩) ∨
    (d.BeingWritten (F.name name) ∧ overlap) ∧ opened = false ∧ d' = d
  | .fill file, d, _, d' => d' = ⟨d.folder.write file, Function.update d.handle p none⟩

theorem does_mono {F : CaseFold} [DecidableEq P] {overlap overlap' : Prop} (h : overlap → overlap') (p : P) (e : Action)
    (d : OpenFolder F P) (r : e.Answer) (d' : OpenFolder F P)
    (hd : does overlap p e d r d') : does overlap' p e d r d' := by
  cases e with
  | glob => exact hd
  | remove name => exact hd.imp (fun hd => ⟨hd.1.imp id h, hd.2⟩) fun hd => ⟨⟨hd.1.1, h hd.1.2⟩, hd.2⟩
  | stands name => exact hd
  | read name => exact ⟨hd.1.imp id fun hr => ⟨hr.1, h hr.2⟩, hd.2⟩
  | create name => exact hd.imp (fun hd => ⟨hd.1.imp id h, hd.2⟩) fun hd => ⟨⟨hd.1.1, h hd.1.2⟩, hd.2⟩
  | fill file => exact hd

/-! ## The script as a process -/

/-- The variables of the script besides the output directory. -/
structure Report where
  vecStaged : List (Text × Source)
  uStaged : Nat
  messages : List Text

namespace Report

def start : Report := ⟨[], 0, []⟩

/-- `message(STATUS)`. -/
def status (s : Report) (message : Text) : Report := { s with messages := s.messages ++ [message] }

/-- A DLL is in the output directory: report it and remember its name and source. -/
def staged (s : Report) (strKey : Text) (theFile : Source) (hash : Text) : Report :=
  { s.status ("[RUNTIME] ".toList ++ theFile.file.name ++ " SHA256=".toList ++ hash ++ " source=".toList ++
      theFile.theFile) with
    vecStaged := s.vecStaged ++ [(strKey, theFile)]
    uStaged := s.uStaged + 1 }

end Report

/-- How a piece of the script ends for a process. -/
inductive Ending
  | done (s : Report)
  /-- `message(FATAL_ERROR)` -/
  | fatal (message : Text) (s : Report)
  /-- a file that a command of CMake could not open -/
  | fault (s : Report)

abbrev Process := Prog Action Action.Answer Ending

namespace Process

def done (s : Report) : Process := .ret (.done s)

def fatal (message : Text) (s : Report) : Process := .ret (.fatal message s)

def fault (s : Report) : Process := .ret (.fault s)

/-- The rest of the script after a piece that has not ended it. -/
def andThen (o : Process) (k : Report → Process) : Process :=
  o.bind fun
    | .done s => k s
    | .fatal message s => fatal message s
    | .fault s => fault s

/-- `foreach`. -/
def forEach {α : Type} (body : α → Report → Process) : List α → Report → Process
  | [], s => done s
  | a :: as, s => (body a s).andThen (forEach body as)

/-- `file(COPY_FILE <file> <dest> ONLY_IF_DIFFERENT)` into the output directory. -/
def copyFile (file : File) (s : Report) (k : Process) : Process :=
  .act (.read file.name) fun (content : Option (List UInt8)) =>
    if content = some file.bytes then k
    else .act (.create file.name) fun (opened : Bool) =>
      if opened then .act (.fill file) fun _ => k else fault s

section

variable (sha256 : List UInt8 → Text) (outputDir : Text) (vecExcludedDlls : List Text)

/-- The purge of one file of the output directory. -/
def purgeFile (strExistingName : Text) (s : Report) : Process :=
  if toLower strExistingName ∈ vecExcludedDlls then
    .act (.remove strExistingName) fun _ =>
      .act (.stands strExistingName) fun (there : Bool) =>
        if there then
          fatal ("Could not purge retired runtime DLL: ".toList ++ outputDir ++ '/' :: strExistingName) s
        else done (s.status ("[RUNTIME] removed retired DLL from consumer output: ".toList ++ strExistingName))
  else done s

/-- The purge of the excluded names. -/
def purge (s : Report) : Process :=
  if isTrue vecExcludedDlls then
    .act .glob fun vecExisting => forEach (purgeFile outputDir vecExcludedDlls) vecExisting s
  else done s

/-- `_adecc_stage_dll`. -/
def stageDll (theFile : Source) (s : Report) : Process :=
  let strName := theFile.file.name
  let strKey := toLower strName
  if !endsInDll strKey then done s
  else if strKey ∈ vecExcludedDlls then
    done (s.status ("[RUNTIME] retired DLL not deployed: ".toList ++ strName ++ "; source=".toList ++
      theFile.theFile))
  else
    match peCheck theFile.theFile theFile.file.bytes with
    | some message => fatal message s
    | none =>
      match s.vecStaged.find? fun x => x.1 = strKey with
      | some (_, theOldFile) =>
        if sha256 theOldFile.file.bytes ≠ sha256 theFile.file.bytes then
          fatal ("DLL name collision '".toList ++ strName ++ "': ".toList ++ theOldFile.theFile ++
            " versus ".toList ++ theFile.theFile) s
        else done s
      | none =>
        .act (.stands strName) fun (there : Bool) =>
          if there then
            .act (.read strName) fun
              | none => fault s
              | some content =>
                if sha256 content ≠ sha256 theFile.file.bytes then
                  fatal ("Application DLL conflicts with package DLL: ".toList ++ outputDir ++ '/' :: strName ++
                    " versus ".toList ++ theFile.theFile) s
                else done (s.staged strKey theFile (sha256 theFile.file.bytes))
          else
            copyFile theFile.file s (done (s.staged strKey theFile (sha256 theFile.file.bytes)))

/-- The body of the loop over the toolchain DLLs. -/
def stageToolchainDll (F : CaseFold) (toolchainBin : Text) (files : List File) (strDll : Text) (s : Report) : Process :=
  if !matchesDllName strDll then fatal ("Invalid BCC64X runtime DLL name: ".toList ++ strDll) s
  else
    match files.find? fun f => F.name f.name = F.name strDll with
    | none => fatal ("Declared BCC64X runtime is missing: ".toList ++ toolchainBin ++ '/' :: strDll) s
    | some f => stageDll sha256 outputDir vecExcludedDlls ⟨toolchainBin, ⟨strDll, f.bytes⟩⟩ s

/-- The staging of the toolchain DLLs. -/
def stageToolchain (F : CaseFold) (i : Invocation) (s : Report) : Process :=
  if isTrue i.vecToolchainDlls then
    match i.toolchainBin with
    | none => fatal "Selected BCC64X runtime requires toolchain bin64".toList s
    | some (toolchainBin, files) =>
      forEach (stageToolchainDll sha256 outputDir vecExcludedDlls F toolchainBin files) i.vecToolchainDlls s
  else done s

/-- The staging of one directory of a package root. -/
def stageBin (root : PackageRoot) (bin : Text) (s : Report) : Process :=
  match root.files bin with
  | none => done s
  | some files =>
    forEach (stageDll sha256 outputDir vecExcludedDlls) (sortedFiles (root.theRoot ++ '/' :: bin) files) s

/-- The staging of one package root. -/
def stageRoot (configuration : Text) (root : PackageRoot) (s : Report) : Process :=
  if !root.isDirectory then fatal ("Declared runtime package root is missing: ".toList ++ root.theRoot) s
  else forEach (stageBin sha256 outputDir vecExcludedDlls root) (bins configuration) s

end

/-- The script. -/
def stageRuntime (F : CaseFold) (sha256 : List UInt8 → Text) (outputDir : Text) (i : Invocation) : Process :=
  let s := Report.start
  if !isTrue (i.vecRoots.map PackageRoot.theRoot) then
    fatal ("Runtime package roots manifest is empty: ".toList ++ i.rootsFile) s
  else if i.configuration ≠ "Debug".toList ∧ i.configuration ≠ "Release".toList then
    fatal ("Unsupported runtime variant: ".toList ++ i.configuration) s
  else
    match excludedDlls i.vecExcludedNames with
    | .error message => fatal message s
    | .ok vecExcludedKeys =>
      let vecExcludedDlls := vecExcludedKeys.eraseDups
      (purge outputDir vecExcludedDlls s).andThen fun s =>
        (stageToolchain sha256 outputDir vecExcludedDlls F i s).andThen fun s =>
          (forEach (stageRoot sha256 outputDir vecExcludedDlls i.configuration) i.vecRoots s).andThen fun s =>
            done (s.status ("BuildEngine runtime: ".toList ++ (toString s.uStaged).toList ++
              " Windows x64 DLLs staged in ".toList ++ outputDir))

end Process

/-! ## A process that has a file open -/

/-- What a process does next: with a file open (`true`) it writes it, with none it writes nothing. -/
inductive Orderly : Bool → Process → Prop
  | ret (e : Ending) : Orderly false (.ret e)
  | glob {k : List Text → Process} : (∀ names, Orderly false (k names)) → Orderly false (.act .glob k)
  | remove {name : Text} {k : Unit → Process} : Orderly false (k ()) → Orderly false (.act (.remove name) k)
  | stands {name : Text} {k : Bool → Process} :
    (∀ there, Orderly false (k there)) → Orderly false (.act (.stands name) k)
  | read {name : Text} {k : Option (List UInt8) → Process} :
    (∀ content, Orderly false (k content)) → Orderly false (.act (.read name) k)
  | create {name : Text} {k : Bool → Process} :
    (∀ opened, Orderly opened (k opened)) → Orderly false (.act (.create name) k)
  | fill {file : File} {k : Unit → Process} : Orderly false (k ()) → Orderly true (.act (.fill file) k)

namespace Orderly

theorem andThen {opened : Bool} {o : Process} {k : Report → Process} (h : Orderly opened o)
    (hk : ∀ s, Orderly false (k s)) : Orderly opened (o.andThen k) := by
  induction h with
  | ret e =>
    cases e with
    | done s => exact hk s
    | fatal message s => exact .ret _
    | fault s => exact .ret _
  | glob _ ih => exact .glob ih
  | remove _ ih => exact .remove ih
  | stands _ ih => exact .stands ih
  | read _ ih => exact .read ih
  | create _ ih => exact .create ih
  | fill _ ih => exact .fill ih

theorem forEach {α : Type} {body : α → Report → Process} (h : ∀ a s, Orderly false (body a s)) :
    ∀ as s, Orderly false (Process.forEach body as s)
  | [], _ => .ret _
  | a :: as, s => (h a s).andThen (forEach h as)

theorem purge (outputDir : Text) (vecExcludedDlls : List Text) (s : Report) :
    Orderly false (Process.purge outputDir vecExcludedDlls s) := by
  have hfile : ∀ name s, Orderly false (Process.purgeFile outputDir vecExcludedDlls name s) := by
    intro name s
    unfold Process.purgeFile
    split
    · refine .remove (.stands fun there => ?_)
      cases there <;> exact .ret _
    · exact .ret _
  unfold Process.purge
  split
  · exact .glob fun names => forEach hfile names s
  · exact .ret _

/-- A copy writes the file that it has opened. -/
theorem copyFile (file : File) (s : Report) {k : Process} (hk : Orderly false k) :
    Orderly false (Process.copyFile file s k) := by
  refine .read fun content => ?_
  split
  · exact hk
  · refine .create fun opened => ?_
    cases opened with
    | false => exact .ret _
    | true => exact .fill hk

variable (sha256 : List UInt8 → Text) (outputDir : Text) (vecExcludedDlls : List Text)

theorem stageDll (theFile : Source) (s : Report) :
    Orderly false (Process.stageDll sha256 outputDir vecExcludedDlls theFile s) := by
  unfold Process.stageDll
  dsimp only
  split
  · exact .ret _
  split
  · exact .ret _
  cases peCheck theFile.theFile theFile.file.bytes with
  | some message => exact .ret _
  | none =>
    dsimp only
    cases s.vecStaged.find? fun x => x.1 = toLower theFile.file.name with
    | some x =>
      dsimp only
      split <;> exact .ret _
    | none =>
      refine .stands fun there => ?_
      cases there with
      | false => exact copyFile theFile.file s (.ret _)
      | true =>
        refine .read fun content => ?_
        cases content with
        | none => exact .ret _
        | some content =>
          dsimp only
          split <;> exact .ret _

theorem stageToolchain (F : CaseFold) (i : Invocation) (s : Report) :
    Orderly false (Process.stageToolchain sha256 outputDir vecExcludedDlls F i s) := by
  unfold Process.stageToolchain
  split
  · cases i.toolchainBin with
    | none => exact .ret _
    | some bin =>
      refine forEach (fun strDll s => ?_) _ s
      unfold Process.stageToolchainDll
      split
      · exact .ret _
      · cases bin.2.find? fun f => F.name f.name = F.name strDll with
        | none => exact .ret _
        | some f => exact stageDll sha256 outputDir vecExcludedDlls _ s
  · exact .ret _

theorem stageRoot (configuration : Text) (root : PackageRoot) (s : Report) :
    Orderly false (Process.stageRoot sha256 outputDir vecExcludedDlls configuration root s) := by
  unfold Process.stageRoot
  split
  · exact .ret _
  · refine forEach (fun bin s => ?_) _ s
    unfold Process.stageBin
    cases root.files bin with
    | none => exact .ret _
    | some files => exact forEach (stageDll sha256 outputDir vecExcludedDlls) _ s

theorem stageRuntime (F : CaseFold) (i : Invocation) :
    Orderly false (Process.stageRuntime F sha256 outputDir i) := by
  unfold Process.stageRuntime
  dsimp only
  split
  · exact .ret _
  split
  · exact .ret _
  cases excludedDlls i.vecExcludedNames with
  | error message => exact .ret _
  | ok keys =>
    refine (purge outputDir keys.eraseDups Report.start).andThen fun s => ?_
    refine (stageToolchain sha256 outputDir keys.eraseDups F i s).andThen fun s => ?_
    exact (forEach (stageRoot sha256 outputDir keys.eraseDups i.configuration) i.vecRoots s).andThen fun s => .ret _

end Orderly

section Turns

variable {F : CaseFold} [DecidableEq P] {overlap : Prop} {c c' : Config P Action Action.Answer Ending (OpenFolder F P)}

/-- Every process that has a file open is about to write it. -/
def Writing (c : Config P Action Action.Answer Ending (OpenFolder F P)) : Prop :=
  ∀ p, Orderly (c.store.handle p).isSome (c.program p)

/-- What an action leaves a process with. -/
theorem Orderly.does {p : P} {e : Action} {k : e.Answer → Process} {d d' : OpenFolder F P} {r : e.Answer}
    (h : Orderly (d.handle p).isSome (.act e k)) (hd : does overlap p e d r d') :
    Orderly (d'.handle p).isSome (k r) ∧ ∀ q, q ≠ p → d'.handle q = d.handle q := by
  generalize hopen : (d.handle p).isSome = opened at h
  cases h with
  | glob hk =>
    obtain ⟨-, rfl⟩ := hd
    rw [hopen]
    exact ⟨hk r, fun _ _ => rfl⟩
  | remove hk =>
    rcases hd with ⟨-, rfl⟩ | ⟨-, rfl⟩
    · rw [hopen]
      exact ⟨hk, fun _ _ => rfl⟩
    · rw [hopen]
      exact ⟨hk, fun _ _ => rfl⟩
  | stands hk =>
    obtain ⟨-, rfl⟩ := hd
    rw [hopen]
    exact ⟨hk r, fun _ _ => rfl⟩
  | read hk =>
    obtain ⟨-, rfl⟩ := hd
    rw [hopen]
    exact ⟨hk r, fun _ _ => rfl⟩
  | create hk =>
    rcases hd with ⟨-, rfl, torn, rfl⟩ | ⟨-, rfl, rfl⟩
    · -- from here on the process has the file open
      dsimp only
      rw [Function.update_self]
      exact ⟨hk true, fun q hq => Function.update_of_ne hq _ _⟩
    · rw [hopen]
      exact ⟨hk false, fun _ _ => rfl⟩
  | fill hk =>
    obtain rfl := hd
    dsimp only
    rw [Function.update_self]
    exact ⟨hk, fun q hq => Function.update_of_ne hq _ _⟩

theorem Writing.step (h : Writing c) (hstep : Step (does overlap) c c') : Writing c' := by
  cases hstep with
  | @act p e k r s hp he =>
    have horder := h p
    rw [hp] at horder
    obtain ⟨hnext, hothers⟩ := horder.does he
    intro q
    dsimp only
    by_cases hq : q = p
    · subst hq
      rw [Function.update_self]
      exact hnext
    · rw [Function.update_of_ne hq, hothers q hq]
      exact h q

theorem Writing.reaches (h : Writing c) (hrun : Reaches (does overlap) c c') : Writing c' := by
  induction hrun with
  | refl => exact h
  | tail _ hstep ih => exact ih.step hstep

/-- Where no file is being written, every action can be taken. -/
theorem exists_does {d : OpenFolder F P} (hquiet : ∀ key, ¬ d.BeingWritten key) (p : P) (e : Action) :
    ∃ r d', does overlap p e d r d' := by
  cases e with
  | glob => exact ⟨_, _, rfl, rfl⟩
  | remove name => exact ⟨(), _, .inl ⟨.inl (hquiet _), rfl⟩⟩
  | stands name => exact ⟨_, _, rfl, rfl⟩
  | read name => exact ⟨_, _, .inl ⟨hquiet _, rfl⟩, rfl⟩
  | create name => exact ⟨true, _, .inl ⟨.inl (hquiet _), rfl, [], rfl⟩⟩
  | fill file => exact ⟨(), _, rfl⟩

/-- As long as not all processes have ended one of them can take its next action, even if none may touch a
file that is being written: one that has a file open can write it. -/
theorem Writing.progress (h : Writing c) : (∀ p, ∃ e, c.program p = .ret e) ∨ ∃ c', Step (does overlap) c c' := by
  by_cases hended : ∀ p, ∃ e, c.program p = .ret e
  · exact .inl hended
  refine .inr ?_
  by_cases hopen : ∃ p, (c.store.handle p).isSome = true
  · -- it writes its file, whatever the others do
    obtain ⟨p, hp⟩ := hopen
    have horder := h p
    rw [hp] at horder
    generalize hprog : c.program p = prog at horder
    cases horder with
    | fill _ => exact ⟨_, .act (r := ()) hprog rfl⟩
  · -- no file is being written, so nothing can be refused
    have hquiet : ∀ key, ¬ c.store.BeingWritten key := by
      rintro key ⟨p, hp⟩
      exact hopen ⟨p, by rw [hp]; rfl⟩
    obtain ⟨p, hp⟩ := not_forall.1 hended
    cases hprog : c.program p with
    | ret e => exact absurd ⟨e, hprog⟩ hp
    | act e k =>
      obtain ⟨r, d, hdoes⟩ := exists_does hquiet p e
      exact ⟨_, .act hprog hdoes⟩

/-! ## Schedules -/

variable [Fintype P]

instance (d : OpenFolder F P) (key : Text) : Decidable (d.BeingWritten key) :=
  inferInstanceAs (Decidable (∃ q, d.handle q = some key))

/-- The next action of a process. A file that it opens is empty at first. Where it comes upon a file that is
being written it is refused, or it waits if it may not touch such a file. -/
def turn (touches : Bool) (c : Config P Action Action.Answer Ending (OpenFolder F P)) (p : P) :
    Config P Action Action.Answer Ending (OpenFolder F P) :=
  let d := c.store
  let refused (next : Process) := if touches then ⟨Function.update c.program p next, d⟩ else c
  match c.program p with
  | .ret _ => c
  | .act .glob k => ⟨Function.update c.program p (k (d.folder.files.map File.name)), d⟩
  | .act (.remove name) k =>
    if d.BeingWritten (F.name name) then refused (k ())
    else ⟨Function.update c.program p (k ()), { d with folder := d.folder.remove name }⟩
  | .act (.stands name) k => ⟨Function.update c.program p (k (d.folder.find name).isSome), d⟩
  | .act (.read name) k =>
    if d.BeingWritten (F.name name) then refused (k none)
    else ⟨Function.update c.program p (k (d.folder.lookup (F.name name))), d⟩
  | .act (.create name) k =>
    if d.BeingWritten (F.name name) then refused (k false)
    else ⟨Function.update c.program p (k true),
      ⟨d.folder.write ⟨name, []⟩, Function.update d.handle p (some (F.name name))⟩⟩
  | .act (.fill file) k =>
    ⟨Function.update c.program p (k ()), ⟨d.folder.write file, Function.update d.handle p none⟩⟩

theorem turn_reaches (touches : Bool) (c : Config P Action Action.Answer Ending (OpenFolder F P)) (p : P) :
    Reaches (does (touches = true)) c (turn touches c p) := by
  have hrefused : ∀ {e : Action} {k : e.Answer → Process} (r : e.Answer), c.program p = .act e k →
      (touches = true → does (touches = true) p e c.store r c.store) →
      Reaches (does (touches = true)) c (if touches then ⟨Function.update c.program p (k r), c.store⟩ else c) := by
    intro e k r hp hdoes
    by_cases htouches : touches = true
    · rw [if_pos htouches]
      exact .single (.act hp (hdoes htouches))
    · -- it waits
      rw [if_neg htouches]
      exact .refl
  cases hp : c.program p with
  | ret e =>
    unfold turn
    rw [hp]
    exact .refl
  | act e k =>
    unfold turn
    rw [hp]
    cases e with
    | glob => exact .single (.act hp ⟨rfl, rfl⟩)
    | remove name =>
      by_cases hw : c.store.BeingWritten (F.name name)
      · simp only [if_pos hw]
        exact hrefused () hp fun htouches => .inr ⟨⟨hw, htouches⟩, rfl⟩
      · simp only [if_neg hw]
        exact .single (.act hp (.inl ⟨.inl hw, rfl⟩))
    | stands name => exact .single (.act hp ⟨rfl, rfl⟩)
    | read name =>
      by_cases hw : c.store.BeingWritten (F.name name)
      · simp only [if_pos hw]
        exact hrefused none hp fun htouches => ⟨.inr ⟨hw, htouches⟩, rfl⟩
      · simp only [if_neg hw]
        exact .single (.act hp ⟨.inl ⟨hw, rfl⟩, rfl⟩)
    | create name =>
      by_cases hw : c.store.BeingWritten (F.name name)
      · simp only [if_pos hw]
        exact hrefused false hp fun htouches => .inr ⟨⟨hw, htouches⟩, rfl, rfl⟩
      · simp only [if_neg hw]
        exact .single (.act hp (.inl ⟨.inl hw, rfl, [], rfl⟩))
    | fill file => exact .single (.act hp rfl)

/-- A process that has ended without an error. -/
def Process.succeeded : Process → Bool
  | .ret (.done _) => true
  | _ => false

/-- A process that could not open a file. -/
def Process.faulted : Process → Bool
  | .ret (.fault _) => true
  | _ => false

theorem exists_done {o : Process} (h : o.succeeded = true) : ∃ s, o = .ret (.done s) := by
  unfold Process.succeeded at h
  split at h
  · exact ⟨_, rfl⟩
  · cases h

theorem exists_fault {o : Process} (h : o.faulted = true) : ∃ s, o = .ret (.fault s) := by
  unfold Process.faulted at h
  split at h
  · exact ⟨_, rfl⟩
  · cases h

/-- The processes take turns in the given order. -/
theorem turns_reach (touches : Bool) (ps : List P) : ∀ c : Config P Action Action.Answer Ending (OpenFolder F P),
    Reaches (does (touches = true)) c (ps.foldl (turn touches) c) := by
  induction ps with
  | nil => exact fun _ => .refl
  | cons p ps ih => exact fun c => (turn_reaches touches c p).trans (ih _)

end Turns

/-! ## A process alone -/

/-- What the variables of the script besides the output directory are. -/
def StageState.report {F : CaseFold} (s : StageState F) : Report := ⟨s.vecStaged, s.uStaged, s.messages⟩

def Outcome.ending {F : CaseFold} : Outcome (StageState F) → Ending
  | done s => .done s.report
  | fatal message s => .fatal message s.report

section Alone

variable {F : CaseFold} [DecidableEq P] {overlap : Prop} {p : P}

variable (F overlap p) in
/-- Alone on the directory, a piece of the process does what a piece of the script says. -/
def Alone (piece : Report → Process) (script : StageState F → Outcome (StageState F)) : Prop :=
  ∀ s e d, Run (does overlap p) (piece s.report) (OpenFolder.quiet s.output) e d ↔
    e = (script s).ending ∧ d = OpenFolder.quiet (script s).state.output

theorem run_glob {folder : Folder F} {k : List Text → Process} {e : Ending} {d : OpenFolder F P} :
    Run (does overlap p) (.act .glob k) (OpenFolder.quiet folder) e d ↔
      Run (does overlap p) (k (folder.files.map File.name)) (OpenFolder.quiet folder) e d := by
  rw [run_act]
  constructor
  · rintro ⟨_, _, ⟨rfl, rfl⟩, h⟩
    exact h
  · exact fun h => ⟨_, _, ⟨rfl, rfl⟩, h⟩

theorem run_remove {folder : Folder F} {name : Text} {k : Unit → Process} {e : Ending} {d : OpenFolder F P} :
    Run (does overlap p) (.act (.remove name) k) (OpenFolder.quiet folder) e d ↔
      Run (does overlap p) (k ()) (OpenFolder.quiet (folder.remove name)) e d := by
  rw [run_act]
  constructor
  · rintro ⟨_, _, ⟨-, rfl⟩ | ⟨⟨hw, -⟩, -⟩, h⟩
    · exact h
    · exact absurd hw (OpenFolder.not_beingWritten_quiet _ _)
  · exact fun h => ⟨(), _, .inl ⟨.inl (OpenFolder.not_beingWritten_quiet _ _), rfl⟩, h⟩

theorem run_stands {folder : Folder F} {name : Text} {k : Bool → Process} {e : Ending} {d : OpenFolder F P} :
    Run (does overlap p) (.act (.stands name) k) (OpenFolder.quiet folder) e d ↔
      Run (does overlap p) (k (folder.find name).isSome) (OpenFolder.quiet folder) e d := by
  rw [run_act]
  constructor
  · rintro ⟨_, _, ⟨rfl, rfl⟩, h⟩
    exact h
  · exact fun h => ⟨_, _, ⟨rfl, rfl⟩, h⟩

theorem run_read {folder : Folder F} {name : Text} {k : Option (List UInt8) → Process}
    {e : Ending} {d : OpenFolder F P} :
    Run (does overlap p) (.act (.read name) k) (OpenFolder.quiet folder) e d ↔
      Run (does overlap p) (k (folder.lookup (F.name name))) (OpenFolder.quiet folder) e d := by
  rw [run_act]
  constructor
  · rintro ⟨_, _, ⟨⟨-, rfl⟩ | ⟨hw, -⟩, rfl⟩, h⟩
    · exact h
    · exact absurd hw (OpenFolder.not_beingWritten_quiet _ _)
  · exact fun h => ⟨_, _, ⟨.inl ⟨OpenFolder.not_beingWritten_quiet _ _, rfl⟩, rfl⟩, h⟩

/-- Copying to a free name. -/
theorem run_copyFile {folder : Folder F} {file : File} (hfree : folder.find file.name = none) {s : Report} {k : Process}
    {e : Ending} {d : OpenFolder F P} :
    Run (does overlap p) (Process.copyFile file s k) (OpenFolder.quiet folder) e d ↔
      Run (does overlap p) k (OpenFolder.quiet (folder.copyFile file)) e d := by
  have hnone : folder.lookup (F.name file.name) = none := by rw [← Folder.find_bytes, hfree]; rfl
  have hfilled : ∀ torn, (⟨(folder.write ⟨file.name, torn⟩).write file, Function.update (Function.update
      (OpenFolder.quiet folder : OpenFolder F P).handle p (some (F.name file.name))) p none⟩ : OpenFolder F P) =
      OpenFolder.quiet (folder.copyFile file) := by
    intro torn
    rw [folder.write_write hfree torn, Function.update_idem]
    show _ = (⟨_, _⟩ : OpenFolder F P)
    congr 1
    exact Function.update_eq_self p _
  unfold Process.copyFile
  rw [run_read, hnone, if_neg (by intro h; cases h), run_act]
  constructor
  · rintro ⟨_, _, ⟨-, rfl, torn, rfl⟩ | ⟨⟨hw, -⟩, -⟩, h⟩
    · obtain ⟨_, _, rfl, h⟩ := run_act.1 h
      rw [← hfilled torn]
      exact h
    · exact absurd hw (OpenFolder.not_beingWritten_quiet _ _)
  · intro h
    refine ⟨true, _, .inl ⟨.inl (OpenFolder.not_beingWritten_quiet _ _), rfl, [], rfl⟩, ?_⟩
    have hfill : Run (does overlap p) k ⟨(folder.write ⟨file.name, []⟩).write file, Function.update (Function.update
        (OpenFolder.quiet folder : OpenFolder F P).handle p (some (F.name file.name))) p none⟩ e d := by
      rw [hfilled []]
      exact h
    exact run_act.2 ⟨(), _, rfl, hfill⟩

theorem Alone.done (f : StageState F → StageState F) (g : Report → Report) (hreport : ∀ s, (f s).report = g s.report)
    (houtput : ∀ s, (f s).output = s.output) :
    Alone F overlap p (fun s => .done (g s)) fun s => .done (f s) := by
  intro s e d
  unfold Process.done Outcome.ending Outcome.state
  rw [run_ret]
  dsimp only
  rw [hreport, houtput]

theorem Alone.fatal (message : Text) : Alone F overlap p (.fatal message) (.fatal message) := fun _ _ _ => run_ret

theorem Alone.andThen {piece piece' : Report → Process} {script script' : StageState F → Outcome (StageState F)}
    (h : Alone F overlap p piece script) (h' : Alone F overlap p piece' script') :
    Alone F overlap p (fun s => (piece s).andThen piece') fun s => (script s).bind script' := by
  intro s e d
  show Run (does overlap p) (Prog.bind _ _) _ e d ↔ e = ((script s).bind script').ending ∧
    d = OpenFolder.quiet ((script s).bind script').state.output
  rw [run_bind]
  have hrest : ∀ e₁ d₁, Run (does overlap p) (piece s.report) (OpenFolder.quiet s.output) e₁ d₁ →
      e₁ = (script s).ending ∧ d₁ = OpenFolder.quiet (script s).state.output := fun e₁ d₁ => (h s e₁ d₁).1
  have hrun := (h s (script s).ending (OpenFolder.quiet (script s).state.output)).2 ⟨rfl, rfl⟩
  cases hscript : script s with
  | done t =>
    rw [hscript] at hrest hrun
    constructor
    · rintro ⟨e₁, d₁, h₁, h₂⟩
      obtain ⟨rfl, rfl⟩ := hrest e₁ d₁ h₁
      exact (h' t e d).1 h₂
    · exact fun h₂ => ⟨_, _, hrun, (h' t e d).2 h₂⟩
  | fatal message t =>
    rw [hscript] at hrest hrun
    constructor
    · rintro ⟨e₁, d₁, h₁, h₂⟩
      obtain ⟨rfl, rfl⟩ := hrest e₁ d₁ h₁
      exact run_ret.1 h₂
    · exact fun h₂ => ⟨_, _, hrun, run_ret.2 h₂⟩

theorem Alone.forEach {α : Type} {body : α → Report → Process} {script : α → StageState F → Outcome (StageState F)}
    (h : ∀ a, Alone F overlap p (body a) (script a)) :
    ∀ as, Alone F overlap p (Process.forEach body as) (Stage.forEach script as)
  | [] => Alone.done id id (fun _ => rfl) fun _ => rfl
  | a :: as => (h a).andThen (Alone.forEach h as)

theorem alone_purgeFile (outputDir : Text) (vecExcludedDlls : List Text) (f : File) :
    Alone F overlap p (Process.purgeFile outputDir vecExcludedDlls f.name) fun s =>
      .done (purgeFile vecExcludedDlls f s) := by
  intro s e d
  dsimp only
  unfold Process.purgeFile purgeFile
  by_cases hex : toLower f.name ∈ vecExcludedDlls
  · have hgone : ((s.output.remove f.name).find f.name).isSome = false := by
      rw [Option.isSome_eq_false_iff, Option.isNone_iff_eq_none, Folder.find_eq_none]
      intro g hg
      simpa using (List.mem_filter.1 hg).2
    rw [if_pos hex, if_pos hex, run_remove, run_stands, hgone, if_neg Bool.false_ne_true]
    exact run_ret
  · rw [if_neg hex, if_neg hex]
    exact run_ret

theorem forEach_purgeFile (vecExcludedDlls : List Text) : ∀ (files : List File) (s : StageState F),
    Stage.forEach (fun f s => .done (purgeFile vecExcludedDlls f s)) files s =
      .done (files.foldl (fun s f => purgeFile vecExcludedDlls f s) s)
  | [], _ => rfl
  | f :: files, s => forEach_purgeFile vecExcludedDlls files (purgeFile vecExcludedDlls f s)

theorem forEach_map {α β : Type} (body : β → Report → Process) (f : α → β) :
    ∀ as, Process.forEach body (as.map f) = Process.forEach (fun a => body (f a)) as
  | [] => rfl
  | a :: as => by
    funext s
    show (body (f a) s).andThen (Process.forEach body (as.map f)) = _
    rw [forEach_map body f as]
    rfl

theorem alone_purge (outputDir : Text) (vecExcludedDlls : List Text) :
    Alone F overlap p (Process.purge outputDir vecExcludedDlls) fun s => .done (purge vecExcludedDlls s) := by
  intro s e d
  dsimp only
  unfold Process.purge purge
  by_cases htrue : isTrue vecExcludedDlls = true
  · rw [if_pos htrue, if_pos htrue, run_glob, forEach_map, ← forEach_purgeFile]
    exact Alone.forEach (alone_purgeFile outputDir vecExcludedDlls) s.output.files s e d
  · rw [if_neg htrue, if_neg htrue]
    exact run_ret

variable {sha256 : List UInt8 → Text} {vecExcludedDlls : List Text}

theorem alone_stageDll (outputDir : Text) (theFile : Source) :
    Alone F overlap p (Process.stageDll sha256 outputDir vecExcludedDlls theFile)
      (stageDll sha256 outputDir vecExcludedDlls theFile) := by
  intro s e d
  unfold Process.stageDll stageDll
  dsimp only
  by_cases hdll : (!endsInDll (toLower theFile.file.name)) = true
  · rw [if_pos hdll, if_pos hdll]
    exact run_ret
  rw [if_neg hdll, if_neg hdll]
  by_cases hex : toLower theFile.file.name ∈ vecExcludedDlls
  · rw [if_pos hex, if_pos hex]
    exact run_ret
  rw [if_neg hex, if_neg hex]
  cases peCheck theFile.theFile theFile.file.bytes with
  | some message => exact run_ret
  | none =>
    dsimp only
    have hvec : s.report.vecStaged = s.vecStaged := rfl
    rw [hvec]
    cases s.vecStaged.find? fun x => x.1 = toLower theFile.file.name with
    | some x =>
      dsimp only
      by_cases hhash : sha256 x.2.file.bytes ≠ sha256 theFile.file.bytes
      · rw [if_pos hhash, if_pos hhash]
        exact run_ret
      · rw [if_neg hhash, if_neg hhash]
        exact run_ret
    | none =>
      dsimp only
      rw [run_stands]
      cases hfind : s.output.find theFile.file.name with
      | none =>
        rw [if_neg (by simp), run_copyFile hfind]
        exact run_ret
      | some theDest =>
        have hlookup : s.output.lookup (F.name theFile.file.name) = some theDest.bytes := by
          rw [← Folder.find_bytes, hfind]
          rfl
        rw [if_pos (by simp), run_read, hlookup]
        dsimp only
        by_cases hhash : sha256 theDest.bytes ≠ sha256 theFile.file.bytes
        · rw [if_pos hhash, if_pos hhash]
          exact run_ret
        · rw [if_neg hhash, if_neg hhash]
          exact run_ret

theorem alone_stageToolchain (outputDir : Text) (i : Invocation) :
    Alone F overlap p (Process.stageToolchain sha256 outputDir vecExcludedDlls F i)
      (stageToolchain sha256 outputDir vecExcludedDlls i) := by
  unfold Process.stageToolchain stageToolchain
  by_cases htrue : isTrue i.vecToolchainDlls = true
  · simp only [if_pos htrue]
    cases i.toolchainBin with
    | none => exact Alone.fatal _
    | some bin =>
      refine Alone.forEach (fun strDll => ?_) _
      unfold Process.stageToolchainDll stageToolchainDll
      by_cases hname : (!matchesDllName strDll) = true
      · simp only [if_pos hname]
        exact Alone.fatal _
      · simp only [if_neg hname]
        cases bin.2.find? fun f => F.name f.name = F.name strDll with
        | none => exact Alone.fatal _
        | some f => exact alone_stageDll outputDir _
  · simp only [if_neg htrue]
    exact Alone.done id id (fun _ => rfl) fun _ => rfl

theorem alone_stageRoot (outputDir configuration : Text) (root : PackageRoot) :
    Alone F overlap p (Process.stageRoot sha256 outputDir vecExcludedDlls configuration root)
      (stageRoot sha256 outputDir vecExcludedDlls configuration root) := by
  unfold Process.stageRoot stageRoot
  by_cases hdir : (!root.isDirectory) = true
  · simp only [if_pos hdir]
    exact Alone.fatal _
  · simp only [if_neg hdir]
    refine Alone.forEach (fun bin => ?_) _
    unfold Process.stageBin stageBin
    cases root.files bin with
    | none => exact Alone.done id id (fun _ => rfl) fun _ => rfl
    | some files => exact Alone.forEach (alone_stageDll outputDir) _

/-- A process that has the directory for itself ends as the script does and leaves what it leaves. -/
theorem alone_stageRuntime (outputDir : Text) (i : Invocation) (output : Folder F) (e : Ending) (d : OpenFolder F P) :
    Run (does overlap p) (Process.stageRuntime F sha256 outputDir i) (OpenFolder.quiet output) e d ↔
      e = (stageRuntime sha256 outputDir i output).ending ∧
      d = OpenFolder.quiet (stageRuntime sha256 outputDir i output).state.output := by
  unfold Process.stageRuntime stageRuntime
  dsimp only
  by_cases hroots : (!isTrue (i.vecRoots.map PackageRoot.theRoot)) = true
  · rw [if_pos hroots, if_pos hroots]
    exact run_ret
  rw [if_neg hroots, if_neg hroots]
  by_cases hconf : i.configuration ≠ "Debug".toList ∧ i.configuration ≠ "Release".toList
  · rw [if_pos hconf, if_pos hconf]
    exact run_ret
  rw [if_neg hconf, if_neg hconf]
  cases excludedDlls i.vecExcludedNames with
  | error message => exact run_ret
  | ok keys =>
    refine (alone_purge outputDir keys.eraseDups).andThen ((alone_stageToolchain outputDir i).andThen
      ((Alone.forEach (alone_stageRoot outputDir i.configuration) i.vecRoots).andThen ?_)) (StageState.start output) e d
    exact Alone.done _ _ (fun _ => rfl) fun _ => rfl

end Alone

end BuildEngine.Stage
