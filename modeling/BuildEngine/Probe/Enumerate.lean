/-
The two import enumerators compared. `visitImports` is the list of the names `Visit` reads, each with the
index of its descriptor; `ReportImports` prints the names of the same list whose index is below the bound
it takes from the size of the directory, as long as no RVA of the walk is one of the headers and the
directory does not run past the 32-bit address space.
-/
import BuildEngine.Probe.Tree

namespace BuildEngine.Probe

open Base

/-! ## The two lists -/

/-- The import name of a line printed by `ReportImports`. -/
def printedName : Event → Option (List UInt8)
  | .wprintf format [.narrow name] => if format = "[LOADER] imports: %hs\n" then some name else none
  | _ => none

/-- The import names printed in a trace, in order. -/
def printedImports (log : List Event) : List (List UInt8) := log.filterMap printedName

/-- The names found in `n` descriptors from index `u` on, with their indices. -/
def importsFrom (read : Nat → Descriptor) : Nat → Nat → List (Nat × List UInt8)
  | 0, _ => []
  | n + 1, u =>
    match read u with
    | .wrapped | .malformed | .last => []
    | .badName => importsFrom read n (u + 1)
    | .named strImport => (u, strImport) :: importsFrom read n (u + 1)

/-- The NUL-terminated import names that `Visit` reads from a file, with the indices of their
descriptors. -/
def visitImports (f : MappedFile) : List (Nat × List UInt8) :=
  match (visitHeader f).val with
  | .error _ => []
  | .ok (pDos, pNt) =>
    match visitDirectory pNt with
    | none => []
    | some aDir => importsFrom (fun u => (readDescriptor f pDos pNt aDir u).val) 1024 0

theorem importsFrom_index_ge (read : Nat → Descriptor) :
    ∀ n u, ∀ p ∈ importsFrom read n u, u ≤ p.1
  | 0, _, _, h => by cases h
  | n + 1, u, p, h => by
    unfold importsFrom at h
    split at h
    · cases h
    · cases h
    · cases h
    · have := importsFrom_index_ge read n (u + 1) p h
      omega
    · rcases List.mem_cons.1 h with rfl | h
      · exact le_refl _
      · have := importsFrom_index_ge read n (u + 1) p h
        omega

/-- A shorter walk finds the names of the longer one below its bound. -/
theorem importsFrom_filter (read : Nat → Descriptor) :
    ∀ n m u, n ≤ m → (importsFrom read m u).filter (fun p => p.1 < u + n) = importsFrom read n u
  | 0, m, u, _ => by
    rw [importsFrom, List.filter_eq_nil_iff]
    intro p hp
    have := importsFrom_index_ge read m u p hp
    simpa using this
  | n + 1, 0, u, h => by omega
  | n + 1, m + 1, u, h => by
    have ih := importsFrom_filter read n m (u + 1) (by omega)
    rw [show u + 1 + n = u + (n + 1) by omega] at ih
    rw [importsFrom, importsFrom]
    split
    · rfl
    · rfl
    · rfl
    · exact ih
    · rw [List.filter_cons_of_pos (by simp), ih]

theorem importsFrom_congr {read read' : Nat → Descriptor} :
    ∀ n u, (∀ i, i < u + n → read i = read' i) → importsFrom read n u = importsFrom read' n u
  | 0, _, _ => rfl
  | n + 1, u, h => by
    have ih : importsFrom read n (u + 1) = importsFrom read' n (u + 1) :=
      importsFrom_congr n (u + 1) fun i hi => h i (by omega)
    rw [importsFrom, importsFrom, h u (by omega), ih]

/-! ## What `ReportImports` prints -/

section

variable (f : MappedFile) (dos : ImageDosHeader) (nt : ImageNtHeaders64) (dir : ImageDataDirectory)

/-- What `ReportImports` finds at one index of the import directory, in the terms of `Visit`. -/
def reportStep (i : Nat) : Descriptor :=
  let address := (dir.virtualAddress + i * imageImportDescriptor.size) % 2 ^ 32
  match (f.atOffset imageImportDescriptor (rva f dos nt address imageImportDescriptor.size).val).val with
  | none => .malformed
  | some descriptor =>
    if descriptor.name = 0 then .last
    else if (rva f dos nt descriptor.name 1).val ≥ f.length then .badName
    else if f.hasZero (rva f dos nt descriptor.name 1).val then
      .named (f.stringAt (rva f dos nt descriptor.name 1).val)
    else .badName

variable {f dos nt dir}

theorem printedImports_of_all {log : List Event} (h : ∀ e ∈ log, printedName e = none) :
    printedImports log = [] := List.filterMap_eq_nil_iff.2 h

@[simp] theorem printed_rva (address need : Nat) : printedImports (rva f dos nt address need).log = [] :=
  printedImports_of_all (translated_all (sectionSearch_all (fun _ _ => rfl) _ _) rfl)

@[simp] theorem printed_atOffset {α : Type} (T : Layout α) (pos : Nat) :
    printedImports (f.atOffset T pos).log = [] := printedImports_of_all (atOffset_all fun _ => rfl)

@[simp] theorem printed_append (l l' : List Event) :
    printedImports (l ++ l') = printedImports l ++ printedImports l' := List.filterMap_append

/-- `ReportImports` prints the names of its walk. -/
theorem printed_reportLoop : ∀ n i,
    printedImports (reportLoop f dos nt dir n i).log = (importsFrom (reportStep f dos nt dir) n i).map Prod.snd
  | 0, _ => rfl
  | n + 1, i => by
    have ih := printed_reportLoop n (i + 1)
    rw [reportLoop, importsFrom, reportStep]
    simp only [Traced.log_bind, printed_append, printed_rva, printed_atOffset, List.nil_append]
    cases (f.atOffset imageImportDescriptor (rva f dos nt
        ((dir.virtualAddress + i * imageImportDescriptor.size) % 2 ^ 32) imageImportDescriptor.size).val).val with
    | none => rfl
    | some descriptor =>
      simp only
      by_cases hname : descriptor.name = 0
      · rw [if_pos hname, if_pos hname]; rfl
      · rw [if_neg hname, if_neg hname, Traced.log_bind, printed_append, printed_rva, List.nil_append]
        by_cases hpos : (rva f dos nt descriptor.name 1).val ≥ f.length
        · rw [if_pos hpos, if_pos hpos]; exact ih
        · rw [if_neg hpos, if_neg hpos, Traced.log_bind, printed_append, val_findZero]
          cases hz : f.hasZero (rva f dos nt descriptor.name 1).val with
          | false => exact ih
          | true =>
            show _ :: printedImports (reportLoop f dos nt dir n (i + 1)).log = _ :: List.map Prod.snd _
            rw [ih]; rfl

/-- A file that passes the header tests of `Visit` also passes those of `ReportImports`, which then prints
the names of its walk over the directory. -/
theorem printed_reportImports (h : HeaderOk f dos nt) (hdir : visitDirectory nt = some dir) :
    printedImports (reportImports f).log =
      (importsFrom (reportStep f dos nt dir) (reportBound dir) 0).map Prod.snd := by
  unfold visitDirectory at hdir
  split at hdir
  · cases hdir
  · rename_i hcount
    dsimp only at hdir
    split at hdir
    · cases hdir
    · rename_i hzero
      cases hdir
      unfold reportImports
      rw [Traced.log_bind, printed_append, printed_atOffset, h.dosAt]
      simp only [List.nil_append]
      rw [if_neg (by simp [h.magic, h.lfanew]), Traced.log_bind, printed_append, printed_atOffset, h.ntAt]
      simp only [List.nil_append]
      rw [if_neg (by simp [h.signature]), Traced.log_bind, printed_append,
        if_neg (by simp [h.machine, h.optionalMagic]), if_neg hcount, if_neg hzero, printed_reportLoop]
      rfl

/-! ## Agreement -/

/-- The walk over the first `reportBound` descriptors translates no RVA of the headers, and the directory
ends within the 32-bit address space. -/
structure InSections (f : MappedFile) (dos : ImageDosHeader) (nt : ImageNtHeaders64)
    (dir : ImageDataDirectory) : Prop where
  directory : nt.optionalHeader.sizeOfHeaders ≤ dir.virtualAddress
  names : ∀ i < reportBound dir, ∀ descriptor ∈ (f.atOffset imageImportDescriptor
      (rva f dos nt (dir.virtualAddress + i * imageImportDescriptor.size) imageImportDescriptor.size).val).val,
    descriptor.name = 0 ∨ nt.optionalHeader.sizeOfHeaders ≤ descriptor.name
  fits : dir.virtualAddress + dir.size ≤ 2 ^ 32

theorem InSections.address_lt (h : InSections f dos nt dir) {i : Nat} (hi : i < reportBound dir) :
    dir.virtualAddress + i * imageImportDescriptor.size < 2 ^ 32 := by
  have hfits := h.fits
  have hdiv : dir.size / 20 * 20 ≤ dir.size := Nat.div_mul_le_self ..
  simp only [reportBound, imageImportDescriptor] at hi ⊢
  omega

/-- Below the bound both enumerators find the same at every index. -/
theorem reportStep_eq (h : InSections f dos nt dir) {i : Nat} (hi : i < reportBound dir) :
    reportStep f dos nt dir i = (readDescriptor f dos nt dir i).val := by
  have haddress := h.address_lt hi
  have hnames := h.names i hi
  unfold reportStep readDescriptor
  dsimp only
  rw [if_neg (by omega), Nat.mod_eq_of_lt haddress, Traced.val_bind, Traced.val_bind,
    toOffset_eq_rva _ _ _ _ (le_trans h.directory (Nat.le_add_right ..))]
  cases hat : (f.atOffset imageImportDescriptor (rva f dos nt
      (dir.virtualAddress + i * imageImportDescriptor.size) imageImportDescriptor.size).val).val with
  | none => rfl
  | some descriptor =>
    simp only
    by_cases hname : descriptor.name = 0
    · rw [if_pos hname, if_pos hname]; rfl
    · have hle := (hnames descriptor hat).resolve_left hname
      rw [if_neg hname, if_neg hname, Traced.val_bind, toOffset_eq_rva _ _ _ _ hle]
      by_cases hpos : (rva f dos nt descriptor.name 1).val ≥ f.length
      · rw [if_pos hpos, if_pos hpos]; rfl
      · rw [if_neg hpos, if_neg hpos, Traced.val_bind, val_findZero]
        cases f.hasZero (rva f dos nt descriptor.name 1).val
        · rfl
        · rfl

theorem visitImports_eq (h : HeaderOk f dos nt) (hdir : visitDirectory nt = some dir) :
    visitImports f = importsFrom (fun u => (readDescriptor f dos nt dir u).val) 1024 0 := by
  unfold visitImports
  rw [visitHeader_ok.2 h]
  simp only [hdir]

end

/-- The import directory of a file that passes the header tests. -/
def importDirectory (f : MappedFile) : Option ImageDataDirectory :=
  match (visitHeader f).val with
  | .error _ => none
  | .ok (_, pNt) => visitDirectory pNt

/-- A directory of one descriptor that three more follow. -/
def shortDirectory : MappedFile := .ofFile (some (imageBytes 1 368 0x1000 20
  (sectionBytes 0x1000 64 368 ++ importBytes 0x103C ++ importBytes 0x103E ++ importBytes 0 ++ [65, 0, 66, 0])))

/-- An import directory inside the headers. -/
def headerDirectory : MappedFile := .ofFile (some (imageBytes 0 0x1000 328 40
  (importBytes 368 ++ importBytes 0 ++ [65, 0])))

/-- An import directory whose second descriptor is at RVA 0. -/
def wrappedDirectory : MappedFile := .ofFile (some (imageBytes 2 0 0xFFFFFFEC 40
  (sectionBytes 0xFFFFFFEC 20 408 ++ sectionBytes 0 24 428 ++ importBytes 20 ++ importBytes 22 ++ [65, 0, 66, 0])))

/-- The two lists differ where the walk leaves `InSections` and where `Visit` walks past the size of the
directory. -/
theorem printedImports_ne_visitImports :
    (importDirectory shortDirectory = some ⟨0x1000, 20⟩ ∧
      printedImports (reportImports shortDirectory).log = [[65]] ∧
      (visitImports shortDirectory).map Prod.snd = [[65], [66]]) ∧
    (importDirectory headerDirectory = some ⟨328, 40⟩ ∧
      printedImports (reportImports headerDirectory).log = [] ∧
      (visitImports headerDirectory).map Prod.snd = [[65]]) ∧
    (importDirectory wrappedDirectory = some ⟨0xFFFFFFEC, 40⟩ ∧
      printedImports (reportImports wrappedDirectory).log = [[65], [66]] ∧
      (visitImports wrappedDirectory).map Prod.snd = [[65]]) := by
  decide +kernel

/-- On a file that passes the header tests, has an import directory and keeps the walk in its sections,
`ReportImports` prints exactly the names `Visit` reads from the descriptors below its bound; so the two
lists are equal exactly when `Visit` reads no name from a later one. -/
theorem printedImports_eq_visitImports (f : MappedFile) (dos : ImageDosHeader) (nt : ImageNtHeaders64)
    (dir : ImageDataDirectory) (header : (visitHeader f).val = .ok (dos, nt))
    (directory : visitDirectory nt = some dir) (sections : InSections f dos nt dir) :
    printedImports (reportImports f).log =
        ((visitImports f).filter fun p => p.1 < reportBound dir).map Prod.snd ∧
      (printedImports (reportImports f).log = (visitImports f).map Prod.snd ↔
        ∀ p ∈ visitImports f, p.1 < reportBound dir) := by
  have hok := visitHeader_ok.1 header
  have hle : reportBound dir ≤ 1024 := Nat.min_le_right ..
  have hprinted : printedImports (reportImports f).log =
      ((visitImports f).filter fun p => p.1 < reportBound dir).map Prod.snd := by
    rw [printed_reportImports hok directory, visitImports_eq hok directory,
      importsFrom_congr (reportBound dir) 0 fun i hi => reportStep_eq sections (by omega),
      ← importsFrom_filter _ (reportBound dir) 1024 0 hle, Nat.zero_add]
  refine ⟨hprinted, ?_⟩
  rw [hprinted]
  constructor
  · intro h p hp
    have hlen := congrArg List.length h
    rw [List.length_map, List.length_map] at hlen
    have := List.length_filter_eq_length_iff.1 hlen p hp
    simpa using this
  · intro h
    rw [List.filter_eq_self.2 fun p hp => by simpa using h p hp]

/-- The NT headers of `shortDirectory`. -/
def shortDirectoryNt : ImageNtHeaders64 := imageNtHeaders64.decode ((shortDirectory.data.drop 64).take 264)

set_option maxRecDepth 8000 in
theorem printedImports_shortDirectory :
    printedImports (reportImports shortDirectory).log =
        ((visitImports shortDirectory).filter fun p => p.1 < reportBound ⟨0x1000, 20⟩).map Prod.snd ∧
      (printedImports (reportImports shortDirectory).log = (visitImports shortDirectory).map Prod.snd ↔
        ∀ p ∈ visitImports shortDirectory, p.1 < reportBound ⟨0x1000, 20⟩) :=
  printedImports_eq_visitImports shortDirectory ⟨0x5A4D, 64⟩ shortDirectoryNt ⟨0x1000, 20⟩ (by rfl)
    (by decide +kernel) ⟨by decide +kernel, by decide +kernel, by decide +kernel⟩

end BuildEngine.Probe
