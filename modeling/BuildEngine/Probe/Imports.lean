/-
The two import enumerators: `ReportImports`, which prints the static imports of one file, and the
part of `Visit` (in `ReportDependencyTree`) that reads one file: its header tests and, descriptor by
descriptor, its import directory. What `Visit` does with an import is in `Probe.Tree`.
-/
import BuildEngine.Probe.Translate

namespace BuildEngine.Probe

open Base

/-- The bytes at `pos` are used as a C string. -/
def readString (f : MappedFile) (pos : Nat) : Probing (List UInt8) := do
  Traced.emit (.cstring pos (f.stringAt pos))
  pure (f.stringAt pos)

/-- `memchr(data + pos, 0, length - pos)`. -/
def findZero (f : MappedFile) (pos : Nat) : Probing Bool := do
  Traced.emit (.memchr pos (f.length - pos))
  pure (f.hasZero pos)

@[simp] theorem val_readString (f : MappedFile) (pos : Nat) : (readString f pos).val = f.stringAt pos := rfl
@[simp] theorem val_findZero (f : MappedFile) (pos : Nat) : (findZero f pos).val = f.hasZero pos := rfl

/-! ## `ReportImports` -/

/-- The descriptor loop of `ReportImports`: `n` iterations from index `i` on. -/
def reportLoop (f : MappedFile) (dos : ImageDosHeader) (nt : ImageNtHeaders64) (dir : ImageDataDirectory) :
    Nat → Nat → Probing Unit
  | 0, _ => pure ()
  | n + 1, i => do
    -- the sum of two `DWORD`s
    let address := (dir.virtualAddress + i * imageImportDescriptor.size) % 2 ^ 32
    let offset ← rva f dos nt address imageImportDescriptor.size
    match ← f.atOffset imageImportDescriptor offset with
    | none => wprintf "[LOADER] PE: malformed import descriptors\n" []
    | some descriptor =>
      if descriptor.name = 0 then pure ()
      else do
        let namePos ← rva f dos nt descriptor.name 1
        if namePos ≥ f.length then do
          wprintf "[LOADER] PE: malformed import name RVA\n" []
          reportLoop f dos nt dir n (i + 1)
        else do
          let zero ← findZero f namePos
          if !zero then do
            wprintf "[LOADER] PE: unterminated import name\n" []
            reportLoop f dos nt dir n (i + 1)
          else do
            let name ← readString f namePos
            wprintf "[LOADER] imports: %hs\n" [.narrow name]
            reportLoop f dos nt dir n (i + 1)

/-- The number of iterations the loop of `ReportImports` may make:
`i < dir.Size / sizeof(IMAGE_IMPORT_DESCRIPTOR) && i < 1024`. -/
def reportBound (dir : ImageDataDirectory) : Nat := min (dir.size / imageImportDescriptor.size) 1024

/-- `ReportImports` on the file it has mapped. -/
def reportImports (f : MappedFile) : Probing Unit := do
  match ← f.atOffset imageDosHeader 0 with
  | none => wprintf "[LOADER] PE: invalid DOS header or inaccessible file\n" []
  | some dos =>
    if dos.eMagic ≠ imageDosSignature ∨ dos.eLfanew < 0 then
      wprintf "[LOADER] PE: invalid DOS header or inaccessible file\n" []
    else do
      match ← f.atOffset imageNtHeaders64 dos.eLfanew.toNat with
      | none => wprintf "[LOADER] PE: invalid NT header\n" []
      | some nt =>
        if nt.signature ≠ imageNtSignature then
          wprintf "[LOADER] PE: invalid NT header\n" []
        else do
          wprintf "[LOADER] PE: Machine=0x%04X OptionalMagic=0x%04X Sections=%u\n"
            [.num nt.fileHeader.machine, .num nt.optionalHeader.magic, .num nt.fileHeader.numberOfSections]
          if nt.fileHeader.machine ≠ imageFileMachineAmd64 ∨
              nt.optionalHeader.magic ≠ imageNtOptionalHdr64Magic then
            wprintf "[LOADER] PE: ERROR - image is not AMD64 PE32+\n" []
          else if nt.optionalHeader.numberOfRvaAndSizes ≤ imageDirectoryEntryImport then
            pure ()
          else
            let dir := nt.optionalHeader.dataDirectory imageDirectoryEntryImport
            if dir.virtualAddress = 0 ∨ dir.size = 0 then
              wprintf "[LOADER] PE: no static import directory\n" []
            else
              reportLoop f dos nt dir (reportBound dir) 0

/-! ## The reading part of `Visit` -/

/-- Why `Visit` counts a file as invalid before it is expanded. -/
inductive Reason where
  | dos
  | architectureOrPe
  deriving DecidableEq, Repr

/-- The header tests of `Visit`. -/
def visitHeader (f : MappedFile) : Probing (Except Reason (ImageDosHeader × ImageNtHeaders64)) := do
  match ← f.atOffset imageDosHeader 0 with
  | none => pure (.error .dos)
  | some pDos =>
    if pDos.eMagic ≠ imageDosSignature ∨ pDos.eLfanew < 0 then
      pure (.error .dos)
    else do
      match ← f.atOffset imageNtHeaders64 pDos.eLfanew.toNat with
      | none => pure (.error .architectureOrPe)
      | some pNt =>
        if pNt.signature ≠ imageNtSignature ∨ pNt.optionalHeader.magic ≠ imageNtOptionalHdr64Magic ∨
            pNt.fileHeader.machine ≠ imageFileMachineAmd64 then
          pure (.error .architectureOrPe)
        else
          pure (.ok (pDos, pNt))

/-- The import directory `Visit` walks, when the file has one. -/
def visitDirectory (pNt : ImageNtHeaders64) : Option ImageDataDirectory :=
  if pNt.optionalHeader.numberOfRvaAndSizes ≤ imageDirectoryEntryImport then none
  else
    let aDir := pNt.optionalHeader.dataDirectory imageDirectoryEntryImport
    if aDir.virtualAddress = 0 ∨ aDir.size = 0 then none else some aDir

/-- The header tests passed: the DOS header, the complete NT headers behind it, and their values. -/
structure HeaderOk (f : MappedFile) (pDos : ImageDosHeader) (pNt : ImageNtHeaders64) : Prop where
  dosAt : (f.atOffset imageDosHeader 0).val = some pDos
  magic : pDos.eMagic = imageDosSignature
  lfanew : 0 ≤ pDos.eLfanew
  ntAt : (f.atOffset imageNtHeaders64 pDos.eLfanew.toNat).val = some pNt
  signature : pNt.signature = imageNtSignature
  optionalMagic : pNt.optionalHeader.magic = imageNtOptionalHdr64Magic
  machine : pNt.fileHeader.machine = imageFileMachineAmd64

theorem visitHeader_ok {f : MappedFile} {pDos : ImageDosHeader} {pNt : ImageNtHeaders64} :
    (visitHeader f).val = .ok (pDos, pNt) ↔ HeaderOk f pDos pNt := by
  constructor
  · intro h
    unfold visitHeader at h
    rw [Traced.val_bind] at h
    split at h
    · cases h
    · rename_i dos hdos
      split at h
      · cases h
      · rename_i htest
        rw [Traced.val_bind] at h
        split at h
        · cases h
        · rename_i nt hnt
          split at h
          · cases h
          · rename_i hnts
            simp only [not_or, not_not] at htest hnts
            cases h
            exact ⟨hdos, htest.1, by omega, hnt, hnts.1, hnts.2.1, hnts.2.2⟩
  · intro h
    unfold visitHeader
    rw [Traced.val_bind, h.dosAt]
    simp only
    rw [if_neg (by simp [h.magic, h.lfanew]), Traced.val_bind, h.ntAt]
    simp only
    rw [if_neg (by simp [h.signature, h.optionalMagic, h.machine]), Traced.val_pure]

/-- What `Visit` finds at one index of the import directory. -/
inductive Descriptor where
  /-- the RVA of the descriptor exceeds `0xFFFFFFFF`: the loop ends -/
  | wrapped
  /-- the descriptor is outside the file: the loop ends, the file counts as invalid -/
  | malformed
  /-- the null descriptor: the loop ends -/
  | last
  /-- the name is outside the file or unterminated: counted as invalid -/
  | badName
  /-- a NUL-terminated name -/
  | named (strImport : List UInt8)
  deriving DecidableEq, Repr

/-- One iteration of the descriptor loop of `Visit`, up to the name it reads. -/
def readDescriptor (f : MappedFile) (pDos : ImageDosHeader) (pNt : ImageNtHeaders64)
    (aDir : ImageDataDirectory) (u : Nat) : Probing Descriptor := do
  let uDescriptorRva := aDir.virtualAddress + u * imageImportDescriptor.size
  if uDescriptorRva > 0xFFFFFFFF then pure .wrapped
  else do
    let uOffset ← toOffset f pDos pNt uDescriptorRva imageImportDescriptor.size
    match ← f.atOffset imageImportDescriptor uOffset with
    | none => pure .malformed
    | some pImport =>
      if pImport.name = 0 then pure .last
      else do
        let uNameOffset ← toOffset f pDos pNt pImport.name 1
        if uNameOffset ≥ f.length then pure .badName
        else do
          let pEnd ← findZero f uNameOffset
          if !pEnd then pure .badName
          else do
            let strImport ← readString f uNameOffset
            pure (.named strImport)

/-! ## What is recorded -/

section

variable {f : MappedFile} {P : Event → Prop}

theorem findZero_all {pos : Nat} (h : P (.memchr pos (f.length - pos))) : (findZero f pos).All P :=
  Traced.All.bind ((Traced.all_emit _).2 h) (Traced.all_pure _)

theorem readString_all {pos : Nat} (h : P (.cstring pos (f.stringAt pos))) : (readString f pos).All P :=
  Traced.All.bind ((Traced.all_emit _).2 h) (Traced.all_pure _)

variable (hderef : ∀ pos size, f.inside pos size = true → P (.deref pos size))
include hderef

theorem visitHeader_all : (visitHeader f).All P := by
  have hat : ∀ {α : Type} (T : Layout α) pos, (f.atOffset T pos).All P := fun T pos => atOffset_all (hderef pos T.size)
  unfold visitHeader
  refine (hat _ _).bind ?_
  split
  · exact Traced.all_pure _
  · split
    · exact Traced.all_pure _
    · refine (hat _ _).bind ?_
      split
      · exact Traced.all_pure _
      · split
        · exact Traced.all_pure _
        · exact Traced.all_pure _

theorem readDescriptor_all {pDos : ImageDosHeader} {pNt : ImageNtHeaders64} {aDir : ImageDataDirectory} {u : Nat}
    (hdescriptor : ∀ address, address = aDir.virtualAddress + u * imageImportDescriptor.size → address ≤ 0xFFFFFFFF →
      P (.translated address imageImportDescriptor.size (toOffset f pDos pNt address imageImportDescriptor.size).val))
    (hname : ∀ address, P (.translated address 1 (toOffset f pDos pNt address 1).val))
    (hmemchr : ∀ pos < f.length, P (.memchr pos (f.length - pos)))
    (hcstring : ∀ pos, f.hasZero pos = true → P (.cstring pos (f.stringAt pos))) :
    (readDescriptor f pDos pNt aDir u).All P := by
  have hsection : ∀ pos, f.inside pos imageSectionHeader.size = true → P (.deref pos imageSectionHeader.size) :=
    fun pos => hderef pos _
  unfold readDescriptor
  dsimp only
  split
  · exact Traced.all_pure _
  · rename_i hend
    refine (toOffset_all hsection (hdescriptor _ rfl (by omega))).bind ((atOffset_all (hderef _ _)).bind ?_)
    split
    · exact Traced.all_pure _
    · split
      · exact Traced.all_pure _
      · refine (toOffset_all hsection (hname _)).bind ?_
        split
        · exact Traced.all_pure _
        · rename_i hpos
          refine (findZero_all (hmemchr _ (by omega))).bind ?_
          split
          · exact Traced.all_pure _
          · rename_i hz
            exact (readString_all (hcstring _ (by simpa using hz))).bind (Traced.all_pure _)

end

end BuildEngine.Probe
