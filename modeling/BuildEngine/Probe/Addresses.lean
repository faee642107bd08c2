/-
The addresses the probe computes by adding an offset to the RVA of a directory. `Visit` adds in 64 bits and ends
its walk at the end of the address space; `ReportImports` and `DiagnoseImage` add `DWORD`s, and a sum past the end
of the address space is an address at its beginning.
-/
import BuildEngine.Probe.Diagnose
import BuildEngine.Probe.Enumerate

namespace BuildEngine.Probe

open Base

/-! ## Requests -/

/-- The address and the answer when an RVA translator is asked for `need` bytes. -/
def request (need : Nat) : Event → Option (Nat × Nat)
  | .translated address bytes pos => if bytes = need then some (address, pos) else none
  | _ => none

/-- The requests for `need` bytes in a trace, in order. -/
def requests (need : Nat) (log : List Event) : List (Nat × Nat) := log.filterMap (request need)

section Requests

variable {f : MappedFile} {need : Nat}

@[simp] theorem requests_nil : requests need [] = [] := rfl

@[simp] theorem requests_append (l l' : List Event) : requests need (l ++ l') = requests need l ++ requests need l' :=
  List.filterMap_append

theorem requests_of_all {log : List Event} (h : ∀ e ∈ log, request need e = none) : requests need log = [] :=
  List.filterMap_eq_nil_iff.2 h

@[simp] theorem requests_atOffset {α : Type} (T : Layout α) (pos : Nat) : requests need (f.atOffset T pos).log = [] :=
  requests_of_all (atOffset_all fun _ => rfl)

@[simp] theorem requests_wprintf (format : String) (args : List Arg) : requests need (wprintf format args).log = [] :=
  rfl

@[simp] theorem requests_findZero (pos : Nat) : requests need (findZero f pos).log = [] := rfl

@[simp] theorem requests_readString (pos : Nat) : requests need (readString f pos).log = [] := rfl

/-- A search of the section table reports one request, with its answer. -/
theorem requests_search (stop : Bool) (sections address bytes n : Nat) :
    requests need (translated address bytes (sectionSearch stop f sections address bytes n 0)).log =
      if bytes = need then [(address, (sectionSearch stop f sections address bytes n 0).val)] else [] := by
  have hsearch : requests need (sectionSearch stop f sections address bytes n 0).log = [] :=
    requests_of_all (sectionSearch_all (fun _ _ => rfl) _ _)
  rw [translated, Traced.log_bind, requests_append, hsearch, List.nil_append]
  by_cases hneed : bytes = need
  · simp [requests, request, hneed]
  · simp [requests, request, hneed]

theorem requests_rva (dos : ImageDosHeader) (nt : ImageNtHeaders64) (address bytes : Nat) :
    requests need (rva f dos nt address bytes).log =
      if bytes = need then [(address, (rva f dos nt address bytes).val)] else [] := requests_search ..

theorem requests_rawOffset (dos : ImageDosHeader) (nt : ImageNtHeaders64) (address bytes : Nat) :
    requests need (rawOffset f dos nt address bytes).log =
      if bytes = need then [(address, (rawOffset f dos nt address bytes).val)] else [] := requests_search ..

end Requests

/-! ## The descriptors of `ReportImports` -/

/-- The address `ReportImports` computes for descriptor `i`. -/
def descriptorAddress (dir : ImageDataDirectory) (i : Nat) : Nat :=
  (dir.virtualAddress + i * imageImportDescriptor.size) % 2 ^ 32

section Imports

variable (f : MappedFile) (dos : ImageDosHeader) (nt : ImageNtHeaders64) (dir : ImageDataDirectory)

/-- A descriptor with a name is read at the address. -/
def NamedAt (address : Nat) : Prop :=
  ∃ descriptor ∈ (f.atOffset imageImportDescriptor (rva f dos nt address imageImportDescriptor.size).val).val,
    descriptor.name ≠ 0

/-- The request of `ReportImports` for descriptor `i`. -/
def descriptorRequest (i : Nat) : Nat × Nat :=
  (descriptorAddress dir i, (rva f dos nt (descriptorAddress dir i) imageImportDescriptor.size).val)

variable {f dos nt dir}

theorem NamedAt.inside {address : Nat} (h : NamedAt f dos nt address) :
    f.inside (rva f dos nt address imageImportDescriptor.size).val imageImportDescriptor.size = true := by
  obtain ⟨descriptor, hread, -⟩ := h
  exact (atOffset_some hread).1

/-- The loop asks for a descriptor, and goes on when it has a name. -/
theorem requests_reportLoop (n i : Nat) :
    (NamedAt f dos nt (descriptorAddress dir i) →
      requests imageImportDescriptor.size (reportLoop f dos nt dir (n + 1) i).log =
        descriptorRequest f dos nt dir i ::
          requests imageImportDescriptor.size (reportLoop f dos nt dir n (i + 1)).log) ∧
    (¬ NamedAt f dos nt (descriptorAddress dir i) →
      requests imageImportDescriptor.size (reportLoop f dos nt dir (n + 1) i).log = [descriptorRequest f dos nt dir i]) := by
  have hname : ¬ 1 = imageImportDescriptor.size := by decide
  rw [NamedAt, reportLoop, ← descriptorAddress]
  simp only [Traced.log_bind, requests_append, requests_rva, requests_atOffset, if_pos, List.nil_append,
    List.singleton_append, descriptorRequest]
  cases hread : (f.atOffset imageImportDescriptor
      (rva f dos nt (descriptorAddress dir i) imageImportDescriptor.size).val).val with
  | none =>
    refine ⟨?_, fun _ => rfl⟩
    rintro ⟨descriptor, hmem, -⟩
    cases hmem
  | some descriptor =>
    simp only
    by_cases hzero : descriptor.name = 0
    · rw [if_pos hzero]
      refine ⟨?_, fun _ => rfl⟩
      rintro ⟨descriptor', hmem, hnonzero⟩
      cases hmem
      exact absurd hzero hnonzero
    · refine ⟨fun _ => ?_, fun hnone => absurd ⟨descriptor, rfl, hzero⟩ hnone⟩
      rw [if_neg hzero, Traced.log_bind, requests_append, requests_rva, if_neg hname, List.nil_append]
      -- whatever becomes of the name, the loop goes on
      by_cases hpos : (rva f dos nt descriptor.name 1).val ≥ f.length
      · rw [if_pos hpos]
        rfl
      · rw [if_neg hpos, Traced.log_bind, requests_append, requests_findZero, List.nil_append]
        cases hzeroByte : f.hasZero (rva f dos nt descriptor.name 1).val with
        | false =>
          rw [val_findZero, hzeroByte]
          rfl
        | true =>
          rw [val_findZero, hzeroByte]
          rfl

/-- Descriptor `k` of a walk is asked for when every one before it has a name. -/
theorem requests_reportLoop_get : ∀ (n i k : Nat) (r : Nat × Nat),
    (requests imageImportDescriptor.size (reportLoop f dos nt dir n i).log)[k]? = some r ↔
      k < n ∧ (∀ j < k, NamedAt f dos nt (descriptorAddress dir (i + j))) ∧ r = descriptorRequest f dos nt dir (i + k)
  | 0, i, k, r => by
    constructor
    · intro h
      cases h
    · rintro ⟨h, -⟩
      cases h
  | n + 1, i, 0, r => by
    have hfirst : (requests imageImportDescriptor.size (reportLoop f dos nt dir (n + 1) i).log)[0]? =
        some (descriptorRequest f dos nt dir i) := by
      by_cases hnamed : NamedAt f dos nt (descriptorAddress dir i)
      · rw [(requests_reportLoop n i).1 hnamed]
        rfl
      · rw [(requests_reportLoop n i).2 hnamed]
        rfl
    rw [hfirst]
    constructor
    · intro h
      cases h
      exact ⟨Nat.succ_pos _, fun j hj => absurd hj (Nat.not_lt_zero _), rfl⟩
    · rintro ⟨-, -, rfl⟩
      rfl
  | n + 1, i, k + 1, r => by
    by_cases hnamed : NamedAt f dos nt (descriptorAddress dir i)
    · rw [(requests_reportLoop n i).1 hnamed, List.getElem?_cons_succ, requests_reportLoop_get n (i + 1) k r,
        Nat.add_right_comm i 1 k]
      refine and_congr Nat.succ_lt_succ_iff.symm (and_congr_left fun _ => ?_)
      constructor
      · intro h j hj
        cases j with
        | zero => exact hnamed
        | succ j =>
          have hj' := h j (by omega)
          rwa [Nat.add_right_comm i 1 j] at hj'
      · intro h j hj
        have hj' := h (j + 1) (by omega)
        rwa [← Nat.add_assoc, Nat.add_right_comm i j 1] at hj'
    · rw [(requests_reportLoop n i).2 hnamed]
      constructor
      · intro h
        cases h
      · rintro ⟨-, h, -⟩
        exact absurd (h 0 (Nat.succ_pos _)) hnamed

/-- `ReportImports` asks for descriptors in a walk over the import directory only. -/
theorem requests_reportImports (h : HeaderOk f dos nt) (hdir : visitDirectory nt = some dir) :
    requests imageImportDescriptor.size (reportImports f).log =
      requests imageImportDescriptor.size (reportLoop f dos nt dir (reportBound dir) 0).log := by
  unfold visitDirectory at hdir
  split at hdir
  · cases hdir
  · rename_i hcount
    dsimp only at hdir
    split at hdir
    · cases hdir
    · rename_i hzero
      cases hdir
      unfold reportImports
      rw [Traced.log_bind, requests_append, requests_atOffset, h.dosAt]
      simp only [List.nil_append]
      rw [if_neg (by simp [h.magic, h.lfanew]), Traced.log_bind, requests_append, requests_atOffset, h.ntAt]
      simp only [List.nil_append]
      rw [if_neg (by simp [h.signature]), Traced.log_bind, requests_append,
        if_neg (by simp [h.machine, h.optionalMagic]), if_neg hcount, if_neg hzero]
      rfl

theorem importDirectory_some : importDirectory f = some dir ↔
    ∃ dos nt, HeaderOk f dos nt ∧ visitDirectory nt = some dir := by
  unfold importDirectory
  constructor
  · intro h
    cases hheader : (visitHeader f).val with
    | error reason =>
      rw [hheader] at h
      cases h
    | ok headers =>
      rw [hheader] at h
      exact ⟨headers.1, headers.2, visitHeader_ok.1 hheader, h⟩
  · rintro ⟨dos, nt, hok, hdir⟩
    rw [visitHeader_ok.2 hok]
    exact hdir

theorem requests_reportImports_none (h : importDirectory f = none) :
    requests imageImportDescriptor.size (reportImports f).log = [] := by
  unfold reportImports
  rw [Traced.log_bind, requests_append, requests_atOffset, List.nil_append]
  cases hdos : (f.atOffset imageDosHeader 0).val with
  | none => rfl
  | some dos =>
    simp only
    by_cases htest : dos.eMagic ≠ imageDosSignature ∨ dos.eLfanew < 0
    · rw [if_pos htest]
      rfl
    · rw [if_neg htest, Traced.log_bind, requests_append, requests_atOffset, List.nil_append]
      cases hnt : (f.atOffset imageNtHeaders64 dos.eLfanew.toNat).val with
      | none => rfl
      | some nt =>
        simp only
        by_cases hsignature : nt.signature = imageNtSignature
        swap
        · rw [if_pos hsignature]
          rfl
        rw [if_neg (not_not.2 hsignature), Traced.log_bind, requests_append, requests_wprintf, List.nil_append]
        by_cases hkind : nt.fileHeader.machine ≠ imageFileMachineAmd64 ∨
            nt.optionalHeader.magic ≠ imageNtOptionalHdr64Magic
        · rw [if_pos hkind]
          rfl
        · rw [if_neg hkind]
          by_cases hcount : nt.optionalHeader.numberOfRvaAndSizes ≤ imageDirectoryEntryImport
          · rw [if_pos hcount]
            rfl
          · rw [if_neg hcount]
            by_cases hzero : (nt.optionalHeader.dataDirectory imageDirectoryEntryImport).virtualAddress = 0 ∨
                (nt.optionalHeader.dataDirectory imageDirectoryEntryImport).size = 0
            · rw [if_pos hzero]
              rfl
            · -- the header tests of `Visit` pass as well
              simp only [not_or, not_not] at htest hkind
              have hok : HeaderOk f dos nt := ⟨hdos, htest.1, by omega, hnt, hsignature, hkind.2, hkind.1⟩
              have hdir : visitDirectory nt = some (nt.optionalHeader.dataDirectory imageDirectoryEntryImport) := by
                unfold visitDirectory
                rw [if_neg hcount]
                exact if_neg hzero
              rw [importDirectory_some.2 ⟨dos, nt, hok, hdir⟩] at h
              cases h

/-- The request for descriptor `i` of an import directory. -/
theorem requests_reportImports_get (h : HeaderOk f dos nt) (hdir : visitDirectory nt = some dir) {i : Nat}
    {r : Nat × Nat} :
    (requests imageImportDescriptor.size (reportImports f).log)[i]? = some r ↔
      i < reportBound dir ∧ (∀ j < i, NamedAt f dos nt (descriptorAddress dir j)) ∧
        r = descriptorRequest f dos nt dir i := by
  rw [requests_reportImports h hdir, requests_reportLoop_get]
  simp only [Nat.zero_add]

end Imports

/-! ## The load configuration directory of `DiagnoseImage` -/

/-- The header tests of `DiagnoseImage`. -/
def diagnoseHeader (f : MappedFile) : Option (ImageDosHeader × ImageNtHeaders64) :=
  match (f.atOffset imageDosHeader 0).val with
  | none => none
  | some dos =>
    if dos.eMagic ≠ imageDosSignature ∨ dos.eLfanew < 0 then none
    else
      match (f.atOffset imageNtHeaders64 dos.eLfanew.toNat).val with
      | none => none
      | some nt =>
        if nt.signature ≠ imageNtSignature ∨ nt.optionalHeader.magic ≠ imageNtOptionalHdr64Magic then none
        else some (dos, nt)

/-- The load configuration directory of an image, when it declares one. -/
def loadDirectory (nt : ImageNtHeaders64) : Option ImageDataDirectory :=
  if nt.optionalHeader.numberOfRvaAndSizes > imageDirectoryEntryLoadConfig then
    some (nt.optionalHeader.dataDirectory imageDirectoryEntryLoadConfig)
  else none

def guardInvalidFormat : String := "[LOADER] IMAGE: LoadConfig.GuardFlags RVA INVALID\n"

section LoadConfig

variable {f : MappedFile} {dos : ImageDosHeader} {nt : ImageNtHeaders64} {load : ImageDataDirectory}

theorem requests_sectionReport {need : Nat} (opt : ImageOptionalHeader64) (sectionOffset : Nat) :
    ∀ n i k, requests need (sectionReport f opt sectionOffset n i k).log = []
  | 0, _, _ => rfl
  | n + 1, i, k => by
    rw [sectionReport, Traced.log_bind, requests_append, requests_atOffset, List.nil_append]
    split
    · rfl
    · rw [Traced.log_bind, requests_append, requests_wprintf, List.nil_append]
      exact requests_sectionReport opt sectionOffset n (i + 1) _

theorem requests_directoryReport {need : Nat} (opt : ImageOptionalHeader64) (entry : Nat) (format : String) :
    requests need (directoryReport opt entry format).log = [] := by
  unfold directoryReport
  split
  · rfl
  · rfl

theorem requests_reportMapping {need : Nat} (mapping : ImageMapping) :
    requests need (reportMapping mapping).log = [] := by
  cases mapping <;> rfl

theorem requests_tlsReport : requests dword.size (tlsReport f dos nt).log = [] := by
  have hsize : ¬ imageTlsDirectory64.size = dword.size := by decide
  unfold tlsReport
  dsimp only
  split
  · rw [Traced.log_bind, requests_append, requests_wprintf, List.nil_append]
    split
    · rw [Traced.log_bind, requests_append, requests_rawOffset, if_neg hsize, List.nil_append, Traced.log_bind,
        requests_append, requests_atOffset, List.nil_append]
      split
      · rfl
      · rfl
    · rfl
  · rfl

/-- A request of `DiagnoseImage` for a `DWORD`. -/
def dwordRequest (f : MappedFile) (dos : ImageDosHeader) (nt : ImageNtHeaders64) (address : Nat) : Nat × Nat :=
  (address, (rawOffset f dos nt address dword.size).val)

/-- The end of the load configuration part: the request for `GuardFlags` and the line about it. -/
def guardReport (f : MappedFile) (dos : ImageDosHeader) (nt : ImageNtHeaders64) (load : ImageDataDirectory) :
    Probing Unit :=
  if load.size ≥ guardFlagsOffset + dword.size then do
    let guardAt ← rawOffset f dos nt (guardRva load) dword.size
    match ← f.atOffset dword guardAt with
    | none => wprintf guardInvalidFormat []
    | some flags => wprintf "[LOADER] IMAGE: LoadConfig.GuardFlags=0x%08lX\n" [.num flags]
  else pure ()

theorem requests_guardReport : requests dword.size (guardReport f dos nt load).log =
    if load.size ≥ guardFlagsOffset + dword.size then [dwordRequest f dos nt (guardRva load)] else [] := by
  unfold guardReport
  split
  · rw [Traced.log_bind, requests_append, requests_rawOffset, if_pos rfl, Traced.log_bind, requests_append,
      requests_atOffset, List.nil_append]
    cases (f.atOffset dword (rawOffset f dos nt (guardRva load) dword.size).val).val with
    | none => rfl
    | some flags => rfl
  · rfl

theorem guardReport_invalid (hsize : load.size ≥ guardFlagsOffset + dword.size)
    (h : f.inside (rawOffset f dos nt (guardRva load) dword.size).val dword.size = false) :
    Event.wprintf guardInvalidFormat [] ∈ (guardReport f dos nt load).log := by
  have hread : (f.atOffset dword (rawOffset f dos nt (guardRva load) dword.size).val).val = none := by
    unfold MappedFile.atOffset
    rw [h]
    rfl
  rw [guardReport, if_pos hsize, Traced.log_bind, Traced.log_bind, hread]
  exact List.mem_append_right _ (List.mem_append_right _ (List.mem_singleton_self _))

/-- A load configuration directory that is not asked for. -/
theorem loadConfigReport_skipped (h : loadDirectory nt = some load)
    (hasked : ¬ (load.virtualAddress ≠ 0 ∧ load.size ≥ dword.size)) :
    requests dword.size (loadConfigReport f dos nt).log = [] := by
  unfold loadDirectory at h
  split at h
  · rename_i hcount
    cases h
    unfold loadConfigReport
    dsimp only
    rw [if_pos hcount, if_neg hasked]
    rfl
  · cases h

/-- One that is: its size first, then `GuardFlags`. -/
theorem loadConfigReport_asked (h : loadDirectory nt = some load)
    (hasked : load.virtualAddress ≠ 0 ∧ load.size ≥ dword.size) :
    requests dword.size (loadConfigReport f dos nt).log =
        dwordRequest f dos nt load.virtualAddress :: requests dword.size (guardReport f dos nt load).log ∧
      (guardReport f dos nt load).log ⊆ (loadConfigReport f dos nt).log := by
  unfold loadDirectory at h
  split at h
  · rename_i hcount
    cases h
    unfold loadConfigReport
    dsimp only
    rw [if_pos hcount, if_pos hasked]
    simp only [Traced.log_bind, requests_append, requests_wprintf, requests_rawOffset, requests_atOffset, if_pos,
      List.nil_append]
    cases (f.atOffset dword (rawOffset f dos nt
        (nt.optionalHeader.dataDirectory imageDirectoryEntryLoadConfig).virtualAddress dword.size).val).val with
    | none =>
      refine ⟨rfl, fun e he => ?_⟩
      exact List.mem_append_right _ (List.mem_append_right _ (List.mem_append_right _ he))
    | some declaredSize =>
      refine ⟨rfl, fun e he => ?_⟩
      exact List.mem_append_right _ (List.mem_append_right _ (List.mem_append_right _ (List.mem_cons_of_mem _ he)))
  · cases h

theorem loadConfigReport_none (h : loadDirectory nt = none) :
    requests dword.size (loadConfigReport f dos nt).log = [] := by
  unfold loadDirectory at h
  unfold loadConfigReport
  dsimp only
  split at h
  · cases h
  · rename_i hcount
    rw [if_neg hcount]
    rfl

/-- `DiagnoseImage` asks for `DWORD`s in its load configuration part only. -/
theorem requests_diagnoseImage (h : diagnoseHeader f = some (dos, nt)) (mapping : ImageMapping) :
    requests dword.size (diagnoseImage f mapping).log = requests dword.size (loadConfigReport f dos nt).log ∧
      (loadConfigReport f dos nt).log ⊆ (diagnoseImage f mapping).log := by
  unfold diagnoseHeader at h
  split at h
  · cases h
  rename_i dos' hdos
  split at h
  · cases h
  rename_i htest
  split at h
  · cases h
  rename_i nt' hnt
  split at h
  · cases h
  rename_i hkind
  cases h
  unfold diagnoseImage
  rw [Traced.log_bind, hdos]
  simp only
  rw [if_neg htest, Traced.log_bind, hnt]
  simp only
  rw [if_neg hkind]
  simp only [Traced.log_bind, requests_append, requests_atOffset, requests_wprintf, requests_directoryReport,
    requests_sectionReport, requests_tlsReport, requests_reportMapping, List.nil_append, List.append_nil, true_and]
  intro e he
  simp only [List.mem_append]
  tauto

theorem requests_diagnoseImage_none (h : diagnoseHeader f = none) (mapping : ImageMapping) :
    requests dword.size (diagnoseImage f mapping).log = [] := by
  unfold diagnoseHeader at h
  unfold diagnoseImage
  rw [Traced.log_bind, requests_append, requests_atOffset, List.nil_append]
  cases hdos : (f.atOffset imageDosHeader 0).val with
  | none => rfl
  | some dos =>
    rw [hdos] at h
    simp only at h ⊢
    split at h
    · rename_i htest
      rw [if_pos htest]
      rfl
    · rename_i htest
      rw [if_neg htest, Traced.log_bind, requests_append, requests_atOffset, List.nil_append]
      cases hnt : (f.atOffset imageNtHeaders64 dos.eLfanew.toNat).val with
      | none => rfl
      | some nt =>
        rw [hnt] at h
        simp only at h ⊢
        split at h
        · rename_i hkind
          rw [if_pos hkind]
          rfl
        · cases h

end LoadConfig

/-! ## Addresses that do not wrap -/

/-- The address of a request is the exact sum; or the sum exceeds `0xFFFFFFFF`, nothing is read at the answer, and
`Stopped` holds. -/
def ExactOr (f : MappedFile) (need sum : Nat) (Stopped : Prop) (r : Nat × Nat) : Prop :=
  r.1 = sum ∨ (0xFFFFFFFF < sum ∧ f.inside r.2 need = false ∧ Stopped)

/-- No address the probe computes for a file wraps. -/
structure NoWrap (f : MappedFile) (mapping : ImageMapping) : Prop where
  /-- request `i` of `ReportImports` for a descriptor is at the RVA of descriptor `i`, or the walk stops there -/
  imports : ∀ (i : Nat) (r : Nat × Nat), (requests imageImportDescriptor.size (reportImports f).log)[i]? = some r →
    ∃ dir, importDirectory f = some dir ∧
      ExactOr f imageImportDescriptor.size (dir.virtualAddress + i * imageImportDescriptor.size)
        ((requests imageImportDescriptor.size (reportImports f).log).length = i + 1) r
  /-- the requests of `DiagnoseImage` in the load configuration directory are at its RVA and at that of
  `GuardFlags`, or it is reported as invalid -/
  guardFlags : ∀ (i : Nat) (r : Nat × Nat), (requests dword.size (diagnoseImage f mapping).log)[i]? = some r →
    ∃ (dos : ImageDosHeader) (nt : ImageNtHeaders64) (load : ImageDataDirectory) (offset : Nat),
      diagnoseHeader f = some (dos, nt) ∧ loadDirectory nt = some load ∧
      [0, guardFlagsOffset][i]? = some offset ∧
      ExactOr f dword.size (load.virtualAddress + offset)
        (.wprintf guardInvalidFormat [] ∈ (diagnoseImage f mapping).log) r
  /-- every request of `Visit` for a descriptor is at the RVA of one of the 1024 it may examine -/
  visit : ∀ (w : World) (strAppDir strRoot strPath : WString) (address pos : Nat), w.mapFile strPath = f →
    (strPath, .translated address imageImportDescriptor.size pos) ∈ (reportDependencyTree w strAppDir strRoot).log →
    ∃ dir, importDirectory f = some dir ∧ address ≤ 0xFFFFFFFF ∧
      ∃ u < 1024, address = dir.virtualAddress + u * imageImportDescriptor.size

/-- The first descriptor past the end of the address space: all before it have names, it is one of those
`ReportImports` reads, and at its address modulo `2^32` there are bytes to read. -/
structure DescriptorWraps (f : MappedFile) (dos : ImageDosHeader) (nt : ImageNtHeaders64) (dir : ImageDataDirectory)
    (i : Nat) : Prop where
  bound : i < reportBound dir
  named : ∀ j < i, dir.virtualAddress + j * imageImportDescriptor.size < 2 ^ 32 ∧
    NamedAt f dos nt (dir.virtualAddress + j * imageImportDescriptor.size)
  past : 2 ^ 32 ≤ dir.virtualAddress + i * imageImportDescriptor.size
  backed : f.inside (rva f dos nt (descriptorAddress dir i) imageImportDescriptor.size).val
    imageImportDescriptor.size = true

/-- An import directory with a descriptor that wraps. -/
def ImportsWrap (f : MappedFile) : Prop :=
  ∃ dos nt dir, HeaderOk f dos nt ∧ visitDirectory nt = some dir ∧ ∃ i, DescriptorWraps f dos nt dir i

/-- A load configuration directory whose `GuardFlags` lies past the end of the address space while there are four
bytes to read at its address modulo `2^32`. -/
def GuardWraps (f : MappedFile) : Prop :=
  ∃ dos nt load, diagnoseHeader f = some (dos, nt) ∧ loadDirectory nt = some load ∧ load.virtualAddress ≠ 0 ∧
    load.size ≥ guardFlagsOffset + dword.size ∧ 2 ^ 32 ≤ load.virtualAddress + guardFlagsOffset ∧
    f.inside (rawOffset f dos nt (guardRva load) dword.size).val dword.size = true

section NoWrap

variable {f : MappedFile} {dos : ImageDosHeader} {nt : ImageNtHeaders64} {dir load : ImageDataDirectory}
variable {mapping : ImageMapping}

theorem descriptorAddress_of_lt {i : Nat} (h : dir.virtualAddress + i * imageImportDescriptor.size < 2 ^ 32) :
    descriptorAddress dir i = dir.virtualAddress + i * imageImportDescriptor.size := Nat.mod_eq_of_lt h

/-- When no descriptor wraps, a walk that comes to one past the end of the address space reads nothing there and
ends. -/
theorem imports_exact (hok : HeaderOk f dos nt) (hdir : visitDirectory nt = some dir)
    (hwrap : ∀ i, ¬ DescriptorWraps f dos nt dir i) {i : Nat} {r : Nat × Nat}
    (hr : (requests imageImportDescriptor.size (reportImports f).log)[i]? = some r) :
    ExactOr f imageImportDescriptor.size (dir.virtualAddress + i * imageImportDescriptor.size)
      ((requests imageImportDescriptor.size (reportImports f).log).length = i + 1) r := by
  obtain ⟨hbound, hnamed, rfl⟩ := (requests_reportImports_get hok hdir).1 hr
  by_cases hpast : 2 ^ 32 ≤ dir.virtualAddress + i * imageImportDescriptor.size
  swap
  · exact .inl (descriptorAddress_of_lt (by omega))
  -- the first index past the end is this one: nothing is read there, so the walk does not pass it
  have hexists : ∃ k, 2 ^ 32 ≤ dir.virtualAddress + k * imageImportDescriptor.size := ⟨i, hpast⟩
  have hfirst := Nat.find_spec hexists
  have hle : Nat.find hexists ≤ i := Nat.find_min' hexists hpast
  have hmin : ∀ j < Nat.find hexists, dir.virtualAddress + j * imageImportDescriptor.size < 2 ^ 32 := fun j hj =>
    not_le.1 (Nat.find_min hexists hj)
  generalize Nat.find hexists = k at hfirst hle hmin
  have hblocked : f.inside (rva f dos nt (descriptorAddress dir k) imageImportDescriptor.size).val
      imageImportDescriptor.size = false := by
    rw [Bool.eq_false_iff]
    intro hbacked
    refine hwrap k ⟨by omega, fun j hj => ⟨hmin j hj, ?_⟩, hfirst, hbacked⟩
    have hj' := hnamed j (by omega)
    rwa [descriptorAddress_of_lt (hmin j hj)] at hj'
  have hstops : ¬ NamedAt f dos nt (descriptorAddress dir k) := by
    intro hnamed'
    rw [hnamed'.inside] at hblocked
    cases hblocked
  have hk : k = i := by
    by_contra hne
    exact hstops (hnamed k (by omega))
  subst hk
  refine .inr ⟨by omega, hblocked, ?_⟩
  have hnext : (requests imageImportDescriptor.size (reportImports f).log)[k + 1]? = none := by
    rw [Option.eq_none_iff_forall_ne_some]
    intro r' hr'
    exact hstops (((requests_reportImports_get hok hdir).1 hr').2.1 k (by omega))
  have hlength := List.getElem?_eq_none_iff.1 hnext
  have hlength' := (List.getElem?_eq_some_iff.1 hr).1
  omega

/-- A descriptor that wraps is read. -/
theorem DescriptorWraps.not_exact (hok : HeaderOk f dos nt) (hdir : visitDirectory nt = some dir) {i : Nat}
    (h : DescriptorWraps f dos nt dir i) (hnoWrap : NoWrap f mapping) : False := by
  have hr : (requests imageImportDescriptor.size (reportImports f).log)[i]? = some (descriptorRequest f dos nt dir i) := by
    refine (requests_reportImports_get hok hdir).2 ⟨h.bound, fun j hj => ?_, rfl⟩
    rw [descriptorAddress_of_lt (h.named j hj).1]
    exact (h.named j hj).2
  obtain ⟨dir', hdir', hexact⟩ := hnoWrap.imports i _ hr
  rw [importDirectory_some.2 ⟨dos, nt, hok, hdir⟩] at hdir'
  cases hdir'
  have hpast := h.past
  rcases hexact with heq | ⟨-, hblocked, -⟩
  · have hlt : descriptorAddress dir i < 2 ^ 32 := Nat.mod_lt _ (by decide)
    rw [descriptorRequest] at heq
    simp only at heq
    omega
  · rw [descriptorRequest, h.backed] at hblocked
    cases hblocked

theorem guardRva_of_lt (h : load.virtualAddress + guardFlagsOffset < 2 ^ 32) :
    guardRva load = load.virtualAddress + guardFlagsOffset := Nat.mod_eq_of_lt h

/-- The requests of `DiagnoseImage`, when it reads a load configuration directory. -/
theorem requests_loadDirectory (hheader : diagnoseHeader f = some (dos, nt)) (hload : loadDirectory nt = some load)
    (hasked : load.virtualAddress ≠ 0 ∧ load.size ≥ dword.size) :
    requests dword.size (diagnoseImage f mapping).log = dwordRequest f dos nt load.virtualAddress ::
      if load.size ≥ guardFlagsOffset + dword.size then [dwordRequest f dos nt (guardRva load)] else [] := by
  rw [(requests_diagnoseImage hheader mapping).1, (loadConfigReport_asked hload hasked).1, requests_guardReport]

/-- When `GuardFlags` does not wrap, it is asked for at its RVA, or reported as invalid. -/
theorem guardFlags_exact (hheader : diagnoseHeader f = some (dos, nt)) (hload : loadDirectory nt = some load)
    (hwrap : ¬ GuardWraps f) {i : Nat} {r : Nat × Nat}
    (hr : (requests dword.size (diagnoseImage f mapping).log)[i]? = some r) :
    ∃ offset, [0, guardFlagsOffset][i]? = some offset ∧
      ExactOr f dword.size (load.virtualAddress + offset)
        (.wprintf guardInvalidFormat [] ∈ (diagnoseImage f mapping).log) r := by
  by_cases hasked : load.virtualAddress ≠ 0 ∧ load.size ≥ dword.size
  swap
  · rw [(requests_diagnoseImage hheader mapping).1, loadConfigReport_skipped hload hasked] at hr
    cases hr
  rw [requests_loadDirectory hheader hload hasked] at hr
  cases i with
  | zero =>
    cases hr
    exact ⟨0, rfl, .inl rfl⟩
  | succ i =>
    rw [List.getElem?_cons_succ] at hr
    split at hr
    swap
    · cases hr
    rename_i hsize
    cases i with
    | succ i => cases hr
    | zero =>
      cases hr
      refine ⟨guardFlagsOffset, rfl, ?_⟩
      by_cases hpast : 2 ^ 32 ≤ load.virtualAddress + guardFlagsOffset
      swap
      · exact .inl (guardRva_of_lt (by omega))
      have hblocked : f.inside (rawOffset f dos nt (guardRva load) dword.size).val dword.size = false := by
        rw [Bool.eq_false_iff]
        exact fun hbacked => hwrap ⟨dos, nt, load, hheader, hload, hasked.1, hsize, hpast, hbacked⟩
      refine .inr ⟨by omega, hblocked, ?_⟩
      exact (requests_diagnoseImage hheader mapping).2
        ((loadConfigReport_asked hload hasked).2 (guardReport_invalid hsize hblocked))

/-- A `GuardFlags` that wraps is read. -/
theorem GuardWraps.not_exact (h : GuardWraps f) (hnoWrap : NoWrap f mapping) : False := by
  obtain ⟨dos, nt, load, hheader, hload, hzero, hsize, hpast, hbacked⟩ := h
  have hasked : load.virtualAddress ≠ 0 ∧ load.size ≥ dword.size := ⟨hzero, le_trans (Nat.le_add_left ..) hsize⟩
  have hr : (requests dword.size (diagnoseImage f mapping).log)[1]? = some (dwordRequest f dos nt (guardRva load)) := by
    rw [requests_loadDirectory hheader hload hasked, if_pos hsize]
    rfl
  obtain ⟨dos', nt', load', offset, hheader', hload', hoffset, hexact⟩ := hnoWrap.guardFlags 1 _ hr
  rw [hheader] at hheader'
  cases hheader'
  rw [hload] at hload'
  cases hload'
  cases hoffset
  rcases hexact with heq | ⟨-, hblocked, -⟩
  · have hlt : guardRva load < 2 ^ 32 := Nat.mod_lt _ (by decide)
    rw [dwordRequest] at heq
    simp only at heq
    omega
  · rw [dwordRequest, hbacked] at hblocked
    cases hblocked

/-- The request of `Visit` for a descriptor. -/
def VisitAddress (w : World) (strPath : WString) : Event → Prop
  | .translated address need _ => need = imageImportDescriptor.size →
    ∃ dir, importDirectory (w.mapFile strPath) = some dir ∧ address ≤ 0xFFFFFFFF ∧
      ∃ u < 1024, address = dir.virtualAddress + u * imageImportDescriptor.size
  | _ => True

theorem visitHeader_address (w : World) (strPath : WString) :
    (visitHeader (w.mapFile strPath)).All (VisitAddress w strPath) :=
  visitHeader_all fun _ _ _ => trivial

theorem readDescriptor_address {w : World} {strPath : WString} {aDir : ImageDataDirectory}
    (hdir : importDirectory (w.mapFile strPath) = some aDir) (pDos : ImageDosHeader) (pNt : ImageNtHeaders64) {u : Nat}
    (hu : u < 1024) : (readDescriptor (w.mapFile strPath) pDos pNt aDir u).All (VisitAddress w strPath) := by
  refine readDescriptor_all (fun _ _ _ => trivial) ?_ ?_ ?_ ?_
  · exact fun address haddress hend _ => ⟨aDir, hdir, hend, u, hu, haddress⟩
  · exact fun _ hneed => absurd hneed (by decide)
  · exact fun _ _ => trivial
  · exact fun _ _ => trivial

theorem visit_exact (w : World) (strAppDir strRoot : WString) :
    (reportDependencyTree w strAppDir strRoot).All (VisitAddress w) := by
  have hrecorded : Recorded w (VisitAddress w) :=
    { printed := fun _ _ _ => trivial
      header := visitHeader_address w
      descriptor := fun strPath pDos pNt aDir hheader hdir u hu =>
        readDescriptor_address (importDirectory_some.2 ⟨pDos, pNt, visitHeader_ok.1 hheader, hdir⟩) pDos pNt hu }
  exact hrecorded.reportDependencyTree strRoot

end NoWrap

/-- The second descriptor of `wrappedDirectory` is read at RVA 0. -/
theorem wrappedDirectory_wraps : ¬ NoWrap wrappedDirectory .mapped := by
  intro h
  obtain ⟨dir, hdir, hexact⟩ := h.imports 1 (0, 428) (by decide +kernel)
  have hdirectory : importDirectory wrappedDirectory = some ⟨0xFFFFFFEC, 40⟩ := by decide +kernel
  rw [hdirectory] at hdir
  cases hdir
  rcases hexact with heq | ⟨-, hblocked, -⟩
  · cases heq
  · exact absurd hblocked (by decide +kernel)

/-- No address wraps, except where bytes can be read at the wrapped address of the first descriptor past the end of
the address space, or of a `GuardFlags` past it. -/
theorem noWrap_iff (f : MappedFile) (mapping : ImageMapping) :
    NoWrap f mapping ↔ ¬ ImportsWrap f ∧ ¬ GuardWraps f := by
  constructor
  · intro h
    refine ⟨?_, fun hguard => hguard.not_exact h⟩
    rintro ⟨dos, nt, dir, hok, hdir, i, hwraps⟩
    exact hwraps.not_exact hok hdir h
  · rintro ⟨himports, hguard⟩
    refine ⟨fun i r hr => ?_, fun i r hr => ?_, ?_⟩
    · cases hdirectory : importDirectory f with
      | none =>
        rw [requests_reportImports_none hdirectory] at hr
        cases hr
      | some dir =>
        obtain ⟨dos, nt, hok, hdir⟩ := importDirectory_some.1 hdirectory
        exact ⟨dir, rfl, imports_exact hok hdir (fun k hk => himports ⟨dos, nt, dir, hok, hdir, k, hk⟩) hr⟩
    · cases hheader : diagnoseHeader f with
      | none =>
        rw [requests_diagnoseImage_none hheader] at hr
        cases hr
      | some headers =>
        obtain ⟨dos, nt⟩ := headers
        cases hload : loadDirectory nt with
        | none =>
          rw [(requests_diagnoseImage hheader mapping).1, loadConfigReport_none hload] at hr
          cases hr
        | some load =>
          obtain ⟨offset, hoffset, hexact⟩ := guardFlags_exact hheader hload hguard hr
          exact ⟨dos, nt, load, offset, rfl, hload, hoffset, hexact⟩
    · rintro w strAppDir strRoot strPath address pos rfl hevent
      exact visit_exact w strAppDir strRoot _ hevent rfl

end BuildEngine.Probe
