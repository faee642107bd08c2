/-
`DiagnoseImage`: the section table, load configuration and TLS directory of a file that Windows
refused to load, and the kernel's answer when asked to map it as an image.
-/
import BuildEngine.Probe.Translate

namespace BuildEngine.Probe

open Base

/-- The name `SystemError` prints for a Win32 error code. -/
def systemErrorName (code : Nat) : String :=
  if code = 193 then "ERROR_BAD_EXE_FORMAT"
  else if code = 126 then "ERROR_MOD_NOT_FOUND"
  else if code = 127 then "ERROR_PROC_NOT_FOUND"
  else if code = 1114 then "ERROR_DLL_INIT_FAILED"
  else if code = 2 then "ERROR_FILE_NOT_FOUND"
  else if code = 3 then "ERROR_PATH_NOT_FOUND"
  else "UNKNOWN_WIN32_ERROR"

def systemError (code : Nat) : Probing Unit :=
  wprintf "[LOADER] Windows error: %ls\n" [.text (systemErrorName code)]

/-- `static_cast<unsigned>` of a `bool`. -/
def flag (b : Bool) : Arg := .num (if b then 1 else 0)

/-- How the kernel answers the request to map the file as an image (`CreateFileW`,
`CreateFileMappingW(SEC_IMAGE_NO_EXECUTE)`, `MapViewOfFile`), with the error code of a failure. -/
inductive ImageMapping where
  | fileFailed (error : Nat)
  | mappingFailed (error : Nat)
  | viewFailed (error : Nat)
  | mapped
  deriving DecidableEq, Repr

/-- The last part of `DiagnoseImage`, which does not read the mapped file. -/
def reportMapping : ImageMapping → Probing Unit
  | .fileFailed error => do
    wprintf "[LOADER] IMAGE CreateFileW FAILED: Win32=%lu\n" [.num error]
    systemError error
  | .mappingFailed error => do
    wprintf "[LOADER] IMAGE CreateFileMappingW(SEC_IMAGE_NO_EXECUTE) FAILED: Win32=%lu (0x%08lX)\n"
      [.num error, .num error]
    systemError error
  | .viewFailed error => do
    wprintf "[LOADER] IMAGE MapViewOfFile FAILED: Win32=%lu (0x%08lX)\n" [.num error, .num error]
    systemError error
  | .mapped =>
    wprintf "[LOADER] IMAGE SEC_IMAGE_NO_EXECUTE mapping PASS (imports and DllMain not executed)\n" []

/-! ## Sections -/

/-- A section name as printed: control and non-ASCII characters replaced. -/
def sectionName (name : List UInt8) : List UInt8 :=
  (name.map fun c => if c = 0 ∨ (32 ≤ c ∧ c < 127) then c else '?'.toNat.toUInt8).takeWhile (· ≠ 0)

def rawValid (f : MappedFile) (sect : ImageSectionHeader) : Bool :=
  sect.sizeOfRawData = 0 ∨
    (sect.pointerToRawData ≤ f.length ∧ sect.sizeOfRawData ≤ f.length - sect.pointerToRawData)

def rvaValid (opt : ImageOptionalHeader64) (sect : ImageSectionHeader) : Bool :=
  sect.virtualAddress ≤ opt.sizeOfImage ∧ sect.virtualSize ≤ opt.sizeOfImage - sect.virtualAddress

/-- The section loop of `DiagnoseImage`: `n` iterations from index `i` on; the result is the count of
suspicious sections. -/
def sectionReport (f : MappedFile) (opt : ImageOptionalHeader64) (sectionOffset : Nat) :
    Nat → Nat → Nat → Probing Nat
  | 0, _, invalidSections => pure invalidSections
  | n + 1, i, invalidSections => do
    match ← f.atOffset imageSectionHeader (sectionOffset + i * imageSectionHeader.size) with
    | none => do
      wprintf "[LOADER] IMAGE: section table truncated at %u\n" [.num i]
      pure (invalidSections + 1)
    | some sect => do
      wprintf "[LOADER] IMAGE: section[%u] %hs RVA=0x%08lX VirtualSize=0x%08lX Raw=0x%08lX RawSize=0x%08lX rawValid=%u rvaValid=%u\n"
        [.num i, .narrow (sectionName sect.name), .num sect.virtualAddress, .num sect.virtualSize,
          .num sect.pointerToRawData, .num sect.sizeOfRawData, flag (rawValid f sect), flag (rvaValid opt sect)]
      sectionReport f opt sectionOffset n (i + 1)
        (if !rawValid f sect || !rvaValid opt sect then invalidSections + 1 else invalidSections)

/-! ## Data directories -/

/-- The line `DiagnoseImage` prints for a directory entry the image declares. -/
def directoryReport (opt : ImageOptionalHeader64) (entry : Nat) (format : String) : Probing Unit :=
  if opt.numberOfRvaAndSizes > entry then
    wprintf format [.num (opt.dataDirectory entry).virtualAddress, .num (opt.dataDirectory entry).size]
  else
    pure ()

/-- The RVA of `GuardFlags`: the sum of two `DWORD`s. -/
def guardRva (load : ImageDataDirectory) : Nat := (load.virtualAddress + guardFlagsOffset) % 2 ^ 32

/-- The load configuration part of `DiagnoseImage`. -/
def loadConfigReport (f : MappedFile) (dos : ImageDosHeader) (nt : ImageNtHeaders64) : Probing Unit :=
  let opt := nt.optionalHeader
  if opt.numberOfRvaAndSizes > imageDirectoryEntryLoadConfig then do
    let load := opt.dataDirectory imageDirectoryEntryLoadConfig
    wprintf "[LOADER] IMAGE: CFG-flag=%u LoadConfigRVA=0x%08lX LoadConfigSize=0x%08lX\n"
      [flag (opt.dllCharacteristics &&& imageDllcharacteristicsGuardCf ≠ 0), .num load.virtualAddress,
        .num load.size]
    if load.virtualAddress ≠ 0 ∧ load.size ≥ dword.size then do
      let pos ← rawOffset f dos nt load.virtualAddress dword.size
      match ← f.atOffset dword pos with
      | none => pure ()
      | some declaredSize => wprintf "[LOADER] IMAGE: LoadConfigDeclaredSize=0x%08lX\n" [.num declaredSize]
      if load.size ≥ guardFlagsOffset + dword.size then do
        let guardAt ← rawOffset f dos nt (guardRva load) dword.size
        match ← f.atOffset dword guardAt with
        | none => wprintf "[LOADER] IMAGE: LoadConfig.GuardFlags RVA INVALID\n" []
        | some flags => wprintf "[LOADER] IMAGE: LoadConfig.GuardFlags=0x%08lX\n" [.num flags]
      else pure ()
    else pure ()
  else pure ()

/-- `inImage`: whether a virtual address lies in the image. -/
def inImage (opt : ImageOptionalHeader64) (va : Nat) : Bool :=
  va ≥ opt.imageBase ∧ va - opt.imageBase < opt.sizeOfImage

/-- The TLS part of `DiagnoseImage`. -/
def tlsReport (f : MappedFile) (dos : ImageDosHeader) (nt : ImageNtHeaders64) : Probing Unit :=
  let opt := nt.optionalHeader
  if opt.numberOfRvaAndSizes > imageDirectoryEntryTls then do
    let tls := opt.dataDirectory imageDirectoryEntryTls
    wprintf "[LOADER] IMAGE: TLS-RVA=0x%08lX TLS-Size=0x%08lX\n" [.num tls.virtualAddress, .num tls.size]
    if tls.virtualAddress ≠ 0 then do
      let pos ← rawOffset f dos nt tls.virtualAddress imageTlsDirectory64.size
      match ← f.atOffset imageTlsDirectory64 pos with
      | none => wprintf "[LOADER] IMAGE: TLS directory truncated or not in raw section\n" []
      | some t => do
        wprintf "[LOADER] IMAGE: TLS RawStart=0x%llX RawEnd=0x%llX IndexVA=0x%llX CallbackVA=0x%llX\n"
          [.num t.startAddressOfRawData, .num t.endAddressOfRawData, .num t.addressOfIndex,
            .num t.addressOfCallBacks]
        wprintf "[LOADER] IMAGE: TLS index-in-image=%u callbacks-in-image=%u raw-start-in-image=%u raw-end-in-image=%u ZeroFill=%lu\n"
          [flag (inImage opt t.addressOfIndex),
            flag (t.addressOfCallBacks = 0 || inImage opt t.addressOfCallBacks),
            flag (inImage opt t.startAddressOfRawData), flag (inImage opt t.endAddressOfRawData),
            .num t.sizeOfZeroFill]
    else pure ()
  else pure ()

/-- `DiagnoseImage` on the file it has mapped. -/
def diagnoseImage (f : MappedFile) (mapping : ImageMapping) : Probing Unit := do
  match ← f.atOffset imageDosHeader 0 with
  | none => wprintf "[LOADER] IMAGE: cannot inspect DOS header\n" []
  | some dos =>
    if dos.eMagic ≠ imageDosSignature ∨ dos.eLfanew < 0 then
      wprintf "[LOADER] IMAGE: cannot inspect DOS header\n" []
    else do
      match ← f.atOffset imageNtHeaders64 dos.eLfanew.toNat with
      | none => wprintf "[LOADER] IMAGE: cannot inspect PE32+ optional header\n" []
      | some nt =>
        if nt.signature ≠ imageNtSignature ∨ nt.optionalHeader.magic ≠ imageNtOptionalHdr64Magic then
          wprintf "[LOADER] IMAGE: cannot inspect PE32+ optional header\n" []
        else do
          let characteristics := nt.fileHeader.characteristics
          let opt := nt.optionalHeader
          wprintf "[LOADER] IMAGE: FileBytes=%llu DLL=%u Characteristics=0x%04X\n"
            [.num f.length, flag (characteristics &&& imageFileDll ≠ 0), .num characteristics]
          wprintf "[LOADER] IMAGE: SizeOfImage=0x%08lX SizeOfHeaders=0x%08lX EntryRVA=0x%08lX\n"
            [.num opt.sizeOfImage, .num opt.sizeOfHeaders, .num opt.addressOfEntryPoint]
          wprintf "[LOADER] IMAGE: ImageBase=0x%llX SectionAlignment=0x%08lX FileAlignment=0x%08lX DllCharacteristics=0x%04X\n"
            [.num opt.imageBase, .num opt.sectionAlignment, .num opt.fileAlignment, .num opt.dllCharacteristics]
          directoryReport opt imageDirectoryEntryBasereloc
            "[LOADER] IMAGE: BaseRelocRVA=0x%08lX BaseRelocSize=0x%08lX\n"
          directoryReport opt imageDirectoryEntryImport
            "[LOADER] IMAGE: ImportRVA=0x%08lX ImportSize=0x%08lX\n"
          directoryReport opt imageDirectoryEntryException
            "[LOADER] IMAGE: ExceptionRVA=0x%08lX ExceptionSize=0x%08lX\n"
          let invalidSections ← sectionReport f opt (sectionTable dos nt) nt.fileHeader.numberOfSections 0 0
          wprintf "[LOADER] IMAGE: suspicious-section-count=%u\n" [.num invalidSections]
          loadConfigReport f dos nt
          tlsReport f dos nt
          reportMapping mapping

end BuildEngine.Probe
