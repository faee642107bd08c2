/-
The mapped file of the loader probe (`RuntimeLoaderProbe.cpp`) and the PE structures it reads.

A file is its bytes. `At<T>` is `atOffset`: it yields the decoded structure when `sizeof(T)` bytes
at the offset lie inside the file, and only then is the structure dereferenced. The probe's
functions run in `Traced Event`: every dereference, every answer of an RVA translator, every string
read and every line printed is an event of the trace.

`std::size_t` is 64 bits wide and no offset computed by the probe comes near `2^64`, so offsets are
natural numbers; `DWORD` additions, which can wrap, are taken modulo `2^32` where they occur.
-/
import BuildEngine.Base.Bytes
import BuildEngine.Base.Traced

namespace BuildEngine.Probe

open Base

/-- A wide string (`std::wstring`; `wchar_t` has 16 bits on Windows). -/
abbrev WString := List UInt16

scoped instance : LawfulBEq WString := inferInstanceAs (LawfulBEq (List UInt16))

/-- An argument of a printed line. -/
inductive Arg where
  | num (n : Nat)
  | narrow (s : List UInt8)
  | wide (s : WString)
  | text (s : String)
  deriving DecidableEq, Repr

/-- What a function of the probe does with the file and the console. -/
inductive Event where
  /-- a structure of `size` bytes at `pos` is dereferenced -/
  | deref (pos size : Nat)
  /-- an RVA translator asked for `need` bytes at `rva` answers `pos` -/
  | translated (rva need pos : Nat)
  /-- `memchr(data + pos, 0, count)` -/
  | memchr (pos count : Nat)
  /-- the bytes at `pos` are read as a NUL-terminated string, which is `s` -/
  | cstring (pos : Nat) (s : List UInt8)
  | wprintf (format : String) (args : List Arg)
  deriving DecidableEq, Repr

/-- The probe's programs. -/
abbrev Probing := Traced Event

def wprintf (format : String) (args : List Arg) : Probing Unit := Traced.emit (.wprintf format args)

/-! ## The mapped file -/

/-- `MappedFile`: the bytes of the file, and whether `data` is a valid pointer to them. -/
structure MappedFile where
  data : List UInt8
  mapped : Bool
  deriving DecidableEq, Repr

namespace MappedFile

/-- The constructor of `MappedFile`: a file that cannot be opened or mapped (`none`) and a file of
size zero leave `data` null. -/
def ofFile : Option (List UInt8) → MappedFile
  | none => ⟨[], false⟩
  | some [] => ⟨[], false⟩
  | some bytes => ⟨bytes, true⟩

def length (f : MappedFile) : Nat := f.data.length

/-- The bound test of `At<T>` for a structure of `size` bytes. -/
def inside (f : MappedFile) (pos size : Nat) : Bool :=
  !(!f.mapped || pos > f.length || size > f.length - pos)

theorem inside_iff (f : MappedFile) (pos size : Nat) :
    f.inside pos size = true ↔ f.mapped = true ∧ pos + size ≤ f.length := by
  unfold inside
  simp only [gt_iff_lt, Bool.not_or, Bool.not_not, Bool.and_eq_true, Bool.not_eq_true',
    decide_eq_false_iff_not]
  constructor
  · rintro ⟨⟨h1, h2⟩, h3⟩; exact ⟨h1, by omega⟩
  · rintro ⟨h1, h2⟩; exact ⟨⟨h1, by omega⟩, by omega⟩

/-- The NUL-terminated string at `pos`. -/
def stringAt (f : MappedFile) (pos : Nat) : List UInt8 := (f.data.drop pos).takeWhile (· ≠ 0)

/-- The success test of `memchr(data + pos, 0, length - pos)`. -/
def hasZero (f : MappedFile) (pos : Nat) : Bool := (f.data.drop pos).contains 0

end MappedFile

/-! ## Structures of the PE format -/

/-- The layout of a structure type: its size, and the fields decoded from exactly that many bytes. -/
structure Layout (α : Type) where
  size : Nat
  decode : List UInt8 → α

/-- `At<T>` followed by the dereference of its result when that is not null. -/
def MappedFile.atOffset {α : Type} (f : MappedFile) (T : Layout α) (pos : Nat) : Probing (Option α) :=
  if f.inside pos T.size then
    ⟨some (T.decode ((f.data.drop pos).take T.size)), [.deref pos T.size]⟩
  else
    ⟨none, []⟩

structure ImageDosHeader where
  eMagic : Nat
  eLfanew : Int

/-- The value of a `LONG` with unsigned value `n`. -/
def toLong (n : Nat) : Int := if n < 2 ^ 31 then n else n - 2 ^ 32

def imageDosHeader : Layout ImageDosHeader where
  size := 64
  decode bs := { eMagic := le bs 0 2, eLfanew := toLong (le bs 60 4) }

def imageDosSignature : Nat := 0x5A4D

structure ImageDataDirectory where
  virtualAddress : Nat
  size : Nat
  deriving DecidableEq, Repr

structure ImageFileHeader where
  machine : Nat
  numberOfSections : Nat
  sizeOfOptionalHeader : Nat
  characteristics : Nat

def imageFileHeaderSize : Nat := 20

def imageFileMachineAmd64 : Nat := 0x8664
def imageFileDll : Nat := 0x2000

structure ImageOptionalHeader64 where
  magic : Nat
  addressOfEntryPoint : Nat
  imageBase : Nat
  sectionAlignment : Nat
  fileAlignment : Nat
  sizeOfImage : Nat
  sizeOfHeaders : Nat
  subsystem : Nat
  dllCharacteristics : Nat
  numberOfRvaAndSizes : Nat
  /-- `DataDirectory[i]`, for `i < 16` -/
  dataDirectory : Nat → ImageDataDirectory

def imageNtOptionalHdr64Magic : Nat := 0x20B
def imageDirectoryEntryImport : Nat := 1
def imageDirectoryEntryException : Nat := 3
def imageDirectoryEntryBasereloc : Nat := 5
def imageDirectoryEntryTls : Nat := 9
def imageDirectoryEntryLoadConfig : Nat := 10
def imageDllcharacteristicsGuardCf : Nat := 0x4000

structure ImageNtHeaders64 where
  signature : Nat
  fileHeader : ImageFileHeader
  optionalHeader : ImageOptionalHeader64

def imageNtSignature : Nat := 0x00004550

def imageNtHeaders64 : Layout ImageNtHeaders64 where
  size := 264
  decode bs :=
    { signature := le bs 0 4
      fileHeader :=
        { machine := le bs 4 2
          numberOfSections := le bs 6 2
          sizeOfOptionalHeader := le bs 20 2
          characteristics := le bs 22 2 }
      optionalHeader :=
        { magic := le bs 24 2
          addressOfEntryPoint := le bs 40 4
          imageBase := le bs 48 8
          sectionAlignment := le bs 56 4
          fileAlignment := le bs 60 4
          sizeOfImage := le bs 80 4
          sizeOfHeaders := le bs 84 4
          subsystem := le bs 92 2
          dllCharacteristics := le bs 94 2
          numberOfRvaAndSizes := le bs 132 4
          dataDirectory := fun i => { virtualAddress := le bs (136 + 8 * i) 4, size := le bs (140 + 8 * i) 4 } } }

structure ImageSectionHeader where
  name : List UInt8
  virtualSize : Nat
  virtualAddress : Nat
  sizeOfRawData : Nat
  pointerToRawData : Nat

def imageSectionHeader : Layout ImageSectionHeader where
  size := 40
  decode bs :=
    { name := bs.take 8
      virtualSize := le bs 8 4
      virtualAddress := le bs 12 4
      sizeOfRawData := le bs 16 4
      pointerToRawData := le bs 20 4 }

structure ImageImportDescriptor where
  name : Nat

def imageImportDescriptor : Layout ImageImportDescriptor where
  size := 20
  decode bs := { name := le bs 12 4 }

def dword : Layout Nat where
  size := 4
  decode bs := le bs 0 4

structure ImageTlsDirectory64 where
  startAddressOfRawData : Nat
  endAddressOfRawData : Nat
  addressOfIndex : Nat
  addressOfCallBacks : Nat
  sizeOfZeroFill : Nat

def imageTlsDirectory64 : Layout ImageTlsDirectory64 where
  size := 40
  decode bs :=
    { startAddressOfRawData := le bs 0 8
      endAddressOfRawData := le bs 8 8
      addressOfIndex := le bs 16 8
      addressOfCallBacks := le bs 24 8
      sizeOfZeroFill := le bs 32 4 }

/-- `offsetof(IMAGE_LOAD_CONFIG_DIRECTORY64, GuardFlags)`. -/
def guardFlagsOffset : Nat := 144

/-- The offset of the section table: `e_lfanew + sizeof(DWORD) + sizeof(IMAGE_FILE_HEADER) +
SizeOfOptionalHeader`. -/
def sectionTable (dos : ImageDosHeader) (nt : ImageNtHeaders64) : Nat :=
  dos.eLfanew.toNat + 4 + imageFileHeaderSize + nt.fileHeader.sizeOfOptionalHeader

/-! ## The bytes of an image -/

/-- The DOS header and, at offset 64, the NT headers of a PE32+ AMD64 image with the given number of
sections, `SizeOfHeaders` and import directory, followed by `rest`: the section table, at offset 328, and
the raw data. -/
def imageBytes (sections sizeOfHeaders importRva importSize : Nat) (rest : List UInt8) : List UInt8 :=
  leBytes 2 imageDosSignature ++ List.replicate 58 0 ++ leBytes 4 64 ++
  leBytes 4 imageNtSignature ++ leBytes 2 imageFileMachineAmd64 ++ leBytes 2 sections ++
  List.replicate 12 0 ++ leBytes 2 240 ++ leBytes 2 0 ++
  leBytes 2 imageNtOptionalHdr64Magic ++ List.replicate 58 0 ++ leBytes 4 sizeOfHeaders ++
  List.replicate 44 0 ++ leBytes 4 16 ++ List.replicate 8 0 ++
  leBytes 4 importRva ++ leBytes 4 importSize ++ List.replicate 112 0 ++ rest

def sectionBytes (virtualAddress sizeOfRawData pointerToRawData : Nat) : List UInt8 :=
  List.replicate 12 0 ++ leBytes 4 virtualAddress ++ leBytes 4 sizeOfRawData ++ leBytes 4 pointerToRawData ++
  List.replicate 16 0

def importBytes (name : Nat) : List UInt8 := List.replicate 12 0 ++ leBytes 4 name ++ List.replicate 4 0

/-! ## What a dereference sees -/

theorem atOffset_some {α : Type} {f : MappedFile} {T : Layout α} {pos : Nat} {a : α}
    (h : (f.atOffset T pos).val = some a) :
    f.inside pos T.size = true ∧ a = T.decode ((f.data.drop pos).take T.size) := by
  unfold MappedFile.atOffset at h
  split at h
  · rename_i hi; cases h; exact ⟨hi, rfl⟩
  · cases h

theorem atOffset_inside {α : Type} {f : MappedFile} {T : Layout α} {pos : Nat}
    (h : f.inside pos T.size = true) :
    (f.atOffset T pos).val = some (T.decode ((f.data.drop pos).take T.size)) := by
  unfold MappedFile.atOffset
  rw [if_pos h]

theorem ofFile_data (bytes : List UInt8) : (MappedFile.ofFile (some bytes)).data = bytes := by
  cases bytes with
  | nil => rfl
  | cons b bs => rfl

theorem ofFile_inside (bytes : List UInt8) {pos size : Nat} (h : 0 < size) :
    (MappedFile.ofFile (some bytes)).inside pos size = true ↔ pos + size ≤ bytes.length := by
  rw [MappedFile.inside_iff]
  cases bytes with
  | nil =>
    constructor
    · rintro ⟨hm, -⟩; cases hm
    · intro hlen; simp at hlen; omega
  | cons b bs => exact ⟨fun hin => hin.2, fun hlen => ⟨rfl, hlen⟩⟩

theorem atOffset_none {α : Type} {f : MappedFile} {T : Layout α} {pos : Nat}
    (h : (f.atOffset T pos).val = none) : f.inside pos T.size = false := by
  unfold MappedFile.atOffset at h
  split at h
  · cases h
  · rename_i hi; simpa using hi

end BuildEngine.Probe
