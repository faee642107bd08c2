/-
The PE check of `_adecc_stage_dll` in `BuildEngineStageRuntime.cmake`, over the hexadecimal text that
`file(READ ... HEX)` yields, and what it has to do with the header test of the loader probe.
-/
import BuildEngine.Base.Hex
import BuildEngine.Probe.Imports

namespace BuildEngine.Stage

open Base

/-- A CMake string. -/
abbrev Text := List Char

scoped instance : LawfulBEq Text := inferInstanceAs (LawfulBEq (List Char))

/-- `file(READ <file> <out> OFFSET <offset> LIMIT <limit> HEX)`. -/
def readHex (bytes : List UInt8) (offset limit : Nat) : Text := toHex ((bytes.drop offset).take limit)

/-- `string(SUBSTRING <text> <begin> 2 <out>)`. -/
def substring2 (text : Text) (start : Nat) : Text := (text.drop start).take 2

/-- `MATCHES "^[0-9a-f]+$"`. -/
def matchesHex (text : Text) : Bool := !text.isEmpty && text.all fun c => hexDigits.contains c

/-- The `uOffset` of the PE check: the two-digit groups of `strOffset`, last first, as one number. -/
def headerOffset (strOffset : Text) : Nat :=
  hexValue (substring2 strOffset 6 ++ substring2 strOffset 4 ++ substring2 strOffset 2 ++ substring2 strOffset 0)

/-- The PE check of `_adecc_stage_dll` on a file with the given path and content: `none`, or the message of
the fatal error. -/
def peCheck (theFile : Text) (bytes : List UInt8) : Option Text :=
  let uSize := bytes.length
  if uSize < 70 then some ("Runtime DLL too small: ".toList ++ theFile)
  else
    let strMz := readHex bytes 0 2
    let strOffset := readHex bytes 60 4
    if strMz ≠ "4d5a".toList ∨ strOffset.length ≠ 8 ∨ !matchesHex strOffset then
      some ("Runtime DLL is not a PE image: ".toList ++ theFile)
    else
      let uOffset := headerOffset strOffset
      let uMin := uOffset + 6
      if uMin > uSize then some ("Truncated runtime PE header: ".toList ++ theFile)
      else
        let strHeader := readHex bytes uOffset 6
        if strHeader ≠ "504500006486".toList then
          some ("Runtime DLL is not PE/COFF x64: ".toList ++ theFile ++ "; header=".toList ++ strHeader)
        else none

/-- The check on the bytes: a DOS header, and behind the offset it names the PE signature and the machine
AMD64. -/
structure CoffX64 (bytes : List UInt8) : Prop where
  size : 70 ≤ bytes.length
  dos : bytes.take 2 = [0x4D, 0x5A]
  room : le bytes 60 4 + 6 ≤ bytes.length
  header : (bytes.drop (le bytes 60 4)).take 6 = [0x50, 0x45, 0, 0, 0x64, 0x86]

theorem headerOffset_readHex {bytes : List UInt8} (h : 70 ≤ bytes.length) :
    headerOffset (readHex bytes 60 4) = le bytes 60 4 := by
  have hlen : ((bytes.drop 60).take 4).length = 4 := by
    rw [List.length_take, List.length_drop]
    omega
  unfold readHex le
  obtain ⟨b0, b1, b2, b3, hb⟩ : ∃ b0 b1 b2 b3, (bytes.drop 60).take 4 = [b0, b1, b2, b3] := by
    match hb : (bytes.drop 60).take 4 with
    | [b0, b1, b2, b3] => exact ⟨b0, b1, b2, b3, rfl⟩
    | [] => rw [hb] at hlen; cases hlen
    | [_] => rw [hb] at hlen; cases hlen
    | [_, _] => rw [hb] at hlen; cases hlen
    | [_, _, _] => rw [hb] at hlen; cases hlen
    | _ :: _ :: _ :: _ :: _ :: _ => rw [hb] at hlen; simp at hlen
  rw [hb, ← hexValue_toHex_reverse]
  rfl

theorem matchesHex_readHex {bytes : List UInt8} (h : 70 ≤ bytes.length) :
    matchesHex (readHex bytes 60 4) = true := by
  have hlen : (readHex bytes 60 4).length = 8 := by
    rw [readHex, length_toHex, List.length_take, List.length_drop]
    omega
  unfold matchesHex
  rw [Bool.and_eq_true, Bool.not_eq_true', List.isEmpty_eq_false_iff, List.all_eq_true]
  constructor
  · intro hnil
    rw [hnil] at hlen
    cases hlen
  · intro c hc
    rw [List.contains_iff_mem]
    exact toHex_digits hc

theorem peCheck_none {theFile : Text} {bytes : List UInt8} : peCheck theFile bytes = none ↔ CoffX64 bytes := by
  have hmz : "4d5a".toList = toHex [0x4D, 0x5A] := by decide
  have hpe : "504500006486".toList = toHex [0x50, 0x45, 0, 0, 0x64, 0x86] := by decide
  unfold peCheck
  dsimp only
  by_cases hsize : bytes.length < 70
  · rw [if_pos hsize]
    constructor
    · intro h; cases h
    · intro h
      have := h.size
      omega
  · have hle : 70 ≤ bytes.length := by omega
    have hlen : (readHex bytes 60 4).length = 8 := by
      rw [readHex, length_toHex, List.length_take, List.length_drop]
      omega
    rw [if_neg hsize, headerOffset_readHex hle, matchesHex_readHex hle, hlen, hmz, hpe]
    unfold readHex
    rw [List.drop_zero]
    constructor
    · intro h
      split at h
      · cases h
      · rename_i hdos
        split at h
        · cases h
        · rename_i hroom
          split at h
          · cases h
          · rename_i hheader
            simp only [ne_eq, not_or, not_not] at hdos hheader
            exact ⟨hle, toHex_inj hdos.1, by omega, toHex_inj hheader⟩
    · intro h
      rw [h.dos, h.header, if_neg (by simp), if_neg (by have := h.room; omega), if_neg (by simp)]

/-! ## The header test of the loader probe -/

/-- `Visit` does not count the file as invalid by its headers. -/
def probeAccepts (bytes : List UInt8) : Bool := (Probe.visitHeader (.ofFile (some bytes))).val.isOk

/-- The header test of `Visit` on the bytes. -/
structure PePlusX64 (bytes : List UInt8) : Prop where
  dos : le bytes 0 2 = Probe.imageDosSignature
  positive : le bytes 60 4 < 2 ^ 31
  room : le bytes 60 4 + 264 ≤ bytes.length
  signature : le bytes (le bytes 60 4) 4 = Probe.imageNtSignature
  machine : le bytes (le bytes 60 4 + 4) 2 = Probe.imageFileMachineAmd64
  magic : le bytes (le bytes 60 4 + 24) 2 = Probe.imageNtOptionalHdr64Magic

theorem toLong_nonneg {n : Nat} (h : n < 2 ^ 32) : 0 ≤ Probe.toLong n ↔ n < 2 ^ 31 := by
  unfold Probe.toLong
  split
  · rename_i hlt; exact ⟨fun _ => hlt, fun _ => by omega⟩
  · exact ⟨fun hneg => by omega, fun hlt => by omega⟩

theorem probeAccepts_iff (bytes : List UInt8) : probeAccepts bytes = true ↔ PePlusX64 bytes := by
  have hdos : ∀ off width, off + width ≤ 64 → le ((bytes.drop 0).take 64) off width = le bytes off width := by
    intro off width h
    rw [le_slice bytes h, Nat.zero_add]
  have hlt : le bytes 60 4 < 2 ^ 32 := le_lt bytes 60 4
  have hlfanew := toLong_nonneg hlt
  have hnat : le bytes 60 4 < 2 ^ 31 → (Probe.toLong (le bytes 60 4)).toNat = le bytes 60 4 := by
    intro h
    unfold Probe.toLong
    rw [if_pos h]
    rfl
  constructor
  · intro h
    unfold probeAccepts at h
    cases hval : (Probe.visitHeader (.ofFile (some bytes))).val with
    | error reason => rw [hval] at h; cases h
    | ok headers =>
      obtain ⟨pDos, pNt⟩ := headers
      obtain ⟨hdosAt, hmagic, hpos, hntAt, hsignature, hoptional, hmachine⟩ := Probe.visitHeader_ok.1 hval
      obtain ⟨-, rfl⟩ := Probe.atOffset_some hdosAt
      obtain ⟨hin, rfl⟩ := Probe.atOffset_some hntAt
      rw [Probe.ofFile_data] at hin hmagic hpos hsignature hoptional hmachine
      simp only [Probe.imageDosHeader, Probe.imageNtHeaders64] at hin hmagic hpos hsignature hoptional hmachine
      rw [hdos _ _ (by decide)] at hmagic hpos
      rw [hdos _ _ (by decide), hnat (hlfanew.1 hpos)] at hin hsignature hoptional hmachine
      rw [le_slice _ (by decide)] at hsignature hoptional hmachine
      exact ⟨hmagic, hlfanew.1 hpos, (Probe.ofFile_inside bytes (by decide)).1 hin, hsignature, hmachine, hoptional⟩
  · intro h
    have hroom := h.room
    have hin0 := (Probe.ofFile_inside bytes (by decide)).2 (show 0 + Probe.imageDosHeader.size ≤ bytes.length by
      simp only [Probe.imageDosHeader]
      omega)
    have hin := (Probe.ofFile_inside bytes (by decide)).2
      (show le bytes 60 4 + Probe.imageNtHeaders64.size ≤ bytes.length from h.room)
    have hdosAt := Probe.atOffset_inside hin0
    have hntAt := Probe.atOffset_inside hin
    rw [Probe.ofFile_data] at hdosAt hntAt
    have hok : Probe.HeaderOk (.ofFile (some bytes))
        (Probe.imageDosHeader.decode ((bytes.drop 0).take 64))
        (Probe.imageNtHeaders64.decode ((bytes.drop (le bytes 60 4)).take 264)) := by
      refine ⟨hdosAt, ?_, ?_, ?_, ?_, ?_, ?_⟩
      · exact (hdos 0 2 (by decide)).trans h.dos
      · show 0 ≤ Probe.toLong _
        rw [hdos 60 4 (by decide)]
        exact hlfanew.2 h.positive
      · have hoff : (Probe.imageDosHeader.decode ((bytes.drop 0).take 64)).eLfanew.toNat = le bytes 60 4 := by
          show (Probe.toLong _).toNat = _
          rw [hdos 60 4 (by decide), hnat h.positive]
        rw [hoff]
        exact hntAt
      · exact (le_slice bytes (by decide)).trans h.signature
      · exact (le_slice bytes (by decide)).trans h.magic
      · exact (le_slice bytes (by decide)).trans h.machine
    unfold probeAccepts
    rw [Probe.visitHeader_ok.2 hok]
    rfl

theorem coffX64_iff (bytes : List UInt8) :
    CoffX64 bytes ↔ 70 ≤ bytes.length ∧ le bytes 0 2 = Probe.imageDosSignature ∧
      le bytes 60 4 + 6 ≤ bytes.length ∧ le bytes (le bytes 60 4) 4 = Probe.imageNtSignature ∧
      le bytes (le bytes 60 4 + 4) 2 = Probe.imageFileMachineAmd64 := by
  have hmz : 2 ≤ bytes.length → (bytes.take 2 = [0x4D, 0x5A] ↔ le bytes 0 2 = Probe.imageDosSignature) :=
    fun h => take_drop_eq_iff bytes 0 [0x4D, 0x5A] (by simpa using h)
  have hpe : le bytes 60 4 + 6 ≤ bytes.length →
      ((bytes.drop (le bytes 60 4)).take 6 = [0x50, 0x45, 0, 0, 0x64, 0x86] ↔
        le bytes (le bytes 60 4) 4 = Probe.imageNtSignature ∧
        le bytes (le bytes 60 4 + 4) 2 = Probe.imageFileMachineAmd64) := by
    intro h
    have h4 := take_drop_eq_iff bytes (le bytes 60 4) [0x50, 0x45, 0, 0] (by simp; omega)
    have h2 := take_drop_eq_iff bytes (le bytes 60 4 + 4) [0x64, 0x86] (by simp; omega)
    have hsplit : (bytes.drop (le bytes 60 4)).take 6 =
        (bytes.drop (le bytes 60 4)).take 4 ++ (bytes.drop (le bytes 60 4 + 4)).take 2 := by
      rw [← List.drop_drop, ← List.take_add]
    rw [hsplit]
    constructor
    · intro heq
      have heq : (bytes.drop (le bytes 60 4)).take 4 ++ (bytes.drop (le bytes 60 4 + 4)).take 2 =
          [0x50, 0x45, 0, 0] ++ [0x64, 0x86] := heq
      obtain ⟨ha, hb⟩ := List.append_inj heq (by simp; omega)
      exact ⟨h4.1 ha, h2.1 hb⟩
    · rintro ⟨hs, hm⟩
      have ha : (bytes.drop (le bytes 60 4)).take 4 = [0x50, 0x45, 0, 0] := h4.2 hs
      have hb : (bytes.drop (le bytes 60 4 + 4)).take 2 = [0x64, 0x86] := h2.2 hm
      rw [ha, hb]
      rfl
  constructor
  · intro h
    have hsize := h.size
    obtain ⟨hs, hm⟩ := (hpe h.room).1 h.header
    exact ⟨h.size, (hmz (by omega)).1 h.dos, h.room, hs, hm⟩
  · rintro ⟨hsize, hdos, hroom, hs, hm⟩
    exact ⟨hsize, (hmz (by omega)).2 hdos, hroom, (hpe hroom).2 ⟨hs, hm⟩⟩

/-- A COFF image for AMD64 whose optional header is not that of a complete PE32+ image, or whose header offset
is no positive `LONG`. -/
structure NoPePlus (bytes : List UInt8) : Prop where
  coff : CoffX64 bytes
  optional : 2 ^ 31 ≤ le bytes 60 4 ∨ bytes.length < le bytes 60 4 + 264 ∨
    le bytes (le bytes 60 4 + 24) 2 ≠ Probe.imageNtOptionalHdr64Magic

/-- Every file the probe expands passes the check. -/
theorem PePlusX64.coffX64 {bytes : List UInt8} (h : PePlusX64 bytes) : CoffX64 bytes := by
  have hroom := h.room
  exact (coffX64_iff bytes).2 ⟨by omega, h.dos, by omega, h.signature, h.machine⟩

/-- The check and the header test of the probe decide alike on a file exactly when it is not a COFF image for
AMD64 without a complete PE32+ optional header behind a positive `LONG` offset. -/
theorem peCheck_agrees_iff (theFile : Text) (bytes : List UInt8) :
    (peCheck theFile bytes = none ↔ probeAccepts bytes = true) ↔ ¬ NoPePlus bytes := by
  rw [peCheck_none, probeAccepts_iff]
  constructor
  · intro h hno
    have hplus := h.1 hno.coff
    have hroom := hplus.room
    have hpositive := hplus.positive
    rcases hno.optional with ho | ho | ho
    · omega
    · omega
    · exact ho hplus.magic
  · intro hno
    constructor
    · intro hcoff
      obtain ⟨-, hdos, -, hs, hm⟩ := (coffX64_iff bytes).1 hcoff
      by_contra hplus
      refine hno ⟨hcoff, ?_⟩
      by_contra hopt
      simp only [not_or, not_le, not_lt, not_not] at hopt
      exact hplus ⟨hdos, hopt.1, hopt.2.1, hs, hm, hopt.2.2⟩
    · exact PePlusX64.coffX64

/-- A DOS header, the PE signature at offset 64 and the machine AMD64, and nothing behind. -/
def bareCoff : List UInt8 :=
  leBytes 2 Probe.imageDosSignature ++ List.replicate 58 0 ++ leBytes 4 64 ++
  leBytes 4 Probe.imageNtSignature ++ leBytes 2 Probe.imageFileMachineAmd64

theorem peCheck_bareCoff : peCheck "a.dll".toList bareCoff = none ∧ probeAccepts bareCoff = false := by
  decide

end BuildEngine.Stage
