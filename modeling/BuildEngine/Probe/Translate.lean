/-
The three RVA translators of the probe: `rva` of `ReportImports`, `rawOffset` of `DiagnoseImage`
and `ToOffset` of `Visit`. Each walks the section table for the first section whose raw data backs
`need` bytes at the RVA. They differ in what a truncated section table does (`break` against
`continue`) and in that `ToOffset` first tries the RVA as an offset into the headers.
-/
import BuildEngine.Probe.Image

namespace BuildEngine.Probe

open Base

/-! ## The translators -/

/-- The loop of the translators over `n` sections from section `i` on; `stop` tells whether a section
header outside the file ends the loop (`break`) or only its iteration (`continue`). -/
def sectionSearch (stop : Bool) (f : MappedFile) (sections address need : Nat) : Nat → Nat → Probing Nat
  | 0, _ => pure f.length
  | n + 1, i => do
    match ← f.atOffset imageSectionHeader (sections + i * imageSectionHeader.size) with
    | none => if stop then pure f.length else sectionSearch stop f sections address need n (i + 1)
    | some sect =>
      let displacement := address - sect.virtualAddress
      let pos := sect.pointerToRawData + displacement
      if address < sect.virtualAddress then
        sectionSearch stop f sections address need n (i + 1)
      else if displacement > sect.sizeOfRawData ∨ need > sect.sizeOfRawData - displacement then
        sectionSearch stop f sections address need n (i + 1)
      else if pos ≤ f.length ∧ need ≤ f.length - pos then
        pure pos
      else
        sectionSearch stop f sections address need n (i + 1)

/-- Report the answer of a translator. -/
def translated (address need : Nat) (m : Probing Nat) : Probing Nat := do
  let pos ← m
  Traced.emit (.translated address need pos)
  pure pos

/-- `rva` of `ReportImports`. -/
def rva (f : MappedFile) (dos : ImageDosHeader) (nt : ImageNtHeaders64) (address need : Nat) : Probing Nat :=
  translated address need
    (sectionSearch true f (sectionTable dos nt) address need nt.fileHeader.numberOfSections 0)

/-- `rawOffset` of `DiagnoseImage`. -/
def rawOffset (f : MappedFile) (dos : ImageDosHeader) (nt : ImageNtHeaders64) (address bytes : Nat) :
    Probing Nat :=
  translated address bytes
    (sectionSearch false f (sectionTable dos nt) address bytes nt.fileHeader.numberOfSections 0)

/-- `ToOffset` of `Visit`. -/
def toOffset (f : MappedFile) (dos : ImageDosHeader) (nt : ImageNtHeaders64) (uRva uRequired : Nat) :
    Probing Nat :=
  translated uRva uRequired
    (if uRva < nt.optionalHeader.sizeOfHeaders ∧ uRva ≤ f.length ∧ uRequired ≤ f.length - uRva then
      pure uRva
    else
      sectionSearch false f (sectionTable dos nt) uRva uRequired nt.fileHeader.numberOfSections 0)

@[simp] theorem val_translated (address need : Nat) (m : Probing Nat) :
    (translated address need m).val = m.val := rfl

/-! ## Answers -/

/-- An answer of a translator for `need` bytes is the sentinel `length`, or an offset at which `need`
bytes lie inside the file. -/
def Answers (f : MappedFile) (need pos : Nat) : Prop := pos = f.length ∨ pos + need ≤ f.length

theorem sectionSearch_answers (stop : Bool) (f : MappedFile) (sections address need : Nat) :
    ∀ n i, Answers f need (sectionSearch stop f sections address need n i).val
  | 0, _ => .inl rfl
  | n + 1, i => by
    have ih := sectionSearch_answers stop f sections address need n (i + 1)
    rw [sectionSearch, Traced.val_bind]
    cases (f.atOffset imageSectionHeader (sections + i * imageSectionHeader.size)).val with
    | none =>
      cases stop with
      | true => exact .inl rfl
      | false => exact ih
    | some sect =>
      simp only
      split
      · exact ih
      · split
        · exact ih
        · split
          · rename_i hpos; exact .inr (by rw [Traced.val_pure]; omega)
          · exact ih

theorem rva_answers (f : MappedFile) (dos : ImageDosHeader) (nt : ImageNtHeaders64) (address need : Nat) :
    Answers f need (rva f dos nt address need).val := sectionSearch_answers ..

theorem rawOffset_answers (f : MappedFile) (dos : ImageDosHeader) (nt : ImageNtHeaders64)
    (address bytes : Nat) : Answers f bytes (rawOffset f dos nt address bytes).val :=
  sectionSearch_answers ..

theorem toOffset_answers (f : MappedFile) (dos : ImageDosHeader) (nt : ImageNtHeaders64)
    (uRva uRequired : Nat) : Answers f uRequired (toOffset f dos nt uRva uRequired).val := by
  unfold toOffset
  rw [val_translated]
  split
  · exact .inr (by rw [Traced.val_pure]; omega)
  · exact sectionSearch_answers ..

/-! ## What is recorded -/

section

variable {f : MappedFile} {P : Event → Prop}

theorem atOffset_all {α : Type} {T : Layout α} {pos : Nat} (h : f.inside pos T.size = true → P (.deref pos T.size)) :
    (f.atOffset T pos).All P := by
  unfold MappedFile.atOffset
  split
  · rename_i hi
    intro e he
    rw [List.mem_singleton.1 he]
    exact h hi
  · intro e he; cases he

theorem sectionSearch_all {stop : Bool} {sections address need : Nat}
    (h : ∀ pos, f.inside pos imageSectionHeader.size = true → P (.deref pos imageSectionHeader.size)) :
    ∀ n i, (sectionSearch stop f sections address need n i).All P
  | 0, _ => Traced.all_pure _
  | n + 1, i => by
    have ih : (sectionSearch stop f sections address need n (i + 1)).All P := sectionSearch_all h n (i + 1)
    rw [sectionSearch]
    refine (atOffset_all (h _)).bind ?_
    split
    · split
      · exact Traced.all_pure _
      · exact ih
    · dsimp only
      split
      · exact ih
      · split
        · exact ih
        · split
          · exact Traced.all_pure _
          · exact ih

theorem translated_all {address need : Nat} {m : Probing Nat} (h : m.All P)
    (ha : P (.translated address need m.val)) : (translated address need m).All P :=
  h.bind (Traced.All.bind ((Traced.all_emit _).2 ha) (Traced.all_pure _))

theorem toOffset_all {pDos : ImageDosHeader} {pNt : ImageNtHeaders64} {uRva uRequired : Nat}
    (h : ∀ pos, f.inside pos imageSectionHeader.size = true → P (.deref pos imageSectionHeader.size))
    (ha : P (.translated uRva uRequired (toOffset f pDos pNt uRva uRequired).val)) :
    (toOffset f pDos pNt uRva uRequired).All P := by
  refine translated_all ?_ ha
  split
  · exact Traced.all_pure _
  · exact sectionSearch_all h _ _

end

/-! ## Agreement -/

/-- Past a section header outside the file every later one is outside too. -/
theorem sectionSearch_truncated (stop : Bool) (f : MappedFile) (sections address need : Nat) :
    ∀ n i, f.inside (sections + i * imageSectionHeader.size) imageSectionHeader.size = false →
      (sectionSearch stop f sections address need n i).val = f.length
  | 0, _, _ => rfl
  | n + 1, i, h => by
    rw [sectionSearch, Traced.val_bind]
    have hat : (f.atOffset imageSectionHeader (sections + i * imageSectionHeader.size)).val = none := by
      unfold MappedFile.atOffset; rw [h]; rfl
    rw [hat]
    cases stop with
    | true => rfl
    | false =>
      refine sectionSearch_truncated false f sections address need n (i + 1) ?_
      rw [Bool.eq_false_iff, Ne, MappedFile.inside_iff] at h ⊢
      rintro ⟨h1, h2⟩
      exact h ⟨h1, by simp only [imageSectionHeader] at *; omega⟩

/-- Stopping at a truncated section table and skipping over its rest give the same answer. -/
theorem sectionSearch_stop (f : MappedFile) (sections address need : Nat) :
    ∀ n i, (sectionSearch true f sections address need n i).val =
      (sectionSearch false f sections address need n i).val
  | 0, _ => rfl
  | n + 1, i => by
    have ih := sectionSearch_stop f sections address need n (i + 1)
    cases h : (f.atOffset imageSectionHeader (sections + i * imageSectionHeader.size)).val with
    | none =>
      rw [sectionSearch_truncated true _ _ _ _ _ _ (atOffset_none h),
        sectionSearch_truncated false _ _ _ _ _ _ (atOffset_none h)]
    | some sect =>
      rw [sectionSearch, sectionSearch, Traced.val_bind, Traced.val_bind, h]
      simp only
      split
      · exact ih
      · split
        · exact ih
        · split
          · rfl
          · exact ih

theorem rva_eq_rawOffset (f : MappedFile) (dos : ImageDosHeader) (nt : ImageNtHeaders64)
    (address need : Nat) : (rva f dos nt address need).val = (rawOffset f dos nt address need).val := by
  unfold rva rawOffset; rw [val_translated, val_translated, sectionSearch_stop]

/-- Above the headers `ToOffset` is the section search of the other two. -/
theorem toOffset_eq_rva (f : MappedFile) (dos : ImageDosHeader) (nt : ImageNtHeaders64)
    {uRva : Nat} (uRequired : Nat) (h : nt.optionalHeader.sizeOfHeaders ≤ uRva) :
    (toOffset f dos nt uRva uRequired).val = (rva f dos nt uRva uRequired).val := by
  unfold toOffset
  rw [rva_eq_rawOffset, val_translated, if_neg (by omega)]
  rfl

end BuildEngine.Probe
