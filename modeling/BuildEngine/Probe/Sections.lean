/-
What the RVA translators answer: they agree above the headers, and where the section table lies in the file and no
two sections back the same RVA, the answer is the place of the one section that backs the request.
-/
import BuildEngine.Probe.Imports

namespace BuildEngine.Probe

open Base

/-! ## The section table -/

/-- The section headers from the `i`-th on, `n` of them. -/
def sectionsFrom (f : MappedFile) (sections : Nat) (n i : Nat) : List ImageSectionHeader :=
  (List.range' i n).map fun i =>
    imageSectionHeader.decode ((f.data.drop (sections + i * imageSectionHeader.size)).take imageSectionHeader.size)

/-- The section table of an image. -/
def sectionHeaders (f : MappedFile) (dos : ImageDosHeader) (nt : ImageNtHeaders64) : List ImageSectionHeader :=
  sectionsFrom f (sectionTable dos nt) nt.fileHeader.numberOfSections 0

/-- `[address, address + need)` lies in `[VirtualAddress, VirtualAddress + SizeOfRawData)`. -/
def ImageSectionHeader.Backs (sect : ImageSectionHeader) (address need : Nat) : Prop :=
  sect.virtualAddress ≤ address ∧ address + need ≤ sect.virtualAddress + sect.sizeOfRawData

instance (sect : ImageSectionHeader) (address need : Nat) : Decidable (sect.Backs address need) :=
  inferInstanceAs (Decidable (_ ∧ _))

/-- `PointerToRawData + (address - VirtualAddress)`. -/
def ImageSectionHeader.offsetOf (sect : ImageSectionHeader) (address : Nat) : Nat :=
  sect.pointerToRawData + (address - sect.virtualAddress)

/-- The section table lies in the file, and no RVA is backed by two sections. -/
structure TableOk (f : MappedFile) (dos : ImageDosHeader) (nt : ImageNtHeaders64) : Prop where
  inside : sectionTable dos nt + nt.fileHeader.numberOfSections * imageSectionHeader.size ≤ f.length
  disjoint : (sectionHeaders f dos nt).Pairwise fun s t => ∀ address, ¬ (s.Backs address 1 ∧ t.Backs address 1)

/-- What a section answers to a request. -/
def ImageSectionHeader.Serves (f : MappedFile) (address need : Nat) (sect : ImageSectionHeader) : Prop :=
  sect.Backs address need ∧ sect.offsetOf address + need ≤ f.length

instance (f : MappedFile) (address need : Nat) (sect : ImageSectionHeader) :
    Decidable (sect.Serves f address need) := inferInstanceAs (Decidable (_ ∧ _))

/-- The search answers with the first section that serves the request. -/
theorem sectionSearch_find (stop : Bool) {f : MappedFile} (hmapped : f.mapped = true) {sections : Nat}
    (address need : Nat) :
    ∀ n i, sections + (i + n) * imageSectionHeader.size ≤ f.length →
      (sectionSearch stop f sections address need n i).val =
        (((sectionsFrom f sections n i).find? fun sect => sect.Serves f address need).map
          (·.offsetOf address)).getD f.length
  | 0, _, _ => rfl
  | n + 1, i, h => by
    have hsize : imageSectionHeader.size = 40 := rfl
    rw [hsize] at h
    have hnext : sections + (i + 1 + n) * imageSectionHeader.size ≤ f.length := by
      rw [hsize]
      omega
    have ih := sectionSearch_find stop hmapped address need n (i + 1) hnext
    have hinside : f.inside (sections + i * imageSectionHeader.size) imageSectionHeader.size = true := by
      rw [MappedFile.inside_iff, hsize]
      exact ⟨hmapped, by omega⟩
    rw [sectionSearch, Traced.val_bind, atOffset_inside hinside, sectionsFrom, List.range'_succ, List.map_cons,
      ← sectionsFrom, List.find?_cons]
    simp only
    generalize imageSectionHeader.decode _ = sect
    by_cases hserves : sect.Serves f address need
    · obtain ⟨⟨hlow, hhigh⟩, hfits⟩ := id hserves
      rw [ImageSectionHeader.offsetOf] at hfits
      rw [if_neg (by omega), if_neg (by omega), if_pos (by omega), decide_eq_true hserves]
      rfl
    · rw [decide_eq_false hserves]
      simp only
      rw [← ih]
      -- the request fails the first test that it does not pass
      rw [ImageSectionHeader.Serves, ImageSectionHeader.Backs, ImageSectionHeader.offsetOf] at hserves
      split
      · rfl
      · split
        · rfl
        · rw [if_neg (by omega)]

/-! ## The section that backs a request -/

/-- The sections that back a request. -/
def backing (f : MappedFile) (dos : ImageDosHeader) (nt : ImageNtHeaders64) (address need : Nat) :
    List ImageSectionHeader :=
  (sectionHeaders f dos nt).filter fun sect => sect.Backs address need

/-- The place of a request in the one section that backs it, or the sentinel. -/
def placeIn (f : MappedFile) (address need : Nat) : List ImageSectionHeader → Nat
  | [sect] => if sect.offsetOf address + need ≤ f.length then sect.offsetOf address else f.length
  | _ => f.length

theorem ImageSectionHeader.Backs.first {sect : ImageSectionHeader} {address need : Nat} (h : sect.Backs address need)
    (hneed : 1 ≤ need) : sect.Backs address 1 :=
  ⟨h.1, by have := h.2; omega⟩

/-- At most one section backs a request. -/
theorem backing_length {f : MappedFile} {dos : ImageDosHeader} {nt : ImageNtHeaders64} (htable : TableOk f dos nt)
    {need : Nat} (hneed : 1 ≤ need) (address : Nat) : (backing f dos nt address need).length ≤ 1 := by
  have hpair := htable.disjoint.filter fun sect => sect.Backs address need
  have hbacks : ∀ sect ∈ backing f dos nt address need, sect.Backs address need := fun sect hsect =>
    of_decide_eq_true (List.mem_filter.1 hsect).2
  rw [← backing] at hpair
  rcases hlist : backing f dos nt address need with _ | ⟨s, _ | ⟨t, rest⟩⟩
  · exact Nat.zero_le _
  · exact le_rfl
  · rw [hlist] at hpair hbacks
    have hst := (List.pairwise_cons.1 hpair).1 t (.head _) address
    exact absurd ⟨(hbacks s (.head _)).first hneed, (hbacks t (.tail _ (.head _))).first hneed⟩ hst

theorem sectionSearch_place {stop : Bool} {f : MappedFile} (hmapped : f.mapped = true) {dos : ImageDosHeader}
    {nt : ImageNtHeaders64} (htable : TableOk f dos nt) (address : Nat) {need : Nat} (hneed : 1 ≤ need) :
    (sectionSearch stop f (sectionTable dos nt) address need nt.fileHeader.numberOfSections 0).val =
      placeIn f address need (backing f dos nt address need) := by
  have hinside := htable.inside
  rw [sectionSearch_find stop hmapped address need _ 0 (by rwa [Nat.zero_add]), ← sectionHeaders]
  have hserves : (sectionHeaders f dos nt).find? (fun sect => sect.Serves f address need) =
      (backing f dos nt address need).find? fun sect => sect.offsetOf address + need ≤ f.length := by
    rw [backing, List.find?_filter]
    congr 1
    funext sect
    refine decide_eq_decide.2 ?_
    simp only [ImageSectionHeader.Serves, decide_eq_true_eq]
  rw [hserves]
  have hlength := backing_length htable hneed address
  rcases hlist : backing f dos nt address need with _ | ⟨sect, _ | ⟨t, rest⟩⟩
  · rfl
  · rw [placeIn, List.find?_singleton]
    by_cases hfits : sect.offsetOf address + need ≤ f.length
    · rw [if_pos hfits, if_pos (decide_eq_true hfits)]
      rfl
    · rw [if_neg hfits, if_neg (by simpa using hfits)]
      rfl
  · rw [hlist] at hlength
    simp at hlength

/-! ## The three translators -/

inductive Translator where
  | rva
  | rawOffset
  | toOffset
  deriving DecidableEq, Repr

def Translator.ask : Translator → MappedFile → ImageDosHeader → ImageNtHeaders64 → Nat → Nat → Probing Nat
  | .rva => BuildEngine.Probe.rva
  | .rawOffset => BuildEngine.Probe.rawOffset
  | .toOffset => BuildEngine.Probe.toOffset

theorem ask_eq_search (t : Translator) (f : MappedFile) (dos : ImageDosHeader) {nt : ImageNtHeaders64} {address : Nat}
    (need : Nat) (h : nt.optionalHeader.sizeOfHeaders ≤ address) :
    (t.ask f dos nt address need).val =
      (sectionSearch true f (sectionTable dos nt) address need nt.fileHeader.numberOfSections 0).val := by
  cases t with
  | rva => rfl
  | rawOffset => exact (rva_eq_rawOffset ..).symm
  | toOffset => exact toOffset_eq_rva f dos nt need h

/-- Above the headers the translators agree. Where the table is as it should be they answer with the place in the
one section that backs the request, and a part of a request that succeeds succeeds at the same distance. -/
theorem translators_correct {f : MappedFile} {dos : ImageDosHeader} {nt : ImageNtHeaders64} (h : HeaderOk f dos nt)
    {address : Nat} (haddress : nt.optionalHeader.sizeOfHeaders ≤ address) (need : Nat) (t : Translator) :
    (∀ t' : Translator, (t'.ask f dos nt address need).val = (t.ask f dos nt address need).val) ∧
    (TableOk f dos nt → 1 ≤ need →
      (backing f dos nt address need).length ≤ 1 ∧
      (t.ask f dos nt address need).val = placeIn f address need (backing f dos nt address need) ∧
      ((t.ask f dos nt address need).val ≠ f.length → ∀ k m, 1 ≤ m → k + m ≤ need →
        (t.ask f dos nt (address + k) m).val = (t.ask f dos nt address need).val + k ∧
          (t.ask f dos nt (address + k) m).val ≠ f.length)) := by
  have hmapped : f.mapped = true := ((MappedFile.inside_iff ..).1 (atOffset_some h.dosAt).1).1
  refine ⟨fun t' => by rw [ask_eq_search t' f dos need haddress, ask_eq_search t f dos need haddress], ?_⟩
  intro htable hneed
  have hplace : ∀ k {m : Nat}, 1 ≤ m → (t.ask f dos nt (address + k) m).val =
      placeIn f (address + k) m (backing f dos nt (address + k) m) := by
    intro k m hm
    rw [ask_eq_search t f dos m (by omega), sectionSearch_place hmapped htable _ hm]
  have hlength := backing_length htable hneed address
  refine ⟨hlength, hplace 0 hneed, fun hsucceeds k m hm hkm => ?_⟩
  have hanswer := hplace 0 hneed
  rw [Nat.add_zero] at hanswer
  rw [hanswer] at hsucceeds ⊢
  rcases hlist : backing f dos nt address need with _ | ⟨sect, _ | ⟨t, rest⟩⟩
  · rw [hlist] at hsucceeds
    exact absurd rfl hsucceeds
  · -- the same section backs the part
    rw [hlist, placeIn] at hsucceeds
    have hfits : sect.offsetOf address + need ≤ f.length := by
      by_contra hnot
      exact hsucceeds (if_neg hnot)
    obtain ⟨hmem, hbacks⟩ := List.mem_filter.1 (hlist ▸ List.mem_singleton_self sect)
    obtain ⟨hlow, hhigh⟩ := of_decide_eq_true hbacks
    have hpart : backing f dos nt (address + k) m = [sect] := by
      have hmem' : sect ∈ backing f dos nt (address + k) m :=
        List.mem_filter.2 ⟨hmem, decide_eq_true ⟨by omega, by omega⟩⟩
      obtain ⟨s, hs⟩ := List.length_eq_one_iff.1 (le_antisymm (backing_length htable hm (address + k))
        (List.length_pos_of_mem hmem'))
      rw [hs] at hmem' ⊢
      rw [List.mem_singleton.1 hmem']
    have hoffset : sect.offsetOf (address + k) = sect.offsetOf address + k := by
      simp only [ImageSectionHeader.offsetOf]
      omega
    rw [hplace k hm, hpart, placeIn, placeIn, hoffset, if_pos (by omega), if_pos hfits]
    exact ⟨rfl, by omega⟩
  · rw [hlist] at hlength
    simp at hlength

/-- An image with one section of sixteen bytes. -/
def oneSection : MappedFile := .ofFile (some (imageBytes 1 512 0 0
  (sectionBytes 0x1000 16 368 ++ List.replicate 16 0)))

def oneSectionNt : ImageNtHeaders64 := imageNtHeaders64.decode ((oneSection.data.drop 64).take 264)

set_option maxRecDepth 8000 in
theorem oneSection_headerOk : HeaderOk oneSection ⟨0x5A4D, 64⟩ oneSectionNt := visitHeader_ok.1 (by rfl)

theorem oneSection_tableOk : TableOk oneSection ⟨0x5A4D, 64⟩ oneSectionNt where
  inside := by decide +kernel
  disjoint := by
    have hcount : oneSectionNt.fileHeader.numberOfSections = 1 := by decide +kernel
    rw [sectionHeaders, hcount]
    exact List.pairwise_singleton ..

/-- Eight bytes at `0x1004` lie at 372, and so the four bytes from the second on at 373. -/
theorem oneSection_translators :
    (Translator.toOffset.ask oneSection ⟨0x5A4D, 64⟩ oneSectionNt 0x1004 8).val = 372 ∧
      (Translator.toOffset.ask oneSection ⟨0x5A4D, 64⟩ oneSectionNt 0x1005 4).val = 373 := by
  have hcorrect := translators_correct oneSection_headerOk
    (show oneSectionNt.optionalHeader.sizeOfHeaders ≤ 0x1004 by decide +kernel) 8 .toOffset
  obtain ⟨-, hplace, hpart⟩ := hcorrect.2 oneSection_tableOk (by decide)
  have hanswer : (Translator.toOffset.ask oneSection ⟨0x5A4D, 64⟩ oneSectionNt 0x1004 8).val = 372 := by
    rw [hplace]
    decide +kernel
  refine ⟨hanswer, ?_⟩
  rw [(hpart (by rw [hanswer]; decide +kernel) 1 4 (by decide) (by decide)).1, hanswer]

end BuildEngine.Probe
