/-
The probe never reads outside the mapped file. A trace event is `Safe` when the bytes it touches lie in
`[0, length)`; every event of `ReportImports`, of `DiagnoseImage` and of every call of `Visit` is.
-/
import BuildEngine.Probe.Diagnose
import BuildEngine.Probe.Tree

namespace BuildEngine.Probe

open Base

/-- What an event may touch: a dereferenced structure and the range of a `memchr` lie inside the file; an
RVA translator answers the sentinel `length` or room for the bytes asked for; a string used lies inside
the file together with the NUL byte that ends it. -/
def Event.Safe (f : MappedFile) : Event → Prop
  | .deref pos size => pos + size ≤ f.length
  | .translated _ need pos => Answers f need pos
  | .memchr pos count => pos + count ≤ f.length
  | .cstring pos s =>
    pos + s.length < f.length ∧ (f.data.drop pos).take s.length = s ∧ f.data[pos + s.length]? = some 0
  | .wprintf _ _ => True

variable {f : MappedFile}

/-! ## Commands -/

theorem wprintf_safe {format : String} {args : List Arg} : (wprintf format args).All (Event.Safe f) :=
  (Traced.all_emit _).2 trivial

/-- A structure that `At<T>` yields is read inside the file. -/
theorem deref_safe {pos size : Nat} (h : f.inside pos size = true) : (Event.deref pos size).Safe f :=
  ((MappedFile.inside_iff ..).1 h).2

theorem atOffset_safe {α : Type} {T : Layout α} {pos : Nat} : (f.atOffset T pos).All (Event.Safe f) :=
  atOffset_all deref_safe

theorem memchr_safe {pos : Nat} (h : pos < f.length) : (Event.memchr pos (f.length - pos)).Safe f := by
  show pos + (f.length - pos) ≤ f.length
  omega

theorem findZero_safe {pos : Nat} (h : pos < f.length) : (findZero f pos).All (Event.Safe f) :=
  findZero_all (memchr_safe h)

/-- A string in which `memchr` found a NUL ends at a NUL byte. -/
theorem takeWhile_nonzero_spec : ∀ l : List UInt8, (0 : UInt8) ∈ l →
    (l.takeWhile (· ≠ 0)).length < l.length ∧ l.take (l.takeWhile (· ≠ 0)).length = l.takeWhile (· ≠ 0) ∧
      l[(l.takeWhile (· ≠ 0)).length]? = some 0
  | b :: l, h => by
    by_cases hb : b = 0
    · subst hb; simp
    · have hl : (0 : UInt8) ∈ l := by
        rcases List.mem_cons.1 h with h0 | hl
        · exact absurd h0.symm hb
        · exact hl
      obtain ⟨h1, h2, h3⟩ := takeWhile_nonzero_spec l hl
      have ht : (b :: l).takeWhile (· ≠ 0) = b :: l.takeWhile (· ≠ 0) := by simp [hb]
      rw [ht]
      exact ⟨by simpa using h1, by simpa using h2, by simpa using h3⟩

theorem cstring_safe {pos : Nat} (h : f.hasZero pos = true) : (Event.cstring pos (f.stringAt pos)).Safe f := by
  obtain ⟨h1, h2, h3⟩ := takeWhile_nonzero_spec (f.data.drop pos) (by simpa [MappedFile.hasZero] using h)
  rw [List.length_drop] at h1
  rw [List.getElem?_drop] at h3
  refine ⟨?_, h2, h3⟩
  show pos + ((f.data.drop pos).takeWhile (· ≠ 0)).length < f.data.length
  omega

theorem readString_safe {pos : Nat} (h : f.hasZero pos = true) : (readString f pos).All (Event.Safe f) :=
  readString_all (cstring_safe h)

/-! ## Translators -/

theorem rva_safe {dos : ImageDosHeader} {nt : ImageNtHeaders64} {address need : Nat} :
    (rva f dos nt address need).All (Event.Safe f) :=
  translated_all (sectionSearch_all (fun _ => deref_safe) _ _) (rva_answers f dos nt address need)

theorem rawOffset_safe {dos : ImageDosHeader} {nt : ImageNtHeaders64} {address bytes : Nat} :
    (rawOffset f dos nt address bytes).All (Event.Safe f) :=
  translated_all (sectionSearch_all (fun _ => deref_safe) _ _) (rawOffset_answers f dos nt address bytes)

/-! ## `ReportImports` -/

theorem reportLoop_safe {dos : ImageDosHeader} {nt : ImageNtHeaders64} {dir : ImageDataDirectory} :
    ∀ n i, (reportLoop f dos nt dir n i).All (Event.Safe f)
  | 0, _ => Traced.all_pure _
  | n + 1, i => by
    have ih : (reportLoop f dos nt dir n (i + 1)).All (Event.Safe f) := reportLoop_safe n (i + 1)
    rw [reportLoop]
    refine rva_safe.bind (atOffset_safe.bind ?_)
    split
    · exact wprintf_safe
    · split
      · exact Traced.all_pure _
      · refine rva_safe.bind ?_
        split
        · exact wprintf_safe.bind ih
        · rename_i hpos
          refine (findZero_safe (by omega)).bind ?_
          split
          · exact wprintf_safe.bind ih
          · rename_i hz
            exact (readString_safe (by simpa using hz)).bind (wprintf_safe.bind ih)

theorem reportImports_safe (f : MappedFile) : (reportImports f).All (Event.Safe f) := by
  unfold reportImports
  refine atOffset_safe.bind ?_
  split
  · exact wprintf_safe
  · split
    · exact wprintf_safe
    · refine atOffset_safe.bind ?_
      split
      · exact wprintf_safe
      · split
        · exact wprintf_safe
        · refine wprintf_safe.bind ?_
          split
          · exact wprintf_safe
          · split
            · exact Traced.all_pure _
            · dsimp only
              split
              · exact wprintf_safe
              · exact reportLoop_safe _ _

/-! ## `DiagnoseImage` -/

theorem systemError_safe {code : Nat} : (systemError code).All (Event.Safe f) := wprintf_safe

theorem reportMapping_safe (m : ImageMapping) : (reportMapping m).All (Event.Safe f) := by
  cases m with
  | fileFailed error => exact wprintf_safe.bind systemError_safe
  | mappingFailed error => exact wprintf_safe.bind systemError_safe
  | viewFailed error => exact wprintf_safe.bind systemError_safe
  | mapped => exact wprintf_safe

theorem sectionReport_safe {opt : ImageOptionalHeader64} {sectionOffset : Nat} :
    ∀ n i k, (sectionReport f opt sectionOffset n i k).All (Event.Safe f)
  | 0, _, _ => Traced.all_pure _
  | n + 1, i, k => by
    rw [sectionReport]
    refine atOffset_safe.bind ?_
    split
    · exact wprintf_safe.bind (Traced.all_pure _)
    · exact wprintf_safe.bind (sectionReport_safe n (i + 1) _)

theorem directoryReport_safe {opt : ImageOptionalHeader64} {entry : Nat} {format : String} :
    (directoryReport opt entry format).All (Event.Safe f) := by
  unfold directoryReport
  split
  · exact wprintf_safe
  · exact Traced.all_pure _

theorem loadConfigReport_safe {dos : ImageDosHeader} {nt : ImageNtHeaders64} :
    (loadConfigReport f dos nt).All (Event.Safe f) := by
  unfold loadConfigReport
  dsimp only
  split
  · refine wprintf_safe.bind ?_
    split
    · refine rawOffset_safe.bind (atOffset_safe.bind ?_)
      split
      on_goal 2 => refine wprintf_safe.bind ?_
      -- the guard flags, behind either report
      all_goals
        split
        · refine rawOffset_safe.bind (atOffset_safe.bind ?_)
          split
          · exact wprintf_safe
          · exact wprintf_safe
        · exact Traced.all_pure _
    · exact Traced.all_pure _
  · exact Traced.all_pure _

theorem tlsReport_safe {dos : ImageDosHeader} {nt : ImageNtHeaders64} :
    (tlsReport f dos nt).All (Event.Safe f) := by
  unfold tlsReport
  dsimp only
  split
  · refine wprintf_safe.bind ?_
    split
    · refine rawOffset_safe.bind (atOffset_safe.bind ?_)
      split
      · exact wprintf_safe
      · exact wprintf_safe.bind wprintf_safe
    · exact Traced.all_pure _
  · exact Traced.all_pure _

theorem diagnoseImage_safe (f : MappedFile) (mapping : ImageMapping) :
    (diagnoseImage f mapping).All (Event.Safe f) := by
  unfold diagnoseImage
  refine atOffset_safe.bind ?_
  split
  · exact wprintf_safe
  · split
    · exact wprintf_safe
    · refine atOffset_safe.bind ?_
      split
      · exact wprintf_safe
      · split
        · exact wprintf_safe
        · refine wprintf_safe.bind (wprintf_safe.bind (wprintf_safe.bind ?_))
          refine directoryReport_safe.bind (directoryReport_safe.bind
            (directoryReport_safe.bind ?_))
          refine (sectionReport_safe _ _ _).bind (wprintf_safe.bind ?_)
          exact loadConfigReport_safe.bind (tlsReport_safe.bind (reportMapping_safe _))

/-! ## `Visit` -/

theorem visitHeader_safe (f : MappedFile) : (visitHeader f).All (Event.Safe f) :=
  visitHeader_all fun _ _ => deref_safe

theorem readDescriptor_safe (f : MappedFile) (pDos : ImageDosHeader) (pNt : ImageNtHeaders64)
    (aDir : ImageDataDirectory) (u : Nat) : (readDescriptor f pDos pNt aDir u).All (Event.Safe f) := by
  refine readDescriptor_all (fun _ _ => deref_safe) ?_ ?_ ?_ ?_
  · exact fun _ _ _ => toOffset_answers ..
  · exact fun _ => toOffset_answers ..
  · exact fun _ => memchr_safe
  · exact fun _ => cstring_safe

/-- Every event of the log is safe for the file of the call that caused it. -/
def LogSafe (w : World) (s : TreeState) : Prop := ∀ e ∈ s.log, e.2.Safe (w.mapFile e.1)

theorem reportDependencyTree_safe (w : World) (strAppDir strRoot : WString) :
    LogSafe w (reportDependencyTree w strAppDir strRoot) := by
  have hrecorded : Recorded w fun strPath => Event.Safe (w.mapFile strPath) :=
    { printed := fun _ _ _ => trivial
      header := fun _ => visitHeader_safe _
      descriptor := fun _ pDos pNt aDir _ _ u _ => readDescriptor_safe _ pDos pNt aDir u }
  exact hrecorded.reportDependencyTree strRoot

/-- The probe reads inside the mapped file only: for every content of every file, every structure
dereferenced, every answer of an RVA translator and every string used by `ReportImports`,
`DiagnoseImage` and the calls of `Visit` is safe. -/
theorem probe_reads_inside :
    (∀ content : Option (List UInt8),
      (reportImports (.ofFile content)).All (Event.Safe (.ofFile content))) ∧
    (∀ (content : Option (List UInt8)) (mapping : ImageMapping),
      (diagnoseImage (.ofFile content) mapping).All (Event.Safe (.ofFile content))) ∧
    (∀ (w : World) (strAppDir strRoot : WString),
      ∀ e ∈ (reportDependencyTree w strAppDir strRoot).log, e.2.Safe (w.mapFile e.1)) := by
  exact ⟨fun content => reportImports_safe _, fun content mapping => diagnoseImage_safe _ mapping,
    reportDependencyTree_safe⟩

end BuildEngine.Probe
