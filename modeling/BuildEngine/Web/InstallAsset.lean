/-
`install-web-asset.ps1`: it copies an archive, and if two more arguments are given a second file, to relative paths below
the managed root. The file system is a parameter with what its documentation says of the cmdlets that the script calls.
The paths of the files that are created or overwritten are recorded as the script spells them.
-/
import BuildEngine.Base.WindowsPath

namespace BuildEngine.Web

open Base.WindowsPath

abbrev Text := List Char

scoped instance : LawfulBEq Text := inferInstanceAs (LawfulBEq (List Char))

/-- The file system, with states of type `σ`. -/
structure Shell (σ : Type) where
  /-- `[System.IO.Path]::IsPathRooted`, or nothing if it throws -/
  isPathRooted : Text → Option Bool
  /-- `Test-Path -PathType Leaf` -/
  isLeaf : σ → Text → Bool
  /-- `Test-Path -PathType Container` -/
  isContainer : σ → Text → Bool
  /-- `New-Item -ItemType Directory -Force`, which creates no file -/
  newDirectory : σ → Text → Option σ
  /-- The name under which `Copy-Item` puts a file into a directory. -/
  fileName : Text → Text
  /-- `Copy-Item -Force` of a file to the path of a file -/
  copyFile : σ → Text → Text → Option σ
  /-- Paths that begin with a separator or with a drive are rooted. -/
  rooted : ∀ path, (path.head?.any isSeparator ∨ path[1]? = some ':') → isPathRooted path ≠ some false
  /-- A directory that has been created is one with `.` behind its path. -/
  newDirectory_isContainer : ∀ {s s' path tail}, newDirectory s path = some s' →
    (tail.head?.any isSeparator ∨ path.getLast?.any isSeparator) → (∀ c ∈ components tail, c = ['.']) →
    isContainer s' (path ++ tail)
  /-- A file has a name of one component. -/
  fileName_isLeaf : ∀ {s path}, isLeaf s path →
    fileName path ∉ [[], ['.'], ['.', '.']] ∧ ∀ c ∈ fileName path, isSeparator c = false

/-- The state of the file system and the paths of the files created or overwritten so far. -/
structure State (σ : Type) where
  disk : σ
  written : List Text

inductive Failure where
  /-- a check of the arguments -/
  | argument (message : Text)
  /-- an error of a cmdlet, or a target that is not there afterwards -/
  | other (message : Text)
  deriving DecidableEq, Repr

/-! ## The script -/

/-- `[char]::IsWhiteSpace` -/
def isWhiteSpace (c : Char) : Bool :=
  (0x09 ≤ c.toNat && c.toNat ≤ 0x0D) || (0x2000 ≤ c.toNat && c.toNat ≤ 0x200A) ||
    [0x20, 0x85, 0xA0, 0x1680, 0x2028, 0x2029, 0x202F, 0x205F, 0x3000].contains c.toNat

def isNullOrWhiteSpace (text : Text) : Bool := text.all isWhiteSpace

section Script

variable {σ : Type} (shell : Shell σ) (managedRoot : Text)

/-- `Assert-SafeRelativePath` -/
def assertSafeRelativePath (path description : Text) : Except Failure Unit :=
  let invalid : Failure := .argument (description ++ " is invalid: ".toList ++ path)
  if isNullOrWhiteSpace path then .error invalid
  else match shell.isPathRooted path with
    | none => .error (.argument "Illegal characters in path.".toList)
    | some rooted => if rooted ∨ ['.', '.'] <:+: path then .error invalid else .ok ()

/-- Where `Copy-Item` puts a file: in the target, if that is a directory. -/
def destination (disk : σ) (source target : Text) : Text :=
  if shell.isContainer disk target then join target (shell.fileName source) else target

/-- `Copy-Asset` below its checks. -/
def place (source target : Text) (s : State σ) : State σ × Except Failure Unit :=
  match shell.newDirectory s.disk (parent target) with
  | none => (s, .error (.other "New-Item".toList))
  | some disk =>
    let file := destination shell disk source target
    match shell.copyFile disk source file with
    -- a copy that fails may have begun to write
    | none => (⟨disk, s.written ++ [file]⟩, .error (.other "Copy-Item".toList))
    | some disk =>
      if ¬ shell.isLeaf disk target then
        (⟨disk, s.written ++ [file]⟩, .error (.other ("Web asset target was not created: ".toList ++ target)))
      else (⟨disk, s.written ++ [file]⟩, .ok ())

/-- `Copy-Asset` -/
def copyAsset (source relativeTarget : Text) (s : State σ) : State σ × Except Failure Unit :=
  match assertSafeRelativePath shell relativeTarget "Web asset relative path".toList with
  | .error failure => (s, .error failure)
  | .ok () =>
    if ¬ shell.isLeaf s.disk source then
      (s, .error (.argument ("Web asset source does not exist: ".toList ++ source)))
    else place shell source (join managedRoot relativeTarget) s

/-- The script behind the binding of its parameters; the additional ones are empty by default. -/
def installWebAsset (archive relativePath additionalSource additionalRelativePath : Text) (disk : σ) :
    State σ × Except Failure Unit :=
  match copyAsset shell managedRoot archive relativePath ⟨disk, []⟩ with
  | (s, .error failure) => (s, .error failure)
  | (s, .ok ()) =>
    -- the archive is there before these arguments are looked at
    if ¬ isNullOrWhiteSpace additionalSource ∨ ¬ isNullOrWhiteSpace additionalRelativePath then
      if isNullOrWhiteSpace additionalSource ∨ isNullOrWhiteSpace additionalRelativePath then
        (s, .error (.argument "AdditionalSource and AdditionalRelativePath must be supplied together".toList))
      else copyAsset shell managedRoot additionalSource additionalRelativePath s
    else (s, .ok ())

/-! ## One asset -/

variable {shell managedRoot}

/-- A relative path that passes the check. -/
def Safe (shell : Shell σ) (path : Text) : Prop :=
  isNullOrWhiteSpace path = false ∧ shell.isPathRooted path = some false ∧ ¬ ['.', '.'] <:+: path

theorem assertSafeRelativePath_ok {path : Text} (h : Safe shell path) (description : Text) :
    assertSafeRelativePath shell path description = .ok () := by
  obtain ⟨hblank, hrooted, hup⟩ := h
  simp [assertSafeRelativePath, hblank, hrooted, hup]

theorem assertSafeRelativePath_error {path : Text} (h : ¬ Safe shell path) (description : Text) :
    ∃ message, assertSafeRelativePath shell path description = .error (.argument message) := by
  unfold assertSafeRelativePath
  simp only
  split
  · exact ⟨_, rfl⟩
  · rename_i hblank
    split
    · exact ⟨_, rfl⟩
    · rename_i rooted hrooted
      split
      · exact ⟨_, rfl⟩
      · rename_i hnot
        rw [not_or, Bool.not_eq_true] at hnot
        exact absurd ⟨by simpa using hblank, by rw [hrooted, hnot.1], hnot.2⟩ h

theorem Safe.not_up {path : Text} (h : Safe shell path) : ['.', '.'] ∉ components path :=
  fun hmem => h.2.2 (mem_components hmem).2.2

theorem Safe.components_ne_nil {path : Text} (h : Safe shell path) : components path ≠ [] := by
  obtain ⟨hblank, hrooted, -⟩ := h
  cases path with
  | nil => simp [isNullOrWhiteSpace] at hblank
  | cons c path =>
    apply Base.WindowsPath.components_ne_nil
    by_contra hsep
    exact shell.rooted (c :: path) (.inl (by simpa using hsep)) hrooted

/-- What is written for an asset lies below the root. -/
theorem below_destination {source relativeTarget : Text} {disk disk₁ disk₂ : σ} (hsafe : Safe shell relativeTarget)
    (hsource : shell.isLeaf disk source)
    (hdirectory : shell.newDirectory disk₁ (parent (join managedRoot relativeTarget)) = some disk₂) :
    Below managedRoot (destination shell disk₂ source (join managedRoot relativeTarget)) := by
  obtain ⟨hname, hword⟩ := shell.fileName_isLeaf hsource
  simp only [List.mem_cons, List.not_mem_nil, or_false, not_or] at hname
  have htarget := components_join managedRoot relativeTarget
  rw [destination]
  split
  · -- the name of the source goes down
    have hfile : components (join (join managedRoot relativeTarget) (shell.fileName source)) =
        components managedRoot ++ (components relativeTarget ++ [shell.fileName source]) := by
      rw [components_join, htarget, components_word hname.1 hword, List.append_assoc]
    refine below_of_components hfile ?_ ⟨shell.fileName source, by simp, hname.2.1⟩
    rw [List.mem_append, List.mem_singleton]
    exact fun h => h.elim hsafe.not_up fun h => hname.2.2 h.symm
  · rename_i hcontainer
    refine below_of_components htarget hsafe.not_up ?_
    by_contra hdots
    have hall : ∀ c ∈ components relativeTarget, c = ['.'] := by
      intro c hc
      by_contra hne
      exact hdots ⟨c, hc, hne⟩
    -- otherwise the target is the directory that has been created
    obtain ⟨front, sep, hsep, -, hjoin⟩ := join_eq managedRoot relativeTarget
    have hrest := components_dropWhile relativeTarget
    obtain ⟨tail, hpath, hseam, word, htail, hlast⟩ :=
      parent_append front hsep (hrest ▸ hsafe.components_ne_nil)
    rw [hjoin] at hdirectory hcontainer
    rw [hpath] at hcontainer
    refine hcontainer (shell.newDirectory_isContainer hdirectory hseam ?_)
    rw [htail]
    intro c hc
    rw [List.mem_singleton.1 hc]
    rw [hrest] at hlast
    exact hall word (List.mem_of_getLast? hlast)

/-- The target can be created, which leaves `disk'`. -/
def Placed (shell : Shell σ) (source target : Text) (disk disk' : σ) : Prop :=
  ∃ disk₁, shell.newDirectory disk (parent target) = some disk₁ ∧
    shell.copyFile disk₁ source (destination shell disk₁ source target) = some disk' ∧ shell.isLeaf disk' target

variable (shell) in
/-- Everything that `Copy-Asset` can do below its checks: it fails, or it has written. -/
theorem place_cases (source target : Text) (s : State σ) :
    ∃ disk written, (∀ file ∈ written, ∃ disk₁, shell.newDirectory s.disk (parent target) = some disk₁ ∧
        file = destination shell disk₁ source target) ∧
      ((∃ message, place shell source target s = (⟨disk, s.written ++ written⟩, .error (.other message))) ∧
          (∀ disk', ¬ Placed shell source target s.disk disk') ∨
        place shell source target s = (⟨disk, s.written ++ written⟩, .ok ()) ∧ written ≠ [] ∧
          ∀ disk', Placed shell source target s.disk disk' ↔ disk' = disk) := by
  cases hdirectory : shell.newDirectory s.disk (parent target) with
  | none =>
    refine ⟨s.disk, [], fun file hfile => absurd hfile List.not_mem_nil, .inl ⟨⟨"New-Item".toList, ?_⟩, ?_⟩⟩
    · simp only [place, hdirectory, List.append_nil]
    · rintro disk' ⟨disk₁, h, -⟩
      rw [hdirectory] at h
      cases h
  | some disk₁ =>
    have hwritten : ∀ file ∈ [destination shell disk₁ source target], ∃ disk₂, some disk₁ = some disk₂ ∧
        file = destination shell disk₂ source target := by
      intro file hfile
      exact ⟨disk₁, rfl, List.mem_singleton.1 hfile⟩
    have hplaced : ∀ disk', Placed shell source target s.disk disk' ↔
        shell.copyFile disk₁ source (destination shell disk₁ source target) = some disk' ∧
          shell.isLeaf disk' target := by
      intro disk'
      simp only [Placed, hdirectory, Option.some.injEq, exists_eq_left']
    cases hcopy : shell.copyFile disk₁ source (destination shell disk₁ source target) with
    | none =>
      refine ⟨disk₁, _, hwritten, .inl ⟨⟨"Copy-Item".toList, by simp only [place, hdirectory, hcopy]⟩, ?_⟩⟩
      intro disk' h
      rw [hplaced, hcopy] at h
      cases h.1
    | some disk₂ =>
      refine ⟨disk₂, _, hwritten, ?_⟩
      by_cases hleaf : shell.isLeaf disk₂ target
      · refine .inr ⟨by simp only [place, hdirectory, hcopy, hleaf, not_true, if_false], List.cons_ne_nil _ _, ?_⟩
        intro disk'
        rw [hplaced, hcopy, Option.some.injEq]
        constructor
        · exact fun h => h.1.symm
        · rintro rfl
          exact ⟨rfl, hleaf⟩
      · refine .inl ⟨⟨"Web asset target was not created: ".toList ++ target, ?_⟩, ?_⟩
        · simp only [place, hdirectory, hcopy, if_pos hleaf]
        · intro disk' h
          rw [hplaced, hcopy, Option.some.injEq] at h
          exact hleaf (h.1 ▸ h.2)

/-- The checks of `Copy-Asset`. -/
def Checked (shell : Shell σ) (source relativeTarget : Text) (disk : σ) : Prop :=
  Safe shell relativeTarget ∧ shell.isLeaf disk source

variable (managedRoot) in
theorem copyAsset_checked {source relativeTarget : Text} {s : State σ} (h : Checked shell source relativeTarget s.disk) :
    copyAsset shell managedRoot source relativeTarget s = place shell source (join managedRoot relativeTarget) s := by
  have hassert := assertSafeRelativePath_ok h.1
  simp only [copyAsset, hassert, h.2, not_true, if_false]

variable (managedRoot) in
/-- A check that fails leaves everything as it is. -/
theorem copyAsset_unchecked {source relativeTarget : Text} {s : State σ}
    (h : ¬ Checked shell source relativeTarget s.disk) :
    ∃ message, copyAsset shell managedRoot source relativeTarget s = (s, .error (.argument message)) := by
  by_cases hsafe : Safe shell relativeTarget
  · have hassert := assertSafeRelativePath_ok hsafe
    have hsource : ¬ shell.isLeaf s.disk source := fun hsource => h ⟨hsafe, hsource⟩
    exact ⟨"Web asset source does not exist: ".toList ++ source, by simp only [copyAsset, hassert, if_pos hsource]⟩
  · obtain ⟨message, hassert⟩ := assertSafeRelativePath_error hsafe "Web asset relative path".toList
    refine ⟨message, ?_⟩
    rw [copyAsset, hassert]

variable (shell managedRoot) in
/-- What an asset adds to the files that are written lies below the root. -/
theorem copyAsset_below (source relativeTarget : Text) (s : State σ) :
    ∃ written, (copyAsset shell managedRoot source relativeTarget s).1.written = s.written ++ written ∧
      ∀ file ∈ written, Below managedRoot file := by
  by_cases h : Checked shell source relativeTarget s.disk
  · rw [copyAsset_checked _ h]
    obtain ⟨disk, written, hwritten, ⟨⟨message, hplace⟩, -⟩ | ⟨hplace, -⟩⟩ :=
      place_cases shell source (join managedRoot relativeTarget) s
    all_goals
      refine ⟨written, by rw [hplace], fun file hfile => ?_⟩
      obtain ⟨disk₁, hdirectory, rfl⟩ := hwritten file hfile
      exact below_destination h.1 h.2 hdirectory
  · obtain ⟨message, hcopy⟩ := copyAsset_unchecked managedRoot h
    exact ⟨[], by rw [hcopy, List.append_nil], fun file hfile => absurd hfile List.not_mem_nil⟩

/-! ## The whole script -/

/-- The files that are written lie below the root, and none is if the script stops at a check of its arguments. -/
structure Installs (shell : Shell σ) (managedRoot archive relativePath additionalSource additionalRelativePath : Text)
    (disk : σ) : Prop where
  below : ∀ file ∈ (installWebAsset shell managedRoot archive relativePath additionalSource additionalRelativePath
    disk).1.written, Below managedRoot file
  unchanged : ∀ message, (installWebAsset shell managedRoot archive relativePath additionalSource
    additionalRelativePath disk).2 = .error (.argument message) →
    (installWebAsset shell managedRoot archive relativePath additionalSource additionalRelativePath disk).1.written = []

/-- Both additional arguments are missing, or both are given and pass the checks. -/
def AdditionalFits (shell : Shell σ) (additionalSource additionalRelativePath : Text) (disk : σ) : Prop :=
  (isNullOrWhiteSpace additionalSource ∧ isNullOrWhiteSpace additionalRelativePath) ∨
    (isNullOrWhiteSpace additionalSource = false ∧ Checked shell additionalSource additionalRelativePath disk)

variable {archive relativePath additionalSource additionalRelativePath : Text} {disk : σ}

theorem installWebAsset_below : ∀ file ∈ (installWebAsset shell managedRoot archive relativePath additionalSource
    additionalRelativePath disk).1.written, Below managedRoot file := by
  obtain ⟨written, hwritten, hbelow⟩ := copyAsset_below shell managedRoot archive relativePath
    ⟨disk, []⟩
  rw [installWebAsset]
  rcases hcopy : copyAsset shell managedRoot archive relativePath ⟨disk, []⟩ with ⟨s, failure | ⟨⟩⟩
  · rw [hcopy] at hwritten
    rwa [hwritten]
  · rw [hcopy, List.nil_append] at hwritten
    obtain ⟨written', hwritten', hbelow'⟩ := copyAsset_below shell managedRoot additionalSource
      additionalRelativePath s
    simp only
    split
    · split
      · rwa [hwritten]
      · rw [hwritten', hwritten]
        intro file hfile
        exact (List.mem_append.1 hfile).elim (hbelow file) (hbelow' file)
    · rwa [hwritten]

variable (additionalSource additionalRelativePath) in
/-- Behind the copy of the archive, what has been written stays written. -/
theorem installWebAsset_written {s : State σ}
    (hcopy : copyAsset shell managedRoot archive relativePath ⟨disk, []⟩ = (s, .ok ())) :
    s.written <+: (installWebAsset shell managedRoot archive relativePath additionalSource additionalRelativePath
      disk).1.written := by
  obtain ⟨written, hwritten, -⟩ := copyAsset_below shell managedRoot additionalSource
    additionalRelativePath s
  simp only [installWebAsset, hcopy]
  split
  · split
    · exact List.prefix_refl _
    · rw [hwritten]
      exact List.prefix_append _ _
  · exact List.prefix_refl _

variable (additionalSource additionalRelativePath) in
/-- Behind the copy of the archive, the script stops at a check if and only if the additional arguments do not fit. -/
theorem installWebAsset_copied {s : State σ}
    (hcopy : copyAsset shell managedRoot archive relativePath ⟨disk, []⟩ = (s, .ok ())) :
    (∃ message, (installWebAsset shell managedRoot archive relativePath additionalSource additionalRelativePath disk).2 =
      .error (.argument message)) ↔ ¬ AdditionalFits shell additionalSource additionalRelativePath s.disk := by
  simp only [installWebAsset, hcopy]
  cases hsource : isNullOrWhiteSpace additionalSource with
  | true =>
    cases hpath : isNullOrWhiteSpace additionalRelativePath with
    | true => simp [AdditionalFits, hsource, hpath]
    | false => simp [AdditionalFits, hsource, hpath]
  | false =>
    cases hpath : isNullOrWhiteSpace additionalRelativePath with
    | true => simp [AdditionalFits, Checked, Safe, hsource, hpath]
    | false =>
      have hfits : AdditionalFits shell additionalSource additionalRelativePath s.disk ↔
          Checked shell additionalSource additionalRelativePath s.disk := by
        simp [AdditionalFits, hsource]
      rw [hfits]
      simp only [Bool.false_eq_true, not_false_eq_true, or_self, if_true, if_false]
      by_cases h : Checked shell additionalSource additionalRelativePath s.disk
      · rw [copyAsset_checked _ h]
        obtain ⟨disk₁, written, -, ⟨⟨message, hplace⟩, -⟩ | ⟨hplace, -⟩⟩ :=
          place_cases shell additionalSource (join managedRoot additionalRelativePath) s
        · simp [hplace, h]
        · simp [hplace, h]
      · obtain ⟨message, hunchecked⟩ := copyAsset_unchecked managedRoot h
        simp [hunchecked, h]

/-- All files that the script writes lie below the root; and it writes none before it stops at a check of its arguments if
and only if, where the archive can be copied, the additional arguments fit afterwards. -/
theorem installs_iff : Installs shell managedRoot archive relativePath additionalSource additionalRelativePath disk ↔
    ∀ disk', Checked shell archive relativePath disk → Placed shell archive (join managedRoot relativePath) disk disk' →
      AdditionalFits shell additionalSource additionalRelativePath disk' := by
  by_cases hchecked : Checked shell archive relativePath disk
  · have hcopy := copyAsset_checked managedRoot (s := ⟨disk, []⟩) hchecked
    obtain ⟨disk₁, written, -, ⟨⟨message, hplace⟩, hplaced⟩ | ⟨hplace, hwritten, hplaced⟩⟩ :=
      place_cases shell archive (join managedRoot relativePath) ⟨disk, []⟩
    · rw [hplace] at hcopy
      refine iff_of_true ⟨installWebAsset_below, fun message' h => ?_⟩ fun disk' _ h => absurd h (hplaced disk')
      simp [installWebAsset, hcopy] at h
    · rw [hplace, List.nil_append] at hcopy
      have hstops := installWebAsset_copied additionalSource additionalRelativePath hcopy
      constructor
      · intro hinstalls disk' _ hdisk
        obtain rfl := (hplaced disk').1 hdisk
        by_contra hfits
        obtain ⟨message, hmessage⟩ := hstops.2 hfits
        have hstart := installWebAsset_written additionalSource additionalRelativePath hcopy
        rw [hinstalls.unchanged message hmessage, List.prefix_nil] at hstart
        exact hwritten hstart
      · intro hfits
        refine ⟨installWebAsset_below, fun message hmessage => ?_⟩
        exact absurd (hfits disk₁ hchecked ((hplaced disk₁).2 rfl)) (hstops.1 ⟨message, hmessage⟩)
  · obtain ⟨message, hcopy⟩ := copyAsset_unchecked managedRoot (s := ⟨disk, []⟩) hchecked
    refine iff_of_true ⟨installWebAsset_below, fun _ _ => ?_⟩ fun _ h => absurd h hchecked
    simp [installWebAsset, hcopy]

end Script

/-! ## A file system in memory -/

/-- The places that hold a directory and those that hold a file. -/
structure Disk where
  directories : List (List Text)
  files : List (List Text)

def location (path : Text) : List Text := resolve [] (components path)

def fileName (path : Text) : Text := (components path).getLast?.getD []

def memory : Shell Disk where
  isPathRooted path := some (path.head?.any isSeparator || path[1]? == some ':')
  isLeaf disk path := disk.files.contains (location path) && fileName path ∉ [[], ['.'], ['.', '.']]
  isContainer disk path := disk.directories.contains (location path)
  newDirectory disk path :=
    if disk.files.contains (location path) then none
    else some { disk with directories := (location path).inits ++ disk.directories }
  fileName := fileName
  copyFile disk source target :=
    if disk.directories.contains (location target) then none
    else if disk.files.contains (location source) then some { disk with files := location target :: disk.files }
    else none
  rooted path h hrooted := by
    rw [Option.some.injEq, Bool.or_eq_false_iff, beq_eq_false_iff_ne] at hrooted
    rcases h with h | h
    · rw [hrooted.1] at h
      cases h
    · exact hrooted.2 h
  newDirectory_isContainer {s s' path tail} h hseam hdots := by
    have hplace : location (path ++ tail) = location path := by
      rw [location, components_seam hseam, resolve_append, resolve_dots hdots, location]
    split at h
    · cases h
    · cases h
      rw [hplace]
      simp
  fileName_isLeaf {s path} h := by
    rw [Bool.and_eq_true, decide_eq_true_eq] at h
    refine ⟨h.2, ?_⟩
    rw [fileName]
    cases hlast : (components path).getLast? with
    | none => simp
    | some name => exact (mem_components (List.mem_of_getLast? hlast)).2.1

/-- Only one of the two additional arguments is given. -/
theorem archive_copied_first : ¬ Installs memory "C:\\managed".toList "C:\\downloads\\bundle.js".toList "vendor/bundle.js".toList
    "C:\\downloads\\style.css".toList [] ⟨[], [["C:".toList, "downloads".toList, "bundle.js".toList]]⟩ := by
  intro h
  have hstop := h.unchanged "AdditionalSource and AdditionalRelativePath must be supplied together".toList
    (by repeat rw [String.toList_ofList]; decide)
  revert hstop
  repeat rw [String.toList_ofList]
  decide

end BuildEngine.Web
