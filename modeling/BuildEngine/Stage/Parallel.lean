/-
Staging runs side by side on one output directory. When the runs agree on the content of every eligible DLL
and none excludes what another stages, they do not get in each other's way: whatever the interleaving, a run
that succeeds finds its DLLs there, and a run fails only where it has touched a file that another one was
writing. When that does not happen, the runs come to their ends, all succeed and leave what they leave one
after the other.
-/
import BuildEngine.Stage.History
import BuildEngine.Stage.Process

namespace BuildEngine.Stage

open Base Interleave Relation

section Spec

variable (F : CaseFold) {P : Type} (invocation : P → Invocation)

/-- Some run stages this content under this folded name. -/
def Wanted (key : Text) (bytes : List UInt8) : Prop :=
  ∃ p c, Eligible F (invocation p) c ∧ F.name c.file.name = key ∧ c.file.bytes = bytes

/-- The declarations of all runs are accepted, their DLLs are valid and agree with each other and with the
output directory, and no run excludes what another stages. -/
structure Compatible (output : Folder F) : Prop where
  accepted : ∀ p, Accepted F (invocation p)
  pe : ∀ p c, Eligible F (invocation p) c → peCheck c.theFile c.file.bytes = none
  agree : ∀ p q c d, Eligible F (invocation p) c → Eligible F (invocation q) d →
    F.name c.file.name = F.name d.file.name → c.file.bytes = d.file.bytes
  excluded : ∀ p q c, Eligible F (invocation p) c → ¬ Excluded F (invocation q) c.file.name
  output : ∀ p c, Eligible F (invocation p) c → ∀ f ∈ output.files, F.name f.name = F.name c.file.name →
    f.bytes = c.file.bytes

/-- Only staged names are being written, and a staged name that is there has its content or is being
written. -/
structure Sound (d : OpenFolder F P) : Prop where
  writing : ∀ key, d.BeingWritten key → (∃ bytes, Wanted F invocation key bytes) ∧ d.folder.lookup key ≠ none
  content : ∀ key bytes v, Wanted F invocation key bytes → d.folder.lookup key = some v →
    v = bytes ∨ d.BeingWritten key

/-- What an action of one run does to the others. -/
structure Keeps (p : P) (d d' : OpenFolder F P) : Prop where
  sound : Sound F invocation d → Sound F invocation d'
  handle : ∀ q, q ≠ p → d'.handle q = d.handle q
  wanted : ∀ key bytes, Wanted F invocation key bytes → d.folder.lookup key ≠ none → d'.folder.lookup key ≠ none
  kept : ∀ f ∈ d.folder.files, (∀ q, ¬ Excluded F (invocation q) f.name) →
    (∀ bytes, ¬ Wanted F invocation (F.name f.name) bytes) → f ∈ d'.folder.files
  only : ∀ f ∈ d'.folder.files, f ∈ d.folder.files ∨ ∃ bytes, Wanted F invocation (F.name f.name) bytes

/-- What the other runs do. -/
def Others (p : P) (d d' : OpenFolder F P) : Prop := ∃ q, q ≠ p ∧ Keeps F invocation q d d'

/-- Where a run is: the name it has open, the DLLs it has still to stage, and its variables. -/
structure Standing (p : P) (handle : Option Text) (rest : List Source) (s : Report) (d : OpenFolder F P) : Prop where
  sound : Sound F invocation d
  handle : d.handle p = handle
  purged : ∀ f ∈ d.folder.files, ¬ Excluded F (invocation p) f.name
  remembered : ∀ x ∈ s.vecStaged, x.1 = toLower x.2.file.name ∧ Eligible F (invocation p) x.2 ∧
    d.folder.lookup (F.name x.2.file.name) ≠ none
  staged : ∀ c, Eligible F (invocation p) c → c ∈ rest ∨ d.folder.lookup (F.name c.file.name) ≠ none

/-- Where a run is in its purge: the excluded files that are left have one of the names. -/
structure Purging (p : P) (names : List Text) (s : Report) (d : OpenFolder F P) : Prop where
  sound : Sound F invocation d
  handle : d.handle p = none
  left : ∀ f ∈ d.folder.files, Excluded F (invocation p) f.name → ∃ n ∈ names, F.name f.name = F.name n
  fresh : s.vecStaged = []

/-- A piece of a run ends with a condition, or it has touched a file that was being written. -/
def Ends (p : P) (overlap : Prop) (post : Report → OpenFolder F P → Prop) : Ending → OpenFolder F P → Prop
  | .done s, d => post s d
  | .fatal _ _, d => overlap ∧ d.handle p = none
  | .fault _, d => overlap ∧ d.handle p = none

end Spec

section

variable {F : CaseFold} {P : Type} {invocation : P → Invocation} {output : Folder F}

/-! ## What the actions keep -/

theorem Keeps.refl (p : P) (d : OpenFolder F P) : Keeps F invocation p d d :=
  ⟨id, fun _ _ => rfl, fun _ _ _ => id, fun _ hf _ _ => hf, fun _ hf => .inl hf⟩

theorem Compatible.not_excluded (h : Compatible F invocation output) {name : Text} {bytes : List UInt8} (q : P)
    (hw : Wanted F invocation (F.name name) bytes) : ¬ Excluded F (invocation q) name := by
  obtain ⟨p, c, hc, hname, -⟩ := hw
  exact fun hex => h.excluded p q c hc (hex.congr hname.symm)

theorem Compatible.unique (h : Compatible F invocation output) {key : Text} {a b : List UInt8}
    (ha : Wanted F invocation key a) (hb : Wanted F invocation key b) : a = b := by
  obtain ⟨p, c, hc, hcname, rfl⟩ := ha
  obtain ⟨q, d, hd, hdname, rfl⟩ := hb
  exact h.agree p q c d hc hd (hcname.trans hdname.symm)

theorem Sound.quiet (h : Compatible F invocation output) : Sound F invocation (OpenFolder.quiet output) := by
  refine ⟨fun key hw => absurd hw (OpenFolder.not_beingWritten_quiet _ _), fun key bytes v hw hl => .inl ?_⟩
  obtain ⟨p, c, hc, rfl, rfl⟩ := hw
  obtain ⟨f, hf, hname, rfl⟩ := Folder.lookup_eq_some.1 hl
  exact h.output p c hc f hf hname

/-- Removing an excluded file. -/
theorem keeps_remove (h : Compatible F invocation output) {p : P} {name : Text} (hex : Excluded F (invocation p) name)
    (d : OpenFolder F P) : Keeps F invocation p d { d with folder := d.folder.remove name } := by
  have hne : ∀ key bytes, Wanted F invocation key bytes → F.name name ≠ key := by
    intro key bytes hw heq
    subst heq
    exact h.not_excluded p hw hex
  have hlookup : ∀ key bytes, Wanted F invocation key bytes →
      (d.folder.remove name).lookup key = d.folder.lookup key := by
    intro key bytes hw
    rw [Folder.lookup_remove, if_neg (hne key bytes hw)]
  refine ⟨fun hs => ⟨fun key hw => ?_, fun key bytes v hw hl => ?_⟩, fun _ _ => rfl, fun key bytes hw hl => ?_,
    fun f hf hfex _ => ?_, fun f hf => .inl (List.mem_filter.1 hf).1⟩
  · obtain ⟨⟨bytes, hwant⟩, hl⟩ := hs.writing key hw
    refine ⟨⟨bytes, hwant⟩, ?_⟩
    dsimp only
    rw [hlookup key bytes hwant]
    exact hl
  · dsimp only at hl
    rw [hlookup key bytes hw] at hl
    exact hs.content key bytes v hw hl
  · dsimp only
    rw [hlookup key bytes hw]
    exact hl
  · refine List.mem_filter.2 ⟨hf, ?_⟩
    have : F.name f.name ≠ F.name name := fun heq => hfex p (hex.congr heq.symm)
    simpa using this

theorem mem_write_of_ne {d : Folder F} {file f : File} (hf : f ∈ d.files) (hne : F.name f.name ≠ F.name file.name) :
    f ∈ (d.write file).files := by
  unfold Folder.write
  dsimp only
  split
  · exact List.mem_append_left _ hf
  · exact List.mem_map.2 ⟨f, hf, if_neg hne⟩

/-- A write to a staged name keeps what the others rely on as far as it keeps the directory sound. -/
theorem keeps_write {p : P} {file : File} {bytes : List UInt8} (hwant : Wanted F invocation (F.name file.name) bytes)
    {d d' : OpenFolder F P} (hfolder : d'.folder = d.folder.write file)
    (hsound : Sound F invocation d → Sound F invocation d') (hhandle : ∀ q, q ≠ p → d'.handle q = d.handle q) :
    Keeps F invocation p d d' := by
  refine ⟨hsound, hhandle, fun key _ _ hl => ?_, fun f hf _ hfw => ?_, fun f hf => ?_⟩
  · rw [hfolder, Folder.lookup_write]
    split
    · exact Option.some_ne_none _
    · exact hl
  · rw [hfolder]
    exact mem_write_of_ne hf fun heq => hfw bytes (heq ▸ hwant)
  · rw [hfolder] at hf
    rcases Folder.mem_write hf with ⟨hf, -⟩ | ⟨hname, -⟩
    · exact .inl hf
    · exact .inr ⟨bytes, hname ▸ hwant⟩

/-- Opening a DLL for writing, whatever is in it at first. -/
theorem keeps_create [DecidableEq P] {p : P} {c : Source} (hc : Eligible F (invocation p) c) {d : OpenFolder F P}
    (hhandle : d.handle p = none) (torn : List UInt8) :
    Keeps F invocation p d
      ⟨d.folder.write ⟨c.file.name, torn⟩, Function.update d.handle p (some (F.name c.file.name))⟩ := by
  have hwant : Wanted F invocation (F.name (⟨c.file.name, torn⟩ : File).name) c.file.bytes := ⟨p, c, hc, rfl, rfl⟩
  refine keeps_write hwant rfl (fun hs => ⟨fun key hw => ?_, fun key bytes v hw hl => ?_⟩)
    fun q hq => Function.update_of_ne hq _ _
  · dsimp only
    rw [Folder.lookup_write]
    by_cases hkey : F.name c.file.name = key
    · subst hkey
      rw [if_pos rfl]
      exact ⟨⟨_, hwant⟩, Option.some_ne_none _⟩
    · rw [if_neg hkey]
      obtain ⟨q, hq⟩ := hw
      dsimp only at hq
      by_cases hqp : q = p
      · subst hqp
        rw [Function.update_self] at hq
        exact absurd (Option.some.inj hq) hkey
      · rw [Function.update_of_ne hqp] at hq
        exact hs.writing key ⟨q, hq⟩
  · dsimp only at hl
    rw [Folder.lookup_write] at hl
    by_cases hkey : F.name c.file.name = key
    · subst hkey
      exact .inr ⟨p, Function.update_self ..⟩
    · rw [if_neg hkey] at hl
      rcases hs.content key bytes v hw hl with hv | ⟨q, hq⟩
      · exact .inl hv
      · have hqp : q ≠ p := fun heq => by rw [heq, hhandle] at hq; cases hq
        exact .inr ⟨q, (Function.update_of_ne hqp _ _).trans hq⟩

/-- Writing it. -/
theorem keeps_fill [DecidableEq P] (h : Compatible F invocation output) {p : P} {c : Source}
    (hc : Eligible F (invocation p) c) {d : OpenFolder F P} (hhandle : d.handle p = some (F.name c.file.name)) :
    Keeps F invocation p d ⟨d.folder.write c.file, Function.update d.handle p none⟩ := by
  have hwant : Wanted F invocation (F.name c.file.name) c.file.bytes := ⟨p, c, hc, rfl, rfl⟩
  have hold : ∀ key, (⟨d.folder.write c.file, Function.update d.handle p none⟩ : OpenFolder F P).BeingWritten key →
      d.BeingWritten key := by
    rintro key ⟨q, hq⟩
    dsimp only at hq
    by_cases hqp : q = p
    · subst hqp
      rw [Function.update_self] at hq
      cases hq
    · rw [Function.update_of_ne hqp] at hq
      exact ⟨q, hq⟩
  refine keeps_write hwant rfl (fun hs => ⟨fun key hw => ?_, fun key bytes v hw hl => ?_⟩)
    fun q hq => Function.update_of_ne hq _ _
  · obtain ⟨hkw, hl⟩ := hs.writing key (hold key hw)
    refine ⟨hkw, ?_⟩
    dsimp only
    rw [Folder.lookup_write]
    split
    · exact Option.some_ne_none _
    · exact hl
  · dsimp only at hl
    rw [Folder.lookup_write] at hl
    by_cases hkey : F.name c.file.name = key
    · subst hkey
      rw [if_pos rfl] at hl
      exact .inl ((Option.some.inj hl).symm.trans (h.unique hwant hw))
    · rw [if_neg hkey] at hl
      rcases hs.content key bytes v hw hl with hv | ⟨q, hq⟩
      · exact .inl hv
      · have hqp : q ≠ p := fun heq => by
          rw [heq, hhandle] at hq
          exact hkey (Option.some.inj hq)
        exact .inr ⟨q, (Function.update_of_ne hqp _ _).trans hq⟩

/-! ## What the others keep -/

/-- An action of any run leaves a run where it is, up to the file it has open. -/
theorem Standing.after (h : Compatible F invocation output) {p q : P} {handle handle' : Option Text}
    {rest : List Source} {s : Report} {d d' : OpenFolder F P} (hd : Standing F invocation p handle rest s d)
    (hk : Keeps F invocation q d d') (hhandle : d'.handle p = handle') :
    Standing F invocation p handle' rest s d' := by
  refine ⟨hk.sound hd.sound, hhandle, fun f hf => ?_, fun x hx => ?_, fun c hc => ?_⟩
  · rcases hk.only f hf with hf | ⟨bytes, hw⟩
    · exact hd.purged f hf
    · exact h.not_excluded p hw
  · obtain ⟨hkey, hel, hl⟩ := hd.remembered x hx
    exact ⟨hkey, hel, hk.wanted _ x.2.file.bytes ⟨p, x.2, hel, rfl, rfl⟩ hl⟩
  · rcases hd.staged c hc with hc' | hl
    · exact .inl hc'
    · exact .inr (hk.wanted _ c.file.bytes ⟨p, c, hc, rfl, rfl⟩ hl)

theorem stable_standing (h : Compatible F invocation output) (p : P) (handle : Option Text) (rest : List Source)
    (s : Report) : Stable (Others F invocation p) (Standing F invocation p handle rest s) := by
  rintro d d' ⟨q, hq, hk⟩ hd
  exact hd.after h hk ((hk.handle p (Ne.symm hq)).trans hd.handle)

theorem stable_purging (h : Compatible F invocation output) (p : P) (names : List Text) (s : Report) :
    Stable (Others F invocation p) (Purging F invocation p names s) := by
  rintro d d' ⟨q, hq, hk⟩ hd
  refine ⟨hk.sound hd.sound, (hk.handle p (Ne.symm hq)).trans hd.handle, fun f hf hex => ?_, hd.fresh⟩
  rcases hk.only f hf with hf | ⟨bytes, hw⟩
  · exact hd.left f hf hex
  · exact absurd hex (h.not_excluded p hw)

/-- An excluded file does not come back. -/
theorem stable_gone (h : Compatible F invocation output) {p : P} {name : Text} (hex : Excluded F (invocation p) name) :
    Stable (Others F invocation p) fun d : OpenFolder F P => d.folder.find name = none := by
  rintro d d' ⟨q, -, hk⟩ hd
  rw [Folder.find_eq_none] at hd ⊢
  intro f hf heq
  rcases hk.only f hf with hf | ⟨bytes, hw⟩
  · exact hd f hf heq
  · exact h.not_excluded p hw (hex.congr heq.symm)

theorem stable_there {p : P} {c : Source} (hc : Eligible F (invocation p) c) :
    Stable (Others F invocation p) fun d : OpenFolder F P => d.folder.lookup (F.name c.file.name) ≠ none := by
  rintro d d' ⟨q, -, hk⟩ hl
  exact hk.wanted _ c.file.bytes ⟨p, c, hc, rfl, rfl⟩ hl

theorem stable_ends {p : P} {overlap : Prop} {post : Report → OpenFolder F P → Prop}
    (h : ∀ s, Stable (Others F invocation p) (post s)) (e : Ending) :
    Stable (Others F invocation p) (Ends F p overlap post e) := by
  rintro d d' ⟨q, hq, hk⟩ he
  cases e with
  | done s => exact h s d d' ⟨q, hq, hk⟩ he
  | fatal message s => exact ⟨he.1, (hk.handle p (Ne.symm hq)).trans he.2⟩
  | fault s => exact ⟨he.1, (hk.handle p (Ne.symm hq)).trans he.2⟩

theorem standing_of_purged {p : P} {d : OpenFolder F P} {s : Report} (hsound : Sound F invocation d)
    (hhandle : d.handle p = none) (hpurged : ∀ f ∈ d.folder.files, ¬ Excluded F (invocation p) f.name)
    (hfresh : s.vecStaged = []) :
    Standing F invocation p none (candidates F (invocation p)) s d := by
  refine ⟨hsound, hhandle, hpurged, fun x hx => ?_, fun c hc => .inl (mem_candidates.2 hc.1)⟩
  rw [hfresh] at hx
  cases hx

/-- The DLL that has just been dealt with is there, or it is not to be staged. -/
theorem Standing.step {p : P} {c : Source} {rest : List Source} {s s' : Report} {d : OpenFolder F P}
    {handle : Option Text} (hd : Standing F invocation p handle (c :: rest) s d)
    (hc : Eligible F (invocation p) c → d.folder.lookup (F.name c.file.name) ≠ none)
    (hvec : ∀ x ∈ s'.vecStaged, x ∈ s.vecStaged ∨ x = (toLower c.file.name, c) ∧ Eligible F (invocation p) c) :
    Standing F invocation p handle rest s' d := by
  refine ⟨hd.sound, hd.handle, hd.purged, fun x hx => ?_, fun c' hc' => ?_⟩
  · rcases hvec x hx with hx | ⟨rfl, hel⟩
    · exact hd.remembered x hx
    · exact ⟨rfl, hel, hc hel⟩
  · rcases hd.staged c' hc' with hmem | hl
    · rcases List.mem_cons.1 hmem with rfl | hmem
      · exact .inr (hc hc')
      · exact .inl hmem
    · exact .inr hl

/-! ## The pieces of a run -/

variable [DecidableEq P] {overlap : Prop} {p : P}

variable (F invocation overlap p) in
/-- A condition on a piece of a run. -/
def Meets (pre : OpenFolder F P → Prop) (piece : Process) (post : Report → OpenFolder F P → Prop) : Prop :=
  Triple (does overlap p) (Others F invocation p) (Keeps F invocation p) pre piece (Ends F p overlap post)

theorem Meets.andThen {pre : OpenFolder F P → Prop} {mid post : Report → OpenFolder F P → Prop} {piece : Process}
    {k : Report → Process} (hpost : ∀ s, Stable (Others F invocation p) (post s))
    (h : Meets F invocation overlap p pre piece mid) (hk : ∀ s, Meets F invocation overlap p (mid s) (k s) post) :
    Meets F invocation overlap p pre (piece.andThen k) post := by
  refine Triple.bind h fun e => ?_
  cases e with
  | done s => exact hk s
  | fatal message s => exact Triple.ret (stable_ends hpost (.fatal message s)) fun d hd => hd
  | fault s => exact Triple.ret (stable_ends hpost (.fault s)) fun d hd => hd

theorem Meets.done {pre : OpenFolder F P → Prop} {post : Report → OpenFolder F P → Prop} {s : Report}
    (hpost : ∀ s, Stable (Others F invocation p) (post s)) (h : ∀ d, pre d → post s d) :
    Meets F invocation overlap p pre (Process.done s) post :=
  Triple.ret (stable_ends hpost (.done s)) h

theorem Meets.fatal {pre : OpenFolder F P → Prop} {post : Report → OpenFolder F P → Prop} {message : Text} {s : Report}
    (hpost : ∀ s, Stable (Others F invocation p) (post s)) (h : ∀ d, pre d → overlap ∧ d.handle p = none) :
    Meets F invocation overlap p pre (Process.fatal message s) post :=
  Triple.ret (stable_ends hpost (.fatal message s)) h

theorem Meets.fault {pre : OpenFolder F P → Prop} {post : Report → OpenFolder F P → Prop} {s : Report}
    (hpost : ∀ s, Stable (Others F invocation p) (post s)) (h : ∀ d, pre d → overlap ∧ d.handle p = none) :
    Meets F invocation overlap p pre (Process.fault s) post :=
  Triple.ret (stable_ends hpost (.fault s)) h

/-! ## The purge -/

theorem meets_purgeFile (h : Compatible F invocation output) (outputDir name : Text) (names : List Text) (s : Report) :
    Meets F invocation overlap p (Purging F invocation p (name :: names) s)
      (Process.purgeFile outputDir (excludedKeys (invocation p)) name s) (Purging F invocation p names) := by
  have hpost := fun s => stable_purging h p names s
  unfold Process.purgeFile
  by_cases hkey : toLower name ∈ excludedKeys (invocation p)
  · have hex := (excludedKeys_iff (F := F) (h.accepted p).excluded name).1 hkey
    rw [if_pos hkey]
    refine Triple.act (fun _ d => Purging F invocation p names s d ∧ d.folder.find name = none)
      (stable_purging h p _ s) (fun d _ d' hd hdoes => ?_) fun _ => ?_
    · rcases hdoes with ⟨-, rfl⟩ | ⟨⟨hw, -⟩, -⟩
      · have hk := keeps_remove h hex d
        refine ⟨hk, ⟨hk.sound hd.sound, hd.handle, fun f hf hfex => ?_, hd.fresh⟩, ?_⟩
        · obtain ⟨hf, hne⟩ := List.mem_filter.1 hf
          have hne : F.name f.name ≠ F.name name := by simpa using hne
          obtain ⟨n, hn, hname⟩ := hd.left f hf hfex
          rcases List.mem_cons.1 hn with rfl | hn
          · exact absurd hname hne
          · exact ⟨n, hn, hname⟩
        · rw [Folder.find_eq_none]
          intro f hf
          simpa using (List.mem_filter.1 hf).2
      · obtain ⟨⟨bytes, hwant⟩, -⟩ := hd.sound.writing _ hw
        exact absurd hex (h.not_excluded p hwant)
    · refine Triple.act (fun (there : Bool) d => there = false ∧ Purging F invocation p names s d)
        ((stable_purging h p _ s).and (stable_gone h hex)) (fun d there d' hd hdoes => ?_) fun there => ?_
      · obtain ⟨rfl, rfl⟩ := hdoes
        refine ⟨Keeps.refl p d', ?_, hd.1⟩
        rw [hd.2]
        rfl
      · cases there with
        | true => exact Meets.fatal hpost fun d hd => (by cases hd.1)
        | false => exact Meets.done hpost fun d hd => ⟨hd.2.sound, hd.2.handle, hd.2.left, hd.2.fresh⟩
  · rw [if_neg hkey]
    refine Meets.done hpost fun d hd => ⟨hd.sound, hd.handle, fun f hf hex => ?_, hd.fresh⟩
    obtain ⟨n, hn, hname⟩ := hd.left f hf hex
    rcases List.mem_cons.1 hn with rfl | hn
    · exact absurd ((excludedKeys_iff (F := F) (h.accepted p).excluded n).2 (hex.congr hname)) hkey
    · exact ⟨n, hn, hname⟩

theorem meets_purgeFiles (h : Compatible F invocation output) (outputDir : Text) : ∀ (names : List Text) (s : Report),
    Meets F invocation overlap p (Purging F invocation p names s)
      (Process.forEach (Process.purgeFile outputDir (excludedKeys (invocation p))) names s)
      (Purging F invocation p [])
  | [], _ => Meets.done (fun s => stable_purging h p [] s) fun _ hd => hd
  | name :: names, s =>
    (meets_purgeFile h outputDir name names s).andThen (fun s => stable_purging h p [] s)
      (meets_purgeFiles h outputDir names)

theorem Meets.mono {pre : OpenFolder F P → Prop} {post post' : Report → OpenFolder F P → Prop} {piece : Process}
    (h : Meets F invocation overlap p pre piece post) (hpost : ∀ s d, post s d → post' s d) :
    Meets F invocation overlap p pre piece post' := by
  refine Triple.consequence h (fun _ => id) fun e d he => ?_
  cases e with
  | done s => exact hpost s d he
  | fatal message s => exact he
  | fault s => exact he

theorem meets_purge (h : Compatible F invocation output) (outputDir : Text) :
    Meets F invocation overlap p (fun d => Sound F invocation d ∧ d.handle p = none)
      (Process.purge outputDir (excludedKeys (invocation p)) Report.start)
      (Standing F invocation p none (candidates F (invocation p))) := by
  have hex := (h.accepted p).excluded
  unfold Process.purge
  by_cases htrue : isTrue (excludedKeys (invocation p)) = true
  · rw [if_pos htrue]
    have hstable : Stable (Others F invocation p) fun d : OpenFolder F P =>
        Sound F invocation d ∧ d.handle p = none := by
      rintro d d' ⟨q, hq, hk⟩ hd
      exact ⟨hk.sound hd.1, (hk.handle p (Ne.symm hq)).trans hd.2⟩
    refine Triple.act (fun names => Purging F invocation p names Report.start) hstable
      (fun d names d' hd hdoes => ?_) fun names => ?_
    · obtain ⟨rfl, rfl⟩ := hdoes
      exact ⟨Keeps.refl p d', hd.1, hd.2, fun f hf _ => ⟨f.name, List.mem_map_of_mem hf, rfl⟩, rfl⟩
    · refine (meets_purgeFiles h outputDir names Report.start).mono fun s d hd => ?_
      refine standing_of_purged hd.sound hd.handle (fun f hf hfex => ?_) hd.fresh
      obtain ⟨n, hn, -⟩ := hd.left f hf hfex
      cases hn
  · rw [if_neg htrue]
    -- no name is excluded: a list of DLL names is never false
    have hnil : excludedKeys (invocation p) = [] := by
      by_contra hne
      exact htrue (isTrue_of_last hne (excludedKeys_last hex))
    refine Meets.done (fun s => stable_standing h p none _ s) fun d hd => ?_
    refine standing_of_purged hd.1 hd.2 (fun f _ hfex => ?_) rfl
    have hkey := (excludedKeys_iff hex f.name).2 hfex
    rw [hnil] at hkey
    cases hkey

/-! ## The staging -/

variable (F invocation overlap p) in
/-- A piece of a run stages some of its candidates. -/
def StagesAlong (cs : List Source) (piece : Report → Process) : Prop :=
  ∀ rest s, Meets F invocation overlap p (Standing F invocation p none (cs ++ rest) s) (piece s)
    (Standing F invocation p none rest)

theorem StagesAlong.skip (h : Compatible F invocation output) :
    StagesAlong F invocation overlap p [] Process.done := fun rest _ =>
  Meets.done (fun s => stable_standing h p none rest s) fun _ hd => hd

theorem StagesAlong.andThen (h : Compatible F invocation output) {cs ds : List Source}
    {piece piece' : Report → Process} (hp : StagesAlong F invocation overlap p cs piece)
    (hp' : StagesAlong F invocation overlap p ds piece') :
    StagesAlong F invocation overlap p (cs ++ ds) fun s => (piece s).andThen piece' := by
  intro rest s
  rw [List.append_assoc]
  exact (hp (ds ++ rest) s).andThen (fun s => stable_standing h p none rest s) (hp' rest)

theorem StagesAlong.forEach (h : Compatible F invocation output) {α : Type} {body : α → Report → Process}
    {sources : α → List Source} : ∀ {as : List α}, (∀ a ∈ as, StagesAlong F invocation overlap p (sources a) (body a)) →
      StagesAlong F invocation overlap p (as.flatMap sources) (Process.forEach body as)
  | [], _ => StagesAlong.skip h
  | a :: _, hp => (hp a (List.mem_cons_self ..)).andThen h
      (StagesAlong.forEach h fun b hb => hp b (List.mem_cons_of_mem a hb))

/-- Opening an eligible DLL for writing and writing it. -/
theorem meets_create (h : Compatible F invocation output) {c : Source} (hc : Eligible F (invocation p) c)
    {rest : List Source} {s s' : Report} (hvec : ∀ x ∈ s'.vecStaged, x ∈ s.vecStaged ∨
      x = (toLower c.file.name, c) ∧ Eligible F (invocation p) c) :
    Meets F invocation overlap p (Standing F invocation p none (c :: rest) s)
      (.act (.create c.file.name) fun (opened : Bool) =>
        if opened then .act (.fill c.file) fun _ => Process.done s' else Process.fault s)
      (Standing F invocation p none rest) := by
  have hpost := fun s => stable_standing h p none rest s
  refine Triple.act (fun (opened : Bool) d =>
      if opened then Standing F invocation p (some (F.name c.file.name)) rest s' d else overlap ∧ d.handle p = none)
    (stable_standing h p none _ s) (fun d opened d' hd hdoes => ?_) fun opened => ?_
  · rcases hdoes with ⟨-, rfl, torn, rfl⟩ | ⟨⟨-, hoverlap⟩, rfl, rfl⟩
    · have hk := keeps_create hc hd.handle torn
      have hnow : (d.folder.write ⟨c.file.name, torn⟩).lookup (F.name c.file.name) ≠ none := by
        rw [Folder.lookup_write, if_pos rfl]
        exact Option.some_ne_none _
      refine ⟨hk, ?_⟩
      rw [if_pos rfl]
      exact (hd.after h hk (Function.update_self ..)).step (fun _ => hnow) hvec
    · exact ⟨Keeps.refl p _, hoverlap, hd.handle⟩
  · cases opened with
    | false => exact Meets.fault hpost fun d hd => hd
    | true =>
      refine Triple.act (fun _ d => Standing F invocation p none rest s' d) (stable_standing h p _ rest s')
        (fun d _ d' hd hdoes => ?_) fun _ => Meets.done hpost fun _ hd => hd
      obtain rfl : d' = ⟨d.folder.write c.file, Function.update d.handle p none⟩ := hdoes
      have hk := keeps_fill h hc hd.handle
      exact ⟨hk, hd.after h hk (Function.update_self ..)⟩

/-- Copying an eligible DLL. -/
theorem meets_copyFile (h : Compatible F invocation output) {c : Source} (hc : Eligible F (invocation p) c)
    {rest : List Source} {s s' : Report} (hvec : ∀ x ∈ s'.vecStaged, x ∈ s.vecStaged ∨
      x = (toLower c.file.name, c) ∧ Eligible F (invocation p) c) :
    Meets F invocation overlap p (Standing F invocation p none (c :: rest) s)
      (Process.copyFile c.file s (Process.done s')) (Standing F invocation p none rest) := by
  refine Triple.act (fun (content : Option (List UInt8)) d => Standing F invocation p none (c :: rest) s d ∧
      (content = some c.file.bytes → d.folder.lookup (F.name c.file.name) ≠ none))
    (stable_standing h p none _ s) (fun d content d' hd hdoes => ?_) fun content => ?_
  · obtain ⟨hread, rfl⟩ := hdoes
    refine ⟨Keeps.refl p d', hd, fun hcontent => ?_⟩
    rcases hread with ⟨-, rfl⟩ | ⟨hw, -⟩
    · rw [hcontent]
      exact Option.some_ne_none _
    · exact (hd.sound.writing _ hw).2
  · by_cases hsame : content = some c.file.bytes
    · rw [if_pos hsame]
      exact Meets.done (fun s => stable_standing h p none rest s) fun d hd => hd.1.step (fun _ => hd.2 hsame) hvec
    · rw [if_neg hsame]
      exact Triple.consequence (meets_create h hc hvec) (fun _ hd => hd.1) fun _ _ => id

/-- Comparing an eligible DLL with the one that is there. -/
theorem meets_read (h : Compatible F invocation output) {sha256 : List UInt8 → Text} {c : Source}
    (hc : Eligible F (invocation p) c) {rest : List Source} {s s' : Report}
    (hvec : ∀ x ∈ s'.vecStaged, x ∈ s.vecStaged ∨ x = (toLower c.file.name, c) ∧ Eligible F (invocation p) c)
    {k : Option (List UInt8) → Process} (hfault : k none = Process.fault s)
    (hfatal : ∀ content, sha256 content ≠ sha256 c.file.bytes → ∃ message, k (some content) = Process.fatal message s)
    (hdone : ∀ content, sha256 content = sha256 c.file.bytes → k (some content) = Process.done s') :
    Meets F invocation overlap p
      (fun d => Standing F invocation p none (c :: rest) s d ∧ d.folder.lookup (F.name c.file.name) ≠ none)
      (.act (.read c.file.name) k) (Standing F invocation p none rest) := by
  have hpost := fun s => stable_standing h p none rest s
  have hstable := (stable_standing h p none (c :: rest) s).and (stable_there hc)
  refine Triple.act (fun (content : Option (List UInt8)) d => (Standing F invocation p none (c :: rest) s d ∧
      d.folder.lookup (F.name c.file.name) ≠ none) ∧ (content = some c.file.bytes ∨ overlap))
    hstable (fun d content d' hd hdoes => ?_) fun content => ?_
  · obtain ⟨hread, rfl⟩ := hdoes
    refine ⟨Keeps.refl p d', hd, ?_⟩
    rcases hread with ⟨hfree, rfl⟩ | ⟨-, hoverlap⟩
    · obtain ⟨v, hv⟩ := Option.ne_none_iff_exists'.1 hd.2
      rcases hd.1.sound.content _ _ v ⟨p, c, hc, rfl, rfl⟩ hv with rfl | hw
      · exact .inl hv
      · exact absurd hw hfree
    · exact .inr hoverlap
  · cases content with
    | none =>
      rw [hfault]
      refine Meets.fault hpost fun d hd => ⟨?_, hd.1.1.handle⟩
      rcases hd.2 with hnone | hoverlap
      · cases hnone
      · exact hoverlap
    | some content =>
      by_cases hhash : sha256 content = sha256 c.file.bytes
      · rw [hdone content hhash]
        exact Meets.done hpost fun d hd => hd.1.1.step (fun _ => hd.1.2) hvec
      · obtain ⟨message, hmessage⟩ := hfatal content hhash
        rw [hmessage]
        refine Meets.fatal hpost fun d hd => ⟨?_, hd.1.1.handle⟩
        rcases hd.2 with hsome | hoverlap
        · cases hsome
          exact absurd rfl hhash
        · exact hoverlap

theorem stagesAlong_stageDll (h : Compatible F invocation output) (sha256 : List UInt8 → Text) (outputDir : Text)
    {c : Source} (hmem : c ∈ candidates F (invocation p)) :
    StagesAlong F invocation overlap p [c]
      (Process.stageDll sha256 outputDir (excludedKeys (invocation p)) c) := by
  intro rest s
  have hpost := fun s => stable_standing h p none rest s
  rw [List.singleton_append]
  unfold Process.stageDll
  dsimp only
  by_cases hdll : (!endsInDll (toLower c.file.name)) = true
  · rw [if_pos hdll]
    refine Meets.done hpost fun d hd => hd.step (fun hc => ?_) fun x hx => .inl hx
    rw [hc.2.1] at hdll
    cases hdll
  rw [if_neg hdll]
  by_cases hex : toLower c.file.name ∈ excludedKeys (invocation p)
  · rw [if_pos hex]
    refine Meets.done hpost fun d hd => hd.step (fun hc => ?_) fun x hx => .inl hx
    exact absurd ((excludedKeys_iff (h.accepted p).excluded c.file.name).1 hex) hc.2.2
  rw [if_neg hex]
  have hc : Eligible F (invocation p) c := by
    refine ⟨mem_candidates.1 hmem, by simpa using hdll, fun hexc => hex ?_⟩
    exact (excludedKeys_iff (h.accepted p).excluded c.file.name).2 hexc
  rw [h.pe p c hc]
  dsimp only
  cases hfind : s.vecStaged.find? fun x => x.1 = toLower c.file.name with
  | some x =>
    have hx := List.mem_of_find?_eq_some hfind
    have hkey : x.1 = toLower c.file.name := by simpa using List.find?_some hfind
    -- the DLL remembered under the name has the same content
    have hsame : ∀ d, Standing F invocation p none (c :: rest) s d →
        F.name x.2.file.name = F.name c.file.name ∧ x.2.file.bytes = c.file.bytes := by
      intro d hd
      obtain ⟨hx₁, hel, -⟩ := hd.remembered x hx
      have hname := F.name_of_toLower (hx₁.symm.trans hkey)
      exact ⟨hname, h.agree p p x.2 c hel hc hname⟩
    dsimp only
    by_cases hhash : sha256 x.2.file.bytes ≠ sha256 c.file.bytes
    · rw [if_pos hhash]
      exact Meets.fatal hpost fun d hd => absurd (by rw [(hsame d hd).2]) hhash
    · rw [if_neg hhash]
      refine Meets.done hpost fun d hd => hd.step (fun _ => ?_) fun y hy => .inl hy
      rw [← (hsame d hd).1]
      exact (hd.remembered x hx).2.2
  | none =>
    have hvec : ∀ y ∈ (s.staged (toLower c.file.name) c (sha256 c.file.bytes)).vecStaged, y ∈ s.vecStaged ∨
        y = (toLower c.file.name, c) ∧ Eligible F (invocation p) c := by
      intro y hy
      rcases List.mem_append.1 hy with hy | hy
      · exact .inl hy
      · exact .inr ⟨List.mem_singleton.1 hy, hc⟩
    refine Triple.act (fun (there : Bool) d => Standing F invocation p none (c :: rest) s d ∧
        (there = true → d.folder.lookup (F.name c.file.name) ≠ none))
      (stable_standing h p none _ s) (fun d there d' hd hdoes => ?_) fun there => ?_
    · obtain ⟨rfl, rfl⟩ := hdoes
      refine ⟨Keeps.refl p d', hd, fun hthere => ?_⟩
      rw [← Folder.find_bytes, ne_eq, Option.map_eq_none_iff]
      intro hnone
      rw [hnone] at hthere
      cases hthere
    cases there with
    | false =>
      rw [if_neg Bool.false_ne_true]
      exact Triple.consequence (meets_copyFile h hc hvec) (fun _ hd => hd.1) fun _ _ => id
    | true =>
      rw [if_pos rfl]
      have hpre : ∀ d : OpenFolder F P, Standing F invocation p none (c :: rest) s d ∧
          (true = true → d.folder.lookup (F.name c.file.name) ≠ none) →
          Standing F invocation p none (c :: rest) s d ∧ d.folder.lookup (F.name c.file.name) ≠ none :=
        fun d hd => ⟨hd.1, hd.2 rfl⟩
      refine Triple.consequence ?_ hpre fun _ _ => id
      refine meets_read h hc hvec rfl (fun content hhash => ⟨_, if_pos hhash⟩) fun content hhash => if_neg ?_
      simpa using hhash

theorem stagesAlong_stageToolchain (h : Compatible F invocation output) (sha256 : List UInt8 → Text)
    (outputDir : Text) : StagesAlong F invocation overlap p (toolchainSources F (invocation p))
      (Process.stageToolchain sha256 outputDir (excludedKeys (invocation p)) F (invocation p)) := by
  have htoolchain := (h.accepted p).toolchain
  have hmem : ∀ c ∈ toolchainSources F (invocation p), c ∈ candidates F (invocation p) := fun c hc =>
    List.mem_append_left _ hc
  intro rest s
  unfold Process.stageToolchain toolchainSources at *
  by_cases hne : (invocation p).vecToolchainDlls = []
  · rw [hne, if_neg (by decide)]
    cases (invocation p).toolchainBin with
    | none => exact StagesAlong.skip h rest s
    | some bin => exact StagesAlong.skip h rest s
  · rw [if_pos (isTrue_of_last hne fun n hn => matchesDllName_last (htoolchain n hn).1)]
    obtain ⟨n, hn⟩ := List.exists_mem_of_ne_nil _ hne
    obtain ⟨-, bin, files, hbin, -⟩ := htoolchain n hn
    rw [hbin] at hmem ⊢
    -- one declared DLL after the other
    have hbody : ∀ n ∈ (invocation p).vecToolchainDlls, StagesAlong F invocation overlap p
        ((files.find? fun f => F.name f.name = F.name n).map fun f => (⟨bin, ⟨n, f.bytes⟩⟩ : Source)).toList
        (Process.stageToolchainDll sha256 outputDir (excludedKeys (invocation p)) F bin files n) := by
      intro n hn
      obtain ⟨hname, bin', files', hbin', f, hf, hfn⟩ := htoolchain n hn
      rw [hbin, Option.some.injEq, Prod.mk.injEq] at hbin'
      obtain ⟨rfl, rfl⟩ := hbin'
      unfold Process.stageToolchainDll
      cases hfind : files.find? fun f => F.name f.name = F.name n with
      | none =>
        have := List.find?_eq_none.1 hfind f hf
        simp [hfn] at this
      | some g =>
        intro rest s
        dsimp only
        rw [if_neg (by simp [hname])]
        refine stagesAlong_stageDll h sha256 outputDir (hmem _ ?_) rest s
        exact List.mem_filterMap.2 ⟨n, hn, by rw [hfind]; rfl⟩
    have hall := StagesAlong.forEach h hbody rest s
    rwa [← List.filterMap_eq_flatMap_toList] at hall

theorem stagesAlong_stageRoot (h : Compatible F invocation output) (sha256 : List UInt8 → Text) (outputDir : Text)
    {root : PackageRoot} (hroot : root ∈ (invocation p).vecRoots) :
    StagesAlong F invocation overlap p (rootSources (invocation p).configuration root)
      (Process.stageRoot sha256 outputDir (excludedKeys (invocation p)) (invocation p).configuration root) := by
  have hmem : ∀ c ∈ rootSources (invocation p).configuration root, c ∈ candidates F (invocation p) := fun c hc =>
    List.mem_append_right _ (List.mem_flatMap.2 ⟨root, hroot, hc⟩)
  unfold Process.stageRoot
  rw [(h.accepted p).present root hroot]
  refine StagesAlong.forEach h fun bin hbin => ?_
  have hbinMem : ∀ c ∈ binSources root bin, c ∈ candidates F (invocation p) := fun c hc =>
    hmem c (List.mem_flatMap.2 ⟨bin, hbin, hc⟩)
  unfold Process.stageBin
  unfold binSources at hbinMem ⊢
  cases hfiles : root.files bin with
  | none => exact StagesAlong.skip h
  | some files =>
    rw [hfiles] at hbinMem
    have hall : ∀ c ∈ sortedFiles (root.theRoot ++ '/' :: bin) files, StagesAlong F invocation overlap p [c]
        (Process.stageDll sha256 outputDir (excludedKeys (invocation p)) c) := fun c hc =>
      stagesAlong_stageDll h sha256 outputDir (hbinMem c hc)
    have hbody := StagesAlong.forEach h hall
    rw [List.flatMap_singleton'] at hbody
    exact hbody

/-! ## Whole runs -/

/-- A run from its start. -/
theorem meets_stageRuntime (h : Compatible F invocation output) (sha256 : List UInt8 → Text) (outputDir : Text) :
    Meets F invocation overlap p (fun d => Sound F invocation d ∧ d.handle p = none)
      (Process.stageRuntime F sha256 outputDir (invocation p)) (Standing F invocation p none []) := by
  have hpost := fun rest s => stable_standing h p none rest s
  have hconf : ¬ ((invocation p).configuration ≠ "Debug".toList ∧ (invocation p).configuration ≠ "Release".toList) := by
    rintro ⟨hd, hr⟩
    rcases (h.accepted p).configuration with hc | hc
    · exact hd hc
    · exact hr hc
  unfold Process.stageRuntime
  dsimp only
  rw [if_neg (by simp [(h.accepted p).roots]), if_neg hconf, excludedDlls_ok (h.accepted p).excluded]
  have hend : StagesAlong F invocation overlap p [] fun s : Report => Process.done (s.status
      ("BuildEngine runtime: ".toList ++ (toString s.uStaged).toList ++ " Windows x64 DLLs staged in ".toList ++
        outputDir)) := fun rest s =>
    Meets.done (hpost rest) fun _ hd => ⟨hd.sound, hd.handle, hd.purged, hd.remembered, hd.staged⟩
  have hroots : ∀ root ∈ (invocation p).vecRoots, StagesAlong F invocation overlap p
      (rootSources (invocation p).configuration root)
      (Process.stageRoot sha256 outputDir (excludedKeys (invocation p)) (invocation p).configuration root) :=
    fun root hroot => stagesAlong_stageRoot h sha256 outputDir hroot
  have hall := (stagesAlong_stageToolchain h sha256 outputDir).andThen h ((StagesAlong.forEach h hroots).andThen h hend)
  refine (meets_purge h outputDir).andThen (hpost []) fun s => ?_
  have hrest := hall [] s
  rw [List.append_nil, List.append_nil] at hrest
  exact hrest

end

/-! ## Every interleaving -/

section Runs

variable (F : CaseFold) {P : Type} (sha256 : List UInt8 → Text) (outputDir : Text) (invocation : P → Invocation)
  (output : Folder F)

/-- All runs before their first command. -/
def starting : Config P Action Action.Answer Ending (OpenFolder F P) :=
  ⟨fun p => Process.stageRuntime F sha256 outputDir (invocation p), OpenFolder.quiet output⟩

/-- The output directory after some of the runs one after the other. -/
def inTurn (ps : List P) : Folder F :=
  ps.foldl (fun d p => (stageRuntime sha256 outputDir (invocation p) d).state.output) output

end Runs

section

variable {F : CaseFold} {P : Type} {sha256 : List UInt8 → Text} {outputDir : Text} {invocation : P → Invocation}
  {output : Folder F}

/-- What the steps of all runs keep. -/
theorem keeps_steps {d d' : OpenFolder F P} (hsteps : ReflTransGen (fun d d' => ∃ p, Keeps F invocation p d d') d d') :
    (Sound F invocation d → Sound F invocation d') ∧
    (∀ key bytes, Wanted F invocation key bytes → d.folder.lookup key ≠ none → d'.folder.lookup key ≠ none) ∧
    (∀ f ∈ d.folder.files, (∀ q, ¬ Excluded F (invocation q) f.name) →
      (∀ bytes, ¬ Wanted F invocation (F.name f.name) bytes) → f ∈ d'.folder.files) ∧
    ∀ f ∈ d'.folder.files, f ∈ d.folder.files ∨ ∃ bytes, Wanted F invocation (F.name f.name) bytes := by
  induction hsteps with
  | refl => exact ⟨id, fun _ _ _ => id, fun _ hf _ _ => hf, fun _ hf => .inl hf⟩
  | tail _ hstep ih =>
    obtain ⟨p, hk⟩ := hstep
    obtain ⟨hsound, hwanted, hkept, honly⟩ := ih
    refine ⟨fun h => hk.sound (hsound h), fun key bytes hw hl => hk.wanted key bytes hw (hwanted key bytes hw hl),
      fun f hf hfex hfw => hk.kept f (hkept f hf hfex hfw) hfex hfw, fun f hf => ?_⟩
    rcases hk.only f hf with hf | hw
    · exact honly f hf
    · exact .inr hw

/-- A staged name that is there has its content or is being written. -/
theorem Sound.lookup {d : OpenFolder F P} (hd : Sound F invocation d) {key : Text} {bytes : List UInt8}
    (hw : Wanted F invocation key bytes) (hl : d.folder.lookup key ≠ none) :
    d.folder.lookup key = some bytes ∨ d.BeingWritten key := by
  obtain ⟨v, hv⟩ := Option.ne_none_iff_exists'.1 hl
  rcases hd.content key bytes v hw hv with rfl | hwriting
  · exact .inl hv
  · exact .inr hwriting

variable [DecidableEq P] {overlap : Prop} {c : Config P Action Action.Answer Ending (OpenFolder F P)}

/-- The conditions of the runs in every configuration that they reach. -/
theorem parallel_holds (h : Compatible F invocation output)
    (hrun : Reaches (does overlap) (starting F sha256 outputDir invocation output) c) :
    (∀ p, Holds (does overlap p) (Others F invocation p) (Keeps F invocation p)
      (Ends F p overlap (Standing F invocation p none [])) (c.program p) c.store) ∧
    ReflTransGen (fun d d' => ∃ p, Keeps F invocation p d d') (OpenFolder.quiet output) c.store :=
  Config.holds (fun q _ hpq _ _ hk => ⟨q, hpq, hk⟩)
    (fun _ => meets_stageRuntime h sha256 outputDir _ ⟨Sound.quiet h, rfl⟩) hrun

theorem parallel_ended (h : Compatible F invocation output)
    (hrun : Reaches (does overlap) (starting F sha256 outputDir invocation output) c) {p : P} {e : Ending}
    (hended : c.program p = .ret e) : Ends F p overlap (Standing F invocation p none []) e c.store := by
  have hp := (parallel_holds h hrun).1 p
  rw [hended] at hp
  exact hp c.store .refl

theorem parallel_sound (h : Compatible F invocation output)
    (hrun : Reaches (does overlap) (starting F sha256 outputDir invocation output) c) : Sound F invocation c.store :=
  (keeps_steps (parallel_holds h hrun).2).1 (Sound.quiet h)

/-- A file that no run excludes stays. -/
theorem parallel_kept (h : Compatible F invocation output)
    (hrun : Reaches (does overlap) (starting F sha256 outputDir invocation output) c) {f : File}
    (hf : f ∈ output.files) (hfex : ∀ q, ¬ Excluded F (invocation q) f.name) :
    c.store.folder.lookup (F.name f.name) = some f.bytes ∨ c.store.BeingWritten (F.name f.name) := by
  obtain ⟨-, hwanted, hkept, -⟩ := keeps_steps (parallel_holds h hrun).2
  by_cases hw : ∃ bytes, Wanted F invocation (F.name f.name) bytes
  · obtain ⟨bytes, hw⟩ := hw
    have hstart : (OpenFolder.quiet output : OpenFolder F P).folder.lookup (F.name f.name) = some f.bytes :=
      Folder.lookup_eq_some.2 ⟨f, hf, rfl, rfl⟩
    have hbytes : f.bytes = bytes := by
      obtain ⟨p, d, hd, hname, rfl⟩ := hw
      exact h.output p d hd f hf hname.symm
    rw [hbytes]
    exact (parallel_sound h hrun).lookup hw (hwanted _ bytes hw (by rw [hstart]; exact Option.some_ne_none _))
  · exact .inl (Folder.lookup_eq_some.2 ⟨f, hkept f hf hfex fun bytes hb => hw ⟨bytes, hb⟩, rfl, rfl⟩)

/-- Every file was there before or is staged by a run. -/
theorem parallel_only (h : Compatible F invocation output)
    (hrun : Reaches (does overlap) (starting F sha256 outputDir invocation output) c) {f : File}
    (hf : f ∈ c.store.folder.files) :
    f ∈ output.files ∨ Wanted F invocation (F.name f.name) f.bytes ∨ c.store.BeingWritten (F.name f.name) := by
  obtain ⟨-, -, -, honly⟩ := keeps_steps (parallel_holds h hrun).2
  rcases honly f hf with hf | ⟨bytes, hw⟩
  · exact .inl hf
  · have hl : c.store.folder.lookup (F.name f.name) = some f.bytes := Folder.lookup_eq_some.2 ⟨f, hf, rfl, rfl⟩
    rcases (parallel_sound h hrun).content _ bytes f.bytes hw hl with heq | hwriting
    · exact .inr (.inl (heq ▸ hw))
    · exact .inr (.inr hwriting)

/-- When all runs have succeeded, the content of the directory does not depend on the interleaving. -/
theorem parallel_lookup (h : Compatible F invocation output)
    (hrun : Reaches (does overlap) (starting F sha256 outputDir invocation output) c)
    (hdone : ∀ p, ∃ s, c.program p = .ret (.done s)) (key : Text) (bytes : List UInt8) :
    c.store.folder.lookup key = some bytes ↔ Wanted F invocation key bytes ∨
      ∃ f ∈ output.files, (∀ q, ¬ Excluded F (invocation q) f.name) ∧ F.name f.name = key ∧ f.bytes = bytes := by
  have hstanding : ∀ p, ∃ s, Standing F invocation p none [] s c.store := fun p => by
    obtain ⟨s, hs⟩ := hdone p
    exact ⟨s, parallel_ended h hrun hs⟩
  have hquiet : ∀ key, ¬ c.store.BeingWritten key := by
    rintro key ⟨p, hp⟩
    obtain ⟨s, hs⟩ := hstanding p
    rw [hs.handle] at hp
    cases hp
  constructor
  · intro hl
    obtain ⟨f, hf, rfl, rfl⟩ := Folder.lookup_eq_some.1 hl
    rcases parallel_only h hrun hf with hold | hw | hwriting
    · refine .inr ⟨f, hold, fun q => ?_, rfl, rfl⟩
      obtain ⟨s, hs⟩ := hstanding q
      exact hs.purged f hf
    · exact .inl hw
    · exact absurd hwriting (hquiet _)
  · rintro (hw | ⟨f, hf, hfex, rfl, rfl⟩)
    · obtain ⟨p, d, hd, rfl, rfl⟩ := hw
      obtain ⟨s, hs⟩ := hstanding p
      rcases hs.staged d hd with hmem | hl
      · cases hmem
      · exact (hs.sound.lookup ⟨p, d, hd, rfl, rfl⟩ hl).resolve_right (hquiet _)
    · exact (parallel_kept h hrun hf hfex).resolve_right (hquiet _)

/-- The runs one after the other are an interleaving. -/
theorem inTurn_reaches (F : CaseFold) (sha256 : List UInt8 → Text) (outputDir : Text) (invocation : P → Invocation)
    (output : Folder F) (ps : List P) (hnodup : ps.Nodup) :
    ∃ programs, Reaches (does False) (starting F sha256 outputDir invocation output)
        ⟨programs, OpenFolder.quiet (inTurn F sha256 outputDir invocation output ps)⟩ ∧
      (∀ p ∈ ps, ∃ e, programs p = .ret e) ∧
      ∀ p, p ∉ ps → programs p = Process.stageRuntime F sha256 outputDir (invocation p) := by
  induction ps using List.reverseRecOn with
  | nil => exact ⟨_, .refl, fun p hp => (by cases hp), fun _ _ => rfl⟩
  | append_singleton ps p ih =>
    rw [List.nodup_append] at hnodup
    obtain ⟨programs, hrun, hended, hwaiting⟩ := ih hnodup.1
    have hp : p ∉ ps := fun hp => hnodup.2.2 p hp p (List.mem_singleton_self p) rfl
    have halone : Run (does False p) (Process.stageRuntime F sha256 outputDir (invocation p))
        (OpenFolder.quiet (inTurn F sha256 outputDir invocation output ps)) _ _ :=
      (alone_stageRuntime outputDir (invocation p) _ _ _).2 ⟨rfl, rfl⟩
    have hturn := halone.reaches (hwaiting p hp)
    have hnext : inTurn F sha256 outputDir invocation output (ps ++ [p]) = (stageRuntime sha256 outputDir (invocation p)
        (inTurn F sha256 outputDir invocation output ps)).state.output := List.foldl_append
    rw [hnext]
    refine ⟨_, hrun.trans hturn, fun q hq => ?_, fun q hq => ?_⟩
    · by_cases hqp : q = p
      · rw [hqp, Function.update_self]
        exact ⟨_, rfl⟩
      · rw [Function.update_of_ne hqp]
        refine hended q ?_
        rcases List.mem_append.1 hq with hq | hq
        · exact hq
        · exact absurd (List.mem_singleton.1 hq) hqp
    · rw [List.mem_append, not_or, List.mem_singleton] at hq
      rw [Function.update_of_ne hq.2]
      exact hwaiting q hq.1

/-- Without overlap every run that has ended has succeeded. -/
theorem parallel_done (h : Compatible F invocation output)
    (hrun : Reaches (does False) (starting F sha256 outputDir invocation output) c) {p : P} {e : Ending}
    (hended : c.program p = .ret e) : ∃ s, e = .done s := by
  have hends := parallel_ended h hrun hended
  cases e with
  | done s => exact ⟨s, rfl⟩
  | fatal message s => exact hends.1.elim
  | fault s => exact hends.1.elim

theorem parallel_allDone (h : Compatible F invocation output)
    (hrun : Reaches (does False) (starting F sha256 outputDir invocation output) c)
    (hended : ∀ p, ∃ e, c.program p = .ret e) (p : P) : ∃ s, c.program p = .ret (.done s) := by
  obtain ⟨e, he⟩ := hended p
  obtain ⟨s, rfl⟩ := parallel_done h hrun he
  exact ⟨s, he⟩

/-- As long as a run has not ended one of them can go on. -/
theorem parallel_progress (hrun : Reaches (does overlap) (starting F sha256 outputDir invocation output) c) :
    (∀ p, ∃ e, c.program p = .ret e) ∨ ∃ c', Step (does overlap) c c' := by
  have hstart : Writing (starting F sha256 outputDir invocation output) := fun p =>
    Orderly.stageRuntime sha256 outputDir F (invocation p)
  exact (hstart.reaches hrun).progress

end

/-! ## Two targets with one package -/

/-- The runs of two targets of a directory that use the same package. -/
def twoTargets : Bool → Invocation := fun _ => packageInvocation bareCoff

theorem twoTargets_eligible (p : Bool) (c : Source) :
    Eligible asciiFold (twoTargets p) c ↔ c = ⟨"C:/packages/a/bin".toList, ⟨"A.dll".toList, bareCoff⟩⟩ :=
  eligible_package

theorem twoTargets_compatible : Compatible asciiFold twoTargets oldOutput := by
  refine ⟨fun _ => packageInvocation_accepted bareCoff, fun p c hc => ?_, fun p q c d hc hd _ => ?_,
    fun p q c hc => ?_, fun p c hc f hf hname => ?_⟩
  · rw [(twoTargets_eligible p c).1 hc]
    decide
  · rw [(twoTargets_eligible p c).1 hc, (twoTargets_eligible q d).1 hd]
  · exact hc.2.2
  · rw [(twoTargets_eligible p c).1 hc, List.mem_singleton.1 hf] at hname
    exact absurd hname (by decide)

/-- The two runs take turns with every file command. -/
def sideBySide (touches : Bool) : Config Bool Action Action.Answer Ending (OpenFolder asciiFold Bool) :=
  (List.replicate 8 [true, false]).flatten.foldl (turn touches)
    (starting asciiFold toHex "C:/app".toList twoTargets oldOutput)

theorem sideBySide_reaches (touches : Bool) : Reaches (does (touches = true))
    (starting asciiFold toHex "C:/app".toList twoTargets oldOutput) (sideBySide touches) :=
  turns_reach touches _ _

/-- Whatever the interleaving, and whatever a run reads of a file that another one is writing: a run that has
succeeded finds its DLLs and no excluded file, up to the files being written; no run harms a file that no run
excludes, and every file was there before or is staged by a run. -/
theorem parallel_safe (F : CaseFold) {P : Type} [DecidableEq P] (sha256 : List UInt8 → Text) (outputDir : Text)
    (invocation : P → Invocation) (output : Folder F) (h : Compatible F invocation output)
    (c : Config P Action Action.Answer Ending (OpenFolder F P))
    (hrun : Reaches (does True) (starting F sha256 outputDir invocation output) c) :
    (∀ p s, c.program p = .ret (.done s) →
      (∀ d, Eligible F (invocation p) d → c.store.folder.lookup (F.name d.file.name) = some d.file.bytes ∨
        c.store.BeingWritten (F.name d.file.name)) ∧
      ∀ f ∈ c.store.folder.files, ¬ Excluded F (invocation p) f.name) ∧
    (∀ f ∈ output.files, (∀ q, ¬ Excluded F (invocation q) f.name) →
      c.store.folder.lookup (F.name f.name) = some f.bytes ∨ c.store.BeingWritten (F.name f.name)) ∧
    (∀ f ∈ c.store.folder.files, f ∈ output.files ∨ Wanted F invocation (F.name f.name) f.bytes ∨
      c.store.BeingWritten (F.name f.name)) ∧
    ∀ p e, c.program p = .ret e → c.store.handle p = none := by
  refine ⟨fun p s hended => ?_, fun f hf hfex => parallel_kept h hrun hf hfex, fun f hf => parallel_only h hrun hf,
    fun p e hended => ?_⟩
  · have hs : Standing F invocation p none [] s c.store := parallel_ended h hrun hended
    refine ⟨fun d hd => ?_, hs.purged⟩
    rcases hs.staged d hd with hmem | hl
    · cases hmem
    · exact hs.sound.lookup ⟨p, d, hd, rfl, rfl⟩ hl
  · have hends := parallel_ended h hrun hended
    cases e with
    | done s => exact hends.handle
    | fatal message s => exact hends.2
    | fault s => exact hends.2

/-- The two runs come to the copy of the same DLL side by side, and one is refused the file that the other one
is writing. -/
theorem twoTargets_safe :
    Reaches (does True) (starting asciiFold toHex "C:/app".toList twoTargets oldOutput) (sideBySide true) ∧
    (∃ s, (sideBySide true).program false = .ret (.fault s)) ∧
    (∃ s, (sideBySide true).program true = .ret (.done s)) ∧
    (sideBySide true).store.folder.lookup "a.dll".toList = some bareCoff := by
  have hrun := (sideBySide_reaches true).mono fun p e d r d' => does_mono (fun _ => trivial) p e d r d'
  have hfault := exists_fault (o := (sideBySide true).program false) (by decide +kernel)
  have hdone := exists_done (o := (sideBySide true).program true) (by decide +kernel)
  refine ⟨hrun, hfault, hdone, ?_⟩
  obtain ⟨hsucceeded, -, -, hclosed⟩ := parallel_safe asciiFold toHex "C:/app".toList twoTargets oldOutput
    twoTargets_compatible (sideBySide true) hrun
  obtain ⟨s, hs⟩ := hdone
  obtain ⟨t, ht⟩ := hfault
  rcases (hsucceeded true s hs).1 _ (eligible_package.2 rfl) with hl | ⟨p, hp⟩
  · exact hl
  · cases p with
    | true => rw [hclosed true _ hs] at hp; cases hp
    | false => rw [hclosed false _ ht] at hp; cases hp

/-- When no run touches a file that another one is writing: no run fails, as long as a run has not ended one of
them can go on, no interleaving goes on for ever, and when all runs have ended the directory has the content
that they leave one after the other, in any order. -/
theorem parallel_inTurn (F : CaseFold) {P : Type} [DecidableEq P] (sha256 : List UInt8 → Text) (outputDir : Text)
    (invocation : P → Invocation) (output : Folder F) (h : Compatible F invocation output)
    (c : Config P Action Action.Answer Ending (OpenFolder F P))
    (hrun : Reaches (does False) (starting F sha256 outputDir invocation output) c)
    (ps : List P) (hnodup : ps.Nodup) (hall : ∀ p, p ∈ ps) :
    (∀ p e, c.program p = .ret e → ∃ s, e = .done s) ∧
    ((∀ p, ∃ e, c.program p = .ret e) ∨ ∃ c', Step (does False) c c') ∧
    Acc (fun c' c => Step (does False) c c') c ∧
    ((∀ p, ∃ e, c.program p = .ret e) →
      c.store.folder.lookup = (inTurn F sha256 outputDir invocation output ps).lookup) := by
  have : Fintype P := Fintype.ofList ps hall
  refine ⟨fun p e he => parallel_done h hrun he, parallel_progress hrun, step_wf.apply c, fun hended => ?_⟩
  obtain ⟨programs, hseq, hseqEnded, -⟩ := inTurn_reaches F sha256 outputDir invocation output ps hnodup
  refine funext fun key => Option.ext fun bytes => ?_
  rw [parallel_lookup h hrun (parallel_allDone h hrun hended) key bytes]
  exact (parallel_lookup h hseq (parallel_allDone h hseq fun p => hseqEnded p (hall p)) key bytes).symm

/-- One of the two runs waits while the other one writes the DLL. -/
theorem twoTargets_inTurn :
    Reaches (does False) (starting asciiFold toHex "C:/app".toList twoTargets oldOutput) (sideBySide false) ∧
    (∀ p, ∃ s, (sideBySide false).program p = .ret (.done s)) ∧
    (sideBySide false).store.folder.lookup =
      (inTurn asciiFold toHex "C:/app".toList twoTargets oldOutput [false, true]).lookup := by
  have hrun := (sideBySide_reaches false).mono fun p e d r d' => does_mono Bool.false_ne_true p e d r d'
  have hdone : ∀ p, ∃ s, (sideBySide false).program p = .ret (.done s) := fun p => exists_done (by
    cases p <;> decide +kernel)
  obtain ⟨-, -, -, hlookup⟩ := parallel_inTurn asciiFold toHex "C:/app".toList twoTargets oldOutput
    twoTargets_compatible (sideBySide false) hrun [false, true] (by decide) fun p => by cases p <;> decide
  exact ⟨hrun, hdone, hlookup fun p => (hdone p).imp' _ fun _ => id⟩

end BuildEngine.Stage
