/-
The patchers converge: whatever edits of the bootstrap or of its first version a Meson tree already has, a run of the
three patchers leaves the upstream texts with the original contexts replaced. The contexts of a file do not touch, so
an upstream text is a template with a slot for each of them, and an edit changes the value of one slot.
-/
import BuildEngine.Base.Template
import BuildEngine.Base.TextFile
import BuildEngine.Meson.Patch

namespace BuildEngine.Meson

open Base Base.Text

/-! ## Edits -/

/-- The edits of the bootstrap, and the one of its first version: `previous_method` in place of the upstream
method. -/
inductive Edit where
  | win
  | nix
  | probe
  | method
  | vsenv
  deriving DecidableEq, Repr

namespace Edit

def file : Edit → MesonFile
  | win | nix => .detect
  | probe | method => .linkers
  | vsenv => .vsenv

def original : Edit → Text
  | win => originalWin
  | nix => originalNix
  | probe => originalProbe
  | method => originalMethod
  | vsenv => originalVsenv

def edited : Edit → Text
  | win => patchedWin
  | nix => patchedNix
  | probe => patchedProbe
  | method => previousMethod
  | vsenv => patchedVsenv

/-- `text.replace(original, edited, 1)`. -/
def apply (text : Text) (e : Edit) : Text := replaceFirst e.original e.edited text

/-- The value of a slot: edited or not. -/
def value (done : Edit → Bool) (e : Edit) : Text := if done e then e.edited else e.original

/-- The edits a file can have. -/
def all : MesonFile → List Edit
  | .detect => [win, nix]
  | .linkers => [probe, method]
  | .vsenv => [vsenv]

/-- The edits of the bootstrap to a file. -/
def contexts : MesonFile → List Edit
  | .detect => [win, nix]
  | .linkers => [probe]
  | .vsenv => [vsenv]

theorem mem_all {f : MesonFile} {e : Edit} : e ∈ all f ↔ e.file = f := by
  cases f <;> cases e <;> decide

/-! ## The contexts do not touch -/

theorem borderless (e : Edit) : (e.original ≠ [] ∧ Borderless e.original) ∧ e.edited ≠ [] ∧ Borderless e.edited := by
  cases e
  all_goals
    simp only [original, edited, originalWin, originalNix, originalProbe, originalMethod, originalVsenv, patchedWin,
      patchedNix, patchedProbe, previousMethod, patchedVsenv, lines, List.flatMap_cons, List.flatMap_nil]
    repeat rw [String.toList_ofList]
    decide +kernel

/-- Whether made or not, the values of two edits touch nowhere. -/
def Separate (e e' : Edit) : Prop :=
  (Apart e.original e'.original ∧ Apart e.original e'.edited) ∧ Apart e.edited e'.original ∧ Apart e.edited e'.edited

theorem Separate.symm {e e' : Edit} (h : e.Separate e') : e'.Separate e := by
  obtain ⟨⟨h1, h2⟩, h3, h4⟩ := h
  obtain ⟨⟨hne, -⟩, hne', -⟩ := e'.borderless
  exact ⟨⟨h1.symm hne, h3.symm hne⟩, h2.symm hne', h4.symm hne'⟩

theorem win_separate_nix : win.Separate nix := by
  simp only [Separate, original, edited, originalWin, originalNix, patchedWin, patchedNix, lines, List.flatMap_cons,
    List.flatMap_nil]
  repeat rw [String.toList_ofList]
  decide +kernel

theorem probe_separate_method : probe.Separate method := by
  simp only [Separate, original, edited, originalProbe, originalMethod, patchedProbe, previousMethod, lines,
    List.flatMap_cons, List.flatMap_nil]
  repeat rw [String.toList_ofList]
  decide +kernel

theorem sibling {e e' : Edit} : e.file = e'.file → e ≠ e' →
    (e = win ∧ e' = nix) ∨ (e = nix ∧ e' = win) ∨ (e = probe ∧ e' = method) ∨ (e = method ∧ e' = probe) := by
  cases e <;> cases e' <;> decide

theorem apart_of_ne {e e' : Edit} (hfile : e.file = e'.file) (hne : e ≠ e') : e.Separate e' := by
  rcases sibling hfile hne with ⟨rfl, rfl⟩ | ⟨rfl, rfl⟩ | ⟨rfl, rfl⟩ | ⟨rfl, rfl⟩
  · exact win_separate_nix
  · exact win_separate_nix.symm
  · exact probe_separate_method
  · exact probe_separate_method.symm

/-- Values of two edits to one file are apart, whether they were made or not. -/
theorem apart_value (done done' : Edit → Bool) {e e' : Edit} (hfile : e.file = e'.file) (hne : e ≠ e') :
    Apart (e.value done) (e'.value done') := by
  obtain ⟨⟨h1, h2⟩, h3, h4⟩ := apart_of_ne hfile hne
  unfold value
  split
  · split
    · exact h4
    · exact h3
  · split
    · exact h2
    · exact h1

end Edit

/-! ## The template of an upstream text -/

/-- The text with a slot for each edit its file can have: `text` is the template with the originals in the slots. -/
structure Templated (f : MesonFile) (text : Text) (pieces : List (Text × Edit)) (last : Text) : Prop where
  slots : (slots pieces).Perm (Edit.all f)
  text : text = fill pieces last Edit.original
  free : ∀ e : Edit, e.file = f → pieceCount e.original pieces last = 0 ∧ pieceCount e.edited pieces last = 0

theorem Upstream.edit {f : MesonFile} {text : Text} (h : Upstream f text) {e : Edit} (hfile : e.file = f) :
    count e.original text = 1 ∧ ¬ e.edited <:+: text := by
  subst hfile
  cases e with
  | win => exact ⟨h.1, h.2.2.1⟩
  | nix => exact ⟨h.2.1, h.2.2.2⟩
  | probe => exact ⟨h.1, h.2.2.1⟩
  | method => exact ⟨h.2.1, h.2.2.2⟩
  | vsenv => exact h

theorem Upstream.template {f : MesonFile} {text : Text} (h : Upstream f text) :
    ∃ pieces last, Templated f text pieces last := by
  have hnodup : (Edit.all f).Nodup := by cases f <;> decide
  have hvalue : ∀ e ∈ Edit.all f, e.original ≠ [] ∧ Borderless e.original ∧ count e.original text = 1 := fun e he =>
    ⟨e.borderless.1.1, e.borderless.1.2, (h.edit (Edit.mem_all.1 he)).1⟩
  have hapart : ∀ e ∈ Edit.all f, ∀ e' ∈ Edit.all f, e ≠ e' → Apart e.original e'.original := fun e he e' he' hne =>
    (Edit.apart_of_ne ((Edit.mem_all.1 he).trans (Edit.mem_all.1 he').symm) hne).1.1
  obtain ⟨pieces, last, hslots, htext, hzero⟩ := exists_template hnodup hvalue hapart
  refine ⟨pieces, last, hslots, htext, fun e he => ⟨hzero e (Edit.mem_all.2 he), ?_⟩⟩
  have hno := (h.edit he).2
  rw [htext] at hno
  exact pieceCount_of_not_infix e.borderless.2.1 hno

section State

variable {f : MesonFile} {text : Text} {pieces : List (Text × Edit)} {last : Text}
variable (h : Templated f text pieces last)
include h

theorem Templated.mem_slots {e : Edit} : e ∈ Base.Text.slots pieces ↔ e.file = f := by
  rw [h.slots.mem_iff, Edit.mem_all]

theorem Templated.nodup : (Base.Text.slots pieces).Nodup := by
  have hnodup : (Edit.all f).Nodup := by cases f <;> decide
  exact h.slots.nodup_iff.2 hnodup

/-- An edit or its reversal changes its slot. -/
theorem Templated.replace (done : Edit → Bool) {e : Edit} (he : e.file = f) (b : Bool) :
    replaceFirst (e.value done) (if b then e.edited else e.original) (fill pieces last (Edit.value done)) =
      fill pieces last (Edit.value (Function.update done e b)) := by
  obtain ⟨⟨hne, hborderless⟩, hne', hborderless'⟩ := e.borderless
  have hvalue : e.value done ≠ [] ∧ Borderless (e.value done) ∧ pieceCount (e.value done) pieces last = 0 := by
    unfold Edit.value
    split
    · exact ⟨hne', hborderless', (h.free e he).2⟩
    · exact ⟨hne, hborderless, (h.free e he).1⟩
  rw [replaceFirst_fill _ (h.mem_slots.2 he) h.nodup hvalue.2.1 hvalue.1
    (fun e' he' hne => Edit.apart_value done done (he.trans (h.mem_slots.1 he').symm) hne.symm) hvalue.2.2]
  refine fill_congr fun e' _ => ?_
  by_cases heq : e' = e
  · subst heq
    rw [Function.update_self, Edit.value, Function.update_self]
  · rw [Function.update_of_ne heq, Edit.value, Edit.value, Function.update_of_ne heq]

theorem Templated.make (done : Edit → Bool) {e : Edit} (he : e.file = f) (hdone : done e = false) :
    replaceFirst e.original e.edited (fill pieces last (Edit.value done)) =
      fill pieces last (Edit.value (Function.update done e true)) := by
  have hreplace := h.replace done he true
  rwa [Edit.value, hdone, if_neg Bool.false_ne_true, if_pos rfl] at hreplace

theorem Templated.undo (done : Edit → Bool) {e : Edit} (he : e.file = f) (hdone : done e = true) :
    replaceFirst e.edited e.original (fill pieces last (Edit.value done)) =
      fill pieces last (Edit.value (Function.update done e false)) := by
  have hreplace := h.replace done he false
  rwa [Edit.value, hdone, if_pos rfl, if_neg Bool.false_ne_true] at hreplace

theorem Templated.congr {done done' : Edit → Bool} (hdone : ∀ e : Edit, e.file = f → done e = done' e) :
    fill pieces last (Edit.value done) = fill pieces last (Edit.value done') :=
  fill_congr fun e he => by rw [Edit.value, Edit.value, hdone e (h.mem_slots.1 he)]

/-- A pattern of an edit occurs as often as in the upstream text while the edit is not made. -/
theorem Templated.count_state {v : Text} (hv : v ≠ []) {done : Edit → Bool} {e : Edit} (hdone : done e = false)
    (hapart : ∀ e' : Edit, e'.file = f → e ≠ e' → Apart v e'.original ∧ Apart v e'.edited) :
    count v (fill pieces last (Edit.value done)) = count v text := by
  have hcongr : count v ([] ++ fill pieces last (Edit.value done)) = count v ([] ++ fill pieces last Edit.original) := by
    refine count_fill_congr hv [] fun e' he' => ?_
    by_cases heq : e = e'
    · subst heq
      exact .inl (by rw [Edit.value, hdone]; rfl)
    · obtain ⟨h1, h2⟩ := hapart e' (h.mem_slots.1 he') heq
      refine .inr ⟨?_, h1⟩
      unfold Edit.value
      split
      · exact h2
      · exact h1
  rwa [List.nil_append, List.nil_append, ← h.text] at hcongr

theorem Templated.count_original (hup : Upstream f text) (done : Edit → Bool) {e : Edit} (he : e.file = f)
    (hdone : done e = false) : count e.original (fill pieces last (Edit.value done)) = 1 := by
  rw [h.count_state e.borderless.1.1 hdone fun e' he' hne => (Edit.apart_of_ne (he.trans he'.symm) hne).1]
  exact (hup.edit he).1

/-- The edited form of a context is in the text when the edit was made. -/
theorem Templated.infix_edited (hup : Upstream f text) (done : Edit → Bool) {e : Edit} (he : e.file = f) :
    e.edited <:+: fill pieces last (Edit.value done) ↔ done e = true := by
  have hne := e.borderless.2.1
  constructor
  · intro hin
    by_contra hdone
    rw [Bool.not_eq_true] at hdone
    have hcount := h.count_state hne hdone fun e' he' hne => (Edit.apart_of_ne (he.trans he'.symm) hne).2
    have hpos := (count_pos_iff hne).2 hin
    exact (hup.edit he).2 ((count_pos_iff hne).1 (by omega))
  · intro hdone
    obtain ⟨before, q, behind, hsplit⟩ := exists_split (h.mem_slots.2 he)
    rw [hsplit, fill_append, Edit.value, hdone]
    exact List.infix_append _ _ _

/-- Edits to one file, made in any order. -/
theorem Templated.foldl_apply : ∀ {edits : List Edit}, edits.Nodup → (∀ e ∈ edits, e.file = f) →
    edits.foldl Edit.apply text = fill pieces last (Edit.value fun e => decide (e ∈ edits)) := by
  intro edits
  induction edits using List.reverseRecOn with
  | nil =>
    intro _ _
    rw [List.foldl_nil, h.text]
    rfl
  | append_singleton edits e ih =>
    intro hnodup hfile
    rw [List.nodup_append] at hnodup
    have hnew : e ∉ edits := fun hmem => hnodup.2.2 e hmem e (List.mem_singleton_self e) rfl
    rw [List.foldl_append, ih hnodup.1 fun e' he' => hfile e' (List.mem_append_left _ he'), List.foldl_cons,
      List.foldl_nil, Edit.apply]
    rw [h.make (fun e' => decide (e' ∈ edits)) (hfile e (by simp)) (decide_eq_false hnew)]
    refine h.congr fun e' _ => ?_
    by_cases heq : e' = e
    · subst heq
      simp
    · simp [heq]

end State

/-! ## Patching a partly migrated text -/

/-- A variant of an upstream text: the edits of its file among `edits`, made in their order. -/
def variant (edits : List Edit) (f : MesonFile) (text : Text) : Text :=
  (edits.filter fun e => e.file = f).foldl Edit.apply text

/-- The upstream text with the contexts of the bootstrap replaced. -/
def migrated (f : MesonFile) (text : Text) : Text := (Edit.contexts f).foldl Edit.apply text

section Patching

variable {f : MesonFile} {text : Text} {pieces : List (Text × Edit)} {last : Text}

theorem contexts_file {e : Edit} (h : e ∈ Edit.contexts f) : e.file = f := by
  revert h
  cases f <;> cases e <;> decide

theorem Templated.migrated_eq (h : Templated f text pieces last) :
    migrated f text = fill pieces last (Edit.value fun e => decide (e ∈ Edit.contexts f)) :=
  h.foldl_apply (by cases f <;> decide) fun _ he => contexts_file he

theorem patchContext_state (h : Templated f text pieces last) (hup : Upstream f text) (done : Edit → Bool) {e : Edit}
    (he : e.file = f) (message : String) :
    patchContext (done e) e.original e.edited message (fill pieces last (Edit.value done)) =
      .ok (fill pieces last (Edit.value (Function.update done e true))) := by
  unfold patchContext
  cases hdone : done e with
  | true =>
    rw [if_pos rfl, Function.update_eq_self_iff.2 hdone.symm]
  | false =>
    rw [if_neg Bool.false_ne_true, h.count_original hup done he hdone, if_neg (by decide), h.make done he hdone]

/-- What a patcher does with a variant: it writes the migrated text, or keeps it. -/
def Migrates (f : MesonFile) (text text' : Text) : Prop :=
  patch f text = .write text' ∨ (patch f text = .keep ∧ text = text')

theorem detect_migrates (h : Templated .detect text pieces last) (hup : Upstream .detect text) (done : Edit → Bool) :
    Migrates .detect (fill pieces last (Edit.value done)) (migrated .detect text) := by
  have hpatched : ∀ e : Edit, e.file = .detect → decide (e.edited <:+: fill pieces last (Edit.value done)) = done e :=
    fun e he => Bool.eq_iff_iff.2 (by rw [decide_eq_true_iff]; exact h.infix_edited hup done he)
  have hwin : decide (patchedWin <:+: fill pieces last (Edit.value done)) = done .win := hpatched .win rfl
  have hnix : decide (patchedNix <:+: fill pieces last (Edit.value done)) = done .nix := hpatched .nix rfl
  have hall : fill pieces last (Edit.value (Function.update (Function.update done .win true) .nix true)) =
      migrated .detect text := by
    rw [h.migrated_eq]
    refine h.congr fun e he => ?_
    cases e with
    | win => rfl
    | nix => rfl
    | probe => cases he
    | method => cases he
    | vsenv => cases he
  unfold Migrates
  rw [patch_detect]
  unfold patchBcc64xLldDetection
  simp only [hwin, hnix]
  cases hboth : done .win && done .nix with
  | true =>
    obtain ⟨hdone, hdone'⟩ := Bool.and_eq_true_iff.1 hboth
    have hself : Function.update done .win true = done := Function.update_eq_self_iff.2 hdone.symm
    have hself' : Function.update done .nix true = done := Function.update_eq_self_iff.2 hdone'.symm
    rw [hself, hself'] at hall
    exact .inr ⟨if_pos rfl, hall⟩
  | false =>
    have hfirst : patchContext (done .win) originalWin patchedWin
        "Meson 1.12.0 Windows LLD detection patch context does not match" (fill pieces last (Edit.value done)) =
        .ok (fill pieces last (Edit.value (Function.update done .win true))) :=
      patchContext_state h hup done (e := .win) rfl _
    have hsecond : patchContext (done .nix) originalNix patchedNix
        "Meson 1.12.0 Unix-like LLD detection patch context does not match"
        (fill pieces last (Edit.value (Function.update done .win true))) = .ok (migrated .detect text) := by
      rw [← hall]
      exact patchContext_state h hup (Function.update done .win true) (e := .nix) rfl _
    left
    rw [if_neg Bool.false_ne_true, hfirst]
    simp only
    rw [hsecond]

theorem linkers_migrates (h : Templated .linkers text pieces last) (hup : Upstream .linkers text)
    (done : Edit → Bool) : Migrates .linkers (fill pieces last (Edit.value done)) (migrated .linkers text) := by
  -- the migration undoes `previous_method`
  have hmethod : migrateMethod (fill pieces last (Edit.value done)) =
      fill pieces last (Edit.value (Function.update done .method false)) := by
    have hin : previousMethod <:+: fill pieces last (Edit.value done) ↔ done .method = true :=
      h.infix_edited hup done (e := .method) rfl
    unfold migrateMethod
    cases hdone : done .method with
    | true =>
      rw [if_pos (hin.2 hdone)]
      exact h.undo done (e := .method) rfl hdone
    | false =>
      have hnot : ¬ previousMethod <:+: fill pieces last (Edit.value done) := fun hprevious => by
        rw [hin.1 hprevious] at hdone
        cases hdone
      have hself : Function.update done .method false = done := Function.update_eq_self_iff.2 hdone.symm
      rw [if_neg hnot, hself]
  have hall : fill pieces last (Edit.value (Function.update (Function.update done .method false) .probe true)) =
      migrated .linkers text := by
    rw [h.migrated_eq]
    refine h.congr fun e he => ?_
    cases e with
    | probe => rfl
    | method => rfl
    | win => cases he
    | nix => cases he
    | vsenv => cases he
  left
  rw [patch_linkers]
  unfold patchWindowsLldAllowUndefined
  simp only [hmethod]
  generalize Function.update done .method false = done' at hall
  have hin : patchedProbe <:+: fill pieces last (Edit.value done') ↔ done' .probe = true :=
    h.infix_edited hup done' (e := .probe) rfl
  cases hdone : done' .probe with
  | true =>
    have hself : Function.update done' .probe true = done' := Function.update_eq_self_iff.2 hdone.symm
    rw [hself] at hall
    rw [if_pos (hin.2 hdone), hall]
  | false =>
    have hnot : ¬ patchedProbe <:+: fill pieces last (Edit.value done') := fun hpatched => by
      rw [hin.1 hpatched] at hdone
      cases hdone
    have hcount : count originalProbe (fill pieces last (Edit.value done')) = 1 :=
      h.count_original hup done' (e := .probe) rfl hdone
    have hmake : replaceFirst originalProbe patchedProbe (fill pieces last (Edit.value done')) =
        migrated .linkers text := (h.make done' (e := .probe) rfl hdone).trans hall
    rw [if_neg hnot, if_neg (not_not.2 hcount), hmake]

theorem vsenv_migrates (h : Templated .vsenv text pieces last) (hup : Upstream .vsenv text) (done : Edit → Bool) :
    Migrates .vsenv (fill pieces last (Edit.value done)) (migrated .vsenv text) := by
  have hin : patchedVsenv <:+: fill pieces last (Edit.value done) ↔ done .vsenv = true :=
    h.infix_edited hup done (e := .vsenv) rfl
  have hall : fill pieces last (Edit.value (Function.update done .vsenv true)) = migrated .vsenv text := by
    rw [h.migrated_eq]
    refine h.congr fun e he => ?_
    cases e with
    | vsenv => rfl
    | win => cases he
    | nix => cases he
    | probe => cases he
    | method => cases he
  unfold Migrates
  rw [patch_vsenv]
  unfold patchBcc64xVsenvDetection
  cases hdone : done .vsenv with
  | true =>
    have hself : Function.update done .vsenv true = done := Function.update_eq_self_iff.2 hdone.symm
    rw [hself] at hall
    exact .inr ⟨if_pos (hin.2 hdone), hall⟩
  | false =>
    have hnot : ¬ patchedVsenv <:+: fill pieces last (Edit.value done) := fun hpatched => by
      rw [hin.1 hpatched] at hdone
      cases hdone
    have hcount : count originalVsenv (fill pieces last (Edit.value done)) = 1 :=
      h.count_original hup done (e := .vsenv) rfl hdone
    have hmake : replaceFirst originalVsenv patchedVsenv (fill pieces last (Edit.value done)) =
        migrated .vsenv text := (h.make done (e := .vsenv) rfl hdone).trans hall
    left
    rw [if_neg hnot, if_neg (not_not.2 hcount), hmake]

theorem variant_migrates (hup : Upstream f text) {edits : List Edit} (hnodup : edits.Nodup) :
    Migrates f (variant edits f text) (migrated f text) := by
  obtain ⟨pieces, last, h⟩ := hup.template
  have hstate := h.foldl_apply (hnodup.filter fun e => decide (e.file = f)) fun e he => by
    simpa using (List.mem_filter.1 he).2
  rw [variant, hstate]
  cases f with
  | detect => exact detect_migrates h hup _
  | linkers => exact linkers_migrates h hup _
  | vsenv => exact vsenv_migrates h hup _

end Patching

/-- The migrated text is the upstream text with the contexts of the bootstrap replaced and nothing else changed. -/
theorem migrated_template {f : MesonFile} {text : Text} (hup : Upstream f text) :
    ∃ pieces last, (slots pieces).Perm (Edit.contexts f) ∧ text = fill pieces last Edit.original ∧
      migrated f text = fill pieces last Edit.edited := by
  have hwhole : ∀ {pieces last}, Templated f text pieces last → Edit.contexts f = Edit.all f →
      migrated f text = fill pieces last Edit.edited := fun h hcontexts => by
    rw [h.migrated_eq, hcontexts]
    refine fill_congr fun e he => ?_
    rw [Edit.value, decide_eq_true (h.slots.subset he), if_pos rfl]
  cases f with
  | detect =>
    obtain ⟨pieces, last, h⟩ := hup.template
    exact ⟨pieces, last, h.slots, h.text, hwhole h rfl⟩
  | linkers =>
    have hcount : count originalProbe text = 1 := hup.1
    have hne : originalProbe ≠ [] := Edit.probe.borderless.1.1
    have hin : originalProbe <:+: text := (count_pos_iff hne).1 (by omega)
    obtain ⟨a, b, htext, hreplaced⟩ := replaceFirst_eq (w := patchedProbe) hin
    refine ⟨[(a, .probe)], b, .refl _, ?_, ?_⟩
    · rw [fill_cons]
      exact htext
    · rw [fill_cons]
      exact hreplaced
  | vsenv =>
    obtain ⟨pieces, last, h⟩ := hup.template
    exact ⟨pieces, last, h.slots, h.text, hwhole h rfl⟩

/-! ## Runs over a tree -/

/-- The contents of the three files, before line endings are normalised. -/
abbrev Sources := MesonFile → Text

/-- A patcher on its file: the tree it leaves, and the message when it stops. -/
def runPatcher (f : MesonFile) (tree : Sources) : Sources × Option String :=
  match patch f (TextFile.read (tree f)) with
  | .keep => (tree, none)
  | .write text => (Function.update tree f text, none)
  | .stop message => (tree, some message)

/-- Patchers one after the other; one that stops ends the run. -/
def runPatchers : List MesonFile → Sources → Sources × Option String
  | [], tree => (tree, none)
  | f :: fs, tree =>
    match runPatcher f tree with
    | (tree', none) => runPatchers fs tree'
    | (tree', some message) => (tree', some message)

/-- The patchers in the order of `main`. -/
def patchers : List MesonFile := [.detect, .linkers, .vsenv]

theorem Edit.not_mem_edited (e : Edit) : '\r' ∉ e.edited := by
  cases e
  all_goals
    simp only [Edit.edited, patchedWin, patchedNix, patchedProbe, previousMethod, patchedVsenv, lines,
      List.flatMap_cons, List.flatMap_nil]
    repeat rw [String.toList_ofList]
    decide +kernel

theorem Edit.not_mem_apply (e : Edit) {text : Text} (h : '\r' ∉ text) : '\r' ∉ e.apply text := fun hmem =>
  (mem_replaceFirst hmem).elim h e.not_mem_edited

/-- The edits bring in no carriage return. -/
theorem not_mem_foldl : ∀ (edits : List Edit) {text : Text}, '\r' ∉ text → '\r' ∉ edits.foldl Edit.apply text
  | [], _, h => h
  | e :: edits, _, h => not_mem_foldl edits (e.not_mem_apply h)

theorem not_mem_migrated {f : MesonFile} {text : Text} (h : '\r' ∉ text) : '\r' ∉ migrated f text := not_mem_foldl _ h

theorem runPatcher_migrates {f : MesonFile} {tree : Sources} {text : Text}
    (h : Migrates f (TextFile.read (tree f)) text) :
    ∃ text', runPatcher f tree = (Function.update tree f text', none) ∧
      (text' = text ∨ (patch f text = .keep ∧ text' = tree f ∧ TextFile.read (tree f) = text)) := by
  unfold runPatcher
  rcases h with hwrite | ⟨hkeep, heq⟩
  · rw [hwrite]
    exact ⟨text, rfl, .inl rfl⟩
  · rw [hkeep]
    refine ⟨tree f, ?_, .inr ⟨heq ▸ hkeep, rfl, heq⟩⟩
    rw [Function.update_eq_self]

/-- A run over files whose texts migrate changes those files. -/
theorem runPatchers_migrates (text : MesonFile → Text) : ∀ (fs : List MesonFile) (tree : Sources), fs.Nodup →
    (∀ f ∈ fs, Migrates f (TextFile.read (tree f)) (text f)) →
    ∃ tree', runPatchers fs tree = (tree', none) ∧ (∀ f ∉ fs, tree' f = tree f) ∧
      ∀ f ∈ fs, tree' f = text f ∨
        (patch f (text f) = .keep ∧ tree' f = tree f ∧ TextFile.read (tree f) = text f)
  | [], tree, _, _ => ⟨tree, rfl, fun _ _ => rfl, fun f hf => by cases hf⟩
  | f :: fs, tree, hnodup, h => by
    obtain ⟨hf, hnodup⟩ := List.nodup_cons.1 hnodup
    obtain ⟨text', hrun, htext'⟩ := runPatcher_migrates (h f (List.mem_cons_self ..))
    have hother : ∀ f' ∈ fs, Function.update tree f text' f' = tree f' := fun f' hf' => by
      have hne : f' ≠ f := fun heq => hf (heq ▸ hf')
      rw [Function.update_of_ne hne]
    obtain ⟨tree', hrun', hrest, hfs⟩ := runPatchers_migrates text fs (Function.update tree f text') hnodup
      fun f' hf' => by rw [hother f' hf']; exact h f' (List.mem_cons_of_mem _ hf')
    refine ⟨tree', ?_, fun f' hf' => ?_, fun f' hf' => ?_⟩
    · rw [runPatchers, hrun]
      exact hrun'
    · obtain ⟨hne, hf'⟩ := not_or.1 fun hor => hf' (List.mem_cons.2 hor)
      rw [hrest f' hf', Function.update_of_ne hne]
    · rcases List.mem_cons.1 hf' with rfl | hf'
      · rw [hrest f' hf, Function.update_self]
        exact htext'
      · have hthis := hfs f' hf'
        rwa [hother f' hf'] at hthis

/-- A run over files that the patchers keep, or write as they are, changes nothing. -/
theorem runPatchers_again : ∀ {fs : List MesonFile} {tree : Sources},
    (∀ f ∈ fs, patch f (TextFile.read (tree f)) = .keep ∨ patch f (TextFile.read (tree f)) = .write (tree f)) →
    runPatchers fs tree = (tree, none)
  | [], _, _ => rfl
  | f :: fs, tree, h => by
    have hrun : runPatcher f tree = (tree, none) := by
      unfold runPatcher
      rcases h f (List.mem_cons_self ..) with hkeep | hwrite
      · rw [hkeep]
      · rw [hwrite]
        exact congrArg (·, none) (Function.update_eq_self ..)
    rw [runPatchers, hrun]
    exact runPatchers_again fun f' hf' => h f' (List.mem_cons_of_mem _ hf')

/-- The migrated text is patched: the patchers of `detect.py` and `vsenv.py` keep it, the one of `linkers.py` writes
it once more. -/
theorem patch_migrated {f : MesonFile} {text : Text} (hup : Upstream f text) :
    patch f (migrated f text) = if f = .linkers then .write (migrated f text) else .keep := by
  have hconverges := upstream_converges hup
  have hpatched : patched f text = migrated f text := by
    have hmigrates : Migrates f text (migrated f text) := by
      have hvariant : Migrates f (variant [] f text) (migrated f text) := variant_migrates hup List.nodup_nil
      exact hvariant
    rcases hmigrates with hwrite | ⟨hkeep, -⟩
    · exact patched_of_write hwrite
    · rw [hconverges.first] at hkeep
      cases hkeep
  rw [← hpatched]
  exact hconverges.again

/-! ## Contexts that do not match -/

/-- A context that is not patched does not occur exactly once. -/
def Unmatched (f : MesonFile) (text : Text) : Prop :=
  ∃ e ∈ Edit.contexts f, ¬ e.edited <:+: text ∧ count e.original text ≠ 1

theorem patchContext_unmatched {original patched text : Text} (h : count original text ≠ 1) (message : String) :
    patchContext false original patched message text = .error message := by
  rw [patchContext, if_neg Bool.false_ne_true, if_pos h]

/-- What a context leaves when it does not stop: the pattern of the other one occurs as often as before. -/
theorem patchContext_count {e e' : Edit} (hfile : e'.file = e.file) (hne : e' ≠ e) {isPatched : Bool} {message : String}
    {text text' : Text} (h : patchContext isPatched e.original e.edited message text = .ok text') :
    count e'.original text' = count e'.original text := by
  obtain ⟨hapart, hapart'⟩ := (Edit.apart_of_ne hfile hne).1
  unfold patchContext at h
  split at h
  · cases h
    rfl
  · split at h
    · cases h
    · cases h
      exact count_replaceFirst e'.borderless.1.1 hapart hapart'

theorem migrateMethod_count {v : Text} (hv : v ≠ []) (hprevious : Apart v previousMethod)
    (horiginal : Apart v originalMethod) (text : Text) : count v (migrateMethod text) = count v text := by
  unfold migrateMethod
  split
  · exact count_replaceFirst hv hprevious horiginal
  · rfl

theorem detect_unmatched {text : Text} (h : Unmatched .detect text) :
    ∃ message, patchBcc64xLldDetection text = .stop message := by
  obtain ⟨e, he, hno, hcount⟩ := h
  unfold patchBcc64xLldDetection
  rcases List.mem_cons.1 he with rfl | he
  · -- the first context stops
    have hwin : decide (patchedWin <:+: text) = false := decide_eq_false hno
    have hcount' : count originalWin text ≠ 1 := hcount
    simp only [hwin, Bool.false_and, Bool.false_eq_true, if_false]
    rw [patchContext_unmatched hcount']
    exact ⟨_, rfl⟩
  · obtain rfl := List.mem_singleton.1 he
    have hnix : decide (patchedNix <:+: text) = false := decide_eq_false hno
    simp only [hnix, Bool.and_false, Bool.false_eq_true, if_false]
    cases hfirst : patchContext (decide (patchedWin <:+: text)) originalWin patchedWin
        "Meson 1.12.0 Windows LLD detection patch context does not match" text with
    | error message => exact ⟨_, rfl⟩
    | ok text' =>
      have hfile : Edit.nix.file = Edit.win.file := rfl
      have hsame : count originalNix text' = count originalNix text :=
        patchContext_count hfile (by decide) hfirst
      have hcount' : count originalNix text' ≠ 1 := hsame ▸ hcount
      simp only
      rw [patchContext_unmatched hcount']
      exact ⟨_, rfl⟩

theorem linkers_unmatched {text : Text} (h : Unmatched .linkers text) :
    ∃ message, patchWindowsLldAllowUndefined text = .stop message := by
  obtain ⟨e, he, hno, hcount⟩ := h
  obtain rfl := List.mem_singleton.1 he
  have hprobe : Edit.probe.file = Edit.method.file := rfl
  obtain ⟨⟨h1, h2⟩, h3, h4⟩ := Edit.apart_of_ne hprobe (by decide)
  obtain ⟨⟨hne, -⟩, hne', -⟩ := Edit.probe.borderless
  have hcount' : count originalProbe (migrateMethod text) ≠ 1 := by
    have hsame : count originalProbe (migrateMethod text) = count originalProbe text :=
      migrateMethod_count hne h2 h1 text
    rw [hsame]
    exact hcount
  have hno' : ¬ patchedProbe <:+: migrateMethod text := fun hin => by
    have hpos : 0 < count patchedProbe (migrateMethod text) := (count_pos_iff hne').2 hin
    have hsame : count patchedProbe (migrateMethod text) = count patchedProbe text :=
      migrateMethod_count hne' h4 h3 text
    rw [hsame] at hpos
    exact hno ((count_pos_iff hne').1 hpos)
  unfold patchWindowsLldAllowUndefined
  simp only
  rw [if_neg hno', if_pos hcount']
  exact ⟨_, rfl⟩

theorem vsenv_unmatched {text : Text} (h : Unmatched .vsenv text) :
    ∃ message, patchBcc64xVsenvDetection text = .stop message := by
  obtain ⟨e, he, hno, hcount⟩ := h
  obtain rfl := List.mem_singleton.1 he
  have hno' : ¬ patchedVsenv <:+: text := hno
  have hcount' : count originalVsenv text ≠ 1 := hcount
  unfold patchBcc64xVsenvDetection
  rw [if_neg hno', if_pos hcount']
  exact ⟨_, rfl⟩

/-- A patcher whose context does not match stops and leaves the tree as it is. -/
theorem runPatcher_unmatched {f : MesonFile} {tree : Sources} (h : Unmatched f (TextFile.read (tree f))) :
    ∃ message, runPatcher f tree = (tree, some message) := by
  have hstops : ∃ message, patch f (TextFile.read (tree f)) = .stop message := by
    cases f with
    | detect => exact detect_unmatched h
    | linkers => exact linkers_unmatched h
    | vsenv => exact vsenv_unmatched h
  obtain ⟨message, hstop⟩ := hstops
  refine ⟨message, ?_⟩
  unfold runPatcher
  rw [hstop]

/-! ## Convergence -/

/-- From every partly migrated variant of the upstream texts the patchers come to the same texts, the upstream ones
with the contexts of the bootstrap replaced; a further run changes nothing. A patcher whose context does not match
leaves its file alone. -/
theorem patchers_converge :
    (∀ (upstream : MesonFile → Text) (edits : List Edit) (tree : Sources), (∀ f, Upstream f (upstream f)) →
      (∀ f, '\r' ∉ upstream f) → edits.Nodup →
      (∀ f, TextFile.read (tree f) = variant edits f (upstream f)) →
      ∃ tree', runPatchers patchers tree = (tree', none) ∧
        (∀ f, TextFile.read (tree' f) = migrated f (upstream f)) ∧ runPatchers patchers tree' = (tree', none)) ∧
    (∀ f text, Upstream f text → ∃ pieces last, (slots pieces).Perm (Edit.contexts f) ∧
      text = fill pieces last Edit.original ∧ migrated f text = fill pieces last Edit.edited) ∧
    (∀ (f : MesonFile) (tree : Sources), Unmatched f (TextFile.read (tree f)) →
      ∃ message, runPatcher f tree = (tree, some message)) := by
  refine ⟨?_, fun f text hup => migrated_template hup, fun f tree h => runPatcher_unmatched h⟩
  intro upstream edits tree hup hnewlines hnodup htree
  have hall : ∀ f, f ∈ patchers := fun f => by cases f <;> decide
  obtain ⟨tree', hrun, -, hfiles⟩ := runPatchers_migrates (fun f => migrated f (upstream f)) patchers tree
    (by decide) fun f _ => by rw [htree f]; exact variant_migrates (hup f) hnodup
  have hself : ∀ f, TextFile.read (migrated f (upstream f)) = migrated f (upstream f) := fun f =>
    TextFile.read_eq_self (not_mem_migrated (hnewlines f))
  have hmigrated : ∀ f, TextFile.read (tree' f) = migrated f (upstream f) := by
    intro f
    rcases hfiles f (hall f) with heq | ⟨-, hsame, heq⟩
    · rw [heq, hself]
    · rw [hsame, heq]
  refine ⟨tree', hrun, hmigrated, runPatchers_again fun f hf => ?_⟩
  rw [hmigrated]
  rcases hfiles f hf with heq | ⟨hkeep, -, -⟩
  · have hagain := patch_migrated (hup f)
    split at hagain
    · exact .inr (heq ▸ hagain)
    · exact .inl hagain
  · exact .inl hkeep

/-- The original contexts of each file and nothing else. -/
def originals : Sources
  | .detect => originalWin ++ originalNix
  | .linkers => originalProbe ++ originalMethod
  | .vsenv => originalVsenv

theorem originals_upstream (f : MesonFile) : Upstream f (originals f) := by
  cases f
  all_goals
    simp only [Upstream, originals, originalWin, originalNix, originalProbe, originalMethod, originalVsenv, patchedWin,
      patchedNix, patchedProbe, previousMethod, patchedVsenv, lines, List.flatMap_cons, List.flatMap_nil]
    repeat rw [String.toList_ofList]
    decide +kernel

theorem not_mem_originals (f : MesonFile) : '\r' ∉ originals f := by
  cases f
  all_goals
    simp only [originals, originalWin, originalNix, originalProbe, originalMethod, originalVsenv, lines,
      List.flatMap_cons, List.flatMap_nil]
    repeat rw [String.toList_ofList]
    decide +kernel

/-- A tree that the first version of the bootstrap has been at. -/
theorem patchers_converge_originals :
    ∃ tree', runPatchers patchers (fun f => variant [.nix, .method] f (originals f)) = (tree', none) ∧
      (∀ f, TextFile.read (tree' f) = migrated f (originals f)) ∧ runPatchers patchers tree' = (tree', none) :=
  patchers_converge.1 originals [.nix, .method] _ originals_upstream not_mem_originals (by decide) fun f =>
    TextFile.read_eq_self (not_mem_foldl _ (not_mem_originals f))

end BuildEngine.Meson
