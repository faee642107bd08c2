/-
Bootstraps of one shared Meson tree. A process runs the three patchers of `main` in order, each as the steps
read, decide, truncate and write (`write_text` opens the file for writing, which truncates it, and then writes),
and starts Meson; any number of processes take their steps in any order. Under `Allowed` no process disturbs
another one (`bootstraps_undisturbed`).
-/
import BuildEngine.Base.Schedule
import BuildEngine.Meson.Patch

namespace BuildEngine.Meson

open Base.Schedule

/-! ## Processes -/

inductive Phase where
  | reading (f : MesonFile)
  | deciding (f : MesonFile) (text : Text)
  | truncating (f : MesonFile) (text : Text)
  | writing (f : MesonFile) (text : Text)
  /-- about to start Meson -/
  | starting
  | meson
  | stopped (message : String)
  deriving DecidableEq, Repr

/-- The phase after the patcher of a file returns. -/
def next : MesonFile → Phase
  | .detect => .reading .linkers
  | .linkers => .reading .vsenv
  | .vsenv => .starting

/-- The phase after a decision. -/
def decided (f : MesonFile) : Decision → Phase
  | .keep => next f
  | .write text => .truncating f text
  | .stop message => .stopped message

/-- The three files of the tree and the phase of every process. -/
structure Tree where
  text : MesonFile → Text
  phase : ℕ → Phase

/-- Every process is at its first step. -/
def Tree.start (text : MesonFile → Text) : Tree := ⟨text, fun _ => .reading .detect⟩

def Tree.goto (s : Tree) (p : ℕ) (phase : Phase) : Tree := { s with phase := Function.update s.phase p phase }

def Tree.setText (s : Tree) (f : MesonFile) (text : Text) : Tree := { s with text := Function.update s.text f text }

/-- The next step of process `p`. A write starts at the front of the file. -/
def step (p : ℕ) (s : Tree) : Tree :=
  match s.phase p with
  | .reading f => s.goto p (.deciding f (s.text f))
  | .deciding f text => s.goto p (decided f (patch f text))
  | .truncating f text => (s.setText f []).goto p (.writing f text)
  | .writing f text => (s.setText f (text ++ (s.text f).drop text.length)).goto p (next f)
  | .starting => s.goto p .meson
  | .meson => s
  | .stopped _ => s

/-! ## What may go wrong, and what keeps it from going wrong -/

/-- `p` is between the truncation and the write of `f`. -/
def Writes (s : Tree) (p : ℕ) (f : MesonFile) : Prop := ∃ text, s.phase p = .writing f text

/-- The step of `p` keeps what concurrent bootstraps owe each other: it does not stop with a context error, it
does not start Meson beside a truncated file, and it does not touch a file of a patched tree. -/
structure Undisturbed (upstream : MesonFile → Text) (p : ℕ) (s : Tree) : Prop where
  runs : ∀ message, (step p s).phase p ≠ .stopped message
  starts : s.phase p = .starting → ∀ f, s.text f ≠ []
  quiet : (∀ f, s.text f = patched f (upstream f)) →
    ∀ f text, s.phase p ≠ .truncating f text ∧ s.phase p ≠ .writing f text

/-- The step of `p` does not read a truncated file, and it truncates a file only while that holds the upstream
text. -/
def Allowed (upstream : MesonFile → Text) (p : ℕ) (s : Tree) : Prop :=
  match s.phase p with
  | .reading f => s.text f ≠ []
  | .truncating f _ => s.text f = upstream f
  | _ => True

instance (upstream : MesonFile → Text) (p : ℕ) (s : Tree) : Decidable (Allowed upstream p s) := by
  unfold Allowed
  exact match s.phase p with
    | .reading _ | .truncating _ _ => inferInstance
    | .deciding _ _ | .writing _ _ | .starting | .meson | .stopped _ => .isTrue trivial

/-! ## The invariant -/

/-- The files that are patched before a file is read. -/
def before : MesonFile → List MesonFile
  | .detect => []
  | .linkers => [.detect]
  | .vsenv => [.detect, .linkers]

section Invariant

variable (upstream : MesonFile → Text)

/-- A file is as it was, or as its patcher leaves it. -/
def Whole (f : MesonFile) (text : Text) : Prop := text = upstream f ∨ text = patched f (upstream f)

/-- The files in front of `f` are patched. -/
def Reached (f : MesonFile) (text : MesonFile → Text) : Prop := ∀ g ∈ before f, text g = patched g (upstream g)

/-- What a process knows about the tree. -/
def Phase.Sound (text : MesonFile → Text) : Phase → Prop
  | .reading f => Reached upstream f text
  | .deciding f read => Reached upstream f text ∧
      (read = upstream f ∨ read = patched f (upstream f) ∧ text f = read)
  | .truncating f new => Reached upstream f text ∧ new = patched f (upstream f)
  | .writing f new => Reached upstream f text ∧ new = patched f (upstream f)
  | .starting => ∀ f, text f = patched f (upstream f)
  | .meson => ∀ f, text f = patched f (upstream f)
  | .stopped _ => False

/-- A file is whole and nobody writes it, or it is truncated and one process is to write it. -/
def FileSound (s : Tree) (f : MesonFile) : Prop :=
  (Whole upstream f (s.text f) ∧ ∀ p, ¬ Writes s p f) ∨
    (s.text f = [] ∧ ∃ p, Writes s p f ∧ ∀ q, Writes s q f → q = p)

structure Sound (s : Tree) : Prop where
  files : ∀ f, FileSound upstream s f
  phases : ∀ p, (s.phase p).Sound upstream s.text

variable {upstream : MesonFile → Text}

/-- What a process knows stays true as long as patched files stay patched. -/
theorem Phase.Sound.mono {text text' : MesonFile → Text}
    (hkeep : ∀ f, text f = patched f (upstream f) → text' f = patched f (upstream f)) :
    ∀ {phase : Phase}, phase.Sound upstream text → phase.Sound upstream text'
  | .reading _, h => fun g hg => hkeep g (h g hg)
  | .deciding f read, ⟨hreached, hread⟩ => by
    refine ⟨fun g hg => hkeep g (hreached g hg), ?_⟩
    rcases hread with hread | ⟨rfl, hread⟩
    · exact .inl hread
    · exact .inr ⟨rfl, hkeep f hread⟩
  | .truncating _ _, ⟨hreached, hnew⟩ => ⟨fun g hg => hkeep g (hreached g hg), hnew⟩
  | .writing _ _, ⟨hreached, hnew⟩ => ⟨fun g hg => hkeep g (hreached g hg), hnew⟩
  | .starting, h => fun f => hkeep f (h f)
  | .meson, h => fun f => hkeep f (h f)
  | .stopped _, h => h

theorem next_sound {f : MesonFile} {text : MesonFile → Text} (hreached : Reached upstream f text)
    (hf : text f = patched f (upstream f)) : (next f).Sound upstream text := by
  cases f with
  | detect =>
    rintro g hg
    rw [before, List.mem_singleton] at hg
    exact hg ▸ hf
  | linkers =>
    rintro g hg
    rw [before, List.mem_cons, List.mem_singleton] at hg
    rcases hg with rfl | rfl
    · exact hreached _ (.head _)
    · exact hf
  | vsenv =>
    rintro (_ | _ | _)
    · exact hreached _ (.head _)
    · exact hreached _ (.tail _ (.head _))
    · exact hf

theorem next_ne_writing {f g : MesonFile} {text : Text} : next f ≠ .writing g text := by
  cases f <;> exact Phase.noConfusion

/-! ## One step -/

@[simp] theorem goto_text (s : Tree) (p : ℕ) (phase : Phase) : (s.goto p phase).text = s.text := rfl

@[simp] theorem setText_phase (s : Tree) (f : MesonFile) (text : Text) : (s.setText f text).phase = s.phase := rfl

@[simp] theorem goto_phase_self (s : Tree) (p : ℕ) (phase : Phase) : (s.goto p phase).phase p = phase :=
  Function.update_self ..

theorem goto_phase_of_ne {s : Tree} {p q : ℕ} {phase : Phase} (h : q ≠ p) :
    (s.goto p phase).phase q = s.phase q :=
  Function.update_of_ne h ..

@[simp] theorem setText_text_self (s : Tree) (f : MesonFile) (text : Text) : (s.setText f text).text f = text :=
  Function.update_self ..

theorem setText_text_of_ne {s : Tree} {f g : MesonFile} {text : Text} (h : g ≠ f) :
    (s.setText f text).text g = s.text g :=
  Function.update_of_ne h ..

theorem writes_goto_of_ne {s : Tree} {p q : ℕ} {phase : Phase} {f : MesonFile} (h : q ≠ p) :
    Writes (s.goto p phase) q f ↔ Writes s q f := by
  unfold Writes
  rw [goto_phase_of_ne h]

/-- A process that writes no file before and after its step changes the writers of none. -/
theorem writes_goto {s : Tree} {p q : ℕ} {phase : Phase} {f : MesonFile} (hold : ¬ Writes s p f)
    (hnew : ∀ text, phase ≠ .writing f text) : Writes (s.goto p phase) q f ↔ Writes s q f := by
  by_cases h : q = p
  · subst h
    constructor
    · rintro ⟨text, hw⟩
      rw [goto_phase_self] at hw
      exact absurd hw (hnew text)
    · intro hw
      exact absurd hw hold
  · exact writes_goto_of_ne h

/-- A file stays sound when neither its text nor its writers change. -/
theorem FileSound.congr {s s' : Tree} {f : MesonFile} (h : FileSound upstream s f)
    (htext : s'.text f = s.text f) (hwriters : ∀ q, Writes s' q f ↔ Writes s q f) : FileSound upstream s' f := by
  unfold FileSound
  simp only [htext, hwriters]
  exact h

/-- A step that changes the phase of `p` only. -/
theorem Sound.goto {s : Tree} {p : ℕ} {phase : Phase} (h : Sound upstream s) (hold : ∀ f, ¬ Writes s p f)
    (hnew : ∀ f text, phase ≠ .writing f text) (hphase : phase.Sound upstream s.text) :
    Sound upstream (s.goto p phase) := by
  refine ⟨fun f => (h.files f).congr rfl fun _ => writes_goto (hold f) (hnew f), fun q => ?_⟩
  by_cases hq : q = p
  · subst hq
    rw [goto_phase_self]
    exact hphase
  · rw [goto_phase_of_ne hq]
    exact h.phases q

/-- The truncation of a file that holds its upstream text. -/
theorem Sound.truncate {s : Tree} {p : ℕ} {f : MesonFile} {new : Text} (h : Sound upstream s)
    (hup : Converges f (upstream f)) (hp : s.phase p = .truncating f new) (hf : s.text f = upstream f) :
    Sound upstream ((s.setText f []).goto p (.writing f new)) := by
  have hsound := h.phases p
  rw [hp] at hsound
  obtain ⟨hreached, hnew⟩ := hsound
  have hkeep : ∀ g, s.text g = patched g (upstream g) → (s.setText f []).text g = patched g (upstream g) := by
    intro g hg
    by_cases hgf : g = f
    · subst hgf
      exact absurd (hg.symm.trans hf) hup.changed
    · rwa [setText_text_of_ne hgf]
  have hnone : ∀ q, ¬ Writes s q f := by
    rcases h.files f with ⟨-, hnone⟩ | ⟨hopen, -⟩
    · exact hnone
    · exact absurd (.inl (hf.symm.trans hopen)) hup.empty
  refine ⟨fun g => ?_, fun q => ?_⟩
  · by_cases hgf : g = f
    · subst hgf
      refine .inr ⟨setText_text_self .., p, ⟨new, goto_phase_self ..⟩, fun q hq => ?_⟩
      by_contra hqp
      exact hnone q ((writes_goto_of_ne hqp).1 hq)
    · refine (h.files g).congr (setText_text_of_ne hgf) fun q => ?_
      refine writes_goto ?_ ?_
      · rintro ⟨text, hw⟩
        exact Phase.noConfusion (hp.symm.trans hw)
      · rintro text heq
        cases heq
        exact hgf rfl
  · by_cases hq : q = p
    · subst hq
      rw [goto_phase_self]
      exact ⟨fun g hg => hkeep g (hreached g hg), hnew⟩
    · rw [goto_phase_of_ne hq]
      exact (h.phases q).mono hkeep

/-- The write of the only process that has the file open. -/
theorem Sound.write {s : Tree} {p : ℕ} {f : MesonFile} {new : Text} (h : Sound upstream s)
    (hp : s.phase p = .writing f new) :
    Sound upstream ((s.setText f (new ++ (s.text f).drop new.length)).goto p (next f)) := by
  have hsound := h.phases p
  rw [hp] at hsound
  obtain ⟨hreached, hnew⟩ := hsound
  obtain ⟨hempty, hone⟩ : s.text f = [] ∧ ∀ q, Writes s q f → q = p := by
    rcases h.files f with ⟨-, hnone⟩ | ⟨hempty, w, -, hone⟩
    · exact absurd ⟨new, hp⟩ (hnone p)
    · exact ⟨hempty, fun q hq => (hone q hq).trans (hone p ⟨new, hp⟩).symm⟩
  rw [hempty, List.drop_nil, List.append_nil, hnew]
  have hkeep : ∀ g, s.text g = patched g (upstream g) →
      (s.setText f (patched f (upstream f))).text g = patched g (upstream g) := by
    intro g hg
    by_cases hgf : g = f
    · subst hgf
      exact setText_text_self ..
    · rwa [setText_text_of_ne hgf]
  refine ⟨fun g => ?_, fun q => ?_⟩
  · by_cases hgf : g = f
    · subst hgf
      refine .inl ⟨.inr (setText_text_self ..), fun q hq => ?_⟩
      by_cases hqp : q = p
      · subst hqp
        obtain ⟨text, hw⟩ := hq
        rw [goto_phase_self] at hw
        exact next_ne_writing hw
      · exact hqp (hone q ((writes_goto_of_ne hqp).1 hq))
    · refine (h.files g).congr (setText_text_of_ne hgf) fun q => writes_goto ?_ fun _ => next_ne_writing
      rintro ⟨text, hw⟩
      cases hp.symm.trans hw
      exact hgf rfl
  · by_cases hq : q = p
    · subst hq
      rw [goto_phase_self]
      exact next_sound (fun g hg => hkeep g (hreached g hg)) (setText_text_self ..)
    · rw [goto_phase_of_ne hq]
      exact (h.phases q).mono hkeep

/-- The decision on a text that was read: what is patched is never stopped at. -/
theorem decided_sound {f : MesonFile} {read : Text} {text : MesonFile → Text} (hup : Converges f (upstream f))
    (h : Phase.Sound upstream text (.deciding f read)) : (decided f (patch f read)).Sound upstream text := by
  obtain ⟨hreached, rfl | ⟨rfl, hread⟩⟩ := h
  · rw [hup.first]
    exact ⟨hreached, rfl⟩
  · rw [hup.again]
    split
    · exact ⟨hreached, rfl⟩
    · exact next_sound hreached hread

theorem decided_ne_writing {f g : MesonFile} {decision : Decision} {text : Text} :
    decided f decision ≠ .writing g text := by
  cases decision with
  | keep => exact next_ne_writing
  | write new => exact Phase.noConfusion
  | stop message => exact Phase.noConfusion

theorem not_writes_of_phase {s : Tree} {p : ℕ} {phase : Phase} (hp : s.phase p = phase)
    (hphase : ∀ f text, phase ≠ .writing f text) (f : MesonFile) : ¬ Writes s p f := by
  rintro ⟨text, hw⟩
  exact hphase f text (hp.symm.trans hw)

variable (hup : ∀ f, Upstream f (upstream f))
include hup

/-- The step lemma. -/
theorem step_sound (p : ℕ) (s : Tree) (h : Sound upstream s) (hallowed : Allowed upstream p s) :
    Sound upstream (step p s) := by
  unfold step
  unfold Allowed at hallowed
  have hphase := h.phases p
  split
  next f hp =>
    rw [hp] at hphase hallowed
    refine h.goto (not_writes_of_phase hp (by rintro _ _ ⟨⟩)) (by rintro _ _ ⟨⟩) ⟨hphase, ?_⟩
    rcases h.files f with ⟨hwhole | hwhole, -⟩ | ⟨hempty, -⟩
    · exact .inl hwhole
    · exact .inr ⟨hwhole, rfl⟩
    · exact absurd hempty hallowed
  next f read hp =>
    rw [hp] at hphase
    exact h.goto (not_writes_of_phase hp (by rintro _ _ ⟨⟩)) (fun _ _ => decided_ne_writing)
      (decided_sound (upstream_converges (hup f)) hphase)
  next f new hp =>
    rw [hp] at hallowed
    exact h.truncate (upstream_converges (hup f)) hp hallowed
  next f new hp => exact h.write hp
  next hp =>
    rw [hp] at hphase
    exact h.goto (not_writes_of_phase hp (by rintro _ _ ⟨⟩)) (by rintro _ _ ⟨⟩) hphase
  next hp => exact h
  next message hp => exact h

/-- What the invariant says about a step. -/
theorem Sound.undisturbed {p : ℕ} {s : Tree} (h : Sound upstream s) (hallowed : Allowed upstream p s) :
    Undisturbed upstream p s := by
  have hnext := (step_sound hup p s h hallowed).phases p
  have hphase := h.phases p
  refine ⟨fun message hstop => ?_, fun hstart f hf => ?_, fun hpatched f text => ⟨fun hp => ?_, fun hp => ?_⟩⟩
  · rw [hstop] at hnext
    exact hnext
  · rw [hstart] at hphase
    exact (upstream_converges (hup f)).empty (.inr ((hphase f).symm.trans hf))
  · -- the truncation of a patched file is not allowed
    unfold Allowed at hallowed
    rw [hp] at hallowed
    exact (upstream_converges (hup f)).changed ((hpatched f).symm.trans hallowed)
  · rcases h.files f with ⟨-, hnone⟩ | ⟨hempty, -⟩
    · exact hnone p ⟨text, hp⟩
    · exact (upstream_converges (hup f)).empty (.inr ((hpatched f).symm.trans hempty))

omit hup in
theorem start_sound {text : MesonFile → Text} (htext : ∀ f, Whole upstream f (text f)) :
    Sound upstream (.start text) := by
  refine ⟨fun f => .inl ⟨htext f, ?_⟩, fun p => ?_⟩
  · rintro p ⟨text, hw⟩
    exact Phase.noConfusion hw
  · rintro g ⟨⟩

end Invariant

/-! ## Runs -/

/-- Every file of the tree is as its patcher leaves it. -/
def patchedTree (upstream : MesonFile → Text) : MesonFile → Text := fun f => patched f (upstream f)

/-- Any number of bootstraps on an upstream or a patched tree: as long as no process reads a truncated file and
none truncates a file that does not hold its upstream text, no process stops, none starts Meson beside a
truncated file and none touches a patched tree. -/
theorem bootstraps_undisturbed {upstream text : MesonFile → Text} (hup : ∀ f, Upstream f (upstream f))
    (htext : ∀ f, Whole upstream f (text f)) {schedule : List ℕ}
    (hallowed : Follows step (Allowed upstream) schedule (.start text)) :
    Follows step (Undisturbed upstream) schedule (.start text) :=
  hallowed.mono (fun p s hs => step_sound hup p s hs) (fun _ _ hs => hs.undisturbed hup) (start_sound htext)

/-! ## One bootstrap after another -/

@[simp] theorem goto_goto (s : Tree) (p : ℕ) (a b : Phase) : (s.goto p a).goto p b = s.goto p b := by
  simp only [Tree.goto, Function.update_idem]

@[simp] theorem goto_setText (s : Tree) (p : ℕ) (a : Phase) (f : MesonFile) (text : Text) :
    (s.goto p a).setText f text = (s.setText f text).goto p a := rfl

@[simp] theorem setText_setText (s : Tree) (f : MesonFile) (a b : Text) :
    (s.setText f a).setText f b = s.setText f b := by
  simp only [Tree.setText, Function.update_idem]

@[simp] theorem setText_self (s : Tree) (f : MesonFile) : s.setText f (s.text f) = s := by
  simp only [Tree.setText, Function.update_eq_self]

theorem step_reading {s : Tree} {p : ℕ} {f : MesonFile} (hp : s.phase p = .reading f) :
    step p s = s.goto p (.deciding f (s.text f)) := by
  rw [step, hp]

section Steps

variable (s : Tree) (p : ℕ) (f : MesonFile) (text : Text)

@[simp] theorem step_goto_reading : step p (s.goto p (.reading f)) = s.goto p (.deciding f (s.text f)) := by
  rw [step_reading (goto_phase_self ..), goto_goto, goto_text]

@[simp] theorem step_deciding :
    step p (s.goto p (.deciding f text)) = s.goto p (decided f (patch f text)) := by
  rw [step, goto_phase_self]
  exact goto_goto ..

@[simp] theorem step_truncating :
    step p (s.goto p (.truncating f text)) = (s.setText f []).goto p (.writing f text) := by
  rw [step, goto_phase_self]
  simp only [goto_setText, goto_goto]

@[simp] theorem step_writing : step p ((s.setText f []).goto p (.writing f text)) =
    (s.setText f text).goto p (next f) := by
  rw [step, goto_phase_self]
  simp

@[simp] theorem step_starting : step p (s.goto p .starting) = s.goto p .meson := by
  rw [step, goto_phase_self]
  exact goto_goto ..

variable (upstream : MesonFile → Text)

@[simp] theorem allowed_deciding : Allowed upstream p (s.goto p (.deciding f text)) := by
  rw [Allowed, goto_phase_self]
  trivial

@[simp] theorem allowed_truncating :
    Allowed upstream p (s.goto p (.truncating f text)) ↔ s.text f = upstream f := by
  rw [Allowed, goto_phase_self]
  rfl

@[simp] theorem allowed_writing : Allowed upstream p (s.goto p (.writing f text)) := by
  rw [Allowed, goto_phase_self]
  trivial

@[simp] theorem allowed_starting : Allowed upstream p (s.goto p .starting) := by
  rw [Allowed, goto_phase_self]
  trivial

end Steps

theorem allowed_reading {upstream : MesonFile → Text} {s : Tree} {p : ℕ} {f : MesonFile}
    (hp : s.phase p = .reading f) : Allowed upstream p s ↔ s.text f ≠ [] := by
  rw [Allowed, hp]

/-- A patcher that writes, undisturbed. -/
theorem follows_patch {upstream : MesonFile → Text} {s : Tree} {p : ℕ} {f : MesonFile}
    (hup : Converges f (upstream f)) (hp : s.phase p = .reading f) (hf : s.text f = upstream f) :
    Follows step (Allowed upstream) [p, p, p, p] s ∧
      run step [p, p, p, p] s = (s.setText f (patched f (upstream f))).goto p (next f) := by
  have hne : upstream f ≠ [] := fun h => hup.empty (.inl h)
  simp [Follows, allowed_reading hp, step_reading hp, hf, hne, hup.first, decided]

/-- A bootstrap of an upstream tree that nobody disturbs is allowed all the way to Meson. -/
theorem follows_bootstrap {upstream : MesonFile → Text} {s : Tree} {p : ℕ} (hup : ∀ f, Upstream f (upstream f))
    (hp : s.phase p = .reading .detect) (htext : s.text = upstream) :
    Follows step (Allowed upstream) (List.replicate 13 p) s ∧
      (run step (List.replicate 13 p) s).phase p = .meson := by
  obtain ⟨hdetect, hdetect'⟩ := follows_patch (upstream_converges (hup .detect)) hp (by rw [htext])
  set s₁ := (s.setText .detect (patched .detect (upstream .detect))).goto p (next .detect) with hs₁
  have htext₁ : s₁.text .linkers = upstream .linkers := by
    rw [hs₁, goto_text, setText_text_of_ne (by decide), htext]
  obtain ⟨hlinkers, hlinkers'⟩ :=
    follows_patch (upstream_converges (hup .linkers)) (hs₁ ▸ goto_phase_self ..) htext₁
  set s₂ := (s₁.setText .linkers (patched .linkers (upstream .linkers))).goto p (next .linkers) with hs₂
  have htext₂ : s₂.text .vsenv = upstream .vsenv := by
    rw [hs₂, goto_text, setText_text_of_ne (by decide), hs₁, goto_text, setText_text_of_ne (by decide), htext]
  obtain ⟨hvsenv, hvsenv'⟩ :=
    follows_patch (upstream_converges (hup .vsenv)) (hs₂ ▸ goto_phase_self ..) htext₂
  rw [show List.replicate 13 p = [p, p, p, p] ++ ([p, p, p, p] ++ ([p, p, p, p] ++ [p])) from rfl]
  simp only [follows_append, run_append, hdetect', hlinkers', hvsenv', next]
  refine ⟨⟨hdetect, hlinkers, hvsenv, allowed_starting .., trivial⟩, ?_⟩
  rw [run_cons, run_nil, step_starting]
  exact goto_phase_self ..

/-- A process reads a file that is not truncated and decides. -/
theorem follows_decide {upstream : MesonFile → Text} {s : Tree} {p : ℕ} {f : MesonFile} (hp : s.phase p = .reading f)
    (hne : s.text f ≠ []) :
    Follows step (Allowed upstream) [p, p] s ∧ run step [p, p] s = s.goto p (decided f (patch f (s.text f))) := by
  simp [Follows, allowed_reading hp, step_reading hp, hne]

/-- Two bootstraps of an upstream tree: 1 reads each of the first two files behind the write of 0, while 0 goes on to
Meson. -/
theorem follows_behind {upstream : MesonFile → Text} (hup : ∀ f, Upstream f (upstream f)) :
    Follows step (Allowed upstream)
      ([0, 0, 0, 0] ++ ([1, 1] ++ ([0, 0, 0, 0] ++ ([1, 1] ++ ([0, 0, 0, 0] ++ [0]))))) (.start upstream) := by
  have hne : ∀ f, patched f (upstream f) ≠ [] := fun f h => (upstream_converges (hup f)).empty (.inr h)
  have hkeep : patch .detect (patched .detect (upstream .detect)) = .keep := (upstream_converges (hup .detect)).again
  obtain ⟨hdetect, hdetect'⟩ :=
    follows_patch (upstream_converges (hup .detect)) (show (Tree.start upstream).phase 0 = _ from rfl) rfl
  set s₁ := ((Tree.start upstream).setText .detect (patched .detect (upstream .detect))).goto 0 (next .detect) with hs₁
  have htext₁ : s₁.text .detect = patched .detect (upstream .detect) := by
    rw [hs₁, goto_text, setText_text_self]
  obtain ⟨hread, hread'⟩ := follows_decide (show s₁.phase 1 = .reading .detect from rfl) (htext₁ ▸ hne .detect)
  rw [htext₁, hkeep] at hread'
  set s₂ := s₁.goto 1 (decided .detect .keep) with hs₂
  have htext₂ : s₂.text .linkers = upstream .linkers := by
    rw [hs₂, goto_text, hs₁, goto_text, setText_text_of_ne (by decide)]
    rfl
  obtain ⟨hlinkers, hlinkers'⟩ :=
    follows_patch (upstream_converges (hup .linkers)) (show s₂.phase 0 = _ from rfl) htext₂
  set s₃ := (s₂.setText .linkers (patched .linkers (upstream .linkers))).goto 0 (next .linkers) with hs₃
  have htext₃ : s₃.text .linkers = patched .linkers (upstream .linkers) := by
    rw [hs₃, goto_text, setText_text_self]
  obtain ⟨hbehind, hbehind'⟩ := follows_decide (show s₃.phase 1 = .reading .linkers from rfl) (htext₃ ▸ hne .linkers)
  set s₄ := s₃.goto 1 (decided .linkers (patch .linkers (s₃.text .linkers))) with hs₄
  have htext₄ : s₄.text .vsenv = upstream .vsenv := by
    rw [hs₄, goto_text, hs₃, goto_text, setText_text_of_ne (by decide), hs₂, goto_text, hs₁, goto_text,
      setText_text_of_ne (by decide)]
    rfl
  obtain ⟨hvsenv, hvsenv'⟩ := follows_patch (upstream_converges (hup .vsenv)) (show s₄.phase 0 = _ from rfl) htext₄
  simp only [follows_append, hdetect', hread', hlinkers', hbehind', hvsenv']
  exact ⟨hdetect, hread, hlinkers, hbehind, hvsenv, allowed_starting .., trivial⟩

section Patched

variable {upstream : MesonFile → Text} {s : Tree} {p : ℕ}

/-- A bootstrap of a patched tree is to truncate `linkers.py` after its fourth step. -/
theorem run_truncates (hup : ∀ f, Upstream f (upstream f)) (hp : s.phase p = .reading .detect)
    (htext : s.text = patchedTree upstream) :
    run step [p, p, p, p] s = s.goto p (.truncating .linkers (patchedTree upstream .linkers)) := by
  have hdetect : patch .detect (patchedTree upstream .detect) = .keep := (upstream_converges (hup .detect)).again
  have hlinkers : patch .linkers (patchedTree upstream .linkers) = .write (patchedTree upstream .linkers) :=
    (upstream_converges (hup .linkers)).again
  simp only [run_cons, run_nil, step_reading hp, step_deciding, htext, hdetect, decided, next, step_goto_reading,
    hlinkers]

/-- Four steps later it is to start Meson, and the tree is as before. -/
theorem run_starts (hup : ∀ f, Upstream f (upstream f)) (hp : s.phase p = .reading .detect)
    (htext : s.text = patchedTree upstream) : run step (List.replicate 8 p) s = s.goto p .starting := by
  have hvsenv : patch .vsenv (patchedTree upstream .vsenv) = .keep := (upstream_converges (hup .vsenv)).again
  have hself : s.setText .linkers (patchedTree upstream .linkers) = s := by rw [← htext, setText_self]
  rw [show List.replicate 8 p = [p, p, p, p] ++ [p, p, p, p] from rfl, run_append, run_truncates hup hp htext]
  simp only [run_cons, run_nil, step_truncating, step_writing, hself, next, step_goto_reading, htext,
    step_deciding, hvsenv, decided]

end Patched

theorem patch_linkers_nil :
    patch .linkers [] = .stop "Meson 1.12.0 Windows-LLD capability patch context does not match" := by
  decide +kernel

/-- Bootstraps of a patched tree disturb each other: 0 is to write `linkers.py`; while 1 has it truncated, 0 starts
Meson and 2 stops. -/
theorem patchedTree_disturbed {upstream : MesonFile → Text} (hup : ∀ f, Upstream f (upstream f)) :
    ¬ Undisturbed upstream 0 (run step [0, 0, 0, 0] (.start (patchedTree upstream))) ∧
    ¬ Undisturbed upstream 0 (run step (List.replicate 8 0 ++ [1, 1, 1, 1, 1]) (.start (patchedTree upstream))) ∧
    ¬ Undisturbed upstream 2
      (run step (List.replicate 8 0 ++ [1, 1, 1, 1, 1] ++ [2, 2, 2]) (.start (patchedTree upstream))) := by
  set start := Tree.start (patchedTree upstream) with hstart
  have hdetect : patch .detect (patchedTree upstream .detect) = .keep := (upstream_converges (hup .detect)).again
  have hbusy : run step (List.replicate 8 0 ++ [1, 1, 1, 1, 1]) start =
      ((start.goto 0 .starting).setText .linkers []).goto 1
        (.writing .linkers (patchedTree upstream .linkers)) := by
    rw [run_append, run_starts hup rfl rfl, show [1, 1, 1, 1, 1] = [1, 1, 1, 1] ++ [1] from rfl, run_append,
      run_truncates hup rfl rfl, run_cons, run_nil, step_truncating]
  refine ⟨fun h => ?_, fun h => ?_, fun h => ?_⟩
  · rw [run_truncates hup rfl rfl] at h
    exact (h.quiet (fun f => rfl) _ _).1 (goto_phase_self ..)
  · rw [hbusy] at h
    exact h.starts rfl .linkers rfl
  · rw [run_append, hbusy] at h
    set busy := ((start.goto 0 .starting).setText .linkers []).goto 1
      (.writing .linkers (patchedTree upstream .linkers)) with hb
    have htwo : busy.phase 2 = .reading .detect := rfl
    have hread : busy.text .detect = patchedTree upstream .detect := rfl
    have hempty : busy.text .linkers = [] := rfl
    clear_value busy
    simp only [run_cons, run_nil, step_reading htwo, step_deciding, hread, hdetect, decided, next,
      step_goto_reading, hempty] at h
    refine h.runs "Meson 1.12.0 Windows-LLD capability patch context does not match" ?_
    rw [step_deciding, patch_linkers_nil, decided, goto_phase_self]

/-! ## The smallest upstream tree -/

/-- The contexts of the patchers and nothing else. -/
def contexts : MesonFile → Text
  | .detect => originalWin ++ originalNix
  | .linkers => originalProbe ++ originalMethod
  | .vsenv => originalVsenv

theorem contexts_upstream (f : MesonFile) : Upstream f (contexts f) := by
  cases f with
  | detect =>
    show _ ∧ _ ∧ _ ∧ _
    unfold contexts originalWin originalNix patchedWin patchedNix
    simp only [lines, List.flatMap_cons, List.flatMap_nil]
    -- the characters of the literals, once for all patterns
    repeat rw [String.toList_ofList]
    decide +kernel
  | linkers =>
    show _ ∧ _ ∧ _ ∧ _
    unfold contexts originalProbe originalMethod patchedProbe previousMethod
    simp only [lines, List.flatMap_cons, List.flatMap_nil]
    repeat rw [String.toList_ofList]
    decide +kernel
  | vsenv =>
    show _ ∧ _
    decide +kernel

/-- One bootstrap, and two that take turns. -/
theorem bootstraps_undisturbed_contexts :
    Follows step (Undisturbed contexts) (List.replicate 13 0) (.start contexts) ∧
    Follows step (Undisturbed contexts) [0, 0, 0, 0, 1, 1, 0, 0, 0, 0, 1, 1, 0, 0, 0, 0, 0] (.start contexts) :=
  ⟨bootstraps_undisturbed contexts_upstream (fun _ => .inl rfl) (follows_bootstrap contexts_upstream rfl rfl).1,
    bootstraps_undisturbed contexts_upstream (fun _ => .inl rfl) (follows_behind contexts_upstream)⟩

/-- The already patched tree of the contexts: a run of one bootstrap, and a run of three, that are disturbed. -/
theorem bootstraps_disturbed :
    (∀ f, Upstream f (contexts f)) ∧
    ¬ Follows step (Undisturbed contexts) [0, 0, 0, 0, 0] (.start (patchedTree contexts)) ∧
    ¬ Undisturbed contexts 0 (run step (List.replicate 8 0 ++ [1, 1, 1, 1, 1]) (.start (patchedTree contexts))) ∧
    ¬ Undisturbed contexts 2
      (run step (List.replicate 8 0 ++ [1, 1, 1, 1, 1] ++ [2, 2, 2]) (.start (patchedTree contexts))) := by
  obtain ⟨hquiet, hstarts, hruns⟩ := patchedTree_disturbed contexts_upstream
  refine ⟨contexts_upstream, fun h => hquiet ?_, hstarts, hruns⟩
  have hsplit : Follows step (Undisturbed contexts) ([0, 0, 0, 0] ++ [0]) (.start (patchedTree contexts)) := h
  exact (follows_append.1 hsplit).2.1

end BuildEngine.Meson
