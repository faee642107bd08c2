/-
Programs that take turns on one store. A program is a tree of actions; each action goes on with its answer,
and may answer and leave the store in more than one way. What the others may do to the store between two of
its actions is the rely of a program, what it does itself its guarantee. Programs that keep to their
guarantees keep each other's conditions, whoever takes the next turn (`Config.holds`). Finitely many programs
cannot take turns for ever (`step_wf`).
-/
import Mathlib.Data.DFinsupp.WellFounded
import Mathlib.Logic.Function.Basic
import Mathlib.Logic.Relation
import Mathlib.SetTheory.Ordinal.Rank

namespace Base.Interleave

open Relation

/-! ## Programs -/

inductive Prog (E : Type) (R : E → Type) (α : Type)
  | ret (a : α)
  | act (e : E) (k : R e → Prog E R α)

section

variable {E : Type} {R : E → Type} {α β S : Type}

namespace Prog

def bind : Prog E R α → (α → Prog E R β) → Prog E R β
  | ret a, k => k a
  | act e j, k => act e fun r => (j r).bind k

/-- What is left of a program after its next action. -/
inductive Next : Prog E R α → Prog E R α → Prop
  | act (e : E) (k : R e → Prog E R α) (r : R e) : Next (k r) (.act e k)

theorem next_wf : WellFounded (Next : Prog E R α → Prog E R α → Prop) := by
  refine ⟨fun prog => ?_⟩
  induction prog with
  | ret a => exact ⟨_, fun _ h => by cases h⟩
  | act e k ih =>
    refine ⟨_, fun _ h => ?_⟩
    cases h with
    | act _ _ r => exact ih r

instance : IsWellFounded (Prog E R α) Next := ⟨next_wf⟩

end Prog

/-! ## A program alone -/

variable (sem : (e : E) → S → R e → S → Prop)

/-- A run of one program with nobody else about. -/
inductive Run : Prog E R α → S → α → S → Prop
  | ret (a : α) (s : S) : Run (.ret a) s a s
  | act {e : E} {k : R e → Prog E R α} {s s₁ s₂ : S} {r : R e} {a : α} :
    sem e s r s₁ → Run (k r) s₁ a s₂ → Run (.act e k) s a s₂

variable {sem}

theorem run_ret {a b : α} {s s' : S} : Run sem (.ret a : Prog E R α) s b s' ↔ b = a ∧ s' = s := by
  constructor
  · intro h
    cases h
    exact ⟨rfl, rfl⟩
  · rintro ⟨rfl, rfl⟩
    exact .ret _ _

theorem run_act {e : E} {k : R e → Prog E R α} {a : α} {s s' : S} :
    Run sem (.act e k) s a s' ↔ ∃ r s₁, sem e s r s₁ ∧ Run sem (k r) s₁ a s' := by
  constructor
  · intro h
    cases h with
    | act he hk => exact ⟨_, _, he, hk⟩
  · rintro ⟨r, s₁, he, hk⟩
    exact .act he hk

theorem run_bind {prog : Prog E R α} {k : α → Prog E R β} {b : β} {s s' : S} :
    Run sem (prog.bind k) s b s' ↔ ∃ a s₁, Run sem prog s a s₁ ∧ Run sem (k a) s₁ b s' := by
  induction prog generalizing s with
  | ret a =>
    constructor
    · intro h
      exact ⟨a, s, .ret a s, h⟩
    · rintro ⟨a', s₁, h, hk⟩
      obtain ⟨rfl, rfl⟩ := run_ret.1 h
      exact hk
  | act e j ih =>
    constructor
    · intro h
      obtain ⟨r, s₁, he, h⟩ := run_act.1 h
      obtain ⟨a, s₂, hj, hk⟩ := ih r |>.1 h
      exact ⟨a, s₂, .act he hj, hk⟩
    · rintro ⟨a, s₂, h, hk⟩
      obtain ⟨r, s₁, he, hj⟩ := run_act.1 h
      exact .act he ((ih r).2 ⟨a, s₂, hj, hk⟩)

/-! ## Rely and guarantee -/

variable (sem) (rely guar : S → S → Prop)

/-- From a store on, with steps of the rely in between, the actions of the program keep the guarantee, and
the value it ends with satisfies the condition there and as long as only the rely goes on. -/
def Holds (post : α → S → Prop) : Prog E R α → S → Prop
  | .ret a, s => ∀ s', ReflTransGen rely s s' → post a s'
  | .act e k, s => ∀ s₁, ReflTransGen rely s s₁ → ∀ r s₂, sem e s₁ r s₂ → guar s₁ s₂ ∧ Holds post (k r) s₂

/-- A condition the rely keeps. -/
def Stable (pre : S → Prop) : Prop := ∀ s s', rely s s' → pre s → pre s'

/-- From every store with the first condition the program ends with the second one. -/
def Triple (pre : S → Prop) (prog : Prog E R α) (post : α → S → Prop) : Prop :=
  ∀ s, pre s → Holds sem rely guar post prog s

variable {sem rely guar}

theorem Stable.steps {pre : S → Prop} (h : Stable rely pre) {s s' : S} (hs : ReflTransGen rely s s')
    (hpre : pre s) : pre s' := by
  induction hs with
  | refl => exact hpre
  | tail _ hstep ih => exact h _ _ hstep ih

theorem Stable.and {pre pre' : S → Prop} (h : Stable rely pre) (h' : Stable rely pre') :
    Stable rely fun s => pre s ∧ pre' s := fun s s' hs hpre => ⟨h s s' hs hpre.1, h' s s' hs hpre.2⟩

theorem Holds.later {post : α → S → Prop} {prog : Prog E R α} {s s' : S} (h : Holds sem rely guar post prog s)
    (hs : ReflTransGen rely s s') : Holds sem rely guar post prog s' := by
  cases prog with
  | ret a => exact fun s₁ h₁ => h s₁ (hs.trans h₁)
  | act e k => exact fun s₁ h₁ => h s₁ (hs.trans h₁)

theorem Holds.mono {post post' : α → S → Prop} {prog : Prog E R α} {s : S} (h : Holds sem rely guar post prog s)
    (hpost : ∀ a s, post a s → post' a s) : Holds sem rely guar post' prog s := by
  induction prog generalizing s with
  | ret a => exact fun s₁ h₁ => hpost a s₁ (h s₁ h₁)
  | act e k ih =>
    intro s₁ h₁ r s₂ he
    obtain ⟨hguar, hk⟩ := h s₁ h₁ r s₂ he
    exact ⟨hguar, ih r hk⟩

theorem Holds.bind {mid : α → S → Prop} {post : β → S → Prop} {prog : Prog E R α} {k : α → Prog E R β} {s : S}
    (h : Holds sem rely guar mid prog s) (hk : ∀ a, Triple sem rely guar (mid a) (k a) post) :
    Holds sem rely guar post (prog.bind k) s := by
  induction prog generalizing s with
  | ret a => exact hk a s (h s .refl)
  | act e j ih =>
    intro s₁ h₁ r s₂ he
    obtain ⟨hguar, hj⟩ := h s₁ h₁ r s₂ he
    exact ⟨hguar, ih r hj⟩

namespace Triple

variable {pre : S → Prop} {post : α → S → Prop}

theorem ret {a : α} (hstable : Stable rely (post a)) (h : ∀ s, pre s → post a s) :
    Triple sem rely guar pre (.ret a) post := fun s hpre _ hs => hstable.steps hs (h s hpre)

theorem act {e : E} {k : R e → Prog E R α} (mid : R e → S → Prop) (hstable : Stable rely pre)
    (he : ∀ s r s', pre s → sem e s r s' → guar s s' ∧ mid r s')
    (hk : ∀ r, Triple sem rely guar (mid r) (k r) post) : Triple sem rely guar pre (.act e k) post := by
  intro s hpre s₁ h₁ r s₂ hsem
  obtain ⟨hguar, hmid⟩ := he s₁ r s₂ (hstable.steps h₁ hpre) hsem
  exact ⟨hguar, hk r s₂ hmid⟩

theorem bind {mid : α → S → Prop} {post : β → S → Prop} {prog : Prog E R α} {k : α → Prog E R β}
    (h : Triple sem rely guar pre prog mid) (hk : ∀ a, Triple sem rely guar (mid a) (k a) post) :
    Triple sem rely guar pre (prog.bind k) post := fun s hpre => (h s hpre).bind hk

theorem consequence {prog : Prog E R α} {pre' : S → Prop} {post' : α → S → Prop}
    (h : Triple sem rely guar pre prog post) (hpre : ∀ s, pre' s → pre s) (hpost : ∀ a s, post a s → post' a s) :
    Triple sem rely guar pre' prog post' := fun s hs => (h s (hpre s hs)).mono hpost

end Triple

end

/-! ## Several programs -/

section

variable {P E : Type} {R : E → Type} {α S : Type}

/-- What is left of each program, and the store. -/
structure Config (P E : Type) (R : E → Type) (α S : Type) where
  program : P → Prog E R α
  store : S

variable [DecidableEq P] (sem : P → (e : E) → S → R e → S → Prop)

/-- One program takes its next action. -/
inductive Step (c : Config P E R α S) : Config P E R α S → Prop
  | act {p : P} {e : E} {k : R e → Prog E R α} {r : R e} {s : S} :
    c.program p = .act e k → sem p e c.store r s → Step c ⟨Function.update c.program p (k r), s⟩

/-- The configurations an interleaving leads to. -/
def Reaches : Config P E R α S → Config P E R α S → Prop := ReflTransGen (Step sem)

variable {sem}

/-- An interleaving in which every action is also allowed by other semantics. -/
theorem Reaches.mono {sem' : P → (e : E) → S → R e → S → Prop}
    (h : ∀ p e s r s', sem p e s r s' → sem' p e s r s') {c c' : Config P E R α S} (hrun : Reaches sem c c') :
    Reaches sem' c c' := by
  have hstep : ∀ c c' : Config P E R α S, Step sem c c' → Step sem' c c' := by
    intro c c' hc
    cases hc with
    | act hp he => exact .act hp (h _ _ _ _ _ he)
  exact ReflTransGen.mono hstep c c' hrun

/-- Programs whose guarantees are among what the others rely on keep their conditions through every
interleaving, and the store changes by steps of the guarantees only. -/
theorem Config.holds {rely guar : P → S → S → Prop} {post : P → α → S → Prop}
    (hrely : ∀ p q, p ≠ q → ∀ s s', guar p s s' → rely q s s') {c c' : Config P E R α S}
    (hstart : ∀ p, Holds (sem p) (rely p) (guar p) (post p) (c.program p) c.store) (hrun : Reaches sem c c') :
    (∀ p, Holds (sem p) (rely p) (guar p) (post p) (c'.program p) c'.store) ∧
      ReflTransGen (fun s s' => ∃ p, guar p s s') c.store c'.store := by
  induction hrun with
  | refl => exact ⟨hstart, .refl⟩
  | @tail c₁ c₂ _ hstep ih =>
    obtain ⟨hholds, hsteps⟩ := ih
    cases hstep with
    | @act p e k r s hp he =>
      have hact := hholds p
      rw [hp] at hact
      obtain ⟨hguar, hk⟩ := hact c₁.store .refl r s he
      refine ⟨fun q => ?_, hsteps.tail ⟨p, hguar⟩⟩
      by_cases hq : q = p
      · subst hq
        dsimp only
        rw [Function.update_self]
        exact hk
      · dsimp only
        rw [Function.update_of_ne hq]
        exact (hholds q).later (.single (hrely p q (Ne.symm hq) _ _ hguar))

/-- Every interleaving of finitely many programs comes to an end: a step lowers the rank of one program and
leaves those of the others. -/
theorem step_wf [Finite P] : WellFounded fun c' c : Config P E R α S => Step sem c c' := by
  let rank : Config P E R α S → P → Ordinal := fun c p => IsWellFounded.rank Prog.Next (c.program p)
  refine Subrelation.wf (fun {c' c} hstep => ?_) (InvImage.wf rank wellFounded_lt)
  show rank c' < rank c
  cases hstep with
  | @act p e k r s hp _ =>
    have hlower : IsWellFounded.rank Prog.Next (k r) < rank c p := by
      show _ < IsWellFounded.rank Prog.Next (c.program p)
      rw [hp]
      exact IsWellFounded.rank_lt_of_rel (.act e k r)
    have hrank : rank ⟨Function.update c.program p (k r), s⟩ =
        Function.update (rank c) p (IsWellFounded.rank Prog.Next (k r)) := by
      funext q
      exact Function.apply_update (fun _ => IsWellFounded.rank Prog.Next) c.program p (k r) q
    rw [hrank]
    exact update_lt_self_iff.2 hlower

/-- One program can run to its end while the others wait. -/
theorem Run.reaches {p : P} {prog : Prog E R α} {s s' : S} {a : α} (h : Run (sem p) prog s a s') :
    ∀ {programs : P → Prog E R α}, programs p = prog →
      Reaches sem ⟨programs, s⟩ ⟨Function.update programs p (.ret a), s'⟩ := by
  induction h with
  | ret a s =>
    intro programs hp
    rw [← hp, Function.update_eq_self]
    exact .refl
  | @act e k s s₁ s₂ r a he _ ih =>
    intro programs hp
    have hstep : Step sem ⟨programs, s⟩ ⟨Function.update programs p (k r), s₁⟩ := .act hp he
    have hrest := ih (Function.update_self p (k r) programs)
    rw [Function.update_idem] at hrest
    exact hrest.head hstep

end

end Base.Interleave
