/-
The blocks that the step `disable-pdfium-chromium-cfg` replaces. The script counts every brace behind a key, GN reads
comments and strings as such: the texts that the two leave around the blocks are compared. A file is the sequence of its
characters; the script reads and writes it in text mode.
-/
import BuildEngine.Base.Brackets
import BuildEngine.Base.TextFile
import BuildEngine.Pdfium.DisableCfg

namespace BuildEngine.Pdfium.CfgBlocks

open Base.Text Base.Brackets Base.TextFile

def names : List String := ["default_cfg_compiler", "cfi_linker"]

/-- The step: the file afterwards, and how the script ends. -/
def run (platform : Platform) (file : Text) : Text × Except String Unit :=
  match script (read file) with
  -- the assertions stand in front of the only write
  | .error message => (file, .error message)
  | .ok s => (write platform s, .ok ())

/-! ## Blocks -/

/-- Where GN's lexer stands; `word` is behind a character of an identifier. -/
inductive Place where
  | code
  | word
  | comment
  | string
  | escape
  deriving DecidableEq, Repr

def isIdentifierChar (c : Char) : Bool := c.isAlphanum || c == '_'

def Place.next : Place → Char → Place
  -- a carriage return does not end a comment
  | .comment, c => if c = '\n' then .code else .comment
  | .string, c => if c = '"' then .code else if c = '\\' then .escape else .string
  | .escape, _ => .string
  | _, c => if c = '#' then .comment else if c = '"' then .string else if isIdentifierChar c then .word else .code

def brace (c : Char) : Bracket := if c = '\x7b' then .opening else if c = '\x7d' then .closing else .other

/-- Comments and strings have no braces. -/
def gnBrace : Place → Char → Bracket
  | .code, c => brace c
  | .word, c => brace c
  | _, _ => .other

/-- Every brace counts. -/
abbrev plainCloseAt (level : ℕ) (s : Text) : Option ℕ :=
  closeAt (fun (_ : Unit) (_ : Char) => ()) (fun _ => brace) () level s

abbrev PlainCloses (level : ℕ) (inner : Text) : Prop :=
  Closes (fun (_ : Unit) (_ : Char) => ()) (fun _ => brace) () level inner

/-- The names of two blocks, in the order of the text, and what stands around them. -/
@[ext]
structure Pieces where
  first : String
  second : String
  front : Text
  between : Text
  back : Text

def Pieces.around (p : Pieces) (block block' : Text) : Text := p.front ++ block ++ p.between ++ block' ++ p.back

def Pieces.map (f : Text → Text) (p : Pieces) : Pieces :=
  { p with front := f p.front, between := f p.between, back := f p.back }

/-- Each block occurs once. -/
structure Pieces.Named (p : Pieces) : Prop where
  first : p.first ∈ names
  second : p.second ∈ names
  ne : p.first ≠ p.second

/-- Both blocks start with their keys and end where a reader of brackets closes the brace of the key. -/
structure Cut {σ : Type} (next : σ → Char → σ) (bracket : σ → Char → Bracket) (start : σ) (text : Text) (p : Pieces) :
    Prop extends p.Named where
  blocks : ∃ inner inner', text = p.around (key p.first ++ inner) (key p.second ++ inner') ∧
    Closes next bracket start 0 inner ∧ Closes next bracket start 0 inner'

/-- The blocks as GN reads them. -/
structure GnCut (file : Text) (p : Pieces) : Prop extends Cut Place.next gnBrace .code file p where
  front_code : p.front.foldl Place.next .code = .code
  between_code : p.between.foldl Place.next .code = .code

/-- The blocks as the script counts. -/
abbrev PlainCut (text : Text) (p : Pieces) : Prop := Cut (fun _ _ => ()) (fun _ => brace) () text p

/-! ## What the step is for -/

/-- The script fails and leaves the file, or it replaces the two blocks; then it changes nothing when it runs again. -/
structure Replaces (platform : Platform) (file : Text) : Prop where
  failure : ∀ message, (run platform file).2 = .error message → (run platform file).1 = file
  exact : (run platform file).2 = .ok () → ∃ p, GnCut file p ∧
    (run platform file).1 = p.around (write platform (replacement p.first)) (write platform (replacement p.second))
  again : (run platform file).2 = .ok () → run platform (run platform file).1 = ((run platform file).1, .ok ())

/-- The block still has the flag, or it is empty already. -/
def Flagged (name : String) (old : Text) : Prop := "/guard:cf".toList <:+: old ∨ old = replacement name

/-- The assertions about a block pass; `t` is the text with the block emptied. -/
def Empties (name : String) (s t : Text) : Prop :=
  ∃ front inner back, s = front ++ key name ++ inner ++ back ∧ count (key name) s = 1 ∧
    PlainCloses 0 inner ∧ Flagged name (key name ++ inner) ∧
    t = front ++ replacement name ++ back

/-- The assertions of the script pass. -/
def Passes (s : Text) : Prop := ∃ u t, Empties "default_cfg_compiler" s u ∧ Empties "cfi_linker" u t

/-- All braces and GN's braces leave the same text around the blocks, with the line ends of the platform. -/
def Agrees (platform : Platform) (file : Text) (p : Pieces) : Prop :=
  GnCut file p ∧ PlainCut (read file) (p.map read) ∧ Native platform p.front ∧ Native platform p.between ∧
    Native platform p.back

/-! ## The two keys -/

/-- The lines behind the key of an empty block. -/
def emptied : Text := "\n  # PDFium BCC64X CFG-off loader diagnostic.\n".toList ++ ['\x7d']

theorem replacement_eq (name : String) : replacement name = key name ++ emptied := List.append_assoc ..

theorem mem_names {name : String} : name ∈ names ↔ name = "default_cfg_compiler" ∨ name = "cfi_linker" := by
  simp [names]

/-- The keys overlap neither themselves nor what replaces a block. -/
theorem keys_apart : (Borderless (key "default_cfg_compiler") ∧ Borderless (key "cfi_linker")) ∧
    (Apart (key "default_cfg_compiler") emptied ∧ Apart (key "cfi_linker") emptied) ∧
    Apart (key "default_cfg_compiler") (replacement "cfi_linker") ∧
    Apart (key "cfi_linker") (replacement "default_cfg_compiler") := by
  unfold replacement key emptied
  repeat rw [String.toList_ofList]
  decide +kernel

theorem key_borderless {name : String} (h : name ∈ names) : Borderless (key name) := by
  rcases mem_names.1 h with rfl | rfl
  · exact keys_apart.1.1
  · exact keys_apart.1.2

theorem key_apart_emptied {name : String} (h : name ∈ names) : Apart (key name) emptied := by
  rcases mem_names.1 h with rfl | rfl
  · exact keys_apart.2.1.1
  · exact keys_apart.2.1.2

theorem key_apart_replacement {x y : String} (hx : x ∈ names) (hy : y ∈ names) (hne : x ≠ y) :
    Apart (key x) (replacement y) := by
  rcases mem_names.1 hx with rfl | rfl
  · rcases mem_names.1 hy with rfl | rfl
    · exact absurd rfl hne
    · exact keys_apart.2.2.1
  · rcases mem_names.1 hy with rfl | rfl
    · exact keys_apart.2.2.2
    · exact absurd rfl hne

theorem not_mem_replacement {name : String} (h : name ∈ names) : '\r' ∉ replacement name := by
  have hboth : '\r' ∉ replacement "default_cfg_compiler" ∧ '\r' ∉ replacement "cfi_linker" := by
    unfold replacement key
    repeat rw [String.toList_ofList]
    decide +kernel
  rcases mem_names.1 h with rfl | rfl
  · exact hboth.1
  · exact hboth.2

theorem count_replacement {name : String} (h : name ∈ names) (a b : Text) :
    count (key name) (a ++ replacement name ++ b) = count (key name) a + 1 + count (key name) b := by
  have hsplit : a ++ replacement name ++ b = a ++ key name ++ ([] ++ emptied ++ b) := by
    rw [replacement_eq]
    simp only [List.append_assoc, List.nil_append]
  rw [hsplit, (key_borderless h).count_around (key_ne_nil name), (key_apart_emptied h).count_around (key_ne_nil name)]
  have hnil : count (key name) [] = 0 := rfl
  omega

theorem count_other {x y : String} (hx : x ∈ names) (hy : y ∈ names) (hne : x ≠ y) (a b : Text) :
    count (key x) (a ++ replacement y ++ b) = count (key x) a + count (key x) b :=
  (key_apart_replacement hx hy hne).count_around (key_ne_nil x) a b

theorem count_zero_of_part {name : String} {a s : Text} (hin : a <:+: s) (h : count (key name) s = 0) :
    count (key name) a = 0 := by
  by_contra hne
  have hkey : key name <:+: a := (count_pos_iff (key_ne_nil name)).1 (by omega)
  have hpos := (count_pos_iff (key_ne_nil name)).2 (hkey.trans hin)
  omega

theorem emptied_closes : PlainCloses 0 emptied := by
  unfold emptied
  rw [String.toList_ofList]
  decide +kernel

theorem brace_key {name : String} (h : name ∈ names) : ∀ c ∈ (key name).dropLast, brace c = .other := by
  have hboth : ((key "default_cfg_compiler").dropLast.all fun c => brace c = .other) ∧
      ((key "cfi_linker").dropLast.all fun c => brace c = .other) := by
    unfold key
    repeat rw [String.toList_ofList]
    decide +kernel
  intro c hc
  rcases mem_names.1 h with rfl | rfl
  · exact of_decide_eq_true (List.all_eq_true.1 hboth.1 c hc)
  · exact of_decide_eq_true (List.all_eq_true.1 hboth.2 c hc)

theorem key_eq (name : String) : key name = (key name).dropLast ++ ['\x7b'] :=
  (congrArg (· ++ ['\x7b']) List.dropLast_concat).symm

/-- An empty block closes what it opens. -/
theorem replacement_balanced {name : String} (h : name ∈ names) :
    Balanced (fun _ _ => ()) (fun _ => brace) () (replacement name) := by
  rw [replacement_eq, key_eq, List.append_assoc, List.singleton_append]
  exact Closes.balanced (fun _ => brace_key h) rfl emptied_closes

theorem closable (state : Unit) (level : ℕ) : ∃ s, Closes (fun _ _ => ()) (fun _ => brace) state level s := by
  induction level with
  | zero => exact ⟨['\x7d'], .done rfl⟩
  | succ level ih =>
    obtain ⟨s, hs⟩ := ih
    exact ⟨'\x7d' :: s, .closing rfl hs⟩

/-! ## The script -/

/-- The counter of the script, behind the brace of the key. -/
theorem blockLength_eq (level : ℕ) (s : Text) :
    blockLength (level + 1) s = plainCloseAt level s := by
  induction s generalizing level with
  | nil => rfl
  | cons c s ih =>
    rw [blockLength]
    split
    · rename_i hc
      have hbrace : brace c = .opening := if_pos hc
      have hrest := ih (level + 1)
      rw [Nat.cast_succ] at hrest
      simp only [closeAt, hbrace]
      rw [hrest]
    · rename_i hopen
      split
      · rename_i hc
        have hbrace : brace c = .closing := by rw [brace, if_neg hopen, if_pos hc]
        cases level with
        | zero => simp [closeAt, hbrace]
        | succ level =>
          have hlevel : ((level + 1 : ℕ) : ℤ) + 1 - 1 = (level : ℤ) + 1 := by omega
          rw [if_neg (by omega), hlevel, ih level]
          simp only [closeAt, hbrace]
      · rename_i hclose
        have hbrace : brace c = .other := by rw [brace, if_neg hopen, if_neg hclose]
        simp only [closeAt, hbrace]
        rw [ih level]

/-- The counter starts at the brace of the key. -/
theorem blockLength_key (name : String) (a b : Text) :
    blockLength 0 ((a ++ key name ++ b).drop (a.length + (key name).length - 1)) =
      (plainCloseAt 0 b).map (· + 1) := by
  have hlength : a.length + (key name).length - 1 = (a ++ (key name).dropLast).length := by
    have hpos : 0 < (key name).length := List.length_pos_iff.2 (key_ne_nil name)
    rw [List.length_append, List.length_dropLast]
    omega
  have htext : a ++ key name ++ b = (a ++ (key name).dropLast) ++ '\x7b' :: b := by
    conv_lhs => rw [key_eq]
    simp only [List.append_assoc, List.singleton_append]
  have hcount := blockLength_eq 0 b
  rw [htext, hlength, List.drop_left, blockLength, if_pos rfl, ← hcount]
  rfl

theorem disable_eq {name : String} (hname : name ∈ names) {a b : Text}
    (hone : count (key name) (a ++ key name ++ b) = 1) :
    (plainCloseAt 0 b = none → ∃ message, disable (a ++ key name ++ b) name = .error message) ∧
      ∀ n, plainCloseAt 0 b = some n →
        (Flagged name (key name ++ b.take n) →
          disable (a ++ key name ++ b) name = .ok (a ++ replacement name ++ b.drop n)) ∧
        (¬ Flagged name (key name ++ b.take n) → ∃ message, disable (a ++ key name ++ b) name = .error message) := by
  have hborderless := key_borderless hname
  obtain ⟨hfind, hother⟩ := (hborderless.find_once (key_ne_nil name)).2 ⟨hone, a, b, rfl, rfl⟩
  have hlength := blockLength_key name a b
  have hpos : 0 < (key name).length := List.length_pos_iff.2 (key_ne_nil name)
  constructor
  · intro hnone
    rw [hnone, Option.map_none] at hlength
    refine ⟨"Unclosed CFG GN config: " ++ name, ?_⟩
    simp only [disable, hfind, hother, Option.isSome_none, Bool.false_eq_true, if_false, hlength]
  · intro n hn
    rw [hn, Option.map_some] at hlength
    have hstop : a.length + (key name).length - 1 + (n + 1) = (a ++ key name).length + n := by
      rw [List.length_append]
      omega
    have hold : ((a ++ key name ++ b).take ((a ++ key name).length + n)).drop a.length = key name ++ b.take n := by
      rw [List.take_length_add_append, List.append_assoc, List.drop_left]
    have hback : (a ++ key name ++ b).drop ((a ++ key name).length + n) = b.drop n := List.drop_length_add_append ..
    have hfront : (a ++ key name ++ b).take a.length = a := by rw [List.append_assoc, List.take_left]
    constructor
    · intro hflag
      simp only [disable, hfind, hother, Option.isSome_none, Bool.false_eq_true, if_false, hlength, hstop, hold, hback,
        hfront]
      rw [if_neg (not_not_intro (.inr hflag)), if_neg (not_not_intro (.inr hflag))]
    · intro hflag
      simp only [disable, hfind, hother, Option.isSome_none, Bool.false_eq_true, if_false, hlength, hstop, hold]
      -- each name has an assertion of its own
      rcases mem_names.1 hname with rfl | rfl
      · rw [if_pos fun h => h.elim (fun h => h rfl) hflag]
        exact ⟨_, rfl⟩
      · rw [if_neg (not_not_intro (.inl (by decide))), if_pos fun h => h.elim (fun h => h rfl) hflag]
        exact ⟨_, rfl⟩

/-- A turn of the loop. -/
theorem disable_ok_iff {name : String} (hname : name ∈ names) {s t : Text} :
    disable s name = .ok t ↔ Empties name s t := by
  have hborderless := key_borderless hname
  constructor
  · intro h
    cases hfind : find (key name) s with
    | none => simp [disable, hfind] at h
    | some start =>
      cases hother : find (key name) (s.drop (start + 1)) with
      | some other => simp [disable, hfind, hother] at h
      | none =>
        obtain ⟨hone, a, b, rfl, rfl⟩ := (hborderless.find_once (key_ne_nil name)).1 ⟨hfind, hother⟩
        obtain ⟨hunclosed, hclosed⟩ := disable_eq hname hone
        cases hclose : plainCloseAt 0 b with
        | none =>
          obtain ⟨message, herror⟩ := hunclosed hclose
          rw [h] at herror
          cases herror
        | some n =>
          obtain ⟨hok, herror⟩ := hclosed n hclose
          obtain ⟨inner, back, rfl, rfl, hinner⟩ := closes_of_closeAt hclose
          rw [List.take_left, List.drop_left] at hok
          rw [List.take_left] at herror
          by_cases hflag : Flagged name (key name ++ inner)
          · rw [hok hflag] at h
            cases h
            exact ⟨a, inner, back, (List.append_assoc ..).symm, hone, hinner, hflag, rfl⟩
          · obtain ⟨message, herror⟩ := herror hflag
            rw [h] at herror
            cases herror
  · rintro ⟨front, inner, back, rfl, hone, hinner, hflag, rfl⟩
    rw [List.append_assoc _ inner] at hone ⊢
    have hok := (disable_eq hname hone).2 _ (hinner.closeAt_append back)
    rw [List.take_left, List.drop_left] at hok
    exact hok.1 hflag

theorem script_ok_iff {s t : Text} :
    script s = .ok t ↔ ∃ u, Empties "default_cfg_compiler" s u ∧ Empties "cfi_linker" u t := by
  have hcompiler : "default_cfg_compiler" ∈ names := mem_names.2 (.inl rfl)
  have hlinker : "cfi_linker" ∈ names := mem_names.2 (.inr rfl)
  simp only [script, List.foldlM_cons, List.foldlM_nil, bind, Except.bind, pure, Except.pure]
  cases hu : disable s "default_cfg_compiler" with
  | error message =>
    simp only [reduceCtorEq, false_iff]
    rintro ⟨u, hempties, -⟩
    rw [(disable_ok_iff hcompiler).2 hempties] at hu
    cases hu
  | ok u =>
    simp only
    constructor
    · intro h
      cases ht : disable u "cfi_linker" with
      | error message =>
        rw [ht] at h
        cases h
      | ok t' =>
        rw [ht] at h
        cases h
        exact ⟨u, (disable_ok_iff hcompiler).1 hu, (disable_ok_iff hlinker).1 ht⟩
    · rintro ⟨u', hempties, ht⟩
      rw [(disable_ok_iff hcompiler).2 hempties] at hu
      cases hu
      rw [(disable_ok_iff hlinker).2 ht]

/-! ## The pieces of a text -/

/-- A block that is closed is the one that is emptied. -/
theorem Empties.eq {name : String} (hname : name ∈ names) {s t front inner back : Text} (h : Empties name s t)
    (hs : s = front ++ (key name ++ inner) ++ back) (hinner : PlainCloses 0 inner) :
    t = front ++ replacement name ++ back := by
  obtain ⟨front', inner', back', hs', hone, hinner', -, rfl⟩ := h
  have hkey : s = front ++ key name ++ (inner ++ back) := by
    rw [hs]
    simp only [List.append_assoc]
  have hkey' : s = front' ++ key name ++ (inner' ++ back') := by
    rw [hs']
    simp only [List.append_assoc]
  obtain ⟨rfl, hrest⟩ := (key_borderless hname).eq_of_count (key_ne_nil name) hone hkey' hkey
  obtain ⟨-, rfl⟩ := hinner'.append_inj hinner hrest
  rfl

/-- The key stands once in a text in which its block has been emptied. -/
theorem Empties.count_eq {name : String} (hname : name ∈ names) {s t : Text} (h : Empties name s t) :
    count (key name) t = 1 := by
  obtain ⟨front, inner, back, rfl, hone, -, -, rfl⟩ := h
  rw [List.append_assoc _ inner, (key_borderless hname).count_around (key_ne_nil name)] at hone
  have hback : count (key name) back = 0 :=
    count_zero_of_part (List.suffix_append inner back).isInfix (by omega)
  rw [count_replacement hname, hback]
  omega

theorem Empties.not_mem {name : String} (hname : name ∈ names) {s t : Text} (h : Empties name s t) (hs : '\r' ∉ s) :
    '\r' ∉ t := by
  obtain ⟨front, inner, back, rfl, -, -, -, rfl⟩ := h
  simp only [List.mem_append, not_or] at hs ⊢
  exact ⟨⟨hs.1.1.1, not_mem_replacement hname⟩, hs.2⟩

/-- An empty block stays as it is. -/
theorem empties_self {name : String} {s : Text} (hone : count (key name) s = 1) (front back : Text)
    (hs : s = front ++ replacement name ++ back) : Empties name s s := by
  refine ⟨front, emptied, back, ?_, hone, emptied_closes, .inr (replacement_eq name).symm, hs⟩
  rw [hs, replacement_eq]
  simp only [List.append_assoc]

theorem compiler_mem : "default_cfg_compiler" ∈ names := mem_names.2 (.inl rfl)

theorem linker_mem : "cfi_linker" ∈ names := mem_names.2 (.inr rfl)

theorem names_ne : "default_cfg_compiler" ≠ "cfi_linker" := by decide

/-- The text that the script writes. -/
def Pieces.output (p : Pieces) : Text := p.around (replacement p.first) (replacement p.second)

/-- There are no other names. -/
theorem eq_or_eq {x y name : String} (hx : x ∈ names) (hy : y ∈ names) (hne : x ≠ y) (h : name ∈ names) :
    name = x ∨ name = y := by
  rw [mem_names] at hx hy h
  rcases hx with rfl | rfl
  · exact h.imp_right fun h => h.trans (hy.resolve_left (Ne.symm hne)).symm
  · exact h.symm.imp_right fun h => h.trans (hy.resolve_right (Ne.symm hne)).symm

section Cut

variable {σ : Type} {next : σ → Char → σ} {bracket : σ → Char → Bracket} {start : σ} {s : Text} {p : Pieces} {name : String}

/-- An empty block has its own key and no other one. -/
theorem Pieces.Named.count_output (h : p.Named) (hname : name ∈ names) : count (key name) p.output =
    count (key name) p.front + count (key name) p.between + count (key name) p.back + 1 := by
  obtain ⟨hfirst, hsecond, hne⟩ := h
  rw [Pieces.output, Pieces.around]
  by_cases hx : name = p.first
  · have hy : name ≠ p.second := hx ▸ hne
    rw [count_other hname hsecond hy, hx, count_replacement hfirst]
    omega
  · have hy : name = p.second := (eq_or_eq hfirst hsecond hne hname).resolve_left hx
    rw [hy, count_replacement hsecond, count_other hsecond hfirst (Ne.symm hne)]
    omega

theorem output_first (p : Pieces) :
    p.output = p.front ++ key p.first ++ (emptied ++ p.between ++ replacement p.second ++ p.back) := by
  simp only [Pieces.output, Pieces.around, replacement_eq, List.append_assoc]

theorem output_second (p : Pieces) :
    p.output = p.front ++ replacement p.first ++ p.between ++ key p.second ++ (emptied ++ p.back) := by
  simp only [Pieces.output, Pieces.around, replacement_eq, List.append_assoc]

/-- The pieces of an output in which each key stands once. -/
theorem output_inj {q : Pieces} (hp : p.Named) (hq : q.Named) (heq : p.output = q.output)
    (hone : ∀ name ∈ names, count (key name) p.output = 1) : p = q := by
  have hfirst := output_first q
  have hsecond := output_second q
  rw [← heq] at hfirst hsecond
  rcases eq_or_eq hq.first hq.second hq.ne hp.first with hx | hx
  · have hy : p.second = q.second :=
      (eq_or_eq hq.first hq.second hq.ne hp.second).resolve_left fun hy => hp.ne (hx.trans hy.symm)
    rw [← hx] at hfirst hsecond
    rw [← hy] at hsecond
    obtain ⟨hfront, -⟩ :=
      (key_borderless hp.first).eq_of_count (key_ne_nil _) (hone _ hp.first) (output_first p) hfirst
    obtain ⟨hmiddle, hback⟩ :=
      (key_borderless hp.second).eq_of_count (key_ne_nil _) (hone _ hp.second) (output_second p) hsecond
    rw [hfront] at hmiddle
    -- behind the same key stands the same text
    exact Pieces.ext hx hy hfront (List.append_cancel_left hmiddle) (List.append_cancel_left hback)
  · -- the blocks cannot change places
    have hy : p.second = q.first :=
      (eq_or_eq hq.first hq.second hq.ne hp.second).resolve_right fun hy => hp.ne (hy.trans hx.symm).symm
    rw [← hx] at hsecond
    rw [← hy] at hfirst
    obtain ⟨hfront, -⟩ :=
      (key_borderless hp.first).eq_of_count (key_ne_nil _) (hone _ hp.first) (output_first p) hsecond
    obtain ⟨hmiddle, -⟩ :=
      (key_borderless hp.second).eq_of_count (key_ne_nil _) (hone _ hp.second) (output_second p) hfirst
    have hlength := congrArg List.length hfront
    have hlength' := congrArg List.length hmiddle
    have hpos : 0 < (key q.first).length := List.length_pos_iff.2 (key_ne_nil _)
    simp only [List.length_append, replacement_eq] at hlength hlength'
    omega

/-- A key that stands once stands in its block. -/
theorem Cut.count_pieces (h : Cut next bracket start s p) (hname : name ∈ names) (hone : count (key name) s = 1) :
    count (key name) p.front = 0 ∧ count (key name) p.between = 0 ∧ count (key name) p.back = 0 := by
  obtain ⟨⟨hfirst, hsecond, hne⟩, inner, inner', rfl, -⟩ := h
  have hcount := (key_borderless hname).count_around (key_ne_nil name)
  rcases eq_or_eq hfirst hsecond hne hname with rfl | rfl
  · have hs : p.around (key p.first ++ inner) (key p.second ++ inner') =
        p.front ++ key p.first ++ (inner ++ p.between ++ (key p.second ++ inner' ++ p.back)) := by
      simp only [Pieces.around, List.append_assoc]
    rw [hs, hcount] at hone
    have hbehind : count (key p.first) (inner ++ p.between ++ (key p.second ++ inner' ++ p.back)) = 0 := by omega
    refine ⟨by omega, count_zero_of_part (List.infix_append _ _ _) hbehind, count_zero_of_part ?_ hbehind⟩
    exact ((List.suffix_append _ _).trans (List.suffix_append _ _)).isInfix
  · have hs : p.around (key p.first ++ inner) (key p.second ++ inner') =
        p.front ++ (key p.first ++ inner) ++ p.between ++ key p.second ++ (inner' ++ p.back) := by
      simp only [Pieces.around, List.append_assoc]
    rw [hs, hcount] at hone
    have hbefore : count (key p.second) (p.front ++ (key p.first ++ inner) ++ p.between) = 0 := by omega
    have hbehind : count (key p.second) (inner' ++ p.back) = 0 := by omega
    refine ⟨count_zero_of_part ?_ hbefore, count_zero_of_part (List.suffix_append _ _).isInfix hbefore,
      count_zero_of_part (List.suffix_append _ _).isInfix hbehind⟩
    rw [List.append_assoc]
    exact (List.prefix_append _ _).isInfix

end Cut

section Script

variable {s u t : Text} {p : Pieces} (hcompiler : Empties "default_cfg_compiler" s u) (hlinker : Empties "cfi_linker" u t)
include hcompiler hlinker

/-- Two blocks that are closed are the two that are emptied, in the one order or the other. -/
theorem output_of_plainCut (h : PlainCut s p) : t = p.output := by
  obtain ⟨⟨hfirst, hsecond, hne⟩, inner, inner', hs, hinner, hinner'⟩ := h
  rcases mem_names.1 hfirst with hx | hx
  · rcases mem_names.1 hsecond with hy | hy
    · exact absurd (hx.trans hy.symm) hne
    · rw [hx, hy] at hs
      have hu : u = p.front ++ replacement "default_cfg_compiler" ++ (p.between ++ (key "cfi_linker" ++ inner') ++ p.back) := by
        refine hcompiler.eq compiler_mem ?_ hinner
        rw [hs, Pieces.around]
        simp only [List.append_assoc]
      have ht : t = p.front ++ replacement "default_cfg_compiler" ++ p.between ++ replacement "cfi_linker" ++ p.back := by
        refine hlinker.eq linker_mem ?_ hinner'
        rw [hu]
        simp only [List.append_assoc]
      rw [ht, Pieces.output, hx, hy, Pieces.around]
  · rcases mem_names.1 hsecond with hy | hy
    · rw [hx, hy] at hs
      have hu : u = p.front ++ (key "cfi_linker" ++ inner) ++ p.between ++ replacement "default_cfg_compiler" ++ p.back :=
        hcompiler.eq compiler_mem hs hinner'
      have ht : t = p.front ++ replacement "cfi_linker" ++ (p.between ++ replacement "default_cfg_compiler" ++ p.back) := by
        refine hlinker.eq linker_mem ?_ hinner
        rw [hu]
        simp only [List.append_assoc]
      rw [ht, Pieces.output, hx, hy, Pieces.around]
      simp only [List.append_assoc]
    · exact absurd (hx.trans hy.symm) hne

/-- The script cuts the text in pieces, or the block that it empties last has swallowed the other one. -/
theorem plainCut_or_swallowed : (∃ p, PlainCut s p) ∨ count (key "default_cfg_compiler") t = 0 := by
  obtain ⟨a, inner, b, hs, hone, hinner, -, hu⟩ := hcompiler
  obtain ⟨c, inner', d, hu', -, hinner', -, rfl⟩ := hlinker
  have hapart := key_apart_replacement linker_mem compiler_mem names_ne.symm
  have heq : a ++ replacement "default_cfg_compiler" ++ b = c ++ key "cfi_linker" ++ (inner' ++ d) := by
    rw [← hu, hu']
    simp only [List.append_assoc]
  rcases hapart.before_or_behind heq with hle | hle
  · -- the second block starts before the one that is empty now
    have hkey : c ++ key "cfi_linker" <+: u := by
      rw [hu', List.append_assoc _ inner']
      exact List.prefix_append _ _
    have hfront : a <+: u := by
      rw [hu, List.append_assoc]
      exact List.prefix_append _ _
    obtain ⟨x, rfl⟩ := List.prefix_of_prefix_length_le hkey hfront hle
    have hrest : inner' ++ d = x ++ replacement "default_cfg_compiler" ++ b := by
      simp only [List.append_assoc, List.append_cancel_left_eq] at heq ⊢
      exact heq.symm
    rcases hinner'.before_or_behind (replacement_balanced compiler_mem) hrest closable with ⟨z, rfl⟩ | ⟨z, rfl⟩
    · refine .inl ⟨⟨"cfi_linker", "default_cfg_compiler", c, z, b⟩, ⟨linker_mem, compiler_mem, names_ne.symm⟩, inner', inner,
        ?_, hinner', hinner⟩
      rw [hs, Pieces.around]
      simp only [List.append_assoc]
    · -- the empty block has gone with its key
      right
      have hd : b = z ++ d := by
        simp only [List.append_assoc, List.append_cancel_left_eq] at hrest
        exact hrest.symm
      rw [hs, List.append_assoc _ inner, (key_borderless compiler_mem).count_around (key_ne_nil _)] at hone
      have hfront : count (key "default_cfg_compiler") c = 0 := by
        apply count_zero_of_part (s := c ++ key "cfi_linker" ++ x) ?_ (by omega)
        rw [List.append_assoc]
        exact (List.prefix_append _ _).isInfix
      have hback : count (key "default_cfg_compiler") d = 0 := by
        apply count_zero_of_part (s := inner ++ b) ?_ (by omega)
        rw [hd, ← List.append_assoc]
        exact (List.suffix_append _ _).isInfix
      rw [count_other compiler_mem linker_mem names_ne, hfront, hback]
  · -- the second block is where it was
    have hempty : a ++ replacement "default_cfg_compiler" <+: u := by
      rw [hu]
      exact List.prefix_append _ _
    have hfront : c <+: u := by
      rw [hu', List.append_assoc, List.append_assoc]
      exact List.prefix_append _ _
    obtain ⟨z, rfl⟩ := List.prefix_of_prefix_length_le hempty hfront hle
    have hback : b = z ++ key "cfi_linker" ++ inner' ++ d := by
      simp only [List.append_assoc, List.append_cancel_left_eq] at heq ⊢
      exact heq
    refine .inl ⟨⟨"default_cfg_compiler", "cfi_linker", a, z, d⟩, ⟨compiler_mem, linker_mem, names_ne⟩, inner, inner',
      ?_, hinner, hinner'⟩
    rw [hs, hback, Pieces.around]
    simp only [List.append_assoc]

/-- Behind the script each key stands once. -/
theorem count_output (h : PlainCut s p) : ∀ name ∈ names, count (key name) p.output = 1 := by
  obtain rfl := output_of_plainCut hcompiler hlinker h
  intro name hname
  rcases mem_names.1 hname with rfl | rfl
  · obtain ⟨-, -, -, -, hone, -⟩ := hcompiler
    obtain ⟨hfront, hbetween, hback⟩ := h.count_pieces compiler_mem hone
    rw [h.count_output compiler_mem, hfront, hbetween, hback]
  · exact hlinker.count_eq linker_mem

/-- What the script writes it leaves when it runs again. -/
theorem script_output (h : PlainCut s p) : script p.output = .ok p.output := by
  have hone := count_output hcompiler hlinker h
  have hfirst : Empties p.first p.output p.output := by
    apply empties_self (hone _ h.first) p.front (p.between ++ replacement p.second ++ p.back)
    simp only [Pieces.output, Pieces.around, List.append_assoc]
  have hsecond : Empties p.second p.output p.output := empties_self (hone _ h.second) _ p.back rfl
  have hempties : ∀ name ∈ names, Empties name p.output p.output := by
    intro name hname
    rcases eq_or_eq h.first h.second h.ne hname with rfl | rfl
    · exact hfirst
    · exact hsecond
  exact script_ok_iff.2 ⟨p.output, hempties _ compiler_mem, hempties _ linker_mem⟩

end Script

/-! ## The file -/

/-- A text that no line end enters. -/
def Sealed (block : Text) : Prop := block.head? = some 'c' ∧ block.getLast? = some '\x7d'

theorem key_head (name : String) : (key name).head? = some 'c' := by
  have hstart : "config(\"".toList.head? = some 'c' := by
    rw [String.toList_ofList]
    rfl
  unfold key
  rw [List.append_assoc, List.append_assoc, List.head?_append, hstart, Option.some_or]

theorem eq_of_brace {c : Char} (h : brace c = .closing) : c = '\x7d' := by
  unfold brace at h
  split at h
  · cases h
  · split at h
    · assumption
    · cases h

theorem sealed_block {name : String} {inner : Text} (h : Closes Place.next gnBrace .code 0 inner) :
    Sealed (key name ++ inner) := by
  obtain ⟨place, c, hlast, hc⟩ := h.getLast?
  have hbrace : c = '\x7d' := by
    cases place with
    | code => exact eq_of_brace hc
    | word => exact eq_of_brace hc
    | comment => cases hc
    | string => cases hc
    | escape => cases hc
  exact ⟨by rw [List.head?_append, key_head]; rfl, by rw [List.getLast?_append, hlast, hbrace]; rfl⟩

theorem sealed_write (platform : Platform) (name : String) : Sealed (write platform (replacement name)) := by
  constructor
  · obtain ⟨tail, htail⟩ := List.head?_eq_some_iff.1 (key_head name)
    rw [replacement_eq, htail, List.cons_append, write_cons _ (by decide)]
    rfl
  · rw [replacement, write_append, List.getLast?_append]
    rfl

theorem Sealed.seam_front {block : Text} (h : Sealed block) (a : Text) : Seam a block := by
  right
  rw [h.1]
  decide

theorem Sealed.seam_back {block : Text} (h : Sealed block) (a b : Text) : Seam (a ++ block) b := by
  left
  rw [List.getLast?_append, h.2, Option.some_or]
  decide

section Around

variable {block block' : Text} (h : Sealed block) (h' : Sealed block') (p : Pieces)
include h h'

theorem read_around : read (p.around block block') = (p.map read).around (read block) (read block') := by
  rw [Pieces.around, read_append (h'.seam_back _ _), read_append (h'.seam_front _), read_append (h.seam_back _ _),
    read_append (h.seam_front _)]
  rfl

theorem native_around {platform : Platform} (hnative : Native platform (p.around block block')) :
    Native platform p.front ∧ Native platform p.between ∧ Native platform p.back := by
  rw [Pieces.around, native_append (h'.seam_back _ _), native_append (h'.seam_front _), native_append (h.seam_back _ _),
    native_append (h.seam_front _)] at hnative
  exact ⟨hnative.1.1.1.1, hnative.1.1.2, hnative.2⟩

end Around

section File

variable {platform : Platform} {file u t : Text} {p : Pieces} (hcompiler : Empties "default_cfg_compiler" (read file) u)
  (hlinker : Empties "cfi_linker" u t)
include hcompiler hlinker

theorem not_mem_output : '\r' ∉ t :=
  hlinker.not_mem linker_mem (hcompiler.not_mem compiler_mem (not_mem_read file))

/-- If GN's blocks are replaced, the script has found the same pieces. -/
theorem agrees_of_exact (hp : GnCut file p)
    (hexact : write platform t = p.around (write platform (replacement p.first)) (write platform (replacement p.second))) :
    Agrees platform file p := by
  have hnamed : (p.map read).Named := ⟨hp.first, hp.second, hp.ne⟩
  have hfirst := sealed_write platform p.first
  have hsecond := sealed_write platform p.second
  have hnot := not_mem_output hcompiler hlinker
  -- the text behind the script in the pieces of GN
  have hread : t = (p.map read).output := by
    have heq := congrArg read hexact
    rw [read_write platform hnot, read_around hfirst hsecond, read_write platform (not_mem_replacement hp.first),
      read_write platform (not_mem_replacement hp.second)] at heq
    exact heq
  have hcut : PlainCut (read file) (p.map read) := by
    rcases plainCut_or_swallowed hcompiler hlinker with ⟨q, hq⟩ | hnone
    · have hsame : q.output = (p.map read).output := (output_of_plainCut hcompiler hlinker hq).symm.trans hread
      rwa [← output_inj hq.toNamed hnamed hsame (count_output hcompiler hlinker hq)]
    · rw [hread, hnamed.count_output compiler_mem] at hnone
      omega
  have hnative := native_write platform hnot
  rw [hexact] at hnative
  exact ⟨hp, hcut, native_around hfirst hsecond p hnative⟩

theorem exact_of_agrees (h : Agrees platform file p) :
    write platform t = p.around (write platform (replacement p.first)) (write platform (replacement p.second)) := by
  obtain ⟨hp, hcut, hfront, hbetween, hback⟩ := h
  rw [output_of_plainCut hcompiler hlinker hcut, Pieces.output, Pieces.around]
  simp only [write_append]
  show write platform (read p.front) ++ write platform (replacement p.first) ++ write platform (read p.between) ++
    write platform (replacement p.second) ++ write platform (read p.back) = _
  rw [hfront, hbetween, hback, Pieces.around]

end File

/-- The two blocks are replaced and nothing else if and only if, where the assertions pass, counting all braces leaves the
text around the blocks that GN's braces leave, with the line ends of the platform. -/
theorem replaces_iff (platform : Platform) (file : Text) :
    Replaces platform file ↔ (Passes (read file) → ∃ p, Agrees platform file p) := by
  cases hscript : script (read file) with
  | error message =>
    have hrun : run platform file = (file, .error message) := by simp only [run, hscript]
    refine iff_of_true ⟨fun _ _ => by rw [hrun], fun h => ?_, fun h => ?_⟩ fun hpasses => ?_
    · rw [hrun] at h
      cases h
    · rw [hrun] at h
      cases h
    · obtain ⟨u, t, hcompiler, hlinker⟩ := hpasses
      rw [script_ok_iff.2 ⟨u, hcompiler, hlinker⟩] at hscript
      cases hscript
  | ok t =>
    have hrun : run platform file = (write platform t, .ok ()) := by simp only [run, hscript]
    obtain ⟨u, hcompiler, hlinker⟩ := script_ok_iff.1 hscript
    constructor
    · intro h _
      obtain ⟨p, hp, hexact⟩ := h.exact (by rw [hrun])
      rw [hrun] at hexact
      exact ⟨p, agrees_of_exact hcompiler hlinker hp hexact⟩
    · intro h
      obtain ⟨p, hp⟩ := h ⟨u, t, hcompiler, hlinker⟩
      have hexact := exact_of_agrees hcompiler hlinker hp
      refine ⟨fun message h => ?_, fun _ => ⟨p, hp.1, by rw [hrun, hexact]⟩, fun _ => ?_⟩
      · rw [hrun] at h
        cases h
      · have hread := read_write platform (not_mem_output hcompiler hlinker)
        have hagain : script t = .ok t := by
          rw [output_of_plainCut hcompiler hlinker hp.2.1]
          exact script_output hcompiler hlinker hp.2.1
        rw [hrun]
        simp only [run, hread, hagain]

/-! ## Blocks without hidden braces -/

/-- GN sees every brace, from this place on. -/
def Visible (place : Place) (inner : Text) : Prop :=
  ∀ a c b, inner = a ++ c :: b → gnBrace (a.foldl Place.next place) c = brace c

theorem Visible.head {place : Place} {c : Char} {inner : Text} (h : Visible place (c :: inner)) :
    gnBrace place c = brace c := h [] c inner rfl

theorem Visible.tail {place : Place} {c : Char} {inner : Text} (h : Visible place (c :: inner)) :
    Visible (place.next c) inner := by
  rintro a d b rfl
  exact h (c :: a) d b rfl

theorem Visible.plainCloses {place : Place} {level : ℕ} {inner : Text} (hvisible : Visible place inner)
    (h : Closes Place.next gnBrace place level inner) : PlainCloses level inner := by
  induction h with
  | done hbrace => exact .done (hvisible.head.symm.trans hbrace)
  | opening hbrace _ ih => exact .opening (hvisible.head.symm.trans hbrace) (ih hvisible.tail)
  | closing hbrace _ ih => exact .closing (hvisible.head.symm.trans hbrace) (ih hvisible.tail)
  | other hbrace _ ih => exact .other (hvisible.head.symm.trans hbrace) (ih hvisible.tail)

/-- Line ends have no braces. -/
theorem plainCloses_read {level : ℕ} {inner : Text} (h : PlainCloses level inner) : PlainCloses level (read inner) := by
  fun_induction read inner generalizing level with
  | case1 file ih =>
    have hnewline := h.of_other rfl
    exact .other rfl (ih (hnewline.of_other rfl))
  | case2 file _ ih => exact .other rfl (ih (h.of_other rfl))
  | case3 c file _ _ ih =>
    cases h with
    | done hbrace => exact .done hbrace
    | opening hbrace h => exact .opening hbrace (ih h)
    | closing hbrace h => exact .closing hbrace (ih h)
    | other hbrace h => exact .other hbrace (ih h)
  | case4 => cases h

theorem read_block {name : String} (hname : name ∈ names) (inner : Text) : read (key name ++ inner) = key name ++ read inner := by
  have hnot := not_mem_replacement hname
  rw [replacement_eq, List.mem_append, not_or] at hnot
  have hseam : Seam (key name) inner := by
    left
    rw [key_eq, List.getLast?_concat]
    decide
  rw [read_append hseam, read_eq_self hnot.1]

/-- If the blocks have no brace in a comment or in a string, the script finds the pieces of GN. -/
theorem plainCut_of_visible {file inner inner' : Text} {p : Pieces} (hp : p.Named)
    (hfile : file = p.around (key p.first ++ inner) (key p.second ++ inner'))
    (hinner : Closes Place.next gnBrace .code 0 inner) (hinner' : Closes Place.next gnBrace .code 0 inner')
    (hvisible : Visible .code inner) (hvisible' : Visible .code inner') : PlainCut (read file) (p.map read) := by
  refine ⟨⟨hp.first, hp.second, hp.ne⟩, read inner, read inner', ?_, plainCloses_read (hvisible.plainCloses hinner),
    plainCloses_read (hvisible'.plainCloses hinner')⟩
  rw [hfile, read_around (sealed_block hinner) (sealed_block hinner'), read_block hp.first, read_block hp.second]
  rfl

/-! ## A brace in a comment -/

def compilerLines : Text := "\n  cflags = [ \"/guard:cf\" ]  # \x7d\n\x7d".toList

def linkerLines : Text := "\n  ldflags = [ \"/guard:cf\" ]\n\x7d".toList

def commented : Text :=
  key "default_cfg_compiler" ++ compilerLines ++ ['\n'] ++ key "cfi_linker" ++ linkerLines ++ ['\n']

/-- What the script leaves around the blocks. -/
def strayBrace : Pieces := ⟨"default_cfg_compiler", "cfi_linker", [], "\n\x7d\n".toList, ['\n']⟩

theorem compilerLines_closes : Closes Place.next gnBrace .code 0 compilerLines := by
  unfold compilerLines
  rw [String.toList_ofList]
  decide +kernel

theorem linkerLines_closes : Closes Place.next gnBrace .code 0 linkerLines := by
  unfold linkerLines
  rw [String.toList_ofList]
  decide +kernel

theorem script_commented : script commented = .ok strayBrace.output ∧ '\r' ∉ commented ∧
    count (key "cfi_linker") commented = 1 ∧ (∀ name ∈ names, count (key name) strayBrace.output = 1) := by
  decide +kernel

/-- The blocks do not touch; the script ends the first one at the brace in its comment. -/
theorem brace_in_comment : (∃ p, GnCut commented p) ∧ ¬ Replaces .posix commented := by
  obtain ⟨hscript, hread, hone, hcount⟩ := script_commented
  have hrun : run .posix commented = (strayBrace.output, .ok ()) := by
    simp only [run, read_eq_self hread, hscript, write_posix]
  have hnamed : strayBrace.Named := ⟨compiler_mem, linker_mem, names_ne⟩
  constructor
  · refine ⟨⟨"default_cfg_compiler", "cfi_linker", [], ['\n'], ['\n']⟩, ⟨⟨compiler_mem, linker_mem, names_ne⟩, compilerLines,
      linkerLines, ?_, compilerLines_closes, linkerLines_closes⟩, rfl, rfl⟩
    simp only [commented, Pieces.around, List.append_assoc, List.nil_append]
  · intro h
    obtain ⟨p, hp, hexact⟩ := h.exact (by rw [hrun])
    rw [hrun, write_posix, write_posix] at hexact
    obtain rfl := output_inj hnamed hp.toNamed hexact hcount
    obtain ⟨inner, inner', hs, hinner, -⟩ := hp.blocks
    have hfirst : commented = key "default_cfg_compiler" ++ compilerLines ++ ['\n'] ++ key "cfi_linker" ++
        (linkerLines ++ ['\n']) := List.append_assoc ..
    have hsecond : commented = key "default_cfg_compiler" ++ inner ++ "\n\x7d\n".toList ++ key "cfi_linker" ++
        (inner' ++ ['\n']) := by
      rw [hs]
      simp only [strayBrace, Pieces.around, List.append_assoc, List.nil_append]
    obtain ⟨hblock, -⟩ := (key_borderless linker_mem).eq_of_count (key_ne_nil _) hone hfirst hsecond
    rw [List.append_assoc, List.append_assoc] at hblock
    obtain ⟨-, hstray⟩ := compilerLines_closes.append_inj hinner (List.append_cancel_left hblock)
    revert hstray
    rw [String.toList_ofList]
    decide

end BuildEngine.Pdfium.CfgBlocks
