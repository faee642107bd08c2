/-
`bcc64x-buildengine-cxx.cmake`: the choice of the UCRT compatibility archive. Each candidate lies in a directory of its
own below the tool's directory. They are sorted in natural order as whole paths, so that the `/` behind a directory's
name is compared with what other names have there: it comes behind `-` and `.`, and before digits and letters.
-/
import BuildEngine.Base.NaturalOrder

namespace BuildEngine.Toolchain

open Base.NaturalOrder

abbrev Text := List Char

def tool (productionRoot : Text) : Text := productionRoot ++ "/tools/bcc64x-ucrt-compat".toList

def archiveName : Text := "libbcc64x-ucrt-compat.a".toList

/-- The path of the archive in a directory of the tool. -/
def candidate (productionRoot directory : Text) : Text := tool productionRoot ++ '/' :: directory ++ '/' :: archiveName

/-- `BCC64X_UCRT_COMPAT_LIBRARY`, where `directories` are the directories of the tool that have the archive. -/
def ucrtCompatLibrary (productionRoot : Text) (directories : List Text) : Except Text Text :=
  match sortDescending (directories.map (candidate productionRoot)) with
  | [] => .error ("BCC64X UCRT compatibility tool is missing below ".toList ++ tool productionRoot)
  | library :: _ => .ok library

/-! ## Names of directories -/

/-- A version with its components. -/
def versionName (v : List ℕ) : Text := List.intercalate ['.'] (v.map (Nat.toDigits 10))

/-- A directory for a version, as `20.1.7`, or for a revision of the archive for it, as `20.1.7-compat1`. -/
structure Directory where
  version : List ℕ
  nonempty : version ≠ []
  revision : Option ℕ

def Directory.name (d : Directory) : Text :=
  match d.revision with
  | none => versionName d.version
  | some r => versionName d.version ++ "-compat".toList ++ Nat.toDigits 10 r

def dot : Piece := .chr '.' (by decide)

def minus : Piece := .chr '-' (by decide)

def slash : Piece := .chr '/' (by decide)

/-- The pieces of a version. -/
def dotted : List ℕ → List Piece
  | [] => []
  | [n] => [.num n]
  | n :: v => .num n :: dot :: dotted v

theorem proper_of_all {s : Text} (h : s.all (fun c => c.toNat != 0 && !c.isDigit) = true) :
    ∀ c ∈ s, c.toNat ≠ 0 ∧ c.isDigit = false := by
  intro c hc
  simpa using List.all_eq_true.1 h c hc

/-- The pieces of a text without digits. -/
def characters : (s : Text) → (∀ c ∈ s, c.toNat ≠ 0 ∧ c.isDigit = false) → List Piece
  | [], _ => []
  | c :: s, h => .chr c (h c (.head _)) :: characters s fun d hd => h d (.tail _ hd)

/-- The pieces of a path behind the directory's name. -/
def archivePieces : List Piece :=
  slash :: characters "libbcc".toList (proper_of_all (by decide)) ++ .num 64 ::
    characters "x-ucrt-compat.a".toList (proper_of_all (by decide))

/-- The pieces of a path behind the version. -/
def tail : Option ℕ → List Piece
  | none => archivePieces
  | some r => minus :: (characters "compat".toList (proper_of_all (by decide)) ++ .num r :: archivePieces)

def Directory.pieces (d : Directory) : List Piece := dotted d.version ++ tail d.revision

theorem text_cons (p : Piece) (ps : List Piece) : text (p :: ps) = p.text ++ text ps := List.flatMap_cons

theorem text_append (ps qs : List Piece) : text (ps ++ qs) = text ps ++ text qs := List.flatMap_append

theorem text_characters (s : Text) (h : ∀ c ∈ s, c.toNat ≠ 0 ∧ c.isDigit = false) : text (characters s h) = s := by
  induction s with
  | nil => rfl
  | cons c s ih => exact congrArg (c :: ·) (ih fun d hd => h d (.tail _ hd))

theorem dotted_cons (n : ℕ) {v : List ℕ} (hv : v ≠ []) : dotted (n :: v) = .num n :: dot :: dotted v := by
  cases v with
  | nil => exact absurd rfl hv
  | cons m v => rfl

theorem text_dotted (v : List ℕ) : text (dotted v) = versionName v := by
  unfold versionName
  induction v with
  | nil => rfl
  | cons n v ih =>
    by_cases hv : v = []
    · subst hv
      simp [dotted, text, Piece.text, List.intercalate]
    · have hmap : v.map (Nat.toDigits 10) ≠ [] := by simpa using hv
      rw [dotted_cons n hv, List.map_cons, List.intercalate_cons_of_ne_nil hmap, ← ih]
      simp [text, Piece.text, dot]

theorem text_archivePieces : text archivePieces = '/' :: archiveName := by
  have h64 : Nat.toDigits 10 64 = "64".toList := by decide
  unfold archivePieces
  have hnum : Piece.text (.num 64) = "64".toList := h64
  rw [text_append, text_cons, text_cons, text_characters, text_characters, hnum]
  rfl

theorem text_pieces (d : Directory) : text d.pieces = d.name ++ '/' :: archiveName := by
  unfold Directory.pieces Directory.name
  rw [text_append, text_dotted]
  cases d.revision with
  | none => rw [tail, text_archivePieces]
  | some r =>
    have hminus : minus.text = ['-'] := rfl
    have hnum : (Piece.num r).text = Nat.toDigits 10 r := rfl
    rw [tail, text_cons, text_append, text_cons, text_characters, text_archivePieces, hminus, hnum]
    simp

theorem apart_characters (s : Text) (h : ∀ c ∈ s, c.toNat ≠ 0 ∧ c.isDigit = false) {ps : List Piece} (hps : Apart ps) :
    Apart (characters s h ++ ps) := by
  induction s with
  | nil => exact hps
  | cons c s ih => exact ⟨fun hnum => (by cases hnum), ih fun d hd => h d (.tail _ hd)⟩

theorem apart_dotted (v : List ℕ) {c : Piece} (hc : c.isNum = false) {s : List Piece} (hs : Apart (c :: s)) :
    Apart (dotted v ++ c :: s) := by
  have hfirst : ∀ {p : Piece} {ps : List Piece}, p.isNum = false → ∀ q ∈ (p :: ps).head?, q.isNum = false := by
    intro p ps hp q hq
    obtain rfl := Option.some.inj hq
    exact hp
  induction v with
  | nil => exact hs
  | cons n v ih =>
    by_cases hv : v = []
    · subst hv
      exact ⟨fun _ => hfirst hc, hs⟩
    · rw [dotted_cons n hv]
      exact ⟨fun _ => hfirst rfl, fun hdot => absurd hdot (by decide), ih⟩

theorem apart_archivePieces : Apart archivePieces := by
  refine ⟨fun hnum => absurd hnum (by decide), apart_characters _ _ ⟨fun _ q hq => ?_, ?_⟩⟩
  · obtain rfl := Option.some.inj hq
    rfl
  · rw [← List.append_nil (characters _ _)]
    exact apart_characters _ _ trivial

theorem apart_pieces (d : Directory) : Apart d.pieces := by
  unfold Directory.pieces
  cases d.revision with
  | none => exact apart_dotted d.version rfl apart_archivePieces
  | some r =>
    refine apart_dotted d.version rfl ⟨fun hnum => absurd hnum (by decide), apart_characters _ _ ⟨fun _ q hq => ?_, ?_⟩⟩
    · obtain rfl := Option.some.inj hq
      rfl
    · exact apart_archivePieces

/-! ## The order of the names -/

/-- At the first component in which the versions differ, the one of `v` is the smaller. -/
def Differ (v w : List ℕ) : Prop := v < w ∧ ¬ v <+: w

theorem differ_cons {a b : ℕ} {v w : List ℕ} : Differ (a :: v) (b :: w) ↔ a < b ∨ a = b ∧ Differ v w := by
  unfold Differ
  rw [List.cons_lt_cons_iff, List.cons_prefix_cons]
  constructor
  · rintro ⟨hab | ⟨rfl, hlt⟩, hfront⟩
    · exact .inl hab
    · exact .inr ⟨rfl, hlt, fun h => hfront ⟨rfl, h⟩⟩
  · rintro (hab | ⟨rfl, hlt, hfront⟩)
    · exact ⟨.inl hab, fun h => absurd h.1 (Nat.ne_of_lt hab)⟩
    · exact ⟨.inr ⟨rfl, hlt⟩, fun h => hfront h.2⟩

theorem key_num_lt {a b : ℕ} : (Piece.num a).key < (Piece.num b).key ↔ a < b := by
  rw [Piece.key, Piece.key, Prod.Lex.toLex_lt_toLex]
  simp

/-- Two versions in front of other text. -/
theorem keys_dotted_lt {c d : Piece} (hc : c.key ≠ dot.key) (hd : d.key ≠ dot.key) (s t : List Piece) {v w : List ℕ}
    (hv : v ≠ []) (hw : w ≠ []) :
    keys (dotted v ++ c :: s) < keys (dotted w ++ d :: t) ↔
      Differ v w ∨ (v <+: w ∧ v ≠ w ∧ c.key < dot.key) ∨ (w <+: v ∧ v ≠ w ∧ dot.key < d.key) ∨
        v = w ∧ keys (c :: s) < keys (d :: t) := by
  induction v generalizing w with
  | nil => exact absurd rfl hv
  | cons a v ih =>
    cases w with
    | nil => exact absurd rfl hw
    | cons b w =>
      have hnum : ∀ {ps qs : List Piece}, keys (.num a :: ps) < keys (.num b :: qs) ↔
          a < b ∨ a = b ∧ keys ps < keys qs := by
        intro ps qs
        by_cases hab : a = b
        · subst hab
          rw [keys_cons_self, or_iff_right (lt_irrefl _), and_iff_right rfl]
        · have hkey : (Piece.num a).key ≠ (Piece.num b).key := fun h => hab (congrArg Prod.snd h)
          rw [keys_cons_lt hkey, key_num_lt]
          exact (or_iff_left fun h => hab h.1).symm
      have hnil : ∀ w : List ℕ, ¬ Differ [] w := fun w h => h.2 List.nil_prefix
      have hnil' : ∀ v : List ℕ, ¬ Differ v [] := fun v h => absurd h.1 (List.not_lt_nil v)
      rw [differ_cons, List.cons_prefix_cons, List.cons_prefix_cons]
      by_cases hv' : v = []
      · subst hv'
        by_cases hw' : w = []
        · subst hw'
          show keys (.num a :: c :: s) < keys (.num b :: d :: t) ↔ _
          rw [hnum]
          by_cases hab : a = b
          · simp [hab, hnil]
          · simp [hab, Ne.symm hab, hnil]
        · rw [dotted_cons b hw']
          show keys (.num a :: c :: s) < keys (.num b :: dot :: (dotted w ++ d :: t)) ↔ _
          rw [hnum, keys_cons_lt hc]
          by_cases hab : a = b
          · simp [hab, hnil, hw', Ne.symm hw']
          · simp [hab, Ne.symm hab, hnil, hw', Ne.symm hw']
      · by_cases hw' : w = []
        · subst hw'
          rw [dotted_cons a hv']
          show keys (.num a :: dot :: (dotted v ++ c :: s)) < keys (.num b :: d :: t) ↔ _
          rw [hnum, keys_cons_lt hd.symm]
          by_cases hab : a = b
          · simp [hab, hnil', hv']
          · simp [hab, Ne.symm hab, hnil', hv']
        · rw [dotted_cons a hv', dotted_cons b hw']
          show keys (.num a :: dot :: (dotted v ++ c :: s)) < keys (.num b :: dot :: (dotted w ++ d :: t)) ↔ _
          rw [hnum, keys_cons_self, ih hv' hw']
          by_cases hab : a = b
          · simp [hab]
          · simp [hab, Ne.symm hab]

/-! ## The choice -/

theorem keys_append_lt (p : List Piece) {s t : List Piece} : keys (p ++ s) < keys (p ++ t) ↔ keys s < keys t := by
  induction p with
  | nil => rfl
  | cons q p ih => rw [List.cons_append, List.cons_append, keys_cons_self, ih]

/-- The first character behind the version. -/
def mark : Option ℕ → Piece
  | none => slash
  | some _ => minus

theorem mark_ne (r : Option ℕ) : (mark r).key ≠ dot.key := by
  cases r with
  | none => exact fun h => absurd (show (47 : ℕ) = 46 from congrArg Prod.fst h) (by decide)
  | some r => exact fun h => absurd (show (45 : ℕ) = 46 from congrArg Prod.fst h) (by decide)

theorem mark_lt {r : Option ℕ} : (mark r).key < dot.key ↔ r ≠ none := by
  rw [Prod.Lex.lt_iff]
  cases r with
  | none => decide
  | some r => simp [mark, minus, dot, Piece.key]

theorem lt_mark {r : Option ℕ} : dot.key < (mark r).key ↔ r = none := by
  rw [Prod.Lex.lt_iff]
  cases r with
  | none => decide
  | some r => simp [mark, minus, dot, Piece.key]

/-- Behind one version, a revision comes before none, and revisions come by number. -/
theorem tail_lt {r s : Option ℕ} : keys (tail r) < keys (tail s) ↔
    r ≠ none ∧ s = none ∨ ∃ m n, r = some m ∧ s = some n ∧ m < n := by
  have hslash : ¬ slash.key < minus.key := by decide
  have hminus : minus.key < slash.key := by decide
  cases r with
  | none =>
    cases s with
    | none => simp
    | some n =>
      rw [tail, tail, archivePieces, List.cons_append, keys_cons_lt hminus.ne']
      simp [hslash]
  | some m =>
    cases s with
    | none =>
      rw [tail, tail]
      refine iff_of_true ?_ (.inl ⟨by simp, rfl⟩)
      exact (keys_cons_lt hminus.ne).2 hminus
    | some n =>
      rw [tail, tail, keys_cons_self, keys_append_lt]
      by_cases hmn : m = n
      · subst hmn
        simp
      · have hkey : (Piece.num m).key ≠ (Piece.num n).key := fun h => hmn (congrArg Prod.snd h)
        rw [keys_cons_lt hkey, key_num_lt]
        simp

theorem pieces_lt {c d : Directory} : keys c.pieces < keys d.pieces ↔
    Differ c.version d.version ∨ (c.version <+: d.version ∧ c.version ≠ d.version ∧ c.revision ≠ none) ∨
      (d.version <+: c.version ∧ c.version ≠ d.version ∧ d.revision = none) ∨
      c.version = d.version ∧ keys (tail c.revision) < keys (tail d.revision) := by
  have htail : ∀ r, ∃ rest, tail r = mark r :: rest := by
    intro r
    cases r with
    | none => exact ⟨_, rfl⟩
    | some r => exact ⟨_, rfl⟩
  obtain ⟨s, hs⟩ := htail c.revision
  obtain ⟨t, ht⟩ := htail d.revision
  unfold Directory.pieces
  rw [hs, ht, keys_dotted_lt (mark_ne _) (mark_ne _) s t c.nonempty d.nonempty, mark_lt, lt_mark]

/-- The archive that is chosen. Let `m` be the newest version there is. If some directory is named by `m` or by a front
part of it, without a revision, the shortest of these names is taken, however many newer directories there are.
Otherwise it is the last revision of `m`. -/
theorem ucrtCompatLibrary_selects (productionRoot : Text) (ds : List Directory) (provisioned : ds ≠ []) :
    ∃ c ∈ ds, ucrtCompatLibrary productionRoot (ds.map Directory.name) = .ok (candidate productionRoot c.name) ∧
      ∀ m ∈ ds, (∀ d ∈ ds, d.version ≤ m.version) →
        (c.revision = none ∧ c.version <+: m.version ∧
          ∀ d ∈ ds, d.revision = none → d.version <+: m.version → c.version <+: d.version) ∨
        (c.version = m.version ∧ (∀ d ∈ ds, d.revision = none → ¬ d.version <+: m.version) ∧
          ∃ r, c.revision = some r ∧ ∀ d ∈ ds, d.version = m.version → ∀ s, d.revision = some s → s ≤ r) := by
  have hcompare : ∀ a ∈ ds, ∀ b ∈ ds, strverscmp (candidate productionRoot a.name) (candidate productionRoot b.name) < 0 ↔
      keys a.pieces < keys b.pieces := by
    have hfront : ∀ a : Directory, candidate productionRoot a.name =
        (tool productionRoot ++ ['/']) ++ [] ++ text a.pieces := by
      intro a
      rw [text_pieces, candidate]
      simp
    intro a _ b _
    rw [hfront, hfront]
    refine strverscmp_pieces (fun x hx => ?_) (.inl rfl) (apart_pieces a) (apart_pieces b) fun h => absurd rfl h
    obtain rfl : '/' = x := by simpa using hx
    rfl
  obtain ⟨c, hc, hhead, hmax⟩ := sortDescending_head provisioned hcompare
  refine ⟨c, hc, ?_, fun m hm hnewest => ?_⟩
  · have hmap : (ds.map Directory.name).map (candidate productionRoot) =
        ds.map fun d => candidate productionRoot d.name := by rw [List.map_map]; rfl
    unfold ucrtCompatLibrary
    rw [hmap]
    split
    · rename_i hnil
      rw [hnil] at hhead
      cases hhead
    · rename_i library rest hcons
      rw [hcons] at hhead
      rw [Option.some.inj hhead]
  · have hmax : ∀ d ∈ ds, ¬ keys c.pieces < keys d.pieces := fun d hd => not_lt.2 (hmax d hd)
    have hfront : c.version <+: m.version := by
      rcases (hnewest c hc).lt_or_eq with hlt | heq
      · by_contra hno
        exact hmax m hm (pieces_lt.2 (.inl ⟨hlt, hno⟩))
      · rw [heq]
    have hcut : ∀ d ∈ ds, d.revision = none → d.version <+: c.version → d.version = c.version := by
      intro d hd hrevision hfront
      by_contra hne
      exact hmax d hd (pieces_lt.2 (.inr (.inr (.inl ⟨hfront, Ne.symm hne, hrevision⟩))))
    cases hrevision : c.revision with
    | none =>
      refine .inl ⟨rfl, hfront, fun d hd hnone hd' => ?_⟩
      rcases List.prefix_or_prefix_of_prefix hfront hd' with h | h
      · exact h
      · rw [hcut d hd hnone h]
    | some r =>
      have hsame : c.version = m.version := by
        by_contra hne
        exact hmax m hm (pieces_lt.2 (.inr (.inl ⟨hfront, hne, by simp [hrevision]⟩)))
      refine .inr ⟨hsame, fun d hd hnone hd' => ?_, r, rfl, fun d hd hversion s hs => ?_⟩
      · have heq := hcut d hd hnone (hsame ▸ hd')
        refine hmax d hd (pieces_lt.2 (.inr (.inr (.inr ⟨heq.symm, tail_lt.2 (.inl ⟨by simp [hrevision], hnone⟩)⟩))))
      · by_contra hlt
        refine hmax d hd (pieces_lt.2 (.inr (.inr (.inr ⟨hsame.trans hversion.symm, tail_lt.2 (.inr ?_)⟩))))
        exact ⟨r, s, hrevision, hs, by omega⟩

def release : Directory := ⟨[20, 1, 7], by decide, none⟩

def patchRelease : Directory := ⟨[20, 1, 7, 1], by decide, none⟩

/-- The archive for `20.1.7.1` is not taken while that for `20.1.7` is there. -/
theorem ucrtCompatLibrary_release :
    ucrtCompatLibrary "C:/production".toList ([release, patchRelease].map Directory.name) =
      .ok (candidate "C:/production".toList release.name) := by
  have hnewest : ∀ d ∈ [release, patchRelease], d.version ≤ patchRelease.version := by
    intro d hd
    rcases List.mem_cons.1 hd with rfl | hd
    · exact le_of_lt (by decide)
    · rw [List.mem_singleton.1 hd]
  obtain ⟨c, hc, heq, h⟩ := ucrtCompatLibrary_selects _ [release, patchRelease] (List.cons_ne_nil _ _)
  rcases h patchRelease (.tail _ (.head _)) hnewest with ⟨-, -, hshort⟩ | ⟨-, hnone, -⟩
  · have hfront := hshort release (.head _) rfl (by decide)
    rcases List.mem_cons.1 hc with rfl | hc
    · exact heq
    · rw [List.mem_singleton.1 hc] at hfront
      exact absurd hfront (by decide)
  · exact absurd (by decide) (hnone release (.head _) rfl)

end BuildEngine.Toolchain
