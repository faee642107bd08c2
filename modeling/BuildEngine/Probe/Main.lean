/-
`main` of `RuntimeLoaderProbe.cpp`: it reads the ordered list of DLLs from the environment and calls `ProbeOne` for each.
`ProbeOne`, which loads the DLL into the process, is a function of the state of the process.

Positions in strings are natural numbers; no difference of two positions that `main` computes is negative.
-/
import BuildEngine.Base.BasicString
import BuildEngine.Probe.Image

namespace BuildEngine.Probe

open Base Base.BasicString

/-! ## The ordered list -/

/-- `L" \t\r\n"` -/
def blanks : WString := [0x20, 0x09, 0x0D, 0x0A]

/-- `L';'` -/
def semicolon : UInt16 := 0x3B

/-- What a turn of the loop over the specification does. -/
inductive Turn where
  /-- `substr` throws -/
  | thrown
  | reject
  | finish (libraries : List WString)
  | again (start : ℕ) (libraries : List WString)

def turn (specification : WString) (start : ℕ) (libraries : List WString) : Turn :=
  let separator := find specification semicolon start
  match substr specification start (if separator = npos then separator else separator - start) with
  | none => .thrown
  | some item =>
    let first := findFirstNotOf item blanks
    let last := findLastNotOf item blanks
    if first = npos ∨ libraries.length ≥ 64 then .reject
    else match substr item first (last - first + 1) with
      | none => .thrown
      | some library =>
        if separator = npos then .finish (libraries ++ [library])
        else .again (separator + 1) (libraries ++ [library])

/-- Every other turn starts further to the right, and not behind the end. -/
theorem turn_again {specification : WString} {start start' : ℕ} {libraries libraries' : List WString}
    (h : turn specification start libraries = .again start' libraries') :
    start < start' ∧ start' ≤ specification.length := by
  simp only [turn] at h
  split at h
  · cases h
  · split at h
    · cases h
    · split at h
      · cases h
      · split at h
        · cases h
        · rename_i hfound
          cases h
          have hlt := find_lt hfound
          omega

/-- How the loop ends. -/
inductive Reading where
  | thrown
  | rejected
  | accepted (libraries : List WString)
  deriving DecidableEq, Repr

/-- The loop over the specification. -/
def readFrom (specification : WString) (start : ℕ) (libraries : List WString) : Reading :=
  match _h : turn specification start libraries with
  | .thrown => .thrown
  | .reject => .rejected
  | .finish libraries' => .accepted libraries'
  | .again start' libraries' => readFrom specification start' libraries'
termination_by specification.length - start
decreasing_by
  have hlt := turn_again _h
  omega

/-! ## The process -/

/-- What `main` asks Windows for. -/
structure Process where
  /-- the value of a variable of the environment, empty if the variable is not set -/
  environment : String → WString
  /-- the path of the executable, empty if `GetModuleFileNameW` fails -/
  executable : WString

/-- What `GetEnvironmentVariableW` returns for a buffer of `size` characters. -/
def environmentLength (size : ℕ) (value : WString) : ℕ := if value.length < size then value.length else value.length + 1

/-- What `GetModuleFileNameW` returns for a buffer of `size` characters. -/
def moduleLength (size : ℕ) (path : WString) : ℕ := min path.length size

/-- The specification, or nothing if it is missing or too long. -/
def Process.specification (process : Process) : Option WString :=
  let list := process.environment "ADECC_RUNTIME_PROBE_DLLS"
  let values := if environmentLength 4096 list = 0 then process.environment "ADECC_RUNTIME_PROBE_DLL" else list
  let n := environmentLength 4096 values
  if n = 0 ∨ n ≥ 4096 then none else some (values.take n)

/-- `L"\\/"` -/
def slashes : WString := [0x5C, 0x2F]

/-- The directory of the executable with the slash behind it, or the line that is printed before the end, if there is one. -/
def Process.directory (process : Process) : Except (Option String) WString :=
  let exeLength := moduleLength 32768 process.executable
  if exeLength = 0 ∨ exeLength ≥ 32768 then .error (some "[LOADER] GetModuleFileNameW failed\n")
  else
    let directory := process.executable.take exeLength
    let slash := findLastOf directory slashes
    if slash = npos then .error none else .ok (erase directory (slash + 1))

/-! ## The calls -/

/-- `ProbeOne(name, directory, index, total)` -/
structure Call where
  name : WString
  directory : WString
  index : ℕ
  total : ℕ
  deriving DecidableEq, Repr

inductive MainEvent where
  | wprintf (format : String) (args : List Arg)
  | probeOne (call : Call) (passed : Bool)
  deriving DecidableEq, Repr

variable {σ : Type} (probeOne : Call → σ → Bool × σ)

/-- The loop over the libraries from `libraries[i]` on. -/
def probeLoop (directory : WString) (total : ℕ) : List WString → ℕ → ℕ → σ → Traced MainEvent (ℕ × σ)
  | [], _, passed, s => pure (passed, s)
  | library :: libraries, i, passed, s => do
    let call : Call := ⟨library, directory, i + 1, total⟩
    let (success, s) := probeOne call s
    Traced.emit (.probeOne call success)
    probeLoop directory total libraries (i + 1) (if success then passed + 1 else passed) s

/-- How the process ends. -/
inductive Exit where
  /-- an exception that nothing catches -/
  | terminated
  | status (n : ℕ)
  deriving DecidableEq, Repr

def main (process : Process) (s : σ) : Traced MainEvent (Exit × σ) := do
  match process.specification with
  | none =>
    Traced.emit (.wprintf "[LOADER] Missing or oversized ADECC_RUNTIME_PROBE_DLLS environment setting\n" [])
    pure (.status 2, s)
  | some specification =>
    match process.directory with
    | .error none => pure (.status 2, s)
    | .error (some line) =>
      Traced.emit (.wprintf line [])
      pure (.status 2, s)
    | .ok directory =>
      match readFrom specification 0 [] with
      | .thrown => pure (.terminated, s)
      | .rejected =>
        Traced.emit (.wprintf "[LOADER] Invalid or oversized ordered DLL list\n" [])
        pure (.status 2, s)
      | .accepted libraries =>
        Traced.emit (.wprintf "[LOADER] executable: %ls\n" [.wide process.executable])
        Traced.emit (.wprintf "[LOADER] ordered DLL checks: %zu\n" [.num libraries.length])
        let (passed, s) ← probeLoop probeOne directory libraries.length libraries 0 0 s
        Traced.emit (.wprintf "[LOADER] SUMMARY: %zu/%zu PASS, %zu FAIL\n"
          [.num passed, .num libraries.length, .num (libraries.length - passed)])
        pure (.status (if passed = libraries.length then 0 else 1), s)

/-! ## The list that is read -/

/-- An item with a character that is not blank. -/
def Named (item : WString) : Prop := ∃ c ∈ item, c ∉ blanks

instance (item : WString) : Decidable (Named item) := inferInstanceAs (Decidable (∃ c ∈ item, c ∉ blanks))

/-- What stands between the semicolons. -/
def items (specification : WString) : List WString := specification.splitOn semicolon

def Accepted (specification : WString) : Prop :=
  (items specification).length ≤ 64 ∧ ∀ item ∈ items specification, Named item

instance (specification : WString) : Decidable (Accepted specification) :=
  inferInstanceAs (Decidable ((items specification).length ≤ 64 ∧ ∀ item ∈ items specification, Named item))

/-- The items without the blanks around them. -/
def entries (specification : WString) : List WString := (items specification).map (trim blanks)

section Read

variable {specification : WString} {start : ℕ} {libraries : List WString}

/-- A turn that has cut out this item. -/
theorem turn_eq {item : WString} (hitem : item.length < npos)
    (hsubstr : substr specification start (if find specification semicolon start = npos
      then find specification semicolon start else find specification semicolon start - start) = some item) :
    turn specification start libraries =
      if Named item ∧ libraries.length < 64 then
        if find specification semicolon start = npos then .finish (libraries ++ [trim blanks item])
        else .again (find specification semicolon start + 1) (libraries ++ [trim blanks item])
      else .reject := by
  have hfirst : findFirstNotOf item blanks = npos ↔ ¬ Named item := by
    rw [findFirstNotOf_eq_npos hitem, Named]
    simp
  simp only [turn, hsubstr, hfirst]
  by_cases hnamed : Named item
  · by_cases hfull : libraries.length < 64
    · have hnot : ¬ (¬ Named item ∨ libraries.length ≥ 64) := by
        rintro (h | h)
        · exact h hnamed
        · omega
      rw [if_neg hnot, if_pos ⟨hnamed, hfull⟩, substr_trim hnamed]
    · rw [if_pos (.inr (by omega)), if_neg fun h => hfull h.2]
  · rw [if_pos (.inl hnamed), if_neg fun h => hnamed h.1]

/-- The turn at the last item. -/
theorem turn_last (hlength : specification.length < npos) (hstart : start ≤ specification.length)
    (hlast : semicolon ∉ specification.drop start) :
    turn specification start libraries =
      if Named (specification.drop start) ∧ libraries.length < 64 then
        .finish (libraries ++ [trim blanks (specification.drop start)])
      else .reject := by
  have hfind := find_of_not_mem hlast
  have hitem : (specification.drop start).length < npos := by
    rw [List.length_drop]
    omega
  rw [turn_eq hitem, if_pos hfind]
  rw [if_pos hfind, hfind]
  exact substr_npos hstart hlength

/-- The turn at an item in front of a semicolon. -/
theorem turn_item {item rest : WString} (hlength : specification.length < npos) (hstart : start ≤ specification.length)
    (hdrop : specification.drop start = item ++ semicolon :: rest) (hitem : semicolon ∉ item) :
    turn specification start libraries =
      if Named item ∧ libraries.length < 64 then
        .again (start + item.length + 1) (libraries ++ [trim blanks item])
      else .reject := by
  have hfind := find_of_eq hdrop hitem
  have hsum : start + item.length < specification.length := by
    have hcongr := congrArg List.length hdrop
    rw [List.length_drop, List.length_append, List.length_cons] at hcongr
    omega
  have hne : find specification semicolon start ≠ npos := by omega
  have hshort : item.length < npos := by omega
  rw [turn_eq hshort, if_neg hne, hfind]
  rw [if_neg hne, hfind, Nat.add_sub_cancel_left]
  exact substr_of_eq hstart hdrop

theorem readFrom_reject (h : turn specification start libraries = .reject) :
    readFrom specification start libraries = .rejected := by
  rw [readFrom]
  split <;> simp_all

theorem readFrom_finish {libraries' : List WString} (h : turn specification start libraries = .finish libraries') :
    readFrom specification start libraries = .accepted libraries' := by
  rw [readFrom]
  split <;> simp_all

theorem readFrom_again {start' : ℕ} {libraries' : List WString}
    (h : turn specification start libraries = .again start' libraries') :
    readFrom specification start libraries = readFrom specification start' libraries' := by
  rw [readFrom]
  split <;> simp_all

/-- The run lemma: from `start` on the loop reads the items that are left. -/
theorem readFrom_eq (hlength : specification.length < npos) (hstart : start ≤ specification.length) :
    readFrom specification start libraries =
      if libraries.length + (items (specification.drop start)).length ≤ 64 ∧
          ∀ item ∈ items (specification.drop start), Named item then
        .accepted (libraries ++ entries (specification.drop start))
      else .rejected := by
  induction hn : specification.length - start using Nat.strong_induction_on generalizing start libraries with
  | _ n ih =>
    by_cases hlast : semicolon ∈ specification.drop start
    · obtain ⟨item, rest, hdrop, hitem⟩ := List.eq_append_cons_of_mem hlast
      have hitems : items (specification.drop start) = item :: items rest := by
        rw [items, hdrop, List.splitOn_append_cons_self_of_not_mem hitem, items]
      have hrest : specification.drop (start + item.length + 1) = rest := by
        calc specification.drop (start + item.length + 1)
            = (specification.drop start).drop (item.length + 1) := by rw [List.drop_drop, Nat.add_assoc]
          _ = rest := by simp [hdrop]
      have hturn : turn specification start libraries = _ := turn_item hlength hstart hdrop hitem
      by_cases hgood : Named item ∧ libraries.length < 64
      · rw [if_pos hgood] at hturn
        obtain ⟨hlt, hle⟩ := turn_again hturn
        rw [readFrom_again hturn, ih _ (by omega) hle rfl, hrest]
        simp only [entries, hitems, List.length_append, List.length_cons, List.length_nil, List.forall_mem_cons,
          List.map_cons, List.append_assoc, List.singleton_append, hgood.1, true_and]
        congr 2
        simp only [eq_iff_iff]
        omega
      · rw [if_neg hgood] at hturn
        rw [readFrom_reject hturn, if_neg]
        rintro ⟨hsize, hall⟩
        rw [hitems, List.length_cons] at hsize
        rw [hitems] at hall
        exact hgood ⟨hall item (.head _), by omega⟩
    · have hitems : items (specification.drop start) = [specification.drop start] := List.splitOn_eq_singleton hlast
      have hturn : turn specification start libraries = _ := turn_last hlength hstart hlast
      by_cases hgood : Named (specification.drop start) ∧ libraries.length < 64
      · rw [if_pos hgood] at hturn
        rw [readFrom_finish hturn, if_pos, entries, hitems, List.map_singleton]
        rw [hitems]
        refine ⟨?_, ?_⟩
        · rw [List.length_singleton]
          omega
        · simpa using hgood.1
      · rw [if_neg hgood] at hturn
        rw [readFrom_reject hturn, if_neg]
        rintro ⟨hsize, hall⟩
        rw [hitems, List.length_singleton] at hsize
        rw [hitems] at hall
        exact hgood ⟨hall _ (.head _), by omega⟩

end Read

/-- The loop ends on every string, without an exception. -/
theorem readFrom_zero {specification : WString} (hlength : specification.length < npos) :
    readFrom specification 0 [] =
      if Accepted specification then .accepted (entries specification) else .rejected := by
  rw [readFrom_eq hlength (Nat.zero_le _), List.drop_zero, List.length_nil, Nat.zero_add, List.nil_append]
  rfl

/-- A name as the list gives it: not empty, without semicolons and without blanks at its ends. -/
structure IsEntry (name : WString) : Prop where
  ne_nil : name ≠ []
  semicolon : semicolon ∉ name
  first : ∀ c ∈ name.head?, c ∉ blanks
  last : ∀ c ∈ name.getLast?, c ∉ blanks

theorem IsEntry.named {name : WString} (h : IsEntry name) : Named name := by
  obtain ⟨c, t, rfl⟩ := List.exists_cons_of_ne_nil h.ne_nil
  exact ⟨c, .head _, h.first c rfl⟩

/-- Names joined with semicolons are read back. -/
theorem readFrom_intercalate {names : List WString} (hnames : names ≠ []) (hcount : names.length ≤ 64)
    (hentries : ∀ name ∈ names, IsEntry name) (hlength : ([semicolon].intercalate names).length < npos) :
    readFrom ([semicolon].intercalate names) 0 [] = .accepted names := by
  have hitems : items ([semicolon].intercalate names) = names :=
    List.splitOn_intercalate semicolon (fun name hname => (hentries name hname).semicolon) hnames
  have hself : entries ([semicolon].intercalate names) = names := by
    rw [entries, hitems]
    conv_rhs => rw [← List.map_id names]
    apply List.map_congr_left
    intro name hname
    exact trim_eq_self (hentries name hname).first (hentries name hname).last
  rw [readFrom_zero hlength, if_pos, hself]
  rw [Accepted, hitems]
  exact ⟨hcount, fun name hname => (hentries name hname).named⟩

/-! ## The calls of a run -/

/-- The calls of `ProbeOne` and their results. -/
def probed (log : List MainEvent) : List (Call × Bool) :=
  log.filterMap fun
    | .probeOne call passed => some (call, passed)
    | .wprintf _ _ => none

/-- The calls for a list, in its order. -/
def callsOf (directory : WString) (total i : ℕ) (libraries : List WString) : List Call :=
  (libraries.zipIdx i).map fun library => ⟨library.1, directory, library.2 + 1, total⟩

/-- The calls in turn, each with the state in which it is made. -/
def statesOf : List Call → σ → List (Call × σ)
  | [], _ => []
  | call :: calls, s => (call, s) :: statesOf calls (probeOne call s).2

theorem statesOf_calls (calls : List Call) (s : σ) : (statesOf probeOne calls s).map Prod.fst = calls := by
  induction calls generalizing s with
  | nil => rfl
  | cons call calls ih => rw [statesOf, List.map_cons, ih]

/-- The results of the calls, each in the state that the one before has left. -/
def resultsOf (calls : List Call) (s : σ) : List (Call × Bool) :=
  (statesOf probeOne calls s).map fun r => (r.1, (probeOne r.1 r.2).1)

/-- The state behind the calls. -/
def stateAfter (calls : List Call) (s : σ) : σ := calls.foldl (fun s call => (probeOne call s).2) s

theorem resultsOf_calls (calls : List Call) (s : σ) : (resultsOf probeOne calls s).map Prod.fst = calls := by
  have hmap : (resultsOf probeOne calls s).map Prod.fst = (statesOf probeOne calls s).map Prod.fst := by
    rw [resultsOf, List.map_map]
    rfl
  rw [hmap, statesOf_calls]

/-- The loop makes its calls one after another, whatever their results are, and counts those that pass. -/
theorem probeLoop_spec (directory : WString) (total : ℕ) (libraries : List WString) (i passed : ℕ) (s : σ) :
    let run := probeLoop probeOne directory total libraries i passed s
    let calls := callsOf directory total i libraries
    probed run.log = resultsOf probeOne calls s ∧
      run.val = (passed + (resultsOf probeOne calls s).countP Prod.snd, stateAfter probeOne calls s) := by
  induction libraries generalizing i passed s with
  | nil => exact ⟨rfl, rfl⟩
  | cons library libraries ih =>
    have hcalls : callsOf directory total i (library :: libraries) =
        ⟨library, directory, i + 1, total⟩ :: callsOf directory total (i + 1) libraries := by
      simp [callsOf, List.zipIdx_cons]
    obtain ⟨hprobed, hval⟩ := ih (i + 1) (if (probeOne ⟨library, directory, i + 1, total⟩ s).1 then passed + 1 else passed)
      (probeOne ⟨library, directory, i + 1, total⟩ s).2
    simp only [probeLoop]
    rw [hcalls]
    constructor
    · exact congrArg (_ :: ·) hprobed
    · have hcount : (if (probeOne ⟨library, directory, i + 1, total⟩ s).1 then passed + 1 else passed) +
          (resultsOf probeOne (callsOf directory total (i + 1) libraries)
            (probeOne ⟨library, directory, i + 1, total⟩ s).2).countP Prod.snd =
          passed + (resultsOf probeOne (⟨library, directory, i + 1, total⟩ :: callsOf directory total (i + 1) libraries)
            s).countP Prod.snd := by
        simp only [resultsOf, statesOf, List.map_cons, List.countP_cons]
        split
        · omega
        · omega
      rw [← hcount]
      exact hval

/-- A value of the variables is the specification if and only if it has 1 to 4095 characters. -/
theorem specification_eq_some {process : Process} {specification : WString} :
    process.specification = some specification ↔ (1 ≤ specification.length ∧ specification.length ≤ 4095) ∧
      (process.environment "ADECC_RUNTIME_PROBE_DLLS" = specification ∨
        process.environment "ADECC_RUNTIME_PROBE_DLLS" = [] ∧
          process.environment "ADECC_RUNTIME_PROBE_DLL" = specification) := by
  have hzero : ∀ value : WString, environmentLength 4096 value = 0 ↔ value = [] := by
    intro value
    rw [environmentLength]
    split
    · exact List.length_eq_zero_iff
    · rename_i hlong
      constructor
      · intro h
        omega
      · rintro rfl
        simp at hlong
  have hvalue : ∀ value : WString,
      (if environmentLength 4096 value = 0 ∨ environmentLength 4096 value ≥ 4096 then none
        else some (value.take (environmentLength 4096 value))) = some specification ↔
      (1 ≤ specification.length ∧ specification.length ≤ 4095) ∧ value = specification := by
    intro value
    by_cases hshort : value.length < 4096
    · rw [environmentLength, if_pos hshort, List.take_length]
      split
      · rename_i hbad
        constructor
        · intro h
          cases h
        · rintro ⟨hlength, rfl⟩
          omega
      · rename_i hgood
        rw [Option.some.injEq]
        constructor
        · rintro rfl
          exact ⟨by omega, rfl⟩
        · exact fun h => h.2
    · rw [environmentLength, if_neg hshort, if_pos (.inr (by omega))]
      constructor
      · intro h
        cases h
      · rintro ⟨hlength, rfl⟩
        omega
  simp only [Process.specification, hvalue]
  simp only [hzero]
  by_cases hempty : process.environment "ADECC_RUNTIME_PROBE_DLLS" = []
  · rw [if_pos hempty]
    refine and_congr_right fun hlength => ?_
    constructor
    · exact fun h => .inr ⟨hempty, h⟩
    · rintro (h | h)
      · rw [hempty] at h
        subst h
        simp at hlength
      · exact h.2
  · rw [if_neg hempty]
    refine and_congr_right fun _ => ?_
    constructor
    · exact fun h => .inl h
    · rintro (h | h)
      · exact h
      · exact absurd h.1 hempty

/-- The calls that the environment asks for: one for each item of an accepted list, in its order. -/
def Process.calls (process : Process) : List Call :=
  match process.specification, process.directory with
  | some specification, .ok directory =>
    if Accepted specification then callsOf directory (entries specification).length 0 (entries specification) else []
  | _, _ => []

theorem entries_ne_nil (specification : WString) : entries specification ≠ [] := by
  rw [entries, items, ne_eq, List.map_eq_nil_iff]
  exact List.splitOn_ne_nil semicolon specification

theorem Process.calls_ne_nil {process : Process} (h : process.calls ≠ []) : ∃ specification directory,
    process.specification = some specification ∧ process.directory = .ok directory ∧ Accepted specification ∧
      process.calls = callsOf directory (entries specification).length 0 (entries specification) := by
  unfold Process.calls at h ⊢
  split at h
  · rename_i specification directory hspecification hdirectory
    split at h
    · rename_i haccepted
      exact ⟨specification, directory, hspecification, hdirectory, haccepted, if_pos haccepted⟩
    · exact absurd rfl h
  · exact absurd rfl h

theorem specification_lt_npos {process : Process} {specification : WString}
    (h : process.specification = some specification) : specification.length < npos := by
  have hle := (specification_eq_some.1 h).1.2
  rw [npos]
  omega

/-- An accepted list: the calls are made, and the exit status says whether all have passed. -/
theorem main_accepted (process : Process) (s : σ) {specification directory : WString}
    (hspecification : process.specification = some specification) (hdirectory : process.directory = .ok directory)
    (haccepted : Accepted specification) :
    let calls := callsOf directory (entries specification).length 0 (entries specification)
    probed (main probeOne process s).log = resultsOf probeOne calls s ∧
      (main probeOne process s).val = (.status (if ∀ r ∈ resultsOf probeOne calls s, r.2 then 0 else 1),
        stateAfter probeOne calls s) := by
  intro calls
  have hread := readFrom_zero (specification_lt_npos hspecification)
  rw [if_pos haccepted] at hread
  obtain ⟨hprobed, hval⟩ := probeLoop_spec probeOne directory (entries specification).length (entries specification) 0 0 s
  have hcount : (resultsOf probeOne calls s).length = (entries specification).length := by
    have hlength := congrArg List.length (resultsOf_calls probeOne calls s)
    simpa [calls, callsOf] using hlength
  constructor
  · rw [← hprobed]
    simp [main, hspecification, hdirectory, hread, probed]
  · have hall : (resultsOf probeOne calls s).countP Prod.snd = (entries specification).length ↔
        ∀ r ∈ resultsOf probeOne calls s, r.2 := by rw [← hcount, List.countP_eq_length]
    simp only [main, hspecification, hdirectory, hread, Traced.val_bind, Traced.val_pure, hval, Nat.zero_add]
    exact Prod.ext (congrArg Exit.status (if_congr hall rfl rfl)) rfl

/-- Everything else ends with status 2 before the first call. -/
theorem main_refused (process : Process) (s : σ) (h : process.calls = []) :
    probed (main probeOne process s).log = [] ∧ (main probeOne process s).val = (.status 2, s) := by
  cases hspecification : process.specification with
  | none => simp [main, hspecification, probed]
  | some specification =>
    have hread := readFrom_zero (specification_lt_npos hspecification)
    cases hdirectory : process.directory with
    | error line => cases line <;> simp [main, hspecification, hdirectory, probed]
    | ok directory =>
      have hrejected : ¬ Accepted specification := fun haccepted => by
        simp [Process.calls, hspecification, hdirectory, haccepted, callsOf, entries_ne_nil] at h
      rw [if_neg hrejected] at hread
      simp [main, hspecification, hdirectory, hread, probed]

/-- Of a specification of 1 to 4095 characters, in one of the two variables, `main` accepts the lists with at most 64 items
that all have a character that is not blank, and reads the items without the blanks around them. It then calls `ProbeOne`
for each of them in turn, in the state that the call before has left, and returns 0 if and only if all calls succeed.
Lists of names can be told that way. -/
theorem main_probes (process : Process) (s : σ) {specification directory : WString}
    (hlength : 1 ≤ specification.length ∧ specification.length ≤ 4095)
    (hvalue : process.environment "ADECC_RUNTIME_PROBE_DLLS" = specification ∨
      process.environment "ADECC_RUNTIME_PROBE_DLLS" = [] ∧
        process.environment "ADECC_RUNTIME_PROBE_DLL" = specification)
    (hdirectory : process.directory = .ok directory) :
    readFrom specification 0 [] =
      (if Accepted specification then .accepted (entries specification) else .rejected) ∧
    (∀ names, names ≠ [] → names.length ≤ 64 → (∀ name ∈ names, IsEntry name) →
      specification = [semicolon].intercalate names → readFrom specification 0 [] = .accepted names) ∧
    (Accepted specification → ∃ calls : List Call,
      calls = callsOf directory (entries specification).length 0 (entries specification) ∧
      probed (main probeOne process s).log = resultsOf probeOne calls s ∧
      (main probeOne process s).val.1 = .status (if ∀ r ∈ resultsOf probeOne calls s, r.2 then 0 else 1) ∧
      (main probeOne process s).val.2 = stateAfter probeOne calls s) ∧
    (¬ Accepted specification →
      probed (main probeOne process s).log = [] ∧ (main probeOne process s).val = (.status 2, s)) := by
  have hspecification := specification_eq_some.2 ⟨hlength, hvalue⟩
  have hshort := specification_lt_npos hspecification
  refine ⟨readFrom_zero hshort, ?_, ?_, ?_⟩
  · rintro names hnames hcount hentries rfl
    exact readFrom_intercalate hnames hcount hentries hshort
  · intro haccepted
    obtain ⟨hprobed, hval⟩ := main_accepted probeOne process s hspecification hdirectory haccepted
    exact ⟨_, rfl, hprobed, congrArg Prod.fst hval, congrArg Prod.snd hval⟩
  · intro hrejected
    refine main_refused probeOne process s ?_
    rw [Process.calls, hspecification, hdirectory]
    exact if_neg hrejected

/-- The list `a; b` in the old variable, read by `C:\p`. -/
def twoLibraries : Process where
  environment name := if name = "ADECC_RUNTIME_PROBE_DLL" then [0x61, 0x3B, 0x20, 0x62] else []
  executable := [0x43, 0x3A, 0x5C, 0x70]

/-- A process in which the loader finds the second library only, and that counts the calls. -/
def findsSecond (call : Call) (count : ℕ) : Bool × ℕ := (call.name == [0x62], count + 1)

/-- The first call fails, the second one is made nevertheless. -/
theorem main_probes_two :
    probed (main findsSecond twoLibraries 0).log =
      [(⟨[0x61], [0x43, 0x3A, 0x5C], 1, 2⟩, false), (⟨[0x62], [0x43, 0x3A, 0x5C], 2, 2⟩, true)] ∧
    (main findsSecond twoLibraries 0).val = (.status 1, 2) := by
  obtain ⟨-, -, haccepted, -⟩ := main_probes findsSecond twoLibraries 0 (by decide) (.inr ⟨rfl, rfl⟩)
    (show twoLibraries.directory = .ok [0x43, 0x3A, 0x5C] by decide)
  obtain ⟨calls, hcalls, hprobed, hstatus, hstate⟩ := haccepted (by decide)
  rw [hprobed, hcalls]
  refine ⟨by decide, Prod.ext ?_ ?_⟩
  · rw [hstatus, hcalls]
    decide
  · rw [hstate, hcalls]
    decide

end BuildEngine.Probe
