/-
Bounded depth-first search: nodes have keys, a node whose key was entered before is not entered again,
and the search goes no deeper than `maxDepth` levels below the root and stops entering nodes when
`maxNodes` are entered.

A node is entered once, at the depth of the first call that reaches it, so a short chain from the root does
not by itself save the nodes behind it. `search_chain` says what does: along every chain from the root each
node is entered, or an earlier one was entered on the last level. In particular (`search_complete`) the
search is complete when no chain of distinct nodes is longer than `maxDepth`.
-/
import Mathlib.Data.List.Chain
import Mathlib.Tactic

namespace Base.Search

variable {P K : Type}

/-- The nodes entered, last first, and the nodes cut off, each with its depth. -/
structure State (P : Type) where
  entered : List (P × Nat)
  cut : List (P × Nat)

namespace State

def empty : State P := ⟨[], []⟩

def enter (s : State P) (p : P) (depth : Nat) : State P := { s with entered := (p, depth) :: s.entered }

def cutOff (s : State P) (p : P) (depth : Nat) : State P := { s with cut := (p, depth) :: s.cut }

/-- The keys entered. -/
def keys (key : P → K) (s : State P) : List K := s.entered.map fun x => key x.1

end State

section

variable (key : P → K) (succ : P → List P) (maxNodes : Nat)

/-- The search from `p`, at `depth`, with `left` levels left. -/
def dfs [DecidableEq K] : Nat → P → Nat → State P → State P
  | 0, p, depth, s => s.cutOff p depth
  | left + 1, p, depth, s =>
    if s.entered.length ≥ maxNodes then s.cutOff p depth
    else if key p ∈ s.keys key then s
    else (succ p).foldl (fun s c => dfs left c (depth + 1) s) (s.enter p depth)

/-- A way to `p`: `p`, its predecessor, and so on to the root. No key occurs twice in it. -/
structure Trail (root : P) (way : List P) (p : P) : Prop where
  chain : (p :: way).IsChain fun a b => a ∈ succ b
  nodup : ((p :: way).map key).Nodup
  last : (p :: way).getLast (List.cons_ne_nil _ _) = root

/-- The keys of a way are entered. -/
def Covered (way : List P) (s : State P) : Prop := ∀ q ∈ way, key q ∈ s.keys key

/-- What a piece of the search with the calls `calls`, all at `depth`, does to the state; `limit` is the
depth at which no level is left. -/
structure Extends (root : P) (limit : Nat) (calls : List P) (depth : Nat) (s s' : State P) : Prop where
  grows : s.entered ⊆ s'.entered
  cutGrows : s.cut ⊆ s'.cut
  called : ∀ p ∈ calls, key p ∈ s'.keys key ∨ (p, depth) ∈ s'.cut
  closed : ∀ x ∈ s'.entered, x ∈ s.entered ∨
    ∀ c ∈ succ x.1, key c ∈ s'.keys key ∨ (c, x.2 + 1) ∈ s'.cut
  reason : ∀ x ∈ s'.cut, x ∈ s.cut ∨ x.2 = limit ∨ maxNodes ≤ s'.entered.length
  trail : ∀ x ∈ s'.entered, x ∈ s.entered ∨
    ∃ way, way.length = x.2 ∧ Trail key succ root way x.1 ∧ Covered key way s'
  nodup : (s.keys key).Nodup → (s'.keys key).Nodup
  length : s.entered.length ≤ s'.entered.length

end

variable {key : P → K} {succ : P → List P} {maxNodes limit depth : Nat} {root : P}

theorem keys_subset {s s' : State P} (h : s.entered ⊆ s'.entered) : s.keys key ⊆ s'.keys key := by
  intro k hk
  obtain ⟨x, hx, rfl⟩ := List.mem_map.1 hk
  exact List.mem_map_of_mem (h hx)

theorem Covered.mono {way : List P} {s s' : State P} (h : Covered key way s) (hs : s.entered ⊆ s'.entered) :
    Covered key way s' := fun q hq => keys_subset hs (h q hq)

theorem Extends.refl (s : State P) : Extends key succ maxNodes root limit [] depth s s where
  grows := List.Subset.refl _
  cutGrows := List.Subset.refl _
  called := by intro p hp; cases hp
  closed := fun x hx => .inl hx
  reason := fun x hx => .inl hx
  trail := fun x hx => .inl hx
  nodup := id
  length := le_refl _

/-- Pieces of the search compose. -/
theorem Extends.trans {calls calls' : List P} {s s' s'' : State P}
    (h : Extends key succ maxNodes root limit calls depth s s')
    (h' : Extends key succ maxNodes root limit calls' depth s' s'') :
    Extends key succ maxNodes root limit (calls ++ calls') depth s s'' where
  grows := List.Subset.trans h.grows h'.grows
  cutGrows := List.Subset.trans h.cutGrows h'.cutGrows
  called := by
    intro p hp
    rcases List.mem_append.1 hp with hp | hp
    · exact (h.called p hp).imp (fun hk => keys_subset h'.grows hk) (fun hc => h'.cutGrows hc)
    · exact h'.called p hp
  closed := by
    intro x hx
    rcases h'.closed x hx with hx | hx
    · refine (h.closed x hx).imp_right fun hc c hmem => ?_
      exact (hc c hmem).imp (fun hk => keys_subset h'.grows hk) (fun hc => h'.cutGrows hc)
    · exact .inr hx
  reason := by
    intro x hx
    rcases h'.reason x hx with hx | hx
    · exact (h.reason x hx).imp_right fun hr => hr.imp_right fun hn => le_trans hn h'.length
    · exact .inr hx
  trail := by
    intro x hx
    rcases h'.trail x hx with hx | hx
    · refine (h.trail x hx).imp_right ?_
      rintro ⟨way, hlen, hway, hc⟩
      exact ⟨way, hlen, hway, hc.mono h'.grows⟩
    · exact .inr hx
  nodup := fun hn => h'.nodup (h.nodup hn)
  length := le_trans h.length h'.length

theorem cutOff_extends {s : State P} {p : P} (h : depth = limit ∨ maxNodes ≤ s.entered.length) :
    Extends key succ maxNodes root limit [p] depth s (s.cutOff p depth) where
  grows := List.Subset.refl _
  cutGrows := List.subset_cons_self _ _
  called := by
    intro q hq
    rw [List.mem_singleton.1 hq]
    exact .inr (List.mem_cons_self ..)
  closed := fun x hx => .inl hx
  reason := by
    intro x hx
    rcases List.mem_cons.1 hx with rfl | hx
    · exact .inr h
    · exact .inl hx
  trail := fun x hx => .inl hx
  nodup := id
  length := le_refl _

/-- Entering a node and searching its successors. -/
theorem enter_extends {s s' : State P} {p : P} {way : List P} (hnew : key p ∉ s.keys key)
    (hway : way.length = depth) (htrail : Trail key succ root way p) (hc : Covered key way s)
    (h : Extends key succ maxNodes root limit (succ p) (depth + 1) (s.enter p depth) s') :
    Extends key succ maxNodes root limit [p] depth s s' where
  grows := List.Subset.trans (List.subset_cons_self _ _) h.grows
  cutGrows := h.cutGrows
  called := by
    intro q hq
    rw [List.mem_singleton.1 hq]
    exact .inl (keys_subset h.grows (List.mem_cons_self ..))
  closed := by
    intro x hx
    rcases h.closed x hx with hx | hx
    · rcases List.mem_cons.1 hx with rfl | hx
      · exact .inr fun c hc => h.called c hc
      · exact .inl hx
    · exact .inr hx
  reason := h.reason
  trail := by
    intro x hx
    rcases h.trail x hx with hx | hx
    · rcases List.mem_cons.1 hx with rfl | hx
      · exact .inr ⟨way, hway, htrail, hc.mono (List.Subset.trans (List.subset_cons_self _ _) h.grows)⟩
      · exact .inl hx
    · exact .inr hx
  nodup := fun hn => h.nodup (List.nodup_cons.2 ⟨hnew, hn⟩)
  length := le_trans (Nat.le_succ _) h.length

variable [DecidableEq K]

/-- A call to `p` at the end of `way` extends the search by `p`. -/
theorem dfs_extends : ∀ (left : Nat) (p : P) (depth : Nat) (s : State P) (way : List P),
    depth + left = limit → way.length = depth → Covered key way s →
    (way.map key).Nodup → (p :: way).IsChain (fun a b => a ∈ succ b) →
    (p :: way).getLast (List.cons_ne_nil _ _) = root →
    Extends key succ maxNodes root limit [p] depth s (dfs key succ maxNodes left p depth s)
  | 0, p, depth, s, way, hd, _, _, _, _, _ => cutOff_extends (.inl (by omega))
  | left + 1, p, depth, s, way, hd, hl, hc, hn, hch, hlast => by
    rw [dfs]
    split
    · rename_i hfull
      exact cutOff_extends (.inr hfull)
    · split
      · rename_i hseen
        have h : Extends key succ maxNodes root limit [] depth s s := Extends.refl s
        exact { h with
          called := by
            intro q hq
            rw [List.mem_singleton.1 hq]
            exact .inl hseen }
      · rename_i hnew
        have hway : ((p :: way).map key).Nodup := by
          refine List.nodup_cons.2 ⟨fun hmem => ?_, hn⟩
          obtain ⟨q, hq, hkey⟩ := List.mem_map.1 hmem
          exact hnew (hkey ▸ hc q hq)
        refine enter_extends hnew hl ⟨hch, hway, hlast⟩ hc ?_
        have hcp : Covered key (p :: way) (s.enter p depth) := by
          intro q hq
          rcases List.mem_cons.1 hq with rfl | hq
          · exact List.mem_cons_self ..
          · exact List.mem_cons_of_mem _ (hc q hq)
        -- the calls to the successors, one after the other
        have hfold : ∀ (cs : List P) (t : State P), cs ⊆ succ p → Covered key (p :: way) t →
            Extends key succ maxNodes root limit cs (depth + 1) t
              (cs.foldl (fun s c => dfs key succ maxNodes left c (depth + 1) s) t) := by
          intro cs
          induction cs with
          | nil => intro t _ _; exact Extends.refl t
          | cons c cs ih =>
            intro t hsub ht
            have hstep : Extends key succ maxNodes root limit [c] (depth + 1) t
                (dfs key succ maxNodes left c (depth + 1) t) :=
              dfs_extends left c (depth + 1) t (p :: way) (by omega) (by simp [hl]) ht hway
                (List.isChain_cons_cons.2 ⟨hsub (List.mem_cons_self ..), hch⟩)
                (by rw [List.getLast_cons_cons]; exact hlast)
            exact hstep.trans (ih _ (fun q hq => hsub (List.mem_cons_of_mem _ hq)) (ht.mono hstep.grows))
        exact hfold (succ p) _ (List.Subset.refl _) hcp

section Root

variable (key succ maxNodes) (maxDepth : Nat) (root : P)

/-- The search from the root. -/
def search : State P := dfs key succ maxNodes (maxDepth + 1) root 0 .empty

theorem search_extends :
    Extends key succ maxNodes root (maxDepth + 1) [root] 0 .empty (search key succ maxNodes maxDepth root) :=
  dfs_extends (maxDepth + 1) root 0 .empty [] (by omega) rfl (by intro q hq; cases hq) List.nodup_nil
    (List.isChain_singleton _) rfl

/-- Fewer than `maxNodes` keys are on the chains from the root. -/
def Small : Prop :=
  ∀ ps : List P, (∀ p ∈ ps, Relation.ReflTransGen (fun a b => b ∈ succ a) root p) →
    (ps.map key).Nodup → ps.length < maxNodes

end Root

variable {maxDepth : Nat}

omit [DecidableEq K] in
theorem Trail.reachable {way : List P} {p : P} (h : Trail key succ root way p) :
    Relation.ReflTransGen (fun a b => b ∈ succ a) root p := by
  obtain ⟨hchain, -, hlast⟩ := h
  induction way generalizing p with
  | nil => rw [List.getLast_singleton] at hlast; rw [hlast]
  | cons q way ih =>
    obtain ⟨hq, hchain⟩ := List.isChain_cons_cons.1 hchain
    exact (ih hchain (by rw [← hlast, List.getLast_cons_cons])).tail hq

theorem search_length (hsmall : Small key succ maxNodes root) :
    (search key succ maxNodes maxDepth root).entered.length < maxNodes := by
  have h := search_extends key succ maxNodes maxDepth root
  have := hsmall ((search key succ maxNodes maxDepth root).entered.map Prod.fst) ?_ ?_
  · simpa using this
  · intro p hp
    obtain ⟨y, hy, rfl⟩ := List.mem_map.1 hp
    rcases h.trail y hy with hy | ⟨way, -, hway, -⟩
    · cases hy
    · exact hway.reachable
  · rw [List.map_map]
    exact h.nodup List.nodup_nil

/-- A node that is called and not entered is called below the last level. -/
theorem search_cut (hsmall : Small key succ maxNodes root) {x : P × Nat}
    (hx : x ∈ (search key succ maxNodes maxDepth root).cut) : x.2 = maxDepth + 1 := by
  have hlen : (search key succ maxNodes maxDepth root).entered.length < maxNodes := search_length hsmall
  rcases (search_extends key succ maxNodes maxDepth root).reason x hx with hx | hr | hr
  · cases hx
  · exact hr
  · omega

theorem search_root (hsmall : Small key succ maxNodes root) :
    key root ∈ (search key succ maxNodes maxDepth root).keys key := by
  rcases (search_extends key succ maxNodes maxDepth root).called root (List.mem_singleton_self _) with h | h
  · exact h
  · cases search_cut hsmall h

/-- The node `m` was entered on the last level, so the search did not go on to its successor `c`. -/
def Truncated (key : P → K) (s : State P) (maxDepth : Nat) (m c : P) : Prop :=
  (∃ x ∈ s.entered, key x.1 = key m ∧ x.2 = maxDepth) ∧ (c, maxDepth + 1) ∈ s.cut ∧ key c ∉ s.keys key

theorem search_succ (hsucc : ∀ p q, key p = key q → succ p = succ q) (hsmall : Small key succ maxNodes root)
    {m c : P} (hm : key m ∈ (search key succ maxNodes maxDepth root).keys key) (hc : c ∈ succ m) :
    key c ∈ (search key succ maxNodes maxDepth root).keys key ∨
      Truncated key (search key succ maxNodes maxDepth root) maxDepth m c := by
  obtain ⟨x, hx, hkey⟩ := List.mem_map.1 hm
  rcases (search_extends key succ maxNodes maxDepth root).closed x hx with hx' | hclosed
  · cases hx'
  · rw [← hsucc _ _ hkey] at hc
    by_cases hk : key c ∈ (search key succ maxNodes maxDepth root).keys key
    · exact .inl hk
    · have hcut := (hclosed c hc).resolve_left hk
      have hdepth : x.2 = maxDepth := Nat.succ.inj (search_cut hsmall hcut)
      rw [hdepth] at hcut
      exact .inr ⟨⟨x, hx, hkey, hdepth⟩, hcut, hk⟩

variable (maxDepth) in
/-- Along every chain from an entered node all nodes are entered, or the chain is truncated at a node of the
last level. -/
theorem search_chain (hsucc : ∀ p q, key p = key q → succ p = succ q) (hsmall : Small key succ maxNodes root) :
    ∀ (ms : List P) (p : P), key p ∈ (search key succ maxNodes maxDepth root).keys key →
      (p :: ms).IsChain (fun a b => b ∈ succ a) →
      (∀ m ∈ p :: ms, key m ∈ (search key succ maxNodes maxDepth root).keys key) ∨
        ∃ m ∈ p :: ms, ∃ c ∈ ms, c ∈ succ m ∧ Truncated key (search key succ maxNodes maxDepth root) maxDepth m c
  | [], p, hp, _ => .inl fun m hm => by rw [List.mem_singleton.1 hm]; exact hp
  | c :: ms, p, hp, hchain => by
    obtain ⟨hc, hchain⟩ := List.isChain_cons_cons.1 hchain
    rcases search_succ hsucc hsmall hp hc with hk | ht
    · rcases search_chain hsucc hsmall ms c hk hchain with hall | ⟨m, hm, c', hc', hmc, ht⟩
      · refine .inl fun m hm => ?_
        rcases List.mem_cons.1 hm with rfl | hm
        · exact hp
        · exact hall m hm
      · exact .inr ⟨m, List.mem_cons_of_mem _ hm, c', List.mem_cons_of_mem _ hc', hmc, ht⟩
    · exact .inr ⟨p, List.mem_cons_self .., c, List.mem_cons_self .., hc, ht⟩

/-- A truncated chain ends a way of distinct nodes that is longer than `maxDepth`. -/
theorem Truncated.trail {m c : P} (hsucc : ∀ p q, key p = key q → succ p = succ q) (hc : c ∈ succ m)
    (h : Truncated key (search key succ maxNodes maxDepth root) maxDepth m c) :
    ∃ way, way.length = maxDepth + 1 ∧ Trail key succ root way c := by
  obtain ⟨⟨x, hx, hkey, hdepth⟩, -, hnew⟩ := h
  rcases (search_extends key succ maxNodes maxDepth root).trail x hx with hx' | ⟨way, hlen, htrail, hcov⟩
  · cases hx'
  · rw [← hsucc _ _ hkey] at hc
    refine ⟨x.1 :: way, by rw [List.length_cons, hlen, hdepth], ?_⟩
    refine ⟨List.isChain_cons_cons.2 ⟨hc, htrail.chain⟩, ?_, ?_⟩
    · refine List.nodup_cons.2 ⟨fun hmem => ?_, htrail.nodup⟩
      obtain ⟨q, hq, hq'⟩ := List.mem_map.1 hmem
      rcases List.mem_cons.1 hq with rfl | hq
      · exact hnew (hq' ▸ List.mem_map_of_mem (f := fun y : P × Nat => key y.1) hx)
      · exact hnew (hq' ▸ hcov q hq)
    · rw [List.getLast_cons_cons]
      exact htrail.last

/-- When no way of distinct nodes is longer than `maxDepth`, every reachable node is entered. -/
theorem search_complete (hsucc : ∀ p q, key p = key q → succ p = succ q) (hsmall : Small key succ maxNodes root)
    (hshort : ∀ way p, Trail key succ root way p → way.length ≤ maxDepth) {p : P}
    (hp : Relation.ReflTransGen (fun a b => b ∈ succ a) root p) :
    key p ∈ (search key succ maxNodes maxDepth root).keys key := by
  induction hp with
  | refl => exact search_root hsmall
  | tail _ hc ih =>
    rcases search_succ hsucc hsmall ih hc with hk | ht
    · exact hk
    · obtain ⟨way, hlen, htrail⟩ := ht.trail hsucc hc
      have := hshort way _ htrail
      omega

/-! ## Finite graphs -/

section Finite

variable (ps : List P) (hroot : root ∈ ps) (hclosed : ∀ p ∈ ps, ∀ c ∈ succ p, c ∈ ps)
include hroot hclosed

omit [DecidableEq K] in
theorem reachable_mem {p : P} (h : Relation.ReflTransGen (fun a b => b ∈ succ a) root p) : p ∈ ps := by
  induction h with
  | refl => exact hroot
  | tail _ hc ih => exact hclosed _ ih _ hc

omit [DecidableEq K] in
theorem small_of_closed (hlen : ps.length < maxNodes) : Small key succ maxNodes root := by
  intro qs hqs hnodup
  have hsub : qs ⊆ ps := fun q hq => reachable_mem ps hroot hclosed (hqs q hq)
  have := (List.subperm_of_subset (List.Nodup.of_map key hnodup) hsub).length_le
  omega

omit [DecidableEq K] in
theorem Trail.length_lt {way : List P} {p : P} (h : Trail key succ root way p) : way.length < ps.length := by
  have hmem : ∀ (way : List P) (p : P), Trail key succ root way p → p :: way ⊆ ps := by
    intro way
    induction way with
    | nil =>
      intro p h q hq
      rw [List.mem_singleton.1 hq]
      exact reachable_mem ps hroot hclosed h.reachable
    | cons r way ih =>
      intro p h q hq
      rcases List.mem_cons.1 hq with rfl | hq
      · exact reachable_mem ps hroot hclosed h.reachable
      · refine ih r ⟨(List.isChain_cons_cons.1 h.chain).2, (List.nodup_cons.1 h.nodup).2, ?_⟩ hq
        have hlast := h.last
        rwa [List.getLast_cons_cons] at hlast
  have := (List.subperm_of_subset (List.Nodup.of_map key h.nodup) (hmem way p h)).length_le
  rw [List.length_cons] at this
  omega

/-- The search looks at the successors of the nodes of `ps` only. -/
theorem search_congr {succ' : P → List P} (hsame : ∀ p ∈ ps, succ p = succ' p) :
    search key succ maxNodes maxDepth root = search key succ' maxNodes maxDepth root := by
  have hdfs : ∀ (left : Nat) (p : P), p ∈ ps → ∀ (depth : Nat) (s : State P),
      dfs key succ maxNodes left p depth s = dfs key succ' maxNodes left p depth s := by
    intro left
    induction left with
    | zero => intro p _ depth s; rfl
    | succ left ih =>
      intro p hp depth s
      rw [dfs, dfs, ← hsame p hp]
      split
      · rfl
      · split
        · rfl
        · exact List.foldl_ext _ _ _ fun t c hc => ih c (hclosed p hp c hc) (depth + 1) t
  exact hdfs (maxDepth + 1) root hroot 0 .empty

end Finite

end Base.Search
