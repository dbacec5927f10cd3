import Mathlib.Data.List.AList
import Mathlib.Data.List.Perm.Basic

/-!
# Maps that move their last entry

A map whose entries are kept in a vector, one for each key.  To remove an entry the last one
is moved into its place, so the others do not keep their order; a new entry goes to the end,
and one that replaces another takes its place.

The order is part of the map, but no lookup depends on it: up to it, the operations are those
of `AList`.

## Main definitions

* `swapRemove` — the vector without one of its elements.
* `SwapMap` — the map.
* `SwapMap.remove`, `SwapMap.put`, `SwapMap.extend` — the writes.
-/

set_option autoImplicit false

namespace Companion.Lib
open List

section SwapRemove
variable {α : Type}

/-- The last element takes the place of the one that is removed. -/
def swapRemove (l : List α) (i : ℕ) : List α :=
  if h : i < l.length then
    (l.set i (l.getLast (ne_nil_of_length_pos (Nat.zero_lt_of_lt h)))).dropLast
  else l

theorem getLast_set_getLast {l : List α} (hl : l ≠ []) (i : ℕ)
    (hset : l.set i (l.getLast hl) ≠ []) :
    (l.set i (l.getLast hl)).getLast hset = l.getLast hl := by
  rw [getLast_eq_getElem hset, getElem_set]
  by_cases h : i = (l.set i (l.getLast hl)).length - 1
  · rw [if_pos h]
  · simp [getLast_eq_getElem hl]

/-- Up to the order nothing else is removed. -/
theorem swapRemove_perm (l : List α) (i : ℕ) : swapRemove l i ~ l.eraseIdx i := by
  by_cases h : i < l.length
  · have hl : l ≠ [] := ne_nil_of_length_pos (Nat.zero_lt_of_lt h)
    have hset : l.set i (l.getLast hl) ≠ [] := by simpa using hl
    -- what is cut off is what has been put in
    have hcut : (l.set i (l.getLast hl)).dropLast ++ [l.getLast hl] = l.set i (l.getLast hl) := by
      simpa only [getLast_set_getLast] using dropLast_append_getLast hset
    have hperm : l.getLast hl :: (l.set i (l.getLast hl)).dropLast ~
        l.getLast hl :: l.eraseIdx i := by
      apply (perm_append_singleton _ _).symm.trans
      rw [hcut]
      exact set_perm_cons_eraseIdx h _
    simp only [swapRemove, h, dif_pos]
    exact hperm.cons_inv
  · simp only [swapRemove, h, dif_neg, not_false_eq_true]
    rw [eraseIdx_of_length_le (Nat.le_of_not_lt h)]

end SwapRemove

/-- Entries in the order of their places, no two with one key. -/
abbrev SwapMap (κ ν : Type) : Type := AList fun _ : κ => ν

namespace SwapMap
variable {κ ν : Type} [DecidableEq κ] {k : κ}

/-! ## Removing an entry -/

theorem eraseIdx_findIdx (k : κ) (l : List (Sigma fun _ : κ => ν)) :
    l.eraseIdx (l.findIdx fun e => k = e.1) = l.kerase k := by
  induction l with
  | nil => rfl
  | cons e l ih =>
    by_cases h : k = e.1
    · simp [h, findIdx_cons]
    · simp [h, findIdx_cons, ih]

/-- The entries that are left. -/
def dropped (m : SwapMap κ ν) (k : κ) : List (Sigma fun _ : κ => ν) :=
  swapRemove m.entries (m.entries.findIdx fun e => k = e.1)

theorem dropped_perm (m : SwapMap κ ν) (k : κ) : m.dropped k ~ (m.erase k).entries := by
  have hperm := swapRemove_perm m.entries (m.entries.findIdx fun e => k = e.1)
  rwa [eraseIdx_findIdx] at hperm

/-- Remove the entry of a key, if there is one. -/
def remove (m : SwapMap κ ν) (k : κ) : SwapMap κ ν :=
  ⟨m.dropped k, (perm_nodupKeys (m.dropped_perm k)).mpr (m.erase k).nodupKeys⟩

@[simp] theorem lookup_remove (m : SwapMap κ ν) (k k' : κ) :
    (m.remove k).lookup k' = if k' = k then none else m.lookup k' := by
  have hperm : (m.remove k).lookup k' = (m.erase k).lookup k' :=
    AList.perm_lookup (m.dropped_perm k)
  rw [hperm]
  by_cases h : k' = k
  · subst h
    simp
  · simp [h]

/-- Nothing is left of the keys that are removed, and all of the others. -/
theorem lookup_foldl_remove (ks : List κ) (m : SwapMap κ ν) (k : κ) :
    (ks.foldl remove m).lookup k = if k ∈ ks then none else m.lookup k := by
  induction ks generalizing m with
  | nil => simp
  | cons k' ks ih =>
    rw [foldl_cons, ih, lookup_remove]
    by_cases h : k ∈ ks
    · simp [h]
    · by_cases heq : k = k'
      · simp [heq]
      · simp [h, heq]

/-! ## Writing an entry -/

theorem dlookup_kreplace {l : List (Sigma fun _ : κ => ν)} (h : k ∈ l.keys) (v : ν) (k' : κ) :
    (l.kreplace k v).dlookup k' = if k' = k then some v else l.dlookup k' := by
  induction l with
  | nil => simp at h
  | cons e l ih =>
    by_cases he : k = e.1
    · have hcons : (e :: l).kreplace k v = ⟨k, v⟩ :: l := lookmap_cons_some _ _ (if_pos he)
      rw [hcons]
      by_cases hk : k' = k
      · subst hk
        simp
      · rw [if_neg hk, dlookup_cons_ne _ _ hk, dlookup_cons_ne _ _ (he ▸ hk)]
    · have hl : k ∈ l.keys := by simpa [he] using h
      have hcons : (e :: l).kreplace k v = e :: l.kreplace k v := lookmap_cons_none _ _ (if_neg he)
      rw [hcons]
      by_cases hk : k' = e.1
      · subst hk
        rw [if_neg (Ne.symm he), dlookup_cons_eq, dlookup_cons_eq]
      · rw [dlookup_cons_ne _ _ hk, dlookup_cons_ne _ _ hk, ih hl]

/-- A new entry may as well come first. -/
theorem concat_perm {m : SwapMap κ ν} (h : k ∉ m) (v : ν) :
    m.entries ++ [Sigma.mk k v] ~ (m.insert k v).entries := by
  rw [AList.entries_insert_of_notMem h]
  exact perm_append_singleton _ _

theorem nodupKeys_concat {m : SwapMap κ ν} (h : k ∉ m) (v : ν) :
    (m.entries ++ [Sigma.mk k v]).NodupKeys :=
  (perm_nodupKeys (concat_perm h v)).mpr (m.insert k v).nodupKeys

/-- The value takes the place of the one there was, or comes last. -/
def put (m : SwapMap κ ν) (k : κ) (v : ν) : SwapMap κ ν :=
  if h : k ∈ m then m.replace k v else ⟨m.entries ++ [⟨k, v⟩], nodupKeys_concat h v⟩

@[simp] theorem lookup_put (m : SwapMap κ ν) (k : κ) (v : ν) (k' : κ) :
    (m.put k v).lookup k' = if k' = k then some v else m.lookup k' := by
  by_cases h : k ∈ m
  · rw [put, dif_pos h]
    exact dlookup_kreplace h v k'
  · have hlookup : AList.lookup k' ⟨m.entries ++ [⟨k, v⟩], nodupKeys_concat h v⟩ =
        (m.insert k v).lookup k' := AList.perm_lookup (concat_perm h v)
    rw [put, dif_neg h, hlookup]
    by_cases hk : k' = k
    · subst hk
      simp
    · simp [hk]

theorem lookup_foldl_put {l : List (Sigma fun _ : κ => ν)} (hl : l.NodupKeys)
    (m : SwapMap κ ν) (k : κ) :
    (l.foldl (fun m e => m.put e.1 e.2) m).lookup k = (l.dlookup k).or (m.lookup k) := by
  induction l generalizing m with
  | nil => simp
  | cons e l ih =>
    obtain ⟨hnot, hl'⟩ := nodupKeys_cons.mp hl
    rw [foldl_cons, ih hl', lookup_put]
    by_cases h : k = e.1
    · -- it is not written again
      subst h
      have hnone : l.dlookup e.1 = none := dlookup_eq_none.mpr hnot
      rw [hnone, if_pos rfl, dlookup_cons_eq]
      rfl
    · rw [dlookup_cons_ne _ _ h, if_neg h]

/-- Write every entry of another map. -/
def extend (m m' : SwapMap κ ν) : SwapMap κ ν := m'.entries.foldl (fun m e => m.put e.1 e.2) m

/-- The other map comes first. -/
theorem lookup_extend (m m' : SwapMap κ ν) (k : κ) :
    (m.extend m').lookup k = (m'.lookup k).or (m.lookup k) :=
  lookup_foldl_put m'.nodupKeys m k

end SwapMap

end Companion.Lib
