import Mathlib.Data.List.Nodup
import Mathlib.Data.List.Sort
import Mathlib.Data.Nat.Notation

/-!
# The newest of a list

Rows are listed from the newest to the oldest, and of rows of one age the one that came
last is listed first.  The front of such a listing is as much of it as was asked for.  What it
is says nothing of how it is computed, and there is only one.

## Main definitions

* `Newer` — the order of the listing.
* `Front` — the first rows of it.
* `front_iff` — sorting and cutting off computes the front, and nothing else is one.
-/

set_option autoImplicit false

namespace Companion.Lib

variable {α κ : Type} [LinearOrder κ] {age : α → κ} {rows p p' : List α} {limit : ℕ}

/-- `a` is listed before `b`. -/
def Newer (age : α → κ) (rows : List α) (a b : α) : Prop :=
  age b < age a ∨ (age b = age a ∧ [b, a].Sublist rows)

/-- `p` lists the newest of the rows, as many as the limit allows. -/
structure Front (age : α → κ) (rows : List α) (limit : ℕ) (p : List α) : Prop where
  subset : p ⊆ rows
  length : p.length = min limit rows.length
  newest : p.Pairwise (Newer age rows)
  rest : ∀ a ∈ p, ∀ b ∈ rows, b ∉ p → Newer age rows a b

/-! ## Sorting -/

/-- The rows, from the newest. -/
def newest (age : α → κ) (rows : List α) : List α :=
  rows.reverse.insertionSort fun a b => age b ≤ age a

/-- `a` is the newer, or as old and the earlier of the two in the list. -/
def Leads (age : α → κ) (l : List α) (a b : α) : Prop :=
  age b < age a ∨ (age b = age a ∧ [a, b].Sublist l)

theorem Leads.cons {l : List α} {x y : α} (h : Leads age l x y) (a : α) :
    Leads age (a :: l) x y :=
  h.imp id fun h => ⟨h.1, h.2.cons a⟩

/-- A row leads what is no newer and comes after it. -/
theorem leads_head {l : List α} {a x : α} (hx : x ∈ l) (hle : age x ≤ age a) :
    Leads age (a :: l) a x := by
  obtain hlt | heq := lt_or_eq_of_le hle
  · exact Or.inl hlt
  · exact Or.inr ⟨heq, List.cons_sublist_cons.mpr (List.singleton_sublist.mpr hx)⟩

/-- A row goes in before what is no newer, all of which comes after it. -/
theorem pairwise_orderedInsert_leads {l s : List α} (a : α) (hmem : ∀ b ∈ s, b ∈ l)
    (hsorted : s.Pairwise fun a b => age b ≤ age a) (hs : s.Pairwise (Leads age l)) :
    (s.orderedInsert (fun a b => age b ≤ age a) a).Pairwise (Leads age (a :: l)) := by
  induction s with
  | nil => simp
  | cons b s ih =>
    rw [List.pairwise_cons] at hs hsorted
    by_cases hab : age b ≤ age a
    · rw [List.orderedInsert_cons, if_pos hab, List.pairwise_cons, List.pairwise_cons]
      refine ⟨fun x hx => leads_head (hmem x hx) ?_, fun x hx => (hs.1 x hx).cons a,
        hs.2.imp fun h => h.cons a⟩
      obtain rfl | hx := List.mem_cons.mp hx
      · exact hab
      · exact (hsorted.1 x hx).trans hab
    · rw [List.orderedInsert_cons, if_neg hab, List.pairwise_cons]
      refine ⟨fun x hx => ?_, ih (fun x hx => hmem x (List.mem_cons_of_mem b hx)) hsorted.2 hs.2⟩
      obtain rfl | hx := (List.mem_orderedInsert _).mp hx
      · exact Or.inl (lt_of_not_ge hab)
      · exact (hs.1 x hx).cons a

/-- Sorting keeps the order of what is equally old. -/
theorem pairwise_insertionSort_leads (l : List α) :
    (l.insertionSort fun a b => age b ≤ age a).Pairwise (Leads age l) := by
  induction l with
  | nil => exact List.Pairwise.nil
  | cons a l ih =>
    rw [List.insertionSort_cons]
    exact pairwise_orderedInsert_leads a (by simp) (List.pairwise_insertionSort _ l) ih

theorem pairwise_newest (age : α → κ) (rows : List α) :
    (newest age rows).Pairwise (Newer age rows) :=
  (pairwise_insertionSort_leads rows.reverse).imp fun {a b} h =>
    h.imp id fun h => ⟨h.1, by simpa using List.reverse_sublist.mpr h.2⟩

theorem newest_perm (age : α → κ) (rows : List α) : (newest age rows).Perm rows :=
  (List.perm_insertionSort _ _).trans rows.reverse_perm

/-- The beginning of the listing is its front. -/
theorem front_newest (age : α → κ) (rows : List α) (limit : ℕ) :
    Front age rows limit ((newest age rows).take limit) where
  subset a ha := (newest_perm age rows).mem_iff.mp (List.mem_of_mem_take ha)
  length := by rw [List.length_take, (newest_perm age rows).length_eq]
  newest := (pairwise_newest age rows).sublist (List.take_sublist _ _)
  rest a ha b hb hout := by
    have hcut := pairwise_newest age rows
    rw [← List.take_append_drop limit (newest age rows), List.pairwise_append] at hcut
    have hb := (newest_perm age rows).mem_iff.mpr hb
    rw [← List.take_append_drop limit (newest age rows), List.mem_append] at hb
    exact hcut.2.2 a ha b (hb.resolve_left hout)

/-! ## There is only one front -/

/-- In a list without repetitions two elements stand in one order only. -/
theorem pair_order {l : List α} (hl : l.Nodup) {a b : α} (hab : [a, b].Sublist l)
    (hba : [b, a].Sublist l) : False := by
  induction l with
  | nil => simp at hab
  | cons x l ih =>
    obtain ⟨hx, hl⟩ := List.nodup_cons.mp hl
    cases hab with
    | cons _ hab =>
      cases hba with
      | cons _ hba => exact ih hl hab hba
      | cons_cons _ hba => exact hx (hab.subset (by simp))
    | cons_cons _ hab =>
      cases hba with
      | cons _ hba => exact hx (hba.subset (by simp))
      | cons_cons _ hba => exact hx (List.singleton_sublist.mp hab)

theorem Newer.asymm (hrows : rows.Nodup) {a b : α} (h : Newer age rows a b)
    (h' : Newer age rows b a) : False := by
  obtain hlt | ⟨heq, hab⟩ := h
  · obtain hlt' | ⟨heq', -⟩ := h'
    · exact lt_asymm hlt hlt'
    · exact ne_of_lt hlt heq'.symm
  · obtain hlt' | ⟨-, hba⟩ := h'
    · exact ne_of_lt hlt' heq.symm
    · exact pair_order hrows hab hba

theorem Front.nodup (hrows : rows.Nodup) (h : Front age rows limit p) : p.Nodup :=
  h.newest.imp fun hab heq => by
    subst heq
    exact hab.asymm hrows hab

/-- What one front lists the other does. -/
theorem Front.subset_of (hrows : rows.Nodup) (h : Front age rows limit p)
    (h' : Front age rows limit p') : p ⊆ p' := by
  intro a ha
  by_contra hout
  have hlen : p.length = p'.length := h.length.trans h'.length.symm
  -- as many rows are listed, so the other lists one that this one does not
  have hother : ∃ b ∈ p', b ∉ p := by
    by_contra hno
    have hsub : p' ⊆ p := fun b hb => by
      by_contra hbp
      exact hno ⟨b, hb, hbp⟩
    have hperm := (List.subperm_of_subset (h'.nodup hrows) hsub).perm_of_length_le hlen.le
    exact hout (hperm.mem_iff.mpr ha)
  obtain ⟨b, hb, hbp⟩ := hother
  exact (h.rest a ha b (h'.subset hb) hbp).asymm hrows (h'.rest b hb a (h.subset ha) hout)

/-- The front is what sorting the rows and cutting off computes. -/
theorem front_iff (hrows : rows.Nodup) :
    Front age rows limit p ↔ p = (newest age rows).take limit := by
  constructor
  · intro h
    have h' := front_newest age rows limit
    have hperm : p.Perm ((newest age rows).take limit) :=
      (List.perm_ext_iff_of_nodup (h.nodup hrows) (h'.nodup hrows)).mpr fun a =>
        ⟨fun ha => h.subset_of hrows h' ha, fun ha => h'.subset_of hrows h ha⟩
    exact hperm.eq_of_pairwise (fun a b _ _ hab hba => (hab.asymm hrows hba).elim) h.newest
      h'.newest
  · rintro rfl
    exact front_newest age rows limit

end Companion.Lib
