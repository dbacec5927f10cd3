import Mathlib.Data.List.Pairwise

/-!
# Tables with uniqueness constraints

A table is its rows in rowid order together with the proof that no two of them
violate a constraint.  What counts as a violation is a relation `clash`, so one
structure covers primary keys, `UNIQUE` columns and several of them at once; the
null semantics of SQL, where a null equals nothing, is `sqlEq`.

Rows are only ever appended or changed in place, never removed, so the order of
the list is the order of insertion.  A write that could violate a constraint is
an `Option`; one that provably cannot is total.

## Main definitions

* `sqlEq` — equality of nullable columns.
* `Table` — rows and the proof that they do not clash.
* `Table.insert?`, `Table.modify`, `Table.update?` — the writes.
* `Table.get?` — lookup by a key.
-/

set_option autoImplicit false

namespace Companion.Lib

/-- SQL equality of nullable columns: a null is equal to nothing. -/
def sqlEq {α : Type} [DecidableEq α] : Option α → Option α → Bool
  | some a, some b => a = b
  | _, _ => false

section SqlEq
variable {α : Type} [DecidableEq α] {x y : Option α} {a : α}

@[simp] theorem sqlEq_none_left : sqlEq (none : Option α) y = false := rfl
@[simp] theorem sqlEq_none_right : sqlEq x (none : Option α) = false := by cases x <;> rfl

theorem sqlEq_iff : sqlEq x y = true ↔ ∃ a, x = some a ∧ y = some a := by
  cases x <;> cases y <;> simp [sqlEq, eq_comm]

@[simp] theorem sqlEq_some_right : sqlEq x (some a) = true ↔ x = some a := by
  simp [sqlEq_iff]

theorem sqlEq_comm : sqlEq x y = sqlEq y x := by
  cases x <;> cases y <;> simp [sqlEq, eq_comm]

end SqlEq

/-- Rows in rowid order, no two of which clash. -/
structure Table (α : Type) (clash : α → α → Prop) where
  rows : List α
  unique : rows.Pairwise fun a b => ¬ clash a b

namespace Table
variable {α : Type} {clash : α → α → Prop} {κ : Type} [DecidableEq κ]

@[ext] theorem ext {t u : Table α clash} (h : t.rows = u.rows) : t = u := by
  cases t; cases u; congr

/-- The table a migration creates. -/
def empty : Table α clash := ⟨[], List.Pairwise.nil⟩

/-- Distinct rows do not clash in either order. -/
theorem eq_of_clash [Std.Symm clash] (t : Table α clash) {a b : α}
    (ha : a ∈ t.rows) (hb : b ∈ t.rows) (h : clash a b) : a = b := by
  have hsymm : Std.Symm fun a b => ¬ clash a b :=
    ⟨fun a b hab hba => hab (Std.Symm.symm b a hba)⟩
  by_contra hne
  exact t.unique.forall ha hb hne h

/-! ## Appending a row -/

section Insert
variable [DecidableRel clash]

/-- Append a row; `none` when it violates a constraint. -/
def insert? (t : Table α clash) (r : α) : Option (Table α clash) :=
  if h : ∀ a ∈ t.rows, ¬ clash a r then
    some ⟨t.rows ++ [r], List.pairwise_append.mpr
      ⟨t.unique, List.pairwise_singleton _ _, by simpa using h⟩⟩
  else none

theorem insert?_eq_some {t t' : Table α clash} {r : α} :
    t.insert? r = some t' ↔ (∀ a ∈ t.rows, ¬ clash a r) ∧ t'.rows = t.rows ++ [r] := by
  unfold insert?
  split
  · next h =>
    rw [Option.some.injEq]
    constructor
    · rintro rfl
      exact ⟨h, rfl⟩
    · intro ht
      exact ext ht.2.symm
  · next h => simp [h]

theorem insert?_eq_none {t : Table α clash} {r : α} :
    t.insert? r = none ↔ ∃ a ∈ t.rows, clash a r := by
  unfold insert?
  split
  · next h => simpa using h
  · next h => simpa using h

end Insert

/-! ## Changing the row with a given key -/

/-- Apply `f` to the rows whose key is `k`. -/
def replace (key : α → κ) (k : κ) (f : α → α) (rows : List α) : List α :=
  rows.map fun a => if key a = k then f a else a

@[simp] theorem length_replace (key : α → κ) (k : κ) (f : α → α) (rows : List α) :
    (replace key k f rows).length = rows.length := by
  simp [replace]

theorem mem_replace {key : α → κ} {k : κ} {f : α → α} {rows : List α} {b : α} :
    b ∈ replace key k f rows ↔
      (∃ a ∈ rows, key a = k ∧ b = f a) ∨ (b ∈ rows ∧ key b ≠ k) := by
  unfold replace
  rw [List.mem_map]
  constructor
  · rintro ⟨a, ha, h⟩
    by_cases hk : key a = k
    · exact Or.inl ⟨a, ha, hk, by simpa [hk] using h.symm⟩
    · rw [if_neg hk] at h
      exact Or.inr (h ▸ ⟨ha, hk⟩)
  · rintro (⟨a, ha, hk, rfl⟩ | ⟨hb, hk⟩)
    · exact ⟨a, ha, by simp [hk]⟩
    · exact ⟨b, hb, by simp [hk]⟩

/-- What `f` keeps true of a row stays true of all. -/
theorem forall_replace {key : α → κ} {k : κ} {f : α → α} {P : α → Prop} {rows : List α}
    (h : ∀ a ∈ rows, P a) (hf : ∀ a, P a → P (f a)) : ∀ a ∈ replace key k f rows, P a := by
  intro b hb
  obtain ⟨a, ha, -, rfl⟩ | ⟨hb, -⟩ := mem_replace.mp hb
  · exact hf a (h a ha)
  · exact h b hb

/-- Only what `f` makes of the rows with the key matters. -/
theorem replace_congr {key : α → κ} {k : κ} {f g : α → α} {rows : List α}
    (h : ∀ a ∈ rows, key a = k → f a = g a) : replace key k f rows = replace key k g rows := by
  refine List.map_congr_left fun a ha => ?_
  by_cases hk : key a = k
  · rw [if_pos hk, if_pos hk, h a ha hk]
  · rw [if_neg hk, if_neg hk]

theorem replace_id (key : α → κ) (k : κ) (rows : List α) : replace key k id rows = rows := by
  simp [replace]

/-- A second change of the same row. -/
theorem replace_replace {key : α → κ} {k : κ} {f g : α → α} (hf : ∀ a, key (f a) = key a)
    (rows : List α) : replace key k g (replace key k f rows) = replace key k (g ∘ f) rows := by
  unfold replace
  rw [List.map_map]
  refine List.map_congr_left fun a _ => ?_
  by_cases hk : key a = k
  · have hfk : key (f a) = k := (hf a).trans hk
    simp [hk, hfk]
  · simp [hk]

/-- A column that `f` does not touch. -/
theorem map_replace {β : Type} {key : α → κ} {k : κ} {f : α → α} {g : α → β}
    (hg : ∀ a, g (f a) = g a) (rows : List α) : (replace key k f rows).map g = rows.map g := by
  rw [replace, List.map_map]
  refine List.map_congr_left fun a _ => ?_
  by_cases hk : key a = k <;> simp [hk, hg]

/-- A change that keeps the keys loses none of them. -/
theorem exists_key_replace {key : α → κ} {k : κ} {f : α → α} {rows : List α} {a : α}
    (hkey : ∀ a, key (f a) = key a) (ha : a ∈ rows) :
    ∃ b ∈ replace key k f rows, key b = key a := by
  have hmem : key a ∈ (replace key k f rows).map key := by
    rw [map_replace hkey]
    exact List.mem_map_of_mem ha
  exact List.mem_map.mp hmem

/-- A view of rows that `f` does not affect is the same after the change. -/
theorem filterMap_replace {β : Type} {key : α → κ} {k : κ} {f : α → α} {rows : List α}
    {g : α → Option β} (hg : ∀ a, g (f a) = g a) :
    (replace key k f rows).filterMap g = rows.filterMap g := by
  have hcomp : (g ∘ fun a => if key a = k then f a else a) = g := by
    funext a
    by_cases hk : key a = k <;> simp [hk, hg]
  rw [replace, List.filterMap_map, hcomp]

/-- A selection by key commutes with a change that keeps the keys. -/
theorem filter_replace_key {key : α → κ} {k : κ} {f : α → α} {p : κ → Bool}
    (hkey : ∀ a, key (f a) = key a) (rows : List α) :
    (replace key k f rows).filter (fun a => p (key a)) =
      replace key k f (rows.filter fun a => p (key a)) := by
  unfold replace
  rw [List.filter_map]
  refine congrArg _ (List.filter_congr fun a _ => ?_)
  by_cases hk : key a = k <;> simp [hk, hkey]

/-- A change of a key that no row has. -/
theorem replace_of_ne {key : α → κ} {k : κ} {f : α → α} {rows : List α}
    (hne : ∀ a ∈ rows, key a ≠ k) : replace key k f rows = rows := by
  refine (List.map_congr_left fun a ha => ?_).trans (List.map_id rows)
  simp [hne a ha]

/-- A change that takes the row out of a selection leaves the rest of the selection. -/
theorem filter_replace {key : α → κ} {k : κ} {f : α → α} {rows : List α} {p : α → Bool}
    (hp : ∀ a, p (f a) = false) :
    (replace key k f rows).filter p = (rows.filter p).filter fun a => key a ≠ k := by
  induction rows with
  | nil => rfl
  | cons a rows ih =>
      have ih' : (rows.map fun a => if key a = k then f a else a).filter p =
          (rows.filter p).filter fun a => key a ≠ k := ih
      rw [replace, List.map_cons, List.filter_cons, List.filter_cons, ih']
      by_cases hk : key a = k
      · cases hpa : p a <;> simp [hk, hp]
      · cases hpa : p a <;> simp [hk, hpa]

/-- Change the row with key `k` by a function that touches no constrained column. -/
def modify (t : Table α clash) (key : α → κ) (k : κ) (f : α → α)
    (hf : ∀ a b, (clash (f a) b → clash a b) ∧ (clash b (f a) → clash b a)) :
    Table α clash where
  rows := replace key k f t.rows
  unique := by
    refine List.pairwise_map.mpr (t.unique.imp fun {a b} hab h => hab ?_)
    split at h <;> split at h
    · exact (hf b a).2 ((hf a _).1 h)
    · exact (hf a b).1 h
    · exact (hf b a).2 h
    · exact h

@[simp] theorem rows_modify (t : Table α clash) (key : α → κ) (k : κ) (f : α → α)
    (hf : ∀ a b, (clash (f a) b → clash a b) ∧ (clash b (f a) → clash b a)) :
    (t.modify key k f hf).rows = replace key k f t.rows := rfl

/-- The guarded update `WHERE key = k AND test`; `none` when it affects no row. -/
def cas? (t : Table α clash) (key : α → κ) (k : κ) (test : α → Bool) (f : α → α)
    (hf : ∀ a b, (clash (f a) b → clash a b) ∧ (clash b (f a) → clash b a)) :
    Option (Table α clash) :=
  match t.rows.find? fun a => key a = k with
  | none => none
  | some a => if test a then some (t.modify key k f hf) else none

theorem cas?_eq_some {t t' : Table α clash} {key : α → κ} {k : κ} {test : α → Bool}
    {f : α → α} {hf : ∀ a b, (clash (f a) b → clash a b) ∧ (clash b (f a) → clash b a)}
    (h : t.cas? key k test f hf = some t') :
    ∃ a, t.rows.find? (fun a => key a = k) = some a ∧ test a = true ∧
      t'.rows = replace key k f t.rows := by
  unfold cas? at h
  split at h
  · cases h
  · next a ha =>
    split at h
    · next ht => cases h; exact ⟨a, ha, ht, rfl⟩
    · cases h

section Update
variable [DecidableRel clash]

/-- Change the row with key `k`; `none` when the result violates a constraint. -/
def update? (t : Table α clash) (key : α → κ) (k : κ) (f : α → α) : Option (Table α clash) :=
  if h : (replace key k f t.rows).Pairwise fun a b => ¬ clash a b then some ⟨_, h⟩ else none

theorem rows_update? {t t' : Table α clash} {key : α → κ} {k : κ} {f : α → α}
    (h : t.update? key k f = some t') : t'.rows = replace key k f t.rows := by
  unfold update? at h
  split at h
  · cases h; rfl
  · cases h

/-- An update whose new row clashes with no other row goes through. -/
theorem update?_isSome [Std.Symm clash] {t : Table α clash} {key : α → κ} {k : κ} {f : α → α}
    (hkey : ∀ a b, key a = key b → clash a b)
    (h : ∀ a ∈ t.rows, key a = k → ∀ b ∈ t.rows, key b ≠ k → ¬ clash (f a) b) :
    (t.update? key k f).isSome := by
  have hp : (replace key k f t.rows).Pairwise fun a b => ¬ clash a b := by
    refine List.pairwise_map.mpr (List.Pairwise.imp_of_mem ?_ t.unique)
    intro a b ha hb hab hc
    by_cases hka : key a = k <;> by_cases hkb : key b = k
    · exact hab (hkey a b (hka.trans hkb.symm))
    · simp only [hka, hkb, if_true, if_false] at hc
      exact h a ha hka b hb hkb hc
    · simp only [hka, hkb, if_true, if_false] at hc
      exact h b hb hkb a ha hka (Std.Symm.symm _ _ hc)
    · simp only [hka, hkb, if_false] at hc
      exact hab hc
  simp [update?, hp]

end Update

/-! ## Lookup by key -/

/-- The first row whose key is `k`. -/
def get? (t : Table α clash) (key : α → κ) (k : κ) : Option α :=
  t.rows.find? fun a => key a = k

theorem mem_of_get? {t : Table α clash} {key : α → κ} {k : κ} {a : α}
    (h : t.get? key k = some a) : a ∈ t.rows :=
  List.mem_of_find?_eq_some h

theorem key_of_get? {t : Table α clash} {key : α → κ} {k : κ} {a : α}
    (h : t.get? key k = some a) : key a = k := by
  simpa using List.find?_some h

theorem get?_eq_none {t : Table α clash} {key : α → κ} {k : κ} :
    t.get? key k = none ↔ ∀ a ∈ t.rows, key a ≠ k := by
  simp [get?]

/-- Under a key that is itself constrained, lookup finds exactly the row with it. -/
theorem get?_eq_some [Std.Symm clash] {t : Table α clash} (key : α → κ)
    (hkey : ∀ a b, key a = key b → clash a b) {a : α} {k : κ} :
    t.get? key k = some a ↔ a ∈ t.rows ∧ key a = k := by
  constructor
  · intro h
    exact ⟨mem_of_get? h, key_of_get? h⟩
  · rintro ⟨ha, hk⟩
    cases h : t.get? key k with
    | none => exact absurd hk (get?_eq_none.mp h a ha)
    | some b =>
        have hb := key_of_get? h
        rw [t.eq_of_clash (mem_of_get? h) ha (hkey b a (hb.trans hk.symm))]

theorem get?_append {t t' : Table α clash} {key : α → κ} {r : α}
    (h : t'.rows = t.rows ++ [r]) (k : κ) :
    t'.get? key k = (t.get? key k).or (if key r = k then some r else none) := by
  unfold get?
  rw [h, List.find?_append]
  by_cases hk : key r = k <;> simp [hk]

theorem get?_replace {t t' : Table α clash} {key : α → κ} {k₀ : κ} {f : α → α}
    (h : t'.rows = replace key k₀ f t.rows) (hf : ∀ a, key (f a) = key a) (k : κ) :
    t'.get? key k = if k = k₀ then (t.get? key k).map f else t.get? key k := by
  unfold get?
  rw [h, replace]
  induction t.rows with
  | nil => simp
  | cons a rows ih =>
      simp only [List.map_cons, List.find?_cons]
      by_cases ha : key a = k₀
      · subst ha
        by_cases hk : key a = k
        · subst hk; simp [hf]
        · simpa [hf, hk] using ih
      · by_cases hk : key a = k
        · subst hk; simp [ha]
        · simpa [ha, hk] using ih

theorem get?_replace_self {t t' : Table α clash} {key : α → κ} {k : κ} {f : α → α} {a : α}
    (h : t'.rows = replace key k f t.rows) (hf : ∀ a, key (f a) = key a)
    (ha : t.get? key k = some a) : t'.get? key k = some (f a) := by
  rw [get?_replace h hf, if_pos rfl, ha]
  rfl

end Table
end Companion.Lib
