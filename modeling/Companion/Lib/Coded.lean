import Companion.Lib.Table

/-!
# Tables under an encoding of their rows

A table of typed rows stands for a table of the rows that are stored.  When the encoding
of a row keeps the constraints and the keys, encoding the table commutes with every
operation on it, so a program over the stored rows can be checked statement by statement
against one over the typed rows.

## Main definitions

* `RowCode` — an encoding that keeps the constraints.
* `Table.coded` — the table of the encoded rows.
* `coded_insert?`, `coded_get?`, `coded_modify`, `coded_update?`, `coded_cas?` — it
  commutes with the operations.
-/

set_option autoImplicit false

namespace Companion.Lib

/-- A computation in two parts goes through when both parts do. -/
theorem bind_eq_ok {α β ε : Type} {x : Except ε α} {f : α → Except ε β} {b : β} :
    x >>= f = .ok b ↔ ∃ a, x = .ok a ∧ f a = .ok b := by
  cases x <;> simp [bind, Except.bind]

/-- What is stored of a list is read back as the list. -/
theorem mapM_map_ok {α β ε : Type} {enc : α → β} {dec : β → Except ε α}
    (h : ∀ a, dec (enc a) = .ok a) (l : List α) : (l.map enc).mapM dec = .ok l := by
  induction l with
  | nil => rfl
  | cons a l ih => rw [List.map_cons, List.mapM_cons, h, ih]; rfl

/-- An encoding of rows that keeps what the constraints speak of. -/
structure RowCode {α β : Type} (clash : α → α → Prop) (clash' : β → β → Prop) where
  enc : α → β
  clash_iff : ∀ a b, clash' (enc a) (enc b) ↔ clash a b

namespace Table
variable {α β : Type} {clash : α → α → Prop} {clash' : β → β → Prop} {κ : Type}
  [DecidableEq κ] (C : RowCode clash clash')

/-- The table of the encoded rows. -/
def coded (t : Table α clash) : Table β clash' where
  rows := t.rows.map C.enc
  unique := List.pairwise_map.mpr (t.unique.imp fun hab h => hab ((C.clash_iff _ _).mp h))

@[simp] theorem rows_coded (t : Table α clash) : (t.coded C).rows = t.rows.map C.enc := rfl

variable {C} {key : α → κ} {key' : β → κ} {f : α → α} {f' : β → β}

theorem coded_insert? [DecidableRel clash] [DecidableRel clash'] (t : Table α clash) (r : α) :
    (t.coded C).insert? (C.enc r) = (t.insert? r).map (coded C) := by
  cases hi : t.insert? r with
  | some t' =>
    have hok := insert?_eq_some.mp hi
    rw [Option.map_some, insert?_eq_some]
    exact ⟨by simpa [C.clash_iff] using hok.1, by simp [hok.2]⟩
  | none =>
    rw [Option.map_none, insert?_eq_none]
    simpa [C.clash_iff] using insert?_eq_none.mp hi

/-- A lookup in the encoded table finds the encoding of what the lookup finds. -/
theorem coded_find? {p : α → Bool} {p' : β → Bool} (hp : ∀ a, p' (C.enc a) = p a)
    (t : Table α clash) : (t.coded C).rows.find? p' = (t.rows.find? p).map C.enc := by
  have hcomp : p' ∘ C.enc = p := funext hp
  rw [rows_coded, List.find?_map, hcomp]

/-- A selection from the encoded table is the encoding of the selection. -/
theorem coded_filter {p : α → Bool} {p' : β → Bool} (hp : ∀ a, p' (C.enc a) = p a)
    (t : Table α clash) : (t.coded C).rows.filter p' = (t.rows.filter p).map C.enc := by
  have hcomp : p' ∘ C.enc = p := funext hp
  rw [rows_coded, List.filter_map, hcomp]

theorem coded_get? (hkey : ∀ a, key' (C.enc a) = key a) (t : Table α clash) (k : κ) :
    (t.coded C).get? key' k = (t.get? key k).map C.enc :=
  coded_find? (fun a => by rw [hkey]) t

theorem map_replace_coded (hkey : ∀ a, key' (C.enc a) = key a)
    (hf : ∀ a, f' (C.enc a) = C.enc (f a)) (k : κ) (rows : List α) :
    replace key' k f' (rows.map C.enc) = (replace key k f rows).map C.enc := by
  unfold replace
  rw [List.map_map, List.map_map]
  apply List.map_congr_left
  intro a _
  by_cases hk : key a = k <;> simp [hk, hkey, hf]

theorem coded_modify (hkey : ∀ a, key' (C.enc a) = key a)
    (hf : ∀ a, f' (C.enc a) = C.enc (f a)) (t : Table α clash) (k : κ)
    (hc : ∀ a b, (clash (f a) b → clash a b) ∧ (clash b (f a) → clash b a))
    (hc' : ∀ a b, (clash' (f' a) b → clash' a b) ∧ (clash' b (f' a) → clash' b a)) :
    (t.coded C).modify key' k f' hc' = (t.modify key k f hc).coded C :=
  ext (map_replace_coded hkey hf k t.rows)

theorem coded_update? [DecidableRel clash] [DecidableRel clash']
    (hkey : ∀ a, key' (C.enc a) = key a) (hf : ∀ a, f' (C.enc a) = C.enc (f a))
    (t : Table α clash) (k : κ) :
    (t.coded C).update? key' k f' = (t.update? key k f).map (coded C) := by
  have hrows := map_replace_coded hkey hf k t.rows
  by_cases h : (replace key k f t.rows).Pairwise fun a b => ¬ clash a b
  · have h' : (replace key' k f' (t.coded C).rows).Pairwise fun a b => ¬ clash' a b := by
      rw [rows_coded, hrows]
      exact List.pairwise_map.mpr (h.imp fun hab hc => hab ((C.clash_iff _ _).mp hc))
    rw [update?, dif_pos h', update?, dif_pos h, Option.map_some]
    exact congrArg some (ext hrows)
  · have h' : ¬ (replace key' k f' (t.coded C).rows).Pairwise fun a b => ¬ clash' a b := by
      intro hpair
      rw [rows_coded, hrows, List.pairwise_map] at hpair
      exact h (hpair.imp fun hab hc => hab ((C.clash_iff _ _).mpr hc))
    rw [update?, dif_neg h', update?, dif_neg h, Option.map_none]

theorem coded_cas? {p : α → Bool} {p' : β → Bool} (hkey : ∀ a, key' (C.enc a) = key a)
    (hp : ∀ a, p' (C.enc a) = p a) (hf : ∀ a, f' (C.enc a) = C.enc (f a)) (t : Table α clash)
    (k : κ) (hc : ∀ a b, (clash (f a) b → clash a b) ∧ (clash b (f a) → clash b a))
    (hc' : ∀ a b, (clash' (f' a) b → clash' a b) ∧ (clash' b (f' a) → clash' b a)) :
    (t.coded C).cas? key' k p' f' hc' = (t.cas? key k p f hc).map (coded C) := by
  have hfind : (t.coded C).rows.find? (fun b => decide (key' b = k)) =
      (t.rows.find? fun a => decide (key a = k)).map C.enc :=
    coded_find? (fun a => by rw [hkey]) t
  rw [cas?, cas?, hfind]
  cases t.rows.find? fun a => decide (key a = k) with
  | none => rfl
  | some a =>
    rw [Option.map_some]
    simp only [hp]
    by_cases ha : p a = true
    · rw [if_pos ha, if_pos ha, Option.map_some, coded_modify hkey hf t k hc hc']
    · rw [if_neg ha, if_neg ha, Option.map_none]

end Table
end Companion.Lib
