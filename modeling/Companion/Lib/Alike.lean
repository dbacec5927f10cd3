import Companion.Lib.Table
import Mathlib.Data.List.MinMax

/-!
# Rows that look alike

Two runs of one program leave rows that differ in what was generated for them and
agree in all that was meant.  A view forgets the difference; rows with equal views are
selected alike and changed alike.

The second half is about tables that are filled by key: entries that have been put once
may be put again.

## Main definitions

* `Alike v` — two lists of rows with the same views, position by position.
* `put`, `puts` — write the value of a key, and several of them.
* `puts_puts` — what has been put is put again without effect.
-/

set_option autoImplicit false

namespace Companion.Lib

/-! ## Views -/

section Views
variable {α β : Type} {v : α → β} {l l' l'' k k' : List α}

/-- The rows have the same views, position by position. -/
def Alike (v : α → β) (l l' : List α) : Prop := l.map v = l'.map v

theorem Alike.refl (v : α → β) (l : List α) : Alike v l l := rfl

theorem Alike.symm (h : Alike v l l') : Alike v l' l := Eq.symm h

theorem Alike.trans (h : Alike v l l') (h' : Alike v l' l'') : Alike v l l'' := Eq.trans h h'

theorem Alike.length_eq (h : Alike v l l') : l.length = l'.length := by
  simpa using congrArg List.length h

theorem Alike.append (h : Alike v l l') (hk : Alike v k k') : Alike v (l ++ k) (l' ++ k') := by
  simp only [Alike, List.map_append] at *
  rw [h, hk]

theorem Alike.exists_mem (h : Alike v l l') {a : α} (ha : a ∈ l) : ∃ a' ∈ l', v a' = v a := by
  have hmem : v a ∈ l'.map v := h ▸ List.mem_map_of_mem ha
  simpa using hmem

/-- Changes of rows that look alike, seen through another view. -/
theorem Alike.carry {γ δ : Type} {w : γ → δ} {f g : α → γ} (h : Alike v l l')
    (hfg : ∀ a ∈ l, ∀ a' ∈ l', v a = v a' → w (f a) = w (g a')) :
    Alike w (l.map f) (l'.map g) := by
  induction l generalizing l' with
  | nil =>
    have hnil : l' = [] := by simpa [Alike, eq_comm] using h
    simp [hnil, Alike]
  | cons a l ih =>
    cases l' with
    | nil => simp [Alike] at h
    | cons a' l' =>
      obtain ⟨ha, hl⟩ : v a = v a' ∧ Alike v l l' := by simpa [Alike] using h
      have hrest := ih hl fun b hb b' hb' =>
        hfg b (List.mem_cons_of_mem _ hb) b' (List.mem_cons_of_mem _ hb')
      have hhead := hfg a (List.mem_cons_self ..) a' (List.mem_cons_self ..) ha
      simp only [Alike, List.map_cons] at *
      rw [hhead, hrest]

/-- A view that shows less. -/
theorem Alike.mono {γ : Type} {w : α → γ} (h : Alike v l l')
    (hvw : ∀ a a', v a = v a' → w a = w a') : Alike w l l' := by
  have hsame : Alike w (l.map id) (l'.map id) := h.carry fun a _ a' _ hv => hvw a a' hv
  simpa using hsame

/-- The rows with a key, when the key of a row can be seen. -/
theorem Alike.replace {κ : Type} [DecidableEq κ] {key : α → κ} {x x' : κ} {f g : α → α}
    (h : Alike v l l') (hkey : ∀ a ∈ l, ∀ a' ∈ l', v a = v a' → (key a = x ↔ key a' = x'))
    (hfg : ∀ a a', v a = v a' → v (f a) = v (g a')) :
    Alike v (Table.replace key x f l) (Table.replace key x' g l') := by
  refine h.carry fun a ha a' ha' hv => ?_
  by_cases hx : key a = x
  · rw [if_pos hx, if_pos ((hkey a ha a' ha' hv).mp hx)]
    exact hfg a a' hv
  · rw [if_neg hx, if_neg fun hx' => hx ((hkey a ha a' ha' hv).mpr hx')]
    exact hv

/-- What is selected by its view. -/
theorem Alike.filter (h : Alike v l l') (p : β → Bool) :
    Alike v (l.filter fun a => p (v a)) (l'.filter fun a => p (v a)) := by
  have hview : ∀ l : List α, (l.filter fun a => p (v a)).map v = (l.map v).filter p :=
    fun l => List.filter_map.symm
  rw [Alike, hview, hview, h]

/-- The best of the images is the image of the best. -/
theorem argmin_map (f : β → ℕ) (v : α → β) (l : List α) :
    (l.map v).argmin f = (l.argmin fun a => f (v a)).map v := by
  induction l using List.reverseRecOn with
  | nil => simp
  | append_singleton l a ih =>
    rw [List.map_append, List.map_singleton, List.argmin_concat, List.argmin_concat, ih]
    cases List.argmin (fun a => f (v a)) l with
    | none => rfl
    | some c => by_cases hlt : f (v a) < f (v c) <;> simp [hlt]

theorem Alike.argmin (h : Alike v l l') (f : β → ℕ) :
    (l.argmin fun a => f (v a)).map v = (l'.argmin fun a => f (v a)).map v := by
  rw [← argmin_map, ← argmin_map, h]

end Views

/-! ## Values by key -/

section Put
variable {κ ν : Type} [DecidableEq κ]

/-- Write the value of a key, at its place or at the end. -/
def put (b : List (κ × ν)) (e : κ × ν) : List (κ × ν) :=
  if ∃ x ∈ b, x.1 = e.1 then Table.replace Prod.fst e.1 (fun _ => e) b else b ++ [e]

/-- Write several values, one after another. -/
def puts (es b : List (κ × ν)) : List (κ × ν) := es.foldl put b

/-- The last value written for a key. -/
def latest (es : List (κ × ν)) (key : κ) : Option ν :=
  (es.reverse.find? fun e => e.1 = key).map Prod.snd

variable {b : List (κ × ν)} {es : List (κ × ν)} {e x : κ × ν} {key : κ}

@[simp] theorem puts_concat : puts (es ++ [e]) b = put (puts es b) e := by simp [puts]

theorem latest_concat : latest (es ++ [e]) key = if e.1 = key then some e.2 else latest es key := by
  by_cases hk : e.1 = key <;> simp [latest, hk]

theorem mem_put (hx : x ∈ put b e) : x = e ∨ (x ∈ b ∧ x.1 ≠ e.1) := by
  by_cases hex : ∃ y ∈ b, y.1 = e.1
  · rw [put, if_pos hex] at hx
    rcases Table.mem_replace.mp hx with ⟨-, -, -, hxe⟩ | hold
    · exact Or.inl hxe
    · exact Or.inr hold
  · rw [put, if_neg hex] at hx
    rcases List.mem_append.mp hx with hold | hnew
    · exact Or.inr ⟨hold, fun hk => hex ⟨x, hold, hk⟩⟩
    · exact Or.inl (List.mem_singleton.mp hnew)

/-- The keys that are there after a write. -/
theorem exists_key_put : (∃ y ∈ put b e, y.1 = key) ↔ key = e.1 ∨ ∃ y ∈ b, y.1 = key := by
  by_cases hex : ∃ y ∈ b, y.1 = e.1
  · simp only [put, if_pos hex, Table.mem_replace]
    constructor
    · rintro ⟨y, ⟨-, -, -, rfl⟩ | ⟨hy, -⟩, hk⟩
      · exact Or.inl hk.symm
      · exact Or.inr ⟨y, hy, hk⟩
    · rintro (rfl | ⟨y, hy, hk⟩)
      · obtain ⟨y, hy, hk⟩ := hex
        exact ⟨e, Or.inl ⟨y, hy, hk, rfl⟩, rfl⟩
      · by_cases hke : y.1 = e.1
        · exact ⟨e, Or.inl ⟨y, hy, hke, rfl⟩, hke.symm.trans hk⟩
        · exact ⟨y, Or.inr ⟨hy, hke⟩, hk⟩
  · simp only [put, if_neg hex, List.mem_append, List.mem_singleton]
    constructor
    · rintro ⟨y, hy | rfl, hk⟩
      · exact Or.inr ⟨y, hy, hk⟩
      · exact Or.inl hk.symm
    · rintro (rfl | ⟨y, hy, hk⟩)
      · exact ⟨e, Or.inr rfl, rfl⟩
      · exact ⟨y, Or.inl hy, hk⟩

/-- What has been put for a key is there. -/
theorem exists_key_puts (he : e ∈ es) : ∃ y ∈ puts es b, y.1 = e.1 := by
  induction es using List.reverseRecOn with
  | nil => simp at he
  | append_singleton es e' ih =>
    rw [puts_concat, exists_key_put]
    rcases List.mem_append.mp he with hold | hnew
    · exact Or.inr (ih hold)
    · rw [List.mem_singleton.mp hnew]
      exact Or.inl rfl

/-- And it is the last that was put for the key. -/
theorem latest_of_mem_puts (hx : x ∈ puts es b) : (latest es x.1).getD x.2 = x.2 := by
  induction es using List.reverseRecOn with
  | nil => rfl
  | append_singleton es e ih =>
    rw [puts_concat] at hx
    rw [latest_concat]
    rcases mem_put hx with rfl | ⟨hold, hne⟩
    · simp
    · rw [if_neg fun hk => hne hk.symm]
      exact ih hold

/-- Where all keys are there, the values are written in place. -/
theorem puts_of_keys (hkeys : ∀ e ∈ es, ∃ y ∈ b, y.1 = e.1) :
    puts es b = b.map fun x => (x.1, (latest es x.1).getD x.2) := by
  induction es using List.reverseRecOn with
  | nil => simp [puts, latest]
  | append_singleton es e ih =>
    have hes := ih fun e he => hkeys e (List.mem_append_left _ he)
    obtain ⟨y, hy, hk⟩ := hkeys e (List.mem_append_right _ (List.mem_singleton_self e))
    have hex : ∃ y ∈ puts es b, y.1 = e.1 := by
      rw [hes]
      exact ⟨_, List.mem_map_of_mem hy, hk⟩
    rw [puts_concat, put, if_pos hex, hes, Table.replace, List.map_map]
    refine List.map_congr_left fun x _ => ?_
    by_cases hx : x.1 = e.1
    · simp [latest_concat, hx]
    · simp [latest_concat, hx, Ne.symm hx]

/-- What has been put is put again without effect. -/
theorem puts_puts (es b : List (κ × ν)) : puts es (puts es b) = puts es b := by
  rw [puts_of_keys fun e he => exists_key_puts he]
  refine (List.map_congr_left fun x hx => ?_).trans (List.map_id _)
  rw [latest_of_mem_puts hx]
  rfl

end Put
end Companion.Lib
