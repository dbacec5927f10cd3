import Mathlib.Data.List.DropRight

/-!
# Trimming and splitting

Taking characters off the ends of a text, and splitting it at the first of some
characters.  Both are stated by what the text was put together from: a text is padding,
what is left when it is trimmed, and padding again.

## Main definitions

* `trimBy`, `Trimmed` — the text without its ends, and a text that has none to lose.
* `splitOnce` — what is before and after the first character with `p`.
* `trimBy_pad`, `trimBy_spec`, `splitOnce_eq_some` — what they do.
-/

set_option autoImplicit false

namespace Companion.Lib

variable {α : Type} (p : α → Bool)

/-- The text without the characters with `p` at its ends. -/
def trimBy (cs : List α) : List α := (cs.dropWhile p).rdropWhile p

/-- Neither end of the text has `p`. -/
structure Trimmed (t : List α) : Prop where
  head : ∀ c, t.head? = some c → p c = false
  last : ∀ c, t.getLast? = some c → p c = false

/-- `str::split_once`. -/
def splitOnce : List α → Option (List α × List α)
  | [] => none
  | c :: cs => if p c then some ([], cs) else (splitOnce cs).map fun (a, b) => (c :: a, b)

variable {p} {cs pre post t : List α}

theorem dropWhile_pad (hpre : ∀ c ∈ pre, p c = true) (ht : ∀ c, t.head? = some c → p c = false) :
    (pre ++ t).dropWhile p = t := by
  rw [List.dropWhile_append_of_pos hpre]
  cases t with
  | nil => rfl
  | cons c t => simp [ht c rfl]

theorem rdropWhile_pad (hpost : ∀ c ∈ post, p c = true)
    (ht : ∀ c, t.getLast? = some c → p c = false) : (t ++ post).rdropWhile p = t := by
  have hdrop : (post.reverse ++ t.reverse).dropWhile p = t.reverse :=
    dropWhile_pad (by simpa using hpost) (by simpa using ht)
  rw [List.rdropWhile, List.reverse_append, hdrop, List.reverse_reverse]

/-- Trimming takes off the padding. -/
theorem trimBy_pad (hpre : ∀ c ∈ pre, p c = true) (hpost : ∀ c ∈ post, p c = true)
    (ht : Trimmed p t) (hne : t ≠ []) : trimBy p (pre ++ (t ++ post)) = t := by
  have hhead : ∀ c, (t ++ post).head? = some c → p c = false := by
    intro c hc
    rw [List.head?_append_of_ne_nil t hne] at hc
    exact ht.head c hc
  rw [trimBy, dropWhile_pad hpre hhead, rdropWhile_pad hpost ht.last]

/-- A trimmed text is what it was but for the padding. -/
theorem trimBy_spec (cs : List α) : Trimmed p (trimBy p cs) ∧
    ∃ pre post, cs = pre ++ (trimBy p cs ++ post) ∧ (∀ c ∈ pre, p c = true) ∧
      ∀ c ∈ post, p c = true := by
  have hfirst : ∀ c, (cs.dropWhile p).head? = some c → p c = false := by
    intro c hc
    have hhead := List.head?_dropWhile_not p cs
    rw [hc] at hhead
    exact hhead
  have hprefix := List.rdropWhile_prefix p (cs.dropWhile p)
  refine ⟨⟨fun c hc => ?_, fun c hc => ?_⟩, ?_⟩
  · -- what is left starts where the text without its front starts
    obtain ⟨post, hpost⟩ := hprefix
    apply hfirst
    rw [← hpost, List.head?_append, ← trimBy, hc]
    rfl
  · have hne : (cs.dropWhile p).rdropWhile p ≠ [] := by
      intro h
      rw [trimBy, h] at hc
      cases hc
    have hlast := List.rdropWhile_last_not p (cs.dropWhile p) hne
    rw [trimBy, List.getLast?_eq_some_getLast hne, Option.some.injEq] at hc
    rw [← hc]
    simpa using hlast
  · refine ⟨cs.takeWhile p, (cs.dropWhile p).rtakeWhile p, ?_, ?_, ?_⟩
    · rw [trimBy, List.rdropWhile_append_rtakeWhile, List.takeWhile_append_dropWhile]
    · intro c hc
      exact List.mem_takeWhile_imp hc
    · intro c hc
      exact List.mem_rtakeWhile_imp hc

theorem splitOnce_append {a b : List α} {c : α} (ha : ∀ x ∈ a, p x = false) (hc : p c = true) :
    splitOnce p (a ++ c :: b) = some (a, b) := by
  induction a with
  | nil => simp [splitOnce, hc]
  | cons x a ih =>
    have hx : p x = false := ha x (by simp)
    have ih := ih fun y hy => ha y (by simp [hy])
    simp [splitOnce, hx, ih]

/-- Splitting finds the first character with `p`. -/
theorem splitOnce_eq_some {a b : List α} : splitOnce p cs = some (a, b) ↔
    (∀ x ∈ a, p x = false) ∧ ∃ c, p c = true ∧ cs = a ++ c :: b := by
  constructor
  · intro h
    induction cs generalizing a with
    | nil => simp [splitOnce] at h
    | cons c cs ih =>
      by_cases hc : p c = true
      · simp only [splitOnce, hc, if_true, Option.some.injEq, Prod.mk.injEq] at h
        obtain ⟨rfl, rfl⟩ := h
        exact ⟨by simp, c, hc, rfl⟩
      · simp only [splitOnce, hc, Option.map_eq_some_iff, if_neg, Bool.false_eq_true,
          not_false_eq_true] at h
        obtain ⟨⟨a', b'⟩, hsplit, he⟩ := h
        simp only [Prod.mk.injEq] at he
        obtain ⟨rfl, rfl⟩ := he
        obtain ⟨ha, d, hd, rfl⟩ := ih hsplit
        refine ⟨?_, d, hd, rfl⟩
        intro x hx
        cases List.mem_cons.mp hx with
        | inl hxc => simpa [hxc] using hc
        | inr hmem => exact ha x hmem
  · rintro ⟨ha, c, hc, rfl⟩
    exact splitOnce_append ha hc

end Companion.Lib
