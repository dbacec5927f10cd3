import Mathlib.Data.List.Basic
import Mathlib.Data.List.Count
import Mathlib.Data.Nat.Notation

/-!
# Logs of states entered

A party whose things enter states one after the other is described by the log of
what they entered.  The log only grows, so an answer of the party belongs to the
log as it was then, and of two answers the one with the shorter log is older.

If a thing is seen in a state outside `p` and later in one inside `p`, it has entered
`p` in between (`entered_lt`).  This is what an observer has to count on.

## Main definitions

* `Log`, `Log.current` — the log, and the state a thing is in.
* `Log.entered` — how often it has entered one of some states.
-/

set_option autoImplicit false

namespace Companion.Lib

/-- What each thing entered, newest first. -/
abbrev Log (κ S : Type) := List (κ × S)

namespace Log
variable {κ S : Type} [DecidableEq κ] {p : S → Bool} {log older newer : Log κ S} {k : κ} {s : S}

/-- The state the thing entered last. -/
def current (log : Log κ S) (k : κ) : Option S :=
  (log.find? fun m => m.1 = k).map Prod.snd

/-- How often the thing has entered a state in `p`. -/
def entered (p : S → Bool) (log : Log κ S) (k : κ) : ℕ :=
  log.countP fun m => m.1 = k && p m.2

theorem entered_le (h : older <:+ newer) : older.entered p k ≤ newer.entered p k :=
  h.sublist.countP_le

/-- Out of `p` in an older log and inside `p` in a newer one: it has entered `p`. -/
theorem entered_lt (h : older <:+ newer) (hout : ∀ q, older.current k = some q → p q = false)
    (hin : newer.current k = some s) (hs : p s = true) :
    older.entered p k < newer.entered p k := by
  obtain ⟨since, rfl⟩ := h
  have hsince : 0 < entered p since k := by
    rw [current, List.find?_append] at hin
    cases hfind : since.find? fun m => m.1 = k with
    | none =>
        rw [hfind, Option.none_or] at hin
        have := hout s hin
        simp [hs] at this
    | some m =>
        rw [hfind, Option.some_or, Option.map_some, Option.some.injEq] at hin
        have hkey := List.find?_some hfind
        rw [entered, List.countP_pos_iff]
        exact ⟨m, List.mem_of_find?_eq_some hfind, by simp_all⟩
  rw [entered, entered, List.countP_append]
  rw [entered] at hsince
  omega

/-- A thing inside `p` has entered it. -/
theorem entered_pos (hin : log.current k = some s) (hs : p s = true) : 0 < log.entered p k :=
  entered_lt (List.nil_suffix (l := log)) (by simp [current]) hin hs

end Log
end Companion.Lib
