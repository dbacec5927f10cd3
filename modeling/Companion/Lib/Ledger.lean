import Companion.Lib.Pool
import Companion.Lib.Table
import Mathlib.Data.List.Count

/-!
# Records and their announcements

A system keeps one record per key and, in a log it only appends to, announces
some of the changes of the record.  Seen from one key, the state is an `Account`:
the record, if there is one yet, and what has been announced about it.  `Rules`
says which records may be created and which change of a record announces what.

If every event of a run is a step of the rules, the log accounts for the history
of the record: `conservation` counts the announcements of a closed record against
the times it was created closed, reopened, and is closed now.

## Main definitions

* `Account`, `Rules`, `Rules.Step` — the evolution of one key.
* `bornClosed`, `reopened` — the events the balance has to count besides.
* `step_same`, `step_replace`, `step_append` — the writes to a table as steps.
* `account_inv` — the induction rule over a run.
* `conservation` — the balance.
-/

set_option autoImplicit false

namespace Companion.Lib

/-- What one key has: a record, once it exists, and the announcements made of it. -/
structure Account (R E : Type) where
  record : Option R
  events : List E

/-- How records are created and changed, and what a change announces. -/
structure Rules (R E : Type) where
  born : R → Prop
  change : R → R → List E → Prop

variable {R E : Type}

/-- One step as one key sees it. -/
inductive Rules.Step (K : Rules R E) : Account R E → Account R E → Prop
  | stay (a : Account R E) : Step K a a
  | born {r : R} {es : List E} : K.born r → Step K ⟨none, es⟩ ⟨some r, es⟩
  | change {r r' : R} {es out : List E} :
      K.change r r' out → Step K ⟨some r, es⟩ ⟨some r', es ++ out⟩

/-- A step of stricter rules is a step. -/
theorem Rules.Step.mono {K K' : Rules R E} {a a' : Account R E} (hborn : ∀ r, K.born r → K'.born r)
    (hchange : ∀ r r' out, K.change r r' out → K'.change r r' out) (h : K.Step a a') :
    K'.Step a a' := by
  cases h with
  | stay => exact .stay _
  | born hb => exact .born (hborn _ hb)
  | change hc => exact .change (hchange _ _ _ hc)

namespace Ledger

/-! ## The accounts of a keyed table -/

section Tables
variable {κ : Type} [DecidableEq κ] {clash : R → R → Prop} {key : R → κ} {t t' : Table R clash}
  {K : Rules R E} {es es' : List E} {k : κ}

/-- A step that touches neither the table nor the announcements. -/
theorem step_same (ht : t' = t) (hes : es' = es) :
    K.Step ⟨t.get? key k, es⟩ ⟨t'.get? key k, es'⟩ := by
  subst ht hes
  exact .stay _

/-- A step that changes the row with key `k₀` by `f` and announces `out` of it. -/
theorem step_replace {k₀ : κ} {f : R → R} {r : R} {out : List E}
    (hr : t.get? key k₀ = some r) (ht : t'.rows = Table.replace key k₀ f t.rows)
    (hf : ∀ a, key (f a) = key a) (hes : es' = es ++ if k = k₀ then out else [])
    (hc : K.change r (f r) out) : K.Step ⟨t.get? key k, es⟩ ⟨t'.get? key k, es'⟩ := by
  rw [Table.get?_replace ht hf k, hes]
  by_cases hk : k = k₀
  · subst hk
    rw [if_pos rfl, if_pos rfl, hr]
    exact .change hc
  · rw [if_neg hk, if_neg hk, List.append_nil]
    exact .stay _

/-- A step that creates the row `r`. -/
theorem step_append {r : R} (hnew : t.get? key (key r) = none) (ht : t'.rows = t.rows ++ [r])
    (hes : es' = es) (hb : K.born r) : K.Step ⟨t.get? key k, es⟩ ⟨t'.get? key k, es'⟩ := by
  subst hes
  rw [Table.get?_append ht k]
  by_cases hk : key r = k
  · subst hk
    rw [hnew, if_pos rfl]
    exact .born hb
  · rw [if_neg hk, Option.or_none]
    exact .stay _

end Tables

/-! ## Runs -/

open Pool
variable {S : Signature} {σ : Type} {P : Pool S σ} {K : Rules R E} {acct : σ → Account R E}
  {c₀ c : Pool.Config S σ} {hist : List (Event S σ)}

/-- A property of accounts that creation and every change keep holds along a run. -/
theorem account_inv {I : Account R E → Prop} (r : Run P c₀ hist c)
    (hsteps : ∀ e ∈ hist, K.Step (acct e.pre) (acct e.post)) (h₀ : I (acct c₀.shared))
    (hborn : ∀ r es, K.born r → I ⟨none, es⟩ → I ⟨some r, es⟩)
    (hchange : ∀ r r' es out, K.change r r' out → I ⟨some r, es⟩ → I ⟨some r', es ++ out⟩) :
    I (acct c.shared) := by
  refine r.within (R := fun s s' => I (acct s) → I (acct s')) (fun _ h => h)
    (fun _ _ _ h₁ h₂ h => h₂ (h₁ h)) (fun e he => ?_) h₀
  have hs := hsteps e he
  revert hs
  generalize acct e.pre = a
  generalize acct e.post = a'
  intro hs
  cases hs with
  | stay => exact id
  | born h => exact hborn _ _ h
  | change h => exact hchange _ _ _ _ h

section Balance
variable (closed : R → Bool)

/-- The record is there and closed. -/
def isClosed (a : Account R E) : Bool := a.record.any closed

/-- The record was created already closed. -/
def bornClosed (a a' : Account R E) : Bool := a.record.isNone && isClosed closed a'

/-- A closed record was opened again. -/
def reopened (a a' : Account R E) : Bool := isClosed closed a && !isClosed closed a'

variable {closed}

/-- Only a missing record can be created closed, and no record goes missing. -/
theorem step_bornClosed {a a' : Account R E} (hs : K.Step a a') :
    (bornClosed closed a a' = true → a.record = none ∧ a'.record ≠ none) ∧
      (a'.record = none → a.record = none) := by
  cases hs with
  | stay => cases h : a.record <;> simp [bornClosed, isClosed, h]
  | born => simp
  | change => simp [bornClosed]

/-- A record is created once, so it is created closed at most once. -/
theorem countP_bornClosed (r : Run P c₀ hist c)
    (hsteps : ∀ e ∈ hist, K.Step (acct e.pre) (acct e.post)) :
    hist.countP (fun e => bornClosed closed (acct e.pre) (acct e.post)) ≤ 1 ∧
      ((acct c.shared).record = none →
        hist.countP (fun e => bornClosed closed (acct e.pre) (acct e.post)) = 0) := by
  induction r with
  | nil => simp
  | @snoc hist c l c' _ _ ih =>
      rcases ih fun e he => hsteps e (List.mem_append_left _ he) with ⟨hle, hnone⟩
      have hs := hsteps ⟨c.shared, l, c'.shared⟩ (by simp)
      rcases @step_bornClosed _ _ _ closed _ _ hs with ⟨hborn, hkept⟩
      rw [List.countP_append, List.countP_singleton]
      by_cases hb : bornClosed closed (acct c.shared) (acct c'.shared) = true
      · simp only [hb, if_true]
        have h0 := hnone (hborn hb).1
        exact ⟨by omega, fun h => absurd h (hborn hb).2⟩
      · simp only [hb]
        exact ⟨by simpa using hle, fun h => by simpa using hnone (hkept h)⟩

/-- So whether the record was created closed can be counted or searched for. -/
theorem countP_bornClosed_eq_any (r : Run P c₀ hist c)
    (hsteps : ∀ e ∈ hist, K.Step (acct e.pre) (acct e.post)) :
    hist.countP (fun e => bornClosed closed (acct e.pre) (acct e.post)) =
      if hist.any (fun e => bornClosed closed (acct e.pre) (acct e.post)) then 1 else 0 := by
  have hle := (@countP_bornClosed _ _ _ _ _ _ _ _ _ _ closed r hsteps).1
  by_cases h : hist.any (fun e => bornClosed closed (acct e.pre) (acct e.post)) = true
  · have hpos : 0 < hist.countP (fun e => bornClosed closed (acct e.pre) (acct e.post)) := by
      rw [List.countP_pos_iff]
      simpa using h
    rw [if_pos h]
    omega
  · rw [if_neg h, List.countP_eq_zero]
    simpa using h

/-- The balance of one step. -/
theorem step_balance {announces : E → Bool} {a a' : Account R E} (hs : K.Step a a')
    (hcount : ∀ r r' out, K.change r r' out →
      out.countP announces = if closed r' && !closed r then 1 else 0) :
    a'.events.countP announces + (if bornClosed closed a a' then 1 else 0) +
        (if isClosed closed a then 1 else 0) =
      a.events.countP announces + (if reopened closed a a' then 1 else 0) +
        (if isClosed closed a' then 1 else 0) := by
  cases hs with
  | stay => cases h : a.record <;> simp [bornClosed, reopened, isClosed, h]
  | @born r es h => cases hr : closed r <;> simp [bornClosed, reopened, isClosed, hr]
  | @change r r' es out h =>
      rw [List.countP_append, hcount r r' out h]
      cases hr : closed r <;> cases hr' : closed r' <;>
        simp [bornClosed, reopened, isClosed, hr, hr']

/-- **Conservation.**  Announcements of closing, and records created closed,
balance records reopened and the record that is closed now. -/
theorem conservation {announces : E → Bool} (r : Run P c₀ hist c)
    (hsteps : ∀ e ∈ hist, K.Step (acct e.pre) (acct e.post))
    (hcount : ∀ r r' out, K.change r r' out →
      out.countP announces = if closed r' && !closed r then 1 else 0)
    (h₀ : acct c₀.shared = ⟨none, []⟩) :
    (acct c.shared).events.countP announces +
        hist.countP (fun e => bornClosed closed (acct e.pre) (acct e.post)) =
      hist.countP (fun e => reopened closed (acct e.pre) (acct e.post)) +
        if isClosed closed (acct c.shared) then 1 else 0 := by
  induction r with
  | nil => simp [h₀, isClosed]
  | @snoc hist c l c' _ _ ih =>
      have hprev := ih fun e he => hsteps e (List.mem_append_left _ he)
      have hs := step_balance (hsteps ⟨c.shared, l, c'.shared⟩ (by simp)) hcount
      simp only [List.countP_append, List.countP_singleton] at hs ⊢
      omega

end Balance
end Ledger
end Companion.Lib
