import Companion.Lib.Contract
import Mathlib.Data.List.Induction

/-!
# Locks in a pool

A lock is a flag of the shared state that one kind of operation sets, waiting until it is
clear, and another kind clears.  Which thread has set it is not part of the state: it
follows from what the threads have done.  A thread is inside from its take to its give, and
what programs have to keep to is said of their own operations only: none takes the lock
inside or gives it back outside, and none ends inside.

The environment may clear the flag as well.  It does so for a thread that was dropped
inside, and such a thread never moves again (`Abides`).

## Main definitions

* `Lock` — the operations and the flag.
* `Tracks`, `Disciplined` — notes that know whether a thread is inside, and programs that
  work the lock as they should.
* `Lock.standing` — where a history has left a thread.
* `Lock.inside_of_held`, `Lock.drains` — the lock is never left behind, and can be given back.
* `Lock.exclusive`, `Lock.gives_between` — mutual exclusion, and sections one after another.
-/

set_option autoImplicit false

namespace Companion.Lib.Pool

variable {S : Signature} {σ : Type} {P : Pool S σ} {μ : Type}

/-- The environment moves by itself. -/
def Label.isDrift : Label S → Bool
  | drift => true
  | _ => false

/-- The operations that take and give back a lock, and the flag they work. -/
structure Lock (P : Pool S σ) where
  takes : S.Op → Bool
  gives : S.Op → Bool
  held : σ → Bool
  apart : ∀ {o}, takes o = true → gives o = false
  take_ok : ∀ {c i o s r s'}, takes o = true → P.perform c i o s = some (r, s') →
    held s = false ∧ held s' = true
  give_ok : ∀ {c i o s r s'}, gives o = true → P.perform c i o s = some (r, s') → held s' = false
  other_ok : ∀ {c i o s r s'}, takes o = false → gives o = false →
    P.perform c i o s = some (r, s') → held s' = held s
  drift_ok : ∀ {c s s'}, P.drift c s = some s' → held s' = false
  reset_ok : ∀ s, held (P.reset s) = false

namespace Lock
variable (L : Lock P)

/-- The notes of a thread say whether it is inside. -/
structure Tracks (note : μ → (o : S.Op) → S.Res o → μ) (inside : μ → Bool) : Prop where
  take : ∀ {m o r}, L.takes o = true → inside (note m o r) = true
  give : ∀ {m o r}, L.gives o = true → inside (note m o r) = false
  other : ∀ {m o r}, L.takes o = false → L.gives o = false → inside (note m o r) = inside m

/-- The lock is taken outside and given back inside, and nothing ends inside. -/
structure Disciplined (inside : μ → Bool) (Q : μ → S.Op → Prop) (R : μ → Prop) : Prop where
  take : ∀ {m o}, Q m o → L.takes o = true → inside m = false
  give : ∀ {m o}, Q m o → L.gives o = true → inside m = true
  done : ∀ {m}, R m → inside m = false

inductive Standing
  | outside
  | inside
  /-- Dropped inside. -/
  | gone
  deriving DecidableEq, Repr

/-- Where one more event leaves thread `i`. -/
def next (i : ℕ) (x : Standing) (e : Event S σ) : Standing :=
  match e.label with
  | .boot _ => .outside
  | .start _ => x
  | .act j o _ =>
      if j = i then
        if L.takes o then .inside else if L.gives o then .outside else x
      else x
  | .drift => if x = .inside then .gone else x

/-- Where a history has left thread `i`. -/
def standing (i : ℕ) (hist : List (Event S σ)) : Standing := hist.foldl (L.next i) .outside

/-- A thread that was dropped never moves again. -/
def Abides (hist : List (Event S σ)) : Prop :=
  ∀ before e after, hist = before ++ e :: after →
    ∀ i o r, e.label = .act i o r → L.standing i before ≠ .gone

/-- The event takes thread `i` out of its section. -/
def Leaves (i : ℕ) (e : Event S σ) : Prop :=
  e.label.isBoot = true ∨ ∃ o r, e.label = .act i o r ∧ L.gives o = true

variable {L}

theorem standing_append (i : ℕ) (hist : List (Event S σ)) (e : Event S σ) :
    L.standing i (hist ++ [e]) = L.next i (L.standing i hist) e := by
  simp [standing]

theorem abides_before {hist later : List (Event S σ)} (h : L.Abides (hist ++ later)) :
    L.Abides hist := by
  intro before e after heq
  exact h before e (after ++ later) (by simp [heq])

theorem abides_append {hist : List (Event S σ)} {e : Event S σ} (h : L.Abides (hist ++ [e])) :
    L.Abides hist ∧ ∀ i o r, e.label = .act i o r → L.standing i hist ≠ .gone :=
  ⟨abides_before h, h hist e [] rfl⟩

/-- Nobody is dropped where the environment never moves by itself. -/
theorem abides_of_no_drift {hist : List (Event S σ)}
    (h : ∀ e ∈ hist, e.label.isDrift = false) : L.Abides hist := by
  rintro before e after rfl i o r -
  induction before using List.reverseRecOn generalizing e after with
  | nil => simp [standing]
  | append_singleton before e' ih =>
    have hbefore := ih e' (e :: after) (by simpa using h)
    have he' := h e' (by simp)
    rw [standing_append, next]
    cases hl : e'.label with
    | boot ps => simp
    | start p => exact hbefore
    | drift =>
      rw [hl] at he'
      cases he'
    | act j o r =>
      simp only
      split
      · split
        · simp
        · split
          · simp
          · exact hbefore
      · exact hbefore

section Notes
variable {note : μ → (o : S.Op) → S.Res o → μ} {inside : μ → Bool} {m₀ : μ}

/-- The notes say whether a thread is inside, dropped or not. -/
theorem inside_iff (ht : L.Tracks note inside) (h₀ : inside m₀ = false) (i : ℕ)
    (hist : List (Event S σ)) :
    inside (memory note m₀ i hist) = true ↔ L.standing i hist ≠ .outside := by
  induction hist using List.reverseRecOn with
  | nil => simp [memory, standing, h₀]
  | append_singleton hist e ih =>
    rw [memory_append, standing_append, next]
    cases e.label with
    | boot ps => simp [h₀]
    | start p => exact ih
    | drift =>
      by_cases hs : L.standing i hist = .inside
      · simpa [hs] using ih
      · simpa [hs] using ih
    | act j o r =>
      by_cases hij : j = i
      · simp only [if_pos hij]
        by_cases htake : L.takes o = true
        · simp [htake, ht.take htake]
        · by_cases hgive : L.gives o = true
          · simp [htake, hgive, ht.give hgive]
          · simp only [Bool.not_eq_true] at htake hgive
            simpa [htake, hgive, ht.other htake hgive] using ih
      · simpa only [if_neg hij] using ih

/-- A thread that is inside by its notes is, unless it has been dropped. -/
theorem standing_of_alive (ht : L.Tracks note inside) (h₀ : inside m₀ = false) {i : ℕ}
    {hist : List (Event S σ)} (hin : inside (memory note m₀ i hist) = true)
    (hgone : L.standing i hist ≠ .gone) : L.standing i hist = .inside := by
  have hout := (inside_iff ht h₀ i hist).mp hin
  cases hs : L.standing i hist with
  | inside => rfl
  | outside => exact absurd hs hout
  | gone => exact absurd hs hgone

/-- So is a thread that moves. -/
theorem standing_of_act (ht : L.Tracks note inside) (h₀ : inside m₀ = false)
    {hist before after : List (Event S σ)} {e : Event S σ} (habides : L.Abides hist)
    (hhist : hist = before ++ e :: after) {i : ℕ} {o : S.Op} {r : S.Res o}
    (he : e.label = .act i o r) (hin : inside (memory note m₀ i before) = true) :
    L.standing i before = .inside :=
  standing_of_alive ht h₀ hin (habides before e after hhist i o r he)

variable {Q : μ → S.Op → Prop} {R : μ → Prop} {c₀ c : Config S σ} {hist : List (Event S σ)}

/-! ## The lock is not left behind -/

/-- Whoever is said to hold the lock is a thread that is inside. -/
theorem inside_of_held (ht : L.Tracks note inside) (h₀ : L.held c₀.shared = false)
    (run : Run P c₀ hist c) (hheld : L.held c.shared = true) :
    ∃ i p, c.threads[i]? = some p ∧ inside (memory note m₀ i hist) = true := by
  induction run with
  | nil =>
    rw [h₀] at hheld
    cases hheld
  | @snoc hist c l c' _ hs ih =>
    simp only [memory_append]
    cases hs with
    | boot hb =>
      rw [L.reset_ok] at hheld
      cases hheld
    | drift ch hd =>
      rw [L.drift_ok hd] at hheld
      cases hheld
    | start hp =>
      obtain ⟨i, p, hi, hin⟩ := ih hheld
      refine ⟨i, p, ?_, hin⟩
      rw [List.getElem?_append_left (List.getElem?_eq_some_iff.mp hi).1]
      exact hi
    | @act s ts j o k r s' ch hj hperf =>
      have hself := List.getElem?_set_self (a := k r) (List.getElem?_eq_some_iff.mp hj).1
      by_cases htake : L.takes o = true
      · exact ⟨j, k r, hself, by simp [ht.take htake]⟩
      by_cases hgive : L.gives o = true
      · rw [L.give_ok hgive hperf] at hheld
        cases hheld
      simp only [Bool.not_eq_true] at htake hgive
      have hsame := L.other_ok htake hgive hperf
      obtain ⟨i, p, hi, hin⟩ := ih (hsame ▸ hheld)
      by_cases hij : j = i
      · subst hij
        exact ⟨j, k r, hself, by simp [ht.other htake hgive, hin]⟩
      · exact ⟨i, p, (List.getElem?_set_ne hij).trans hi, by simpa [hij] using hin⟩

/-- A thread that is inside and keeps the discipline can give the lock back, by its own
steps alone. -/
theorem drains (ht : L.Tracks note inside) (hd : L.Disciplined inside Q R)
    (able : ∀ i o s, L.takes o = false → ∃ ch r s', P.perform ch i o s = some (r, s')) {i : ℕ}
    {p : Proc S Unit} {m : μ} (hp : p.Keeps note Q m fun _ => R) (hin : inside m = true)
    (c : Config S σ) (hi : c.threads[i]? = some p) :
    ∃ later c', Run P c later c' ∧ (∀ e ∈ later, ∃ o r, e.label = .act i o r) ∧
      L.held c'.shared = false := by
  induction p generalizing m c with
  | done a =>
    have hout := hd.done hp
    rw [hin] at hout
    cases hout
  | ask o k ih =>
    have htake : L.takes o = false := by
      by_contra htake
      have hout := hd.take hp.1 (by simpa using htake)
      rw [hin] at hout
      cases hout
    obtain ⟨ch, r, s', hperf⟩ := able i o c.shared htake
    have hstep : Step P c (.act i o r) ⟨s', c.threads.set i (k r)⟩ := .act ch hi hperf
    by_cases hgive : L.gives o = true
    · exact ⟨_, _, Run.single hstep, by simp, L.give_ok hgive hperf⟩
    · have hin' : inside (note m o r) = true := by
        rw [ht.other htake (by simpa using hgive), hin]
      obtain ⟨later, c', run, hacts, hclear⟩ := ih r (hp.2 r) hin' ⟨s', c.threads.set i (k r)⟩
        (List.getElem?_set_self (List.getElem?_eq_some_iff.mp hi).1)
      refine ⟨_, c', (Run.single hstep).append run, ?_, hclear⟩
      intro e he
      rcases List.mem_append.mp he with he | he
      · exact ⟨o, r, congrArg Event.label (List.mem_singleton.mp he)⟩
      · exact hacts e he

/-! ## Mutual exclusion -/

/-- The flag is set exactly when some thread is inside and not dropped, and no two are. -/
theorem exclusive (ht : L.Tracks note inside) (hd : L.Disciplined inside Q R)
    (hm₀ : inside m₀ = false) (h₀ : L.held c₀.shared = false)
    (hp : P.Contracted note m₀ Q R c₀) (run : Run P c₀ hist c)
    (habides : L.Abides hist) :
    (L.held c.shared = true ↔ ∃ i, L.standing i hist = .inside) ∧
    ∀ i j, L.standing i hist = .inside → L.standing j hist = .inside → i = j := by
  induction run with
  | nil => simp [standing, h₀]
  | @snoc hist c l c' run hs ih =>
    obtain ⟨hpast, hlive⟩ := abides_append habides
    obtain ⟨hheld, hone⟩ := ih hpast
    simp only [standing_append]
    cases hs with
    | boot hb => simp [next, L.reset_ok]
    | start hp => exact ⟨hheld, hone⟩
    | @drift s ts s' ch hdr =>
      have hnone : ∀ i, L.next i (L.standing i hist) ⟨s, .drift, s'⟩ ≠ .inside := by
        intro i
        simp only [next]
        split <;> simp_all
      simp only [L.drift_ok hdr, Bool.false_eq_true, false_iff, not_exists]
      exact ⟨hnone, fun i j hi _ => absurd hi (hnone i)⟩
    | @act s ts j o k r s' ch hj hperf =>
      have hask := (run.threads_keep hp j _ hj).1
      have hother : ∀ i, j ≠ i →
          L.next i (L.standing i hist) ⟨s, .act j o r, s'⟩ = L.standing i hist := by
        intro i hij
        simp [next, hij]
      by_cases htake : L.takes o = true
      · -- nobody was inside, and now `j` is
        obtain ⟨hfree, hset⟩ := L.take_ok htake hperf
        have hnone : ∀ i, L.standing i hist ≠ .inside := by
          intro i hi
          have hset' := hheld.mpr ⟨i, hi⟩
          simp_all
        have hself : L.next j (L.standing j hist) ⟨s, .act j o r, s'⟩ = .inside := by
          simp [next, htake]
        have honly : ∀ i, L.next i (L.standing i hist) ⟨s, .act j o r, s'⟩ = .inside → i = j := by
          intro i hi
          by_contra hij
          rw [hother i (Ne.symm hij)] at hi
          exact hnone i hi
        simp only [hset, true_iff]
        exact ⟨⟨j, hself⟩, fun i i' hi hi' => (honly i hi).trans (honly i' hi').symm⟩
      by_cases hgive : L.gives o = true
      · -- `j` was inside, nobody else was, and now nobody is
        have hj' := standing_of_alive ht hm₀ (hd.give hask hgive) (hlive j o r rfl)
        have hnone : ∀ i, L.next i (L.standing i hist) ⟨s, .act j o r, s'⟩ ≠ .inside := by
          intro i hi
          by_cases hij : j = i
          · subst hij
            simp [next, htake, hgive] at hi
          · rw [hother i hij] at hi
            exact hij (hone j i hj' hi)
        simp only [L.give_ok hgive hperf, Bool.false_eq_true, false_iff, not_exists]
        exact ⟨hnone, fun i i' hi _ => absurd hi (hnone i)⟩
      simp only [Bool.not_eq_true] at htake hgive
      have hsame : ∀ i, L.next i (L.standing i hist) ⟨s, .act j o r, s'⟩ = L.standing i hist := by
        intro i
        simp [next, htake, hgive]
      simp only [hsame, L.other_ok htake hgive hperf]
      exact ⟨hheld, hone⟩

end Notes

/-! ## Sections one after another -/

section Sections
variable {i : ℕ} {before : List (Event S σ)}

/-- Without an event that takes it out, a thread inside is inside or dropped. -/
theorem standing_of_inside (seg : List (Event S σ)) (hin : L.standing i before ≠ .outside)
    (hseg : ∀ e ∈ seg, ¬ L.Leaves i e) : L.standing i (before ++ seg) ≠ .outside := by
  induction seg using List.reverseRecOn with
  | nil => simpa using hin
  | append_singleton seg e ih =>
    have hprev := ih fun e' he' => hseg e' (List.mem_append_left _ he')
    have hstay := hseg e (List.mem_append_right _ (List.mem_singleton_self _))
    rw [← List.append_assoc, standing_append, next]
    cases hl : e.label with
    | boot ps => exact absurd (Or.inl (by rw [hl]; rfl)) hstay
    | start p => exact hprev
    | drift =>
      simp only
      split <;> simp_all
    | act j o r =>
      by_cases hij : j = i
      · subst hij
        have hgive : L.gives o = false := by
          by_contra hgive
          exact hstay (Or.inr ⟨o, r, hl, by simpa using hgive⟩)
        by_cases htake : L.takes o = true
        · simp [htake]
        · simpa [htake, hgive] using hprev
      · simpa only [if_neg hij] using hprev

/-- A dropped thread stays dropped until the next boot. -/
theorem standing_of_gone (seg : List (Event S σ)) (hgone : L.standing i before = .gone)
    (hboot : ∀ e ∈ seg, e.label.isBoot = false)
    (habides : ∀ pre e post, seg = pre ++ e :: post → ∀ o r, e.label = .act i o r →
      L.standing i (before ++ pre) ≠ .gone) : L.standing i (before ++ seg) = .gone := by
  induction seg using List.reverseRecOn with
  | nil => simpa using hgone
  | append_singleton seg e ih =>
    have hprev := ih (fun e' he' => hboot e' (List.mem_append_left _ he'))
      fun pre e' post heq => habides pre e' (post ++ [e]) (by simp [heq])
    have hnoboot := hboot e (List.mem_append_right _ (List.mem_singleton_self _))
    rw [← List.append_assoc, standing_append, hprev, next]
    cases hl : e.label with
    | boot ps =>
      rw [hl] at hnoboot
      cases hnoboot
    | start p => rfl
    | drift => rfl
    | act j o r =>
      by_cases hij : j = i
      · subst hij
        exact absurd hprev (habides seg e [] rfl o r hl)
      · simp [hij]

/-- Between two steps of a thread inside one section it is inside. -/
theorem inside_between {hist after : List (Event S σ)} {s₁ s₂ : List (Event S σ)}
    {e : Event S σ} (habides : L.Abides hist) (hhist : hist = before ++ (s₁ ++ s₂) ++ e :: after)
    (hin : L.standing i before = .inside) (hstay : ∀ e' ∈ s₁ ++ s₂, ¬ L.Leaves i e')
    {o : S.Op} {r : S.Res o} (he : e.label = .act i o r) :
    L.standing i (before ++ s₁) = .inside := by
  have hout := standing_of_inside (L := L) s₁ (by simp [hin] : L.standing i before ≠ _)
    fun e' he' => hstay e' (List.mem_append_left _ he')
  cases hs : L.standing i (before ++ s₁) with
  | inside => rfl
  | outside => exact absurd hs hout
  | gone =>
    have hgone := standing_of_gone s₂ hs
      (fun e' he' => by
        by_contra hb
        exact hstay e' (List.mem_append_right _ he') (Or.inl (by simpa using hb)))
      (fun pre e' post heq => habides (before ++ s₁ ++ pre) e' (post ++ e :: after)
        (by simp [hhist, heq]) i)
    rw [List.append_assoc] at hgone
    exact absurd hgone (habides _ e after hhist i o r he)

end Sections

/-- Between two steps of one thread inside there is none of another thread inside, unless
the first has given the lock back in between. -/
theorem gives_between {note : μ → (o : S.Op) → S.Res o → μ} {inside : μ → Bool} {m₀ : μ}
    {Q : μ → S.Op → Prop} {R : μ → Prop} {c₀ c : Config S σ} {hist : List (Event S σ)}
    (ht : L.Tracks note inside) (hd : L.Disciplined inside Q R) (hm₀ : inside m₀ = false)
    (h₀ : L.held c₀.shared = false)
    (hp : P.Contracted note m₀ Q R c₀) (run : Run P c₀ hist c)
    (habides : L.Abides hist) {before s₁ s₂ after : List (Event S σ)} {e₁ e₂ e₃ : Event S σ}
    (hhist : hist = before ++ e₁ :: s₁ ++ e₂ :: s₂ ++ e₃ :: after) {i j : ℕ} (hij : i ≠ j)
    {o₁ o₂ o₃ : S.Op} {r₁ : S.Res o₁} {r₂ : S.Res o₂} {r₃ : S.Res o₃}
    (he₁ : e₁.label = .act i o₁ r₁) (he₂ : e₂.label = .act j o₂ r₂)
    (he₃ : e₃.label = .act i o₃ r₃) (hout : L.gives o₁ = false)
    (hi : inside (memory note m₀ i before) = true)
    (hj : inside (memory note m₀ j (before ++ e₁ :: s₁)) = true) :
    ∃ e ∈ s₁ ++ e₂ :: s₂, L.Leaves i e := by
  by_contra hno
  push Not at hno
  have hstay : ∀ e ∈ (e₁ :: s₁) ++ e₂ :: s₂, ¬ L.Leaves i e := by
    intro e he
    rcases List.mem_cons.mp he with rfl | he
    · rintro (hb | ⟨o, r, hl, hgive⟩)
      · rw [he₁] at hb
        cases hb
      · rw [he₁] at hl
        cases hl
        rw [hout] at hgive
        cases hgive
    · exact hno e he
  have hfirst : hist = before ++ e₁ :: (s₁ ++ e₂ :: s₂ ++ e₃ :: after) := by simp [hhist]
  have hsecond : hist = (before ++ e₁ :: s₁) ++ e₂ :: (s₂ ++ e₃ :: after) := by simp [hhist]
  have hthird : hist = before ++ ((e₁ :: s₁) ++ e₂ :: s₂) ++ e₃ :: after := by simp [hhist]
  have hin := standing_of_act ht hm₀ habides hfirst he₁ hi
  have hi' := inside_between habides hthird hin hstay he₃
  have hj' := standing_of_act ht hm₀ habides hsecond he₂ hj
  obtain ⟨c₁, c₂, run₁, -⟩ := run.split hsecond
  have hpast : L.Abides (before ++ e₁ :: s₁) := abides_before (hsecond ▸ habides)
  exact hij ((exclusive ht hd hm₀ h₀ hp run₁ hpast).2 i j hi' hj')

end Lock
end Companion.Lib.Pool
