import Mathlib.Tactic.TypeStar

/-!
# Resumable processes

A program that talks to a database and to the network is a tree: either it has
finished, or it asks for one operation and continues with whatever the answer
is.  The tree says nothing about who answers, so one definition of a program
serves three purposes: `Proc.exec` runs it to the end against a handler that
nobody else touches, a pool interleaves it with other programs one operation at
a time, and `Proc.Uses` bounds the operations it can ever ask for.

Programs that can fail are `Fallible`: a process whose answer is an `Except`, so
that `do` notation stops at the first error, and everything performed before
that error stays performed.

## Main definitions

* `Proc S α` — a process over the operations of the signature `S`.
* `Proc.exec` — sequential execution against a handler.
* `Proc.Uses P p` — every operation `p` asks for, whatever the answers, is in `P`.
* `Proc.UsesAfter` — the same, for operations that depend on the answers so far.
* `Proc.Leaves` — what a process leaves when it is interrupted.
* `Proc.Reaches` — how far a process has come, and by which operations.
* `Built B` — the processes put together from those in `B`.
* `Fallible S ε α` — a process that ends in a value or in an error.
-/

set_option autoImplicit false

namespace Companion.Lib

universe u

/-- The operations a process may ask for, and the type of each answer. -/
structure Signature where
  Op : Type
  Res : Op → Type

/-- A process: finished, or waiting for the answer to one operation. -/
inductive Proc (S : Signature) (α : Type u) : Type u
  | done (a : α) : Proc S α
  | ask (o : S.Op) (k : S.Res o → Proc S α) : Proc S α

namespace Proc
variable {S : Signature} {α β γ : Type u}

/-- Continue a process with what it returns. -/
def bind : Proc S α → (α → Proc S β) → Proc S β
  | done a, f => f a
  | ask o k, f => ask o fun r => (k r).bind f

instance : Monad (Proc S) where
  pure := done
  bind := bind

/-- Ask for one operation and return its answer. -/
def perform (o : S.Op) : Proc S (S.Res o) := ask o done

@[simp] theorem pure_eq (a : α) : (pure a : Proc S α) = done a := rfl
@[simp] theorem done_bind (a : α) (f : α → Proc S β) : (done a >>= f) = f a := rfl
@[simp] theorem ask_bind (o : S.Op) (k : S.Res o → Proc S α) (f : α → Proc S β) :
    (ask o k >>= f) = ask o fun r => k r >>= f := rfl

theorem bind_done (p : Proc S α) : (p >>= done) = p := by
  induction p with
  | done a => rfl
  | ask o k ih => simp only [ask_bind, ih]

theorem bind_assoc (p : Proc S α) (f : α → Proc S β) (g : β → Proc S γ) :
    ((p >>= f) >>= g) = (p >>= fun a => f a >>= g) := by
  induction p with
  | done a => rfl
  | ask o k ih => simp only [ask_bind, ih]

instance : LawfulMonad (Proc S) :=
  LawfulMonad.mk' _ (fun p => bind_done p) (fun _ _ => rfl) (fun p f g => bind_assoc p f g)

/-! ## Sequential execution -/

section Exec
variable {σ : Type} (h : (o : S.Op) → σ → S.Res o × σ)

/-- Run a process to the end, every operation answered by the handler `h`. -/
def exec : Proc S α → σ → α × σ
  | done a, s => (a, s)
  | ask o k, s => (k (h o s).1).exec (h o s).2

@[simp] theorem exec_done (a : α) (s : σ) : (done a : Proc S α).exec h s = (a, s) := rfl
@[simp] theorem exec_ask (o : S.Op) (k : S.Res o → Proc S α) (s : σ) :
    (ask o k).exec h s = (k (h o s).1).exec h (h o s).2 := rfl

/-- Execution of a sequence is the sequence of the executions. -/
@[simp] theorem exec_bind (p : Proc S α) (f : α → Proc S β) (s : σ) :
    (p >>= f).exec h s = (f (p.exec h s).1).exec h (p.exec h s).2 := by
  induction p generalizing s with
  | done a => rfl
  | ask o k ih => simp only [ask_bind, exec_ask, ih]

end Exec

/-! ## Interruption -/

section Interruption
variable {σ : Type} (h : (o : S.Op) → σ → S.Res o × σ) (fails : (o : S.Op) → S.Res o → Prop)

/-- What a process may leave that can stop before any of its operations, and whose
operations can be answered with a failure instead of being performed. -/
inductive Leaves : Proc S α → σ → σ → Prop
  | stop (p : Proc S α) (s : σ) : Leaves p s s
  | ask {o : S.Op} {k : S.Res o → Proc S α} {s s' : σ} :
      Leaves (k (h o s).1) (h o s).2 s' → Leaves (ask o k) s s'
  | fail {o : S.Op} {k : S.Res o → Proc S α} {r : S.Res o} {s s' : σ} :
      fails o r → Leaves (k r) s s' → Leaves (ask o k) s s'

/-- All that a process may leave is in `Q`. -/
def Along (Q : σ → Prop) : Proc S α → σ → Prop
  | done _, s => Q s
  | ask o k, s =>
      Q s ∧ (∀ r, fails o r → (k r).Along Q s) ∧ (k (h o s).1).Along Q (h o s).2

variable {h fails}

theorem Along.start {Q : σ → Prop} {p : Proc S α} {s : σ} (hp : p.Along h fails Q s) : Q s := by
  cases p with
  | done a => exact hp
  | ask o k => exact hp.1

theorem Leaves.of_along {Q : σ → Prop} {p : Proc S α} {s s' : σ} (hl : Leaves h fails p s s')
    (hp : p.Along h fails Q s) : Q s' := by
  induction hl with
  | stop => exact hp.start
  | ask _ ih => exact ih hp.2.2
  | fail hr _ ih => exact ih (hp.2.1 _ hr)

end Interruption

/-! ## The operations a process can ask for -/

/-- Every operation `p` asks for, whatever the answers so far, satisfies `P`. -/
def Uses (P : S.Op → Prop) : Proc S α → Prop
  | done _ => True
  | ask o k => P o ∧ ∀ r, (k r).Uses P

variable {P : S.Op → Prop}

@[simp] theorem uses_done (a : α) : (done a : Proc S α).Uses P := trivial

theorem uses_perform {o : S.Op} (ho : P o) : (perform o).Uses P := ⟨ho, fun _ => trivial⟩

theorem uses_bind {p : Proc S α} {f : α → Proc S β} (hp : p.Uses P) (hf : ∀ a, (f a).Uses P) :
    (p >>= f).Uses P := by
  induction p with
  | done a => exact hf a
  | ask o k ih => exact ⟨hp.1, fun r => ih r (hp.2 r)⟩

theorem uses_true (p : Proc S α) : p.Uses fun _ => True := by
  induction p with
  | done a => trivial
  | ask o k ih => exact ⟨trivial, ih⟩

theorem Uses.mono {P Q : S.Op → Prop} (hPQ : ∀ o, P o → Q o) {p : Proc S α} (hp : p.Uses P) :
    p.Uses Q := by
  induction p with
  | done a => trivial
  | ask o k ih => exact ⟨hPQ o hp.1, fun r => ih r (hp.2 r)⟩

/-- What every operation in `P` keeps, a process of such operations keeps. -/
theorem exec_inv {σ : Type} {h : (o : S.Op) → σ → S.Res o × σ} {I : σ → Prop} {p : Proc S α}
    (hp : p.Uses P) (hstep : ∀ o s, P o → I s → I (h o s).2) {s : σ} (hs : I s) :
    I (p.exec h s).2 := by
  induction p generalizing s with
  | done a => exact hs
  | ask o k ih => exact ih _ (hp.2 _) (hstep o s hp.1 hs)

/-! ## What a process remembers -/

section Memory
variable {μ : Type} (note : μ → (o : S.Op) → S.Res o → μ) (Q : μ → S.Op → Prop)

/-- Every operation `p` asks for satisfies `Q` of what has been noted of the answers
so far, from the note `m` on. -/
def UsesAfter : Proc S α → μ → Prop
  | done _, _ => True
  | ask o k, m => Q m o ∧ ∀ r, (k r).UsesAfter (note m o r)

variable {note Q}

theorem usesAfter_bind {p : Proc S α} {f : α → Proc S β} {m : μ} (hp : p.UsesAfter note Q m)
    (hf : ∀ a m, (f a).UsesAfter note Q m) : (p >>= f).UsesAfter note Q m := by
  induction p generalizing m with
  | done a => exact hf a m
  | ask o k ih => exact ⟨hp.1, fun r => ih r (hp.2 r)⟩

/-- Operations that keep the note as it should be may be asked for under it. -/
theorem usesAfter_of_uses {I : μ → Prop} {p : Proc S α} (hp : p.Uses P)
    (hstep : ∀ m o, P o → I m → Q m o ∧ ∀ r, I (note m o r)) {m : μ} (hm : I m) :
    p.UsesAfter note Q m := by
  induction p generalizing m with
  | done a => trivial
  | ask o k ih =>
    obtain ⟨ho, hnext⟩ := hstep m o hp.1 hm
    exact ⟨ho, fun r => ih r (hp.2 r) (hnext r)⟩

end Memory

/-! ## How far a process has come -/

/-- An operation that has been performed, with its answer. -/
structure Deed (S : Signature) where
  op : S.Op
  res : S.Res op

/-- Having performed the deeds `l` the process `p` is now at `q`. -/
inductive Reaches : Proc S α → List (Deed S) → Proc S α → Prop
  | here (p : Proc S α) : Reaches p [] p
  | ask {o : S.Op} {k : S.Res o → Proc S α} {r : S.Res o} {l : List (Deed S)} {q : Proc S α} :
      Reaches (k r) l q → Reaches (ask o k) (⟨o, r⟩ :: l) q

theorem reaches_done {a : α} {l : List (Deed S)} {q : Proc S α} (h : Reaches (done a) l q) :
    l = [] ∧ q = done a := by
  cases h
  exact ⟨rfl, rfl⟩

theorem reaches_ask {o : S.Op} {k : S.Res o → Proc S α} {l : List (Deed S)} {q : Proc S α}
    (h : Reaches (ask o k) l q) :
    (l = [] ∧ q = ask o k) ∨ ∃ r l', l = ⟨o, r⟩ :: l' ∧ Reaches (k r) l' q := by
  cases h with
  | here => exact Or.inl ⟨rfl, rfl⟩
  | ask h => exact Or.inr ⟨_, _, rfl, h⟩

/-- The deeds say where a process is. -/
theorem Reaches.det {p q q' : Proc S α} {l : List (Deed S)} (h : Reaches p l q)
    (h' : Reaches p l q') : q = q' := by
  induction h with
  | here => cases h'; rfl
  | ask _ ih => cases h' with | ask h' => exact ih h'

theorem Reaches.concat {p q : Proc S α} {l : List (Deed S)} {o : S.Op} {k : S.Res o → Proc S α}
    (h : Reaches p l q) (hq : q = Proc.ask o k) (r : S.Res o) :
    Reaches p (l ++ [⟨o, r⟩]) (k r) := by
  induction h with
  | here => subst hq; exact .ask (.here _)
  | ask _ ih => exact .ask (ih hq)

theorem reaches_append {p q : Proc S α} {l l' : List (Deed S)} (h : Reaches p (l ++ l') q) :
    ∃ m, Reaches p l m ∧ Reaches m l' q := by
  induction l generalizing p with
  | nil => exact ⟨p, .here p, h⟩
  | cons d l ih =>
    cases h with
    | ask h =>
      obtain ⟨m, hm, hq⟩ := ih h
      exact ⟨m, .ask hm, hq⟩

/-- A process has finished on the way exactly if it is finished now. -/
theorem finished_iff {p q : Proc S α} {l : List (Deed S)} (h : Reaches p l q) :
    (∃ l₁ l₂ a, l = l₁ ++ l₂ ∧ Reaches p l₁ (done a)) ↔ ∃ a, q = done a := by
  constructor
  · rintro ⟨l₁, l₂, a, rfl, hp⟩
    obtain ⟨m, hm, hq⟩ := reaches_append h
    rw [hm.det hp] at hq
    exact ⟨a, (reaches_done hq).2⟩
  · rintro ⟨a, rfl⟩
    exact ⟨l, [], a, (List.append_nil l).symm, h⟩

/-- A sequence is in its first part, or past it. -/
theorem reaches_bind {p : Proc S α} {f : α → Proc S β} {l : List (Deed S)} {q : Proc S β}
    (h : Reaches (p >>= f) l q) :
    (∃ p', Reaches p l p' ∧ q = p' >>= f) ∨
      ∃ a l₁ l₂, l = l₁ ++ l₂ ∧ Reaches p l₁ (done a) ∧ Reaches (f a) l₂ q := by
  induction p generalizing l with
  | done a => exact Or.inr ⟨a, [], l, rfl, .here _, h⟩
  | ask o k ih =>
    rcases reaches_ask h with ⟨rfl, rfl⟩ | ⟨r, l', rfl, h'⟩
    · exact Or.inl ⟨_, .here _, rfl⟩
    · rcases ih r h' with ⟨p', hp', rfl⟩ | ⟨a, l₁, l₂, rfl, hp, hf⟩
      · exact Or.inl ⟨p', .ask hp', rfl⟩
      · exact Or.inr ⟨a, _, l₂, rfl, .ask hp, hf⟩

end Proc

/-! ## Programs made of blocks -/

section Built
variable {S : Signature}

/-- A process put together from those in `B` by sequencing. -/
inductive Built (B : (α : Type) → Proc S α → Prop) : {α : Type} → Proc S α → Prop
  | done {α : Type} (a : α) : Built B (.done a)
  | block {α : Type} {p : Proc S α} : B α p → Built B p
  | bind {α β : Type} {p : Proc S α} {f : α → Proc S β} :
      Built B p → (∀ a, Built B (f a)) → Built B (p >>= f)

variable {B : (α : Type) → Proc S α → Prop} {α : Type} {p : Proc S α}

/-- A process asks for what its blocks ask for. -/
theorem Built.uses {P : S.Op → Prop} (hp : Built B p) (hB : ∀ β q, B β q → q.Uses P) :
    p.Uses P := by
  induction hp with
  | done a => trivial
  | block hq => exact hB _ _ hq
  | bind _ _ ihp ihf => exact Proc.uses_bind ihp ihf

/-- Blocks that are right whatever has been noted before make a process that is. -/
theorem Built.usesAfter {μ : Type} {note : μ → (o : S.Op) → S.Res o → μ} {Q : μ → S.Op → Prop}
    (hp : Built B p) (hB : ∀ β q, B β q → ∀ m, q.UsesAfter note Q m) (m : μ) :
    p.UsesAfter note Q m := by
  induction hp generalizing m with
  | done a => trivial
  | block hq => exact hB _ _ hq m
  | bind _ _ ihp ihf => exact Proc.usesAfter_bind (ihp m) ihf

end Built

/-! ## Processes that can fail -/

/-- A process that ends in a value or in an error. -/
abbrev Fallible (S : Signature) (ε α : Type) := ExceptT ε (Proc S) α

namespace Fallible
variable {S : Signature} {ε ε' α β : Type} {σ : Type}

/-- Turn the errors of `p` into those of the caller. -/
def mapErr (f : ε → ε') (p : Fallible S ε α) : Fallible S ε' α :=
  ExceptT.mk (p.run >>= fun r => pure (r.mapError f))

/-- Run `p` and look at its outcome, whatever it is. -/
def attempt (p : Fallible S ε α) : Fallible S ε' (Except ε α) := liftM p.run

/-- Run a fallible process to the end. -/
def exec (h : (o : S.Op) → σ → S.Res o × σ) (p : Fallible S ε α) (s : σ) : Except ε α × σ :=
  Proc.exec h p.run s

variable (h : (o : S.Op) → σ → S.Res o × σ)

@[simp] theorem exec_pure (a : α) (s : σ) :
    exec h (pure a : Fallible S ε α) s = (.ok a, s) := rfl

@[simp] theorem exec_throw (e : ε) (s : σ) :
    exec h (throw e : Fallible S ε α) s = (.error e, s) := rfl

/-- The first error ends the run, and the state stays as it was left. -/
theorem exec_bind (p : Fallible S ε α) (f : α → Fallible S ε β) (s : σ) :
    exec h (p >>= f) s =
      match exec h p s with
      | (.ok a, s') => exec h (f a) s'
      | (.error e, s') => (.error e, s') := by
  simp only [exec, ExceptT.run_bind, Proc.exec_bind]
  rcases Proc.exec h p.run s with ⟨_ | a, s'⟩ <;> rfl

theorem exec_bind_ok {p : Fallible S ε α} {f : α → Fallible S ε β} {s s' : σ} {a : α}
    (hp : exec h p s = (.ok a, s')) : exec h (p >>= f) s = exec h (f a) s' := by
  rw [exec_bind, hp]

theorem exec_bind_error {p : Fallible S ε α} {f : α → Fallible S ε β} {s s' : σ} {e : ε}
    (hp : exec h p s = (.error e, s')) : exec h (p >>= f) s = (.error e, s') := by
  rw [exec_bind, hp]

/-- A sequence completes when its first part does and then the rest. -/
theorem exec_bind_eq_ok {p : Fallible S ε α} {f : α → Fallible S ε β} {s s' : σ} {b : β} :
    exec h (p >>= f) s = (.ok b, s') ↔
      ∃ a s₁, exec h p s = (.ok a, s₁) ∧ exec h (f a) s₁ = (.ok b, s') := by
  rw [exec_bind]
  rcases exec h p s with ⟨e | a, s₁⟩
  · simp
  · constructor
    · intro hok
      exact ⟨a, s₁, rfl, hok⟩
    · rintro ⟨a', s₁', heq, hok⟩
      cases heq
      exact hok

@[simp] theorem exec_mapErr (f : ε → ε') (p : Fallible S ε α) (s : σ) :
    exec h (mapErr f p) s = ((exec h p s).1.mapError f, (exec h p s).2) := by
  simp [exec, mapErr]

@[simp] theorem exec_lift (p : Proc S α) (s : σ) :
    exec h (liftM p : Fallible S ε α) s = (.ok (p.exec h s).1, (p.exec h s).2) := by
  change Proc.exec h (p >>= fun a => Proc.done (Except.ok a)) s = _
  simp

@[simp] theorem exec_attempt (p : Fallible S ε α) (s : σ) :
    exec h (attempt p : Fallible S ε' (Except ε α)) s = (.ok (exec h p s).1, (exec h p s).2) :=
  exec_lift h p.run s

variable {P : S.Op → Prop}

theorem uses_bind {p : Fallible S ε α} {f : α → Fallible S ε β} (hp : p.run.Uses P)
    (hf : ∀ a, (f a).run.Uses P) : (p >>= f).run.Uses P := by
  rw [ExceptT.run_bind]
  refine Proc.uses_bind hp fun r => ?_
  cases r with
  | ok a => exact hf a
  | error e => trivial

theorem uses_mapErr {f : ε → ε'} {p : Fallible S ε α} (hp : p.run.Uses P) :
    (mapErr f p).run.Uses P :=
  Proc.uses_bind hp fun _ => trivial

theorem uses_lift {p : Proc S α} (hp : p.Uses P) : (liftM p : Fallible S ε α).run.Uses P :=
  Proc.uses_bind (f := fun a => Proc.done (Except.ok a)) hp fun _ => trivial

theorem uses_attempt {p : Fallible S ε α} (hp : p.run.Uses P) :
    (attempt p : Fallible S ε' (Except ε α)).run.Uses P :=
  uses_lift hp

variable {B : (α : Type) → Proc S α → Prop}

theorem built_bind {p : Fallible S ε α} {f : α → Fallible S ε β} (hp : Built B p.run)
    (hf : ∀ a, Built B (f a).run) : Built B (p >>= f).run := by
  rw [ExceptT.run_bind]
  refine .bind hp fun r => ?_
  cases r with
  | ok a => exact hf a
  | error e => exact .done _

theorem built_mapErr {f : ε → ε'} {p : Fallible S ε α} (hp : Built B p.run) :
    Built B (mapErr f p).run :=
  .bind hp fun _ => .done _

theorem built_lift {p : Proc S α} (hp : Built B p) :
    Built B (liftM p : Fallible S ε α).run :=
  .bind hp fun a => .done (Except.ok a)

theorem built_attempt {p : Fallible S ε α} (hp : Built B p.run) :
    Built B (attempt p : Fallible S ε' (Except ε α)).run :=
  built_lift hp

end Fallible
end Companion.Lib
