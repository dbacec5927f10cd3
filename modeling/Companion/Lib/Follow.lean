import Companion.Lib.Contract

/-!
# Programs that follow coarser programs

A program written out in full does more than one that leaves out what does not matter: it
sends answers, sleeps, wakes others, and one thread of it may do one after another what
the coarser program does in several.  Each of its deeds is then nothing to the coarser
program, or a deed there too, or the start of a new thread.

A program that keeps to that, at any point of the coarser one, follows it.  It may stop
early: a thread that never moves again is no contradiction to any program.

## Main definitions

* `Signature.Hom`, `Proc.lift` — a signature within a larger one, and its programs there.
* `Meaning` — what a deed is to the coarser program.
* `Proc.Follows` — a program that follows another, and where it leaves it.
* `follows_bind`, `follows_lift`, `follows_silent` — how such programs are put together.
-/

set_option autoImplicit false

namespace Companion.Lib

variable {S T : Signature} {α β : Type}

/-! ## Signatures within signatures -/

/-- The operations of `S` among those of `T`. -/
structure Signature.Hom (S T : Signature) where
  op : S.Op → T.Op
  res : ∀ o, T.Res (op o) → S.Res o

/-- A program over `S` as one over `T`. -/
def Proc.lift (e : S.Hom T) : Proc S α → Proc T α
  | .done a => .done a
  | .ask o k => .ask (e.op o) fun r => (k (e.res o r)).lift e

/-- A fallible program over `S` as one over `T`. -/
def Fallible.lift {ε : Type} (e : S.Hom T) (p : Fallible S ε α) : Fallible T ε α :=
  ExceptT.mk (p.run.lift e)

namespace Proc

theorem lift_uses {e : S.Hom T} {P : T.Op → Prop} {p : Proc S α}
    (h : p.Uses fun o => P (e.op o)) : (p.lift e).Uses P := by
  induction p with
  | done a => trivial
  | ask o k ih => exact ⟨h.1, fun r => ih _ (h.2 _)⟩

/-- A program keeps its contract when what it does is noted the same way. -/
theorem lift_keeps {μ : Type} {e : S.Hom T} {note : μ → (o : T.Op) → T.Res o → μ}
    {note' : μ → (o : S.Op) → S.Res o → μ} {Q : μ → T.Op → Prop}
    (hnote : ∀ m o r, note m (e.op o) r = note' m o (e.res o r)) {p : Proc S α} {m : μ}
    {R : α → μ → Prop} (h : p.Keeps note' (fun m o => Q m (e.op o)) m R) :
    (p.lift e).Keeps note Q m R := by
  induction p generalizing m with
  | done a => exact h
  | ask o k ih =>
    refine ⟨h.1, fun r => ?_⟩
    rw [hnote m o r]
    exact ih _ (h.2 _)

end Proc

/-! ## Programs that follow programs -/

/-- What a deed of the finer program is to the coarser one. -/
inductive Meaning (S : Signature)
  /-- Nothing. -/
  | silent
  | op (d : Proc.Deed S)
  /-- From here on the thread is another one. -/
  | start (p : Proc S Unit)

/-- Where a deed brings a thread that is at `p`. -/
def Meaning.Leads (starts : Proc S Unit → Prop) (p : Proc S Unit) (K : Proc S Unit → Prop) :
    Meaning S → Prop
  | .silent => K p
  | .op d => ∃ k, p = .ask d.op k ∧ K (k d.res)
  | .start p' => starts p' ∧ K p'

theorem Meaning.Leads.mono {starts : Proc S Unit → Prop} {p : Proc S Unit}
    {K K' : Proc S Unit → Prop} {v : Meaning S} (h : v.Leads starts p K) (hK : ∀ p', K p' → K' p') :
    v.Leads starts p K' := by
  cases v with
  | silent => exact hK p h
  | op d =>
    obtain ⟨k, hp, hk⟩ := h
    exact ⟨k, hp, hK _ hk⟩
  | start p' => exact ⟨h.1, hK p' h.2⟩

namespace Proc
variable (meaning : Deed T → Meaning S) (starts : Proc S Unit → Prop)

/-- What `q` does is what `p` does next, and when `q` has finished it leaves of `p` what
`R` allows. -/
def Follows : Proc T α → Proc S Unit → (α → Proc S Unit → Prop) → Prop
  | .done a, p, R => R a p
  | .ask o k, p, R => ∀ r, (meaning ⟨o, r⟩).Leads starts p fun p' => (k r).Follows p' R

/-- `q` follows `p`, wherever it leaves it. -/
def Implements (q : Proc T α) (p : Proc S Unit) : Prop := q.Follows meaning starts p fun _ _ => True

variable {meaning starts}

theorem Follows.mono {q : Proc T α} {p : Proc S Unit} {R R' : α → Proc S Unit → Prop}
    (h : q.Follows meaning starts p R) (hR : ∀ a p', R a p' → R' a p') :
    q.Follows meaning starts p R' := by
  induction q generalizing p with
  | done a => exact hR a p h
  | ask o k ih => exact fun r => (h r).mono fun p' hp' => ih r hp'

/-- One part after another. -/
theorem follows_bind {q : Proc T α} {f : α → Proc T β} {p : Proc S Unit}
    {R : β → Proc S Unit → Prop}
    (h : q.Follows meaning starts p fun a p' => (f a).Follows meaning starts p' R) :
    (q >>= f).Follows meaning starts p R := by
  induction q generalizing p with
  | done a => exact h
  | ask o k ih => exact fun r => (h r).mono fun p' hp' => ih r hp'

/-- An operation, and what follows where it leads. -/
theorem follows_ask {o : T.Op} {f : T.Res o → Proc T β} {p : Proc S Unit}
    {R : β → Proc S Unit → Prop}
    (h : ∀ r, (meaning ⟨o, r⟩).Leads starts p fun p' => (f r).Follows meaning starts p' R) :
    (perform o >>= f).Follows meaning starts p R := h

/-- An operation that is nothing to the coarser program. -/
theorem follows_perform {o : T.Op} {p : Proc S Unit} {R : T.Res o → Proc S Unit → Prop}
    (hmean : ∀ r, meaning ⟨o, r⟩ = .silent) (h : ∀ r, R r p) :
    (perform o).Follows meaning starts p R := by
  intro r
  rw [hmean r]
  exact h r

/-- An operation from which on the thread is another one. -/
theorem follows_anew {o : T.Op} {p : Proc S Unit} {p' : T.Res o → Proc S Unit}
    {R : T.Res o → Proc S Unit → Prop} (hmean : ∀ r, meaning ⟨o, r⟩ = .start (p' r))
    (h : ∀ r, starts (p' r) ∧ R r (p' r)) : (perform o).Follows meaning starts p R := by
  intro r
  rw [hmean r]
  exact h r

/-- A program of operations that are nothing to the coarser one. -/
theorem follows_silent {q : Proc T α} {p : Proc S Unit}
    (h : q.Uses fun o => ∀ r, meaning ⟨o, r⟩ = .silent) :
    q.Follows meaning starts p fun _ p' => p' = p := by
  induction q with
  | done a => rfl
  | ask o k ih =>
    intro r
    rw [h.1 r]
    exact ih r (h.2 r)

section Lift
variable {e : S.Hom T} (hmean : ∀ o r, meaning ⟨e.op o, r⟩ = .op ⟨o, e.res o r⟩)
include hmean

/-- The coarser program itself, as far as it is the same. -/
theorem follows_lift (p : Proc S α) (f : α → Proc S Unit) :
    (p.lift e).Follows meaning starts (p >>= f) fun a p' => p' = f a := by
  induction p with
  | done a => rfl
  | ask o k ih =>
    intro r
    rw [hmean o r]
    exact ⟨fun r' => k r' >>= f, rfl, ih _⟩

/-- The same first part, and what follows it. -/
theorem follows_lift_bind {p : Proc S α} {q : α → Proc T β} {g : α → Proc S Unit}
    {R : β → Proc S Unit → Prop} (h : ∀ a, (q a).Follows meaning starts (g a) R) :
    (p.lift e >>= q).Follows meaning starts (p >>= g) R := by
  apply follows_bind
  refine (follows_lift hmean p g).mono fun a p' hp' => ?_
  rw [hp']
  exact h a

/-- The coarser program to its end. -/
theorem follows_lift_unit (p : Proc S Unit) :
    (p.lift e).Follows meaning starts p fun _ p' => p' = .done () := by
  have h : (p.lift e).Follows meaning starts (p >>= .done) fun a p' => p' = .done a :=
    follows_lift hmean p .done
  rwa [show p >>= .done = p from bind_done p] at h

end Lift
end Proc

/-! ## Programs that can fail -/

namespace Fallible
variable {meaning : Proc.Deed T → Meaning S} {starts : Proc S Unit → Prop} {ε : Type}
  {R : Except ε β → Proc S Unit → Prop}

/-- Sequencing: an error ends the sequence. -/
theorem follows_bind {q : Fallible T ε α} {f : α → Fallible T ε β} {p : Proc S Unit}
    (h : q.run.Follows meaning starts p fun
      | .ok a, p' => (f a).run.Follows meaning starts p' R
      | .error e, p' => R (.error e) p') : (q >>= f).run.Follows meaning starts p R := by
  rw [ExceptT.run_bind]
  apply Proc.follows_bind
  refine h.mono fun r p' hr => ?_
  cases r with
  | ok a => exact hr
  | error e => exact hr

variable {e : S.Hom T} (hmean : ∀ o r, meaning ⟨e.op o, r⟩ = .op ⟨o, e.res o r⟩)
include hmean

/-- The same first part, with the same error, and what follows it. -/
theorem follows_lift_bind {p : Fallible S ε α} {q : α → Fallible T ε β}
    {g : α → Fallible S ε β} {f : Except ε β → Proc S Unit}
    (h : ∀ a, (q a).run.Follows meaning starts ((g a).run >>= f) R)
    (herror : ∀ err, R (.error err) (f (.error err))) :
    (p.lift e >>= q).run.Follows meaning starts ((p >>= g).run >>= f) R := by
  rw [ExceptT.run_bind, ExceptT.run_bind, bind_assoc]
  refine Proc.follows_lift_bind hmean fun r => ?_
  cases r with
  | ok a => exact h a
  | error err => exact herror err

/-- The same first part, which does not fail. -/
theorem follows_liftM_bind {p : Proc S α} {q : α → Fallible T ε β} {g : α → Fallible S ε β}
    {f : Except ε β → Proc S Unit} (h : ∀ a, (q a).run.Follows meaning starts ((g a).run >>= f) R) :
    ((liftM (p.lift e) : Fallible T ε α) >>= q).run.Follows meaning starts
      (((liftM p : Fallible S ε α) >>= g).run >>= f) R := by
  have hrun : ((liftM (p.lift e) : Fallible T ε α) >>= q).run =
      p.lift e >>= fun a => (q a).run := by
    change ((p.lift e >>= fun a => Proc.done (Except.ok a)) >>= _) = _
    rw [bind_assoc]
    rfl
  have hrun' : ((liftM p : Fallible S ε α) >>= g).run >>= f = p >>= fun a => (g a).run >>= f := by
    change ((p >>= fun a => Proc.done (Except.ok a)) >>= _) >>= f = _
    rw [bind_assoc, bind_assoc]
    rfl
  rw [hrun, hrun']
  exact Proc.follows_lift_bind hmean h

end Fallible
end Companion.Lib
