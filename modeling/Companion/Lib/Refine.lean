import Companion.Lib.Follow
import Companion.Lib.Pool

/-!
# Pools that refine pools

When every thread of a pool follows one of a coarser pool, its runs are runs of the coarser
pool with deeds of no consequence in between.  A thread may stand for none at first, and for
one after another later, so which stands for which is part of the simulation.

## Main definitions

* `Refines` — a pool whose threads follow those of another.
* `Tracks` — which thread of the coarser pool a thread stands for.
* `Event.deed?`, `Event.shown` — what an event does, and what that is in the coarser pool.
* `Refines.run` — the run of the coarser pool that a run stands for.
-/

set_option autoImplicit false

namespace Companion.Lib

variable {S T : Signature} {σ τ : Type}

namespace Pool

/-- The coarser pool goes from `s` to `s'` by what a deed means. -/
def Performs (P : Pool S σ) (s s' : σ) : Meaning S → Prop
  | .op d => ∃ c, ∀ i, P.perform c i d.op s = some (d.res, s')
  | .silent | .start _ => s' = s

/-- The threads of `Q` do what threads of `P` do, to the state that `abs` makes of theirs. -/
structure Refines (P : Pool S σ) (Q : Pool T τ) (abs : τ → σ) (meaning : Proc.Deed T → Meaning S) :
    Prop where
  perform : ∀ c i o s r s', Q.perform c i o s = some (r, s') →
    P.Performs (abs s) (abs s') (meaning ⟨o, r⟩)
  drift : ∀ c s s', Q.drift c s = some s' → ∃ c', P.drift c' (abs s) = some (abs s')
  reset : ∀ s, abs (Q.reset s) = P.reset (abs s)
  boots : ∀ qs, Q.boots qs → ∃ ps, P.boots ps ∧ ∀ (i : ℕ) q, qs[i]? = some q →
    q.Implements meaning P.starts (ps[i]?.getD (.done ()))
  starts : ∀ q, Q.starts q → q.Implements meaning P.starts (.done ())

/-! ## The threads -/

section Tracks
variable {meaning : Proc.Deed T → Meaning S} {starts : Proc S Unit → Prop}

/-- Where the thread stands that thread `i` is taken for; one that is taken for none has
nothing left to do. -/
def counterpart (m : ℕ → Option ℕ) (ts : List (Proc S Unit)) (i : ℕ) : Option (Proc S Unit) :=
  match m i with
  | none => some (.done ())
  | some j => ts[j]?

/-- Every thread is taken for one of the coarser pool, no two for the same. -/
structure Tracks (meaning : Proc.Deed T → Meaning S) (starts : Proc S Unit → Prop)
    (m : ℕ → Option ℕ) (ts : List (Proc S Unit)) (us : List (Proc T Unit)) : Prop where
  follows : ∀ (i : ℕ) q, us[i]? = some q →
    ∃ p, counterpart m ts i = some p ∧ q.Implements meaning starts p
  inj : ∀ i i' j, m i = some j → m i' = some j → i = i'
  fresh : ∀ i, us.length ≤ i → m i = none

variable {m : ℕ → Option ℕ} {ts : List (Proc S Unit)} {us : List (Proc T Unit)} {i : ℕ}
  {q : Proc T Unit}

/-- After a move a thread is the one that moved, or as it was. -/
theorem getElem?_set_cases {α : Type} {l : List α} {i i' : ℕ} {a b : α}
    (h : (l.set i a)[i']? = some b) : (i' = i ∧ b = a) ∨ (i' ≠ i ∧ l[i']? = some b) := by
  by_cases heq : i' = i
  · subst heq
    have hlt := (List.getElem?_eq_some_iff.mp h).1
    rw [List.length_set] at hlt
    rw [List.getElem?_set_self hlt] at h
    exact Or.inl ⟨rfl, (Option.some.inj h).symm⟩
  · rw [List.getElem?_set_ne (Ne.symm heq)] at h
    exact Or.inr ⟨heq, h⟩

/-- The threads of a boot are taken for each other in order. -/
theorem tracks_boot (h : ∀ (i : ℕ) q, us[i]? = some q →
    q.Implements meaning starts (ts[i]?.getD (.done ()))) :
    Tracks meaning starts (fun i => if i < ts.length ∧ i < us.length then some i else none)
      ts us where
  follows i q hq := by
    have hlt := (List.getElem?_eq_some_iff.mp hq).1
    have himp := h i q hq
    by_cases hi : i < ts.length
    · rw [List.getElem?_eq_getElem hi] at himp
      exact ⟨ts[i], by simp [counterpart, hi, hlt], himp⟩
    · rw [List.getElem?_eq_none (Nat.le_of_not_lt hi)] at himp
      exact ⟨.done (), by simp [counterpart, hi], himp⟩
  inj i i' j hi hi' := by
    simp only [Option.ite_none_right_eq_some, Option.some.injEq] at hi hi'
    omega
  fresh i hi := if_neg fun h => absurd h.2 (Nat.not_lt_of_le hi)

/-- A thread is taken for one that there is. -/
theorem Tracks.lt (h : Tracks meaning starts m ts us) {j : ℕ} (hm : m i = some j) :
    j < ts.length := by
  by_cases hi : i < us.length
  · obtain ⟨p, hp, -⟩ := h.follows i us[i] (List.getElem?_eq_getElem hi)
    simp only [counterpart, hm] at hp
    exact (List.getElem?_eq_some_iff.mp hp).1
  · rw [h.fresh i (Nat.le_of_not_lt hi)] at hm
    cases hm

/-- A new thread is taken for none. -/
theorem Tracks.start (h : Tracks meaning starts m ts us)
    (hq : q.Implements meaning starts (.done ())) : Tracks meaning starts m ts (us ++ [q]) where
  follows i q' hi := by
    rw [List.getElem?_append] at hi
    split at hi
    · exact h.follows i q' hi
    · next hlt =>
      rw [List.mem_singleton.mp (List.mem_of_getElem? hi)]
      exact ⟨_, by rw [counterpart, h.fresh i (Nat.le_of_not_lt hlt)], hq⟩
  inj := h.inj
  fresh i hi := by
    rw [List.length_append] at hi
    exact h.fresh i (Nat.le_of_add_right_le hi)

/-- A thread has moved and stands for the same as before. -/
theorem Tracks.silent (h : Tracks meaning starts m ts us) {p : Proc S Unit}
    (hp : counterpart m ts i = some p) (hq : q.Implements meaning starts p) :
    Tracks meaning starts m ts (us.set i q) where
  follows i' q' hi := by
    obtain ⟨rfl, rfl⟩ | ⟨-, hi⟩ := getElem?_set_cases hi
    · exact ⟨p, hp, hq⟩
    · exact h.follows i' q' hi
  inj := h.inj
  fresh i' hi := h.fresh i' (by rwa [List.length_set] at hi)

/-- A thread has moved, and so has the one it stands for. -/
theorem Tracks.op (h : Tracks meaning starts m ts us) {p : Proc S Unit} {j : ℕ}
    (hm : m i = some j) (hq : q.Implements meaning starts p) :
    Tracks meaning starts m (ts.set j p) (us.set i q) where
  follows i' q' hi := by
    obtain ⟨rfl, rfl⟩ | ⟨hne, hi⟩ := getElem?_set_cases hi
    · exact ⟨p, by simp [counterpart, hm, h.lt hm], hq⟩
    · obtain ⟨p', hp', himp⟩ := h.follows i' q' hi
      refine ⟨p', ?_, himp⟩
      rw [counterpart] at hp' ⊢
      cases hm' : m i' with
      | none => simpa [hm'] using hp'
      | some j' =>
        have hjj : j ≠ j' := fun heq => hne (h.inj i' i j (heq ▸ hm') hm)
        simpa [hm', List.getElem?_set_ne hjj] using hp'
  inj := h.inj
  fresh i' hi := h.fresh i' (by rwa [List.length_set] at hi)

/-- A thread has moved and stands for a new one from here on. -/
theorem Tracks.anew (h : Tracks meaning starts m ts us) {p : Proc S Unit} (hi : i < us.length)
    (hq : q.Implements meaning starts p) :
    Tracks meaning starts (fun i' => if i' = i then some ts.length else m i') (ts ++ [p])
      (us.set i q) where
  follows i' q' hi' := by
    obtain ⟨rfl, rfl⟩ | ⟨hne, hi'⟩ := getElem?_set_cases hi'
    · exact ⟨p, by simp [counterpart], hq⟩
    · obtain ⟨p', hp', himp⟩ := h.follows i' q' hi'
      refine ⟨p', ?_, himp⟩
      rw [counterpart] at hp' ⊢
      rw [if_neg hne]
      cases hm' : m i' with
      | none => simpa [hm'] using hp'
      | some j' =>
        simp only [hm'] at hp'
        exact (List.getElem?_append_left (h.lt hm')).trans hp'
  inj a b j ha hb := by
    split at ha <;> split at hb
    · next haeq hbeq => exact haeq.trans hbeq.symm
    · have hlt := h.lt hb
      cases ha
      omega
    · have hlt := h.lt ha
      cases hb
      omega
    · exact h.inj a b j ha hb
  fresh i' hi' := by
    rw [List.length_set] at hi'
    rw [if_neg (by omega)]
    exact h.fresh i' hi'

end Tracks

/-! ## Runs -/

section Runs
variable {P : Pool S σ} {Q : Pool T τ} {abs : τ → σ} {meaning : Proc.Deed T → Meaning S}

/-- What an event does, and to which state. -/
def Event.deed? (e : Event S σ) : Option (σ × Proc.Deed S × σ) :=
  match e.label with
  | .act _ o r => some (e.pre, ⟨o, r⟩, e.post)
  | _ => none

/-- What an event of the finer pool does in the coarser one. -/
def Event.shown (abs : τ → σ) (meaning : Proc.Deed T → Meaning S) (e : Event T τ) :
    Option (σ × Proc.Deed S × σ) :=
  match e.label with
  | .act _ o r =>
    match meaning ⟨o, r⟩ with
    | .op d => some (abs e.pre, d, abs e.post)
    | _ => none
  | _ => none

/-- A run that a run of the finer pool stands for, up to here. -/
structure Shadow (P : Pool S σ) (abs : τ → σ) (meaning : Proc.Deed T → Meaning S) (c₀ : Config S σ)
    (hist : List (Event T τ)) (d : Config T τ) (past : List (Event S σ)) (c : Config S σ) :
    Prop where
  run : Run P c₀ past c
  shared : c.shared = abs d.shared
  tracks : ∃ m, Tracks meaning P.starts m c.threads d.threads
  deeds : past.filterMap Event.deed? = hist.filterMap (Event.shown abs meaning)

/-- A step of the finer pool is none of the coarser one, or one step of it. -/
theorem Shadow.step (h : Refines P Q abs meaning) {c₀ c : Config S σ} {hist : List (Event T τ)}
    {d d' : Config T τ} {past : List (Event S σ)} {l : Label T}
    (hs : Shadow P abs meaning c₀ hist d past c) (hstep : Step Q d l d') :
    ∃ past' c', Shadow P abs meaning c₀ (hist ++ [⟨d.shared, l, d'.shared⟩]) d' past' c' := by
  obtain ⟨run, hshared, ⟨m, htracks⟩, hdeeds⟩ := hs
  obtain ⟨s, ts⟩ := c
  cases hshared
  cases hstep with
  | @boot s' us qs hb =>
    obtain ⟨ps, hps, himp⟩ := h.boots qs hb
    refine ⟨_, _, run.snoc (.boot hps), (h.reset s').symm, ⟨_, tracks_boot himp⟩, ?_⟩
    rw [List.filterMap_append, List.filterMap_append, hdeeds]
    rfl
  | @start s' us q hq =>
    refine ⟨_, _, run, rfl, ⟨m, htracks.start (h.starts q hq)⟩, ?_⟩
    simp [List.filterMap_append, hdeeds, Event.shown]
  | @drift s' us s'' ch hd =>
    obtain ⟨ch', hd'⟩ := h.drift ch s' s'' hd
    refine ⟨_, _, run.snoc (.drift ch' hd'), rfl, ⟨m, htracks⟩, ?_⟩
    rw [List.filterMap_append, List.filterMap_append, hdeeds]
    rfl
  | @act s' us i o k r s'' ch hi hp =>
    obtain ⟨p, hp', himp⟩ := htracks.follows i _ hi
    have hperform := h.perform ch i o s' r s'' hp
    have himp := himp r
    cases hmean : meaning ⟨o, r⟩ with
    | silent =>
      rw [hmean] at hperform himp
      refine ⟨_, _, run, Eq.symm hperform, ⟨m, htracks.silent hp' himp⟩, ?_⟩
      simp [List.filterMap_append, hdeeds, Event.shown, hmean]
    | start p₁ =>
      rw [hmean] at hperform himp
      refine ⟨_, _, run.snoc (.start himp.1), Eq.symm hperform, ⟨_, htracks.anew
        (List.getElem?_eq_some_iff.mp hi).1 himp.2⟩, ?_⟩
      simp [List.filterMap_append, hdeeds, Event.deed?, Event.shown, hmean]
    | op e =>
      rw [hmean] at hperform himp
      obtain ⟨ch', hall⟩ := hperform
      obtain ⟨k', rfl, hnext⟩ := himp
      cases hm : m i with
      | none => simp [counterpart, hm] at hp'
      | some j =>
        simp only [counterpart, hm] at hp'
        refine ⟨_, _, run.snoc (.act ch' hp' (hall j)), rfl, ⟨m, htracks.op hm hnext⟩, ?_⟩
        simp [List.filterMap_append, hdeeds, Event.deed?, Event.shown, hmean]

/-- A run of the finer pool stands for a run of the coarser one, with the same deeds done to
the same states. -/
theorem Refines.run (h : Refines P Q abs meaning) {c₀ : Config S σ} {d₀ d : Config T τ}
    {hist : List (Event T τ)} (run : Run Q d₀ hist d) (h₀ : c₀.shared = abs d₀.shared)
    (ht : ∃ m, Tracks meaning P.starts m c₀.threads d₀.threads) :
    ∃ past c, Shadow P abs meaning c₀ hist d past c := by
  induction run with
  | nil => exact ⟨[], c₀, .nil, h₀, ht, rfl⟩
  | snoc _ hs ih =>
    obtain ⟨past, c, hshadow⟩ := ih
    exact hshadow.step h hs

end Runs
end Pool
end Companion.Lib
