import Companion.Lib.Pool

/-!
# Pools over an encoded state

Two pools run the same programs, one over an encoding of the other's state.  When every
operation of the one is the encoding of what it is in the other, the runs of the one are
the encodings of the runs of the other: nothing more can happen over the encoded state,
and nothing less.

## Main definitions

* `Represents` — operation by operation, the one pool is the encoding of the other.
* `Represents.run_iff` — so are its runs.
-/

set_option autoImplicit false

namespace Companion.Lib.Pool

variable {S : Signature} {σ τ : Type}

/-- The threads over the encoded state. -/
def Config.encode (enc : σ → τ) (c : Config S σ) : Config S τ := ⟨enc c.shared, c.threads⟩

/-- The step over the encoded state. -/
def Event.encode (enc : σ → τ) (e : Event S σ) : Event S τ := ⟨enc e.pre, e.label, enc e.post⟩

/-- `Q` does to the encoding of a state what `P` does to the state. -/
structure Represents (P : Pool S σ) (Q : Pool S τ) (enc : σ → τ) : Prop where
  perform : ∀ i o s r t, (∃ c, Q.perform c i o (enc s) = some (r, t)) ↔
    ∃ c s', P.perform c i o s = some (r, s') ∧ enc s' = t
  drift : ∀ s t, (∃ c, Q.drift c (enc s) = some t) ↔
    ∃ c s', P.drift c s = some s' ∧ enc s' = t
  reset : ∀ s, Q.reset (enc s) = enc (P.reset s)
  boots : ∀ ps, Q.boots ps ↔ P.boots ps
  starts : ∀ p, Q.starts p ↔ P.starts p

namespace Represents
variable {P : Pool S σ} {Q : Pool S τ} {enc : σ → τ} {c : Config S σ} {l : Label S}

/-- A step of the represented pool is one of the pool that represents it. -/
theorem encode_step (h : Represents P Q enc) {c' : Config S σ} (hs : Step P c l c') :
    Step Q (c.encode enc) l (c'.encode enc) := by
  cases hs with
  | @boot s ts ps hb =>
    have hstep := @Step.boot _ _ Q (enc s) ts ps ((h.boots ps).mpr hb)
    rw [h.reset] at hstep
    exact hstep
  | start hp => exact .start ((h.starts _).mpr hp)
  | act ch hi hp =>
    obtain ⟨ch', hq⟩ := (h.perform _ _ _ _ _).mpr ⟨ch, _, hp, rfl⟩
    exact .act ch' hi hq
  | drift ch hd =>
    obtain ⟨ch', hq⟩ := (h.drift _ _).mpr ⟨ch, _, hd, rfl⟩
    exact .drift ch' hq

/-- A step from an encoded state is the encoding of a step. -/
theorem decode_step (h : Represents P Q enc) {c₁ d : Config S τ} (hc : c₁ = c.encode enc)
    (hs : Step Q c₁ l d) : ∃ c', Step P c l c' ∧ c'.encode enc = d := by
  obtain ⟨s, ts⟩ := c
  cases hs with
  | boot hb =>
    cases hc
    exact ⟨_, .boot ((h.boots _).mp hb), by rw [h.reset]; rfl⟩
  | start hp =>
    cases hc
    exact ⟨_, .start ((h.starts _).mp hp), rfl⟩
  | act ch hi hq =>
    cases hc
    obtain ⟨ch', s', hp, rfl⟩ := (h.perform _ _ _ _ _).mp ⟨ch, hq⟩
    exact ⟨_, .act ch' hi hp, rfl⟩
  | drift ch hd =>
    cases hc
    obtain ⟨ch', s', hp, rfl⟩ := (h.drift _ _).mp ⟨ch, hd⟩
    exact ⟨_, .drift ch' hp, rfl⟩

/-- The runs from an encoded state are the encodings of the runs from the state. -/
theorem run_iff (h : Represents P Q enc) {hist : List (Event S τ)} {d : Config S τ} :
    Run Q (c.encode enc) hist d ↔
      ∃ past c', Run P c past c' ∧ past.map (Event.encode enc) = hist ∧ c'.encode enc = d := by
  constructor
  · intro run
    induction run with
    | nil => exact ⟨[], c, .nil, rfl, rfl⟩
    | snoc _ hs ih =>
      obtain ⟨past, c₁, run₁, rfl, rfl⟩ := ih
      obtain ⟨c₂, hs₂, rfl⟩ := h.decode_step rfl hs
      exact ⟨_, c₂, run₁.snoc hs₂, by simp [Event.encode, Config.encode], rfl⟩
  · rintro ⟨past, c', run, rfl, rfl⟩
    induction run with
    | nil => exact .nil
    | snoc _ hs ih =>
      rw [List.map_append]
      exact ih.snoc (h.encode_step hs)

end Represents
end Companion.Lib.Pool
