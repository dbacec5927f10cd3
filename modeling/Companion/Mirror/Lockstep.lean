import Companion.Mirror.Twins

/-!
# A chain and a part of it

A sync that makes only some of the observations another one makes.  The rows are sorted
by identifier: those that only the shared observations can match, and the others.  The
first kind goes through both syncs in lockstep; what the longer one does besides touches
only the second kind.

## Main definitions

* `Observed.rows` and `Observed.out`, from an observation that has completed.
* `Db.part` — the rows with certain identifiers.
* `Untouched` — what is still to be observed matches rows as they were at the start.
* `Lockstep` — the two syncs on their way.
* `Lockstep.observes` — they stay in lockstep.
-/

set_option autoImplicit false

namespace Companion
open Lib

/-! ## One observation -/

section Observation
variable {env : Env} {o : Observed} {now : ℤ} {h h' : Host} {moved : Bool}

/-- What a completed observation leaves. -/
theorem exec_mirror_rows (hok : exec env (o.mirror now) h = (.ok moved, h')) :
    h'.db.transfers.rows = o.rows h.nextUuid now h.db ∧
      ∀ id, h'.db.transferEvents id = h.db.transferEvents id ++ o.out h.db id := by
  obtain ⟨row, h₁, hp, -⟩ := exec_mirror_ok_iff.mp hok
  -- every observation is one of a listed transfer
  let t : RlnTransfer := ⟨o.rlnIdx, o.status, o.kind, o.recipientId, o.txid, o.expirationTimestamp⟩
  have hfit : FitsColumn t.expirationTimestamp := (upserts_of_perform hp).fits
  have hm : h.db.Mirrorable (t.observed o.assetId) := mirrorable_of_perform hp
  obtain ⟨moved', h₂, hok', hrows, hevents, -⟩ := exec_mirrorTransfer env hfit now hm
  have hsame : exec env (o.mirror now) h = (.ok moved', h₂) := hok'
  cases hok.symm.trans hsame
  exact ⟨hrows, hevents⟩

theorem bare_onto (o : Observed) (now now' : ℤ) {r r' : Transfer} (h : r.bare = r'.bare) :
    (o.onto now r).bare = (o.onto now' r').bare :=
  bare_view.apply _ _ _ _ _ (bare_view.merge o now now' r r' h)

end Observation

/-! ## The rows of a part -/

/-- The rows whose identifiers are in `S`. -/
def Db.part (db : Db) (S : ℕ → Bool) : List Transfer := db.transfers.rows.filter fun r => S r.id

section Part
variable {S : ℕ → Bool} {o : Observed} {id : ℕ} {now : ℤ} {db db' : Db}

/-- An observation of a row outside the part, or of a new row. -/
theorem part_outside (hnew : S id = false)
    (hout : ∀ r, db.findObserved o = some r → S r.id = false) :
    (o.rows id now db).filter (fun r => S r.id) = db.part S := by
  unfold Observed.rows Db.part
  cases hf : db.findObserved o with
  | none => simp [Observed.row, hnew]
  | some r =>
    simp only
    rw [Table.filter_replace_key (id_onto o now), Table.replace_of_ne]
    intro a ha hid
    have hin : S a.id = true := (List.mem_filter.mp ha).2
    rw [hid, hout r hf] at hin
    cases hin

/-- And its events are of no row in the part. -/
theorem out_outside (hout : ∀ r, db.findObserved o = some r → S r.id = false) {i : ℕ}
    (hi : S i = true) : o.out db i = [] := by
  unfold Observed.out
  cases hf : db.findObserved o with
  | none => rfl
  | some r =>
    have hne : i ≠ r.id := by
      intro heq
      simp [heq, hout r hf] at hi
    simp [hne]

/-- Where all matches are in the part, it decides the match. -/
theorem find_part (hin : ∀ r ∈ db.transfers.rows, Db.matchesObserved o r = true → S r.id = true) :
    db.findObserved o = ((db.part S).filter (Db.matchesObserved o)).argmin (Db.matchRank o) := by
  unfold Db.findObserved Db.part
  congr 1
  rw [List.filter_filter]
  refine List.filter_congr fun r hr => ?_
  cases hm : Db.matchesObserved o r with
  | false => simp
  | true => simp [hin r hr hm]

/-- What is matched in the part alike is observed alike. -/
theorem part_inside {id' : ℕ} {now' : ℤ} (hpart : Alike Transfer.bare (db.part S) (db'.part S))
    (hin : ∀ r ∈ db.transfers.rows, Db.matchesObserved o r = true → S r.id = true)
    (hin' : ∀ r ∈ db'.transfers.rows, Db.matchesObserved o r = true → S r.id = true)
    (hnew : S id = false) (hnew' : S id' = false) :
    Alike Transfer.bare ((o.rows id now db).filter fun r => S r.id)
        ((o.rows id' now' db').filter fun r => S r.id) ∧
      ∀ i, o.out db' i = o.out db i := by
  have hfind : (db.findObserved o).map Transfer.bare = (db'.findObserved o).map Transfer.bare := by
    rw [find_part hin, find_part hin']
    exact bare_view.find hpart o
  cases hf : db.findObserved o with
  | none =>
    have hf' : db'.findObserved o = none := by simpa [hf, eq_comm] using hfind
    refine ⟨?_, ?_⟩
    · rw [part_outside hnew (by simp [hf]), part_outside hnew' (by simp [hf'])]
      exact hpart
    · simp [Observed.out, hf, hf']
  | some r =>
    obtain ⟨r', hf', hbare⟩ : ∃ r', db'.findObserved o = some r' ∧ r'.bare = r.bare := by
      simpa [hf, eq_comm] using hfind
    have hid : r'.bare.id = r.bare.id := by rw [hbare]
    have hstatus : r'.bare.status = r.bare.status := by rw [hbare]
    replace hid : r'.id = r.id := hid
    replace hstatus : r'.status = r.status := hstatus
    refine ⟨?_, ?_⟩
    · simp only [Observed.rows, hf, hf']
      rw [Table.filter_replace_key (id_onto o now), Table.filter_replace_key (id_onto o now')]
      exact bare_view.replace hpart (fun a ha => (List.mem_filter.mp ha).1)
        (fun a ha => (List.mem_filter.mp ha).1) (Db.findObserved_some hf).1
        (Db.findObserved_some hf').1 hbare.symm fun a a' haa => bare_onto o now now' haa
    · simp [Observed.out, hf, hf', hid, hstatus]

end Part

/-! ## Lockstep -/

/-- What is still to be observed matches only rows as they were at the start. -/
def Untouched (rows₀ : List Transfer) (todo : List Observed) (db : Db) : Prop :=
  ∀ r ∈ db.transfers.rows, ∀ o ∈ todo, Db.matchesObserved o r = true → r ∈ rows₀

theorem Untouched.step {rows₀ : List Transfer} {o : Observed} {os : List Observed} {db db' : Db}
    {id : ℕ} {now : ℤ} (hf : Untouched rows₀ (o :: os) db)
    (hrows : db'.transfers.rows = o.rows id now db) (hother : ∀ q ∈ os, q.rlnIdx ≠ o.rlnIdx) :
    Untouched rows₀ os db' := by
  intro r hr q hq hm
  rw [hrows] at hr
  rcases mem_rows hr with hbound | hold
  · -- a row that has just been bound matches no other index
    exact absurd (Db.index_of_matches hm hbound).symm (hother q hq)
  · exact hf r hold q (List.mem_cons_of_mem _ hq) hm

/-- A sync with `todo` before it, and one with the part `pend` of it: they agree on the
rows in `S`. -/
structure Lockstep (S : ℕ → Bool) (rows₀ : List Transfer) (pend : Observed → Bool)
    (todo : List Observed) (db db' : Db) : Prop where
  part : Alike Transfer.bare (db.part S) (db'.part S)
  events : ∀ i, S i = true → db'.transferEvents i = db.transferEvents i
  fresh : Untouched rows₀ todo db
  fresh' : Untouched rows₀ (todo.filter pend) db'
  known : ∀ i, S i = true → i ∈ db.transfers.rows.map Transfer.id
  known' : ∀ i, S i = true → i ∈ db'.transfers.rows.map Transfer.id

section Lockstep
variable {S : ℕ → Bool} {rows₀ : List Transfer} {pend : Observed → Bool} {env : Env}
  {o : Observed} {os : List Observed} {now now' : ℤ} {h h₁ g g₁ : Host} {moved moved' : Bool}

/-- A new identifier is in no part. -/
theorem nextUuid_outside (hknown : ∀ i, S i = true → i ∈ h.db.transfers.rows.map Transfer.id) :
    S h.nextUuid = false := by
  by_contra hS
  obtain ⟨r, hr, hid⟩ := List.mem_map.mp (hknown h.nextUuid (by simpa using hS))
  have hlt := Host.transfer_lt_nextUuid hr
  omega

theorem known_mirror (hok : exec env (o.mirror now) h = (.ok moved, h₁))
    (hknown : ∀ i, S i = true → i ∈ h.db.transfers.rows.map Transfer.id) :
    ∀ i, S i = true → i ∈ h₁.db.transfers.rows.map Transfer.id :=
  fun i hi => (extends_mirror hok).ids.subset (hknown i hi)

/-- An observation both make. -/
theorem Lockstep.both (hl : Lockstep S rows₀ pend (o :: os) h.db g.db) (hpend : pend o = true)
    (hsort : ∀ r ∈ rows₀, Db.matchesObserved o r = true → S r.id = pend o)
    (hother : ∀ q ∈ os, q.rlnIdx ≠ o.rlnIdx)
    (hok : exec env (o.mirror now) h = (.ok moved, h₁))
    (hok' : exec env (o.mirror now') g = (.ok moved', g₁)) :
    Lockstep S rows₀ pend os h₁.db g₁.db := by
  obtain ⟨hrows, hevents⟩ := exec_mirror_rows hok
  obtain ⟨hrows', hevents'⟩ := exec_mirror_rows hok'
  have hfresh' : Untouched rows₀ (o :: os.filter pend) g.db := by
    have hf := hl.fresh'
    rwa [List.filter_cons_of_pos hpend] at hf
  have hin : ∀ r ∈ h.db.transfers.rows, Db.matchesObserved o r = true → S r.id = true :=
    fun r hr hm => (hsort r (hl.fresh r hr o (List.mem_cons_self ..) hm) hm).trans hpend
  have hin' : ∀ r ∈ g.db.transfers.rows, Db.matchesObserved o r = true → S r.id = true :=
    fun r hr hm => (hsort r (hfresh' r hr o (List.mem_cons_self ..) hm) hm).trans hpend
  obtain ⟨hpart, hout⟩ := @part_inside S o h.nextUuid now h.db g.db g.nextUuid now' hl.part hin
    hin' (nextUuid_outside hl.known) (nextUuid_outside hl.known')
  refine ⟨?_, fun i hi => ?_, hl.fresh.step hrows hother, hfresh'.step hrows' fun q hq =>
    hother q (List.mem_filter.mp hq).1, known_mirror hok hl.known, known_mirror hok' hl.known'⟩
  · rw [Db.part, Db.part, hrows, hrows']
    exact hpart
  · rw [hevents, hevents', hl.events i hi, hout]

/-- An observation only the first makes. -/
theorem Lockstep.alone (hl : Lockstep S rows₀ pend (o :: os) h.db g.db) (hpend : pend o = false)
    (hsort : ∀ r ∈ rows₀, Db.matchesObserved o r = true → S r.id = pend o)
    (hother : ∀ q ∈ os, q.rlnIdx ≠ o.rlnIdx)
    (hok : exec env (o.mirror now) h = (.ok moved, h₁)) :
    Lockstep S rows₀ pend os h₁.db g.db := by
  obtain ⟨hrows, hevents⟩ := exec_mirror_rows hok
  have hout : ∀ r, h.db.findObserved o = some r → S r.id = false := by
    intro r hr
    obtain ⟨hmem, hm, -⟩ := Db.findObserved_some hr
    exact (hsort r (hl.fresh r hmem o (List.mem_cons_self ..) hm) hm).trans hpend
  have hfresh' := hl.fresh'
  rw [List.filter_cons_of_neg (by simp [hpend])] at hfresh'
  refine ⟨?_, fun i hi => ?_, hl.fresh.step hrows hother, hfresh', known_mirror hok hl.known,
    hl.known'⟩
  · rw [Db.part, hrows, part_outside (nextUuid_outside hl.known) hout]
    exact hl.part
  · rw [hevents, out_outside hout hi, List.append_nil]
    exact hl.events i hi

/-- Two chains, one of them a part of the other, stay in lockstep. -/
theorem Lockstep.observes {m m' : ℕ} {h' g' : Host} (hs : Observes env now os m h h')
    (hs' : Observes env now' (os.filter pend) m' g g')
    (hsort : ∀ r ∈ rows₀, ∀ o ∈ os, Db.matchesObserved o r = true → S r.id = pend o)
    (hnodup : (os.map Observed.rlnIdx).Nodup) (hl : Lockstep S rows₀ pend os h.db g.db) :
    Lockstep S rows₀ pend [] h'.db g'.db := by
  induction hs generalizing g m' with
  | nil =>
    cases hs'
    exact hl
  | @cons o os _ _ _ _ _ hok _ ih =>
    obtain ⟨hhead, hrest⟩ := List.nodup_cons.mp hnodup
    have hother : ∀ q ∈ os, q.rlnIdx ≠ o.rlnIdx := fun q hq heq =>
      hhead (heq ▸ List.mem_map_of_mem hq)
    have hsort₁ : ∀ r ∈ rows₀, Db.matchesObserved o r = true → S r.id = pend o :=
      fun r hr => hsort r hr o (List.mem_cons_self ..)
    have hsort₂ : ∀ r ∈ rows₀, ∀ q ∈ os, Db.matchesObserved q r = true → S r.id = pend q :=
      fun r hr q hq => hsort r hr q (List.mem_cons_of_mem _ hq)
    cases hpend : pend o with
    | true =>
      rw [List.filter_cons_of_pos hpend] at hs'
      cases hs' with
      | cons hok' hs' => exact ih hs' hsort₂ hrest (hl.both hpend hsort₁ hother hok hok')
    | false =>
      rw [List.filter_cons_of_neg (by simp [hpend])] at hs'
      exact ih hs' hsort₂ hrest (hl.alone hpend hsort₁ hother hok)

end Lockstep
end Companion
