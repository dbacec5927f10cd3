import Companion.Mirror.Twins

/-!
# Repeating a sync

A sync that has been interrupted is repeated from the start, so it first repeats what
the interrupted one had done.  That changes nothing but timestamps: every observation
already made finds the row it is bound to, the status it saw cannot move the row any
more, and what it says of the row is what the row says, or was overwritten by a later
observation that is repeated as well.

## Main definitions

* `Learnt`, `gist` — what observations say of a transfer, and what a list of them does.
* `Absorbed` — a mirror that has taken observations in.
* `mirrors_replay` — repeating them.
-/

set_option autoImplicit false

namespace Companion
open Lib

/-! ## What is learnt -/

/-- The columns an observation writes. -/
@[ext] structure Learnt where
  assetId : Option String
  kind : Option String
  txid : Option String
  expirationTimestamp : Option ℕ
  seen : Option Unit

namespace Learnt

/-- Nothing has been said. -/
def none : Learnt := ⟨.none, .none, .none, .none, .none⟩

/-- What has been said later, atop what was said before. -/
def atop (a b : Learnt) : Learnt where
  assetId := a.assetId.or b.assetId
  kind := a.kind.or b.kind
  txid := a.txid.or b.txid
  expirationTimestamp := a.expirationTimestamp.or b.expirationTimestamp
  seen := a.seen.or b.seen

variable (a b c : Learnt)

@[simp] theorem none_atop : none.atop a = a := rfl

@[simp] theorem atop_none : a.atop none = a := by simp [atop, none]

theorem atop_assoc : (a.atop b).atop c = a.atop (b.atop c) := by simp [atop, Option.or_assoc]

@[simp] theorem atop_self : a.atop a = a := by simp [atop]

variable {b c}

/-- What has been taken in below is taken in again. -/
theorem atop_of_absorbed (h : b.atop c = c) : a.atop (b.atop (a.atop c)) = a.atop c := by
  have hcolumn : ∀ {α : Type} (x y z : Option α), y.or z = z → x.or (y.or (x.or z)) = x.or z := by
    intro α x y z hyz
    cases x <;> simp [hyz]
  have h' := Learnt.ext_iff.mp h
  simp only [atop] at h' ⊢
  rw [Learnt.ext_iff]
  exact ⟨hcolumn _ _ _ h'.1, hcolumn _ _ _ h'.2.1, hcolumn _ _ _ h'.2.2.1,
    hcolumn _ _ _ h'.2.2.2.1, hcolumn _ _ _ h'.2.2.2.2⟩

end Learnt

/-- What an observation says. -/
def Observed.learnt (o : Observed) : Learnt :=
  ⟨o.assetId, some o.kind, o.txid, o.expirationTimestamp, some ()⟩

/-- What a row says. -/
def Transfer.learnt (r : Transfer) : Learnt :=
  ⟨r.assetId, r.kind, r.txid, r.expirationTimestamp, r.lastSeenAt.map fun _ => ()⟩

theorem learnt_merge (o : Observed) (now : ℤ) (r : Transfer) :
    (o.merge now r).learnt = o.learnt.atop r.learnt := rfl

theorem learnt_row (o : Observed) (id : ℕ) (now : ℤ) : (o.row id now).learnt = o.learnt := rfl

@[simp] theorem learnt_apply (s : TransferStatus) (now : ℤ) (r : Transfer) :
    (r.apply s now).learnt = r.learnt := by
  unfold Transfer.apply
  split <;> rfl

/-- What a list of observations says of the transfer with an index. -/
def gist (os : List Observed) (idx : ℤ) : Learnt :=
  os.foldl (fun l o => if o.rlnIdx = idx then o.learnt.atop l else l) .none

theorem gist_concat (os : List Observed) (o : Observed) (idx : ℤ) :
    gist (os ++ [o]) idx = if o.rlnIdx = idx then o.learnt.atop (gist os idx) else gist os idx := by
  simp [gist]

/-- Nothing is said of a transfer that has not been observed. -/
theorem gist_eq_none {os : List Observed} {idx : ℤ} (h : ∀ o ∈ os, o.rlnIdx ≠ idx) :
    gist os idx = .none := by
  induction os using List.reverseRecOn with
  | nil => rfl
  | append_singleton os o ih =>
    rw [gist_concat, if_neg (h o (by simp))]
    exact ih fun o' ho' => h o' (List.mem_append_left _ ho')

/-! ## Repeating what is bound -/

/-- A row after the observations of it have been merged into it once more. -/
def Transfer.relearn (now : ℤ) (os : List Observed) (r : Transfer) : Transfer :=
  os.foldl (fun r o => if r.rlnIdx = some o.rlnIdx then o.merge now r else r) r

section Relearn
variable {now : ℤ} {os : List Observed} {o : Observed} {r : Transfer}

theorem relearn_concat : r.relearn now (os ++ [o]) =
    if (r.relearn now os).rlnIdx = some o.rlnIdx then o.merge now (r.relearn now os)
    else r.relearn now os := by
  rw [Transfer.relearn, List.foldl_append]
  rfl

/-- A row apart from what observations write. -/
def Transfer.rest (r : Transfer) : Transfer :=
  { r with
    assetId := none
    kind := none
    txid := none
    expirationTimestamp := none
    lastSeenAt := none }

theorem rest_relearn : (r.relearn now os).rest = r.rest := by
  induction os using List.reverseRecOn with
  | nil => rfl
  | append_singleton os o ih =>
    rw [relearn_concat]
    split
    · next hidx =>
      have hmerge : (o.merge now (r.relearn now os)).rest = (r.relearn now os).rest := by
        simp [Observed.merge, Transfer.rest, hidx]
      rw [hmerge, ih]
    · exact ih

@[simp] theorem rlnIdx_relearn : (r.relearn now os).rlnIdx = r.rlnIdx := by
  have h := congrArg Transfer.rlnIdx (@rest_relearn now os r)
  exact h

theorem learnt_relearn {idx : ℤ} (hidx : r.rlnIdx = some idx) :
    (r.relearn now os).learnt = (gist os idx).atop r.learnt := by
  induction os using List.reverseRecOn with
  | nil => rfl
  | append_singleton os o ih =>
    rw [relearn_concat, gist_concat, rlnIdx_relearn, hidx]
    by_cases ho : o.rlnIdx = idx
    · rw [if_pos (by rw [ho]), if_pos ho, learnt_merge, ih, Learnt.atop_assoc]
    · rw [if_neg fun heq => ho (Option.some.inj heq).symm, if_neg ho, ih]

/-- What is written and the rest make the row, up to timestamps. -/
theorem bare_eq_of_learnt {r r' : Transfer} (hrest : r.rest = r'.rest)
    (hlearnt : r.learnt = r'.learnt) : r.bare = r'.bare := by
  obtain ⟨hasset, hkind, htxid, hexp, hseen⟩ := Learnt.ext_iff.mp hlearnt
  replace hseen : r.lastSeenAt.map (fun _ => ()) = r'.lastSeenAt.map (fun _ => ()) := hseen
  have hlast : (r.lastSeenAt.map fun _ => (0 : ℤ)) = r'.lastSeenAt.map fun _ => 0 := by
    cases hr : r.lastSeenAt <;> cases hr' : r'.lastSeenAt <;> simp_all
  simp only [Transfer.rest, Transfer.mk.injEq] at hrest
  simp only [Transfer.learnt] at hasset hkind htxid hexp
  simp [Transfer.bare, hrest, hasset, hkind, htxid, hexp, hlast]

/-- A row that has taken the observations in keeps what it says. -/
theorem bare_relearn (h : ∀ idx, r.rlnIdx = some idx → (gist os idx).atop r.learnt = r.learnt) :
    (r.relearn now os).bare = r.bare := by
  cases hr : r.rlnIdx with
  | some idx =>
    refine bare_eq_of_learnt rest_relearn ?_
    rw [learnt_relearn hr, h idx hr]
  | none =>
    have hkeep : r.relearn now os = r := by
      induction os using List.reverseRecOn with
      | nil => rfl
      | append_singleton os o ih =>
        have hos := ih fun idx hidx => by simp [hr] at hidx
        rw [relearn_concat, hos, if_neg (by simp [hr])]
    rw [hkeep]

end Relearn

/-! ## A mirror that has taken observations in -/

/-- What a bound row says is what the observations say of it, where they say anything. -/
def Said (os : List Observed) (db : Db) : Prop :=
  ∀ r ∈ db.transfers.rows, ∀ idx, r.rlnIdx = some idx → (gist os idx).atop r.learnt = r.learnt

/-- Every observation has its row, and would not move it. -/
def Reached (os : List Observed) (db : Db) : Prop :=
  ∀ o ∈ os, FitsColumn o.expirationTimestamp ∧
    ∃ r ∈ db.transfers.rows, r.rlnIdx = some o.rlnIdx ∧ ¬ TransferMove r.status o.status

/-- The observations have been taken in. -/
structure Absorbed (os : List Observed) (db : Db) : Prop where
  said : Said os db
  reached : Reached os db

/-- A status that cannot move a row will never move it again. -/
theorem not_transferMove_next {s t : TransferStatus} (h : ¬ TransferMove s t) (u : TransferStatus) :
    ¬ TransferMove (s.next u) t := by
  unfold TransferStatus.next
  split
  · next hmove =>
    intro hmove'
    exact h ⟨hmove.1, hmove.2.trans hmove'.2⟩
  · exact h

/-- A status that has been applied cannot move the row. -/
theorem not_transferMove_applied (s t : TransferStatus) : ¬ TransferMove (s.next t) t := by
  unfold TransferStatus.next
  split
  · exact not_transferMove_self t
  · next h => exact h

section Absorbed
variable {env : Env} {os : List Observed} {o : Observed} {now : ℤ} {h h₁ h' : Host}
  {db db' : Db} {row : Transfer}

/-- A bound row is still there after an upsert, with its index and its status. -/
theorem Observed.Upserts.bound_row (hu : o.Upserts now db db' row) {b : Transfer} {idx : ℤ}
    (hb : b ∈ db.transfers.rows) (hidx : b.rlnIdx = some idx) :
    ∃ b' ∈ db'.transfers.rows, b'.rlnIdx = some idx ∧ b'.status = b.status := by
  obtain ⟨id, hrows⟩ := hu.rows
  rw [hrows, Observed.upserted]
  cases hf : db.findObserved o with
  | none => exact ⟨b, List.mem_append_left _ hb, hidx, rfl⟩
  | some r =>
    by_cases hbr : b.id = r.id
    · obtain ⟨hr, hmatch, -⟩ := Db.findObserved_some hf
      have hsame : b = r := db.transfers.eq_of_clash hb hr (Transfer.clash_of_id hbr)
      have hobs : idx = o.rlnIdx := Db.index_of_matches hmatch (hsame ▸ hidx)
      exact ⟨o.merge now b, Table.mem_replace.mpr (Or.inl ⟨b, hb, hbr, rfl⟩),
        congrArg some hobs.symm, rfl⟩
    · exact ⟨b, Table.mem_replace.mpr (Or.inr ⟨hb, hbr⟩), hidx, rfl⟩

theorem Reached.upsert (hr : Reached os db) (hu : o.Upserts now db db' row) : Reached os db' := by
  intro q hq
  obtain ⟨hfit, b, hb, hidx, hmove⟩ := hr q hq
  obtain ⟨b', hb', hidx', hstatus⟩ := hu.bound_row hb hidx
  exact ⟨hfit, b', hb', hidx', hstatus ▸ hmove⟩

/-- Where no row is bound to an index, nothing has been said of it. -/
theorem Reached.gist_eq_none (hr : Reached os db) {idx : ℤ}
    (hno : ∀ r ∈ db.transfers.rows, r.rlnIdx ≠ some idx) : gist os idx = .none := by
  refine Companion.gist_eq_none fun q hq heq => ?_
  obtain ⟨-, b, hb, hidx, -⟩ := hr q hq
  exact hno b hb (heq ▸ hidx)

/-- An upsert adds what it says. -/
theorem Absorbed.said_upsert (ha : Absorbed os db) (hu : o.Upserts now db db' row) :
    Said (os ++ [o]) db' := by
  obtain ⟨id, hrows⟩ := hu.rows
  intro r hr idx hidx
  rw [gist_concat]
  rw [hrows, Observed.upserted] at hr
  cases hf : db.findObserved o with
  | none =>
    -- no row matches, so none is bound to the index
    have hno : ∀ a ∈ db.transfers.rows, a.rlnIdx ≠ some o.rlnIdx := fun a ha' haidx => by
      simp [Db.findObserved_of_bound ha' haidx] at hf
    rw [hf] at hr
    rcases List.mem_append.mp hr with hr | hr
    · have hother : o.rlnIdx ≠ idx := fun heq => hno r hr (heq ▸ hidx)
      rw [if_neg hother]
      exact ha.said r hr idx hidx
    · rw [List.mem_singleton.mp hr] at hidx ⊢
      have ho : o.rlnIdx = idx := Option.some.inj hidx
      rw [if_pos ho, ← ho, ha.reached.gist_eq_none hno, learnt_row]
      simp
  | some a =>
    obtain ⟨ha', hmatch, -⟩ := Db.findObserved_some hf
    rw [hf] at hr
    rcases Table.mem_replace.mp hr with ⟨c, hc, hid, rfl⟩ | ⟨hr, hid⟩
    · have hsame : c = a := db.transfers.eq_of_clash hc ha' (Transfer.clash_of_id hid)
      have ho : o.rlnIdx = idx := Option.some.inj hidx
      subst ho hsame
      rw [if_pos rfl, learnt_merge, Learnt.atop_assoc]
      refine Learnt.atop_of_absorbed _ ?_
      rcases Db.rlnIdx_of_matches hmatch with hbound | hnone
      · exact ha.said c hc o.rlnIdx hbound
      · -- the best match is not bound, so no row is
        rw [ha.reached.gist_eq_none (Db.unbound_of_found hf hnone), Learnt.none_atop]
    · have hother : o.rlnIdx ≠ idx := by
        intro heq
        exact hid (by rw [Db.eq_of_found hf hr (heq ▸ hidx)])
      rw [if_neg hother]
      exact ha.said r hr idx hidx

theorem rlnIdx_applied (idx : ℤ) (s : TransferStatus) (now : ℤ) (r : Transfer) :
    (r.applied idx s now).rlnIdx = r.rlnIdx := by
  unfold Transfer.applied Transfer.apply
  split
  · split <;> rfl
  · rfl

theorem learnt_applied (idx : ℤ) (s : TransferStatus) (now : ℤ) (r : Transfer) :
    (r.applied idx s now).learnt = r.learnt := by
  unfold Transfer.applied
  split
  · simp
  · rfl

/-- Applying a status changes nothing that is said. -/
theorem Said.applied {idx : ℤ} {s : TransferStatus} (hs : Said os db)
    (ha : Applies row idx s now db db') : Said os db' := by
  intro r hr i hi
  rw [ha.rows] at hr
  obtain ⟨a, ha', rfl⟩ := List.mem_map.mp hr
  rw [rlnIdx_applied] at hi
  rw [learnt_applied]
  exact hs a ha' i hi

/-- And lets no observation move its row that could not before. -/
theorem Reached.applied {idx : ℤ} {s : TransferStatus} (hr : Reached os db)
    (ha : Applies row idx s now db db') : Reached os db' := by
  intro q hq
  obtain ⟨hfit, b, hb, hidx, hmove⟩ := hr q hq
  refine ⟨hfit, b.applied idx s now, ?_, ?_, ?_⟩
  · rw [ha.rows]
    exact List.mem_map_of_mem hb
  · rw [rlnIdx_applied, hidx]
  · unfold Transfer.applied
    split
    · rw [Transfer.status_apply]
      exact not_transferMove_next hmove s
    · exact hmove

/-- One more observation is taken in. -/
theorem Absorbed.mirror (ha : Absorbed os h.db) {moved : Bool}
    (hok : exec env (o.mirror now) h = (.ok moved, h')) : Absorbed (os ++ [o]) h'.db := by
  obtain ⟨row, h₁, hp, happly⟩ := exec_mirror_ok_iff.mp hok
  have hu := upserts_of_perform hp
  obtain ⟨h₂, hok₂, happlied⟩ := exec_applyObserved_bound env hu.mem hu.bound o.status now
  cases happly.symm.trans hok₂
  refine ⟨(ha.said_upsert hu).applied happlied, fun q hq => ?_⟩
  rcases List.mem_append.mp hq with hq | hq
  · exact (ha.reached.upsert hu).applied happlied q hq
  · rw [List.mem_singleton.mp hq]
    refine ⟨hu.fits, row.applied o.rlnIdx o.status now, ?_, ?_, ?_⟩
    · rw [happlied.rows]
      exact List.mem_map_of_mem hu.mem
    · rw [rlnIdx_applied, hu.bound]
    · rw [Transfer.applied, if_pos hu.bound, Transfer.status_apply]
      exact not_transferMove_applied row.status o.status

/-- A chain is taken in. -/
theorem Absorbed.mirrors {done : List Observed} {m : ℕ} (hs : Observes env now os m h h')
    (ha : Absorbed done h.db) : Absorbed (done ++ os) h'.db := by
  induction hs generalizing done with
  | nil => simpa using ha
  | @cons o os _ _ _ _ _ hok _ ih =>
    have hrest := ih (ha.mirror hok)
    rwa [List.append_assoc, List.singleton_append] at hrest

theorem absorbed_nil (db : Db) : Absorbed [] db := ⟨fun _ _ _ _ => rfl, by simp [Reached]⟩

/-! ## Repeating -/

/-- A status that cannot move its row is not applied. -/
theorem applyObserved_still {s : TransferStatus} (hmove : ¬ TransferMove row.status s) :
    applyObserved row s now = pure false := by
  rw [applyObserved, planTransition_eq, if_neg hmove]

/-- An upsert of what is already bound. -/
theorem upsert_bound (hfit : FitsColumn o.expirationTimestamp) {b : Transfer}
    (hb : b ∈ h.db.transfers.rows) (hidx : b.rlnIdx = some o.rlnIdx) (now : ℤ) :
    ∃ (row : Transfer) (h' : Host), (StoreOp.upsertObserved o now).perform h = (.ok row, h') ∧
      row.status = b.status ∧
      h'.db.transfers.rows = h.db.transfers.rows.map (Transfer.relearn now [o]) := by
  have hfind := Db.findObserved_of_bound hb hidx
  have hm : h.db.Mirrorable o := Or.inl ⟨b, hb, (Db.findObserved_some hfind).2.1⟩
  obtain ⟨row, h', hp⟩ := perform_upsert h hfit hm now
  have hu := upserts_of_perform hp
  obtain ⟨b', hb', hidx', hstatus⟩ := hu.bound_row hb hidx
  have hsame : row = b' := eq_of_bound hu.mem hb' hu.bound hidx'
  refine ⟨row, h', hp, hsame ▸ hstatus, ?_⟩
  obtain ⟨id, hrows⟩ := hu.rows
  rw [hrows, Observed.upserted, hfind]
  exact replace_bound hb hidx _

/-- Observations that have been taken in are repeated without a move or an event. -/
theorem mirrors_replay (hr : Reached os h.db) (now : ℤ) :
    ∃ h', Observes env now os 0 h h' ∧ h'.db = { h.db with transfers := h'.db.transfers } ∧
      h'.db.transfers.rows = h.db.transfers.rows.map (Transfer.relearn now os) := by
  induction os generalizing h with
  | nil => exact ⟨h, .nil h, rfl, (List.map_id _).symm⟩
  | cons o os ih =>
    obtain ⟨hfit, b, hb, hidx, hmove⟩ := hr o (List.mem_cons_self ..)
    obtain ⟨row, h₁, hp, hstatus, hrows₁⟩ := upsert_bound hfit hb hidx now
    have hu := upserts_of_perform hp
    have hok : exec env (o.mirror now) h = (.ok false, h₁) := by
      refine exec_mirror_ok_iff.mpr ⟨row, h₁, hp, ?_⟩
      rw [applyObserved_still (hstatus ▸ hmove)]
      rfl
    have hrest : Reached os h₁.db :=
      Reached.upsert (fun q hq => hr q (List.mem_cons_of_mem _ hq)) hu
    obtain ⟨h', hs, hframe, hrows⟩ := ih hrest
    refine ⟨h', .cons hok hs, ?_, ?_⟩
    · rw [hframe, hu.frame]
    · rw [hrows, hrows₁, List.map_map]
      rfl

/-- And the rows stay what they are, but for the time they were last seen. -/
theorem Said.bare_relearn (hs : Said os db) (now : ℤ) :
    Alike Transfer.bare (db.transfers.rows.map (Transfer.relearn now os)) db.transfers.rows := by
  rw [Alike, List.map_map]
  exact List.map_congr_left fun r hr => Companion.bare_relearn (hs r hr)

end Absorbed
end Companion
