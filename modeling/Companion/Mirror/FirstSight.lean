import Companion.Mirror.Observation
import Companion.Runs.Transfers

/-!
# A transfer seen for the first time

The node takes a transfer through a history of statuses that ends in `Settled` or
`Failed`, and the syncs see some of them.  An open row is closed, with its event, by
the first terminal status that is seen of it; a closed row stays as it is.  What no
row matches is inserted as it is listed, without an event, so the end of a transfer
is announced exactly when it had not been reached yet when a sync first listed the
transfer, or a hook's row was there for it.

## Main definitions

* `Turn`, `afterTurns`, `statusesSeen` — observations and hooks, one after another.
* `Db.Stands` — where the row of an index and its closing events are.
* `OpenAtFirstSight` — the condition on the first observation of an index.
* `announced_iff` — the end of a transfer is announced exactly then.
-/

set_option autoImplicit false

namespace Companion
open Lib

/-! ## Turns -/

/-- Something that happens to the transfers of the mirror: a sync observes one that is
listed, or a hook inserts one.  What the reaper fails of itself is left out. -/
inductive Turn
  | observe (assetId : Option String) (t : RlnTransfer) (now : ℤ)
  | insert (t : NewTransfer) (now : ℤ)

namespace Turn

def prog : Turn → Prog SyncError Unit
  | observe assetId t now => do
      let _ ← mirrorTransfer assetId t now
      return ()
  | insert t now => do
      let _ ← Fallible.mapErr .store (store (.insertTransfer t now))
      return ()

def after (env : Env) (turn : Turn) (h : Host) : Host := (exec env turn.prog h).2

/-- An observation goes through; a hook may fail, and then nothing happens. -/
def Completes (env : Env) (h : Host) : Turn → Prop
  | observe assetId t now => ∃ moved h', exec env (mirrorTransfer assetId t now) h = (.ok moved, h')
  | insert _ _ => True

/-- The status seen of the transfer `i`. -/
def seen? (i : ℤ) : Turn → Option TransferStatus
  | observe _ t _ => if t.idx = i then some t.status else none
  | insert _ _ => none

theorem after_observe (env : Env) (assetId : Option String) (t : RlnTransfer) (now : ℤ)
    (h : Host) : (observe assetId t now).after env h =
      (exec env (mirrorTransfer assetId t now) h).2 := by
  rcases hm : exec env (mirrorTransfer assetId t now) h with ⟨e | moved, h'⟩
  · exact congrArg Prod.snd (Fallible.exec_bind_error _ hm)
  · exact congrArg Prod.snd (Fallible.exec_bind_ok _ hm)

theorem uses_prog (turn : Turn) : turn.prog.run.Uses Op.Background := by
  cases turn with
  | observe assetId t now =>
    refine Fallible.uses_bind ?_ fun _ => trivial
    exact Fallible.uses_bind (Fallible.uses_mapErr (uses_store trivial)) fun row =>
      applyObserved_uses row t.status now
  | insert t now =>
    exact Fallible.uses_bind (Fallible.uses_mapErr (uses_store trivial)) fun _ => trivial

end Turn

def afterTurns (env : Env) : List Turn → Host → Host
  | [], h => h
  | turn :: turns, h => afterTurns env turns (turn.after env h)

/-- Every observation goes through when its turn comes. -/
def CompleteTurns (env : Env) : List Turn → Host → Prop
  | [], _ => True
  | turn :: turns, h => turn.Completes env h ∧ CompleteTurns env turns (turn.after env h)

/-- The statuses seen of the transfer `i`, in order. -/
def statusesSeen (i : ℤ) (turns : List Turn) : List TransferStatus :=
  turns.filterMap (Turn.seen? i)

/-- The turns of a listing. -/
def turnsOf (now : ℤ) (ts : List (Option String × RlnTransfer)) : List Turn :=
  ts.map fun entry => .observe entry.1 entry.2 now

theorem afterTurns_turnsOf (env : Env) (now : ℤ) (ts : List (Option String × RlnTransfer))
    (h : Host) : afterTurns env (turnsOf now ts) h = mirrorAll env now ts h := by
  induction ts generalizing h with
  | nil => rfl
  | cons entry ts ih =>
    rw [turnsOf, List.map_cons, afterTurns, Turn.after_observe]
    exact ih _

/-- A sync that goes through is its listed transfers observed in turn. -/
theorem sync_turns {env : Env} {l : Listing} (hl : env.Lists l) (hfit : l.Fits)
    (cfg : Config.Sync) (scope : Scope) (now : ℤ) {h h' : Host} {report : SyncReport}
    (hok : exec env (sync cfg scope now) h = (.ok report, h')) :
    ∃ ids assetless h₀, exec env (scopeAssets scope now) h = (.ok (ids, assetless), h₀) ∧
      h' = afterTurns env (turnsOf now (l.entries (cfg.pages scope) ids assetless)) h₀ := by
  obtain ⟨ids, assetless, h₀, hscope, -⟩ := exec_scopeAssets hl scope now h
  obtain ⟨p, hp, hw⟩ := writes_sync hl hfit cfg scope now hscope
  refine ⟨ids, assetless, h₀, hscope, ?_⟩
  rw [hp] at hok
  obtain ⟨report', hmirror⟩ := hw.1 (hw.isOk_iff.mp ⟨report, h', hok⟩)
  rw [afterTurns_turnsOf]
  exact congrArg Prod.snd (hok.symm.trans hmirror)

/-! ## What stays sound -/

/-- No task unsettles the account of a transfer. -/
theorem transferSound_exec {ε α : Type} (env : Env) {p : Prog ε α}
    (hp : p.run.Uses Op.Background) {id : ℕ} {h : Host}
    (hs : TransferSound (transferAccount id h)) :
    TransferSound (transferAccount id (exec env p h).2) := by
  refine @Proc.exec_inv _ _ _ _ _ (fun h => TransferSound (transferAccount id h)) _ hp ?_ _ hs
  intro o h ho hs
  cases o with
  | store q => exact transferSound_step (transfer_step (Or.inl ho) rfl) hs
  | node _ | forward _ | post _ | clock | uuid | lock | unlock => exact hs

/-- The accounts of all transfers are sound. -/
def Host.Sound (h : Host) : Prop := ∀ id, TransferSound (transferAccount id h)

theorem Host.Sound.after {h : Host} (hs : h.Sound) (env : Env) (turn : Turn) :
    (turn.after env h).Sound :=
  fun id => transferSound_exec env turn.uses_prog (hs id)

/-! ## Closing events -/

/-- The closing events of a row. -/
def Db.closing (db : Db) (id : ℕ) : List String := (db.transferEvents id).filter isClosing

/-- What closes an open row when `observed` is seen. -/
def closedBy (observed : TransferStatus) : Option (List String) :=
  if observed.terminal then some (transferOut observed) else none

theorem isSome_closedBy (s : TransferStatus) : (closedBy s).isSome = s.terminal := by
  cases s <;> rfl

theorem Announced.closing_eq_nil {s : TransferStatus} {events : List String}
    (ha : Announced s events) (hs : s.terminal = false) : events.filter isClosing = [] := by
  obtain ⟨confirmed, closing, rfl, hconf, hclose⟩ := ha
  have hnil : closing = [] := by
    rcases hclose with h | ⟨h, -⟩
    · exact h
    · simp [hs] at h
  rcases hconf with rfl | ⟨rfl, -⟩
  · simp [hnil]
  · rw [hnil]
    decide

theorem next_of_open {stored : TransferStatus} (h : stored.terminal = false)
    (observed : TransferStatus) :
    (stored.next observed).terminal = observed.terminal ∧
      (stored.out observed).filter isClosing = (closedBy observed).getD [] := by
  cases stored <;> cases observed <;> first | decide | cases h

theorem next_of_closed {stored : TransferStatus} (h : stored.terminal = true)
    (observed : TransferStatus) : stored.next observed = stored ∧ stored.out observed = [] := by
  cases stored <;> cases observed <;> first | decide | cases h

/-! ## Where a transfer stands -/

/-- The transfer `i` is mirrored, and open, or closed with these closing events. -/
def Db.Stands (db : Db) (i : ℤ) (closing : Option (List String)) : Prop :=
  ∃ r ∈ db.transfers.rows, r.rlnIdx = some i ∧ r.status.terminal = closing.isSome ∧
    db.closing r.id = closing.getD []

/-- Exactly one closing event, that of `final`, is enqueued for the transfer `i`. -/
def Db.AnnouncedOnce (db : Db) (i : ℤ) (final : TransferStatus) : Prop :=
  ∃ r ∈ db.transfers.rows, r.rlnIdx = some i ∧ db.closing r.id = transferOut final

theorem Db.Stands.announcedOnce_iff {db : Db} {i : ℤ} {closing : Option (List String)}
    (hs : db.Stands i closing) (final : TransferStatus) :
    db.AnnouncedOnce i final ↔ closing.getD [] = transferOut final := by
  obtain ⟨r, hr, hidx, -, hclosing⟩ := hs
  constructor
  · intro ⟨a, ha, haidx, hout⟩
    have hclash : a.Clash r := Or.inr (Or.inl (by simp [haidx, hidx, sqlEq]))
    rw [db.transfers.eq_of_clash ha hr hclash] at hout
    rw [← hclosing, hout]
  · intro hout
    exact ⟨r, hr, hidx, hclosing.trans hout⟩

/-- Where an observation leaves the transfer it is made of. -/
def Observed.stands (o : Observed) (db : Db) : Option (List String) :=
  match db.findObserved o with
  | some r => if r.status.terminal then some (db.closing r.id) else closedBy o.status
  | none => if o.status.terminal then some [] else none

section Observe
variable {env : Env} {assetId : Option String} {t : RlnTransfer} {now : ℤ} {h : Host}

/-- What an observation leaves of the rows and of their events. -/
theorem exec_observed (hc : (Turn.observe assetId t now).Completes env h) :
    ((Turn.observe assetId t now).after env h).db.transfers.rows =
        (t.observed assetId).rows h.nextUuid now h.db ∧
      ∀ id, ((Turn.observe assetId t now).after env h).db.transferEvents id =
        h.db.transferEvents id ++ (t.observed assetId).out h.db id := by
  obtain ⟨moved, h', hok⟩ := hc
  have hup : ∃ out, h.db.upsertObserved h.nextUuid (t.observed assetId) now = .ok out := by
    cases hup : h.db.upsertObserved h.nextUuid (t.observed assetId) now with
    | ok out => exact ⟨out, rfl⟩
    | error e =>
      have hcommit : exec env (Fallible.mapErr SyncError.store
          (store (.upsertObserved (t.observed assetId) now))) h = (.error (.store e), h.draw) :=
        exec_store_error SyncError.store (Host.commit_eq_error hup)
      cases congrArg Prod.fst ((Fallible.exec_bind_error _ hcommit).symm.trans hok)
  obtain ⟨out, hup⟩ := hup
  have hfit : FitsColumn t.expirationTimestamp := Db.fits_of_upsertObserved hup
  have hm : h.db.Mirrorable (t.observed assetId) :=
    (Db.upsertObserved_isOk_iff (fun r hr => Nat.ne_of_lt (Host.transfer_lt_nextUuid hr)) hfit
      now).mp ⟨out.1, out.2, hup⟩
  obtain ⟨moved', h₁, hok', hrows, hevents, -⟩ := exec_mirrorTransfer env hfit now hm
  rw [Turn.after_observe, hok']
  exact ⟨hrows, hevents⟩

/-- An observation leaves its transfer mirrored. -/
theorem stands_observe (hc : (Turn.observe assetId t now).Completes env h) (hs : h.Sound) :
    ((Turn.observe assetId t now).after env h).db.Stands t.idx
      ((t.observed assetId).stands h.db) := by
  obtain ⟨hrows, hevents⟩ := exec_observed hc
  cases hf : h.db.findObserved (t.observed assetId) with
  | none =>
    -- the new row has no events yet, and gets none
    have hnew : h.db.transfer? h.nextUuid = none :=
      Table.get?_eq_none.mpr fun a ha => Nat.ne_of_lt (Host.transfer_lt_nextUuid ha)
    have hnil : h.db.transferEvents h.nextUuid = [] := (hs h.nextUuid).none hnew
    have hout : (t.observed assetId).out h.db h.nextUuid = [] := by simp [Observed.out, hf]
    have hstands : (t.observed assetId).stands h.db =
        if t.status.terminal then some [] else none := by
      rw [Observed.stands, hf]
      rfl
    have hclosing : ((Turn.observe assetId t now).after env h).db.closing h.nextUuid = [] := by
      simp [Db.closing, hevents, hnil, hout]
    have hstatus : ((t.observed assetId).row h.nextUuid now).status = t.status := rfl
    refine ⟨(t.observed assetId).row h.nextUuid now, by simp [hrows, Observed.rows, hf], rfl, ?_⟩
    rw [hstands, hstatus]
    cases hterm : t.status.terminal with
    | true => exact ⟨rfl, hclosing⟩
    | false => exact ⟨rfl, hclosing⟩
  | some r =>
    have hr := (Db.findObserved_some hf).1
    have hann : Announced r.status (h.db.transferEvents r.id) :=
      (hs r.id).announced r (Db.transfer?_eq_some.mpr ⟨hr, rfl⟩)
    have hout : (t.observed assetId).out h.db r.id = r.status.out t.status := by
      rw [Observed.out, hf]
      exact if_pos rfl
    have hidx : ((t.observed assetId).onto now r).rlnIdx = some t.idx := rlnIdx_onto ..
    have hstatus : ((t.observed assetId).onto now r).status = r.status.next t.status :=
      Transfer.status_apply ..
    refine ⟨(t.observed assetId).onto now r, ?_, hidx, ?_⟩
    · rw [hrows, Observed.rows, hf, Table.mem_replace]
      exact Or.inl ⟨r, hr, rfl, rfl⟩
    · rw [hstatus, id_onto, Db.closing, hevents, hout, List.filter_append]
      simp only [Observed.stands, hf]
      cases hterm : r.status.terminal with
      | true =>
        obtain ⟨hnext, hnone⟩ := next_of_closed hterm t.status
        simp [hnext, hnone, hterm, Db.closing]
      | false =>
        obtain ⟨hnext, hclosing⟩ := next_of_open hterm t.status
        rw [hnext, hclosing, hann.closing_eq_nil hterm]
        exact ⟨(isSome_closedBy t.status).symm, rfl⟩

/-- A row bound to another index is left alone. -/
theorem kept_observe {i : ℤ} (hc : (Turn.observe assetId t now).Completes env h)
    (hne : t.idx ≠ i) {r : Transfer} (hr : r ∈ h.db.transfers.rows) (hidx : r.rlnIdx = some i) :
    r ∈ ((Turn.observe assetId t now).after env h).db.transfers.rows ∧
      ((Turn.observe assetId t now).after env h).db.closing r.id = h.db.closing r.id := by
  obtain ⟨hrows, hevents⟩ := exec_observed hc
  rw [hrows, Db.closing, hevents, Observed.rows, Observed.out]
  cases hf : h.db.findObserved (t.observed assetId) with
  | none => simp [hr, Db.closing]
  | some a =>
    have hid : r.id ≠ a.id := by
      intro hid
      obtain ⟨ha, hmatch, -⟩ := Db.findObserved_some hf
      rw [← h.db.transfers.eq_of_clash hr ha (Transfer.clash_of_id hid)] at hmatch
      exact hne (Db.index_of_matches hmatch hidx).symm
    exact ⟨Table.mem_replace.mpr (Or.inr ⟨hr, hid⟩), by simp [hid, Db.closing]⟩

/-- An observation binds no row to another index. -/
theorem unbound_observe {i : ℤ} (hc : (Turn.observe assetId t now).Completes env h)
    (hne : t.idx ≠ i) (hnew : ∀ r ∈ h.db.transfers.rows, r.rlnIdx ≠ some i) :
    ∀ r ∈ ((Turn.observe assetId t now).after env h).db.transfers.rows, r.rlnIdx ≠ some i := by
  intro r hr
  rw [(exec_observed hc).1] at hr
  obtain hbound | hold := mem_rows hr
  · rw [hbound]
    intro heq
    exact hne (Option.some.inj heq)
  · exact hnew r hold

end Observe

section Insert
variable {env : Env} {t : NewTransfer} {now : ℤ} {h : Host}

/-- What a hook makes of the rows: nothing, or it merges into one or appends one; the
events stay. -/
theorem exec_inserted :
    (∀ id, ((Turn.insert t now).after env h).db.transferEvents id = h.db.transferEvents id) ∧
      (((Turn.insert t now).after env h).db.transfers.rows = h.db.transfers.rows ∨
        (∃ id, ((Turn.insert t now).after env h).db.transfers.rows =
          Table.replace Transfer.id id (t.merge now) h.db.transfers.rows) ∨
        ∃ id, ((Turn.insert t now).after env h).db.transfers.rows =
          h.db.transfers.rows ++ [t.row id now]) := by
  cases hok : h.db.insertTransfer h.nextUuid t now with
  | error e =>
    have hstore : exec env (Fallible.mapErr SyncError.store (store (.insertTransfer t now))) h =
        (.error (.store e), h.draw) := exec_store_error SyncError.store (Host.commit_eq_error hok)
    have hafter : (Turn.insert t now).after env h = h.draw :=
      congrArg Prod.snd (Fallible.exec_bind_error _ hstore)
    rw [hafter]
    exact ⟨fun _ => rfl, Or.inl rfl⟩
  | ok out =>
    obtain ⟨row, db'⟩ := out
    have hstore : exec env (Fallible.mapErr SyncError.store (store (.insertTransfer t now))) h =
        (.ok row, { h.draw with db := db' }) :=
      exec_store_ok SyncError.store (Host.commit_eq_ok hok)
    have hafter : (Turn.insert t now).after env h = { h.draw with db := db' } :=
      congrArg Prod.snd (Fallible.exec_bind_ok _ hstore)
    rw [hafter]
    obtain ⟨T, rfl, hcases⟩ := Db.insertTransfer_ok hok
    refine ⟨fun _ => rfl, Or.inr ?_⟩
    rcases hcases with ⟨r, -, -, hT, -⟩ | ⟨-, hT, -⟩
    · exact Or.inl ⟨r.id, hT⟩
    · exact Or.inr ⟨h.nextUuid, hT⟩

/-- A hook leaves a row its identifier, its index, its status and its events. -/
theorem stands_insert {i : ℤ} {closing : Option (List String)} (hs : h.db.Stands i closing) :
    ((Turn.insert t now).after env h).db.Stands i closing := by
  obtain ⟨r, hr, hidx, hterm, hclosing⟩ := hs
  obtain ⟨hevents, hrows⟩ := @exec_inserted env t now h
  have hkept : ((Turn.insert t now).after env h).db.closing r.id = closing.getD [] := by
    rw [Db.closing, hevents]
    exact hclosing
  rcases hrows with hrows | ⟨id, hrows⟩ | ⟨id, hrows⟩
  · exact ⟨r, hrows ▸ hr, hidx, hterm, hkept⟩
  · by_cases hid : r.id = id
    · refine ⟨t.merge now r, ?_, hidx, hterm, hkept⟩
      rw [hrows, Table.mem_replace]
      exact Or.inl ⟨r, hr, hid, rfl⟩
    · refine ⟨r, ?_, hidx, hterm, hkept⟩
      rw [hrows, Table.mem_replace]
      exact Or.inr ⟨hr, hid⟩
  · refine ⟨r, ?_, hidx, hterm, hkept⟩
    rw [hrows]
    exact List.mem_append_left _ hr

theorem unbound_insert {i : ℤ} (hnew : ∀ r ∈ h.db.transfers.rows, r.rlnIdx ≠ some i) :
    ∀ r ∈ ((Turn.insert t now).after env h).db.transfers.rows, r.rlnIdx ≠ some i := by
  intro r hr
  rcases (@exec_inserted env t now h).2 with hrows | ⟨id, hrows⟩ | ⟨id, hrows⟩
  · exact hnew r (hrows ▸ hr)
  · rw [hrows] at hr
    rcases Table.mem_replace.mp hr with ⟨a, ha, -, rfl⟩ | ⟨hr, -⟩
    · exact hnew a ha
    · exact hnew r hr
  · rw [hrows] at hr
    rcases List.mem_append.mp hr with hr | hr
    · exact hnew r hr
    · rw [List.mem_singleton.mp hr]
      simp [NewTransfer.row]

end Insert

/-! ## Runs of turns -/

section Turns
variable {env : Env} {i : ℤ} {h : Host}

/-- What is seen of a transfer closes it if it is open, and does nothing otherwise. -/
theorem stands_after {turn : Turn} (hc : turn.Completes env h) (hs : h.Sound)
    {closing : Option (List String)} (hstands : h.db.Stands i closing) :
    (turn.after env h).db.Stands i (closing.or ((turn.seen? i).bind closedBy)) := by
  cases turn with
  | insert t now =>
    rw [show (Turn.insert t now).seen? i = none from rfl, Option.bind_none, Option.or_none]
    exact stands_insert hstands
  | observe assetId t now =>
    obtain ⟨r, hr, hidx, hterm, hclosing⟩ := hstands
    by_cases hi : t.idx = i
    · subst hi
      have hfind : h.db.findObserved (t.observed assetId) = some r :=
        Db.findObserved_of_bound hr hidx
      have hstands := stands_observe hc hs
      rw [Observed.stands, hfind] at hstands
      rw [Turn.seen?, if_pos rfl, Option.bind_some]
      cases closing with
      | none =>
        simp only [hterm] at hstands
        exact hstands
      | some closing =>
        simp only [hterm, hclosing] at hstands
        exact hstands
    · obtain ⟨hkept, hclosing'⟩ := kept_observe hc hi hr hidx
      rw [Turn.seen?, if_neg hi, Option.bind_none, Option.or_none]
      exact ⟨r, hkept, hidx, hterm, hclosing'.trans hclosing⟩

/-- An open transfer is closed by the first terminal status that is seen of it. -/
theorem stands_afterTurns {turns : List Turn} (hc : CompleteTurns env turns h) (hs : h.Sound)
    {closing : Option (List String)} (hstands : h.db.Stands i closing) :
    (afterTurns env turns h).db.Stands i
      (closing.or ((statusesSeen i turns).findSome? closedBy)) := by
  induction turns generalizing h closing with
  | nil =>
    rw [statusesSeen, List.filterMap_nil, List.findSome?_nil, Option.or_none]
    exact hstands
  | cons turn turns ih =>
    have hrest := ih hc.2 (hs.after env turn) (stands_after hc.1 hs hstands)
    rw [Option.or_assoc] at hrest
    rw [afterTurns, statusesSeen, List.filterMap_cons]
    cases hseen : turn.seen? i with
    | none =>
      rw [hseen] at hrest
      exact hrest
    | some s =>
      rw [hseen] at hrest
      rw [List.findSome?_cons]
      cases hclosed : closedBy s with
      | none =>
        rw [Option.bind_some, hclosed] at hrest
        exact hrest
      | some closing' =>
        rw [Option.bind_some, hclosed] at hrest
        exact hrest

/-- Before anything is seen of a transfer, no row is bound to it. -/
theorem unbound_after {turn : Turn} (hc : turn.Completes env h) (hseen : turn.seen? i = none)
    (hnew : ∀ r ∈ h.db.transfers.rows, r.rlnIdx ≠ some i) :
    ∀ r ∈ (turn.after env h).db.transfers.rows, r.rlnIdx ≠ some i := by
  cases turn with
  | insert t now => exact unbound_insert hnew
  | observe assetId t now =>
    by_cases hi : t.idx = i
    · simp [Turn.seen?, hi] at hseen
    · exact unbound_observe hc hi hnew

end Turns

/-! ## The condition -/

/-- When a transfer is first seen, its row is open afterwards, or had been closed with
the event of `final` before; and a transfer no row matches is not over yet. -/
def OpenAtFirstSight (env : Env) (i : ℤ) (final : TransferStatus) : List Turn → Host → Prop
  | [], _ => True
  | .insert t now :: turns, h =>
      OpenAtFirstSight env i final turns ((Turn.insert t now).after env h)
  | .observe assetId t now :: turns, h =>
      if t.idx = i then
        match h.db.findObserved (t.observed assetId) with
        | some r => r.status.terminal = true → h.db.closing r.id = transferOut final
        | none => t.status.terminal = false
      else OpenAtFirstSight env i final turns ((Turn.observe assetId t now).after env h)

/-! ## Histories -/

/-- A forward history ends with its only terminal status. -/
theorem eq_final_of_terminal {history : List TransferStatus} {final : TransferStatus}
    (hforward : history.IsChain TransferMove) (hlast : history.getLast? = some final) :
    ∀ s ∈ history, s.terminal = true → s = final := by
  induction history with
  | nil => simp
  | cons s history ih =>
    cases history with
    | nil =>
      intro q hq _
      rw [List.getLast?_singleton, Option.some.injEq] at hlast
      exact (List.mem_singleton.mp hq).trans hlast
    | cons next history =>
      obtain ⟨hmove, hchain⟩ := List.isChain_cons_cons.mp hforward
      rw [List.getLast?_cons_cons] at hlast
      intro q hq hterm
      rcases List.mem_cons.mp hq with rfl | hq
      · simp [hmove.1] at hterm
      · exact ih hchain hlast q hq hterm

/-- The only terminal status seen is the one that closes. -/
theorem findSome?_closedBy {seen : List TransferStatus} {final : TransferStatus}
    (hfinal : final.terminal = true) (honly : ∀ s ∈ seen, s.terminal = true → s = final)
    (hmem : final ∈ seen) : seen.findSome? closedBy = some (transferOut final) := by
  induction seen with
  | nil => simp at hmem
  | cons s seen ih =>
    rw [List.findSome?_cons]
    cases hterm : s.terminal with
    | true =>
      have hs := honly s (List.mem_cons_self ..) hterm
      simp [closedBy, hs, hfinal]
    | false =>
      have hne : final ≠ s := by
        intro heq
        simp [← heq, hfinal] at hterm
      have hrest := ih (fun q hq => honly q (List.mem_cons_of_mem _ hq))
        ((List.mem_cons.mp hmem).resolve_left hne)
      simp [closedBy, hterm, hrest]

theorem transferOut_ne_nil {final : TransferStatus} (hfinal : final.terminal = true) :
    transferOut final ≠ [] := by
  cases final <;> first | decide | cases hfinal

/-- What the first observation of a transfer and all later ones come to. -/
theorem closed_after_first_sight {o : Observed} {db : Db} {later : List TransferStatus}
    {final : TransferStatus} (hfinal : final.terminal = true)
    (hclosed : (o.status :: later).findSome? closedBy = some (transferOut final)) :
    ((o.stands db).or (later.findSome? closedBy)).getD [] = transferOut final ↔
      match db.findObserved o with
      | some r => r.status.terminal = true → db.closing r.id = transferOut final
      | none => o.status.terminal = false := by
  have hor : (closedBy o.status).or (later.findSome? closedBy) = some (transferOut final) := by
    rw [← hclosed, List.findSome?_cons]
    cases closedBy o.status <;> rfl
  cases hf : db.findObserved o with
  | some r =>
    rw [Observed.stands, hf]
    cases hterm : r.status.terminal with
    | true => simp [hterm]
    | false => simp [hterm, hor]
  | none =>
    rw [Observed.stands, hf]
    cases hterm : o.status.terminal with
    | true => simp [(transferOut_ne_nil hfinal).symm]
    | false =>
      have hopen : closedBy o.status = none := by simp [closedBy, hterm]
      rw [hopen, Option.none_or] at hor
      simp [hor]

section FirstSight
variable {env : Env} {i : ℤ} {final : TransferStatus}

theorem announcedOnce_afterTurns {turns : List Turn} {h : Host}
    (hnew : ∀ r ∈ h.db.transfers.rows, r.rlnIdx ≠ some i)
    (hcomplete : CompleteTurns env turns h) (hsound : h.Sound)
    (hfinal : final.terminal = true)
    (honly : ∀ s ∈ statusesSeen i turns, s.terminal = true → s = final)
    (hseen : final ∈ statusesSeen i turns) :
    (afterTurns env turns h).db.AnnouncedOnce i final ↔ OpenAtFirstSight env i final turns h := by
  induction turns generalizing h with
  | nil => simp [statusesSeen] at hseen
  | cons turn turns ih =>
    -- until the transfer is seen, nothing that matters happens
    have hskip : turn.seen? i = none →
        ((afterTurns env turns (turn.after env h)).db.AnnouncedOnce i final ↔
          OpenAtFirstSight env i final turns (turn.after env h)) := by
      intro hnone
      have hsame : statusesSeen i (turn :: turns) = statusesSeen i turns := by
        simp [statusesSeen, hnone]
      rw [hsame] at honly hseen
      exact ih (unbound_after hcomplete.1 hnone hnew) hcomplete.2 (hsound.after env turn) honly
        hseen
    cases turn with
    | insert t now => exact hskip rfl
    | observe assetId t now =>
      by_cases hi : t.idx = i
      · subst hi
        have hfirst : statusesSeen t.idx (.observe assetId t now :: turns) =
            t.status :: statusesSeen t.idx turns := by
          simp [statusesSeen, Turn.seen?]
        rw [hfirst] at honly hseen
        have hstands := stands_afterTurns hcomplete.2 (hsound.after env _)
          (stands_observe hcomplete.1 hsound)
        rw [afterTurns, hstands.announcedOnce_iff, OpenAtFirstSight, if_pos rfl]
        exact closed_after_first_sight hfinal (findSome?_closedBy hfinal honly hseen)
      · rw [OpenAtFirstSight, if_neg hi]
        exact hskip (by simp [Turn.seen?, hi])

/-- **First sight.**  Let no row be bound to the transfer `i` at some point of a run,
and let the node take it through a forward history to `final`.  Whatever of the
history the syncs see from then on, in whatever order, as long as `final` is among it,
the end of the transfer is announced exactly once if and only if it was still to come
when the transfer was first seen. -/
theorem announced_iff {cfg : Config} {hist : List (Pool.Event Effects Host)}
    {c : Pool.Config Effects Host} (run : (system cfg).Run initial hist c) {turns : List Turn}
    {history : List TransferStatus} (hnew : ∀ r ∈ c.shared.db.transfers.rows, r.rlnIdx ≠ some i)
    (hcomplete : CompleteTurns env turns c.shared) (hforward : history.IsChain TransferMove)
    (hlast : history.getLast? = some final) (hfinal : final.terminal = true)
    (hsamples : ∀ s ∈ statusesSeen i turns, s ∈ history) (hseen : final ∈ statusesSeen i turns) :
    (afterTurns env turns c.shared).db.AnnouncedOnce i final ↔
      OpenAtFirstSight env i final turns c.shared := by
  have honly : ∀ s ∈ statusesSeen i turns, s.terminal = true → s = final :=
    fun s hs => eq_final_of_terminal hforward hlast s (hsamples s hs)
  exact announcedOnce_afterTurns hnew hcomplete (transfer_sound run) hfinal honly hseen

end FirstSight

/-! ## A funding transfer -/

/-- A node with one channel funding transfer, which no hook sees, or with none yet. -/
def funding (status : Option TransferStatus) : Listing where
  assets := [("A", "NIA")]
  assetless _ := []
  transfers _ _ := status.toList.map fun s => ⟨1, s, "Send", none, some "funding", none⟩

/-- The funding transfer, seen under its asset. -/
def seeFunding (status : TransferStatus) (now : ℤ) : Turn :=
  .observe (some "A") ⟨1, status, "Send", none, some "funding", none⟩ now

/-- Seen before it settles, it is announced. -/
theorem announced_funding :
    (afterTurns .silent [seeFunding .waitingConfirmations 1, seeFunding .settled 2]
      Host.fresh).db.AnnouncedOnce 1 .settled := by
  have hcomplete : CompleteTurns .silent
      [seeFunding .waitingConfirmations 1, seeFunding .settled 2] Host.fresh :=
    ⟨⟨_, _, rfl⟩, ⟨_, _, rfl⟩, trivial⟩
  exact (@announced_iff .silent 1 .settled ⟨⟨none⟩, {}, {}, {}⟩ _ _ .nil _
    [.waitingConfirmations, .settled] (by simp [initial, Host.fresh, Db.migrated, Table.empty])
    hcomplete (by decide) rfl rfl (by decide) (by decide)).mpr rfl

/-- The companion starts against an unlocked node without transfers, and its first full
sync completes. -/
def firstSync : List (Pool.Move (system ⟨⟨none⟩, {}, {}, {}⟩)) :=
  let node : World := .of { (funding none).env with
    node := fun c => if h : c = .nodeInfo then .ok (h ▸ ()) else (funding none).env.node c }
  .boot [dispatcher {} 0, startup ⟨⟨none⟩, {}, {}, {}⟩ 0] :: List.replicate 15 (.act 1 node)

theorem firstSync_admitted : Pool.Admitted firstSync :=
  ⟨⟨0, 0, rfl⟩, Pool.admitted_replicate trivial⟩

theorem firstSync_plays : ((system ⟨⟨none⟩, {}, {}, {}⟩).play firstSync initial).isSome := rfl

/-- After that, a funding transfer that settles between two syncs is inserted settled,
and never announced. -/
theorem funding_not_announced :
    ∃ hist c, (system ⟨⟨none⟩, {}, {}, {}⟩).Run initial hist c ∧
      c.shared.db.nodeState.lastFullSyncAt = some 0 ∧ c.shared.db.transfers.rows = [] ∧
      [TransferStatus.waitingConfirmations, .settled].IsChain TransferMove ∧
      ∃ report h', exec (funding (some .settled)).env (sync {} .full 1) c.shared =
          (.ok report, h') ∧
        (h'.db.transfers.rows.map fun r => (r.rlnIdx, r.status)) = [(some 1, .settled)] ∧
        h'.db.webhookOutbox.rows = [] ∧ ¬ h'.db.AnnouncedOnce 1 .settled := by
  have run := Pool.run_of_isSome firstSync_admitted firstSync_plays
  refine ⟨_, _, run, rfl, rfl, by decide, _, _, rfl, rfl, rfl, ?_⟩
  rintro ⟨r, -, -, hclosing⟩
  cases hclosing

end Companion
