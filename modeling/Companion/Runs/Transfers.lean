import Companion.Announce
import Companion.Lib.Ledger

/-!
# The ledger of a transfer

What one transfer row and its events go through in any run of the companion,
with every task working from rows it read at any earlier time.  The row and its
announcements are an account of the ledger library: a row is created by a hook or
by a sync, merged with what is known of it, or advanced by a planned transition
that announces the status it enters.  `transfer_step` is the one place where the
operations of the store are looked at.

## Main definitions

* `Transfer.Follows` — what a row keeps along a run.
* `transferRules`, `transferAccount` — the row and its events as an account.
* `Accounted` — how the events of a row account for its history.
* `transfer_ledger` — both, for every run.
-/

set_option autoImplicit false

namespace Companion
open Lib

/-! ## What a row keeps -/

/-- `r'` is a later state of the row `r`. -/
structure Transfer.Follows (r r' : Transfer) : Prop where
  id : r'.id = r.id
  createdAt : r'.createdAt = r.createdAt
  recipientId : r'.recipientId = r.recipientId
  rlnIdx : ∀ i, r.rlnIdx = some i → r'.rlnIdx = some i
  rank : rank r.status ≤ rank r'.status
  final : r.status.terminal = true → r'.status = r.status

theorem Transfer.Follows.refl (r : Transfer) : r.Follows r :=
  ⟨rfl, rfl, rfl, fun _ h => h, le_rfl, fun _ => rfl⟩

theorem Transfer.Follows.trans {r₁ r₂ r₃ : Transfer} (h₁ : r₁.Follows r₂) (h₂ : r₂.Follows r₃) :
    r₁.Follows r₃ where
  id := h₂.id.trans h₁.id
  createdAt := h₂.createdAt.trans h₁.createdAt
  recipientId := h₂.recipientId.trans h₁.recipientId
  rlnIdx := fun i h => h₂.rlnIdx i (h₁.rlnIdx i h)
  rank := h₁.rank.trans h₂.rank
  final := fun h => by
    have h' := h₁.final h
    exact (h₂.final (by rw [h']; exact h)).trans h'

/-! ## The rules of a transfer -/

/-- `r'` is the row `r` with something learned about it. -/
structure Transfer.Merged (r r' : Transfer) : Prop where
  follows : r.Follows r'
  status : r'.status = r.status
  settledAt : r'.settledAt = r.settledAt

/-- How transfer rows come about and change. -/
def transferRules : Rules Transfer String where
  born r := r.settledAt = none
  change r r' out :=
    (r.Merged r' ∧ out = []) ∨
      ∃ dst now, r.status.terminal = false ∧ rank r.status < rank dst ∧
        r' = r.advance dst now ∧ out = transferOut dst

theorem follows_of_change {r r' : Transfer} {out : List String}
    (h : transferRules.change r r' out) : r.Follows r' := by
  rcases h with ⟨hm, -⟩ | ⟨dst, now, hterm, hrank, rfl, -⟩
  · exact hm.follows
  · exact ⟨rfl, rfl, rfl, fun _ h => h, hrank.le, fun h => by simp [hterm] at h⟩

/-- The transfer `id` and its events, as an account. -/
def transferAccount (id : ℕ) (h : Host) : Account Transfer String :=
  ⟨h.db.transfer? id, h.db.transferEvents id⟩

theorem merged_insert (t : NewTransfer) (now : ℤ) (r : Transfer) : r.Merged (t.merge now r) :=
  ⟨⟨rfl, rfl, rfl, fun _ h => h, le_rfl, fun _ => rfl⟩, rfl, rfl⟩

theorem merged_observed {o : Observed} {r : Transfer} (now : ℤ)
    (h : Db.matchesObserved o r = true) : r.Merged (o.merge now r) := by
  refine ⟨⟨rfl, rfl, rfl, fun i hi => ?_, le_rfl, fun _ => rfl⟩, rfl, rfl⟩
  exact congrArg some (Db.index_of_matches h hi).symm

/-! ## What one step does to an account -/

section Steps
variable {h h' : Host} {id : ℕ}

/-- What a store operation of the companion does to any transfer. -/
theorem transfer_step {q : StoreOp} {r : Except StoreError q.Res}
    (hq : Op.Background (.store q) ∨ Op.Delivery (.store q)) (hp : q.perform h = (r, h')) :
    transferRules.Step (transferAccount id h) (transferAccount id h') := by
  cases q with
  | insertTransfer t now =>
      rcases Host.commit_cases hp with rfl | ⟨row, db', hok, rfl⟩
      · exact Ledger.step_same rfl rfl
      rcases Db.insertTransfer_ok hok with ⟨T, rfl, ⟨r, hr, -, hT, -⟩ | ⟨hclash, hT, -⟩⟩
      · refine Ledger.step_replace (Db.transfer?_eq_some.mpr ⟨hr, rfl⟩) hT
          (fun _ => rfl) ?_ (Or.inl ⟨merged_insert t now r, rfl⟩)
        rw [ite_self, List.append_nil]
        exact Db.transferEvents_of_outbox rfl id
      · exact Ledger.step_append (Db.transfer?_eq_none hclash) hT
          (Db.transferEvents_of_outbox rfl id) rfl
  | upsertObserved o now =>
      rcases Host.commit_cases hp with rfl | ⟨row, db', hok, rfl⟩
      · exact Ledger.step_same rfl rfl
      rcases Db.upsertObserved_ok hok with
        ⟨T, rfl, ⟨r, hr, -, hT⟩ | ⟨-, -, hclash, hT⟩⟩
      · rcases Db.findObserved_some hr with ⟨hmem, hmatch, -⟩
        refine Ledger.step_replace (Db.transfer?_eq_some.mpr ⟨hmem, rfl⟩) hT
          (fun _ => rfl) ?_ (Or.inl ⟨merged_observed now hmatch, rfl⟩)
        rw [ite_self, List.append_nil]
        exact Db.transferEvents_of_outbox rfl id
      · exact Ledger.step_append (Db.transfer?_eq_none hclash) hT
          (Db.transferEvents_of_outbox rfl id) rfl
  | applyTransition k src dst event now =>
      rcases hq with hq | hq
      · rcases Host.commit_cases hp with rfl | ⟨b, db', hok, rfl⟩
        · exact Ledger.step_same rfl rfl
        rcases Db.applyTransition_ok hok with ⟨-, rfl⟩ | ⟨-, -, r, T, O, hr, hsrc, rfl, hT, hO⟩
        · exact Ledger.step_same rfl rfl
        · refine Ledger.step_replace hr hT (fun _ => rfl) (Db.transferEvents_planned hq hO id)
            (Or.inr ⟨dst, now, ?_, ?_, rfl, rfl⟩)
          · rw [hsrc]; exact hq.1
          · rw [hsrc]; exact hq.2.1
      · exact hq.elim
  | applyPaymentTransition hash src dst event now =>
      rcases hq with hq | hq
      · rcases Host.commit_cases hp with rfl | ⟨b, db', hok, rfl⟩
        · exact Ledger.step_same rfl rfl
        rcases Db.applyPaymentTransition_ok hok with
          ⟨-, rfl⟩ | ⟨-, -, r, T, O, -, -, rfl, -, hO⟩
        · exact Ledger.step_same rfl rfl
        · exact Ledger.step_same rfl (Db.transferEvents_plannedPayment hq hO id)
      · exact hq.elim
  | recordAttempt k next =>
      cases hp
      exact Ledger.step_same rfl (Db.transferEvents_recordAttempt _ k next id)
  | markDelivered k now =>
      cases hp
      exact Ledger.step_same rfl (Db.transferEvents_markDelivered _ k now id)
  | _ =>
      -- neither the transfers nor the outbox are written
      have hrows := (StoreOp.frame hp).transfers (by simp [StoreOp.writes])
      have hout := (StoreOp.frame hp).webhookOutbox (by simp [StoreOp.writes])
      exact Ledger.step_same hrows (Db.transferEvents_of_outbox hout id)

end Steps

/-! ## Runs -/

section Runs
open Pool
variable {cfg : Config} {hist : List (Event Effects Host)} {c : Pool.Config Effects Host}

/-- Every event of a run is a step of every transfer's account. -/
theorem transfer_steps (run : (system cfg).Run initial hist c) (id : ℕ) :
    ∀ e ∈ hist, transferRules.Step (transferAccount id e.pre) (transferAccount id e.post) := by
  intro e he
  rcases lawful_cases (lawful_of_run run e he) with hdb | ⟨q, r, hq, hp⟩
  · have heq : transferAccount id e.post = transferAccount id e.pre := by
      rw [transferAccount, hdb, transferAccount]
    rw [heq]
    exact .stay _
  · exact transfer_step hq hp

/-- A step keeps the row and what it has settled on. -/
theorem follows_of_step {h h' : Host} {id : ℕ} {r : Transfer}
    (hs : transferRules.Step (transferAccount id h) (transferAccount id h'))
    (hr : h.db.transfer? id = some r) : ∃ r', h'.db.transfer? id = some r' ∧ r.Follows r' := by
  generalize ha : transferAccount id h = a at hs
  generalize ha' : transferAccount id h' = a' at hs
  have hrec : a.record = some r := by rw [← ha]; exact hr
  have hrec' : h'.db.transfer? id = a'.record := by rw [← ha']; rfl
  rw [hrec']
  cases hs with
  | stay => exact ⟨r, hrec, Transfer.Follows.refl r⟩
  | born _ => cases hrec
  | change hc =>
      cases hrec
      exact ⟨_, rfl, follows_of_change hc⟩

/-! ### What the events say -/

/-- The events that close a transfer. -/
def isClosing (eventType : String) : Bool :=
  eventType = EventType.settled.asStr || eventType = EventType.failed.asStr

/-- The events of a row with status `s`: at most one confirmation, then at most one
closing event, of the status the row is closed with. -/
def Announced (s : TransferStatus) (events : List String) : Prop :=
  ∃ confirmed closing, events = confirmed ++ closing ∧
    (confirmed = [] ∨ confirmed = transferOut .waitingConfirmations ∧ 4 ≤ rank s) ∧
    (closing = [] ∨ s.terminal = true ∧ closing = transferOut s)

theorem Announced.advance {s dst : TransferStatus} {events : List String}
    (ha : Announced s events) (hterm : s.terminal = false) (hrank : rank s < rank dst) :
    Announced dst (events ++ transferOut dst) := by
  rcases ha with ⟨confirmed, closing, rfl, hconf, hclose⟩
  have hnil : closing = [] := by
    rcases hclose with h | ⟨h, -⟩
    · exact h
    · rw [hterm] at h; cases h
  subst hnil
  rw [List.append_nil]
  cases hdst : dst.terminal with
  | true =>
      refine ⟨confirmed, transferOut dst, rfl, ?_, Or.inr ⟨hdst, rfl⟩⟩
      have h5 := terminal_iff_rank.mp hdst
      exact hconf.imp id fun h => ⟨h.1, by omega⟩
  | false =>
      -- before `WaitingConfirmations` there was no confirmation
      have hlow : rank dst ≤ 4 := by
        cases dst <;> first | decide | cases hdst
      have hempty : confirmed = [] := by
        rcases hconf with h | ⟨-, h⟩
        · exact h
        · omega
      subst hempty
      refine ⟨transferOut dst, [], by simp, ?_, Or.inl rfl⟩
      cases dst <;> first | exact Or.inl rfl | exact Or.inr ⟨rfl, le_rfl⟩ | cases hdst

/-- What holds of a transfer's account in every reachable state. -/
structure TransferSound (a : Account Transfer String) : Prop where
  none : a.record = none → a.events = []
  announced : ∀ r, a.record = some r → Announced r.status a.events
  settledAt : ∀ r, a.record = some r → r.settledAt ≠ Option.none → r.status = .settled

theorem transferSound_change {r r' : Transfer} {es out : List String}
    (hc : transferRules.change r r' out) (hs : TransferSound ⟨some r, es⟩) :
    TransferSound ⟨some r', es ++ out⟩ := by
  have hann := hs.announced r rfl
  have hset := hs.settledAt r rfl
  rcases hc with ⟨hm, rfl⟩ | ⟨dst, now, hterm, hrank, rfl, rfl⟩
  · refine ⟨by simp, fun r₁ h₁ => ?_, fun r₁ h₁ => ?_⟩
    · cases h₁
      rw [hm.status, List.append_nil]
      exact hann
    · cases h₁
      rw [hm.status, hm.settledAt]
      exact hset
  · refine ⟨by simp, fun r₁ h₁ => ?_, fun r₁ h₁ => ?_⟩
    · cases h₁
      exact hann.advance hterm hrank
    · cases h₁
      intro hne
      by_cases hd : dst = .settled
      · exact hd
      · have hold : r.settledAt ≠ none := by simpa [Transfer.advance, hd] using hne
        have := hset hold
        rw [this] at hterm
        cases hterm

theorem transferSound_born {r : Transfer} {es : List String} (hb : transferRules.born r)
    (hs : TransferSound ⟨none, es⟩) : TransferSound ⟨some r, es⟩ := by
  have hes : es = [] := hs.none rfl
  subst hes
  refine ⟨by simp, fun r₁ h₁ => ⟨[], [], rfl, Or.inl rfl, Or.inl rfl⟩, fun r₁ h₁ hne => ?_⟩
  cases h₁
  exact absurd hb hne

/-- Every step of the rules keeps an account sound. -/
theorem transferSound_step {a a' : Account Transfer String} (h : transferRules.Step a a')
    (hs : TransferSound a) : TransferSound a' := by
  cases h with
  | stay => exact hs
  | born hb => exact transferSound_born hb hs
  | change hc => exact transferSound_change hc hs

theorem transfer_sound (run : (system cfg).Run initial hist c) (id : ℕ) :
    TransferSound (transferAccount id c.shared) := by
  refine Ledger.account_inv run (transfer_steps run id) ?_ ?_ ?_
  · exact ⟨fun _ => rfl, fun r h => (by cases h), fun r h => (by cases h)⟩
  · intro r es hb hs
    exact transferSound_born hb hs
  · intro r r' es out hc hs
    exact transferSound_change hc hs

/-! ### The balance -/

theorem countP_transferOut (dst : TransferStatus) :
    (transferOut dst).countP isClosing = if dst.terminal then 1 else 0 := by
  cases dst <;> decide

theorem countP_change {r r' : Transfer} {out : List String}
    (hc : transferRules.change r r' out) :
    out.countP isClosing = if r'.status.terminal && !r.status.terminal then 1 else 0 := by
  rcases hc with ⟨hm, rfl⟩ | ⟨dst, now, hterm, -, rfl, rfl⟩
  · cases h : r.status.terminal <;> simp [hm.status, h]
  · rw [countP_transferOut, hterm]
    simp [Transfer.advance]

/-- The row `id` was inserted, already in a terminal status. -/
def insertedTerminal (id : ℕ) (e : Event Effects Host) : Bool :=
  (e.pre.db.transfer? id).isNone && (e.post.db.transfer? id).any fun r => r.status.terminal

/-- A closed row stays closed. -/
theorem not_reopened (run : (system cfg).Run initial hist c) (id : ℕ) :
    hist.countP (fun e => Ledger.reopened (fun r => r.status.terminal)
      (transferAccount id e.pre) (transferAccount id e.post)) = 0 := by
  rw [List.countP_eq_zero]
  intro e he hre
  simp only [Ledger.reopened, Ledger.isClosed, Bool.and_eq_true, Bool.not_eq_true'] at hre
  rcases (Option.any_eq_true _ _).mp hre.1 with ⟨r, hr, hterm⟩
  rcases follows_of_step (transfer_steps run id e he) hr with ⟨r', hr', hf⟩
  have hopen := hre.2
  simp only [transferAccount, hr', Option.any_some] at hopen
  rw [hf.final hterm, hterm] at hopen
  cases hopen

theorem transfer_balance (run : (system cfg).Run initial hist c) (id : ℕ) :
    (c.shared.db.transferEvents id).countP isClosing +
        (if hist.any (insertedTerminal id) then 1 else 0) =
      if (c.shared.db.transfer? id).any (fun r => r.status.terminal) then 1 else 0 := by
  have hbal := Ledger.conservation run (transfer_steps run id) (fun _ _ _ => countP_change) rfl
  rw [not_reopened run id, Nat.zero_add,
    Ledger.countP_bornClosed_eq_any run (transfer_steps run id)] at hbal
  exact hbal

end Runs

/-! ## The ledger -/

/-- How the history and the outbox account for the row `r`. -/
structure Accounted (hist : List (Pool.Event Effects Host)) (db : Db) (r : Transfer) : Prop where
  balance : (db.transferEvents r.id).countP isClosing +
      (if hist.any (insertedTerminal r.id) then 1 else 0) = if r.status.terminal then 1 else 0
  settled : EventType.settled.asStr ∈ db.transferEvents r.id → r.status = .settled
  failed : EventType.failed.asStr ∈ db.transferEvents r.id → r.status = .failed
  confirmed : (db.transferEvents r.id).count EventType.confirmedPending.asStr ≤ 1
  order : (db.transferEvents r.id).Pairwise fun earlier later =>
    isClosing earlier = true → later ≠ EventType.confirmedPending.asStr
  settledAt : r.settledAt ≠ none → r.status = .settled

theorem Announced.shape {s : TransferStatus} {events : List String} (h : Announced s events) :
    (EventType.settled.asStr ∈ events → s = .settled) ∧
      (EventType.failed.asStr ∈ events → s = .failed) ∧
      events.count EventType.confirmedPending.asStr ≤ 1 ∧
      events.Pairwise fun earlier later =>
        isClosing earlier = true → later ≠ EventType.confirmedPending.asStr := by
  rcases h with ⟨confirmed, closing, rfl, hconf, hclose⟩
  rcases hconf with rfl | ⟨rfl, -⟩ <;> rcases hclose with rfl | ⟨hterm, rfl⟩ <;>
    cases s <;> first | decide | cases hterm

theorem accounted {cfg : Config} {hist : List (Pool.Event Effects Host)}
    {c : Pool.Config Effects Host} (run : (system cfg).Run initial hist c) {r : Transfer}
    (hr : r ∈ c.shared.db.transfers.rows) : Accounted hist c.shared.db r := by
  have hget : c.shared.db.transfer? r.id = some r := Db.transfer?_eq_some.mpr ⟨hr, rfl⟩
  have hbal := transfer_balance run r.id
  rw [hget, Option.any_some] at hbal
  have hsound := transfer_sound run r.id
  have hann : Announced r.status (c.shared.db.transferEvents r.id) := hsound.announced r hget
  rcases hann.shape with ⟨hsettled, hfailed, hconfirmed, horder⟩
  exact ⟨hbal, hsettled, hfailed, hconfirmed, horder, hsound.settledAt r hget⟩

/-- Whatever row `id` is in `h`, it is a later state of it in `h'`. -/
def Continues (id : ℕ) (h h' : Host) : Prop :=
  ∀ r, h.db.transfer? id = some r → ∃ r', h'.db.transfer? id = some r' ∧ r.Follows r'

theorem Continues.refl (id : ℕ) (h : Host) : Continues id h h :=
  fun r hr => ⟨r, hr, Transfer.Follows.refl r⟩

theorem Continues.trans (id : ℕ) (h₁ h₂ h₃ : Host) (h₁₂ : Continues id h₁ h₂)
    (h₂₃ : Continues id h₂ h₃) : Continues id h₁ h₃ := by
  intro r₁ hr₁
  rcases h₁₂ r₁ hr₁ with ⟨r₂, hr₂, hf⟩
  rcases h₂₃ r₂ hr₂ with ⟨r₃, hr₃, hf'⟩
  exact ⟨r₃, hr₃, hf.trans hf'⟩

/-- **The ledger of a transfer.**  From any point of a run to any later one, every
row keeps its identity, its binding and its rank; and at every point the events of
a row account exactly for its history. -/
theorem transfer_ledger (cfg : Config) {hist₁ hist₂ : List (Pool.Event Effects Host)}
    {c₁ c₂ : Pool.Config Effects Host} (run₁ : (system cfg).Run initial hist₁ c₁)
    (run₂ : (system cfg).Run c₁ hist₂ c₂) :
    (∀ r ∈ c₁.shared.db.transfers.rows, ∃ r' ∈ c₂.shared.db.transfers.rows, r.Follows r') ∧
      ∀ r ∈ c₂.shared.db.transfers.rows, Accounted (hist₁ ++ hist₂) c₂.shared.db r := by
  have run := run₁.append run₂
  refine ⟨fun r hr => ?_, fun r hr => accounted run hr⟩
  have hsteps : ∀ e ∈ hist₂, Continues r.id e.pre e.post := fun e he _ =>
    follows_of_step (transfer_steps run r.id e (List.mem_append_right _ he))
  have hlater := run₂.within (Continues.refl r.id) (Continues.trans r.id) hsteps
  rcases hlater r (Db.transfer?_eq_some.mpr ⟨hr, rfl⟩) with ⟨r', hr', hf⟩
  exact ⟨r', (Db.transfer?_eq_some.mp hr').1, hf⟩

/-- A send is mirrored by its hook, and then a sync sees it settled. -/
def sendSchedule (cfg : Config) : List (Pool.Move (system cfg)) :=
  let sent : World := .of (.answering .sendrgb ⟨"tx"⟩)
  let settled : World := .of
    (.listing (.listTransfers "A" 100) [⟨7, .settled, "Send", some "r", some "tx", none⟩])
  [.start (sendrgb (some ⟨true, none, ["A"]⟩)), .act 0 sent, .act 0 sent, .act 0 sent,
    .start (assetSync cfg ["A"]), .act 1 settled, .act 1 settled, .act 1 settled,
    .act 1 settled, .act 1 settled, .act 1 settled, .act 1 settled]

theorem sendSchedule_admitted (cfg : Config) : Pool.Admitted (sendSchedule cfg) := by
  simp only [sendSchedule, Pool.Admitted, Pool.Move.Admitted, true_and, and_true]
  exact ⟨.sendrgb _, .assetSync _⟩

theorem sendSchedule_plays :
    ((system ⟨⟨none⟩, {}, {}, {}⟩).play (sendSchedule _) initial).isSome := rfl

/-- The ledger of the send, at the end of its run. -/
theorem transfer_ledger_send :
    ∃ hist c, (system ⟨⟨none⟩, {}, {}, {}⟩).Run initial hist c ∧
      c.shared.db.transferEvents 0 = ["transfer.settled"] ∧
      ∀ r ∈ c.shared.db.transfers.rows, Accounted ([] ++ hist) c.shared.db r :=
  have run := Pool.run_of_isSome (sendSchedule_admitted _) sendSchedule_plays
  ⟨_, _, run, rfl, (transfer_ledger _ .nil run).2⟩

end Companion
