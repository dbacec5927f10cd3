import Companion.Rln
import Companion.Intercept
import Companion.Mirror.Observation

/-!
# One pass of the reaper

`reap` asks the node to fail every expired transfer, one call after another, and
what it does next depends on each answer: it goes on after a success or a
`CannotFailBatchTransfer`, it ends quietly when the node is locked or out of reach,
and any other answer ends it with an error.  The node is an arbitrary sequence of
answers, the `k`-th for the `k`-th `/failtransfers` call.

## Main definitions

* `Reaping.perform` — the handler that answers the reaper's calls and counts them.
* `Db.due` — the rows the reaper has to attempt.
* `GoesOn`, `Fatal` — what an answer makes of the rest of the pass.
* `reap_complete_iff`, `reap_sound_iff` — which rows are attempted, and which failed.
-/

set_option autoImplicit false

namespace Companion
open Lib

/-- What a handler makes of a program that runs under the engine lock. -/
theorem exec_withLock {ε α σ : Type} (perform : (o : Op) → σ → o.Res × σ) (p : Prog ε α)
    (s : σ) :
    Fallible.exec perform (withLock p) s =
      ((Fallible.exec perform p (perform .lock s).2).1,
        (perform .unlock (Fallible.exec perform p (perform .lock s).2).2).2) := by
  have hrun : Fallible.exec perform (withLock p) s = Proc.exec perform
      (p.run >>= fun r => Proc.perform (S := Effects) .unlock >>= fun _ => Proc.done r)
        (perform .lock s).2 := rfl
  rw [hrun, Proc.exec_bind]
  rfl

/-! ## The node -/

/-- The host, and the `/failtransfers` calls made so far. -/
structure Reaping where
  host : Host
  calls : List ℤ

/-- What one operation of the reaper does, when the node gives the `k`-th of its
`/failtransfers` calls the answer `answers k`. -/
def Reaping.perform (env : Env) (answers : ℕ → HttpAnswer FailTransfersResponse) :
    (o : Op) → Reaping → o.Res × Reaping
  | .node (.failTransfer idx), s =>
      (failTransfer (answers s.calls.length), { s with calls := s.calls ++ [idx] })
  | o, s => ((Companion.perform env o s.host).1,
      { s with host := (Companion.perform env o s.host).2 })

/-- What a whole pass at `now` leaves. -/
def reaping (env : Env) (answers : ℕ → HttpAnswer FailTransfersResponse) (now : ℤ) (h : Host) :
    Reaping :=
  (Fallible.exec (Reaping.perform env answers) (reap now) ⟨h, []⟩).2

/-- The reaper goes on after this answer. -/
def GoesOn (answer : HttpAnswer FailTransfersResponse) : Prop :=
  failTransfer answer = .ok () ∨ failTransfer answer = .error .cannotFail

/-- The node is locked or out of reach. -/
def Unavailable (answer : HttpAnswer FailTransfersResponse) : Prop :=
  failTransfer answer = .error .locked ∨ failTransfer answer = .error .transport

/-- Any other answer: an API error of its own, or a body that does not parse. -/
def Fatal (answer : HttpAnswer FailTransfersResponse) : Prop :=
  ¬ GoesOn answer ∧ ¬ Unavailable answer

instance : DecidablePred GoesOn := fun answer => by unfold GoesOn; infer_instance
instance : DecidablePred Unavailable := fun answer => by unfold Unavailable; infer_instance
instance : DecidablePred Fatal := fun answer => by unfold Fatal; infer_instance

theorem not_goesOn_of_unavailable {answer : HttpAnswer FailTransfersResponse}
    (h : Unavailable answer) : ¬ GoesOn answer := by
  rcases h with h | h <;> simp [GoesOn, h]

/-! ## The rows to attempt -/

/-- The row has expired and can be failed, by this batch. -/
structure Transfer.Due (now idx : ℤ) (r : Transfer) : Prop where
  fallible : r.status.fallible = true
  batch : r.batchTransferIdx = some idx
  expired : ∃ e, r.expirationTimestamp = some e ∧ (e : ℤ) < now

/-- The rows of a list that have a batch, with it. -/
def batched (ts : List Transfer) : List (Transfer × ℤ) :=
  ts.filterMap fun t => t.batchTransferIdx.map fun idx => (t, idx)

/-- What the reaper has to attempt, in its order. -/
def Db.due (db : Db) (now : ℤ) : List (Transfer × ℤ) := batched (db.expiredFallible now)

theorem mem_due {db : Db} {now idx : ℤ} {r : Transfer} :
    (r, idx) ∈ db.due now ↔ r ∈ db.transfers.rows ∧ r.Due now idx := by
  simp only [Db.due, batched, List.mem_filterMap, Option.map_eq_some_iff, Prod.mk.injEq]
  constructor
  · rintro ⟨t, ht, idx', hidx, rfl, rfl⟩
    obtain ⟨hrow, hfall, hexp⟩ := Db.mem_expiredFallible.mp ht
    exact ⟨hrow, hfall, hidx, hexp⟩
  · rintro ⟨hrow, hfall, hidx, hexp⟩
    exact ⟨r, Db.mem_expiredFallible.mpr ⟨hrow, hfall, hexp⟩, idx, hidx, rfl, rfl⟩

/-- No row is attempted twice. -/
theorem nodup_expiredFallible (db : Db) (now : ℤ) : (db.expiredFallible now).Nodup := by
  have hrows : db.transfers.rows.Nodup :=
    db.transfers.unique.imp fun hab heq => hab (Transfer.clash_of_id (congrArg Transfer.id heq))
  exact (List.perm_insertionSort _ _).nodup_iff.mpr (hrows.filter _)

/-! ## The loop -/

/-- One attempt of the reaper: the row, its batch and the answer it got. -/
structure Attempt where
  row : Transfer
  idx : ℤ
  answer : HttpAnswer FailTransfersResponse

/-- The attempts made of the rows still due, the first of which gets the `k`-th answer. -/
def attempts (answers : ℕ → HttpAnswer FailTransfersResponse) (k : ℕ) :
    List (Transfer × ℤ) → List Attempt
  | [] => []
  | (r, idx) :: due => ⟨r, idx, answers k⟩ ::
      if GoesOn (answers k) then attempts answers (k + 1) due else []

theorem attempts_length_le (answers : ℕ → HttpAnswer FailTransfersResponse) (k : ℕ)
    (due : List (Transfer × ℤ)) : (attempts answers k due).length ≤ due.length := by
  induction due generalizing k with
  | nil => simp [attempts]
  | cons d due ih =>
    have hrest := ih (k + 1)
    by_cases hgo : GoesOn (answers k)
    · simpa [attempts, hgo] using hrest
    · simp [attempts, hgo]

/-- The `j`-th attempt is of the `j`-th row, and got the answer of its turn. -/
theorem attempts_getElem? {answers : ℕ → HttpAnswer FailTransfersResponse} {k j : ℕ}
    {due : List (Transfer × ℤ)} {a : Attempt} :
    (attempts answers k due)[j]? = some a ↔
      due[j]? = some (a.row, a.idx) ∧ a.answer = answers (k + j) ∧
        ∀ i < j, GoesOn (answers (k + i)) := by
  induction due generalizing k j with
  | nil => simp [attempts]
  | cons d due ih =>
    obtain ⟨r, idx⟩ := d
    cases j with
    | zero =>
      rcases a with ⟨r', idx', answer⟩
      simp [attempts]
      constructor
      · rintro ⟨rfl, rfl, rfl⟩
        simp
      · rintro ⟨⟨rfl, rfl⟩, rfl⟩
        simp
    | succ j =>
      have hturn : ∀ i, k + 1 + i = k + (i + 1) := by
        intro i
        omega
      by_cases hgo : GoesOn (answers k)
      · simp only [attempts, hgo, if_true, List.getElem?_cons_succ, ih, hturn]
        apply and_congr_right
        intro _
        apply and_congr_right
        intro _
        constructor
        · intro hall i hi
          cases i with
          | zero => exact hgo
          | succ i => exact hall i (by omega)
        · intro hall i hi
          exact hall (i + 1) (by omega)
      · simp only [attempts, hgo, if_false, List.getElem?_cons_succ, List.getElem?_nil]
        constructor
        · intro h
          cases h
        · rintro ⟨-, -, hall⟩
          exact absurd (hall 0 (by omega)) hgo

/-- A row is attempted when its turn comes: after answers the reaper goes on from. -/
theorem lt_attempts_length {answers : ℕ → HttpAnswer FailTransfersResponse} {j : ℕ}
    {due : List (Transfer × ℤ)} :
    j < (attempts answers 0 due).length ↔ j < due.length ∧ ∀ i < j, GoesOn (answers i) := by
  constructor
  · intro hj
    obtain ⟨hdue, -, hall⟩ := attempts_getElem?.mp (List.getElem?_eq_getElem hj)
    refine ⟨(List.getElem?_eq_some_iff.mp hdue).1, ?_⟩
    simpa using hall
  · intro ⟨hj, hall⟩
    have ha : (attempts answers 0 due)[j]? = some ⟨due[j].1, due[j].2, answers j⟩ := by
      rw [attempts_getElem?]
      simpa [hj] using hall
    exact (List.getElem?_eq_some_iff.mp ha).1

/-- What is attempted is a first part of what is due. -/
theorem map_idx_attempts (answers : ℕ → HttpAnswer FailTransfersResponse)
    (due : List (Transfer × ℤ)) :
    (attempts answers 0 due).map Attempt.idx =
      (due.map Prod.snd).take (attempts answers 0 due).length := by
  apply List.ext_getElem?
  intro j
  rw [List.getElem?_map, List.getElem?_take]
  cases ha : (attempts answers 0 due)[j]? with
  | none =>
    have hj : ¬ j < (attempts answers 0 due).length := by simpa using ha
    simp [hj]
  | some a =>
    obtain ⟨hdue, -, -⟩ := attempts_getElem?.mp ha
    have hj := (List.getElem?_eq_some_iff.mp ha).1
    simp [hj, hdue]

/-- Some attempt at the row `id` succeeded. -/
def hit (id : ℕ) (made : List Attempt) : Bool :=
  made.any fun a => a.row.id = id && failTransfer a.answer = .ok ()

/-- No attempt at a row that is not due. -/
theorem hit_attempts {answers : ℕ → HttpAnswer FailTransfersResponse} {id k : ℕ}
    {due : List (Transfer × ℤ)} (h : ∀ d ∈ due, d.1.id ≠ id) :
    hit id (attempts answers k due) = false := by
  rw [hit, List.any_eq_false]
  intro a ha
  obtain ⟨j, hj⟩ := List.mem_iff_getElem?.mp ha
  have hrow := h _ (List.mem_of_getElem? (attempts_getElem?.mp hj).1)
  simp [hrow]

/-- Nor at a row that is not in the list. -/
theorem hit_batched {answers : ℕ → HttpAnswer FailTransfersResponse} {id k : ℕ}
    {ts : List Transfer} (h : id ∉ ts.map Transfer.id) :
    hit id (attempts answers k (batched ts)) = false := by
  apply hit_attempts
  intro d hd heq
  obtain ⟨u, hu, hdu⟩ := List.mem_filterMap.mp hd
  obtain ⟨idx, -, rfl⟩ := Option.map_eq_some_iff.mp hdu
  exact h (List.mem_map.mpr ⟨u, hu, heq⟩)

/-- What the reaper makes of a row: failed, when an attempt at it succeeded. -/
def Transfer.reaped (now : ℤ) (hit : Bool) (r : Transfer) : Transfer :=
  if hit then r.advance .failed now else r

/-- What a stretch of the pass leaves: the calls it made, and the rows and the events
that its successful attempts are about. -/
structure Reaped (now : ℤ) (made : List Attempt) (s s' : Reaping) : Prop where
  calls : s'.calls = s.calls ++ made.map Attempt.idx
  rows : ∀ id, s'.host.db.transfer? id =
    (s.host.db.transfer? id).map (Transfer.reaped now (hit id made))
  events : ∀ id, s'.host.db.transferEvents id =
    s.host.db.transferEvents id ++ if hit id made then transferOut .failed else []

section Loop
variable {env : Env} {answers : ℕ → HttpAnswer FailTransfersResponse} {now : ℤ}

theorem hit_append (id : ℕ) (made made' : List Attempt) :
    hit id (made ++ made') = (hit id made || hit id made') := by
  simp [hit]

theorem reaped_nil (s : Reaping) : Reaped now [] s s := by
  refine ⟨by simp, fun id => ?_, fun id => by simp [hit]⟩
  cases s.host.db.transfer? id <;> simp [Transfer.reaped, hit]

/-- One stretch after another, when no row succeeds in both. -/
theorem Reaped.append {made made' : List Attempt} {s s₁ s₂ : Reaping} (h : Reaped now made s s₁)
    (h' : Reaped now made' s₁ s₂) (hapart : ∀ id, hit id made = true → hit id made' = false) :
    Reaped now (made ++ made') s s₂ := by
  refine ⟨by simp [h.calls, h'.calls], fun id => ?_, fun id => ?_⟩
  · rw [h'.rows, h.rows, hit_append, Option.map_map]
    congr 1
    funext r
    by_cases hm : hit id made = true
    · simp [Transfer.reaped, hm, hapart id hm]
    · simp [Transfer.reaped, hm]
  · rw [h'.events, h.events, hit_append]
    by_cases hm : hit id made = true
    · simp [hm, hapart id hm]
    · simp [hm]

/-- An attempt that does not succeed changes no row. -/
theorem reaped_refused {a : Attempt} (ha : failTransfer a.answer ≠ .ok ()) (s : Reaping) :
    Reaped now [a] s { s with calls := s.calls ++ [a.idx] } := by
  have hno : ∀ id, hit id [a] = false := by
    intro id
    simp [hit, ha]
  refine ⟨by simp, fun id => ?_, fun id => by simp [hno]⟩
  cases s.host.db.transfer? id <;> simp [Transfer.reaped, hno]

/-- Outside its calls the reaper works on the host alone. -/
theorem exec_applyObserved_reaping (row : Transfer) (observed : TransferStatus) (s : Reaping) :
    Fallible.exec (Reaping.perform env answers) (applyObserved row observed now) s =
      ((exec env (applyObserved row observed now) s.host).1,
        { s with host := (exec env (applyObserved row observed now) s.host).2 }) := by
  rw [applyObserved]
  cases planTransition row observed <;> rfl

/-- A success is applied to the row as it stands. -/
theorem exec_reaped_succeeded {a : Attempt} (ha : failTransfer a.answer = .ok ()) {s : Reaping}
    (hrow : s.host.db.transfer? a.row.id = some a.row) (hfall : a.row.status.fallible = true) :
    ∃ s', Fallible.exec (Reaping.perform env answers)
        (Fallible.mapErr EngineError.sync (applyObserved a.row .failed now))
        { s with calls := s.calls ++ [a.idx] } = (.ok true, s') ∧ Reaped now [a] s s' := by
  have hm : TransferMove a.row.status .failed := by
    revert hfall
    cases a.row.status <;> decide
  obtain ⟨h', hexec, hrows, hevents, -⟩ := exec_applyObserved env hrow .failed now
  have hhit : ∀ id, hit id [a] = decide (a.row.id = id) := by
    intro id
    simp [hit, ha]
  refine ⟨⟨h', s.calls ++ [a.idx]⟩, ?_, by simp, fun id => ?_, fun id => ?_⟩
  · rw [Fallible.exec_mapErr, exec_applyObserved_reaping, hexec, decide_eq_true hm]
    rfl
  · have hget : h'.db.transfer? id =
        if id = a.row.id then (s.host.db.transfer? id).map (Transfer.apply .failed now)
        else s.host.db.transfer? id :=
      Table.get?_replace hrows (Transfer.id_apply .failed now) id
    rw [hget, hhit]
    by_cases hid : id = a.row.id
    · subst hid
      simp [hrow, Transfer.reaped, Transfer.apply, hm]
    · cases s.host.db.transfer? id <;> simp [hid, Ne.symm hid, Transfer.reaped]
  · have hev := hevents id
    rw [TransferStatus.out, if_pos hm] at hev
    rw [hhit]
    simp only [decide_eq_true_eq, eq_comm (b := id)]
    exact hev

/-- **The loop.**  Over rows as they stand, it makes the attempts it can and leaves what
they make of the rows. -/
theorem reaped_reapAll (ts : List Transfer) (hnodup : (ts.map Transfer.id).Nodup)
    {s : Reaping} (hrows : ∀ t ∈ ts, s.host.db.transfer? t.id = some t)
    (hfall : ∀ t ∈ ts, t.status.fallible = true) (failed : ℕ) :
    Reaped now (attempts answers s.calls.length (batched ts)) s
      (Fallible.exec (Reaping.perform env answers) (reapAll now ts failed) s).2 := by
  induction ts generalizing s failed with
  | nil => exact reaped_nil s
  | cons t ts ih =>
    obtain ⟨hnew, hnodup⟩ := List.nodup_cons.mp hnodup
    have hrest : ∀ u ∈ ts, s.host.db.transfer? u.id = some u := by
      intro u hu
      exact hrows u (List.mem_cons_of_mem _ hu)
    have hfrest : ∀ u ∈ ts, u.status.fallible = true := by
      intro u hu
      exact hfall u (List.mem_cons_of_mem _ hu)
    cases hidx : t.batchTransferIdx with
    | none =>
      have hskip : batched (t :: ts) = batched ts := by simp [batched, hidx]
      rw [hskip, reapAll, hidx]
      exact ih hnodup hrest hfrest failed
    | some idx =>
      have htake : batched (t :: ts) = (t, idx) :: batched ts := by simp [batched, hidx]
      have hcall : Fallible.exec (Reaping.perform env answers)
          (Fallible.attempt (node (.failTransfer idx)) : Prog EngineError _) s =
            (.ok (failTransfer (answers s.calls.length)),
              { s with calls := s.calls ++ [idx] }) := rfl
      rw [htake, reapAll, hidx]
      simp only [Fallible.exec_bind, hcall]
      cases hans : failTransfer (answers s.calls.length) with
      | ok u =>
        have hsucc : failTransfer (Attempt.mk t idx (answers s.calls.length)).answer = .ok () :=
          hans
        obtain ⟨s', hexec, hfirst⟩ := @exec_reaped_succeeded env answers now _ hsucc s
          (hrows t (List.mem_cons_self ..)) (hfall t (List.mem_cons_self ..))
        have hgo : GoesOn (answers s.calls.length) := Or.inl hans
        have hlen : s.calls.length + 1 = s'.calls.length := by simp [hfirst.calls]
        simp only [Fallible.exec_bind, hexec]
        rw [attempts, if_pos hgo, hlen]
        apply hfirst.append (ih hnodup _ hfrest (failed + 1))
        · intro id hid
          have ht : t.id = id := by simpa [hit, hans] using hid
          exact hit_batched (ht ▸ hnew)
        · intro u hu
          have hother : t.id ≠ u.id := by
            intro heq
            exact hnew (List.mem_map.mpr ⟨u, hu, heq.symm⟩)
          rw [hfirst.rows, hrest u hu]
          simp [Transfer.reaped, hit, hother]
      | error e =>
        have hrefused :
            failTransfer (Attempt.mk t idx (answers s.calls.length)).answer ≠ .ok () := by
          simp [hans]
        have hfirst := @reaped_refused now _ hrefused s
        by_cases hgo : GoesOn (answers s.calls.length)
        · have he : e = .cannotFail := by simpa [GoesOn, hans] using hgo
          subst he
          have hlen : s.calls.length + 1 = (s.calls ++ [idx]).length := by simp
          rw [attempts, if_pos hgo, hlen]
          apply hfirst.append
            (ih (s := { s with calls := s.calls ++ [idx] }) hnodup hrest hfrest failed)
          intro id hid
          simp [hit, hans] at hid
        · rw [attempts, if_neg hgo]
          cases e with
          | cannotFail => exact absurd (Or.inr hans) hgo
          | locked =>
            -- recording that the node is locked touches no transfer
            exact ⟨hfirst.calls, hfirst.rows, fun id =>
              (Db.transferEvents_of_outbox rfl id).trans (hfirst.events id)⟩
          | transport => exact hfirst
          | api code name message => exact hfirst
          | decode message => exact hfirst

end Loop

/-! ## The pass -/

section Pass
variable (env : Env) (answers : ℕ → HttpAnswer FailTransfersResponse) (now : ℤ) (h : Host)

/-- A pass makes the attempts it can at the rows that are due. -/
theorem reaped_reaping :
    Reaped now (attempts answers 0 (h.db.due now)) ⟨h, []⟩ (reaping env answers now h) := by
  have hnodup : ((h.db.expiredFallible now).map Transfer.id).Nodup := by
    apply (nodup_expiredFallible h.db now).map_on
    intro a ha b hb hid
    exact h.db.transfers.eq_of_clash (Db.mem_expiredFallible.mp ha).1
      (Db.mem_expiredFallible.mp hb).1 (Transfer.clash_of_id hid)
  have hrows : ∀ t ∈ h.db.expiredFallible now, h.db.transfer? t.id = some t := by
    intro t ht
    exact Db.transfer?_eq_some.mpr ⟨(Db.mem_expiredFallible.mp ht).1, rfl⟩
  have hfall : ∀ t ∈ h.db.expiredFallible now, t.status.fallible = true := by
    intro t ht
    exact (Db.mem_expiredFallible.mp ht).2.1
  have hloop := @reaped_reapAll env answers now (h.db.expiredFallible now) hnodup
    ⟨{ h with locked := true }, []⟩ hrows hfall 0
  -- the lock is taken before the rows are read, and released at the end
  rw [reaping, reap, exec_withLock]
  exact ⟨hloop.calls, hloop.rows, hloop.events⟩

theorem calls_reaping :
    (reaping env answers now h).calls = (attempts answers 0 (h.db.due now)).map Attempt.idx :=
  (reaped_reaping env answers now h).calls.trans (List.nil_append _)

/-- **Complete reaping.**  Every row that is due is attempted, unless the node is found
locked or out of reach, exactly when no fatal answer comes before the last of them. -/
theorem reap_complete_iff :
    ((reaping env answers now h).calls = (h.db.due now).map Prod.snd ∨
        ∃ k < (reaping env answers now h).calls.length, Unavailable (answers k)) ↔
      ∀ k, k + 1 < (h.db.due now).length → (∀ j < k, GoesOn (answers j)) →
        ¬ Fatal (answers k) := by
  rw [calls_reaping, map_idx_attempts]
  have hle := attempts_length_le answers 0 (h.db.due now)
  have hlen :
      ((h.db.due now).map Prod.snd |>.take (attempts answers 0 (h.db.due now)).length).length =
        (attempts answers 0 (h.db.due now)).length := by
    simpa using hle
  rw [hlen]
  constructor
  · intro hdone k hk hbefore hfatal
    have hstop : ¬ k + 1 < (attempts answers 0 (h.db.due now)).length := by
      intro hlt
      exact hfatal.1 ((lt_attempts_length.mp hlt).2 k (by omega))
    rcases hdone with hall | ⟨j, hj, hunav⟩
    · have := congrArg List.length hall
      rw [hlen, List.length_map] at this
      omega
    · have hgo := (lt_attempts_length.mp hj).2
      rcases Nat.lt_trichotomy j k with hjk | rfl | hjk
      · exact not_goesOn_of_unavailable hunav (hbefore j hjk)
      · exact hfatal.2 hunav
      · omega
  · intro hcond
    rcases Nat.lt_or_ge (attempts answers 0 (h.db.due now)).length (h.db.due now).length with
      hlt | hge
    · -- the pass has stopped at an answer that is not fatal
      right
      have hstop : ¬ ∀ i < (attempts answers 0 (h.db.due now)).length, GoesOn (answers i) := by
        intro hall
        exact Nat.lt_irrefl _ (lt_attempts_length.mpr ⟨hlt, hall⟩)
      simp only [not_forall] at hstop
      obtain ⟨i, hi, hno⟩ := hstop
      refine ⟨i, hi, ?_⟩
      by_contra hunav
      exact hcond i (by omega) (lt_attempts_length.mp hi).2 ⟨hno, hunav⟩
    · left
      rw [List.take_of_length_le (by simpa using hge)]

/-- A row is hit when it is due, its turn comes, and its call succeeds. -/
theorem hit_due {r : Transfer} (hr : r ∈ h.db.transfers.rows) :
    hit r.id (attempts answers 0 (h.db.due now)) = true ↔
      ∃ k idx, (h.db.due now)[k]? = some (r, idx) ∧ (∀ j < k, GoesOn (answers j)) ∧
        failTransfer (answers k) = .ok () := by
  simp only [hit, List.any_eq_true, Bool.and_eq_true, decide_eq_true_eq]
  constructor
  · rintro ⟨a, ha, hid, hsucc⟩
    obtain ⟨k, hk⟩ := List.mem_iff_getElem?.mp ha
    obtain ⟨hdue, hanswer, hbefore⟩ := attempts_getElem?.mp hk
    simp only [Nat.zero_add] at hanswer hbefore
    have hrow : a.row = r := by
      apply h.db.transfers.eq_of_clash _ hr (Transfer.clash_of_id hid)
      exact (mem_due.mp (List.mem_of_getElem? hdue)).1
    refine ⟨k, a.idx, ?_, hbefore, ?_⟩
    · rw [← hrow]
      exact hdue
    · rw [← hanswer]
      exact hsucc
  · rintro ⟨k, idx, hdue, hbefore, hsucc⟩
    have ha : (attempts answers 0 (h.db.due now))[k]? = some ⟨r, idx, answers k⟩ := by
      rw [attempts_getElem?]
      simpa using ⟨hdue, hbefore⟩
    exact ⟨_, List.mem_of_getElem? ha, rfl, hsucc⟩

/-- The turn of a row comes once. -/
theorem due_inj {k k' : ℕ} {idx idx' : ℤ} {r : Transfer}
    (hk : (h.db.due now)[k]? = some (r, idx)) (hk' : (h.db.due now)[k']? = some (r, idx')) :
    k = k' := by
  have hidx := (mem_due.mp (List.mem_of_getElem? hk)).2.batch
  have hidx' := (mem_due.mp (List.mem_of_getElem? hk')).2.batch
  have heq : idx = idx' := Option.some.inj (hidx.symm.trans hidx')
  subst heq
  have hnodup : (h.db.due now).Nodup := by
    apply (nodup_expiredFallible h.db now).filterMap
    intro a a' b ha ha'
    obtain ⟨i, -, rfl⟩ := Option.map_eq_some_iff.mp ha
    obtain ⟨i', -, heq⟩ := Option.map_eq_some_iff.mp ha'
    exact (Prod.mk.inj heq).1.symm
  obtain ⟨hlt, -⟩ := List.getElem?_eq_some_iff.mp hk
  exact (List.getElem?_inj hlt hnodup).mp (hk.trans hk'.symm)

/-- The row was failed with good reason: it was due, and the call made for it was
answered that the transfer has changed. -/
def JustlyFailed (r : Transfer) : Prop :=
  ∃ k idx, r.Due now idx ∧ (h.db.due now)[k]? = some (r, idx) ∧
    (reaping env answers now h).calls[k]? = some idx ∧ answers k = .success (.ok ⟨true⟩)

/-- **Sound reaping.**  Every row keeps its status and its events, or is failed with good
reason and announced once, exactly when no call the reaper gets to is answered with a
success that changed nothing. -/
theorem reap_sound_iff :
    (∀ r ∈ h.db.transfers.rows, ∃ r', (reaping env answers now h).host.db.transfer? r.id = some r' ∧
        ((r'.status = r.status ∧ (reaping env answers now h).host.db.transferEvents r.id =
            h.db.transferEvents r.id) ∨
          (r'.status = .failed ∧ (reaping env answers now h).host.db.transferEvents r.id =
              h.db.transferEvents r.id ++ ["transfer.failed"] ∧
            JustlyFailed env answers now h r))) ↔
      ∀ k < (h.db.due now).length, (∀ j < k, GoesOn (answers j)) →
        answers k ≠ .success (.ok ⟨false⟩) := by
  have hpass := reaped_reaping env answers now h
  have hrow : ∀ r ∈ h.db.transfers.rows, (reaping env answers now h).host.db.transfer? r.id =
      some (r.reaped now (hit r.id (attempts answers 0 (h.db.due now)))) := by
    intro r hr
    rw [hpass.rows, show h.db.transfer? r.id = some r from Db.transfer?_eq_some.mpr ⟨hr, rfl⟩]
    rfl
  constructor
  · intro hsound k hk hbefore hfalse
    obtain ⟨⟨r, idx⟩, hdue⟩ : ∃ d, (h.db.due now)[k]? = some d :=
      ⟨_, List.getElem?_eq_getElem hk⟩
    obtain ⟨hr, hr'⟩ := mem_due.mp (List.mem_of_getElem? hdue)
    have hhit := (hit_due answers now h hr).mpr
      ⟨k, idx, hdue, hbefore, failTransfer_eq_ok.mpr ⟨false, hfalse⟩⟩
    obtain ⟨r', hget, hcases⟩ := hsound r hr
    have hr'eq : r' = r.advance .failed now := by
      rw [hrow r hr, hhit] at hget
      exact (Option.some.inj hget).symm
    rcases hcases with ⟨hkept, -⟩ | ⟨-, -, k', idx', -, hdue', -, htrue⟩
    · have hfall := hr'.fallible
      rw [← hkept, hr'eq] at hfall
      cases hfall
    · rw [due_inj now h hdue hdue', htrue] at hfalse
      cases hfalse
  · intro hcond r hr
    refine ⟨_, hrow r hr, ?_⟩
    have hevents := hpass.events r.id
    cases hhit : hit r.id (attempts answers 0 (h.db.due now)) with
    | false =>
      left
      exact ⟨rfl, by simpa [hhit] using hevents⟩
    | true =>
      right
      obtain ⟨k, idx, hdue, hbefore, hsucc⟩ := (hit_due answers now h hr).mp hhit
      obtain ⟨changed, hanswer⟩ := failTransfer_eq_ok.mp hsucc
      have hlt := (List.getElem?_eq_some_iff.mp hdue).1
      have hreached : k < (attempts answers 0 (h.db.due now)).length :=
        lt_attempts_length.mpr ⟨hlt, hbefore⟩
      have hannounced : (reaping env answers now h).host.db.transferEvents r.id =
          h.db.transferEvents r.id ++ ["transfer.failed"] := by
        rw [hevents, hhit]
        rfl
      refine ⟨rfl, hannounced, k, idx, (mem_due.mp (List.mem_of_getElem? hdue)).2, hdue, ?_, ?_⟩
      · rw [calls_reaping, map_idx_attempts, List.getElem?_take, if_pos hreached,
          List.getElem?_map, hdue]
        rfl
      · cases changed with
        | true => exact hanswer
        | false => exact absurd hanswer (hcond k hlt hbefore)

end Pass

/-! ## Two expired invoices -/

/-- A host on which two invoices were created that expire at 50. -/
def twoInvoices : Host :=
  let invoice (recipientId : String) (idx : ℤ) := rgbinvoiceHook (some ⟨some "A", false⟩)
    (some ⟨recipientId, "rgb:" ++ recipientId, some 50, idx⟩)
  (exec .silent (invoice "b" 8) (exec .silent (invoice "a" 7) .fresh).2).2

/-- The node answers the first call with an error of its own, and the second row is not
attempted. -/
theorem fatal_starves :
    (twoInvoices.db.due 100).map Prod.snd = [7, 8] ∧
      (reaping .silent (fun _ => .refused 500 "" (some ⟨"boom", 500, "Unexpected"⟩)) 100
        twoInvoices).calls = [7] ∧
      ¬ Unavailable (.refused 500 "" (some ⟨"boom", 500, "Unexpected"⟩)) :=
  ⟨rfl, rfl, by decide⟩

/-- The node answers that the first transfer has not changed, and it is failed and
announced all the same. -/
theorem unchanged_is_failed :
    (reaping .silent (fun _ => .success (.ok ⟨false⟩)) 100 twoInvoices).host.db.transfers.rows.map
        Transfer.status = [.failed, .failed] ∧
      (reaping .silent (fun _ => .success (.ok ⟨false⟩)) 100 twoInvoices).host.db.transferEvents 0 =
        ["transfer.failed"] ∧
      ∀ r, ¬ JustlyFailed .silent (fun _ => .success (.ok ⟨false⟩)) 100 twoInvoices r := by
  refine ⟨rfl, rfl, ?_⟩
  rintro r ⟨k, idx, -, -, -, hanswer⟩
  cases hanswer

end Companion
