import Companion.Runs.Server

/-!
# No wake is lost

A hook that has put rows for new transfers into the mirror wakes the refresh loop before its
client is answered.  The wake is kept until the loop takes it.  So when the client has its
answer, a pass has begun after the rows were there, or the loop begins one as soon as it
waits, instead of after its interval.

## Main definitions

* `Owes` — a row has been inserted and the loop not been woken yet.
* `woken_before_answer` — what has become of the wake when the client is answered.
-/

set_option autoImplicit false

namespace Companion.Server
open Lib Proc Pool

variable {app : App}

/-! ## What a handler owes -/

section Owing

/-- A row has been inserted, nothing has failed since, and the loop has not been woken. -/
def Owes.note (owes : Bool) : (o : ServerOp) → o.Res → Bool
  | .eff (.store (.insertTransfer _ _)), .ok _ => true
  | .eff (.store _), .error _ => false
  | .wake, _ => false
  | _, _ => owes

/-- The client is answered when nothing is owed. -/
def Owes.Settled (owes : Bool) : ServerOp → Prop
  | .respond _ => owes = false
  | _ => True

/-- The notes, for the operations of the tasks. -/
def Owes.noteEffect (owes : Bool) (o : Op) (r : o.Res) : Bool := Owes.note owes (.eff o) r

/-- A contract of a part of a hook: when it fails nothing is owed. -/
abbrev Defaults {α : Type} (p : Prog HookError α) (owes : Bool) : Prop :=
  p.run.Keeps Owes.noteEffect (fun _ _ => True) owes fun r owes' =>
    ∀ e, r = .error e → owes' = false

theorem defaults_hookStore_insert (t : NewTransfer) (now : ℤ) (owes : Bool) :
    Defaults (hookStore (.insertTransfer t now)) owes := by
  refine Fallible.keeps_mapErr ⟨trivial, fun r => ?_⟩
  cases r with
  | ok row =>
    intro e he
    cases he
  | error e => exact fun _ _ => rfl

theorem defaults_insertSends (req : SendRequest) (resp : SendResponse) (assets : List String)
    (owes : Bool) : Defaults (insertSends req resp assets) owes := by
  induction assets generalizing owes with
  | nil =>
    intro e he
    cases he
  | cons assetId assets ih =>
    refine Fallible.keeps_bind ⟨trivial, fun t => ?_⟩
    refine Fallible.keeps_bind ((defaults_hookStore_insert _ _ _).mono fun r owes' hr => ?_)
    cases r with
    | error e => exact fun _ _ => hr e rfl
    | ok row => exact ih owes'

/-- What parses a body owes nothing, whether it can or not. -/
theorem defaults_parseReq {α : Type} (req : Option α) :
    (parseReq req).run.Keeps Owes.noteEffect (fun _ _ => True) false
      fun _ owes => owes = false := by
  cases req <;> rfl

theorem defaults_parseResp {α : Type} (resp : Option α) :
    (parseResp resp).run.Keeps Owes.noteEffect (fun _ _ => True) false
      fun _ owes => owes = false := by
  cases resp <;> rfl

theorem defaults_rgbinvoiceHook (req : Option InvoiceRequest) (resp : Option InvoiceResponse) :
    Defaults (Companion.rgbinvoiceHook req resp) false := by
  refine Fallible.keeps_bind ((defaults_parseReq req).mono fun r owes hr => ?_)
  subst hr
  cases r with
  | error e => exact fun _ _ => rfl
  | ok req =>
    refine Fallible.keeps_bind ((defaults_parseResp resp).mono fun r owes hr => ?_)
    subst hr
    cases r with
    | error e => exact fun _ _ => rfl
    | ok resp =>
      refine Fallible.keeps_bind ⟨trivial, fun t => ?_⟩
      refine Fallible.keeps_bind ((defaults_hookStore_insert _ _ _).mono fun r owes' hr => ?_)
      cases r with
      | error e => exact fun _ _ => hr e rfl
      | ok row =>
        intro e he
        cases he

end Owing

/-! ## The two handlers -/

section Handlers
variable {parts : Parts}

/-- Nothing is owed before, and nothing after. -/
abbrev Clears {α : Type} (q : Proc Serving α) : Prop :=
  q.Stays Owes.note Owes.Settled (· = false)

/-- No row is inserted. -/
def NoInsert (o : ServerOp) : Prop := ∀ t now, o ≠ .eff (.store (.insertTransfer t now))

theorem note_noInsert {o : ServerOp} (h : NoInsert o) (r : o.Res) :
    Owes.note false o r = false := by
  unfold Owes.note
  split
  · exact absurd rfl (h _ _)
  · rfl
  · rfl
  · rfl

theorem settled_false (o : ServerOp) : Owes.Settled false o := by
  unfold Owes.Settled
  split
  · rfl
  · trivial

theorem clears_of_uses {α : Type} {q : Proc Serving α} (h : q.Uses NoInsert) : Clears q := by
  refine stays_of_uses h fun m o ho hm => ?_
  subst hm
  exact ⟨settled_false o, note_noInsert ho⟩

theorem noInsert_ask {o : ServerOp} (h : NoInsert o) : (ask o).Uses NoInsert := uses_perform h

theorem clears_forwardThen (r : Route) {onSuccess : Exchange → ServerProg HookError Unit}
    (hhook : ∀ ex, Clears (onSuccess ex).run) : Clears (forwardThen app r parts onSuccess) := by
  refine stays_forwarding (fun m o ho hm => ?_) r hhook
  subst hm
  refine ⟨settled_false o, note_noInsert fun t now heq => ?_⟩
  rw [heq] at ho
  exact ho

/-- After a part of a hook that may insert, the loop is woken unless the part has failed. -/
theorem clears_defaults {α : Type} {p : Prog HookError α} {q : α → ServerProg HookError Unit}
    (h : Defaults p false) (hq : ∀ a owes, (q a).run.Keeps Owes.note Owes.Settled owes
      fun _ owes' => owes' = false) : Clears (p.lift effects >>= q).run := by
  rintro owes rfl
  have hlift : (p.run.lift effects).Keeps Owes.note Owes.Settled false
      fun r owes' => ∀ e, r = .error e → owes' = false := lift_keeps (fun _ _ _ => rfl) h
  refine Fallible.keeps_bind (hlift.mono fun r owes' hr => ?_)
  cases r with
  | error e => exact hr e rfl
  | ok a => exact hq a owes'

theorem clears_parsed {α : Type} {p : Prog HookError α} {q : α → ServerProg HookError Unit}
    (h : p.run.Keeps Owes.noteEffect (fun _ _ => True) false fun _ owes => owes = false)
    (hq : ∀ a, Clears (q a).run) : Clears (p.lift effects >>= q).run := by
  have hlift : (p.run.lift effects).Keeps Owes.note Owes.Settled false
      fun _ owes => owes = false := lift_keeps (fun _ _ _ => rfl) h
  refine Fallible.stays_bind ?_ hq
  rintro owes rfl
  exact hlift

theorem clears_rgbinvoiceHook (ex : Exchange) : Clears (rgbinvoiceHook app ex).run :=
  clears_defaults (defaults_rgbinvoiceHook _ _) fun _ _ => ⟨trivial, fun _ => rfl⟩

theorem clears_sendrgbHook (ex : Exchange) : Clears (sendrgbHook app ex).run := by
  refine clears_parsed (defaults_parseReq _) fun req => ?_
  refine clears_parsed (defaults_parseResp _) fun resp => ?_
  exact clears_defaults (defaults_insertSends _ _ _ _) fun _ _ =>
    ⟨trivial, fun _ => ⟨trivial, fun _ => rfl⟩⟩

/-- A request for an invoice or a send, from its arrival to its answer. -/
theorem clears_serve (h : endpoint parts = some .rgbinvoice ∨ endpoint parts = some .sendrgb) :
    Clears (serve app (.proxied parts)) := by
  refine stays_bind (clears_of_uses (noInsert_ask (by simp [NoInsert]))) fun _ => ?_
  refine stays_bind ?_ fun resp => clears_of_uses (noInsert_ask (by simp [NoInsert]))
  rw [handle]
  rcases h with h | h
  · simp only [h]
    exact clears_forwardThen _ clears_rgbinvoiceHook
  · simp only [h]
    exact clears_forwardThen _ clears_sendrgbHook

end Handlers

/-! ## The wake -/

section Wake

/-- The refresh loop takes a wake, and begins a pass. -/
def Takes (e : Event Serving Machine) : Prop := ∃ j, e.label = .act j .wait Waited.notified

/-- A wake is kept until it is taken. -/
theorem permit_step {c c' : Pool.Config Serving Machine} {l : Label Serving}
    (hs : Step (server app) c l c') (hpermit : c.shared.permit = true)
    (hboot : l.isBoot = false) :
    c'.shared.permit = true ∨ ∃ j, l = .act j .wait Waited.notified := by
  cases hs with
  | boot hb => cases hboot
  | start hstart => exact Or.inl hpermit
  | drift ch hd =>
    cases hd
    exact Or.inl hpermit
  | @act s ts i o k r s' ch hi hp =>
    have hmoved : s.Moved o r s' := moved_of_perform hp
    cases hmoved with
    | eff _ | spawned | begun _ | listening | still _ => exact Or.inl hpermit
    | woken => exact Or.inl rfl
    | taken _ => exact Or.inr ⟨i, rfl⟩

theorem permit_kept {c₀ c : Pool.Config Serving Machine} {hist : List (Event Serving Machine)}
    (run : (server app).Run c₀ hist c) {s₁ s₂ : List (Event Serving Machine)}
    {w : Event Serving Machine} {i : ℕ} (hhist : hist = s₁ ++ w :: s₂)
    (hw : w.label = .act i .wake ()) (hboot : ∀ e ∈ s₂, e.label.isBoot = false) :
    c.shared.permit = true ∨ ∃ e ∈ s₂, Takes e := by
  induction run generalizing s₂ with
  | nil => simp at hhist
  | @snoc hist c l c' run hs ih =>
    rcases List.eq_nil_or_concat s₂ with rfl | ⟨s₂, last, rfl⟩
    · obtain ⟨rfl, rfl⟩ := List.append_singleton_inj.mp hhist
      simp only at hw
      subst hw
      cases hs with
      | act ch hi hp =>
        cases hp
        exact Or.inl rfl
    · rw [List.concat_eq_append] at hboot hhist ⊢
      rw [← List.cons_append, ← List.append_assoc] at hhist
      obtain ⟨rfl, rfl⟩ := List.append_singleton_inj.mp hhist
      have hlast := hboot ⟨c.shared, l, c'.shared⟩ (by simp)
      -- still there before the last step, or taken earlier
      rcases ih rfl fun e he => hboot e (List.mem_append_left _ he) with hpermit | ⟨e, he, htakes⟩
      · rcases permit_step hs hpermit hlast with hpermit' | ⟨j, hj⟩
        · exact Or.inl hpermit'
        · exact Or.inr ⟨_, List.mem_append_right _ (List.mem_singleton_self _), j, hj⟩
      · exact Or.inr ⟨e, List.mem_append_left _ he, htakes⟩

end Wake

/-! ## Runs -/

section Runs

/-- The store has failed thread `i`. -/
def Fails (i : ℕ) (e : Event Serving Machine) : Prop :=
  ∃ (q : StoreOp) (err : StoreError), e.label = .act i (.eff (.store q)) (Except.error err)

theorem note_owing (i : ℕ) (o : ServerOp) (r : o.Res) : Owes.note true o r = true ∨ o = .wake ∨
    ∃ (q : StoreOp) (err : StoreError),
      (Label.act i o r : Label Serving) = .act i (.eff (.store q)) (Except.error err) := by
  unfold Owes.note
  split
  · exact Or.inl rfl
  · exact Or.inr (Or.inr ⟨_, _, rfl⟩)
  · exact Or.inr (Or.inl rfl)
  · exact Or.inl rfl

/-- What is owed stays owed until the loop is woken or the store fails. -/
theorem owes_since (before : List (Event Serving Machine)) {i : ℕ}
    {since : List (Event Serving Machine)} {ins : Event Serving Machine} {t : NewTransfer}
    {now : ℤ} {row : Transfer}
    (hins : ins.label = .act i (.eff (.store (.insertTransfer t now))) (Except.ok row))
    (hboot : ∀ e ∈ since, e.label.isBoot = false) :
    memory Owes.note false i (before ++ ins :: since) = true ∨
      (∃ e ∈ since, e.label = .act i .wake ()) ∨ ∃ e ∈ since, Fails i e := by
  induction since using List.reverseRecOn with
  | nil =>
    left
    rw [memory_append, hins]
    simp [Owes.note]
  | append_singleton since e ih =>
    rw [← List.cons_append, ← List.append_assoc, memory_append]
    rcases ih fun e he => hboot e (List.mem_append_left _ he) with howes | ⟨e', he', hw⟩ |
      ⟨e', he', hf⟩
    · rw [howes]
      have hlast := hboot e (List.mem_append_right _ (List.mem_singleton_self _))
      have hmem : e ∈ since ++ [e] := List.mem_append_right _ (List.mem_singleton_self _)
      obtain ⟨pre, l, post⟩ := e
      cases l with
      | boot ps => cases hlast
      | start p => exact Or.inl rfl
      | drift => exact Or.inl rfl
      | act j o r =>
        by_cases hj : j = i
        · subst hj
          simp only [if_true]
          rcases note_owing j o r with h | rfl | ⟨q, err, h⟩
          · exact Or.inl h
          · exact Or.inr (Or.inl ⟨_, hmem, rfl⟩)
          · exact Or.inr (Or.inr ⟨_, hmem, q, err, h⟩)
        · simp only [hj, if_false]
          exact Or.inl trivial
    · exact Or.inr (Or.inl ⟨e', List.mem_append_left _ he', hw⟩)
    · exact Or.inr (Or.inr ⟨e', List.mem_append_left _ he', hf⟩)

/-- **No wake is lost**: when a request that has inserted a row is answered, and the store has
not failed it since, it has woken the refresh loop after that; and a pass has begun since the
wake, or the wake is still to be taken. -/
theorem woken_before_answer {parts : Parts} {c₀ c : Pool.Config Serving Machine}
    {hist before since after : List (Event Serving Machine)} {ins e : Event Serving Machine}
    (run : (server app).Run c₀ hist c) (hboot : ∀ e ∈ hist, e.label.isBoot = false) {i : ℕ}
    (hp : c₀.threads[i]? = some (serve app (.proxied parts)))
    (hroute : endpoint parts = some .rgbinvoice ∨ endpoint parts = some .sendrgb)
    (hhist : hist = before ++ ins :: (since ++ e :: after)) {t : NewTransfer} {now : ℤ}
    {row : Transfer} {reply : Reply}
    (hins : ins.label = .act i (.eff (.store (.insertTransfer t now))) (Except.ok row))
    (hans : e.label = .act i (.respond reply) ()) :
    (∃ e' ∈ since, Fails i e') ∨
      ∃ s₁ w s₂, since = s₁ ++ w :: s₂ ∧ w.label = .act i .wake () ∧
        (e.pre.permit = true ∨ ∃ e' ∈ s₂, Takes e') := by
  have hsplit : hist = (before ++ ins :: since) ++ e :: after := by
    rw [hhist, List.append_assoc, List.cons_append]
  have hsince : ∀ e' ∈ since, e'.label.isBoot = false := fun e' he' =>
    hboot e' (by simp [hhist, he'])
  have hkeeps : (serve app (.proxied parts)).Keeps Owes.note Owes.Settled false fun _ _ => True :=
    (clears_serve hroute false rfl).mono fun _ _ _ => trivial
  have hsettled : memory Owes.note false i (before ++ ins :: since) = false :=
    run.thread_act_keeps hboot hp hkeeps hsplit hans
  -- the answer is only given when nothing is owed, so what was owed has been settled since
  rcases owes_since before hins hsince with howes | ⟨w, hw, hwake⟩ | hfails
  · rw [hsettled] at howes
    cases howes
  · right
    obtain ⟨s₁, s₂, rfl⟩ := List.append_of_mem hw
    refine ⟨s₁, w, s₂, rfl, hwake, ?_⟩
    obtain ⟨c₁, c₂, run₁, -, hpre, -⟩ := run.split hsplit
    rw [← hpre]
    have hpast : before ++ ins :: (s₁ ++ w :: s₂) = (before ++ ins :: s₁) ++ w :: s₂ := by simp
    exact permit_kept run₁ hpast hwake fun e' he' => hsince e' (by simp [he'])
  · exact Or.inl hfails

/-- The request, to its end. -/
def serving : List (Move (server invoiceApp)) := List.replicate 7 (.act 2 invoiceWire)

theorem serving_admitted : Pool.Admitted serving := admitted_replicate trivial

theorem serving_plays : ((server invoiceApp).play serving asked).isSome := rfl

def served : List (Event Serving Machine) :=
  (((server invoiceApp).play serving asked).get serving_plays).2

/-- The row is in, and the loop is told of it before the client is. -/
theorem woken_before_answer_invoice : ∃ hist₀ hist c,
    (server invoiceApp).Run initial hist₀ asked ∧ (server invoiceApp).Run asked hist c ∧
    ∃ before ins since e s₁ w s₂ t now row reply, hist = before ++ ins :: (since ++ [e]) ∧
    ins.label = .act 2 (.eff (.store (.insertTransfer t now))) (Except.ok row) ∧
    e.label = .act 2 (.respond reply) () ∧ since = s₁ ++ w :: s₂ ∧ w.label = .act 2 .wake () ∧
    (e.pre.permit = true ∨ ∃ e' ∈ s₂, Takes e') := by
  have run₀ := run_of_isSome (invoicing_admitted 0) (invoicing_plays 0 (by simp))
  have run := run_of_isSome serving_admitted serving_plays
  have hthread : asked.threads[2]? = some (serve invoiceApp (.proxied invoiceParts)) := rfl
  have hboots : served.all (fun e => !e.label.isBoot) = true := rfl
  obtain ⟨before, ins, w, e, t, now, row, reply, hhist, hins, hw, he⟩ :
      ∃ before ins w e t now row reply, served = before ++ ins :: ([w] ++ [e]) ∧
      ins.label = .act 2 (.eff (.store (.insertTransfer t now))) (Except.ok row) ∧
      w.label = .act 2 .wake () ∧ e.label = .act 2 (.respond reply) () :=
    ⟨[_, _, _, _], _, _, _, _, _, _, _, rfl, rfl, rfl, rfl⟩
  have hwoken := woken_before_answer run
    (fun e he => by simpa using List.all_eq_true.mp hboots e he) hthread (Or.inl rfl) hhist hins he
  obtain ⟨s₁, w', s₂, hsince, hw', htaken⟩ := hwoken.resolve_left (by
    rintro ⟨e', he', q, err, hf⟩
    cases List.mem_singleton.mp he'
    rw [hw] at hf
    cases hf)
  exact ⟨_, _, _, run₀, run, before, ins, [w], e, s₁, w', s₂, t, now, row, reply, hhist, hins, he,
    hsince, hw', htaken⟩

end Runs

end Companion.Server
