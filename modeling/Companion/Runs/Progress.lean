import Companion.Runs.Exclusion
import Companion.Runs.Server

/-!
# A request is answered

A handler waits for nothing but the engine lock, the body of its request, and the listings of
a sync, which go on for as long as the node has pages.  So from wherever a request has come
to, as long as no other thread has the lock, the steps of its own thread alone bring it to its
answer, or to a body that is not complete or a listing that has no end, whatever the node, the
store and the client do otherwise.

## Main definitions

* `noteServed`, `Able` — what a handler knows of the lock, and may ask for.
* `Wire.Owes` — what a handler has to wait for.
* `request_answered` — from any moment of a run the handler can go on until it has to.
-/

set_option autoImplicit false

namespace Companion.Server
open Lib Proc Pool

variable {app : App} {parts : Parts}

/-! ## The contract of a handler -/

section Contract

/-- The notes of a task, for the operations of the server. -/
def noteServed (m : Option Inside) : (o : ServerOp) → o.Res → Option Inside
  | .eff o, r => Inside.note m o r
  | _, _ => m

/-- What does not wait, or only for the lock outside of it. -/
def Able (m : Option Inside) : ServerOp → Prop
  | .eff o => o.Orderly m
  | .begin _ _ | .wait => False
  | _ => True

/-- What is not waited for, inside or outside the lock. -/
def Passing : ServerOp → Prop
  | .eff o => o.Free
  | .begin _ _ | .wait => False
  | _ => True

theorem passing_outside {m : Option Inside} {o : ServerOp} (ho : Passing o) (hm : m = none) :
    Able m o ∧ ∀ r, noteServed m o r = none := by
  subst hm
  cases o with
  | eff q => exact ⟨ho.orderly none, note_none ho.2.1⟩
  | begin _ _ | wait => exact absurd ho id
  | read _ | accept _ | collect _ | send _ _ | respond _ | spawn _ | wake | sleep _ | bind
  | listen => exact ⟨trivial, fun _ => rfl⟩

theorem passing_inside {m : Option Inside} {o : ServerOp} (ho : Passing o)
    (hm : m.isSome = true) : Able m o ∧ ∀ r, (noteServed m o r).isSome = true := by
  obtain ⟨n, rfl⟩ := Option.isSome_iff_exists.mp hm
  cases o with
  | eff q => exact ⟨ho.orderly _, note_some ho.2.2 n⟩
  | begin _ _ | wait => exact absurd ho id
  | read _ | accept _ | collect _ | send _ _ | respond _ | spawn _ | wake | sleep _ | bind
  | listen => exact ⟨trivial, fun _ => rfl⟩

theorem passing_forwarding {o : ServerOp} (h : Forwarding o) : Passing o := by
  cases o with
  | eff q =>
    cases q with
    | store q => cases q <;> first | exact ⟨rfl, rfl, rfl⟩ | exact absurd h id
    | clock => exact ⟨rfl, rfl, rfl⟩
    | node _ | forward _ | post _ | uuid | lock | unlock => exact absurd h id
  | collect _ | send _ _ => trivial
  | read _ | accept _ | respond _ | spawn _ | begin _ _ | wake | wait | sleep _ | bind
  | listen => exact absurd h id

/-- Outside the lock, and still outside at the end. -/
abbrev Outdoors {α : Type} (q : Proc Serving α) : Prop := q.Stays noteServed Able (· = none)

theorem outdoors_of_uses {α : Type} {q : Proc Serving α} (h : q.Uses Passing) : Outdoors q :=
  stays_of_uses h fun _ _ ho hm => passing_outside ho hm

theorem passing_ask {o : ServerOp} (h : Passing o) : (ask o).Uses Passing := uses_perform h

theorem passing_lift {α : Type} {p : Proc Effects α} (h : p.Uses Op.Free) :
    (p.lift effects).Uses Passing := lift_uses h

theorem passing_spawnAssetSync (ids : List String) : (spawnAssetSync ids).run.Uses Passing :=
  Fallible.uses_lift (passing_ask trivial)

theorem outdoors_forwardThen (r : Route) {onSuccess : Exchange → ServerProg HookError Unit}
    (hhook : ∀ ex, (onSuccess ex).run.Uses Passing) :
    Outdoors (forwardThen app r parts onSuccess) :=
  stays_forwarding (fun _ _ ho hm => passing_outside (passing_forwarding ho) hm) r
    fun ex => outdoors_of_uses (hhook ex)

/-! ### The hooks -/

theorem passing_rgbinvoiceHook (ex : Exchange) : (rgbinvoiceHook app ex).run.Uses Passing :=
  Fallible.uses_bind (passing_lift (free_rgbinvoiceHook _ _)) fun _ =>
    Fallible.uses_lift (passing_ask trivial)

theorem passing_sendrgbHook (ex : Exchange) : (sendrgbHook app ex).run.Uses Passing := by
  refine Fallible.uses_bind (passing_lift (free_parseReq _)) fun req => ?_
  refine Fallible.uses_bind (passing_lift (free_parseResp _)) fun resp => ?_
  refine Fallible.uses_bind (passing_lift (free_insertSends _ _ _)) fun _ => ?_
  exact Fallible.uses_bind (passing_spawnAssetSync _) fun _ =>
    Fallible.uses_lift (passing_ask trivial)

theorem passing_issueHook (schema : Schema) (ex : Exchange) :
    (issueHook app schema ex).run.Uses Passing := by
  refine Fallible.uses_bind (passing_lift (free_parseResp _)) fun resp => ?_
  refine Fallible.uses_bind (Fallible.uses_lift (passing_lift free_now)) fun t => ?_
  exact Fallible.uses_bind (passing_lift (Fallible.uses_mapErr (free_store rfl))) fun _ =>
    passing_spawnAssetSync _

theorem passing_syncHook {α : Type} (parse : Bytes → Option α) (ids : α → List String)
    (ex : Exchange) : (syncHook parse ids ex).run.Uses Passing :=
  Fallible.uses_bind (passing_lift (free_parseReq _)) fun _ => passing_spawnAssetSync _

theorem passing_stateHook (state : NodeState) : ((Fallible.mapErr HookError.engine
    (setNodeState state)).lift effects).run.Uses Passing :=
  passing_lift (Fallible.uses_mapErr (free_setNodeState state))

/-- The sync is made under the lock that the handler has taken. -/
theorem stays_syncPendingHook :
    (syncPendingHook app).run.Stays noteServed Able (·.isSome = true) := by
  refine Fallible.stays_bind (stays_of_uses (Fallible.uses_lift (passing_lift free_now))
    fun _ _ ho hm => passing_inside ho hm) fun t => Fallible.stays_bind ?_ fun _ => stays_done _
  intro m hm
  obtain ⟨n, rfl⟩ := Option.isSome_iff_exists.mp hm
  have hsync : Holding n (Fallible.mapErr HookError.engine (syncLocked app.cfg .pending t))
      fun _ _ => True := holding_mapErr (holding_syncLocked app.cfg .pending t n)
  have hlift : ((Fallible.mapErr HookError.engine (syncLocked app.cfg .pending t)).run.lift
      effects).Keeps noteServed Able (some n) fun r m => ∃ n', m = some n' ∧
        ∀ a, r = .ok a → True := lift_keeps (fun _ _ _ => rfl) hsync
  refine hlift.mono fun r m hm => ?_
  obtain ⟨n', rfl, -⟩ := hm
  rfl

theorem outdoors_syncPending (r : Route) : Outdoors (syncPending app r parts) := by
  have hforward : (forwardThen app r parts fun _ => syncPendingHook app).Stays noteServed Able
      (·.isSome = true) :=
    stays_forwarding (fun _ _ ho hm => passing_inside (passing_forwarding ho) hm) r
      fun _ => stays_syncPendingHook
  rintro m rfl
  refine keeps_bind ⟨rfl, fun _ => keeps_bind ?_⟩
  refine (hforward (some {}) rfl).mono fun resp m hm => ?_
  exact keeps_bind ⟨hm, fun _ => rfl⟩

theorem outdoors_handler (e : Endpoint) : Outdoors (e.handler app parts) := by
  cases e with
  | rgbinvoice => exact outdoors_forwardThen _ passing_rgbinvoiceHook
  | sendrgb => exact outdoors_forwardThen _ passing_sendrgbHook
  | keysend => exact outdoors_forwardThen _ fun _ => passing_lift (free_keysendHook _ _)
  | sendpayment => exact outdoors_forwardThen _ fun _ => passing_lift (free_sendpaymentHook _ _)
  | lninvoice => exact outdoors_forwardThen _ fun _ => passing_lift (free_lninvoiceHook _ _)
  | issue schema => exact outdoors_forwardThen _ (passing_issueHook schema)
  | inflate | assetlink => exact outdoors_forwardThen _ (passing_syncHook _ _)
  | refreshtransfers | failtransfers => exact outdoors_syncPending _
  | init | restore | lock | shutdown =>
    exact outdoors_forwardThen _ fun _ => passing_stateHook _
  | unlock =>
    exact outdoors_forwardThen _ fun _ => Fallible.uses_bind (passing_stateHook .unlocked)
      fun _ => Fallible.uses_lift (passing_ask trivial)
  | fallback =>
    exact outdoors_of_uses (Uses.mono (fun _ h => passing_forwarding h) forwarding_fallback)

/-- A request, from its arrival to its answer. -/
theorem outdoors_serve (req : Request) : Outdoors (serve app req) := by
  cases req with
  | api authorization req =>
    have hreads : ((Api.serve app.api authorization req).lift reads).Uses Passing :=
      lift_uses ((uses_true _).mono fun _ _ => trivial)
    exact outdoors_of_uses (uses_bind (passing_ask trivial) fun _ =>
      uses_bind hreads fun _ => passing_ask trivial)
  | proxied parts =>
    refine stays_bind (outdoors_of_uses (passing_ask trivial)) fun _ => stays_bind ?_
      fun _ => outdoors_of_uses (passing_ask trivial)
    rw [handle]
    split
    · exact outdoors_handler _
    · exact stays_done _

end Contract

/-! ## What is waited for -/

section Progress

/-- What the environment does not answer: the body of a request before its end, and a listing
without one. -/
def Wire.Owes (w : Wire) : ServerOp → Prop
  | .collect _ => w.frames = none
  | .eff o => paged o = true ∧ w.listed = false
  | _ => False

/-- Apart from the lock the world answers every operation of a task. -/
theorem world_performs (w : World) {o : Op} (h : Host) (hlock : o = .lock → h.locked = false) :
    ∃ r h', w.perform o h = some (r, h') := by
  cases o with
  | lock => exact ⟨_, _, if_neg (by simp [hlock rfl])⟩
  | store q =>
    by_cases hfails : w.storeFails = true
    · exact ⟨_, _, if_pos hfails⟩
    · exact ⟨_, _, if_neg hfails⟩
  | node _ | forward _ | post _ | clock | uuid | unlock => exact ⟨_, _, rfl⟩

/-- A handler is not kept waiting, as long as requests are accepted and no other thread has the
lock; and then it is not later. -/
structure Unhindered (m : Option Inside) (s : Machine) : Prop where
  listening : s.listening = true
  lock : s.host.locked = true → m.isSome = true

/-- The lock is held only as the notes say. -/
theorem lock_noted {w : World} {m : Option Inside} {o : Op} {h h' : Host} {r : o.Res}
    (hp : w.perform o h = some (r, h')) (hlock : h.locked = true → m.isSome = true)
    (hheld : h'.locked = true) : (Inside.note m o r).isSome = true := by
  by_cases htake : o.takesLock = true
  · exact (engineLock_tracks defaults).take htake
  · by_cases hgive : o.givesLock = true
    · rw [gives_lock hgive hp] at hheld
      cases hheld
    · simp only [Bool.not_eq_true] at htake hgive
      rw [locked_perform hp htake hgive] at hheld
      exact ((engineLock_tracks defaults).other htake hgive).trans (hlock hheld)

/-- What the environment does not owe is performed. -/
theorem Unhindered.performs {m : Option Inside} {s : Machine} (h : Unhindered m s)
    {o : ServerOp} (ho : Able m o) {w : Wire} (hw : ¬ w.Owes o) :
    ∃ r s', w.perform o s = some (r, s') ∧ Unhindered (noteServed m o r) s' := by
  obtain ⟨hlistening, hlock⟩ := h
  cases o with
  | eff q =>
    have hfree : q = .lock → s.host.locked = false := by
      rintro rfl
      have hout : m = none := ho
      subst hout
      simpa using hlock
    obtain ⟨r, host, hp⟩ := world_performs w.world s.host hfree
    refine ⟨r, { s with host }, ?_, hlistening, lock_noted hp hlock⟩
    have hlisted : ¬ (paged q && !w.listed) = true := by simpa [Wire.Owes] using hw
    simp only [Wire.perform, hp, hlisted]
    rfl
  | collect parts =>
    obtain ⟨frames, hframes⟩ := Option.ne_none_iff_exists'.mp hw
    refine ⟨frames, s, ?_, hlistening, hlock⟩
    simp only [Wire.perform, hframes]
    rfl
  | accept req => exact ⟨(), s, if_pos hlistening, hlistening, hlock⟩
  | begin _ _ | wait => exact absurd ho id
  | listen => exact ⟨(), { s with listening := true }, rfl, rfl, hlock⟩
  | read _ | send _ _ | respond _ | spawn _ | wake | sleep _ | bind =>
    exact ⟨_, _, rfl, hlistening, hlock⟩

/-- Thread `i` moves alone, and this is what the environment decides. -/
def alone (app : App) (i : ℕ) (wires : List Wire) : List (Move (server app)) :=
  wires.map (.act i)

theorem alone_cons (i : ℕ) (w : Wire) (wires : List Wire) :
    alone app i (w :: wires) = .act i w :: alone app i wires := rfl

/-- What keeps the contract goes on by its own thread until it ends, or asks for what the
environment owes it. -/
theorem runs_on {q : Proc Serving Unit} {m : Option Inside}
    (hq : q.Keeps noteServed Able m fun _ _ => True) (wires : ℕ → Wire)
    {c : Pool.Config Serving Machine} {i : ℕ} (hi : c.threads[i]? = some q)
    (h : Unhindered m c.shared) : ∃ n c' later,
      (server app).play (alone app i ((List.range n).map wires)) c = some (c', later) ∧
      (∀ e ∈ later, e.label.isBoot = false) ∧
      (c'.threads[i]? = some (.done ()) ∨
        ∃ o k, c'.threads[i]? = some (.ask o k) ∧ (wires n).Owes o) := by
  -- each step goes one level down in the tree of the program
  induction q generalizing m wires c with
  | done a => exact ⟨0, c, [], rfl, by simp, Or.inl hi⟩
  | ask o k ih =>
    by_cases howes : (wires 0).Owes o
    · exact ⟨0, c, [], rfl, by simp, Or.inr ⟨o, k, hi, howes⟩⟩
    obtain ⟨r, s', hperf, hnext⟩ := h.performs hq.1 howes
    have hmove : (server app).move (.act i (wires 0)) c =
        some (⟨s', c.threads.set i (k r)⟩, .act i o r) := by
      have hperf' : (server app).perform (wires 0) i o c.shared = some (r, s') := hperf
      simp only [move, hi, hperf']
      rfl
    have hself : (⟨s', c.threads.set i (k r)⟩ : Pool.Config Serving Machine).threads[i]? =
        some (k r) := List.getElem?_set_self (List.getElem?_eq_some_iff.mp hi).1
    obtain ⟨n, c', later, hplay, hacts, hend⟩ :=
      ih r (hq.2 r) (fun j => wires (j + 1)) hself hnext
    refine ⟨n + 1, c', ⟨c.shared, .act i o r, s'⟩ :: later, ?_, ?_, hend⟩
    · have hwires : (List.range (n + 1)).map wires =
          wires 0 :: (List.range n).map fun j => wires (j + 1) := by
        rw [List.range_succ_eq_map, List.map_cons, List.map_map]
        rfl
      rw [hwires, alone_cons, play, hmove]
      change Option.map _ ((server app).play (alone app i _) _) = _
      rw [hplay]
      rfl
    · intro e he
      rcases List.mem_cons.mp he with rfl | he
      · rfl
      · exact hacts e he

end Progress

/-! ## Runs -/

section Runs
variable {c₀ c : Pool.Config Serving Machine} {hist : List (Event Serving Machine)} {i : ℕ}

theorem reaches_replied {α : Type} {p : Proc Serving α} {f : α → Reply} {l : List (Deed Serving)}
    (h : (p >>= fun a => ask (.respond (f a))).Reaches l (.done ())) :
    ∃ l' reply, l = l' ++ [⟨.respond reply, ()⟩] := by
  rcases reaches_bind h with ⟨p', -, hp'⟩ | ⟨a, l₁, l₂, rfl, -, hreply⟩
  · cases p' <;> cases hp'
  · rcases reaches_ask hreply with ⟨-, hdone⟩ | ⟨r, l', rfl, hend⟩
    · cases hdone
    · obtain ⟨rfl, -⟩ := reaches_done hend
      exact ⟨l₁, f a, rfl⟩

/-- The reply to a request is the last thing done for it. -/
theorem serve_replied {req : Request} {l : List (Deed Serving)}
    (h : (serve app req).Reaches l (.done ())) :
    ∃ l' reply, l = l' ++ [⟨.respond reply, ()⟩] := by
  cases req with
  | api authorization req =>
    rcases reaches_ask h with ⟨-, hdone⟩ | ⟨r, l', rfl, hrest⟩
    · cases hdone
    · obtain ⟨l'', reply, rfl⟩ := reaches_replied hrest
      exact ⟨_ :: l'', reply, rfl⟩
  | proxied parts =>
    rcases reaches_ask h with ⟨-, hdone⟩ | ⟨r, l', rfl, hrest⟩
    · cases hdone
    · obtain ⟨l'', reply, rfl⟩ := reaches_replied hrest
      exact ⟨_ :: l'', reply, rfl⟩

/-- What thread `i` knows of the lock. -/
def lockNotes (i : ℕ) (hist : List (Event Serving Machine)) : Option Inside :=
  memory noteServed none i hist

/-- **A request is answered**: from any moment of a run at which requests are accepted and no
other thread has the engine lock, the steps of its own thread alone bring a request to its
answer, which is the last thing done for it, or to its body or a listing, as long as the
environment owes that; whatever the environment decides on the way. -/
theorem request_answered {req : Request} (run : (server app).Run c₀ hist c)
    (hboot : ∀ e ∈ hist, e.label.isBoot = false) (hp : c₀.threads[i]? = some (serve app req))
    (hlistening : c.shared.listening = true)
    (hlock : c.shared.host.locked = true → (lockNotes i hist).isSome = true)
    (wires : ℕ → Wire) : ∃ n c' later,
      (server app).play (alone app i ((List.range n).map wires)) c = some (c', later) ∧
      ((c'.threads[i]? = some (.done ()) ∧
          ∃ l reply, deeds i (hist ++ later) = l ++ [⟨.respond reply, ()⟩]) ∨
        ∃ o k, c'.threads[i]? = some (.ask o k) ∧ (wires n).Owes o) := by
  have hkeeps : (serve app req).Keeps noteServed Able none fun _ _ => True :=
    (outdoors_serve req none rfl).mono fun _ _ _ => trivial
  obtain ⟨q, hq, hqkeeps⟩ := run.thread_keeps (R := fun _ => True) hboot hp hkeeps
  -- the notes of the thread tell how far it is with the lock
  obtain ⟨n, c', later, hplay, hacts, hend⟩ := runs_on hqkeeps wires hq ⟨hlistening, hlock⟩
  refine ⟨n, c', later, hplay, hend.imp_left fun hdone => ⟨hdone, ?_⟩⟩
  have run' := run.append (run_of_play (admitted_acts _ _) hplay)
  obtain ⟨q', hq', hreaches⟩ := run'.reaches (fun e he => by
    rcases List.mem_append.mp he with he | he
    · exact hboot e he
    · exact hacts e he) hp
  rw [hdone] at hq'
  cases hq'
  exact serve_replied hreaches

/-- An invoice that has been asked for is answered. -/
theorem request_answered_invoice : ∃ hist₀ n c' later l reply,
    (server invoiceApp).Run initial hist₀ asked ∧
    (server invoiceApp).play (alone invoiceApp 2 ((List.range n).map fun _ => invoiceWire)) asked =
      some (c', later) ∧
    c'.threads[2]? = some (.done ()) ∧ deeds 2 later = l ++ [⟨.respond reply, ()⟩] := by
  have run₀ := run_of_isSome (invoicing_admitted 0) (invoicing_plays 0 (by simp))
  have hthread : asked.threads[2]? = some (serve invoiceApp (.proxied invoiceParts)) := rfl
  have hfree : asked.shared.host.locked = false := rfl
  obtain ⟨n, c', later, hplay, hend⟩ := request_answered .nil (by simp) hthread
    rfl (fun h => by simp [hfree] at h) fun _ => invoiceWire
  -- the body is complete, and every listing ends
  have howes : ∀ o, ¬ invoiceWire.Owes o := by
    intro o ho
    cases o with
    | collect parts => cases ho
    | eff q => cases ho.2
    | read _ | accept _ | send _ _ | respond _ | spawn _ | begin _ _ | wake | wait | sleep _
    | bind | listen => exact ho
  obtain ⟨hdone, l, reply, hdeeds⟩ := hend.resolve_right fun ⟨o, _, _, ho⟩ => howes o ho
  exact ⟨_, n, c', later, l, reply, run₀, hplay, hdone, hdeeds⟩

end Runs

end Companion.Server
