import Companion.Lib.Observe
import Companion.Runs.Server

/-!
# The API observes the run

The handlers of the API only look at the database.  Served among everything else that runs in
the process, each of their queries finds one state of the run, later and later ones.  So an
answer is one that an observer of the run can come to, and what is known of observers is
known of the answers.

## Main definitions

* `Reading` — where a thread is that serves a request of the API.
* `api_answered` — what the answers of a run are.
-/

set_option autoImplicit false

namespace Companion.Server
open Lib Proc Pool

variable {app : App} {authorization : Option Bytes} {req : Api.Request}

/-- The answer goes back, and that is the end of it. -/
def replies (resp : Api.Response) : Proc Serving Unit := ask (.respond (.api resp))

/-- The thread waits for its request, asks the queries of its handler, or has finished. -/
inductive Reading (app : App) (authorization : Option Bytes) (req : Api.Request)
    (before : List Host) (now : Host) : Proc Serving Unit → Prop
  | arriving : Reading app authorization req before now (serve app (.api authorization req))
  | asking {q : Proc Api.Reads Api.Response} :
      Watches Api.ReadOp.Answers before now (Api.serve app.api authorization req) q →
      Reading app authorization req before now (q.lift reads >>= replies)
  | finished : Reading app authorization req before now (.done ())

/-- The others may go on meanwhile. -/
theorem Reading.wait {before : List Host} {now : Host} {q : Proc Serving Unit}
    (h : Reading app authorization req before now q) (now' : Host) :
    Reading app authorization req (before ++ [now]) now' q := by
  cases h with
  | arriving => exact .arriving
  | asking h => exact .asking (h.wait now')
  | finished => exact .finished

/-- A query finds what is there. -/
theorem answers_read {w : Wire} {q : Api.ReadOp} {m m' : Machine} {r : Except StoreError q.Res}
    (hp : w.perform (.read q) m = some (r, m')) : q.Answers m.host r := by
  cases hp
  by_cases h : w.world.storeFails = true
  · exact Or.inl (if_pos h)
  · exact Or.inr (if_neg h)

/-- The thread goes on itself. -/
theorem Reading.act {before : List Host} {m m' : Machine} {w : Wire} {o : ServerOp}
    {k : o.Res → Proc Serving Unit} {r : o.Res}
    (h : Reading app authorization req before m.host (.ask o k))
    (hp : w.perform o m = some (r, m')) :
    Reading app authorization req (before ++ [m.host]) m'.host (k r) := by
  generalize hq : @Proc.ask Serving Unit o k = q' at h
  cases h with
  | arriving =>
    cases hq
    exact .asking (watches_start _ _ _)
  | @asking q h =>
    cases q with
    | done resp =>
      -- the handler has its answer, and gives it
      cases hq
      exact .finished
    | ask o' k' =>
      cases hq
      exact .asking (h.ask (answers_read hp) _)
  | finished => cases hq

/-- What it answers it has observed. -/
theorem Reading.answer {before : List Host} {now : Host} {resp : Api.Response}
    {k : Unit → Proc Serving Unit}
    (h : Reading app authorization req before now (.ask (.respond (.api resp)) k)) :
    Proc.Observes Api.ReadOp.Answers (before ++ [now]) (Api.serve app.api authorization req)
      resp := by
  generalize hq : @Proc.ask Serving Unit (.respond (.api resp)) k = q' at h
  cases h with
  | arriving => cases hq
  | @asking q h =>
    cases q with
    | done resp' =>
      cases hq
      exact h.done
    | ask o k' => cases hq
  | finished => cases hq

/-! ## Runs -/

section Runs
variable {c₀ c : Pool.Config Serving Machine} {hist before after : List (Event Serving Machine)}
  {e : Event Serving Machine} {i : ℕ}

/-- The hosts of a run. -/
def hosts (c₀ : Pool.Config Serving Machine) (hist : List (Event Serving Machine)) : List Host :=
  (trace c₀.shared hist).map Machine.host

theorem hosts_append (hist : List (Event Serving Machine)) (e : Event Serving Machine) :
    hosts c₀ (hist ++ [e]) = hosts c₀ hist ++ [e.post.host] := by
  simp [hosts, trace_append]

/-- Until the next boot the thread asks its queries of the states of the run. -/
theorem reading_of_run (run : (server app).Run c₀ hist c)
    (hboot : ∀ e ∈ hist, e.label.isBoot = false)
    (hp : c₀.threads[i]? = some (serve app (.api authorization req))) :
    ∃ past q, hosts c₀ hist = past ++ [c.shared.host] ∧ c.threads[i]? = some q ∧
      Reading app authorization req past c.shared.host q := by
  induction run with
  | nil => exact ⟨[], _, rfl, hp, .arriving⟩
  | @snoc hist c l c' _ hs ih =>
    obtain ⟨past, q, hpast, hq, hreading⟩ := ih fun e he => hboot e (List.mem_append_left _ he)
    have hlast := hboot ⟨c.shared, l, c'.shared⟩ (List.mem_append_right _ (by simp))
    have hlt := (List.getElem?_eq_some_iff.mp hq).1
    rw [hosts_append, hpast]
    cases hs with
    | boot hb => cases hlast
    | start hstart =>
      exact ⟨_, q, rfl, (List.getElem?_append_left hlt).trans hq, hreading.wait _⟩
    | drift ch hd => exact ⟨_, q, rfl, hq, hreading.wait _⟩
    | @act s ts j o k r s' ch hj hperf =>
      by_cases hij : j = i
      · subst hij
        rw [hj] at hq
        cases hq
        exact ⟨_, k r, rfl, List.getElem?_set_self hlt, hreading.act hperf⟩
      · exact ⟨_, q, rfl, (List.getElem?_set_ne hij).trans hq, hreading.wait _⟩

/-- **An answer is an observation**: what a request of the API is answered during a run is what
an observer can conclude that is shown states of the run, later and later ones. -/
theorem api_answered (run : (server app).Run c₀ hist c)
    (hboot : ∀ e ∈ hist, e.label.isBoot = false)
    (hp : c₀.threads[i]? = some (serve app (.api authorization req)))
    (hhist : hist = before ++ e :: after) {resp : Api.Response}
    (hact : e.label = .act i (.respond (.api resp)) ()) :
    Proc.Observes Api.ReadOp.Answers (hosts c₀ before) (Api.serve app.api authorization req)
      resp := by
  obtain ⟨c₁, c₂, run₁, hstep, -⟩ := run.split hhist
  obtain ⟨past, q, hpast, hq, hreading⟩ := reading_of_run run₁
    (fun e he => hboot e (by simp [hhist, he])) hp
  rw [hpast]
  rw [hact] at hstep
  cases hstep with
  | act ch hi hperf =>
    rw [hi] at hq
    cases hq
    exact hreading.answer

theorem health_plays :
    ((server invoiceApp).play (requesting (.api none .health) 0) initial).isSome := rfl

/-- The companion when its health is asked for. -/
def probing : Pool.Config Serving Machine :=
  (((server invoiceApp).play (requesting (.api none .health) 0) initial).get health_plays).1

/-- The request, to its end. -/
def checkup : List (Move (server invoiceApp)) := List.replicate 7 (.act 2 invoiceWire)

theorem checkup_admitted : Pool.Admitted checkup := admitted_replicate trivial

theorem checkup_plays : ((server invoiceApp).play checkup probing).isSome := rfl

/-- The health is what an observer finds. -/
theorem api_answered_health : ∃ hist₀ before e c h, (server invoiceApp).Run initial hist₀ probing ∧
    (server invoiceApp).Run probing (before ++ [e]) c ∧
    e.label = .act 2 (.respond (.api (.health h))) () ∧
    Proc.Observes Api.ReadOp.Answers (hosts probing before) (Api.serve invoiceApp.api none .health)
      (.health h) := by
  have run₀ := run_of_isSome (requesting_admitted _ 0) health_plays
  have run := run_of_isSome checkup_admitted checkup_plays
  have hthread : probing.threads[2]? = some (serve invoiceApp (.api none .health)) := rfl
  have hboots : (((server invoiceApp).play checkup probing).get checkup_plays).2.all
      (fun e => !e.label.isBoot) = true := rfl
  obtain ⟨before, e, h, hhist, he⟩ : ∃ before e h,
      (((server invoiceApp).play checkup probing).get checkup_plays).2 = before ++ [e] ∧
      e.label = .act 2 (.respond (.api (.health h))) () :=
    ⟨_, _, _, (List.dropLast_append_getLast (List.cons_ne_nil _ _)).symm, rfl⟩
  have hanswered := api_answered run
    (fun e he => by simpa using List.all_eq_true.mp hboots e he) hthread hhist he
  rw [hhist] at run
  exact ⟨_, before, e, _, h, run₀, run, he, hanswered⟩

end Runs

end Companion.Server
