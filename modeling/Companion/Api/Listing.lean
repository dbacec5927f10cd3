import Companion.Api
import Companion.Lib.Newest
import Companion.Lib.Observe

/-!
# Listings

What `GET /companion/transfers` and `GET /companion/payments` answer: the newest rows that
match the query, as they are at one moment, or an error that says what was wrong with the
request.

## Main definitions

* `observes_read` — what a handler learns from one query.
* `ListQuery.Matches`, `PaymentListQuery.Matches` — the rows that are asked for.
* `Answered` — what is said to a request for a list.
* `listing_answered` — the two handlers keep to it.
-/

set_option autoImplicit false

namespace Companion.Api
open Lib Pool

section Handlers
variable {α β : Type} {ss : List Host}

/-- A query of a handler: it is refused, which ends the request, or finds what is there. -/
theorem observes_read {q : ReadOp} {f : q.Res → Handler β} {b : Except ApiError β}
    (h : Proc.Observes ReadOp.Answers ss (read q >>= f).run b) :
    b = .error (.store .db) ∨ ∃ before s after, ss = before ++ s :: after ∧
      Proc.Observes ReadOp.Answers (s :: after) (f (q.answer s.db)).run b := by
  obtain ⟨before, s, after, r, hss, hans, hk⟩ := Proc.observes_ask h
  cases hans with
  | inl hrefused =>
    subst hrefused
    exact Or.inl (Proc.observes_done hk)
  | inr hfound =>
    subst hfound
    exact Or.inr ⟨before, s, after, hss, hk⟩

/-- A response that is one query: what is found, or that the store has failed. -/
theorem observes_respond_read {q : ReadOp} {f : q.Res → Response} {resp : Response} :
    Proc.Observes ReadOp.Answers ss (respond (read q) f) resp ↔
      ∃ s ∈ ss, resp = .error ⟨500, "Internal", "internal error"⟩ ∨ resp = f (q.answer s.db) := by
  have hask : respond (read q) f = @Proc.ask Reads _ q fun r => .done (match r with
      | .ok a => f a
      | .error _ => .error ⟨500, "Internal", "internal error"⟩) := by
    refine congrArg (@Proc.ask Reads _ q) (funext fun r => ?_)
    cases r <;> rfl
  rw [hask, Proc.observes_ask_done]
  refine exists_congr fun s => and_congr_right fun _ => ?_
  constructor
  · rintro ⟨r, rfl | rfl, rfl⟩
    · exact Or.inl rfl
    · exact Or.inr rfl
  · rintro (rfl | rfl)
    · exact ⟨_, Or.inl rfl, rfl⟩
    · exact ⟨_, Or.inr rfl, rfl⟩

end Handlers

/-! ## What is asked for -/

/-- The row has the status and the asset the query names, if it names any. -/
def ListQuery.Matches (q : ListQuery) (r : Transfer) : Bool :=
  q.status.all (fun s => Named.name r.status = s) && q.assetId.all fun a => r.assetId = some a

def PaymentListQuery.Matches (q : PaymentListQuery) (r : Payment) : Bool :=
  q.status.all fun s => Named.name r.status = s

/-- The list shows the newest of some rows, as they are at one moment; or the store fails. -/
def Shows {α : Type} (ss : List Host) (rows : Db → List α) (createdAt : α → ℤ) (limit : ℕ)
    (list : List α → Response) (resp : Response) : Prop :=
  ∃ s ∈ ss, resp = .error ⟨500, "Internal", "internal error"⟩ ∨
    ∃ page, resp = list page ∧ Front createdAt (rows s.db) limit page

/-- What is said to a request for a list: whether it is let in comes first, then what is wrong
with the query and with the status it names, and only then is the list looked at. -/
structure Answered {Q : Type} (letIn : Bool) (query : Except String Q)
    (status : Q → Option String) (known : String → Prop) (shown : Q → Response → Prop)
    (resp : Response) : Prop where
  unauthorized : letIn = false →
    resp = .error ⟨401, "Unauthorized", "missing or invalid bearer token"⟩
  malformed : letIn = true → ∀ text, query = .error text →
    resp = .error ⟨400, "InvalidRequest", text⟩
  invalid : letIn = true → ∀ q s, query = .ok q → status q = some s → ¬ known s →
    resp = .error ⟨400, "InvalidRequest", s!"invalid status: {s}"⟩
  shown : letIn = true → ∀ q, query = .ok q → (∀ s, status q = some s → known s) → shown q resp

section Answered
variable {Q : Type} {query : Except String Q} {status : Q → Option String}
  {known : String → Prop} {shown : Q → Response → Prop} {resp : Response} {q : Q}

theorem answered_unauthorized : Answered false query status known shown resp ↔
    resp = .error ⟨401, "Unauthorized", "missing or invalid bearer token"⟩ :=
  ⟨fun h => h.unauthorized rfl, fun h => ⟨fun _ => h, by simp, by simp, by simp⟩⟩

theorem answered_malformed {text : String} :
    Answered true (.error text) status known shown resp ↔
      resp = .error ⟨400, "InvalidRequest", text⟩ := by
  constructor
  · exact fun h => h.malformed rfl text rfl
  · intro h
    exact ⟨by simp, by simp [h], by simp, by simp⟩

theorem answered_invalid {s : String} (hs : status q = some s) (hknown : ¬ known s) :
    Answered true (.ok q) status known shown resp ↔
      resp = .error ⟨400, "InvalidRequest", s!"invalid status: {s}"⟩ := by
  constructor
  · exact fun h => h.invalid rfl q s rfl hs hknown
  · intro h
    refine ⟨by simp, by simp, ?_, ?_⟩
    · rintro - q' s' ⟨⟩ hs' -
      rw [hs] at hs'
      cases hs'
      exact h
    · rintro - q' ⟨⟩ hall
      exact absurd (hall s hs) hknown

theorem answered_shown (hall : ∀ s, status q = some s → known s) :
    Answered true (.ok q) status known shown resp ↔ shown q resp := by
  constructor
  · exact fun h => h.shown rfl q rfl hall
  · intro h
    refine ⟨by simp, by simp, ?_, ?_⟩
    · rintro - q' s ⟨⟩ hs hknown
      exact absurd (hall s hs) hknown
    · rintro - q' ⟨⟩ -
      exact h

end Answered

/-! ## The handlers -/

section Lists
variable {ss : List Host} {resp : Response}

theorem nodup_of_table {α : Type} {clash : α → α → Prop} (t : Table α clash)
    (h : ∀ a, clash a a) (p : α → Bool) : (t.rows.filter p).Nodup := by
  refine List.Nodup.filter p (t.unique.imp fun {a b} hab heq => hab ?_)
  rw [← heq]
  exact h a

/-- What a list finds is the front of the rows it is about. -/
theorem shows_iff {α : Type} {rows : Db → List α} {createdAt : α → ℤ} {limit : ℕ}
    {list : List α → Response} (hrows : ∀ db, (rows db).Nodup) :
    (∃ s ∈ ss, resp = .error ⟨500, "Internal", "internal error"⟩ ∨
      resp = list ((newestFirst createdAt (rows s.db)).take limit)) ↔
    Shows ss rows createdAt limit list resp := by
  refine exists_congr fun s => and_congr_right fun _ => or_congr_right ?_
  constructor
  · rintro rfl
    exact ⟨_, rfl, front_newest createdAt (rows s.db) limit⟩
  · rintro ⟨page, rfl, hpage⟩
    rw [(front_iff (hrows s.db)).mp hpage]
    rfl

/-- A status that is the name of none is refused. -/
theorem parseStatus_unknown {α : Type} [Named α] {s : String} (h : ¬ ∃ a : α, Named.name a = s) :
    (parseStatus (some s) : Handler (Option α)) =
      throw (.invalidRequest s!"invalid status: {s}") := by
  have hnone : (fromName s : Option α) = none := by
    rw [Option.eq_none_iff_forall_ne_some]
    intro a ha
    exact h ⟨a, (fromName_eq_some.mp ha).symm⟩
  simp only [parseStatus, hnone]

/-- A status that is read selects the rows whose status has the name it was read from. -/
theorem parseStatus_known {α : Type} [Named α] [DecidableEq α] {status : Option String}
    (h : ∀ s, status = some s → ∃ a : α, Named.name a = s) :
    ∃ asked : Option α, (parseStatus status : Handler (Option α)) = pure asked ∧
      ∀ b : α, (asked.all fun a => b = a) = status.all fun s => Named.name b = s := by
  cases status with
  | none => exact ⟨none, rfl, fun _ => rfl⟩
  | some s =>
    obtain ⟨a, rfl⟩ := h s rfl
    refine ⟨some a, by simp only [parseStatus, fromName_name], fun b => ?_⟩
    simp [name_eq_iff]

/-- A handler that reads the status first, and then a list of the rows with that status. -/
theorem observes_parsed {α β Q : Type} [Named α] [DecidableEq α] {q : Q}
    {status : Q → Option String} {shown : Q → Response → Prop} {p : Option α → Handler β}
    {list : β → Response}
    (h : ∀ asked : Option α, (∀ b : α, (asked.all fun a => b = a) =
        (status q).all fun s => Named.name b = s) →
      (Proc.Observes ReadOp.Answers ss (respond (p asked) list) resp ↔ shown q resp)) :
    Proc.Observes ReadOp.Answers ss (respond (parseStatus (status q) >>= p) list) resp ↔
      Answered true (.ok q) status (fun s => ∃ a : α, Named.name a = s) shown resp := by
  by_cases hknown : ∀ s, status q = some s → ∃ a : α, Named.name a = s
  · obtain ⟨asked, hparse, htest⟩ := parseStatus_known hknown
    rw [answered_shown hknown, hparse, pure_bind]
    exact h asked htest
  · simp only [not_forall, exists_prop] at hknown
    obtain ⟨s, hs, hno⟩ := hknown
    rw [answered_invalid hs hno, hs, parseStatus_unknown hno]
    exact Proc.observes_done_iff

theorem observes_listTransfers {query : Except String ListQuery} :
    Proc.Observes ReadOp.Answers ss (respond (listTransfers query) .transfers) resp ↔
      Answered true query ListQuery.status (fun s => ∃ a : TransferStatus, Named.name a = s)
        (fun q => Shows ss (fun db => db.transfers.rows.filter q.Matches) Transfer.createdAt
          (pageLimit q.limit) .transfers) resp := by
  cases query with
  | error text => exact Proc.observes_done_iff.trans answered_malformed.symm
  | ok q =>
    refine observes_parsed fun asked htest => ?_
    have hrows : ∀ db : Db, db.listTransfers asked q.assetId (pageLimit q.limit) =
        (newestFirst Transfer.createdAt (db.transfers.rows.filter q.Matches)).take
          (pageLimit q.limit) := by
      intro db
      simp only [Db.listTransfers, htest]
      rfl
    refine observes_respond_read.trans ?_
    simp only [ReadOp.answer, hrows]
    exact shows_iff fun db => nodup_of_table db.transfers (fun _ => Or.inl rfl) q.Matches

theorem observes_listPayments {query : Except String PaymentListQuery} :
    Proc.Observes ReadOp.Answers ss (respond (listPayments query) .payments) resp ↔
      Answered true query PaymentListQuery.status
        (fun s => ∃ a : PaymentStatus, Named.name a = s)
        (fun q => Shows ss (fun db => db.payments.rows.filter q.Matches) Payment.createdAt
          (pageLimit q.limit) .payments) resp := by
  cases query with
  | error text => exact Proc.observes_done_iff.trans answered_malformed.symm
  | ok q =>
    refine observes_parsed fun asked htest => ?_
    have hrows : ∀ db : Db, db.listPayments asked (pageLimit q.limit) =
        (newestFirst Payment.createdAt (db.payments.rows.filter q.Matches)).take
          (pageLimit q.limit) := by
      intro db
      simp only [Db.listPayments, htest]
      rfl
    refine observes_respond_read.trans ?_
    simp only [ReadOp.answer, hrows]
    exact shows_iff fun db => nodup_of_table db.payments (fun _ => rfl) q.Matches

end Lists

/-- **What a request for a list is told.**  Over any moments, the responses to a request for
transfers or for payments are exactly these: it is turned away without the token; what is
wrong with the query or the status it names is said; or the newest rows that match are shown
as they are at one moment, at most a thousand and a hundred unless a limit is named. -/
theorem listing_answered (state : State) (header : Option (List UInt8)) (ss : List Host)
    (resp : Response) :
    (∀ query : Except String ListQuery,
      Proc.Observes ReadOp.Answers ss (serve state header (.transfers query)) resp ↔
        Answered (requireToken state.authToken header) query ListQuery.status
          (fun s => ∃ a : TransferStatus, Named.name a = s)
          (fun q => Shows ss (fun db => db.transfers.rows.filter q.Matches) Transfer.createdAt
            (min (q.limit.elim 100 UInt32.toNat) 1000) .transfers) resp) ∧
    ∀ query : Except String PaymentListQuery,
      Proc.Observes ReadOp.Answers ss (serve state header (.payments query)) resp ↔
        Answered (requireToken state.authToken header) query PaymentListQuery.status
          (fun s => ∃ a : PaymentStatus, Named.name a = s)
          (fun q => Shows ss (fun db => db.payments.rows.filter q.Matches) Payment.createdAt
            (min (q.limit.elim 100 UInt32.toNat) 1000) .payments) resp := by
  have hlimit : ∀ limit : Option UInt32,
      pageLimit limit = min (limit.elim 100 UInt32.toNat) 1000 := fun limit => by
    cases limit <;> rfl
  cases htoken : requireToken state.authToken header with
  | false =>
    refine ⟨fun query => ?_, fun query => ?_⟩
    · rw [answered_unauthorized]
      simp only [serve, Request.isProtected, htoken]
      exact Proc.observes_done_iff
    · rw [answered_unauthorized]
      simp only [serve, Request.isProtected, htoken]
      exact Proc.observes_done_iff
  | true =>
    refine ⟨fun query => ?_, fun query => ?_⟩
    · simp only [← hlimit, ← observes_listTransfers, serve, Request.isProtected, htoken]
      rfl
    · simp only [← hlimit, ← observes_listPayments, serve, Request.isProtected, htoken]
      rfl

end Companion.Api
