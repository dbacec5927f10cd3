import Companion.Rln

/-!
# What the paging loops return

`list` and `list_payments` ask for page after page until one is short or ends where it was
asked to begin.  A node that lists its items newest first is read completely, whatever the
page size and however many items come in meanwhile: they enter before the first page, and
the cursor stands among the items that were there.

The second stop rule looks one offset back.  A node whose full pages lead from one offset
to another and back is asked for ever.

## Main definitions

* `ServesTransfers`, `ServesPayments` — a node that shows a feed page by page.
* `paging_complete` — what the loops return of it.
* `paging_ends_iff` — on which nodes they return at all.
-/

set_option autoImplicit false

namespace Companion
open Lib

variable {assetFilter : AssetFilter} {pageSize : ℕ}

/-! ## One turn of a loop -/

theorem askTransfers_ok {node : ListTransfersRequest → HttpAnswer ListTransfersResponse}
    {indexOffset : Option ℕ} {page : Page ℕ RlnTransfer} :
    ListTransfersRequest.ask node assetFilter pageSize indexOffset = .ok page ↔
      ∃ resp, node ⟨assetFilter, none, indexOffset, some pageSize⟩ = .success (.ok resp) ∧
        resp.page = page := by
  cases hnode : node ⟨assetFilter, none, indexOffset, some pageSize⟩ with
  | transport => simp [ListTransfersRequest.ask, hnode, send, Except.map]
  | refused status text body => simp [ListTransfersRequest.ask, hnode, send, Except.map]
  | success body => cases body <;> simp [ListTransfersRequest.ask, hnode, send, Except.map]

theorem askPayments_ok {node : ListPaymentsQuery → HttpAnswer ListPaymentsResponse}
    {indexOffset : Option ℕ} {page : Page ℕ RlnPayment} :
    ListPaymentsQuery.ask node pageSize indexOffset = .ok page ↔
      ∃ resp, node ⟨pageSize, indexOffset⟩ = .success (.ok resp) ∧ resp.page = page := by
  cases hnode : node ⟨pageSize, indexOffset⟩ with
  | transport => simp [ListPaymentsQuery.ask, hnode, send, Except.map]
  | refused status text body => simp [ListPaymentsQuery.ask, hnode, send, Except.map]
  | success body => cases body <;> simp [ListPaymentsQuery.ask, hnode, send, Except.map]

/-! ## A node that lists newest first -/

/-- At the `k`-th request the node lists the `k`-th state of the feed: asked for the entries
after one of them, or from the start, it gives as many as were asked for. -/
def ServesTransfers (node : ℕ → ListTransfersRequest → HttpAnswer ListTransfersResponse)
    (assetFilter : AssetFilter) (feed : Feed ℕ RlnTransfer) : Prop :=
  ∀ k size indexOffset, (∀ o ∈ indexOffset, o ∈ (feed.items k).map Prod.fst) →
    ∃ resp, node k ⟨assetFilter, none, indexOffset, some size⟩ = .success (.ok resp) ∧
      Serves (feed.items k) size indexOffset resp.page

def ServesPayments (node : ℕ → ListPaymentsQuery → HttpAnswer ListPaymentsResponse)
    (feed : Feed ℕ RlnPayment) : Prop :=
  ∀ k size indexOffset, (∀ o ∈ indexOffset, o ∈ (feed.items k).map Prod.fst) →
    ∃ resp, node k ⟨size, indexOffset⟩ = .success (.ok resp) ∧
      Serves (feed.items k) size indexOffset resp.page

theorem list_of_serves {node : ℕ → ListTransfersRequest → HttpAnswer ListTransfersResponse}
    {feed : Feed ℕ RlnTransfer} (hnode : ServesTransfers node assetFilter feed) {n : ℕ}
    (hn : (feed.items 0).length / max pageSize 1 < n) :
    HttpRlnClient.list node assetFilter pageSize n =
      some (.ok ((feed.items 0).map Prod.snd)) := by
  apply pages_complete (by omega) _ hn
  intro k cursor hcursor
  obtain ⟨resp, hresp, hserves⟩ := hnode k (max pageSize 1) cursor hcursor
  exact ⟨resp.page, askTransfers_ok.mpr ⟨resp, hresp, rfl⟩, hserves⟩

theorem listPayments_of_serves {node : ℕ → ListPaymentsQuery → HttpAnswer ListPaymentsResponse}
    {feed : Feed ℕ RlnPayment} (hnode : ServesPayments node feed) {n : ℕ}
    (hn : (feed.items 0).length / max pageSize 1 < n) :
    HttpRlnClient.listPayments node pageSize n = some (.ok ((feed.items 0).map Prod.snd)) := by
  apply pages_complete (by omega) _ hn
  intro k cursor hcursor
  obtain ⟨resp, hresp, hserves⟩ := hnode k (max pageSize 1) cursor hcursor
  exact ⟨resp.page, askPayments_ok.mpr ⟨resp, hresp, rfl⟩, hserves⟩

/-- Both loops end, one request after all full pages at the latest, and return what was
listed at the first request, in order. -/
theorem paging_complete (assetFilter : AssetFilter) (pageSize : ℕ)
    (node : ℕ → ListTransfersRequest → HttpAnswer ListTransfersResponse)
    (transfers : Feed ℕ RlnTransfer) (hnode : ServesTransfers node assetFilter transfers)
    (paymentNode : ℕ → ListPaymentsQuery → HttpAnswer ListPaymentsResponse)
    (payments : Feed ℕ RlnPayment) (hpayments : ServesPayments paymentNode payments) :
    (∀ n > (transfers.items 0).length / max pageSize 1,
      HttpRlnClient.list node assetFilter pageSize n =
        some (.ok ((transfers.items 0).map Prod.snd))) ∧
    (∀ n > (payments.items 0).length / max pageSize 1,
      HttpRlnClient.listPayments paymentNode pageSize n =
        some (.ok ((payments.items 0).map Prod.snd))) := by
  constructor
  · intro n hn
    exact list_of_serves hnode hn
  · intro n hn
    exact listPayments_of_serves hpayments hn

/-- A node that shows the feed it is given. -/
def feedTransfers (feed : Feed ℕ RlnTransfer) (k : ℕ) (req : ListTransfersRequest) :
    HttpAnswer ListTransfersResponse :=
  let page := feed.page 0 k (req.maxTransfers.getD 0) req.indexOffset
  .success (.ok ⟨page.items, 0, page.last⟩)

def feedPayments (feed : Feed ℕ RlnPayment) (k : ℕ) (query : ListPaymentsQuery) :
    HttpAnswer ListPaymentsResponse :=
  let page := feed.page 0 k query.maxPayments query.indexOffset
  .success (.ok ⟨page.items, 0, page.last⟩)

/-- Three items, and a fourth that comes in after the first request. -/
def arriving {α : Type} (a : ℕ → α) : Feed ℕ α where
  items k := if k = 0 then [(9, a 9), (5, a 5), (2, a 2)]
    else [(12, a 12), (9, a 9), (5, a 5), (2, a 2)]
  nodup k := by
    by_cases hk : k = 0 <;> simp [hk]
  grows k := by
    by_cases hk : k = 0
    · exact ⟨[(12, a 12)], by simp [hk]⟩
    · exact ⟨[], by simp [hk]⟩

def sampleTransfer (idx : ℕ) : RlnTransfer :=
  ⟨idx, .waitingCounterparty, "ReceiveBlind", none, none, none⟩

def samplePayment (amtMsat : ℕ) : RlnPayment :=
  ⟨some amtMsat, none, none, "aa", .outbound, .pending, "02aa"⟩

theorem paging_complete_arriving :
    HttpRlnClient.list (feedTransfers (arriving sampleTransfer)) (.id "asset") 2 2 =
      some (.ok [sampleTransfer 9, sampleTransfer 5, sampleTransfer 2]) ∧
    HttpRlnClient.listPayments (feedPayments (arriving samplePayment)) 2 2 =
      some (.ok [samplePayment 9, samplePayment 5, samplePayment 2]) := by
  have htransfers : ServesTransfers (feedTransfers (arriving sampleTransfer)) (.id "asset")
      (arriving sampleTransfer) := fun k size o _ => ⟨_, rfl, Feed.serves_page _ 0 k size o⟩
  have hpayments : ServesPayments (feedPayments (arriving samplePayment))
      (arriving samplePayment) := fun k size o _ => ⟨_, rfl, Feed.serves_page _ 0 k size o⟩
  have h := paging_complete (.id "asset") 2 _ _ htransfers _ _ hpayments
  exact ⟨h.1 2 (by decide), h.2 2 (by decide)⟩

/-! ## A node that answers by the offset alone -/

/-- The offsets the node names at the ends of its pages. -/
def Lasts {α : Type} (ask : Option ℕ → Except RlnError (Page ℕ α)) : Set ℕ :=
  {o | ∃ indexOffset page, ask indexOffset = .ok page ∧ page.last = o}

/-- For every node whose answer depends on the request alone and that names finitely many
offsets, the loops return unless full pages lead from the first request into a cycle. -/
theorem paging_ends_iff (assetFilter : AssetFilter) (pageSize : ℕ)
    (node : ListTransfersRequest → HttpAnswer ListTransfersResponse)
    (hnode : (Lasts (ListTransfersRequest.ask node assetFilter (max pageSize 1))).Finite)
    (paymentNode : ListPaymentsQuery → HttpAnswer ListPaymentsResponse)
    (hpayments : (Lasts (ListPaymentsQuery.ask paymentNode (max pageSize 1))).Finite) :
    ((∃ n result, HttpRlnClient.list (fun _ => node) assetFilter pageSize n = some result) ↔
      ¬ Circles (ListTransfersRequest.ask node assetFilter (max pageSize 1))
        (max pageSize 1) none) ∧
    ((∃ n result, HttpRlnClient.listPayments (fun _ => paymentNode) pageSize n = some result) ↔
      ¬ Circles (ListPaymentsQuery.ask paymentNode (max pageSize 1)) (max pageSize 1) none) :=
  ⟨ends_iff hnode, ends_iff hpayments⟩

/-- Pages of one item each, whose offsets follow each other as in `next`. -/
def turning {α : Type} (a : α) (next : Option ℕ → ℕ) (indexOffset : Option ℕ) :
    Except RlnError (Page ℕ α) :=
  .ok ⟨[a], next indexOffset⟩

def turningTransfers (next : Option ℕ → ℕ) (req : ListTransfersRequest) :
    HttpAnswer ListTransfersResponse :=
  .success (.ok ⟨[sampleTransfer 1], 1, next req.indexOffset⟩)

def turningPayments (next : Option ℕ → ℕ) (query : ListPaymentsQuery) :
    HttpAnswer ListPaymentsResponse :=
  .success (.ok ⟨[samplePayment 1], 1, next query.indexOffset⟩)

/-- From the start to 1, from 1 to 2, and from anywhere else back to 1. -/
def backAndForth : Option ℕ → ℕ
  | some 1 => 2
  | _ => 1

section Turning
variable {α : Type} {a : α} {next : Option ℕ → ℕ} {o o' : Option ℕ}

theorem lasts_turning : Lasts (turning a next) = Set.range next := by
  ext o
  simp [Lasts, turning]

theorem onward_turning : Onward (turning a next) 1 o o' ↔
    o ≠ some (next o) ∧ o' = some (next o) := by
  simp [Onward, turning]

theorem lasts_backAndForth : (Lasts (turning a backAndForth)).Finite := by
  rw [lasts_turning]
  apply (Set.finite_le_nat 2).subset
  rintro _ ⟨o, rfl⟩
  unfold backAndForth
  split <;> simp

theorem circles_backAndForth : Circles (turning a backAndForth) 1 none := by
  have hstart : Onward (turning a backAndForth) 1 none (some 1) :=
    onward_turning.mpr ⟨by simp, rfl⟩
  have hforth : Onward (turning a backAndForth) 1 (some 1) (some 2) :=
    onward_turning.mpr ⟨by decide, rfl⟩
  have hback : Onward (turning a backAndForth) 1 (some 2) (some 1) :=
    onward_turning.mpr ⟨by decide, rfl⟩
  exact ⟨some 1, .single hstart, .tail (.single hforth) hback⟩

/-- One offset for ever: the second request ends the loop. -/
theorem not_circles_const (c : ℕ) : ¬ Circles (turning a fun _ => c) 1 none := by
  rintro ⟨o, -, hcycle⟩
  obtain ⟨o', hstep, -⟩ := Relation.TransGen.head'_iff.mp hcycle
  obtain ⟨o'', -, hback⟩ := Relation.TransGen.tail'_iff.mp hcycle
  exact (onward_turning.mp hstep).1 (onward_turning.mp hback).2

end Turning

theorem paging_ends_stale :
    (∃ n result, HttpRlnClient.list (fun _ => turningTransfers fun _ => 7) .none 1 n =
      some result) ∧
    ∃ n result, HttpRlnClient.listPayments (fun _ => turningPayments fun _ => 7) 1 n =
      some result := by
  have hlasts : ∀ {α : Type} {a : α}, (Lasts (turning a fun _ => 7)).Finite := by
    intro α a
    rw [lasts_turning]
    exact Set.finite_range_const
  have h := paging_ends_iff .none 1 (turningTransfers fun _ => 7) hlasts
    (turningPayments fun _ => 7) hlasts
  exact ⟨h.1.mpr (not_circles_const 7), h.2.mpr (not_circles_const 7)⟩

/-- A node that leads from one offset to another and back is asked for ever. -/
theorem paging_goes_on :
    (Lasts (ListTransfersRequest.ask (turningTransfers backAndForth) .none 1)).Finite ∧
    (Lasts (ListPaymentsQuery.ask (turningPayments backAndForth) 1)).Finite ∧
    (¬ ∃ n result, HttpRlnClient.list (fun _ => turningTransfers backAndForth) .none 1 n =
      some result) ∧
    ¬ ∃ n result, HttpRlnClient.listPayments (fun _ => turningPayments backAndForth) 1 n =
      some result := by
  have hlasts : ∀ {α : Type} {a : α}, (Lasts (turning a backAndForth)).Finite :=
    lasts_backAndForth
  have hcircles : ∀ {α : Type} {a : α}, Circles (turning a backAndForth) 1 none :=
    circles_backAndForth
  refine ⟨hlasts, hlasts, ?_, ?_⟩
  · intro h
    exact (ends_iff hlasts).mp h hcircles
  · intro h
    exact (ends_iff hlasts).mp h hcircles

end Companion
