import Companion.Effects
import Companion.Lib.Cursor

/-!
# The RLN client

How `HttpRlnClient` reads an answer of the node.  The tasks see the results of
`RlnApi`; here is what becomes of an HTTP answer on the way there.  What `serde_json`
makes of a body is part of the answer.

The listings are read page by page.  The node may answer the same request differently
when it comes again, so an answer belongs to the number of the request in the loop.

## Main definitions

* `HttpAnswer` — what comes back for a request.
* `send`, `classifyError` — how it is read.
* `failTransfer` — what the client returns for a `/failtransfers` call.
* `HttpRlnClient.list`, `HttpRlnClient.listPayments` — the two paging loops, on fuel.
-/

set_option autoImplicit false

namespace Companion
open Lib

/-- The `asset_filter` of a listing. -/
inductive AssetFilter
  | none
  | id (assetId : String)
  deriving DecidableEq, Repr

structure ListTransfersRequest where
  assetFilter : AssetFilter
  txid : Option String
  indexOffset : Option ℕ
  maxTransfers : Option ℕ
  deriving DecidableEq, Repr

structure ListTransfersResponse where
  transfers : List RlnTransfer
  firstIndexOffset : ℕ
  lastIndexOffset : ℕ
  deriving DecidableEq, Repr

/-- The query string of `/listpayments`. -/
structure ListPaymentsQuery where
  maxPayments : ℕ
  indexOffset : Option ℕ
  deriving DecidableEq, Repr

structure ListPaymentsResponse where
  payments : List RlnPayment
  firstIndexOffset : ℕ
  lastIndexOffset : ℕ
  deriving DecidableEq, Repr

structure FailTransfersResponse where
  transfersChanged : Bool
  deriving DecidableEq, Repr

/-- What comes back for a request whose answer is read as a `ρ`. -/
inductive HttpAnswer (ρ : Type)
  /-- No answer, or one that breaks off. -/
  | transport
  /-- A 2xx answer: its body, or why it does not parse. -/
  | success (body : Except String ρ)
  /-- Any other answer: its status, its text, and the error in it if it parses. -/
  | refused (status : ℕ) (text : String) (body : Option RlnErrorBody)

def classifyError (status : ℕ) (text : String) : Option RlnErrorBody → RlnError
  | some err =>
      match status, err.name with
      | 403, "LockedNode" | 403, "ChangingState" => .locked
      | 403, "CannotFailBatchTransfer" => .cannotFail
      | _, _ => .api err.code err.name err.error
  | none => .api status "Unknown" (String.ofList (text.toList.take 200))

/-- `HttpRlnClient::send`, once the answer is there. -/
def send {ρ : Type} : HttpAnswer ρ → Except RlnError ρ
  | .transport => .error .transport
  | .success (.ok body) => .ok body
  | .success (.error message) => .error (.decode message)
  | .refused status text body => .error (classifyError status text body)

/-- `HttpRlnClient::fail_transfer`: the body has to parse, and nothing in it is read. -/
def failTransfer (answer : HttpAnswer FailTransfersResponse) : Except RlnError Unit :=
  (send answer).map fun _ => ()

/-! ## The paging loops -/

def ListTransfersResponse.page (resp : ListTransfersResponse) : Page ℕ RlnTransfer :=
  ⟨resp.transfers, resp.lastIndexOffset⟩

def ListPaymentsResponse.page (resp : ListPaymentsResponse) : Page ℕ RlnPayment :=
  ⟨resp.payments, resp.lastIndexOffset⟩

/-- One turn of the loop of `list`: the request with this offset, and its page. -/
def ListTransfersRequest.ask (node : ListTransfersRequest → HttpAnswer ListTransfersResponse)
    (assetFilter : AssetFilter) (pageSize : ℕ) (indexOffset : Option ℕ) :
    Except RlnError (Page ℕ RlnTransfer) :=
  (send (node ⟨assetFilter, none, indexOffset, some pageSize⟩)).map ListTransfersResponse.page

/-- One turn of the loop of `list_payments`. -/
def ListPaymentsQuery.ask (node : ListPaymentsQuery → HttpAnswer ListPaymentsResponse)
    (pageSize : ℕ) (indexOffset : Option ℕ) : Except RlnError (Page ℕ RlnPayment) :=
  (send (node ⟨pageSize, indexOffset⟩)).map ListPaymentsResponse.page

namespace HttpRlnClient

/-- `HttpRlnClient::list`, up to `fuel` requests; `none` if it has not returned by then. -/
def list (node : ℕ → ListTransfersRequest → HttpAnswer ListTransfersResponse)
    (assetFilter : AssetFilter) (pageSize fuel : ℕ) :
    Option (Except RlnError (List RlnTransfer)) :=
  let pageSize := max pageSize 1
  pages (fun k => ListTransfersRequest.ask (node k) assetFilter pageSize) pageSize fuel 0 none []

def listTransfers (node : ℕ → ListTransfersRequest → HttpAnswer ListTransfersResponse)
    (assetId : String) (pageSize fuel : ℕ) : Option (Except RlnError (List RlnTransfer)) :=
  list node (.id assetId) pageSize fuel

def listAssetlessTransfers (node : ℕ → ListTransfersRequest → HttpAnswer ListTransfersResponse)
    (pageSize fuel : ℕ) : Option (Except RlnError (List RlnTransfer)) :=
  list node .none pageSize fuel

/-- `HttpRlnClient::list_payments`, up to `fuel` requests. -/
def listPayments (node : ℕ → ListPaymentsQuery → HttpAnswer ListPaymentsResponse)
    (pageSize fuel : ℕ) : Option (Except RlnError (List RlnPayment)) :=
  let pageSize := max pageSize 1
  pages (fun k => ListPaymentsQuery.ask (node k) pageSize) pageSize fuel 0 none []

end HttpRlnClient

theorem failTransfer_eq_ok {answer : HttpAnswer FailTransfersResponse} :
    failTransfer answer = .ok () ↔ ∃ changed, answer = .success (.ok ⟨changed⟩) := by
  cases answer with
  | transport => simp [failTransfer, send, Except.map]
  | refused status text body => simp [failTransfer, send, Except.map]
  | success body =>
      cases body with
      | error message => simp [failTransfer, send, Except.map]
      | ok resp => exact iff_of_true rfl ⟨resp.transfersChanged, rfl⟩

end Companion
