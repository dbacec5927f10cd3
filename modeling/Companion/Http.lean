import Companion.Api
import Companion.Proxy
import Companion.Webhook
import Companion.Lib.SwapMap

/-!
# What the proxy sends and answers

`proxy.rs` without its tasks: what of a request goes on to the node and what of the node's
answer goes back, octet by octet, and the answers the proxy makes up when either fails.

Header names are lower case, as `HeaderName` keeps them.  A request target is a path with a
query, or `*`.  A request ends here where it is given to the HTTP client, which parses its URL
and has headers of its own to add, and an answer where it is given to the HTTP server, which
adds its length and the date.

## Main definitions

* `HeaderMap` — headers as they are kept, with the order that removing them leaves.
* `Parts`, `Frame`, `HttpResponse` — requests, their bodies as they arrive, and answers.
* `toBytes` — a body that is read up to a limit.
* `Proxy.outgoing` — what is sent on.
* `HttpResponse.relayed`, `HttpResponse.intoResponse` — what is passed back.
* `ProxyError` — what can go wrong on the way, as the client is told.
-/

set_option autoImplicit false

namespace Companion.Server
open Lib

abbrev Bytes := List UInt8

/-- The octets of a text. -/
def octets (s : String) : Bytes := s.toUTF8.data.toList

/-! ## Headers -/

/-- The values of a header, in the order they came in. -/
structure HeaderValues where
  first : Bytes
  rest : List Bytes
  deriving DecidableEq

/-- `http::HeaderMap`: one bucket for each name.  `remove` is the `swap_remove` of its bucket,
and `extend` puts the values of each name in place of those there are. -/
abbrev HeaderMap := SwapMap String HeaderValues

/-- One header with one value. -/
def HeaderMap.only (name value : String) : HeaderMap := AList.singleton name ⟨octets value, []⟩

/-- `HOP_BY_HOP`. -/
def hopByHop : List String :=
  ["connection", "keep-alive", "proxy-authenticate", "proxy-authorization", "te", "trailer",
    "transfer-encoding", "upgrade"]

/-- `strip_hop_by_hop`. -/
def stripHopByHop (headers : HeaderMap) : HeaderMap := hopByHop.foldl SwapMap.remove headers

/-- All the values of the other headers stay. -/
@[simp] theorem lookup_stripHopByHop (headers : HeaderMap) (name : String) :
    (stripHopByHop headers).lookup name =
      if name ∈ hopByHop then none else headers.lookup name :=
  SwapMap.lookup_foldl_remove hopByHop headers name

/-! ## Bodies -/

/-- A frame of a request's body as it arrives. -/
inductive Frame
  | data (bytes : Bytes)
  /-- The client breaks off. -/
  | broken
  deriving DecidableEq, Repr

/-- Why no answer came of the node. -/
inductive SendError
  | timeout
  | other
  deriving DecidableEq, Repr

inductive ProxyError
  | unreachable
  | timeout
  | payloadTooLarge
  | body (message : String)
  | path
  deriving DecidableEq, Repr

/-- `axum::body::to_bytes`, with the errors of `body_error`. -/
def toBytes (limit : ℕ) : List Frame → Except ProxyError Bytes
  | [] => .ok []
  | .broken :: _ => .error (.body "failed to read request body")
  | .data bytes :: frames =>
      if limit < bytes.length then .error .payloadTooLarge
      else (toBytes (limit - bytes.length) frames).map (bytes ++ ·)

/-- All of the body, when it is complete and within the limit. -/
theorem toBytes_eq_ok {limit : ℕ} {frames : List Frame} {body : Bytes} :
    toBytes limit frames = .ok body ↔
      ∃ parts : List Bytes, frames = parts.map .data ∧ body = parts.flatten ∧
        body.length ≤ limit := by
  induction frames generalizing limit body with
  | nil =>
    constructor
    · intro h
      cases h
      exact ⟨[], rfl, rfl, Nat.zero_le _⟩
    · rintro ⟨parts, hparts, rfl, -⟩
      rw [List.map_eq_nil_iff.mp hparts.symm]
      rfl
  | cons frame frames ih =>
    cases frame with
    | broken =>
      refine iff_of_false (fun h => nomatch h) ?_
      rintro ⟨parts, hparts, -⟩
      cases parts <;> cases hparts
    | data bytes =>
      by_cases hlt : limit < bytes.length
      · rw [toBytes, if_pos hlt]
        refine iff_of_false (fun h => nomatch h) ?_
        rintro ⟨parts, hparts, rfl, hle⟩
        cases parts with
        | nil => cases hparts
        | cons first parts =>
          cases hparts
          simp only [List.flatten_cons, List.length_append] at hle
          omega
      · rw [toBytes, if_neg hlt]
        constructor
        · intro h
          cases hrest : toBytes (limit - bytes.length) frames with
          | error e => simp [hrest, Except.map] at h
          | ok rest =>
            obtain ⟨parts, rfl, hrest', hle⟩ := ih.mp hrest
            simp only [hrest, Except.map, Except.ok.injEq] at h
            refine ⟨bytes :: parts, rfl, by rw [← h, hrest', List.flatten_cons], ?_⟩
            rw [← h, List.length_append]
            omega
        · rintro ⟨parts, hparts, rfl, hle⟩
          cases parts with
          | nil => cases hparts
          | cons first parts =>
            cases hparts
            simp only [List.flatten_cons, List.length_append] at hle
            rw [ih.mpr ⟨parts, rfl, rfl, by omega⟩]
            rfl

/-! ## Requests and answers -/

structure Parts where
  method : String
  path : UriPath
  query : Option String
  headers : HeaderMap

/-- `Uri::path_and_query`. -/
def Parts.pathAndQuery (parts : Parts) : String :=
  parts.path.text ++ parts.query.elim "" ("?" ++ ·)

/-- A request as it is given to the HTTP client: `request`, `headers` and `body`. -/
structure Outgoing where
  method : String
  url : String
  headers : HeaderMap
  body : Bytes
  deriving DecidableEq

/-- `ProxyResponse`, and every other response. -/
structure HttpResponse where
  status : ℕ
  headers : HeaderMap
  body : Bytes
  deriving DecidableEq

/-- `StatusCode::is_success`. -/
def HttpResponse.isSuccess (resp : HttpResponse) : Bool := 200 ≤ resp.status ∧ resp.status < 300

structure Proxy where
  baseUrl : String
  maxBody : ℕ
  deriving DecidableEq, Repr

/-- `Proxy::new`. -/
def Proxy.new (baseUrl : String) (proxyMaxBodyMb : UInt64) : Proxy where
  baseUrl := String.ofList (baseUrl.toList.rdropWhile (· == '/'))
  maxBody := min u64Max (proxyMaxBodyMb.toNat * (1024 * 1024))

/-- The request `forward_parts` makes of one, for the client to send. -/
def Proxy.outgoing (proxy : Proxy) (parts : Parts) (body : Bytes) : Outgoing where
  method := parts.method
  url := proxy.baseUrl ++ parts.pathAndQuery
  headers := ((stripHopByHop parts.headers).remove "host").remove "content-length"
  body := body

/-- The headers that are not sent on. -/
def withheld : List String := "content-length" :: "host" :: hopByHop

/-- The other headers are sent on with all their values, and no others. -/
theorem lookup_outgoing (proxy : Proxy) (parts : Parts) (body : Bytes) (name : String) :
    (proxy.outgoing parts body).headers.lookup name =
      if name ∈ withheld then none else parts.headers.lookup name := by
  simp only [Proxy.outgoing, SwapMap.lookup_remove, lookup_stripHopByHop, withheld,
    List.mem_cons]
  by_cases hlength : name = "content-length"
  · simp [hlength]
  · by_cases hhost : name = "host"
    · simp [hhost]
    · simp [hlength, hhost]

/-- What `forward_parts` keeps of the node's answer. -/
def HttpResponse.relayed (answer : HttpResponse) : HttpResponse where
  status := answer.status
  headers := (stripHopByHop answer.headers).remove "content-length"
  body := answer.body

@[simp] theorem HttpResponse.status_relayed (answer : HttpResponse) :
    answer.relayed.status = answer.status := by
  rw [relayed]

@[simp] theorem HttpResponse.body_relayed (answer : HttpResponse) :
    answer.relayed.body = answer.body := by
  rw [relayed]

@[simp] theorem HttpResponse.isSuccess_relayed (answer : HttpResponse) :
    answer.relayed.isSuccess = answer.isSuccess := by
  simp only [isSuccess, status_relayed]

/-- `ProxyResponse::into_response`: a body of bytes has a content type, and the headers come
over it. -/
def HttpResponse.intoResponse (resp : HttpResponse) : HttpResponse :=
  { resp with
    headers := (HeaderMap.only "content-type" "application/octet-stream").extend resp.headers }

/-- The content type of an answer that has none. -/
def plainType (name : String) : Option HeaderValues :=
  (HeaderMap.only "content-type" "application/octet-stream").lookup name

theorem plainType_of_withheld {name : String} (h : name = "content-length" ∨ name ∈ hopByHop) :
    plainType name = none := by
  have hne : name ≠ "content-type" := by
    rintro rfl
    revert h
    decide
  rw [plainType, AList.lookup_eq_none, AList.mem_keys]
  simpa [HeaderMap.only] using hne

/-- What a client is told of the node's answer: its status, its body, and all the values of
every header that is not withheld; and no other header, except for the content type when the
node has left it out. -/
structure HttpResponse.Conveys (resp answer : HttpResponse) : Prop where
  status : resp.status = answer.status
  body : resp.body = answer.body
  headers (name : String) : resp.headers.lookup name =
    if name = "content-length" ∨ name ∈ hopByHop then none
    else (answer.headers.lookup name).or (plainType name)

theorem HttpResponse.conveys_relayed (answer : HttpResponse) :
    answer.relayed.intoResponse.Conveys answer where
  status := by rw [intoResponse, relayed]
  body := by rw [intoResponse, relayed]
  headers name := by
    rw [intoResponse, SwapMap.lookup_extend, ← plainType]
    simp only [relayed, SwapMap.lookup_remove, lookup_stripHopByHop]
    by_cases hlength : name = "content-length"
    · rw [plainType_of_withheld (Or.inl hlength)]
      simp [hlength]
    · by_cases hhop : name ∈ hopByHop
      · rw [plainType_of_withheld (Or.inr hhop)]
        simp [hhop]
      · simp [hlength, hhop]

/-! ## Errors -/

namespace ProxyError

/-- `classify`. -/
def ofSend : SendError → ProxyError
  | .timeout => timeout
  | .other => unreachable

def message : ProxyError → String
  | unreachable => "upstream unreachable"
  | timeout => "upstream timeout"
  | payloadTooLarge => "request body too large"
  | body message => s!"request body: {message}"
  | path => "invalid request path"

/-- `ProxyError::into_response`: the status, a name and the message. -/
def errorBody (e : ProxyError) : Api.ErrorBody :=
  match e with
  | unreachable => ⟨502, "UpstreamUnreachable", e.message⟩
  | timeout => ⟨504, "UpstreamTimeout", e.message⟩
  | payloadTooLarge => ⟨413, "PayloadTooLarge", e.message⟩
  | body _ | path => ⟨400, "InvalidRequest", e.message⟩

end ProxyError

/-- `error_body`, with the text that `json` makes of an error. -/
def errorResponse (json : Api.ErrorBody → Bytes) (e : Api.ErrorBody) : HttpResponse where
  status := e.code
  headers := .only "content-type" "application/json"
  body := json e

end Companion.Server
