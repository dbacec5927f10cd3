import Companion.Effects
import Companion.Lib.UrlPath

/-!
# Which path a request reaches

The router reads a request path literally, and the client that forwards the request
parses it as part of a URL.  `checkPath` stands between the two: it is to refuse
every path the second would read differently.  It splits at `/` only, and the
client also splits at `\`.

## Main definitions

* `checkPath` — the filter.
* `Proxy.sentPath` — the path the node is sent.
* `Literal` — a request that reaches an intercepted route was routed to it.
* `literal_iff` — which accepted requests that holds of.
-/

set_option autoImplicit false

namespace Companion
open Lib

/-! ## The router -/

/-- `interceptor_routes`: the paths with a hook. -/
def interceptorRoutes : List (String × Route) :=
  [("/rgbinvoice", .rgbinvoice),
    ("/sendrgb", .sendrgb),
    ("/keysend", .keysend),
    ("/sendpayment", .sendpayment),
    ("/lninvoice", .lninvoice),
    ("/issueassetnia", .issueasset),
    ("/issueassetcfa", .issueasset),
    ("/issueassetuda", .issueasset),
    ("/issueassetifa", .issueasset),
    ("/inflate", .inflate),
    ("/assetlink", .assetlink),
    ("/refreshtransfers", .refreshtransfers),
    ("/failtransfers", .failtransfers),
    ("/init", .init),
    ("/unlock", .unlock),
    ("/restore", .restore),
    ("/lock", .lock),
    ("/shutdown", .shutdown)]

/-- Where the router sends a path: it compares, and falls back to the bare proxy. -/
def routed (path : String) : Route := (interceptorRoutes.lookup path).getD .other

/-! ## The filter -/

/-- The path of a request's URI: visible characters from a leading slash on, or `*`. -/
structure UriPath where
  text : String
  visible : ∀ c ∈ text.toList, '!' ≤ c ∧ c ≤ '~' ∧ c ≠ '?' ∧ c ≠ '#'
  rooted : text = "*" ∨ text.toList.head? = some '/'

/-- What the configured `base_url` has after its authority: nothing, or a path.  After a query
or a fragment the request's path would be none. -/
structure BasePath where
  text : String
  rooted : ∀ c, text.toList.head? = some c → isSeparator c = true
  plain : ∀ c ∈ text.toList, c ≠ '?' ∧ c ≠ '#'

inductive ProxyError
  | path
  deriving DecidableEq, Repr

def ProxyError.message : ProxyError → String
  | path => "invalid request path"

/-- `strip_prefix('/').unwrap_or(path)`. -/
def stripSlash : List Char → List Char
  | '/' :: cs => cs
  | cs => cs

def checkPath (path : String) : Except ProxyError Unit :=
  let ok := !path.toList.contains '%' &&
    ((stripSlash path.toList).splitOn '/').all fun s => s ≠ [] ∧ s ≠ ['.'] ∧ s ≠ ['.', '.']
  if ok then .ok () else .error .path

/-- `forward_parts`, as far as the path: what is sent, when it is a path at all. -/
def Proxy.sentPath (base : BasePath) (p : UriPath) : Except ProxyError (Option String) := do
  checkPath p.text
  return (urlPath (base.text.toList ++ p.text.toList)).map String.ofList

/-- If an intercepted route is sent to the node, the request was routed to its hook. -/
def Literal (base : BasePath) (p : UriPath) : Prop :=
  ∀ q r, Proxy.sentPath base p = .ok (some q) → (q, r) ∈ interceptorRoutes →
    p.text = q ∧ routed p.text = r

/-- The segments the client finds. -/
def segments (base : BasePath) (p : UriPath) : List Segment :=
  ((base.text.toList ++ p.text.toList).drop 1).splitOnP isSeparator

/-- The last segment names an intercepted route, and the dots drop all the others. -/
def ReachesRoute (base : BasePath) (p : UriPath) : Prop :=
  ∃ before name, segments base p = before ++ [name] ∧
    String.ofList ('/' :: name) ∈ interceptorRoutes.map Prod.fst ∧ before.foldl depth 0 = 0

/-! ## What the filter and the router say -/

theorem checkPath_ok {path : String} (h : checkPath path = .ok ()) :
    '%' ∉ path.toList ∧ ∀ s ∈ (stripSlash path.toList).splitOn '/',
      s ≠ [] ∧ s ≠ ['.'] ∧ s ≠ ['.', '.'] := by
  simp only [checkPath] at h
  split at h
  · next hok => simpa using hok
  · cases h

theorem routed_of_mem {q : String} {r : Route} (h : (q, r) ∈ interceptorRoutes) : routed q = r := by
  have hall : ∀ x ∈ interceptorRoutes, routed x.1 = x.2 := by decide
  exact hall (q, r) h

/-- Every route is one plain segment. -/
theorem route_eq {q : String} (h : q ∈ interceptorRoutes.map Prod.fst) :
    ∃ name, q = String.ofList ('/' :: name) ∧ '/' ∉ name ∧ '\\' ∉ name ∧ '*' ∉ name ∧ name ≠ [] ∧
      Plain name := by
  have hall : ∀ q ∈ interceptorRoutes.map Prod.fst, q = String.ofList ('/' :: q.toList.tail) ∧
      '/' ∉ q.toList.tail ∧ '\\' ∉ q.toList.tail ∧ '*' ∉ q.toList.tail ∧ q.toList.tail ≠ [] ∧
        isDoubleDot q.toList.tail = false ∧ isSingleDot q.toList.tail = false := by
    decide
  exact ⟨q.toList.tail, hall q h⟩

/-! ## What is sent -/

theorem sentPath_eq_route {base : BasePath} {p : UriPath} (hok : checkPath p.text = .ok ())
    {name : Segment} (hq : String.ofList ('/' :: name) ∈ interceptorRoutes.map Prod.fst) :
    Proxy.sentPath base p = .ok (some (String.ofList ('/' :: name))) ↔
      ∃ before, segments base p = before ++ [name] ∧ before.foldl depth 0 = 0 := by
  rcases route_eq hq with ⟨name', hname', hslash, -, -, hne, hplain⟩
  cases String.ofList_injective hname'
  have hsent : Proxy.sentPath base p =
      .ok ((urlPath (base.text.toList ++ p.text.toList)).map String.ofList) := by
    rw [Proxy.sentPath, hok]
    rfl
  have hinj : (urlPath (base.text.toList ++ p.text.toList)).map String.ofList =
      some (String.ofList ('/' :: name)) ↔
        urlPath (base.text.toList ++ p.text.toList) = some ('/' :: name) := by
    rw [← Option.map_some, (Option.map_injective fun _ _ => String.ofList_injective).eq_iff]
  rw [hsent, Except.ok.injEq, hinj, segments]
  cases hbase : base.text.toList with
  | cons b bs => exact urlPath_eq_singleton (base.rooted b (by rw [hbase]; rfl)) hslash hne hplain
  | nil =>
    rcases p.rooted with hstar | hroot
    · -- `*` is no path, and has no segment either
      rw [hstar]
      refine iff_of_false (fun h => nomatch h) ?_
      rintro ⟨before, hseg, -⟩
      have hempty : ([] : List Segment) ++ [[]] = before ++ [name] := hseg
      exact hne (List.append_singleton_inj.mp hempty).2.symm
    · rcases List.head?_eq_some_iff.mp hroot with ⟨cs, hcs⟩
      rw [hcs]
      exact urlPath_eq_singleton rfl hslash hne hplain

/-- Without a backslash the client splits an accepted path as the filter does, and
drops nothing of it. -/
theorem eq_route_of_no_backslash {base : BasePath} {p : UriPath}
    (hok : checkPath p.text = .ok ()) (hb : '\\' ∉ p.text.toList) {before : List Segment}
    {name : Segment} (hseg : segments base p = before ++ [name])
    (hq : String.ofList ('/' :: name) ∈ interceptorRoutes.map Prod.fst)
    (hdepth : before.foldl depth 0 = 0) : p.text = String.ofList ('/' :: name) := by
  rcases route_eq hq with ⟨name', hname', -, -, hstar, hne, -⟩
  cases String.ofList_injective hname'
  rw [segments] at hseg
  rcases p.rooted with hp | hp
  · have hp' : p.text.toList = ['*'] := by rw [hp]; rfl
    rw [hp'] at hseg
    cases hbase : base.text.toList with
    | nil =>
      rw [hbase] at hseg
      have hempty : ([] : List Segment) ++ [[]] = before ++ [name] := hseg
      exact absurd (List.append_singleton_inj.mp hempty).2.symm hne
    | cons b bs =>
      rw [hbase] at hseg
      rcases splitOnP_concat (p := isSeparator) (c := '*') rfl bs with ⟨before', s, hsplit⟩
      have hlast := List.append_singleton_inj.mp (hsplit.symm.trans hseg)
      rw [← hlast.2] at hstar
      simp at hstar
  · rcases List.head?_eq_some_iff.mp hp with ⟨cs, hcs⟩
    have hfilter := checkPath_ok hok
    rw [hcs] at hb hfilter hseg
    rw [List.mem_cons, not_or] at hb
    have hsame : cs.splitOnP isSeparator = cs.splitOn '/' := by
      rw [List.splitOn_eq_splitOnP]
      refine splitOnP_congr fun c hc => ?_
      have hne : c ≠ '\\' := fun h => hb.2 (h ▸ hc)
      simp [isSeparator, hne, beq_eq_decide]
    have hplain : ∀ s ∈ cs.splitOn '/', Plain s := by
      intro s hs
      have hok := hfilter.2 s hs
      refine plain_of_ne (fun hmem => hfilter.1 ?_) hok.2.1 hok.2.2
      rw [List.splitOn_eq_splitOnP] at hs
      exact List.mem_cons_of_mem _ (mem_of_mem_splitOnP hs _ hmem)
    -- the segments of the base, then those of the path
    have hpre : ∃ pre, pre ++ cs.splitOn '/' = before ++ [name] := by
      rw [← hsame, ← hseg]
      cases base.text.toList with
      | nil => exact ⟨[], rfl⟩
      | cons b bs => exact ⟨bs.splitOnP isSeparator, (List.splitOnP_append_cons bs cs rfl).symm⟩
    rcases hpre with ⟨pre, hpre⟩
    rcases List.eq_nil_or_concat (cs.splitOn '/') with hnil | ⟨init, s, hinit⟩
    · exact absurd hnil (List.splitOn_ne_nil _ _)
    rw [List.concat_eq_append] at hinit
    rw [hinit, ← List.append_assoc] at hpre
    rcases List.append_singleton_inj.mp hpre with ⟨rfl, rfl⟩
    have hplain' : ∀ t ∈ init, Plain t := fun t ht => hplain t (by rw [hinit]; simp [ht])
    rw [List.foldl_append, foldl_depth_plain hplain', Nat.add_eq_zero_iff,
      List.length_eq_zero_iff] at hdepth
    rw [hdepth.2, List.nil_append] at hinit
    have hjoin : ['/'].intercalate (cs.splitOn '/') = cs := List.intercalate_splitOn '/'
    have hcs' : cs = s := by
      rw [← hjoin, hinit, List.intercalate_singleton]
    rw [← hcs', ← hcs, String.ofList_toList]

/-- An accepted request passes by no hook exactly when its path has no backslash, or
does not end at an intercepted route once its dots are resolved. -/
theorem literal_iff (base : BasePath) (p : UriPath) (hok : checkPath p.text = .ok ()) :
    Literal base p ↔ '\\' ∉ p.text.toList ∨ ¬ ReachesRoute base p := by
  constructor
  · intro hlit
    rw [or_iff_not_imp_left, not_not]
    rintro hb ⟨before, name, hseg, hq, hdepth⟩
    have hsent := (sentPath_eq_route hok hq).mpr ⟨before, hseg, hdepth⟩
    rcases List.mem_map.mp hq with ⟨⟨q, r⟩, hmem, hqr⟩
    rw [← hqr] at hsent
    have htext := (hlit q r hsent hmem).1
    rcases route_eq hq with ⟨name', hname', -, hno, -, -, -⟩
    cases String.ofList_injective hname'
    have hqr' : q = String.ofList ('/' :: name) := hqr
    rw [htext, hqr', String.toList_ofList, List.mem_cons] at hb
    rcases hb with hb | hb
    · cases hb
    · exact hno hb
  · rintro hcond q r hsent hmem
    have hq : q ∈ interceptorRoutes.map Prod.fst := List.mem_map.mpr ⟨_, hmem, rfl⟩
    rcases route_eq hq with ⟨name, rfl, -⟩
    rcases (sentPath_eq_route hok hq).mp hsent with ⟨before, hseg, hdepth⟩
    have htext : p.text = String.ofList ('/' :: name) := by
      rcases hcond with hb | hreach
      · exact eq_route_of_no_backslash hok hb hseg hq hdepth
      · exact absurd ⟨before, name, hseg, hq, hdepth⟩ hreach
    exact ⟨htext, htext ▸ routed_of_mem hmem⟩

/-- A `base_url` with nothing after the authority. -/
def BasePath.root : BasePath := ⟨"", fun _ h => (nomatch h), by simp⟩

theorem literal_rgbinvoice : Literal .root ⟨"/rgbinvoice", by simp, Or.inr rfl⟩ :=
  (literal_iff .root ⟨"/rgbinvoice", by simp, Or.inr rfl⟩ rfl).mpr (Or.inl (by decide))

/-- A dot before a backslash is no segment to the filter, and is dropped by the client. -/
theorem rgbinvoice_behind_backslash :
    ∃ p : UriPath, p.text = "/.\\rgbinvoice" ∧ checkPath p.text = .ok () ∧
      routed p.text = .other ∧ Proxy.sentPath .root p = .ok (some "/rgbinvoice") ∧
      ¬ Literal .root p := by
  have hsent : Proxy.sentPath .root ⟨"/.\\rgbinvoice", by simp, Or.inr rfl⟩ =
      .ok (some "/rgbinvoice") := rfl
  refine ⟨⟨"/.\\rgbinvoice", by simp, Or.inr rfl⟩, rfl, rfl, by decide, hsent, fun hlit => ?_⟩
  have hmem : ("/rgbinvoice", Route.rgbinvoice) ∈ interceptorRoutes := by decide
  exact absurd (hlit _ _ hsent hmem).1 (by decide)

end Companion
