import Mathlib.Data.List.Basic

/-!
# The path of an http URL

What a URL parser makes of the text after the authority, by the rules every http
client shares: the text is split at `/` and at `\`, a segment of one dot is dropped
and one of two dots takes the segment before it with it, and an encoded dot counts
as a dot.

Where a path ends up is decided by its last segment and by how many of the others
are left; `urlPath_eq_singleton` reduces the question to a counter.

## Main definitions

* `resolve`, `urlPath` — the segments kept, and the path written back.
* `depth` — how many segments are left, without the segments.
-/

set_option autoImplicit false

namespace Companion.Lib

abbrev Segment := List Char

/-- The separators in the path of an http URL. -/
def isSeparator (c : Char) : Bool := c = '/' || c = '\\'

/-- Read an encoded dot as a dot. -/
def decodeDots : Segment → Segment
  | '%' :: '2' :: 'e' :: cs => '.' :: decodeDots cs
  | '%' :: '2' :: 'E' :: cs => '.' :: decodeDots cs
  | c :: cs => c :: decodeDots cs
  | [] => []

def isSingleDot (s : Segment) : Bool := decodeDots s = ['.']

def isDoubleDot (s : Segment) : Bool := decodeDots s = ['.', '.']

/-- The segments kept, after one that a separator follows. -/
def pushSegment (path : List Segment) (s : Segment) : List Segment :=
  if isDoubleDot s then path.dropLast else if isSingleDot s then path else path ++ [s]

/-- The segments kept, after the last one: where it is dropped, an empty one is left. -/
def lastSegment (path : List Segment) (s : Segment) : List Segment :=
  if isDoubleDot s then path.dropLast ++ [[]] else if isSingleDot s then path ++ [[]]
  else path ++ [s]

def resolve (ss : List Segment) : List Segment :=
  match ss.getLast? with
  | none => []
  | some s => lastSegment (ss.dropLast.foldl pushSegment []) s

/-- The path a text is parsed to, when the text starts one. -/
def urlPath : List Char → Option (List Char)
  | [] => none
  | c :: text =>
      if isSeparator c then some ('/' :: ['/'].intercalate (resolve (text.splitOnP isSeparator)))
      else none

/-- How many segments are left after one more. -/
def depth (n : ℕ) (s : Segment) : ℕ :=
  if isDoubleDot s then n - 1 else if isSingleDot s then n else n + 1

/-- A segment that is neither dropped nor takes one with it. -/
def Plain (s : Segment) : Prop := isDoubleDot s = false ∧ isSingleDot s = false

/-! ## Segments -/

theorem decodeDots_eq_self {s : Segment} (h : '%' ∉ s) : decodeDots s = s := by
  induction s with
  | nil => rfl
  | cons c s ih =>
    rw [List.mem_cons, not_or] at h
    rw [decodeDots, ih h.2]
    · rintro cs rfl
      exact absurd rfl h.1
    · rintro cs rfl
      exact absurd rfl h.1

theorem plain_of_ne {s : Segment} (h : '%' ∉ s) (hsingle : s ≠ ['.']) (hdouble : s ≠ ['.', '.']) :
    Plain s := by
  rw [Plain, isDoubleDot, isSingleDot, decodeDots_eq_self h]
  exact ⟨decide_eq_false hdouble, decide_eq_false hsingle⟩

theorem length_pushSegment (path : List Segment) (s : Segment) :
    (pushSegment path s).length = depth path.length s := by
  rw [pushSegment, depth]
  split
  · exact List.length_dropLast
  · split
    · rfl
    · exact List.length_append

theorem length_foldl_pushSegment (path ss : List Segment) :
    (ss.foldl pushSegment path).length = ss.foldl depth path.length := by
  induction ss generalizing path with
  | nil => rfl
  | cons s ss ih => rw [List.foldl_cons, List.foldl_cons, ih, length_pushSegment]

theorem foldl_depth_plain {ss : List Segment} (h : ∀ s ∈ ss, Plain s) (n : ℕ) :
    ss.foldl depth n = n + ss.length := by
  induction ss generalizing n with
  | nil => rfl
  | cons s ss ih =>
    have hs := h s (List.mem_cons_self ..)
    rw [List.foldl_cons, ih fun t ht => h t (List.mem_cons_of_mem _ ht), depth, hs.1, hs.2,
      List.length_cons]
    simp only [Bool.false_eq_true, if_false]
    omega

/-! ## Where a path ends up -/

theorem lastSegment_ne_nil (path : List Segment) (s : Segment) : lastSegment path s ≠ [] := by
  rw [lastSegment]
  split
  · simp
  · split <;> simp

theorem lastSegment_eq_singleton {path : List Segment} {s name : Segment} (hname : name ≠ [])
    (hplain : Plain name) : lastSegment path s = [name] ↔ path = [] ∧ s = name := by
  -- a dropped segment leaves an empty one, which is not `name`
  have hempty : ∀ path' : List Segment, path' ++ [[]] ≠ [name] := fun path' h =>
    hname (List.append_singleton_inj.mp (h.trans (List.nil_append _).symm)).2.symm
  rw [lastSegment]
  split
  · next hdouble =>
    refine iff_of_false (hempty _) ?_
    rintro ⟨-, rfl⟩
    rw [hplain.1] at hdouble
    cases hdouble
  · split
    · next hsingle =>
      refine iff_of_false (hempty _) ?_
      rintro ⟨-, rfl⟩
      rw [hplain.2] at hsingle
      cases hsingle
    · rw [← List.nil_append [name], List.append_singleton_inj]

theorem intercalate_eq_iff {ss : List Segment} {name : Segment} (hss : ss ≠ [])
    (hname : '/' ∉ name) : ['/'].intercalate ss = name ↔ ss = [name] := by
  match ss with
  | [] => exact absurd rfl hss
  | [s] => simp
  | s :: t :: ss =>
    refine iff_of_false (fun h => hname ?_) (by simp)
    rw [← h, List.intercalate_cons_cons]
    simp

/-- A text is parsed to the path of one given segment exactly when that segment
comes last and the others are dropped. -/
theorem urlPath_eq_singleton {c : Char} {text : List Char} {name : Segment}
    (hc : isSeparator c = true) (hslash : '/' ∉ name) (hname : name ≠ []) (hplain : Plain name) :
    urlPath (c :: text) = some ('/' :: name) ↔
      ∃ before, text.splitOnP isSeparator = before ++ [name] ∧ before.foldl depth 0 = 0 := by
  rcases List.eq_nil_or_concat (text.splitOnP isSeparator) with hnil | ⟨before, s, hsplit⟩
  · exact absurd hnil (List.splitOnP_ne_nil _ _)
  rw [List.concat_eq_append] at hsplit
  have hresolve : resolve (before ++ [s]) = lastSegment (before.foldl pushSegment []) s := by
    rw [resolve, List.getLast?_concat, List.dropLast_concat]
  have hdepth : before.foldl pushSegment [] = [] ↔ before.foldl depth 0 = 0 := by
    rw [← List.length_eq_zero_iff, length_foldl_pushSegment, List.length_nil]
  rw [urlPath, if_pos hc, hsplit, hresolve, Option.some_inj, List.cons_eq_cons,
    intercalate_eq_iff (lastSegment_ne_nil _ _) hslash, lastSegment_eq_singleton hname hplain,
    hdepth, and_iff_right rfl]
  constructor
  · rintro ⟨hzero, rfl⟩
    exact ⟨before, rfl, hzero⟩
  · rintro ⟨before', heq, hzero⟩
    rcases List.append_singleton_inj.mp heq with ⟨rfl, rfl⟩
    exact ⟨hzero, rfl⟩

/-! ## Splitting -/

theorem splitOnP_congr {p q : Char → Bool} {cs : List Char} (h : ∀ c ∈ cs, p c = q c) :
    cs.splitOnP p = cs.splitOnP q := by
  induction cs with
  | nil => rfl
  | cons c cs ih =>
    rw [List.splitOnP_cons_eq_if_modifyHead, List.splitOnP_cons_eq_if_modifyHead,
      h c (List.mem_cons_self ..), ih fun d hd => h d (List.mem_cons_of_mem _ hd)]

theorem mem_of_mem_splitOnP {p : Char → Bool} {cs : List Char} {s : Segment}
    (hs : s ∈ cs.splitOnP p) : ∀ c ∈ s, c ∈ cs := by
  induction cs generalizing s with
  | nil => simp_all
  | cons d cs ih =>
    rw [List.splitOnP_cons_eq_if_modifyHead] at hs
    split at hs
    · rcases List.mem_cons.mp hs with rfl | hs
      · simp
      · exact fun c hc => List.mem_cons_of_mem _ (ih hs c hc)
    · cases hsplit : cs.splitOnP p with
      | nil => exact absurd hsplit (List.splitOnP_ne_nil _ _)
      | cons t ts =>
        rw [hsplit] at hs ih
        rcases List.mem_cons.mp hs with rfl | hs
        · intro c hc
          rcases List.mem_cons.mp hc with rfl | hc
          · exact List.mem_cons_self ..
          · exact List.mem_cons_of_mem _ (ih (List.mem_cons_self ..) c hc)
        · exact fun c hc => List.mem_cons_of_mem _ (ih (List.mem_cons_of_mem _ hs) c hc)

/-- The last piece ends as the text does. -/
theorem splitOnP_concat {p : Char → Bool} {c : Char} (hc : p c = false) (cs : List Char) :
    ∃ before s, (cs ++ [c]).splitOnP p = before ++ [s ++ [c]] := by
  induction cs with
  | nil => exact ⟨[], [], by simp [List.splitOnP_cons_eq_if_modifyHead, hc]⟩
  | cons d cs ih =>
    rcases ih with ⟨before, s, hsplit⟩
    rw [List.cons_append, List.splitOnP_cons_eq_if_modifyHead, hsplit]
    split
    · exact ⟨[] :: before, s, rfl⟩
    · cases before with
      | nil => exact ⟨[], d :: s, rfl⟩
      | cons b before => exact ⟨(d :: b) :: before, s, rfl⟩

end Companion.Lib
