import Companion.Api

/-!
# Who is let in

Behind a configured token a request passes when its `Authorization` header presents that
token.  The header is trimmed and its token is trimmed again, so padding is forgiven, and
so is the case of the scheme; what is compared is the token exactly.  A configured token
that does not survive the trimming can be presented by nobody.

## Main definitions

* `Presents` — a header that presents a token, by what it is put together from.
* `bearerToken_eq_some` — reading the header finds that token.
* `Presentable` — a token that a header can carry.
* `let_in_iff` — who passes, and whether anybody can.
-/

set_option autoImplicit false

namespace Companion.Api
open Lib

/-- The header is `Bearer` in some case, a gap and the token, in some padding. -/
def Presents (header token : List Char) : Prop :=
  Trimmed isWhitespace token ∧ token ≠ [] ∧ ∃ pre scheme gap post,
    header = pre ++ (scheme ++ (gap ++ (token ++ post))) ∧
    scheme.map Char.toLower = "bearer".toList ∧ gap ≠ [] ∧
    ∀ c ∈ pre ++ gap ++ post, isWhitespace c = true

/-- Blanks have no case. -/
theorem toLower_of_whitespace {c : Char} (h : isWhitespace c = true) : c.toLower = c := by
  have hnot : ¬ (c.val ≥ 'A'.val ∧ c.val ≤ 'Z'.val) := by
    intro hup
    have h1 : 65 ≤ c.toNat := hup.1
    have h2 : c.toNat ≤ 90 := hup.2
    simp only [isWhitespace, List.mem_cons, List.not_mem_nil, or_false, decide_eq_true_eq] at h
    omega
  exact dif_neg hnot

/-- No character of the scheme is a blank. -/
theorem scheme_not_whitespace {scheme : List Char}
    (h : scheme.map Char.toLower = "bearer".toList) : ∀ c ∈ scheme, isWhitespace c = false := by
  intro c hc
  by_contra hws
  have hws : isWhitespace c = true := by simpa using hws
  have hmem := List.mem_map_of_mem (f := Char.toLower) hc
  rw [h, toLower_of_whitespace hws] at hmem
  have hletters : ∀ d ∈ ['b', 'e', 'a', 'r', 'e', 'r'], isWhitespace d = false := by
    simp [isWhitespace]
  rw [hletters c (by simpa using hmem)] at hws
  cases hws

theorem bearerToken_eq_some {header token : List Char} :
    bearerToken header = some token ↔ Presents header token := by
  constructor
  · intro h
    simp only [bearerToken, Option.bind_eq_bind, Option.bind_eq_some_iff] at h
    obtain ⟨⟨scheme, rest⟩, hsplit, hok⟩ := h
    obtain ⟨-, c, hc, htrim⟩ := splitOnce_eq_some.mp hsplit
    simp only [Bool.and_eq_true, eqIgnoreAsciiCase, decide_eq_true_eq] at hok
    split at hok
    · next hscheme =>
      cases hok
      obtain ⟨-, pre, post, hheader, hpre, hpost⟩ := trimBy_spec (p := isWhitespace) header
      obtain ⟨hlast, gap, post', hrest, hgap, hpost'⟩ := trimBy_spec (p := isWhitespace) rest
      refine ⟨hlast, by simpa using hscheme.2, pre, scheme, c :: gap, post' ++ post, ?_, ?_,
        by simp, ?_⟩
      · rw [← trim, htrim] at hheader
        rw [← trim] at hrest
        rw [hheader]
        conv_lhs => rw [hrest]
        simp
      · rw [hscheme.1]
        decide
      · intro d hd
        simp only [List.mem_append, List.mem_cons] at hd
        grind
    · cases hok
  · rintro ⟨htok, hne, pre, scheme, gap, post, rfl, hscheme, hgap, hws⟩
    have hplain := scheme_not_whitespace hscheme
    have hsome : scheme ≠ [] := by
      rintro rfl
      cases hscheme
    obtain ⟨g, gap, rfl⟩ := List.exists_cons_of_ne_nil hgap
    -- the scheme starts the trimmed header, and the token ends it
    have htrimmed : Trimmed isWhitespace (scheme ++ (g :: gap ++ token)) := by
      constructor
      · intro c hc
        rw [List.head?_append_of_ne_nil scheme hsome] at hc
        exact hplain c (List.mem_of_mem_head? hc)
      · intro c hc
        rw [← List.append_assoc, List.getLast?_append_of_ne_nil _ hne] at hc
        exact htok.last c hc
    have hheader : trim (pre ++ (scheme ++ (g :: gap ++ token) ++ post)) =
        scheme ++ (g :: gap ++ token) :=
      trimBy_pad (fun c hc => hws c (by simp [hc])) (fun c hc => hws c (by simp [hc])) htrimmed
        (by simp)
    have hsplit : splitOnce isWhitespace (scheme ++ g :: (gap ++ token)) =
        some (scheme, gap ++ token) :=
      splitOnce_append hplain (hws g (by simp))
    have htoken : trim (gap ++ (token ++ [])) = token :=
      trimBy_pad (fun c hc => hws c (by simp [hc])) (by simp) htok hne
    have hcase : eqIgnoreAsciiCase scheme "bearer".toList = true := by
      rw [eqIgnoreAsciiCase, hscheme]
      decide
    simp only [List.append_assoc, List.cons_append, List.append_nil] at hheader htoken
    simp only [bearerToken, List.cons_append, hheader, hsplit, Option.bind_eq_bind,
      Option.bind_some, htoken, hcase]
    simp [hne]

/-! ## Headers -/

/-- A character that a header can carry: a tab, a blank or visible ASCII. -/
def Plain (c : Char) : Prop := c.toNat = 9 ∨ (32 ≤ c.toNat ∧ c.toNat < 127)

/-- A token that a header can carry, and that reading the header leaves as it is. -/
def Presentable (token : List Char) : Prop :=
  token ≠ [] ∧ Trimmed isWhitespace token ∧ ∀ c ∈ token, Plain c

/-- The bytes of a text that a header can carry. -/
def headerBytes (cs : List Char) : List UInt8 := cs.map fun c => UInt8.ofNat c.toNat

theorem headerStr_bytes {cs : List Char} (h : ∀ c ∈ cs, Plain c) :
    headerStr (headerBytes cs) = some cs := by
  have hbytes : (headerBytes cs).all fun b => b = 9 ∨ (32 ≤ b ∧ b < 127) := by
    simp only [headerBytes, List.all_map, List.all_eq_true, Function.comp_apply,
      decide_eq_true_eq]
    intro c hc
    have hc := h c hc
    simp only [Plain] at hc
    simp only [← UInt8.toNat_inj, UInt8.le_iff_toNat_le, UInt8.lt_iff_toNat_lt,
      UInt8.toNat_ofNat']
    simp
    omega
  have hback : (headerBytes cs).map (fun b => Char.ofNat b.toNat) = cs := by
    rw [headerBytes, List.map_map]
    conv_rhs => rw [← List.map_id cs]
    apply List.map_congr_left
    intro c hc
    have hlt : c.toNat % 2 ^ 8 = c.toNat := by
      have hc := h c hc
      simp only [Plain] at hc
      omega
    simp only [Function.comp_apply, UInt8.toNat_ofNat', hlt, Char.ofNat_toNat, id]
  rw [headerStr, if_pos hbytes, hback]

/-- What a header carries. -/
theorem plain_of_headerStr {value : List UInt8} {cs : List Char} (h : headerStr value = some cs) :
    ∀ c ∈ cs, Plain c := by
  rw [headerStr] at h
  split at h
  · next hall =>
    cases h
    intro c hc
    obtain ⟨b, hb, rfl⟩ := List.mem_map.mp hc
    have hb := of_decide_eq_true (List.all_eq_true.mp hall b hb)
    have hchar : (Char.ofNat b.toNat).toNat = b.toNat := by
      have hvalid : b.toNat.isValidChar := Or.inl (by have := b.toNat_lt; omega)
      have hofNat : Char.ofNat b.toNat = Char.ofNatAux b.toNat hvalid := dif_pos hvalid
      rw [hofNat]
      rfl
    rw [Plain, hchar]
    simpa [← UInt8.toNat_inj, UInt8.le_iff_toNat_le, UInt8.lt_iff_toNat_lt] using hb
  · cases h

/-! ## Requests -/

theorem requireToken_some {expected : String} {header : Option (List UInt8)} :
    requireToken (some expected) header = true ↔
      ∃ value cs, header = some value ∧ headerStr value = some cs ∧
        Presents cs expected.toList := by
  simp only [requireToken, Option.any_eq_true, Option.bind_eq_some_iff, decide_eq_true_eq,
    bearerToken_eq_some]
  constructor
  · rintro ⟨t, ⟨cs, ⟨value, rfl, hstr⟩, hp⟩, rfl⟩
    exact ⟨value, cs, rfl, hstr, hp⟩
  · rintro ⟨value, cs, rfl, hstr, hp⟩
    exact ⟨_, ⟨cs, ⟨value, rfl, hstr⟩, hp⟩, rfl⟩

/-- The plain way to present a token. -/
def bearer (token : String) : List Char :=
  ['B', 'e', 'a', 'r', 'e', 'r', ' '] ++ token.toList

theorem presents_bearer {token : String} (h : Presentable token.toList) :
    Presents (bearer token) token.toList := by
  refine ⟨h.2.1, h.1, [], ['B', 'e', 'a', 'r', 'e', 'r'], [' '], [], ?_, rfl, by simp, ?_⟩
  · simp [bearer]
  · simp [isWhitespace]

/-- A header that presents a token is made of what headers can carry, so the token is. -/
theorem presentable_of_presents {cs token : List Char} (hp : Presents cs token)
    (hcs : ∀ c ∈ cs, Plain c) : Presentable token := by
  obtain ⟨htrim, hne, pre, scheme, gap, post, rfl, -⟩ := hp
  refine ⟨hne, htrim, fun c hc => hcs c ?_⟩
  simp [hc]

/-- **Who is let in.**  Without a configured token everybody is.  With one, a request passes
exactly when its header is text and presents that token; and somebody can pass exactly when
the token is not empty, has no blanks at its ends and is plain ASCII. -/
theorem let_in_iff (expected : Option String) :
    (∀ header, requireToken expected header = true ↔ ∀ token, expected = some token →
      ∃ value cs, header = some value ∧ headerStr value = some cs ∧
        Presents cs token.toList) ∧
    ((∃ header, requireToken expected header = true) ↔
      ∀ token, expected = some token → Presentable token.toList) := by
  cases expected with
  | none => simp [requireToken]
  | some token =>
    simp only [requireToken_some, Option.some.injEq, forall_eq']
    refine ⟨fun _ => trivial, ?_, fun h => ?_⟩
    · rintro ⟨header, value, cs, rfl, hstr, hp⟩
      exact presentable_of_presents hp (plain_of_headerStr hstr)
    · have hascii : ∀ c ∈ bearer token, Plain c := by
        intro c hc
        cases List.mem_append.mp hc with
        | inl hscheme =>
          have hall : ∀ d ∈ ['B', 'e', 'a', 'r', 'e', 'r', ' '], 32 ≤ d.toNat ∧ d.toNat < 127 := by
            simp
          exact Or.inr (hall c hscheme)
        | inr htoken => exact h.2.2 c htoken
      exact ⟨_, _, _, rfl, headerStr_bytes hascii, presents_bearer h⟩

end Companion.Api
