import Mathlib.Data.Set.Finite.Basic
import Mathlib.Logic.Relation
import Mathlib.Order.WellFoundedSet

/-!
# Reading a listing page by page

A client that reads a listing asks for page after page, each time with the cursor the
last page gave it, and stops at a page that is not full or that gives the cursor it was
asked with.  Who answers is a parameter: the answer may depend on the cursor and on how
many requests came before, so that the listing may change on the way.

Nothing makes such a loop end, so it runs on fuel, one unit a request.  Against a
listing that only grows at its head it ends and returns what was there at the start
(`pages_complete`).  Against answers that depend on the cursor alone it ends unless full
pages lead from cursor to cursor into a cycle (`ends_iff`).

## Main definitions

* `Page`, `pages` — a page, and the loop.
* `after`, `Serves` — what follows a cursor, and a page of it.
* `Feed` — a listing that new items enter at the head only.
* `Onward`, `Circles` — full pages lead from cursor to cursor, and into a cycle.
-/

set_option autoImplicit false

namespace Companion.Lib

/-- A page of a listing, and the cursor to ask with for the next one. -/
structure Page (κ α : Type) where
  items : List α
  last : κ

section Loop
variable {κ α ε : Type} [DecidableEq κ]

/-- Page after page from `cursor` on, the answer to the `k`-th request being `ask k`.
`none` is a loop that has not come to its end. -/
def pages (ask : ℕ → Option κ → Except ε (Page κ α)) (size : ℕ) :
    ℕ → ℕ → Option κ → List α → Option (Except ε (List α))
  | 0, _, _, _ => none
  | fuel + 1, k, cursor, out =>
      match ask k cursor with
      | .error e => some (.error e)
      | .ok page =>
          if page.items.length < size ∨ cursor = some page.last then
            some (.ok (out ++ page.items))
          else
            pages ask size fuel (k + 1) (some page.last) (out ++ page.items)

variable {ask : ℕ → Option κ → Except ε (Page κ α)} {size fuel k : ℕ} {cursor : Option κ}
  {out : List α} {page : Page κ α} {e : ε}

theorem pages_error (h : ask k cursor = .error e) :
    pages ask size (fuel + 1) k cursor out = some (.error e) := by
  simp [pages, h]

theorem pages_last (h : ask k cursor = .ok page)
    (hend : page.items.length < size ∨ cursor = some page.last) :
    pages ask size (fuel + 1) k cursor out = some (.ok (out ++ page.items)) := by
  simp [pages, h, hend]

theorem pages_full (h : ask k cursor = .ok page) (hfull : size ≤ page.items.length)
    (hnew : cursor ≠ some page.last) :
    pages ask size (fuel + 1) k cursor out =
      pages ask size fuel (k + 1) (some page.last) (out ++ page.items) := by
  simp [pages, h, hnew, hfull]

end Loop

/-! ## A listing that grows at its head -/

section Listing
variable {κ α ε : Type}

/-- What follows the entry at the cursor, and everything if there is none. -/
def after [DecidableEq κ] : Option κ → List (κ × α) → List (κ × α)
  | none, xs => xs
  | some c, xs => (xs.dropWhile fun x => x.1 ≠ c).tail

/-- The page is the first `size` entries after the cursor, and says where it ends. -/
structure Serves [DecidableEq κ] (xs : List (κ × α)) (size : ℕ) (cursor : Option κ)
    (page : Page κ α) : Prop where
  items : page.items = ((after cursor xs).take size).map Prod.snd
  last : ∀ x ∈ ((after cursor xs).take size).getLast?, page.last = x.1

/-- What is listed at each request: between two of them new entries come in at the head,
and no key is listed twice. -/
structure Feed (κ α : Type) where
  items : ℕ → List (κ × α)
  nodup : ∀ k, ((items k).map Prod.fst).Nodup
  grows : ∀ k, ∃ new, items (k + 1) = new ++ items k

/-- The page a feed shows, `blank` being the end of an empty one. -/
def Feed.page [DecidableEq κ] (feed : Feed κ α) (blank : κ) (k size : ℕ) (cursor : Option κ) :
    Page κ α :=
  let shown := (after cursor (feed.items k)).take size
  ⟨shown.map Prod.snd, (shown.getLast?.map Prod.fst).getD blank⟩

theorem Feed.serves_page [DecidableEq κ] (feed : Feed κ α) (blank : κ) (k size : ℕ)
    (cursor : Option κ) :
    Serves (feed.items k) size cursor (feed.page blank k size cursor) where
  items := rfl
  last x hx := by
    have hlast : ((after cursor (feed.items k)).take size).getLast? = some x := hx
    simp [Feed.page, hlast]

/-- The cursor stands before the rest `todo` of the listing. -/
def Before : Option κ → List (κ × α) → List (κ × α) → Prop
  | none, todo, xs => xs = todo
  | some c, todo, xs => ∃ done a, xs = done ++ (c, a) :: todo

variable {cursor : Option κ} {xs todo : List (κ × α)} {size : ℕ} {page : Page κ α}

theorem Before.after_eq [DecidableEq κ] (h : Before cursor todo xs)
    (hnodup : (xs.map Prod.fst).Nodup) : after cursor xs = todo := by
  cases cursor with
  | none => exact h
  | some c =>
      obtain ⟨done, a, rfl⟩ := h
      have hdone : ∀ x ∈ done, x.1 ≠ c := by
        intro x hx hc
        simp only [List.map_append, List.map_cons, List.nodup_append] at hnodup
        exact hnodup.2.2 x.1 (List.mem_map_of_mem hx) c (by simp) hc
      rw [after, List.dropWhile_append_of_pos (by simpa using hdone)]
      simp

/-- New entries at the head change nothing for a cursor inside the listing. -/
theorem Before.grow {c : κ} (h : Before (some c) todo xs) (new : List (κ × α)) :
    Before (some c) todo (new ++ xs) := by
  obtain ⟨done, a, rfl⟩ := h
  exact ⟨new ++ done, a, by simp⟩

/-- The cursor a page ends with stands before what is left. -/
theorem Before.next {done rest : List (κ × α)} {x : κ × α}
    (h : Before cursor (done ++ x :: rest) xs) : Before (some x.1) rest xs := by
  cases cursor with
  | none => exact ⟨done, x.2, h⟩
  | some c =>
      obtain ⟨before, a, rfl⟩ := h
      exact ⟨before ++ (c, a) :: done, x.2, by simp⟩

/-- No entry after the cursor is the one at the cursor. -/
theorem Before.ne {x : κ × α} (h : Before cursor todo xs) (hnodup : (xs.map Prod.fst).Nodup)
    (hx : x ∈ todo) : cursor ≠ some x.1 := by
  intro hc
  subst hc
  obtain ⟨done, a, rfl⟩ := h
  simp only [List.map_append, List.map_cons, List.nodup_append, List.nodup_cons] at hnodup
  exact hnodup.2.1.1 (List.mem_map_of_mem hx)

/-- A full page of what is left, split at its last entry. -/
theorem exists_full (hsize : 0 < size) (hfull : size ≤ todo.length) :
    ∃ done x, todo.take size = done ++ [x] ∧ todo = done ++ x :: todo.drop size := by
  have hne : todo.take size ≠ [] := by
    rw [← List.length_pos_iff, List.length_take]
    omega
  have hsplit : todo.take size = (todo.take size).dropLast ++ [(todo.take size).getLast hne] :=
    (List.dropLast_append_getLast hne).symm
  refine ⟨_, _, hsplit, ?_⟩
  rw [List.append_cons, ← hsplit, List.take_append_drop]

variable [DecidableEq κ] {ask : ℕ → Option κ → Except ε (Page κ α)} {feed : Feed κ α}

/-- Once the cursor stands before the rest of the listing, the loop returns that rest. -/
theorem pages_rest (hsize : 0 < size)
    (hserves : ∀ k cursor, (∀ c ∈ cursor, c ∈ (feed.items k).map Prod.fst) →
      ∃ page, ask k cursor = .ok page ∧ Serves (feed.items k) size cursor page)
    {fuel k : ℕ} {out : List α} (hfuel : todo.length < fuel * size)
    (h : Before cursor todo (feed.items k)) :
    pages ask size fuel k cursor out = some (.ok (out ++ todo.map Prod.snd)) := by
  induction fuel generalizing k cursor todo out with
  | zero => simp at hfuel
  | succ fuel ih =>
      have hin : ∀ c ∈ cursor, c ∈ (feed.items k).map Prod.fst := by
        intro c hc
        cases hc
        obtain ⟨done, a, heq⟩ := h
        simp [heq]
      obtain ⟨page, hask, hpage⟩ := hserves k cursor hin
      have hitems := hpage.items
      rw [h.after_eq (feed.nodup k)] at hitems
      by_cases hshort : todo.length < size
      · rw [List.take_of_length_le (by omega)] at hitems
        rw [pages_last hask (.inl (by simpa [hitems] using hshort)), hitems]
      · have hfull : size ≤ todo.length := by omega
        obtain ⟨done, x, htake, htodo⟩ := exists_full hsize hfull
        have hlast : page.last = x.1 := by
          refine hpage.last x ?_
          simp [h.after_eq (feed.nodup k), htake]
        have hx : x ∈ todo := by
          rw [htodo]
          simp
        have hnew : cursor ≠ some page.last := by
          rw [hlast]
          exact h.ne (feed.nodup k) hx
        have hnext : Before (some page.last) (todo.drop size) (feed.items (k + 1)) := by
          obtain ⟨new, hgrown⟩ := feed.grows k
          rw [hgrown, hlast]
          rw [htodo] at h
          exact h.next.grow new
        have hleft : (todo.drop size).length < fuel * size := by
          rw [Nat.succ_mul] at hfuel
          rw [List.length_drop]
          omega
        rw [pages_full hask (by simp [hitems, hfull]) hnew, ih hleft hnext, hitems,
          List.append_assoc, ← List.map_append, List.take_append_drop]

/-- Against a listing that grows at its head only, the loop ends and returns what the
listing held at the first request. -/
theorem pages_complete (hsize : 0 < size)
    (hserves : ∀ k cursor, (∀ c ∈ cursor, c ∈ (feed.items k).map Prod.fst) →
      ∃ page, ask k cursor = .ok page ∧ Serves (feed.items k) size cursor page)
    {fuel : ℕ} (hfuel : (feed.items 0).length / size < fuel) :
    pages ask size fuel 0 none [] = some (.ok ((feed.items 0).map Prod.snd)) := by
  have hlength : (feed.items 0).length < fuel * size := (Nat.div_lt_iff_lt_mul hsize).mp hfuel
  have hall : pages ask size fuel 0 none [] = some (.ok ([] ++ (feed.items 0).map Prod.snd)) :=
    pages_rest hsize hserves hlength (show Before none (feed.items 0) (feed.items 0) from rfl)
  simpa using hall

end Listing

/-! ## Answers that depend on the cursor alone -/

section Descent
variable {α : Type} {r : α → α → Prop} {a b : α}

theorem transGen_rotate (hcycle : Relation.TransGen r a a) :
    ∃ c, r a c ∧ Relation.TransGen r c c := by
  obtain ⟨c, hstep, hback⟩ := Relation.TransGen.head'_iff.mp hcycle
  exact ⟨c, hstep, Relation.TransGen.tail' hback hstep⟩

/-- Whoever can only take finitely many steps does not come to a cycle. -/
theorem not_cycle_of_acc (hacc : Acc (Function.swap r) a) (hreach : Relation.ReflTransGen r a b) :
    ¬ Relation.TransGen r b b := by
  induction hacc generalizing b with
  | intro a _ ih =>
      intro hcycle
      rcases hreach.cases_head with rfl | ⟨c, hstep, hrest⟩
      · obtain ⟨c, hstep, hcycle'⟩ := transGen_rotate hcycle
        exact ih c hstep .refl hcycle'
      · exact ih c hstep hrest hcycle

/-- Where only finitely many points are in reach, steps that never end come to a cycle. -/
theorem acc_iff_no_cycle (hfin : {b | Relation.ReflTransGen r a b}.Finite) :
    Acc (Function.swap r) a ↔
      ¬ ∃ b, Relation.ReflTransGen r a b ∧ Relation.TransGen r b b := by
  constructor
  · rintro hacc ⟨b, hreach, hcycle⟩
    exact not_cycle_of_acc hacc hreach hcycle
  · intro hno
    have hfinite : Finite {b | Relation.ReflTransGen r a b} := hfin
    let below : {b | Relation.ReflTransGen r a b} → {b | Relation.ReflTransGen r a b} → Prop :=
      fun c b => Relation.TransGen r b c
    have hirrefl : Std.Irrefl below := ⟨fun b hcycle => hno ⟨b, b.2, hcycle⟩⟩
    have htrans : IsTrans _ below := ⟨fun _ _ _ h h' => h'.trans h⟩
    have hwf : WellFounded below := Finite.wellFounded_of_trans_of_irrefl below
    have hall : ∀ b : {b | Relation.ReflTransGen r a b}, Acc (Function.swap r) b.1 := by
      intro b
      induction b using hwf.induction with
      | _ b ih =>
          refine Acc.intro b.1 fun c hstep => ?_
          exact ih ⟨c, b.2.tail hstep⟩ (.single hstep)
    exact hall ⟨a, .refl⟩

end Descent

section Fixed
variable {κ α ε : Type} [DecidableEq κ] {ask : Option κ → Except ε (Page κ α)}
  {size fuel k : ℕ} {cursor : Option κ} {out : List α} {result : Except ε (List α)}

/-- The request for `cursor` is answered by a full page, which leads on to `cursor'`. -/
def Onward (ask : Option κ → Except ε (Page κ α)) (size : ℕ) (cursor cursor' : Option κ) :
    Prop :=
  ∃ page, ask cursor = .ok page ∧ size ≤ page.items.length ∧ cursor ≠ some page.last ∧
    cursor' = some page.last

theorem acc_of_pages (h : pages (fun _ => ask) size fuel k cursor out = some result) :
    Acc (Function.swap (Onward ask size)) cursor := by
  induction fuel generalizing k cursor out with
  | zero => simp [pages] at h
  | succ fuel ih =>
      refine Acc.intro cursor ?_
      rintro _ ⟨page, hask, hfull, hnew, rfl⟩
      rw [pages_full hask hfull hnew] at h
      exact ih h

theorem exists_pages_of_acc (hacc : Acc (Function.swap (Onward ask size)) cursor) (k : ℕ)
    (out : List α) : ∃ fuel result, pages (fun _ => ask) size fuel k cursor out = some result := by
  induction hacc generalizing k out with
  | intro cursor _ ih =>
      cases hask : ask cursor with
      | error e => exact ⟨1, _, pages_error hask⟩
      | ok page =>
          by_cases hend : page.items.length < size ∨ cursor = some page.last
          · exact ⟨1, _, pages_last hask hend⟩
          · obtain ⟨hfull, hnew⟩ := not_or.mp hend
            have hon : Onward ask size cursor (some page.last) :=
              ⟨page, hask, Nat.le_of_not_lt hfull, hnew, rfl⟩
            obtain ⟨fuel, result, hrest⟩ := ih _ hon (k + 1) (out ++ page.items)
            have hturn : pages (fun _ => ask) size (fuel + 1) k cursor out =
                pages (fun _ => ask) size fuel (k + 1) (some page.last) (out ++ page.items) :=
              pages_full hask (Nat.le_of_not_lt hfull) hnew
            exact ⟨fuel + 1, result, hturn.trans hrest⟩

/-- Full pages lead from the cursor into a cycle. -/
def Circles (ask : Option κ → Except ε (Page κ α)) (size : ℕ) (cursor : Option κ) : Prop :=
  ∃ c, Relation.ReflTransGen (Onward ask size) cursor c ∧
    Relation.TransGen (Onward ask size) c c

/-- The loop comes to an end exactly when full pages do not lead it into a cycle. -/
theorem ends_iff (hfin : {c | ∃ cursor page, ask cursor = .ok page ∧ page.last = c}.Finite) :
    (∃ fuel result, pages (fun _ => ask) size fuel k cursor out = some result) ↔
      ¬ Circles ask size cursor := by
  have hreach : {c | Relation.ReflTransGen (Onward ask size) cursor c}.Finite := by
    refine ((hfin.image some).insert cursor).subset fun c hc => ?_
    rcases hc.cases_tail with rfl | ⟨c', _, page, hask, _, _, rfl⟩
    · exact Set.mem_insert _ _
    · exact Set.mem_insert_of_mem _ ⟨page.last, ⟨c', page, hask, rfl⟩, rfl⟩
  rw [Circles, ← acc_iff_no_cycle hreach]
  constructor
  · rintro ⟨fuel, result, h⟩
    exact acc_of_pages h
  · intro hacc
    exact exists_pages_of_acc hacc k out

end Fixed

end Companion.Lib
