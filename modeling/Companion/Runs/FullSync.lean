import Companion.Runs.Exclusion
import Companion.Runs.Scopes

/-!
# When a full sync is recorded

`last_full_sync_at` is what `/health` shows of the state of the mirror.  It is set at the
end of a full sync to the moment at which the sync began.  That it is never set otherwise
is a matter of one task: by its notes the task has listed and written everything since it
read the clock.  That it never goes back is a matter of all of them: a sync that begins
later is recorded later, since the lock is held from before the clock is read.

## Main definitions

* `Lists`, `Wrote` — the listings a task has been given, and what it has written of them.
* `Tallies` — the notes of a task are what its events say.
* `MirroredAll` — everything has been listed and written.
* `full_sync_recorded`, `full_sync_forward`.
-/

set_option autoImplicit false

namespace Companion
open Lib Pool

/-! ## What the events of a section say -/

section Events
variable {i : ℕ} {seg : List (Event Effects Host)} {e : Event Effects Host} {n n' : Inside}

/-- A step by which thread `i` is given a listing. -/
inductive Lists (i : ℕ) : Label Effects → Option String → List RlnTransfer → Prop
  | assetless {size : ℕ} {ts : List RlnTransfer} :
      Lists i (.act i (.node (.listAssetlessTransfers size)) (.ok ts)) none ts
  | asset {assetId : String} {size : ℕ} {ts : List RlnTransfer} :
      Lists i (.act i (.node (.listTransfers assetId size)) (.ok ts)) (some assetId) ts

/-- Thread `i` has listed these transfers. -/
def HasListed (i : ℕ) (seg : List (Event Effects Host)) (assetId : Option String) : Prop :=
  ∃ e ∈ seg, ∃ ts, Lists i e.label assetId ts

/-- Thread `i` has been told the assets of the node. -/
def HasNamed (i : ℕ) (seg : List (Event Effects Host)) (assets : List (String × String)) : Prop :=
  ∃ e ∈ seg, e.label = .act i (.node .listAssets) (.ok assets)

/-- Thread `i` has written the observation. -/
def Wrote (i : ℕ) (seg : List (Event Effects Host)) (o : Observed) : Prop :=
  ∃ e ∈ seg, ∃ now row, e.label = .act i (.store (.upsertObserved o now)) (.ok row)

/-- The notes of thread `i` account for the events of `seg`. -/
structure Tallies (i : ℕ) (seg : List (Event Effects Host)) (n : Inside) : Prop where
  listed : ∀ ids, n.unlisted = some ids → ∃ assets, HasNamed i seg assets ∧
    ∀ a ∈ assets, a.1 ∈ ids ∨ HasListed i seg (some a.1)
  assetless : n.assetless = true → HasListed i seg none
  written : ∀ e ∈ seg, ∀ assetId ts, Lists i e.label assetId ts → ∀ t ∈ ts,
    t.observed assetId ∈ n.unwritten ∨ Wrote i seg (t.observed assetId)

theorem HasListed.snoc {assetId : Option String} (h : HasListed i seg assetId) :
    HasListed i (seg ++ [e]) assetId := by
  obtain ⟨e', he', h⟩ := h
  exact ⟨e', List.mem_append_left _ he', h⟩

theorem HasNamed.snoc {assets : List (String × String)} (h : HasNamed i seg assets) :
    HasNamed i (seg ++ [e]) assets := by
  obtain ⟨e', he', h⟩ := h
  exact ⟨e', List.mem_append_left _ he', h⟩

theorem Wrote.snoc {o : Observed} (h : Wrote i seg o) : Wrote i (seg ++ [e]) o := by
  obtain ⟨e', he', h⟩ := h
  exact ⟨e', List.mem_append_left _ he', h⟩

theorem hasListed_last {assetId : Option String} {ts : List RlnTransfer}
    (h : Lists i e.label assetId ts) : HasListed i (seg ++ [e]) assetId :=
  ⟨e, List.mem_append_right _ (List.mem_singleton_self e), ts, h⟩

/-- What is owed of the listings so far is owed after one more event, if that is none. -/
theorem Tallies.written_snoc (h : Tallies i seg n)
    (hnone : ∀ assetId ts, ¬ Lists i e.label assetId ts) :
    ∀ e' ∈ seg ++ [e], ∀ assetId ts, Lists i e'.label assetId ts → ∀ t ∈ ts,
      t.observed assetId ∈ n.unwritten ∨ Wrote i (seg ++ [e]) (t.observed assetId) := by
  intro e' he' assetId ts hl t ht
  rcases List.mem_append.mp he' with he' | he'
  · exact (h.written e' he' assetId ts hl t ht).imp_right Wrote.snoc
  · rw [List.mem_singleton.mp he'] at hl
    exact absurd hl (hnone assetId ts)

/-- An event that teaches nothing. -/
theorem Tallies.other (h : Tallies i seg n) (hnone : ∀ assetId ts, ¬ Lists i e.label assetId ts) :
    Tallies i (seg ++ [e]) n where
  listed ids hids := by
    obtain ⟨assets, hnamed, hall⟩ := h.listed ids hids
    exact ⟨assets, hnamed.snoc, fun a ha => (hall a ha).imp_right HasListed.snoc⟩
  assetless ha := (h.assetless ha).snoc
  written := h.written_snoc hnone

/-- The node names its assets. -/
theorem Tallies.named (h : Tallies i seg n) {assets : List (String × String)}
    (he : e.label = .act i (.node .listAssets) (.ok assets)) :
    Tallies i (seg ++ [e]) { n with unlisted := some (btreeSet (assets.map Prod.fst)) } where
  listed ids hids := by
    cases hids
    refine ⟨assets, ⟨e, by simp, he⟩, fun a ha => Or.inl ?_⟩
    exact mem_btreeSet.mpr (List.mem_map_of_mem ha)
  assetless ha := (h.assetless ha).snoc
  written := h.written_snoc fun assetId ts hl => by
    rw [he] at hl
    cases hl

/-- A listing is owed until it is written. -/
theorem Tallies.entered {n₀ : Inside} (h : Tallies i seg n) {assetId : Option String}
    {ts : List RlnTransfer} (he : Lists i e.label assetId ts) (hsame : n₀.unwritten = n.unwritten)
    (hlisted : ∀ ids, n₀.unlisted = some ids → ∃ assets, HasNamed i (seg ++ [e]) assets ∧
      ∀ a ∈ assets, a.1 ∈ ids ∨ HasListed i (seg ++ [e]) (some a.1))
    (hassetless : n₀.assetless = true → HasListed i (seg ++ [e]) none) :
    Tallies i (seg ++ [e]) (n₀.entered assetId ts) where
  listed := hlisted
  assetless := hassetless
  written e' he' assetId' ts' hl t ht := by
    rcases List.mem_append.mp he' with he' | he'
    · refine (h.written e' he' assetId' ts' hl t ht).imp (fun hin => ?_) Wrote.snoc
      exact List.mem_append_right _ (hsame ▸ hin)
    · rw [List.mem_singleton.mp he'] at hl
      have hsame : assetId' = assetId ∧ ts' = ts := by
        generalize e.label = l at he hl
        cases he <;> cases hl <;> exact ⟨rfl, rfl⟩
      obtain ⟨rfl, rfl⟩ := hsame
      exact Or.inl (List.mem_append_left _ (List.mem_map_of_mem ht))

/-- An observation is written. -/
theorem Tallies.wrote (h : Tallies i seg n) {o : Observed} {now : ℤ} {row : Transfer}
    (he : e.label = .act i (.store (.upsertObserved o now)) (.ok row)) :
    Tallies i (seg ++ [e]) { n with unwritten := n.unwritten.erase o } where
  listed ids hids := by
    obtain ⟨assets, hnamed, hall⟩ := h.listed ids hids
    exact ⟨assets, hnamed.snoc, fun a ha => (hall a ha).imp_right HasListed.snoc⟩
  assetless ha := (h.assetless ha).snoc
  written e' he' assetId ts hl t ht := by
    have hnone : ∀ assetId ts, ¬ Lists i e.label assetId ts := by
      intro assetId ts hl
      rw [he] at hl
      cases hl
    rcases h.written_snoc hnone e' he' assetId ts hl t ht with hin | hwrote
    · by_cases ho : t.observed assetId = o
      · exact Or.inr ⟨e, by simp, now, row, ho ▸ he⟩
      · exact Or.inl ((List.mem_erase_of_ne ho).mpr hin)
    · exact Or.inr hwrote

/-- One operation inside, apart from those of the lock and the clock. -/
theorem Tallies.act {o : Op} {r : o.Res} (htake : o.takesLock = false)
    (hgive : o.givesLock = false) (hclock : o ≠ .clock) (n : Inside) :
    ∃ n', Inside.note (some n) o r = some n' ∧ n'.clock = n.clock ∧
      ∀ seg (e : Event Effects Host), e.label = .act i o r → Tallies i seg n →
        Tallies i (seg ++ [e]) n' := by
  have hother : Inside.note (some n) o r = some n →
      (∀ assetId ts, ¬ Lists i (.act i o r) assetId ts) →
      ∃ n', Inside.note (some n) o r = some n' ∧ n'.clock = n.clock ∧
        ∀ seg (e : Event Effects Host), e.label = .act i o r → Tallies i seg n →
          Tallies i (seg ++ [e]) n' :=
    fun hnote hnone => ⟨n, hnote, rfl, fun seg e he h => h.other (he ▸ hnone)⟩
  cases o with
  | lock => cases htake
  | unlock => cases hgive
  | clock => exact absurd rfl hclock
  | post _ | uuid | forward _ => exact hother rfl (by rintro assetId ts ⟨⟩)
  | store q =>
    cases q with
    | upsertObserved o now =>
      cases r with
      | ok row => exact ⟨_, rfl, rfl, fun seg e he h => h.wrote he⟩
      | error e => exact hother rfl (by rintro assetId ts ⟨⟩)
    | _ => exact hother rfl (by rintro assetId ts ⟨⟩)
  | node call =>
    cases r with
    | error e => cases call <;> exact hother rfl (by rintro assetId ts ⟨⟩)
    | ok a =>
      cases call with
      | listAssets => exact ⟨_, rfl, rfl, fun seg e he h => h.named he⟩
      | listAssetlessTransfers size =>
        refine ⟨_, rfl, rfl, fun seg e he h => ?_⟩
        have hl : Lists i e.label none a := he ▸ .assetless
        refine h.entered hl rfl (fun ids hids => ?_) fun _ => hasListed_last hl
        obtain ⟨assets, hnamed, hall⟩ := h.listed ids hids
        exact ⟨assets, hnamed.snoc, fun b hb => (hall b hb).imp_right HasListed.snoc⟩
      | listTransfers assetId size =>
        refine ⟨_, rfl, rfl, fun seg e he h => ?_⟩
        have hl : Lists i e.label (some assetId) a := he ▸ .asset
        refine h.entered hl rfl (fun ids hids => ?_) fun ha => (h.assetless ha).snoc
        obtain ⟨ids', hids', rfl⟩ := Option.map_eq_some_iff.mp hids
        obtain ⟨assets, hnamed, hall⟩ := h.listed ids' hids'
        refine ⟨assets, hnamed.snoc, fun b hb => ?_⟩
        by_cases hid : b.1 = assetId
        · exact Or.inr (hid ▸ hasListed_last hl)
        · exact (hall b hb).imp (List.mem_erase_of_ne hid).mpr HasListed.snoc
      | _ => exact hother rfl (by rintro assetId ts ⟨⟩)

end Events

/-! ## How a thread came by its notes -/

section Sections
variable {cfg : Config} {i : ℕ} {n : Inside} {hist : List (Event Effects Host)}

/-- The notes are of the section the thread is in: it has taken the lock and not given it
back, and since it read the clock the notes account for what has happened. -/
def Recounts (cfg : Config) (i : ℕ) (hist : List (Event Effects Host)) (n : Inside) : Prop :=
  ∃ b l s, hist = b ++ l :: s ∧ l.label = .act i .lock () ∧
    (∀ e ∈ s, ¬ (engineLock cfg).Leaves i e) ∧
    ∀ t, n.clock = some t → ∃ s₁ ck s₂, s = s₁ ++ ck :: s₂ ∧ ck.label = .act i .clock t ∧
      Tallies i s₂ n

theorem not_leaves_of_append {s : List (Event Effects Host)} {e : Event Effects Host}
    (h : ∀ e' ∈ s, ¬ (engineLock cfg).Leaves i e') (he : ¬ (engineLock cfg).Leaves i e) :
    ∀ e' ∈ s ++ [e], ¬ (engineLock cfg).Leaves i e' := by
  intro e' he'
  rcases List.mem_append.mp he' with he' | he'
  · exact h e' he'
  · rwa [List.mem_singleton.mp he']

/-- An event that is not the thread's and no boot. -/
theorem Recounts.other {e : Event Effects Host} (h : Recounts cfg i hist n)
    (he : ¬ (engineLock cfg).Leaves i e) (hnone : ∀ assetId ts, ¬ Lists i e.label assetId ts) :
    Recounts cfg i (hist ++ [e]) n := by
  obtain ⟨b, l, s, rfl, hl, hstay, hclock⟩ := h
  refine ⟨b, l, s ++ [e], by simp, hl, not_leaves_of_append hstay he, fun t ht => ?_⟩
  obtain ⟨s₁, ck, s₂, rfl, hck, hacc⟩ := hclock t ht
  exact ⟨s₁, ck, s₂ ++ [e], by simp, hck, hacc.other hnone⟩

theorem not_leaves_act {e : Event Effects Host} {j : ℕ} {o : Op} {r : o.Res}
    (he : e.label = .act j o r) (ho : j = i → o.givesLock = false) :
    ¬ (engineLock cfg).Leaves i e := by
  rintro (hb | ⟨o', r', hl, hgive⟩)
  · rw [he] at hb
    cases hb
  · rw [he] at hl
    cases hl
    have hgive' : o.givesLock = true := hgive
    rw [ho rfl] at hgive'
    cases hgive'

/-- The thread's own operation, when it stays inside. -/
theorem Recounts.act {e : Event Effects Host} {o : Op} {r : o.Res} {n' : Inside}
    (h : Recounts cfg i hist n) (he : e.label = .act i o r) (htake : o.takesLock = false)
    (hgive : o.givesLock = false) (hnote : Inside.note (some n) o r = some n') :
    Recounts cfg i (hist ++ [e]) n' := by
  obtain ⟨b, l, s, rfl, hl, hstay, hclock⟩ := h
  refine ⟨b, l, s ++ [e], by simp, hl,
    not_leaves_of_append hstay (not_leaves_act he fun _ => hgive), fun t ht => ?_⟩
  by_cases ho : o = .clock
  · subst ho
    cases hnote
    cases ht
    exact ⟨s, e, [], rfl, he, ⟨nofun, nofun, by simp⟩⟩
  · obtain ⟨n'', hn'', hsame, hacc⟩ := Tallies.act (i := i) htake hgive ho n
    rw [hnote] at hn''
    cases hn''
    obtain ⟨s₁, ck, s₂, rfl, hck, hs₂⟩ := hclock t (hsame ▸ ht)
    exact ⟨s₁, ck, s₂ ++ [e], by simp, hck, hacc s₂ e he hs₂⟩

theorem recounts (cfg : Config) (i : ℕ) (hist : List (Event Effects Host)) :
    ∀ n, memory Inside.note none i hist = some n → Recounts cfg i hist n := by
  induction hist using List.reverseRecOn with
  | nil => exact nofun
  | append_singleton hist e ih =>
    intro n hn
    rw [memory_append] at hn
    cases hl : e.label with
    | boot ps => simp [hl] at hn
    | start p =>
      simp only [hl] at hn
      exact (ih n hn).other (by simp [Lock.Leaves, hl, Label.isBoot]) (by rw [hl]; rintro _ _ ⟨⟩)
    | drift =>
      simp only [hl] at hn
      exact (ih n hn).other (by simp [Lock.Leaves, hl, Label.isBoot]) (by rw [hl]; rintro _ _ ⟨⟩)
    | act j o r =>
      simp only [hl] at hn
      by_cases hij : j = i
      · subst hij
        simp only [if_pos] at hn
        by_cases htake : o.takesLock = true
        · cases o with
          | lock =>
            cases hn
            exact ⟨hist, e, [], rfl, hl, by simp, nofun⟩
          | _ => cases htake
        · by_cases hgive : o.givesLock = true
          · cases o with
            | unlock => cases hm : memory Inside.note none j hist <;> simp [Inside.note] at hn
            | _ => cases hgive
          · simp only [Bool.not_eq_true] at htake hgive
            cases hm : memory Inside.note none j hist with
            | none => simp [hm, note_none htake] at hn
            | some n₀ => exact (ih n₀ hm).act hl htake hgive (hm ▸ hn)
      · simp only [if_neg hij] at hn
        refine (ih n hn).other (not_leaves_act hl fun h => absurd h hij) ?_
        rw [hl]
        rintro assetId ts ⟨⟩ <;> exact hij rfl

end Sections

/-! ## What is recorded -/

section Recorded
variable {cfg : Config} {hist : List (Event Effects Host)} {c : Pool.Config Effects Host}

/-- Thread `i` has listed all there is, and has written all it was given. -/
structure MirroredAll (i : ℕ) (seg : List (Event Effects Host)) : Prop where
  assets : ∃ assets, HasNamed i seg assets ∧ ∀ a ∈ assets, HasListed i seg (some a.1)
  assetless : HasListed i seg none
  written : ∀ e ∈ seg, ∀ assetId ts, Lists i e.label assetId ts → ∀ t ∈ ts,
    Wrote i seg (t.observed assetId)

theorem Tallies.mirroredAll {i : ℕ} {seg : List (Event Effects Host)} {n : Inside} {t : ℤ}
    (h : Tallies i seg n) (hc : n.Complete t) : MirroredAll i seg where
  assets := by
    obtain ⟨assets, hnamed, hall⟩ := h.listed [] hc.unlisted
    exact ⟨assets, hnamed, fun a ha => by simpa using hall a ha⟩
  assetless := h.assetless hc.assetless
  written e he assetId ts hl t ht := by
    have howed := h.written e he assetId ts hl t ht
    simpa [hc.unwritten] using howed

/-- **A full sync is recorded only when it has been made.**  The task that sets
`last_full_sync_at` to `t` has taken the lock and still has it, has read the clock as `t`
since, and after that has listed the assets, the transfers without an asset and those of
every asset, and has written every transfer of these listings. -/
theorem full_sync_recorded (run : (system cfg).Run initial hist c)
    {before after : List (Event Effects Host)} {e : Event Effects Host}
    (hhist : hist = before ++ e :: after) {i : ℕ} {t : ℤ}
    {r : (Op.store (.setLastFullSyncAt t)).Res}
    (he : e.label = .act i (.store (.setLastFullSyncAt t)) r) :
    ∃ b l s₁ ck s₂, before = b ++ l :: (s₁ ++ ck :: s₂) ∧ l.label = .act i .lock () ∧
      ck.label = .act i .clock t ∧
      (∀ e' ∈ s₁ ++ ck :: s₂, ¬ (engineLock cfg).Leaves i e') ∧ MirroredAll i s₂ := by
  obtain ⟨n, hn, hcomplete⟩ := run.act_keeps (contracted cfg) hhist he
  obtain ⟨b, l, s, rfl, hl, hstay, hclock⟩ := recounts cfg i before n hn
  obtain ⟨s₁, ck, s₂, rfl, hck, hacc⟩ := hclock t hcomplete.clock
  exact ⟨b, l, s₁, ck, s₂, rfl, hl, hck, hstay, hacc.mirroredAll hcomplete⟩

/-! ## It never goes back -/

/-- What the clock has answered. -/
def clockReadings (hist : List (Event Effects Host)) : List ℤ :=
  hist.filterMap fun e =>
    match e.label with
    | .act _ .clock t => some t
    | _ => none

/-- The clock never goes back. -/
def ClockAdvances (hist : List (Event Effects Host)) : Prop :=
  (clockReadings hist).Pairwise (· ≤ ·)

theorem mem_clockReadings {e : Event Effects Host} (he : e ∈ hist) {i : ℕ} {t : ℤ}
    (hl : e.label = .act i .clock t) : t ∈ clockReadings hist :=
  List.mem_filterMap.mpr ⟨e, he, by rw [hl]⟩

theorem clockAdvances_append {e : Event Effects Host} (h : ClockAdvances (hist ++ [e])) :
    ClockAdvances hist ∧ ∀ (j : ℕ) (now : ℤ), e.label = .act j .clock now →
      ∀ e' ∈ hist, ∀ (i : ℕ) (t : ℤ), e'.label = .act i .clock t → t ≤ now := by
  rw [ClockAdvances, clockReadings, List.filterMap_append] at h
  obtain ⟨hpast, -, hlast⟩ := List.pairwise_append.mp h
  refine ⟨hpast, fun j now he e' he' i t hl => ?_⟩
  exact hlast t (mem_clockReadings he' hl) now (by simp [he])

def Host.lastFullSyncAt (h : Host) : Option ℤ := h.db.nodeState.lastFullSyncAt

/-- A date that is set is kept or advanced. -/
def SyncForward (h h' : Host) : Prop :=
  ∀ t, h.lastFullSyncAt = some t → ∃ t', h'.lastFullSyncAt = some t' ∧ t ≤ t'

theorem syncForward_of_eq {h h' : Host} (hsame : h'.lastFullSyncAt = h.lastFullSyncAt) :
    SyncForward h h' := fun t ht => ⟨t, hsame.trans ht, le_refl t⟩

theorem lastFullSyncAt_store {q : StoreOp} {h h' : Host} {r : Except StoreError q.Res}
    (hq : q.perform h = (r, h')) (ho : ∀ t, q ≠ .setLastFullSyncAt t) :
    h'.lastFullSyncAt = h.lastFullSyncAt := by
  have hframe := (StoreOp.frame hq).nodeState
  cases q with
  | setLastFullSyncAt t => exact absurd rfl (ho t)
  | setNodeState state now | setPaymentsBaselineAt now =>
    cases hq
    rfl
  | _ => exact congrArg NodeRow.lastFullSyncAt (hframe (by simp [StoreOp.writes]))

/-- Nothing else touches the date. -/
theorem lastFullSyncAt_perform {w : World} {o : Op} {h h' : Host} {r : o.Res}
    (hp : w.perform o h = some (r, h')) (ho : ∀ t, o ≠ .store (.setLastFullSyncAt t)) :
    h'.lastFullSyncAt = h.lastFullSyncAt := by
  by_cases hstore : ∃ q, o = .store q
  · obtain ⟨q, rfl⟩ := hstore
    rcases perform_store hp with ⟨-, rfl⟩ | hq
    · rfl
    · exact lastFullSyncAt_store hq fun t hqt => ho t (congrArg Op.store hqt)
  · have hdb := db_perform hp fun q hq => hstore ⟨q, hq⟩
    simp only [Host.lastFullSyncAt, hdb]

/-- What carries the order: the date has been read from the clock, and whoever has begun a
sync and not ended it has read the clock later. -/
structure Behind (cfg : Config) (hist : List (Event Effects Host)) (h : Host) : Prop where
  read : ∀ t, h.lastFullSyncAt = some t → ∃ e ∈ hist, ∃ i, e.label = .act i .clock t
  open_le : ∀ t, h.lastFullSyncAt = some t → ∀ i n t', (engineLock cfg).standing i hist = .inside →
    memory Inside.note none i hist = some n → n.clock = some t' → t ≤ t'

/-- Outside an operation of the thread its notes stay, except that a boot loses them. -/
theorem Behind.quiet {h h' : Host} {e : Event Effects Host} (hb : Behind cfg hist h)
    (hsame : h'.lastFullSyncAt = h.lastFullSyncAt)
    (hnotes : ∀ i n t', (engineLock cfg).standing i (hist ++ [e]) = .inside →
      memory Inside.note none i (hist ++ [e]) = some n → n.clock = some t' →
      (engineLock cfg).standing i hist = .inside ∧
        ∃ n₀, memory Inside.note none i hist = some n₀ ∧ n₀.clock = some t') :
    Behind cfg (hist ++ [e]) h' where
  read t ht := by
    obtain ⟨e', he', h⟩ := hb.read t (hsame ▸ ht)
    exact ⟨e', List.mem_append_left _ he', h⟩
  open_le t ht i n t' hin hn hclock := by
    obtain ⟨hin₀, n₀, hn₀, hclock₀⟩ := hnotes i n t' hin hn hclock
    exact hb.open_le t (hsame ▸ ht) i n₀ t' hin₀ hn₀ hclock₀

/-- The steps of the thread `j` leave alone where the others stand and what they note. -/
theorem others_act (cfg : Config) (hist : List (Event Effects Host)) {e : Event Effects Host}
    {j : ℕ} {o : Op} {r : o.Res} (he : e.label = .act j o r) {i : ℕ} (hij : j ≠ i) :
    (engineLock cfg).standing i (hist ++ [e]) = (engineLock cfg).standing i hist ∧
    memory Inside.note none i (hist ++ [e]) = memory Inside.note none i hist := by
  constructor
  · simp [Lock.standing_append, Lock.next, he, hij]
  · simp [memory_append, he, hij]

/-- An operation other than those of the lock leaves its thread where it stands. -/
theorem standing_act {e : Event Effects Host} {j : ℕ} {o : Op} {r : o.Res}
    (he : e.label = .act j o r) (htake : o.takesLock = false) (hgive : o.givesLock = false) :
    (engineLock cfg).standing j (hist ++ [e]) = (engineLock cfg).standing j hist := by
  simp [Lock.standing_append, Lock.next, he, engineLock, htake, hgive]

theorem memory_act {e : Event Effects Host} {j : ℕ} {o : Op} {r : o.Res}
    (he : e.label = .act j o r) :
    memory Inside.note none j (hist ++ [e]) =
      Inside.note (memory Inside.note none j hist) o r := by
  simp [memory_append, he]

/-- The clock is read: it is later than it has ever been. -/
theorem Behind.clock {h : Host} {e : Event Effects Host} {j : ℕ} {now : ℤ}
    (hb : Behind cfg hist h) (he : e.label = .act j .clock now)
    (hlast : ∀ e' ∈ hist, ∀ (i : ℕ) (t : ℤ), e'.label = .act i .clock t → t ≤ now) :
    Behind cfg (hist ++ [e]) h where
  read t ht := by
    obtain ⟨e', he', hl⟩ := hb.read t ht
    exact ⟨e', List.mem_append_left _ he', hl⟩
  open_le t ht i n t' hin hn hclock := by
    by_cases hij : j = i
    · subst hij
      rw [memory_act he] at hn
      cases hm : memory Inside.note none j hist with
      | none => simp [hm, Inside.note] at hn
      | some n₀ =>
        rw [hm] at hn
        cases hn
        cases hclock
        obtain ⟨e', he', i', hl⟩ := hb.read t ht
        exact hlast e' he' i' t hl
    · obtain ⟨hstanding, hmemory⟩ := others_act cfg hist he hij
      exact hb.open_le t ht i n t' (hstanding ▸ hin) (hmemory ▸ hn) hclock

/-- Any other operation, apart from the record itself. -/
theorem Behind.act {h h' : Host} {e : Event Effects Host} {j : ℕ} {o : Op} {r : o.Res}
    (hb : Behind cfg hist h) (he : e.label = .act j o r) (hclock : o ≠ .clock)
    (hsame : h'.lastFullSyncAt = h.lastFullSyncAt) : Behind cfg (hist ++ [e]) h' := by
  apply hb.quiet hsame
  intro i n t' hin hn hc
  by_cases hij : j = i
  · subst hij
    rw [memory_act he] at hn
    by_cases htake : o.takesLock = true
    · cases o with
      | lock =>
        cases hn
        cases hc
      | _ => cases htake
    by_cases hgive : o.givesLock = true
    · have hgive' : (engineLock cfg).gives o = true := hgive
      have htake' : (engineLock cfg).takes o = false := Bool.eq_false_iff.mpr htake
      simp [Lock.standing_append, Lock.next, he, hgive', htake'] at hin
    simp only [Bool.not_eq_true] at htake hgive
    rw [standing_act he htake hgive] at hin
    cases hm : memory Inside.note none j hist with
    | none => simp [hm, note_none htake] at hn
    | some n₀ =>
      obtain ⟨n', hn', hsame, -⟩ := Tallies.act (i := j) htake hgive hclock n₀
      rw [hm, hn'] at hn
      cases hn
      exact ⟨hin, n₀, rfl, hsame ▸ hc⟩
  · obtain ⟨hstanding, hmemory⟩ := others_act cfg hist he hij
    exact ⟨hstanding ▸ hin, n, hmemory ▸ hn, hc⟩

/-- A sync is recorded by the one thread that is inside, at the clock it has read. -/
theorem Behind.record {h' : Host} {e : Event Effects Host} {j : ℕ} {t : ℤ}
    {r : (Op.store (.setLastFullSyncAt t)).Res} {n : Inside}
    (he : e.label = .act j (.store (.setLastFullSyncAt t)) r)
    (hn : memory Inside.note none j hist = some n) (hclock : n.clock = some t)
    (hset : h'.lastFullSyncAt = some t)
    (hone : ∀ i, (engineLock cfg).standing i (hist ++ [e]) = .inside → i = j) :
    Behind cfg (hist ++ [e]) h' where
  read t' ht' := by
    rw [hset] at ht'
    cases ht'
    obtain ⟨b, l, s, hhist, -, -, hread⟩ := recounts cfg j hist n hn
    obtain ⟨s₁, ck, s₂, rfl, hck, -⟩ := hread t hclock
    exact ⟨ck, by simp [hhist], j, hck⟩
  open_le t' ht' i n' t'' hin hn' hclock' := by
    rw [hset] at ht'
    cases ht'
    rw [hone i hin, memory_act he, hn] at hn'
    cases hn'
    rw [hclock] at hclock'
    exact le_of_eq (Option.some.inj hclock')

theorem behind_of_run (run : (system cfg).Run initial hist c)
    (habides : (engineLock cfg).Abides hist) (hclock : ClockAdvances hist) :
    Behind cfg hist c.shared ∧ ∀ e ∈ hist, SyncForward e.pre e.post := by
  induction run with
  | nil =>
    have hnone : initial.shared.lastFullSyncAt = none := rfl
    exact ⟨⟨by simp [hnone], by simp [hnone]⟩, by simp⟩
  | @snoc hist c l c' run hs ih =>
    obtain ⟨hpast, hlive⟩ := Lock.abides_append habides
    obtain ⟨hadv, hlast⟩ := clockAdvances_append hclock
    obtain ⟨hbehind, hforward⟩ := ih hpast hadv
    suffices h : Behind cfg (hist ++ [⟨c.shared, l, c'.shared⟩]) c'.shared ∧
        SyncForward c.shared c'.shared by
      refine ⟨h.1, fun e he => ?_⟩
      rcases List.mem_append.mp he with he | he
      · exact hforward e he
      · exact (List.mem_singleton.mp he) ▸ h.2
    have hexcl := (Lock.exclusive (engineLock_tracks cfg) (engineLock_disciplined cfg) rfl rfl
      (contracted cfg) (run.snoc hs) habides).2
    cases hs with
    | boot hb =>
      refine ⟨hbehind.quiet rfl ?_, syncForward_of_eq rfl⟩
      intro i n t' _ hn _
      simp [memory_append] at hn
    | start hp =>
      refine ⟨hbehind.quiet rfl ?_, syncForward_of_eq rfl⟩
      intro i n t' hin hn hc
      rw [Lock.standing_append] at hin
      rw [memory_append] at hn
      exact ⟨hin, n, hn, hc⟩
    | @drift s ts s' ch hd =>
      have hsame : s'.lastFullSyncAt = s.lastFullSyncAt := by
        rw [← Option.some.inj hd]
        rfl
      refine ⟨hbehind.quiet hsame ?_, syncForward_of_eq hsame⟩
      intro i n t' hin hn hc
      rw [Lock.standing_append] at hin
      rw [memory_append] at hn
      simp only [Lock.next] at hin
      split at hin
      · cases hin
      · exact ⟨hin, n, hn, hc⟩
    | @act s ts j o k r s' ch hj hperf =>
      by_cases hset : ∃ t, o = .store (.setLastFullSyncAt t)
      · obtain ⟨t, rfl⟩ := hset
        obtain ⟨n, hn, hcomplete⟩ := (run.threads_keep (contracted cfg) j _ hj).1
        rcases perform_store hperf with ⟨-, rfl⟩ | hq
        · exact ⟨hbehind.act rfl (by simp) rfl, syncForward_of_eq rfl⟩
        cases hq
        -- the thread is alive and inside
        have hin : (memory Inside.note none j hist).isSome = true := hn ▸ rfl
        have hstanding := Lock.standing_of_alive (engineLock_tracks cfg) rfl hin
          (hlive j _ _ rfl)
        refine ⟨.record rfl hn hcomplete.clock rfl fun i hi => hexcl i j hi ?_, ?_⟩
        · exact (standing_act rfl rfl rfl).trans hstanding
        · intro t₀ ht₀
          exact ⟨t, rfl, hbehind.open_le t₀ ht₀ j n t hstanding hn hcomplete.clock⟩
      · have hsame := lastFullSyncAt_perform hperf fun t ht => hset ⟨t, ht⟩
        refine ⟨?_, syncForward_of_eq hsame⟩
        by_cases hclk : o = .clock
        · subst hclk
          cases hperf
          exact hbehind.clock rfl (hlast j _ rfl)
        · exact hbehind.act rfl hclk hsame

/-- **The date of the last full sync never goes back**, over any run in which the clock
does not and dropped tasks do not move again. -/
theorem full_sync_forward (run : (system cfg).Run initial hist c)
    (habides : (engineLock cfg).Abides hist) (hclock : ClockAdvances hist) :
    ∀ e ∈ hist, SyncForward e.pre e.post :=
  (behind_of_run run habides hclock).2

end Recorded

/-! ## Two full syncs -/

/-- The node has one asset, of which there is one transfer. -/
def oneAsset (t : ℤ) : World := .of
  { Env.silent with
    clock := t
    node := fun
      | .listAssets => .ok [("A", "NIA")]
      | .listAssetlessTransfers _ => .ok []
      | .listTransfers "A" _ => .ok [⟨1, .settled, "Issuance", none, none, none⟩]
      | _ => .error .transport }

/-- Two reconciles, the second of which begins later. -/
def syncedTwice : List (Pool.Move (system defaults)) :=
  [.start (reconcileTask defaults 0), .start (reconcileTask defaults 0)] ++
  List.replicate 9 (.act 0 (oneAsset 5)) ++ List.replicate 8 (.act 1 (oneAsset 7))

theorem syncedTwice_admitted : Pool.Admitted syncedTwice := by
  refine Pool.admitted_append.mpr ⟨?_, Pool.admitted_replicate trivial⟩
  refine Pool.admitted_append.mpr ⟨?_, Pool.admitted_replicate trivial⟩
  exact ⟨.reconcile 0, .reconcile 0, trivial⟩

theorem syncedTwice_plays : ((system defaults).play syncedTwice initial).isSome := rfl

/-- The second record is of everything listed since the clock was read as 7. -/
theorem full_sync_recorded_again : ∃ before e c, (system defaults).Run initial (before ++ [e]) c ∧
    ∃ r, e.label = .act 1 (.store (.setLastFullSyncAt 7)) r ∧
    ∃ b l s₁ ck s₂, before = b ++ l :: (s₁ ++ ck :: s₂) ∧ l.label = .act 1 .lock () ∧
      ck.label = .act 1 .clock (7 : ℤ) ∧
      (∀ e' ∈ s₁ ++ ck :: s₂, ¬ (engineLock defaults).Leaves 1 e') ∧ MirroredAll 1 s₂ := by
  have run := Pool.run_of_isSome syncedTwice_admitted syncedTwice_plays
  obtain ⟨before, e, r, hhist, he⟩ : ∃ before e r,
      (((system defaults).play syncedTwice initial).get syncedTwice_plays).2 = before ++ [e] ∧
      e.label = .act 1 (.store (.setLastFullSyncAt 7)) r :=
    ⟨_, _, _, (List.dropLast_append_getLast (List.cons_ne_nil _ _)).symm, rfl⟩
  have hrecorded := full_sync_recorded run hhist he
  rw [hhist] at run
  exact ⟨before, e, _, run, r, he, hrecorded⟩

/-- The date goes from 5 to 7, and nowhere back. -/
theorem full_sync_forward_again : ∃ hist c, (system defaults).Run initial hist c ∧
    (∀ e ∈ hist, SyncForward e.pre e.post) ∧
    ∃ e ∈ hist, e.pre.lastFullSyncAt = some 5 ∧ e.post.lastFullSyncAt = some 7 := by
  have run := Pool.run_of_isSome syncedTwice_admitted syncedTwice_plays
  have hdrift : (((system defaults).play syncedTwice initial).get syncedTwice_plays).2.all
      (fun e => !e.label.isDrift) = true := rfl
  have habides := Lock.abides_of_no_drift (L := engineLock defaults)
    fun e he => by simpa using List.all_eq_true.mp hdrift e he
  have hreadings : clockReadings (((system defaults).play syncedTwice initial).get
      syncedTwice_plays).2 = [5, 7] := rfl
  have hclock : ClockAdvances (((system defaults).play syncedTwice initial).get
      syncedTwice_plays).2 := by
    rw [ClockAdvances, hreadings]
    simp
  exact ⟨_, _, run, full_sync_forward run habides hclock,
    _, List.getLast_mem (List.cons_ne_nil _ _), rfl, rfl⟩

end Companion
