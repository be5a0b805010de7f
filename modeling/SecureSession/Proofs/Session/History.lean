import Mathlib.Data.List.Basic
import Mathlib.Data.List.Induction
import SecureSession.Proofs.Storage.Contents
import SecureSession.Simulation.Sample

/-! # The history of a record

A record is edited over and over, from an empty one on. Its chronicle notes every archiving, with
its time and the session as it was then, and which of them the archive still holds. The archive
is those, newest first. An archived session goes for one of two reasons, and for good: as many
newer ones as the archive takes were there with none of room left, or legacy sessions were
dropped and it was one. To drop legacy sessions makes room again, so the archive need not be the
newest archivings there were. -/

namespace SecureSession.SessionRecord

/-! ### Edits -/

/-- What can be done to a record. -/
inductive Edit
  | promote (s : SessionState)
  | archive
  | purgeLegacy
  | setPending (q : PendingExchange)
  | clearPending
  | acknowledge
  /-- The live session is changed in place. -/
  | modifyCurrent (f : SessionState → SessionState)

namespace Edit

/-- Whether an edit archives the live session. -/
def archives : Edit → Bool
  | promote _ | archive => true
  | _ => false

/-- What an edit that does not archive the live session makes of it. -/
def revise (s : SessionState) : Edit → SessionState
  | acknowledge => { s with unacknowledged := none }
  | modifyCurrent f => f s
  | _ => s

end Edit

/-- The record after an edit. -/
def edit (r : SessionRecord) : Edit → SessionRecord
  | .promote s => r.promote s
  | .archive => r.archive
  | .purgeLegacy => r.purgeLegacy
  | .setPending q => r.setPending q
  | .clearPending => r.clearPending
  | .acknowledge => r.acknowledge
  | .modifyCurrent f => r.modifyCurrent f

/-- The record after some edits of an empty one. -/
def edited (l : List Edit) : SessionRecord := l.foldl edit empty

theorem edited_snoc (l : List Edit) (e : Edit) : edited (l ++ [e]) = (edited l).edit e := by
  simp [edited]

/-- The live session stays live until it is archived. -/
theorem current_edit (r : SessionRecord) {e : Edit} (he : e.archives = false) :
    (r.edit e).current = r.current.map (Edit.revise · e) := by
  cases e with
  | promote | archive => cases he
  | acknowledge | modifyCurrent => rfl
  | purgeLegacy | setPending | clearPending => exact Option.map_id'.symm

/-- The archive changes only where the live session is archived or legacy sessions are dropped. -/
theorem previous_edit (r : SessionRecord) {e : Edit} (he : e.archives = false)
    (hne : e ≠ .purgeLegacy) : (r.edit e).previous = r.previous := by
  cases e with
  | promote | archive => cases he
  | purgeLegacy => exact absurd rfl hne
  | setPending | clearPending | acknowledge | modifyCurrent => rfl

theorem previous_edit_archives {r : SessionRecord} (hr : r.IsBounded) {e : Edit}
    (he : e.archives = true) :
    (r.edit e).previous = (r.current.toList ++ r.previous).take archiveLimit := by
  cases e with
  | promote | archive => exact previous_archive hr
  | purgeLegacy | setPending | clearPending | acknowledge | modifyCurrent => cases he

/-- The sessions dropped are counted. -/
theorem legacyCount_eq (r : SessionRecord) :
    r.legacyCount = r.previous.countP SessionState.isLegacy := by
  have hlength := List.length_eq_length_filter_add (l := r.previous) SessionState.isLegacy
  rw [← List.countP_eq_length_filter] at hlength
  simp only [legacyCount, purgeLegacy]
  omega

/-! ### Chronicles -/

/-- A session that was archived, as it was then, with the number of edits before. -/
structure Archiving where
  time : Nat
  state : SessionState
deriving DecidableEq

/-- A record with what was archived so far and what of it the archive still
holds, each newest first. -/
structure Chronicle where
  record : SessionRecord
  /-- The number of edits so far. -/
  time : Nat
  past : List Archiving
  kept : List Archiving

namespace Chronicle

/-- The chronicle of an empty record. -/
def start : Chronicle := ⟨.empty, 0, [], []⟩

/-- The archiving that an edit comes to, if it archives a session. -/
def archiving? (c : Chronicle) (e : Edit) : Option Archiving :=
  if e.archives then c.record.current.map (⟨c.time, ·⟩) else none

/-- The chronicle after one more edit. -/
def step (c : Chronicle) (e : Edit) : Chronicle where
  record := c.record.edit e
  time := c.time + 1
  past := (c.archiving? e).toList ++ c.past
  kept :=
    match e with
    | .purgeLegacy => c.kept.filter fun x => !x.state.isLegacy
    | _ => ((c.archiving? e).toList ++ c.kept).take archiveLimit

/-- What holds of every chronicle. -/
structure Faithful (c : Chronicle) : Prop where
  previous : c.record.previous = c.kept.map Archiving.state
  bounded : c.kept.length ≤ archiveLimit
  inOrder : c.past.Pairwise fun x y => y.time < x.time
  before : ∀ x ∈ c.past, x.time < c.time
  kept : c.kept.Sublist c.past

variable {c : Chronicle}

theorem archiving?_of_archives {e : Edit} (he : e.archives = true) :
    c.archiving? e = c.record.current.map (⟨c.time, ·⟩) := if_pos he

theorem archiving?_eq_none {e : Edit} (he : e.archives = false) : c.archiving? e = none :=
  if_neg (by simp [he])

theorem archiving?_eq_some_iff {e : Edit} {x : Archiving} : c.archiving? e = some x ↔
    e.archives = true ∧ c.time = x.time ∧ c.record.current = some x.state := by
  unfold archiving?
  split
  · rename_i he
    obtain ⟨time, s⟩ := x
    simp [he, and_comm]
  · rename_i he
    simp [he]

theorem kept_step {e : Edit} (he : e ≠ .purgeLegacy) :
    (c.step e).kept = ((c.archiving? e).toList ++ c.kept).take archiveLimit := by
  cases e with
  | purgeLegacy => exact absurd rfl he
  | _ => rfl

theorem faithful_start : start.Faithful := ⟨rfl, Nat.zero_le _, .nil, nofun, .slnil⟩

theorem Faithful.previous_step (h : c.Faithful) (e : Edit) :
    (c.step e).record.previous = (c.step e).kept.map Archiving.state := by
  have hbounded : c.record.IsBounded := by
    rw [IsBounded, h.previous, List.length_map]
    exact h.bounded
  by_cases hpurge : e = .purgeLegacy
  · subst hpurge
    show c.record.previous.filter _ = List.map _ (c.kept.filter _)
    rw [h.previous, List.filter_map]
    rfl
  · rw [kept_step hpurge]
    cases he : e.archives with
    | true =>
      have hstate : (c.archiving? e).toList.map Archiving.state = c.record.current.toList := by
        rw [archiving?_of_archives he]
        cases c.record.current <;> rfl
      rw [List.map_take, List.map_append, hstate, ← h.previous]
      exact previous_edit_archives hbounded he
    | false =>
      rw [archiving?_eq_none he, Option.toList_none, List.nil_append,
        List.take_of_length_le h.bounded, ← h.previous]
      exact previous_edit _ he hpurge

theorem Faithful.kept_step_sublist (h : c.Faithful) (e : Edit) :
    (c.step e).kept.Sublist (c.step e).past := by
  by_cases hpurge : e = .purgeLegacy
  · subst hpurge
    exact List.filter_sublist.trans h.kept
  · rw [kept_step hpurge]
    exact (List.take_sublist ..).trans ((List.Sublist.refl _).append h.kept)

/-- Every edit keeps this. -/
theorem Faithful.step (h : c.Faithful) (e : Edit) : (c.step e).Faithful where
  previous := h.previous_step e
  bounded := by
    by_cases hpurge : e = .purgeLegacy
    · subst hpurge
      exact (List.length_filter_le ..).trans h.bounded
    · rw [kept_step hpurge]
      exact List.length_take_le ..
  inOrder := by
    refine List.pairwise_append.mpr ⟨?_, h.inOrder, fun x hx y hy => ?_⟩
    · cases c.archiving? e <;> simp
    · obtain ⟨-, htime, -⟩ := archiving?_eq_some_iff.mp (Option.mem_toList.mp hx)
      exact htime ▸ h.before y hy
  before x hx := by
    rcases List.mem_append.mp hx with hx | hx
    · obtain ⟨-, htime, -⟩ := archiving?_eq_some_iff.mp (Option.mem_toList.mp hx)
      exact htime ▸ Nat.lt_succ_self _
    · exact Nat.lt_succ_of_lt (h.before x hx)
  kept := h.kept_step_sublist e

end Chronicle

/-- The chronicle of some edits. -/
def chronicle (l : List Edit) : Chronicle := l.foldl .step .start

/-- What was archived over some edits, newest first. -/
def past (l : List Edit) : List Archiving := (chronicle l).past

/-- What the archive still holds after some edits, newest first. -/
def kept (l : List Edit) : List Archiving := (chronicle l).kept

theorem chronicle_snoc (l : List Edit) (e : Edit) :
    chronicle (l ++ [e]) = (chronicle l).step e := by
  simp [chronicle]

theorem faithful_chronicle (l : List Edit) : (chronicle l).Faithful := by
  induction l using List.reverseRecOn with
  | nil => exact Chronicle.faithful_start
  | append_singleton l e ih => exact chronicle_snoc l e ▸ ih.step e

theorem record_chronicle (l : List Edit) : (chronicle l).record = edited l := by
  induction l using List.reverseRecOn with
  | nil => rfl
  | append_singleton l e ih => rw [chronicle_snoc, edited_snoc, ← ih]; rfl

theorem time_chronicle (l : List Edit) : (chronicle l).time = l.length := by
  induction l using List.reverseRecOn with
  | nil => rfl
  | append_singleton l e ih => rw [chronicle_snoc, List.length_append, ← ih]; rfl

/-! ### What was archived -/

theorem past_snoc (l : List Edit) (e : Edit) :
    past (l ++ [e]) = ((chronicle l).archiving? e).toList ++ past l := by
  rw [past, chronicle_snoc]
  rfl

theorem mem_archiving {l : List Edit} {e : Edit} {x : Archiving} :
    x ∈ ((chronicle l).archiving? e).toList ↔
      e.archives = true ∧ l.length = x.time ∧ (edited l).current = some x.state := by
  rw [Option.mem_toList, Chronicle.archiving?_eq_some_iff, record_chronicle, time_chronicle]

/-- An archiving is noted for each edit that archives a live session, with
the session as it is then. -/
theorem mem_past_iff (l : List Edit) {x : Archiving} : x ∈ past l ↔ ∃ l₁ e, l₁ ++ [e] <+: l ∧
    e.archives = true ∧ l₁.length = x.time ∧ (edited l₁).current = some x.state := by
  induction l using List.reverseRecOn with
  | nil =>
    refine ⟨nofun, ?_⟩
    rintro ⟨l₁, e, hle, -⟩
    cases List.eq_nil_of_append_eq_nil (List.prefix_nil.mp hle) |>.2
  | append_singleton l e ih =>
    rw [past_snoc, List.mem_append, mem_archiving, ih]
    constructor
    · rintro (h | ⟨l₁, e₁, hle, h⟩)
      · exact ⟨l, e, List.prefix_rfl, h⟩
      · exact ⟨l₁, e₁, hle.trans (List.prefix_append _ _), h⟩
    · rintro ⟨l₁, e₁, hle, h⟩
      rcases List.prefix_concat_iff.mp hle with heq | hle
      · obtain ⟨rfl, he⟩ := List.append_inj' heq rfl
        cases he
        exact .inl h
      · exact .inr ⟨l₁, e₁, hle, h⟩

theorem past_subset {l l' : List Edit} (h : l <+: l') : past l ⊆ past l' := fun _ hx => by
  obtain ⟨l₁, e, hle, hx⟩ := (mem_past_iff l).mp hx
  exact (mem_past_iff l').mpr ⟨l₁, e, hle.trans h, hx⟩

/-- A live session is still live after some edits, as they left it, or one
of them has archived it. -/
theorem live_or_archived {l : List Edit} {s : SessionState} (hs : (edited l).current = some s)
    (l' : List Edit) :
    ((∀ e ∈ l', e.archives = false) ∧ (edited (l ++ l')).current = some (l'.foldl Edit.revise s)) ∨
    ∃ l₁ e, l₁ ++ [e] <+: l' ∧ (∀ e' ∈ l₁, e'.archives = false) ∧ e.archives = true ∧
      ⟨(l ++ l₁).length, l₁.foldl Edit.revise s⟩ ∈ past (l ++ l') := by
  induction l' using List.reverseRecOn with
  | nil => exact .inl ⟨nofun, by simpa using hs⟩
  | append_singleton l' e ih =>
    rw [← List.append_assoc]
    rcases ih with ⟨hlive, hcurrent⟩ | ⟨l₁, e₁, hle, hlive, he₁, hmem⟩
    · cases he : e.archives with
      | false =>
        refine .inl ⟨fun e' he' => ?_, ?_⟩
        · rcases List.mem_append.mp he' with he' | he'
          · exact hlive e' he'
          · exact List.mem_singleton.mp he' ▸ he
        · rw [edited_snoc, current_edit _ he, hcurrent]
          simp
      | true =>
        refine .inr ⟨l', e, List.prefix_rfl, hlive, he, ?_⟩
        rw [past_snoc, List.mem_append]
        exact .inl (mem_archiving.mpr ⟨he, rfl, hcurrent⟩)
    · exact .inr ⟨l₁, e₁, hle.trans (List.prefix_append _ _), hlive, he₁,
        past_subset (List.prefix_append _ _) hmem⟩

/-! ### What is kept -/

theorem kept_snoc (l : List Edit) {e : Edit} (he : e ≠ .purgeLegacy) :
    kept (l ++ [e]) = (((chronicle l).archiving? e).toList ++ kept l).take archiveLimit := by
  rw [kept, chronicle_snoc, Chronicle.kept_step he]
  rfl

theorem kept_purge (l : List Edit) :
    kept (l ++ [.purgeLegacy]) = (kept l).filter fun x => !x.state.isLegacy := by
  rw [kept, chronicle_snoc]
  rfl

/-- What is in an archive after an edit was in it before, or was archived by the edit. -/
theorem mem_kept_snoc {l : List Edit} {e : Edit} {x : Archiving} (hx : x ∈ kept (l ++ [e])) :
    x ∈ kept l ∨ l.length = x.time := by
  by_cases he : e = .purgeLegacy
  · subst he
    rw [kept_purge] at hx
    exact .inl (List.mem_filter.mp hx).1
  · rw [kept_snoc l he] at hx
    rcases List.mem_append.mp (List.mem_of_mem_take hx) with hx | hx
    · exact .inr (mem_archiving.mp hx).2.1
    · exact .inl hx

/-- What has gone from the archive does not come back. -/
theorem mem_kept_of_append {l : List Edit} {x : Archiving} (hx : x.time < l.length)
    (l' : List Edit) :
    x ∈ kept (l ++ l') → x ∈ kept l := by
  induction l' using List.reverseRecOn with
  | nil => simp
  | append_singleton l' e ih =>
    rw [← List.append_assoc]
    intro hmem
    rcases mem_kept_snoc hmem with hmem | htime
    · exact ih hmem
    · rw [List.length_append] at htime
      omega

/-- Whether at some moment the archive held as many newer archivings as it takes. -/
def Evicted (l : List Edit) (x : Archiving) : Prop :=
  ∃ l₁, l₁ <+: l ∧ archiveLimit ≤ (kept l₁).countP fun y => x.time < y.time

/-- Whether legacy sessions were dropped while an archived one was in the
archive and was one of them. -/
def Purged (l : List Edit) (x : Archiving) : Prop :=
  ∃ l₁, l₁ ++ [.purgeLegacy] <+: l ∧ x ∈ kept l₁ ∧ x.state.isLegacy = true

/-- Newest first, what is beyond a limit has that many newer ones before it. -/
theorem le_countP_of_not_mem_take {l : List Archiving} (hl : l.Pairwise fun x y => y.time < x.time)
    {x : Archiving} (hx : x ∈ l) {n : Nat} (hn : x ∉ l.take n) :
    n ≤ (l.take n).countP fun y => x.time < y.time := by
  rw [← List.take_append_drop n l] at hl hx
  have hdrop : x ∈ l.drop n := (List.mem_append.mp hx).resolve_left hn
  have hnewer : (l.take n).countP (fun y => x.time < y.time) = (l.take n).length :=
    List.countP_eq_length.mpr fun y hy => by
      simpa using (List.pairwise_append.mp hl).2.2 y hy x hdrop
  have hlength : n < l.length := by
    have hpos := List.length_pos_of_mem hdrop
    rw [List.length_drop] at hpos
    omega
  rw [hnewer, List.length_take]
  omega

/-- What was archived is in the archive, or was evicted, or was dropped as legacy. -/
theorem evicted_or_purged (l : List Edit) {x : Archiving} :
    x ∈ past l → x ∉ kept l → Evicted l x ∨ Purged l x := by
  induction l using List.reverseRecOn with
  | nil => nofun
  | append_singleton l e ih =>
    intro hx hgone
    by_cases hlost : x ∈ past l ∧ x ∉ kept l
    · have hle : l <+: l ++ [e] := List.prefix_append _ _
      rcases ih hlost.1 hlost.2 with ⟨l₁, hl₁, h⟩ | ⟨l₁, hl₁, h⟩
      · exact .inl ⟨l₁, hl₁.trans hle, h⟩
      · exact .inr ⟨l₁, hl₁.trans hle, h⟩
    · -- the last edit took it out of the archive
      have hall : x ∈ ((chronicle l).archiving? e).toList ++ kept l := by
        rw [past_snoc, List.mem_append] at hx
        rw [List.mem_append]
        exact hx.imp_right fun hpast => not_not.mp fun h => hlost ⟨hpast, h⟩
      by_cases hpurge : e = .purgeLegacy
      · subst hpurge
        have hkept : x ∈ kept l := hall
        rw [kept_purge, List.mem_filter, not_and] at hgone
        exact .inr ⟨l, List.prefix_rfl, hkept, by simpa using hgone hkept⟩
      · refine .inl ⟨l ++ [e], List.prefix_rfl, ?_⟩
        rw [kept_snoc l hpurge] at hgone ⊢
        have hfaithful := faithful_chronicle l
        have hinOrder :=
          (hfaithful.step e).inOrder.sublist ((List.Sublist.refl _).append hfaithful.kept)
        exact le_countP_of_not_mem_take hinOrder hall hgone

/-! ### The archive as a log -/

/-- What can be said of a record, and above all of its archive, after some
edits of an empty record. -/
structure IsLog (l : List Edit) : Prop where
  bounded : (edited l).previous.length ≤ archiveLimit
  /-- The archive holds sessions as they were archived. -/
  previous : (edited l).previous = (kept l).map Archiving.state
  kept : (kept l).Sublist (past l)
  newestFirst : (past l).Pairwise fun x y => y.time < x.time
  /-- What was archived is what was live just before an edit that archives. -/
  past : ∀ x, x ∈ past l ↔ ∃ l₁ e, l₁ ++ [e] <+: l ∧ e.archives = true ∧ l₁.length = x.time ∧
    (edited l₁).current = some x.state
  /-- A session once live is so still, as the edits since left it, or it was archived. -/
  live : ∀ l₁ l₂ s, l = l₁ ++ l₂ → (edited l₁).current = some s →
    ((∀ e ∈ l₂, e.archives = false) ∧ (edited l).current = some (l₂.foldl Edit.revise s)) ∨
    ∃ l₃ e, l₃ ++ [e] <+: l₂ ∧ (∀ e' ∈ l₃, e'.archives = false) ∧ e.archives = true ∧
      ⟨(l₁ ++ l₃).length, l₃.foldl Edit.revise s⟩ ∈ SessionRecord.past l
  /-- A session once archived is in the archive, or was evicted, or was dropped as legacy. -/
  gone : ∀ x ∈ SessionRecord.past l, x ∉ SessionRecord.kept l → Evicted l x ∨ Purged l x
  /-- What has gone does not come back. -/
  final : ∀ l₁ l₂ x, l = l₁ ++ l₂ → x ∈ SessionRecord.past l₁ → x ∉ SessionRecord.kept l₁ →
    x ∉ SessionRecord.kept l
  /-- To drop legacy sessions answers how many were dropped. -/
  dropped : (SessionRecord.kept l).length =
    (SessionRecord.kept (l ++ [.purgeLegacy])).length + (edited l).legacyCount
  /-- Only to archive the live session and to drop legacy ones changes the archive. -/
  untouched : ∀ e : Edit, e.archives = false → e ≠ .purgeLegacy →
    (edited (l ++ [e])).previous = (edited l).previous

/-- After any edits of an empty record its archive is a log of what was archived, newest first and
within bounds. A session leaves the record only once it was archived and then either as many newer
ones were in the archive as it takes, or legacy sessions were dropped and it was one of them. -/
theorem archive_is_log (l : List Edit) : IsLog l := by
  have hfaithful := faithful_chronicle l
  have hprevious : (edited l).previous = (kept l).map Archiving.state :=
    record_chronicle l ▸ hfaithful.previous
  refine ⟨?_, hprevious, hfaithful.kept, hfaithful.inOrder, fun x => mem_past_iff l, ?_,
    fun x => evicted_or_purged l, ?_, ?_, fun e he hne => ?_⟩
  · rw [hprevious, List.length_map]
    exact hfaithful.bounded
  · rintro l₁ l₂ s rfl hs
    exact live_or_archived hs l₂
  · rintro l₁ l₂ x rfl hx hgone hmem
    have htime : x.time < l₁.length := time_chronicle l₁ ▸ (faithful_chronicle l₁).before x hx
    exact hgone (mem_kept_of_append htime l₂ hmem)
  · have hlength := List.length_eq_length_filter_add (l := kept l) fun x => x.state.isLegacy
    rw [kept_purge, legacyCount_eq, hprevious, List.countP_map, List.countP_eq_length_filter]
    exact hlength.trans (Nat.add_comm ..)
  · rw [edited_snoc]
    exact previous_edit _ he hne

/-- The oldest of forty-one archived sessions is evicted, and dropping a legacy one
does not bring it back. -/
example :
    let s (i : Nat) : SessionState :=
      SessionSample.state
        ⟨0, if i = 1 then 1 else Version.newest, true, true, default, default, none⟩
    let l := (List.range 42).map (.promote <| s ·) ++ [.purgeLegacy, .archive]
    (kept l).map Archiving.time = 43 :: (List.range' 3 39).reverse := by decide +kernel

end SecureSession.SessionRecord
