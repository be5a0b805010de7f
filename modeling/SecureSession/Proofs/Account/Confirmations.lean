import Mathlib.Data.List.Induction
import SecureSession.Proofs.Account.Yields

/-! # Confirmations and keys

The identity on file for a peer over any run. A turn leaves it, files the first key, replaces the
key or gives the key another confirmation (`Revises`), and no confirmation outlives the key that it
was given to: a key that counts as compared is the one that was compared, and a key that takes the
place of one ever compared is flagged until it gets a confirmation of its own. The record keeps for
good when the peer was first met and whether another key came before. -/

namespace SecureSession

/-! ### What a turn can do -/

/-- A key that takes the place of one ever compared is flagged. -/
theorem Verification.afterKeyChange_of_ne {v : Verification} (hv : v ≠ .default) :
    v.afterKeyChange = .unverified := by
  cases v with
  | default => exact absurd rfl hv
  | verified | unverified => rfl

/-- No key comes to file compared. -/
theorem Verification.afterKeyChange_ne_verified (v : Verification) :
    v.afterKeyChange ≠ .verified := by
  cases v <;> decide

/-- What a turn can make of the identity on file for a peer, at some time and with the confirmation
that it gives the key on file, if it gives one. -/
inductive Revises (now : UInt64) (given : Option Verification) :
    Option IdentityRecord → Option IdentityRecord → Prop
  | kept {o : Option IdentityRecord} : Revises now given o o
  | met {key : PublicKey} : Revises now given none (some (Trust.firstRecord now key))
  | replaced {r : IdentityRecord} {key : PublicKey} (hkey : r.identityKey ≠ key) :
    Revises now given (some r) (some (Trust.changedRecord now key r))
  | confirmed {r : IdentityRecord} {verification : Verification}
    (hgiven : given = some verification) (hne : r.verification ≠ verification) :
    Revises now given (some r) (some { r with verification, updatedAt := now })

namespace Revises

variable {now : UInt64} {given : Option Verification} {r r' : IdentityRecord}
  {o : Option IdentityRecord}

/-- What is on file stays on file, with the time of first contact. -/
theorem createdAt (h : Revises now given (some r) o) :
    ∃ r', o = some r' ∧ r'.createdAt = r.createdAt := by
  cases h <;> exact ⟨_, rfl, rfl⟩

/-- Another key takes the confirmation of the one before away. -/
theorem verification_of_replaced (h : Revises now given (some r) (some r'))
    (hkey : r.identityKey ≠ r'.identityKey) : r'.verification = r.verification.afterKeyChange := by
  cases h with
  | kept => exact absurd rfl hkey
  | replaced => rfl
  | confirmed => exact absurd rfl hkey

/-- A key once flagged stays flagged, as do those after it, until one gets another confirmation. -/
theorem unverified (h : Revises now given (some r) (some r')) (hr : r.verification = .unverified)
    (hgiven : ∀ v, given = some v → v = .unverified) : r'.verification = .unverified := by
  cases h with
  | kept => exact hr
  | replaced => exact congrArg Verification.afterKeyChange hr
  | confirmed hv => exact hgiven _ hv

/-- That no other key came before is noted until the key is replaced. -/
theorem firstUse_iff (h : Revises now given (some r) (some r')) :
    r'.firstUse = true ↔ r.firstUse = true ∧ r.identityKey = r'.identityKey := by
  cases h with
  | kept | confirmed => simp
  | replaced hkey => simpa [Trust.changedRecord] using fun _ => hkey

end Revises

/-- To file a key is to meet a peer or, if another key is on file, to replace that. -/
theorem Contents.revises_save (c : Contents) (now : UInt64) (name : String) (key : PublicKey)
    (given : Option Verification) :
    Revises now given (c.filed name) ((c.save now name key).filed name) := by
  unfold save
  cases hr : c.filed name with
  | none =>
    dsimp only
    rw [filed_file_self]
    exact .met
  | some r =>
    dsimp only
    split
    · rw [hr]
      exact .kept
    · rename_i hkey
      rw [filed_file_self]
      exact .replaced hkey

theorem Contents.revises_install (c : Contents) (now : UInt64) (a : Address) (r : SessionRecord)
    (s : SessionState) (name : String) (given : Option Verification) :
    Revises now given (c.filed name) ((c.install now a r s).filed name) := by
  by_cases hname : name = a.name
  · subst hname
    exact (c.put a r).revises_save now a.name s.remoteIdentity given
  · rw [c.filed_install_of_ne now a r s hname]
    exact .kept

namespace Account

variable (suite : Suite) (A : Account) (name : String)

/-- The confirmation that a turn gives the key on file for a peer. -/
def confirmation (t : Turn) : Option Verification :=
  match (A.take suite t).1 with
  | .ok _ => (A.contents.filed name).bind fun r => t.request.claim? name r.identityKey
  | .error _ => none

/-- What is on file for a peer after some turns. -/
def onFile (l : List Turn) : Option IdentityRecord := (A.after suite l).contents.filed name

variable {suite : Suite} {A : Account} {name : String}

theorem onFile_nil : A.onFile suite name [] = A.contents.filed name := rfl

theorem onFile_snoc (l : List Turn) (t : Turn) : A.onFile suite name (l ++ [t]) =
    ((A.after suite l).take suite t).2.contents.filed name := by
  rw [onFile, after_append]
  rfl

/-- Whatever is asked for, a turn makes one of these of the identity on file. -/
theorem revises_take (suite : Suite) (A : Account) (t : Turn) (name : String) :
    Revises t.environment.now (A.confirmation suite name t) (A.contents.filed name)
      ((A.take suite t).2.contents.filed name) := by
  have hyields := yields_take suite A t
  have hcontents : (A.facing t).contents = A.contents := rfl
  unfold confirmation
  generalize (A.take suite t).1 = result at hyields ⊢
  generalize (A.take suite t).2.contents = c at hyields ⊢
  generalize t.request = q at hyields ⊢
  cases hyields with
  | failed | dropped | kept | opened | deleted | archived => exact .kept
  | completed => exact A.contents.revises_install t.environment.now ..
  | built => exact A.contents.revises_install t.environment.now ..
  | used => exact A.contents.revises_install t.environment.now ..
  | @saved a key u =>
    by_cases hname : name = a.name
    · subst hname
      exact A.contents.revises_save t.environment.now a.name key _
    · rw [Contents.filed_save_of_ne _ _ hname]
      exact .kept
  | @confirmed _ n r verification u hfiled hclaim hne =>
    rw [hcontents] at hfiled
    by_cases hname : name = n
    · subst hname
      rw [Contents.filed_file_self, hfiled]
      exact .confirmed hclaim hne
    · rw [Contents.filed_file_of_ne _ hname]
      exact .kept
  | stored hfiled => rw [hfiled]; exact .kept

/-! ### From first contact on -/

/-- What holds when a peer is met, and is kept by every turn that finds the peer's key on file,
holds of what is on file after any run. -/
theorem onFile_induction {motive : List Turn → IdentityRecord → Prop}
    (hnew : A.contents.filed name = none)
    (hmet : ∀ l t key, A.onFile suite name l = none →
      motive (l ++ [t]) (Trust.firstRecord t.environment.now key))
    (hstep : ∀ l t r r', A.onFile suite name l = some r → A.onFile suite name (l ++ [t]) = some r' →
      Revises t.environment.now ((A.after suite l).confirmation suite name t) (some r) (some r') →
      motive l r → motive (l ++ [t]) r') (l : List Turn) :
    ∀ r, A.onFile suite name l = some r → motive l r := by
  induction l using List.reverseRecOn with
  | nil =>
    intro r hr
    rw [onFile_nil, hnew] at hr
    cases hr
  | append_singleton l t ih =>
    intro r' hr'
    have hrevises := revises_take suite (A.after suite l) t name
    rw [← onFile_snoc, hr'] at hrevises
    cases hr : A.onFile suite name l with
    | none =>
      have hnone : (A.after suite l).contents.filed name = none := hr
      rw [hnone] at hrevises
      cases hrevises
      exact hmet l t _ hr
    | some r =>
      have hsome : (A.after suite l).contents.filed name = some r := hr
      rw [hsome] at hrevises
      exact hstep l t r r' hr hr' hrevises (ih r hr)

/-- What is on file stays on file over a run, with the time of first contact. -/
theorem stays_onFile : ∀ (l : List Turn) {A : Account} {r : IdentityRecord},
    A.contents.filed name = some r →
    ∃ r', A.onFile suite name l = some r' ∧ r'.createdAt = r.createdAt
  | [], _, r, hr => ⟨r, hr, rfl⟩
  | t :: l, A, r, hr => by
    have hrevises := revises_take suite A t name
    rw [hr] at hrevises
    obtain ⟨r₁, hr₁, hcreated⟩ := hrevises.createdAt
    obtain ⟨r', hr', hrest⟩ := stays_onFile l hr₁
    exact ⟨r', hr', hrest.trans hcreated⟩

/-- A key that is flagged stays flagged over a run, and so do the keys that replace it, as long as
none gets another confirmation. -/
theorem stays_unverified : ∀ (l : List Turn) {A : Account} {r r' : IdentityRecord},
    A.contents.filed name = some r → r.verification = .unverified →
    (∀ l₁ t v, l₁ ++ [t] <+: l → (A.after suite l₁).confirmation suite name t = some v →
      v = .unverified) →
    A.onFile suite name l = some r' → r'.verification = .unverified
  | [], A, r, r', hr, hunverified, _, hr' => by
    rw [onFile_nil, hr] at hr'
    cases hr'
    exact hunverified
  | t :: l, A, r, r', hr, hunverified, hgiven, hr' => by
    have hrevises := revises_take suite A t name
    rw [hr] at hrevises
    obtain ⟨r₁, hr₁, -⟩ := hrevises.createdAt
    rw [hr₁] at hrevises
    have hflagged := hrevises.unverified hunverified fun v => hgiven [] t v ⟨l, rfl⟩
    exact stays_unverified l hr₁ hflagged
      (fun l₁ t' v hle => hgiven (t :: l₁) t' v (List.cons_prefix_cons.mpr ⟨rfl, hle⟩)) hr'

/-! ### Compared keys -/

variable (suite A name) in
/-- Whether some turn of a run gave a key, while it was on file, the confirmation that it was
compared, and the key has been on file as compared ever since. -/
def ComparedSince (l : List Turn) (key : PublicKey) : Prop :=
  ∃ l₁ t l₂, l = l₁ ++ t :: l₂ ∧
    (∃ r, A.onFile suite name l₁ = some r ∧ r.identityKey = key ∧ r.verification ≠ .verified) ∧
    (A.after suite l₁).confirmation suite name t = some .verified ∧
    ∀ l', l' <+: l₂ → ∃ r, A.onFile suite name (l₁ ++ t :: l') = some r ∧ r.identityKey = key ∧
      r.verification = .verified

theorem ComparedSince.snoc {l : List Turn} {t : Turn} {r : IdentityRecord}
    (h : A.ComparedSince suite name l r.identityKey) (hr : A.onFile suite name (l ++ [t]) = some r)
    (hverified : r.verification = .verified) :
    A.ComparedSince suite name (l ++ [t]) r.identityKey := by
  obtain ⟨l₁, t₁, l₂, rfl, hbefore, hgiven, hsince⟩ := h
  refine ⟨l₁, t₁, l₂ ++ [t], by simp, hbefore, hgiven, fun l' hl' => ?_⟩
  rcases List.prefix_concat_iff.mp hl' with rfl | hl'
  · exact ⟨r, by simpa using hr, rfl, hverified⟩
  · exact hsince l' hl'

/-- A key that counts as compared was compared. -/
theorem comparedSince_of_verified (hnew : A.contents.filed name = none) (l : List Turn) :
    ∀ r, A.onFile suite name l = some r →
      r.verification = .verified → A.ComparedSince suite name l r.identityKey := by
  refine onFile_induction (motive := fun l r => r.verification = .verified →
      A.ComparedSince suite name l r.identityKey) hnew (fun l t key _ h => ?_)
    (fun l t r r' hr hr' hrevises ih hverified => ?_) l
  · cases h
  · cases hrevises with
    | kept => exact (ih hverified).snoc hr' hverified
    | replaced hkey =>
      exact absurd hverified (Verification.afterKeyChange_ne_verified _)
    | confirmed hgiven hne =>
      cases hverified
      refine ⟨l, t, [], rfl, ⟨r, hr, rfl, hne⟩, hgiven, fun l' hl' => ?_⟩
      rw [List.prefix_nil.mp hl']
      exact ⟨_, hr', rfl, rfl⟩

/-! ### Runs -/

variable (suite A name) in
/-- Whether a turn after some others replaces the key on file by another. -/
def Replaces (l : List Turn) (t : Turn) : Prop :=
  ∃ r r', A.onFile suite name l = some r ∧ A.onFile suite name (l ++ [t]) = some r' ∧
    r.identityKey ≠ r'.identityKey

theorem firstUse_iff_not_replaces (hnew : A.contents.filed name = none) (l : List Turn) :
    ∀ r, A.onFile suite name l = some r →
      (r.firstUse = true ↔ ∀ l₁ t, l₁ ++ [t] <+: l → ¬A.Replaces suite name l₁ t) := by
  refine onFile_induction (motive := fun l r => r.firstUse = true ↔
      ∀ l₁ t, l₁ ++ [t] <+: l → ¬A.Replaces suite name l₁ t) hnew (fun l t key hnone => ?_)
    (fun l t r r' hr hr' hrevises ih => ?_) l
  · refine ⟨fun _ l₁ t₁ hle => ?_, fun _ => rfl⟩
    rintro ⟨r, -, hr, -, -⟩
    -- nothing is on file before the peer is met
    obtain ⟨l₂, rfl⟩ : l₁ <+: l := by
      rcases List.prefix_concat_iff.mp hle with heq | hle
      · exact ⟨[], by simpa using (List.append_inj' heq rfl).1⟩
      · exact (List.prefix_append _ _).trans hle
    obtain ⟨r', hr', -⟩ : ∃ r', (A.after suite l₁).onFile suite name l₂ = some r' ∧ _ :=
      stays_onFile l₂ hr
    rw [onFile, ← after_append] at hr'
    cases hnone.symm.trans hr'
  · rw [hrevises.firstUse_iff, ih]
    constructor
    · rintro ⟨hnever, hkey⟩ l₁ t₁ hle
      rcases List.prefix_concat_iff.mp hle with heq | hle
      · obtain ⟨rfl, ht⟩ := List.append_inj' heq rfl
        cases ht
        rintro ⟨_, _, hr₁, hr₁', hne⟩
        cases hr.symm.trans hr₁
        cases hr'.symm.trans hr₁'
        exact hne hkey
      · exact hnever l₁ t₁ hle
    · intro hnever
      refine ⟨fun l₁ t₁ hle => hnever l₁ t₁ (hle.trans (List.prefix_append _ _)), ?_⟩
      by_contra hne
      exact hnever l t List.prefix_rfl ⟨r, r', hr, hr', hne⟩

/-- The peer was met at a turn, and that is the time on record. -/
theorem met_at (hnew : A.contents.filed name = none) (l : List Turn) :
    ∀ r, A.onFile suite name l = some r → ∃ l₁ t, l₁ ++ [t] <+: l ∧ A.onFile suite name l₁ = none ∧
      r.createdAt = t.environment.now := by
  refine onFile_induction (motive := fun l r => ∃ l₁ t, l₁ ++ [t] <+: l ∧
      A.onFile suite name l₁ = none ∧ r.createdAt = t.environment.now) hnew
    (fun l t key hnone => ⟨l, t, List.prefix_rfl, hnone, rfl⟩)
    (fun l t r r' hr hr' hrevises ih => ?_) l
  obtain ⟨l₁, t₁, hle, hnone, hcreated⟩ := ih
  obtain ⟨_, hsame, hkept⟩ := hrevises.createdAt
  cases hsame
  exact ⟨l₁, t₁, hle.trans (List.prefix_append _ _), hnone, hkept.trans hcreated⟩

/-- What is on file for a peer after any run of an account that had nothing on file for the peer. If
the key counts as compared, a turn gave it that confirmation and it has been on file as compared
since. Where a key took the place of one ever compared, and no turn since gave another confirmation
to the key on file, that key is flagged. The record tells whether the key was ever replaced, and it
stays for good with the time at which the peer was met. -/
theorem confirmation_follows_key (suite : Suite) {A : Account} {name : String}
    (hnew : A.contents.filed name = none) (l : List Turn) {r : IdentityRecord}
    (hr : A.onFile suite name l = some r) :
    (r.verification = .verified → A.ComparedSince suite name l r.identityKey) ∧
    (∀ l₁ t l₂ r₁, l = l₁ ++ t :: l₂ → A.onFile suite name l₁ = some r₁ →
      r₁.verification ≠ .default → A.Replaces suite name l₁ t →
      (∀ l' t' v, l' ++ [t'] <+: l₂ →
        (A.after suite (l₁ ++ t :: l')).confirmation suite name t' = some v → v = .unverified) →
      r.verification = .unverified) ∧
    (r.firstUse = true ↔ ∀ l₁ t, l₁ ++ [t] <+: l → ¬A.Replaces suite name l₁ t) ∧
    (∃ l₁ t, l₁ ++ [t] <+: l ∧ A.onFile suite name l₁ = none ∧ r.createdAt = t.environment.now) ∧
    ∀ l', ∃ r', A.onFile suite name (l ++ l') = some r' ∧ r'.createdAt = r.createdAt := by
  refine ⟨comparedSince_of_verified hnew l r hr, ?_, firstUse_iff_not_replaces hnew l r hr,
    met_at hnew l r hr, fun l' => ?_⟩
  · rintro l₁ t l₂ r₁ rfl hr₁ hever ⟨_, r₂, hr₁', hr₂, hkey⟩ hgiven
    cases hr₁.symm.trans hr₁'
    have hrevises := revises_take suite (A.after suite l₁) t name
    have hfiled : (A.after suite l₁).contents.filed name = some r₁ := hr₁
    have hflagged : r₂.verification = .unverified := by
      rw [← onFile_snoc, hr₂, hfiled] at hrevises
      rw [hrevises.verification_of_replaced hkey]
      exact Verification.afterKeyChange_of_ne hever
    have hsplit (l' : List Turn) :
        A.after suite (l₁ ++ t :: l') = (A.after suite (l₁ ++ [t])).after suite l' := by
      rw [← after_append, List.append_assoc, List.singleton_append]
    rw [onFile, hsplit] at hr
    refine stays_unverified l₂ hr₂ hflagged (fun l' t' v hle hv => ?_) hr
    exact hgiven l' t' v hle (by rwa [hsplit])
  · rw [onFile, after_append]
    exact stays_onFile l' hr

/-- Dave is met and compared, then comes back with another key. A claim about the key before does
not apply, and one about the new key fails to be committed, then is applied. -/
def comparingDave : List Turn :=
  [⟨.receive ⟨"dave", 1⟩ 7 (sampleMessage 4), ⟨.counter 60, 5⟩, .never⟩,
    ⟨.mark "dave" .verified .here, ⟨.counter 60, 6⟩, .never⟩,
    ⟨.receive ⟨"dave", 2⟩ 7 (.initiate ((PendingExchange.mk 3 (.plain 8) (.plain 9) (.plain 10)).leg
      .initiate)), ⟨.counter 60, 7⟩, .never⟩,
    ⟨.reconcile "dave" ⟨.replicate 4⟩ .verified, ⟨.counter 60, 8⟩, .never⟩,
    ⟨.reconcile "dave" ⟨.replicate 10⟩ .verified, ⟨.counter 60, 9⟩, Faults.never.arm⟩,
    ⟨.reconcile "dave" ⟨.replicate 10⟩ .verified, ⟨.counter 60, 10⟩, .never⟩]

/-- Dave's second key counts as compared by the claim that was applied to it. -/
theorem confirmation_follows_key_dave :
    let A := sample .acceptChanged sampleVault
    let r : IdentityRecord := ⟨⟨.replicate 10⟩, .verified, false, 5, 10⟩
    A.contents.filed "dave" = none ∧ A.onFile .plain "dave" comparingDave = some r ∧
    A.ComparedSince .plain "dave" comparingDave r.identityKey := by
  intro A r
  have hnew : A.contents.filed "dave" = none := by decide +kernel
  have hr : A.onFile .plain "dave" comparingDave = some r := by decide +kernel
  exact ⟨hnew, hr, (confirmation_follows_key .plain hnew comparingDave hr).1 rfl⟩

end Account

end SecureSession
