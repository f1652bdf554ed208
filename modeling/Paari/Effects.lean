import Paari.Desk

/-!
# What a settlement transaction does to the tables

A settlement handler's commit leaves every table but `audits`, `proofs` and `txns`
alone, and changes a transaction row only through its `UPDATE`s, in order
(`revise`). Everything else a session does (reservations, rollbacks, deaths) touches
`usage_count` only.
-/

namespace Paari

namespace ProviderTransaction

/-- The row after the `UPDATE`s that name it, in order. -/
def revise (us : List (ProviderTransaction × ProviderTransaction)) (t : ProviderTransaction) :
    ProviderTransaction :=
  us.foldl (fun t u => if t.authorization_id == u.1.authorization_id then patch u.1 u.2 t else t) t

@[simp] theorem revise_nil (t : ProviderTransaction) : t.revise [] = t := rfl

theorem revise_cons (u : ProviderTransaction × ProviderTransaction)
    (us : List (ProviderTransaction × ProviderTransaction)) (t : ProviderTransaction) :
    t.revise (u :: us) =
      (if t.authorization_id == u.1.authorization_id then patch u.1 u.2 t else t).revise us := rfl

/-- An `UPDATE` keeps the row's key. -/
@[simp] theorem revise_key (us : List (ProviderTransaction × ProviderTransaction)) :
    ∀ t : ProviderTransaction, (t.revise us).authorization_id = t.authorization_id := by
  induction us with
  | nil => intro t; rfl
  | cons u us ih =>
    intro t
    rw [revise_cons, ih]
    split <;> rfl

/-- A state that the row did not have was written by one of the `UPDATE`s. -/
theorem revise_state (us : List (ProviderTransaction × ProviderTransaction)) :
    ∀ (t : ProviderTransaction) (s : TxnState), (t.revise us).state = s → t.state = s ∨
      ∃ l c, (l, c) ∈ us ∧ t.authorization_id = l.authorization_id ∧ c.state = s ∧ l.state ≠ s := by
  induction us with
  | nil => intro t s h; exact .inl h
  | cons u us ih =>
    intro t s h
    rw [revise_cons] at h
    split at h
    · next hkey =>
      rcases ih _ s h with hs | ⟨l, c, hmem, hid, hc, hl⟩
      · by_cases hsame : u.2.state = u.1.state
        · left
          simpa [patch, hsame] using hs
        · right
          have hc : u.2.state = s := by simpa [patch, hsame] using hs
          exact ⟨u.1, u.2, List.mem_cons_self, by simpa using hkey, hc, fun h => hsame (hc.trans h.symm)⟩
      · exact .inr ⟨l, c, List.mem_cons_of_mem _ hmem, hid, hc, hl⟩
    · rcases ih _ s h with hs | ⟨l, c, hmem, hid, hc, hl⟩
      · exact .inl hs
      · exact .inr ⟨l, c, List.mem_cons_of_mem _ hmem, hid, hc, hl⟩

end ProviderTransaction

/-! ## One write, one transaction -/

/-- The four writes of a settlement handler. -/
theorem apply_settles {db db' : DB} {w : Write} (hw : w.Settles) (h : db.apply w = some db') :
    (∃ e, w = .insertAudit e ∧ db' = { db with audits := db.audits ++ [e] }) ∨
    (∃ p, w = .insertProof p ∧ db' = { db with proofs := db.proofs ++ [p] }) ∨
    (∃ t, w = .insertTxn t ∧ t.state = .AUTHORIZED ∧
      (∀ r ∈ db.txns, r.authorization_id ≠ t.authorization_id) ∧
      db' = { db with txns := db.txns ++ [t] }) ∨
    (∃ l c, w = .updateTxn l c ∧
      db' = { db with txns := db.txns.map (ProviderTransaction.revise [(l, c)]) }) := by
  cases hw with
  | audit e => exact .inl ⟨e, rfl, (Option.some.inj h).symm⟩
  | proof p =>
    refine .inr (.inl ⟨p, rfl, ?_⟩)
    simp only [DB.apply, insertUnique] at h
    split at h
    · exact absurd h (by simp)
    · exact (Option.some.inj h).symm
  | txn t ht =>
    refine .inr (.inr (.inl ⟨t, rfl, ht, ?_⟩))
    simp only [DB.apply, insertUnique] at h
    split at h
    · exact absurd h (by simp)
    · next hclash =>
      refine ⟨fun r hr hid => hclash ?_, (Option.some.inj h).symm⟩
      exact List.any_eq_true.mpr ⟨r, hr, by simpa using hid⟩
  | update l c =>
    refine .inr (.inr (.inr ⟨l, c, rfl, ?_⟩))
    simp only [DB.apply] at h
    split at h
    · exact absurd h (by simp)
    · exact (Option.some.inj h).symm

theorem applyAll_cons {db db' : DB} {w : Write} {ws : List Write}
    (h : db.applyAll (w :: ws) = .ok db') :
    ∃ mid, db.apply w = some mid ∧ mid.applyAll ws = .ok db' := by
  simp only [DB.applyAll] at h
  split at h
  · next mid hmid => exact ⟨mid, hmid, h⟩
  · exact absurd h (by simp)

/-- A settlement transaction leaves the other tables alone. -/
theorem applyAll_frame {ws : List Write} : ∀ {db db' : DB}, (∀ w ∈ ws, w.Settles) →
    db.applyAll ws = .ok db' →
    db' = { db with txns := db'.txns, audits := db'.audits, proofs := db'.proofs } := by
  induction ws with
  | nil => intro db db' _ h; rw [← Except.ok.inj h]
  | cons w ws ih =>
    intro db db' hs h
    obtain ⟨mid, hmid, hrest⟩ := applyAll_cons h
    have hframe := ih (fun w hw => hs w (List.mem_cons_of_mem _ hw)) hrest
    rcases apply_settles (hs w List.mem_cons_self) hmid with
      ⟨e, _, rfl⟩ | ⟨p, _, rfl⟩ | ⟨t, _, _, _, rfl⟩ | ⟨l, c, _, rfl⟩ <;> exact hframe

/-- Where a row comes from: a row that was there, revised by every `UPDATE`; or one
the transaction inserted, under a new key, revised by those that followed. -/
theorem applyAll_txns {ws : List Write} : ∀ {db db' : DB}, (∀ w ∈ ws, w.Settles) →
    db.applyAll ws = .ok db' → ∀ t' ∈ db'.txns,
      (∃ t ∈ db.txns, t' = t.revise (updates ws)) ∨
      ∃ t us, .insertTxn t ∈ ws ∧ t.state = .AUTHORIZED ∧ us ⊆ updates ws ∧ t' = t.revise us ∧
        ∀ r ∈ db.txns, r.authorization_id ≠ t.authorization_id := by
  induction ws with
  | nil =>
    intro db db' _ h t' ht'
    rw [← Except.ok.inj h] at ht'
    exact .inl ⟨t', ht', rfl⟩
  | cons w ws ih =>
    intro db db' hs h t' ht'
    obtain ⟨mid, hmid, hrest⟩ := applyAll_cons h
    have hih := ih (fun w hw => hs w (List.mem_cons_of_mem _ hw)) hrest t' ht'
    rcases apply_settles (hs w List.mem_cons_self) hmid with
      ⟨e, rfl, rfl⟩ | ⟨p, rfl, rfl⟩ | ⟨r, rfl, hstate, hfresh, rfl⟩ | ⟨l, c, rfl, rfl⟩
    · rcases hih with hold | ⟨t, us, hmem, hst, hus, heq, hnew⟩
      · exact .inl hold
      · exact .inr ⟨t, us, List.mem_cons_of_mem _ hmem, hst, hus, heq, hnew⟩
    · rcases hih with hold | ⟨t, us, hmem, hst, hus, heq, hnew⟩
      · exact .inl hold
      · exact .inr ⟨t, us, List.mem_cons_of_mem _ hmem, hst, hus, heq, hnew⟩
    · rcases hih with ⟨t, ht, heq⟩ | ⟨t, us, hmem, hst, hus, heq, hnew⟩
      · rcases List.mem_append.mp ht with ht | ht
        · exact .inl ⟨t, ht, heq⟩
        · obtain rfl := List.mem_singleton.mp ht
          exact .inr ⟨t, _, List.mem_cons_self, hstate, fun _ hx => hx, heq, hfresh⟩
      · exact .inr ⟨t, us, List.mem_cons_of_mem _ hmem, hst, hus, heq,
          fun r hr => hnew r (List.mem_append_left _ hr)⟩
    · rcases hih with ⟨t, ht, heq⟩ | ⟨t, us, hmem, hst, hus, heq, hnew⟩
      · obtain ⟨t₀, ht₀, rfl⟩ := List.mem_map.mp ht
        exact .inl ⟨t₀, ht₀, heq⟩
      · refine .inr ⟨t, us, List.mem_cons_of_mem _ hmem, hst,
          fun u hu => List.mem_cons_of_mem _ (hus hu), heq, fun r hr => ?_⟩
        have := hnew (r.revise [(l, c)]) (List.mem_map_of_mem hr)
        simpa using this

/-- No row is lost. -/
theorem applyAll_keeps {ws : List Write} : ∀ {db db' : DB}, (∀ w ∈ ws, w.Settles) →
    db.applyAll ws = .ok db' → ∀ t ∈ db.txns, t.revise (updates ws) ∈ db'.txns := by
  induction ws with
  | nil =>
    intro db db' _ h t ht
    rw [← Except.ok.inj h]
    exact ht
  | cons w ws ih =>
    intro db db' hs h t ht
    obtain ⟨mid, hmid, hrest⟩ := applyAll_cons h
    have hih := ih (fun w hw => hs w (List.mem_cons_of_mem _ hw)) hrest
    rcases apply_settles (hs w List.mem_cons_self) hmid with
      ⟨e, rfl, rfl⟩ | ⟨p, rfl, rfl⟩ | ⟨r, rfl, _, _, rfl⟩ | ⟨l, c, rfl, rfl⟩
    · exact hih t ht
    · exact hih t ht
    · exact hih t (List.mem_append_left _ ht)
    · exact hih _ (List.mem_map_of_mem ht)

/-- Transaction rows have distinct keys. -/
def DB.Keyed (db : DB) : Prop := (db.txns.map ProviderTransaction.authorization_id).Nodup

theorem applyAll_keyed {ws : List Write} : ∀ {db db' : DB}, (∀ w ∈ ws, w.Settles) →
    db.applyAll ws = .ok db' → db.Keyed → db'.Keyed := by
  induction ws with
  | nil => intro db db' _ h hk; rwa [← Except.ok.inj h]
  | cons w ws ih =>
    intro db db' hs h hk
    obtain ⟨mid, hmid, hrest⟩ := applyAll_cons h
    refine ih (fun w hw => hs w (List.mem_cons_of_mem _ hw)) hrest ?_
    rcases apply_settles (hs w List.mem_cons_self) hmid with
      ⟨e, rfl, rfl⟩ | ⟨p, rfl, rfl⟩ | ⟨r, rfl, _, hfresh, rfl⟩ | ⟨l, c, rfl, rfl⟩
    · exact hk
    · exact hk
    · unfold DB.Keyed
      rw [List.map_append, List.nodup_append]
      refine ⟨hk, by simp, ?_⟩
      rintro a ha b hb rfl
      obtain ⟨t, ht, rfl⟩ := List.mem_map.mp ha
      exact hfresh t ht (by simpa using hb)
    · unfold DB.Keyed
      rw [List.map_map]
      have : ProviderTransaction.authorization_id ∘ ProviderTransaction.revise [(l, c)] =
          ProviderTransaction.authorization_id := by
        funext t
        exact ProviderTransaction.revise_key _ t
      rw [this]
      exact hk

/-- Two rows with one key are one row. -/
theorem DB.Keyed.eq {db : DB} (h : db.Keyed) {t t' : ProviderTransaction} (ht : t ∈ db.txns)
    (ht' : t' ∈ db.txns) (hid : t.authorization_id = t'.authorization_id) : t = t' :=
  List.inj_on_of_nodup_map h ht ht' hid

/-! ## Statements that leave transaction rows alone -/

@[simp] theorem release_db (w : World) (i : Nat) : (w.release i).db = w.db := rfl

/-- Undoing reservations touches no table but `authorizations`. -/
theorem rollback_db (i : Nat) (w : World) :
    (w.rollback i).db = { w.db with authorizations := (w.rollback i).db.authorizations } := by
  unfold World.rollback
  rw [release_db]
  generalize w.reserved.filter (fun r => decide (r.session = i)) = rs
  induction rs with
  | nil => rfl
  | cons r rs ih =>
    rw [List.foldr_cons]
    generalize rs.foldr _ w = w' at ih ⊢
    exact congrArg (fun d : DB => { d with
      authorizations := (w'.setUsage r.authorization_id fun _ => r.usage_count).db.authorizations })
      ih

@[simp] theorem rollback_txns (i : Nat) (w : World) : (w.rollback i).db.txns = w.db.txns := by
  rw [rollback_db]

@[simp] theorem rollback_audits (i : Nat) (w : World) :
    (w.rollback i).db.audits = w.db.audits := by
  rw [rollback_db]

@[simp] theorem rollback_reserved (i : Nat) (w : World) :
    (w.rollback i).reserved = w.reserved.filter fun r => decide (r.session ≠ i) := by
  unfold World.rollback World.release
  generalize w.reserved.filter (fun r => decide (r.session = i)) = rs
  show List.filter _ _ = _
  congr 1
  induction rs with
  | nil => rfl
  | cons r rs ih => exact ih

/-! ## The terms of an authorization -/

/-- `a` is `b`, but for the uses it has left. -/
def BoundedAuthorization.SameTerms (a b : BoundedAuthorization) : Prop :=
  a = { b with usage_count := a.usage_count }

namespace BoundedAuthorization.SameTerms

variable {a b c : BoundedAuthorization}

theorem refl (a : BoundedAuthorization) : a.SameTerms a := rfl

theorem trans (h : a.SameTerms b) (h' : b.SameTerms c) : a.SameTerms c := by
  unfold SameTerms at h h' ⊢
  rw [h, h']

end BoundedAuthorization.SameTerms

/-- Rows after some guarded updates are undone: those named are back at the value that
was replaced, the others as they were. -/
theorem undo_rows (rs : List Reservation) (w : World) :
    ∀ a' ∈ (rs.foldr (fun r w' => w'.setUsage r.authorization_id fun _ => r.usage_count) w).db.authorizations,
      ∃ a ∈ w.db.authorizations, a'.SameTerms a ∧
        ((∀ r ∈ rs, r.authorization_id ≠ a.authorization_id) → a' = a) ∧
        ((∃ r ∈ rs, r.authorization_id = a.authorization_id) →
          ∃ r ∈ rs, r.authorization_id = a.authorization_id ∧ a'.usage_count = r.usage_count) := by
  induction rs with
  | nil => exact fun a ha => ⟨a, ha, .refl a, fun _ => rfl, fun ⟨r, hr, _⟩ => absurd hr List.not_mem_nil⟩
  | cons r rs ih =>
    intro a' ha'
    obtain ⟨a₁, ha₁, rfl⟩ := List.mem_map.mp ha'
    obtain ⟨a, ha, hsame, hother, hnamed⟩ := ih a₁ ha₁
    have hid : a₁.authorization_id = a.authorization_id := by rw [hsame]
    by_cases hr : a₁.authorization_id = r.authorization_id
    · rw [if_pos (by simpa using hr)]
      refine ⟨a, ha, .trans rfl hsame, fun hall => ?_, fun _ => ?_⟩
      · exact absurd (hr.symm.trans hid) (hall r List.mem_cons_self)
      · exact ⟨r, List.mem_cons_self, hr.symm.trans hid, rfl⟩
    · rw [if_neg (by simpa using hr)]
      refine ⟨a, ha, hsame, fun hall => ?_, ?_⟩
      · exact hother fun r' hr' => hall r' (List.mem_cons_of_mem _ hr')
      · rintro ⟨r', hr', hid'⟩
        rcases List.mem_cons.mp hr' with rfl | hr'
        · exact absurd (hid.trans hid'.symm) hr
        · obtain ⟨r'', hr'', hboth⟩ := hnamed ⟨r', hr', hid'⟩
          exact ⟨r'', List.mem_cons_of_mem _ hr'', hboth⟩

/-- Every authorization of the world has the terms of one of the list. -/
def World.TermsFrom (as : List BoundedAuthorization) (w : World) : Prop :=
  ∀ a ∈ w.db.authorizations, ∃ a₀ ∈ as, a.SameTerms a₀

theorem World.TermsFrom.setUsage {as : List BoundedAuthorization} {w : World}
    (h : w.TermsFrom as) (id : String) (f : BoundedAuthorization → Int) :
    (w.setUsage id f).TermsFrom as := by
  intro a ha
  obtain ⟨a₁, ha₁, rfl⟩ := List.mem_map.mp ha
  obtain ⟨a₀, ha₀, hsame⟩ := h a₁ ha₁
  refine ⟨a₀, ha₀, ?_⟩
  split
  · exact BoundedAuthorization.SameTerms.trans rfl hsame
  · exact hsame

theorem World.TermsFrom.rollback {as : List BoundedAuthorization} {w : World}
    (h : w.TermsFrom as) (i : Nat) : (w.rollback i).TermsFrom as := by
  unfold World.rollback World.TermsFrom
  rw [release_db]
  generalize w.reserved.filter (fun r => decide (r.session = i)) = rs
  induction rs with
  | nil => exact h
  | cons r rs ih => exact World.TermsFrom.setUsage ih r.authorization_id fun _ => r.usage_count

/-- A statement of a settlement handler keeps the terms of every authorization. -/
theorem World.TermsFrom.exec {as : List BoundedAuthorization} {w : World} (h : w.TermsFrom as)
    {H : Host} {q : Desk} {s : Stmt} (hs : q.Allows H s) (i : Nat) :
    (w.exec i s).TermsFrom as := by
  cases s with
  | select => exact h
  | fresh => exact h
  | try_gate g => exact hs.elim
  | rollback => exact h.rollback i
  | reserve id spend =>
    unfold World.exec
    dsimp only
    split
    · exact h.setUsage id spend.usage
    · exact h
  | commit ws =>
    show (w.commit i ws).TermsFrom as
    unfold World.commit
    split
    · next db' hdb =>
      have hframe := applyAll_frame hs.settles hdb
      have : db'.authorizations = w.db.authorizations := by rw [hframe]
      unfold World.TermsFrom
      rw [release_db]
      show ∀ a ∈ db'.authorizations, _
      rw [this]
      exact h
    · exact h.rollback i

/-- Transaction rows after a statement: only a commit that succeeds changes them. -/
theorem exec_txns {H : Host} {q : Desk} {s : Stmt} (hs : q.Allows H s) (i : Nat) (w : World) :
    (w.exec i s).db.txns = w.db.txns ∨
      ∃ ws db', s = .commit ws ∧ w.db.applyAll ws = .ok db' ∧ (w.exec i s).db.txns = db'.txns := by
  cases s with
  | select => exact .inl rfl
  | fresh => exact .inl rfl
  | try_gate g => exact hs.elim
  | rollback => exact .inl (rollback_txns i w)
  | reserve id spend =>
    left
    unfold World.exec
    dsimp only
    split <;> rfl
  | commit ws =>
    cases hdb : w.db.applyAll ws with
    | ok db' => exact .inr ⟨ws, db', rfl, hdb, by simp [World.exec, World.commit, hdb]⟩
    | error e => exact .inl (by simp [World.exec, World.commit, hdb])

/-- A statement of a settlement handler keeps the keys distinct. -/
theorem exec_keyed {H : Host} {q : Desk} {s : Stmt} {w : World} (hs : q.Allows H s)
    (hk : w.db.Keyed) (i : Nat) : (w.exec i s).db.Keyed := by
  unfold DB.Keyed
  rcases exec_txns hs i w with heq | ⟨ws, db', rfl, hdb, heq⟩
  · rw [heq]
    exact hk
  · rw [heq]
    exact applyAll_keyed hs.settles hdb hk

/-! ## The audit log only grows -/

theorem apply_audits {db db' : DB} {w : Write} (h : db.apply w = some db') :
    db.audits <+: db'.audits := by
  cases w with
  | insertAudit r =>
    rw [← Option.some.inj h]
    exact List.prefix_append _ _
  | updateTxn l c =>
    simp only [DB.apply] at h
    split at h
    · exact absurd h (by simp)
    · rw [← Option.some.inj h]
  | _ =>
    -- an insert under a unique key, or an update of another table
    first
      | rw [← Option.some.inj h]
      | obtain ⟨_, _, hrows⟩ := Option.bind_eq_some_iff.mp h
        rw [← Option.some.inj hrows]

theorem applyAll_audits {ws : List Write} : ∀ {db db' : DB}, db.applyAll ws = .ok db' →
    db.audits <+: db'.audits := by
  induction ws with
  | nil => intro db db' h; rw [Except.ok.inj h]
  | cons w ws ih =>
    intro db db' h
    obtain ⟨mid, hmid, hrest⟩ := applyAll_cons h
    exact (apply_audits hmid).trans (ih hrest)

/-- Whatever a session runs, no audit event is lost. -/
theorem exec_audits (i : Nat) (s : Stmt) (w : World) : w.db.audits <+: (w.exec i s).db.audits := by
  cases s with
  | select => exact List.prefix_rfl
  | fresh => exact List.prefix_rfl
  | rollback =>
    show _ <+: (w.rollback i).db.audits
    rw [rollback_audits]
  | try_gate g =>
    unfold World.exec
    dsimp only
    split
    · exact List.prefix_rfl
    · rw [rollback_audits]
  | reserve id spend =>
    unfold World.exec
    dsimp only
    split <;> exact List.prefix_rfl
  | commit ws =>
    show _ <+: (w.commit i ws).db.audits
    unfold World.commit
    split
    · next db' hdb => exact applyAll_audits hdb
    · rw [rollback_audits]

/-! ## What a run of settlement requests leaves in place -/

/-- An authorization without the uses it has left. -/
def BoundedAuthorization.terms (a : BoundedAuthorization) : BoundedAuthorization :=
  { a with usage_count := 0 }

/-- The later database knows the same accounts and authorizations, and every
transaction of the earlier one. -/
structure DB.Onward (db db' : DB) : Prop where
  accounts : db'.provider_accounts = db.provider_accounts
  terms : db'.authorizations.map BoundedAuthorization.terms =
    db.authorizations.map BoundedAuthorization.terms
  rows : ∀ t ∈ db.txns, ∃ t' ∈ db'.txns,
    t'.authorization_id = t.authorization_id ∧ t'.org_id = t.org_id

namespace DB.Onward

variable {a b c : DB}

theorem refl (a : DB) : a.Onward a := ⟨rfl, rfl, fun t ht => ⟨t, ht, rfl, rfl⟩⟩

theorem trans (h : a.Onward b) (h' : b.Onward c) : a.Onward c := by
  refine ⟨h'.accounts.trans h.accounts, h'.terms.trans h.terms, fun t ht => ?_⟩
  obtain ⟨t', ht', hid, horg⟩ := h.rows t ht
  obtain ⟨t'', ht'', hid', horg'⟩ := h'.rows t' ht'
  exact ⟨t'', ht'', hid'.trans hid, horg'.trans horg⟩

/-- A change of `usage_count` only. -/
theorem of_terms (ht : b = { a with authorizations := b.authorizations })
    (hterms : b.authorizations.map BoundedAuthorization.terms =
      a.authorizations.map BoundedAuthorization.terms) : a.Onward b := by
  refine ⟨by rw [ht], hterms, fun t htxn => ⟨t, ?_, rfl, rfl⟩⟩
  rw [ht]
  exact htxn

end DB.Onward

theorem setUsage_terms (w : World) (id : String) (f : BoundedAuthorization → Int) :
    (w.setUsage id f).db.authorizations.map BoundedAuthorization.terms =
      w.db.authorizations.map BoundedAuthorization.terms := by
  show (updateWhere _ _ _).map _ = _
  unfold updateWhere
  rw [List.map_map]
  refine List.map_congr_left fun a _ => ?_
  show BoundedAuthorization.terms (if _ then _ else _) = _
  split <;> rfl

theorem onward_rollback (i : Nat) (w : World) : w.db.Onward (w.rollback i).db := by
  refine .of_terms (rollback_db i w) ?_
  unfold World.rollback
  rw [release_db]
  generalize w.reserved.filter (fun r => decide (r.session = i)) = rs
  induction rs with
  | nil => rfl
  | cons r rs ih =>
    rw [List.foldr_cons, setUsage_terms]
    exact ih

@[simp] theorem ProviderTransaction.revise_org
    (us : List (ProviderTransaction × ProviderTransaction)) :
    ∀ t : ProviderTransaction, (t.revise us).org_id = t.org_id := by
  induction us with
  | nil => intro t; rfl
  | cons u us ih =>
    intro t
    rw [revise_cons, ih]
    split <;> rfl

/-- A statement of a settlement handler. -/
theorem exec_onward {H : Host} {q : Desk} {s : Stmt} (hs : q.Allows H s) (i : Nat) (w : World) :
    w.db.Onward (w.exec i s).db := by
  cases s with
  | select => exact .refl _
  | fresh => exact hs.elim
  | try_gate g => exact hs.elim
  | rollback => exact onward_rollback i w
  | reserve id spend =>
    unfold World.exec
    dsimp only
    split
    · exact .of_terms rfl (setUsage_terms w id spend.usage)
    · exact .refl _
  | commit ws =>
    show w.db.Onward (w.commit i ws).db
    unfold World.commit
    split
    · next db' hdb =>
      have hframe := applyAll_frame hs.settles hdb
      rw [release_db]
      show w.db.Onward db'
      refine ⟨by rw [hframe], by rw [hframe], fun t ht => ?_⟩
      exact ⟨_, applyAll_keeps hs.settles hdb t ht, by simp, by simp⟩
    · exact onward_rollback i w

end Paari
