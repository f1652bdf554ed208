import Paari.Conduct
import Paari.Effects

/-!
# State integrity

`transition_txn` checks the copy a handler has loaded; the `UPDATE` names the row by
its key and finds whatever is there. Between the two another handler may have
committed, so a committed change of `state` need not be in the table: the last
writer wins. Nor need it be where the agentic path moves twice within one
transaction. In every run without these two it is, and `PAID` is for good.
-/

namespace Paari

open Atomic

/-- The first `UPDATE` of the transaction, where it assigns the state, finds the row in
the state it was loaded in. (A second one writes the row the first has written.) -/
def Undisturbed (w : World) (ws : List Write) : Prop :=
  ∀ l c us, updates ws = (l, c) :: us → l.state ≠ c.state →
    ∀ t ∈ w.db.txns, t.authorization_id = l.authorization_id → t.state = l.state

/-- Runs in which no commit is disturbed and no capture reply moves a transaction on
within the commit that submits it. -/
def NoLostUpdate (H : Host) (_ : List (Event World Stmt Call Answer)) :
    Event World Stmt Call Answer → Prop
  | .stmt _ (.commit ws) w => Undisturbed w ws
  | .call _ c a _ => c.movesOn H a = false
  | _ => True

instance (w : World) (ws : List Write) : Decidable (Undisturbed w ws) :=
  match h : updates ws with
  | [] => isTrue (by simp [Undisturbed, h])
  | (l, c) :: _ =>
    decidable_of_iff (l.state ≠ c.state →
      ∀ t ∈ w.db.txns, t.authorization_id = l.authorization_id → t.state = l.state)
      (by simp [Undisturbed, h])

instance (H : Host) (tr : List (Event World Stmt Call Answer)) :
    DecidablePred (NoLostUpdate H tr)
  | .stmt _ (.commit ws) w => inferInstanceAs (Decidable (Undisturbed w ws))
  | .stmt _ .select _ | .stmt _ .fresh _ | .stmt _ (.try_gate _) _ | .stmt _ (.reserve _ _) _
  | .stmt _ .rollback _ | .died _ _ => inferInstanceAs (Decidable True)
  | .call _ c a _ => inferInstanceAs (Decidable (c.movesOn H a = false))

/-- Rows of one transaction, before and after: legal moves only. -/
def LegalMoves (db db' : DB) : Prop :=
  ∀ t ∈ db.txns, ∀ t' ∈ db'.txns, t'.authorization_id = t.authorization_id →
    Legal t.state t'.state

/-! ## One commit -/

/-- The state after one `UPDATE`. -/
theorem patch_state (l c t : ProviderTransaction) :
    (ProviderTransaction.patch l c t).state = if c.state = l.state then t.state else c.state := rfl

/-- An undisturbed desk transaction moves each row legally. -/
theorem revise_legal {H : Host} {q : Desk} {ws : List Write} (h : q.Submittable H ws)
    (hmoved : ¬ q.Moved H) {w : World} (hun : Undisturbed w ws) {t : ProviderTransaction}
    (ht : t ∈ w.db.txns) : Legal t.state (t.revise (updates ws)).state := by
  rcases h.rows with hu | ⟨l, c, hu, _, hs⟩ | ⟨l, m, c, hu, _, hne, hs, hs', hlegal⟩
  · rw [hu]
    exact Legal.refl _
  · rw [hu, ProviderTransaction.revise_cons]
    split
    · next hid =>
      show Legal t.state (ProviderTransaction.patch l c t).state
      rw [patch_state]
      split
      · exact Legal.refl _
      · next hc =>
        rw [hun l c [] hu (Ne.symm hc) t ht (by simpa using hid)]
        exact hs.legal
    · exact Legal.refl _
  · rw [hu, ProviderTransaction.revise_cons]
    split
    · next hid =>
      have hid' : t.authorization_id = l.authorization_id := by simpa using hid
      have htl := hun l m [(m, c)] hu hne t ht hid'
      have hfirst : (ProviderTransaction.patch l m t).state = m.state := by
        rw [patch_state, if_neg (Ne.symm hne)]
      have hkey : (ProviderTransaction.patch l m t).authorization_id = m.authorization_id :=
        hid'.trans hs.key.symm
      rw [ProviderTransaction.revise_cons, if_pos (by simpa using hkey)]
      show Legal t.state (ProviderTransaction.patch m c _).state
      rw [patch_state, htl]
      split
      · rw [hfirst]
        exact hs.legal
      · exact hlegal.resolve_right hmoved
    · next hid =>
      have hid' : ¬ t.authorization_id = m.authorization_id := by
        rw [hs.key]
        simpa using hid
      rw [ProviderTransaction.revise_cons, if_neg (by simpa using hid')]
      exact Legal.refl _

/-- What a statement does to the rows: each one that was there is still there, moved
legally, and nothing else has its key. -/
theorem exec_legal {H : Host} {q : Desk} {s : Stmt} (hs : q.Allows H s) (hmoved : ¬ q.Moved H)
    {w : World} (hun : ∀ ws, s = .commit ws → Undisturbed w ws) (hk : w.db.Keyed) (i : Nat) :
    (w.exec i s).db.Keyed ∧ LegalMoves w.db (w.exec i s).db ∧
      ∀ t ∈ w.db.txns, ∃ t' ∈ (w.exec i s).db.txns, t'.authorization_id = t.authorization_id := by
  unfold DB.Keyed LegalMoves
  rcases exec_txns hs i w with hsame | ⟨ws, db', rfl, hdb, htxns⟩
  · rw [hsame]
    refine ⟨hk, fun t ht t' ht' hid => ?_, fun t ht => ⟨t, ht, rfl⟩⟩
    rw [hk.eq ht' ht hid]
    exact Legal.refl _
  · rw [htxns]
    refine ⟨applyAll_keyed hs.settles hdb hk, fun t ht t' ht' hid => ?_, fun t ht => ?_⟩
    · rcases applyAll_txns hs.settles hdb t' ht' with ⟨t₀, ht₀, rfl⟩ | ⟨r, us, _, _, _, rfl, hnew⟩
      · rw [hk.eq ht ht₀ (by simpa using hid.symm)]
        exact revise_legal hs hmoved (hun ws rfl) ht₀
      · exact absurd (by simpa using hid.symm) (hnew t ht)
    · exact ⟨_, applyAll_keeps hs.settles hdb t ht, by simp⟩

/-! ## Every run -/

/-- The transaction keys are distinct, and no desk holds a capture that moved. -/
structure Integral (H : Host) (w : World) (qs : Nat → Desk) : Prop where
  keyed : w.db.Keyed
  still : ∀ i, ¬ (qs i).Moved H

namespace Integral

variable {H : Host} {w : World} {qs : Nat → Desk} {i : Nat} {q' : Desk}

theorem update {w' : World} (h : Integral H w qs) (hk : w'.db.Keyed) (hq : ¬ q'.Moved H) :
    Integral H w' (Function.update qs i q') := by
  refine ⟨hk, fun j => ?_⟩
  by_cases hj : j = i
  · subst hj
    rwa [Function.update_self]
  · rw [Function.update_of_ne hj]
    exact h.still j

theorem stmt {s : Stmt} (h : Integral H w qs) (hs : (desk H).stmt (qs i) s w q')
    (hun : ∀ ws, s = .commit ws → Undisturbed w ws) :
    Integral H (w.exec i s) (Function.update qs i q') := by
  obtain ⟨hallow, rfl⟩ := hs
  refine h.update (exec_legal hallow (h.still i) hun h.keyed i).1 ?_
  unfold Desk.Moved
  rw [Desk.after_calls]
  exact h.still i

theorem call {c : Call} {a : Answer} (h : Integral H w qs) (hc : (desk H).call (qs i) c a q')
    (hok : c.movesOn H a = false) : Integral H w (Function.update qs i q') := by
  obtain ⟨_, rfl⟩ := hc
  refine h.update h.keyed ?_
  rintro ⟨c', a', hmem, hmoves⟩
  rcases List.mem_append.mp hmem with hmem | hmem
  · exact h.still i ⟨c', a', hmem, hmoves⟩
  · obtain ⟨rfl, rfl⟩ := by simpa using hmem
    exact absurd (hok.symm.trans hmoves) (by simp)

theorem die (h : Integral H w qs) (i : Nat) (role : Spend) :
    Integral H (w.rollback i) (Function.update qs i (Desk.empty role)) := by
  refine h.update ?_ ?_
  · unfold DB.Keyed
    rw [rollback_txns]
    exact h.keyed
  · rintro ⟨c, a, hmem, _⟩
    exact absurd hmem List.not_mem_nil

end Integral

/-- The condition on a commit. -/
theorem undisturbed_of_ok {H : Host} {tr : List (Event World Stmt Call Answer)} {i : Nat} {s : Stmt}
    {w : World} (h : NoLostUpdate H tr (.stmt i s w)) : ∀ ws, s = .commit ws → Undisturbed w ws := by
  rintro ws rfl
  exact h

/-- `PAID`, or what may follow it. -/
def TxnState.settled (s : TxnState) : Prop := s = .PAID ∨ s = .REFUNDED ∨ s = .REVERSED

/-- A row of this key exists and is settled. -/
def SettledAt (id : String) (db : DB) : Prop :=
  ∃ t ∈ db.txns, t.authorization_id = id ∧ t.state.settled

theorem exec_settled {H : Host} {q : Desk} {s : Stmt} (hs : q.Allows H s) (hmoved : ¬ q.Moved H)
    {w : World} (hun : ∀ ws, s = .commit ws → Undisturbed w ws) (hk : w.db.Keyed) (i : Nat)
    {id : String} (h : SettledAt id w.db) : SettledAt id (w.exec i s).db := by
  obtain ⟨t, ht, hid, hsettled⟩ := h
  obtain ⟨_, hlegal, hkeep⟩ := exec_legal hs hmoved hun hk i
  obtain ⟨t', ht', hid'⟩ := hkeep t ht
  exact ⟨t', ht', hid'.trans hid, legal_settled (hlegal t ht t' ht' hid') hsettled⟩

/-- In every run without lost updates, from pools whose desks are integral. -/
theorem reach_integral {H : Host} {c₀ c : Pool World Stmt Call Answer Reply} {qs₀ : Nat → Desk}
    (h₀ : Integral H c₀.store qs₀) (hf : c₀.Follows (desk H) (fun _ _ _ => True) qs₀)
    (h : Pool.Reach machine (NoLostUpdate H) c₀ c) :
    ∃ qs, (Integral H c.store qs ∧ ∀ id, SettledAt id c₀.store.db → SettledAt id c.store.db) ∧
      c.Follows (desk H) (fun _ _ _ => True) qs := by
  refine Pool.sim (J := fun w qs _ => Integral H w qs ∧
    ∀ id, SettledAt id c₀.store.db → SettledAt id w.db) ?_ ?_ ?_ ?_ ⟨h₀, fun _ hs => hs⟩ hf h
  · rintro w qs tr i s q' ⟨hJ, hset⟩ hok hs
    have hun := undisturbed_of_ok hok
    exact ⟨hJ.stmt hs hun,
      fun id hid => exec_settled hs.1 (hJ.still i) hun hJ.keyed i (hset id hid)⟩
  · rintro w qs tr i c a q' ⟨hJ, hset⟩ hok hc
    exact ⟨hJ.call hc hok, hset⟩
  · rintro w qs tr i x ⟨hJ, hset⟩ _ _
    refine ⟨Desk.empty .consume, hJ.die i .consume, fun id hid => ?_⟩
    obtain ⟨t, ht, hboth⟩ := hset id hid
    exact ⟨t, by rw [show (machine.abort i w).db.txns = w.db.txns from rollback_txns i w]; exact ht, hboth⟩
  · rintro w qs tr d ⟨hJ, hset⟩
    exact ⟨⟨hJ.keyed, hJ.still⟩, hset⟩

/-- **State integrity.** In every run of settlement requests, in any order of steps, in
which every `UPDATE` of the state finds the row as it was loaded and no capture reply
moves a transaction within the submitting commit: every committed change of a state is
in the table; and what was once committed as `PAID` is `PAID`, `REFUNDED` or `REVERSED`
ever after. -/
theorem state_integrity {H : Host} {reqs : List Request} (hreqs : ∀ r ∈ reqs, r.settles = true)
    {w : World} (hw : w.db.Keyed) {c : Pool World Stmt Call Answer Reply}
    (h : Pool.Reach machine (NoLostUpdate H) (Pool.start w (reqs.map (handler H))) c) :
    (∀ m : Move Answer Nat, (∀ ev, c.event m = some ev → NoLostUpdate H c.trace ev) →
      LegalMoves c.store.db (c.step machine m).store.db) ∧
    ∀ c', Pool.Reach machine (NoLostUpdate H) c c' → ∀ t ∈ c.store.db.txns, t.state = .PAID →
      ∀ t' ∈ c'.store.db.txns, t'.authorization_id = t.authorization_id → t'.state.settled := by
  have hstart : Integral H w fun i => Desk.empty (roleAt reqs i) :=
    ⟨hw, fun i ⟨_, _, hmem, _⟩ => absurd hmem List.not_mem_nil⟩
  obtain ⟨qs, ⟨hJ, _⟩, hf⟩ := reach_integral hstart (start_follows H hreqs w) h
  have hrefl : LegalMoves c.store.db c.store.db := fun t ht t' ht' hid =>
    hJ.keyed.eq ht' ht hid ▸ Legal.refl _
  constructor
  · intro m hok
    rcases Pool.step_store (M := machine) c m with hst | ⟨i, a, s, k, rfl, hi, hst⟩ |
      ⟨i, _, hst⟩ | ⟨d, _, hst⟩
    · rw [hst]
      exact hrefl
    · obtain ⟨q', hs⟩ := hf.stmt hi
      have hev := hok (.stmt i s c.store) (by simp [Pool.event, hi])
      rw [hst]
      exact (exec_legal hs.1 (hJ.still i) (undisturbed_of_ok hev) hJ.keyed i).2.1
    · rw [hst]
      intro t ht t' ht' hid
      exact hrefl t ht t' (rollback_txns i c.store ▸ ht') hid
    · rw [hst]
      exact hrefl
  · intro c' h' t ht hpaid t' ht' hid
    obtain ⟨qs', ⟨hJ', hset⟩, _⟩ := reach_integral hJ hf h'
    obtain ⟨t₁, ht₁, hid₁, hsettled⟩ := hset t.authorization_id ⟨t, ht, rfl, .inl hpaid⟩
    rwa [hJ'.keyed.eq ht' ht₁ (hid.trans hid₁.symm)]

/-! ## One payment, two readers -/

/-- One batch that hears `captured`, from its first statement to its last. -/
def oneReader : Pool World Stmt Call Answer Reply :=
  (Sample.batches 1).run machine (List.replicate 10 (.run 0 (Sample.payment "captured")))

/-- Alone, a reader moves the transaction legally, and `PAID` stays. -/
theorem state_integrity_one_reader :
    (∀ m : Move Answer Nat, (∀ ev, oneReader.event m = some ev →
        NoLostUpdate (Sample.host false []) oneReader.trace ev) →
      LegalMoves oneReader.store.db (oneReader.step machine m).store.db) ∧
    ∀ c', Pool.Reach machine (NoLostUpdate (Sample.host false [])) oneReader c' →
      ∀ t ∈ oneReader.store.db.txns, t.state = .PAID →
      ∀ t' ∈ c'.store.db.txns, t'.authorization_id = t.authorization_id → t'.state.settled := by
  have hok : ∀ ev ∈ oneReader.trace, NoLostUpdate (Sample.host false []) [] ev := by decide
  have hkeyed : (Sample.db [Sample.authorization 100]
      [Sample.txn .PROVIDER_SUBMITTED none (some "pay") none]).Keyed := List.nodup_singleton _
  exact state_integrity (by decide) hkeyed
    (Pool.reach_of_throughout _ _ .start (Pool.throughout_of_forall hok))

/-- Two batches have read the submitted transaction. The first was told `failed` and is
about to commit; the second was told `captured` and has committed. -/
def twoReaders : Pool World Stmt Call Answer Reply :=
  ((Sample.batches 2).run machine (List.replicate 4 (.run 0 (Sample.payment "failed")))).run machine
    (List.replicate 10 (.run 1 (Sample.payment "captured")))

/-- The first one goes on. -/
def lateReader : Pool World Stmt Call Answer Reply :=
  twoReaders.run machine (List.replicate 6 (.run 0 (Sample.payment "failed")))

/-- `PAID` is overwritten by `FAILED`. -/
theorem paid_overwritten :
    Pool.Reach machine Pool.Free (Sample.batches 2) twoReaders ∧
      Pool.Reach machine Pool.Free twoReaders lateReader ∧
      twoReaders.store.db.txns.map (fun t => (t.authorization_id, t.state)) = [("auth", .PAID)] ∧
      lateReader.store.db.txns.map (fun t => (t.authorization_id, t.state)) = [("auth", .FAILED)] ∧
      ¬ (∀ t ∈ twoReaders.store.db.txns, t.state = .PAID → ∀ t' ∈ lateReader.store.db.txns,
        t'.authorization_id = t.authorization_id → t'.state.settled) ∧
      ¬ LegalMoves twoReaders.store.db lateReader.store.db := by
  refine ⟨Pool.reach_run _ _ _ _ (Pool.reach_run _ _ _ _ .start), Pool.reach_run _ _ _ _ .start,
    rfl, rfl, fun h => ?_, fun h => ?_⟩
  · have := h _ (List.mem_singleton_self _) rfl _ (List.mem_singleton_self _) rfl
    rcases this with h | h | h <;> cases h
  · rcases h _ (List.mem_singleton_self _) _ (List.mem_singleton_self _) rfl with h | h
    · cases h
    · exact absurd h (by decide)

end Paari
