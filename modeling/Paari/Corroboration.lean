import Paari.Conduct
import Paari.Effects

/-!
# `PAID` is corroborated

A transaction reaches `PAID` on a provider read that says `captured`: that much holds
of every interleaving of the settlement handlers, and of every provider. What the
read must say about the money is another matter. Two of the three readers compare
the amount only when it is there and the currency only when it is not empty, and all
of them cut a fraction off the amount before they compare. So the read corroborates
the authorized amount and currency exactly when the providers leave neither out
(`Complete`).
-/

namespace Paari

open Atomic

/-- The record says `captured`, as the readers read it. -/
def SaysCaptured (H : Host) (record : Json) : Prop :=
  ∃ status, record.getD "status" (.str "") = .ok status ∧ pyLower H.toText status = "captured"

/-- The record corroborates the capture of the authorized amount, in its currency. -/
def Corroborates (H : Host) (auth : BoundedAuthorization) (record : Json) : Prop :=
  SaysCaptured H record ∧
    (∃ amount, record.get "amount" = .ok amount ∧
      amount.isInteger H.toText auth.amount_minor_units = true) ∧
    ∃ currency, record.get "currency" = .ok currency ∧ currency.truthy = true ∧
      pyUpper H.toText currency = H.upper auth.currency

/-- If the answer shows a captured payment, it shows a whole amount and a currency. -/
def Complete (H : Host) (c : Call) (a : Answer) : Prop :=
  ∀ record, c.op.record a = some record → SaysCaptured H record →
    (∃ amount n, record.get "amount" = .ok amount ∧ amount.isInteger H.toText n = true) ∧
    ∃ currency, record.get "currency" = .ok currency ∧ currency.truthy = true

/-- Runs in which every provider answer is complete. -/
def CompleteReads (H : Host) (_ : List (Event World Stmt Call Answer)) :
    Event World Stmt Call Answer → Prop
  | .call _ c a _ => Complete H c a
  | _ => True

/-- A transaction is `PAID` that was not. -/
def EntersPaid (id : String) (db db' : DB) : Prop :=
  (∃ t ∈ db'.txns, t.authorization_id = id ∧ t.state = .PAID) ∧
    ∀ t ∈ db.txns, t.authorization_id = id → t.state ≠ .PAID

/-- The handler `i` has read the payment of the transaction it is writing (`l` as it
was loaded, `c` as it is written), and the record it was answered corroborates the
capture of an authorization in `as`. -/
def CorroboratedBy (H : Host) (as : List BoundedAuthorization)
    (tr : List (Event World Stmt Call Answer)) (i : Nat) (ws : List Write) (id : String) : Prop :=
  ∃ l c call answer record, ∃ auth ∈ as,
    .updateTxn l c ∈ ws ∧ l.authorization_id = id ∧ auth.authorization_id = id ∧
    (i, call, answer) ∈ Pool.calls tr ∧ call.op.reads l c ∧ call.op.record answer = some record ∧
    Corroborates H auth record

/-! ## What the readers accept -/

/-- `str(payment.get("status", "")).lower()` on an object. -/
theorem paymentFields_ok {H : Host} {record : Json} {p : PaymentFields}
    (h : paymentFields H record = .ok p) :
    (∃ status, record.getD "status" (.str "") = .ok status ∧ p.status = pyLower H.toText status) ∧
      record.get "amount" = .ok p.amount ∧ record.get "currency" = .ok p.currency := by
  cases record with
  | dict kvs =>
    have hp := Except.ok.inj h
    subst hp
    exact ⟨⟨_, rfl, rfl⟩, rfl, rfl⟩
  | _ => exact absurd h (by simp [paymentFields, Json.getD, bind, Except.bind])

/-- On a complete answer, the readers of Razorpay payments accept only what corroborates. -/
theorem corroborates_of_fields {H : Host} {auth : BoundedAuthorization} {record : Json}
    {p : PaymentFields} (hp : paymentFields H record = .ok p) (hs : p.status = "captured")
    (ham : amountMismatch H auth p.amount = .ok false)
    (hcur : currencyMismatch H auth p.currency = false)
    (hcomplete : SaysCaptured H record →
      (∃ amount n, record.get "amount" = .ok amount ∧ amount.isInteger H.toText n = true) ∧
      ∃ currency, record.get "currency" = .ok currency ∧ currency.truthy = true) :
    Corroborates H auth record := by
  obtain ⟨⟨status, hstatus, hlower⟩, hamount, hcurrency⟩ := paymentFields_ok hp
  have hsaid : SaysCaptured H record := ⟨status, hstatus, hlower.symm.trans hs⟩
  obtain ⟨⟨amount, n, ha, hn⟩, currency, hc, htruthy⟩ := hcomplete hsaid
  obtain rfl : p.amount = amount := Except.ok.inj (hamount.symm.trans ha)
  obtain rfl : p.currency = currency := Except.ok.inj (hcurrency.symm.trans hc)
  refine ⟨hsaid, ⟨_, ha, ?_⟩, _, hc, htruthy, ?_⟩
  · have hnull : p.amount.isNull = false := by
      cases hx : p.amount with
      | null => rw [hx] at hn; exact absurd hn (by simp [Json.isInteger])
      | _ => rfl
    have hint := pyInt_of_isInteger hn
    have hne : ¬ n ≠ auth.amount_minor_units := by
      simpa [amountMismatch, hnull, hint, bind, Except.bind, pure, Except.pure] using ham
    rw [← not_not.mp hne]
    exact hn
  · have hboth := hcur
    unfold currencyMismatch at hboth
    rw [htruthy] at hboth
    simpa using hboth

/-- So does the agentic reader. -/
theorem corroborates_of_corroborated {H : Host} {auth : BoundedAuthorization} {record : Json}
    (h : corroborated H auth record = .ok true)
    (hcomplete : SaysCaptured H record →
      (∃ amount n, record.get "amount" = .ok amount ∧ amount.isInteger H.toText n = true) ∧
      ∃ currency, record.get "currency" = .ok currency ∧ currency.truthy = true) :
    Corroborates H auth record := by
  cases record with
  | dict kvs =>
    simp only [corroborated, Json.getD, bind, Except.bind] at h
    split at h
    · exact absurd h (by simp [pure, Except.pure])
    next hstatus =>
    have hsaid : SaysCaptured H (.dict kvs) := ⟨_, rfl, not_not.mp hstatus⟩
    obtain ⟨⟨amount, n, ha, hn⟩, currency, hc, htruthy⟩ := hcomplete hsaid
    have ha' : (kvs.lookup "amount").getD .null = amount := Except.ok.inj ha
    have hc' : (kvs.lookup "currency").getD .null = currency := Except.ok.inj hc
    -- neither default is read: both fields are there
    obtain hlook : kvs.lookup "amount" = some amount := by
      cases hl : kvs.lookup "amount" with
      | none =>
        rw [hl] at ha'
        rw [← ha'] at hn
        exact absurd hn (by simp [Json.isInteger])
      | some x => rw [hl] at ha'; exact congrArg some ha'
    obtain hlook' : kvs.lookup "currency" = some currency := by
      cases hl : kvs.lookup "currency" with
      | none =>
        rw [hl] at hc'
        rw [← hc'] at htruthy
        exact absurd htruthy (by simp [Json.truthy])
      | some x => rw [hl] at hc'; exact congrArg some hc'
    rw [hlook, hlook'] at h
    simp only [Option.getD_some, pyInt_of_isInteger hn] at h
    split at h
    · exact absurd h (by simp [pure, Except.pure])
    next hamount =>
    refine ⟨hsaid, ⟨_, ha, not_not.mp hamount ▸ hn⟩, _, hc, htruthy, ?_⟩
    simpa [pure, Except.pure] using h
  | _ => exact absurd h (by simp [corroborated, Json.getD, bind, Except.bind])

/-- Whatever read the code accepts on a complete answer corroborates. -/
theorem corroborates_of_accepts {H : Host} {auth : BoundedAuthorization} {call : Call}
    {answer : Answer} {record : Json} (hrec : call.op.record answer = some record)
    (hacc : call.op.accepts H auth record) (hcomplete : Complete H call answer) :
    Corroborates H auth record := by
  have hc := hcomplete record hrec
  unfold Op.accepts at hacc
  split at hacc
  · exact corroborates_of_corroborated hacc hc
  · obtain ⟨p, hp, hs, ham, hcur⟩ := hacc
    exact corroborates_of_fields hp hs ham hcur hc

/-! ## What the handlers know, in every run -/

/-- Every desk shows the authorizations of `as` and calls the history has seen, and
the history has seen complete answers only. -/
structure Informed (H : Host) (as : List BoundedAuthorization) (w : World) (qs : Nat → Desk)
    (tr : List (Event World Stmt Call Answer)) : Prop where
  terms : w.TermsFrom as
  read : ∀ i, ∀ a ∈ (qs i).terms, ∃ a₀ ∈ as, a.SameTerms a₀
  called : ∀ i, ∀ ca ∈ (qs i).calls, (i, ca) ∈ Pool.calls tr
  complete : ∀ i c a, (i, c, a) ∈ Pool.calls tr → Complete H c a

namespace Informed

variable {H : Host} {as : List BoundedAuthorization} {w : World} {qs : Nat → Desk}
  {tr : List (Event World Stmt Call Answer)} {i : Nat} {q' : Desk}

theorem start (w : World) (role : Nat → Spend) :
    Informed H w.db.authorizations w (fun i => Desk.empty (role i)) [] where
  terms := fun a ha => ⟨a, ha, .refl a⟩
  read := fun _ _ ha => absurd ha List.not_mem_nil
  called := fun _ _ hca => absurd hca List.not_mem_nil
  complete := fun _ _ _ h => absurd h List.not_mem_nil

/-- Another world, another desk for one handler, and perhaps a longer history. -/
theorem update {w' : World} {tr' : List (Event World Stmt Call Answer)}
    (h : Informed H as w qs tr) (hw : w'.TermsFrom as)
    (hread : ∀ a ∈ q'.terms, ∃ a₀ ∈ as, a.SameTerms a₀)
    (hsub : Pool.calls tr ⊆ Pool.calls tr')
    (hcalled : ∀ ca ∈ q'.calls, (i, ca) ∈ Pool.calls tr')
    (hcomplete : ∀ j c a, (j, c, a) ∈ Pool.calls tr' → Complete H c a) :
    Informed H as w' (Function.update qs i q') tr' := by
  refine ⟨hw, fun j => ?_, fun j => ?_, hcomplete⟩
  · by_cases hj : j = i
    · subst hj
      rwa [Function.update_self]
    · rw [Function.update_of_ne hj]
      exact h.read j
  · by_cases hj : j = i
    · subst hj
      rwa [Function.update_self]
    · rw [Function.update_of_ne hj]
      exact fun ca hca => hsub (h.called j ca hca)

theorem stmt {s : Stmt} (h : Informed H as w qs tr) (hs : (desk H).stmt (qs i) s w q') :
    Informed H as (w.exec i s) (Function.update qs i q') (tr ++ [.stmt i s w]) := by
  obtain ⟨hallow, rfl⟩ := hs
  refine h.update (h.terms.exec hallow i) (fun a ha => ?_) ?_ ?_ ?_
  · rcases Desk.after_terms ha with ha | ha
    · exact h.read i a ha
    · exact h.terms a ha
  · rw [Pool.calls_stmt]
    exact fun _ hx => hx
  · rw [Desk.after_calls, Pool.calls_stmt]
    exact h.called i
  · rw [Pool.calls_stmt]
    exact h.complete

theorem call {c : Call} {a : Answer} (h : Informed H as w qs tr)
    (hc : (desk H).call (qs i) c a q') (hok : Complete H c a) :
    Informed H as w (Function.update qs i q') (tr ++ [.call i c a w]) := by
  obtain ⟨_, rfl⟩ := hc
  refine h.update h.terms (h.read i) ?_ (fun ca hca => ?_) (fun j c' a' hmem => ?_)
  · rw [Pool.calls_call]
    exact fun _ hx => List.mem_append_left _ hx
  · rw [Pool.calls_call]
    rcases List.mem_append.mp hca with hca | hca
    · exact List.mem_append_left _ (h.called i ca hca)
    · rw [List.mem_singleton.mp hca]
      exact List.mem_append_right _ (List.mem_singleton_self _)
  · rw [Pool.calls_call] at hmem
    rcases List.mem_append.mp hmem with hmem | hmem
    · exact h.complete j c' a' hmem
    · obtain ⟨rfl, rfl, rfl⟩ := by simpa using List.mem_singleton.mp hmem
      exact hok

theorem die {x : Option Call} (h : Informed H as w qs tr) (role : Spend) :
    Informed H as (w.rollback i) (Function.update qs i (Desk.empty role)) (tr ++ [.died i x]) := by
  refine h.update (h.terms.rollback i) (fun _ ha => absurd ha List.not_mem_nil) ?_
    (fun _ hca => absurd hca List.not_mem_nil) ?_
  · rw [Pool.calls_died]
    exact fun _ hx => hx
  · rw [Pool.calls_died]
    exact h.complete

end Informed

/-- In every run of complete reads the desks are informed. -/
theorem reach_informed {H : Host} {reqs : List Request} (hreqs : ∀ r ∈ reqs, r.settles = true)
    {w : World} {c : Pool World Stmt Call Answer Reply}
    (h : Pool.Reach machine (CompleteReads H) (Pool.start w (reqs.map (handler H))) c) :
    ∃ qs, Informed H w.db.authorizations c.store qs c.trace ∧
      c.Follows (desk H) (fun _ _ _ => True) qs := by
  refine Pool.sim ?_ ?_ ?_ ?_ (Informed.start w (roleAt reqs)) (start_follows H hreqs w) h
  · intro w' qs tr i s q' hJ _ hs
    exact hJ.stmt hs
  · intro w' qs tr i c a q' hJ hok hc
    exact hJ.call hc hok
  · intro w' qs tr i x hJ _ _
    exact ⟨Desk.empty .consume, hJ.die .consume⟩
  · intro w' qs tr d hJ
    exact ⟨hJ.terms, hJ.read, hJ.called, hJ.complete⟩

/-! ## Entering `PAID` -/

theorem not_entersPaid_of_txns {id : String} {db db' : DB} (h : db'.txns = db.txns) :
    ¬ EntersPaid id db db' := by
  rintro ⟨⟨t, ht, hid, hpaid⟩, hbefore⟩
  exact hbefore t (h ▸ ht) hid hpaid

/-- Only an `UPDATE` of the transaction enters `PAID`. -/
theorem entersPaid_update {id : String} {db db' : DB} {ws : List Write}
    (hs : ∀ w ∈ ws, w.Settles) (h : db.applyAll ws = .ok db') {after : DB}
    (htxns : after.txns = db'.txns) (hpaid : EntersPaid id db after) :
    ∃ l c, (l, c) ∈ updates ws ∧ l.authorization_id = id ∧ c.state = .PAID ∧ l.state ≠ .PAID := by
  obtain ⟨⟨t', ht', hid, hstate⟩, hbefore⟩ := hpaid
  rcases applyAll_txns hs h t' (htxns ▸ ht') with ⟨t, ht, rfl⟩ | ⟨t, us, _, hauth, hus, rfl, _⟩
  · rcases ProviderTransaction.revise_state _ t .PAID hstate with hp | ⟨l, c, hm, hl, hc, hne⟩
    · exact absurd hp (hbefore t ht (by simpa using hid))
    · exact ⟨l, c, hm, hl.symm.trans (by simpa using hid), hc, hne⟩
  · rcases ProviderTransaction.revise_state us t .PAID hstate with hp | ⟨l, c, hm, hl, hc, hne⟩
    · exact absurd (hp.symm.trans hauth) (by simp)
    · exact ⟨l, c, hus hm, hl.symm.trans (by simpa using hid), hc, hne⟩

/-- The evidence on the desk for the `UPDATE` that enters `PAID`. -/
theorem Desk.Submittable.evidence {H : Host} {q : Desk} {ws : List Write}
    (h : q.Submittable H ws) {l c : ProviderTransaction} (hm : (l, c) ∈ updates ws)
    (hc : c.state = .PAID) (hl : l.state ≠ .PAID) : q.Evidence H l c := by
  rcases h.rows with hu | ⟨l', c', hu, _, hs⟩ | ⟨l', m', c', hu, _, _, hs, hs', _⟩
  · rw [hu] at hm
    exact absurd hm List.not_mem_nil
  · rw [hu] at hm
    obtain ⟨rfl, rfl⟩ := by simpa using hm
    exact hs.paid hc hl
  · rw [hu] at hm
    rcases List.mem_cons.mp hm with hm | hm
    · obtain ⟨rfl, rfl⟩ := by simpa using hm
      exact hs.paid hc hl
    · obtain ⟨rfl, rfl⟩ := by simpa using hm
      exact hs'.paid hc hl

/-- **`PAID` is corroborated.** In every run of settlement requests, in any order of
steps, whose provider answers are complete, a move that makes a transaction `PAID`
is the commit of a handler that has read the payment and was answered `captured`, the
authorized amount, and the authorized currency. -/
theorem paid_corroborated {H : Host} {reqs : List Request}
    (hreqs : ∀ r ∈ reqs, r.settles = true) {w : World} {c : Pool World Stmt Call Answer Reply}
    (h : Pool.Reach machine (CompleteReads H) (Pool.start w (reqs.map (handler H))) c)
    (m : Move Answer Nat) {id : String} (hpaid : EntersPaid id c.store.db (c.step machine m).store.db) :
    ∃ i a ws k, m = .run i a ∧ c.threads[i]? = some (.stmt (.commit ws) k) ∧
      CorroboratedBy H w.db.authorizations c.trace i ws id := by
  obtain ⟨qs, hinf, hf⟩ := reach_informed hreqs h
  rcases Pool.step_store (M := machine) c m with hst | ⟨i, a, s, k, rfl, hi, hst⟩ | ⟨i, _, hst⟩ |
    ⟨d, _, hst⟩
  · exact absurd hpaid (not_entersPaid_of_txns (by rw [hst]))
  · rw [hst] at hpaid
    obtain ⟨q', hallow, _⟩ := hf.stmt hi
    rcases exec_txns hallow i c.store with hsame | ⟨ws, db', rfl, hdb, htxns⟩
    · exact absurd hpaid (not_entersPaid_of_txns hsame)
    · obtain ⟨l, c', hm, hl, hc', hne⟩ := entersPaid_update hallow.settles hdb htxns hpaid
      obtain ⟨call, answer, record, auth, hcall, hreads, hrec, hauth, hid, hacc⟩ :=
        hallow.evidence hm hc' hne
      obtain ⟨auth₀, hauth₀, hsame⟩ := hinf.read i auth hauth
      have hev := hinf.called i _ hcall
      have hcor := corroborates_of_accepts hrec hacc (hinf.complete i _ _ hev)
      refine ⟨i, a, ws, k, rfl, hi, l, c', call, answer, record, auth₀, hauth₀,
        mem_updates.mp hm, hl, ?_, hev, hreads, hrec, ?_⟩
      · rw [← hl, ← hid, hsame]
      · rw [hsame] at hcor
        exact hcor
  · exact absurd hpaid (not_entersPaid_of_txns (by rw [hst]; exact rollback_txns i c.store))
  · exact absurd hpaid (not_entersPaid_of_txns (by rw [hst]; rfl))

/-! ## One payment, two answers -/

section Sample

/-- The batch up to its commit, when the provider answers so. -/
def batchUpTo (answer : Answer) : Pool World Stmt Call Answer Reply :=
  (Sample.batches 1).run machine (List.replicate 8 (.run 0 answer))

/-- With the amount and the currency in the answer, the batch's commit is corroborated. -/
theorem paid_corroborated_whole :
    ∃ i a ws k, (Move.run 0 (Sample.payment "captured") : Move Answer Nat) = .run i a ∧
      (batchUpTo (Sample.payment "captured")).threads[i]? = some (.stmt (.commit ws) k) ∧
      CorroboratedBy (Sample.host false []) [Sample.authorization 100]
        (batchUpTo (Sample.payment "captured")).trace i ws "auth" := by
  have hcomplete : ∀ ev ∈ (batchUpTo (Sample.payment "captured")).trace,
      CompleteReads (Sample.host false []) [] ev := by
    intro ev hev
    cases ev with
    | call i c a st =>
      have hcalls : Pool.calls (batchUpTo (Sample.payment "captured")).trace =
          [(0, ⟨.razorpay "default" "key", .get_payment "pay"⟩, Sample.payment "captured")] := rfl
      have hmem := Pool.mem_calls.mpr ⟨st, hev⟩
      rw [hcalls] at hmem
      obtain ⟨rfl, rfl, rfl⟩ := by simpa using hmem
      intro record hrec _
      obtain rfl := Option.some.inj hrec
      exact ⟨⟨_, 100, rfl, rfl⟩, _, rfl, rfl⟩
    | _ => trivial
  refine paid_corroborated (by decide)
    (Pool.reach_of_throughout _ _ .start (Pool.throughout_of_forall hcomplete)) _
    ⟨⟨_, List.mem_singleton_self _, rfl, rfl⟩, ?_⟩
  intro t ht _
  obtain rfl := List.mem_singleton.mp ht
  exact fun h => by cases h

/-- An answer that only says `captured`. -/
def bareAnswer : Answer := .ok (.dict [("status", .str "captured")])

/-- It is enough for the worker: the transaction is committed as `PAID`, and no read of
the run says what was paid. -/
theorem paid_uncorroborated :
    Pool.Reach machine Pool.Free (Sample.batches 1) (batchUpTo bareAnswer) ∧
      EntersPaid "auth" (batchUpTo bareAnswer).store.db
        ((batchUpTo bareAnswer).step machine (.run 0 bareAnswer)).store.db ∧
      ∀ i ws, ¬ CorroboratedBy (Sample.host false []) [Sample.authorization 100]
        (batchUpTo bareAnswer).trace i ws "auth" := by
  refine ⟨Pool.reach_run _ _ _ _ .start, ⟨⟨_, List.mem_singleton_self _, rfl, rfl⟩, ?_⟩, ?_⟩
  · intro t ht _
    obtain rfl := List.mem_singleton.mp ht
    exact fun h => by cases h
  · rintro i ws ⟨l, c, call, answer, record, auth, _, _, _, _, hcall, _, hrec, _, hamount, _⟩
    have hcalls : Pool.calls (batchUpTo bareAnswer).trace =
        [(0, ⟨.razorpay "default" "key", .get_payment "pay"⟩, bareAnswer)] := rfl
    rw [hcalls] at hcall
    obtain ⟨rfl, rfl, rfl⟩ := by simpa using hcall
    obtain rfl := Option.some.inj hrec
    obtain ⟨amount, hget, hint⟩ := hamount
    obtain rfl : Json.null = amount := Except.ok.inj hget
    exact absurd hint (by simp [Json.isInteger])

end Sample

end Paari
