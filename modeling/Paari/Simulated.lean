import Paari.Custody
import Paari.Corroboration
import Paari.Reference
import Paari.Lib.Service

/-!
# The service over the reference provider

Where every organization settles through `ReferenceAutonomousProvider`, the answers to the
service's calls are those of its ledger, shared by all of them and by whoever else uses it in
the process. In every such run, in any order of steps, a consumption that makes a transaction
`PAID` does so for a payment that is captured on the ledger at the authorized amount and
currency, and stays so (`paid_on_ledger`).
-/

namespace Paari

open Atomic ReferenceAutonomousProvider

/-- The reference provider, as the service and everybody else in the process use it. -/
def reference (H : Host) : Service Ledger Call Answer Operation where
  serve c L := serve H L c.op
  other o L := (step H L o).1

/-- The call goes to an agentic adapter. -/
def Call.agentic (c : Call) : Bool :=
  match c.recipient with
  | .agentic _ => true
  | .razorpay _ _ => false

/-- The histories that a ledger answers, from `L₀` on. -/
abbrev OnLedger (H : Host) (L₀ : Ledger) (tr : List (Event World Stmt Call Answer)) (L : Ledger) : Prop :=
  (reference H).Served (fun c => c.agentic = true) L₀ tr L

variable {H : Host}

/-! ## What the ledger never takes back -/

theorem leads_keyed {L L' : Ledger} (h : (reference H).Leads L L') (hk : L.Keyed) : L'.Keyed :=
  h.keeps (fun c _ hk => hk.step (.perform c.op)) (fun o _ hk => hk.step o) hk

/-- A captured payment stays as it is. -/
theorem captured_after {p : Payment} (hp : p.status = .captured) (os : List Operation) :
    p.after H os = p := by
  unfold Payment.after
  split
  · rw [← hp]
  · rfl

theorem leads_captured {L L' : Ledger} (h : (reference H).Leads L L') (hk : L.Keyed) {ref : String}
    {p : Payment} (hl : L.payments.lookup ref = some p) (hp : p.status = .captured) :
    L'.payments.lookup ref = some p := by
  have hstep : ∀ (o : Operation) (L : Ledger), L.Keyed ∧ L.payments.lookup ref = some p →
      (step H L o).1.Keyed ∧ (step H L o).1.payments.lookup ref = some p := by
    rintro o L ⟨hk, hl⟩
    refine ⟨hk.step o, ?_⟩
    rw [step_known hk hl o, captured_after hp]
  exact (h.keeps (K := fun L => L.Keyed ∧ L.payments.lookup ref = some p)
    (fun c => hstep (.perform c.op)) hstep ⟨hk, hl⟩).2

/-! ## What a read of the ledger shows -/

/-- The service's test on what the ledger says of a payment. -/
theorem corroborated_record (auth : BoundedAuthorization) (p : Payment) :
    corroborated H auth p.record = .ok (decide (H.lower p.status.word = "captured" ∧
      p.amount = auth.amount_minor_units ∧ H.upper p.currency = H.upper auth.currency)) := by
  show (if H.lower p.status.word ≠ "captured" then pure false
    else if p.amount ≠ auth.amount_minor_units then pure false
    else pure (decide (H.upper p.currency = H.upper auth.currency)) : Except PyError Bool) = _
  by_cases hs : H.lower p.status.word = "captured"
  · by_cases ha : p.amount = auth.amount_minor_units
    · simp [hs, ha, pure, Except.pure]
    · simp [hs, ha, pure, Except.pure]
  · simp [hs, pure, Except.pure]

/-- The payment that an accepted read of the ledger shows is captured, at the authorized terms. -/
theorem accepted_captured {L : Ledger} {ref record : Json} {auth : BoundedAuthorization}
    (hlower : H.lower "authorized" ≠ "captured") (hrec : (get_payment ref L).toOption = some record)
    (hacc : corroborated H auth record = .ok true) :
    ∃ key p, ref = .str key ∧ L.payments.lookup key = some p ∧ p.status = .captured ∧
      p.amount = auth.amount_minor_units ∧ H.upper p.currency = H.upper auth.currency := by
  unfold get_payment at hrec
  cases hf : find ref L with
  | error e =>
    rw [hf] at hrec
    cases hrec
  | ok p =>
    rw [hf] at hrec
    obtain rfl := Option.some.inj hrec
    obtain ⟨key, rfl, hl⟩ := find_ok hf
    rw [corroborated_record] at hacc
    obtain ⟨hs, hamount, hcurrency⟩ := of_decide_eq_true (Except.ok.inj hacc)
    refine ⟨key, p, rfl, hl, ?_, hamount, hcurrency⟩
    cases hp : p.status with
    | captured => rfl
    | authorized =>
      rw [hp] at hs
      exact absurd hs hlower

/-! ## Whom a consumption calls -/

/-- Where its organization settles through an adapter, a consumption calls only that. -/
theorem consume_authorization_agentic (hauto : ∀ org, autonomous H org = true) (ctx : RequestContext)
    (id token : String) : (consume_authorization H ctx id token).Calls fun c => c.agentic = true := by
  refine calls_query fun auth => ?_
  split
  · trivial
  next auth =>
  refine Prog.calls_bind (p := pure _) trivial fun r => ?_
  split
  · trivial
  refine Prog.calls_bind (Prog.calls_of_quiet (authenticate_reads H ctx _ _)) fun r => ?_
  split
  · trivial
  refine Prog.calls_bind (Prog.calls_of_quiet (revalidate_execution_reads H auth)) fun r => ?_
  split
  · trivial
  next agent =>
  refine Prog.calls_bind (p := Handler.reserve id .consume) (fun _ => trivial) fun reserved => ?_
  split
  · exact Prog.calls_bind (p := Handler.rollback) (fun _ => trivial) fun _ => trivial
  refine calls_query fun txn => calls_commit (calls_query fun parent => calls_query fun llm => ?_)
  refine execute_calls fun op => ?_
  rw [executor, if_pos (hauto _)]
  rfl

/-! ## What every handler has read -/

/-- The desks show authorizations of `as`, and calls that the history has seen. -/
structure Seen (as : List BoundedAuthorization) (w : World) (qs : Nat → Desk)
    (tr : List (Event World Stmt Call Answer)) : Prop where
  terms : w.TermsFrom as
  read : ∀ i, ∀ a ∈ (qs i).terms, ∃ a₀ ∈ as, a.SameTerms a₀
  called : ∀ i, ∀ ca ∈ (qs i).calls, (i, ca) ∈ Pool.calls tr

namespace Seen

variable {as : List BoundedAuthorization} {w w' : World} {qs : Nat → Desk}
  {tr tr' : List (Event World Stmt Call Answer)} {i : Nat} {q' : Desk}

/-- Another world, another desk for one handler, and perhaps a longer history. -/
theorem update (h : Seen as w qs tr) (hw : w'.TermsFrom as)
    (hread : ∀ a ∈ q'.terms, ∃ a₀ ∈ as, a.SameTerms a₀) (hsub : Pool.calls tr ⊆ Pool.calls tr')
    (hcalled : ∀ ca ∈ q'.calls, (i, ca) ∈ Pool.calls tr') :
    Seen as w' (Function.update qs i q') tr' := by
  refine ⟨hw, fun j => ?_, fun j => ?_⟩
  · by_cases hj : j = i
    · subst hj
      rwa [Function.update_self]
    · rw [Function.update_of_ne hj]
      exact h.read j
  · by_cases hj : j = i
    · subst hj
      rwa [Function.update_self]
    · rw [Function.update_of_ne hj]
      exact fun ca hca => hsub (h.called j ca hca)

theorem stmt {s : Stmt} (h : Seen as w qs tr) (hs : (desk H).stmt (qs i) s w q') :
    Seen as (w.exec i s) (Function.update qs i q') (tr ++ [.stmt i s w]) := by
  obtain ⟨hallow, rfl⟩ := hs
  refine h.update (h.terms.exec hallow i) (fun a ha => ?_) ?_ ?_
  · rcases Desk.after_terms ha with ha | ha
    · exact h.read i a ha
    · exact h.terms a ha
  · rw [Pool.calls_stmt]
    exact fun _ hx => hx
  · rw [Desk.after_calls, Pool.calls_stmt]
    exact h.called i

theorem call {c : Call} {a : Answer} (h : Seen as w qs tr) (hc : (desk H).call (qs i) c a q') :
    Seen as w (Function.update qs i q') (tr ++ [.call i c a w]) := by
  obtain ⟨_, rfl⟩ := hc
  refine h.update h.terms (h.read i) ?_ fun ca hca => ?_
  · rw [Pool.calls_call]
    exact fun _ hx => List.mem_append_left _ hx
  · rw [Pool.calls_call]
    rcases List.mem_append.mp hca with hca | hca
    · exact List.mem_append_left _ (h.called i ca hca)
    · rw [List.mem_singleton.mp hca]
      exact List.mem_append_right _ (List.mem_singleton_self _)

theorem die {x : Option Call} (h : Seen as w qs tr) (role : Spend) :
    Seen as (w.rollback i) (Function.update qs i (Desk.empty role)) (tr ++ [.died i x]) := by
  refine h.update (h.terms.rollback i) (fun _ ha => absurd ha List.not_mem_nil) ?_
    (fun _ hca => absurd hca List.not_mem_nil)
  rw [Pool.calls_died]
  exact fun _ hx => hx

end Seen

/-- In every run the desks show what was there. -/
theorem reach_seen {reqs : List Request} (hreqs : ∀ r ∈ reqs, r.settles = true) {w : World}
    {c : Pool World Stmt Call Answer Reply}
    (h : Pool.Reach machine Pool.Free (Pool.start w (reqs.map (handler H))) c) :
    ∃ qs, Seen w.db.authorizations c.store qs c.trace ∧ c.Follows (desk H) (fun _ _ _ => True) qs := by
  have hstart : Seen w.db.authorizations w (fun i => Desk.empty (roleAt reqs i)) [] :=
    ⟨fun a ha => ⟨a, ha, .refl a⟩, fun _ _ ha => absurd ha List.not_mem_nil,
      fun _ _ hca => absurd hca List.not_mem_nil⟩
  refine Pool.sim ?_ ?_ ?_ ?_ hstart (start_follows H hreqs w) h
  · intro w' qs tr i s q' hJ _ hs
    exact hJ.stmt hs
  · intro w' qs tr i c a q' hJ _ hc
    exact hJ.call hc
  · intro w' qs tr i x hJ _ _
    exact ⟨Desk.empty .consume, hJ.die .consume⟩
  · intro w' qs tr d hJ
    exact ⟨hJ.terms, hJ.read, hJ.called⟩

/-- A consumption in the run calls only the adapter. -/
theorem consume_calls_agentic (hauto : ∀ org, autonomous H org = true) {reqs : List Request} {w : World}
    {c : Pool World Stmt Call Answer Reply}
    (h : Pool.Reach machine Pool.Free (Pool.start w (reqs.map (handler H))) c) {i : Nat}
    {ctx : RequestContext} {id token : String} (hreq : reqs[i]? = some (.consume ctx id token))
    {cl : Call} {a : Answer} (hmem : (i, cl, a) ∈ Pool.calls c.trace) : cl.agentic = true := by
  refine Pool.calls_of_kind (P := fun j cl => j = i → cl.agentic = true) (fun j p hp => ?_) h hmem rfl
  by_cases hj : j = i
  · subst hj
    rw [List.getElem?_map, hreq] at hp
    obtain rfl := Option.some.inj hp
    exact Prog.calls_mono (fun _ hc _ => hc) (consume_authorization_agentic hauto ctx id token)
  · exact Prog.calls_any (fun _ heq => absurd heq hj) p

/-- A move that makes a transaction `PAID` is the commit of a handler that has read its payment, and
was answered with a record that the code accepts for the authorization. -/
theorem paid_read {reqs : List Request} (hreqs : ∀ r ∈ reqs, r.settles = true) {w : World}
    {c : Pool World Stmt Call Answer Reply}
    (h : Pool.Reach machine Pool.Free (Pool.start w (reqs.map (handler H))) c) {m : Move Answer Nat}
    {id : String} (hpaid : EntersPaid id c.store.db (c.step machine m).store.db) :
    ∃ i a ws k, m = .run i a ∧ c.threads[i]? = some (.stmt (.commit ws) k) ∧
      ∃ l c' call answer record, ∃ auth ∈ w.db.authorizations,
        .updateTxn l c' ∈ ws ∧ l.authorization_id = id ∧ auth.authorization_id = id ∧
        c'.state = .PAID ∧ (i, call, answer) ∈ Pool.calls c.trace ∧ call.op.reads l c' ∧
        call.op.record answer = some record ∧ call.op.accepts H auth record := by
  obtain ⟨qs, hseen, hf⟩ := reach_seen hreqs h
  rcases Pool.step_store (M := machine) c m with hst | ⟨i, a, s, k, rfl, hi, hst⟩ | ⟨i, _, hst⟩ |
    ⟨d, _, hst⟩
  · exact absurd hpaid (not_entersPaid_of_txns (by rw [hst]))
  · rw [hst] at hpaid
    obtain ⟨q', hallow, _⟩ := hf.stmt hi
    rcases exec_txns hallow i c.store with hsame | ⟨ws, db', rfl, hdb, htxns⟩
    · exact absurd hpaid (not_entersPaid_of_txns hsame)
    obtain ⟨l, c', hmem, hl, hc', hne⟩ := entersPaid_update hallow.settles hdb htxns hpaid
    obtain ⟨call, answer, record, auth, hcall, hreads, hrec, hauth, hid, hacc⟩ :=
      hallow.evidence hmem hc' hne
    -- the code's test looks at the terms only, and these are as they were at the start
    obtain ⟨auth₀, hauth₀, hterms⟩ := hseen.read i auth hauth
    refine ⟨i, a, ws, k, rfl, hi, l, c', call, answer, record, auth₀, hauth₀, mem_updates.mp hmem,
      hl, ?_, hc', hseen.called i _ hcall, hreads, hrec, ?_⟩
    · rw [← hl, ← hid, hterms]
    · rw [hterms] at hacc
      exact hacc
  · exact absurd hpaid (not_entersPaid_of_txns (by rw [hst]; exact rollback_txns i c.store))
  · exact absurd hpaid (not_entersPaid_of_txns (by rw [hst]; rfl))

/-! ## Paid on the ledger -/

/-- The commit of `ws` makes the transaction of an authorization in `as` `PAID` for a payment that
the ledger `L` holds captured, at the authorized terms, and that no later ledger lacks. -/
def PaidFor (H : Host) (as : List BoundedAuthorization) (L : Ledger) (ws : List Write) (id : String) : Prop :=
  ∃ l c, ∃ auth ∈ as, ∃ ref p, .updateTxn l c ∈ ws ∧ l.authorization_id = id ∧
    auth.authorization_id = id ∧ c.state = .PAID ∧ c.razorpay_payment_id = some ref ∧
    p.status = .captured ∧ p.amount = auth.amount_minor_units ∧
    H.upper p.currency = H.upper auth.currency ∧
    ∀ L', (reference H).Leads L L' → L'.payments.lookup ref = some p

/-- **`PAID` on the ledger.** Where every organization settles through the reference provider:
in every run of settlement requests whose agentic calls the ledger answers, in any order of
steps and whatever else uses the ledger, a move of a consumption that makes a transaction `PAID`
does so for a payment captured at the authorized amount and currency, for good. -/
theorem paid_on_ledger (hlower : H.lower "authorized" ≠ "captured")
    (hauto : ∀ org, autonomous H org = true) {reqs : List Request}
    (hreqs : ∀ r ∈ reqs, r.settles = true) {w : World} {L₀ L : Ledger} (hk : L₀.Keyed)
    {c : Pool World Stmt Call Answer Reply}
    (h : Pool.Reach machine Pool.Free (Pool.start w (reqs.map (handler H))) c)
    (hL : OnLedger H L₀ c.trace L) {i : Nat} {a : Answer} {ctx : RequestContext} {auth_id token id : String}
    (hreq : reqs[i]? = some (.consume ctx auth_id token))
    (hpaid : EntersPaid id c.store.db (c.step machine (.run i a)).store.db) :
    ∃ ws k, c.threads[i]? = some (.stmt (.commit ws) k) ∧ PaidFor H w.db.authorizations L ws id := by
  obtain ⟨j, b, ws, k, hm, hi, l, c', call, answer, record, auth, hauth, hmem, hl, hid, hc', hevent,
    hreads, hrec, hacc⟩ := paid_read hreqs h hpaid
  obtain ⟨rfl, rfl⟩ := Move.run.inj hm
  -- the read went to the adapter, which the ledger answers
  obtain ⟨L₁, hbefore, rfl, hafter⟩ :=
    hL.answered hevent (consume_calls_agentic hauto h hreq hevent)
  have hk₁ := leads_keyed hbefore hk
  obtain ⟨recipient, op⟩ := call
  cases op with
  | agentic_get_payment ref =>
    obtain ⟨key, p, rfl, hp, hcap, hamount, hcurrency⟩ := accepted_captured hlower hrec hacc
    exact ⟨ws, k, hi, l, c', auth, hauth, key, p, hmem, hl, hid, hc',
      (Option.some.inj hreads).symm, hcap, hamount, hcurrency,
      fun L' hL' => leads_captured (hafter.trans hL') hk₁ hp hcap⟩
  | _ => cases hrec

/-! ## One authorization, paid on the ledger -/

namespace Sample

/-- The host that names the reference provider for every organization. -/
def referenceHost : Host :=
  { host false [] with
    environ := fun name =>
      if RazorpayAdapter.startsWith name "PAARI_AGENTIC_PROVIDER" then
        some "app.providers.reference_autonomous:ReferenceAutonomousProvider"
      else (host false []).environ name
    import_adapter := fun _ _ => some
      ⟨true, some ⟨some "simulated", none, some (some "in-memory://reference-autonomous")⟩⟩ }

theorem referenceHost_env {name : String}
    (h : RazorpayAdapter.startsWith name "PAARI_AGENTIC_PROVIDER" = true) :
    referenceHost.env name = "app.providers.reference_autonomous:ReferenceAutonomousProvider" := by
  show (if _ then _ else _ : Option String).getD "" = _
  rw [if_pos h]
  rfl

theorem referenceHost_autonomous (org : String) : autonomous referenceHost org = true := by
  have hspec : resolve_agentic_spec referenceHost org =
      "app.providers.reference_autonomous:ReferenceAutonomousProvider" := by
    unfold resolve_agentic_spec
    dsimp only
    split
    · refine referenceHost_env ?_
      show List.isPrefixOf _ (("PAARI_AGENTIC_PROVIDER__" ++ _ : String).toList) = true
      rw [String.toList_append, List.isPrefixOf_iff_prefix]
      exact List.IsPrefix.trans (by decide) (List.prefix_append _ _)
    · rfl
  unfold autonomous get_agentic_provider
  rw [hspec]
  rfl

/-- A consumption, and the ledger that answers it, after `n` steps. -/
def ledgerRun : Nat → Pool World Stmt Call Answer Reply × Ledger
  | 0 => (Pool.start mandatedWorld ([.consume ctx "auth" "agent"].map (handler referenceHost)), .empty)
  | n + 1 => (reference referenceHost).turn Call.agentic machine (.ok .null) 0 (ledgerRun n)

theorem ledgerRun_reach (n : Nat) : Pool.Reach machine Pool.Free
    (Pool.start mandatedWorld ([.consume ctx "auth" "agent"].map (handler referenceHost)))
    (ledgerRun n).1 := by
  induction n with
  | zero => exact .start
  | succ n ih => exact Service.turn_reach ih

theorem ledgerRun_served (n : Nat) :
    OnLedger referenceHost .empty (ledgerRun n).1.trace (ledgerRun n).2 := by
  induction n with
  | zero => exact .start
  | succ n ih => exact Service.turn_served ih

/-- Its last commit makes the transaction `PAID`, for a payment on the ledger. -/
theorem paid_on_ledger_consumed : ∃ ws k,
    (ledgerRun 27).1.threads[0]? = some (.stmt (.commit ws) k) ∧
      PaidFor referenceHost [mandated] (ledgerRun 27).2 ws "auth" := by
  have hpaid : EntersPaid "auth" (ledgerRun 27).1.store.db
      ((ledgerRun 27).1.step machine (.run 0 (.ok .null))).store.db := by
    unfold EntersPaid
    decide +kernel
  exact paid_on_ledger (by decide) referenceHost_autonomous (by decide) keyed_empty
    (ledgerRun_reach 27) (ledgerRun_served 27) rfl hpaid

end Sample

end Paari
