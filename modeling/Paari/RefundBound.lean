import Paari.Effects
import Paari.Server

/-!
# Refunds

`refund_authorization` reads `PAID`, asks the provider, and writes `REFUNDED`. Between
the read and the write the state still says `PAID` to everybody else, the provider
call carries no idempotency key, and the amount is the caller's. So an authorization is
refunded at most once, and within its amount, in the runs in which a refund asks the
provider only while the transaction is still committed as `PAID` and no accepted
refund is yet to be recorded, and nobody asks for more than was authorized.
-/

namespace Paari

open Atomic

/-! ## Refunds in a history -/

/-- The `i`-th request is a refund of the authorization. -/
def refundsFor (reqs : List Request) (id : String) (i : Nat) : Bool :=
  match reqs[i]? with
  | some (.refund _ id' _) => id' == id
  | _ => false

/-- The amount of a refund call. -/
def Op.refundAmount? : Op → Option Int
  | .refund _ amount => some amount
  | _ => none

/-- A refund of the authorization that the provider accepted: by whom, and how much. -/
def acceptedRefund (reqs : List Request) (id : String) :
    Event World Stmt Call Answer → Option (Nat × Int)
  | .call i c (.ok _) _ =>
    if refundsFor reqs id i then c.op.refundAmount?.map (i, ·) else none
  | _ => none

/-- The refunds of the authorization that the provider accepted. -/
def accepted (reqs : List Request) (id : String) (tr : List (Event World Stmt Call Answer)) :
    List (Nat × Int) := tr.filterMap (acceptedRefund reqs id)

/-- One event, and the handlers whose accepted refund is not recorded. -/
def recordStep (reqs : List Request) (id : String) (unrecorded : List Nat)
    (ev : Event World Stmt Call Answer) : List Nat :=
  match ev with
  | .stmt i (.commit ws) w =>
    if (w.db.applyAll ws).isOk then unrecorded.filter (· ≠ i) else unrecorded
  | _ => ((acceptedRefund reqs id ev).map Prod.fst).toList ++ unrecorded

/-- The handlers whose refund was accepted and who have not committed since. -/
def unrecorded (reqs : List Request) (id : String) (tr : List (Event World Stmt Call Answer)) :
    List Nat := tr.foldl (recordStep reqs id) []

/-- Runs in which a refund of the authorization asks the provider in its turn: the
transaction is committed as `PAID` at that moment, and every refund accepted before
is recorded. -/
def InTurn (reqs : List Request) (id : String) (tr : List (Event World Stmt Call Answer)) :
    Event World Stmt Call Answer → Prop
  | .call i c _ w => refundsFor reqs id i = true → c.op.refundAmount?.isSome = true →
    unrecorded reqs id tr = [] ∧ ∃ t ∈ w.db.txns, t.authorization_id = id ∧ t.state = .PAID
  | _ => True

instance (reqs : List Request) (id : String) (tr : List (Event World Stmt Call Answer)) :
    DecidablePred (InTurn reqs id tr)
  | .call _ _ _ _ => inferInstanceAs (Decidable (_ → _ → _))
  | .stmt _ _ _ => .isTrue trivial
  | .died _ _ => .isTrue trivial

/-! ## The refund handler as a protocol -/

inductive RefundStage
  | asking
  | owes
  | lost
  | done
deriving DecidableEq

/-- Where a refund stands: what was asked for, and the authorizations it has read. -/
structure Refunding where
  id : String
  asked : Option Int
  terms : List BoundedAuthorization
  stage : RefundStage

namespace Refunding

/-- After its commit. -/
def committed (q : Refunding) (ok : Bool) : Refunding :=
  { q with stage := if q.stage = .owes then (if ok then .done else .lost) else q.stage }

/-- It owes the transaction its `REFUNDED`, or may only take notes. -/
def MayWrite (q : Refunding) (l c : ProviderTransaction) : Prop :=
  if q.stage = .owes then l.authorization_id = q.id ∧ l.state ≠ .REFUNDED ∧ c.state = .REFUNDED
  else c.state = l.state

/-- The amount a refund may ask for: the request's, or the authorization's. -/
def Asks (q : Refunding) (amount : Int) : Prop :=
  q.asked = some amount ∨
    q.asked = none ∧ ∃ a ∈ q.terms, a.authorization_id = q.id ∧ amount = a.amount_minor_units

/-- Later in the same stage. -/
structure Ext (q q' : Refunding) : Prop where
  id : q'.id = q.id
  asked : q'.asked = q.asked
  terms : q.terms ⊆ q'.terms
  stage : q'.stage = q.stage

theorem Ext.refl (q : Refunding) : q.Ext q := ⟨rfl, rfl, fun _ h => h, rfl⟩

theorem Ext.trans {q q' q'' : Refunding} (h : q.Ext q') (h' : q'.Ext q'') : q.Ext q'' :=
  ⟨h'.id.trans h.id, h'.asked.trans h.asked, fun _ hx => h'.terms (h.terms hx),
    h'.stage.trans h.stage⟩

/-- After a read. -/
def looked (q : Refunding) (w : World) : Refunding :=
  { q with terms := q.terms ++ w.db.authorizations }

theorem ext_looked (q : Refunding) (w : World) : q.Ext (q.looked w) :=
  ⟨rfl, rfl, fun _ h => List.mem_append_left _ h, rfl⟩

/-- What the refund may run. -/
def Allows (q : Refunding) : Stmt → Prop
  | .select => True
  | .commit ws => q.stage ≠ .lost ∧
    ∃ pending l c, ws = pending ++ [.updateTxn l c] ∧ Session.Light pending ∧ q.MayWrite l c
  | _ => False

/-- Where it stands after a statement. -/
def after (q : Refunding) (s : Stmt) (w : World) : Refunding :=
  match s with
  | .select => q.looked w
  | .commit ws => q.committed (w.db.applyAll ws).isOk
  | _ => q

end Refunding

/-- One provider call, at most, and the commit it obliges to. -/
def refunding : Protocol World Stmt Call Answer Refunding where
  stmt q s w q' := q.Allows s ∧ q' = q.after s w
  call q c a q' := (q.stage = .asking ∧ ∃ amount, c.op.refundAmount? = some amount ∧ q.Asks amount) ∧
    q' = { q with stage := if a.isOk then .owes else .done }

/-! ## The handler follows it -/

section
variable {q : Refunding} {α β : Type} {Post : α → Refunding → Prop}

theorem refunding_query {f : DB → β} {k : β → Handler α}
    (h : ∀ w : World, (k (f w.db)).Conforms refunding Post (q.looked w)) :
    (Handler.query f >>= k).Conforms refunding Post q :=
  fun w => ⟨_, ⟨trivial, rfl⟩, h w⟩

theorem refunding_reads {R : β → Prop} {p : Handler β} {k : β → Handler α} (hp : p.Reads R)
    (hk : ∀ b q', q.Ext q' → R b → (k b).Conforms refunding Post q') :
    (p >>= k).Conforms refunding Post q := by
  have hstep : ∀ q s w, s = Stmt.select → ∃ q', refunding.stmt q s w q' ∧ q.Ext q' := by
    rintro q s w rfl
    exact ⟨q.looked w, ⟨trivial, rfl⟩, q.ext_looked w⟩
  exact Prog.conforms_seq
    (Prog.conforms_of_quiet Refunding.Ext.refl (fun _ _ _ => Refunding.Ext.trans) hstep hp)
    fun b q' hb => hk b q' hb.1 hb.2

theorem refunding_attempt {R : Except Reply β → Prop} {p : Handler (Except Reply β)}
    {k : β → Handler Reply} (hp : p.Reads R)
    (hk : ∀ b q', q.Ext q' → R (.ok b) → (k b).Conforms refunding (fun _ _ => True) q') :
    (Handler.attempt p k).Conforms refunding (fun _ _ => True) q := by
  refine refunding_reads hp fun r q' hq hr => ?_
  cases r with
  | error e => trivial
  | ok b => exact hk b q' hq hr

theorem refunding_commit {pending : Session} {row : Orm} {k : Unit → Handler Reply}
    (hq : q.stage ≠ .lost) (hp : pending.Light) (hw : q.MayWrite row.loaded row.cur)
    (hk : ∀ q', (k ()).Conforms refunding (fun _ _ => True) q') :
    (Handler.commit (pending ++ [row.write]) >>= k).Conforms refunding (fun _ _ => True) q := by
  exact Handler.conforms_commit fun w =>
    ⟨_, ⟨⟨hq, pending, _, _, rfl, hp, hw⟩, rfl⟩, fun _ _ => hk _⟩

/-- Access an expired row. -/
theorem refunding_loadTxn {id : String} {k : Orm → Handler Reply}
    (hk : ∀ t q', (k (Orm.fresh t)).Conforms refunding (fun _ _ => True) q') :
    (loadTxn id >>= k).Conforms refunding (fun _ _ => True) q := by
  exact conforms_loadTxn fun w => ⟨q.looked w, ⟨trivial, rfl⟩, fun t _ _ => hk t _⟩

theorem record_refund_refunding {H : Host} {pending : Session} {row : Orm} (hp : pending.Light)
    (auth : Option BoundedAuthorization) (amount : Int) (result : Json)
    (hstage : q.stage = .owes) (hid : row.loaded.authorization_id = q.id)
    (hpaid : row.loaded.state = .PAID) :
    (record_refund H pending row auth amount result).Conforms refunding (fun _ _ => True) q := by
  unfold record_refund
  dsimp only
  split
  · trivial
  · next moved hm =>
    refine refunding_query fun w₁ => refunding_query fun w₂ => ?_
    have hq₁ := (q.ext_looked w₁).trans (Refunding.ext_looked _ w₂)
    refine refunding_reads (record_audit_reads _ _ _) ?_
    rintro s q' hq₂ ⟨e, _, rfl⟩
    have hq := hq₁.trans hq₂
    obtain ⟨_, rfl⟩ := Orm.move_ok hm
    have hstage' : q'.stage = .owes := hq.stage.trans hstage
    refine refunding_commit (by rw [hstage']; simp) (hp.audit e) ?_ fun q'' => ?_
    · unfold Refunding.MayWrite
      rw [if_pos hstage']
      exact ⟨hid.trans hq.id.symm, by rw [hpaid]; simp, rfl⟩
    · refine refunding_loadTxn fun t q₃ => ?_
      split <;> trivial

theorem refund_request_refunding {H : Host} (provider : RazorpayAdapter) (payment_id : String)
    {amount : Int} (hstage : q.stage = .asking) (hasks : q.Asks amount) :
    (provider.refund H payment_id amount).Conforms refunding (fun a q' => q'.id = q.id ∧
      (a.isOk = true ∧ q'.stage = .owes ∨
        a.isOk = false ∧ (q'.stage = .asking ∨ q'.stage = .done))) q := by
  unfold RazorpayAdapter.refund
  split
  · exact ⟨rfl, .inr ⟨rfl, .inl hstage⟩⟩
  unfold RazorpayAdapter.request
  split
  · exact ⟨rfl, .inr ⟨rfl, .inl hstage⟩⟩
  · refine fun a => ⟨_, ⟨⟨hstage, amount, rfl, hasks⟩, rfl⟩, rfl, ?_⟩
    cases a with
    | ok r => exact .inl ⟨rfl, rfl⟩
    | error e => exact .inr ⟨rfl, .inr rfl⟩

theorem refund_authorization_refunding (H : Host) (ctx : RequestContext) (id : String)
    (req : RefundRequest) (hid : q.id = id) (hasked : q.asked = req.amount_minor_units)
    (hstage : q.stage = .asking) :
    (refund_authorization H ctx id req).Conforms refunding (fun _ _ => True) q := by
  refine refunding_query fun w => ?_
  split
  · trivial
  next txn hfind =>
  have hkey : txn.authorization_id = id := by simpa using List.find?_some hfind
  have hpure : (pure (resolve_session_token H req.session_token ctx.authorization) :
      Handler (Except Reply String)).Reads fun _ => True := trivial
  refine refunding_attempt hpure fun token q₁ hq₁ _ => ?_
  refine refunding_attempt (authenticate_reads H ctx token _) fun a q₂ hq₂ ha => ?_
  have hpending := (ha a rfl).light
  dsimp only
  split
  · trivial
  next hpaid =>
  split
  · trivial
  refine refunding_query fun w₃ => ?_
  split
  · trivial
  next hpos =>
  refine refunding_query fun w₄ => ?_
  split
  · trivial
  next provider _ =>
  have hq₃ := (((q.ext_looked w).trans hq₁).trans hq₂).trans (Refunding.ext_looked _ w₃)
  have hq := hq₃.trans (Refunding.ext_looked _ w₄)
  have hasks : ((q₂.looked w₃).looked w₄).Asks
      (refundAmount req (w₃.db.authorizations.find? fun a => a.authorization_id == id)) := by
    unfold Refunding.Asks refundAmount
    rw [hq.asked, hasked, hq.id, hid]
    cases hreq : req.amount_minor_units with
    | some n => exact .inl rfl
    | none =>
      refine .inr ⟨rfl, ?_⟩
      cases hauth : w₃.db.authorizations.find? fun a => a.authorization_id == id with
      | none =>
        refine absurd ?_ hpos
        simp [refundAmount, hreq, hauth]
      | some auth =>
        refine ⟨auth, ?_, by simpa using List.find?_some hauth, rfl⟩
        exact (Refunding.ext_looked _ w₄).terms
          (List.mem_append_right _ (List.mem_of_find?_eq_some hauth))
  refine Prog.conforms_seq (refund_request_refunding provider _ (hq.stage.trans hstage) hasks) ?_
  rintro result q₅ ⟨hid₅, hend⟩
  cases result with
  | error exc =>
    rcases hend with ⟨hbad, _⟩ | ⟨_, hstage₅⟩
    · exact absurd hbad (by simp [Except.isOk, Except.toBool])
    · have hne : q₅.stage ≠ .lost ∧ q₅.stage ≠ .owes := by
        rcases hstage₅ with h | h <;> rw [h] <;> simp
      refine refunding_commit hne.1 hpending ?_ fun _ => trivial
      unfold Refunding.MayWrite
      rw [if_neg hne.2]
      rfl
  | ok result =>
    rcases hend with ⟨_, hstage₅⟩ | ⟨hbad, _⟩
    · exact record_refund_refunding hpending _ _ result hstage₅
        (hkey.trans (hid.symm.trans (hq.id.symm.trans hid₅.symm))) (not_not.mp hpaid)
    · exact absurd hbad (by simp [Except.isOk, Except.toBool])

end

/-! ## Every run -/

theorem accepted_snoc (reqs : List Request) (id : String) (tr : List (Event World Stmt Call Answer))
    (ev : Event World Stmt Call Answer) :
    accepted reqs id (tr ++ [ev]) = accepted reqs id tr ++ (acceptedRefund reqs id ev).toList := by
  unfold accepted
  rw [List.filterMap_append]
  cases h : acceptedRefund reqs id ev <;> simp [h]

theorem unrecorded_snoc (reqs : List Request) (id : String)
    (tr : List (Event World Stmt Call Answer)) (ev : Event World Stmt Call Answer) :
    unrecorded reqs id (tr ++ [ev]) = recordStep reqs id (unrecorded reqs id tr) ev := by
  unfold unrecorded
  rw [List.foldl_append]
  rfl

/-- Every row of the authorization says `REFUNDED`. -/
def AllRefunded (id : String) (db : DB) : Prop :=
  ∀ t ∈ db.txns, t.authorization_id = id → t.state = .REFUNDED

/-- What holds throughout a run of refunds in their turn. -/
structure RefundInvariant (reqs : List Request) (id : String) (n : Int)
    (as : List BoundedAuthorization) (w : World) (qs : Nat → Refunding)
    (tr : List (Event World Stmt Call Answer)) : Prop where
  terms : w.TermsFrom as
  read : ∀ i, ∀ a ∈ (qs i).terms, ∃ a₀ ∈ as, a.SameTerms a₀
  names : ∀ i, refundsFor reqs id i = true → (qs i).id = id
  asked : ∀ i, refundsFor reqs id i = true → ∀ a, (qs i).asked = some a → a ≤ n
  owed : ∀ i ∈ unrecorded reqs id tr, (qs i).stage = .owes ∨ (qs i).stage = .lost
  recorded : ∀ ia ∈ accepted reqs id tr, ia.1 ∈ unrecorded reqs id tr ∨ AllRefunded id w.db
  mine : ∀ ia ∈ accepted reqs id tr, refundsFor reqs id ia.1 = true
  bound : accepted reqs id tr = [] ∨ ∃ i a, accepted reqs id tr = [(i, a)] ∧ a ≤ n

/-- A light transaction with one `UPDATE` changes each row by that `UPDATE`. -/
theorem light_update_txns {db db' : DB} {pending : Session} {l c : ProviderTransaction}
    (hp : pending.Light) (h : db.applyAll (pending ++ [.updateTxn l c]) = .ok db') :
    (∀ t' ∈ db'.txns, ∃ t ∈ db.txns, t' = t.revise [(l, c)]) ∧
      db'.authorizations = db.authorizations := by
  have hs : ∀ w ∈ pending ++ [Write.updateTxn l c], w.Settles := by
    intro w hw
    rcases List.mem_append.mp hw with hw | hw
    · exact hp.settles w hw
    · rw [List.mem_singleton.mp hw]
      exact .update _ _
  have hu : updates (pending ++ [.updateTxn l c]) = [(l, c)] := by simp [hp.updates]
  refine ⟨fun t' ht' => ?_, by rw [applyAll_frame hs h]⟩
  rcases applyAll_txns hs h t' ht' with ⟨t, ht, heq⟩ | ⟨t, us, hins, _⟩
  · exact ⟨t, ht, hu ▸ heq⟩
  · rcases List.mem_append.mp hins with hins | hins
    · rcases hp _ hins with ⟨e, he⟩ | ⟨p, hp⟩
      · exact absurd he (by simp)
      · exact absurd hp (by simp)
    · exact absurd (List.mem_singleton.mp hins) (by simp)

/-- The state of a row after one `UPDATE`. -/
theorem revise_one_state (l c t : ProviderTransaction) :
    (t.revise [(l, c)]).state =
      if t.authorization_id = l.authorization_id ∧ c.state ≠ l.state then c.state else t.state := by
  rw [ProviderTransaction.revise_cons, ProviderTransaction.revise_nil]
  by_cases hid : t.authorization_id = l.authorization_id
  · rw [if_pos (by simpa using hid)]
    show (if c.state = l.state then t.state else c.state) = _
    by_cases hc : c.state = l.state
    · simp [hc]
    · simp [hc, hid]
  · rw [if_neg (by simpa using hid)]
    simp [hid]

namespace RefundInvariant

variable {reqs : List Request} {id : String} {n : Int} {as : List BoundedAuthorization}
  {w : World} {qs : Nat → Refunding} {tr : List (Event World Stmt Call Answer)} {i : Nat}
  {q' : Refunding}

/-- A step that is not an accepted refund of this authorization. -/
theorem quiet {w' : World} {ev : Event World Stmt Call Answer}
    (h : RefundInvariant reqs id n as w qs tr) (hterms : w'.TermsFrom as)
    (hread : ∀ a ∈ q'.terms, ∃ a₀ ∈ as, a.SameTerms a₀) (hid : q'.id = (qs i).id)
    (hasked : q'.asked = (qs i).asked) (hacc : acceptedRefund reqs id ev = none)
    (hsub : ∀ j ∈ recordStep reqs id (unrecorded reqs id tr) ev, j ∈ unrecorded reqs id tr)
    (howed : i ∈ recordStep reqs id (unrecorded reqs id tr) ev →
      q'.stage = .owes ∨ q'.stage = .lost)
    (hrec : ∀ j ∈ unrecorded reqs id tr, refundsFor reqs id j = true →
      j ∈ recordStep reqs id (unrecorded reqs id tr) ev ∨ AllRefunded id w'.db)
    (hall : AllRefunded id w.db → AllRefunded id w'.db) :
    RefundInvariant reqs id n as w' (Function.update qs i q') (tr ++ [ev]) := by
  have haccepted : accepted reqs id (tr ++ [ev]) = accepted reqs id tr := by
    rw [accepted_snoc, hacc]
    exact List.append_nil _
  refine ⟨hterms, fun j => ?_, fun j hj => ?_, fun j hj => ?_, fun j hj => ?_, ?_, ?_, ?_⟩
  · by_cases hji : j = i
    · subst hji
      rwa [Function.update_self]
    · rw [Function.update_of_ne hji]
      exact h.read j
  · by_cases hji : j = i
    · subst hji
      rw [Function.update_self, hid]
      exact h.names j hj
    · rw [Function.update_of_ne hji]
      exact h.names j hj
  · by_cases hji : j = i
    · subst hji
      rw [Function.update_self, hasked]
      exact h.asked j hj
    · rw [Function.update_of_ne hji]
      exact h.asked j hj
  · rw [unrecorded_snoc] at hj
    by_cases hji : j = i
    · subst hji
      rw [Function.update_self]
      exact howed hj
    · rw [Function.update_of_ne hji]
      exact h.owed j (hsub j hj)
  · rw [haccepted, unrecorded_snoc]
    intro ia hia
    rcases h.recorded ia hia with hr | hr
    · exact hrec ia.1 hr (h.mine ia hia)
    · exact .inr (hall hr)
  · rw [haccepted]
    exact h.mine
  · rw [haccepted]
    exact h.bound

theorem stmt {s : Stmt} (h : RefundInvariant reqs id n as w qs tr)
    (hs : refunding.stmt (qs i) s w q') :
    RefundInvariant reqs id n as (w.exec i s) (Function.update qs i q') (tr ++ [.stmt i s w]) := by
  obtain ⟨hallow, rfl⟩ := hs
  cases s with
  | select =>
    refine h.quiet h.terms (fun a ha => ?_) rfl rfl rfl (fun j hj => hj) (h.owed i)
      (fun j hj _ => .inl hj) (fun hall => hall)
    rcases List.mem_append.mp ha with ha | ha
    · exact h.read i a ha
    · exact h.terms a ha
  | commit ws =>
    obtain ⟨hlost, pending, l, c, rfl, hp, hmay⟩ := hallow
    cases hdb : w.db.applyAll (pending ++ [.updateTxn l c]) with
    | error e =>
      have hexec : w.exec i (.commit (pending ++ [.updateTxn l c])) = w.rollback i := by
        simp [World.exec, World.commit, hdb]
      have hstep : recordStep reqs id (unrecorded reqs id tr)
          (.stmt i (.commit (pending ++ [.updateTxn l c])) w) = unrecorded reqs id tr := by
        simp [recordStep, hdb, Except.isOk, Except.toBool]
      rw [hexec]
      refine h.quiet (h.terms.rollback i) (h.read i) rfl rfl rfl (by rw [hstep]; exact fun j hj => hj)
        ?_ (by rw [hstep]; exact fun j hj _ => .inl hj) ?_
      · rw [hstep]
        intro hi
        rcases h.owed i hi with ho | ho
        · right
          simp [Refunding.after, Refunding.committed, hdb, ho, Except.isOk, Except.toBool]
        · exact absurd ho hlost
      · intro hall t ht hid
        rw [rollback_txns] at ht
        exact hall t ht hid
    | ok db' =>
      obtain ⟨htxns, hauths⟩ := light_update_txns hp hdb
      have hexec : w.exec i (.commit (pending ++ [.updateTxn l c])) =
          { w with db := db' }.release i := by
        simp [World.exec, World.commit, hdb]
      have hstep : recordStep reqs id (unrecorded reqs id tr)
          (.stmt i (.commit (pending ++ [.updateTxn l c])) w) =
          (unrecorded reqs id tr).filter (· ≠ i) := by
        simp [recordStep, hdb, Except.isOk, Except.toBool]
      rw [hexec]
      have hterms : ({ w with db := db' }.release i).TermsFrom as := by
        unfold World.TermsFrom
        rw [release_db]
        show ∀ a ∈ db'.authorizations, _
        rw [hauths]
        exact h.terms
      refine h.quiet hterms (h.read i) rfl rfl rfl ?_ ?_ ?_ ?_
      · rw [hstep]
        exact fun j hj => List.mem_of_mem_filter hj
      · rw [hstep]
        intro hi
        exact absurd (List.mem_filter.mp hi).2 (by simp)
      · -- whoever committed, if it owed the refund, has recorded it
        rw [hstep]
        intro j hj hmine
        by_cases hji : j = i
        · subst hji
          have howes : (qs j).stage = .owes := (h.owed j hj).resolve_right hlost
          unfold Refunding.MayWrite at hmay
          rw [if_pos howes] at hmay
          obtain ⟨hlid, hlstate, hcstate⟩ := hmay
          right
          intro t' ht' hid
          obtain ⟨t, ht, rfl⟩ := htxns t' ht'
          rw [revise_one_state, if_pos]
          · exact hcstate
          · refine ⟨?_, fun hc => hlstate (hc.symm.trans hcstate)⟩
            rw [hlid, h.names j hmine]
            simpa using hid
        · exact .inl (List.mem_filter.mpr ⟨hj, by simpa using hji⟩)
      · intro hall t' ht' hid
        obtain ⟨t, ht, rfl⟩ := htxns t' ht'
        rw [revise_one_state]
        split
        · next hboth =>
          unfold Refunding.MayWrite at hmay
          split at hmay
          · exact hmay.2.2
          · exact absurd hmay hboth.2
        · exact hall t ht (by simpa using hid)
  | _ => exact hallow.elim

theorem call {c : Call} {a : Answer} (h : RefundInvariant reqs id n as w qs tr)
    (has : ∀ a ∈ as, a.authorization_id = id → a.amount_minor_units = n)
    (hc : refunding.call (qs i) c a q') (hturn : InTurn reqs id tr (.call i c a w)) :
    RefundInvariant reqs id n as w (Function.update qs i q') (tr ++ [.call i c a w]) := by
  obtain ⟨⟨hstage, amount, hop, hasks⟩, rfl⟩ := hc
  have hnotmine : i ∉ unrecorded reqs id tr := by
    intro hi
    rcases h.owed i hi with ho | ho <;> rw [hstage] at ho <;> exact absurd ho (by simp)
  by_cases hmine : refundsFor reqs id i = true
  · cases a with
    | error e =>
      exact h.quiet h.terms (h.read i) rfl rfl rfl (fun j hj => hj)
        (fun hi => absurd hi hnotmine) (fun j hj _ => .inl hj) (fun hall => hall)
    | ok r =>
      -- in its turn: nothing was accepted before
      obtain ⟨hnone, t, ht, htid, hpaid⟩ := hturn hmine (by rw [hop]; rfl)
      have hempty : accepted reqs id tr = [] := by
        by_contra hne
        obtain ⟨ia, hia⟩ := List.exists_mem_of_ne_nil _ hne
        rcases h.recorded ia hia with hr | hr
        · rw [hnone] at hr
          exact absurd hr List.not_mem_nil
        · exact absurd (hpaid.symm.trans (hr t ht htid)) (by simp)
      have hacc : acceptedRefund reqs id (.call i c (.ok r) w) = some (i, amount) := by
        simp [acceptedRefund, hmine, hop]
      have hle : amount ≤ n := by
        rcases hasks with hask | ⟨_, b, hb, hbid, rfl⟩
        · exact h.asked i hmine amount hask
        · obtain ⟨b₀, hb₀, hsame⟩ := h.read i b hb
          have hid₀ : b₀.authorization_id = id := by
            rw [hsame, h.names i hmine] at hbid
            exact hbid
          rw [hsame]
          exact le_of_eq (has b₀ hb₀ hid₀)
      have hstep : unrecorded reqs id (tr ++ [.call i c (.ok r) w]) = [i] := by
        rw [unrecorded_snoc, hnone]
        simp [recordStep, hacc]
      have haccepted : accepted reqs id (tr ++ [.call i c (.ok r) w]) = [(i, amount)] := by
        rw [accepted_snoc, hempty, hacc]
        rfl
      refine ⟨h.terms, fun j => ?_, fun j hj => ?_, fun j hj => ?_, fun j hj => ?_, ?_, ?_, ?_⟩
      · by_cases hji : j = i
        · subst hji
          rw [Function.update_self]
          exact h.read j
        · rw [Function.update_of_ne hji]
          exact h.read j
      · by_cases hji : j = i
        · subst hji
          rw [Function.update_self]
          exact h.names j hj
        · rw [Function.update_of_ne hji]
          exact h.names j hj
      · by_cases hji : j = i
        · subst hji
          rw [Function.update_self]
          exact h.asked j hj
        · rw [Function.update_of_ne hji]
          exact h.asked j hj
      · rw [hstep] at hj
        obtain rfl := List.mem_singleton.mp hj
        rw [Function.update_self]
        exact .inl rfl
      · rw [haccepted, hstep]
        intro ia hia
        rw [List.mem_singleton.mp hia]
        exact .inl (List.mem_singleton_self _)
      · rw [haccepted]
        intro ia hia
        rw [List.mem_singleton.mp hia]
        exact hmine
      · exact .inr ⟨i, amount, haccepted, hle⟩
  · have hacc : acceptedRefund reqs id (.call i c a w) = none := by
      cases a <;> simp [acceptedRefund, hmine]
    have hstep : recordStep reqs id (unrecorded reqs id tr) (.call i c a w) =
        unrecorded reqs id tr := by
      simp [recordStep, hacc]
    refine h.quiet h.terms (h.read i) rfl rfl hacc ?_ ?_ ?_ fun hall => hall
    · rw [hstep]
      exact fun j hj => hj
    · rw [hstep]
      exact fun hi => absurd hi hnotmine
    · rw [hstep]
      exact fun j hj _ => .inl hj

theorem die {x : Option Call} (h : RefundInvariant reqs id n as w qs tr) :
    RefundInvariant reqs id n as (w.rollback i)
      (Function.update qs i { qs i with stage := .lost }) (tr ++ [.died i x]) :=
  h.quiet (h.terms.rollback i) (h.read i) rfl rfl rfl (fun j hj => hj) (fun _ => .inr rfl)
    (fun j hj _ => .inl hj) fun hall t ht hid => by
      rw [rollback_txns] at ht
      exact hall t ht hid

end RefundInvariant

/-! ## The bound -/

/-- A request before it has done anything. -/
def Request.refunding : Request → Refunding
  | .refund _ id req => ⟨id, req.amount_minor_units, [], .asking⟩
  | _ => ⟨"", none, [], .done⟩

/-- A refund of the authorization, and what it asks for. -/
theorem refundsFor_spec {reqs : List Request} {id : String} {i : Nat}
    (h : refundsFor reqs id i = true) :
    ∃ ctx req, reqs[i]? = some (.refund ctx id req) := by
  unfold refundsFor at h
  split at h
  · next ctx id' req heq =>
    obtain rfl : id' = id := by simpa using h
    exact ⟨ctx, req, heq⟩
  · exact absurd h (by simp)

/-- The phase of the `i`-th request when the run starts. -/
def refundingAt (reqs : List Request) (i : Nat) : Refunding :=
  (reqs[i]?.map Request.refunding).getD ⟨"", none, [], .done⟩

theorem start_refunding {H : Host} {reqs : List Request}
    (hreqs : ∀ r ∈ reqs, ∃ ctx id req, r = .refund ctx id req) (w : World) :
    (Pool.start w (reqs.map (handler H))).Follows refunding (fun _ _ _ => True)
      (refundingAt reqs) := by
  intro i p hi
  have hmap : (reqs.map (handler H))[i]? = some p := hi
  rw [List.getElem?_map, Option.map_eq_some_iff] at hmap
  obtain ⟨r, hr, rfl⟩ := hmap
  obtain ⟨ctx, id, req, rfl⟩ := hreqs r (List.mem_of_getElem? hr)
  have hq : refundingAt reqs i = ⟨id, req.amount_minor_units, [], .asking⟩ := by
    simp [refundingAt, hr, Request.refunding]
  rw [hq]
  exact refund_authorization_refunding H ctx id req rfl rfl rfl

/-- **Refund bound.** In a run of refund requests in which no request asks for more
than was authorized, and in which a refund asks the provider only while its
transaction is committed as `PAID` and every refund accepted before is recorded, the
provider accepts at most one refund of the authorization, and so never more than its
amount. -/
theorem refund_bound {H : Host} {reqs : List Request}
    (hreqs : ∀ r ∈ reqs, ∃ ctx id req, r = .refund ctx id req) {w : World} {id : String} {n : Int}
    (hn : 0 ≤ n)
    (hauth : ∀ a ∈ w.db.authorizations, a.authorization_id = id → a.amount_minor_units = n)
    (hask : ∀ ctx req, .refund ctx id req ∈ reqs → ∀ a, req.amount_minor_units = some a → a ≤ n)
    {c : Pool World Stmt Call Answer Reply}
    (h : Pool.Reach machine (InTurn reqs id) (Pool.start w (reqs.map (handler H))) c) :
    (accepted reqs id c.trace).length ≤ 1 ∧ ((accepted reqs id c.trace).map Prod.snd).sum ≤ n := by
  have hstart : RefundInvariant reqs id n w.db.authorizations w (refundingAt reqs) [] := by
    refine ⟨fun a ha => ⟨a, ha, .refl a⟩, fun i a ha => ?_, fun i hi => ?_, fun i hi a ha => ?_,
      fun i hi => absurd hi List.not_mem_nil, fun ia hia => absurd hia List.not_mem_nil,
      fun ia hia => absurd hia List.not_mem_nil, .inl rfl⟩
    · unfold refundingAt at ha
      cases hr : reqs[i]? with
      | none => rw [hr] at ha; exact absurd ha List.not_mem_nil
      | some r => rw [hr] at ha; cases r <;> exact absurd ha List.not_mem_nil
    · obtain ⟨ctx, req, hr⟩ := refundsFor_spec hi
      simp [refundingAt, hr, Request.refunding]
    · obtain ⟨ctx, req, hr⟩ := refundsFor_spec hi
      refine hask ctx req (List.mem_of_getElem? hr) a ?_
      simpa [refundingAt, hr, Request.refunding] using ha
  obtain ⟨qs, hJ, _⟩ := Pool.sim (J := RefundInvariant reqs id n w.db.authorizations)
    (fun _ _ _ _ _ _ hJ _ hs => hJ.stmt hs) (fun _ _ _ _ _ _ _ hJ hok hc => hJ.call hauth hc hok)
    (fun _ _ _ _ _ hJ _ _ => ⟨_, hJ.die⟩)
    (fun _ _ _ _ hJ => ⟨hJ.terms, hJ.read, hJ.names, hJ.asked, hJ.owed, hJ.recorded, hJ.mine,
      hJ.bound⟩)
    hstart (start_refunding hreqs w) h
  rcases hJ.bound with hb | ⟨i, a, hb, ha⟩
  · rw [hb]
    exact ⟨by simp, hn⟩
  · rw [hb]
    exact ⟨by simp, by simpa using ha⟩

/-- Refunds of one paid authorization of 100, each for the whole of it. -/
def wholeRefunds (n : Nat) : List Request :=
  List.replicate n (.refund Sample.ctx "auth" ⟨"agent", none⟩)

def paidWorld : World :=
  Sample.world (Sample.db [Sample.authorization 100]
    [Sample.txn .PAID (some "order") (some "pay") none])

def refundPool (n : Nat) : Pool World Stmt Call Answer Reply :=
  Pool.start paidWorld ((wholeRefunds n).map (handler (Sample.host false [])))

/-- The provider's record of a refund. -/
def refundRecord : Answer := .ok (.dict [("id", .str "rfnd")])

theorem paid_amount : ∀ a ∈ paidWorld.db.authorizations, a.authorization_id = "auth" →
    a.amount_minor_units = 100 :=
  fun _ ha _ => List.mem_singleton.mp ha ▸ rfl

/-- One refund, to its end. -/
def oneRefund : Pool World Stmt Call Answer Reply :=
  (refundPool 1).run machine (List.replicate 14 (.run 0 refundRecord))

theorem refund_bound_once : accepted (wholeRefunds 1) "auth" oneRefund.trace = [(0, 100)] ∧
    (accepted (wholeRefunds 1) "auth" oneRefund.trace).length ≤ 1 ∧
    ((accepted (wholeRefunds 1) "auth" oneRefund.trace).map Prod.snd).sum ≤ 100 := by
  have hturn : Pool.Throughout (InTurn (wholeRefunds 1) "auth") oneRefund.trace :=
    Pool.throughout_of_take (by decide)
  refine ⟨rfl, refund_bound (H := Sample.host false []) ?_ (by decide) paid_amount ?_
    (Pool.reach_of_throughout _ _ .start hturn)⟩
  · exact fun r hr => ⟨_, _, _, List.eq_of_mem_replicate hr⟩
  · intro ctx req hreq a ha
    obtain ⟨rfl, rfl⟩ : ctx = Sample.ctx ∧ req = ⟨"agent", none⟩ := by
      simpa [wholeRefunds] using hreq
    exact absurd ha (by simp)

/-- Both ask the provider before either records its answer. -/
def twoRefunds : Pool World Stmt Call Answer Reply :=
  ((refundPool 2).run machine (List.replicate 9 (.run 0 refundRecord))).run machine
    (List.replicate 9 (.run 1 refundRecord))

/-- Two refunds of the same 100 are accepted. -/
theorem refunded_twice :
    Pool.Reach machine Pool.Free (refundPool 2) twoRefunds ∧
      (∀ a ∈ paidWorld.db.authorizations, a.authorization_id = "auth" →
        a.amount_minor_units = 100) ∧
      accepted (wholeRefunds 2) "auth" twoRefunds.trace = [(0, 100), (1, 100)] ∧
      ¬ (accepted (wholeRefunds 2) "auth" twoRefunds.trace).length ≤ 1 ∧
      ¬ ((accepted (wholeRefunds 2) "auth" twoRefunds.trace).map Prod.snd).sum ≤ 100 :=
  ⟨Pool.reach_run _ _ _ _ (Pool.reach_run _ _ _ _ .start), paid_amount, rfl, by decide, by decide⟩

end Paari
