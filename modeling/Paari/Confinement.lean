import Paari.Broker

/-!
# What a broker lets through

Neither the model nor the server is trusted: tool names, arguments and answers are
arbitrary. `execute_does` says once what a tool call can do to the broker and to the
outside; the invariant `Within` relates the pending map, the known transactions and the
counter to the requests made so far. From it follow that every request is confined
(`broker_confined`), and how many authorizations a run can have spent (`spends_bounded`).
-/

namespace Paari

/-! ## What answers say -/

/-- The authorization an `allow` body returns. -/
def allowedId (T : Text) : Json → Option String
  | .dict kvs =>
    if pyLower T ((kvs.lookup "decision").getD (.str "")) = "allow" then
      match (kvs.lookup "authorization").getD .null with
      | .dict auth => some (pyStr T ((auth.lookup "authorization_id").getD .null))
      | _ => none
    else none
  | _ => none

/-- The answer is a body that allows and returns `id`. -/
def ClientAnswer.Allows (T : Text) (id : String) : ClientAnswer → Prop
  | .body x => allowedId T x = some id
  | _ => False

instance (T : Text) (id : String) : DecidablePred (ClientAnswer.Allows T id)
  | .body x => inferInstanceAs (Decidable (allowedId T x = some id))
  | .protocolError _ _ => isFalse False.elim
  | .raised _ => isFalse False.elim

/-- The answer is a JSON object. -/
def ClientAnswer.isObject : ClientAnswer → Bool
  | .body x => x.isDict
  | _ => false

/-! ## What one tool call does -/

/-- A proposal within the broker's authority, with identifiers of the broker's own making. -/
structure PaariBroker.Vets (b : PaariBroker) (hex : String) (req : IntentBody) : Prop where
  positive : 0 < req.amount_minor_units
  limit : req.amount_minor_units ≤ b.max_amount_minor_units
  currency : req.currency = b.currency
  transaction : req.transaction_id = "TXN-llm-" ++ slice 8 hex
  idempotency : req.idempotency_key = "idem-" ++ req.transaction_id

/-- What a tool call can do, by the request it makes. -/
inductive PaariBroker.Does (T : Text) (b : PaariBroker) (hex : String) (answer : ClientAnswer) :
    PaariBroker → Option ClientCall → Prop
  | silent : Does T b hex answer b none
  | mandate : Does T b hex answer b (some .get_active_mandate)
  | propose {req : IntentBody} (h : b.Vets hex req) :
    Does T b hex answer { b with known_transactions := req.transaction_id :: b.known_transactions }
      (some (.payment_intent req))
  | allowed {req : IntentBody} {p : PendingPayment} (h : b.Vets hex req)
      (hid : answer.Allows T p.authorization_id) :
    Does T b hex answer
      { b with
        known_transactions := req.transaction_id :: b.known_transactions
        pending := assign p.authorization_id p b.pending }
      (some (.payment_intent req))
  | confirm {id : String} {p : PendingPayment} (hleft : b.consumes < b.max_consumes)
      (hp : b.pending.lookup id = some p) :
    Does T b hex answer
      { b with
        pending := b.pending.filter fun kv => kv.1 != id
        consumes := if answer.isObject then b.consumes + 1 else b.consumes }
      (some (.consume p.authorization_id))
  | proof {transaction_id : String} (h : transaction_id ∈ b.known_transactions) :
    Does T b hex answer b (some (.proof_bundle transaction_id))

section
variable {T : Text} {b : PaariBroker} {hex : String} {answer : ClientAnswer}

/-- A computation that returned went through each of its steps. -/
theorem ok_of_bind {ε α β : Type} {x : Except ε α} {f : α → Except ε β} {r : β}
    (h : x >>= f = .ok r) : ∃ a, x = .ok a ∧ f a = .ok r := by
  cases x with
  | error e => exact absurd h (by simp [bind, Except.bind])
  | ok a => exact ⟨a, rfl, h⟩

theorem ok_of_get {x v : Json} {k : String} (h : x.get k = .ok v) :
    ∃ kvs, x = .dict kvs ∧ (kvs.lookup k).getD .null = v := by
  cases x with
  | dict kvs => exact ⟨kvs, rfl, Except.ok.inj h⟩
  | _ => exact absurd h (by simp [Json.get, Json.getD])

/-- What becomes pending was allowed. -/
theorem allowedId_of_reply {body : Json} {req : IntentBody} {reply : Json} {p : PendingPayment}
    (h : PaariBroker.proposal_reply T body req = .ok (reply, some p)) :
    allowedId T body = some p.authorization_id := by
  unfold PaariBroker.proposal_reply at h
  obtain ⟨decision, hdecision, h⟩ := ok_of_bind h
  obtain ⟨reasons, -, h⟩ := ok_of_bind h
  obtain ⟨reasons, -, h⟩ := ok_of_bind h
  dsimp only at h
  split at h
  · obtain ⟨mfa_required, -, h⟩ := ok_of_bind h
    exact absurd h (by simp [pure, Except.pure])
  next hallow =>
  obtain ⟨authorization, hauth, h⟩ := ok_of_bind h
  obtain ⟨id, hid, h⟩ := ok_of_bind h
  split at h
  · exact absurd h (by simp [pure, Except.pure])
  next hne =>
  obtain ⟨expires_at, -, h⟩ := ok_of_bind h
  have hp : p.authorization_id = pyStr T (id.orElse (.str "")) := by
    simp only [pure, Except.pure, Except.ok.injEq, Prod.mk.injEq, Option.some.injEq] at h
    rw [← h.2]
  obtain ⟨kvs, rfl, hlookup⟩ := ok_of_get hauth
  obtain ⟨auth, hdict, hid⟩ := ok_of_get hid
  have htruthy : id.truthy = true := by
    by_contra hfalse
    rw [Json.orElse, if_neg hfalse] at hne
    exact hne rfl
  have hdec : (kvs.lookup "decision").getD (.str "") = decision := Except.ok.inj hdecision
  -- an authorization with an id is no empty object
  have hauthorization : authorization = .dict auth := by
    unfold Json.orEmpty Json.orElse at hdict
    split at hdict
    · exact hdict
    · obtain rfl : [] = auth := by simpa using hdict
      rw [← hid] at htruthy
      exact absurd htruthy (by decide)
  unfold allowedId
  dsimp only
  rw [if_pos (by rw [hdec]; simpa using hallow), hlookup, hauthorization, hp, Json.orElse, if_pos htruthy]
  dsimp only
  rw [hid]

/-- A vetted proposal, whatever is answered. -/
theorem proposal_does (req : IntentBody) (h : b.Vets hex req) :
    let o := PaariBroker.request T
      { b with known_transactions := req.transaction_id :: b.known_transactions } (.payment_intent req)
      answer (PaariBroker.proposal_done T
        { b with known_transactions := req.transaction_id :: b.known_transactions } req)
    b.Does T hex answer o.broker o.sent := by
  unfold PaariBroker.request
  split
  · next body =>
    dsimp only
    unfold PaariBroker.proposal_done
    split
    · exact .propose h
    split
    · exact .propose h
    · exact .propose h
    · next p hreply => exact .allowed h (allowedId_of_reply hreply)
  · exact .propose h
  · exact .propose h

/-- **What a tool call can do.** -/
theorem execute_does (T : Text) (b : PaariBroker) (name : String) (args : Json) (hex : String)
    (answer : ClientAnswer) :
    b.Does T hex answer (b.execute T name args hex answer).broker
      (b.execute T name args hex answer).sent := by
  unfold PaariBroker.execute
  split
  · exact .silent
  next clean _ =>
  unfold PaariBroker.dispatch
  split
  · exact .silent
  · -- the mandate, whatever the answer
    unfold PaariBroker.tool_get_payment_authority
    split
    · exact .silent
    split
    · exact .mandate
    · unfold PaariBroker.request
      split <;> exact .mandate
  · unfold PaariBroker.tool_propose_payment
    split
    · exact .silent
    next hpos =>
    split
    · exact .silent
    next hlimit =>
    split
    · exact .silent
    exact proposal_does _ ⟨Int.not_le.mp hpos, Int.not_lt.mp hlimit, rfl, rfl, rfl⟩
  · unfold PaariBroker.tool_confirm_payment
    split
    · exact .silent
    next hleft =>
    split
    · exact .silent
    next p hp =>
    have hdoes := @PaariBroker.Does.confirm T b hex answer _ _ (Int.not_le.mp hleft) hp
    unfold PaariBroker.request
    split
    · next body =>
      cases body <;> exact hdoes
    · exact hdoes
    · exact hdoes
  · unfold PaariBroker.tool_read_proof
    split
    · exact .silent
    next hknown =>
    have hdoes := @PaariBroker.Does.proof T b hex answer _ (Decidable.not_not.mp hknown)
    unfold PaariBroker.request
    split
    · dsimp only
      split <;> exact hdoes
    · exact hdoes
    · exact hdoes
  · exact .silent

end

/-! ## The log of a run -/

/-- A proposal whose answer allowed it and returned `id`. -/
def Outgoing.Grants (T : Text) (id : String) (e : Outgoing) : Prop :=
  match e.call with
  | .payment_intent _ => e.turn.answer.Allows T id
  | _ => False

instance (T : Text) (id : String) (e : Outgoing) : Decidable (e.Grants T id) := by
  unfold Outgoing.Grants
  split <;> infer_instance

/-- A consume of `id`. -/
def Outgoing.consumes (id : String) (e : Outgoing) : Bool :=
  match e.call with
  | .consume id' => id' == id
  | _ => false

/-- A consume that was answered with an object: it succeeded, and the broker knows. -/
def Outgoing.succeeds (e : Outgoing) : Bool :=
  match e.call with
  | .consume _ => e.turn.answer.isObject
  | _ => false

/-- A consume on which the server spent the authorization. -/
def Outgoing.spends (e : Outgoing) : Bool :=
  match e.call with
  | .consume _ => e.turn.spent
  | _ => false

/-- The request proposed the transaction. -/
def Outgoing.Proposes (transaction_id : String) (e : Outgoing) : Prop :=
  ∃ req, e.call = .payment_intent req ∧ req.transaction_id = transaction_id

/-- How often the answers so far returned `id`. -/
def grants (T : Text) (id : String) (log : List Outgoing) : Nat :=
  log.countP fun e => decide (e.Grants T id)

/-- How often `id` was sent to be consumed. -/
def consumesOf (id : String) (log : List Outgoing) : Nat := log.countP (Outgoing.consumes id)

def successes (log : List Outgoing) : Nat := log.countP Outgoing.succeeds

/-- A request within the authority of a broker that has made the requests `log`: what the
three kinds of request may carry. -/
def ClientCall.Confined (T : Text) (b : PaariBroker) (log : List Outgoing) (hex : String) :
    ClientCall → Prop
  | .get_active_mandate => False
  | .payment_intent req => b.Vets hex req
  | .consume id => consumesOf id log < grants T id log ∧ (successes log : Int) < b.max_consumes
  | .proof_bundle transaction_id => ∃ e ∈ log, e.Proposes transaction_id

/-- A broker as it is built. -/
structure PaariBroker.Fresh (b : PaariBroker) : Prop where
  pending : b.pending = []
  known : b.known_transactions = []
  consumes : b.consumes = 0

/-- What is pending was returned more often than it was consumed, what is known was
proposed, and the counter counts the consumes that were answered with an object. -/
structure BrokerRun.Within (T : Text) (b : PaariBroker) (r : BrokerRun) : Prop where
  limit : r.broker.max_amount_minor_units = b.max_amount_minor_units
  currency : r.broker.currency = b.currency
  max_consumes : r.broker.max_consumes = b.max_consumes
  named : ∀ id p, r.broker.pending.lookup id = some p → p.authorization_id = id
  pending : ∀ id, consumesOf id r.log +
    (if (r.broker.pending.lookup id).isSome then 1 else 0) ≤ grants T id r.log
  known : ∀ t ∈ r.broker.known_transactions, ∃ e ∈ r.log, e.Proposes t
  counter : r.broker.consumes = successes r.log
  bound : (successes r.log : Int) ≤ max 0 b.max_consumes

/-! ## The pending map -/

theorem lookup_cons_if (k k₀ : String) (v₀ : PendingPayment) (kvs : List (String × PendingPayment)) :
    ((k₀, v₀) :: kvs).lookup k = if k = k₀ then some v₀ else kvs.lookup k := by
  rw [List.lookup_cons]
  by_cases h : k = k₀
  · rw [if_pos h, beq_iff_eq.mpr h]
  · rw [if_neg h, beq_eq_false_iff_ne.mpr h]

theorem lookup_assign (k k' : String) (v : PendingPayment) (kvs : List (String × PendingPayment)) :
    (assign k v kvs).lookup k' = if k' = k then some v else kvs.lookup k' := by
  induction kvs with
  | nil => exact lookup_cons_if k' k v []
  | cons kv kvs ih =>
    obtain ⟨k₀, v₀⟩ := kv
    rw [assign]
    split
    · next h₀ =>
      rw [lookup_cons_if, lookup_cons_if, h₀]
      split <;> rfl
    · next h₀ =>
      rw [lookup_cons_if, lookup_cons_if, ih]
      by_cases h : k' = k₀
      · rw [if_pos h, if_pos h, if_neg (h ▸ h₀)]
      · rw [if_neg h, if_neg h]

theorem lookup_without (k k' : String) (kvs : List (String × PendingPayment)) :
    (kvs.filter fun kv => kv.1 != k).lookup k' = if k' = k then none else kvs.lookup k' := by
  induction kvs with
  | nil => exact (ite_self _).symm
  | cons kv kvs ih =>
    obtain ⟨k₀, v₀⟩ := kv
    rw [lookup_cons_if]
    by_cases h₀ : k₀ = k
    · rw [List.filter_cons_of_neg (by simpa using h₀), ih, h₀]
      by_cases h : k' = k
      · rw [if_pos h, if_pos h]
      · rw [if_neg h, if_neg h, if_neg h]
    · rw [List.filter_cons_of_pos (by simpa using h₀), lookup_cons_if, ih]
      by_cases h : k' = k₀
      · rw [if_pos h, if_pos h, if_neg (h ▸ h₀)]
      · rw [if_neg h, if_neg h]

/-! ## One turn -/

section
variable {T : Text} {b : PaariBroker} {r : BrokerRun} {t : Turn}

theorem fresh_within (h : b.Fresh) : (⟨b, []⟩ : BrokerRun).Within T b where
  limit := rfl
  currency := rfl
  max_consumes := rfl
  named := by
    intro id p hp
    rw [h.pending] at hp
    exact absurd hp (by simp)
  pending := by
    intro id
    rw [h.pending]
    exact Nat.le_refl _
  known := by
    intro t ht
    rw [h.known] at ht
    exact absurd ht List.not_mem_nil
  counter := h.consumes
  bound := Int.le_max_left _ _

/-- The request of a turn, if it makes one. -/
def BrokerRun.sent (T : Text) (r : BrokerRun) (t : Turn) : Option ClientCall :=
  ({ r.broker with causal := t.causal }.execute T t.name t.args t.hex t.answer).sent

/-- A request is confined by what came before it. -/
theorem sent_confined (h : r.Within T b) {call : ClientCall} (hsent : r.sent T t = some call) :
    call = .get_active_mandate ∨ call.Confined T b r.log t.hex := by
  have hdoes := execute_does T { r.broker with causal := t.causal } t.name t.args t.hex t.answer
  unfold BrokerRun.sent at hsent
  rw [hsent] at hdoes
  have hvets : ∀ {req}, PaariBroker.Vets { r.broker with causal := t.causal } t.hex req →
      b.Vets t.hex req := fun hv =>
    ⟨hv.positive, h.limit ▸ hv.limit, h.currency ▸ hv.currency, hv.transaction, hv.idempotency⟩
  generalize hb' : (PaariBroker.execute T { r.broker with causal := t.causal } t.name t.args t.hex
    t.answer).broker = b' at hdoes
  cases hdoes with
  | mandate => exact .inl rfl
  | propose hv => exact .inr (hvets hv)
  | allowed hv hid => exact .inr (hvets hv)
  | @confirm id p hleft hp =>
    refine .inr ⟨?_, ?_⟩
    · have hname : p.authorization_id = id := h.named id p hp
      have hcount := h.pending id
      rw [show r.broker.pending.lookup id = some p from hp, Option.isSome_some, if_pos rfl] at hcount
      rw [hname]
      omega
    · rw [← h.counter, ← h.max_consumes]
      exact hleft
  | proof hknown => exact .inr (h.known _ hknown)

theorem grants_snoc (id : String) (log : List Outgoing) (e : Outgoing) :
    grants T id (log ++ [e]) = grants T id log + if e.Grants T id then 1 else 0 := by
  unfold grants
  rw [List.countP_append, List.countP_singleton]
  simp only [decide_eq_true_eq]

theorem consumesOf_snoc (id : String) (log : List Outgoing) (e : Outgoing) :
    consumesOf id (log ++ [e]) = consumesOf id log + if e.consumes id then 1 else 0 := by
  unfold consumesOf
  rw [List.countP_append, List.countP_singleton]

theorem successes_snoc (log : List Outgoing) (e : Outgoing) :
    successes (log ++ [e]) = successes log + if e.succeeds then 1 else 0 := by
  unfold successes
  rw [List.countP_append, List.countP_singleton]

/-- A request that is no consume, from a broker that keeps its pending payments. -/
theorem BrokerRun.Within.quiet (h : r.Within T b) {b' : PaariBroker} {e : Outgoing}
    (hlimit : b'.max_amount_minor_units = r.broker.max_amount_minor_units)
    (hcurrency : b'.currency = r.broker.currency) (hmax : b'.max_consumes = r.broker.max_consumes)
    (hpending : b'.pending = r.broker.pending) (hconsumes : b'.consumes = r.broker.consumes)
    (hknown : ∀ t ∈ b'.known_transactions, t ∈ r.broker.known_transactions ∨ e.Proposes t)
    (hno : ∀ id, e.consumes id = false) (hsucc : e.succeeds = false) :
    (⟨b', r.log ++ [e]⟩ : BrokerRun).Within T b where
  limit := hlimit.trans h.limit
  currency := hcurrency.trans h.currency
  max_consumes := hmax.trans h.max_consumes
  named := hpending ▸ h.named
  pending := by
    intro id
    rw [consumesOf_snoc, grants_snoc, hno, hpending]
    have hold := h.pending id
    simp only [Bool.false_eq_true, if_false]
    omega
  known := by
    intro t ht
    rcases hknown t ht with hold | hnew
    · obtain ⟨e', he', hp⟩ := h.known t hold
      exact ⟨e', List.mem_append_left _ he', hp⟩
    · exact ⟨e, List.mem_append_right _ (List.mem_singleton_self e), hnew⟩
  counter := by
    rw [successes_snoc, hsucc, hconsumes, h.counter]
    rfl
  bound := by
    rw [successes_snoc, hsucc]
    exact h.bound

/-- **A turn keeps the bookkeeping of the broker.** -/
theorem step_within (h : r.Within T b) (t : Turn) : (r.step T t).Within T b := by
  have hdoes := execute_does T { r.broker with causal := t.causal } t.name t.args t.hex t.answer
  unfold BrokerRun.step
  generalize PaariBroker.execute T { r.broker with causal := t.causal } t.name t.args t.hex
    t.answer = o at hdoes
  obtain ⟨b', sent, result⟩ := o
  dsimp only at hdoes ⊢
  cases hdoes with
  | silent =>
    rw [Option.map_none, Option.toList_none, List.append_nil]
    exact ⟨h.limit, h.currency, h.max_consumes, h.named, h.pending, h.known, h.counter, h.bound⟩
  | mandate =>
    exact h.quiet rfl rfl rfl rfl rfl (fun t ht => .inl ht) (fun _ => rfl) rfl
  | @propose req hv =>
    refine h.quiet rfl rfl rfl rfl rfl (fun t ht => ?_) (fun _ => rfl) rfl
    rcases List.mem_cons.mp ht with rfl | ht
    · exact .inr ⟨req, rfl, rfl⟩
    · exact .inl ht
  | @allowed req p hv hid =>
    -- the proposal alone, and then what it makes pending
    have hquiet : (⟨{ r.broker with
        causal := t.causal, known_transactions := req.transaction_id :: r.broker.known_transactions },
        r.log ++ [⟨.payment_intent req, t⟩]⟩ : BrokerRun).Within T b := by
      refine h.quiet rfl rfl rfl rfl rfl (fun t ht => ?_) (fun _ => rfl) rfl
      rcases List.mem_cons.mp ht with rfl | ht
      · exact .inr ⟨req, rfl, rfl⟩
      · exact .inl ht
    refine ⟨hquiet.limit, hquiet.currency, hquiet.max_consumes, fun id p' hp' => ?_, fun id => ?_,
      hquiet.known, hquiet.counter, hquiet.bound⟩
    · dsimp only at hp'
      rw [lookup_assign] at hp'
      split at hp'
      · next hk => rw [hk, Option.some.inj hp']
      · exact h.named id p' hp'
    · have hold := h.pending id
      show consumesOf id (r.log ++ [⟨.payment_intent req, t⟩]) + _ ≤ grants T id (r.log ++ [_])
      rw [consumesOf_snoc, grants_snoc, lookup_assign]
      by_cases hk : id = p.authorization_id
      · subst hk
        have hgrant : (⟨.payment_intent req, t⟩ : Outgoing).Grants T p.authorization_id := hid
        rw [if_pos rfl, if_pos hgrant]
        have hno : (⟨.payment_intent req, t⟩ : Outgoing).consumes p.authorization_id = false := rfl
        rw [hno]
        simp only [Bool.false_eq_true, if_false, Option.isSome_some, if_true]
        split at hold <;> omega
      · have hno : (⟨.payment_intent req, t⟩ : Outgoing).consumes id = false := rfl
        rw [if_neg hk, hno]
        simp only [Bool.false_eq_true, if_false]
        exact Nat.le_trans hold (Nat.le_add_right _ _)
  | @confirm id p hleft hp =>
    have hname : p.authorization_id = id := h.named id p hp
    have hcounter : (successes (r.log ++ [⟨.consume p.authorization_id, t⟩]) : Int) =
        if t.answer.isObject then r.broker.consumes + 1 else r.broker.consumes := by
      have hsucc : (⟨.consume p.authorization_id, t⟩ : Outgoing).succeeds = t.answer.isObject := rfl
      rw [successes_snoc, hsucc, h.counter]
      split <;> simp
    refine ⟨h.limit, h.currency, h.max_consumes, fun id' p' hp' => ?_, fun id' => ?_, fun t' ht' => ?_,
      hcounter.symm, ?_⟩
    · dsimp only at hp'
      rw [lookup_without] at hp'
      split at hp'
      · exact absurd hp' (by simp)
      · exact h.named id' p' hp'
    · have hold := h.pending id'
      show consumesOf id' (r.log ++ [⟨.consume p.authorization_id, t⟩]) + _ ≤ grants T id' (r.log ++ [_])
      rw [consumesOf_snoc, grants_snoc, lookup_without]
      have hgrant : ¬ (⟨.consume p.authorization_id, t⟩ : Outgoing).Grants T id' := fun hg => hg
      have hconsumes : (⟨.consume p.authorization_id, t⟩ : Outgoing).consumes id' =
          (p.authorization_id == id') := rfl
      rw [if_neg hgrant, hconsumes, hname]
      by_cases hk : id' = id
      · subst hk
        rw [show r.broker.pending.lookup id' = some p from hp, Option.isSome_some, if_pos rfl] at hold
        simpa using hold
      · rw [if_neg hk, beq_eq_false_iff_ne.mpr (Ne.symm hk)]
        simpa using hold
    · obtain ⟨e, he, hprop⟩ := h.known t' ht'
      exact ⟨e, List.mem_append_left _ he, hprop⟩
    · show (successes (r.log ++ [⟨.consume p.authorization_id, t⟩]) : Int) ≤ _
      rw [hcounter]
      have hbound := h.bound
      have hleft : r.broker.consumes < b.max_consumes := h.max_consumes ▸ hleft
      rw [← h.counter] at hbound
      split
      · exact Int.le_trans (Int.add_one_le_of_lt hleft) (Int.le_max_right _ _)
      · exact hbound
  | proof hknown =>
    exact h.quiet rfl rfl rfl rfl rfl (fun t ht => .inl ht) (fun _ => rfl) rfl

/-- What a run keeps. -/
theorem run_within (h : b.Fresh) (turns : List Turn) : (b.run T turns).Within T b := by
  induction turns using List.reverseRecOn with
  | nil => exact fresh_within h
  | append_singleton turns t ih =>
    rw [PaariBroker.run_snoc]
    exact step_within ih t

end

/-! ## Every run -/

/-- **A broker is confined.** In every run of tool calls and answers, whatever they are,
the next request the broker makes is a read of its own mandate or a confined one: a
proposal within its cap and currency under identifiers it has just drawn, a consume of an
id that answers to its proposals returned more often than it was consumed so far, before
the limit of successful consumes is reached, or a read of the proof of a transaction it
proposed. -/
theorem broker_confined {T : Text} {b : PaariBroker} (h : b.Fresh) (turns : List Turn) (t : Turn)
    (call : ClientCall) (hsent : (b.run T turns).sent T t = some call) :
    call = .get_active_mandate ∨ call.Confined T b (b.run T turns).log t.hex :=
  sent_confined (run_within h turns) hsent

namespace Sample

/-- Text functions that do nothing. -/
def plainText : Text := ⟨fun s => s, fun s => s, fun s => s, fun s => s, fun _ => "x", fun _ => none,
  fun _ => "error"⟩

/-- A broker that may execute one payment of up to 1000 INR. -/
def paymentBroker : PaariBroker where
  agent_id := some "agent"
  card := .null
  reads_mandate := true
  max_amount_minor_units := 1000
  currency := "INR"
  max_consumes := 1
  causal := none
  pending := []
  known_transactions := []
  consumes := 0

theorem paymentBroker_fresh : paymentBroker.Fresh := ⟨rfl, rfl, rfl⟩

def turn (name : String) (args : List (String × Json)) (answer : ClientAnswer) (spent : Bool) : Turn :=
  ⟨name, .dict args, none, "0123456789", answer, spent⟩

/-- A proposal, allowed under an authorization id. -/
def propose (id : String) : Turn :=
  turn "propose_payment" [("merchant", .str "shop"), ("amount_minor_units", .int 100), ("currency", .str "INR")]
    (.body (.dict [("decision", .str "allow"), ("authorization", .dict [("authorization_id", .str id)])])) false

/-- The confirmation of it, and its answer. -/
def confirm (id : String) (answer : ClientAnswer) : Turn :=
  turn "confirm_payment" [("authorization_id", .str id)] answer true

/-- What `consume_authorization` answers after a provider timeout. -/
def unknownState : ClientAnswer :=
  .protocolError 502 (.dict [("consumed", .bool true), ("state", .str "PROVIDER_UNKNOWN")])

end Sample

/-- A confirmed proposal. -/
theorem broker_confined_consume :
    ClientCall.Confined Sample.plainText Sample.paymentBroker
      (Sample.paymentBroker.run Sample.plainText [Sample.propose "auth"]).log "0123456789"
      (.consume "auth") := by
  have hconfined := broker_confined Sample.paymentBroker_fresh [Sample.propose "auth"]
    (Sample.confirm "auth" (.body (.dict []))) (.consume "auth") (T := Sample.plainText) rfl
  exact hconfined.resolve_left nofun

/-- The mandate of the agent is read as well, which is none of the three. -/
theorem mandate_read :
    (Sample.paymentBroker.run Sample.plainText []).sent Sample.plainText
      (Sample.turn "get_payment_authority" [] (.body .null) false) = some .get_active_mandate ∧
    ∀ hex, ¬ ClientCall.Confined Sample.plainText Sample.paymentBroker
      (Sample.paymentBroker.run Sample.plainText []).log hex .get_active_mandate :=
  ⟨rfl, fun _ h => h⟩

/-! ## What a run has spent -/

/-- How many authorizations the server has spent for the run. -/
def spent (log : List Outgoing) : Nat := log.countP Outgoing.spends

/-- **A run spends no more than its limit, where the broker hears of it.** In every run
whose consumes are answered with an object whenever the server has spent their
authorization, the authorizations spent number at most `max_consumes`. -/
theorem spends_bounded {T : Text} {b : PaariBroker} (h : b.Fresh) (turns : List Turn)
    (hheard : ∀ e ∈ (b.run T turns).log, e.spends = true → e.turn.answer.isObject = true) :
    (spent (b.run T turns).log : Int) ≤ max 0 b.max_consumes := by
  have hle : spent (b.run T turns).log ≤ successes (b.run T turns).log := by
    refine List.countP_mono_left fun e he hspends => ?_
    have hobject := hheard e he hspends
    unfold Outgoing.spends at hspends
    unfold Outgoing.succeeds
    split
    · exact hobject
    · next hno =>
      split at hspends
      · next id hcall => exact absurd hcall (hno id)
      · exact absurd hspends (by decide)
  exact Int.le_trans (Int.ofNat_le.mpr hle) (run_within h turns).bound

/-- One payment, executed. -/
theorem spends_bounded_once :
    (spent (Sample.paymentBroker.run Sample.plainText
      [Sample.propose "auth", Sample.confirm "auth" (.body (.dict []))]).log : Int) ≤
      max 0 Sample.paymentBroker.max_consumes := by
  refine spends_bounded Sample.paymentBroker_fresh _ fun e he hspends => ?_
  have hlog : (Sample.paymentBroker.run Sample.plainText
      [Sample.propose "auth", Sample.confirm "auth" (.body (.dict []))]).log.all
      fun e => !e.spends || e.turn.answer.isObject := by decide
  have hone := List.all_eq_true.mp hlog e he
  rw [hspends] at hone
  exact hone

/-- A timeout that spent its authorization is not counted: the second payment goes through. -/
theorem timeout_uncounted :
    Sample.paymentBroker.Fresh ∧
    ¬ (spent (Sample.paymentBroker.run Sample.plainText [Sample.propose "first",
      Sample.confirm "first" Sample.unknownState, Sample.propose "second",
      Sample.confirm "second" (.body (.dict []))]).log : Int) ≤
      max 0 Sample.paymentBroker.max_consumes := by
  refine ⟨Sample.paymentBroker_fresh, ?_⟩
  decide

end Paari
