import Paari.Validation
import Paari.Lib.Weight

/-!
# The reference provider

`ReferenceAutonomousProvider` keeps its mandates and payments in two dictionaries, so unlike
every other provider its answers can be told in advance. A payment is created once, under the
first characters of the authorization's id, and captured at most once, at the amount it was
created for. `run_history` says so for every sequence of operations: what the dictionary holds
is what the history of operations says, and `run_captured` accounts for the money.
-/

namespace Paari

namespace ReferenceAutonomousProvider

/-- `_Payment.status` -/
inductive PaymentState
  | authorized
  | captured
deriving DecidableEq

def PaymentState.word : PaymentState → String
  | .authorized => "authorized"
  | .captured => "captured"

/-- `_Payment` -/
structure Payment where
  payment_id : String
  amount : Int
  currency : String
  status : PaymentState
deriving DecidableEq

/-- An entry of `_mandates`. -/
structure Mandate where
  mandate_id : String
  user_reference : String
  max_amount_minor_units : Int
  currency : String
  /-- `"active"`, or else `"revoked"` -/
  active : Bool
deriving DecidableEq

/-- The entry as the dictionary it is. -/
def Mandate.fields (m : Mandate) : List (String × Json) :=
  [("mandate_id", .str m.mandate_id), ("user_reference", .str m.user_reference),
    ("max_amount_minor_units", .int m.max_amount_minor_units), ("currency", .str m.currency),
    ("status", .str (if m.active then "active" else "revoked"))]

/-- The class attributes, shared by every instance in the process. -/
structure Ledger where
  mandates : AList fun _ : String => Mandate
  payments : AList fun _ : String => Payment

/-- The attributes when the class is loaded. -/
def Ledger.empty : Ledger := ⟨∅, ∅⟩

/-! ## The operations -/

variable (H : Host)

/-- `f"pay_ref_{authorization_id[:18]}"` -/
def payment_id (authorization_id : String) : String := "pay_ref_" ++ slice 18 authorization_id

/-- `create_or_bind_mandate` -/
def create_or_bind_mandate (mandate_id user_reference : String) (max_amount_minor_units : Int)
    (currency : String) (L : Ledger) : Ledger × Answer :=
  let m : Mandate := ⟨mandate_id, user_reference, max_amount_minor_units, H.upper currency, true⟩
  ({ L with mandates := L.mandates.insert mandate_id m },
    .ok (.dict [("provider_customer_ref", .str ("ref_customer_" ++ user_reference)),
      ("provider_mandate_ref", .str mandate_id), ("status", .str "created")]))

/-- `validate_mandate`: a reference nobody created is accepted too, and so is a revoked one. -/
def validate_mandate (provider_mandate_ref : String) (L : Ledger) : Json :=
  match (L.mandates.lookup provider_mandate_ref).filter Mandate.active with
  | some m => .dict (laidOver [("valid", .bool true), ("status", .str "active")] m.fields)
  | none => .dict [("valid", .bool true), ("status", .str "active"),
      ("provider_mandate_ref", .str provider_mandate_ref)]

/-- What `authorize_payment` answers about a payment. -/
def Payment.authorization (p : Payment) : Json :=
  .dict [("provider_payment_ref", .str p.payment_id), ("status", .str p.status.word),
    ("amount", .int p.amount), ("currency", .str p.currency)]

/-- `authorize_payment` -/
def authorize_payment (authorization_id provider_mandate_ref : String) (amount_minor_units : Int)
    (currency : String) (L : Ledger) : Ledger × Answer :=
  match (validate_mandate provider_mandate_ref L).get "valid" with
  | .error e => (L, .error (.python e))
  | .ok valid =>
    if !valid.truthy then (L, .error (.other "reference provider mandate inactive"))
    else
      match L.payments.lookup (payment_id authorization_id) with
      | some existing => (L, .ok existing.authorization)
      | none =>
        let p : Payment :=
          ⟨payment_id authorization_id, amount_minor_units, H.upper currency, .authorized⟩
        ({ L with payments := L.payments.insert (payment_id authorization_id) p },
          .ok p.authorization)

/-- `_payments.get(ref)`, for the references that can be looked up. -/
def find (provider_payment_ref : Json) (L : Ledger) : Except Exc Payment :=
  match provider_payment_ref with
  | .str ref => (L.payments.lookup ref).elim
      (.error (.other "reference provider payment not found")) .ok
  | .list _ => .error (.python .typeError)
  | .dict _ => .error (.python .typeError)
  | _ => .error (.other "reference provider payment not found")

/-- What `capture_payment` answers about a payment. -/
def Payment.capture (p : Payment) (status : String) : Json :=
  .dict [("status", .str status), ("amount", .int p.amount), ("currency", .str p.currency)]

/-- `capture_payment` -/
def capture_payment (provider_payment_ref : Json) (amount_minor_units : Int) (currency : String)
    (L : Ledger) : Ledger × Answer :=
  match find provider_payment_ref L with
  | .error e => (L, .error e)
  | .ok p =>
    if p.amount ≠ amount_minor_units ∨ p.currency ≠ H.upper currency then
      (L, .error (.other "reference provider payment does not match authorization"))
    else if p.status = .captured then (L, .ok (p.capture "already_captured"))
    else
      -- the entry is changed in place, under the key it was found by
      let ref := provider_payment_ref.asStr?.getD ""
      ({ L with payments := L.payments.insert ref { p with status := .captured } },
        .ok (p.capture "captured"))

/-- What `get_payment` answers about a payment. -/
def Payment.record (p : Payment) : Json :=
  .dict [("id", .str p.payment_id), ("status", .str p.status.word), ("amount", .int p.amount),
    ("currency", .str p.currency)]

/-- `get_payment` -/
def get_payment (provider_payment_ref : Json) (L : Ledger) : Answer :=
  (find provider_payment_ref L).map Payment.record

/-- `revoke_mandate` -/
def revoke_mandate (provider_mandate_ref : String) (L : Ledger) : Ledger × Answer :=
  match L.mandates.lookup provider_mandate_ref with
  | none => (L, .ok (.dict [("status", .str "not_found")]))
  | some m =>
    ({ L with mandates := L.mandates.insert provider_mandate_ref { m with active := false } },
      .ok (.dict [("status", .str "revoked")]))

/-- A call of the service, served by the reference provider. The other operations are those of
`RazorpayAdapter`. -/
def serve (L : Ledger) : Op → Ledger × Answer
  | .validate_mandate ref => (L, .ok (validate_mandate ref L))
  | .authorize_payment id ref amount currency _ _ => authorize_payment H id ref amount currency L
  | .capture_payment ref amount currency _ => capture_payment H ref amount currency L
  | .agentic_get_payment ref => (L, get_payment ref L)
  | _ => (L, .error (.python .attributeError))

/-- Whatever may be done with the provider. -/
inductive Operation
  | create_or_bind_mandate (mandate_id user_reference : String) (max_amount_minor_units : Int)
      (currency : String)
  | revoke_mandate (provider_mandate_ref : String)
  | perform (op : Op)

/-- One operation. -/
def step (L : Ledger) : Operation → Ledger × Answer
  | .create_or_bind_mandate id ref cap currency => create_or_bind_mandate H id ref cap currency L
  | .revoke_mandate ref => revoke_mandate ref L
  | .perform op => serve H L op

/-- A sequence of operations. -/
def run (L : Ledger) (os : List Operation) : Ledger := os.foldl (fun L o => (step H L o).1) L

/-- The operations of a sequence, with their answers. -/
def answers (L : Ledger) : List Operation → List (Operation × Answer)
  | [] => []
  | o :: os => (o, (step H L o).2) :: answers (step H L o).1 os

/-! ## What one operation does to the payments -/

variable {H}

/-- No mandate is ever refused. -/
theorem validate_valid (ref : String) (L : Ledger) :
    (validate_mandate ref L).get "valid" = .ok (.bool true) := by
  unfold validate_mandate
  split <;> rfl

/-- So a payment is always found or created. -/
theorem authorize_eq (id ref : String) (amount : Int) (currency : String) (L : Ledger) :
    authorize_payment H id ref amount currency L =
      match L.payments.lookup (payment_id id) with
      | some existing => (L, .ok existing.authorization)
      | none =>
        let p : Payment := ⟨payment_id id, amount, H.upper currency, .authorized⟩
        ({ L with payments := L.payments.insert (payment_id id) p }, .ok p.authorization) := by
  unfold authorize_payment
  rw [validate_valid]
  rfl

theorem find_ok {ref : Json} {L : Ledger} {p : Payment} (h : find ref L = .ok p) :
    ∃ key, ref = .str key ∧ L.payments.lookup key = some p := by
  cases ref with
  | str key =>
    refine ⟨key, rfl, ?_⟩
    cases hl : L.payments.lookup key with
    | none => rw [find, hl] at h; cases h
    | some q =>
      rw [find, hl] at h
      exact congrArg some (Except.ok.inj h)
  | _ => cases h

/-- The answer reports the capture it has just made. -/
def reportsCapture (a : Answer) : Bool :=
  (a.toOption.bind fun reply => (reply.getD "status" .null).toOption).any (·.isStr "captured")

theorem reportsCapture_capture (p : Payment) (status : String) :
    reportsCapture (.ok (p.capture status)) = (status == "captured") := rfl

theorem reportsCapture_error (e : Exc) : reportsCapture (.error e) = false := rfl

/-- The reference and the amount of a request to capture. -/
def Operation.capture? : Operation → Option (Json × Int)
  | .perform (.capture_payment ref amount _ _) => some (ref, amount)
  | _ => none

/-- The operation creates the payment `p` under a new key. -/
def Opens (H : Host) (L : Ledger) (o : Operation) (p : Payment) : Prop :=
  ∃ id ref amount currency merchant key,
    o = .perform (.authorize_payment id ref amount currency merchant key) ∧
    p = ⟨payment_id id, amount, H.upper currency, .authorized⟩ ∧
    L.payments.lookup p.payment_id = none

/-- The operation captures the payment `p`, found under `ref`, for the first time. -/
def Captures (H : Host) (L : Ledger) (o : Operation) (ref : String) (p : Payment) : Prop :=
  ∃ currency key, o = .perform (.capture_payment (.str ref) p.amount currency key) ∧
    L.payments.lookup ref = some p ∧ p.status = .authorized ∧ p.currency = H.upper currency

/-- An operation creates one payment, captures one, or leaves the payments alone. -/
theorem step_cases (L : Ledger) (o : Operation) :
    (∃ p, Opens H L o p ∧ (step H L o).1.payments = L.payments.insert p.payment_id p) ∨
    (∃ ref p, Captures H L o ref p ∧ (step H L o).2 = .ok (p.capture "captured") ∧
      (step H L o).1.payments = L.payments.insert ref { p with status := .captured }) ∨
    (step H L o).1.payments = L.payments ∧
      ∀ c, o.capture? = some c → reportsCapture (step H L o).2 = false := by
  cases o with
  | create_or_bind_mandate id ref cap currency => exact .inr (.inr ⟨rfl, fun _ h => by cases h⟩)
  | revoke_mandate ref =>
    refine .inr (.inr ⟨?_, fun _ h => by cases h⟩)
    simp only [step, revoke_mandate]
    split <;> rfl
  | perform op =>
    cases op with
    | authorize_payment id ref amount currency merchant key =>
      simp only [step, serve, authorize_eq]
      cases hl : L.payments.lookup (payment_id id) with
      | some p => exact .inr (.inr ⟨rfl, fun _ h => by cases h⟩)
      | none => exact .inl ⟨_, ⟨id, ref, amount, currency, merchant, key, rfl, rfl, hl⟩, rfl⟩
    | capture_payment ref amount currency key =>
      simp only [step, serve, capture_payment]
      cases hf : find ref L with
      | error e => exact .inr (.inr ⟨rfl, fun _ _ => reportsCapture_error _⟩)
      | ok p =>
        obtain ⟨k, rfl, hl⟩ := find_ok hf
        dsimp only
        split
        · exact .inr (.inr ⟨rfl, fun _ _ => reportsCapture_error _⟩)
        next hsame =>
        obtain ⟨rfl, hcur⟩ := by simpa only [not_or, not_not] using hsame
        split
        · exact .inr (.inr ⟨rfl, fun _ _ => reportsCapture_capture p "already_captured"⟩)
        next hstate =>
        have hopen : p.status = .authorized := by
          cases hp : p.status with
          | authorized => rfl
          | captured => exact absurd hp hstate
        exact .inr (.inl ⟨k, p, ⟨currency, key, rfl, hl, hopen, hcur⟩, rfl, rfl⟩)
    | _ => exact .inr (.inr ⟨rfl, fun _ h => by cases h⟩)

/-! ## What the history says about a payment -/

/-- The operation would create the payment `id` at this amount. -/
def Operation.opens (H : Host) (id : String) : Operation → Option Payment
  | .perform (.authorize_payment auth _ amount currency _ _) =>
    if payment_id auth = id then some ⟨id, amount, H.upper currency, .authorized⟩ else none
  | _ => none

/-- The operation would capture the payment. -/
def Operation.settles (H : Host) (p : Payment) : Operation → Bool
  | .perform (.capture_payment (.str ref) amount currency _) =>
    ref == p.payment_id && p.amount == amount && p.currency == H.upper currency
  | _ => false

/-- The payment after more operations: captured as soon as one of them would capture it. -/
def Payment.after (H : Host) (p : Payment) (os : List Operation) : Payment :=
  if os.any (Operation.settles H p) then { p with status := .captured } else p

/-- The payment as a history of operations tells it: the first request to authorize it fixes its
terms, and it is captured if a later request to capture it states the same terms. -/
def history (H : Host) (id : String) : List Operation → Option Payment
  | [] => none
  | o :: os =>
    match o.opens H id with
    | some p => some (p.after H os)
    | none => history H id os

theorem Opens.opens {L : Ledger} {o : Operation} {p : Payment} (h : Opens H L o p) (id : String) :
    o.opens H id = if p.payment_id = id then some p else none := by
  obtain ⟨auth, ref, amount, currency, merchant, key, rfl, rfl, _⟩ := h
  simp only [Operation.opens]
  split
  next heq => rw [← heq]
  next => rfl

/-- Every payment is kept under its own id. -/
def Ledger.Keyed (L : Ledger) : Prop :=
  ∀ id p, L.payments.lookup id = some p → p.payment_id = id

theorem keyed_empty : Ledger.empty.Keyed := fun id p h => by
  rw [show Ledger.empty.payments.lookup id = none from AList.lookup_empty id] at h
  cases h

theorem lookup_insert_iff {α : Type} {s : AList fun _ : String => α} {k id : String} {a : α} :
    (s.insert k a).lookup id = if k = id then some a else s.lookup id := by
  split
  next h => rw [h, AList.lookup_insert]
  next h => exact AList.lookup_insert_ne (Ne.symm h)

theorem Ledger.Keyed.step {L : Ledger} (h : L.Keyed) (o : Operation) : (step H L o).1.Keyed := by
  intro id q hq
  rcases step_cases (H := H) L o with ⟨p, _, hp⟩ | ⟨ref, p, hc, _, hp⟩ | ⟨hp, _⟩
  · rw [hp, lookup_insert_iff] at hq
    split at hq
    next heq => rw [← Option.some.inj hq, heq]
    next => exact h id q hq
  · rw [hp, lookup_insert_iff] at hq
    split at hq
    next heq =>
      rw [← Option.some.inj hq]
      exact h id p (heq ▸ hc.choose_spec.choose_spec.2.1)
    next => exact h id q hq
  · exact h id q (hp ▸ hq)

theorem after_single (p : Payment) (o : Operation) :
    p.after H [o] = if o.settles H p then { p with status := .captured } else p := by
  simp only [Payment.after, List.any_cons, List.any_nil, Bool.or_false]

/-- A capture of a payment that exists changes that payment, if the terms are its own. -/
theorem capture_found {L : Ledger} (hk : L.Keyed) {k : String} {q : Payment}
    (h : L.payments.lookup k = some q) (amount : Int) (currency key id : String) :
    (capture_payment H (.str k) amount currency L).1.payments.lookup id =
      if k = id then some (q.after H [.perform (.capture_payment (.str k) amount currency key)])
      else L.payments.lookup id := by
  have hfind : find (.str k) L = .ok q := by rw [find, h]; rfl
  have hq := hk k q h
  have hkept : L.payments.lookup id = if k = id then some q else L.payments.lookup id := by
    split
    next heq => rw [← heq, h]
    next => rfl
  unfold capture_payment
  rw [hfind, after_single]
  dsimp only
  by_cases hsame : q.amount ≠ amount ∨ q.currency ≠ H.upper currency
  · have hno : ¬ Operation.settles H q (.perform (.capture_payment (.str k) amount currency key)) := by
      intro hs
      simp only [Operation.settles, Bool.and_eq_true, beq_iff_eq] at hs
      exact hsame.elim (fun h => h hs.1.2) fun h => h hs.2
    rw [if_pos hsame, if_neg hno]
    exact hkept
  · have hyes : Operation.settles H q (.perform (.capture_payment (.str k) amount currency key)) := by
      simp only [not_or, not_not] at hsame
      simp [Operation.settles, hq, hsame.1, hsame.2]
    rw [if_neg hsame, if_pos hyes]
    by_cases hcap : q.status = .captured
    · rw [if_pos hcap, ← hcap]
      exact hkept
    · rw [if_neg hcap]
      exact lookup_insert_iff

/-- A capture of anything else changes nothing. -/
theorem capture_missing {L : Ledger} {ref : Json} {e : Exc} (h : find ref L = .error e) (amount : Int)
    (currency : String) : (capture_payment H ref amount currency L).1 = L := by
  unfold capture_payment
  rw [h]

/-- What cannot be found is not the payment. -/
theorem settles_missing {L : Ledger} {ref : Json} {e : Exc} (h : find ref L = .error e) {id : String}
    {p : Payment} (hk : L.Keyed) (hl : L.payments.lookup id = some p) (amount : Int)
    (currency key : String) :
    Operation.settles H p (.perform (.capture_payment ref amount currency key)) = false := by
  cases ref with
  | str k =>
    have hne : k ≠ id := fun heq => by
      rw [find, heq, hl] at h
      cases h
    simp [Operation.settles, hk id p hl, hne]
  | _ => rfl

/-- One operation, seen at a payment that exists. -/
theorem step_known {L : Ledger} (hk : L.Keyed) {id : String} {p : Payment}
    (h : L.payments.lookup id = some p) (o : Operation) :
    (step H L o).1.payments.lookup id = some (p.after H [o]) := by
  cases o with
  | create_or_bind_mandate auth ref cap currency => exact h
  | revoke_mandate ref =>
    simp only [step, revoke_mandate]
    split <;> exact h
  | perform op =>
    cases op with
    | authorize_payment auth ref amount currency merchant key =>
      simp only [step, serve, authorize_eq]
      cases hl : L.payments.lookup (payment_id auth) with
      | some q => exact h
      | none =>
        have hne : payment_id auth ≠ id := fun heq => by
          rw [heq, h] at hl
          cases hl
        exact (lookup_insert_iff.trans (if_neg hne)).trans h
    | capture_payment ref amount currency key =>
      show (capture_payment H ref amount currency L).1.payments.lookup id = _
      cases hf : find ref L with
      | error e =>
        rw [capture_missing hf, h, after_single, settles_missing hf hk h]
        rfl
      | ok q =>
        obtain ⟨k, rfl, hl⟩ := find_ok hf
        rw [capture_found hk hl amount currency key]
        split
        next heq =>
          subst heq
          rw [Option.some.inj (hl.symm.trans h)]
        next hne => rw [h, after_single, if_neg (by simp [Operation.settles, hk id p h, hne])]
    | _ => exact h

/-- One operation, seen at a payment that does not exist. -/
theorem step_unknown {L : Ledger} {id : String} (h : L.payments.lookup id = none) (o : Operation) :
    (step H L o).1.payments.lookup id = o.opens H id := by
  rcases step_cases (H := H) L o with ⟨p, ho, hp⟩ | ⟨ref, p, hc, _, hp⟩ | ⟨hp, _⟩
  · rw [hp, lookup_insert_iff, ho.opens, h]
  · obtain ⟨currency, key, rfl, hl, _⟩ := hc
    have hne : ref ≠ id := fun heq => by
      rw [← heq, hl] at h
      cases h
    rw [hp, lookup_insert_iff, if_neg hne, h]
    rfl
  · rw [hp, h]
    cases o with
    | perform op =>
      cases op with
      | authorize_payment auth ref amount currency merchant key =>
        simp only [Operation.opens]
        split
        next heq =>
          -- it would have been created
          subst heq
          have hins : (authorize_payment H auth ref amount currency L).1.payments.lookup
              (payment_id auth) = some ⟨payment_id auth, amount, H.upper currency, .authorized⟩ := by
            rw [authorize_eq, h]
            exact AList.lookup_insert L.payments
          have hsame : (authorize_payment H auth ref amount currency L).1.payments = L.payments := hp
          rw [hsame, h] at hins
          cases hins
        next => rfl
      | _ => rfl
    | _ => rfl

theorem settles_captured (p : Payment) :
    Operation.settles H { p with status := .captured } = Operation.settles H p := by
  funext o
  cases o with
  | perform op =>
    cases op with
    | capture_payment ref amount currency key => cases ref <;> rfl
    | _ => rfl
  | _ => rfl

theorem after_cons (p : Payment) (o : Operation) (os : List Operation) :
    p.after H (o :: os) = (p.after H [o]).after H os := by
  rw [after_single]
  unfold Payment.after
  rw [List.any_cons]
  cases o.settles H p with
  | false => simp
  | true => simp [settles_captured]

/-- A payment that exists stays, at its terms. -/
theorem run_known (os : List Operation) :
    ∀ {L : Ledger}, L.Keyed → ∀ {id : String} {p : Payment}, L.payments.lookup id = some p →
      (run H L os).payments.lookup id = some (p.after H os) := by
  induction os with
  | nil => intro L _ id p h; exact h
  | cons o os ih =>
    intro L hk id p h
    rw [after_cons]
    exact ih (hk.step o) (step_known hk h o)

/-- **The ledger is its history.** After any sequence of operations a payment is on the ledger
exactly if the history tells of it, and just as the history tells it: at the terms of the first
request to authorize it, and captured if a later request stated those terms. -/
theorem run_history (os : List Operation) (id : String) :
    (run H .empty os).payments.lookup id = history H id os := by
  suffices h : ∀ L : Ledger, L.Keyed → L.payments.lookup id = none →
      (run H L os).payments.lookup id = history H id os from
    h _ keyed_empty (AList.lookup_empty id)
  induction os with
  | nil => intro L _ h; exact h
  | cons o os ih =>
    intro L hk h
    have hstep := step_unknown (H := H) h o
    show (run H (step H L o).1 os).payments.lookup id = history H id (o :: os)
    unfold history
    cases ho : o.opens H id with
    | none => exact ih _ (hk.step o) (hstep.trans ho)
    | some p => exact run_known os (hk.step o) (hstep.trans ho)

/-! ## What was captured -/

/-- The money of a payment that is captured. -/
def Payment.value (p : Payment) : Int := if p.status = .captured then p.amount else 0

/-- All captured money on the ledger. -/
def Ledger.captured (L : Ledger) : Int := L.payments.weight Payment.value

/-- How often the payment `ref` is captured on the ledger. -/
def Ledger.settled (L : Ledger) (ref : String) : Nat :=
  if (L.payments.lookup ref).any (·.status = .captured) then 1 else 0

/-- The money that an answered operation says it captured. -/
def taken (oa : Operation × Answer) : Int :=
  if reportsCapture oa.2 then (oa.1.capture?.map Prod.snd).getD 0 else 0

/-- The answered operation says that it captured the payment `ref`. -/
def takes (ref : String) (oa : Operation × Answer) : Bool :=
  reportsCapture oa.2 && oa.1.capture?.any fun c => c.1.isStr ref

theorem step_captured (L : Ledger) (o : Operation) :
    (step H L o).1.captured = L.captured + taken (o, (step H L o).2) := by
  unfold Ledger.captured
  rcases step_cases (H := H) L o with ⟨p, ho, hp⟩ | ⟨ref, p, hc, hans, hp⟩ | ⟨hp, hquiet⟩
  · obtain ⟨auth, ref, amount, currency, merchant, key, rfl, rfl, hnone⟩ := ho
    rw [hp, AList.weight_insert, hnone]
    simp [Payment.value, taken, Operation.capture?]
  · obtain ⟨currency, key, rfl, hl, hstate, _⟩ := hc
    rw [hp, AList.weight_insert, hl, hans]
    simp [Payment.value, hstate, taken, Operation.capture?, reportsCapture_capture]
  · rw [hp]
    cases hc : o.capture? with
    | none => simp [taken, hc]
    | some c => simp [taken, hquiet c hc]

theorem step_settled (L : Ledger) (o : Operation) (ref : String) :
    (step H L o).1.settled ref =
      L.settled ref + if takes ref (o, (step H L o).2) then 1 else 0 := by
  unfold Ledger.settled
  rcases step_cases (H := H) L o with ⟨p, ho, hp⟩ | ⟨k, p, hc, hans, hp⟩ | ⟨hp, hquiet⟩
  · obtain ⟨auth, m, amount, currency, merchant, key, rfl, rfl, hnone⟩ := ho
    rw [hp, lookup_insert_iff]
    split
    next heq =>
      rw [← heq, hnone]
      simp [takes, Operation.capture?]
    next => simp [takes, Operation.capture?]
  · obtain ⟨currency, key, rfl, hl, hstate, _⟩ := hc
    rw [hp, lookup_insert_iff, hans]
    split
    next heq =>
      rw [← heq, hl]
      simp [takes, Operation.capture?, reportsCapture_capture, Json.isStr, hstate]
    next hne => simp [takes, Operation.capture?, Json.isStr, hne]
  · rw [hp]
    cases hc : o.capture? with
    | none => simp [takes, hc]
    | some c => simp [takes, hquiet c hc]

/-- **Captured money is accounted for.** Over any sequence of operations, the captured money on
the ledger is the sum of the amounts that the captures reported, and each payment that is
captured was reported so once. -/
theorem run_captured (os : List Operation) :
    (run H .empty os).captured = ((answers H .empty os).map taken).sum ∧
      ∀ ref, (answers H .empty os).countP (takes ref) = (run H .empty os).settled ref := by
  have hrun : ∀ (os : List Operation) (L : Ledger),
      (run H L os).captured = L.captured + ((answers H L os).map taken).sum ∧
        ∀ ref, (run H L os).settled ref = L.settled ref + (answers H L os).countP (takes ref) := by
    intro os
    induction os with
    | nil => intro L; exact ⟨(add_zero _).symm, fun ref => rfl⟩
    | cons o os ih =>
      intro L
      obtain ⟨hcap, hset⟩ := ih (step H L o).1
      constructor
      · show (run H (step H L o).1 os).captured = _
        rw [hcap, step_captured, answers, List.map_cons, List.sum_cons, add_assoc]
      · intro ref
        show (run H (step H L o).1 os).settled ref = _
        rw [hset, step_settled, answers, List.countP_cons]
        omega
  obtain ⟨hcap, hset⟩ := hrun os .empty
  exact ⟨hcap.trans (zero_add _), fun ref => ((hset ref).trans (zero_add _)).symm⟩

end ReferenceAutonomousProvider

end Paari
