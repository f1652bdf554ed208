import Paari.Validation
import Paari.Custody

/-!
# The adapters on the wire

One operation of a provider adapter is one or more HTTP requests. `RazorpayAdapter` makes one
each; `RazorpayAgenticProvider` looks first: it lists the tokens before it debits one, reads a
payment before it captures it, and deletes the tokens of a mandate one by one. So an operation
is a program of its own, whose calls are the requests and whose answers are the replies, and
what it asks of Razorpay holds for every reply.

Razorpay's paths are templates of the deployment; `format` is `str.format` with one named
value.
-/

namespace Paari

open Atomic

inductive Method
  | get
  | post
  | delete
deriving DecidableEq

/-- A request as the adapters build it; `key_id` says with whose credentials. -/
structure HttpRequest where
  key_id : String
  method : Method
  url : String
  params : List (String × String) := []
  json : Option Json := none
  /-- `X-Razorpay-Idempotency-Key` -/
  idempotency_key : Option String := none

/-- A reply, or what the transport raises. -/
abbrev Heard := Except Exc HttpReply

/-- An operation on the wire. -/
abbrev Wire := Prog World Stmt HttpRequest Heard

namespace Wire

variable {α β : Type}

/-- Go on with a value, unless it raised. -/
def attempt (x : Except Exc α) (k : α → Wire (Except Exc β)) : Wire (Except Exc β) :=
  match x with
  | .error e => .ret (.error e)
  | .ok a => k a

/-- One request, whose transport may raise. -/
def ask (r : HttpRequest) (k : HttpReply → Wire (Except Exc β)) : Wire (Except Exc β) :=
  .call r fun heard => attempt heard k

variable {exec : Stmt → World → World} {st : World}
  {Q : World → List (HttpRequest × Option Heard) → Option (Except Exc β) → Prop}
  {calls : List (HttpRequest × Option Heard)}

theorem wp_attempt {x : Except Exc α} {k : α → Wire (Except Exc β)}
    (herr : ∀ e, x = .error e → Q st calls (some (.error e)))
    (hok : ∀ a, x = .ok a → (k a).Wp exec Q calls st) : (attempt x k).Wp exec Q calls st := by
  cases x with
  | error e => exact herr e rfl
  | ok a => exact hok a rfl

theorem wp_ask {r : HttpRequest} {k : HttpReply → Wire (Except Exc β)}
    (hlost : Q st (calls ++ [(r, none)]) none)
    (herr : ∀ e, Q st (calls ++ [(r, some (.error e))]) (some (.error e)))
    (hok : ∀ reply, (k reply).Wp exec Q (calls ++ [(r, some (.ok reply))]) st) :
    (ask r k).Wp exec Q calls st := by
  refine ⟨hlost, fun heard => ?_⟩
  cases heard with
  | error e => exact herr e
  | ok reply => exact hok reply

end Wire

/-- `r.raise_for_status(); return r.json()` -/
def HttpReply.body (r : HttpReply) : Answer := r.raise_for_status.bind fun _ => r.json

/-- `json` reading as the adapters do it: what it raises is theirs. -/
def reading {α : Type} (x : Except PyError α) : Except Exc α := x.mapError .python

/-! ## The order-based adapter -/

namespace RazorpayAdapter

/-- The requests behind the operations of `RazorpayAdapter`; each is one. -/
def toRequest (key_id : String) : Op → Option HttpRequest
  | .create_payment authorization_id amount currency notes => some
    { key_id := key_id, method := .post, url := "/orders"
      json := some (.dict [("amount", .int amount), ("currency", .str currency),
        ("receipt", .str authorization_id),
        ("notes", .dict (notes.map fun kv => (kv.1, .str kv.2)))])
      idempotency_key := some authorization_id }
  | .get_payment payment_id => some
    { key_id := key_id, method := .get, url := "/payments/" ++ payment_id }
  | .fetch_payments order_id => some
    { key_id := key_id, method := .get, url := "/orders/" ++ order_id ++ "/payments" }
  | .fetch_order_by_receipt receipt => some
    { key_id := key_id, method := .get, url := "/orders"
      params := [("receipt", receipt), ("count", "1")] }
  | .refund payment_id amount => some
    { key_id := key_id, method := .post, url := "/payments/" ++ payment_id ++ "/refund"
      json := some (.dict [("amount", .int amount)]) }
  | _ => none

/-- The operation on the wire. -/
def perform (key_id : String) (op : Op) : Wire Answer :=
  match toRequest key_id op with
  | none => .ret (.error (.python .attributeError))
  | some r => Wire.ask r fun reply => .ret reply.body

end RazorpayAdapter

/-! ## The agentic adapter -/

namespace RazorpayAgenticProvider

variable (H : Host) (format : String → String × String → Except PyError String)

/-- `_expand` -/
def expand (path_template : String) (value : String × String) : Except Exc String :=
  match format path_template value with
  | .ok url => .ok url
  | .error (.keyError key) => .error (.other ("Razorpay agentic path is missing template value " ++
      H.repr (.str key) ++ ": " ++ H.repr (.str path_template)))
  | .error e => .error (.python e)

/-- A request with the credentials of the process. -/
def request (method : Method) (url : String) : HttpRequest :=
  { key_id := H.env "RAZORPAY_KEY_ID", method := method, url := url }

/-- `status() == AdapterStatus.CONFIGURED` -/
def configured : Bool := (get_config H).isOk

/-- `RAZORPAY_AGENTIC_AUTH_PAYLOAD_MODE` -/
def payload_mode : String :=
  H.lower (H.strip (H.env "RAZORPAY_AGENTIC_AUTH_PAYLOAD_MODE" "razorpay_recurring_token"))

/-- `supports_autonomous_settlement` -/
def supports_autonomous_settlement : Bool :=
  configured H && !(payload_mode H == "razorpay_recurring_token" &&
    path H "RAZORPAY_AGENTIC_TOKEN_LIST_PATH" == "")

/-- The id of the token that is debited: the first active one. -/
def firstActive (r : HttpReply) : Answer := do
  let data ← r.body
  let tokens ← reading (data.getD "items" (.list []))
  let active ← reading (activeTokens H tokens)
  match active with
  | [] => .error (.other "No tokens found with status=active for provider mandate/customer.")
  | token :: _ => do
    let token_id ← reading (token.get "id")
    if !token_id.truthy then .error (.other "Provider returned an active token without an id")
    else return token_id

/-- The request for the tokens of a customer. -/
def listing (provider_mandate_ref : String) : Except Exc HttpRequest :=
  (expand H format (path H "RAZORPAY_AGENTIC_TOKEN_LIST_PATH") ("customer_id", provider_mandate_ref)).map
    (request H .get)

/-- What a debit names: for whom, and how much. -/
structure Debit where
  authorization_id : String
  provider_mandate_ref : String
  amount_minor_units : Int
  currency : String
  merchant_reference : String
  idempotency_key : String

/-- `notes` of the debit request. -/
def Debit.notes (d : Debit) : Json :=
  .dict [("paari_authorization_id", .str d.authorization_id),
    ("paari_merchant_reference", .str d.merchant_reference)]

/-- The body of the debit request. -/
def Debit.payload (d : Debit) (token_id : Json) : Answer :=
  if payload_mode H = "provider_mandate" then
    .ok (.dict [("mandate_ref", .str d.provider_mandate_ref), ("amount", .int d.amount_minor_units),
      ("currency", .str d.currency), ("notes", d.notes)])
  else if !token_id.truthy then
    .error (.other
      "RAZORPAY_AGENTIC_TOKEN_LIST_PATH must be configured for tokenized recurring mode")
  else
    .ok (.dict [("customer_id", .str d.provider_mandate_ref), ("token_id", token_id),
      ("amount", .int d.amount_minor_units), ("currency", .str d.currency), ("recurring", .str "1"),
      ("notes", d.notes)])

/-- The debit request. -/
def Debit.request (d : Debit) (payload : Json) : HttpRequest :=
  { RazorpayAgenticProvider.request H .post (path H "RAZORPAY_AGENTIC_AUTHORIZE_PATH") with
    json := some payload
    idempotency_key := some d.idempotency_key }

/-- What the reply to the debit request says. -/
def Debit.result (d : Debit) (token_id : Json) (r : HttpReply) : Answer :=
  if r.status_code = 404 then
    .error (.other ("Configured Razorpay agentic authorization path returned 404. " ++
      "The configured provider contract is not available to this account."))
  else do
    let data ← r.body
    let id ← reading (data.get "id")
    let payment_id ← reading (data.get "payment_id")
    let payment_ref ← reading (data.get "payment_ref")
    let payment_ref := (id.orElse payment_id).orElse payment_ref
    if !payment_ref.truthy then
      .error (.other "Provider agentic authorization response contained no payment reference")
    else do
      let status ← reading (data.getD "status" (.str "authorized"))
      let amount ← reading (data.getD "amount" (.int d.amount_minor_units))
      let currency ← reading (data.getD "currency" (.str d.currency))
      return .dict [("provider_payment_ref", payment_ref), ("status", status),
        ("token_id", token_id), ("amount", amount), ("currency", currency), ("raw", data)]

/-- The token to debit, where the deployment lists them. -/
def withToken (provider_mandate_ref : String) (k : Json → Wire Answer) : Wire Answer :=
  if path H "RAZORPAY_AGENTIC_TOKEN_LIST_PATH" = "" then k .null
  else
    Wire.attempt (listing H format provider_mandate_ref) fun request =>
    Wire.ask request fun reply => Wire.attempt (firstActive H reply) k

/-- `authorize_payment` -/
def authorize_payment (d : Debit) : Wire Answer :=
  if d.amount_minor_units ≤ 0 then .ret (.error (.other "amount must be positive"))
  else
    Wire.attempt (get_config H) fun _ =>
    withToken H format d.provider_mandate_ref fun token_id =>
    Wire.attempt (d.payload H token_id) fun payload =>
    Wire.ask (d.request H payload) fun reply => .ret (d.result token_id reply)

/-- `get_payment` -/
def get_payment (provider_payment_ref : Json) : Wire Answer :=
  Wire.attempt (get_config H) fun _ =>
  Wire.attempt (expand H format (path H "RAZORPAY_AGENTIC_PAYMENT_PATH")
    ("payment_id", pyStr H.toText provider_payment_ref)) fun url =>
  Wire.ask (request H .get url) fun reply => .ret reply.body

/-- What a payment that was read says of itself, under a status. -/
def readResult (status : String) (payment : Json) : Answer := do
  let amount ← reading (payment.get "amount")
  let currency ← reading (payment.get "currency")
  return .dict [("status", .str status), ("amount", amount), ("currency", currency)]

/-- What the reply to the capture request says. -/
def captureResult (amount_minor_units : Int) (currency : String) (r : HttpReply) : Answer :=
  if r.status_code = 404 then
    .error (.other ("Configured Razorpay agentic capture path returned 404; " ++
      "the provider-native capture contract is not available to this account."))
  else do
    let data ← r.body
    let status ← reading (data.getD "status" (.str "unknown"))
    let amount ← reading (data.getD "amount" (.int amount_minor_units))
    let currency ← reading (data.getD "currency" (.str currency))
    return .dict [("status", status), ("amount", amount), ("currency", currency)]

/-- The capture request. -/
def captureRequest (url : String) (amount_minor_units : Int) (currency idempotency_key : String) :
    HttpRequest :=
  { request H .post url with
    json := some (.dict [("amount", .int amount_minor_units), ("currency", .str currency)])
    idempotency_key := some idempotency_key }

/-- `capture_payment` once the payment is read. -/
def capture_read (provider_payment_ref : Json) (amount_minor_units : Int)
    (currency idempotency_key : String) (payment : Json) : Wire Answer :=
  Wire.attempt (reading (payment.getD "status" (.str ""))) fun status =>
  if pyLower H.toText status = "captured" then .ret (readResult "already_captured" payment)
  else if path H "RAZORPAY_AGENTIC_CAPTURE_PATH" = "" then
    -- no endpoint is guessed: the read is all there is
    Wire.attempt (reading (payment.getD "status" (.str "unknown"))) fun status =>
    let status := pyLower H.toText status
    if status ∈ ["captured", "paid", "completed"] then .ret (readResult status payment)
    else .ret (.error (.other ("Provider payment is not captured and RAZORPAY_AGENTIC_CAPTURE_PATH " ++
      "is not configured; Paari refuses to guess a capture endpoint.")))
  else
    Wire.attempt (expand H format (path H "RAZORPAY_AGENTIC_CAPTURE_PATH")
      ("payment_id", pyStr H.toText provider_payment_ref)) fun url =>
    Wire.ask (captureRequest H url amount_minor_units currency idempotency_key) fun reply =>
    .ret (captureResult amount_minor_units currency reply)

/-- `capture_payment` -/
def capture_payment (provider_payment_ref : Json) (amount_minor_units : Int)
    (currency idempotency_key : String) : Wire Answer :=
  Wire.attempt (get_config H) fun _ => do
    let payment ← get_payment H format provider_payment_ref
    Wire.attempt payment
      (capture_read H format provider_payment_ref amount_minor_units currency idempotency_key)

/-- `for token in tokens`, with the tokens deleted so far. -/
def deleteTokens (provider_mandate_ref : String) : List Json → Int → Wire Answer
  | [], deleted => .ret (.ok (.dict [("status", .str "revoked"), ("tokens_deleted", .int deleted)]))
  | token :: tokens, deleted =>
    Wire.attempt (reading (token.get "id")) fun token_id =>
    if !token_id.truthy then deleteTokens provider_mandate_ref tokens deleted
    else
      Wire.ask (request H .delete
        ("/customers/" ++ provider_mandate_ref ++ "/tokens/" ++ pyStr H.toText token_id)) fun reply =>
      deleteTokens provider_mandate_ref tokens
        (if reply.status_code = 200 ∨ reply.status_code = 204 then deleted + 1 else deleted)

/-- `revoke_mandate` -/
def revoke_mandate (provider_mandate_ref : String) : Wire Answer :=
  Wire.attempt (get_config H) fun _ =>
  if path H "RAZORPAY_AGENTIC_REVOKE_PATH" ≠ "" then
    Wire.attempt (expand H format (path H "RAZORPAY_AGENTIC_REVOKE_PATH")
      ("provider_mandate_ref", provider_mandate_ref)) fun url =>
    Wire.ask { request H .post url with json := some (.dict []) } fun reply =>
    .ret (reply.raise_for_status.bind fun _ =>
      if reply.text = "" then .ok (.dict [("status", .str "revoked")]) else reply.json)
  else if path H "RAZORPAY_AGENTIC_TOKEN_LIST_PATH" = "" then
    .ret (.error (.other "Provider token/revoke capability is not configured"))
  else
    Wire.attempt (listing H format provider_mandate_ref) fun request =>
    Wire.ask request fun reply =>
    Wire.attempt (reply.body.bind fun data => reading (data.getD "items" (.list []) >>= pyList))
      fun tokens => deleteTokens H provider_mandate_ref tokens 0

/-- `validate_mandate` on the wire. -/
def ask_mandate (provider_mandate_ref : String) : Wire Answer :=
  Wire.attempt (get_config H) fun _ =>
  if path H "RAZORPAY_AGENTIC_VALIDATE_PATH" ≠ "" then
    Wire.attempt (expand H format (path H "RAZORPAY_AGENTIC_VALIDATE_PATH")
      ("provider_mandate_ref", provider_mandate_ref)) fun url =>
    Wire.ask (request H .get url) fun reply => .ret (statusVerdict H reply)
  else
    Wire.attempt (listing H format provider_mandate_ref) fun request =>
    Wire.ask request fun reply => .ret (tokenVerdict H provider_mandate_ref reply)

/-- An operation of the service on the wire. The other operations are those of `RazorpayAdapter`. -/
def perform : Op → Wire Answer
  | .validate_mandate ref => ask_mandate H format ref
  | .authorize_payment id ref amount currency merchant key =>
    authorize_payment H format ⟨id, ref, amount, currency, merchant, key⟩
  | .capture_payment ref amount currency key => capture_payment H format ref amount currency key
  | .agentic_get_payment ref => get_payment H format ref
  | _ => .ret (.error (.python .attributeError))

/-- On the wire the mandate is judged as it is where the request is a function. -/
theorem ask_mandate_eval (ref : String) (heard : Heard) (exec : Stmt → World → World) (st : World) :
    ((ask_mandate H format ref).eval exec [heard] st).value =
      some (validate_mandate H (fun template value => (expand H format template value).bind fun _ => heard)
        ref) := by
  unfold ask_mandate validate_mandate
  cases get_config H with
  | error e => rfl
  | ok u =>
    dsimp only [Wire.attempt]
    split
    · cases expand H format (path H "RAZORPAY_AGENTIC_VALIDATE_PATH") ("provider_mandate_ref", ref) with
      | error e => rfl
      | ok url => cases heard <;> rfl
    · unfold listing
      cases expand H format (path H "RAZORPAY_AGENTIC_TOKEN_LIST_PATH") ("customer_id", ref) with
      | error e => rfl
      | ok url => cases heard <;> rfl

/-! ## What a debit asks of Razorpay -/

variable {H format}

theorem bind_ok {α β : Type} {x : Except Exc α} {f : α → Except Exc β} {b : β}
    (h : x >>= f = .ok b) : ∃ a, x = .ok a ∧ f a = .ok b := by
  cases x with
  | error e => cases h
  | ok a => exact ⟨a, rfl, h⟩

theorem reading_ok {α : Type} {x : Except PyError α} {a : α} (h : reading x = .ok a) : x = .ok a := by
  cases x with
  | error e => cases h
  | ok b => exact congrArg Except.ok (Except.ok.inj h)

theorem body_ok {r : HttpReply} {data : Json} (h : r.body = .ok data) :
    200 ≤ r.status_code ∧ r.status_code ≤ 299 := by
  unfold HttpReply.body HttpReply.raise_for_status at h
  by_contra hne
  rw [if_neg hne] at h
  cases h

theorem listing_get {ref : String} {r : HttpRequest} (h : listing H format ref = .ok r) :
    r.method = .get := by
  unfold listing at h
  cases hurl : expand H format (path H "RAZORPAY_AGENTIC_TOKEN_LIST_PATH") ("customer_id", ref) with
  | error e =>
    rw [hurl] at h
    cases h
  | ok url =>
    rw [hurl] at h
    obtain rfl := Except.ok.inj h
    rfl

/-- What a debit that went well tells. -/
theorem Debit.result_ok {d : Debit} {token_id answer : Json} {r : HttpReply}
    (h : d.result token_id r = .ok answer) :
    (200 ≤ r.status_code ∧ r.status_code ≤ 299) ∧
      ∃ ref, answer.get "provider_payment_ref" = .ok ref ∧ ref.truthy = true := by
  unfold Debit.result at h
  split at h
  · cases h
  obtain ⟨data, hdata, h⟩ := bind_ok h
  obtain ⟨id, -, h⟩ := bind_ok h
  obtain ⟨payment_id, -, h⟩ := bind_ok h
  obtain ⟨payment_ref, -, h⟩ := bind_ok h
  dsimp only at h
  split at h
  · cases h
  next href =>
  obtain ⟨status, -, h⟩ := bind_ok h
  obtain ⟨amount, -, h⟩ := bind_ok h
  obtain ⟨currency, -, h⟩ := bind_ok h
  obtain rfl := Except.ok.inj h
  exact ⟨body_ok hdata, _, rfl, by simpa using href⟩

/-- Every body a debit may send names its authorization, its amount and its currency. -/
theorem Debit.payload_names {d : Debit} {token_id payload : Json} (h : d.payload H token_id = .ok payload) :
    payload.get "amount" = .ok (.int d.amount_minor_units) ∧
      payload.get "currency" = .ok (.str d.currency) ∧ payload.get "notes" = .ok d.notes := by
  unfold Debit.payload at h
  split at h
  · obtain rfl := Except.ok.inj h
    exact ⟨rfl, rfl, rfl⟩
  · split at h
    · cases h
    · obtain rfl := Except.ok.inj h
      exact ⟨rfl, rfl, rfl⟩

/-- The request may be made for the debit `d`, with the token `token_id`. -/
structure Debit.Asks (H : Host) (d : Debit) (token_id : Json) (r : HttpRequest) : Prop where
  configured : get_config H = .ok ()
  positive : 0 < d.amount_minor_units
  url : r.url = path H "RAZORPAY_AGENTIC_AUTHORIZE_PATH"
  key : r.idempotency_key = some d.idempotency_key
  payload : ∃ payload, r.json = some payload ∧ d.payload H token_id = .ok payload ∧
    payload.get "amount" = .ok (.int d.amount_minor_units) ∧
    payload.get "currency" = .ok (.str d.currency) ∧ payload.get "notes" = .ok d.notes

/-- The token that is debited: the first active one of a listing that was asked before, or none
where the deployment lists no tokens. -/
def Chosen (H : Host) (token_id : Json) (before : List (HttpRequest × Option Heard)) : Prop :=
  if path H "RAZORPAY_AGENTIC_TOKEN_LIST_PATH" = "" then token_id = .null ∧ before = []
  else ∃ request reply, before = [(request, some (.ok reply))] ∧ firstActive H reply = .ok token_id

/-- What a debit may have asked, with what it came to: at most a listing and one debit request,
in this order; the debit with the first active token listed, if tokens are listed; and no success
without a debit request that succeeded. -/
structure Debit.Careful (H : Host) (format : String → String × String → Except PyError String) (d : Debit)
    (calls : List (HttpRequest × Option Heard)) (result : Option Answer) : Prop where
  reads : ∀ c ∈ calls, c.1.method ≠ .post → listing H format d.provider_mandate_ref = .ok c.1
  debits : ∀ before c after, calls = before ++ c :: after → c.1.method = .post →
    after = [] ∧ (∀ b ∈ before, b.1.method ≠ .post) ∧
      ∃ token_id, d.Asks H token_id c.1 ∧ Chosen H token_id before
  paid : ∀ answer, result = some (.ok answer) → ∃ before c reply, calls = before ++ [c] ∧
    c.1.method = .post ∧ c.2 = some (.ok reply) ∧ 200 ≤ reply.status_code ∧ reply.status_code ≤ 299 ∧
    ∃ ref, answer.get "provider_payment_ref" = .ok ref ∧ ref.truthy = true

namespace Debit

variable {d : Debit}

/-- Nothing was asked, or only the tokens, and nothing came of it. -/
theorem careful_unpaid {calls : List (HttpRequest × Option Heard)} {result : Option Answer}
    (hcalls : ∀ c ∈ calls, c.1.method = .get ∧ listing H format d.provider_mandate_ref = .ok c.1)
    (hresult : ∀ answer, result ≠ some (.ok answer)) : d.Careful H format calls result where
  reads := fun c hc _ => (hcalls c hc).2
  debits := fun before c after heq hpost => by
    have hget := (hcalls c (heq ▸ List.mem_append_right _ List.mem_cons_self)).1
    rw [hpost] at hget
    cases hget
  paid := fun answer h => absurd h (hresult answer)

/-- The debit was asked last. -/
theorem careful_debited {before : List (HttpRequest × Option Heard)} {token_id payload : Json}
    {heard : Option Heard} {result : Option Answer}
    (hbefore : ∀ c ∈ before, c.1.method = .get ∧ listing H format d.provider_mandate_ref = .ok c.1)
    (hasks : d.Asks H token_id (d.request H payload))
    (htoken : Chosen H token_id before)
    (hresult : ∀ answer, result = some (.ok answer) → ∃ reply, heard = some (.ok reply) ∧
      d.result token_id reply = .ok answer) :
    d.Careful H format (before ++ [(d.request H payload, heard)]) result where
  reads := fun c hc hne => by
    rcases List.mem_append.mp hc with hc | hc
    · exact (hbefore c hc).2
    · rw [List.mem_singleton.mp hc] at hne
      exact absurd rfl hne
  debits := fun before' c after heq hpost => by
    rcases List.eq_nil_or_concat' after with rfl | ⟨after, last, rfl⟩
    · obtain ⟨rfl, hc⟩ := List.append_inj' heq rfl
      obtain rfl := List.singleton_inj.mp hc
      refine ⟨rfl, fun b hb hb' => ?_, token_id, hasks, htoken⟩
      rw [(hbefore b hb).1] at hb'
      cases hb'
    · -- an earlier request only reads
      have hmem : c ∈ before := by
        have heq' : before ++ [(d.request H payload, heard)] = (before' ++ c :: after) ++ [last] := by
          rw [heq, List.append_assoc, List.cons_append]
        rw [(List.append_inj' heq' rfl).1]
        exact List.mem_append_right _ List.mem_cons_self
      rw [(hbefore c hmem).1] at hpost
      cases hpost
  paid := fun answer h => by
    obtain ⟨reply, rfl, hres⟩ := hresult answer h
    obtain ⟨⟨hlow, hhigh⟩, href⟩ := result_ok hres
    exact ⟨before, _, reply, rfl, rfl, rfl, hlow, hhigh, href⟩

end Debit

/-- From the token on, a debit asks once for the money. -/
theorem debit_careful {d : Debit} {before : List (HttpRequest × Option Heard)} {token_id : Json}
    {exec : Stmt → World → World} {st : World}
    (hamount : 0 < d.amount_minor_units) (hconfig : get_config H = .ok ())
    (hbefore : ∀ c ∈ before, c.1.method = .get ∧ listing H format d.provider_mandate_ref = .ok c.1)
    (htoken : Chosen H token_id before) :
    (Wire.attempt (d.payload H token_id) fun payload =>
      Wire.ask (d.request H payload) fun reply => .ret (d.result token_id reply)).Wp exec
        (fun _ calls result => d.Careful H format calls result) before st := by
  refine Wire.wp_attempt (fun e _ => Debit.careful_unpaid hbefore fun _ h => by cases h)
    fun payload hpayload => ?_
  have hasks : d.Asks H token_id (d.request H payload) :=
    ⟨hconfig, hamount, rfl, rfl, payload, rfl, hpayload, Debit.payload_names hpayload⟩
  refine Wire.wp_ask (Debit.careful_debited hbefore hasks htoken fun _ h => by cases h)
    (fun e => Debit.careful_debited hbefore hasks htoken fun _ h => by cases h) fun reply => ?_
  exact Debit.careful_debited hbefore hasks htoken fun answer h => ⟨reply, rfl, Option.some.inj h⟩

theorem authorize_payment_wp (d : Debit) (exec : Stmt → World → World) (st : World) :
    (authorize_payment H format d).Wp exec (fun _ calls result => d.Careful H format calls result)
      [] st := by
  have hnone : ∀ e, d.Careful H format [] (some (.error e)) := fun e =>
    Debit.careful_unpaid (fun _ hc => absurd hc List.not_mem_nil) fun _ h => by cases h
  unfold authorize_payment
  split
  · exact hnone _
  next hamount =>
  refine Wire.wp_attempt (fun e _ => hnone e) fun _ hconfig => ?_
  have hamount := not_le.mp hamount
  unfold withToken
  split
  next hpath =>
    refine debit_careful hamount hconfig (fun _ hc => absurd hc List.not_mem_nil) ?_
    rw [Chosen, if_pos hpath]
    exact ⟨rfl, rfl⟩
  next hpath =>
    refine Wire.wp_attempt (fun e _ => hnone e) fun request hrequest => ?_
    have hlisted : ∀ heard : Option Heard, ∀ c ∈ [(request, heard)],
        c.1.method = .get ∧ listing H format d.provider_mandate_ref = .ok c.1 := by
      intro heard c hc
      rw [List.mem_singleton.mp hc]
      exact ⟨listing_get hrequest, hrequest⟩
    refine Wire.wp_ask (Debit.careful_unpaid (hlisted _) fun _ h => by cases h)
      (fun e => Debit.careful_unpaid (hlisted _) fun _ h => by cases h) fun reply => ?_
    refine Wire.wp_attempt (fun e _ => Debit.careful_unpaid (hlisted _) fun _ h => by cases h)
      fun token_id htoken => ?_
    refine debit_careful hamount hconfig (hlisted _) ?_
    rw [Chosen, if_neg hpath]
    exact ⟨request, reply, rfl, htoken⟩

/-- Some replies of Razorpay lead to a debit request. -/
def CanDebit (H : Host) (format : String → String × String → Except PyError String) (d : Debit)
    (exec : Stmt → World → World) (st : World) : Prop :=
  ∃ replies, ∃ c ∈ ((authorize_payment H format d).eval exec replies st).calls, c.1.method = .post

/-- A listing of one active token. -/
def oneToken : HttpReply :=
  ⟨200, "", .ok (.dict [("items", .list [.dict [("id", .str "token"), ("status", .str "active")]])]), ""⟩

theorem firstActive_oneToken (hactive : H.lower "active" = "active") :
    firstActive H oneToken = .ok (.str "token") := by
  have hkeep : keepActive H [.dict [("id", .str "token"), ("status", .str "active")]] =
      .ok [.dict [("id", .str "token"), ("status", .str "active")]] := by
    have hlower : pyLower H.toText (.str "active") = "active" := hactive
    simp [keepActive, isActive, Json.getD, List.lookup_cons, hlower, bind, Except.bind, pure, Except.pure]
  have hbody : oneToken.body = .ok (.dict
      [("items", .list [.dict [("id", .str "token"), ("status", .str "active")]])]) := rfl
  unfold firstActive
  rw [hbody]
  simp [Json.getD, Json.get, reading, activeTokens, hkeep, Except.mapError, bind, Except.bind,
    pure, Except.pure, Json.truthy]

/-- The body of a debit can be built where the mode needs no token, or there is one. -/
theorem payload_ok {d : Debit} {token_id : Json}
    (h : payload_mode H = "provider_mandate" ∨ token_id.truthy = true) :
    ∃ payload, d.payload H token_id = .ok payload := by
  unfold Debit.payload
  split
  · exact ⟨_, rfl⟩
  next hmode =>
    rw [if_neg (by simp [h.resolve_left hmode])]
    exact ⟨_, rfl⟩

/-- **The capability probe.** With a positive amount, and a token path that can be filled in, some
replies of Razorpay lead to a debit exactly if the adapter reports autonomous settlement, except
in a payload mode other than the two known ones and without a token path: there the probe reports
a capability that no debit has. -/
theorem can_debit_iff {d : Debit} {exec : Stmt → World → World} {st : World}
    (hactive : H.lower "active" = "active") (hamount : 0 < d.amount_minor_units) {request : HttpRequest}
    (hlisting : listing H format d.provider_mandate_ref = .ok request) :
    CanDebit H format d exec st ↔ supports_autonomous_settlement H = true ∧
      (payload_mode H ∈ ["razorpay_recurring_token", "provider_mandate"] ∨
        path H "RAZORPAY_AGENTIC_TOKEN_LIST_PATH" ≠ "") := by
  have hsupports : supports_autonomous_settlement H = true ↔ get_config H = .ok () ∧
      ¬ (payload_mode H = "razorpay_recurring_token" ∧ path H "RAZORPAY_AGENTIC_TOKEN_LIST_PATH" = "") := by
    unfold supports_autonomous_settlement configured
    cases hconfig : get_config H with
    | ok u => simp [Except.isOk, Except.toBool, imp_iff_not_or]
    | error e => simp [Except.isOk, Except.toBool]
  rw [hsupports]
  constructor
  · rintro ⟨replies, c, hc, hpost⟩
    obtain ⟨before, after, heq⟩ := List.append_of_mem hc
    have hcareful := Prog.eval_spec (Q := fun _ calls result => d.Careful H format calls result)
      replies (authorize_payment_wp d exec st)
    obtain ⟨-, -, token_id, hasks, hchosen⟩ :=
      hcareful.debits before c after heq hpost
    obtain ⟨payload, -, hpayload, -⟩ := hasks.payload
    by_cases hpath : path H "RAZORPAY_AGENTIC_TOKEN_LIST_PATH" = ""
    · rw [Chosen, if_pos hpath] at hchosen
      rw [hchosen.1] at hpayload
      have hmode : payload_mode H = "provider_mandate" := by
        by_contra hne
        rw [Debit.payload, if_neg hne, if_pos (by decide)] at hpayload
        cases hpayload
      exact ⟨⟨hasks.configured, fun h => by simp [hmode] at h⟩, .inl (by simp [hmode])⟩
    · exact ⟨⟨hasks.configured, fun h => hpath h.2⟩, .inr hpath⟩
  · rintro ⟨⟨hconfig, hnot⟩, hmode⟩
    by_cases hpath : path H "RAZORPAY_AGENTIC_TOKEN_LIST_PATH" = ""
    · have hmode : payload_mode H = "provider_mandate" := by
        rcases hmode with hmode | hne
        · rcases List.mem_pair.mp hmode with h | h
          · exact absurd ⟨h, hpath⟩ hnot
          · exact h
        · exact absurd hpath hne
      obtain ⟨payload, hpayload⟩ : ∃ payload, d.payload H .null = .ok payload := payload_ok (.inl hmode)
      refine ⟨[], (d.request H payload, none), ?_, rfl⟩
      rw [authorize_payment, if_neg (not_le.mpr hamount), hconfig]
      show _ ∈ (Prog.eval exec (withToken H format d.provider_mandate_ref _) [] st).calls
      rw [withToken, if_pos hpath, hpayload]
      exact List.mem_singleton_self _
    · obtain ⟨payload, hpayload⟩ : ∃ payload, d.payload H (.str "token") = .ok payload :=
        payload_ok (.inr rfl)
      refine ⟨[.ok oneToken], (d.request H payload, none), ?_, rfl⟩
      rw [authorize_payment, if_neg (not_le.mpr hamount), hconfig]
      show _ ∈ (Prog.eval exec (withToken H format d.provider_mandate_ref _) _ st).calls
      rw [withToken, if_neg hpath, hlisting]
      show _ ∈ (request, some (.ok oneToken)) ::
        (Prog.eval exec (Wire.attempt (firstActive H oneToken) _) [] st).calls
      rw [firstActive_oneToken hactive]
      show _ ∈ _ :: (Prog.eval exec (Wire.attempt (d.payload H (.str "token")) _) [] st).calls
      rw [hpayload]
      exact List.mem_cons_of_mem _ (List.mem_singleton_self _)

end RazorpayAgenticProvider

namespace Sample

/-- A host with the agentic contract configured, under a payload mode and a token path. -/
def wireHost (mode token_list_path : String) : Host :=
  { host false [] with
    environ := fun name =>
      if name = "RAZORPAY_AGENTIC_CAPABILITY_CONFIRMED" then some "1"
      else if name = "RAZORPAY_AGENTIC_AUTHORIZE_PATH" then some "/payments/create/recurring"
      else if name = "RAZORPAY_AGENTIC_PAYMENT_PATH" then some "/payments/{payment_id}"
      else if name = "RAZORPAY_AGENTIC_AUTH_PAYLOAD_MODE" then some mode
      else if name = "RAZORPAY_AGENTIC_TOKEN_LIST_PATH" then some token_list_path
      else (host false []).environ name }

/-- The templates above, filled in. -/
def fill (template : String) (value : String × String) : Except PyError String :=
  if template = "/customers/{customer_id}/tokens" then
    .ok ("/customers/" ++ value.2 ++ "/tokens")
  else if template = "/payments/{payment_id}" then .ok ("/payments/" ++ value.2)
  else .ok template

def debit : RazorpayAgenticProvider.Debit := ⟨"auth", "ref", 100, "INR", "shop", "auth:agentic"⟩

end Sample

namespace RazorpayAgenticProvider

variable {H : Host} {format : String → String × String → Except PyError String}

/-- In a mode it does not know, and without a token path, the adapter reports a capability and
debits nothing. -/
theorem can_debit_unknown_mode :
    supports_autonomous_settlement (Sample.wireHost "upi_autopay" "") = true ∧
      ¬ CanDebit (Sample.wireHost "upi_autopay" "") Sample.fill Sample.debit (World.exec 0)
        Sample.mandatedWorld := by
  refine ⟨by decide, fun h => ?_⟩
  have hmode := ((@can_debit_iff (Sample.wireHost "upi_autopay" "") Sample.fill Sample.debit _ _
    rfl (by decide) _ rfl).mp h).2
  exact absurd hmode (by decide)

/-! ## What a capture asks of Razorpay -/

/-- A capture, as the service asks for it. -/
structure Capture where
  provider_payment_ref : Json
  amount_minor_units : Int
  currency : String
  idempotency_key : String

/-- The answer reports what the payment that was read says of itself. -/
def Told (H : Host) (payment answer : Json) : Prop :=
  (∃ said, payment.getD "status" (.str "") = .ok said ∧ pyLower H.toText said = "captured" ∧
    answer.get "status" = .ok (.str "already_captured")) ∨
  ∃ said, payment.getD "status" (.str "unknown") = .ok said ∧
    pyLower H.toText said ∈ ["captured", "paid", "completed"] ∧
    answer.get "status" = .ok (.str (pyLower H.toText said))

/-- What a capture may have asked, with what it came to: one read of the payment, and at most one
capture request, after a read that does not say `captured` and at the path that is configured; and
a status is only reported that one of the two replies states. -/
structure Capture.Careful (H : Host) (format : String → String × String → Except PyError String)
    (p : Capture) (calls : List (HttpRequest × Option Heard)) (result : Option Answer) : Prop where
  captures : ∀ before c after, calls = before ++ c :: after → c.1.method = .post →
    after = [] ∧ path H "RAZORPAY_AGENTIC_CAPTURE_PATH" ≠ "" ∧
      (∃ url, c.1 = captureRequest H url p.amount_minor_units p.currency p.idempotency_key) ∧
      ∃ request reply payment status, before = [(request, some (.ok reply))] ∧ request.method = .get ∧
        reply.body = .ok payment ∧ payment.getD "status" (.str "") = .ok status ∧
        pyLower H.toText status ≠ "captured"
  reported : ∀ answer, result = some (.ok answer) → ∃ before c reply data,
    calls = before ++ [(c, some (.ok reply))] ∧ reply.body = .ok data ∧
      (c.method = .post ∧ answer.get "status" = data.getD "status" (.str "unknown") ∨
        c.method = .get ∧ Told H data answer)

theorem readResult_ok {status : String} {payment answer : Json}
    (h : readResult status payment = .ok answer) : answer.get "status" = .ok (.str status) := by
  obtain ⟨amount, -, h⟩ := bind_ok h
  obtain ⟨currency, -, h⟩ := bind_ok h
  obtain rfl := Except.ok.inj h
  rfl

theorem captureResult_ok {amount : Int} {currency : String} {r : HttpReply} {answer : Json}
    (h : captureResult amount currency r = .ok answer) :
    ∃ data, r.body = .ok data ∧ answer.get "status" = data.getD "status" (.str "unknown") := by
  unfold captureResult at h
  split at h
  · cases h
  obtain ⟨data, hdata, h⟩ := bind_ok h
  obtain ⟨status, hstatus, h⟩ := bind_ok h
  obtain ⟨amount', -, h⟩ := bind_ok h
  obtain ⟨currency', -, h⟩ := bind_ok h
  obtain rfl := Except.ok.inj h
  refine ⟨data, hdata, ?_⟩
  cases hs : data.getD "status" (.str "unknown") with
  | error e =>
    rw [hs] at hstatus
    cases hstatus
  | ok status' =>
    rw [hs] at hstatus
    exact congrArg Except.ok (Except.ok.inj hstatus).symm

namespace Capture

variable {p : Capture} {before : List (HttpRequest × Option Heard)} {request : HttpRequest}
  {reply : HttpReply} {result : Option Answer}

/-- Nothing more than the read was asked, and nothing came of it. -/
theorem careful_failed (hcalls : ∀ c ∈ before, c.1.method = .get)
    (hresult : ∀ answer, result ≠ some (.ok answer)) : p.Careful H format before result where
  captures := fun b c a heq hpost => by
    rw [hcalls c (heq ▸ List.mem_append_right _ List.mem_cons_self)] at hpost
    cases hpost
  reported := fun answer h => absurd h (hresult answer)

/-- The read is all there is, and the answer is what it says. -/
theorem careful_read {payment : Json} (hget : request.method = .get) (hbody : reply.body = .ok payment)
    (hresult : ∀ answer, result = some (.ok answer) → Told H payment answer) :
    p.Careful H format [(request, some (.ok reply))] result where
  captures := fun b c a heq hpost => by
    have hmem : c ∈ [(request, some (.ok reply))] := heq ▸ List.mem_append_right _ List.mem_cons_self
    rw [List.mem_singleton.mp hmem, hget] at hpost
    cases hpost
  reported := fun answer h =>
    ⟨[], request, reply, payment, rfl, hbody, .inr ⟨hget, hresult answer h⟩⟩

/-- The capture was asked after the read. -/
theorem careful_captured {payment status : Json} {url : String} {heard : Option Heard}
    (hget : request.method = .get) (hbody : reply.body = .ok payment)
    (hstatus : payment.getD "status" (.str "") = .ok status) (hne : pyLower H.toText status ≠ "captured")
    (hpath : path H "RAZORPAY_AGENTIC_CAPTURE_PATH" ≠ "")
    (hresult : ∀ answer, result = some (.ok answer) → ∃ r, heard = some (.ok r) ∧
      captureResult p.amount_minor_units p.currency r = .ok answer) :
    p.Careful H format [(request, some (.ok reply)),
      (captureRequest H url p.amount_minor_units p.currency p.idempotency_key, heard)] result where
  captures := fun b c a heq hpost => by
    cases b with
    | nil =>
      obtain ⟨rfl, -⟩ := List.cons.inj heq
      rw [hget] at hpost
      cases hpost
    | cons x b =>
      obtain ⟨rfl, hrest⟩ := List.cons.inj heq
      cases b with
      | nil =>
        obtain ⟨rfl, rfl⟩ := List.cons.inj hrest
        exact ⟨rfl, hpath, ⟨url, rfl⟩, request, reply, payment, status, rfl, hget, hbody, hstatus, hne⟩
      | cons y b => exact absurd (List.cons.inj hrest).2 (by simp)
  reported := fun answer h => by
    obtain ⟨r, rfl, hres⟩ := hresult answer h
    obtain ⟨data, hdata, hstatus⟩ := captureResult_ok hres
    exact ⟨[(request, some (.ok reply))], _, r, data, rfl, hdata, .inl ⟨rfl, hstatus⟩⟩

end Capture

/-- Once the payment is read. -/
theorem capture_read_careful {p : Capture} {exec : Stmt → World → World} {st : World}
    {request : HttpRequest} {reply : HttpReply} {payment : Json} (hget : request.method = .get)
    (hbody : reply.body = .ok payment) :
    (capture_read H format p.provider_payment_ref p.amount_minor_units p.currency p.idempotency_key
      payment).Wp exec (fun _ calls result => p.Careful H format calls result)
      [(request, some (.ok reply))] st := by
  have honly : ∀ c ∈ ([(request, some (.ok reply))] : List (HttpRequest × Option Heard)),
      c.1.method = .get := fun c hc => by
    rw [List.mem_singleton.mp hc]
    exact hget
  unfold capture_read
  refine Wire.wp_attempt (fun e _ => Capture.careful_failed honly fun _ h => by cases h)
    fun status hstatus => ?_
  have hstatus : payment.getD "status" (.str "") = .ok status := reading_ok hstatus
  split
  next hcaptured =>
    exact Capture.careful_read hget hbody fun answer h =>
      .inl ⟨status, hstatus, hcaptured, readResult_ok (Option.some.inj h)⟩
  next hne =>
  split
  · refine Wire.wp_attempt (fun e _ => Capture.careful_failed honly fun _ h => by cases h)
      fun said hsaid => ?_
    dsimp only
    split
    next hmem =>
      exact Capture.careful_read hget hbody fun answer h =>
        .inr ⟨said, reading_ok hsaid, hmem, readResult_ok (Option.some.inj h)⟩
    next => exact Capture.careful_failed honly fun _ h => by cases h
  next hpath =>
    refine Wire.wp_attempt (fun e _ => Capture.careful_failed honly fun _ h => by cases h)
      fun url _ => ?_
    exact Wire.wp_ask
      (Capture.careful_captured hget hbody hstatus hne hpath fun _ h => by cases h)
      (fun e => Capture.careful_captured hget hbody hstatus hne hpath fun _ h => by cases h)
      fun r => Capture.careful_captured hget hbody hstatus hne hpath
        fun answer h => ⟨r, rfl, Option.some.inj h⟩

/-- The request that deletes a token. -/
def deletion (H : Host) (provider_mandate_ref : String) (token_id : Json) : HttpRequest :=
  request H .delete ("/customers/" ++ provider_mandate_ref ++ "/tokens/" ++ pyStr H.toText token_id)

/-- The ids of the listed tokens that have one, in order. -/
def tokenIds (tokens : List Json) : List Json :=
  (tokens.filterMap fun token => (token.get "id").toOption).filter Json.truthy

/-- The token is gone. -/
def gone (c : HttpRequest × Option Heard) : Bool :=
  c.2.any fun heard => heard.toOption.any fun reply =>
    decide (reply.status_code = 200 ∨ reply.status_code = 204)

theorem gone_ok {r : HttpRequest} {reply : HttpReply} :
    gone (r, some (.ok reply)) = decide (reply.status_code = 200 ∨ reply.status_code = 204) := rfl

/-- What the deletions have asked, with what they came to: each listed token once and in order, as
far as they got; and an answer only when all were asked, which counts those that are gone. -/
def Deletes (H : Host) (ref : String) (tokens : List Json) (deleted : Int)
    (calls : List (HttpRequest × Option Heard)) (result : Option Answer) : Prop :=
  calls.map Prod.fst <+: (tokenIds tokens).map (deletion H ref) ∧
    ∀ answer, result = some (.ok answer) →
      calls.map Prod.fst = (tokenIds tokens).map (deletion H ref) ∧
        answer = .dict [("status", .str "revoked"),
          ("tokens_deleted", .int (deleted + calls.countP gone))]

theorem deleteTokens_deletes {ref : String} {exec : Stmt → World → World} {st : World}
    (tokens : List Json) : ∀ (deleted : Int) (before : List (HttpRequest × Option Heard)),
    (deleteTokens H ref tokens deleted).Wp exec
      (fun _ calls result => ∃ more, calls = before ++ more ∧ Deletes H ref tokens deleted more result)
      before st := by
  have hstop : ∀ (tokens : List Json) (deleted : Int) (result : Option Answer),
      (∀ answer, result ≠ some (.ok answer)) → Deletes H ref tokens deleted [] result :=
    fun _ _ _ h => ⟨List.nil_prefix, fun answer h' => absurd h' (h answer)⟩
  induction tokens with
  | nil =>
    intro deleted before
    refine ⟨[], (List.append_nil _).symm, List.nil_prefix, fun answer h => ⟨rfl, ?_⟩⟩
    rw [← Except.ok.inj (Option.some.inj h)]
    simp
  | cons token tokens ih =>
    intro deleted before
    unfold deleteTokens
    refine Wire.wp_attempt (fun e _ => ⟨[], (List.append_nil _).symm, hstop _ _ _ fun _ h => by cases h⟩)
      fun token_id hid => ?_
    have hget : (token.get "id").toOption = some token_id := by rw [reading_ok hid]; rfl
    split
    next hfalse =>
      -- a token without an id is passed over
      have hids : tokenIds (token :: tokens) = tokenIds tokens := by
        unfold tokenIds
        rw [List.filterMap_cons, hget, List.filter_cons_of_neg (by simpa using hfalse)]
      refine Prog.wp_mono ?_ (ih deleted before)
      rintro _ calls result ⟨more, hcalls, hdel⟩
      exact ⟨more, hcalls, by rwa [Deletes, hids]⟩
    next htrue =>
      have hids : tokenIds (token :: tokens) = token_id :: tokenIds tokens := by
        unfold tokenIds
        rw [List.filterMap_cons, hget, List.filter_cons_of_pos (by simpa using htrue)]
      have hone : ∀ (heard : Option Heard) (result : Option Answer),
          (∀ answer, result ≠ some (.ok answer)) →
          Deletes H ref (token :: tokens) deleted [(deletion H ref token_id, heard)] result := by
        intro heard result hres
        refine ⟨?_, fun answer h => absurd h (hres answer)⟩
        rw [hids]
        exact (List.prefix_cons_inj _).mpr List.nil_prefix
      refine Wire.wp_ask ⟨_, rfl, hone none none fun _ h => by cases h⟩
        (fun e => ⟨_, rfl, hone _ _ fun _ h => by cases h⟩) fun reply => ?_
      refine Prog.wp_mono ?_ (ih _ _)
      rintro _ calls result ⟨more, rfl, hprefix, hanswer⟩
      refine ⟨(deletion H ref token_id, some (.ok reply)) :: more, by rw [List.append_assoc]; rfl, ?_⟩
      rw [Deletes, hids, List.map_cons, List.map_cons]
      refine ⟨(List.prefix_cons_inj _).mpr hprefix, fun answer h => ?_⟩
      obtain ⟨hall, rfl⟩ := hanswer answer h
      refine ⟨by rw [hall], ?_⟩
      rw [List.countP_cons]
      by_cases hgone : reply.status_code = 200 ∨ reply.status_code = 204
      · simp [gone_ok, hgone, add_comm, add_left_comm]
      · simp [gone_ok, hgone]

/-- The tokens of a listing, as `revoke_mandate` reads them. -/
def listed (reply : HttpReply) : Except Exc (List Json) :=
  reply.body.bind fun data => reading (data.getD "items" (.list []) >>= pyList)

/-- What a revocation without an endpoint of its own may have asked, with what it came to. -/
def Revokes (H : Host) (format : String → String × String → Except PyError String) (ref : String)
    (calls : List (HttpRequest × Option Heard)) (result : Option Answer) : Prop :=
  (∀ c ∈ calls, c.1.method ≠ .post) ∧ ∀ answer, result = some (.ok answer) →
    ∃ request reply tokens more, listing H format ref = .ok request ∧ listed reply = .ok tokens ∧
      calls = (request, some (.ok reply)) :: more ∧
      more.map Prod.fst = (tokenIds tokens).map (deletion H ref) ∧
      answer = .dict [("status", .str "revoked"), ("tokens_deleted", .int (more.countP gone))]

/-- **A revocation deletes what is listed.** Without a revocation endpoint of its own, whatever
Razorpay replies and wherever it is cut off, `revoke_mandate` moves no money; and when it answers
`revoked`, it has listed the tokens of the mandate and then asked for the deletion of each of them
once, in order, and counts those that Razorpay confirmed: that may be none. -/
theorem revoke_mandate_deletes {ref : String} (hpath : path H "RAZORPAY_AGENTIC_REVOKE_PATH" = "")
    (exec : Stmt → World → World) (st : World) (replies : List Heard) :
    Revokes H format ref ((revoke_mandate H format ref).eval exec replies st).calls
      ((revoke_mandate H format ref).eval exec replies st).value := by
  refine Prog.eval_spec (Q := fun _ calls result => Revokes H format ref calls result) replies ?_
  have hfailed : ∀ {calls : List (HttpRequest × Option Heard)} {result : Option Answer},
      (∀ c ∈ calls, c.1.method ≠ .post) → (∀ answer, result ≠ some (.ok answer)) →
      Revokes H format ref calls result := fun hcalls hres => ⟨hcalls, fun a h => absurd h (hres a)⟩
  have hnone : ∀ e, Revokes H format ref [] (some (.error e)) := fun e =>
    hfailed (fun _ hc => absurd hc List.not_mem_nil) fun _ h => by cases h
  unfold revoke_mandate
  refine Wire.wp_attempt (fun e _ => hnone e) fun _ _ => ?_
  rw [if_neg (not_not.mpr hpath)]
  split
  · exact hnone _
  refine Wire.wp_attempt (fun e _ => hnone e) fun request hrequest => ?_
  have hread : ∀ heard : Option Heard, ∀ c ∈ [(request, heard)], c.1.method ≠ .post := by
    intro heard c hc
    rw [List.mem_singleton.mp hc, listing_get hrequest]
    exact fun h => by cases h
  refine Wire.wp_ask (hfailed (hread _) fun _ h => by cases h)
    (fun e => hfailed (hread _) fun _ h => by cases h) fun reply => ?_
  refine Wire.wp_attempt (fun e _ => hfailed (hread _) fun _ h => by cases h) fun tokens htokens => ?_
  refine Prog.wp_mono ?_ (deleteTokens_deletes tokens 0 _)
  rintro _ calls result ⟨more, rfl, hinit, hanswer⟩
  constructor
  · intro c hc
    rcases List.mem_append.mp hc with hc | hc
    · exact hread _ c hc
    · obtain ⟨id, -, hid⟩ := List.mem_map.mp (hinit.subset (List.mem_map_of_mem hc))
      rw [← hid]
      exact fun h => by cases h
  · intro answer h
    obtain ⟨hall, rfl⟩ := hanswer answer h
    exact ⟨request, reply, tokens, more, hrequest, htokens, rfl, hall, by rw [zero_add]⟩

/-- A token is listed, Razorpay refuses to delete it, and the mandate is reported as revoked. -/
theorem revoke_mandate_refused :
    ((revoke_mandate (Sample.wireHost "" "/customers/{customer_id}/tokens") Sample.fill "ref").eval
      (World.exec 0) [.ok oneToken, .ok ⟨403, "", .ok .null, "Forbidden"⟩] Sample.mandatedWorld).value =
        some (.ok (.dict [("status", .str "revoked"), ("tokens_deleted", .int 0)])) ∧
    Revokes (Sample.wireHost "" "/customers/{customer_id}/tokens") Sample.fill "ref"
      ((revoke_mandate (Sample.wireHost "" "/customers/{customer_id}/tokens") Sample.fill "ref").eval
        (World.exec 0) [.ok oneToken, .ok ⟨403, "", .ok .null, "Forbidden"⟩] Sample.mandatedWorld).calls
      (some (.ok (.dict [("status", .str "revoked"), ("tokens_deleted", .int 0)]))) :=
  ⟨rfl, revoke_mandate_deletes rfl (World.exec 0) Sample.mandatedWorld
    [.ok oneToken, .ok ⟨403, "", .ok .null, "Forbidden"⟩]⟩

end RazorpayAgenticProvider

end Paari
