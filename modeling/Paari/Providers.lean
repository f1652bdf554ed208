import Paari.Audit

/-!
# Payment providers

`RazorpayAdapter` turns each operation into one HTTP request with the
credentials the process environment holds for it; what the wire returns is the
call's `Answer`. An agentic adapter is a class the deployment names; it is only
known through its answers.
-/

namespace Paari

/-- `RazorpayAdapter`, with the credentials it was built with (empty: shared). -/
structure RazorpayAdapter where
  org_id : String
  key_id_override : String
  key_secret_override : String
  webhook_secret_override : String
deriving DecidableEq

namespace RazorpayAdapter

variable (H : Host) (p : RazorpayAdapter)

def default : RazorpayAdapter := ⟨"default", "", "", ""⟩

def PRODUCTION_API_BASE : String := "https://api.razorpay.com/v1"

/-- `a or b` on strings. -/
def orStr (a b : String) : String := if a = "" then b else a

def key_id : String := orStr p.key_id_override (H.env "RAZORPAY_KEY_ID")

/-- `s.rstrip("/")` -/
def rstripSlash (s : String) : String :=
  String.ofList (s.toList.reverse.dropWhile (· = '/')).reverse

def api_base : String := rstripSlash (H.env "RAZORPAY_API_BASE" PRODUCTION_API_BASE)

def startsWith (s pre : String) : Bool := pre.toList.isPrefixOf s.toList

/-- `classify_environment` -/
def classify_environment (key_id api_base : String) : String :=
  let base := orStr (rstripSlash api_base) PRODUCTION_API_BASE
  if base ≠ PRODUCTION_API_BASE then "simulated"
  else if startsWith key_id "rzp_test_" then "test"
  else if startsWith key_id "rzp_live_" then "live"
  else "unknown"

def provenance : Provenance where
  provider_environment := some (classify_environment (p.key_id H) (api_base H))
  provider_key_id_prefix := some (if p.key_id H = "" then none else some (slice 12 (p.key_id H)))
  provider_api_base := some (some (api_base H))

/-- `get_config`, run before every request: the shared key pair must be set. -/
def get_config : Except Exc Unit :=
  if H.env "RAZORPAY_KEY_ID" = "" ∨ H.env "RAZORPAY_KEY_SECRET" = "" then
    .error (.razorpayConfig
      "RAZORPAY_KEY_ID/RAZORPAY_KEY_SECRET must be set for Phase 5 execution")
  else .ok ()

/-- One request of the adapter. -/
def request (op : Op) : Handler Answer :=
  match get_config H with
  | .error e => .ret (.error e)
  | .ok _ => Handler.send (.razorpay p.org_id (p.key_id H)) op

/-- `create_payment` -/
def create_payment (authorization_id : String) (amount_minor_units : Int) (currency : String)
    (notes : List (String × String)) : Handler Answer := do
  if amount_minor_units ≤ 0 then return .error (.other "amount must be positive")
  let answer ← p.request H (.create_payment authorization_id amount_minor_units currency notes)
  return do
    let data ← answer
    match data.contains "id" with
    | .ok true => .ok data
    | .ok false =>
      .error (.other (String.append "Razorpay order response missing id: " (H.repr data)))
    | .error e => .error (.python e)

def get_payment (payment_id : String) : Handler Answer := p.request H (.get_payment payment_id)

/-- `r.json().get("items", [])` -/
def items (data : Json) : Answer := (data.getD "items" (.list [])).mapError .python

def fetch_payments (order_id : String) : Handler Answer := do
  let answer ← p.request H (.fetch_payments order_id)
  return answer.bind items

/-- `xs[0] if xs else None` -/
def firstOrNone (xs : Json) : Answer :=
  if !xs.truthy then .ok .null
  else match xs with
    | .list (x :: _) => .ok x
    | .str s => .ok (.str (slice 1 s))
    | .dict _ => .error (.python (.keyError "0"))
    | _ => .error (.python .typeError)

def fetch_order_by_receipt (receipt : String) : Handler Answer := do
  let answer ← p.request H (.fetch_order_by_receipt receipt)
  return (answer.bind items).bind firstOrNone

def refund (payment_id : String) (amount_minor_units : Int) : Handler Answer := do
  if amount_minor_units ≤ 0 then return .error (.other "amount must be positive")
  p.request H (.refund payment_id amount_minor_units)

/-- `verify_webhook`: HMAC under the webhook secret, nothing else. -/
def verify_webhook (raw_body signature : String) : Bool :=
  let secret := orStr p.webhook_secret_override (H.env "RAZORPAY_WEBHOOK_SECRET")
  raw_body != "" && signature != "" && secret != "" &&
    signature == H.hmac_sha256_hex secret raw_body

end RazorpayAdapter

/-- `xs[-1] if xs else None` -/
def lastOrNone (xs : Json) : Answer :=
  if !xs.truthy then .ok .null
  else match xs with
    | .list ys => .ok (ys.getLast?.getD .null)
    | .str s => .ok (.str ((s.toList.getLast?.map String.singleton).getD ""))
    | .dict _ => .error (.python (.keyError "-1"))
    | _ => .error (.python .typeError)

/-! ## Which provider an organization uses -/

/-- `_env_tag` -/
def env_tag (H : Host) (org_id : String) : String := H.upper (H.strip_nonword org_id)

/-- `get_provider_for_org`: a tenant never falls back to the shared account. -/
def get_provider_for_org (H : Host) (db : DB) (org_id : String) : Except Exc RazorpayAdapter :=
  let resolved := RazorpayAdapter.orStr org_id "default"
  if resolved = "default" then .ok RazorpayAdapter.default
  else if !(db.provider_accounts.any fun a => a.org_id == resolved) then
    .error (.razorpayConfig
      (String.append "No payment provider account is configured for organization " resolved))
  else
    let tag := env_tag H resolved
    let key_id := H.env (String.append "RAZORPAY_KEY_ID__" tag)
    let key_secret := H.env (String.append "RAZORPAY_KEY_SECRET__" tag)
    let webhook_secret := H.env (String.append "RAZORPAY_WEBHOOK_SECRET__" tag)
    if key_id = "" ∨ key_secret = "" then
      .error (.razorpayConfig
        (String.append "Razorpay credentials are missing for organization " resolved))
    else if webhook_secret = "" then
      .error (.razorpayConfig
        (String.append "Razorpay webhook secret is missing for organization " resolved))
    else .ok ⟨resolved, key_id, key_secret, webhook_secret⟩

/-- `_provider_for` -/
def provider_for (H : Host) (db : DB) (org_id : String) : Except Exc RazorpayAdapter :=
  if org_id = "default" then .ok RazorpayAdapter.default else get_provider_for_org H db org_id

/-! ## Agentic adapters -/

/-- `_resolve_agentic_spec` -/
def resolve_agentic_spec (H : Host) (org_id : String) : String :=
  let resolved := RazorpayAdapter.orStr org_id "default"
  if resolved ≠ "default" then
    H.strip (H.env (String.append "PAARI_AGENTIC_PROVIDER__" (env_tag H resolved)))
  else H.strip (H.env "PAARI_AGENTIC_PROVIDER")

/-- `s.partition(":")`, without the separator. -/
def partitionColon (s : String) : String × String :=
  let (a, b) := s.toList.span (· ≠ ':')
  (String.ofList a, String.ofList (b.drop 1))

/-- `NotConfiguredAgenticProvider` -/
def NotConfiguredAgenticProvider : AgenticAdapter := ⟨false, none⟩

/-- `get_agentic_provider` -/
def get_agentic_provider (H : Host) (org_id : String) : Except Exc AgenticAdapter :=
  let spec := resolve_agentic_spec H org_id
  if spec = "" then .ok NotConfiguredAgenticProvider
  else
    let (module_name, class_name) := partitionColon spec
    if module_name = "" ∨ class_name = "" then
      .error (.agenticUnavailable (String.append (String.append "PAARI_AGENTIC_PROVIDER="
        (H.repr (.str spec))) " is malformed; expected 'module:ClassName'"))
    else
      match H.import_adapter module_name class_name with
      | some a => .ok a
      | none =>
        .error (.agenticUnavailable (String.append (String.append "PAARI_AGENTIC_PROVIDER="
          (H.repr (.str spec))) " could not be loaded"))

/-- `for k, v in provenance().items(): setattr(txn, k, v)` -/
def Provenance.stamp (v : Provenance) (txn : ProviderTransaction) : ProviderTransaction :=
  { txn with
    provider_environment := v.provider_environment.getD txn.provider_environment
    provider_key_id_prefix := v.provider_key_id_prefix.getD txn.provider_key_id_prefix
    provider_api_base := v.provider_api_base.getD txn.provider_api_base }

end Paari
