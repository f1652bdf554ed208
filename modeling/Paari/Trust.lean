import Paari.Webhook

/-!
# Parents, agents, keys

The trust root and what hangs from it: parent registration and approval, agent
registration (legacy and protocol 1.0), key rotation, and revocation of agents
and parents. An agent's capabilities, limit and currency come from a delegation
its parent signed, at registration and again at every rotation.
-/

namespace Paari

open Host (SECOND MINUTE DAY CREDENTIAL_TTL CLOCK_SKEW_LEEWAY_SECONDS)

def KEY_SUNSET_GRACE : Int := DAY

/-! ## Parents -/

structure ParentRegistrationRequest where
  parent_type : String
  contact : String
  public_key_pem : String

/-- `register_parent` -/
def register_parent (H : Host) (req : ParentRegistrationRequest) : Handler Reply := do
  if req.parent_type ∉ ["company", "developer", "platform", "agent", "idp"] then
    return http 400 "Invalid parent_type"
  if '@' ∉ req.contact.toList ∧ !RazorpayAdapter.startsWith req.contact "http" then
    return http 400 "Contact must be a verifiable email or URL"
  if H.strip req.public_key_pem = "" ∨ !H.is_ed25519_pem req.public_key_pem then
    return http 400 "Invalid parent public key; expected Ed25519 PEM"
  let id ← Handler.fresh
  let n ← Handler.fresh
  let parent : ParentAuthority := {
    id := id, parent_id := H.uuid4 n, org_id := "default", public_key_pem := req.public_key_pem
    status := .pending_verification, trust_tier := "self_asserted" }
  Handler.commit [.insertParent parent]
  return .parent parent.parent_id parent.status

/-- The admin routes on a parent: it must exist, and the key must reach its organization. -/
def withParent (H : Host) (parent_id x_admin_api_key : String)
    (k : ParentAuthority → Handler Reply) : Handler Reply := do
  let parent ← Handler.query fun db => db.parents.find? fun p => p.parent_id == parent_id
  match parent with
  | none => return http 404 "Parent authority not found"
  | some parent =>
  Handler.attempt (pure (H.require_admin_org x_admin_api_key parent.org_id)) fun _ => k parent

/-- `approve_parent` -/
def approve_parent (H : Host) (parent_id x_admin_api_key : String) : Handler Reply :=
  withParent H parent_id x_admin_api_key fun parent => do
  if parent.status = .revoked then return http 409 "Parent authority has been revoked"
  Handler.commit [.setParentStatus parent.id .active (some "admin_approved")]
  return .parent parent_id .active

/-- `reject_parent` -/
def reject_parent (H : Host) (parent_id x_admin_api_key : String) : Handler Reply :=
  withParent H parent_id x_admin_api_key fun parent => do
  Handler.commit [.setParentStatus parent.id .rejected none]
  return .parent parent_id .rejected

/-- `revoke_parent`: the live credentials of the parent's agents go with it. -/
def revoke_parent (H : Host) (parent_id x_admin_api_key : String) : Handler Reply :=
  withParent H parent_id x_admin_api_key fun parent => do
  let creds ← Handler.query fun db => db.credentials.filter fun c =>
    !c.revoked && db.agents.any fun a => a.parent_pk == parent.id && a.id == c.agent_pk
  Handler.commit (.setParentStatus parent.id .revoked none ::
    creds.map fun c => .revokeCredential c.credential_id none)
  return .parent parent_id .revoked

/-- `rotate_parent_key` -/
def rotate_parent_key (H : Host) (parent_id new_public_key_pem x_admin_api_key : String) :
    Handler Reply := do
  let parent ← Handler.query fun db => db.parents.find? fun p => p.parent_id == parent_id
  match parent.filter fun p => p.status = .active with
  | none => return http 404 "Active parent authority not found"
  | some parent =>
  Handler.attempt (pure (H.require_admin_org x_admin_api_key parent.org_id)) fun _ => do
  if !H.is_ed25519_pem new_public_key_pem then
    return http 400 "Invalid parent public key; expected Ed25519 PEM"
  let s ← record_audit H [.setParentKey parent.id new_public_key_pem] {
    transaction_id := "parent:" ++ parent_id, agent_id := "", parent_id := some parent_id
    kind := "parent_key_rotated", org_id := some parent.org_id
    detail := [("fingerprint", .str (H.public_key_fingerprint new_public_key_pem))] }
  Handler.commit s
  return .parent parent_id parent.status

/-! ## Registering an agent -/

/-- `delegation.model_dump(mode="json")` -/
def DelegationDocument.json (d : DelegationDocument) : Json :=
  .dict [("delegation_id", .str d.delegation_id), ("parent_id", .str d.parent_id),
    ("agent_public_key_fingerprint", .str d.agent_public_key_fingerprint),
    ("granted_capabilities", jsonStrings d.granted_capabilities),
    ("payment_limit_minor_units", .int d.payment_limit_minor_units),
    ("currency", .str d.currency), ("issued_at", .int d.issued_at),
    ("expires_at", .int d.expires_at)]

/-- The credential row an agent gets, never outliving its delegation. -/
def issueCredential (H : Host) (agent_pk : Nat) (org_id : String) (expires : Instant) :
    Handler Credential := do
  let n ← Handler.fresh
  let now ← Handler.now
  let issued_at ← Handler.now
  return {
    credential_id := H.uuid4 n, org_id := org_id, agent_pk := agent_pk, issued_at := issued_at
    expires_at := min (now + CREDENTIAL_TTL) expires, revoked := false, superseded_by := none }

/-- The audit events of a registration. -/
def registrationAudits (H : Host) (s : Session) (agent : Agent) (parent : ParentAuthority)
    (credential_id : String) (protocol : List (String × Json)) (org_id : Option String) :
    Handler Session := do
  let s ← record_audit H s {
    transaction_id := "delegation:" ++ agent.delegation_id, agent_id := agent.agent_id
    parent_id := some parent.parent_id, kind := "delegation_consumed", org_id := org_id
    detail := ("delegation_id", .str agent.delegation_id) :: protocol }
  record_audit H s {
    transaction_id := "delegation:" ++ agent.delegation_id, agent_id := agent.agent_id
    parent_id := some parent.parent_id, kind := "credential_issued", org_id := org_id
    detail := [("credential_id", .str credential_id)] }

/-- `register_agent` -/
def register_agent (H : Host) (req : AgentRegistrationRequest) : Handler Reply := do
  let d := req.delegation
  let parent ← Handler.query fun db => db.parents.find? fun p => p.parent_id == d.parent_id
  match parent.filter fun p => p.status = .active with
  | none => return paariHttp 401 .PARENT_REVOKED "Unknown, unverified, or revoked parent authority"
  | some parent =>
    match trust_refusal parent with
    | some reason => return paariHttp 401 .PARENT_REVOKED reason
    | none => do
    match H.verify_signature parent.public_key_pem (H.canonical_json d.json)
        req.delegation_signature_b64 with
    | none => .halt
    | some false => return http 401 "Delegation signature verification failed"
    | some true => do
    let now ← Handler.now
    match Host.fromtimestamp d.expires_at, Host.fromtimestamp d.issued_at with
    | .ok expires, .ok issued => do
      if expires < now then return http 401 "Delegation has expired"
      let fingerprint := H.public_key_fingerprint req.public_key_pem
      if d.agent_public_key_fingerprint ≠ fingerprint then
        return http 401 "Delegation is not bound to this agent's public key"
      let seen ← Handler.query fun db =>
        db.delegations.any fun r => r.delegation_id == d.delegation_id
      if seen then return http 409 "Delegation has already been consumed"
      let id ← Handler.fresh
      let n ← Handler.fresh
      let agent : Agent := {
        id := id, agent_id := H.uuid4 n, org_id := parent.org_id, parent_pk := parent.id
        delegation_id := d.delegation_id, public_key_pem := req.public_key_pem
        old_public_key_pem := none, key_sunset_at := none
        granted_capabilities := jsonStrings d.granted_capabilities
        payment_limit_minor_units := d.payment_limit_minor_units, currency := d.currency
        status := .active, valid_until := some expires, protocol_version := none }
      Handler.commit [
        .insertDelegation {
          delegation_id := d.delegation_id, org_id := "default", parent_pk := parent.id
          agent_public_key_fingerprint := fingerprint
          granted_capabilities := jsonStrings d.granted_capabilities
          payment_limit_minor_units := d.payment_limit_minor_units, currency := d.currency
          issued_at := issued, expires_at := expires },
        .insertAgent agent]
      let credential ← issueCredential H agent.id "default" expires
      Handler.commit [.insertCredential credential]
      let s ← registrationAudits H [] agent parent credential.credential_id [] none
      Handler.commit s
      return .registered agent.agent_id credential.credential_id
    | _, _ => .halt

/-! ## Protocol 1.0 envelopes -/

def MAX_ENVELOPE_TTL_SECONDS : Int := 300

/-- The keys `set.issubset` iterates over; raises when the value is not iterable. -/
def iterKeys (x : Json) : Except PyError (List String) :=
  (pyList x).map fun xs => xs.filterMap Json.asStr?

/-- `signing_bytes`: the envelope without its signature. -/
def signing_bytes (H : Host) (kvs : List (String × Json)) : String :=
  H.canonical_json (.dict (kvs.filter fun kv => kv.1 != "signature"))

/-- `verify_envelope` for the receiver `paari`. -/
def verify_envelope (H : Host) (sender_public_key_pem : String) (envelope : Json)
    (now_ts : Int) : Except PyError Bool :=
  match envelope with
  | .dict kvs => do
    let required := ["protocol", "version", "type", "message_id", "sender", "receiver",
      "issued_at", "expires_at", "payload", "signature"]
    if !(required.all fun k => kvs.any fun kv => kv.1 == k) then return false
    let field (k : String) : Json := (kvs.lookup k).getD .null
    if !(field "protocol").isStr "paari" || !(field "version").isStr "1.0" then return false
    if !(field "receiver").isStr "paari" then return false
    if !(field "payload").isDict then return false
    if !(field "message_id").truthy || !(field "sender").truthy then return false
    -- Only `TypeError` and `ValueError` are caught around the two conversions.
    match pyInt H.toText (field "issued_at"), pyInt H.toText (field "expires_at") with
    | .ok issued, .ok expires =>
      if issued > now_ts + CLOCK_SKEW_LEEWAY_SECONDS then return false
      if expires < now_ts - CLOCK_SKEW_LEEWAY_SECONDS then return false
      if expires ≤ issued ∨ expires - issued > MAX_ENVELOPE_TTL_SECONDS then return false
      match field "signature" with
      | .str signature =>
        return (H.verify_signature sender_public_key_pem (signing_bytes H kvs) signature).getD false
      | _ => return false
    | .error .overflowError, _ => .error .overflowError
    | .ok _, .error .overflowError => .error .overflowError
    | _, _ => return false
  | _ => .ok false

/-- The delegation of a protocol 1.0 registration, once its fields are read. -/
structure V1Delegation where
  delegation_id : String
  granted_capabilities : List Json
  payment_limit_minor_units : Int
  currency : String
  issued : Instant
  expires : Instant

/-- The two timestamps; `none` is the caught failure, an error an uncaught one. -/
def delegationTimes (H : Host) (d : Json) : Except PyError (Option (Instant × Instant)) :=
  let times : Except PyError (Instant × Instant) := do
    let issued ← Host.fromtimestamp (← pyInt H.toText (← d.item "issued_at"))
    let expires ← Host.fromtimestamp (← pyInt H.toText (← d.item "expires_at"))
    return (issued, expires)
  match times with
  | .ok t => .ok (some t)
  | .error .typeError => .ok none
  | .error .valueError => .ok none
  | .error e => .error e

/-- The envelope is authentic and its sender is the key it registers. -/
def checkEnvelope (H : Host) (envelope : Json) (now : Instant) :
    Except Reply (Option (String × Json)) :=
  let invalid (status : Nat) (text : String) : Except Reply (Option (String × Json)) :=
    .error (paariHttp status .ENVELOPE_SIGNATURE_INVALID text)
  match envelope with
  | .dict kvs =>
    let field (k : String) : Json := (kvs.lookup k).getD .null
    if !(field "version").isStr "1.0" || !(field "protocol").isStr "paari" then
      .error (paariHttp 400 .UNSUPPORTED_PROTOCOL_VERSION "Unsupported protocol version")
    else
      match field "payload" with
      | .dict payload =>
        match (payload.lookup "public_key_pem").getD (.str "") with
        | .str agent_pub =>
          if agent_pub = "" then invalid 401 "Envelope signature verification failed"
          else
            match verify_envelope H agent_pub envelope (Host.timestamp now) with
            | .error _ => .ok none
            | .ok false => invalid 401 "Envelope signature verification failed"
            | .ok true =>
              if !(field "sender").isStr (H.public_key_fingerprint agent_pub) then
                invalid 401 "Envelope sender is not bound to the registering agent key"
              else .ok (some (agent_pub, .dict payload))
        | _ => invalid 401 "Envelope signature verification failed"
      | _ => invalid 400 "Envelope has no payload"
  | _ => .error (paariHttp 400 .UNSUPPORTED_PROTOCOL_VERSION "Unsupported protocol version")

def V1_REQUIRED : List String :=
  ["delegation_id", "parent_id", "agent_public_key_fingerprint", "granted_capabilities",
    "payment_limit_minor_units", "currency", "issued_at", "expires_at"]

/-- What is stored of the delegation: at least one capability, a positive limit.
`none` when a conversion raises. -/
def readV1Delegation (H : Host) (d : Json) (issued expires : Instant) :
    Option (Except Reply V1Delegation) := do
  let granted ← (d.get "granted_capabilities").toOption
  let capabilities ← (pyList (granted.orElse (.list []))).toOption
  if capabilities.isEmpty then
    return .error (paariHttp 400 .CAPABILITY_NOT_DELEGATED
      "Delegation must grant at least one capability")
  else
    let limit ← ((d.item "payment_limit_minor_units").bind (pyInt H.toText)).toOption
    if limit ≤ 0 then
      return .error (paariHttp 400 .LIMIT_EXCEEDED "Delegated payment limit must be positive")
    else
      let id ← (d.item "delegation_id").toOption
      let currency ← (d.item "currency").toOption
      return .ok ⟨← id.asStr?, capabilities, limit, ← currency.asStr?, issued, expires⟩

/-- `v1_register_agent` once the delegation is known to be acceptable. -/
def enrol_v1 (H : Host) (parent : ParentAuthority) (agent_pub : String) (d : V1Delegation) :
    Handler Reply := do
  let id ← Handler.fresh
  let n ← Handler.fresh
  let agent : Agent := {
    id := id, agent_id := H.uuid4 n, org_id := parent.org_id, parent_pk := parent.id
    delegation_id := d.delegation_id, public_key_pem := agent_pub, old_public_key_pem := none
    key_sunset_at := none, granted_capabilities := .list d.granted_capabilities
    payment_limit_minor_units := d.payment_limit_minor_units, currency := d.currency
    status := .active, valid_until := some d.expires, protocol_version := some "1.0" }
  let credential ← issueCredential H agent.id parent.org_id d.expires
  let s ← registrationAudits H [
      .insertDelegation {
        delegation_id := d.delegation_id, org_id := parent.org_id, parent_pk := parent.id
        agent_public_key_fingerprint := H.public_key_fingerprint agent_pub
        granted_capabilities := .list d.granted_capabilities
        payment_limit_minor_units := d.payment_limit_minor_units, currency := d.currency
        issued_at := d.issued, expires_at := d.expires },
      .insertAgent agent, .insertCredential credential]
    agent parent credential.credential_id [("protocol", .str "1.0")] (some parent.org_id)
  Handler.commit s
  return .registered agent.agent_id credential.credential_id

/-- The delegation checks of `v1_register_agent`, from its signature on. -/
def checkV1Delegation (H : Host) (parent : ParentAuthority) (agent_pub : String)
    (d signature : Json) : Handler Reply := do
  match signature.asStr?.bind
      (H.verify_signature parent.public_key_pem (H.canonical_json d)) with
  | none => .halt
  | some false =>
    return paariHttp 401 .ENVELOPE_SIGNATURE_INVALID "Delegation signature verification failed"
  | some true => do
  let now ← Handler.now
  match delegationTimes H d with
  | .error _ => .halt
  | .ok none => return paariHttp 400 .DELEGATION_EXPIRED "Delegation timestamps invalid"
  | .ok (some (issued, expires)) => do
  if issued > now + CLOCK_SKEW_LEEWAY_SECONDS * SECOND then
    return paariHttp 401 .DELEGATION_EXPIRED "Delegation is issued in the future"
  if expires ≤ now then return paariHttp 401 .DELEGATION_EXPIRED "Delegation has expired"
  if expires - issued > 366 * DAY then
    return paariHttp 400 .DELEGATION_EXPIRED "Delegation lifetime exceeds protocol maximum"
  match d.item "agent_public_key_fingerprint", d.item "delegation_id" with
  | .ok fingerprint, .ok delegation_id => do
    if !fingerprint.isStr (H.public_key_fingerprint agent_pub) then
      return paariHttp 401 .ENVELOPE_SIGNATURE_INVALID
        "Delegation is not bound to this agent's public key"
    let seen ← Handler.query fun db =>
      db.delegations.any fun r => delegation_id.isStr r.delegation_id
    if seen then
      return paariHttp 409 .ENVELOPE_SIGNATURE_INVALID "Delegation has already been consumed"
    match readV1Delegation H d issued expires with
    | none => .halt
    | some (.error reply) => return reply
    | some (.ok delegation) => enrol_v1 H parent agent_pub delegation
  | _, _ => .halt

/-- `v1_register_agent` -/
def v1_register_agent (H : Host) (envelope : Json) : Handler Reply := do
  let now ← Handler.now
  match checkEnvelope H envelope now with
  | .error reply => return reply
  | .ok none => .halt
  | .ok (some (agent_pub, payload)) =>
    match payload.get "delegation", payload.getD "delegation_signature_b64" (.str "") with
    | .ok d, .ok signature => do
      let d := d.orEmpty
      match iterKeys d with
      | .error _ => .halt
      | .ok keys => do
      if !(V1_REQUIRED.all fun k => keys.contains k) then
        return paariHttp 400 .ENVELOPE_SIGNATURE_INVALID "Delegation missing required fields"
      match (d.item "parent_id").toOption.bind bindText with
      | none => .halt
      | some parent_id => do
        let parent ← Handler.query fun db =>
          db.parents.find? fun p => some p.parent_id == parent_id
        match parent.filter fun p => p.status = .active with
        | none =>
          return paariHttp 401 .PARENT_REVOKED "Unknown, unverified, or revoked parent authority"
        | some parent => checkV1Delegation H parent agent_pub d signature
    | _, _ => .halt

/-! ## Key rotation -/

/-- A JSON value as an integer column takes it; the driver refuses the rest. -/
def bindInteger : Json → Option Int
  | .int i => some i
  | .bool b => some (if b then 1 else 0)
  | _ => none

/-- The columns the fresh delegation sets, absent ones keeping the agent's value.
Nothing here is compared with what the parent may grant. `none` when a value does
not fit its column or cannot go into a credential. -/
def rotationOf (agent : Agent) (d : Json) (new_public_key_pem : String) (now expires : Instant) :
    Option Rotation := do
  let id ← (d.item "delegation_id").toOption
  let capabilities ← (d.getD "granted_capabilities" agent.granted_capabilities).toOption
  let limit ← (d.getD "payment_limit_minor_units" (.int agent.payment_limit_minor_units)).toOption
  let currency ← (d.getD "currency" (.str agent.currency)).toOption
  -- `issue_credential_jwt` puts `list(capabilities)` and `int(limit)` into the credential.
  let _ ← (pyList capabilities).toOption
  return {
    public_key_pem := new_public_key_pem, key_sunset_at := now + KEY_SUNSET_GRACE
    delegation_id := ← id.asStr?, granted_capabilities := capabilities
    payment_limit_minor_units := ← bindInteger limit, currency := ← currency.asStr?
    valid_until := expires }

/-- The two timestamps of a rotation delegation, or the refusal. -/
def rotationTimes (H : Host) (d : Json) : Except Reply (Instant × Instant) :=
  let times : Except PyError (Instant × Instant) := do
    let issued ← Host.fromtimestamp (← pyInt H.toText (← d.item "issued_at"))
    let expires ← Host.fromtimestamp (← pyInt H.toText (← d.item "expires_at"))
    return (issued, expires)
  match times with
  | .ok t => .ok t
  | .error (.keyError _) => .error (http 400 "Rotation delegation timestamps are required")
  | .error _ => .error (http 400 "Rotation delegation expiry is invalid")

/-- `rotate_agent_key` from the verified delegation on. -/
def apply_rotation (H : Host) (agent : Agent) (parent : ParentAuthority) (issued : Instant)
    (r : Rotation) : Handler Reply := do
  let credential ← issueCredential H agent.id agent.org_id r.valid_until
  let old ← Handler.query fun db =>
    db.credentials.filter fun c => c.agent_pk == agent.id && !c.revoked
  let s ← record_audit H ([
      .insertDelegation {
        delegation_id := r.delegation_id, org_id := parent.org_id, parent_pk := parent.id
        agent_public_key_fingerprint := H.public_key_fingerprint r.public_key_pem
        granted_capabilities := r.granted_capabilities
        payment_limit_minor_units := r.payment_limit_minor_units, currency := r.currency
        issued_at := issued, expires_at := r.valid_until },
      .rotateAgent agent.id r] ++
      (old.map fun c => .revokeCredential c.credential_id (some credential.credential_id)) ++
      [.insertCredential credential])
    { transaction_id := "delegation:" ++ r.delegation_id, agent_id := agent.agent_id
      parent_id := some parent.parent_id, kind := "key_rotated", org_id := some agent.org_id
      detail := [("credential_id", .str credential.credential_id),
        ("key_sunset_at", .str (H.isoformat r.key_sunset_at))] }
  Handler.commit s
  return .rotated agent.agent_id credential.credential_id

/-- `rotate_agent_key` -/
def rotate_agent_key (H : Host) (agent_id : String) (req : RotateKeyRequest)
    (x_admin_api_key : String) : Handler Reply := do
  let agent ← Handler.query fun db => db.agents.find? fun a => a.agent_id == agent_id
  match agent.filter fun a => a.status = .active with
  | none => return http 401 "Agent not eligible for rotation"
  | some agent => do
  let parent ← Handler.query fun db => parent_for db agent
  match parent.filter fun p => p.status = .active with
  | none => return http 401 "Parent authority is no longer active"
  | some parent =>
  -- An admin key is not needed, but one that is given must reach the organization.
  Handler.attempt (pure (if H.is_admin_key x_admin_api_key then
      H.require_admin_org x_admin_api_key parent.org_id else .ok ())) fun _ => do
  let d := req.delegation
  if !d.truthy then
    return http 401 "Fresh parent-signed delegation required for key rotation"
  match H.verify_signature parent.public_key_pem (H.canonical_json d)
      req.delegation_signature_b64 with
  | none => .halt
  | some false => return http 401 "Rotation delegation signature verification failed"
  | some true => do
  let now ← Handler.now
  match rotationTimes H d with
  | .error reply => return reply
  | .ok (issued, expires) => do
  if issued > now + CLOCK_SKEW_LEEWAY_SECONDS * SECOND ∨
      (Host.timestamp now - Host.timestamp issued).natAbs > 5 * 60 then
    return http 401 "Rotation delegation is stale or issued in the future"
  if !((d.get "parent_id").toOption.any fun p => p.isStr parent.parent_id) then
    return http 401 "Rotation delegation belongs to a different parent"
  if expires ≤ now then return http 401 "Rotation delegation has expired"
  if !((d.get "agent_public_key_fingerprint").toOption.any fun f =>
      f.isStr (H.public_key_fingerprint req.new_public_key_pem)) then
    return http 401 "Rotation delegation is not bound to new key"
  let seen ← Handler.query fun db => db.delegations.any fun r =>
    (d.get "delegation_id").toOption.any fun id => id.isStr r.delegation_id
  if seen then return http 409 "Rotation delegation already consumed"
  match rotationOf agent d req.new_public_key_pem now expires with
  | none => .halt
  | some r => apply_rotation H agent parent issued r

/-! ## Revoking an agent -/

def REVOCATION_MAX_AGE_SECONDS : Nat := 5 * 60

/-- The end of `revoke_agent`. -/
def commitRevocation (agent : Agent) (pending : Session) : Handler Reply := do
  Handler.commit (pending ++ [.revokeAgent agent.id, .revokeCredentials agent.id])
  return .agent_revoked agent.agent_id

/-- `revoke_agent`: by an administrator, or by the agent's parent over a signed,
single-use document. -/
def revoke_agent (H : Host) (agent_id : String) (req : AgentRevokeRequest)
    (x_admin_api_key : String) : Handler Reply := do
  let agent ← Handler.query fun db => db.agents.find? fun a => a.agent_id == agent_id
  match agent with
  | none => return http 404 "Agent not found"
  | some agent => do
  if H.is_admin_key x_admin_api_key then commitRevocation agent []
  else
  match req.revocation_id.filter (· ≠ ""), req.issued_at.filter (· ≠ 0),
      req.parent_signature_b64.filter (· ≠ "") with
  | some revocation_id, some issued_at, some signature => do
    let parent ← Handler.query fun db => parent_for db agent
    match parent with
    | none => return http 401 "Parent authority not found for this agent"
    | some parent => do
    let now ← Handler.now
    if (Host.timestamp now - issued_at).natAbs > REVOCATION_MAX_AGE_SECONDS then
      return http 401 "Revocation signature has expired - request a fresh one"
    let used ← Handler.query fun db =>
      db.revocations.any fun r => r.revocation_id == revocation_id
    if used then return http 409 "Revocation document has already been used"
    let payload := H.canonical_json (.dict [
      ("action", .str "revoke_agent"), ("agent_id", .str agent.agent_id),
      ("parent_id", .str parent.parent_id), ("revocation_id", .str revocation_id),
      ("issued_at", .int issued_at)])
    match H.verify_signature parent.public_key_pem payload signature with
    | none => .halt
    | some false => return http 401 "Revocation signature verification failed"
    | some true =>
      commitRevocation agent [.insertRevocation ⟨revocation_id, "default", agent.agent_id⟩]
  | _, _, _ =>
    return http 401 "Revocation requires admin credentials or a parent-signed revocation document"

end Paari
