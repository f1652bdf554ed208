import Paari.Mandates

/-!
# Sessions and request proofs

`_authenticate` is what every agent-facing endpoint starts with: the session
token, the agent behind it, its credential, its parent, and, for protocol 1.0
sessions, a proof bound to this very request whose `jti` is burnt. Burning adds a
row to the session's pending writes; it becomes durable with the endpoint's first
commit.
-/

namespace Paari

open Host (SECOND REQUEST_PROOF_TTL CLOCK_SKEW_LEEWAY_SECONDS)

/-- `_resolve_session_token` -/
def resolve_session_token (H : Host) (body_token authorization : String) :
    Except Reply String :=
  let header_token :=
    if (H.lower authorization).toList.take 7 = "bearer ".toList then
      H.strip (String.ofList (authorization.toList.drop 7))
    else ""
  if header_token ≠ "" ∧ body_token ≠ "" ∧ header_token ≠ body_token then
    .error (http 400 "Authorization header and body session token do not match")
  else .ok (if header_token ≠ "" then header_token else body_token)

/-- `_key_for_session`: the key the session is bound to, if it still counts. -/
def key_for_session (H : Host) (agent : Agent) (claims : SessionClaims) (now : Instant) :
    Option String :=
  if claims.jkt = H.public_key_fingerprint agent.public_key_pem ∨ claims.jkt = "" then
    some agent.public_key_pem
  else
    match agent.old_public_key_pem, agent.key_sunset_at with
    | some old, some sunset =>
      if old ≠ "" ∧ now < sunset ∧ claims.jkt = H.public_key_fingerprint old then some old
      else none
    | _, _ => none

/-- The checks of `verify_request_proof` before the replay check; the `jti` on success. -/
def proof_jti (H : Host) (claims : ProofClaims) (agent : Agent) (ctx : RequestContext)
    (token : String) (now : Instant) : Option String :=
  if claims.alg ≠ "EdDSA" then none
  else if claims.typ ≠ some "paari-proof" ∨ claims.sub ≠ some agent.agent_id then none
  else if (Host.timestamp now - claims.iat).natAbs >
      (Host.timestamp REQUEST_PROOF_TTL + CLOCK_SKEW_LEEWAY_SECONDS).natAbs then none
  else if claims.htm ≠ some (H.upper ctx.method) ∨ claims.htu ≠ some ctx.path then none
  else if claims.ath ≠ H.token_hash token then none
  else claims.jti.filter (· ≠ "")

/-- `verify_request_proof`: the session with the `jti` burnt, or `none` for a
proof that does not verify or was seen before. -/
def verify_request_proof (H : Host) (agent : Agent) (public_key : String) (ctx : RequestContext)
    (token : String) : Handler (Option Session) := do
  let now ← Handler.now
  match H.proof_decode now public_key ctx.x_paari_proof with
  | none => return none
  | some claims =>
    match proof_jti H claims agent ctx token now with
    | none => return none
    | some jti => do
      let seen ← Handler.query fun db => db.proofs.any fun p => p.jti == jti
      if seen then return none
      return some [.insertProof {
        jti := jti, agent_id := agent.agent_id
        org_id := RazorpayAdapter.orStr agent.org_id "default"
        issued_at := claims.iat * SECOND
        expires_at := claims.iat * SECOND + REQUEST_PROOF_TTL }]

/-- A burnt `jti` is all an authenticated session has pending. -/
def Session.OnlyProofs (s : Session) : Prop := ∀ w ∈ s, ∃ p, w = .insertProof p

theorem verify_request_proof_reads (H : Host) (agent : Agent) (public_key : String)
    (ctx : RequestContext) (token : String) :
    (verify_request_proof H agent public_key ctx token).Reads
      fun r => ∀ s, r = some s → s.OnlyProofs := by
  refine Handler.reads_now fun now => ?_
  split
  · simp
  · split
    · simp
    · refine Handler.reads_query fun seen => ?_
      split
      · simp
      · rintro s ⟨rfl⟩ w hw
        exact ⟨_, List.mem_singleton.mp hw⟩

/-- What an authenticated request goes on with. -/
structure Authenticated where
  agent : Agent
  claims : SessionClaims
  pending : Session

/-- `_authenticate` -/
def authenticate (H : Host) (ctx : RequestContext) (token : String)
    (expected_agent_id : Option String) : Handler (Except Reply Authenticated) := do
  let t ← Handler.now
  match H.decode_session_token t token with
  | none => return .error (paariHttp 401 .SESSION_INVALID "Session token invalid or expired")
  | some claims => do
  if present expected_agent_id && claims.sub != expected_agent_id then
    return .error (paariHttp 403 .SESSION_INVALID "Session token does not belong to this agent")
  let agent ← Handler.query fun db => db.agents.find? fun a => some a.agent_id == claims.sub
  match agent with
  | none => return .error (paariHttp 401 .AGENT_REVOKED "Agent is no longer active")
  | some agent => do
  if agent.status ≠ .active then
    return .error (paariHttp 401 .AGENT_REVOKED "Agent is no longer active")
  let credential ← Handler.query fun db =>
    db.credentials.find? fun c => some c.credential_id == claims.credential_id
  let now ← Handler.now
  if !(credential.any fun c => !c.revoked && decide (now ≤ c.expires_at)) then
    return .error (paariHttp 401 .SESSION_INVALID "Credential is revoked or expired")
  let parent ← Handler.query fun db => parent_for db agent
  if !(parent.any fun p => p.status = .active) then
    return .error (paariHttp 401 .PARENT_REVOKED "Parent authority is no longer active")
  if agent.valid_until.any fun v => v < now then
    return .error (paariHttp 401 .SESSION_INVALID "Agent delegation has expired")
  if !(claims.protocol_version == some "1.0" || H.flag "PAARI_REQUIRE_REQUEST_PROOF") then
    return .ok ⟨agent, claims, []⟩
  if ctx.x_paari_proof = "" then
    return .error (paariHttp 401 .PROOF_REPLAYED "Paari-Proof-JWT is required")
  let t ← Handler.now
  match key_for_session H agent claims t with
  | none =>
    return .error (paariHttp 401 .PROOF_REPLAYED "Paari request proof invalid or replayed")
  | some public_key => do
  let burnt ← verify_request_proof H agent public_key ctx token
  match burnt with
  | none =>
    return .error (paariHttp 401 .PROOF_REPLAYED "Paari request proof invalid or replayed")
  | some pending => return .ok ⟨agent, claims, pending⟩

/-- It reads, and comes back with the proof it burns or with an error. -/
theorem authenticate_raises (H : Host) (ctx : RequestContext) (token : String)
    (expected : Option String) :
    (authenticate H ctx token expected).Reads fun r =>
      (∀ a, r = .ok a → a.pending.OnlyProofs) ∧ ∀ e, r = .error e → ∃ x, e = .error x := by
  have hraise : ∀ x : HttpError, (∀ a : Authenticated, Except.error (Reply.error x) = .ok a →
      a.pending.OnlyProofs) ∧ ∀ e, (Except.error (.error x) : Except Reply Authenticated) = .error e →
        ∃ x, e = .error x :=
    fun x => ⟨fun a h => absurd h (by simp), fun e h => ⟨x, (Except.error.inj h).symm⟩⟩
  refine Handler.reads_now fun t => ?_
  split
  · exact hraise _
  split
  · exact hraise _
  refine Handler.reads_query fun agent => ?_
  split
  · exact hraise _
  split
  · exact hraise _
  refine Handler.reads_query fun credential => Handler.reads_now fun now => ?_
  split
  · exact hraise _
  refine Handler.reads_query fun parent => ?_
  split
  · exact hraise _
  split
  · exact hraise _
  split
  · refine ⟨?_, fun e h => absurd h (by simp)⟩
    rintro a ⟨rfl⟩ w hw
    exact absurd hw List.not_mem_nil
  split
  · exact hraise _
  refine Handler.reads_now fun t' => ?_
  split
  · exact hraise _
  refine Handler.reads_bind (verify_request_proof_reads _ _ _ _ _) fun burnt hburnt => ?_
  split
  · exact hraise _
  · refine ⟨?_, fun e h => absurd h (by simp)⟩
    rintro a ⟨rfl⟩
    exact hburnt _ rfl

theorem authenticate_reads (H : Host) (ctx : RequestContext) (token : String)
    (expected : Option String) :
    (authenticate H ctx token expected).Reads fun r => ∀ a, r = .ok a → a.pending.OnlyProofs :=
  Atomic.Prog.quiet_mono (fun _ h => h.1) (authenticate_raises H ctx token expected)

end Paari
