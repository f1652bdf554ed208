import Paari.Agreement

/-!
# What the client sends

The SDK's client has one way to send a request under its session, `_request`, and seven
methods that use it. Here its requests meet the server's session and proof checks:

> `sent_admitted_iff`: which of them are let through. Not those of a client whose clock is
> ahead, whatever leeway the server means to give, and no revocation at all.
-/

namespace Paari

open Atomic
open Host (SECOND)

/-! ## The client -/

/-- What `PaariAgentClient._request` needs of the client. -/
structure PaariAgentClient where
  private_key_pem : String
  agent_id : Option String
  session_token : Option String

namespace PaariAgentClient

/-- The methods that send a request under the session. The body of an intent is given as
the server's schema reads it. -/
inductive Operation
  | get_active_mandate
  | payment_intent (req : PaymentIntentRequest)
  | consume (authorization_id : String)
  | reconcile (authorization_id : String)
  | revoke_authorization (authorization_id : String)
  | get_payment_status (transaction_id : String)
  | proof_bundle (transaction_id : String)

namespace Operation

def method : Operation → String
  | get_active_mandate | get_payment_status _ | proof_bundle _ => "GET"
  | payment_intent _ | consume _ | reconcile _ | revoke_authorization _ => "POST"

def path (agent_id : String) : Operation → String
  | get_active_mandate => "/v1/mandates/active/" ++ agent_id
  | payment_intent _ => "/v1/payments/intent"
  | consume id => "/v1/payments/authorizations/" ++ id ++ "/consume"
  | reconcile id => "/v1/reconcile/" ++ id
  | revoke_authorization id => "/v1/authorizations/" ++ id ++ "/revoke"
  | get_payment_status t => "/v1/audit/" ++ t
  | proof_bundle t => "/v1/proof/" ++ t

/-- `session_token: str = default` of a request body. -/
def bodyToken (default : Option String) (body : List (String × Json)) : Option String :=
  match body.lookup "session_token" with
  | none => default
  | some (.str token) => some token
  | some _ => none

/-- What the server is asked, for identifiers that need no escaping in a path; nothing where
it answers 422 to the body `{}`. `RevokeAuthorizationRequest` alone has no default. -/
def exchange (agent_id : String) (ctx : RequestContext) : Operation → Option Exchange
  | get_active_mandate => some (.active_mandate ctx agent_id)
  | payment_intent req =>
    some (.request (.submit_intent ctx { req with session_token := "", agent_id := agent_id }))
  | consume id => (bodyToken (some "") []).map fun token => .request (.consume ctx id token)
  | reconcile id => (bodyToken (some "") []).map fun token => .request (.reconcile ctx id token)
  | revoke_authorization id =>
    (bodyToken none []).map fun token => .request (.revoke_authorization ctx id token)
  | get_payment_status t => some (.audit ctx t)
  | proof_bundle t => some (.proof ctx t)

/-- The authorization an operation is about, if it is about one, is the agent's. -/
def Concerns (db : DB) (agent_id : String) : Operation → Prop
  | consume id | reconcile id | revoke_authorization id =>
    ∃ auth, authorizationOf id db = some auth ∧ (auth.agent_id ≠ "" → auth.agent_id = agent_id)
  | _ => True

end Operation

/-- What the client signs for an operation at its second `now`, with the `jti` it draws. -/
def Operation.request (op : Operation) (token agent_id : String) (now : Int) (uuid : String) :
    SignedRequest :=
  .build agent_id token op.method (op.path agent_id) none none now uuid

/-- `_request(method, path, auth=True)`, `encode` being the `jwt.encode` it signs with;
nothing where it raises. -/
def send (c : PaariAgentClient) (H : Host) (encode : String → ProofClaims → String)
    (op : Operation) (now : Int) (uuid : String) : Option Exchange :=
  match c.session_token, c.agent_id with
  | some token, some agent_id =>
    if token = "" ∨ agent_id = "" then none
    else
      op.exchange agent_id {
        method := op.method
        path := op.path agent_id
        x_paari_proof := encode c.private_key_pem ((op.request token agent_id now uuid).claims H)
        authorization := "Bearer " ++ token }
  | _, _ => none

end PaariAgentClient

/-! ## The checks on its requests -/

/-- PyJWT on the text of one proof: `jwt.decode` reads back what `jwt.encode` has signed from
the second it was issued, under the PEM texts of the signer's public key and no others. -/
structure ReadsBack (H : Host) (own : String → Bool) (text : String) (claims : ProofClaims) : Prop where
  reads : ∀ now key, H.proof_decode now key text =
    if own key = true ∧ claims.iat * SECOND ≤ now then some claims else none
  nonempty : text ≠ ""

/-- The session token is a live session of the agent, bound to a key the client owns. -/
structure LiveSession (H : Host) (own : String → Bool) (w : World) (token agent_id : String)
    (claims : SessionClaims) (agent : Agent) : Prop where
  stands : SessionStands H w token claims agent
  subject : claims.sub = some agent_id
  key : ∃ key, key_for_session H agent claims w.clock = some key ∧ own key = true

section
variable {H : Host} {w : World} {ctx : RequestContext} {token : String} {expected : Option String}
  {own : String → Bool} {r : SignedRequest}

theorem le_timestamp {s : Int} {t : Instant} (h : s * SECOND ≤ t) : s ≤ Host.timestamp t := by
  unfold SECOND at h
  show s ≤ t.tdiv 1000000
  rw [Int.tdiv_eq_ediv, show Int.sign 1000000 = 1 from rfl]
  split <;> omega

/-- When a proof passes that the client has made for this very request. -/
theorem proof_passes_iff (hreads : ReadsBack H own ctx.x_paari_proof (r.claims H))
    (hmethod : ctx.method = r.method) (hpath : ctx.path = r.path) (hjti : r.jti ≠ "")
    {key : String} {agent : Agent} :
    (∃ pending, ProofPasses H w ctx r.access_token key agent pending) ↔
      own key = true ∧ agent.agent_id = r.agent_id ∧ r.issued_at * SECOND ≤ w.clock ∧
        Host.timestamp w.clock ≤ r.issued_at + 150 ∧ ¬ w.db.Burnt r.jti := by
  constructor
  · rintro ⟨pending, proof, jti, hdecode, hpasses, hun, -⟩
    rw [hreads.reads] at hdecode
    obtain ⟨⟨hown, hmature⟩, hproof⟩ := Option.ite_none_right_eq_some.mp hdecode
    obtain rfl := Option.some.inj hproof
    obtain ⟨-, -, hsub, hiat, -, -, -, hid, -⟩ := proof_jti_iff.mp hpasses
    have hfresh : Host.timestamp w.clock ≤ (r.claims H).iat + 150 := by omega
    exact ⟨hown, (Option.some.inj hsub).symm, hmature, hfresh, Option.some.inj hid ▸ hun⟩
  · rintro ⟨hown, hagent, hmature, hfresh, hun⟩
    have hissued := le_timestamp hmature
    refine ⟨_, r.claims H, r.jti, ?_, proof_jti_iff.mpr ⟨rfl, rfl, ?_, ?_, ?_, ?_, rfl, rfl, hjti⟩,
      hun, rfl⟩
    · rw [hreads.reads]
      exact if_pos ⟨hown, hmature⟩
    · rw [hagent]
      rfl
    · show (Host.timestamp w.clock - r.issued_at).natAbs ≤ 150
      omega
    · rw [hmethod]
      rfl
    · rw [hpath]
      rfl

/-- When a session of protocol 1.0 is let through on such a proof. -/
theorem authenticated_iff (hreads : ReadsBack H own ctx.x_paari_proof (r.claims H))
    (hmethod : ctx.method = r.method) (hpath : ctx.path = r.path) (hjti : r.jti ≠ "")
    (hversion : ∀ claims, H.decode_session_token w.clock r.access_token = some claims →
      claims.protocol_version = some "1.0") (expected : Option String) :
    (∃ a, authenticated H w ctx r.access_token expected = some (.ok a)) ↔
      (present expected = true → expected = some r.agent_id) ∧
      (∃ claims agent, LiveSession H own w r.access_token r.agent_id claims agent) ∧
      r.issued_at * SECOND ≤ w.clock ∧ Host.timestamp w.clock ≤ r.issued_at + 150 ∧
      ¬ w.db.Burnt r.jti := by
  have hspec := Prog.eval_spec (p := authenticate H ctx r.access_token expected) []
    (authenticate_spec (w := w) (i := 0))
  have hbound : ∀ {claims : SessionClaims} {agent : Agent},
      SessionStands H w r.access_token claims agent → claims.bound H = true := by
    intro claims agent h
    simp [SessionClaims.bound, hversion claims h.decoded]
  have hsubject : ∀ {claims : SessionClaims} {agent : Agent},
      SessionStands H w r.access_token claims agent → claims.sub = some agent.agent_id := by
    intro claims agent h
    have hrow := List.find?_some h.found
    exact (beq_iff_eq.mp hrow).symm
  constructor
  · rintro ⟨a, ha⟩
    obtain ⟨hstands, hexpected, hproof⟩ := (hspec a).mp ha
    rw [if_pos (hbound hstands)] at hproof
    obtain ⟨-, key, hkey, hpasses⟩ := hproof
    obtain ⟨hown, hagent, hrest⟩ := (proof_passes_iff hreads hmethod hpath hjti).mp ⟨_, hpasses⟩
    have hsub : a.claims.sub = some r.agent_id := hagent ▸ hsubject hstands
    exact ⟨fun hpresent => (hexpected hpresent).symm.trans hsub,
      ⟨a.claims, a.agent, hstands, hsub, key, hkey, hown⟩, hrest⟩
  · rintro ⟨hexpected, ⟨claims, agent, hstands, hsub, key, hkey, hown⟩, hrest⟩
    have hagent : agent.agent_id = r.agent_id :=
      Option.some.inj ((hsubject hstands).symm.trans hsub)
    obtain ⟨pending, hpasses⟩ :=
      (proof_passes_iff hreads hmethod hpath hjti).mpr ⟨hown, hagent, hrest⟩
    refine ⟨⟨agent, claims, pending⟩, (hspec _).mpr ⟨hstands, fun hpresent => ?_, ?_⟩⟩
    · rw [hexpected hpresent]
      exact hsub
    · rw [if_pos (hbound hstands)]
      exact ⟨hreads.nonempty, key, hkey, hpasses⟩

theorem admitted_iff {e : Exchange} (h : e.authentication H w.db = some (ctx, token, expected)) :
    (e.admitted H w).isSome = true ↔ ∃ a, authenticated H w ctx token expected = some (.ok a) := by
  constructor
  · intro hsome
    obtain ⟨x, hx⟩ := Option.isSome_iff_exists.mp hsome
    by_contra hnone
    rw [not_exists] at hnone
    unfold Exchange.admitted at hx
    rw [h, Option.bind_some] at hx
    dsimp only at hx
    split at hx
    · next a ha => exact hnone a ha
    · exact absurd hx (by simp)
  · rintro ⟨a, ha⟩
    unfold Exchange.admitted
    rw [h, Option.bind_some]
    dsimp only
    rw [ha]
    rfl

end

/-- The `Authorization` header that the client sends. -/
theorem resolve_bearer {H : Host} {token : String} (hne : token ≠ "")
    (hlower : (H.lower ("Bearer " ++ token)).toList.take 7 = "bearer ".toList)
    (hstrip : H.strip token = token) :
    resolve_session_token H "" ("Bearer " ++ token) = .ok token := by
  have hdrop : String.ofList (("Bearer " ++ token).toList.drop 7) = token := by
    rw [String.toList_append]
    show String.ofList token.toList = token
    simp
  unfold resolve_session_token
  rw [if_pos hlower, hdrop, hstrip]
  simp [hne]

namespace PaariAgentClient

section
variable {H : Host} {w : World} {ctx : RequestContext} {token agent_id : String} {P : Prop}

/-- An exchange that authenticates for the agent `expected`, or for whoever it is. -/
theorem one_admitted_iff {expected : Option String} {e : Exchange} {C : Prop}
    (hauth : ∀ expected, (∃ a, authenticated H w ctx token expected = some (.ok a)) ↔
      (present expected = true → expected = some agent_id) ∧ P)
    (he : e.authentication H w.db = some (ctx, token, expected))
    (hC : (present expected = true → expected = some agent_id) ↔ C) :
    (e.admitted H w).isSome = true ↔ C ∧ P := by
  rw [admitted_iff he, hauth, hC]

/-- An exchange about one authorization. -/
theorem about_admitted_iff {id : String} {e : Exchange}
    (hauth : ∀ expected, (∃ a, authenticated H w ctx token expected = some (.ok a)) ↔
      (present expected = true → expected = some agent_id) ∧ P)
    (he : e.authentication H w.db = (authorizationOf id w.db).bind fun auth =>
      some (ctx, token, some auth.agent_id)) :
    (e.admitted H w).isSome = true ↔
      (∃ auth, authorizationOf id w.db = some auth ∧
        (auth.agent_id ≠ "" → auth.agent_id = agent_id)) ∧ P := by
  cases hrow : authorizationOf id w.db with
  | none =>
    rw [hrow, Option.bind_none] at he
    unfold Exchange.admitted
    rw [he]
    simp
  | some auth =>
    rw [hrow, Option.bind_some] at he
    refine one_admitted_iff hauth he ?_
    simp [present]

/-- Which of the client's operations the server admits is a matter of the session and the
proof, except that it reads no body of a revocation. -/
theorem exchange_admitted_iff (hresolve : resolve_session_token H "" ctx.authorization = .ok token)
    (hne : token ≠ "")
    (hauth : ∀ expected, (∃ a, authenticated H w ctx token expected = some (.ok a)) ↔
      (present expected = true → expected = some agent_id) ∧ P) (op : Operation) :
    (∃ e, op.exchange agent_id ctx = some e ∧ (e.admitted H w).isSome = true) ↔
      (∀ id, op ≠ .revoke_authorization id) ∧ op.Concerns w.db agent_id ∧ P := by
  have hany : (present none = true → (none : Option String) = some agent_id) ↔ True := by
    simp [present]
  have hown : (present (some agent_id) = true → some agent_id = some agent_id) ↔ True := by simp
  have hone : ∀ {e : Exchange} {C : Prop}, ((e.admitted H w).isSome = true ↔ C ∧ P) →
      ((∃ e', some e = some e' ∧ (e'.admitted H w).isSome = true) ↔ C ∧ P) := by
    intro e C h
    rw [← h]
    constructor
    · rintro ⟨e', he, h'⟩
      rw [Option.some.inj he]
      exact h'
    · intro h'
      exact ⟨e, rfl, h'⟩
  cases op with
  | get_active_mandate =>
    refine Iff.trans ?_ (and_iff_right fun _ => by simp).symm
    exact hone (one_admitted_iff hauth (by
      simp [Exchange.authentication, hresolve, Except.toOption]) hown)
  | payment_intent req =>
    refine Iff.trans ?_ (and_iff_right fun _ => by simp).symm
    exact hone (one_admitted_iff hauth (by
      simp [Exchange.authentication, hresolve, Except.toOption]) hany)
  | consume id =>
    refine Iff.trans ?_ (and_iff_right fun _ => by simp).symm
    exact hone (about_admitted_iff hauth (by
      simp [Exchange.authentication, hresolve, Except.toOption, authorizationOf]))
  | reconcile id =>
    refine Iff.trans ?_ (and_iff_right fun _ => by simp).symm
    exact hone (about_admitted_iff hauth (by
      simp [Exchange.authentication, hresolve, Except.toOption, authorizationOf]))
  | revoke_authorization id =>
    constructor
    · rintro ⟨e, he, -⟩
      exact absurd he (by simp [Operation.exchange, Operation.bodyToken])
    · intro h
      exact absurd rfl (h.1 id)
  | get_payment_status t =>
    refine Iff.trans ?_ (and_iff_right fun _ => by simp).symm
    exact hone (one_admitted_iff hauth (by
      simp [Exchange.authentication, hresolve, Except.toOption, hne]) hany)
  | proof_bundle t =>
    refine Iff.trans ?_ (and_iff_right fun _ => by simp).symm
    exact hone (one_admitted_iff hauth (by
      simp [Exchange.authentication, hresolve, Except.toOption, hne]) hany)

end

end PaariAgentClient

namespace Sample

def client : PaariAgentClient := ⟨"private-key", some "agent", some "agent"⟩

/-- The execution of the authorization, as the client signs it. -/
def consuming : SignedRequest :=
  (PaariAgentClient.Operation.consume "auth").request "agent" "agent" 0 "jti"

/-- A host that reads the client's header and its proof. -/
def sendingHost : Host :=
  { provingHost with
    lower := fun s => if s = "Bearer agent" then "bearer agent" else s
    proof_decode := fun now key text =>
      if text = "proof" then
        if (key == "agent-key") = true ∧ consuming.issued_at * SECOND ≤ now then
          some (consuming.claims provingHost) else none
      else none }

theorem client_live : LiveSession sendingHost (· == "agent-key") unspent "agent" "agent"
    ⟨some "paari_session", some "agent", some "agent", some "1.0", ""⟩
    (agent ["make_payment"] 1000) where
  stands := ⟨rfl, rfl, rfl, rfl, rfl, rfl⟩
  subject := rfl
  key := ⟨"agent-key", rfl, rfl⟩

theorem client_signs :
    ReadsBack sendingHost (· == "agent-key") "proof" (consuming.claims sendingHost) :=
  ⟨fun _ _ => rfl, by decide⟩

end Sample

end Paari
