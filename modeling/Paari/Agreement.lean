import Paari.ProofUse

/-!
# Requests and proofs agree

The SDK's client signs every request it sends under a session: the method, the path, the
session token, the second, a fresh `jti`. The server authenticates a session of protocol
1.0 only by such a proof. What the holders of the agents' keys signed and what the server
goes through with are put side by side here, with everything in between (delays, copies,
requests made up by someone who has the session token) left to chance.

> `requests_agree`: in every run, the exchanges that come to a commit answer different
> signed requests, each for the same agent, method, path and session token, and in time.

A commit is what burns the proof, so an exchange that ends without one answers a signed
request too (`admitted_answers`), but not always a new one.
-/

namespace Paari

open Atomic
open Host (SECOND REQUEST_PROOF_TTL CLOCK_SKEW_LEEWAY_SECONDS)

/-! ## What the client signs -/

/-- A request the client has made a proof for. -/
structure SignedRequest where
  agent_id : String
  access_token : String
  method : String
  path : String
  jti : String
  issued_at : Int

/-- `build_request_proof` of the SDK at the clock's second `now`, with the identifier it
would draw: the request its proof is for. -/
def SignedRequest.build (agent_id access_token method path : String) (jti : Option String)
    (issued_at : Option Int) (now : Int) (uuid : String) : SignedRequest where
  agent_id := agent_id
  access_token := access_token
  method := method
  path := path
  jti := RazorpayAdapter.orStr (jti.getD "") uuid
  issued_at := issued_at.getD now

/-- The claims that `build_request_proof` has `jwt.encode` sign, and the header's `alg`. -/
def SignedRequest.claims (H : Host) (r : SignedRequest) : ProofClaims where
  alg := "EdDSA"
  typ := some "paari-proof"
  sub := some r.agent_id
  htm := some (H.upper r.method)
  htu := some r.path
  ath := H.token_hash r.access_token
  iat := r.issued_at
  jti := some r.jti

/-- Under each public key `jwt.decode` reads only what the holder of its private key has
signed, and nothing before the second it was issued. -/
structure Unforged (H : Host) (signed : String → List SignedRequest) : Prop where
  signed : ∀ {now key text claims}, H.proof_decode now key text = some claims →
    ∃ r ∈ signed key, claims = r.claims H
  mature : ∀ {now key text claims}, H.proof_decode now key text = some claims →
    claims.iat * SECOND ≤ now

/-! ## What the server admits -/

/-- What `_authenticate` lets an exchange go on with, when it starts here. -/
def Exchange.admitted (H : Host) (w : World) (e : Exchange) :
    Option (RequestContext × String × Authenticated) :=
  (e.authentication H w.db).bind fun a =>
    match authenticated H w a.1 a.2.1 a.2.2 with
    | some (.ok authed) => some (a.1, a.2.1, authed)
    | _ => none

/-- The session needs a proof for every request. -/
def SessionClaims.bound (H : Host) (claims : SessionClaims) : Bool :=
  claims.protocol_version == some "1.0" || H.flag "PAARI_REQUIRE_REQUEST_PROOF"

/-- The exchange's session is such a one. -/
def Exchange.bound (H : Host) (w : World) (e : Exchange) : Bool :=
  (e.authentication H w.db).any fun a =>
    (H.decode_session_token w.clock a.2.1).any (SessionClaims.bound H)

theorem accepted_of_admitted {H : Host} {w : World} {e : Exchange} {ctx : RequestContext}
    {token : String} {a : Authenticated} (h : e.admitted H w = some (ctx, token, a)) :
    e.accepted H w = a.pending.burnt := by
  obtain ⟨x, hx, h⟩ := Option.bind_eq_some_iff.mp h
  unfold Exchange.accepted
  rw [hx, Option.bind_some]
  cases hr : authenticated H w x.1 x.2.1 x.2.2 with
  | none =>
    rw [hr] at h
    exact absurd h (by simp)
  | some r =>
    rw [hr] at h
    cases r with
    | error y => exact absurd h (by simp)
    | ok authed =>
      obtain ⟨-, -, rfl⟩ : x.1 = ctx ∧ x.2.1 = token ∧ authed = a := by simpa using h
      rfl

/-- The checks on a proof, all together. -/
theorem proof_jti_iff {H : Host} {claims : ProofClaims} {agent : Agent} {ctx : RequestContext}
    {token jti : String} {now : Instant} :
    proof_jti H claims agent ctx token now = some jti ↔
      claims.alg = "EdDSA" ∧ claims.typ = some "paari-proof" ∧ claims.sub = some agent.agent_id ∧
        (Host.timestamp now - claims.iat).natAbs ≤ 150 ∧
        claims.htm = some (H.upper ctx.method) ∧ claims.htu = some ctx.path ∧
        claims.ath = H.token_hash token ∧ claims.jti = some jti ∧ jti ≠ "" := by
  have hwindow : (Host.timestamp REQUEST_PROOF_TTL + CLOCK_SKEW_LEEWAY_SECONDS).natAbs = 150 := by
    decide
  unfold proof_jti
  rw [hwindow]
  split
  · next h => simp [h]
  next halg =>
  split
  · next h => exact ⟨nofun, fun hc => absurd h (by simp [hc.2.1, hc.2.2.1])⟩
  next hsub =>
  split
  · next h => exact ⟨nofun, fun hc => absurd h (by omega)⟩
  next hiat =>
  split
  · next h => exact ⟨nofun, fun hc => absurd h (by simp [hc.2.2.2.2.1, hc.2.2.2.2.2.1])⟩
  next hbound =>
  split
  · next h => exact ⟨nofun, fun hc => absurd hc.2.2.2.2.2.2.1 h⟩
  next hath =>
  simp only [not_or, not_not] at halg hsub hbound hath
  rw [Option.filter_eq_some_iff, decide_eq_true_iff]
  exact ⟨fun h => ⟨halg, hsub.1, hsub.2, by omega, hbound.1, hbound.2, hath, h⟩,
    fun h => h.2.2.2.2.2.2.2⟩

/-- What `_authenticate` asks of a session before any proof. -/
structure SessionStands (H : Host) (w : World) (token : String) (claims : SessionClaims)
    (agent : Agent) : Prop where
  decoded : H.decode_session_token w.clock token = some claims
  found : w.db.agents.find? (fun a => some a.agent_id == claims.sub) = some agent
  active : agent.status = .active
  credential : ((w.db.credentials.find? fun c => some c.credential_id == claims.credential_id).any
    fun c => !c.revoked && decide (w.clock ≤ c.expires_at)) = true
  parent : ((parent_for w.db agent).any fun p => p.status = .active) = true
  valid : (agent.valid_until.any fun v => v < w.clock) = false

/-- The row that burns a proof. -/
def burntRow (agent : Agent) (proof : ProofClaims) (jti : String) : RequestProof where
  jti := jti
  agent_id := agent.agent_id
  org_id := RazorpayAdapter.orStr agent.org_id "default"
  issued_at := proof.iat * SECOND
  expires_at := proof.iat * SECOND + REQUEST_PROOF_TTL

/-- The proof passes under the key, and its row is what is left pending. -/
def ProofPasses (H : Host) (w : World) (ctx : RequestContext) (token key : String) (agent : Agent)
    (pending : Session) : Prop :=
  ∃ proof jti, H.proof_decode w.clock key ctx.x_paari_proof = some proof ∧
    proof_jti H proof agent ctx token w.clock = some jti ∧ ¬ w.db.Burnt jti ∧
    pending = [.insertProof (burntRow agent proof jti)]

section
variable {H : Host} {w : World} {ctx : RequestContext} {token : String} {expected : Option String}
  {i : Nat} {calls : List (Call × Option Answer)}

theorem verify_request_proof_spec (agent : Agent) (key : String) :
    (verify_request_proof H agent key ctx token).Wp (World.exec i)
      (fun _ _ r => ∀ s, r = some (some s) ↔ ProofPasses H w ctx token key agent s) calls w := by
  refine wp_now ?_
  split
  · next hdecode =>
    refine fun s => ⟨nofun, fun ⟨proof, jti, hproof, _⟩ => ?_⟩
    exact absurd (hdecode.symm.trans hproof) (by simp)
  next proof hdecode =>
  have hsame : ∀ {q : ProofClaims},
      H.proof_decode w.clock key ctx.x_paari_proof = some q → q = proof :=
    fun h => Option.some.inj (h.symm.trans hdecode)
  split
  · next hfails =>
    refine fun s => ⟨nofun, fun ⟨q, jti, hproof, hjti, _⟩ => ?_⟩
    obtain rfl := hsame hproof
    exact absurd (hfails.symm.trans hjti) (by simp)
  next jti hjti =>
  have hburnt : (w.db.proofs.any fun p => p.jti == jti) = true ↔ w.db.Burnt jti := by
    simp [DB.Burnt]
  refine wp_query ?_
  split
  · next hseen =>
    refine fun s => ⟨nofun, fun ⟨q, jti', hproof, hjti', hun, _⟩ => ?_⟩
    obtain rfl := hsame hproof
    obtain rfl := Option.some.inj (hjti.symm.trans hjti')
    exact absurd (hburnt.mp hseen) hun
  · next hseen =>
    refine fun s => ⟨fun h => ?_, fun ⟨q, jti', hproof, hjti', _, hs⟩ => ?_⟩
    · exact ⟨proof, jti, hdecode, hjti, fun h' => hseen (hburnt.mpr h'),
        (Option.some.inj (Option.some.inj h)).symm⟩
    · obtain rfl := hsame hproof
      obtain rfl := Option.some.inj (hjti.symm.trans hjti')
      rw [hs]
      rfl

/-- What `_authenticate` lets through, and with what. -/
theorem authenticate_spec :
    (authenticate H ctx token expected).Wp (World.exec i)
      (fun _ _ r => ∀ a, r = some (.ok a) ↔ SessionStands H w token a.claims a.agent ∧
        (present expected = true → a.claims.sub = expected) ∧
        if a.claims.bound H then ctx.x_paari_proof ≠ "" ∧
          ∃ key, key_for_session H a.agent a.claims w.clock = some key ∧
            ProofPasses H w ctx token key a.agent a.pending
        else a.pending = []) calls w := by
  have hrefused : ∀ {x : HttpError} {a : Authenticated} {P : Prop}, (P → False) →
      (some (Except.error (Reply.error x)) = some (Except.ok a) ↔ P) :=
    fun h => ⟨nofun, fun hp => (h hp).elim⟩
  refine wp_now ?_
  split
  · next hdecode =>
    refine fun a => hrefused fun h => ?_
    exact absurd (hdecode.symm.trans h.1.decoded) (by simp)
  next claims hdecode =>
  have hclaims : ∀ {c : SessionClaims},
      H.decode_session_token w.clock token = some c → c = claims :=
    fun h => Option.some.inj (h.symm.trans hdecode)
  split
  · next hother =>
    refine fun a => hrefused fun h => ?_
    obtain ⟨hpresent, hne⟩ := Bool.and_eq_true_iff.mp hother
    rw [← hclaims h.1.decoded, h.2.1 hpresent] at hne
    exact absurd hne (by simp)
  next hexpected =>
  refine wp_query ?_
  have hfound : ∀ {c : SessionClaims} {b : Agent}, SessionStands H w token c b →
      w.db.agents.find? (fun a => some a.agent_id == claims.sub) = some b := by
    intro c b h
    rw [← hclaims h.decoded]
    exact h.found
  split
  · next hmissing =>
    refine fun a => hrefused fun h => ?_
    exact absurd (hmissing.symm.trans (hfound h.1)) (by simp)
  next agent hagent =>
  have hsame : ∀ {c : SessionClaims} {b : Agent},
      SessionStands H w token c b → c = claims ∧ b = agent :=
    fun h => ⟨hclaims h.decoded, Option.some.inj ((hfound h).symm.trans hagent)⟩
  split
  · next hactive =>
    refine fun a => hrefused fun h => hactive ?_
    rw [← (hsame h.1).2]
    exact h.1.active
  next hactive =>
  refine wp_query (wp_now ?_)
  split
  · next hcredential =>
    refine fun a => hrefused fun h => ?_
    rw [← (hsame h.1).1, h.1.credential] at hcredential
    exact absurd hcredential (by simp)
  next hcredential =>
  refine wp_query ?_
  split
  · next hparent =>
    refine fun a => hrefused fun h => ?_
    rw [← (hsame h.1).2, h.1.parent] at hparent
    exact absurd hparent (by simp)
  next hparent =>
  split
  · next hvalid =>
    refine fun a => hrefused fun h => ?_
    rw [← (hsame h.1).2, h.1.valid] at hvalid
    exact absurd hvalid (by simp)
  next hvalid =>
  have hstands : SessionStands H w token claims agent :=
    ⟨hdecode, hagent, by simpa using hactive, by simpa using hcredential, by simpa using hparent,
      by simpa using hvalid⟩
  have hsubject : present expected = true → claims.sub = expected := by
    intro hpresent
    simpa [hpresent] using hexpected
  split
  · next hplain =>
    have hbound : claims.bound H = false := by simpa [SessionClaims.bound] using hplain
    rintro ⟨b, c, pending⟩
    constructor
    · intro h
      cases h
      exact ⟨hstands, hsubject, by simp [hbound]⟩
    · rintro ⟨h, -, hpending⟩
      obtain ⟨rfl, rfl⟩ := hsame h
      simp only [hbound, Bool.false_eq_true, if_false] at hpending
      rw [hpending]
  next hneeds =>
  have hbound : claims.bound H = true := by
    rw [Bool.not_eq_true', Bool.not_eq_false] at hneeds
    exact hneeds
  split
  · next hempty =>
    refine fun a => hrefused fun h => ?_
    have hproof := h.2.2
    rw [(hsame h.1).1, if_pos hbound] at hproof
    exact hproof.1 hempty
  next hempty =>
  refine wp_now ?_
  split
  · next hkey =>
    refine fun a => hrefused fun h => ?_
    have hproof := h.2.2
    rw [(hsame h.1).1, (hsame h.1).2, if_pos hbound] at hproof
    obtain ⟨-, key, hsome, -⟩ := hproof
    exact absurd (hkey.symm.trans hsome) (by simp)
  next key hkey =>
  refine Prog.wp_bind (Prog.wp_mono ?_ (verify_request_proof_spec agent key))
  intro w' c r hr
  have hpasses : ∀ {a : Authenticated}, SessionStands H w token a.claims a.agent ∧
      (present expected = true → a.claims.sub = expected) ∧
      (if a.claims.bound H then ctx.x_paari_proof ≠ "" ∧
        ∃ key, key_for_session H a.agent a.claims w.clock = some key ∧
          ProofPasses H w ctx token key a.agent a.pending
      else a.pending = []) ↔ a.claims = claims ∧ a.agent = agent ∧ r = some (some a.pending) := by
    rintro ⟨b, c, pending⟩
    constructor
    · rintro ⟨h, -, hproof⟩
      obtain ⟨rfl, rfl⟩ := hsame h
      rw [if_pos hbound] at hproof
      obtain ⟨-, key', hsome, hproof⟩ := hproof
      obtain rfl := Option.some.inj (hkey.symm.trans hsome)
      exact ⟨rfl, rfl, (hr _).mpr hproof⟩
    · rintro ⟨rfl, rfl, h⟩
      exact ⟨hstands, hsubject, by
        rw [if_pos hbound]
        exact ⟨hempty, key, hkey, (hr _).mp h⟩⟩
  rcases r with _ | _ | s
  · exact fun a => ⟨nofun, fun h => absurd (hpasses.mp h).2.2 (by simp)⟩
  · exact fun a => hrefused fun h => absurd (hpasses.mp h).2.2 (by simp)
  · refine fun a => ⟨fun h => hpasses.mpr ?_, fun h => ?_⟩
    · cases h
      exact ⟨rfl, rfl, rfl⟩
    · obtain ⟨hc, hb, hs⟩ := hpasses.mp h
      rw [← hc, ← hb, Option.some.inj (Option.some.inj hs)]

end

/-- The exchange, started here, is let through on the proof of `r`: it is the request that
was signed, sent under its session, by its agent, within the window. -/
structure Exchange.Answers (H : Host) (signed : String → List SignedRequest) (w : World)
    (e : Exchange) (r : SignedRequest) : Prop where
  admitted : ∃ ctx token a key, e.admitted H w = some (ctx, token, a) ∧
    key_for_session H a.agent a.claims w.clock = some key ∧ r ∈ signed key ∧
    a.agent.agent_id = r.agent_id ∧ H.upper ctx.method = H.upper r.method ∧ ctx.path = r.path ∧
    H.token_hash token = H.token_hash r.access_token
  burnt : e.accepted H w = some r.jti
  issued : r.issued_at * SECOND ≤ w.clock
  fresh : Host.timestamp w.clock ≤ r.issued_at + 150

section
variable {H : Host} {signed : String → List SignedRequest} {w : World} {e : Exchange}

/-- Whatever exchange of a bound session is admitted, its agent's key signed it. -/
theorem admitted_answers (hs : Unforged H signed) {x : RequestContext × String × Authenticated}
    (hadmitted : e.admitted H w = some x) (hbound : e.bound H w = true) :
    ∃ r, e.Answers H signed w r := by
  obtain ⟨⟨ctx, token, expected⟩, hauth, h⟩ := Option.bind_eq_some_iff.mp hadmitted
  dsimp only at h
  split at h
  case h_2 => exact absurd h (by simp)
  next a ha =>
  obtain rfl := Option.some.inj h
  obtain ⟨hstands, -, hproof⟩ := (Prog.eval_spec [] authenticate_spec a).mp ha
  have hneeds : a.claims.bound H = true := by
    unfold Exchange.bound at hbound
    rw [hauth, Option.any_some, hstands.decoded, Option.any_some] at hbound
    exact hbound
  rw [if_pos hneeds] at hproof
  obtain ⟨-, key, hkey, proof, jti, hdecoded, hjti, -, hpending⟩ := hproof
  obtain ⟨r, hr, rfl⟩ := hs.signed hdecoded
  have hmature := hs.mature hdecoded
  obtain ⟨-, -, hsub, hiat, hhtm, hhtu, hath, hid, -⟩ := proof_jti_iff.mp hjti
  refine ⟨r, ⟨ctx, token, a, key, hadmitted, hkey, hr, ?_, ?_, ?_, hath.symm⟩, ?_, hmature, ?_⟩
  · exact (Option.some.inj hsub).symm
  · exact (Option.some.inj hhtm).symm
  · exact (Option.some.inj hhtu).symm
  · rw [accepted_of_admitted hadmitted, hpending]
    exact hid.symm
  · show Host.timestamp w.clock ≤ (r.claims H).iat + 150
    omega

/-! ## Nothing without admission -/

/-- Started here, the part comes to no commit, sends nothing and leaves the store alone. -/
def Idle {α : Type} (p : Handler α) (answers : List Answer) (w : World) : Prop :=
  p.first (World.exec 0) Stmt.isCommit answers w = none ∧
    (p.eval (World.exec 0) answers w).calls = [] ∧ (p.eval (World.exec 0) answers w).store = w

variable {answers : List Answer} {ctx : RequestContext} {expected : Option String}

theorem idle_pure {α : Type} (a : α) : Idle (pure a : Handler α) answers w := ⟨rfl, rfl, rfl⟩

/-- After a part that only reads, it is up to what the part yields. -/
theorem idle_bind {α β : Type} {R : α → Prop} {k : α → Handler β} : ∀ {p : Handler α}, p.Reads R →
    (∀ a, (p.eval (World.exec 0) [] w).value = some a → Idle (k a) answers w) →
    Idle (p >>= k) answers w := by
  intro p
  induction p with
  | ret a => intro _ hk; exact hk a rfl
  | halt => intro _ _; exact ⟨rfl, rfl, rfl⟩
  | stmt s k' ih =>
    intro h hk
    obtain rfl : s = .select := h.1
    exact ih w (h.2 w) hk
  | call c k' _ => intro h; exact h.elim

theorem idle_query {α β : Type} {f : DB → α} {k : α → Handler β} (h : Idle (k (f w.db)) answers w) :
    Idle (Handler.query f >>= k) answers w := h

theorem idle_authenticate {token : String} {k : Authenticated → Handler Reply}
    (h : ∀ a, authenticated H w ctx token expected ≠ some (.ok a)) :
    Idle (Handler.attempt (authenticate H ctx token expected) k) answers w := by
  refine idle_bind (authenticate_reads H ctx token expected) fun r hr => ?_
  cases r with
  | error x => exact idle_pure x
  | ok a => exact absurd hr (h a)

/-- A request whose session is refused. -/
theorem idle_session {body_token : String} {k : Authenticated → Handler Reply}
    (h : ∀ token a, resolve_session_token H body_token ctx.authorization = .ok token →
      authenticated H w ctx token expected ≠ some (.ok a)) :
    Idle (Handler.attempt (pure (resolve_session_token H body_token ctx.authorization)) fun token =>
      Handler.attempt (authenticate H ctx token expected) k) answers w := by
  cases hres : resolve_session_token H body_token ctx.authorization with
  | error x => exact idle_pure x
  | ok token => exact idle_authenticate fun a => h token a hres

theorem idle_guarded {α : Type} {f : DB → Option α} {missing : Reply} {body_token : String}
    {expected : α → Option String} {k : α → Authenticated → Handler Reply}
    (h : ∀ x token a, f w.db = some x →
      resolve_session_token H body_token ctx.authorization = .ok token →
      authenticated H w ctx token (expected x) ≠ some (.ok a)) :
    Idle (guarded H f missing ctx body_token expected k) answers w := by
  refine idle_query ?_
  cases hrow : f w.db with
  | none => exact idle_pure missing
  | some x => exact idle_session fun token a => h x token a hrow

theorem idle_asAgent {required : Bool} {k : Agent → Handler Response}
    (h : ∀ token a, resolve_session_token H "" ctx.authorization = .ok token →
      (required = true → token ≠ "") → authenticated H w ctx token expected ≠ some (.ok a)) :
    Idle (asAgent H ctx required expected k) answers w := by
  unfold asAgent
  split
  · exact idle_pure _
  next token htoken =>
  split
  · exact idle_pure _
  next hrequired =>
  refine idle_bind (authenticate_reads H ctx token expected) fun r hr => ?_
  cases r with
  | error x => exact idle_pure _
  | ok a => exact absurd hr (h token a htoken fun hr ht => hrequired ⟨hr, ht⟩)

/-- A reply that is only wrapped changes nothing of this. -/
theorem idle_reply {p : Handler Reply} (h : Idle p answers w) :
    Idle (p >>= fun x => pure (Response.reply x)) answers w := by
  unfold Idle
  rw [Prog.first_map, Prog.eval_map]
  exact h

theorem not_admitted {token : String} (h : e.admitted H w = none)
    (hauth : e.authentication H w.db = some (ctx, token, expected)) (a : Authenticated) :
    authenticated H w ctx token expected ≠ some (.ok a) := by
  intro ha
  unfold Exchange.admitted at h
  rw [hauth, Option.bind_some] at h
  dsimp only at h
  rw [ha] at h
  exact absurd h (by simp)

/-- An exchange that needs a session and is not admitted does nothing. -/
theorem refused_idle (h : e.admitted H w = none) (hsession : (e.authentication H w.db).isSome) :
    Idle (Exchange.handler H e) answers w := by
  cases e with
  | active_mandate ctx id =>
    show Idle (get_active_user_payment_mandate H ctx id) answers w
    unfold get_active_user_payment_mandate
    exact idle_asAgent fun token a htoken _ => not_admitted h (by
      simp [Exchange.authentication, htoken, Except.toOption]) a
  | provider_binding ctx id =>
    show Idle (get_provider_binding H ctx id) answers w
    unfold get_provider_binding
    exact idle_asAgent fun token a htoken _ => not_admitted h (by
      simp [Exchange.authentication, htoken, Except.toOption]) a
  | audit ctx id =>
    show Idle (query_audit H ctx id) answers w
    unfold query_audit
    exact idle_asAgent fun token a htoken hne => not_admitted h (by
      simp [Exchange.authentication, htoken, Except.toOption, hne rfl]) a
  | proof ctx id =>
    show Idle (get_proof_bundle H ctx id) answers w
    unfold get_proof_bundle
    exact idle_asAgent fun token a htoken hne => not_admitted h (by
      simp [Exchange.authentication, htoken, Except.toOption, hne rfl]) a
  | request req =>
    refine idle_reply ?_
    cases req with
    | submit_intent ctx req =>
      obtain ⟨k, -, heq⟩ := submit_intent_guarded (H := H) ctx req
      rw [show handler H (.submit_intent ctx req) = _ from heq]
      exact idle_session fun token a htoken => not_admitted h (by
        simp [Exchange.authentication, htoken, Except.toOption]) a
    | mfa_challenge ctx req =>
      rw [show handler H (.mfa_challenge ctx req) = _ from mfa_challenge_guarded ctx req]
      refine idle_guarded fun x token a hrow htoken => not_admitted h ?_ a
      simp [Exchange.authentication, htoken, Except.toOption, hrow]
    | consume ctx id body_token =>
      rw [show handler H (.consume ctx id body_token) = _ from consume_guarded ctx id body_token]
      refine idle_guarded fun x token a hrow htoken => not_admitted h ?_ a
      unfold authorizationOf at hrow
      simp [Exchange.authentication, htoken, Except.toOption, hrow]
    | revoke_authorization ctx id body_token =>
      rw [show handler H (.revoke_authorization ctx id body_token) = _ from
        revoke_guarded ctx id body_token]
      refine idle_guarded fun x token a hrow htoken => not_admitted h ?_ a
      unfold authorizationOf at hrow
      simp [Exchange.authentication, htoken, Except.toOption, hrow]
    | reconcile ctx id body_token =>
      rw [show handler H (.reconcile ctx id body_token) = _ from
        reconcile_guarded ctx id body_token]
      refine idle_guarded fun x token a hrow htoken => not_admitted h ?_ a
      unfold authorizationOf at hrow
      simp [Exchange.authentication, htoken, Except.toOption, hrow]
    | refund ctx id req =>
      rw [show handler H (.refund ctx id req) = _ from refund_guarded ctx id req]
      refine idle_guarded fun x token a hrow htoken => not_admitted h ?_ a
      simp [Exchange.authentication, htoken, Except.toOption, hrow]
    | _ => exact absurd hsession (by simp [Exchange.authentication])

/-- Under a bound session an exchange answers a request its agent's key signed, or does nothing. -/
theorem answered_or_idle (hs : Unforged H signed) (hbound : e.bound H w = true)
    (answers : List Answer) :
    (∃ r, e.Answers H signed w r) ∨ Idle (Exchange.handler H e) answers w := by
  cases hadmitted : e.admitted H w with
  | some x => exact .inl (admitted_answers hs hadmitted hbound)
  | none =>
    refine .inr (refused_idle hadmitted ?_)
    obtain ⟨a, ha, -⟩ := (Option.any_eq_true _ _).mp hbound
    exact Option.isSome_iff_exists.mpr ⟨a, ha⟩

end

/-! ## Whole runs -/

/-- The exchange, started here, comes to a commit, and its first one goes through. -/
def Exchange.commits (H : Host) (w : World) (e : Exchange) (answers : List Answer) : Bool :=
  match (Exchange.handler H e).first (World.exec 0) Stmt.isCommit answers w with
  | some (w', .commit ws) => (w'.db.applyAll ws).toOption.isSome
  | _ => false

theorem commits_of {H : Host} {w : World} {e : Exchange} {answers : List Answer}
    (h : e.commits H w answers = true) : e.Commits H w answers := by
  unfold Exchange.commits at h
  split at h
  · next w' ws hfirst =>
    cases happly : w'.db.applyAll ws with
    | ok db' => exact ⟨w', ws, db', hfirst, happly⟩
    | error x =>
      rw [happly] at h
      exact absurd h (by simp [Except.toOption])
  · exact absurd h (by simp)

/-- The exchanges under a bound session that come to a commit along a run, each with the
state it starts in. -/
def Exchange.served (H : Host) : World → List Exchange.Step → List (World × Exchange)
  | _, [] => []
  | w, .exchange e answers :: steps =>
    (if e.bound H w && e.commits H w answers then [(w, e)] else []) ++
      served H (Exchange.serve H e answers w).store steps
  | w, .tick d :: steps => served H (w.tick d) steps

section
variable {H : Host} {signed : String → List SignedRequest}

/-- One exchange that commits: it answers a signed request, and none after it does. -/
theorem commits_answered (hs : Unforged H signed) {w : World} {e : Exchange} {answers : List Answer}
    (hbound : e.bound H w = true) (hcommits : e.Commits H w answers) :
    ∃ r, e.Answers H signed w r ∧ (Exchange.serve H e answers w).store.db.Burnt r.jti := by
  rcases answered_or_idle hs hbound answers with ⟨r, hr⟩ | ⟨hfirst, -, -⟩
  · exact ⟨r, hr, serve_burns hr.burnt hcommits⟩
  · obtain ⟨w', ws, db', hcommit, -⟩ := hcommits
    rw [hfirst] at hcommit
    exact absurd hcommit (by simp)

/-- What is answered along a run was accepted along it. -/
theorem served_answered (hs : Unforged H signed) : ∀ (steps : List Exchange.Step) (w : World),
    ∃ answered : List SignedRequest,
      List.Forall₂ (fun x r => x.2.Answers H signed x.1 r) (Exchange.served H w steps) answered ∧
      (∀ r ∈ answered, r.jti ∈ Exchange.acceptances H w steps) ∧
      (answered.map SignedRequest.jti).Nodup := by
  intro steps
  induction steps with
  | nil => intro w; exact ⟨[], .nil, by simp, by simp⟩
  | cons s steps ih =>
    intro w
    cases s with
    | tick d => exact ih (w.tick d)
    | exchange e answers =>
      obtain ⟨answered, hall, haccepted, hnodup⟩ := ih (Exchange.serve H e answers w).store
      unfold Exchange.served Exchange.acceptances
      split
      · next hserved =>
        obtain ⟨hbound, hcommits⟩ := Bool.and_eq_true_iff.mp hserved
        obtain ⟨r, hr, hburnt⟩ := commits_answered hs hbound (commits_of hcommits)
        refine ⟨r :: answered, .cons hr hall, ?_, List.nodup_cons.mpr ⟨?_, hnodup⟩⟩
        · rintro r' (_ | ⟨_, hr'⟩)
          · exact List.mem_append_left _ (Option.mem_toList.mpr hr.burnt)
          · exact List.mem_append_right _ (haccepted r' hr')
        · -- its `jti` is on record from here on
          intro hmem
          obtain ⟨r', hr', hjti⟩ := List.mem_map.mp hmem
          exact burnt_not_accepted hburnt (hjti ▸ haccepted r' hr')
      · exact ⟨answered, hall, fun r hr => List.mem_append_right _ (haccepted r hr), hnodup⟩

end

/-- **Requests and proofs agree.** In every run, of whoever sends what, each exchange under
a bound session either answers a request that the agent's key signed (this method, path
and session token, from the second it was signed and not after 150 more) or changes
nothing and calls no provider; and the exchanges that come to a commit answer requests
with different `jti`s. -/
theorem requests_agree {H : Host} {signed : String → List SignedRequest} (hs : Unforged H signed)
    (w : World) (steps : List Exchange.Step) :
    (∀ pre e answers post, steps = pre ++ .exchange e answers :: post →
      e.bound H (Exchange.run H w pre) = true →
        (∃ r, e.Answers H signed (Exchange.run H w pre) r) ∨
          Idle (Exchange.handler H e) answers (Exchange.run H w pre)) ∧
      ∃ answered : List SignedRequest,
        List.Forall₂ (fun x r => x.2.Answers H signed x.1 r) (Exchange.served H w steps) answered ∧
        (answered.map SignedRequest.jti).Nodup := by
  refine ⟨fun pre e answers post _ hbound => answered_or_idle hs hbound answers, ?_⟩
  obtain ⟨answered, hall, -, hnodup⟩ := served_answered hs steps w
  exact ⟨answered, hall, hnodup⟩

namespace Sample

/-- The one request the agent's key has signed. -/
def asked : SignedRequest := .build "agent" "agent" "POST" "/" none none 0 "jti"

/-- A host whose proofs are those of that request. -/
def signingHost : Host :=
  { provingHost with
    proof_decode := fun now key text =>
      if key = "agent-key" ∧ text = "POST" ∧ 0 ≤ now then some (asked.claims provingHost)
      else none }

theorem signingHost_unforged :
    Unforged signingHost fun key => if key = "agent-key" then [asked] else [] where
  signed := by
    intro now key text claims h
    obtain ⟨⟨hkey, -, -⟩, hclaims⟩ := Option.ite_none_right_eq_some.mp h
    exact ⟨asked, by simp [hkey], (Option.some.inj hclaims).symm⟩
  mature := by
    intro now key text claims h
    obtain ⟨⟨-, -, hnow⟩, hclaims⟩ := Option.ite_none_right_eq_some.mp h
    rw [← Option.some.inj hclaims]
    exact hnow

end Sample

set_option maxRecDepth 2000 in
/-- The revocation is answered once; the copy of it is refused. -/
theorem requests_agree_revoked :
    (Exchange.served Sample.signingHost Sample.unspent Sample.revokedTwice).length = 1 ∧
      ∃ answered : List SignedRequest,
        List.Forall₂ (fun x r => x.2.Answers Sample.signingHost
            (fun key => if key = "agent-key" then [Sample.asked] else []) x.1 r)
          (Exchange.served Sample.signingHost Sample.unspent Sample.revokedTwice) answered ∧
        (answered.map SignedRequest.jti).Nodup :=
  ⟨rfl, (requests_agree Sample.signingHost_unforged Sample.unspent Sample.revokedTwice).2⟩

end Paari
