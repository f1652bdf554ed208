import Paari.Onboarding

/-!
# Challenges answered at the same time

`verify_challenge` reads the nonce, checks that it is unused, verifies the signature, and
only then marks it used, by an `UPDATE` that names the row and asks nothing of it. `Platform`
handles such a request in one step; here its statements interleave with those of other
requests and with whatever the rest of the service does.
-/

namespace Paari

open Atomic
open Host (MINUTE)

structure VerifyResponse where
  session_token : String
  expires_at : Instant
  granted_capabilities : List String
  payment_limit_minor_units : Int

inductive AuthReply
  | challenge (nonce : String) (expires_at : Instant)
  | verified (v : VerifyResponse)
  | refused (r : Reply)

/-- The claims of a session token. -/
structure SessionPayload where
  sub : String
  jti : String
  credential_id : String
  iat : Int
  exp : Int
  protocol_version : String
  capabilities : List String
  payment_limit_minor_units : Int
  jkt : String

/-- The service's own keys: what a credential says, and a session token. -/
structure Security where
  decode_credential_jwt : Instant → String → Option (String × String)
  encode_session : SessionPayload → String

/-- A statement of the core, or one on the table of nonces. -/
inductive DeskStmt
  | world (s : Stmt)
  | insertNonce (n : AuthNonce)
  | useNonce (nonce : String)

/-- A handler of these routes. -/
abbrev DeskHandler (α : Type) := Prog Platform DeskStmt Call Answer α

namespace Desk

def SESSION_TOKEN_TTL : Int := 15 * MINUTE

/-- A statement of session `i`. The `UPDATE` of a nonce names its row and no more. -/
def exec (i : Nat) : DeskStmt → Platform → Platform
  | .world s, p => { p with world := p.world.exec i s }
  | .insertNonce n, p =>
    { p with nonces := (insertUnique (fun m => m.nonce == n.nonce) n p.nonces).getD p.nonces }
  | .useNonce nonce, p =>
    { p with nonces := updateWhere (fun n => n.nonce == nonce) (fun n => { n with used := true }) p.nonces }

/-- Between two statements the rest of the service may do anything to the core. -/
def machine : Machine Platform DeskStmt (World → World) where
  exec := exec
  abort i p := { p with world := p.world.rollback i }
  env f p := { p with world := f p.world }

/-- What the core's handlers do, here. -/
def core {α : Type} (p : Handler α) : DeskHandler α := p.lifted Platform.world DeskStmt.world

/-- Read the tables. -/
def look {α : Type} (f : Platform → α) : DeskHandler α := .stmt (.world .select) fun p => .ret (f p)

/-- `list(capabilities)` as the response takes it: a list of strings or a failure. -/
def strings : Json → Option (List String)
  | .list xs => xs.mapM fun
    | .str s => some s
    | _ => none
  | _ => none

/-- `create_challenge` -/
def create_challenge (H : Host) (agent_id : String) : DeskHandler AuthReply := do
  let agent ← look fun p => p.world.db.agents.find? fun a => a.agent_id == agent_id
  match agent.filter fun a => a.status = .active with
  | none => return .refused (http 401 "Agent not eligible to authenticate")
  | some agent => do
  let now ← core Handler.now
  let n ← core Handler.fresh
  let nonce : AuthNonce := {
    nonce := H.uuid4 n, org_id := "default", agent_id := agent.agent_id
    expires_at := now + CHALLENGE_NONCE_TTL, used := false }
  .stmt (.insertNonce nonce) fun p =>
    if p.nonces.any fun m => m.nonce == nonce.nonce then .halt
    else .ret (.challenge nonce.nonce nonce.expires_at)

/-- The proof of possession: whether it holds, and the fingerprint of the key it was
tried with last. -/
def possession (H : Host) (agent : Agent) (req : VerifyRequest) : DeskHandler (Bool × String) :=
  match H.verify_signature agent.public_key_pem req.nonce req.signature_b64 with
  | none => .halt
  | some true => return (true, H.public_key_fingerprint agent.public_key_pem)
  | some false =>
    match agent.old_public_key_pem.filter (· ≠ ""), agent.key_sunset_at with
    | some old, some sunset => do
      let now ← core Handler.now
      if sunset > now then
        match H.verify_signature old req.nonce req.signature_b64 with
        | none => .halt
        | some ok => return (ok, H.public_key_fingerprint old)
      else return (false, H.public_key_fingerprint agent.public_key_pem)
    | _, _ => return (false, H.public_key_fingerprint agent.public_key_pem)

/-- `verify_challenge` once the nonce is used: the event, and the session token. What it
says of the agent is read again after the commit. -/
def open_session (H : Host) (S : Security) (req : VerifyRequest) (agent : Agent)
    (credential : Credential) (fingerprint : String) : DeskHandler AuthReply := do
  let agent ← look fun p => (p.world.db.agents.find? fun a => a.id == agent.id).getD agent
  let parent_id ← look fun p => (parent_for p.world.db agent).map ParentAuthority.parent_id
  let s ← core (record_audit H [] {
    transaction_id := "auth:" ++ req.nonce, agent_id := agent.agent_id, parent_id := parent_id
    kind := "challenge_verified", org_id := none
    detail := [("credential_id", .str credential.credential_id)] })
  core (Handler.commit s)
  let agent ← look fun p => (p.world.db.agents.find? fun a => a.id == agent.id).getD agent
  let now ← core Handler.now
  let n ← core Handler.fresh
  match strings agent.granted_capabilities with
  | none => .halt
  | some capabilities => return .verified {
      session_token := S.encode_session {
        sub := agent.agent_id, jti := H.uuid4 n, credential_id := credential.credential_id
        iat := Host.timestamp now, exp := Host.timestamp (now + SESSION_TOKEN_TTL)
        protocol_version := RazorpayAdapter.orStr (agent.protocol_version.getD "") "legacy"
        capabilities := capabilities, payment_limit_minor_units := agent.payment_limit_minor_units
        jkt := fingerprint }
      expires_at := now + SESSION_TOKEN_TTL, granted_capabilities := capabilities
      payment_limit_minor_units := agent.payment_limit_minor_units }

/-- `verify_challenge` -/
def verify_challenge (H : Host) (S : Security) (req : VerifyRequest) : DeskHandler AuthReply := do
  let agent ← look fun p => p.world.db.agents.find? fun a => a.agent_id == req.agent_id
  match agent.filter fun a => a.status = .active with
  | none => return .refused (http 401 "Agent not eligible to authenticate")
  | some agent => do
  let now ← core Handler.now
  match S.decode_credential_jwt now req.credential_jwt with
  | none => return .refused (http 401 "Invalid or expired credential")
  | some (sub, jti) => do
  if sub ≠ agent.agent_id then
    return .refused (http 401 "Credential does not match agent")
  let credential ← look fun p => p.world.db.credentials.find? fun c => c.credential_id == jti
  match credential.filter fun c => !c.revoked with
  | none => return .refused (http 401 "Credential has been revoked")
  | some credential => do
  let now_check ← core Handler.now
  if credential.expires_at < now_check then
    return .refused (http 401 "Credential has expired")
  let nonce ← look fun p => p.nonces.find? fun n => n.nonce == req.nonce && n.agent_id == req.agent_id
  let now ← core Handler.now
  match nonce.filter fun n => !n.used && decide (now ≤ n.expires_at) with
  | none => return .refused (http 401 "Challenge invalid, expired, or already used")
  | some nonce => do
  let (key_ok, fingerprint) ← possession H agent req
  if !key_ok then
    return .refused (http 401 "Signature verification failed")
  -- The row is named, its `used` column is not asked again.
  .stmt (.useNonce nonce.nonce) fun _ => open_session H S req agent credential fingerprint

end Desk

/-- A request to these routes. -/
inductive DeskRequest
  | challenge (agent_id : String)
  | verify (req : VerifyRequest)

def DeskRequest.handler (H : Host) (S : Security) : DeskRequest → DeskHandler AuthReply
  | .challenge agent_id => Desk.create_challenge H agent_id
  | .verify req => Desk.verify_challenge H S req

/-! ## A nonce is marked by one request -/

namespace Desk

/-- The phase of a request: the nonce it has marked, if it has. -/
def marking : Protocol Platform DeskStmt Call Answer (Option String) where
  stmt q s _ q' :=
    match s with
    | .useNonce n => q = none ∧ q' = some n
    | _ => q' = q
  call q _ _ q' := q' = q

section
variable {α β : Type} {H : Host} {S : Security} {R : β → Option String → Prop} {q : Option String}

theorem marking_core {p : Handler α} {k : α → DeskHandler β} (hk : ∀ a, (k a).Conforms marking R q) :
    (core p >>= k).Conforms marking R q :=
  Prog.conforms_seq (Prog.conforms_lifted (fun _ _ => rfl) (fun _ _ => rfl) p) fun a _ h => h ▸ hk a

theorem marking_look {f : Platform → α} {k : α → DeskHandler β} (hk : ∀ a, (k a).Conforms marking R q) :
    (look f >>= k).Conforms marking R q :=
  fun p => ⟨q, rfl, hk (f p)⟩

theorem possession_marking {agent : Agent} {req : VerifyRequest} {k : Bool × String → DeskHandler β}
    (hk : ∀ a, (k a).Conforms marking R q) : (possession H agent req >>= k).Conforms marking R q := by
  unfold possession
  split
  · trivial
  · exact hk _
  split
  · refine Prog.conforms_bind (marking_core fun now => ?_)
    split
    · split
      · trivial
      · exact hk _
    · exact hk _
  · exact hk _

/-- A session is opened in the phase the request is in. -/
theorem open_session_marking {agent : Agent} {credential : Credential} {fingerprint : String}
    {req : VerifyRequest} :
    (open_session H S req agent credential fingerprint).Conforms marking (fun _ q' => q' = q) q := by
  refine marking_look fun agent => marking_look fun parent_id => marking_core fun s =>
    marking_core fun _ => marking_look fun agent => marking_core fun now => marking_core fun n => ?_
  split
  · trivial
  · exact rfl

/-- A session token is returned by a request that has marked its nonce. -/
def Opened (req : DeskRequest) (r : AuthReply) (q : Option String) : Prop :=
  ∀ v r', r = .verified v → req = .verify r' → q = some r'.nonce

theorem verify_challenge_marking {req : VerifyRequest} :
    (verify_challenge H S req).Conforms marking (Opened (.verify req)) none := by
  have hrefused : ∀ r q, Opened (.verify req) (.refused r) q := fun _ _ _ _ h => absurd h nofun
  refine marking_look fun agent => ?_
  split
  · exact hrefused _ _
  refine marking_core fun now => ?_
  split
  · exact hrefused _ _
  split
  · exact hrefused _ _
  refine marking_look fun credential => ?_
  split
  · exact hrefused _ _
  refine marking_core fun now_check => ?_
  split
  · exact hrefused _ _
  -- The row that is read has the nonce of the request.
  refine fun p => ⟨none, rfl, marking_core fun now => ?_⟩
  dsimp only
  split
  · exact hrefused _ _
  next nonce hnonce =>
  have hid : nonce.nonce = req.nonce := by
    have hfound := List.find?_some (Option.filter_eq_some_iff.mp hnonce).1
    exact beq_iff_eq.mp (Bool.and_eq_true_iff.mp hfound).1
  refine possession_marking fun a => ?_
  split
  · exact hrefused _ _
  refine fun p => ⟨some nonce.nonce, ⟨rfl, rfl⟩, Prog.conforms_mono (fun r q hq v r' _ hr => ?_)
    open_session_marking⟩
  obtain rfl := DeskRequest.verify.inj hr
  rw [hq, hid]

theorem create_challenge_marking {agent_id : String} :
    (create_challenge H agent_id).Conforms marking (Opened (.challenge agent_id)) none := by
  have hnot : ∀ r q, Opened (.challenge agent_id) r q := fun _ _ _ _ _ h => absurd h nofun
  refine marking_look fun agent => ?_
  split
  · exact hnot _ _
  refine marking_core fun now => marking_core fun n => fun p => ⟨none, rfl, ?_⟩
  dsimp only
  split
  · trivial
  · exact hnot _ _

theorem handler_marking (r : DeskRequest) :
    (r.handler H S).Conforms marking (Opened r) none := by
  cases r with
  | challenge agent_id => exact create_challenge_marking
  | verify req => exact verify_challenge_marking

/-- What has been marked: rows that are used, each by one request. -/
structure Marked (p : Platform) (qs : Nat → Option String) : Prop where
  used : ∀ i n, qs i = some n →
    (∃ r ∈ p.nonces, r.nonce = n) ∧ ∀ r ∈ p.nonces, r.nonce = n → r.used = true
  once : ∀ i j n, qs i = some n → qs j = some n → i = j

/-- The `UPDATE` that marks a nonce finds it unused. -/
def findsUnused : Event Platform DeskStmt Call Answer → Bool
  | .stmt _ (.useNonce n) p => p.nonces.any fun r => r.nonce == n && !r.used
  | _ => true

/-- The condition on a run: every such `UPDATE` does. -/
def FindsUnused (_ : List (Event Platform DeskStmt Call Answer))
    (ev : Event Platform DeskStmt Call Answer) : Prop := findsUnused ev = true

/-- A row after the `UPDATE`. -/
theorem mem_marked {n : String} {x : AuthNonce} {rows : List AuthNonce}
    (hx : x ∈ updateWhere (fun r => r.nonce == n) (fun r => { r with used := true }) rows) :
    ∃ y ∈ rows, y.nonce = x.nonce ∧ (x.nonce = n ∨ y.used = true → x.used = true) := by
  obtain ⟨y, hy, rfl⟩ := List.mem_map.mp hx
  refine ⟨y, hy, ?_⟩
  split
  · exact ⟨rfl, fun _ => rfl⟩
  · next hne => exact ⟨rfl, fun h => h.resolve_left fun heq => hne (beq_iff_eq.mpr heq)⟩

theorem marked_mem {n : String} {y : AuthNonce} {rows : List AuthNonce} (hy : y ∈ rows) :
    ∃ x ∈ updateWhere (fun r => r.nonce == n) (fun r => { r with used := true }) rows,
      x.nonce = y.nonce := by
  refine ⟨_, List.mem_map.mpr ⟨y, hy, rfl⟩, ?_⟩
  split <;> rfl

theorem Marked.mark {p : Platform} {qs : Nat → Option String} (h : Marked p qs) {i : Nat} {n : String}
    (hunused : (p.nonces.any fun r => r.nonce == n && !r.used) = true) :
    Marked (exec i (.useNonce n) p) (Function.update qs i (some n)) := by
  obtain ⟨r, hr, hmatch⟩ := List.any_eq_true.mp hunused
  simp only [Bool.and_eq_true, beq_iff_eq, Bool.not_eq_true'] at hmatch
  obtain ⟨hid, hfalse⟩ := hmatch
  -- no phase holds `n` yet: its row would be marked
  have hnew : ∀ j, qs j ≠ some n := by
    intro j hj
    rw [(h.used j n hj).2 r hr hid] at hfalse
    exact absurd hfalse (by decide)
  refine ⟨fun j m hj => ?_, fun j k m hj hk => ?_⟩
  · by_cases hji : j = i
    · rw [hji, Function.update_self] at hj
      obtain rfl := Option.some.inj hj
      obtain ⟨x, hx, hxn⟩ := marked_mem (n := n) hr
      refine ⟨⟨x, hx, hxn.trans hid⟩, fun x hx hxn => ?_⟩
      obtain ⟨y, -, -, hused⟩ := mem_marked hx
      exact hused (.inl hxn)
    · rw [Function.update_of_ne hji] at hj
      obtain ⟨⟨y, hy, hyn⟩, hused⟩ := h.used j m hj
      obtain ⟨x, hx, hxn⟩ := marked_mem (n := n) hy
      refine ⟨⟨x, hx, hxn.trans hyn⟩, fun x hx hxn => ?_⟩
      obtain ⟨z, hz, hzn, hz'⟩ := mem_marked hx
      exact hz' (.inr (hused z hz (hzn.trans hxn)))
  · by_cases hji : j = i
    · by_cases hki : k = i
      · rw [hji, hki]
      · rw [hji, Function.update_self] at hj
        rw [Function.update_of_ne hki, ← hj] at hk
        exact absurd hk (hnew k)
    · rw [Function.update_of_ne hji] at hj
      by_cases hki : k = i
      · rw [hki, Function.update_self] at hk
        rw [← hk] at hj
        exact absurd hj (hnew j)
      · rw [Function.update_of_ne hki] at hk
        exact h.once j k m hj hk

theorem Marked.insert {p : Platform} {qs : Nat → Option String} (h : Marked p qs) (i : Nat)
    (n : AuthNonce) : Marked (exec i (.insertNonce n) p) qs := by
  refine ⟨fun j m hj => ?_, h.once⟩
  show (∃ r ∈ (insertUnique _ n p.nonces).getD p.nonces, r.nonce = m) ∧
    ∀ r ∈ (insertUnique _ n p.nonces).getD p.nonces, r.nonce = m → r.used = true
  obtain ⟨⟨y, hy, hyn⟩, hused⟩ := h.used j m hj
  cases hrows : insertUnique (fun x => x.nonce == n.nonce) n p.nonces with
  | none => exact ⟨⟨y, hy, hyn⟩, hused⟩
  | some rows =>
    obtain ⟨rfl, hnew⟩ := insertUnique_eq hrows
    refine ⟨⟨y, List.mem_append_left _ hy, hyn⟩, fun x hx hxn => ?_⟩
    rcases List.mem_append.mp hx with hx | hx
    · exact hused x hx hxn
    · rw [List.mem_singleton.mp hx] at hxn
      have hclash := hnew y hy
      rw [hyn, hxn, beq_self_eq_true] at hclash
      exact absurd hclash (by decide)

theorem marked_exec {p : Platform} {qs : Nat → Option String} {i : Nat} {s : DeskStmt}
    {q' : Option String} (h : Marked p qs)
    (hok : findsUnused (.stmt i s p) = true)
    (hs : marking.stmt (qs i) s p q') : Marked (exec i s p) (Function.update qs i q') := by
  cases s with
  | world s =>
    obtain rfl : q' = qs i := hs
    rw [Function.update_eq_self]
    exact ⟨h.used, h.once⟩
  | insertNonce n =>
    obtain rfl : q' = qs i := hs
    rw [Function.update_eq_self]
    exact h.insert i n
  | useNonce n =>
    obtain ⟨-, rfl⟩ := hs
    exact h.mark hok

end

end Desk

/-- **A nonce opens one session** in every run whose `UPDATE`s find it unused: of any number
of requests, in any order of their steps, at most one that presents it returns a token. -/
theorem challenge_single_use {H : Host} {S : Security} {requests : List DeskRequest} {p : Platform}
    {c : Pool Platform DeskStmt Call Answer AuthReply}
    (h : Pool.Reach Desk.machine Desk.FindsUnused
      (Pool.start p (requests.map (DeskRequest.handler H S))) c)
    {i j : Nat} {req req' : VerifyRequest} (hi : requests[i]? = some (.verify req))
    (hj : requests[j]? = some (.verify req')) (hnonce : req.nonce = req'.nonce)
    {v v' : VerifyResponse} (hv : c.threads[i]? = some (.ret (.verified v)))
    (hv' : c.threads[j]? = some (.ret (.verified v'))) : i = j := by
  have hstart : (Pool.start p (requests.map (DeskRequest.handler H S)) :
      Pool Platform DeskStmt Call Answer AuthReply).Follows Desk.marking
        (fun k r q => ∀ x, requests[k]? = some x → Desk.Opened x r q) fun _ => none := by
    intro k t hk
    rw [Pool.start, List.getElem?_map] at hk
    obtain ⟨x, hx, rfl⟩ := Option.map_eq_some_iff.mp hk
    refine Prog.conforms_mono (fun r q hopened y hy => ?_) (Desk.handler_marking x)
    rw [hx] at hy
    exact Option.some.inj hy ▸ hopened
  have hsim : ∃ qs, Desk.Marked c.store qs ∧ c.Follows Desk.marking
      (fun k r q => ∀ x, requests[k]? = some x → Desk.Opened x r q) qs := by
    refine Pool.sim (J := fun p qs _ => Desk.Marked p qs) ?_ ?_ ?_ ?_ ?_ hstart h
    · exact fun st qs tr k s q' hJ hok hs => Desk.marked_exec hJ hok hs
    · intro st qs tr k cl a q' hJ _ heq
      obtain rfl := heq
      rw [Function.update_eq_self]
      exact hJ
    · intro st qs tr k w hJ _ _
      refine ⟨qs k, ?_⟩
      rw [Function.update_eq_self]
      exact ⟨hJ.used, hJ.once⟩
    · exact fun st qs tr e hJ => ⟨hJ.used, hJ.once⟩
    · exact ⟨by simp, by simp⟩
  obtain ⟨qs, hmarked, hfollows⟩ := hsim
  -- both handlers end in a phase that holds the nonce, and only one phase does
  have hqi := hfollows i _ hv (.verify req) hi v req rfl rfl
  have hqj := hfollows j _ hv' (.verify req') hj v' req' rfl rfl
  rw [← hnonce] at hqj
  exact hmarked.once i j req.nonce hqi hqj

namespace Sample

/-- A service that trusts every credential. -/
def security : Security where
  decode_credential_jwt := fun _ _ => some ("agent", "agent")
  encode_session := fun _ => "session"

/-- An agent with one open challenge, and two answers to it in flight. -/
def challenged : Pool Platform DeskStmt Call Answer AuthReply :=
  Pool.start ⟨world (db [] []), [], [⟨"nonce", "default", "agent", 1000000, false⟩]⟩
    ((List.replicate 2 (.verify ⟨"agent", "nonce", "signature", "credential"⟩)).map
      (DeskRequest.handler (host false []) security))

/-- The next `n` steps of request `i`. -/
def steps (i n : Nat) : List (Move Answer (World → World)) := List.replicate n (.run i (.ok .null))

end Sample

theorem challenge_single_use_first : ∃ v,
    ((Sample.challenged.run Desk.machine (Sample.steps 0 14)).threads[0]? = some (.ret (.verified v))) ∧
      (0 : Nat) = 0 := by
  refine ⟨_, rfl, ?_⟩
  have hrun : Pool.Reach Desk.machine Desk.FindsUnused Sample.challenged
      (Sample.challenged.run Desk.machine (Sample.steps 0 14)) :=
    Pool.reach_of_throughout _ _ .start (Pool.throughout_of_forall (List.all_eq_true.mp rfl))
  exact challenge_single_use hrun rfl rfl rfl rfl rfl

/-- Both answers read the nonce before either marks it, and both open a session. -/
theorem challenge_used_twice : ∃ v v',
    (Sample.challenged.run Desk.machine
      (Sample.steps 0 6 ++ Sample.steps 1 6 ++ Sample.steps 0 8 ++ Sample.steps 1 8)).threads[0]? =
        some (.ret (.verified v)) ∧
    (Sample.challenged.run Desk.machine
      (Sample.steps 0 6 ++ Sample.steps 1 6 ++ Sample.steps 0 8 ++ Sample.steps 1 8)).threads[1]? =
        some (.ret (.verified v')) :=
  ⟨_, _, rfl, rfl⟩

end Paari
