import Paari.Onboarding
import Paari.Ownership
import Paari.Sdk

/-!
# The cards that are served

Both card routes sign fields of their own making and leave the sending to a response model,
which writes a time with a `Z`. A protocol 1.0 card is signed with the same `Z`, and always
verifies. The older card is signed with `+00:00`: it verifies exactly without a
`valid_until`, and both registrations and every rotation set one (`Expiring`).
-/

namespace Paari

open Atomic

/-! ## The verdict on a card -/

section
variable (H : Host) (public_pem : String)

/-- `verify_agent_card` -/
def verify_agent_card (card_fields : List (String × Json)) (signature_b64 : String) : Option Bool :=
  H.verify_signature public_pem (H.canonical_json (.dict card_fields)) signature_b64

/-- What `verify_agent_card` says of a card as it was served: of its members without the
signature and the key. -/
def cardVerdict (card : List (String × Json)) : Option Bool :=
  match card.lookup "card_signature_b64" with
  | some (.str signature) => verify_agent_card H public_pem (Sdk.signed_fields card) signature
  | _ => none

end

section
variable {H : Host} {C : Ed25519} {private_pem public_pem : String}
  (keys : KeyPair H C private_pem public_pem) (hrepr : FloatRepr H.float_repr)
include keys hrepr

/-- The server verifies a sealed card exactly when it was sent as it was signed. -/
theorem cardVerdict_sealCard {sent signed : List (String × Json)}
    (hsent : ∀ kv ∈ sent, kv.1 ≠ "card_signature_b64" ∧ kv.1 ≠ "paari_public_key_pem") :
    cardVerdict H public_pem (sealCard H C private_pem public_pem sent signed) = some true ↔
      (Json.dict sent).Same (.dict signed) := by
  have hsignature : (sealCard H C private_pem public_pem sent signed).lookup "card_signature_b64" =
      some (.str (sign_agent_card H C private_pem signed)) := by
    unfold sealCard
    rw [List.lookup_append, List.lookup_eq_none_iff.mpr fun kv hkv => by
      simpa using (hsent kv hkv).1.symm]
    rfl
  unfold cardVerdict
  rw [hsignature]
  show verify_agent_card H public_pem (Sdk.signed_fields _) _ = some true ↔ _
  unfold verify_agent_card sign_agent_card
  rw [signed_fields_sealCard hsent, keys.server, Option.some_inj, decide_eq_true_iff]
  constructor
  · exact canonical_json_injective hrepr
  · intro hsame
    show canonical_json _ _ = canonical_json _ _
    unfold canonical_json
    rw [hsame]

/-- A protocol 1.0 card verifies. -/
theorem signed_card_verdict {json_datetime : Instant → String}
    (hutc : UtcText H.isoformat json_datetime) {agent : CardAgent} {parent : Option CardParent}
    {credential_id : String} {card : List (String × Json)}
    (h : signed_card H C private_pem public_pem json_datetime agent parent credential_id =
      some card) :
    cardVerdict H public_pem card = some true := by
  simp only [signed_card, Option.bind_eq_bind, Option.bind_eq_some_iff, Option.pure_def,
    Option.some_inj] at h
  obtain ⟨granted, -, capabilities, -, rfl⟩ := h
  have hsent : ∀ kv ∈ v1CardFields agent parent credential_id capabilities
      (agent.valid_until.map json_datetime),
      kv.1 ≠ "card_signature_b64" ∧ kv.1 ≠ "paari_public_key_pem" := by
    simp [v1CardFields]
  have hsame : (agent.valid_until.map fun t => String.ofList (replaceOffset (H.isoformat t).toList)) =
      agent.valid_until.map json_datetime := by
    congr 1
    exact funext hutc.replaced
  rw [hsame]
  exact (cardVerdict_sealCard keys hrepr hsent).mpr rfl

/-- The older card verifies exactly without a `valid_until`. -/
theorem build_agent_card_verdict {json_datetime : Instant → String}
    (hutc : UtcText H.isoformat json_datetime) {agent : CardAgent} {parent : Option CardParent}
    {credential_id : String} {card : List (String × Json)}
    (h : build_agent_card H C private_pem public_pem json_datetime agent parent credential_id =
      some card) :
    cardVerdict H public_pem card = some true ↔ agent.valid_until = none := by
  unfold build_agent_card at h
  split at h
  case h_2 => exact absurd h (by simp)
  next granted _ =>
  simp only [Option.bind_eq_bind, Option.bind_eq_some_iff, Option.pure_def, Option.some_inj] at h
  obtain ⟨capabilities, -, rfl⟩ := h
  have hsent : ∀ kv ∈ cardFields agent parent credential_id capabilities
      (agent.valid_until.map json_datetime),
      kv.1 ≠ "card_signature_b64" ∧ kv.1 ≠ "paari_public_key_pem" := by
    simp [cardFields]
  rw [cardVerdict_sealCard keys hrepr hsent]
  cases agent.valid_until with
  | none => exact ⟨fun _ => rfl, fun _ => rfl⟩
  | some t =>
    constructor
    · intro hsame
      have hfield := hsame.lookup (by simp [cardFields]) (by simp [cardFields]) "valid_until"
      simp [cardFields, List.lookup_cons, Json.tree] at hfield
      exact absurd hfield (hutc.differ t)
    · intro hnone
      exact absurd hnone (by simp)

/-- The older card of an agent with a `valid_until` does not verify. -/
theorem build_agent_card_refused {json_datetime : Instant → String}
    (hutc : UtcText H.isoformat json_datetime) {agent : CardAgent} {parent : Option CardParent}
    {credential_id : String} (hvalid : agent.valid_until ≠ none)
    (hserved : (build_agent_card H C private_pem public_pem json_datetime agent parent
      credential_id).isSome = true) :
    ∃ card, build_agent_card H C private_pem public_pem json_datetime agent parent credential_id =
      some card ∧ cardVerdict H public_pem card ≠ some true := by
  obtain ⟨card, hcard⟩ := Option.isSome_iff_exists.mp hserved
  exact ⟨card, hcard, fun h =>
    hvalid ((build_agent_card_verdict keys hrepr hutc hcard).mp h)⟩

end

/-! ## Every agent has a `valid_until` -/

/-- Every agent's registration ends some day. -/
def DB.Expiring (db : DB) : Prop := ∀ a ∈ db.agents, a.valid_until ≠ none

/-- No agent enters the table without a `valid_until`. -/
def Write.Dated (x : Write) : Prop := ∀ a, x = .insertAgent a → a.valid_until ≠ none

theorem expiring_stable : Stable Write.Dated DB.Expiring where
  write := by
    intro db db' x hx h hdb a ha
    rcases apply_agents h with ⟨b, rfl, heq, -⟩ | ⟨id, r, rfl, heq⟩ | ⟨id, rfl, heq⟩ | heq
    · rw [heq] at ha
      rcases List.mem_append.mp ha with ha | ha
      · exact hdb a ha
      · obtain rfl := List.mem_singleton.mp ha
        exact hx _ rfl
    · rw [heq] at ha
      obtain ⟨b, hb, rfl⟩ := List.mem_map.mp ha
      split
      · -- a rotation sets it
        exact nofun
      · exact hdb b hb
    · rw [heq] at ha
      obtain ⟨b, hb, rfl⟩ := List.mem_map.mp ha
      split
      · exact hdb b hb
      · exact hdb b hb
    · rw [heq] at ha
      exact hdb a ha
  use := fun _ _ _ h => h

theorem Write.Notes.dated {x : Write} (h : x.Notes) : x.Dated := by
  intro a hx
  subst hx
  rcases h with ⟨e, he, -⟩ | ⟨p, hp⟩
  · exact absurd he nofun
  · exact absurd hp nofun

theorem dated_delegation (d : DelegationRecord) : (Write.insertDelegation d).Dated := fun _ => nofun

theorem dated_credential (c : Credential) : (Write.insertCredential c).Dated := fun _ => nofun

theorem dated_agent {a : Agent} (h : a.valid_until ≠ none) : (Write.insertAgent a).Dated := by
  intro b hb
  obtain rfl := Write.insertAgent.inj hb
  exact h

section
variable {H : Host}

theorem register_agent_dated (req : AgentRegistrationRequest) :
    (register_agent H req).Writes Write.Dated fun _ => True := by
  refine Handler.writes_query fun parent => ?_
  split
  · trivial
  split
  · trivial
  split
  · trivial
  · trivial
  refine Handler.writes_now fun now => ?_
  split
  · split
    · trivial
    dsimp only
    split
    · trivial
    refine Handler.writes_query fun seen => ?_
    split
    · trivial
    refine Handler.writes_fresh fun id => Handler.writes_fresh fun n => ?_
    refine Handler.writes_commit (Session.all_cons (dated_delegation _)
      (Session.all_one (dated_agent nofun))) ?_
    refine Handler.writes_bind (issueCredential_writes _ _ _) fun c _ => ?_
    refine Handler.writes_commit (Session.all_one (dated_credential c)) ?_
    exact Handler.writes_bind (registrationAudits_writes (fun _ => Write.Notes.dated)
      Session.all_nil _ _ _ rfl _) fun s hs => Handler.writes_commit hs trivial
  · trivial

theorem enrol_v1_dated (parent : ParentAuthority) (agent_pub : String) (d : V1Delegation) :
    (enrol_v1 H parent agent_pub d).Writes Write.Dated fun _ => True := by
  refine Handler.writes_fresh fun id => Handler.writes_fresh fun n => ?_
  refine Handler.writes_bind (issueCredential_writes _ _ _) fun c _ => ?_
  refine Handler.writes_bind (registrationAudits_writes (fun _ => Write.Notes.dated) ?_ _ _ _ rfl _)
    fun s hs => Handler.writes_commit hs trivial
  exact Session.all_cons (dated_delegation _)
    (Session.all_cons (dated_agent nofun) (Session.all_one (dated_credential c)))

theorem v1_register_agent_dated (envelope : Json) :
    (v1_register_agent H envelope).Writes Write.Dated fun _ => True := by
  refine Handler.writes_now fun now => ?_
  split
  · trivial
  · trivial
  split
  · dsimp only
    split
    · trivial
    split
    · trivial
    split
    · trivial
    refine Handler.writes_query fun parent => ?_
    split
    · trivial
    unfold checkV1Delegation
    split
    · trivial
    · trivial
    refine Handler.writes_now fun now => ?_
    split
    · trivial
    · trivial
    split
    · trivial
    split
    · trivial
    split
    · trivial
    split
    · split
      · trivial
      refine Handler.writes_query fun seen => ?_
      split
      · trivial
      split
      · trivial
      · trivial
      · exact enrol_v1_dated _ _ _
    · trivial
  · trivial

theorem Request.Allows.dated {r : Request} {x : Write} (h : r.Allows x)
    (hlegacy : ∀ req, r ≠ .register_agent req) (hv1 : ∀ envelope, r ≠ .v1_register_agent envelope) :
    x.Dated := by
  intro a hx
  subst hx
  rcases h with hlogs | hmay
  · exact absurd hlogs (by simp [Write.Logs])
  · cases r with
    | register_agent req => exact absurd rfl (hlegacy req)
    | v1_register_agent envelope => exact absurd rfl (hv1 envelope)
    | consume ctx id token => cases hmay
    | revoke_authorization ctx id token => cases hmay
    | webhook raw signature => cases hmay
    | refund ctx id req => cases hmay
    | reconcile ctx id token => cases hmay
    | batch n => cases hmay
    | _ => exact absurd hmay (by simp [Request.mayWrite, Write.Mints])

theorem handler_dated (r : Request) : (handler H r).Writes Write.Dated fun _ => True := by
  cases r with
  | register_agent req => exact register_agent_dated req
  | v1_register_agent envelope => exact v1_register_agent_dated envelope
  | _ => exact Handler.writes_mono (fun x hx => hx.dated nofun nofun) (handler_writes H _)

/-- A request keeps what its commits keep. -/
theorem Stable.serve_of_writes {P : Write → Prop} {K : DB → Prop} {w : World} {r : Request}
    (h : Stable P K) (hw : (handler H r).Writes P fun _ => True) (answers : List Answer) (i : Nat)
    (hK : K w.db) : K (Server.serve H r answers w i).store.db := by
  refine Server.serve_spec (Q := fun w' _ _ => K w'.db) answers ?_
  have hwp := hw.wp (K := fun w => K w.db) (fun _ _ hs hw => h.exec i hs hw) hK []
  exact Prog.wp_mono (fun w' _ _ hend => h.rollback i hend.1) hwp

variable {decode_credential_jwt : Instant → String → Option (String × String)} {p : Platform}

theorem step_expiring (hp : p.world.db.Expiring) (op : Operation) :
    (Platform.step H decode_credential_jwt p op).world.db.Expiring := by
  cases op with
  | serve r answers => exact expiring_stable.serve_of_writes (handler_dated r) answers 0 hp
  | _ =>
    intro a ha
    rw [(Platform.step_steady p (by simp)).aside.agents] at ha
    exact hp a ha

theorem run_expiring {ops : List Operation} {p : Platform} (hp : p.world.db.Expiring) :
    (Platform.run H decode_credential_jwt p ops).world.db.Expiring := by
  induction ops generalizing p with
  | nil => exact hp
  | cons op ops ih => exact ih (step_expiring hp op)

end

/-- **The protocol 1.0 card verifies; the older card of a registered agent does not.** A served
protocol 1.0 card always verifies. The older card verifies exactly when the agent has no
`valid_until`, and in every run from a service without agents, every agent has one, whatever
registration it comes from and however often it was rotated. -/
theorem served_cards_verify_iff {H : Host} {C : Ed25519} {private_pem public_pem : String}
    (keys : KeyPair H C private_pem public_pem) (hrepr : FloatRepr H.float_repr)
    {json_datetime : Instant → String} (hutc : UtcText H.isoformat json_datetime) :
    (∀ agent parent credential_id card,
      signed_card H C private_pem public_pem json_datetime agent parent credential_id = some card →
      cardVerdict H public_pem card = some true) ∧
    (∀ agent parent credential_id card,
      build_agent_card H C private_pem public_pem json_datetime agent parent credential_id =
        some card →
      (cardVerdict H public_pem card = some true ↔ agent.valid_until = none)) ∧
    ∀ decode_credential_jwt (p : Platform) ops, p.world.db.agents = [] →
      ∀ agent ∈ (Platform.run H decode_credential_jwt p ops).world.db.agents,
        agent.valid_until ≠ none := by
  refine ⟨?_, ?_, ?_⟩
  · intro agent parent credential_id card h
    exact signed_card_verdict keys hrepr hutc h
  · intro agent parent credential_id card h
    exact build_agent_card_verdict keys hrepr hutc h
  · intro decode_credential_jwt p ops hagents
    have hstart : p.world.db.Expiring := by
      intro a ha
      rw [hagents] at ha
      exact absurd ha List.not_mem_nil
    exact run_expiring hstart

namespace Sample

/-- The host of the client's tests, where a parent signs as it likes. -/
def cardHost : Host :=
  { sdkHost with
    verify_signature := fun pem text signature =>
      if pem = "public" then some (decide (signature = "signed:" ++ text)) else some true }

theorem card_keys : KeyPair cardHost ed25519 "private" "public" where
  server := sdk_keys.server
  client := sdk_keys.client
  present := sdk_keys.present

/-- A parent registers an agent on the legacy route. -/
def cardOperations : List Operation :=
  registration ++ [.serve (.register_agent ⟨"key", ⟨"d", "uu", "key", ["make_payment"], 1000, "INR",
    0, 1000⟩, "signature"⟩) []]

end Sample

/-- The two cards of an agent on the samples' keys. -/
theorem served_cards_verify_samples :
    (∀ agent parent credential_id card,
      signed_card Sample.cardHost Sample.ed25519 "private" "public" (fun _ => "1970-01-01T00:00:00Z")
        agent parent credential_id = some card →
      cardVerdict Sample.cardHost "public" card = some true) ∧
    ∀ agent ∈ (Platform.run Sample.cardHost (fun _ _ => none) Sample.unused
      Sample.cardOperations).world.db.agents, agent.valid_until ≠ none :=
  have h := served_cards_verify_iff Sample.card_keys Sample.float_repr_ok Sample.sdk_utc
  ⟨h.1, h.2.2 _ _ _ rfl⟩

/-- The older card of an agent just registered does not verify. -/
theorem served_card_refused :
    ∃ agent : CardAgent, agent.toAgent ∈ (Platform.run Sample.cardHost (fun _ _ => none)
        Sample.unused Sample.cardOperations).world.db.agents ∧
      ∃ card, build_agent_card Sample.cardHost Sample.ed25519 "private" "public"
          (fun _ => "1970-01-01T00:00:00Z") agent none "" = some card ∧
        cardVerdict Sample.cardHost "public" card ≠ some true := by
  exact ⟨⟨_, "buyer", "shopping"⟩, List.mem_cons_self,
    build_agent_card_refused Sample.card_keys Sample.float_repr_ok Sample.sdk_utc nofun rfl⟩

end Paari
