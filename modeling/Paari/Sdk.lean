import Paari.Lib.JsonPlain
import Paari.Governance
import Paari.Chain

/-!
# The SDK's signed bytes

The SDK prints what it signs with `ensure_ascii=False`, the server with Python's default,
so a string with a character beyond `~` is other bytes on the two sides. An envelope or a
delegation signed with the SDK is accepted exactly when none of its strings has such a
character, and a protocol 1.0 Agent Card likewise. The older Agent Card signs its
`valid_until` with the offset `+00:00` and is sent with a `Z`: with a `valid_until` it
verifies on no string at all (`sdk_agrees`).
-/

namespace Paari

open JsonText
open Host (CLOCK_SKEW_LEEWAY_SECONDS)

/-! ## The client -/

/-- What both sides take from the `cryptography` package. -/
structure Ed25519 where
  /-- Base64 of the signature under a private PEM key. -/
  sign : String → String → String
  /-- Load the public PEM key, decode the base64 strictly, verify; `False` where one raises. -/
  verify : String → String → String → Bool

namespace Sdk

/-- `canonical_json` of the SDK: `json.dumps(..., ensure_ascii=False)`. -/
def canonical_json (float_repr : PyFloat → String) (payload : Json) : String :=
  String.ofList (renderWith plainQuote (token float_repr) payload.tree)

variable (C : Ed25519) (float_repr : PyFloat → String)

/-- `sign_delegation` -/
def sign_delegation (private_key_pem : String) (delegation : Json) : String :=
  C.sign private_key_pem (canonical_json float_repr delegation)

/-- The envelope before it is signed. -/
def unsignedEnvelope (sender : String) (payload : Json) (message_type : String)
    (ttl_seconds : Int) (receiver : String) (now : Int) (message_id : String) :
    List (String × Json) :=
  [("protocol", .str "paari"), ("version", .str "1.0"), ("type", .str message_type),
    ("message_id", .str message_id), ("sender", .str sender), ("receiver", .str receiver),
    ("issued_at", .int now), ("expires_at", .int (now + ttl_seconds)), ("payload", payload)]

/-- `build_envelope` at the clock's second `now`, with the identifier it draws. -/
def build_envelope (private_key_pem sender : String) (payload : Json) (message_type : String)
    (ttl_seconds : Int) (receiver : String) (now : Int) (message_id : String) :
    Except PyError Json :=
  if ttl_seconds ≤ 0 ∨ ttl_seconds > 300 then .error .valueError
  else
    let envelope := unsignedEnvelope sender payload message_type ttl_seconds receiver now message_id
    .ok (.dict (envelope ++ [("signature",
      .str (C.sign private_key_pem (canonical_json float_repr (.dict envelope))))]))

/-- The members of a card that its signature is over. -/
def signed_fields (card : List (String × Json)) : List (String × Json) :=
  card.filter fun kv => kv.1 != "card_signature_b64" && kv.1 != "paari_public_key_pem"

/-- `verify_paari_card` -/
def verify_paari_card (card : List (String × Json)) : Bool :=
  let signature := (card.lookup "card_signature_b64").getD (.str "")
  let paari_public := (card.lookup "paari_public_key_pem").getD (.str "")
  if !signature.truthy || !paari_public.truthy then false
  else
    match paari_public, signature with
    | .str paari_public, .str signature =>
      C.verify paari_public (canonical_json float_repr (.dict (signed_fields card))) signature
    -- `.encode()` and `b64decode` raise on anything else.
    | _, _ => false

end Sdk

/-! ## The server's cards -/

/-- An agent's row with the columns only its card shows. -/
structure CardAgent extends Agent where
  name : String
  agent_type : String

structure CardParent extends ParentAuthority where
  name : String

/-- `AgentStatus.value` -/
def AgentStatus.value : AgentStatus → String
  | .pending => "pending"
  | .active => "active"
  | .revoked => "revoked"

/-- `s.replace("+00:00", "Z")` -/
def replaceOffset : List Char → List Char
  | [] => []
  | c :: cs =>
    if c = '+' ∧ cs.take 5 = ['0', '0', ':', '0', '0'] then 'Z' :: replaceOffset (cs.drop 5)
    else c :: replaceOffset cs
termination_by cs => cs.length
decreasing_by
  all_goals simp only [List.length_drop, List.length_cons]
  all_goals omega

section
variable (H : Host) (C : Ed25519) (signing_key public_pem : String)

/-- `sign_agent_card` -/
def sign_agent_card (card_fields : List (String × Json)) : String :=
  C.sign signing_key (H.canonical_json (.dict card_fields))

/-- The fields of a protocol 1.0 card, with its `expires_at` as a text. -/
def v1CardFields (agent : CardAgent) (parent : Option CardParent) (credential_id : String)
    (capabilities : List String) (expires_at : Option String) : List (String × Json) :=
  [("protocol", .str "paari"), ("protocol_version", .str "1.0"), ("issuer", .str "paari"),
    ("agent_id", .str agent.agent_id), ("name", .str agent.name),
    ("agent_type", .str agent.agent_type),
    ("parent_id", .str (parent.elim "" fun p => p.parent_id)),
    ("status", .str agent.status.value), ("public_key", .str agent.public_key_pem),
    ("capabilities", jsonStrings (capabilities.map CAPABILITY_MAP)),
    ("limits", .dict [("max_amount", .int agent.payment_limit_minor_units),
      ("currency", .str agent.currency)]),
    ("credential_id", .str credential_id), ("expires_at", expires_at.elim .null .str),
    ("endpoints", .dict [("protocol_discovery", .str "/.well-known/paari"),
      ("agent_card", .str ("/v1/agents/" ++ agent.agent_id ++ "/card")),
      ("payment_intent", .str "/v1/payments/intent"),
      ("consume", .str "/v1/payments/authorizations/{authorization_id}/consume")])]

/-- The fields of the older card, with its `valid_until` as a text. -/
def cardFields (agent : CardAgent) (parent : Option CardParent) (credential_id : String)
    (capabilities : List String) (valid_until : Option String) : List (String × Json) :=
  [("agent_id", .str agent.agent_id), ("name", .str agent.name),
    ("agent_type", .str agent.agent_type),
    ("parent_id", .str (parent.elim "" fun p => p.parent_id)),
    ("parent_name", .str (parent.elim "" fun p => p.name)),
    ("identity_status", .str agent.status.value),
    ("public_key_reference", .str agent.public_key_pem),
    ("granted_capabilities", jsonStrings capabilities),
    ("payment_limit_minor_units", .int agent.payment_limit_minor_units),
    ("currency", .str agent.currency), ("valid_until", valid_until.elim .null .str),
    ("credential_id", .str credential_id), ("paari_endpoint", .str "/agents")]

/-- The card as it is sent: the response model reads its date and writes it back as
`json_datetime` does. -/
def sealCard (sent signed : List (String × Json)) : List (String × Json) :=
  sent ++ [("card_signature_b64", .str (sign_agent_card H C signing_key signed)),
    ("paari_public_key_pem", .str public_pem)]

/-- `_signed_card`, as the client receives it. `none` where the response model refuses the
capabilities. -/
def signed_card (json_datetime : Instant → String) (agent : CardAgent)
    (parent : Option CardParent) (credential_id : String) : Option (List (String × Json)) := do
  let granted ← (pyList (agent.granted_capabilities.orElse (.list []))).toOption
  let capabilities ← granted.mapM Json.asStr?
  let fields (f : Instant → String) : List (String × Json) :=
    v1CardFields agent parent credential_id capabilities (agent.valid_until.map f)
  return sealCard H C signing_key public_pem (fields json_datetime)
    (fields fun t => String.ofList (replaceOffset (H.isoformat t).toList))

/-- `_build_agent_card`, as the client receives it. -/
def build_agent_card (json_datetime : Instant → String) (agent : CardAgent)
    (parent : Option CardParent) (credential_id : String) : Option (List (String × Json)) :=
  match agent.granted_capabilities with
  | .list granted => do
    let capabilities ← granted.mapM Json.asStr?
    let fields (f : Instant → String) : List (String × Json) :=
      cardFields agent parent credential_id capabilities (agent.valid_until.map f)
    return sealCard H C signing_key public_pem (fields json_datetime) (fields H.isoformat)
  | _ => none

end

/-! ## When the bytes are the same -/

/-- No string of the value, keys included, has a character beyond `~`. -/
def Json.Ascii (x : Json) : Prop := ∀ s ∈ x.tree.strings, Plain s

theorem ascii_str {s : String} : (Json.str s).Ascii ↔ Plain s := by
  simp [Json.Ascii, Json.tree, Tree.strings]

theorem ascii_int {i : Int} : (Json.int i).Ascii := by
  simp [Json.Ascii, Json.tree, Tree.strings]

theorem mem_memberStrings {N : Type} {s : String} {kvs : List (String × JsonText.Tree N)} :
    s ∈ memberStrings kvs ↔ ∃ kv ∈ kvs, s = kv.1 ∨ s ∈ kv.2.strings := by
  induction kvs with
  | nil => simp [memberStrings]
  | cons kv kvs ih => simp [memberStrings, ih, or_assoc]

theorem treeMembers_eq (kvs : List (String × Json)) :
    treeMembers kvs = kvs.map fun kv => (kv.1, kv.2.tree) := by
  induction kvs with
  | nil => rfl
  | cons kv kvs ih => exact congrArg _ ih

/-- The strings of an object are its keys and the strings of its values. -/
theorem ascii_dict {kvs : List (String × Json)} :
    (Json.dict kvs).Ascii ↔ ∀ kv ∈ kvs, Plain kv.1 ∧ kv.2.Ascii := by
  unfold Json.Ascii
  rw [Json.tree, Tree.strings, treeMembers_eq]
  constructor
  · intro h kv hkv
    have hmem : (kv.1, kv.2.tree) ∈ List.insertionSort (fun a b => a.1 ≤ b.1)
        (kvs.map fun kv => (kv.1, kv.2.tree)) :=
      (List.mem_insertionSort _).mpr (List.mem_map_of_mem hkv)
    exact ⟨h _ (mem_memberStrings.mpr ⟨_, hmem, .inl rfl⟩),
      fun s hs => h s (mem_memberStrings.mpr ⟨_, hmem, .inr hs⟩)⟩
  · intro h s hs
    obtain ⟨p, hp, hs⟩ := mem_memberStrings.mp hs
    obtain ⟨kv, hkv, rfl⟩ := List.mem_map.mp ((List.mem_insertionSort _).mp hp)
    rcases hs with rfl | hs
    · exact (h kv hkv).1
    · exact (h kv hkv).2 s hs

theorem FloatRepr.printable {float_repr : PyFloat → String} (h : FloatRepr float_repr) :
    ∀ n, ∀ c ∈ token float_repr n, Printable c := by
  have hdigit : ∀ c : Char, c.isDigit = true → Printable c := by
    intro c hc
    simp only [Char.isDigit, ge_iff_le, Bool.and_eq_true, decide_eq_true_eq] at hc
    have h0 : 48 ≤ c.toNat := hc.1
    have h9 : c.toNat ≤ 57 := hc.2
    exact ⟨by omega, by omega⟩
  intro n c hc
  cases n with
  | inl i =>
    rcases decimal_chars i c hc with hd | rfl
    · exact hdigit c hd
    · decide
  | inr x =>
    rcases h.chars x.1 c hc with hd | hmem
    · exact hdigit c hd
    · have hall : ∀ c ∈ ['-', '+', '.', 'e', 'N', 'a', 'I', 'n', 'f', 'i', 't', 'y'],
          Printable c := List.all_iff_forall_prop.mp (by decide)
      exact hall c hmem

/-- **What the SDK prints is what the server prints for the same value without characters
beyond `~`, and for no other.** -/
theorem same_bytes {float_repr : PyFloat → String} (h : FloatRepr float_repr) {x y : Json} :
    Sdk.canonical_json float_repr x = canonical_json float_repr y ↔ x.Same y ∧ x.Ascii := by
  constructor
  · intro heq
    have hchars := String.ofList_injective heq
    have hascii : x.Ascii := plain_of_render_eq h.printable hchars
    rw [(plain_iff h.printable x.tree).mpr hascii] at hchars
    exact ⟨canonical_json_injective h (congrArg String.ofList hchars), hascii⟩
  · rintro ⟨hsame, hascii⟩
    unfold Sdk.canonical_json canonical_json
    rw [(plain_iff h.printable x.tree).mpr hascii, hsame]

/-! ## Keys -/

/-- The two PEM texts are an Ed25519 key pair: a signature of the one verifies under the
other over the bytes it was made over, and over no others. -/
structure KeyPair (H : Host) (C : Ed25519) (private_pem public_pem : String) : Prop where
  server : ∀ signed text, H.verify_signature public_pem text (C.sign private_pem signed) =
    some (decide (text = signed))
  client : ∀ signed text, C.verify public_pem text (C.sign private_pem signed) =
    decide (text = signed)
  present : public_pem ≠ "" ∧ ∀ signed, C.sign private_pem signed ≠ ""

/-- The text of a UUID. -/
def IsUuid (s : String) : Prop := s ≠ "" ∧ ∀ c ∈ s.toList, c ∈ "0123456789abcdef-".toList

theorem IsUuid.plain {s : String} (h : IsUuid s) : Plain s := by
  intro c hc
  have hall : ∀ c ∈ "0123456789abcdef-".toList, c.toNat ≤ 0x7e :=
    List.all_iff_forall_prop.mp (by decide)
  exact hall c (h.2 c hc)

/-- The strings of an envelope are those its builder was given. -/
theorem unsigned_ascii {sender message_type receiver message_id : String} {payload : Json}
    {ttl_seconds now : Int} (hid : IsUuid message_id) (hreceiver : Plain receiver) :
    (Json.dict (Sdk.unsignedEnvelope sender payload message_type ttl_seconds receiver now
      message_id)).Ascii ↔ payload.Ascii ∧ Plain sender ∧ Plain message_type := by
  have hkeys : ∀ k ∈ ["protocol", "version", "type", "message_id", "sender", "receiver",
      "issued_at", "expires_at", "payload", "paari", "1.0"], Plain k := by decide
  rw [ascii_dict]
  constructor
  · intro h
    refine ⟨(h ("payload", payload) ?_).2, ascii_str.mp (h ("sender", .str sender) ?_).2,
      ascii_str.mp (h ("type", .str message_type) ?_).2⟩
    all_goals simp [Sdk.unsignedEnvelope]
  · rintro ⟨hpayload, hsender, htype⟩ kv hkv
    simp only [Sdk.unsignedEnvelope, List.mem_cons, List.not_mem_nil, or_false] at hkv
    rcases hkv with rfl | rfl | rfl | rfl | rfl | rfl | rfl | rfl | rfl
    · exact ⟨hkeys _ (by simp), ascii_str.mpr (hkeys _ (by simp))⟩
    · exact ⟨hkeys _ (by simp), ascii_str.mpr (hkeys _ (by simp))⟩
    · exact ⟨hkeys _ (by simp), ascii_str.mpr htype⟩
    · exact ⟨hkeys _ (by simp), ascii_str.mpr hid.plain⟩
    · exact ⟨hkeys _ (by simp), ascii_str.mpr hsender⟩
    · exact ⟨hkeys _ (by simp), ascii_str.mpr hreceiver⟩
    · exact ⟨hkeys _ (by simp), ascii_int⟩
    · exact ⟨hkeys _ (by simp), ascii_int⟩
    · exact ⟨hkeys _ (by simp), hpayload⟩

/-- The server's checks on a fresh envelope come down to the signature. -/
theorem verify_fresh {H : Host} {public_pem sender message_type message_id signature : String}
    {payload : List (String × Json)} {ttl_seconds now now_ts : Int} (hsender : sender ≠ "")
    (httl : 1 ≤ ttl_seconds ∧ ttl_seconds ≤ 300) (hid : IsUuid message_id)
    (hfrom : now - 60 ≤ now_ts) (huntil : now_ts ≤ now + ttl_seconds + 60) :
    verify_envelope H public_pem (.dict (Sdk.unsignedEnvelope sender (.dict payload) message_type
        ttl_seconds "paari" now message_id ++ [("signature", .str signature)])) now_ts =
      .ok ((H.verify_signature public_pem (H.canonical_json (.dict (Sdk.unsignedEnvelope sender
        (.dict payload) message_type ttl_seconds "paari" now message_id))) signature).getD false) := by
  have hissued : ¬ now > now_ts + CLOCK_SKEW_LEEWAY_SECONDS := by
    unfold CLOCK_SKEW_LEEWAY_SECONDS
    omega
  have hexpires : ¬ now + ttl_seconds < now_ts - CLOCK_SKEW_LEEWAY_SECONDS := by
    unfold CLOCK_SKEW_LEEWAY_SECONDS
    omega
  simp [verify_envelope, Sdk.unsignedEnvelope, Json.isStr, Json.isDict, Json.truthy, pyInt,
    hsender, hid.1, hissued, hexpires, signing_bytes, List.lookup_cons]
  rw [if_neg]
  · rfl
  · -- the lifetime is positive and within the maximum
    unfold MAX_ENVELOPE_TTL_SECONDS
    omega

theorem signed_fields_sealCard {H : Host} {C : Ed25519} {signing_key public_pem : String}
    {sent signed : List (String × Json)}
    (hsent : ∀ kv ∈ sent, kv.1 ≠ "card_signature_b64" ∧ kv.1 ≠ "paari_public_key_pem") :
    Sdk.signed_fields (sealCard H C signing_key public_pem sent signed) = sent := by
  unfold Sdk.signed_fields sealCard
  rw [List.filter_append, List.filter_eq_self.mpr fun kv hkv => by simpa using hsent kv hkv]
  simp

/-- How `isoformat` and the response model write a time in UTC: alike, up to the offset. -/
structure UtcText (isoformat json_datetime : Instant → String) : Prop where
  offset : ∀ t, ∃ s : String, '+' ∉ s.toList ∧ isoformat t = s ++ "+00:00" ∧
    json_datetime t = s ++ "Z"

theorem replaceOffset_append {cs : List Char} (h : '+' ∉ cs) :
    replaceOffset (cs ++ ['+', '0', '0', ':', '0', '0']) = cs ++ ['Z'] := by
  induction cs with
  | nil => simp [replaceOffset]
  | cons c cs ih =>
    rw [List.mem_cons, not_or] at h
    rw [List.cons_append, replaceOffset, if_neg fun hc => h.1 hc.1.symm, ih h.2, List.cons_append]

/-- The replaced text of a protocol 1.0 card is the one the response model writes. -/
theorem UtcText.replaced {isoformat json_datetime : Instant → String}
    (h : UtcText isoformat json_datetime) (t : Instant) :
    String.ofList (replaceOffset (isoformat t).toList) = json_datetime t := by
  obtain ⟨s, hs, hiso, hjson⟩ := h.offset t
  rw [hiso, hjson, String.toList_append]
  refine String.toList_injective ?_
  rw [String.toList_ofList, String.toList_append]
  exact replaceOffset_append hs

theorem UtcText.differ {isoformat json_datetime : Instant → String}
    (h : UtcText isoformat json_datetime) (t : Instant) : json_datetime t ≠ isoformat t := by
  obtain ⟨s, hs, hiso, hjson⟩ := h.offset t
  intro heq
  have hlen := congrArg (fun s : String => s.toList.length) (hjson.symm.trans (heq.trans hiso))
  simp at hlen

section
variable {H : Host} {C : Ed25519} {private_pem public_pem : String}
  (keys : KeyPair H C private_pem public_pem) (hrepr : FloatRepr H.float_repr)
include keys hrepr

theorem delegation_verifies_iff (delegation : Json) :
    H.verify_signature public_pem (H.canonical_json delegation)
        (Sdk.sign_delegation C H.float_repr private_pem delegation) = some true ↔
      delegation.Ascii := by
  unfold Sdk.sign_delegation
  rw [keys.server, Option.some_inj, decide_eq_true_iff, eq_comm]
  exact (same_bytes hrepr).trans (and_iff_right rfl)

/-- **An envelope built with the SDK is accepted, while it is fresh, exactly when its
strings have no character beyond `~`.** -/
theorem envelope_accepted_iff (sender message_type message_id : String)
    (payload : List (String × Json)) (ttl_seconds now now_ts : Int) (hsender : sender ≠ "")
    (httl : 1 ≤ ttl_seconds ∧ ttl_seconds ≤ 300) (hid : IsUuid message_id)
    (hfrom : now - 60 ≤ now_ts) (huntil : now_ts ≤ now + ttl_seconds + 60) :
    ∃ envelope, Sdk.build_envelope C H.float_repr private_pem sender (.dict payload) message_type
        ttl_seconds "paari" now message_id = .ok envelope ∧
      (verify_envelope H public_pem envelope now_ts = .ok true ↔
        (Json.dict payload).Ascii ∧ Plain sender ∧ Plain message_type) := by
  refine ⟨_, if_neg (by omega), ?_⟩
  rw [verify_fresh hsender httl hid hfrom huntil, keys.server, Option.getD_some, Except.ok.injEq,
    decide_eq_true_iff, eq_comm]
  exact ((same_bytes hrepr).trans (and_iff_right rfl)).trans (unsigned_ascii hid (by decide))

/-- A sealed card verifies when it was sent as it was signed, in characters up to `~`. -/
theorem card_verifies_iff {sent signed : List (String × Json)}
    (hsent : ∀ kv ∈ sent, kv.1 ≠ "card_signature_b64" ∧ kv.1 ≠ "paari_public_key_pem") :
    Sdk.verify_paari_card C H.float_repr (sealCard H C private_pem public_pem sent signed) = true ↔
      (Json.dict sent).Same (.dict signed) ∧ (Json.dict sent).Ascii := by
  have hsignature : (sealCard H C private_pem public_pem sent signed).lookup "card_signature_b64" =
      some (.str (sign_agent_card H C private_pem signed)) := by
    unfold sealCard
    rw [List.lookup_append, List.lookup_eq_none_iff.mpr fun kv hkv => by
      simpa using (hsent kv hkv).1.symm]
    rfl
  have hkey : (sealCard H C private_pem public_pem sent signed).lookup "paari_public_key_pem" =
      some (.str public_pem) := by
    unfold sealCard
    rw [List.lookup_append, List.lookup_eq_none_iff.mpr fun kv hkv => by
      simpa using (hsent kv hkv).2.symm]
    rfl
  unfold Sdk.verify_paari_card
  rw [hsignature, hkey, signed_fields_sealCard hsent]
  have htruthy : ∀ s : String, s ≠ "" → (Json.str s).truthy = true := fun s hs => decide_eq_true hs
  simp only [Option.getD_some, htruthy _ keys.present.1, sign_agent_card,
    htruthy _ (keys.present.2 _), keys.client, Bool.not_true, Bool.or_self, Bool.false_eq_true,
    if_false, decide_eq_true_iff]
  exact same_bytes hrepr

/-- A protocol 1.0 card verifies when its strings have no character beyond `~`. -/
theorem signed_card_verifies_iff {json_datetime : Instant → String}
    (hutc : UtcText H.isoformat json_datetime) {agent : CardAgent} {parent : Option CardParent}
    {credential_id : String} {card : List (String × Json)}
    (h : signed_card H C private_pem public_pem json_datetime agent parent credential_id =
      some card) :
    Sdk.verify_paari_card C H.float_repr card = true ↔
      (Json.dict (Sdk.signed_fields card)).Ascii := by
  simp only [signed_card, Option.bind_eq_bind, Option.bind_eq_some_iff, Option.pure_def,
    Option.some_inj] at h
  obtain ⟨granted, -, capabilities, -, rfl⟩ := h
  have hsent : ∀ kv ∈ v1CardFields agent parent credential_id capabilities
      (agent.valid_until.map json_datetime),
      kv.1 ≠ "card_signature_b64" ∧ kv.1 ≠ "paari_public_key_pem" := by
    simp [v1CardFields]
  have hsame : (agent.valid_until.map fun t => String.ofList (replaceOffset (H.isoformat t).toList)) =
      agent.valid_until.map json_datetime := by
    congr 1
    exact funext hutc.replaced
  rw [hsame, card_verifies_iff keys hrepr hsent, signed_fields_sealCard hsent]
  exact and_iff_right rfl

/-- The older card verifies when, besides, it has no `valid_until`. -/
theorem build_agent_card_verifies_iff {json_datetime : Instant → String}
    (hutc : UtcText H.isoformat json_datetime) {agent : CardAgent} {parent : Option CardParent}
    {credential_id : String} {card : List (String × Json)}
    (h : build_agent_card H C private_pem public_pem json_datetime agent parent credential_id =
      some card) :
    Sdk.verify_paari_card C H.float_repr card = true ↔
      agent.valid_until = none ∧ (Json.dict (Sdk.signed_fields card)).Ascii := by
  unfold build_agent_card at h
  split at h
  case h_2 => exact absurd h (by simp)
  next granted _ =>
  simp only [Option.bind_eq_bind, Option.bind_eq_some_iff, Option.pure_def, Option.some_inj] at h
  obtain ⟨capabilities, -, rfl⟩ := h
  have hsent : ∀ kv ∈ cardFields agent parent credential_id capabilities
      (agent.valid_until.map json_datetime),
      kv.1 ≠ "card_signature_b64" ∧ kv.1 ≠ "paari_public_key_pem" := by
    simp [cardFields]
  rw [card_verifies_iff keys hrepr hsent, signed_fields_sealCard hsent]
  refine and_congr ?_ Iff.rfl
  cases agent.valid_until with
  | none => exact ⟨fun _ => rfl, fun _ => rfl⟩
  | some t =>
    constructor
    · intro hsame
      have hfield := hsame.lookup (by simp [cardFields]) (by simp [cardFields]) "valid_until"
      simp [cardFields, List.lookup_cons, Json.tree] at hfield
      exact absurd hfield (hutc.differ t)
    · intro hnone
      exact absurd hnone (by simp)

/-- **What is signed on one side verifies on the other exactly when no string in it has a
character beyond `~`; the older card, besides, only without a `valid_until`.** -/
theorem sdk_agrees {json_datetime : Instant → String} (hutc : UtcText H.isoformat json_datetime) :
    (∀ sender message_type message_id payload ttl_seconds now now_ts,
      sender ≠ "" → 1 ≤ ttl_seconds ∧ ttl_seconds ≤ 300 → IsUuid message_id →
      now - 60 ≤ now_ts → now_ts ≤ now + ttl_seconds + 60 →
      ∃ envelope, Sdk.build_envelope C H.float_repr private_pem sender (.dict payload)
          message_type ttl_seconds "paari" now message_id = .ok envelope ∧
        (verify_envelope H public_pem envelope now_ts = .ok true ↔
          (Json.dict payload).Ascii ∧ Plain sender ∧ Plain message_type)) ∧
    (∀ delegation, H.verify_signature public_pem (H.canonical_json delegation)
        (Sdk.sign_delegation C H.float_repr private_pem delegation) = some true ↔
      delegation.Ascii) ∧
    (∀ agent parent credential_id card,
      signed_card H C private_pem public_pem json_datetime agent parent credential_id = some card →
      (Sdk.verify_paari_card C H.float_repr card = true ↔
        (Json.dict (Sdk.signed_fields card)).Ascii)) ∧
    ∀ agent parent credential_id card,
      build_agent_card H C private_pem public_pem json_datetime agent parent credential_id =
        some card →
      (Sdk.verify_paari_card C H.float_repr card = true ↔
        agent.valid_until = none ∧ (Json.dict (Sdk.signed_fields card)).Ascii) := by
  refine ⟨?_, delegation_verifies_iff keys hrepr, ?_, ?_⟩
  · exact envelope_accepted_iff keys hrepr
  · intro agent parent credential_id card h
    exact signed_card_verifies_iff keys hrepr hutc h
  · intro agent parent credential_id card h
    exact build_agent_card_verifies_iff keys hrepr hutc h

end

namespace Sample

/-- A signature that shows what was signed. -/
def ed25519 : Ed25519 where
  sign := fun _ text => "signed:" ++ text
  verify := fun _ text signature => decide (signature = "signed:" ++ text)

def sdkHost : Host :=
  { host false [] with
    float_repr := float_repr
    isoformat := fun _ => "1970-01-01T00:00:00+00:00"
    verify_signature := fun _ text signature => some (decide (signature = "signed:" ++ text)) }

theorem sdk_keys : KeyPair sdkHost ed25519 "private" "public" where
  server signed text := by
    simp [sdkHost, ed25519, String.append_right_inj, eq_comm]
  client signed text := by
    simp [ed25519, String.append_right_inj, eq_comm]
  present := by
    refine ⟨by decide, fun signed h => ?_⟩
    have hlen := congrArg (fun s : String => s.toList.length) h
    simp [ed25519] at hlen

theorem sdk_utc : UtcText sdkHost.isoformat fun _ => "1970-01-01T00:00:00Z" where
  offset _ := ⟨"1970-01-01T00:00:00", by decide,
    show "1970-01-01T00:00:00+00:00" = _ by decide, by decide⟩

end Sample

/-- A registration named in ASCII. -/
theorem sdk_agrees_ascii :
    ∃ envelope, Sdk.build_envelope Sample.ed25519 Sample.sdkHost.float_repr "private" "agent"
        (.dict [("name", .str "Jose")]) "agent.register" 120 "paari" 0 "0-0" = .ok envelope ∧
      verify_envelope Sample.sdkHost "public" envelope 100 = .ok true := by
  obtain ⟨envelope, hbuild, hverify⟩ := (sdk_agrees Sample.sdk_keys Sample.float_repr_ok
    Sample.sdk_utc).1 "agent" "agent.register" "0-0" [("name", .str "Jose")] 120 0 100
    (by decide) (by decide) ⟨by decide, List.all_iff_forall_prop.mp (by decide)⟩
    (by decide) (by decide)
  refine ⟨envelope, hbuild, hverify.mpr ⟨?_, by decide, by decide⟩⟩
  intro s hs
  exact (show ∀ s ∈ (Json.dict [("name", .str "Jose")]).tree.strings, Plain s by decide) s hs

/-- The same registration with an accent, within its lifetime, is not accepted. -/
theorem accented_name_refused :
    KeyPair Sample.sdkHost Sample.ed25519 "private" "public" ∧
    ∃ envelope, Sdk.build_envelope Sample.ed25519 Sample.sdkHost.float_repr "private" "agent"
        (.dict [("name", .str "José")]) "agent.register" 120 "paari" 0 "0-0" = .ok envelope ∧
      verify_envelope Sample.sdkHost "public" envelope 100 ≠ .ok true := by
  refine ⟨Sample.sdk_keys, ?_⟩
  obtain ⟨envelope, hbuild, hverify⟩ := envelope_accepted_iff Sample.sdk_keys Sample.float_repr_ok
    "agent" "agent.register" "0-0" [("name", .str "José")] 120 0 100 (by decide) (by decide) ⟨by decide, List.all_iff_forall_prop.mp (by decide)⟩
    (by decide) (by decide)
  refine ⟨envelope, hbuild, fun h => ?_⟩
  have hplain := (ascii_dict.mp (hverify.mp h).1 ("name", .str "José") List.mem_cons_self).2
  exact absurd (ascii_str.mp hplain) (by decide)

end Paari
