import Paari.Server

/-!
# What an envelope has to be

`verify_envelope` reads the two timestamps inside a `try` that catches `TypeError` and
`ValueError`; an infinite number raises `OverflowError` there, which nothing catches.
`EnvelopeAccepted` is what the other envelopes are judged by, and `Overflows` says which
envelopes are not judged at all.
-/

namespace Paari

/-- `required` in `verify_envelope` -/
def ENVELOPE_FIELDS : List String :=
  ["protocol", "version", "type", "message_id", "sender", "receiver", "issued_at", "expires_at",
    "payload", "signature"]

/-- `verify_envelope`, for any `expected_receiver`. -/
def verify_envelope_for (H : Host) (expected_receiver sender_public_key_pem : String) (envelope : Json)
    (now_ts : Int) : Except PyError Bool :=
  match envelope with
  | .dict kvs => do
    if !(ENVELOPE_FIELDS.all fun k => kvs.any fun kv => kv.1 == k) then return false
    let field (k : String) : Json := (kvs.lookup k).getD .null
    if !(field "protocol").isStr "paari" || !(field "version").isStr "1.0" then return false
    if expected_receiver ≠ "" && !(field "receiver").isStr expected_receiver then return false
    if !(field "payload").isDict then return false
    if !(field "message_id").truthy || !(field "sender").truthy then return false
    -- Only `TypeError` and `ValueError` are caught around the two conversions.
    match pyInt H.toText (field "issued_at"), pyInt H.toText (field "expires_at") with
    | .ok issued, .ok expires =>
      if issued > now_ts + Host.CLOCK_SKEW_LEEWAY_SECONDS then return false
      if expires < now_ts - Host.CLOCK_SKEW_LEEWAY_SECONDS then return false
      if expires ≤ issued ∨ expires - issued > MAX_ENVELOPE_TTL_SECONDS then return false
      match field "signature" with
      | .str signature =>
        return (H.verify_signature sender_public_key_pem (signing_bytes H kvs) signature).getD false
      | _ => return false
    | .error .overflowError, _ => .error .overflowError
    | .ok _, .error .overflowError => .error .overflowError
    | _, _ => return false
  | _ => .ok false

variable {H : Host} {expected pem : String} {envelope : Json} {kvs : List (String × Json)} {now_ts : Int}

/-- The service is the receiver of what is sent to it. -/
theorem verify_envelope_paari : verify_envelope H pem envelope now_ts =
    verify_envelope_for H "paari" pem envelope now_ts := by
  cases envelope with
  | dict kvs => rfl
  | _ => rfl

/-! ## The specification -/

/-- The fields that are checked before the timestamps are read. -/
structure Addressed (expected : String) (kvs : List (String × Json)) : Prop where
  required : ∀ k ∈ ENVELOPE_FIELDS, ∃ v, kvs.lookup k = some v
  protocol : kvs.lookup "protocol" = some (.str "paari")
  version : kvs.lookup "version" = some (.str "1.0")
  receiver : expected = "" ∨ kvs.lookup "receiver" = some (.str expected)
  payload : ∃ members, kvs.lookup "payload" = some (.dict members)
  message_id : ∃ v, kvs.lookup "message_id" = some v ∧ v.truthy = true
  sender : ∃ v, kvs.lookup "sender" = some v ∧ v.truthy = true

/-- The timestamps, read as integers, are in order and near the clock. -/
structure InTime (issued expires now_ts : Int) : Prop where
  not_future : issued ≤ now_ts + 60
  not_past : now_ts - 60 ≤ expires
  order : 0 < expires - issued
  ttl : expires - issued ≤ 300

/-- The envelope is addressed, fresh and signed. -/
structure EnvelopeAccepted (H : Host) (expected pem : String) (kvs : List (String × Json))
    (now_ts : Int) : Prop where
  addressed : Addressed expected kvs
  fresh : ∃ a b issued expires, kvs.lookup "issued_at" = some a ∧ kvs.lookup "expires_at" = some b ∧
    pyInt H.toText a = .ok issued ∧ pyInt H.toText b = .ok expires ∧ InTime issued expires now_ts
  signed : ∃ signature, kvs.lookup "signature" = some (.str signature) ∧
    H.verify_signature pem (H.canonical_json (.dict (kvs.filter fun kv => kv.1 != "signature")))
      signature = some true

/-- An infinite number. -/
def Infinite (x : Json) : Prop := ∃ negative, x = .float (.inf negative)

/-- Reading the timestamps comes to an infinite one. -/
def Overflows (H : Host) (expected : String) (envelope : Json) : Prop :=
  ∃ kvs, envelope = .dict kvs ∧ Addressed expected kvs ∧
    ∃ a b, kvs.lookup "issued_at" = some a ∧ kvs.lookup "expires_at" = some b ∧
      (Infinite a ∨ (∃ issued, pyInt H.toText a = .ok issued) ∧ Infinite b)

theorem pyInt_overflow_iff {T : Text} {x : Json} : pyInt T x = .error .overflowError ↔ Infinite x := by
  constructor
  · intro h
    cases x with
    | float f =>
      cases f with
      | inf negative => exact ⟨negative, rfl⟩
      | finite m e => exact absurd h nofun
      | nan => exact absurd h nofun
    | str s =>
      unfold pyInt at h
      dsimp only at h
      cases hint : T.int s with
      | none =>
        rw [hint] at h
        exact absurd h nofun
      | some i =>
        rw [hint] at h
        exact absurd h nofun
    | _ => exact absurd h nofun
  · intro h
    obtain ⟨negative, rfl⟩ := h
    rfl

theorem field_isStr {k s : String} : (((kvs.lookup k).getD .null).isStr s) = true ↔
    kvs.lookup k = some (.str s) := by
  cases kvs.lookup k with
  | none => simp [Json.isStr]
  | some v => cases v <;> simp [Json.isStr]

theorem field_isDict {k : String} : (((kvs.lookup k).getD .null).isDict) = true ↔
    ∃ members, kvs.lookup k = some (.dict members) := by
  cases kvs.lookup k with
  | none => simp [Json.isDict]
  | some v => cases v <;> simp [Json.isDict]

theorem field_truthy {k : String} : (((kvs.lookup k).getD .null).truthy) = true ↔
    ∃ v, kvs.lookup k = some v ∧ v.truthy = true := by
  cases kvs.lookup k with
  | none => simp [Json.truthy]
  | some v => simp

theorem lookup_isSome_iff {k : String} : (kvs.any fun kv => kv.1 == k) = true ↔
    ∃ v, kvs.lookup k = some v := by
  induction kvs with
  | nil => simp
  | cons kv kvs ih =>
    rw [List.any_cons, List.lookup_cons]
    by_cases hk : kv.1 = k
    · subst hk
      simp
    · have hne : (k == kv.1) = false := beq_false_of_ne (Ne.symm hk)
      rw [hne, beq_false_of_ne hk, Bool.false_or]
      exact ih

/-- What is left to check of an envelope that is addressed. -/
def judged (H : Host) (pem : String) (kvs : List (String × Json)) (now_ts : Int) : Except PyError Bool :=
  match pyInt H.toText ((kvs.lookup "issued_at").getD .null),
    pyInt H.toText ((kvs.lookup "expires_at").getD .null) with
  | .ok issued, .ok expires =>
    if issued > now_ts + Host.CLOCK_SKEW_LEEWAY_SECONDS then .ok false
    else if expires < now_ts - Host.CLOCK_SKEW_LEEWAY_SECONDS then .ok false
    else if expires ≤ issued ∨ expires - issued > MAX_ENVELOPE_TTL_SECONDS then .ok false
    else match (kvs.lookup "signature").getD .null with
      | .str signature => .ok ((H.verify_signature pem (signing_bytes H kvs) signature).getD false)
      | _ => .ok false
  | .error .overflowError, _ => .error .overflowError
  | .ok _, .error .overflowError => .error .overflowError
  | _, _ => .ok false

theorem verify_addressed (h : Addressed expected kvs) :
    verify_envelope_for H expected pem (.dict kvs) now_ts = judged H pem kvs now_ts := by
  have hrequired : (ENVELOPE_FIELDS.all fun k => kvs.any fun kv => kv.1 == k) = true :=
    List.all_eq_true.mpr fun k hk => lookup_isSome_iff.mpr (h.required k hk)
  have hreceiver : (expected ≠ "" && !((kvs.lookup "receiver").getD .null).isStr expected) = false := by
    rcases h.receiver with hany | hnamed
    · simp [hany]
    · simp [field_isStr.mpr hnamed]
  unfold verify_envelope_for
  simp only [hrequired, field_isStr.mpr h.protocol, field_isStr.mpr h.version, hreceiver,
    field_isDict.mpr h.payload, field_truthy.mpr h.message_id, field_truthy.mpr h.sender,
    Bool.not_true, Bool.or_self, Bool.false_eq_true, if_false]
  rfl

/-- A check that did not end in `return False`. -/
theorem not_returned {c : Prop} [Decidable c] {x : Except PyError Bool}
    (h : (if c then .ok false else x) ≠ .ok false) : ¬c ∧ x ≠ .ok false := by
  by_cases hc : c
  · rw [if_pos hc] at h
    exact absurd rfl h
  · rw [if_neg hc] at h
    exact ⟨hc, h⟩

theorem verify_unaddressed (h : ¬Addressed expected kvs) :
    verify_envelope_for H expected pem (.dict kvs) now_ts = .ok false := by
  by_contra hne
  refine h ?_
  unfold verify_envelope_for at hne
  obtain ⟨hrequired, hne⟩ := not_returned hne
  obtain ⟨hprotocol, hne⟩ := not_returned hne
  obtain ⟨hreceiver, hne⟩ := not_returned hne
  obtain ⟨hpayload, hne⟩ := not_returned hne
  obtain ⟨hnames, -⟩ := not_returned hne
  simp only [Bool.not_eq_true', Bool.not_eq_false, Bool.or_eq_true, not_or]
    at hrequired hprotocol hpayload hnames
  constructor
  · exact fun k hk => lookup_isSome_iff.mp (List.all_eq_true.mp hrequired k hk)
  · exact field_isStr.mp hprotocol.1
  · exact field_isStr.mp hprotocol.2
  · by_cases hany : expected = ""
    · exact .inl hany
    · refine .inr (field_isStr.mp ?_)
      simpa [hany] using hreceiver
  · exact field_isDict.mp hpayload
  · exact field_truthy.mp hnames.1
  · exact field_truthy.mp hnames.2

/-- Both timestamps are there, and are read. -/
theorem Addressed.times (h : Addressed expected kvs) :
    ∃ a b, kvs.lookup "issued_at" = some a ∧ kvs.lookup "expires_at" = some b := by
  obtain ⟨a, ha⟩ := h.required "issued_at" (by decide)
  obtain ⟨b, hb⟩ := h.required "expires_at" (by decide)
  exact ⟨a, b, ha, hb⟩

/-- An addressed envelope whose timestamps are integers is judged by the clock and the
signature. -/
theorem judged_iff {a b : Json} {issued expires : Int} (haddressed : Addressed expected kvs)
    (ha : kvs.lookup "issued_at" = some a) (hb : kvs.lookup "expires_at" = some b)
    (hissued : pyInt H.toText a = .ok issued) (hexpires : pyInt H.toText b = .ok expires) :
    ∃ verdict, judged H pem kvs now_ts = .ok verdict ∧
      (verdict = true ↔ EnvelopeAccepted H expected pem kvs now_ts) := by
  have hfresh : EnvelopeAccepted H expected pem kvs now_ts → InTime issued expires now_ts := by
    intro haccepted
    obtain ⟨a', b', issued', expires', ha', hb', hissued', hexpires', htime⟩ := haccepted.fresh
    obtain rfl : a = a' := Option.some.inj (ha.symm.trans ha')
    obtain rfl : b = b' := Option.some.inj (hb.symm.trans hb')
    obtain rfl : issued = issued' := Except.ok.inj (hissued.symm.trans hissued')
    obtain rfl : expires = expires' := Except.ok.inj (hexpires.symm.trans hexpires')
    exact htime
  unfold judged
  rw [ha, hb, Option.getD_some, Option.getD_some, hissued, hexpires]
  dsimp only
  have hskew : Host.CLOCK_SKEW_LEEWAY_SECONDS = 60 := rfl
  have httl : MAX_ENVELOPE_TTL_SECONDS = 300 := rfl
  rw [hskew, httl]
  by_cases htime : InTime issued expires now_ts
  · have h₁ := htime.not_future
    have h₂ := htime.not_past
    have h₃ := htime.order
    have h₄ := htime.ttl
    rw [if_neg (by omega), if_neg (by omega), if_neg (by omega)]
    have hsigned : ∀ verdict : Bool, (verdict = true ↔ ∃ signature,
        kvs.lookup "signature" = some (.str signature) ∧
          H.verify_signature pem (signing_bytes H kvs) signature = some true) →
        (verdict = true ↔ EnvelopeAccepted H expected pem kvs now_ts) := fun verdict hiff =>
      hiff.trans ⟨fun h => ⟨haddressed, ⟨a, b, issued, expires, ha, hb, hissued, hexpires, htime⟩, h⟩,
        fun h => h.signed⟩
    split
    · next signature hsignature =>
      have hlookup : kvs.lookup "signature" = some (.str signature) := by
        refine field_isStr.mp ?_
        rw [hsignature]
        exact beq_self_eq_true signature
      refine ⟨_, rfl, hsigned _ ⟨fun h => ⟨signature, hlookup, ?_⟩, fun h => ?_⟩⟩
      · cases hverify : H.verify_signature pem (signing_bytes H kvs) signature with
        | none =>
          rw [hverify] at h
          exact absurd h Bool.false_ne_true
        | some valid =>
          rw [hverify] at h
          exact congrArg some h
      · obtain ⟨signature', hlookup', hvalid⟩ := h
        obtain rfl : signature = signature' := Json.str.inj (Option.some.inj (hlookup.symm.trans hlookup'))
        rw [hvalid]
        rfl
    · next hother =>
      refine ⟨false, rfl, hsigned _ ⟨fun h => absurd h Bool.false_ne_true, fun h => ?_⟩⟩
      obtain ⟨signature, hsignature, -⟩ := h
      exact absurd (by rw [hsignature]; rfl) (hother signature)
  · have hno : ¬EnvelopeAccepted H expected pem kvs now_ts := fun haccepted => htime (hfresh haccepted)
    by_cases h₁ : issued > now_ts + 60
    · rw [if_pos h₁]
      exact ⟨false, rfl, iff_of_false Bool.false_ne_true hno⟩
    · rw [if_neg h₁]
      by_cases h₂ : expires < now_ts - 60
      · rw [if_pos h₂]
        exact ⟨false, rfl, iff_of_false Bool.false_ne_true hno⟩
      · have h₃ : expires ≤ issued ∨ expires - issued > 300 := by
          by_contra h₃
          exact htime ⟨by omega, by omega, by omega, by omega⟩
        rw [if_neg h₂, if_pos h₃]
        exact ⟨false, rfl, iff_of_false Bool.false_ne_true hno⟩

/-- A timestamp that cannot be read, and does not overflow, is caught. -/
theorem judged_unread (expected pem : String) (now_ts : Int) {a b : Json}
    (ha : kvs.lookup "issued_at" = some a) (hb : kvs.lookup "expires_at" = some b)
    (hunread : ∀ issued expires, pyInt H.toText a = .ok issued → pyInt H.toText b ≠ .ok expires)
    (hcaught : ¬(Infinite a ∨ (∃ issued, pyInt H.toText a = .ok issued) ∧ Infinite b)) :
    judged H pem kvs now_ts = .ok false ∧ ¬EnvelopeAccepted H expected pem kvs now_ts := by
  constructor
  · unfold judged
    rw [ha, hb, Option.getD_some, Option.getD_some]
    split
    · next issued expires hissued hexpires => exact absurd hexpires (hunread issued expires hissued)
    · next hissued => exact absurd (.inl (pyInt_overflow_iff.mp hissued)) hcaught
    · next issued hissued hexpires =>
      exact absurd (.inr ⟨⟨issued, hissued⟩, pyInt_overflow_iff.mp hexpires⟩) hcaught
    · rfl
  · intro haccepted
    obtain ⟨a', b', issued, expires, ha', hb', hissued, hexpires, -⟩ := haccepted.fresh
    obtain rfl : a = a' := Option.some.inj (ha.symm.trans ha')
    obtain rfl : b = b' := Option.some.inj (hb.symm.trans hb')
    exact hunread issued expires hissued hexpires

theorem judged_overflow {a b : Json} (ha : kvs.lookup "issued_at" = some a)
    (hb : kvs.lookup "expires_at" = some b)
    (hover : Infinite a ∨ (∃ issued, pyInt H.toText a = .ok issued) ∧ Infinite b) :
    judged H pem kvs now_ts = .error .overflowError := by
  unfold judged
  rw [ha, hb, Option.getD_some, Option.getD_some]
  rcases hover with hissued | ⟨⟨issued, hissued⟩, hexpires⟩
  · rw [pyInt_overflow_iff.mpr hissued]
  · rw [hissued, pyInt_overflow_iff.mpr hexpires]

/-- **Envelope verification is total and exact**, but for the envelopes whose timestamps
overflow. -/
theorem envelope_verdict_iff (H : Host) (expected pem : String) (envelope : Json) (now_ts : Int) :
    (∃ verdict, verify_envelope_for H expected pem envelope now_ts = .ok verdict ∧
      (verdict = true ↔ ∃ kvs, envelope = .dict kvs ∧ EnvelopeAccepted H expected pem kvs now_ts)) ↔
      ¬Overflows H expected envelope := by
  cases envelope with
  | dict kvs =>
    have hdict : (∃ kvs', Json.dict kvs = .dict kvs' ∧ EnvelopeAccepted H expected pem kvs' now_ts) ↔
        EnvelopeAccepted H expected pem kvs now_ts := by
      constructor
      · intro h
        obtain ⟨kvs', heq, haccepted⟩ := h
        exact Json.dict.inj heq ▸ haccepted
      · exact fun h => ⟨kvs, rfl, h⟩
    rw [hdict]
    by_cases haddressed : Addressed expected kvs
    · rw [verify_addressed haddressed]
      obtain ⟨a, b, ha, hb⟩ := haddressed.times
      have hoverflows : Overflows H expected (.dict kvs) ↔
          Infinite a ∨ (∃ issued, pyInt H.toText a = .ok issued) ∧ Infinite b := by
        constructor
        · intro h
          obtain ⟨kvs', heq, -, a', b', ha', hb', hover⟩ := h
          obtain rfl := Json.dict.inj heq
          obtain rfl : a = a' := Option.some.inj (ha.symm.trans ha')
          obtain rfl : b = b' := Option.some.inj (hb.symm.trans hb')
          exact hover
        · exact fun hover => ⟨kvs, rfl, haddressed, a, b, ha, hb, hover⟩
      rw [hoverflows]
      by_cases hover : Infinite a ∨ (∃ issued, pyInt H.toText a = .ok issued) ∧ Infinite b
      · rw [judged_overflow ha hb hover]
        refine iff_of_false (fun h => ?_) (not_not.mpr hover)
        obtain ⟨verdict, hverdict, -⟩ := h
        exact absurd hverdict nofun
      · refine iff_of_true ?_ hover
        by_cases hread : ∃ issued expires, pyInt H.toText a = .ok issued ∧ pyInt H.toText b = .ok expires
        · obtain ⟨issued, expires, hissued, hexpires⟩ := hread
          exact judged_iff haddressed ha hb hissued hexpires
        · obtain ⟨hjudged, hno⟩ := judged_unread expected pem now_ts ha hb
            (fun issued expires hissued hexpires => hread ⟨issued, expires, hissued, hexpires⟩) hover
          exact ⟨false, hjudged, iff_of_false Bool.false_ne_true hno⟩
    · rw [verify_unaddressed haddressed]
      refine iff_of_true ⟨false, rfl, iff_of_false Bool.false_ne_true fun h => haddressed h.addressed⟩ ?_
      intro h
      obtain ⟨kvs', heq, haddressed', -⟩ := h
      obtain rfl := Json.dict.inj heq
      exact haddressed haddressed'
  | _ =>
    refine iff_of_true ⟨false, rfl, iff_of_false Bool.false_ne_true fun h => ?_⟩ fun h => ?_
    · obtain ⟨kvs, heq, -⟩ := h
      exact absurd heq nofun
    · obtain ⟨kvs, heq, -⟩ := h
      exact absurd heq nofun

namespace Sample

/-- An envelope that is issued at the end of time. -/
def endless : Json :=
  .dict [("protocol", .str "paari"), ("version", .str "1.0"), ("type", .str "register"),
    ("message_id", .str "m"), ("sender", .str "s"), ("receiver", .str "paari"),
    ("issued_at", .float (.inf false)), ("expires_at", .int 100), ("payload", .dict []),
    ("signature", .str "sig")]

end Sample

/-- An infinite timestamp raises, whatever the key and the clock. -/
theorem envelope_overflow : ¬∃ verdict,
    verify_envelope_for (Sample.host false []) "paari" "agent-key" Sample.endless 100 = .ok verdict := by
  intro h
  obtain ⟨verdict, hverdict⟩ := h
  exact absurd (show Except.error PyError.overflowError = Except.ok verdict from hverdict) nofun

end Paari
