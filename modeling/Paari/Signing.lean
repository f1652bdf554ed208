import Paari.Chain
import Paari.Delegation
import Paari.Accounting
import Paari.Custody
import Paari.Governance

/-!
# What a mandate's signature covers

The user's key signs the canonical text of the mandate. Two rows with one text are enforced
alike: every limit, list and window edge that a check reads is in the text. What is
accepted at creation is the row as the request spells it, before the column default of
`mandate_id` is filled in; `named_mandate_verifies` says when the stored row still verifies.
-/

namespace Paari

open Atomic
open Host (SECOND)

/-! ## The text -/

/-- `canonical_payload_bytes` -/
def canonical_payload_bytes (H : Host) (m : UserPaymentMandate) : String :=
  H.canonical_json (mandate_payload m)

theorem jsonIntOpt_injective {a b : Option Int} (h : (jsonIntOpt a).tree = (jsonIntOpt b).tree) :
    a = b := by
  cases a <;> cases b <;> simp [jsonIntOpt, Json.tree] at h ⊢
  exact h

theorem treeItems_strings (xs : List String) :
    treeItems (xs.map Json.str) = xs.map JsonText.Tree.str := by
  induction xs with
  | nil => rfl
  | cons x xs ih => exact congrArg _ ih

/-- A list is printed sorted: its text determines it up to the order. -/
theorem strings_perm {xs ys : List String}
    (h : (Json.list ((xs.insertionSort (· ≤ ·)).map Json.str)).tree =
      (Json.list ((ys.insertionSort (· ≤ ·)).map Json.str)).tree) : xs.Perm ys := by
  have hitems := JsonText.Tree.arr.inj h
  rw [treeItems_strings, treeItems_strings] at hitems
  have hsorted := List.map_injective_iff.mpr (fun a b => JsonText.Tree.str.inj) hitems
  have hx := (List.perm_insertionSort (· ≤ ·) xs).symm
  rw [hsorted] at hx
  exact hx.trans (List.perm_insertionSort _ _)

/-- A whole second is determined by its timestamp. -/
theorem timestamp_injective {a b : Instant} (ha : SECOND ∣ a) (hb : SECOND ∣ b)
    (h : Host.timestamp a = Host.timestamp b) : a = b := by
  unfold Host.timestamp at h
  rw [← Int.tdiv_mul_cancel ha, ← Int.tdiv_mul_cancel hb, h]

/-- The rows agree on everything that is signed. -/
structure SameTerms (m m' : UserPaymentMandate) : Prop where
  mandate_id : m.mandate_id = m'.mandate_id
  user_id : m.user_id = m'.user_id
  agent_id : m.agent_id = m'.agent_id
  org_id : m.org_id = m'.org_id
  currency : m.currency = m'.currency
  max_per_transaction : m.max_per_transaction = m'.max_per_transaction
  max_daily_amount : m.max_daily_amount = m'.max_daily_amount
  max_per_hour : m.max_per_hour = m'.max_per_hour
  max_per_merchant_per_day : m.max_per_merchant_per_day = m'.max_per_merchant_per_day
  max_category_per_day : m.max_category_per_day = m'.max_category_per_day
  allowed_merchants : m.allowed_merchants.Perm m'.allowed_merchants
  allowed_categories : m.allowed_categories.Perm m'.allowed_categories
  require_review_above : m.require_review_above = m'.require_review_above
  valid_from : m.valid_from = m'.valid_from
  expires_at : m.expires_at = m'.expires_at

section
variable {H : Host} {m m' : UserPaymentMandate}

/-- The text determines what is signed, for windows on whole seconds. -/
theorem sameTerms_of_bytes (hrepr : FloatRepr H.float_repr) (hfrom : SECOND ∣ m.valid_from)
    (hfrom' : SECOND ∣ m'.valid_from) (huntil : SECOND ∣ m.expires_at)
    (huntil' : SECOND ∣ m'.expires_at)
    (h : canonical_payload_bytes H m = canonical_payload_bytes H m') : SameTerms m m' := by
  -- the text determines each field of the payload, and each field of its constraints
  have hfield := (canonical_json_injective hrepr h).lookup (by simp) (by simp)
  have hconstraints : (Json.dict _).Same (Json.dict _) := Option.some.inj (hfield "constraints")
  have hinner := hconstraints.lookup (by simp) (by simp)
  have hstr : ∀ {a b : String}, some (Json.str a).tree = some (Json.str b).tree → a = b :=
    fun hab => JsonText.Tree.str.inj (Option.some.inj hab)
  have hint : ∀ {a b : Int}, some (Json.int a).tree = some (Json.int b).tree → a = b :=
    fun hab => Json.int.inj (tree_eq_int (Option.some.inj hab))
  exact {
    mandate_id := hstr (hfield "mandate_id")
    user_id := hstr (hfield "user_id")
    agent_id := hstr (hfield "agent_id")
    org_id := hstr (hfield "org_id")
    currency := hstr (hinner "currency")
    max_per_transaction := hint (hinner "max_per_transaction")
    max_daily_amount := hint (hinner "max_daily_amount")
    max_per_hour := jsonIntOpt_injective (Option.some.inj (hinner "max_per_hour"))
    max_per_merchant_per_day :=
      jsonIntOpt_injective (Option.some.inj (hinner "max_per_merchant_per_day"))
    max_category_per_day := jsonIntOpt_injective (Option.some.inj (hinner "max_category_per_day"))
    allowed_merchants := strings_perm (Option.some.inj (hinner "allowed_merchants"))
    allowed_categories := strings_perm (Option.some.inj (hinner "allowed_categories"))
    require_review_above := jsonIntOpt_injective (Option.some.inj (hinner "require_review_above"))
    valid_from := timestamp_injective hfrom hfrom' (hint (hfield "issued_at"))
    expires_at := timestamp_injective huntil huntil' (hint (hfield "expires_at")) }

/-! ## What is enforced -/

theorem SameTerms.spend (h : SameTerms m m') (db : DB) (delta : Int) (now : Instant)
    (narrow : PaymentIntent → Bool) :
    spend_since db m (window_start now delta m) now narrow =
      spend_since db m' (window_start now delta m') now narrow := by
  unfold spend_since window_start charged
  rw [h.org_id, h.agent_id, h.currency, h.valid_from]

/-- The signature check depends on the text and the signature fields. -/
theorem check_mandate_signature_congr (hbytes : canonical_payload_bytes H m = canonical_payload_bytes H m')
    (hsig : m.signature_b64 = m'.signature_b64) (hkey : m.user_public_key_pem = m'.user_public_key_pem)
    (signed : Bool) : check_mandate_signature H m signed = check_mandate_signature H m' signed := by
  have hpayload : H.canonical_json (mandatePayload (.str m.mandate_id) m) =
      H.canonical_json (mandatePayload (.str m'.mandate_id) m') := hbytes
  unfold check_mandate_signature verify_mandate_signature verifyMandateSignature
  rw [hpayload, hsig, hkey]

/-- **One text, one verdict.** Rows that agree on what is signed, on the text and on the
signature fields are checked alike; the decision names its own row. -/
theorem check_one_congr (h : SameTerms m m')
    (hbytes : canonical_payload_bytes H m = canonical_payload_bytes H m')
    (hsig : m.signature_b64 = m'.signature_b64) (hkey : m.user_public_key_pem = m'.user_public_key_pem)
    (db : DB) (p : Proposal) (signed : Bool) :
    check_one H db m' p signed =
      (check_one H db m p signed).map fun d => { d with mandate := some m' } := by
  have hmerchants := h.allowed_merchants.map H.casefold
  have hcategories := h.allowed_categories.map H.casefold
  unfold check_one hourly_spend daily_spend merchant_daily_spend category_daily_spend
  dsimp only
  rw [← check_mandate_signature_congr hbytes hsig hkey, ← hmerchants.isEmpty_eq, ← hmerchants.contains_eq,
    ← hcategories.isEmpty_eq, ← hcategories.contains_eq, ← h.spend, ← h.spend, ← h.spend, ← h.spend, ← h.currency,
    ← h.max_per_transaction, ← h.max_daily_amount, ← h.max_per_hour, ← h.max_per_merchant_per_day,
    ← h.max_category_per_day, ← h.require_review_above]
  cases check_mandate_signature H m signed with
  | none => rfl
  | some sig =>
    obtain ⟨ok, reasons⟩ := sig
    simp only [Option.bind_eq_bind, Option.bind_some, apply_ite (Option.map _), Option.map_some]

/-- **The signed text covers what is enforced.** -/
theorem signature_covers (hrepr : FloatRepr H.float_repr) (hfrom : SECOND ∣ m.valid_from)
    (hfrom' : SECOND ∣ m'.valid_from) (huntil : SECOND ∣ m.expires_at)
    (huntil' : SECOND ∣ m'.expires_at)
    (h : canonical_payload_bytes H m = canonical_payload_bytes H m') :
    (m.mandate_id = m'.mandate_id ∧ m.agent_id = m'.agent_id ∧ m.org_id = m'.org_id) ∧
    (∀ now, m.valid_from ≤ now ∧ now < m.expires_at ↔ m'.valid_from ≤ now ∧ now < m'.expires_at) ∧
    (m.signature_b64 = m'.signature_b64 → m.user_public_key_pem = m'.user_public_key_pem →
      ∀ (db : DB) (p : Proposal) (signed : Bool), check_one H db m' p signed =
        (check_one H db m p signed).map fun d => { d with mandate := some m' }) := by
  have hterms := sameTerms_of_bytes hrepr hfrom hfrom' huntil huntil' h
  refine ⟨⟨hterms.mandate_id, hterms.agent_id, hterms.org_id⟩, fun now => ?_, fun hsig hkey => ?_⟩
  · rw [hterms.valid_from, hterms.expires_at]
  · exact check_one_congr hterms h hsig hkey

end

namespace Sample

/-- Two rows that differ in the order of their allowlist. -/
def sorted : UserPaymentMandate := { mandate with allowed_merchants := ["books", "shop"] }

def unsorted : UserPaymentMandate := { mandate with allowed_merchants := ["shop", "books"] }

/-- The host with a printer of floats that can be relied on. -/
def printing : Host := { host false [] with float_repr := float_repr }

end Sample

theorem signature_covers_unsorted :
    (Sample.sorted.mandate_id = Sample.unsorted.mandate_id ∧
      Sample.sorted.agent_id = Sample.unsorted.agent_id ∧ Sample.sorted.org_id = Sample.unsorted.org_id) ∧
    (∀ now, Sample.sorted.valid_from ≤ now ∧ now < Sample.sorted.expires_at ↔
      Sample.unsorted.valid_from ≤ now ∧ now < Sample.unsorted.expires_at) ∧
    (Sample.sorted.signature_b64 = Sample.unsorted.signature_b64 →
      Sample.sorted.user_public_key_pem = Sample.unsorted.user_public_key_pem →
      ∀ (db : DB) (p : Proposal) (signed : Bool), check_one Sample.printing db Sample.unsorted p signed =
        (check_one Sample.printing db Sample.sorted p signed).map fun d =>
          { d with mandate := some Sample.unsorted }) := by
  have hsort : ["books", "shop"].insertionSort (· ≤ ·) = ["shop", "books"].insertionSort (· ≤ ·) := by
    decide +kernel
  have hpayload : mandate_payload Sample.sorted = mandate_payload Sample.unsorted := by
    unfold mandate_payload mandatePayload
    dsimp only [Sample.sorted, Sample.unsorted]
    rw [hsort]
  exact signature_covers Sample.float_repr_ok (by decide) (by decide) (by decide) (by decide)
    (congrArg Sample.printing.canonical_json hpayload)

/-! ## What is accepted at creation -/

section
variable {H : Host} {w : World} {calls : List (Call × Option Answer)} {i : Nat}

theorem verifyMandateSignature_true {mandate_id : Json} {m : UserPaymentMandate} {reasons : List String} :
    verifyMandateSignature H mandate_id m = some (true, reasons) ↔ reasons = [] ∧
      present m.signature_b64 = true ∧ present m.user_public_key_pem = true ∧
      H.verify_signature (m.user_public_key_pem.getD "")
        (H.canonical_json (mandatePayload mandate_id m)) (m.signature_b64.getD "") = some true := by
  unfold verifyMandateSignature
  split
  · next hsig =>
    refine ⟨fun h => absurd h (by simp), fun h => ?_⟩
    rw [h.2.1] at hsig
    exact absurd hsig (by decide)
  next hsig =>
  split
  · next hkey =>
    refine ⟨fun h => absurd h (by simp), fun h => ?_⟩
    rw [h.2.2.1] at hkey
    exact absurd hkey (by decide)
  next hkey =>
  have hsig : present m.signature_b64 = true := by simpa using hsig
  have hkey : present m.user_public_key_pem = true := by simpa using hkey
  cases H.verify_signature (m.user_public_key_pem.getD "") _ (m.signature_b64.getD "") with
  | none => simp
  | some valid => cases valid <;> simp [hsig, hkey, eq_comm]

/-- The row of a mandate that was created with a signature: the only one of its id, as it
was verified, but for the id. -/
structure Enrolled (H : Host) (req : CreatePaymentMandateRequest) (mandate_id : String)
    (m : UserPaymentMandate) (rows : List UserPaymentMandate) : Prop where
  stored : m ∈ rows
  alone : ∀ m' ∈ rows, m'.mandate_id = mandate_id → m' = m
  id : m.mandate_id = mandate_id
  named : ∀ id, req.mandate_id = some id → id = mandate_id
  verified : ∃ reasons, verifyMandateSignature H (jsonOpt req.mandate_id) m = some (true, reasons)

/-- What the transaction of a creation leaves. -/
theorem mandate_inserted {db db' : DB} {m : UserPaymentMandate} {e : AuditEvent}
    (h : db.applyAll [.insertMandate m, .insertAudit e] = .ok db') :
    m ∈ db'.mandates ∧ ∀ m' ∈ db'.mandates, m'.mandate_id = m.mandate_id → m' = m := by
  obtain ⟨mid, hmid, hrest⟩ := applyAll_cons h
  obtain ⟨db'', hlast, hnil⟩ := applyAll_cons hrest
  rw [← Except.ok.inj hnil, (Frame.of_apply hlast).mandates nofun]
  rcases apply_mandates hmid with ⟨m', hm', heq, hnew⟩ | ⟨_, _, _, habs, -⟩ | hsame
  · obtain rfl := Write.insertMandate.inj hm'
    rw [heq]
    refine ⟨List.mem_append_right _ (List.mem_singleton_self _), fun n hn hid => ?_⟩
    rcases List.mem_append.mp hn with hn | hn
    · exact absurd hid (hnew n hn)
    · exact List.mem_singleton.mp hn
  · exact absurd habs nofun
  · obtain ⟨rows, hrows, heq⟩ := Option.bind_eq_some_iff.mp hmid
    obtain ⟨rfl, -⟩ := insertUnique_eq hrows
    rw [← Option.some.inj heq] at hsame
    exact absurd hsame (by simp)

/-- What a creation with a signature answers for. -/
def Creates (H : Host) (req : CreatePaymentMandateRequest) (w' : World)
    (_ : List (Call × Option Answer)) (r : Option Reply) : Prop :=
  ∀ id status, r = some (.mandate id status) → ∃ m, Enrolled H req id m w'.db.mandates

theorem creates_error {req : CreatePaymentMandateRequest} {r : Option Reply}
    (hr : ∀ id status, r ≠ some (.mandate id status)) : Creates H req w calls r :=
  fun id status h => absurd h (hr id status)

theorem insert_mandate_wp {req : CreatePaymentMandateRequest} {agent : Agent} {m : UserPaymentMandate}
    (hverified : ∃ reasons, verifyMandateSignature H (jsonOpt req.mandate_id) m = some (true, reasons)) :
    (insert_mandate H req agent m).Wp (World.exec i) (Creates H req) calls w := by
  refine wp_fresh (wp_query (wp_record_audit (wp_tryCommit (fun db' hdb => ?_) fun x hx => ?_)))
  · intro id status hr
    obtain ⟨hid, -⟩ := Reply.mandate.inj (Option.some.inj hr)
    obtain ⟨hstored, halone⟩ := mandate_inserted hdb
    refine ⟨_, hstored, fun m' hm' hm => halone m' hm' (hm.trans hid.symm), hid, fun id' hid' => ?_,
      hverified⟩
    rw [← hid, hid']
    rfl
  · exact creates_error fun _ _ => nofun

theorem create_user_payment_mandate_wp {req : CreatePaymentMandateRequest} {key : String}
    (hsig : present req.mandate_signature_b64 = true) :
    (create_user_payment_mandate H req key).Wp (World.exec i) (Creates H req) calls w := by
  refine wp_query ?_
  split
  · exact creates_error fun _ _ => nofun
  next agent _ =>
  refine wp_admin (fun e he => creates_error fun id status h => ?_) (wp_now ?_)
  · obtain ⟨x, rfl⟩ := require_admin_org_error he
    exact absurd h nofun
  dsimp only
  split
  · exact creates_error fun _ _ => nofun
  split
  · exact creates_error fun _ _ => nofun
  split
  · next hunsigned =>
    rw [hsig, Bool.true_or] at hunsigned
    exact absurd hunsigned (by decide)
  split
  · exact creates_error fun _ _ => nofun
  split
  · exact creates_error fun _ _ => nofun
  · exact creates_error fun _ _ => nofun
  next reasons hverified => exact insert_mandate_wp ⟨reasons, hverified⟩

end

/-- The one signature fits the text without an id, and the text with it. -/
def FitsBoth (H : Host) (m : UserPaymentMandate) : Prop :=
  H.verify_signature (m.user_public_key_pem.getD "") (H.canonical_json (mandatePayload .null m))
      (m.signature_b64.getD "") = some true ∧
    H.verify_signature (m.user_public_key_pem.getD "") (canonical_payload_bytes H m)
      (m.signature_b64.getD "") = some true

/-- The two texts are different ones. -/
theorem unnamed_text_ne {H : Host} (hrepr : FloatRepr H.float_repr) (m : UserPaymentMandate) :
    H.canonical_json (mandatePayload .null m) ≠ canonical_payload_bytes H m := by
  intro h
  have hfield := (canonical_json_injective hrepr h).lookup (by simp) (by simp) "mandate_id"
  exact absurd (Option.some.inj hfield) nofun

/-- What an accepted creation with a signature leaves. -/
theorem created_signed {H : Host} {req : CreatePaymentMandateRequest} {key : String}
    (hsig : present req.mandate_signature_b64 = true) {w : World} {answers : List Answer} {i : Nat}
    {id : String} {status : MandateStatus}
    (hok : (Server.serve H (.create_mandate req key) answers w i).value = some (.mandate id status)) :
    ∃ m, Enrolled H req id m
      (Server.serve H (.create_mandate req key) answers w i).store.db.mandates := by
  have hserved : ∀ id status, (Server.serve H (.create_mandate req key) answers w i).value =
      some (.mandate id status) → ∃ m, Enrolled H req id m
        (Server.serve H (.create_mandate req key) answers w i).store.db.mandates := by
    refine Server.serve_spec (Q := fun w' _ r => ∀ id status, r = some (.mandate id status) →
      ∃ m, Enrolled H req id m w'.db.mandates) answers ?_
    refine Prog.wp_mono (fun w' c r h id status hr => ?_) (create_user_payment_mandate_wp hsig)
    rw [rollback_db]
    exact h id status hr
  exact hserved id status hok

/-- **A signed mandate that names its id verifies from storage**, for as long as its terms
and its signature are as stored. One that does not verifies only if its signature fits two
texts. -/
theorem named_mandate_verifies {H : Host} {req : CreatePaymentMandateRequest} {key : String}
    (hsig : present req.mandate_signature_b64 = true) {w : World} {answers : List Answer} {i : Nat}
    {id : String} {status : MandateStatus}
    (hok : (Server.serve H (.create_mandate req key) answers w i).value = some (.mandate id status)) :
    ∃ m, m ∈ (Server.serve H (.create_mandate req key) answers w i).store.db.mandates ∧
      m.mandate_id = id ∧
      (∀ m' ∈ (Server.serve H (.create_mandate req key) answers w i).store.db.mandates,
        m'.mandate_id = id → m' = m) ∧
      ∀ m', canonical_payload_bytes H m' = canonical_payload_bytes H m →
        m'.signature_b64 = m.signature_b64 → m'.user_public_key_pem = m.user_public_key_pem →
        (verify_mandate_signature H m' = some (true, []) ↔
          (∃ id, req.mandate_id = some id) ∨ FitsBoth H m) := by
  obtain ⟨m, hm⟩ := created_signed hsig hok
  refine ⟨m, hm.stored, hm.id, hm.alone, fun m' hbytes hs hk => ?_⟩
  -- a row with the same text, signature and key verifies with the stored one
  have hsame : verify_mandate_signature H m' = some (true, []) ↔
      verify_mandate_signature H m = some (true, []) := by
    have htext : H.canonical_json (mandatePayload (.str m'.mandate_id) m') =
        H.canonical_json (mandatePayload (.str m.mandate_id) m) := hbytes
    unfold verify_mandate_signature
    rw [verifyMandateSignature_true, verifyMandateSignature_true, hs, hk, htext]
  obtain ⟨reasons, hverified⟩ := hm.verified
  rw [hsame]
  unfold verify_mandate_signature
  obtain ⟨-, hpresent, hkey, hvalid⟩ := verifyMandateSignature_true.mp hverified
  rw [verifyMandateSignature_true]
  -- with an id the row is stored as it was signed; without one it got another id afterwards
  cases hname : req.mandate_id with
  | some id' =>
    rw [hname] at hvalid
    refine ⟨fun _ => .inl ⟨id', rfl⟩, fun _ => ⟨rfl, hpresent, hkey, ?_⟩⟩
    rw [hm.id, ← hm.named id' hname]
    exact hvalid
  | none =>
    rw [hname] at hvalid
    refine ⟨fun h => .inr ⟨hvalid, h.2.2.2⟩, fun h => ?_⟩
    rcases h with ⟨id', hid'⟩ | h
    · exact absurd hid' nofun
    · exact ⟨rfl, hpresent, hkey, h.2⟩

/-- The row whose signature a creation verifies. -/
def signedRow (H : Host) (req : CreatePaymentMandateRequest) (agent : Agent) (valid_from : Instant) :
    UserPaymentMandate where
  mandate_id := req.mandate_id.getD ""
  org_id := agent.org_id
  user_id := req.user_id
  agent_id := agent.agent_id
  max_per_transaction := req.max_per_transaction
  max_daily_amount := req.max_daily_amount
  max_per_hour := req.max_per_hour
  max_per_merchant_per_day := req.max_per_merchant_per_day
  max_category_per_day := req.max_category_per_day
  currency := H.upper req.currency
  allowed_merchants := req.allowed_merchants.getD []
  allowed_categories := req.allowed_categories.getD []
  require_review_above := req.require_review_above
  valid_from := valid_from
  expires_at := req.expires_at
  status := .active
  revoked_at := none
  signing_key_id := some (if present req.signing_key_id then req.signing_key_id.getD "" else "user-key-1")
  signature_b64 := req.mandate_signature_b64
  user_public_key_pem := req.user_public_key_pem

theorem accepts_mandate {db : DB} {r : UserPaymentMandate} {e : AuditEvent} {x : Write}
    (hunused : ∀ m ∈ db.mandates, m.mandate_id ≠ r.mandate_id) :
    db.applyAll [.insertMandate r, .insertAudit e] ≠ .error x := by
  have hany : db.mandates.any (fun m => m.mandate_id == r.mandate_id) = false := by
    rw [List.any_eq_false]
    exact fun m hm => by simpa using hunused m hm
  have hmandate : db.apply (.insertMandate r) = some { db with mandates := db.mandates ++ [r] } := by
    simp [DB.apply, insertUnique, hany]
  obtain ⟨db', hdb'⟩ := accepts_cons hmandate (accepts_audits fun _ h => ⟨e, List.mem_singleton.mp h⟩)
  rw [hdb']
  simp

/-- A signed mandate that passes every check is accepted. -/
theorem signed_mandate_accepted {H : Host} {req : CreatePaymentMandateRequest} {key : String} {w : World}
    {answers : List Answer} {agent : Agent}
    (hagent : (w.db.agents.find? fun a => a.agent_id == req.agent_id) = some agent)
    (hadmin : H.require_admin_org key agent.org_id = .ok ())
    (hlimits : mandateLimitRefusal req (req.valid_from.getD w.clock) = none)
    (hcurrency : H.upper req.currency = H.upper agent.currency)
    (hverified : verifyMandateSignature H (jsonOpt req.mandate_id)
      (signedRow H req agent (req.valid_from.getD w.clock)) = some (true, []))
    (hnew : ∀ m ∈ w.db.mandates, m.mandate_id ≠ req.mandate_id.getD (H.uuid4 w.next)) :
    (Server.serve H (.create_mandate req key) answers w).value =
      some (.mandate (req.mandate_id.getD (H.uuid4 w.next)) .active) := by
  obtain ⟨-, hsig, hkey, -⟩ := verifyMandateSignature_true.mp hverified
  have hsig : present req.mandate_signature_b64 = true := hsig
  have hkey : present req.user_public_key_pem = true := hkey
  refine Server.serve_spec (Q := fun _ _ r =>
    r = some (.mandate (req.mandate_id.getD (H.uuid4 w.next)) .active)) answers ?_
  show (create_user_payment_mandate H req key).Wp _ _ _ _
  refine wp_query ?_
  rw [hagent]
  refine wp_admin (fun e he => ?_) (wp_now ?_)
  · rw [hadmin] at he
    exact absurd he nofun
  dsimp only
  rw [hlimits]
  dsimp only
  rw [if_neg (not_not.mpr hcurrency), hsig, hkey, Bool.true_or, Bool.and_true]
  simp only [Bool.not_true, Bool.false_eq_true, ↓reduceIte]
  -- the insert is the last thing that could fail, and the id is new
  unfold signedRow at hverified
  rw [hverified]
  refine wp_fresh (wp_query (wp_record_audit (wp_tryCommit (fun _ _ => rfl) fun x hx => ?_)))
  exact absurd hx (accepts_mandate hnew)

namespace Sample

/-- A host on which a signature is the text it was made over. -/
def literal : Host := { printing with verify_signature := fun _ msg sig => some (msg == sig) }

/-- The row that the user signs, under an id of the user's choice or none. -/
def proposed_row (mandate_id : Option String) : UserPaymentMandate :=
  { mandate with mandate_id := mandate_id.getD "" }

/-- The request to create it. -/
def enrolment (mandate_id : Option String) : CreatePaymentMandateRequest where
  mandate_id := mandate_id
  user_id := "user"
  agent_id := "agent"
  max_per_transaction := 1000
  max_daily_amount := 1000
  max_per_hour := none
  max_per_merchant_per_day := none
  max_category_per_day := none
  currency := "INR"
  allowed_merchants := none
  allowed_categories := none
  require_review_above := none
  valid_from := none
  expires_at := 1000000000000000
  user_public_key_pem := some "user-key"
  mandate_signature_b64 :=
    some (literal.canonical_json (mandatePayload (jsonOpt mandate_id) (proposed_row mandate_id)))
  signing_key_id := none

/-- The creation of that mandate. -/
def enrolled (mandate_id : Option String) : Prog.Outcome World Call Answer Reply :=
  Server.serve literal (.create_mandate (enrolment mandate_id) "admin") [] (capable "make_payment")

/-- It is signed, and accepted. -/
theorem enrolled_ok (mandate_id : Option String) :
    present (enrolment mandate_id).mandate_signature_b64 = true ∧
      (enrolled mandate_id).value = some (.mandate (mandate_id.getD "u") .active) := by
  obtain ⟨t, ht⟩ := canonical_json_dict (H := literal) _
  have hsig : present (enrolment mandate_id).mandate_signature_b64 = true := by
    refine bne_iff_ne.mpr fun hempty => ?_
    have hchars : (literal.canonical_json
        (mandatePayload (jsonOpt mandate_id) (proposed_row mandate_id))).toList = [] :=
      congrArg String.toList hempty
    rw [show mandatePayload (jsonOpt mandate_id) (proposed_row mandate_id) = .dict _ from rfl, ht] at hchars
    exact absurd hchars nofun
  have hkey : present (some "user-key") = true := by decide
  have hagent : ((capable "make_payment").db.agents.find? fun a => a.agent_id == "agent") =
      some (agent ["make_payment"] 1000) := rfl
  have hadmin : literal.require_admin_org "admin" "default" = .ok () := rfl
  have hlimits : mandateLimitRefusal (enrolment mandate_id) 0 = none := rfl
  refine ⟨hsig, signed_mandate_accepted hagent hadmin hlimits (congrArg _ rfl) ?_ ?_⟩
  · exact verifyMandateSignature_true.mpr ⟨rfl, hsig, hkey, congrArg some (beq_self_eq_true _)⟩
  · exact fun m hm => absurd hm List.not_mem_nil

end Sample

theorem named_mandate_verifies_enrolled : ∃ m ∈ (Sample.enrolled (some "mandate")).store.db.mandates,
    m.mandate_id = "mandate" ∧ verify_mandate_signature Sample.literal m = some (true, []) := by
  obtain ⟨hsig, hok⟩ := Sample.enrolled_ok (some "mandate")
  obtain ⟨m, hm, hid, -, h⟩ := named_mandate_verifies hsig hok
  exact ⟨m, hm, hid, (h m rfl rfl rfl).mpr (.inl ⟨"mandate", rfl⟩)⟩

/-- A mandate that is accepted without an id, and then does not verify. -/
theorem unnamed_mandate_refused :
    (Sample.enrolled none).value = some (.mandate "u" .active) ∧
    ∃ m ∈ (Sample.enrolled none).store.db.mandates, m.mandate_id = "u" ∧
      present m.signature_b64 = true ∧
      verify_mandate_signature Sample.literal m ≠ some (true, []) := by
  obtain ⟨hsig, hok⟩ := Sample.enrolled_ok none
  obtain ⟨m, hm⟩ := created_signed hsig hok
  obtain ⟨reasons, hverified⟩ := hm.verified
  obtain ⟨-, hpresent, -, hvalid⟩ := verifyMandateSignature_true.mp hverified
  refine ⟨hok, m, hm.stored, hm.id, hpresent, fun h => ?_⟩
  obtain ⟨-, -, -, hvalid'⟩ := verifyMandateSignature_true.mp h
  have htext := beq_iff_eq.mp (Option.some.inj hvalid)
  have htext' := beq_iff_eq.mp (Option.some.inj hvalid')
  exact unnamed_text_ne Sample.float_repr_ok m (htext.trans htext'.symm)

end Paari
