import Mathlib.Data.List.Sort
import Paari.Providers

/-!
# User payment mandates

What the user allows the agent to spend: resolution of the live mandates,
aggregation of earlier spend over rolling windows, the check of one mandate, and
`evaluate_mandate`, which runs the checks of all of them behind the serialization
gates.

Three invariants the module owns: a lapsed mandate is not the same as none
(`MandateState`), every active mandate must permit the payment (tightest wins),
and budget windows roll.
-/

namespace Paari

open Host (HOUR DAY)

inductive MandateState
  | none | lapsed | active
deriving DecidableEq

structure MandateDecision where
  ok : Bool
  review : Bool := false
  reasons : List String := []
  mandate : Option UserPaymentMandate := .none
  state : MandateState := .none
  /-- Every active mandate that was evaluated, tightest first. -/
  evaluated : List String := []

/-! ## Resolution -/

/-- `_scope_query` -/
def scope_query (db : DB) (agent_id org_id : String) : List UserPaymentMandate :=
  db.mandates.filter fun m => m.agent_id == agent_id && m.org_id == org_id

/-- Live and within its window at `now`. -/
def UserPaymentMandate.live (m : UserPaymentMandate) (now : Instant) : Bool :=
  decide (m.status = .active) && decide (m.valid_from ≤ now) && decide (now < m.expires_at)

/-- The sort key of `active_mandates`: per-transaction cap, daily cap, id. -/
def UserPaymentMandate.tighter (a b : UserPaymentMandate) : Prop :=
  a.max_per_transaction < b.max_per_transaction ∨
    a.max_per_transaction = b.max_per_transaction ∧
      (a.max_daily_amount < b.max_daily_amount ∨
        a.max_daily_amount = b.max_daily_amount ∧ a.mandate_id ≤ b.mandate_id)

instance : DecidableRel UserPaymentMandate.tighter := fun _ _ =>
  inferInstanceAs (Decidable (_ ∨ _ ∧ (_ ∨ _ ∧ _)))

/-- `active_mandates`: every live, in-window mandate of the agent, tightest first. -/
def active_mandates (db : DB) (agent_id org_id : String) (now : Instant) :
    List UserPaymentMandate :=
  ((scope_query db agent_id org_id).filter fun m => m.live now).insertionSort
    UserPaymentMandate.tighter

/-- `mandate_history_exists` -/
def mandate_history_exists (db : DB) (agent_id org_id : String) : Bool :=
  !(scope_query db agent_id org_id).isEmpty

/-- `resolve_state` -/
def resolve_state (db : DB) (agent_id org_id : String) (now : Instant) : MandateState :=
  if !(active_mandates db agent_id org_id now).isEmpty then .active
  else if mandate_history_exists db agent_id org_id then .lapsed
  else .none

/-! ## Spending aggregation -/

/-- `_window_start`: a mandate is not charged for spend that predates it. -/
def window_start (now : Instant) (delta : Int) (m : UserPaymentMandate) : Instant :=
  if now - delta < m.valid_from then m.valid_from else now - delta

/-- The intents `_spend_since` sums, before it narrows them to a merchant or category. -/
def charged (m : UserPaymentMandate) (start now : Instant) (i : PaymentIntent) : Bool :=
  i.org_id == m.org_id && i.agent_id == m.agent_id && decide (start ≤ i.created_at) &&
    decide (i.created_at ≤ now) && decide (i.decision ≠ .deny) && i.currency == m.currency

/-- `_spend_since`, with its optional narrowing as a further filter. -/
def spend_since (db : DB) (m : UserPaymentMandate) (start now : Instant)
    (narrow : PaymentIntent → Bool := fun _ => true) : Int :=
  ((db.intents.filter fun i => charged m start now i && narrow i).map
    PaymentIntent.amount_minor_units).sum

def daily_spend (db : DB) (m : UserPaymentMandate) (now : Instant) : Int :=
  spend_since db m (window_start now DAY m) now

def hourly_spend (db : DB) (m : UserPaymentMandate) (now : Instant) : Int :=
  spend_since db m (window_start now HOUR m) now

def merchant_daily_spend (H : Host) (db : DB) (m : UserPaymentMandate) (merchant : String)
    (now : Instant) : Int :=
  spend_since db m (window_start now DAY m) now
    fun i => H.sql_lower i.merchant == H.casefold merchant

def category_daily_spend (H : Host) (db : DB) (m : UserPaymentMandate) (category : String)
    (now : Instant) : Int :=
  spend_since db m (window_start now DAY m) now
    fun i => i.merchant_category.map H.sql_lower == some (H.casefold category)

/-! ## Signature enforcement -/

def jsonIntOpt (i : Option Int) : Json := (i.map Json.int).getD .null

/-- `mandate_payload` for a row whose id column holds `mandate_id`: a row that is not
flushed yet may have none. -/
def mandatePayload (mandate_id : Json) (m : UserPaymentMandate) : Json :=
  let strings (xs : List String) : Json := .list ((xs.insertionSort (· ≤ ·)).map Json.str)
  .dict [
    ("purpose", .str "paari_user_payment_mandate"), ("mandate_version", .int 1),
    ("mandate_id", mandate_id), ("user_id", .str m.user_id),
    ("agent_id", .str m.agent_id), ("org_id", .str m.org_id),
    ("constraints", .dict [
      ("currency", .str m.currency), ("max_per_transaction", .int m.max_per_transaction),
      ("max_daily_amount", .int m.max_daily_amount), ("max_per_hour", jsonIntOpt m.max_per_hour),
      ("max_per_merchant_per_day", jsonIntOpt m.max_per_merchant_per_day),
      ("max_category_per_day", jsonIntOpt m.max_category_per_day),
      ("allowed_merchants", strings m.allowed_merchants),
      ("allowed_categories", strings m.allowed_categories),
      ("require_review_above", jsonIntOpt m.require_review_above)]),
    ("issued_at", .int (Host.timestamp m.valid_from)),
    ("expires_at", .int (Host.timestamp m.expires_at))]

/-- A nullable text column that is set and not empty (`if not column`). -/
def present (s : Option String) : Bool := s.getD "" != ""

/-- `verify_mandate_signature`, given the id column: `none` when the stored key does
not load and the verification raises. -/
def verifyMandateSignature (H : Host) (mandate_id : Json) (m : UserPaymentMandate) :
    Option (Bool × List String) :=
  if !present m.signature_b64 then some (false, ["mandate is unsigned"])
  else if !present m.user_public_key_pem then
    some (false, ["mandate has no stored signer public key"])
  else
    (H.verify_signature (m.user_public_key_pem.getD "")
      (H.canonical_json (mandatePayload mandate_id m)) (m.signature_b64.getD "")).map fun valid =>
        if valid then (true, []) else (false, ["mandate signature verification failed"])

/-- `mandate_payload`: what the user key signs. -/
def mandate_payload (m : UserPaymentMandate) : Json := mandatePayload (.str m.mandate_id) m

/-- `verify_mandate_signature` on a stored row. -/
def verify_mandate_signature (H : Host) (m : UserPaymentMandate) : Option (Bool × List String) :=
  verifyMandateSignature H (.str m.mandate_id) m

/-- `"; ".join(reasons)` -/
def joinReasons (reasons : List String) : String := "; ".intercalate reasons

/-- `check_mandate_signature`: a signature that is there must verify; none at all
is refused only where signed mandates are required. -/
def check_mandate_signature (H : Host) (m : UserPaymentMandate) (require_signed : Bool) :
    Option (Bool × List String) :=
  if !present m.signature_b64 then
    if require_signed then
      some (false, ["user payment mandate is unsigned and " ++
        "PAARI_REQUIRE_SIGNED_MANDATE=1 requires a signed mandate"])
    else some (true, [])
  else
    (verify_mandate_signature H m).map fun (valid, reasons) =>
      if valid then (true, [])
      else (false, ["user mandate signature verification failed: " ++ joinReasons reasons])

/-! ## Constraint evaluation -/

/-- One proposed payment, as the mandate checks see it. -/
structure Proposal where
  merchant : String
  amount_minor_units : Int
  currency : String
  merchant_category : Option String
  now : Instant

/-- What is left of a budget, as the messages print it. -/
def leftOf (cap spent : Int) : String := toString (max (cap - spent) 0)

/-- `_check_one`: `none` when the signature check raises. -/
def check_one (H : Host) (db : DB) (m : UserPaymentMandate) (p : Proposal)
    (require_signed : Bool) : Option MandateDecision := do
  let deny (reasons : List String) : Option MandateDecision :=
    some { ok := false, reasons := reasons, mandate := some m, state := .active }
  let amount := p.amount_minor_units
  let category := p.merchant_category.getD ""
  let allowed_merchants := m.allowed_merchants.map H.casefold
  let allowed_categories := m.allowed_categories.map H.casefold
  let hour_spent := hourly_spend db m p.now
  let day_spent := daily_spend db m p.now
  let merchant_spent := merchant_daily_spend H db m p.merchant p.now
  let category_spent := category_daily_spend H db m category p.now
  let (ok, sig_reasons) ← check_mandate_signature H m require_signed
  if !ok then deny sig_reasons
  else if H.upper p.currency ≠ H.upper m.currency then
    deny ["currency " ++ p.currency ++ " does not match user mandate currency " ++ m.currency]
  else if amount > m.max_per_transaction then
    deny ["amount " ++ toString amount ++ " exceeds user mandate per-transaction limit " ++
      toString m.max_per_transaction]
  else if !allowed_merchants.isEmpty && !allowed_merchants.contains (H.casefold p.merchant) then
    deny ["merchant " ++ H.repr (.str p.merchant) ++ " is not permitted by the user mandate"]
  else if !allowed_categories.isEmpty && category = "" then
    deny ["merchant category is required by the user mandate"]
  else if !allowed_categories.isEmpty && !allowed_categories.contains (H.casefold category) then
    deny ["merchant category " ++ H.repr (.str category) ++
      " is not permitted by the user mandate"]
  else if m.max_per_hour.any fun cap => amount > cap - hour_spent then
    deny ["amount " ++ toString amount ++ " exceeds remaining hourly mandate budget " ++
      leftOf (m.max_per_hour.getD 0) hour_spent]
  else if amount > m.max_daily_amount - day_spent then
    deny ["amount " ++ toString amount ++ " exceeds remaining daily mandate budget " ++
      leftOf m.max_daily_amount day_spent]
  else if m.max_per_merchant_per_day.any fun cap => amount > cap - merchant_spent then
    deny ["amount " ++ toString amount ++ " exceeds remaining daily budget for merchant " ++
      H.repr (.str p.merchant) ++ " (" ++
      leftOf (m.max_per_merchant_per_day.getD 0) merchant_spent ++ ")"]
  else if m.max_category_per_day.isSome && category = "" then
    deny ["merchant category is required by the user mandate (per-category budget)"]
  else if m.max_category_per_day.any fun cap => amount > cap - category_spent then
    deny ["amount " ++ toString amount ++ " exceeds remaining daily budget for category " ++
      H.repr (.str category) ++ " (" ++
      leftOf (m.max_category_per_day.getD 0) category_spent ++ ")"]
  else if m.require_review_above.any fun cap => amount > cap then
    some { ok := true, review := true, mandate := some m, state := .active
           reasons := ["user mandate requires review above " ++
             toString (m.require_review_above.getD 0) ++ "; current amount " ++
             toString amount] }
  else
    some { ok := true, mandate := some m, state := .active
           reasons := ["user mandate is active and all mandate constraints passed"] }

/-! ## What a check asks -/

section
variable {H : Host} {db : DB} {m : UserPaymentMandate} {p : Proposal} {signed : Bool}

/-- The tests of `_check_one` that read no recorded intent accept. -/
structure TermsAccept (H : Host) (m : UserPaymentMandate) (p : Proposal) (require_signed : Bool) :
    Prop where
  signature : ∃ reasons, check_mandate_signature H m require_signed = some (true, reasons)
  currency : H.upper p.currency = H.upper m.currency
  cap : p.amount_minor_units ≤ m.max_per_transaction
  merchant : m.allowed_merchants ≠ [] →
    H.casefold p.merchant ∈ m.allowed_merchants.map H.casefold
  category : m.allowed_categories ≠ [] → p.merchant_category.getD "" ≠ "" ∧
    H.casefold (p.merchant_category.getD "") ∈ m.allowed_categories.map H.casefold

/-- Its budget tests accept. -/
structure BudgetsAccept (H : Host) (db : DB) (m : UserPaymentMandate) (p : Proposal) : Prop where
  hourly : ∀ cap, m.max_per_hour = some cap → p.amount_minor_units ≤ cap - hourly_spend db m p.now
  daily : p.amount_minor_units ≤ m.max_daily_amount - daily_spend db m p.now
  merchant : ∀ cap, m.max_per_merchant_per_day = some cap →
    p.amount_minor_units ≤ cap - merchant_daily_spend H db m p.merchant p.now
  category : ∀ cap, m.max_category_per_day = some cap → p.merchant_category.getD "" ≠ "" ∧
    p.amount_minor_units ≤
      cap - category_daily_spend H db m (p.merchant_category.getD "") p.now

/-- An allowlist that is not empty holds the word. -/
theorem not_listed {xs : List String} {x : String} :
    (!xs.isEmpty && !xs.contains x) = false ↔ (xs ≠ [] → x ∈ xs) := by
  cases xs with
  | nil => simp
  | cons y ys => simp [or_iff_not_imp_left]

/-- A limit that is set is kept. -/
theorem not_over {limit : Option Int} {exceeds : Int → Prop} [DecidablePred exceeds] :
    (limit.any fun cap => decide (exceeds cap)) = false ↔ ∀ cap, limit = some cap → ¬exceeds cap := by
  cases limit with
  | none => simp
  | some cap => simp

/-- A check that was passed did not refuse. -/
theorem not_refused {c : Prop} [Decidable c] {x y : Option MandateDecision} {d : MandateDecision}
    (h : (if c then x else y) = some d) (hok : d.ok = true)
    (hx : ∀ d', x = some d' → d'.ok = false) : ¬ c ∧ y = some d := by
  by_cases hc : c
  · rw [if_pos hc] at h
    rw [hx d h] at hok
    exact absurd hok Bool.false_ne_true
  · rw [if_neg hc] at h
    exact ⟨hc, h⟩

/-- The decision of `_check_one` on a payment that passes its tests. -/
def permitted (m : UserPaymentMandate) (p : Proposal) : MandateDecision :=
  if m.require_review_above.any fun cap => p.amount_minor_units > cap then
    { ok := true, review := true, mandate := some m, state := .active
      reasons := ["user mandate requires review above " ++
        toString (m.require_review_above.getD 0) ++ "; current amount " ++
        toString p.amount_minor_units] }
  else
    { ok := true, mandate := some m, state := .active
      reasons := ["user mandate is active and all mandate constraints passed"] }

theorem permitted_ok : (permitted m p).ok = true := by
  unfold permitted
  split <;> rfl

theorem check_one_accepts (hterms : TermsAccept H m p signed) (hbudgets : BudgetsAccept H db m p) :
    check_one H db m p signed = some (permitted m p) := by
  obtain ⟨⟨reasons, hsig⟩, hcurrency, hcap, hmerchant, hcategory⟩ := hterms
  obtain ⟨hhour, hday, hshop, hkind⟩ := hbudgets
  have hlisted : m.allowed_categories ≠ [] → p.merchant_category.getD "" ≠ "" :=
    fun h => (hcategory h).1
  have hbudgeted : m.max_category_per_day.isSome = true → p.merchant_category.getD "" ≠ "" := by
    intro h
    obtain ⟨cap, hcap⟩ := Option.isSome_iff_exists.mp h
    exact (hkind cap hcap).1
  unfold check_one
  rw [hsig]
  dsimp only [Option.bind_eq_bind, Option.bind_some]
  rw [if_neg (by decide), if_neg (not_not.mpr hcurrency), if_neg (not_lt.mpr hcap), if_neg, if_neg,
    if_neg, if_neg, if_neg (not_lt.mpr hday), if_neg, if_neg, if_neg]
  · unfold permitted
    split <;> rfl
  · exact Bool.eq_false_iff.mp (not_over.mpr fun cap h => not_lt.mpr (hkind cap h).2)
  · exact fun h => hbudgeted (Bool.and_eq_true_iff.mp h).1 (of_decide_eq_true (Bool.and_eq_true_iff.mp h).2)
  · exact Bool.eq_false_iff.mp (not_over.mpr fun cap h => not_lt.mpr (hshop cap h))
  · exact Bool.eq_false_iff.mp (not_over.mpr fun cap h => not_lt.mpr (hhour cap h))
  · refine Bool.eq_false_iff.mp (not_listed.mpr fun h => (hcategory fun heq => h ?_).2)
    rw [heq, List.map_nil]
  · intro h
    obtain ⟨hne, hempty⟩ := Bool.and_eq_true_iff.mp h
    refine hlisted (fun heq => ?_) (of_decide_eq_true hempty)
    rw [heq] at hne
    exact absurd hne Bool.false_ne_true
  · refine Bool.eq_false_iff.mp (not_listed.mpr fun h => hmerchant fun heq => h ?_)
    rw [heq, List.map_nil]

/-- `_check_one` accepts exactly when its tests do. -/
theorem check_one_ok : (∃ d, check_one H db m p signed = some d ∧ d.ok = true) ↔
    TermsAccept H m p signed ∧ BudgetsAccept H db m p := by
  constructor
  · rintro ⟨d, h, hok⟩
    have hrefuse : ∀ (reasons : List String) (d' : MandateDecision),
        some (⟨false, false, reasons, some m, .active, []⟩ : MandateDecision) = some d' →
          d'.ok = false := by
      intro reasons d' heq
      rw [← Option.some.inj heq]
    obtain ⟨⟨sig, reasons⟩, hsig, h⟩ := Option.bind_eq_some_iff.mp h
    obtain ⟨hsigned, h⟩ := not_refused h hok (hrefuse _)
    obtain ⟨hcurrency, h⟩ := not_refused h hok (hrefuse _)
    obtain ⟨hcap, h⟩ := not_refused h hok (hrefuse _)
    obtain ⟨hmerchant, h⟩ := not_refused h hok (hrefuse _)
    obtain ⟨hnamed, h⟩ := not_refused h hok (hrefuse _)
    obtain ⟨hcategory, h⟩ := not_refused h hok (hrefuse _)
    obtain ⟨hhour, h⟩ := not_refused h hok (hrefuse _)
    obtain ⟨hday, h⟩ := not_refused h hok (hrefuse _)
    obtain ⟨hshop, h⟩ := not_refused h hok (hrefuse _)
    obtain ⟨hbudgeted, h⟩ := not_refused h hok (hrefuse _)
    obtain ⟨hkind, -⟩ := not_refused h hok (hrefuse _)
    have hlists : ∀ {xs : List String}, xs ≠ [] → xs.map H.casefold ≠ [] :=
      fun h heq => h (List.map_eq_nil_iff.mp heq)
    have hempty : ∀ {xs : List String}, xs ≠ [] → (xs.map H.casefold).isEmpty = false :=
      fun h => List.isEmpty_eq_false_iff.mpr (hlists h)
    have hsigned : sig = true := by simpa using hsigned
    refine ⟨⟨⟨reasons, by rw [hsig, hsigned]⟩, not_not.mp hcurrency, not_lt.mp hcap, fun hne => ?_,
      fun hne => ⟨fun hnone => ?_, ?_⟩⟩, fun cap h => ?_, not_lt.mp hday, fun cap h => ?_,
      fun cap h => ⟨fun hnone => ?_, ?_⟩⟩
    · exact not_listed.mp (Bool.eq_false_iff.mpr hmerchant) (hlists hne)
    · refine hnamed ?_
      rw [hempty hne, hnone]
      rfl
    · exact not_listed.mp (Bool.eq_false_iff.mpr hcategory) (hlists hne)
    · exact not_lt.mp (not_over.mp (Bool.eq_false_iff.mpr hhour) cap h)
    · exact not_lt.mp (not_over.mp (Bool.eq_false_iff.mpr hshop) cap h)
    · refine hbudgeted ?_
      rw [h, hnone]
      rfl
    · exact not_lt.mp (not_over.mp (Bool.eq_false_iff.mpr hkind) cap h)
  · rintro ⟨hterms, hbudgets⟩
    exact ⟨_, check_one_accepts hterms hbudgets, permitted_ok⟩

end

/-! ## Serialization -/

/-- `_signed_lock_key`: a stable key in the signed 64-bit range. -/
def signed_lock_key (H : Host) (name : String) : Int :=
  let key := H.sha256_head name
  if 0x8000000000000000 ≤ key then (key : Int) - 0x10000000000000000 else key

/-- The lock behind a named gate on the host's dialect. -/
def gateOf (H : Host) (name : String) : Gate :=
  if H.postgres then .advisory (signed_lock_key H name) else .database

/-- `acquire_gate`: pending work is committed first, so that the gate wraps a
transaction that begins before the protected reads. An attempt that outlasts its
timeout is one that finds the gate taken. -/
def acquire_gate (H : Host) (pending : Session) (name : String) : Handler Bool := do
  Handler.commit pending
  Handler.tryGate (gateOf H name)

/-- `acquire_mandate_serialization` -/
def acquire_mandate_serialization (H : Host) (pending : Session) (mandate_id : String) :
    Handler Bool :=
  acquire_gate H pending ("paari:mandate:" ++ mandate_id)

/-- The loop of `acquire_all_mandate_gates`. -/
def acquireEach (H : Host) : Session → List String → Handler Bool
  | _, [] => return true
  | pending, id :: ids => do
    let got ← acquire_mandate_serialization H pending id
    if !got then return false
    acquireEach H [] ids

/-- `acquire_all_mandate_gates`: each id once, in sorted order. -/
def acquire_all_mandate_gates (H : Host) (pending : Session) (ids : List String) : Handler Bool :=
  acquireEach H pending (ids.dedup.insertionSort (· ≤ ·))

/-! ## Evaluation -/

def LAPSED_REASON : String :=
  "no active user payment mandate: a mandate exists for this agent but " ++
    "it has expired, been revoked, or is outside its validity window"

/-- One `_check_one` after another, each on the rows as they are then. -/
def checkEach (H : Host) (p : Proposal) (require_signed : Bool) :
    List UserPaymentMandate → Handler (List MandateDecision)
  | [] => return []
  | m :: ms => do
    let d ← Handler.query fun db => check_one H db m p require_signed
    match d with
    | none => .halt
    | some d => do
      let ds ← checkEach H p require_signed ms
      return d :: ds

/-- The verdict over all mandates: the first refusal, else review if any asks for it. -/
def combine (active : List UserPaymentMandate) (decisions : List MandateDecision) :
    MandateDecision :=
  let evaluated := active.map UserPaymentMandate.mandate_id
  match decisions.find? fun d => !d.ok with
  | some d =>
    { ok := false, reasons := d.reasons, mandate := d.mandate, state := .active
      evaluated := evaluated }
  | none =>
    let review_reasons := (decisions.filter MandateDecision.review).flatMap MandateDecision.reasons
    if review_reasons ≠ [] then
      { ok := true, review := true, reasons := review_reasons, mandate := active.head?
        state := .active, evaluated := evaluated }
    else
      { ok := true, mandate := active.head?, state := .active, evaluated := evaluated
        reasons := ["user mandate is active and all mandate constraints passed"] }

/-- `evaluate_mandate`. When a gate was tried, the pending work is committed. -/
def evaluate_mandate (H : Host) (pending : Session) (agent_id org_id : String) (p : Proposal)
    (require_signed : Bool) : Handler (MandateDecision × Session) := do
  let active ← Handler.query fun db => active_mandates db agent_id org_id p.now
  if active.isEmpty then
    let lapsed ← Handler.query fun db => mandate_history_exists db agent_id org_id
    return ({
      ok := false
      reasons := [if lapsed then LAPSED_REASON else "no active user payment mandate"]
      state := if lapsed then .lapsed else .none }, pending)
  let got ← acquire_all_mandate_gates H pending (active.map UserPaymentMandate.mandate_id)
  if !got then
    return ({
      ok := false
      reasons := ["mandate evaluation is contended; retry the request"]
      mandate := active.head?, state := .active }, [])
  -- Re-resolve under the gate: a mandate may have been revoked or expired in between.
  let active ← Handler.query fun db => active_mandates db agent_id org_id p.now
  if active.isEmpty then
    return ({ ok := false, reasons := [LAPSED_REASON], state := .lapsed }, [])
  let decisions ← checkEach H p require_signed active
  return (combine active decisions, [])

end Paari
