import Paari.Server

/-!
# Which spellings share a budget

A mandate accepts a payment by comparing currencies in upper case and merchants and
categories by their casefold. The sums its budgets are checked against select earlier
intents by the exact currency and by SQL `lower()`. `aggregation_agrees` says for which
rows the two agree: those that store the currency as the mandate does, and whose merchant
and category `lower()` takes to their casefold.
-/

namespace Paari

open Host (HOUR DAY)

/-! ## The rows behind a sum -/

/-- The rows `_spend_since` sums. -/
def spend_rows (db : DB) (m : UserPaymentMandate) (start now : Instant)
    (narrow : PaymentIntent → Bool) : List PaymentIntent :=
  db.intents.filter fun i => charged m start now i && narrow i

theorem spend_since_rows (db : DB) (m : UserPaymentMandate) (start now : Instant)
    (narrow : PaymentIntent → Bool) : spend_since db m start now narrow =
      ((spend_rows db m start now narrow).map PaymentIntent.amount_minor_units).sum := rfl

section
variable (H : Host) (db : DB) (m : UserPaymentMandate) (now : Instant)

def daily_rows : List PaymentIntent :=
  spend_rows db m (window_start now DAY m) now fun _ => true

def hourly_rows : List PaymentIntent :=
  spend_rows db m (window_start now HOUR m) now fun _ => true

def merchant_daily_rows (merchant : String) : List PaymentIntent :=
  spend_rows db m (window_start now DAY m) now fun i => H.sql_lower i.merchant == H.casefold merchant

def category_daily_rows (category : String) : List PaymentIntent :=
  spend_rows db m (window_start now DAY m) now
    fun i => i.merchant_category.map H.sql_lower == some (H.casefold category)

/-- Each budget is checked against the sum of its rows. -/
theorem spends_of_rows (merchant category : String) :
    daily_spend db m now = ((daily_rows db m now).map PaymentIntent.amount_minor_units).sum ∧
    hourly_spend db m now = ((hourly_rows db m now).map PaymentIntent.amount_minor_units).sum ∧
    merchant_daily_spend H db m merchant now =
      ((merchant_daily_rows H db m now merchant).map PaymentIntent.amount_minor_units).sum ∧
    category_daily_spend H db m category now =
      ((category_daily_rows H db m now category).map PaymentIntent.amount_minor_units).sum :=
  ⟨spend_since_rows db m _ now _, spend_since_rows db m _ now _, spend_since_rows db m _ now _,
    spend_since_rows db m _ now _⟩

end

/-! ## What the mandate takes to be its own -/

/-- A non-denied intent of the mandate's organization and agent, in the window, whose
currency the check of the mandate would accept. -/
structure UserPaymentMandate.Owns (H : Host) (m : UserPaymentMandate) (start now : Instant)
    (i : PaymentIntent) : Prop where
  org : i.org_id = m.org_id
  agent : i.agent_id = m.agent_id
  since : start ≤ i.created_at
  until_now : i.created_at ≤ now
  undenied : i.decision ≠ .deny
  currency : H.upper i.currency = H.upper m.currency

/-- Every intent the mandate takes to be its own is in each sum it belongs to. -/
structure AggregationAgrees (H : Host) (db : DB) (m : UserPaymentMandate) (p : Proposal) : Prop where
  daily : ∀ i ∈ db.intents, m.Owns H (window_start p.now DAY m) p.now i → i ∈ daily_rows db m p.now
  hourly : ∀ i ∈ db.intents, m.Owns H (window_start p.now HOUR m) p.now i → i ∈ hourly_rows db m p.now
  merchant : ∀ i ∈ db.intents, m.Owns H (window_start p.now DAY m) p.now i →
    H.casefold i.merchant = H.casefold p.merchant → i ∈ merchant_daily_rows H db m p.now p.merchant
  category : ∀ i ∈ db.intents, m.Owns H (window_start p.now DAY m) p.now i →
    ∀ c c', i.merchant_category = some c → p.merchant_category = some c' → H.casefold c = H.casefold c' →
      i ∈ category_daily_rows H db m p.now c'

/-- The row is spelled as the queries look for it. -/
structure SpelledAlike (H : Host) (m : UserPaymentMandate) (p : Proposal) (i : PaymentIntent) :
    Prop where
  currency : i.currency = m.currency
  merchant : H.casefold i.merchant = H.casefold p.merchant →
    H.sql_lower i.merchant = H.casefold i.merchant
  category : ∀ c c', i.merchant_category = some c → p.merchant_category = some c' →
    H.casefold c = H.casefold c' → H.sql_lower c = H.casefold c

section
variable {H : Host} {db : DB} {m : UserPaymentMandate} {p : Proposal} {start start' now : Instant}
  {i : PaymentIntent}

/-- The query and the check differ in the currency alone. -/
theorem charged_iff (h : m.Owns H start now i) : charged m start now i = true ↔ i.currency = m.currency := by
  unfold charged
  simp [h.org, h.agent, h.since, h.until_now, h.undenied]

theorem mem_spend_rows {narrow : PaymentIntent → Bool} (hi : i ∈ db.intents) (h : m.Owns H start now i) :
    i ∈ spend_rows db m start now narrow ↔ i.currency = m.currency ∧ narrow i = true := by
  unfold spend_rows
  rw [List.mem_filter, Bool.and_eq_true, charged_iff h]
  exact ⟨fun hrow => hrow.2, fun hrow => ⟨hi, hrow⟩⟩

/-- The window of a shorter budget lies in that of a longer one. -/
theorem window_start_mono {d d' : Int} (h : d ≤ d') : window_start now d' m ≤ window_start now d m := by
  have hsub : now - d' ≤ now - d := Int.sub_le_sub_left h now
  unfold window_start
  split
  · next hfrom =>
    split
    · exact Int.le_refl _
    · next hlate => exact Int.not_lt.mp hlate
  · split
    · next hearly => exact Int.le_trans hsub (Int.le_of_lt hearly)
    · exact hsub

theorem UserPaymentMandate.Owns.widen (h : m.Owns H start now i) (hle : start' ≤ start) :
    m.Owns H start' now i :=
  ⟨h.org, h.agent, Int.le_trans hle h.since, h.until_now, h.undenied, h.currency⟩

/-- **Spelling decides which budget a payment draws on.** For every mandate, database and
proposed payment, the sums cover all that the mandate itself takes to be its own spending
exactly when each such row stores the mandate's spelling of the currency, and SQL
`lower()` takes its merchant and its category to their casefold where these are the
proposed ones. -/
theorem aggregation_agrees (H : Host) (db : DB) (m : UserPaymentMandate) (p : Proposal) :
    AggregationAgrees H db m p ↔
      ∀ i ∈ db.intents, m.Owns H (window_start p.now DAY m) p.now i → SpelledAlike H m p i := by
  constructor
  · intro h i hi hown
    have hcurrency : i.currency = m.currency := ((mem_spend_rows hi hown).mp (h.daily i hi hown)).1
    refine ⟨hcurrency, fun hfold => ?_, fun c c' hc hc' hfold => ?_⟩
    · obtain ⟨-, hrow⟩ := (mem_spend_rows hi hown).mp (h.merchant i hi hown hfold)
      rw [hfold]
      exact eq_of_beq hrow
    · obtain ⟨-, hrow⟩ := (mem_spend_rows hi hown).mp (h.category i hi hown c c' hc hc' hfold)
      have hlower : i.merchant_category.map H.sql_lower = some (H.casefold c') := eq_of_beq hrow
      rw [hc] at hlower
      rw [hfold]
      exact Option.some.inj hlower
  · intro h
    refine ⟨fun i hi hown => ?_, fun i hi hown => ?_, fun i hi hown hfold => ?_,
      fun i hi hown c c' hc hc' hfold => ?_⟩
    · exact (mem_spend_rows hi hown).mpr ⟨(h i hi hown).currency, rfl⟩
    · -- what is in the last hour is in the last day
      have hday := hown.widen (window_start_mono (by decide : HOUR ≤ DAY))
      exact (mem_spend_rows hi hown).mpr ⟨(h i hi hday).currency, rfl⟩
    · have halike := h i hi hown
      refine (mem_spend_rows hi hown).mpr ⟨halike.currency, ?_⟩
      rw [beq_iff_eq, halike.merchant hfold]
      exact hfold
    · have halike := h i hi hown
      refine (mem_spend_rows hi hown).mpr ⟨halike.currency, ?_⟩
      rw [beq_iff_eq, hc, Option.map_some, halike.category c c' hc hc' hfold, hfold]

end

namespace Sample

/-- A host whose text functions are the ASCII ones. -/
def asciiHost : Host :=
  { host false [] with
    lower := fun s => String.ofList (s.toList.map Char.toLower)
    upper := fun s => String.ofList (s.toList.map Char.toUpper)
    casefold := fun s => String.ofList (s.toList.map Char.toLower)
    sql_lower := fun s => String.ofList (s.toList.map Char.toLower) }

/-- A mandate over 1000 INR a day, as `create_mandate` stores it. -/
def dailyMandate : UserPaymentMandate where
  mandate_id := "mandate"
  org_id := "default"
  user_id := "user"
  agent_id := "agent"
  max_per_transaction := 1000
  max_daily_amount := 1000
  max_per_hour := none
  max_per_merchant_per_day := none
  max_category_per_day := none
  currency := "INR"
  allowed_merchants := []
  allowed_categories := []
  require_review_above := none
  valid_from := 0
  expires_at := 1000000000000000
  status := .active
  revoked_at := none
  signing_key_id := none
  signature_b64 := none
  user_public_key_pem := none

/-- An earlier payment of an agent whose currency is spelled in lower case. -/
def lowerCase : PaymentIntent where
  intent_id := "intent"
  org_id := "default"
  agent_id := "agent"
  transaction_id := "trace"
  idempotency_key := "key"
  mandate_id := some "mandate"
  merchant := "shop"
  amount_minor_units := 1000
  currency := "inr"
  action := "make_payment"
  merchant_category := none
  llm := ⟨none, none, none, none⟩
  llm_attributed := false
  decision := .allow
  reasons := []
  mfa_required := false
  mfa_verified := false
  review_expires_at := none
  created_at := 0

/-- The next one. -/
def again : Proposal := ⟨"shop", 1000, "inr", none, 0⟩

end Sample

/-- The day's budget is spent, and the row that spent it is not among those summed: the
next payment passes the check. -/
theorem lower_case_uncounted :
    (check_one Sample.asciiHost { DB.empty with intents := [Sample.lowerCase] } Sample.dailyMandate
      Sample.again false).map MandateDecision.ok = some true ∧
    ¬ AggregationAgrees Sample.asciiHost { DB.empty with intents := [Sample.lowerCase] }
      Sample.dailyMandate Sample.again := by
  refine ⟨by decide, fun h => ?_⟩
  have hown : Sample.dailyMandate.Owns Sample.asciiHost
      (window_start Sample.again.now DAY Sample.dailyMandate) Sample.again.now Sample.lowerCase :=
    ⟨rfl, rfl, by decide, by decide, by decide, by decide⟩
  have hrow := h.daily Sample.lowerCase (List.mem_singleton_self _) hown
  exact absurd ((mem_spend_rows (List.mem_singleton_self _) hown).mp hrow).1 (by decide)

end Paari
