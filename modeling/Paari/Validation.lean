import Paari.Custody

/-!
# The live mandate

Before a debit, `_consume_agentic_settlement` asks the provider whether its mandate is live,
and trusts the key `valid` of the answer. `validate_mandate` computes that key from the
provider's reply, with defaults, and then lays the reply itself over it: a reply that names
no status, or brings a key `valid` of its own, is taken as live. `Conclusive` says which
replies the verdict can be trusted on.
-/

namespace Paari

open Atomic

/-! ## `RazorpayAgenticProvider.validate_mandate` -/

/-- An HTTP response, as far as the adapter reads it. -/
structure HttpReply where
  status_code : Nat
  text : String
  /-- `r.json()` -/
  json : Answer
  /-- What `raise_for_status` says. -/
  status_error : String

/-- `r.raise_for_status()` -/
def HttpReply.raise_for_status (r : HttpReply) : Except Exc Unit :=
  if 200 ≤ r.status_code ∧ r.status_code ≤ 299 then .ok () else .error (.other r.status_error)

/-- `{**kvs, **data}` -/
def laidOver (kvs data : List (String × Json)) : List (String × Json) :=
  kvs.map (fun kv => (kv.1, (data.lookup kv.1).getD kv.2)) ++
    data.filter fun kv => (kvs.lookup kv.1).isNone

namespace RazorpayAgenticProvider

variable (H : Host)

/-- `os.environ.get(name, "").strip()` -/
def path (name : String) : String := H.strip (H.env name)

/-- `_get_config`, as far as it raises. -/
def get_config : Except Exc Unit :=
  if H.env "RAZORPAY_KEY_ID" = "" ∨ H.env "RAZORPAY_KEY_SECRET" = "" then
    .error (.other "RAZORPAY_KEY_ID/RAZORPAY_KEY_SECRET must be configured")
  else if ¬H.flag "RAZORPAY_AGENTIC_CAPABILITY_CONFIRMED" ∨
      path H "RAZORPAY_AGENTIC_AUTHORIZE_PATH" = "" ∨ path H "RAZORPAY_AGENTIC_PAYMENT_PATH" = "" then
    .error (.other ("Razorpay agentic capability is not configured. Set " ++
      "RAZORPAY_AGENTIC_CAPABILITY_CONFIRMED=1 only after Razorpay has " ++
      "enabled/provided the documented server-to-server mandate/debit " ++
      "contract, and set the exact documented authorize and payment-read paths."))
  else .ok ()

/-- `str(token.get("status", "")).lower() == "active"` -/
def isActive (token : Json) : Except PyError Bool := do
  let status ← token.getD "status" (.str "")
  return pyLower H.toText status == "active"

/-- `[t for t in tokens if ... == "active"]` -/
def keepActive : List Json → Except PyError (List Json)
  | [] => .ok []
  | token :: tokens => do
    let active ← isActive H token
    let rest ← keepActive tokens
    return if active then token :: rest else rest

/-- The same for any value of `tokens`: characters and keys have no `get`. -/
def activeTokens : Json → Except PyError (List Json)
  | .list tokens => keepActive H tokens
  | .str "" => .ok []
  | .dict [] => .ok []
  | .str _ => .error .attributeError
  | .dict _ => .error .attributeError
  | _ => .error .typeError

/-- The verdict on the reply of the status endpoint. -/
def statusVerdict (r : HttpReply) : Answer :=
  if r.status_code ≠ 200 then
    .ok (.dict [("valid", .bool false), ("status", .str "inactive"),
      ("reason", .str (slice 300 r.text))])
  else
    match r.json with
    | .error e => .error e
    | .ok (.dict data) =>
      let status := (data.lookup "status").getD (.str "active")
      .ok (.dict (laidOver [
        ("valid", .bool (decide (pyLower H.toText status ∈ ["active", "authorized", "valid"]))),
        ("status", status)] data))
    | .ok _ => .error (.python .attributeError)

/-- The verdict on the reply of the token list. -/
def tokenVerdict (provider_mandate_ref : String) (r : HttpReply) : Answer :=
  match r.raise_for_status, r.json with
  | .error e, _ => .error e
  | _, .error e => .error e
  | .ok _, .ok data =>
    match data.getD "items" (.list []) with
    | .error e => .error (.python e)
    | .ok tokens =>
      match activeTokens H tokens with
      | .error e => .error (.python e)
      | .ok active => .ok (.dict [
          ("valid", .bool (!active.isEmpty)),
          ("status", .str (if active.isEmpty then "inactive" else "active")),
          ("customer_id", .str provider_mandate_ref), ("active_token_count", .int active.length)])

/-- `validate_mandate`; `get` is the request for a path template whose named value is filled
in. -/
def validate_mandate (get : String → String × String → Except Exc HttpReply)
    (provider_mandate_ref : String) : Answer :=
  match get_config H with
  | .error e => .error e
  | .ok _ =>
    let validate_path := path H "RAZORPAY_AGENTIC_VALIDATE_PATH"
    if validate_path ≠ "" then
      (get validate_path ("provider_mandate_ref", provider_mandate_ref)).bind (statusVerdict H)
    else
      (get (path H "RAZORPAY_AGENTIC_TOKEN_LIST_PATH") ("customer_id", provider_mandate_ref)).bind
        (tokenVerdict H provider_mandate_ref)

/-! ## Which verdicts can be trusted -/

/-- The caller reads the verdict as valid. -/
def Valid (verdict : Json) : Prop := ∃ valid, verdict.get "valid" = .ok valid ∧ valid.truthy = true

/-- The reply states a status that means the mandate is live. -/
def StatesLive (r : HttpReply) : Prop :=
  r.status_code = 200 ∧ ∃ data status, r.json = .ok (.dict data) ∧ data.lookup "status" = some status ∧
    pyLower H.toText status ∈ ["active", "authorized", "valid"]

/-- The reply lists a token whose status is active. -/
def ListsActive (r : HttpReply) : Prop :=
  ∃ data tokens token status, r.json = .ok (.dict data) ∧ data.lookup "items" = some (.list tokens) ∧
    token ∈ tokens ∧ token.get "status" = .ok status ∧ pyLower H.toText status = "active"

/-- The provider's reply, in the form that the configured endpoint gives it, says that the
mandate is live. -/
def Live (r : HttpReply) : Prop :=
  if path H "RAZORPAY_AGENTIC_VALIDATE_PATH" ≠ "" then StatesLive H r else ListsActive H r

/-- A reply of the status endpoint leaves nothing to the defaults: unless its status is live,
a key `valid` it may have is false, and without that key it names a status. -/
def Conclusive (r : HttpReply) : Prop :=
  get_config H = .ok () → path H "RAZORPAY_AGENTIC_VALIDATE_PATH" ≠ "" → r.status_code = 200 →
    ∀ data, r.json = .ok (.dict data) → StatesLive H r ∨ match data.lookup "valid" with
      | some valid => valid.truthy = false
      | none => (data.lookup "status").isSome = true

variable {H}

theorem valid_get {kvs : List (String × Json)} :
    Valid (.dict kvs) ↔ ((kvs.lookup "valid").getD .null).truthy = true := by
  constructor
  · intro h
    obtain ⟨valid, hget, htruthy⟩ := h
    obtain rfl : (kvs.lookup "valid").getD .null = valid := Except.ok.inj hget
    exact htruthy
  · intro h
    exact ⟨_, rfl, h⟩

theorem laidOver_valid (computed status : Json) (data : List (String × Json)) :
    (laidOver [("valid", computed), ("status", status)] data).lookup "valid" =
      some ((data.lookup "valid").getD computed) := rfl

/-- The verdict of the status endpoint is that of the reply's own key, if it has one. -/
theorem statusVerdict_valid {r : HttpReply} {data : List (String × Json)} (hcode : r.status_code = 200)
    (hdata : r.json = .ok (.dict data)) :
    ∃ verdict, statusVerdict H r = .ok verdict ∧ (Valid verdict ↔
      match data.lookup "valid" with
      | some valid => valid.truthy = true
      | none => pyLower H.toText ((data.lookup "status").getD (.str "active")) ∈
          ["active", "authorized", "valid"]) := by
  unfold statusVerdict
  rw [if_neg (not_not.mpr hcode), hdata]
  refine ⟨_, rfl, ?_⟩
  rw [valid_get, laidOver_valid]
  cases data.lookup "valid" with
  | some valid => exact Iff.rfl
  | none =>
    simp only [Option.getD_none, Option.getD_some, Json.truthy, decide_eq_true_eq]

theorem isActive_iff {token : Json} (hempty : H.lower "" = "") (h : isActive H token = .ok true) :
    ∃ status, token.get "status" = .ok status ∧ pyLower H.toText status = "active" := by
  cases token with
  | dict kvs =>
    have hlower : (pyLower H.toText ((kvs.lookup "status").getD (.str "")) == "active") = true :=
      Except.ok.inj h
    refine ⟨(kvs.lookup "status").getD .null, rfl, ?_⟩
    cases hlookup : kvs.lookup "status" with
    | some status =>
      rw [hlookup] at hlower
      exact eq_of_beq hlower
    | none =>
      rw [hlookup] at hlower
      have heq : H.lower "" = "active" := eq_of_beq hlower
      rw [hempty] at heq
      exact absurd heq (by decide)
  | _ => exact absurd (show Except.error PyError.attributeError = Except.ok true from h) nofun

/-- What is counted is active. -/
theorem keepActive_mem {tokens : List Json} : ∀ {active : List Json}, keepActive H tokens = .ok active →
    ∀ token ∈ active, token ∈ tokens ∧ isActive H token = .ok true := by
  induction tokens with
  | nil =>
    intro active h token htoken
    obtain rfl : [] = active := Except.ok.inj h
    exact absurd htoken List.not_mem_nil
  | cons first tokens ih =>
    intro active h token htoken
    unfold keepActive at h
    cases hfirst : isActive H first with
    | error e =>
      rw [hfirst] at h
      exact absurd h nofun
    | ok counted =>
      cases hrest : keepActive H tokens with
      | error e =>
        rw [hfirst, hrest] at h
        exact absurd h nofun
      | ok rest =>
        rw [hfirst, hrest] at h
        obtain rfl : (if counted = true then first :: rest else rest) = active := Except.ok.inj h
        have hlater : token ∈ rest → token ∈ first :: tokens ∧ isActive H token = .ok true := by
          intro hmem
          obtain ⟨hin, hactive⟩ := ih hrest token hmem
          exact ⟨List.mem_cons_of_mem _ hin, hactive⟩
        by_cases hcounted : counted = true
        · rw [if_pos hcounted] at htoken
          rcases List.mem_cons.mp htoken with heq | hmem
          · rw [heq]
            exact ⟨List.mem_cons_self, hcounted ▸ hfirst⟩
          · exact hlater hmem
        · rw [if_neg hcounted] at htoken
          exact hlater htoken

theorem activeTokens_list {tokens token : Json} {active : List Json}
    (h : activeTokens H tokens = .ok active) (htoken : token ∈ active) :
    ∃ xs, tokens = .list xs ∧ keepActive H xs = .ok active := by
  unfold activeTokens at h
  split at h
  · next xs => exact ⟨xs, rfl, h⟩
  · obtain rfl := Except.ok.inj h
    exact absurd htoken List.not_mem_nil
  · obtain rfl := Except.ok.inj h
    exact absurd htoken List.not_mem_nil
  · exact absurd h nofun
  · exact absurd h nofun
  · exact absurd h nofun

theorem tokenVerdict_valid {ref : String} {r : HttpReply} {verdict : Json} (hempty : H.lower "" = "")
    (h : tokenVerdict H ref r = .ok verdict) (hvalid : Valid verdict) : ListsActive H r := by
  unfold tokenVerdict at h
  split at h
  · exact absurd h nofun
  · exact absurd h nofun
  · next data _ hdata =>
    split at h
    · exact absurd h nofun
    · next tokens htokens =>
      split at h
      · exact absurd h nofun
      · next active hactive =>
        obtain rfl := Except.ok.inj h
        -- some token was counted
        have hsome : active.isEmpty = false := by
          have htruthy := valid_get.mp hvalid
          simpa [List.lookup_cons, Json.truthy] using htruthy
        obtain ⟨token, htoken⟩ := List.exists_mem_of_ne_nil active (List.isEmpty_eq_false_iff.mp hsome)
        cases data with
        | dict kvs =>
          obtain rfl : (kvs.lookup "items").getD (.list []) = tokens := Except.ok.inj htokens
          obtain ⟨xs, hxs, hkept⟩ := activeTokens_list hactive htoken
          obtain ⟨hmem, hlive⟩ := keepActive_mem hkept token htoken
          obtain ⟨status, hstatus, hlower⟩ := isActive_iff hempty hlive
          refine ⟨kvs, xs, token, status, hdata, ?_, hmem, hstatus, hlower⟩
          cases hitems : kvs.lookup "items" with
          | some tokens =>
            rw [hitems] at hxs
            exact congrArg some hxs
          | none =>
            rw [hitems] at hxs
            obtain rfl := Json.list.inj hxs
            exact absurd hmem List.not_mem_nil
        | _ => exact absurd htokens nofun

theorem statusVerdict_live {r : HttpReply} {verdict : Json} (h : statusVerdict H r = .ok verdict)
    (hvalid : Valid verdict) : r.status_code = 200 ∧ ∃ data, r.json = .ok (.dict data) := by
  by_cases hcode : r.status_code = 200
  · unfold statusVerdict at h
    rw [if_neg (not_not.mpr hcode)] at h
    split at h
    · exact absurd h nofun
    · next data hdata => exact ⟨hcode, data, hdata⟩
    · exact absurd h nofun
  · unfold statusVerdict at h
    rw [if_pos hcode] at h
    obtain rfl := Except.ok.inj h
    exact absurd (valid_get.mp hvalid) Bool.false_ne_true

/-- The verdict can be trusted on a reply exactly when the reply is conclusive. -/
theorem reported_live_iff (hlower : H.lower "active" = "active") (hempty : H.lower "" = "")
    (ref : String) (r : HttpReply) :
    (∀ verdict, validate_mandate H (fun _ _ => .ok r) ref = .ok verdict → Valid verdict → Live H r) ↔
      Conclusive H r := by
  unfold validate_mandate Live Conclusive
  cases hconfig : get_config H with
  | error e =>
    constructor
    · exact fun _ h => absurd h nofun
    · exact fun _ _ h => absurd h nofun
  | ok _ =>
    dsimp only
    by_cases hpath : path H "RAZORPAY_AGENTIC_VALIDATE_PATH" = ""
    · rw [if_neg (not_not.mpr hpath), if_neg (not_not.mpr hpath)]
      constructor
      · exact fun _ _ hne => absurd hpath hne
      · exact fun _ verdict h hvalid => tokenVerdict_valid hempty h hvalid
    · rw [if_pos hpath, if_pos hpath]
      constructor
      · intro h _ _ hcode data hdata
        obtain ⟨verdict, hverdict, hiff⟩ := statusVerdict_valid (H := H) hcode hdata
        have hlive := h verdict hverdict
        rw [hiff] at hlive
        cases hvalid : data.lookup "valid" with
        | some valid =>
          rw [hvalid] at hlive
          cases htruthy : valid.truthy with
          | false => exact .inr htruthy
          | true => exact .inl (hlive htruthy)
        | none =>
          rw [hvalid] at hlive
          cases hstatus : data.lookup "status" with
          | some status => exact .inr rfl
          | none =>
            -- the default status counts as live
            rw [hstatus] at hlive
            refine .inl (hlive ?_)
            show H.lower "active" ∈ _
            rw [hlower]
            exact List.mem_cons_self
      · intro h verdict hverdict hvalid
        obtain ⟨hcode, data, hdata⟩ := statusVerdict_live hverdict hvalid
        rcases h rfl hpath hcode data hdata with hlive | hreply
        · exact hlive
        · obtain ⟨verdict', hverdict', hiff⟩ := statusVerdict_valid (H := H) hcode hdata
          obtain rfl : verdict = verdict' := Except.ok.inj (hverdict.symm.trans hverdict')
          rw [hiff] at hvalid
          cases hkey : data.lookup "valid" with
          | some valid =>
            rw [hkey] at hreply hvalid
            exact absurd (hreply.symm.trans hvalid) Bool.false_ne_true
          | none =>
            rw [hkey] at hreply hvalid
            obtain ⟨status, hstatus⟩ := Option.isSome_iff_exists.mp hreply
            rw [hstatus] at hvalid
            exact ⟨hcode, data, status, hdata, hstatus, hvalid⟩

end RazorpayAgenticProvider

/-! ## The debit behind it -/

/-- The mandate a provider call debits. -/
def Op.debits : Op → Option String
  | .authorize_payment _ ref _ _ _ _ => some ref
  | _ => none

/-- The mandate that a provider call has just found valid. -/
def Call.validates (c : Call) (a : Answer) : Option String :=
  match c.op, a with
  | .validate_mandate ref, .ok verdict =>
    match verdict.get "valid" with
    | .ok valid => if valid.truthy then some ref else none
    | .error _ => none
  | _, _ => none

/-- A session debits only the mandates that it was told are valid; `none` is a session of
which nothing is asked. -/
def asking : Protocol World Stmt Call Answer (Option (List String)) where
  stmt q _ _ q' := q' = q
  call q c a q' := match q with
    | none => q' = none
    | some refs => (∀ ref, c.op.debits = some ref → ref ∈ refs) ∧
        q' = some (refs ++ (c.validates a).toList)

theorem conforms_unasked {α : Type} (p : Handler α) :
    p.Conforms asking (fun _ _ => True) none := by
  refine Prog.conforms_of_all (I := fun q => q = none) (fun q s w hq => ?_) (fun q c a hq => ?_) p rfl
  · exact ⟨q, rfl, hq⟩
  · rw [hq]
    exact ⟨none, rfl, rfl⟩

/-- Where nothing is debited, nothing need be valid. -/
theorem asking_of_calls {α : Type} {p : Handler α} : ∀ {refs : List String},
    p.Calls (fun c => c.op.debits = none) → p.Conforms asking (fun _ _ => True) (some refs) := by
  induction p with
  | ret a => exact fun _ => trivial
  | halt => exact fun _ => trivial
  | stmt s k ih => exact fun h w => ⟨_, rfl, ih w (h w)⟩
  | call c k ih =>
    intro refs h a
    refine ⟨_, ⟨fun ref href => ?_, rfl⟩, ih a (h.2 a)⟩
    rw [h.1] at href
    exact absurd href nofun

theorem debits_of_submits {op : Op} (h : op.submits = none) : op.debits = none := by
  cases op with
  | authorize_payment id ref amount currency merchant key => exact absurd h nofun
  | _ => rfl

theorem validates_eq {r : Recipient} {op : Op} {a : Answer} {ref : String}
    (h : (⟨r, op⟩ : Call).validates a = some ref) : ∃ verdict, op = .validate_mandate ref ∧
      a = .ok verdict ∧ RazorpayAgenticProvider.Valid verdict := by
  unfold Call.validates at h
  dsimp only at h
  split at h
  · next ref' verdict =>
    split at h
    · next valid hget =>
      by_cases htruthy : valid.truthy = true
      · rw [if_pos htruthy] at h
        obtain rfl := Option.some.inj h
        exact ⟨verdict, rfl, rfl, valid, hget, htruthy⟩
      · rw [if_neg htruthy] at h
        exact absurd h nofun
    · exact absurd h nofun
  · exact absurd h nofun

theorem validates_of_valid {c : Call} {ref : String} {verdict valid : Json}
    (hop : c.op = .validate_mandate ref) (hget : verdict.get "valid" = .ok valid)
    (htruthy : valid.truthy = true) : c.validates (.ok verdict) = some ref := by
  unfold Call.validates
  rw [hop]
  dsimp only
  rw [hget]
  exact if_pos htruthy

section
variable {α β : Type} {refs : List String}

theorem asking_query {f : DB → α} {k : α → Handler β}
    (h : ∀ a, (k a).Conforms asking (fun _ _ => True) (some refs)) :
    (Handler.query f >>= k).Conforms asking (fun _ _ => True) (some refs) :=
  fun w => ⟨_, rfl, h (f w.db)⟩

theorem asking_now {k : Instant → Handler β}
    (h : ∀ t, (k t).Conforms asking (fun _ _ => True) (some refs)) :
    (Handler.now >>= k).Conforms asking (fun _ _ => True) (some refs) :=
  fun w => ⟨_, rfl, h w.clock⟩

theorem asking_send {r : Recipient} {op : Op} {k : Answer → Handler β}
    (hop : ∀ ref, op.debits = some ref → ref ∈ refs)
    (h : ∀ a, (k a).Conforms asking (fun _ _ => True)
      (some (refs ++ ((⟨r, op⟩ : Call).validates a).toList))) :
    (Handler.send r op >>= k).Conforms asking (fun _ _ => True) (some refs) :=
  fun a => ⟨_, ⟨hop, rfl⟩, h a⟩

end

/-- The only debit is behind a valid verdict on its mandate. -/
theorem consume_asking (H : Host) (x : Execution) (adapter : AgenticAdapter) :
    (consume_agentic_settlement H x adapter).Conforms asking (fun _ _ => True) (some []) := by
  refine asking_now fun now => asking_query fun binding => ?_
  split
  · exact asking_of_calls (Prog.calls_bind failClosed_calls fun _ => trivial)
  · next binding =>
    refine asking_send (fun ref href => absurd href nofun) fun validation => ?_
    cases validation with
    | error e => trivial
    | ok verdict =>
      dsimp only
      split
      · next valid reason status hvalid _ _ =>
        by_cases htruthy : valid.truthy = true
        · have hnot : (!valid.truthy) ≠ true := by
            rw [htruthy]
            decide
          rw [if_neg hnot, validates_of_valid rfl hvalid htruthy]
          refine asking_send (fun ref href => ?_) fun authorized => ?_
          · rw [← Option.some.inj href]
            exact List.mem_singleton_self _
          · -- nothing more is debited
            have hcapture : ∀ ref, (capture_agentic H x adapter ref).Calls
                (fun c => c.op.debits = none) := fun ref =>
              capture_agentic_calls fun op hop => debits_of_submits hop
            split
            · trivial
            · split
              · split
                · trivial
                · exact asking_of_calls (hcapture _)
              · trivial
        · rw [Bool.not_eq_true] at htruthy
          have hnot : (!valid.truthy) = true := by
            rw [htruthy]
            rfl
          rw [if_pos hnot]
          exact asking_of_calls (Prog.calls_bind failClosed_calls fun _ => trivial)
      · trivial

/-- Session `i` sends the call, whether or not it lives to see the answer. -/
def Sends (i : Nat) (c : Call) : Event World Stmt Call Answer → Prop
  | .stmt _ _ _ => False
  | .call j c' _ _ => j = i ∧ c' = c
  | .died j waiting => j = i ∧ waiting = some c

/-- Every debit of session `i` follows a valid verdict on the mandate that it debits. -/
def DebitsTold (i : Nat) (pre : List (Event World Stmt Call Answer))
    (ev : Event World Stmt Call Answer) : Prop :=
  ∀ c ref, Sends i c ev → c.op.debits = some ref →
    ∃ c' a w, .call i c' a w ∈ pre ∧ c'.validates a = some ref

/-- What a session has been told is valid, its history tells. -/
structure MandateTold (i : Nat) (q : Nat → Option (List String)) (tr : List (Event World Stmt Call Answer)) :
    Prop where
  throughout : Pool.Throughout (DebitsTold i) tr
  told : ∃ refs, q i = some refs ∧ ∀ ref ∈ refs, ∃ c a w, .call i c a w ∈ tr ∧ c.validates a = some ref

namespace MandateTold

variable {i : Nat} {q : Nat → Option (List String)} {tr : List (Event World Stmt Call Answer)}

/-- An event that tells session `i` nothing. -/
theorem aside (h : MandateTold i q tr) {ev : Event World Stmt Call Answer} (hev : DebitsTold i tr ev) :
    MandateTold i q (tr ++ [ev]) := by
  obtain ⟨refs, hq, htold⟩ := h.told
  refine ⟨Pool.throughout_snoc h.throughout hev, refs, hq, fun ref href => ?_⟩
  obtain ⟨c, a, w, hmem, hvalid⟩ := htold ref href
  exact ⟨c, a, w, List.mem_append_left _ hmem, hvalid⟩

/-- A call the protocol allows debits only what the session was told is valid. -/
theorem debits (h : MandateTold i q tr) {c : Call} {a : Answer} {q' : Option (List String)}
    (hcall : asking.call (q i) c a q') {ref : String} (href : c.op.debits = some ref) :
    ∃ c' a w, .call i c' a w ∈ tr ∧ c'.validates a = some ref := by
  obtain ⟨refs, hq, htold⟩ := h.told
  rw [hq] at hcall
  exact htold ref (hcall.1 ref href)

theorem call (h : MandateTold i q tr) {j : Nat} {c : Call} {a : Answer} {q' : Option (List String)}
    (hcall : asking.call (q j) c a q') (w : World) :
    MandateTold i (Function.update q j q') (tr ++ [.call j c a w]) := by
  by_cases hj : i = j
  · subst hj
    have hev : DebitsTold i tr (.call i c a w) := by
      intro c' ref hsends href
      rw [← hsends.2] at href
      exact h.debits hcall href
    obtain ⟨refs, hq, htold⟩ := (h.aside hev).told
    rw [hq] at hcall
    obtain ⟨-, rfl⟩ := hcall
    refine ⟨(h.aside hev).throughout, refs ++ (c.validates a).toList, Function.update_self _ _ _,
      fun ref href => ?_⟩
    rcases List.mem_append.mp href with hold | hnew
    · exact htold ref hold
    · exact ⟨c, a, w, List.mem_append_right _ (List.mem_singleton_self _), Option.mem_toList.mp hnew⟩
  · have hev : DebitsTold i tr (.call j c a w) := fun _ _ hsends _ => absurd hsends.1.symm hj
    refine ⟨(h.aside hev).throughout, ?_⟩
    rw [Function.update_of_ne hj]
    exact (h.aside hev).told

end MandateTold

/-- However the sessions interleave. -/
theorem told_run {ps : List (Handler (Except Raised Reply))} {i : Nat} {w : World}
    {c : Pool World Stmt Call Answer (Except Raised Reply)} {H : Host} {x : Execution}
    {adapter : AgenticAdapter} (hi : ps[i]? = some (consume_agentic_settlement H x adapter))
    (h : Pool.Reach machine Pool.Free (Pool.start w ps) c) :
    Pool.Throughout (DebitsTold i) c.trace := by
  have hfollows : (Pool.start w ps).Follows asking (fun _ _ _ => True)
      (Function.update (fun _ => none) i (some [])) := by
    intro j p hp
    by_cases hj : j = i
    · subst hj
      obtain rfl : consume_agentic_settlement H x adapter = p := Option.some.inj (hi.symm.trans hp)
      rw [Function.update_self]
      exact consume_asking H x adapter
    · rw [Function.update_of_ne hj]
      exact conforms_unasked p
  obtain ⟨q, htold, -⟩ := Pool.sim (J := fun _ q tr => MandateTold i q tr)
    (fun w q tr j s q' hJ _ (hs : q' = q j) => by
      rw [hs, Function.update_eq_self]
      exact hJ.aside fun _ _ hsends _ => hsends.elim)
    (fun w q tr j c a q' hJ _ hc => hJ.call hc w)
    (fun w q tr j waiting hJ _ hwait => by
      refine ⟨q j, ?_⟩
      rw [Function.update_eq_self]
      refine hJ.aside fun c ref hsends href => ?_
      obtain ⟨rfl, hwaiting⟩ := hsends
      obtain ⟨q', hq'⟩ := hwait c hwaiting (.ok .null)
      exact hJ.debits hq' href)
    (fun _ _ _ _ hJ => hJ)
    ⟨Pool.throughout_nil, [], Function.update_self _ _ _, fun _ href => absurd href List.not_mem_nil⟩
    hfollows h
  exact htold.throughout

open RazorpayAgenticProvider in
/-- **A mandate is debited only when its provider says that it is live.** The verdict on a
reply can be trusted exactly when the reply is conclusive; and each debit of a mandate, in any
run, follows a verdict on it that, if it is given on a conclusive reply, comes from a reply
that says the mandate is live. -/
theorem mandate_validation_iff {H : Host} (hlower : H.lower "active" = "active")
    (hempty : H.lower "" = "") :
    (∀ ref r, (∀ verdict, validate_mandate H (fun _ _ => .ok r) ref = .ok verdict → Valid verdict →
      Live H r) ↔ Conclusive H r) ∧
    ∀ ps i w x adapter c, ps[i]? = some (consume_agentic_settlement H x adapter) →
      Pool.Reach machine Pool.Free (Pool.start w ps) c →
        Pool.Throughout (fun pre ev => ∀ cl ref, Sends i cl ev → cl.op.debits = some ref →
          ∃ r verdict w, .call i ⟨r, .validate_mandate ref⟩ (.ok verdict) w ∈ pre ∧ Valid verdict ∧
            ∀ reply, validate_mandate H (fun _ _ => .ok reply) ref = .ok verdict →
              Conclusive H reply → Live H reply) c.trace := by
  refine ⟨reported_live_iff hlower hempty, fun ps i w x adapter c hi h => ?_⟩
  intro pre ev post htr cl ref hsends href
  obtain ⟨⟨r, op⟩, a, w', hmem, hvalid⟩ := told_run hi h pre ev post htr cl ref hsends href
  obtain ⟨verdict, hop, rfl, hverdict⟩ := validates_eq hvalid
  obtain rfl : op = .validate_mandate ref := hop
  refine ⟨r, verdict, w', hmem, hverdict, fun reply hreply hconclusive => ?_⟩
  exact (reported_live_iff hlower hempty ref reply).mpr hconclusive verdict hreply hverdict

namespace Sample

/-- A host with the agentic contract of the provider and its status endpoint configured. -/
def contractHost : Host :=
  { host false [] with
    environ := fun name => some (if name = "RAZORPAY_AGENTIC_CAPABILITY_CONFIRMED" then "1" else "/path") }

/-- An answer with status 200 and this body. -/
def statusReply (data : List (String × Json)) : HttpReply := ⟨200, "", .ok (.dict data), ""⟩

/-- What the adapter makes of an empty object. -/
def emptyVerdict : Json := .dict [("valid", .bool true), ("status", .str "active")]

end Sample

open RazorpayAgenticProvider in
/-- A status that is not live is never taken for one. -/
theorem mandate_validation_expired :
    (∃ verdict, validate_mandate Sample.contractHost
      (fun _ _ => .ok (Sample.statusReply [("status", .str "expired")])) "ref" = .ok verdict) ∧
    ∀ verdict, validate_mandate Sample.contractHost
        (fun _ _ => .ok (Sample.statusReply [("status", .str "expired")])) "ref" = .ok verdict →
      Valid verdict → Live Sample.contractHost (Sample.statusReply [("status", .str "expired")]) := by
  refine ⟨⟨_, rfl⟩, ?_⟩
  have hiff := (mandate_validation_iff (H := Sample.contractHost) rfl rfl).1 "ref"
    (Sample.statusReply [("status", .str "expired")])
  refine hiff.mpr fun _ _ _ data hdata => .inr ?_
  obtain rfl : [("status", .str "expired")] = data := Json.dict.inj (Except.ok.inj hdata)
  rfl

open RazorpayAgenticProvider in
/-- A reply that says nothing counts as a live mandate, and the debit is sent. -/
theorem mandate_validation_empty :
    validate_mandate Sample.contractHost (fun _ _ => .ok (Sample.statusReply [])) "ref" =
      .ok Sample.emptyVerdict ∧
    Valid Sample.emptyVerdict ∧ ¬Live Sample.contractHost (Sample.statusReply []) ∧
    ((consume_agentic_settlement Sample.contractHost Sample.execution ⟨true, none⟩).eval
      (World.exec 0) [.ok Sample.emptyVerdict, .ok (.dict [])] Sample.mandatedWorld).calls.any
        (fun ca => ca.1.op.debits.isSome) = true := by
  refine ⟨rfl, ⟨.bool true, rfl, rfl⟩, fun h => ?_, by decide +kernel⟩
  have hlive : StatesLive Sample.contractHost (Sample.statusReply []) := h
  obtain ⟨-, data, status, hdata, hstatus, -⟩ := hlive
  obtain rfl : [] = data := Json.dict.inj (Except.ok.inj hdata)
  exact absurd hstatus nofun

end Paari
