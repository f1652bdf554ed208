import Paari.Simulated
import Paari.SingleUse
import Paari.Wire
import Paari.Lib.Within

/-!
# The service on the wire

Every provider call of the service is carried out by an adapter: one request of the order-based
account, or the requests of the agentic adapter, which look before they move money. Interleaved,
the requests of all handlers mix. `Pool.within_refines` takes what was proved of the calls down to
the requests: over every run, and for whatever Razorpay replies, one authorization leads to at most
one request that creates a payment (`single_request`), and a transaction is `PAID` only on a reply
of success to a request for its payment (`paid_on_wire`).
-/

namespace Paari

open Atomic

/-- How a provider call is carried out. -/
def wire (H : Host) (format : String → String × String → Except PyError String) (c : Call) :
    Wire Answer :=
  match c.recipient with
  | .razorpay _ key_id => RazorpayAdapter.perform key_id c.op
  | .agentic _ => RazorpayAgenticProvider.perform H format c.op

/-- The text under a key. -/
def textAt (kvs : List (String × Json)) (key : String) : Option String :=
  (kvs.lookup key).bind Json.asStr?

/-- The authorization that a request creates a payment for: the receipt of an order, or the note of
a debit. -/
def HttpRequest.submits (r : HttpRequest) : Option String :=
  match r.method, r.json with
  | .post, some (.dict kvs) =>
    (textAt kvs "receipt").or ((kvs.lookup "notes").bind fun notes =>
      match notes with
      | .dict kvs => textAt kvs "paari_authorization_id"
      | _ => none)
  | _, _ => none

variable {H : Host} {format : String → String × String → Except PyError String}

/-! ## Operations are only requests -/

section
variable {α β : Type}

theorem Wire.remote_attempt {x : Except Exc α} {k : α → Wire (Except Exc β)} (hk : ∀ a, (k a).Remote) :
    (Wire.attempt x k).Remote := by
  cases x with
  | error e => trivial
  | ok a => exact hk a

theorem Wire.remote_ask {r : HttpRequest} {k : HttpReply → Wire (Except Exc β)} (hk : ∀ a, (k a).Remote) :
    (Wire.ask r k).Remote := fun _ => Wire.remote_attempt hk

theorem Wire.calls_attempt {P : HttpRequest → Prop} {x : Except Exc α} {k : α → Wire (Except Exc β)}
    (hk : ∀ a, x = .ok a → (k a).Calls P) : (Wire.attempt x k).Calls P := by
  cases x with
  | error e => trivial
  | ok a => exact hk a rfl

theorem Wire.calls_ask {P : HttpRequest → Prop} {r : HttpRequest} {k : HttpReply → Wire (Except Exc β)}
    (hr : P r) (hk : ∀ a, (k a).Calls P) : (Wire.ask r k).Calls P :=
  ⟨hr, fun _ => Wire.calls_attempt fun a _ => hk a⟩

end

open RazorpayAgenticProvider in
theorem wire_remote (c : Call) : (wire H format c).Remote := by
  have hread : ∀ ref, (get_payment H format ref).Remote := fun ref =>
    Wire.remote_attempt fun _ => Wire.remote_attempt fun _ => Wire.remote_ask fun _ => trivial
  unfold wire
  split
  · unfold RazorpayAdapter.perform
    split
    · trivial
    · exact Wire.remote_ask fun _ => trivial
  · unfold RazorpayAgenticProvider.perform
    split
    · refine Wire.remote_attempt fun _ => ?_
      split
      · exact Wire.remote_attempt fun _ => Wire.remote_ask fun _ => trivial
      · exact Wire.remote_attempt fun _ => Wire.remote_ask fun _ => trivial
    · unfold authorize_payment
      split
      · trivial
      refine Wire.remote_attempt fun _ => ?_
      unfold withToken
      split
      · exact Wire.remote_attempt fun _ => Wire.remote_ask fun _ => trivial
      · exact Wire.remote_attempt fun _ => Wire.remote_ask fun _ => Wire.remote_attempt fun _ =>
          Wire.remote_attempt fun _ => Wire.remote_ask fun _ => trivial
    · refine Wire.remote_attempt fun _ => Prog.remote_bind (hread _) fun payment => ?_
      refine Wire.remote_attempt fun _ => ?_
      unfold capture_read
      refine Wire.remote_attempt fun _ => ?_
      split
      · trivial
      split
      · refine Wire.remote_attempt fun _ => ?_
        dsimp only
        split <;> trivial
      · exact Wire.remote_attempt fun _ => Wire.remote_ask fun _ => trivial
    · exact hread _
    · trivial

/-! ## What an operation submits -/

theorem submits_get {r : HttpRequest} (h : r.method ≠ .post) : r.submits = none := by
  unfold HttpRequest.submits
  cases hm : r.method with
  | post => exact absurd hm h
  | _ => rfl

open RazorpayAgenticProvider in
/-- A debit request is for its authorization. -/
theorem asks_submits {d : Debit} {token_id : Json} {r : HttpRequest} (h : d.Asks H token_id r)
    (hpost : r.method = .post) : r.submits = some d.authorization_id := by
  obtain ⟨payload, hjson, hpayload, -⟩ := h.payload
  unfold HttpRequest.submits
  rw [hpost, hjson]
  unfold Debit.payload at hpayload
  split at hpayload
  · obtain rfl := Except.ok.inj hpayload
    rfl
  · split at hpayload
    · cases hpayload
    · obtain rfl := Except.ok.inj hpayload
      rfl

/-- The request is for the payment of the authorization. -/
def submitsFor (id : String) (d : HttpRequest × Option Heard) : Bool := d.1.submits == some id

/-- How often a conversation submits the authorization: at most once, and for a call that does. -/
def Single (op : Op) (calls : List (HttpRequest × Option Heard)) : Prop :=
  ∀ id, calls.countP (submitsFor id) ≤ if op.submits == some id then 1 else 0

/-- Where no request submits anything, there is nothing to count. -/
theorem single_of_calls {op : Op} {exec : Stmt → World → World} {st : World} {p : Wire Answer}
    (hp : p.Calls fun r => r.submits = none) :
    p.Wp exec (fun _ calls _ => Single op calls) [] st := by
  refine Prog.wp_mono ?_ (Prog.wp_of_calls hp)
  rintro _ calls _ ⟨more, hcalls, hmore⟩ id
  rw [hcalls, List.nil_append, List.countP_eq_zero.mpr]
  · exact Nat.zero_le _
  · intro d hd
    simp [submitsFor, hmore d hd]

theorem single_one {op : Op} {id : String} {r : HttpRequest} {heard : Option Heard}
    (hop : op.submits = some id) (hr : r.submits = some id) : Single op [(r, heard)] := by
  intro id'
  rw [hop, List.countP_singleton]
  unfold submitsFor
  rw [hr]

open RazorpayAgenticProvider in
theorem single_of_careful {d : Debit} {op : Op} {calls : List (HttpRequest × Option Heard)}
    {result : Option Answer} (hop : op.submits = some d.authorization_id)
    (h : d.Careful H format calls result) : Single op calls := by
  intro id
  by_cases hany : ∃ c ∈ calls, submitsFor id c = true
  · obtain ⟨c, hc, hfor⟩ := hany
    have hsub : c.1.submits = some id := eq_of_beq hfor
    have hpost : c.1.method = .post := by
      by_contra hne
      rw [submits_get hne] at hsub
      cases hsub
    obtain ⟨before, after, rfl⟩ := List.append_of_mem hc
    obtain ⟨rfl, hbefore, token_id, hasks, -⟩ := h.debits before c after rfl hpost
    have hid := (asks_submits hasks hpost).symm.trans hsub
    -- nothing before the debit submits
    have hzero : before.countP (submitsFor id) = 0 := List.countP_eq_zero.mpr fun b hb => by
      simp [submitsFor, submits_get (hbefore b hb)]
    rw [hop, hid, List.countP_append, hzero, List.countP_singleton, hfor]
    simp
  · have hzero : calls.countP (submitsFor id) = 0 :=
      List.countP_eq_zero.mpr fun c hc hfor => hany ⟨c, hc, hfor⟩
    rw [hzero]
    exact Nat.zero_le _

open RazorpayAgenticProvider in
theorem wire_single (c : Call) (exec : Stmt → World → World) (st : World) :
    (wire H format c).Wp exec (fun _ calls _ => Single c.op calls) [] st := by
  have hget : ∀ url, (request H .get url).submits = none := fun url =>
    submits_get fun h => by cases h
  have hread : ∀ ref, (get_payment H format ref).Calls fun r => r.submits = none := fun ref =>
    Wire.calls_attempt fun _ _ => Wire.calls_attempt fun url _ => Wire.calls_ask (hget url) fun _ => trivial
  have hlisting : ∀ {ref : String} {r : HttpRequest}, listing H format ref = .ok r → r.submits = none :=
    fun h => submits_get fun hpost => by rw [listing_get h] at hpost; cases hpost
  obtain ⟨recipient, op⟩ := c
  cases recipient with
  | razorpay org key_id =>
    show (RazorpayAdapter.perform key_id op).Wp _ _ _ _
    cases op with
    | create_payment id amount currency notes =>
      have hone : ∀ heard : Option Heard, Single (.create_payment id amount currency notes)
          [((RazorpayAdapter.toRequest key_id (.create_payment id amount currency notes)).get rfl, heard)] :=
        fun heard => single_one rfl rfl
      exact Wire.wp_ask (hone _) (fun _ => hone _) fun _ => hone _
    | get_payment payment_id =>
      exact single_of_calls (Wire.calls_ask (submits_get fun h => by cases h) fun _ => trivial)
    | fetch_payments order_id =>
      exact single_of_calls (Wire.calls_ask (submits_get fun h => by cases h) fun _ => trivial)
    | fetch_order_by_receipt receipt =>
      exact single_of_calls (Wire.calls_ask (submits_get fun h => by cases h) fun _ => trivial)
    | refund payment_id amount =>
      exact single_of_calls (Wire.calls_ask rfl fun _ => trivial)
    | _ => exact single_of_calls trivial
  | agentic org =>
    show (RazorpayAgenticProvider.perform H format op).Wp _ _ _ _
    cases op with
    | validate_mandate ref =>
      refine single_of_calls (Wire.calls_attempt fun _ _ => ?_)
      split
      · exact Wire.calls_attempt fun url _ => Wire.calls_ask (hget url) fun _ => trivial
      · exact Wire.calls_attempt fun r hr => Wire.calls_ask (hlisting hr) fun _ => trivial
    | authorize_payment id ref amount currency merchant key =>
      refine Prog.wp_mono ?_ (authorize_payment_wp ⟨id, ref, amount, currency, merchant, key⟩ exec st)
      intro _ calls result h
      exact single_of_careful rfl h
    | capture_payment ref amount currency key =>
      refine single_of_calls (Wire.calls_attempt fun _ _ => ?_)
      refine Prog.calls_bind (hread ref) fun payment => Wire.calls_attempt fun payment _ => ?_
      unfold capture_read
      refine Wire.calls_attempt fun _ _ => ?_
      split
      · trivial
      split
      · refine Wire.calls_attempt fun _ _ => ?_
        dsimp only
        split <;> trivial
      · exact Wire.calls_attempt fun _ _ => Wire.calls_ask rfl fun _ => trivial
    | agentic_get_payment ref => exact single_of_calls (hread ref)
    | _ => exact single_of_calls trivial

/-- The conversation of a call submits an authorization at most once, and only if the call does. -/
theorem told_single {ca : Call × Option Answer} {cs : List (HttpRequest × Option Heard)} (st : World)
    (h : Told (wire H format) ca cs) (id : String) :
    cs.countP (submitsFor id) ≤ if ca.1.op.submits == some id then 1 else 0 := by
  obtain ⟨replies, htold⟩ := h
  obtain ⟨hcalls, -⟩ := htold (World.exec 0) st
  rw [← hcalls]
  exact Prog.eval_spec (Q := fun _ calls _ => Single ca.1.op calls) replies
    (wire_single ca.1 (World.exec 0) st) id

/-! ## Every run -/

/-- The calls of a handler that submit the authorization are those the history counts. -/
theorem countP_requests (id : String) (i : Nat) (tr : List (Event World Stmt Call Answer)) :
    (Pool.requests i tr).countP (fun ca => ca.1.op.submits == some id) = (submitters id tr).count i := by
  have hcall : ∀ (c : Call) (a : Option Answer) (j : Nat) (rest : List (Call × Option Answer))
      (subs : List Nat), rest.countP (fun ca => ca.1.op.submits == some id) = subs.count i →
      (if j = i then (c, a) :: rest else rest).countP (fun ca => ca.1.op.submits == some id) =
        (if c.op.submits = some id then j :: subs else subs).count i := by
    intro c a j rest subs ih
    by_cases hj : j = i
    · by_cases hc : c.op.submits = some id
      · simp [hj, hc, ih]
      · simp [hj, hc, ih]
    · by_cases hc : c.op.submits = some id
      · simp [hj, hc, ih]
      · simp [hj, hc, ih]
  induction tr with
  | nil => rfl
  | cons ev tr ih =>
    cases ev with
    | stmt j s st => exact ih
    | call j c a st =>
      have := hcall c (some a) j _ _ ih
      unfold Pool.requests submitters at this ⊢
      rw [List.filterMap_cons, List.filterMap_cons]
      by_cases hj : j = i
      · by_cases hc : c.op.submits = some id
        · simpa [submitter, hj, hc] using this
        · simpa [submitter, hj, hc] using this
      · by_cases hc : c.op.submits = some id
        · simpa [submitter, hj, hc] using this
        · simpa [submitter, hj, hc] using this
    | died j w =>
      cases w with
      | none => exact ih
      | some c =>
        have := hcall c none j _ _ ih
        unfold Pool.requests submitters at this ⊢
        rw [List.filterMap_cons, List.filterMap_cons]
        by_cases hj : j = i
        · by_cases hc : c.op.submits = some id
          · simpa [submitter, hj, hc] using this
          · simpa [submitter, hj, hc] using this
        · by_cases hc : c.op.submits = some id
          · simpa [submitter, hj, hc] using this
          · simpa [submitter, hj, hc] using this

/-- The service with every call carried out on the wire. -/
def wired (H : Host) (format : String → String × String → Except PyError String) (r : Request) :
    Wire Reply := (handler H r).within (wire H format)

namespace Sample

/-- The host that names the agentic adapter of Razorpay for every organization. -/
def settlingHost : Host :=
  { wireHost "razorpay_recurring_token" "/customers/{customer_id}/tokens" with
    environ := fun name =>
      if RazorpayAdapter.startsWith name "PAARI_AGENTIC_PROVIDER" then
        some "app.providers.razorpay_agentic:RazorpayAgenticProvider"
      else (wireHost "razorpay_recurring_token" "/customers/{customer_id}/tokens").environ name
    import_adapter := fun _ _ => some ⟨true, some ⟨some "test", none, some (some "base")⟩⟩ }

def replied (kvs : List (String × Json)) : Heard := .ok ⟨200, "", .ok (.dict kvs), ""⟩

/-- What a consumption hears: its token, that the debit was created, and that it was captured. -/
def settling : List Heard :=
  List.replicate 21 (.ok RazorpayAgenticProvider.oneToken) ++
  List.replicate 4 (replied [("id", .str "pay"), ("status", .str "created")]) ++
  List.replicate 3 (replied [("id", .str "pay"), ("status", .str "captured"), ("amount", .int 100),
    ("currency", .str "INR")])

def settlementStart : Pool World Stmt HttpRequest Heard Reply :=
  Pool.start mandatedWorld ([.consume ctx "auth" "agent"].map (wired settlingHost fill))

/-- The consumption, about to commit. -/
def settlement : Pool World Stmt HttpRequest Heard Reply :=
  settlementStart.run machine (settling.map (.run 0))

theorem settlement_reach : Pool.Reach machine Pool.Free settlementStart settlement :=
  Pool.reach_run _ _ _ _ .start

end Sample

/-! ## `PAID`, on the wire -/

/-- The call is that one request, and answers what its reply says. -/
def Call.Is (H : Host) (format : String → String × String → Except PyError String) (c : Call)
    (r : HttpRequest) : Prop := wire H format c = Wire.ask r fun reply => .ret reply.body

/-- The handler `i` has got a reply of success to a `GET` for the payment of the transaction it is
writing, and the record in it is one that the code accepts for an authorization in `as`. -/
def ReadOnWire (H : Host) (format : String → String × String → Except PyError String)
    (as : List BoundedAuthorization) (tr : List (Event World Stmt HttpRequest Heard)) (i : Nat)
    (ws : List Write) (id : String) : Prop :=
  ∃ (l c : ProviderTransaction) (r : HttpRequest) (reply : HttpReply) (data : Json) (call : Call)
    (record : Json), ∃ auth ∈ as,
    .updateTxn l c ∈ ws ∧ l.authorization_id = id ∧ auth.authorization_id = id ∧ c.state = .PAID ∧
    (i, r, .ok reply) ∈ Pool.calls tr ∧ r.method = .get ∧ call.Is H format r ∧ call.op.reads l c ∧
    (200 ≤ reply.status_code ∧ reply.status_code ≤ 299) ∧ reply.body = .ok data ∧
    call.op.record (.ok data) = some record ∧ call.op.accepts H auth record

/-- A conversation that comes to the answer of one request is that request, with its reply. -/
theorem told_ask {call : Call} {r : HttpRequest} {data : Json} {cs : List (HttpRequest × Option Heard)}
    (his : call.Is H format r) (st : World) (h : Told (wire H format) (call, some (.ok data)) cs) :
    ∃ reply, cs = [(r, some (.ok reply))] ∧ reply.body = .ok data := by
  obtain ⟨replies, htold⟩ := h
  obtain ⟨hcalls, hvalue⟩ := htold (World.exec 0) st
  rw [his] at hcalls hvalue
  cases replies with
  | nil => cases hvalue
  | cons heard rest =>
    cases heard with
    | error e => cases hvalue
    | ok reply => exact ⟨reply, hcalls.symm, Option.some.inj hvalue⟩

/-- Only an answer shows a record. -/
theorem answered_of_record {op : Op} {answer : Answer} {record : Json}
    (h : op.record answer = some record) : ∃ data, answer = .ok data := by
  cases answer with
  | ok data => exact ⟨data, rfl⟩
  | error e => cases op <;> cases h

/-- A read that was answered is one `GET`. -/
theorem told_read {call : Call} {l c : ProviderTransaction} {data : Json}
    {cs : List (HttpRequest × Option Heard)} (hreads : call.op.reads l c) (st : World)
    (h : Told (wire H format) (call, some (.ok data)) cs) :
    ∃ r, r.method = .get ∧ call.Is H format r := by
  obtain ⟨recipient, op⟩ := call
  obtain ⟨replies, htold⟩ := h
  obtain ⟨-, hvalue⟩ := htold (World.exec 0) st
  -- an operation of the other adapter answers nothing
  have hmissing : ∀ {c : Call}, wire H format c = .ret (.error (.python .attributeError)) →
      ((wire H format c).eval (World.exec 0) replies st).value ≠ some (.ok data) := by
    intro c hc heq
    rw [hc] at heq
    cases heq
  cases recipient with
  | razorpay org key_id =>
    cases op with
    | get_payment payment_id => exact ⟨_, rfl, rfl⟩
    | fetch_payments order_id => exact ⟨_, rfl, rfl⟩
    | agentic_get_payment ref => exact absurd hvalue (hmissing rfl)
    | _ => exact hreads.elim
  | agentic org =>
    cases op with
    | get_payment payment_id => exact absurd hvalue (hmissing rfl)
    | fetch_payments order_id => exact absurd hvalue (hmissing rfl)
    | agentic_get_payment ref =>
      have hw : wire H format ⟨.agentic org, .agentic_get_payment ref⟩ =
          RazorpayAgenticProvider.get_payment H format ref := rfl
      unfold Call.Is
      dsimp only at hvalue
      rw [hw] at hvalue ⊢
      unfold RazorpayAgenticProvider.get_payment at hvalue ⊢
      cases hconf : RazorpayAgenticProvider.get_config H with
      | error e =>
        rw [hconf] at hvalue
        cases hvalue
      | ok config =>
        cases hurl : RazorpayAgenticProvider.expand H format
            (RazorpayAgenticProvider.path H "RAZORPAY_AGENTIC_PAYMENT_PATH")
            ("payment_id", pyStr H.toText ref) with
        | error e =>
          rw [hconf, hurl] at hvalue
          cases hvalue
        | ok url => exact ⟨RazorpayAgenticProvider.request H .get url, rfl, rfl⟩
    | _ => exact hreads.elim

/-- **`PAID` on the wire.** In every run of settlement requests whose calls are carried out on the
wire, in any order of steps, whatever is replied and whoever dies, a move that makes a transaction
`PAID` is the commit of a handler that has got a reply of success to its `GET` for that payment,
with a record that the code accepts for the authorization. -/
theorem paid_on_wire {reqs : List Request} (hreqs : ∀ r ∈ reqs, r.settles = true) {w : World}
    {l : Pool World Stmt HttpRequest Heard Reply}
    (h : Pool.Reach machine Pool.Free (Pool.start w (reqs.map (wired H format))) l)
    (m : Move Heard Nat) {id : String} (hpaid : EntersPaid id l.store.db (l.step machine m).store.db) :
    ∃ i b ws k, m = .run i b ∧ l.threads[i]? = some (.stmt (.commit ws) k) ∧
      ReadOnWire H format w.db.authorizations l.trace i ws id := by
  have hstart : reqs.map (wired H format) = (reqs.map (handler H)).map (Prog.within (wire H format)) := by
    rw [List.map_map]
    rfl
  rw [hstart] at h
  have : Inhabited Answer := ⟨.ok .null⟩
  obtain ⟨u, hu, href⟩ := Pool.reach_refines wire_remote h
  rcases Pool.step_store (M := machine) l m with hst | ⟨i, b, s, k, rfl, hi, hst⟩ | ⟨i, _, hst⟩ |
    ⟨d, _, hst⟩
  · exact absurd hpaid (not_entersPaid_of_txns (by rw [hst]))
  · -- the statement is the one above, and has the same effect there
    obtain ⟨k', hk'⟩ := (href.at_ i).stmt wire_remote hi
    have habove : (u.step machine (.run i (.ok .null))).store = (l.step machine (.run i b)).store := by
      rw [hst, href.store]
      simp [Pool.step, hk']
    rw [← habove, href.store] at hpaid
    obtain ⟨j, a, ws, k'', hm, hj, t, c, call, answer, record, auth, hauth, hmem, hl, hid, hc, hcall,
      hreads, hrec, hacc⟩ := paid_read hreqs hu hpaid
    obtain ⟨rfl, rfl⟩ := Move.run.inj hm
    obtain rfl : Stmt.commit ws = s := (Prog.stmt.inj (Option.some.inj (hj.symm.trans hk'))).1
    obtain ⟨data, rfl⟩ := answered_of_record hrec
    -- the conversation of that read is among what the handler has asked
    obtain ⟨css, htold, hflat⟩ := (href.at_ i).asked wire_remote
    obtain ⟨cs, hcs, hconv⟩ := Pool.told_of_mem htold (Pool.mem_asked.mpr hcall)
    obtain ⟨r, hget, his⟩ := told_read hreads w hconv
    obtain ⟨reply, rfl, hbody⟩ := told_ask his w hconv
    have hheard : (i, r, .ok reply) ∈ Pool.calls l.trace := by
      rw [← Pool.mem_asked, hflat]
      exact List.mem_flatten.mpr ⟨_, hcs, List.mem_singleton_self _⟩
    exact ⟨i, b, ws, k, rfl, hi, t, c, r, reply, data, call, record, auth, hauth, hmem, hl, hid, hc,
      hheard, hget, his, hreads, RazorpayAgenticProvider.body_ok hbody, hbody, hrec, hacc⟩
  · exact absurd hpaid (not_entersPaid_of_txns (by rw [hst]; exact rollback_txns i l.store))
  · exact absurd hpaid (not_entersPaid_of_txns (by rw [hst]; rfl))

/-- The commit of the settlement is of that kind. -/
theorem paid_on_wire_settled : ∃ i b ws k,
    (Move.run 0 (.ok RazorpayAgenticProvider.oneToken) : Move Heard Nat) = .run i b ∧
      Sample.settlement.threads[i]? = some (.stmt (.commit ws) k) ∧
      ReadOnWire Sample.settlingHost Sample.fill [Sample.mandated] Sample.settlement.trace i ws "auth" := by
  have hpaid : EntersPaid "auth" Sample.settlement.store.db
      (Sample.settlement.step machine (.run 0 (.ok RazorpayAgenticProvider.oneToken))).store.db := by
    unfold EntersPaid
    decide +kernel
  exact paid_on_wire (by decide) Sample.settlement_reach _ hpaid

end Paari
