import Paari.Custody
import Paari.Lib.Past
import Paari.Lifecycle

/-!
# What an agentic debit is drawn on

An execution through the agentic adapter debits an instrument that was bound to the
mandate of its authorization. The row is chosen once, among the live bindings of the
mandate, and nothing of it is compared with the debit afterwards: its status and its
currency are right because no handler ever changes a binding and `bind_provider_mandate`
compares the currency with the mandate's, as the re-check before an execution does. The
provider, the cap and the expiry are right where every row the choice is made from has
them right (`debit_within_instrument`).
-/

namespace Paari

open Atomic

/-! ## Instruments -/

/-- The row is among those `_active_provider_binding` selects from. -/
structure PaymentInstrumentBinding.Selectable (auth : BoundedAuthorization) (now : Instant)
    (b : PaymentInstrumentBinding) : Prop where
  mandate : some b.mandate_id = auth.mandate_id
  org : b.org_id = auth.org_id
  active : b.status = "active"
  live : ∀ e, b.expires_at = some e → now < e

/-- A debit of the amount through the provider stays within the instrument, at this instant. -/
structure PaymentInstrumentBinding.Covers (provider : String) (now : Instant) (amount : Int)
    (b : PaymentInstrumentBinding) : Prop where
  provider : b.provider = provider
  cap : amount ≤ b.max_amount_minor_units
  unexpired : ∀ e, b.expires_at = some e → now < e

/-- And the instrument is active, and in the currency of the debit. -/
structure PaymentInstrumentBinding.Bounds (H : Host) (provider : String) (now : Instant)
    (amount : Int) (currency : String) (b : PaymentInstrumentBinding) : Prop extends
    b.Covers provider now amount where
  active : b.status = "active"
  currency : b.currency = H.upper currency

/-- Handler `i` has the adapter of the organization authorize a debit. -/
def Debiting (c : Pool World Stmt Call Answer Reply) (i : Nat) (org authorization_id ref : String)
    (amount : Int) (currency : String) : Prop :=
  ∃ p merchant key, c.threads[i]? = some p ∧ p.waiting = some ⟨.agentic org,
    .authorize_payment authorization_id ref amount currency merchant key⟩

/-- In every state of every run each debit is drawn on an instrument that bounds it. `provider`
names the provider behind the adapter an organization is configured with. -/
def DebitsBounded (H : Host) (provider : String → String) (reqs : List Request) (w : World) : Prop :=
  ∀ c, Pool.Reach machine Pool.Free (Pool.start w (reqs.map (handler H))) c →
    ∀ i org id ref amount currency, Debiting c i org id ref amount currency →
      ∃ b ∈ c.store.db.bindings, b.provider_mandate_ref = ref ∧
        b.Bounds H (provider (resolve_agentic_spec H org)) c.store.clock amount currency

section
variable {db db' : DB} {auth : BoundedAuthorization} {now : Instant} {b : PaymentInstrumentBinding}

theorem active_provider_binding_some (h : active_provider_binding db auth now = some b) :
    present auth.mandate_id = true ∧ b ∈ db.bindings ∧ b.Selectable auth now := by
  unfold active_provider_binding at h
  cases hpresent : present auth.mandate_id with
  | false =>
    rw [hpresent] at h
    exact absurd h (by simp)
  | true =>
    rw [hpresent] at h
    have hfind : (db.bindings.find? fun b =>
        some b.mandate_id == auth.mandate_id && b.org_id == auth.org_id && b.status == "active" &&
          b.expires_at.all fun e => now < e) = some b := h
    have hkeep := List.find?_some hfind
    rw [Bool.and_eq_true, Bool.and_eq_true, Bool.and_eq_true, beq_iff_eq, beq_iff_eq,
      beq_iff_eq] at hkeep
    obtain ⟨⟨⟨hmandate, horg⟩, hactive⟩, hlive⟩ := hkeep
    refine ⟨rfl, List.mem_of_find?_eq_some hfind, hmandate, horg, hactive, ?_⟩
    intro e he
    rw [he] at hlive
    exact of_decide_eq_true hlive

/-- The mandates' ids, each with its currency. -/
def DB.currencies (db : DB) : List (String × String) :=
  db.mandates.map fun m => (m.mandate_id, m.currency)

theorem mem_currencies {m : UserPaymentMandate} (h : m ∈ db.mandates) :
    (m.mandate_id, m.currency) ∈ db.currencies :=
  List.mem_map_of_mem h

/-- What a write does to the mandates' currencies and to the bindings. -/
theorem apply_instruments {x : Write} (h : db.apply x = some db') :
    (∃ m, x = .insertMandate m ∧ db'.bindings = db.bindings ∧
      db'.currencies = db.currencies ++ [(m.mandate_id, m.currency)] ∧
      ∀ k ∈ db.currencies, k.1 ≠ m.mandate_id) ∨
    (∃ b, x = .insertBinding b ∧ db'.bindings = db.bindings ++ [b] ∧ db'.currencies = db.currencies) ∨
    ((∀ b, x ≠ .insertBinding b) ∧ db'.bindings = db.bindings ∧ db'.currencies = db.currencies) := by
  cases x with
  | insertMandate m =>
    obtain ⟨rows, hrows, heq⟩ := Option.bind_eq_some_iff.mp h
    obtain ⟨rfl, hclash⟩ := insertUnique_eq hrows
    obtain rfl := Option.some.inj heq
    refine .inl ⟨m, rfl, rfl, by simp [DB.currencies], ?_⟩
    intro k hk heq
    obtain ⟨m', hm', rfl⟩ := List.mem_map.mp hk
    exact beq_eq_false_iff_ne.mp (hclash m' hm') heq
  | insertBinding b =>
    obtain ⟨rows, hrows, heq⟩ := Option.bind_eq_some_iff.mp h
    obtain ⟨rfl, -⟩ := insertUnique_eq hrows
    obtain rfl := Option.some.inj heq
    exact .inr (.inl ⟨b, rfl, rfl, rfl⟩)
  | setMandateStatus id status t =>
    obtain rfl := Option.some.inj h
    refine .inr (.inr ⟨by simp, rfl, ?_⟩)
    exact map_updateWhere (fun _ => by rfl) _
  | updateTxn l c =>
    simp only [DB.apply] at h
    split at h
    · exact absurd h (by simp)
    obtain rfl := Option.some.inj h
    exact .inr (.inr ⟨by simp, rfl, rfl⟩)
  | _ =>
    -- a write to another table
    refine .inr (.inr ⟨by simp, ?_⟩)
    first
      | rw [← Option.some.inj h]; exact ⟨rfl, rfl⟩
      | obtain ⟨_, _, hrows⟩ := Option.bind_eq_some_iff.mp h
        rw [← Option.some.inj hrows]
        exact ⟨rfl, rfl⟩

/-- A later state of the same tables: mandates keep their currency, bindings their row. -/
structure DB.Extends (db db' : DB) : Prop where
  bindings : ∀ b ∈ db.bindings, b ∈ db'.bindings
  currencies : ∀ k ∈ db.currencies, k ∈ db'.currencies

theorem DB.Extends.refl (db : DB) : db.Extends db := ⟨fun _ => id, fun _ => id⟩

theorem DB.Extends.trans {db'' : DB} (h : db.Extends db') (h' : db'.Extends db'') : db.Extends db'' :=
  ⟨fun b hb => h'.bindings b (h.bindings b hb), fun k hk => h'.currencies k (h.currencies k hk)⟩

theorem apply_extends {x : Write} (h : db.apply x = some db') : db.Extends db' := by
  rcases apply_instruments h with ⟨m, -, hb, hc, -⟩ | ⟨b, -, hb, hc⟩ | ⟨-, hb, hc⟩
  · exact ⟨fun _ hmem => by rw [hb]; exact hmem, fun _ hmem => by rw [hc]; exact List.mem_append_left _ hmem⟩
  · exact ⟨fun _ hmem => by rw [hb]; exact List.mem_append_left _ hmem, fun _ hmem => by rw [hc]; exact hmem⟩
  · exact ⟨fun _ hmem => by rw [hb]; exact hmem, fun _ hmem => by rw [hc]; exact hmem⟩

/-- The binding has the currency of a mandate it is for. -/
def DB.Backs (H : Host) (db : DB) (b : PaymentInstrumentBinding) : Prop :=
  ∃ c, (b.mandate_id, c) ∈ db.currencies ∧ b.currency = H.upper c

theorem DB.Backs.mono {H : Host} (hb : db.Backs H b) (h : db.Extends db') : db'.Backs H b := by
  obtain ⟨c, hc, heq⟩ := hb
  exact ⟨c, h.currencies _ hc, heq⟩

/-- A mandate id stands for one currency, and every binding has its mandate's. -/
structure DB.Matched (H : Host) (db : DB) : Prop where
  unique : ∀ k ∈ db.currencies, ∀ k' ∈ db.currencies, k.1 = k'.1 → k.2 = k'.2
  backed : ∀ b ∈ db.bindings, db.Backs H b

theorem DB.Matched.apply {H : Host} {x : Write} (hm : db.Matched H)
    (hx : ∀ b, x = .insertBinding b → db.Backs H b) (h : db.apply x = some db') : db'.Matched H := by
  have hext := apply_extends h
  rcases apply_instruments h with ⟨m, -, hb, hc, hfresh⟩ | ⟨b, rfl, hb, hc⟩ | ⟨-, hb, hc⟩
  · constructor
    · intro k hk k' hk' heq
      rw [hc] at hk hk'
      rcases List.mem_append.mp hk with hk | hk
      · rcases List.mem_append.mp hk' with hk' | hk'
        · exact hm.unique k hk k' hk' heq
        · rw [List.mem_singleton.mp hk'] at heq
          exact absurd heq (hfresh k hk)
      · rw [List.mem_singleton.mp hk] at heq ⊢
        rcases List.mem_append.mp hk' with hk' | hk'
        · exact absurd heq.symm (hfresh k' hk')
        · rw [List.mem_singleton.mp hk']
    · rw [hb]
      exact fun b hmem => (hm.backed b hmem).mono hext
  · constructor
    · rw [hc]
      exact hm.unique
    · rw [hb]
      intro b' hmem
      rcases List.mem_append.mp hmem with hmem | hmem
      · exact (hm.backed b' hmem).mono hext
      · rw [List.mem_singleton.mp hmem]
        exact (hx b rfl).mono hext
  · constructor
    · rw [hc]
      exact hm.unique
    · rw [hb]
      exact fun b hmem => (hm.backed b hmem).mono hext

end

/-- What matched tables become by writes whose bindings earlier tables back. -/
theorem matched_stable (H : Host) (db₀ : DB) :
    Stable (fun x => ∀ b, x = .insertBinding b → db₀.Backs H b)
      (fun db => db₀.Extends db ∧ db.Matched H) where
  write db db' x hx h hK := by
    obtain ⟨hext, hm⟩ := hK
    exact ⟨hext.trans (apply_extends h), hm.apply (fun b hb => (hx b hb).mono hext) h⟩
  use _ _ _ hK := ⟨⟨hK.1.bindings, hK.1.currencies⟩, ⟨hK.2.unique, hK.2.backed⟩⟩

/-! ## The protocol -/

/-- The handler read the authorization, and a mandate that it is under, in its currency. -/
structure Known (H : Host) (q : List (Stmt × World)) (auth : BoundedAuthorization) : Prop where
  read : ∃ p ∈ q, auth ∈ p.2.db.authorizations
  currency : present auth.mandate_id = true → ∃ p ∈ q, ∃ c,
    (auth.mandate_id.getD "", c) ∈ p.2.db.currencies ∧ H.upper auth.currency = H.upper c

theorem Known.mono {H : Host} {q q' : List (Stmt × World)} {auth : BoundedAuthorization} (h : Known H q auth)
    (hq : q <+: q') : Known H q' auth := by
  constructor
  · obtain ⟨w, hw, hmem⟩ := h.read
    exact ⟨w, hq.subset hw, hmem⟩
  · intro hpresent
    obtain ⟨w, hw, hc⟩ := h.currency hpresent
    exact ⟨w, hq.subset hw, hc⟩

/-- The binding was the first the code selects, on the clock of the statement before the last
and the tables of the last one. -/
structure Chosen (H : Host) (q : List (Stmt × World)) (auth : BoundedAuthorization) (now st : World)
    (b : PaymentInstrumentBinding) : Prop where
  known : Known H q auth
  last : ∃ pre, q = pre ++ [(.select, now), (.select, st)]
  chosen : active_provider_binding st.db auth now.clock = some b

/-- A debit is of an authorization the handler knows, on the binding it has just chosen. -/
def Draws (H : Host) (q : List (Stmt × World)) (cl : Call) : Prop :=
  ∀ org id ref amount currency merchant key,
    cl = ⟨.agentic org, .authorize_payment id ref amount currency merchant key⟩ →
    ∃ auth now st b, Chosen H q auth now st b ∧ auth.authorization_id = id ∧ auth.org_id = org ∧
      auth.amount_minor_units = amount ∧ auth.currency = currency ∧ b.provider_mandate_ref = ref

/-- A binding is written by a handler that read its mandate. -/
def Binds (H : Host) (q : List (Stmt × World)) (s : Stmt) : Prop :=
  ∀ ws, s = .commit ws → ∀ b, .insertBinding b ∈ ws → ∃ p ∈ q, p.2.db.Backs H b

/-- Handlers that bind and debit so. -/
abbrev debiting (H : Host) : Protocol World Stmt Call Answer (List (Stmt × World)) :=
  .past (Binds H) (Draws H)

/-- The same, of the debits alone. -/
abbrev drawing (H : Host) : Protocol World Stmt Call Answer (List (Stmt × World)) :=
  .past (fun _ _ => True) (Draws H)

section
variable {H : Host} {R : List (Stmt × World) → Call → Prop} {q : List (Stmt × World)} {α β : Type}
  {Post : β → List (Stmt × World) → Prop}

theorem past_stmt {s : Stmt} {k : World → Handler β}
    (h : ∀ w, (k w).Conforms (.past (fun _ _ => True) R) Post (q ++ [(s, w)])) :
    Prog.Conforms (.past (fun _ _ => True) R) Post (.stmt s k) q := fun w => ⟨_, ⟨trivial, rfl⟩, h w⟩

theorem past_query {f : DB → α} {k : α → Handler β}
    (h : ∀ w : World, (k (f w.db)).Conforms (.past (fun _ _ => True) R) Post (q ++ [(.select, w)])) :
    (Handler.query f >>= k).Conforms (.past (fun _ _ => True) R) Post q := past_stmt h

theorem past_now {k : Instant → Handler β}
    (h : ∀ w : World, (k w.clock).Conforms (.past (fun _ _ => True) R) Post (q ++ [(.select, w)])) :
    (Handler.now >>= k).Conforms (.past (fun _ _ => True) R) Post q := past_stmt h

theorem past_reads {R' : α → Prop} {p : Handler α} {k : α → Handler β} (hp : p.Reads R')
    (hk : ∀ a q', q <+: q' → R' a → (k a).Conforms (.past (fun _ _ => True) R) Post q') :
    (p >>= k).Conforms (.past (fun _ _ => True) R) Post q := by
  have hstep : ∀ (q : List (Stmt × World)) s w, s = Stmt.select → ∃ q',
      (Protocol.past (fun _ _ => True) R : Protocol World Stmt Call Answer _).stmt q s w q' ∧ q <+: q' :=
    fun q s w _ => ⟨q ++ [(s, w)], ⟨trivial, rfl⟩, List.prefix_append q _⟩
  have hquiet : p.Conforms (.past (fun _ _ => True) R) (fun a q' => q <+: q' ∧ R' a) q :=
    Prog.conforms_of_quiet (fun _ => List.prefix_rfl) (fun _ _ _ h h' => h.trans h') hstep hp
  exact Prog.conforms_seq hquiet fun a q' h => hk a q' h.1 h.2

theorem past_send {r : Recipient} {op : Op} {k : Answer → Handler β} (hcall : R q ⟨r, op⟩)
    (h : ∀ a, (k a).Conforms (.past (fun _ _ => True) R) Post q) :
    (Handler.send r op >>= k).Conforms (.past (fun _ _ => True) R) Post q :=
  fun a => ⟨q, ⟨hcall, rfl⟩, h a⟩

/-- A call that is no debit. -/
def Call.Plain (cl : Call) : Prop :=
  ∀ org id ref amount currency merchant key,
    cl ≠ ⟨.agentic org, .authorize_payment id ref amount currency merchant key⟩

theorem Call.plain_of_submits {cl : Call} (h : cl.op.submits = none) : cl.Plain := by
  intro org id ref amount currency merchant key heq
  rw [heq] at h
  exact absurd h nofun

/-- What makes no debit may be done at any time. -/
theorem drawing_plain {p : Handler α} (hp : p.Calls Call.Plain) :
    p.Conforms (drawing H) (fun _ _ => True) q := by
  refine Prog.conforms_mono (fun _ _ _ => trivial) (Prog.past_of_calls ?_ hp)
  intro q cl hcl org id ref amount currency merchant key heq
  exact absurd heq (hcl org id ref amount currency merchant key)

end

/-! ## The consumption -/

section
variable {H : Host} {q : List (Stmt × World)} {auth : BoundedAuthorization} {x : Execution}

theorem revalidate_mandate_known (agent : Agent) (mandate_id : String) (now : Instant) :
    (revalidate_mandate H auth agent mandate_id now).Conforms (drawing H)
      (fun r q' => q <+: q' ∧ (r = .ok () → ∃ p ∈ q', ∃ c,
        (mandate_id, c) ∈ p.2.db.currencies ∧ H.upper auth.currency = H.upper c)) q := by
  refine past_query fun w => ?_
  have hq : q <+: q ++ [(.select, w)] := List.prefix_append q _
  split
  · exact ⟨hq, nofun⟩
  next m hm =>
  obtain ⟨hfind, -⟩ := Option.filter_eq_some_iff.mp hm
  have hid : m.mandate_id = mandate_id := by
    have hkeep := List.find?_some hfind
    rw [Bool.and_eq_true, Bool.and_eq_true, beq_iff_eq] at hkeep
    exact hkeep.1.1
  split
  · exact ⟨hq, nofun⟩
  split
  · trivial
  · exact ⟨hq, nofun⟩
  next hnone =>
  -- of what the checks have found only the currency matters later
  obtain ⟨-, -, -, -, hcurrency, -⟩ := mandateRefusal_none hnone
  refine past_stmt fun w' => ?_
  have hq' := hq.trans (List.prefix_append (q ++ [(.select, w)]) [(.select, w')])
  have hseen : ∃ p ∈ q ++ [(.select, w)] ++ [(.select, w')], ∃ c,
      (mandate_id, c) ∈ p.2.db.currencies ∧ H.upper auth.currency = H.upper c :=
    ⟨(.select, w), by simp, m.currency, hid ▸ mem_currencies (List.mem_of_find?_eq_some hfind), hcurrency⟩
  show (if !categoryAccepted H m _ then _ else _ : Handler (Except Reply Unit)).Conforms _ _ _
  split
  · exact ⟨hq', nofun⟩
  · exact ⟨hq', fun _ => hseen⟩

/-- A refusal lets nothing through. -/
theorem refusal_known (e : Reply) : (return (.error e) : Handler (Except Reply Agent)).Conforms (drawing H)
    (fun r q' => ∀ agent, r = .ok agent → Known H q' auth) q := by
  intro agent habs
  exact absurd habs nofun

/-- The re-check lets only a known authorization through. -/
theorem revalidate_execution_known (hread : ∃ p ∈ q, auth ∈ p.2.db.authorizations) :
    (revalidate_execution H auth).Conforms (drawing H)
      (fun r q' => ∀ agent, r = .ok agent → Known H q' auth) q := by
  refine past_stmt fun w₁ => past_stmt fun w₂ => ?_
  split
  · exact refusal_known _
  refine past_stmt fun w₃ => ?_
  show (if _ then _ else _ : Handler (Except Reply Agent)).Conforms _ _ _
  split
  · exact refusal_known _
  split
  · exact refusal_known _
  refine past_stmt fun w₄ => ?_
  show (if _ then _ else _ : Handler (Except Reply Agent)).Conforms _ _ _
  split
  · exact refusal_known _
  split
  · exact refusal_known _
  have hq : q <+: q ++ [(.select, w₁)] ++ [(.select, w₂)] ++ [(.select, w₃)] ++ [(.select, w₄)] := by
    simp
  obtain ⟨w, hw, hmem⟩ := hread
  split
  · next hpresent =>
    intro agent _
    refine ⟨⟨w, hq.subset hw, hmem⟩, fun h => ?_⟩
    rw [h] at hpresent
    exact absurd hpresent (by simp)
  · refine Prog.conforms_seq (revalidate_mandate_known _ _ _) fun r q' h => ?_
    intro agent hr
    have hok : r = .ok () := by
      cases r with
      | ok u => rfl
      | error e => exact absurd hr nofun
    exact ⟨⟨w, (hq.trans h.1).subset hw, hmem⟩, fun _ => h.2 hok⟩

theorem consume_agentic_settlement_draws (adapter : AgenticAdapter) (h : Known H q x.auth) :
    (consume_agentic_settlement H x adapter).Conforms (drawing H) (fun _ _ => True) q := by
  refine past_now fun now => past_query fun st => ?_
  split
  · exact drawing_plain (Prog.calls_bind failClosed_calls fun _ => trivial)
  next binding hbinding =>
  have hq : q ++ [(.select, now)] ++ [(.select, st)] = q ++ [(.select, now), (.select, st)] := by
    rw [List.append_assoc]
    rfl
  have hchosen : Chosen H (q ++ [(.select, now)] ++ [(.select, st)]) x.auth now st binding := by
    rw [hq]
    exact ⟨h.mono (List.prefix_append _ _), ⟨q, rfl⟩, hbinding⟩
  -- the validation and the debit are the next two calls, with no statement in between
  refine past_send (fun _ _ _ _ _ _ _ => nofun) fun validation => ?_
  split
  · trivial
  split
  · split
    · exact drawing_plain (Prog.calls_bind failClosed_calls fun _ => trivial)
    · refine past_send ?_ fun authorized => ?_
      · intro org id ref amount currency merchant key heq
        obtain ⟨horg, hop⟩ := Call.mk.inj heq
        obtain ⟨hid, href, hamount, hcurrency, -, -⟩ := Op.authorize_payment.inj hop
        exact ⟨x.auth, now, st, binding, hchosen, hid, Recipient.agentic.inj horg, hamount, hcurrency,
          href⟩
      · refine drawing_plain ?_
        split
        · trivial
        · split
          · split
            · trivial
            · exact capture_agentic_calls fun op hop => Call.plain_of_submits hop
          · trivial
  · trivial

theorem execute_draws (h : Known H q x.auth) :
    (execute H x).Conforms (drawing H) (fun _ _ => True) q := by
  unfold execute
  split
  · exact drawing_plain handle_raised_calls
  next agentic hagentic =>
  split
  · trivial
  split
  · refine Prog.conforms_seq (consume_agentic_settlement_draws agentic h) fun result q' _ => ?_
    refine drawing_plain ?_
    split
    · trivial
    · split
      · exact calls_access fun _ => calls_commit trivial
      · trivial
      · exact calls_access fun _ => calls_commit trivial
  · refine drawing_plain ?_
    split
    · exact failClosed_calls
    -- the order-based account is addressed with an order, never with a debit
    · refine Prog.calls_bind (create_order_calls fun op => ?_) fun result => ?_
      · intro org id ref amount currency merchant key heq
        have hrecipient := (Call.mk.inj heq).1
        unfold account at hrecipient
        dsimp only at hrecipient
        split at hrecipient <;> exact absurd hrecipient nofun
      · split
        · trivial
        · exact handle_raised_calls

theorem consume_authorization_draws (ctx : RequestContext) (id token : String) :
    (consume_authorization H ctx id token).Conforms (drawing H) (fun _ _ => True) q := by
  refine past_query fun w => ?_
  split
  · trivial
  next auth hfind =>
  have hread : ∃ p ∈ q ++ [(.select, w)], auth ∈ p.2.db.authorizations :=
    ⟨(.select, w), by simp, List.mem_of_find?_eq_some hfind⟩
  have hresolve : Handler.Reads (fun _ => True) (pure (resolve_session_token H token ctx.authorization)) :=
    trivial
  refine past_reads hresolve fun r q₁ hq₁ _ => ?_
  split
  · trivial
  refine past_reads (authenticate_reads H ctx _ _) fun r q₂ hq₂ _ => ?_
  split
  · trivial
  have hread₂ : ∃ p ∈ q₂, auth ∈ p.2.db.authorizations := by
    obtain ⟨v, hv, hmem⟩ := hread
    exact ⟨v, (hq₁.trans hq₂).subset hv, hmem⟩
  refine Prog.conforms_seq (revalidate_execution_known hread₂) fun r q₃ hknown => ?_
  split
  · trivial
  next agent =>
  -- from here on the authorization is known, and later statements only add to the past
  have hknown := hknown agent rfl
  refine past_stmt fun w₄ => ?_
  show (if !w₄.reservable id then _ else _ : Handler Reply).Conforms _ _ _
  split
  · exact past_stmt fun _ => trivial
  refine past_stmt fun w₅ => past_stmt fun w₆ => ?_
  show (Handler.committed (w₆.db.applyAll _) >>= _).Conforms _ _ _
  cases w₆.db.applyAll _ with
  | ok db =>
    refine past_stmt fun w₇ => past_stmt fun w₈ => execute_draws (hknown.mono ?_)
    simp
  | error y => trivial

end

/-! ## Every request of a run -/

/-- The requests of a run: mandates and bindings, and whatever touches an authorization once
it was minted. -/
def Request.instrumental : Request → Bool
  | .create_mandate _ _ | .bind_mandate _ _ _ => true
  | r => r.settles

/-- Only one request writes a binding. -/
theorem Request.Allows.binding {r : Request} {b : PaymentInstrumentBinding}
    (h : r.Allows (.insertBinding b)) : ∃ id req key, r = .bind_mandate id req key := by
  rcases h with hlogs | hmay
  · rcases hlogs with ⟨_, heq⟩ | ⟨_, heq⟩ <;> exact absurd heq nofun
  · cases r with
    | bind_mandate id req key => exact ⟨id, req, key, rfl⟩
    | consume _ _ _ => exact absurd hmay nofun
    | revoke_authorization _ _ _ => exact absurd hmay nofun
    | webhook _ _ => exact absurd hmay nofun
    | refund _ _ _ => exact absurd hmay nofun
    | reconcile _ _ _ => exact absurd hmay nofun
    | batch _ => exact absurd hmay nofun
    | _ => simp [Request.mayWrite, Write.Enrols, Write.Mints] at hmay

section
variable {H : Host}

theorem create_mandate_calls (req : CreatePaymentMandateRequest) (key : String) :
    (create_user_payment_mandate H req key).Calls Call.Plain := by
  have hinsert : ∀ agent m, (insert_mandate H req agent m).Calls Call.Plain := by
    intro agent m
    refine Prog.calls_bind (p := Handler.fresh) (fun _ => trivial) fun n => ?_
    refine calls_query fun _ => calls_audit fun _ => ?_
    refine calls_tryCommit fun r => ?_
    split <;> trivial
  refine calls_query fun agent => ?_
  split
  · trivial
  refine Prog.calls_bind (p := pure _) trivial fun r => ?_
  split
  · trivial
  refine calls_now fun now => ?_
  dsimp only
  split
  · trivial
  split
  · trivial
  split
  · exact hinsert _ _
  split
  · trivial
  split
  · trivial
  · trivial
  · exact hinsert _ _

/-- A settlement request other than a consumption never submits anything. -/
theorem settles_calls {r : Request} (hr : r.settles = true)
    (hne : ∀ ctx id token, r ≠ .consume ctx id token) : (handler H r).Calls Call.Plain := by
  have hdesk : (handler H r).Conforms (desk H) (fun _ _ => True) (Desk.empty .revoke) := by
    cases r with
    | consume ctx id token => exact absurd rfl (hne ctx id token)
    | revoke_authorization ctx id token => exact revoke_authorization_conforms ctx id token rfl rfl
    | webhook raw signature => exact razorpay_webhook_conforms raw signature
    | refund ctx id req => exact refund_authorization_conforms ctx id req
    | reconcile ctx id token => exact manual_reconcile_conforms ctx id token
    | batch n => exact run_batch_conforms n
    | _ => exact absurd hr (by simp [Request.settles])
  refine @Prog.calls_of_conforms _ _ _ _ _ _ _ _ ⟨.ok .null⟩ _ (fun q => q.role = .revoke) ?_ ?_ _ _ rfl hdesk
  · intro q s w q' hq hs
    rw [hs.2, Desk.after_role]
    exact hq
  · intro q cl a q' hq hcl
    constructor
    · refine Call.plain_of_submits ?_
      cases hsubmits : cl.op.submits with
      | none => rfl
      | some id =>
        have hrole := (hcl.1 id hsubmits).2
        rw [hq] at hrole
        cases hrole
    · rw [hcl.2]
      exact hq

theorem bind_provider_mandate_debits (id : String) (req : BindProviderMandateRequest) (key : String) :
    (bind_provider_mandate H id req key).Conforms (debiting H) (fun _ _ => True) [] := by
  have hquiet : ∀ {q : List (Stmt × World)} {s : Stmt}, (∀ ws, s ≠ .commit ws) → Binds H q s :=
    fun hs ws heq => absurd heq (hs ws)
  have hquery : ∀ {α : Type} {f : DB → α} {k : α → Handler Reply} {q : List (Stmt × World)},
      (∀ w : World, (k (f w.db)).Conforms (debiting H) (fun _ _ => True) (q ++ [(.select, w)])) →
      (Handler.query f >>= k).Conforms (debiting H) (fun _ _ => True) q :=
    fun hk w => ⟨_, ⟨hquiet (fun _ => nofun), rfl⟩, hk w⟩
  refine hquery fun w => ?_
  split
  · trivial
  next m hfind =>
  cases H.require_admin_org key m.org_id with
  | error e => trivial
  | ok u =>
  show (if m.status ≠ .active then _ else _ : Handler Reply).Conforms _ _ _
  split
  · trivial
  refine fun w₁ => ⟨_, ⟨hquiet (fun _ => nofun), rfl⟩, ?_⟩
  show (if _ then _ else _ : Handler Reply).Conforms _ _ _
  split
  · trivial
  split
  · trivial
  next hcurrency =>
  split
  · trivial
  refine fun w₂ => ⟨_, ⟨hquiet (fun _ => nofun), rfl⟩, ?_⟩
  refine fun w₃ => ⟨_, ⟨hquiet (fun _ => nofun), rfl⟩, ?_⟩
  refine fun w₄ => ⟨_, ⟨?_, rfl⟩, ?_⟩
  -- the binding takes the currency that was compared with the mandate's
  · intro ws heq b hb
    obtain rfl := Stmt.commit.inj heq
    have hb : b = _ := Write.insertBinding.inj ((List.mem_cons.mp hb).resolve_right (by simp))
    refine ⟨(.select, w), by simp, m.currency, ?_, ?_⟩
    · rw [hb]
      exact mem_currencies (List.mem_of_find?_eq_some hfind)
    · rw [hb]
      exact not_not.mp hcurrency
  · show (Handler.committed (w₄.db.applyAll _) >>= _).Conforms _ _ _
    cases w₄.db.applyAll _ <;> trivial

/-- **Every request of a run follows the protocol.** -/
theorem handler_debits {r : Request} (hr : r.instrumental = true) :
    (handler H r).Conforms (debiting H) (fun _ _ => True) [] := by
  have hboth : (∀ id req key, r ≠ .bind_mandate id req key) →
      (handler H r).Conforms (drawing H) (fun _ _ => True) [] →
      (handler H r).Conforms (debiting H) (fun _ _ => True) [] := by
    intro hne hdraws
    refine Prog.past_of_both ?_ hdraws (handler_writes H r)
    intro past _ s w _ hs ws hws b hb
    obtain ⟨id, req, key, heq⟩ := (hs ws hws _ hb).binding
    exact absurd heq (hne id req key)
  cases r with
  | bind_mandate id req key => exact bind_provider_mandate_debits id req key
  | create_mandate req key =>
    exact hboth (fun _ _ _ => nofun) (drawing_plain (create_mandate_calls req key))
  | consume ctx id token => exact hboth (fun _ _ _ => nofun) (consume_authorization_draws ctx id token)
  | _ =>
    exact hboth (fun _ _ _ => nofun) (drawing_plain (settles_calls hr fun _ _ _ => nofun))

end

/-! ## Runs -/

section
variable {H : Host} {reqs : List Request} {w : World} {c : Pool World Stmt Call Answer Reply} {i : Nat}
  {org id ref currency : String} {amount : Int}

/-- Tables only grow, and stay matched. -/
theorem exec_matched {st : World} {q : List (Stmt × World)} {s : Stmt} (hm : st.db.Matched H)
    (hq : ∀ p ∈ q, p.2.db.Extends st.db) (hs : Binds H q s) (j : Nat) :
    (st.exec j s).db.Matched H ∧ st.db.Extends (st.exec j s).db := by
  have hbinds : ∀ ws, s = .commit ws → ∀ x ∈ ws, ∀ b, x = .insertBinding b → st.db.Backs H b := by
    intro ws hws x hx b hb
    obtain ⟨p, hp, hback⟩ := hs ws hws b (hb ▸ hx)
    exact hback.mono (hq p hp)
  exact ((matched_stable H st.db).exec j hbinds ⟨.refl _, hm⟩).symm

theorem matched_pool (hreqs : ∀ r ∈ reqs, r.instrumental = true)
    (hids : (w.db.mandates.map UserPaymentMandate.mandate_id).Nodup) (hnone : w.db.bindings = [])
    (h : Pool.Reach machine Pool.Free (Pool.start w (reqs.map (handler H))) c) :
    c.store.db.Matched H ∧ (∀ i, ∀ p ∈ Pool.steps i c.trace, p.2.db.Extends c.store.db) ∧
      ∀ (i : Nat) cl k, c.threads[i]? = some (.call cl k) → Draws H (Pool.steps i c.trace) cl := by
  have hfollows : ∀ (i : Nat) p, (Pool.start w (reqs.map (handler H))).threads[i]? = some p →
      p.Conforms (.past (Binds H) (Draws H)) (fun _ _ => True) [] := by
    intro i p hp
    simp only [Pool.start, List.getElem?_map, Option.map_eq_some_iff] at hp
    obtain ⟨r, hr, rfl⟩ := hp
    exact handler_debits (hreqs r (List.mem_of_getElem? hr))
  have hmatched : w.db.Matched H := by
    constructor
    · intro k hk k' hk' heq
      obtain ⟨m, hm, rfl⟩ := List.mem_map.mp hk
      obtain ⟨m', hm', rfl⟩ := List.mem_map.mp hk'
      rw [List.inj_on_of_nodup_map hids hm hm' heq]
    · rw [hnone]
      exact fun b hb => absurd hb List.not_mem_nil
  obtain ⟨hkept, -, hcalls⟩ := @Pool.past _ _ _ _ _ _ machine (fun _ => Binds H) (fun _ => Draws H)
    (fun st _ => st.db.Matched H) (fun st st' => st.db.Extends st'.db) (fun _ _ _ => True)
    (fun a => .refl a.db) (fun _ _ _ h h' => h.trans h')
    (fun st tr i s hkept hs => exec_matched hkept.kept (fun p hp => (hkept.grown i p hp).1) hs i)
    (fun st _ i hm => ((matched_stable H st.db).rollback i ⟨.refl _, hm⟩).symm)
    (fun st _ _ hm => ⟨hm, .refl st.db⟩) _ c rfl hmatched hfollows h
  exact ⟨hkept.kept, fun i p hp => (hkept.grown i p hp).1,
    fun i cl k hi => hcalls i cl k hi (.ok .null)⟩

theorem waiting_call {p : Handler Reply} {cl : Call} (h : p.waiting = some cl) :
    ∃ k, p = .call cl k := by
  cases p with
  | call cl' k => exact ⟨k, by rw [Option.some.inj h]⟩
  | ret _ => exact absurd h nofun
  | halt => exact absurd h nofun
  | stmt _ _ => exact absurd h nofun

/-- The row a debit is drawn on: among the last two statements the execution looked at the
clock, and took an active binding of the mandate that had not expired by it. Since then the row
is as it was, and in the currency of the debit. -/
theorem debit_drawn (hreqs : ∀ r ∈ reqs, r.instrumental = true)
    (hids : (w.db.mandates.map UserPaymentMandate.mandate_id).Nodup) (hnone : w.db.bindings = [])
    (h : Pool.Reach machine Pool.Free (Pool.start w (reqs.map (handler H))) c)
    (hdebit : Debiting c i org id ref amount currency) :
    ∃ auth pre now st b, Pool.steps i c.trace = pre ++ [(.select, now), (.select, st)] ∧
      (∃ p ∈ Pool.steps i c.trace, auth ∈ p.2.db.authorizations) ∧ auth.authorization_id = id ∧
      auth.org_id = org ∧ auth.amount_minor_units = amount ∧ auth.currency = currency ∧
      b ∈ st.db.bindings ∧ b.Selectable auth now.clock ∧ b ∈ c.store.db.bindings ∧
      b.provider_mandate_ref = ref ∧ b.currency = H.upper currency := by
  obtain ⟨hmatched, hgrown, hcalls⟩ := matched_pool hreqs hids hnone h
  obtain ⟨p, merchant, key, hp, hwait⟩ := hdebit
  obtain ⟨k, rfl⟩ := waiting_call hwait
  obtain ⟨auth, now, st, b, hchosen, hid, horg, hamount, hcurrency, href⟩ :=
    hcalls i _ k hp org id ref amount currency merchant key rfl
  obtain ⟨pre, hlast⟩ := hchosen.last
  obtain ⟨hpresent, hb, hselect⟩ := active_provider_binding_some hchosen.chosen
  have hst : (.select, st) ∈ Pool.steps i c.trace := by
    rw [hlast]
    simp
  have hstored := (hgrown i _ hst).bindings b hb
  refine ⟨auth, pre, now, st, b, hlast, hchosen.known.read, hid, horg, hamount, hcurrency, hb, hselect,
    hstored, href, ?_⟩
  -- the binding has its mandate's currency, the authorization has it too
  obtain ⟨v, hv, cur, hcur, hauth⟩ := hchosen.known.currency hpresent
  obtain ⟨cur', hcur', hbinding⟩ := hmatched.backed b hstored
  have hmandate : b.mandate_id = auth.mandate_id.getD "" := by
    rw [← hselect.mandate]
    rfl
  have hsame : cur' = cur :=
    hmatched.unique _ hcur' _ ((hgrown i v hv).currencies _ hcur) hmandate
  rw [hbinding, hsame, ← hauth, hcurrency]

/-- **A debit stays within the bound instrument** where every row it may have been drawn on
does: where each active binding of the mandate that was live on the execution's clock, in the
tables it chose from, is for the provider behind the adapter, covers the amount and has not
expired when the adapter is called. -/
theorem debit_within_instrument {provider : String → String}
    (hreqs : ∀ r ∈ reqs, r.instrumental = true)
    (hids : (w.db.mandates.map UserPaymentMandate.mandate_id).Nodup) (hnone : w.db.bindings = [])
    (h : Pool.Reach machine Pool.Free (Pool.start w (reqs.map (handler H))) c)
    (hdebit : Debiting c i org id ref amount currency) :
    ∃ auth pre now st, Pool.steps i c.trace = pre ++ [(.select, now), (.select, st)] ∧
      (∃ p ∈ Pool.steps i c.trace, auth ∈ p.2.db.authorizations) ∧ auth.authorization_id = id ∧
      ((∀ b ∈ st.db.bindings, b.Selectable auth now.clock →
          b.Covers (provider (resolve_agentic_spec H org)) c.store.clock amount) →
        ∃ b ∈ c.store.db.bindings, b.provider_mandate_ref = ref ∧
          some b.mandate_id = auth.mandate_id ∧ b.org_id = org ∧
          b.Bounds H (provider (resolve_agentic_spec H org)) c.store.clock amount currency) := by
  obtain ⟨auth, pre, now, st, b, hlast, hread, hid, horg, -, -, hb, hselect, hstored, href, hcurrency⟩ :=
    debit_drawn hreqs hids hnone h hdebit
  refine ⟨auth, pre, now, st, hlast, hread, hid, fun hcovers => ?_⟩
  exact ⟨b, hstored, href, hselect.mandate, hselect.org.trans horg,
    ⟨hcovers b hb hselect, hselect.active, hcurrency⟩⟩

end

/-! ## One binding, one debit -/

namespace Sample

/-- The mandate has no binding yet. -/
def unboundWorld : World :=
  { mandatedWorld with db := { mandatedWorld.db with bindings := [] } }

/-- A binding with the cap is created, and the authorization of 100 is consumed. -/
def bindAndConsume (cap : Int) : List Request :=
  [.bind_mandate "mandate" ⟨"wallet", "ref", "INR", cap, none⟩ "admin", .consume ctx "auth" "agent"]

def unboundStart (cap : Int) : Pool World Stmt Call Answer Reply :=
  Pool.start unboundWorld ((bindAndConsume cap).map (handler agenticHost))

/-- When the adapter is asked to debit it. -/
def debitPending (cap : Int) : Pool World Stmt Call Answer Reply :=
  ((unboundStart cap).run machine (List.replicate 5 (.run 0 (.ok .null)))).run machine
    (List.replicate 20 (.run 1 anything))

theorem debit_reached (cap : Int) :
    Pool.Reach machine Pool.Free (unboundStart cap) (debitPending cap) :=
  Pool.reach_run _ _ _ _ (Pool.reach_run _ _ _ _ .start)

end Sample

/-- A binding for the whole mandate bounds the debit. -/
theorem debit_within_instrument_covered :
    ∃ b ∈ (Sample.debitPending 1000).store.db.bindings, b.provider_mandate_ref = "ref" ∧
      b.Bounds Sample.agenticHost "wallet" (Sample.debitPending 1000).store.clock 100 "INR" := by
  have hdebit : Debiting (Sample.debitPending 1000) 1 "default" "auth" "ref" 100 "INR" :=
    ⟨_, "shop", "auth:agentic", rfl, rfl⟩
  obtain ⟨auth, pre, now, st, hlast, -, -, hbounded⟩ :=
    @debit_within_instrument Sample.agenticHost (Sample.bindAndConsume 1000) Sample.unboundWorld _ _ _ _
      _ _ _ (fun _ => "wallet") (by decide) (by decide) rfl (Sample.debit_reached 1000) hdebit
  have hst : (Pool.steps 1 (Sample.debitPending 1000).trace).getLast? = some (.select, st) := by
    rw [hlast]
    simp
  have hbindings : (Pool.steps 1 (Sample.debitPending 1000).trace).getLast?.map (fun p => p.2.db.bindings) =
      some (Sample.debitPending 1000).store.db.bindings := rfl
  rw [hst, Option.map_some] at hbindings
  have hbindings : st.db.bindings = (Sample.debitPending 1000).store.db.bindings :=
    Option.some.inj hbindings
  obtain ⟨b, hb, href, -, -, hbounds⟩ := hbounded fun b hb _ => by
    rw [hbindings] at hb
    obtain rfl := List.mem_singleton.mp hb
    exact ⟨rfl, by decide, nofun⟩
  exact ⟨b, hb, href, hbounds⟩

/-- Nothing compares the cap of a binding with the amount it is debited for. -/
theorem debit_exceeds_binding :
    ¬DebitsBounded Sample.agenticHost (fun _ => "wallet") (Sample.bindAndConsume 50) Sample.unboundWorld := by
  intro h
  have hdebit : Debiting (Sample.debitPending 50) 1 "default" "auth" "ref" 100 "INR" :=
    ⟨_, "shop", "auth:agentic", rfl, rfl⟩
  obtain ⟨b, hb, -, hbounds⟩ := h _ (Sample.debit_reached 50) _ _ _ _ _ _ hdebit
  obtain rfl := List.mem_singleton.mp hb
  exact absurd hbounds.cap (by decide)

end Paari
