import Paari.Confinement

/-!
# The agent loop

`execute` is meant never to raise: what goes wrong is data for the model. It catches the
refusals of its own contract and the protocol errors of the client, and nothing else: an
exception of the transport, or a body that is not of the expected shape, leaves it and
leaves `run_goal` with it, together with what the run has paid. `Returns` says exactly which
tool calls come back; a run whose tool calls all do ends with an `Outcome`, every tool call
of which has its answer.
-/

namespace Paari

/-! ## Which tool calls come back -/

/-- `client.card` is an object, or nothing, and so are its limits. -/
def CardReadable (card : Json) : Prop :=
  ∃ kvs limits, card.orEmpty = .dict kvs ∧ ((kvs.lookup "limits").getD .null).orEmpty = .dict limits

/-- The body of an intent: an object whose reasons can be listed, and which, if it allows the
payment, has an object as its authorization. -/
def DecisionReadable (T : Text) (body : Json) : Prop :=
  ∃ kvs, body = .dict kvs ∧
    (∃ reasons, pyList (((kvs.lookup "reasons").getD .null).orElse (.list [])) = .ok reasons) ∧
    (pyLower T ((kvs.lookup "decision").getD (.str "")) = "allow" →
      ∃ authorization, ((kvs.lookup "authorization").getD .null).orEmpty = .dict authorization)

/-- A stage of a proof bundle is an object, or nothing. -/
def StageReadable (artifacts : List (String × Json)) (stage : String) : Prop :=
  ∃ kvs, ((artifacts.lookup stage).getD .null).orEmpty = .dict kvs

/-- The proof bundle: objects where the report looks for them, and events that have a length. -/
def BundleReadable (bundle : Json) : Prop :=
  ∃ kvs artifacts audit, bundle = .dict kvs ∧
    ((kvs.lookup "artifacts").getD .null).orEmpty = .dict artifacts ∧
    ((artifacts.lookup "audit_record").getD .null).orEmpty = .dict audit ∧
    StageReadable artifacts "payment_execution" ∧ StageReadable artifacts "payment_result" ∧
    ∃ n, pyLen (((audit.lookup "events").getD .null).orElse (.list [])) = .ok n

/-- The client comes back, with what the tool expects of a body. -/
def ClientAnswer.Readable (T : Text) (name : String) : ClientAnswer → Prop
  | .raised _ => False
  | .protocolError _ _ => True
  | .body x =>
    match name with
    | "propose_payment" => DecisionReadable T x
    | "confirm_payment" => x.isDict = true
    | "read_proof" => BundleReadable x
    | _ => True

/-- The tool gets as far as its request. -/
def PaariBroker.Asks (T : Text) (b : PaariBroker) (name : String) (clean : List (String × Json)) : Prop :=
  match name with
  | "get_payment_authority" => b.reads_mandate = true
  | "propose_payment" => ∃ amount currency, clean.lookup "amount_minor_units" = some (.int amount) ∧
      clean.lookup "currency" = some (.str currency) ∧ 0 < amount ∧ amount ≤ b.max_amount_minor_units ∧
      T.upper currency = T.upper b.currency
  | "confirm_payment" => b.consumes < b.max_consumes ∧
      ∃ id p, clean.lookup "authorization_id" = some (.str id) ∧ b.pending.lookup id = some p
  | "read_proof" => ∃ id, clean.lookup "transaction_id" = some (.str id) ∧ id ∈ b.known_transactions
  | _ => False

/-- The card can be read where the tool reads it, and the client's answer where it asks for
one. -/
def PaariBroker.Returns (T : Text) (b : PaariBroker) (name : String) (args : Json)
    (answer : ClientAnswer) : Prop :=
  ∀ clean, validate T name args = .ok clean →
    (name = "get_delegation" → CardReadable b.card) ∧ (b.Asks T name clean → answer.Readable T name)

/-- What `execute` promises: a dictionary. -/
def ToolOutcome.Answers (o : ToolOutcome) : Prop := ∃ kvs, o.result = .ok (.dict kvs)

section
variable {T : Text} {b : PaariBroker} {hex : String} {answer : ClientAnswer}

theorem answers_refusal (code message : String) (extra : List (String × Json)) :
    (b.answer (.ok (refuse code message extra))).Answers := ⟨_, rfl⟩

/-- A request comes back when the client does, and the rest of the handler then does. -/
theorem request_answers {call : ClientCall} {k : Json → PaariBroker × Except BrokerExc Json} :
    (b.request T call answer k).Answers ↔
      match answer with
      | .body x => ∃ kvs, (k x).2 = .ok (.dict kvs)
      | .protocolError _ _ => True
      | .raised _ => False := by
  unfold PaariBroker.request
  cases answer with
  | body x => exact Iff.rfl
  | protocolError status detail => exact iff_of_true ⟨_, rfl⟩ trivial
  | raised text =>
    refine iff_of_false (fun h => ?_) id
    obtain ⟨kvs, h⟩ := h
    exact absurd h nofun

theorem bind_ok_iff {ε α β : Type} {x : Except ε α} {f : α → Except ε β} {r : β} :
    x >>= f = .ok r ↔ ∃ a, x = .ok a ∧ f a = .ok r := by
  constructor
  · exact ok_of_bind
  · intro h
    obtain ⟨a, rfl, hf⟩ := h
    exact hf

theorem mapError_ok_iff {ε δ α : Type} {x : Except ε α} {f : ε → δ} {a : α} :
    x.mapError f = .ok a ↔ x = .ok a := by
  cases x with
  | error e => exact iff_of_false nofun nofun
  | ok b => exact Iff.intro (fun h => congrArg _ (Except.ok.inj h)) (fun h => congrArg _ (Except.ok.inj h))

theorem get_ok_iff {x v : Json} {k : String} :
    x.get k = .ok v ↔ ∃ kvs, x = .dict kvs ∧ (kvs.lookup k).getD .null = v := by
  constructor
  · exact ok_of_get
  · intro h
    obtain ⟨kvs, rfl, rfl⟩ := h
    rfl

theorem pyDict_ok_iff {x y : Json} : pyDict x = .ok y ↔ ∃ kvs, x = .dict kvs ∧ .dict kvs = y := by
  cases x with
  | dict kvs =>
    constructor
    · intro h
      exact ⟨kvs, rfl, Except.ok.inj h⟩
    · intro h
      obtain ⟨kvs', hx, rfl⟩ := h
      rw [hx]
      rfl
  | _ =>
    refine iff_of_false nofun fun h => ?_
    obtain ⟨kvs, hx, -⟩ := h
    exact absurd hx nofun

theorem get_delegation_answers : b.tool_get_delegation.Answers ↔ CardReadable b.card := by
  unfold PaariBroker.tool_get_delegation PaariBroker.answer ToolOutcome.Answers CardReadable
  simp only [mapError_ok_iff, bind_ok_iff, get_ok_iff, pyDict_ok_iff]
  constructor
  · intro h
    obtain ⟨_, value, ⟨kvs, hcard, hvalue⟩, _, ⟨limits, hlimits, -⟩, -⟩ := h
    rw [← hvalue] at hlimits
    exact ⟨kvs, limits, hcard, hlimits⟩
  · intro h
    obtain ⟨kvs, limits, hcard, hlimits⟩ := h
    exact ⟨_, _, ⟨kvs, hcard, rfl⟩, _, ⟨limits, hlimits, rfl⟩, _, ⟨kvs, hcard, rfl⟩, rfl⟩

theorem getD_ok_iff {x v d : Json} {k : String} :
    x.getD k d = .ok v ↔ ∃ kvs, x = .dict kvs ∧ (kvs.lookup k).getD d = v := by
  cases x with
  | dict kvs =>
    constructor
    · intro h
      exact ⟨kvs, rfl, Except.ok.inj h⟩
    · intro h
      obtain ⟨kvs', hx, rfl⟩ := h
      rw [Json.dict.inj hx]
      rfl
  | _ =>
    refine iff_of_false nofun fun h => ?_
    obtain ⟨kvs, hx, -⟩ := h
    exact absurd hx nofun

/-- What the handler makes of a body it can read. -/
theorem proposal_reply_ok (req : IntentBody) {body : Json} (h : DecisionReadable T body) :
    ∃ kvs p, PaariBroker.proposal_reply T body req = .ok (.dict kvs, p) := by
  obtain ⟨kvs, rfl, ⟨reasons, hreasons⟩, hallow⟩ := h
  unfold PaariBroker.proposal_reply
  simp only [Json.get, Json.getD, Except.bind, bind, hreasons]
  by_cases hdecision : pyLower T ((kvs.lookup "decision").getD (.str "")) = "allow"
  · obtain ⟨authorization, hauthorization⟩ := hallow hdecision
    rw [if_neg (not_not.mpr hdecision), hauthorization]
    dsimp only
    split
    · exact ⟨_, none, rfl⟩
    · exact ⟨_, some _, rfl⟩
  · rw [if_pos hdecision]
    exact ⟨_, none, rfl⟩

theorem decisionReadable_of_ok {req : IntentBody} {body : Json} {r : Json × Option PendingPayment}
    (h : PaariBroker.proposal_reply T body req = .ok r) : DecisionReadable T body := by
  unfold PaariBroker.proposal_reply at h
  obtain ⟨decision, hdecision, h₁⟩ := ok_of_bind h
  obtain ⟨listed, hlisted, h₂⟩ := ok_of_bind h₁
  obtain ⟨reasons, hreasons, h₃⟩ := ok_of_bind h₂
  obtain ⟨kvs, rfl, hkey⟩ := getD_ok_iff.mp hdecision
  obtain rfl : (kvs.lookup "reasons").getD .null = listed := Except.ok.inj hlisted
  refine ⟨kvs, rfl, ⟨reasons, hreasons⟩, fun hallow => ?_⟩
  dsimp only at h₃
  rw [hkey] at hallow
  rw [if_neg (not_not.mpr hallow)] at h₃
  obtain ⟨value, hvalue, h₄⟩ := ok_of_bind h₃
  obtain ⟨id, hid, -⟩ := ok_of_bind h₄
  obtain rfl : (kvs.lookup "authorization").getD .null = value := Except.ok.inj hvalue
  obtain ⟨authorization, hauthorization, -⟩ := ok_of_get hid
  exact ⟨authorization, hauthorization⟩

theorem proposal_done_answers {req : IntentBody} {body : Json} :
    (∃ kvs, (b.proposal_done T req body).2 = .ok (.dict kvs)) ↔ DecisionReadable T body := by
  constructor
  · intro h
    obtain ⟨kvs, h⟩ := h
    unfold PaariBroker.proposal_done at h
    split at h
    · exact absurd h nofun
    · split at h
      · exact absurd h nofun
      · next hreply => exact decisionReadable_of_ok hreply
      · next hreply => exact decisionReadable_of_ok hreply
  · intro h
    obtain ⟨kvs, p, hreply⟩ := proposal_reply_ok req h
    obtain ⟨members, rfl, -⟩ := h
    unfold PaariBroker.proposal_done
    rw [if_neg (show ¬(!(Json.dict members).isDict) = true from Bool.false_ne_true), hreply]
    cases p with
    | none => exact ⟨kvs, rfl⟩
    | some p => exact ⟨kvs, rfl⟩

theorem propose_answers {merchant currency : String} {amount : Int} {purpose category : Json} :
    (b.tool_propose_payment T merchant amount currency purpose category hex answer).Answers ↔
      (0 < amount → amount ≤ b.max_amount_minor_units → T.upper currency = T.upper b.currency →
        answer.Readable T "propose_payment") := by
  unfold PaariBroker.tool_propose_payment
  by_cases hpos : amount ≤ 0
  · rw [if_pos hpos]
    exact iff_of_true (answers_refusal _ _ _) fun h => absurd hpos (by omega)
  · rw [if_neg hpos]
    by_cases hlimit : amount > b.max_amount_minor_units
    · rw [if_pos hlimit]
      exact iff_of_true (answers_refusal _ _ _) fun _ h => absurd hlimit (by omega)
    · rw [if_neg hlimit]
      by_cases hcurrency : T.upper currency = T.upper b.currency
      · rw [if_neg (not_not.mpr hcurrency)]
        have hasked : ∀ {p : Prop}, (0 < amount → amount ≤ b.max_amount_minor_units →
            T.upper currency = T.upper b.currency → p) ↔ p :=
          ⟨fun h => h (by omega) (by omega) hcurrency, fun h _ _ _ => h⟩
        rw [hasked, request_answers]
        cases answer with
        | body x => exact proposal_done_answers
        | protocolError status detail => exact Iff.rfl
        | raised text => exact Iff.rfl
      · rw [if_pos hcurrency]
        exact iff_of_true (answers_refusal _ _ _) fun _ _ h => absurd h hcurrency

theorem confirm_answers {id : String} :
    (b.tool_confirm_payment T id answer).Answers ↔
      (b.consumes < b.max_consumes → (∃ p, b.pending.lookup id = some p) →
        answer.Readable T "confirm_payment") := by
  unfold PaariBroker.tool_confirm_payment
  by_cases hleft : b.consumes ≥ b.max_consumes
  · rw [if_pos hleft]
    exact iff_of_true (answers_refusal _ _ _) fun h => absurd hleft (by omega)
  · rw [if_neg hleft]
    cases hp : b.pending.lookup id with
    | none =>
      refine iff_of_true (answers_refusal _ _ _) fun _ h => ?_
      obtain ⟨p, h⟩ := h
      exact absurd h nofun
    | some p =>
      have hasked : ∀ {q : Prop}, (b.consumes < b.max_consumes → (∃ p', some p = some p') → q) ↔ q :=
        ⟨fun h => h (by omega) ⟨p, rfl⟩, fun h _ _ => h⟩
      rw [hasked, request_answers]
      cases answer with
      | body x =>
        cases x with
        | dict kvs => exact iff_of_true ⟨_, rfl⟩ rfl
        | _ =>
          refine iff_of_false (fun h => ?_) (fun h => absurd h Bool.false_ne_true)
          obtain ⟨kvs, h⟩ := h
          exact absurd h nofun
      | protocolError status detail => exact Iff.rfl
      | raised text => exact Iff.rfl

theorem proof_reply_iff {bundle : Json} {id : String} :
    (∃ kvs, PaariBroker.proof_reply bundle id = .ok (.dict kvs)) ↔ BundleReadable bundle := by
  constructor
  · intro h
    obtain ⟨reply, h⟩ := h
    unfold PaariBroker.proof_reply at h
    obtain ⟨v₁, hartifacts, h₁⟩ := ok_of_bind h
    obtain ⟨v₂, haudit, h₂⟩ := ok_of_bind h₁
    obtain ⟨v₃, hexecution, h₃⟩ := ok_of_bind h₂
    obtain ⟨v₄, hresult, h₄⟩ := ok_of_bind h₃
    obtain ⟨v₅, hevents, h₅⟩ := ok_of_bind h₄
    obtain ⟨n, hlen, h₆⟩ := ok_of_bind h₅
    obtain ⟨v₆, hchain, h₇⟩ := ok_of_bind h₆
    obtain ⟨v₇, hstate, h₈⟩ := ok_of_bind h₇
    obtain ⟨v₈, hfinal, -⟩ := ok_of_bind h₈
    obtain ⟨kvs, hbundle, hv₁⟩ := ok_of_get hartifacts
    obtain ⟨artifacts, hstages, hv₂⟩ := ok_of_get haudit
    obtain ⟨audit, hrecord, hv₅⟩ := ok_of_get hevents
    obtain ⟨execution, hdone, -⟩ := ok_of_get hstate
    obtain ⟨result, hsettled, -⟩ := ok_of_get hfinal
    have hstage : ∀ {stage : String} {v : Json}, v₁.orEmpty.get stage = .ok v →
        (artifacts.lookup stage).getD .null = v := by
      intro stage v hget
      rw [hstages] at hget
      exact Except.ok.inj hget
    rw [← hv₁] at hstages
    rw [← hv₂] at hrecord
    rw [← hv₅] at hlen
    rw [← hstage hexecution] at hdone
    rw [← hstage hresult] at hsettled
    exact ⟨kvs, artifacts, audit, hbundle, hstages, hrecord, ⟨execution, hdone⟩, ⟨result, hsettled⟩, n,
      hlen⟩
  · intro h
    obtain ⟨kvs, artifacts, audit, rfl, hstages, hrecord, ⟨execution, hdone⟩, ⟨result, hsettled⟩, n,
      hlen⟩ := h
    unfold PaariBroker.proof_reply
    simp only [Json.get, Json.getD, bind, Except.bind, hstages, hrecord, hdone, hsettled, hlen]
    exact ⟨_, rfl⟩

theorem read_proof_answers {id : String} :
    (b.tool_read_proof T id answer).Answers ↔
      (id ∈ b.known_transactions → answer.Readable T "read_proof") := by
  unfold PaariBroker.tool_read_proof
  by_cases hknown : id ∈ b.known_transactions
  · rw [if_neg (not_not.mpr hknown), request_answers]
    have hasked : ∀ {q : Prop}, (id ∈ b.known_transactions → q) ↔ q := ⟨fun h => h hknown, fun h _ => h⟩
    rw [hasked]
    cases answer with
    | body x =>
      dsimp only
      by_cases hdict : x.isDict = true
      · rw [if_neg (by rw [hdict]; decide)]
        simp only [mapError_ok_iff]
        exact proof_reply_iff
      · refine iff_of_false (fun h => ?_) fun h => ?_
        · rw [if_pos (by rw [Bool.eq_false_iff.mpr hdict]; rfl)] at h
          obtain ⟨kvs, h⟩ := h
          exact absurd h nofun
        · obtain ⟨kvs, _, _, rfl, -⟩ := h
          exact hdict rfl
    | protocolError status detail => exact Iff.rfl
    | raised text => exact Iff.rfl
  · rw [if_pos hknown]
    exact iff_of_true (answers_refusal _ _ _) fun h => absurd h hknown

theorem authority_answers :
    (b.tool_get_payment_authority T answer).Answers ↔
      (b.reads_mandate = true → answer.Readable T "get_payment_authority") := by
  unfold PaariBroker.tool_get_payment_authority
  by_cases hreads : b.reads_mandate = true
  · rw [if_neg (by rw [hreads]; decide)]
    have hasked : ∀ {q : Prop}, (b.reads_mandate = true → q) ↔ q := ⟨fun h => h hreads, fun h _ => h⟩
    rw [hasked]
    split
    · exact iff_of_true ⟨_, rfl⟩ trivial
    · rw [request_answers]
      cases answer with
      | body x => exact iff_of_true ⟨_, rfl⟩ trivial
      | protocolError status detail => exact Iff.rfl
      | raised text => exact Iff.rfl
  · rw [if_pos (by rw [Bool.eq_false_iff.mpr hreads]; rfl)]
    exact iff_of_true (answers_refusal _ _ _) fun h => absurd h hreads

/-! ### What validation lets through -/

/-- A value of the type that the contract names. -/
def ArgType.Holds : ArgType → Json → Prop
  | .int, v => ∃ i, v = .int i
  | .str, v => ∃ s, v = .str s

theorem checkArg_holds {tool key : String} {t : ArgType} {value v : Json}
    (h : checkArg T tool key t value = .ok v) (hvalue : value.isNull = false) : t.Holds v := by
  cases t with
  | int =>
    cases value with
    | int i => exact ⟨i, (Except.ok.inj h).symm⟩
    | _ => exact absurd h nofun
  | str =>
    cases value with
    | str s =>
      unfold checkArg at h
      dsimp only at h
      split at h
      · exact absurd h nofun
      · split at h
        · exact absurd h nofun
        · exact ⟨T.strip s, (Except.ok.inj h).symm⟩
    | null => exact absurd hvalue Bool.noConfusion
    | _ => exact absurd h nofun

theorem checkArgs_lookup {tool : String} {args : List (String × Json)} {spec : List (String × ArgType)} :
    ∀ {clean : List (String × Json)}, checkArgs T tool args spec = .ok clean → (spec.map Prod.fst).Nodup →
      ∀ key t value, (key, t) ∈ spec → args.lookup key = some value →
        ∃ v, checkArg T tool key t value = .ok v ∧ clean.lookup key = some v := by
  induction spec with
  | nil => exact fun _ _ key t value hmem _ => absurd hmem List.not_mem_nil
  | cons kt spec ih =>
    obtain ⟨k, t⟩ := kt
    intro clean h hnodup key t' value hmem hlookup
    rw [List.map_cons, List.nodup_cons] at hnodup
    have hother : key ≠ k → (key, t') ∈ spec := by
      intro hne
      rcases List.mem_cons.mp hmem with heq | hmem
      · exact absurd (Prod.mk.inj heq).1 hne
      · exact hmem
    unfold checkArgs at h
    cases hk : args.lookup k with
    | none =>
      rw [hk] at h
      have hne : key ≠ k := fun heq => by
        rw [heq, hk] at hlookup
        exact absurd hlookup nofun
      exact ih h hnodup.2 key t' value (hother hne) hlookup
    | some first =>
      rw [hk] at h
      obtain ⟨v, hv, h₁⟩ := ok_of_bind h
      obtain ⟨rest, hrest, h₂⟩ := ok_of_bind h₁
      obtain rfl : (k, v) :: rest = clean := Except.ok.inj h₂
      by_cases heq : key = k
      · subst heq
        have htype : t' = t := by
          rcases List.mem_cons.mp hmem with hhead | hmem
          · exact (Prod.mk.inj hhead).2
          · exact absurd (List.mem_map_of_mem hmem) hnodup.1
        obtain rfl : first = value := Option.some.inj (hk.symm.trans hlookup)
        exact ⟨v, htype ▸ hv, List.lookup_cons_self⟩
      · obtain ⟨v', hv', hfound⟩ := ih hrest hnodup.2 key t' value (hother heq) hlookup
        refine ⟨v', hv', ?_⟩
        rw [List.lookup_cons, beq_false_of_ne heq]
        exact hfound

/-- The arguments a tool requires are there, with their types. -/
theorem validate_required (key : String) (t : ArgType) {name : String} {args : Json}
    {clean : List (String × Json)} {spec : List (String × ArgType)} (h : validate T name args = .ok clean)
    (hspec : toolSpec name = some spec) (hnodup : (spec.map Prod.fst).Nodup) (hkey : (key, t) ∈ spec)
    (hrequired : key ∈ toolRequired name) : ∃ v, clean.lookup key = some v ∧ t.Holds v := by
  unfold validate at h
  rw [hspec] at h
  dsimp only at h
  split at h
  · exact absurd h nofun
  · next kvs _ =>
    split at h
    · exact absurd h nofun
    · split at h
      · exact absurd h nofun
      · next hmissing =>
        have hgiven : ((kvs.lookup key).getD .null).isNull = false := by
          by_contra hnull
          refine hmissing (List.ne_nil_of_mem (List.mem_filter.mpr ⟨hrequired, ?_⟩))
          rwa [Bool.not_eq_false] at hnull
        cases hlookup : kvs.lookup key with
        | none =>
          rw [hlookup] at hgiven
          exact absurd hgiven Bool.noConfusion
        | some value =>
          rw [hlookup] at hgiven
          obtain ⟨v, hv, hfound⟩ := checkArgs_lookup h hnodup key t value hkey hlookup
          exact ⟨v, hfound, checkArg_holds hv hgiven⟩

/-- The tools are five. -/
theorem tool_of_validate {name : String} {args : Json} {clean : List (String × Json)}
    (h : validate T name args = .ok clean) : name = "get_delegation" ∨ name = "get_payment_authority" ∨
      name = "propose_payment" ∨ name = "confirm_payment" ∨ name = "read_proof" := by
  by_contra hnone
  simp only [not_or] at hnone
  have hspec : toolSpec name = none := by
    unfold toolSpec
    split <;> simp_all
  unfold validate at h
  rw [hspec] at h
  exact absurd h nofun

/-- **Which tool calls come back.** -/
theorem execute_answers {name : String} {args : Json} :
    (b.execute T name args hex answer).Answers ↔ b.Returns T name args answer := by
  unfold PaariBroker.execute PaariBroker.Returns
  cases hvalid : validate T name args with
  | error e => exact iff_of_true (answers_refusal _ _ _) nofun
  | ok clean =>
    dsimp only
    have hclean : ∀ {p : List (String × Json) → Prop},
        (∀ clean', (Except.ok clean : Except ToolArgsError _) = .ok clean' → p clean') ↔ p clean :=
      ⟨fun h => h clean rfl, fun h clean' heq => Except.ok.inj heq ▸ h⟩
    rw [hclean]
    rcases tool_of_validate hvalid with rfl | rfl | rfl | rfl | rfl
    · show b.tool_get_delegation.Answers ↔ _
      rw [get_delegation_answers]
      exact ⟨fun h => ⟨fun _ => h, fun hasks => hasks.elim⟩, fun h => h.1 rfl⟩
    · show (b.tool_get_payment_authority T answer).Answers ↔ _
      rw [authority_answers]
      exact ⟨fun h => ⟨nofun, h⟩, fun h => h.2⟩
    · obtain ⟨_, hmerchant, merchant, rfl⟩ :=
        validate_required "merchant" .str hvalid rfl (by decide) (by decide) (by decide)
      obtain ⟨_, hamount, amount, rfl⟩ :=
        validate_required "amount_minor_units" .int hvalid rfl (by decide) (by decide) (by decide)
      obtain ⟨_, hcurrency, currency, rfl⟩ :=
        validate_required "currency" .str hvalid rfl (by decide) (by decide) (by decide)
      unfold PaariBroker.dispatch
      rw [hmerchant, hamount, hcurrency]
      show (b.tool_propose_payment T merchant amount currency _ _ hex answer).Answers ↔ _
      rw [propose_answers]
      constructor
      · intro h
        refine ⟨nofun, fun hasks => ?_⟩
        obtain ⟨amount', currency', hamount', hcurrency', hpos, hlimit, hsame⟩ := hasks
        obtain rfl : amount = amount' := Json.int.inj (Option.some.inj (hamount.symm.trans hamount'))
        obtain rfl : currency = currency' := Json.str.inj (Option.some.inj (hcurrency.symm.trans hcurrency'))
        exact h hpos hlimit hsame
      · intro h hpos hlimit hsame
        exact h.2 ⟨amount, currency, hamount, hcurrency, hpos, hlimit, hsame⟩
    · obtain ⟨_, hid, id, rfl⟩ :=
        validate_required "authorization_id" .str hvalid rfl (by decide) (by decide) (by decide)
      unfold PaariBroker.dispatch
      rw [hid]
      show (b.tool_confirm_payment T id answer).Answers ↔ _
      rw [confirm_answers]
      constructor
      · intro h
        refine ⟨nofun, fun hasks => ?_⟩
        obtain ⟨hleft, id', p, hid', hp⟩ := hasks
        obtain rfl : id = id' := Json.str.inj (Option.some.inj (hid.symm.trans hid'))
        exact h hleft ⟨p, hp⟩
      · intro h hleft hpending
        obtain ⟨p, hp⟩ := hpending
        exact h.2 ⟨hleft, id, p, hid, hp⟩
    · obtain ⟨_, hid, id, rfl⟩ :=
        validate_required "transaction_id" .str hvalid rfl (by decide) (by decide) (by decide)
      unfold PaariBroker.dispatch
      rw [hid]
      show (b.tool_read_proof T id answer).Answers ↔ _
      rw [read_proof_answers]
      constructor
      · intro h
        refine ⟨nofun, fun hasks => ?_⟩
        obtain ⟨id', hid', hknown⟩ := hasks
        obtain rfl : id = id' := Json.str.inj (Option.some.inj (hid.symm.trans hid'))
        exact h hknown
      · intro h hknown
        exact h.2 ⟨id, hid, hknown⟩

end

/-! ## The loop -/

def SYSTEM_PROMPT : String :=
  "You are a shopping agent that can pay through Paari, a governance layer.\n\n" ++
  "You do not hold a signing key and you cannot pay by asking directly. You propose; Paari\n" ++
  "authorizes a single-use ticket; a broker you cannot touch executes it.\n\n" ++
  "Rules:\n" ++
  "- Call get_delegation before proposing a payment and stay inside the cap it reports.\n" ++
  "- Use only ids that a tool returned to you. Invented ids never reach the server.\n" ++
  "- A denial is a decision about these values, not an obstacle. Do not retry the same\n" ++
  "  proposal, do not split it into smaller repeated payments, and do not ask again for a\n" ++
  "  higher limit. Report the denial instead.\n" ++
  "- Confirm at most the payment the user asked for, then verify it with read_proof.\n" ++
  "- When you are done, or blocked, answer in plain prose and stop calling tools.\n"

structure ToolCall where
  id : String
  name : String
  arguments : Json

/-- `Reply`, what the model completes a conversation with. -/
structure ModelReply where
  text : Option String
  tool_calls : List ToolCall
  finish_reason : String
  usage : List (String × Json)

/-- One message of the conversation. What a tool message carries is the JSON value that is
written into it. -/
inductive Message
  | system (content : String)
  | user (content : String)
  | assistant (content : Option String) (tool_calls : List ToolCall)
  | tool (tool_call_id : String) (content : Json)

structure TranscriptEntry where
  turn : Nat
  tool : String
  arguments : Json
  result : Json

/-- `Outcome` -/
structure GoalOutcome where
  ok : Bool := false
  turns : Nat := 0
  tool_calls : Nat := 0
  usage : List (String × Int) := []
  messages : List Message
  transcript : List TranscriptEntry := []
  final_text : Option String := none
  payment_executed : Bool := false
  settled_state : Json := .null
  transaction_id : Json := .null
  error : Option String := none

/-- `outcome.usage[key] = outcome.usage.get(key, 0) + value`, for the values that are
integers. -/
def addUsage (usage : List (String × Int)) : List (String × Json) → List (String × Int)
  | [] => usage
  | (key, .int value) :: more =>
    if usage.any fun kv => kv.1 == key then
      addUsage (usage.map fun kv => if kv.1 = key then (key, kv.2 + value) else kv) more
    else addUsage (usage ++ [(key, value)]) more
  | _ :: more => addUsage usage more

/-- What a tool call draws and hears, should it make a request. -/
structure ToolDraw where
  hex : String
  answer : ClientAnswer

structure LoopState where
  broker : PaariBroker
  outcome : GoalOutcome

/-- An exception that leaves `run_goal`, the tool call it comes from, and the outcome that is
lost with it. -/
structure Interrupted where
  exc : BrokerExc
  broker : PaariBroker
  call : ToolCall
  answer : ClientAnswer
  outcome : GoalOutcome

/-- `[call.id or f"call_{turn}_{i}" for i, call in enumerate(reply.tool_calls, 1)]`, put into
the calls. -/
def numberCalls (turn : Nat) (calls : List ToolCall) : List ToolCall :=
  calls.mapIdx fun i call =>
    { call with
      id := if call.id = "" then "call_" ++ toString turn ++ "_" ++ toString (i + 1) else call.id }

/-- The broker with the model's tool call stamped on it. -/
def PaariBroker.stamped (b : PaariBroker) (call : ToolCall) : PaariBroker :=
  { b with
    causal := b.causal.map fun c => { c with tool_call_id := some call.id, tool_name := some call.name } }

/-- The body of the loop over the tool calls of one reply. -/
def executeCall (T : Text) (client : Nat → ToolDraw) (turn : Nat) (s : LoopState) (call : ToolCall) :
    Except Interrupted LoopState :=
  let draw := client s.outcome.tool_calls
  let outcome := { s.outcome with tool_calls := s.outcome.tool_calls + 1 }
  let broker := s.broker.stamped call
  let o := broker.execute T call.name call.arguments draw.hex draw.answer
  let interrupted (exc : BrokerExc) : Except Interrupted LoopState :=
    .error ⟨exc, broker, call, draw.answer, outcome⟩
  match o.result with
  | .error exc => interrupted exc
  | .ok result =>
    match result.get "ok", result.get "state", result.get "transaction_id" with
    | .ok ok, .ok state, .ok transaction_id =>
      let outcome : GoalOutcome := { outcome with
        transcript := outcome.transcript ++ [⟨turn, call.name, call.arguments, result⟩] }
      let outcome : GoalOutcome := if ok.truthy && call.name == "confirm_payment" then
          { outcome with
            payment_executed := true, settled_state := state, transaction_id := transaction_id }
        else outcome
      .ok ⟨o.broker, { outcome with messages := outcome.messages ++ [.tool call.id result] }⟩
    | _, _, _ => interrupted (.python .attributeError)

/-- The loop over the tool calls of one reply. -/
def executeCalls (T : Text) (client : Nat → ToolDraw) (turn : Nat) :
    LoopState → List ToolCall → Except Interrupted LoopState
  | s, [] => .ok s
  | s, call :: calls => do
    let s ← executeCall T client turn s call
    executeCalls T client turn s calls

/-- The loop over the turns, with `left` of them to go. -/
def runTurns (T : Text) (model : Nat → List Message → ModelReply) (client : Nat → ToolDraw)
    (max_tool_calls : Int) : Nat → Nat → LoopState → Except Interrupted LoopState
  | 0, _, s => .ok { s with outcome := { s.outcome with error := some "MAX_TURNS" } }
  | left + 1, turn, s =>
    let reply := model turn s.outcome.messages
    let outcome := { s.outcome with turns := turn, usage := addUsage s.outcome.usage reply.usage }
    if reply.tool_calls.isEmpty then
      .ok { s with outcome :=
        match reply.text with
        | none => { outcome with
            error := some ("EMPTY_REPLY:" ++ (if reply.finish_reason = "" then "unknown" else reply.finish_reason)) }
        | some text => { outcome with final_text := some text, ok := true } }
    else if (outcome.tool_calls : Int) + reply.tool_calls.length > max_tool_calls then
      .ok { s with outcome := { outcome with error := some "MAX_TOOL_CALLS" } }
    else
      let calls := numberCalls turn reply.tool_calls
      let s := { s with outcome := { outcome with
        messages := outcome.messages ++ [.assistant reply.text calls] } }
      (executeCalls T client turn s calls).bind (runTurns T model client max_tool_calls left (turn + 1))

/-- `run_goal`; the broker is left as the run made it. -/
def run_goal (T : Text) (model : Nat → List Message → ModelReply) (client : Nat → ToolDraw)
    (broker : PaariBroker) (goal : String) (max_turns max_tool_calls : Int) :
    Except Interrupted LoopState :=
  runTurns T model client max_tool_calls max_turns.toNat 1
    ⟨broker, { messages := [.system SYSTEM_PROMPT, .user goal] }⟩

/-! ## What a run that ends has answered and paid -/

/-- Every tool call in the conversation is answered, by one message with its id, before
anything else is said. -/
inductive Conversed : List Message → Prop
  | opening (goal : String) : Conversed [.system SYSTEM_PROMPT, .user goal]
  | round {messages : List Message} (h : Conversed messages) (content : Option String)
      (calls : List ToolCall) (results : List Json) (hlength : results.length = calls.length) :
    Conversed (messages ++ [.assistant content calls] ++
      List.zipWith (fun call result => .tool call.id result) calls results)

section
variable {T : Text} {client : Nat → ToolDraw} {turn : Nat} {s s' : LoopState}

theorem proposal_counts {b : PaariBroker} {req : IntentBody} {body : Json} :
    (b.proposal_done T req body).1.consumes = b.consumes := by
  unfold PaariBroker.proposal_done
  split
  · rfl
  · split <;> rfl

theorem request_counts {b : PaariBroker} {call : ClientCall} {answer : ClientAnswer}
    {k : Json → PaariBroker × Except BrokerExc Json} (hk : ∀ x, (k x).1.consumes = b.consumes) :
    (b.request T call answer k).broker.consumes = b.consumes := by
  unfold PaariBroker.request
  split
  · exact hk _
  · rfl
  · rfl

/-- The broker counts a payment only when it tells the model so. -/
theorem execute_counts (b : PaariBroker) (name : String) (args : Json) (hex : String)
    (answer : ClientAnswer) : (b.execute T name args hex answer).broker.consumes = b.consumes ∨
      name = "confirm_payment" ∧ ∃ kvs, (b.execute T name args hex answer).result = .ok (.dict kvs) ∧
        kvs.lookup "ok" = some (.bool true) := by
  unfold PaariBroker.execute
  split
  · exact .inl rfl
  next clean _ =>
  unfold PaariBroker.dispatch
  split
  · exact .inl rfl
  · refine .inl ?_
    unfold PaariBroker.tool_get_payment_authority
    split
    · rfl
    · split
      · rfl
      · exact request_counts fun _ => rfl
  · refine .inl ?_
    unfold PaariBroker.tool_propose_payment
    split
    · rfl
    · split
      · rfl
      · split
        · rfl
        · exact request_counts fun _ => proposal_counts
  · unfold PaariBroker.tool_confirm_payment
    split
    · exact .inl rfl
    · split
      · exact .inl rfl
      · unfold PaariBroker.request
        split
        · next body =>
          cases body with
          | dict kvs => exact .inr ⟨rfl, _, rfl, rfl⟩
          | _ => exact .inl rfl
        · exact .inl rfl
        · exact .inl rfl
  · refine .inl ?_
    unfold PaariBroker.tool_read_proof
    split
    · rfl
    · refine request_counts fun x => ?_
      split <;> rfl
  · exact .inl rfl

/-- The outcome with what one tool call came to. -/
def GoalOutcome.recorded (o : GoalOutcome) (turn : Nat) (call : ToolCall) (result : Json) : GoalOutcome :=
  let field (k : String) : Json := ((result.get k).toOption).getD .null
  let outcome : GoalOutcome := { o with
    tool_calls := o.tool_calls + 1
    transcript := o.transcript ++ [⟨turn, call.name, call.arguments, result⟩]
    messages := o.messages ++ [.tool call.id result] }
  if (field "ok").truthy && call.name == "confirm_payment" then
    { outcome with
      payment_executed := true, settled_state := field "state", transaction_id := field "transaction_id" }
  else outcome

section
variable {o : GoalOutcome} {call : ToolCall} {kvs : List (String × Json)}

theorem recorded_paid
    (h : (((kvs.lookup "ok").getD .null).truthy && call.name == "confirm_payment") = true) :
    o.recorded turn call (.dict kvs) = { o with
      tool_calls := o.tool_calls + 1
      transcript := o.transcript ++ [⟨turn, call.name, call.arguments, .dict kvs⟩]
      messages := o.messages ++ [.tool call.id (.dict kvs)]
      payment_executed := true
      settled_state := (kvs.lookup "state").getD .null
      transaction_id := (kvs.lookup "transaction_id").getD .null } := if_pos h

theorem recorded_unpaid
    (h : ¬(((kvs.lookup "ok").getD .null).truthy && call.name == "confirm_payment") = true) :
    o.recorded turn call (.dict kvs) = { o with
      tool_calls := o.tool_calls + 1
      transcript := o.transcript ++ [⟨turn, call.name, call.arguments, .dict kvs⟩]
      messages := o.messages ++ [.tool call.id (.dict kvs)] } := if_neg h

end

/-- The outcome of the `execute` that a tool call makes. -/
def executed (T : Text) (client : Nat → ToolDraw) (s : LoopState) (call : ToolCall) : ToolOutcome :=
  (s.broker.stamped call).execute T call.name call.arguments (client s.outcome.tool_calls).hex
    (client s.outcome.tool_calls).answer

/-- A tool call that comes back is recorded. -/
theorem executeCall_ok {call : ToolCall} {kvs : List (String × Json)}
    (h : (executed T client s call).result = .ok (.dict kvs)) :
    executeCall T client turn s call =
      .ok ⟨(executed T client s call).broker, s.outcome.recorded turn call (.dict kvs)⟩ := by
  unfold executed at h ⊢
  unfold executeCall
  dsimp only
  rw [h]
  dsimp only [Json.get, Json.getD]
  by_cases hpaid : (((kvs.lookup "ok").getD .null).truthy && call.name == "confirm_payment") = true
  · rw [if_pos hpaid, recorded_paid hpaid]
  · rw [if_neg hpaid, recorded_unpaid hpaid]

/-- One that does not leaves the loop. -/
theorem executeCall_error (turn : Nat) {call : ToolCall} (h : ¬(executed T client s call).Answers) :
    ∃ e, executeCall T client turn s call = .error e ∧
      ¬e.broker.Returns T e.call.name e.call.arguments e.answer := by
  have hreturns : ¬(s.broker.stamped call).Returns T call.name call.arguments
      (client s.outcome.tool_calls).answer := fun hreturns => h (execute_answers.mpr hreturns)
  unfold executed ToolOutcome.Answers at h
  unfold executeCall
  dsimp only
  cases hresult : ((s.broker.stamped call).execute T call.name call.arguments
      (client s.outcome.tool_calls).hex (client s.outcome.tool_calls).answer).result with
  | error exc => exact ⟨_, rfl, hreturns⟩
  | ok result =>
    rw [hresult] at h
    cases result with
    | dict kvs => exact absurd ⟨kvs, rfl⟩ h
    | _ => exact ⟨_, rfl, hreturns⟩

/-- What is kept of the payments: an executed one is in the outcome. -/
def Recorded (s s' : LoopState) : Prop :=
  (s.outcome.payment_executed = true → s'.outcome.payment_executed = true) ∧
    (s'.broker.consumes ≠ s.broker.consumes → s'.outcome.payment_executed = true)

theorem Recorded.trans {s'' : LoopState} (h : Recorded s s') (h' : Recorded s' s'') : Recorded s s'' := by
  refine ⟨fun hdone => h'.1 (h.1 hdone), fun hcounted => ?_⟩
  by_cases hlater : s''.broker.consumes = s'.broker.consumes
  · exact h'.1 (h.2 fun hsame => hcounted (hlater.trans hsame))
  · exact h'.2 hlater

theorem recorded_messages (o : GoalOutcome) (call : ToolCall) (result : Json) :
    (o.recorded turn call result).messages = o.messages ++ [.tool call.id result] := by
  unfold GoalOutcome.recorded
  dsimp only
  split <;> rfl

theorem recorded_executed (o : GoalOutcome) (call : ToolCall) (result : Json)
    (h : o.payment_executed = true) : (o.recorded turn call result).payment_executed = true := by
  unfold GoalOutcome.recorded
  dsimp only
  split
  · rfl
  · exact h

/-- One tool call: its message, and its payment. -/
theorem executeCall_keeps {call : ToolCall} (h : executeCall T client turn s call = .ok s') :
    (∃ result, s'.outcome.messages = s.outcome.messages ++ [.tool call.id result]) ∧ Recorded s s' := by
  by_cases hanswers : (executed T client s call).Answers
  · obtain ⟨kvs, hkvs⟩ := hanswers
    rw [executeCall_ok hkvs] at h
    obtain rfl := Except.ok.inj h
    refine ⟨⟨.dict kvs, recorded_messages _ _ _⟩, recorded_executed _ _ _, fun hcounted => ?_⟩
    rcases execute_counts (s.broker.stamped call) call.name call.arguments
      (client s.outcome.tool_calls).hex (client s.outcome.tool_calls).answer with hsame | hpaid
    · exact absurd hsame hcounted
    · obtain ⟨hname, kvs', hkvs', hok⟩ := hpaid
      obtain rfl : kvs = kvs' := Json.dict.inj (Except.ok.inj (hkvs.symm.trans hkvs'))
      have hpaid : (((kvs.lookup "ok").getD .null).truthy && call.name == "confirm_payment") = true := by
        rw [hok, hname]
        rfl
      rw [recorded_paid hpaid]
  · obtain ⟨e, he, -⟩ := executeCall_error turn hanswers
    rw [he] at h
    exact absurd h nofun

/-- The tool calls of one reply: one message for each, in order. -/
theorem executeCalls_keeps {calls : List ToolCall} : ∀ {s s' : LoopState},
    executeCalls T client turn s calls = .ok s' →
      (∃ results : List Json, results.length = calls.length ∧ s'.outcome.messages =
        s.outcome.messages ++ List.zipWith (fun call result => .tool call.id result) calls results) ∧
      Recorded s s' := by
  induction calls with
  | nil =>
    intro s s' h
    obtain rfl := Except.ok.inj h
    exact ⟨⟨[], rfl, (List.append_nil _).symm⟩, id, fun hcounted => absurd rfl hcounted⟩
  | cons call calls ih =>
    intro s s' h
    obtain ⟨s₁, hfirst, hrest⟩ := ok_of_bind h
    obtain ⟨⟨result, hmessage⟩, hrecorded⟩ := executeCall_keeps hfirst
    obtain ⟨⟨results, hlength, hmessages⟩, hrecorded'⟩ := ih hrest
    refine ⟨⟨result :: results, congrArg Nat.succ hlength, ?_⟩, hrecorded.trans hrecorded'⟩
    rw [hmessages, hmessage, List.append_assoc]
    rfl

theorem executeCalls_error {calls : List ToolCall} : ∀ {s : LoopState} {e : Interrupted},
    executeCalls T client turn s calls = .error e →
      ¬e.broker.Returns T e.call.name e.call.arguments e.answer := by
  induction calls with
  | nil => exact fun h => absurd h nofun
  | cons call calls ih =>
    intro s e h
    by_cases hanswers : (executed T client s call).Answers
    · obtain ⟨kvs, hkvs⟩ := hanswers
      unfold executeCalls at h
      rw [executeCall_ok hkvs] at h
      exact ih h
    · obtain ⟨e', he', hreturns⟩ := executeCall_error turn hanswers
      unfold executeCalls at h
      rw [he'] at h
      obtain rfl : e' = e := Except.error.inj h
      exact hreturns

/-- The run ends with every tool call answered and every payment recorded; or a tool call
that does not come back ended it. -/
def EndsWell (T : Text) (s : LoopState) : Except Interrupted LoopState → Prop
  | .ok s' => Conversed s'.outcome.messages ∧ Recorded s s'
  | .error e => ¬e.broker.Returns T e.call.name e.call.arguments e.answer

theorem runTurns_keeps {model : Nat → List Message → ModelReply} {max_tool_calls : Int} (left : Nat) :
    ∀ (turn : Nat) (s : LoopState), Conversed s.outcome.messages →
      EndsWell T s (runTurns T model client max_tool_calls left turn s) := by
  induction left with
  | zero => exact fun _ s h => ⟨h, id, fun hcounted => absurd rfl hcounted⟩
  | succ left ih =>
    intro turn s hconversed
    unfold runTurns
    dsimp only
    split
    · -- the model is done
      cases (model turn s.outcome.messages).text with
      | none => exact ⟨hconversed, id, fun hcounted => absurd rfl hcounted⟩
      | some text => exact ⟨hconversed, id, fun hcounted => absurd rfl hcounted⟩
    · split
      · exact ⟨hconversed, id, fun hcounted => absurd rfl hcounted⟩
      · generalize hround : executeCalls T client turn _ _ = round
        cases round with
        | error e => exact executeCalls_error hround
        | ok s₁ =>
          obtain ⟨⟨results, hlength, hmessages⟩, hrecorded⟩ := executeCalls_keeps hround
          have hconversed₁ : Conversed s₁.outcome.messages := by
            rw [hmessages]
            exact .round hconversed _ _ results hlength
          have hrest := ih (turn + 1) s₁ hconversed₁
          show EndsWell T s (runTurns T model client max_tool_calls left (turn + 1) s₁)
          cases hend : runTurns T model client max_tool_calls left (turn + 1) s₁ with
          | error e =>
            rw [hend] at hrest
            exact hrest
          | ok s₂ =>
            rw [hend] at hrest
            exact ⟨hrest.1, hrecorded.trans hrest.2⟩

end

namespace Sample

/-- A model that proposes a payment, then confirms it and reads the proof in one reply. -/
def shopper : Nat → List Message → ModelReply
  | 1, _ => ⟨none, [⟨"1", "propose_payment", (propose "auth").args⟩], "tool_calls", []⟩
  | _, _ => ⟨none, [⟨"2", "confirm_payment", .dict [("authorization_id", .str "auth")]⟩,
      ⟨"3", "read_proof", .dict [("transaction_id", .str "TXN-llm-01234567")]⟩], "tool_calls", []⟩

/-- The proposal is allowed, the payment is executed, and the read of the proof times out. -/
def flaky : Nat → ToolDraw
  | 0 => ⟨"0123456789", (propose "auth").answer⟩
  | 1 => ⟨"", .body (.dict [("state", .str "PROVIDER_SUBMITTED")])⟩
  | _ => ⟨"", .raised "timed out"⟩

end Sample

end Paari
