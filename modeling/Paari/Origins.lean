import Paari.Pairing
import Paari.Unsubmitted

/-!
# Where a payment came from

An intent keeps the labels of the agent run that asked for it, if the caller named one. An
event tells the origin of a payment when it carries those labels wherever it changes the
payment's state, or, for a payment no run asked for, carries none. Three kinds of events
and three outcomes of a reconciliation are written without labels (`Bare`).
-/

namespace Paari

open Atomic

/-! ## Origins -/

/-- Who asked for a payment, as its intent stores it. -/
structure Origin where
  llm : LlmCausal
  attributed : Bool
deriving DecidableEq

def PaymentIntent.origin (i : PaymentIntent) : Origin := ⟨i.llm, i.llm_attributed⟩

/-- The labels an event of the payment should carry. -/
def Origin.labels (o : Origin) : List (String × Json) := if o.attributed then o.llm.detail else []

/-- What is not attributed has no labels. -/
def Origin.Sound (o : Origin) : Prop := o.attributed = false → o.llm = ⟨none, none, none, none⟩

/-- The event records a change of state. -/
def AuditEvent.Changes (e : AuditEvent) : Prop := ∃ p, e.pair = some p ∧ p.1 ≠ p.2

/-- The changes that are recorded without labels. -/
def AuditEvent.Bare (e : AuditEvent) : Prop :=
  e.kind ∈ ["settlement_confirmed", "settlement_not_confirmed", "reconcile_dead_letter"] ∨
    e.kind = "reconciled" ∧
      ∃ p, e.pair = some p ∧ p.2 ∈ ["CANCELLED", "EXPIRED", "DECLINED"]

/-- The event names no agent run. -/
structure AuditEvent.Mute (e : AuditEvent) : Prop where
  kind : e.kind ≠ "llm_tool_call"
  labels : ∀ kv ∈ e.detail, kv.1 ∈ LABELS → kv.2 = .null

/-- The event is as the origin of its payment asks. -/
structure AuditEvent.Tells (e : AuditEvent) (o : Origin) : Prop where
  attributed : o.attributed = true → e.Changes → ¬e.Bare → o.llm.detail ⊆ e.detail
  unattributed : o.attributed = false → e.Mute

section
variable {e : AuditEvent} {o : Origin} {base : List (String × Json)}

theorem unlabelled_not_mem (hbase : Unlabelled base = true) {kv : String × Json} (hkv : kv ∈ base) :
    kv.1 ∉ LABELS := by
  have hkey := List.all_eq_true.mp hbase kv hkv
  simpa using hkey

theorem mute_of_unlabelled (hkind : e.kind ≠ "llm_tool_call") (hbase : Unlabelled base = true)
    (he : e.detail = base) : e.Mute := by
  refine ⟨hkind, fun kv hkv hlabel => ?_⟩
  rw [he] at hkv
  exact absurd hlabel (unlabelled_not_mem hbase hkv)

/-- An event that ends with the labels of its origin. -/
theorem tells_labels (hkind : e.kind ≠ "llm_tool_call") (hbase : Unlabelled base = true)
    (he : e.detail = base ++ o.labels) : e.Tells o where
  attributed hattr _ _ := by
    have hlabels : o.labels = o.llm.detail := if_pos hattr
    rw [he, hlabels]
    exact List.subset_append_right _ _
  unattributed hattr := by
    have hlabels : o.labels = [] := if_neg (by simp [hattr])
    rw [hlabels, List.append_nil] at he
    exact mute_of_unlabelled hkind hbase he

/-- An event without labels, of no change that asks for them. -/
theorem tells_bare (hmute : e.Mute) (h : e.Changes → e.Bare) : e.Tells o :=
  ⟨fun _ hchanges hbare => absurd (h hchanges) hbare, fun _ => hmute⟩

theorem not_changes (h : e.pair = none) : ¬e.Changes := by
  intro ⟨p, hp, _⟩
  exact absurd (h.symm.trans hp) nofun

/-- The stored labels of a payment that nobody's run asked for are all absent. -/
theorem Origin.Sound.null (ho : o.Sound) (hattr : o.attributed = false) {kv : String × Json}
    (hkv : kv ∈ o.llm.detail) : kv.2 = .null := by
  rw [ho hattr] at hkv
  simp only [LlmCausal.detail, jsonOpt, List.mem_cons, List.not_mem_nil, or_false] at hkv
  rcases hkv with rfl | rfl | rfl | rfl <;> rfl

/-- An event that repeats the stored labels, whatever they are, and records no change. -/
theorem tells_stored (ho : o.Sound) {kind : String} (hkind : e.kind = kind)
    (he : e.detail = base ++ o.llm.detail) (htool : kind ≠ "llm_tool_call")
    (hbase : Unlabelled base = true) (hstill : ¬e.Changes) : e.Tells o where
  attributed _ hchanges _ := absurd hchanges hstill
  unattributed hattr := by
    refine ⟨fun heq => htool (hkind.symm.trans heq), fun kv hkv hlabel => ?_⟩
    rw [he] at hkv
    rcases List.mem_append.mp hkv with hkv | hkv
    · exact absurd hlabel (unlabelled_not_mem hbase hkv)
    · exact ho.null hattr hkv

end

/-- A normalized label is absent, or not empty. -/
theorem normalizeLabel_absent {H : Host} {v : Option String}
    (h : present (normalizeLabel H v) = false) : normalizeLabel H v = none := by
  cases v with
  | none => rfl
  | some s =>
    unfold normalizeLabel at h ⊢
    rw [Option.bind_some] at h ⊢
    by_cases hempty : slice 120 (H.strip s) = ""
    · exact if_pos hempty
    · rw [if_neg hempty] at h
      exact absurd h (by simp [present, hempty])

/-- What a request without labels is recorded as. -/
theorem normalize_sound (H : Host) (l : LlmCausal) :
    Origin.Sound ⟨l.normalize H, llm_attributed (l.normalize H)⟩ := by
  intro hattr
  have hattr : llm_attributed (l.normalize H) = false := hattr
  unfold llm_attributed at hattr
  simp only [Bool.or_eq_false_iff] at hattr
  obtain ⟨⟨⟨hrun, hmodel⟩, hcall⟩, hname⟩ := hattr
  show l.normalize H = _
  unfold LlmCausal.normalize at hrun hmodel hcall hname ⊢
  rw [normalizeLabel_absent hrun, normalizeLabel_absent hmodel, normalizeLabel_absent hcall,
    normalizeLabel_absent hname]

/-! ## Tables -/

/-- The origins of the intents, by their ids. -/
def DB.origins (db : DB) : List (String × Origin) := db.intents.map fun i => (i.intent_id, i.origin)

/-- The ids of the intents. -/
def DB.ids (db : DB) : List String := db.origins.map Prod.fst

/-- What is filed under an intent. -/
def Named (ids : List String) (rows : List (String × String)) : Prop :=
  ∀ g ∈ rows, g.1 = g.2 ∧ g.2 ∈ ids

/-- Authorizations and transactions are named after intents that exist, and what nobody's
run asked for has no labels. -/
structure Wired (db : DB) : Prop where
  sound : ∀ o ∈ db.origins, o.2.Sound
  grants : Named db.ids db.grants
  carriers : Named db.ids db.carriers

/-- The payment whose row a write inserts or updates: an authorization and a transaction are
named after their intent. -/
def Write.payment : Write → Option String
  | .insertIntent i => some i.intent_id
  | .insertAuthorization u => some u.intent_id
  | .insertTxn t => some t.intent_id
  | .updateTxn l _ => some l.authorization_id
  | _ => none

/-- A write of one payment, by a request that knows its intent. -/
structure Write.Tells (o : Origin) (id : String) (x : Write) : Prop where
  intent : ∀ i, x ≠ .insertIntent i
  authorization : ∀ u, x = .insertAuthorization u → u.authorization_id = id ∧ u.intent_id = id
  txn : ∀ t, x = .insertTxn t → t.authorization_id = id ∧ t.intent_id = id
  update : ∀ l c, x = .updateTxn l c → l.authorization_id = id
  audit : ∀ e, x = .insertAudit e → e.Tells o

/-- A write of no payment, whose events name no agent run. -/
structure Write.Silent (x : Write) : Prop where
  row : x.payment = none
  audit : ∀ e, x = .insertAudit e → e.Mute

/-- The commit that records an intent. -/
structure Opens (i : PaymentIntent) (ws : List Write) : Prop where
  sound : i.origin.Sound
  inserts : .insertIntent i ∈ ws
  others : ∀ x ∈ ws, x = .insertIntent i ∨ x.payment = none ∧ ∀ e, x = .insertAudit e → e.Tells i.origin

section
variable {db db' : DB} {x : Write} {o : Origin} {id : String} {ws : List Write}

theorem Write.Tells.payment_eq (h : x.Tells o id) : x.payment = none ∨ x.payment = some id := by
  cases x with
  | insertIntent i => exact absurd rfl (h.intent i)
  | insertAuthorization u => exact .inr (congrArg some (h.authorization u rfl).2)
  | insertTxn t => exact .inr (congrArg some (h.txn t rfl).2)
  | updateTxn l c => exact .inr (congrArg some (h.update l c rfl))
  | _ => exact .inl rfl

/-- A write of no row. -/
theorem Write.tells_of_row (hrow : x.payment = none) (haudit : ∀ e, x = .insertAudit e → e.Tells o) :
    x.Tells o id where
  intent i h := by
    rw [h] at hrow
    exact Option.some_ne_none _ hrow
  authorization u h := by
    rw [h] at hrow
    exact absurd hrow (Option.some_ne_none _)
  txn t h := by
    rw [h] at hrow
    exact absurd hrow (Option.some_ne_none _)
  update l c h := by
    rw [h] at hrow
    exact absurd hrow (Option.some_ne_none _)
  audit := haudit

theorem apply_origins (h : db.apply x = some db') :
    (∃ i, x = .insertIntent i ∧ db'.origins = db.origins ++ [(i.intent_id, i.origin)] ∧
      i.intent_id ∉ db.ids) ∨ db'.origins = db.origins := by
  rcases apply_intents h with ⟨i, hx, heq, hnew⟩ | ⟨id, d, v, rs, -, heq⟩ | heq
  · refine .inl ⟨i, hx, ?_, fun hmem => ?_⟩
    · unfold DB.origins
      rw [heq, List.map_append]
      rfl
    · obtain ⟨p, hp, hkey⟩ := List.mem_map.mp hmem
      obtain ⟨j, hj, rfl⟩ := List.mem_map.mp hp
      exact (hnew j hj).1 hkey
  · refine .inr ?_
    unfold DB.origins
    rw [heq]
    exact map_updateWhere (fun _ => by rfl) _
  · exact .inr (by rw [DB.origins, heq, DB.origins])

theorem apply_origins_sub (h : db.apply x = some db') : db.origins ⊆ db'.origins := by
  rcases apply_origins h with ⟨i, -, heq, -⟩ | heq <;> rw [heq]
  · exact List.subset_append_left _ _
  · exact List.Subset.refl _

theorem ids_sub (h : db.origins ⊆ db'.origins) : db.ids ⊆ db'.ids := List.map_subset _ h

theorem applyAll_origins_sub : ∀ {ws : List Write} {db db' : DB}, db.applyAll ws = .ok db' →
    db.origins ⊆ db'.origins := by
  intro ws
  induction ws with
  | nil =>
    intro db db' h
    rw [← Except.ok.inj h]
    exact List.Subset.refl _
  | cons x ws ih =>
    intro db db' h
    obtain ⟨mid, hmid, hrest⟩ := applyAll_cons h
    exact List.Subset.trans (apply_origins_sub hmid) (ih hrest)

/-- No two intents share an id. -/
theorem applyAll_ids (h : db.applyAll ws = .ok db') (hdb : db.ids.Nodup) : db'.ids.Nodup := by
  refine applyAll_keeps_all (K := fun db => db.ids.Nodup) (P := fun _ => True)
    (fun db db' x _ hap hdb => ?_) (fun _ _ => trivial) h hdb
  rcases apply_origins hap with ⟨i, -, heq, hnew⟩ | heq
  · unfold DB.ids
    rw [heq]
    exact nodup_append_one hdb fun p hp hkey => hnew (List.mem_map.mpr ⟨p, hp, hkey⟩)
  · rwa [DB.ids, heq]

/-- What each write must be for the tables to stay wired. -/
def Write.Wires (ids : List String) (x : Write) : Prop :=
  (∃ i, x = .insertIntent i ∧ i.origin.Sound) ∨ (∃ o, ∃ id ∈ ids, x.Tells o id) ∨ x.payment = none

theorem apply_wired {ids : List String} (hx : x.Wires ids) (h : db.apply x = some db')
    (hids : ids ⊆ db.ids) (hdb : Wired db) : Wired db' := by
  have hsub := ids_sub (apply_origins_sub h)
  refine ⟨?_, ?_, ?_⟩
  · rcases apply_origins h with ⟨i, rfl, heq, -⟩ | heq <;> rw [heq]
    · intro o ho
      rcases List.mem_append.mp ho with ho | ho
      · exact hdb.sound o ho
      · rw [List.mem_singleton.mp ho]
        rcases hx with ⟨j, hj, hsound⟩ | ⟨o', id, -, htells⟩ | hrow
        · rwa [Write.insertIntent.inj hj]
        · exact absurd rfl (htells.intent i)
        · exact absurd hrow nofun
    · exact hdb.sound
  · rcases apply_grants h with ⟨u, rfl, heq, -⟩ | heq <;> rw [heq] <;> intro g hg
    · rcases List.mem_append.mp hg with hg | hg
      · exact ⟨(hdb.grants g hg).1, hsub (hdb.grants g hg).2⟩
      · rw [List.mem_singleton.mp hg]
        rcases hx with ⟨j, hj, -⟩ | ⟨o, id, hid, htells⟩ | hrow
        · exact absurd hj nofun
        · obtain ⟨hkey, hintent⟩ := htells.authorization u rfl
          exact ⟨hkey.trans hintent.symm, hsub (hids (hintent.symm ▸ hid))⟩
        · exact absurd hrow nofun
    · exact ⟨(hdb.grants g hg).1, hsub (hdb.grants g hg).2⟩
  · rcases apply_carriers h with ⟨t, rfl, heq, -⟩ | heq <;> rw [heq] <;> intro g hg
    · rcases List.mem_append.mp hg with hg | hg
      · exact ⟨(hdb.carriers g hg).1, hsub (hdb.carriers g hg).2⟩
      · rw [List.mem_singleton.mp hg]
        rcases hx with ⟨j, hj, -⟩ | ⟨o, id, hid, htells⟩ | hrow
        · exact absurd hj nofun
        · obtain ⟨hkey, hintent⟩ := htells.txn t rfl
          exact ⟨hkey.trans hintent.symm, hsub (hids (hintent.symm ▸ hid))⟩
        · exact absurd hrow nofun
    · exact ⟨(hdb.carriers g hg).1, hsub (hdb.carriers g hg).2⟩

theorem applyAll_wired {ids : List String} : ∀ {ws : List Write} {db db' : DB},
    (∀ x ∈ ws, x.Wires ids) → db.applyAll ws = .ok db' → ids ⊆ db.ids → Wired db → Wired db' := by
  intro ws
  induction ws with
  | nil =>
    intro db db' _ h _ hdb
    rwa [← Except.ok.inj h]
  | cons x ws ih =>
    intro db db' hws h hids hdb
    obtain ⟨mid, hmid, hrest⟩ := applyAll_cons h
    have hsub := ids_sub (apply_origins_sub hmid)
    exact ih (fun y hy => hws y (List.mem_cons_of_mem _ hy)) hrest (List.Subset.trans hids hsub)
      (apply_wired (hws x List.mem_cons_self) hmid hids hdb)

/-- A recorded intent stands in the table. -/
theorem applyAll_opens {i : PaymentIntent} (h : db.applyAll ws = .ok db') (hi : .insertIntent i ∈ ws) :
    (i.intent_id, i.origin) ∈ db'.origins := by
  refine applyAll_brings (J := fun _ => True) (P := fun _ => True) (fun _ _ _ _ _ _ _ => trivial)
    (fun _ _ hap _ => ?_) (fun _ _ _ _ hap hid => apply_origins_sub hap hid) hi
    (fun _ _ => trivial) h trivial
  rcases apply_origins hap with ⟨j, hj, heq, -⟩ | heq
  · obtain rfl := Write.insertIntent.inj hj
    rw [heq]
    simp
  · rcases apply_intents hap with ⟨j, hj, hint, -⟩ | ⟨_, _, _, _, hj, -⟩ | hint
    · obtain rfl := Write.insertIntent.inj hj
      unfold DB.origins
      rw [hint]
      simp
    · exact absurd hj nofun
    · obtain ⟨rows, hrows, hrest⟩ := Option.bind_eq_some_iff.mp hap
      obtain ⟨rfl, -⟩ := insertUnique_eq hrows
      rw [← Option.some.inj hrest]
      simp [DB.origins]

theorem Uses.origins (h : Uses db db') : db'.origins = db.origins := by
  obtain ⟨as, -, rfl⟩ := h
  rfl

theorem Uses.wired (h : Uses db db') (hdb : Wired db) : Wired db' := by
  have horigins := h.origins
  have hgrants := h.grants
  have hcarriers : db'.carriers = db.carriers := by
    obtain ⟨as, -, rfl⟩ := h
    rfl
  have hids : db'.ids = db.ids := by rw [DB.ids, horigins, DB.ids]
  refine ⟨?_, ?_, ?_⟩
  · rw [horigins]
    exact hdb.sound
  · rw [hids, hgrants]
    exact hdb.grants
  · rw [hids, hcarriers]
    exact hdb.carriers

end

end Paari
