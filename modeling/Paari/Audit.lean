import Paari.Transitions

/-!
# The audit log

`record_audit` appends one event to the hash chain of a `transaction_id` and
leaves the commit to its caller: the event joins the session's pending writes.
The tail it links to is the last event of the chain the session can see, its own
pending ones included. (The PostgreSQL chain lock, which only delays, is not
modelled.)
-/

namespace Paari

/-- Work of a session that it has not committed. -/
abbrev Session := List Write

/-- The audit events among the pending writes. -/
def Session.audits (s : Session) : List AuditEvent :=
  s.filterMap fun
    | .insertAudit e => some e
    | _ => none

theorem Session.mem_audits {s : Session} {e : AuditEvent} : e ∈ s.audits ↔ .insertAudit e ∈ s := by
  unfold Session.audits
  rw [List.mem_filterMap]
  constructor
  · rintro ⟨w, hw, h⟩
    cases w <;> simp at h
    exact h ▸ hw
  · intro h
    exact ⟨_, h, rfl⟩

structure AuditArgs where
  transaction_id : String
  agent_id : String
  parent_id : Option String
  kind : String
  detail : List (String × Json)
  org_id : Option String

def jsonOpt (s : Option String) : Json := (s.map Json.str).getD .null

/-- `_hash_event_v2` -/
def hash_event (H : Host) (prev_hash org_id created_at : String) (a : AuditArgs) : String :=
  H.sha256_hex (H.canonical_json (.dict [
    ("prev_hash", .str prev_hash), ("kind", .str a.kind), ("agent_id", .str a.agent_id),
    ("parent_id", jsonOpt a.parent_id), ("org_id", .str org_id),
    ("transaction_id", .str a.transaction_id), ("created_at", .str created_at),
    ("detail", .dict a.detail)]))

/-- The event `record_audit` appends, given what its session sees. -/
def auditEvent (H : Host) (s : Session) (a : AuditArgs) (db : DB) (now : Instant) : AuditEvent :=
  let org_id := a.org_id.getD
    (((db.agents.find? fun g => g.agent_id == a.agent_id).map Agent.org_id).getD "default")
  let prev := (db.audits ++ s.audits).reverse.find? fun e => e.transaction_id == a.transaction_id
  let prev_hash := (prev.map AuditEvent.event_hash).getD "GENESIS"
  { org_id := org_id, transaction_id := a.transaction_id, agent_id := a.agent_id,
    parent_id := a.parent_id, kind := a.kind, detail := a.detail, prev_hash := prev_hash,
    event_hash := hash_event H prev_hash org_id (H.isoformat now) a, created_at := now,
    hash_version := 2 }

/-- `record_audit` -/
def record_audit (H : Host) (s : Session) (a : AuditArgs) : Handler Session :=
  .stmt .select fun w => .ret (s ++ [.insertAudit (auditEvent H s a w.db w.clock)])

/-- It reads, and adds one event of its kind to the pending writes. -/
theorem record_audit_reads (H : Host) (s : Session) (a : AuditArgs) :
    (record_audit H s a).Reads fun s' => ∃ e, e.kind = a.kind ∧ s' = s ++ [.insertAudit e] :=
  ⟨rfl, fun _ => ⟨_, rfl, rfl⟩⟩

/-- The four labels as `detail` entries. -/
def LlmCausal.detail (l : LlmCausal) : List (String × Json) :=
  [("llm_run_id", jsonOpt l.llm_run_id), ("llm_model", jsonOpt l.llm_model),
    ("llm_tool_call_id", jsonOpt l.llm_tool_call_id), ("llm_tool_name", jsonOpt l.llm_tool_name)]

def LABELS : List String := ["llm_run_id", "llm_model", "llm_tool_call_id", "llm_tool_name"]

/-- `causal_labels`: the stored labels of an attributed intent, nothing otherwise. -/
def causal_labels (db : DB) (intent_id : String) : List (String × Json) :=
  match db.intents.find? fun i => i.intent_id == intent_id with
  | some i => if i.llm_attributed then i.llm.detail else []
  | none => []

/-- `_parent_for` -/
def parent_for (db : DB) (agent : Agent) : Option ParentAuthority :=
  db.parents.find? fun p => p.id == agent.parent_pk

/-- The parent id an audit of a transaction names: that of its agent's parent. -/
def audit_parent (db : DB) (agent_id : String) : Option String :=
  (db.agents.find? fun a => a.agent_id == agent_id).bind fun a =>
    (parent_for db a).map ParentAuthority.parent_id

end Paari
