import Paari.Chain

/-!
# One chain, many sessions

`record_audit` takes the chain lock, reads the tail of the trace, and inserts an event
linked to it; the caller commits or rolls back later. Here the three steps are separate,
and any number of sessions take them in any order. On PostgreSQL the lock is a
transaction-scoped advisory lock. On SQLite there is none: a read locks nothing, and the
first write of a transaction takes the write lock of the file until its end.

On PostgreSQL the chain never forks. On SQLite it does when two sessions read one tail
before either writes (`chain_forks`); `chain_never_forks` says what has to be excluded.
-/

namespace Paari

variable {H : Host}

/-- The event `record_audit` builds, once it has read the tail. -/
def linkEvent (H : Host) (prev_hash org_id : String) (a : AuditArgs) (now : Instant) :
    AuditEvent where
  org_id := org_id
  transaction_id := a.transaction_id
  agent_id := a.agent_id
  parent_id := a.parent_id
  kind := a.kind
  detail := a.detail
  prev_hash := prev_hash
  event_hash := hash_event H prev_hash org_id (H.isoformat now) a
  created_at := now
  hash_version := 2

/-- It is the event of the handlers, whose reading and building are one step. -/
theorem auditEvent_eq_link (s : Session) (a : AuditArgs) (db : DB) (now : Instant) :
    auditEvent H s a db now =
      linkEvent H (lastHash "GENESIS"
          ((db.audits ++ s.audits).filter fun e => e.transaction_id == a.transaction_id))
        (a.org_id.getD (((db.agents.find? fun g => g.agent_id == a.agent_id).map
          Agent.org_id).getD "default")) a now := by
  unfold lastHash
  rw [← List.head?_reverse, ← List.filter_reverse, List.head?_filter]
  rfl

theorem linkEvent_hash (prev_hash org_id : String) (a : AuditArgs) (now : Instant) :
    (linkEvent H prev_hash org_id a now).event_hash =
      H.sha256_hex ((linkEvent H prev_hash org_id a now).preimage H) := rfl

/-- The beginning of a verified chain is verified. -/
theorem verify_prefix (es es' : List AuditEvent) : ∀ prev_hash,
    verify_events H prev_hash (es ++ es') = true → verify_events H prev_hash es = true := by
  induction es with
  | nil => intro _ _; rfl
  | cons e es ih =>
    intro prev_hash h
    rw [List.cons_append, verify_events, Bool.and_eq_true] at h
    rw [verify_events, Bool.and_eq_true]
    exact ⟨h.1, ih _ h.2⟩

/-! ## The log -/

/-- A row of the audit table: committed, or written by an open session. -/
structure LogRow where
  event : AuditEvent
  owner : Option Nat

/-- The row after session `i` committed. -/
def LogRow.commit (i : Nat) (r : LogRow) : LogRow :=
  if r.owner = some i then ⟨r.event, none⟩ else r

/-- Where a session stands in `record_audit`. -/
inductive Phase
  | ready
  | locked (a : AuditArgs)
  | read (a : AuditArgs) (prev_hash : String)

/-- The audit table, its rows in the order of their ids, and who holds which lock. -/
structure Log where
  rows : List LogRow
  advisory : Int → Option Nat
  writer : Option Nat
  phase : Nat → Phase

/-- A step of one session. -/
inductive Act
  /-- `acquire_chain_lock` -/
  | acquire (i : Nat) (a : AuditArgs)
  /-- The query for the tail. -/
  | read (i : Nat)
  /-- `db.add(event); db.flush()` -/
  | insert (i : Nat) (org_id : String) (now : Instant)
  /-- Any other write of the transaction. -/
  | write (i : Nat)
  | commit (i : Nat)
  /-- A rollback, a closed session, a dead process. -/
  | rollback (i : Nat)

namespace Log

/-- The key of a trace's advisory lock. -/
def chainKey (H : Host) (transaction_id : String) : Int :=
  signed_lock_key H ("paari:audit:" ++ transaction_id)

/-- Nobody holds the lock, or the session itself does. -/
def mine (holder : Option Nat) (i : Nat) : Bool := holder == none || holder == some i

/-- The rows of a trace that a session sees: the committed ones and its own. -/
def visible (L : Log) (i : Nat) (transaction_id : String) : List AuditEvent :=
  (L.rows.filter fun r => mine r.owner i && r.event.transaction_id == transaction_id).map
    LogRow.event

/-- The session's locks are gone. -/
def release (L : Log) (i : Nat) : Log :=
  { L with
    advisory := fun k => if L.advisory k = some i then none else L.advisory k
    writer := if L.writer = some i then none else L.writer }

/-- Take the write lock, where the database has one. -/
def lockWriter (H : Host) (L : Log) (i : Nat) : Option Log :=
  if H.postgres then some L
  else if mine L.writer i then some { L with writer := some i }
  else none

def setPhase (L : Log) (i : Nat) (phase : Phase) : Log :=
  { L with phase := Function.update L.phase i phase }

def append (L : Log) (r : LogRow) : Log := { L with rows := L.rows ++ [r] }

/-- The session's rows become committed. -/
def adopt (L : Log) (i : Nat) : Log := { L with rows := L.rows.map (LogRow.commit i) }

/-- The session's rows are gone. -/
def discard (L : Log) (i : Nat) : Log :=
  { L with rows := L.rows.filter fun r => decide (r.owner ≠ some i) }

/-- One step; `none` where the session has to wait, or is not there yet. -/
def step (H : Host) (L : Log) : Act → Option Log
  | .acquire i a =>
    match L.phase i with
    | .ready =>
      if H.postgres then
        let key := chainKey H a.transaction_id
        if mine (L.advisory key) i then
          let L' : Log := { L with advisory := Function.update L.advisory key (some i) }
          some (L'.setPhase i (.locked a))
        else none
      else some (L.setPhase i (.locked a))
    | _ => none
  | .read i =>
    match L.phase i with
    | .locked a =>
      some (L.setPhase i (.read a (lastHash "GENESIS" (L.visible i a.transaction_id))))
    | _ => none
  | .insert i org_id now =>
    match L.phase i with
    | .read a prev_hash => (L.lockWriter H i).map fun L' => (L'.append
        ⟨linkEvent H prev_hash org_id a now, some i⟩).setPhase i .ready
    | _ => none
  | .write i =>
    match L.phase i with
    | .ready => L.lockWriter H i
    | _ => none
  | .commit i =>
    match L.phase i with
    | .ready => some ((L.adopt i).release i)
    | _ => none
  | .rollback i => some (((L.discard i).release i).setPhase i .ready)

/-- The committed state, as a database. -/
def db (L : Log) : DB :=
  { DB.empty with audits := (L.rows.filter fun r => r.owner == none).map LogRow.event }

/-- Committed events, and no session at work. -/
def start (es : List AuditEvent) : Log :=
  ⟨es.map fun e => ⟨e, none⟩, fun _ => none, none, fun _ => .ready⟩

/-- Reachable by steps that meet a condition. -/
inductive Runs (H : Host) (ok : Log → Act → Prop) (L₀ : Log) : Log → Prop
  | start : Runs H ok L₀ L₀
  | step {L L' : Log} (h : Runs H ok L₀ L) (act : Act) (hok : ok L act)
      (hstep : L.step H act = some L') : Runs H ok L₀ L'

/-- The tail an insert links to is still the tail its session sees. -/
def Current (L : Log) : Act → Prop
  | .insert i _ _ => ∀ a prev_hash, L.phase i = .read a prev_hash →
      prev_hash = lastHash "GENESIS" (L.visible i a.transaction_id)
  | _ => True

/-! ## The invariant -/

/-- The rows of a trace, of whatever session. -/
def chain (L : Log) (transaction_id : String) : List LogRow :=
  L.rows.filter fun r => r.event.transaction_id == transaction_id

/-- Who may have uncommitted rows in a trace. -/
def holder (H : Host) (L : Log) (transaction_id : String) : Option Nat :=
  if H.postgres then L.advisory (chainKey H transaction_id) else L.writer

/-- Uncommitted rows belong to the holder of their trace; in each trace they follow the
committed ones, and all of them together verify. -/
structure Sound (H : Host) (L : Log) : Prop where
  owned : ∀ r ∈ L.rows, ∀ i, r.owner = some i → L.holder H r.event.transaction_id = some i
  chain : ∀ t, ∃ c p, L.chain t = c ++ p ∧ (∀ r ∈ c, r.owner = none) ∧ (∀ r ∈ p, r.owner ≠ none) ∧
    verify_events H "GENESIS" ((L.chain t).map LogRow.event) = true
  locked : H.postgres = true → ∀ i a, L.phase i = .locked a →
    L.advisory (chainKey H a.transaction_id) = some i
  read : H.postgres = true → ∀ i a prev_hash, L.phase i = .read a prev_hash →
    L.advisory (chainKey H a.transaction_id) = some i ∧
      prev_hash = lastHash "GENESIS" ((L.chain a.transaction_id).map LogRow.event)

variable {L L' : Log} {i : Nat}

theorem mine_iff {holder : Option Nat} {i : Nat} :
    mine holder i = true ↔ holder = none ∨ holder = some i := by
  simp [mine]

/-- A session that may write to a trace sees all of its rows. -/
theorem visible_eq_chain (h : L.Sound H) {t : String} (hmine : mine (L.holder H t) i = true) :
    L.visible i t = (L.chain t).map LogRow.event := by
  unfold visible Log.chain
  congr 1
  apply List.filter_congr
  intro r hr
  by_cases ht : r.event.transaction_id = t
  · have hrow : mine r.owner i = true := by
      rw [mine_iff]
      cases howner : r.owner with
      | none => exact .inl rfl
      | some j =>
        have hj := h.owned r hr j howner
        rw [ht] at hj
        rcases mine_iff.mp hmine with hnone | hi
        · exact absurd (hnone.symm.trans hj) (by simp)
        · exact .inr (hj.symm.trans hi)
    simp [hrow]
  · have : (r.event.transaction_id == t) = false := by simpa using ht
    simp [this]

theorem mem_chain {t : String} {r : LogRow} :
    r ∈ L.chain t ↔ r ∈ L.rows ∧ r.event.transaction_id = t := by
  simp [Log.chain]

/-- What is committed of a sound log verifies. -/
theorem Sound.verified (h : L.Sound H) (t : String) : verify_chain H L.db t = true := by
  obtain ⟨c, p, hsplit, hc, hp, hverify⟩ := h.chain t
  have htrace : L.db.trace t = c.map LogRow.event := by
    have hcommitted : (L.chain t).filter (fun r => r.owner == none) = c := by
      rw [hsplit, List.filter_append, List.filter_eq_self.mpr, List.filter_eq_nil_iff.mpr,
        List.append_nil]
      · intro r hr
        simpa using hp r hr
      · intro r hr
        simpa using hc r hr
    show ((L.rows.filter _).map LogRow.event).filter _ = _
    rw [List.filter_map, ← hcommitted, Log.chain, List.filter_filter, List.filter_filter]
    congr 2
    funext r
    exact Bool.and_comm _ _
  unfold verify_chain
  rw [htrace]
  rw [hsplit, List.map_append] at hverify
  exact verify_prefix _ _ _ hverify

/-- A committed history that verifies is sound. -/
theorem start_sound {es : List AuditEvent}
    (h : ∀ t, verify_chain H { DB.empty with audits := es } t = true) : (start es).Sound H where
  owned := by
    intro r hr i howner
    obtain ⟨e, -, rfl⟩ := List.mem_map.mp hr
    exact absurd howner (by simp)
  chain := by
    intro t
    refine ⟨(start es).chain t, [], (List.append_nil _).symm, ?_, fun _ hr => absurd hr List.not_mem_nil, ?_⟩
    · intro r hr
      obtain ⟨e, -, rfl⟩ := List.mem_map.mp (mem_chain.mp hr).1
      rfl
    · have := h t
      rw [verify_chain, DB.trace] at this
      rw [Log.chain, start, List.filter_map, List.map_map]
      simpa [Function.comp_def] using this
  locked := fun _ _ _ h => absurd h (by simp [start])
  read := fun _ _ _ _ h => absurd h (by simp [start])

/-! ### One step -/

theorem lockWriter_some (h : L.lockWriter H i = some L') :
    (H.postgres = true ∧ L' = L) ∨
      (H.postgres = false ∧ mine L.writer i = true ∧ L' = { L with writer := some i }) := by
  unfold lockWriter at h
  split at h
  · next hpg => exact .inl ⟨hpg, (Option.some.inj h).symm⟩
  · next hpg =>
    split at h
    · next hmine => exact .inr ⟨by simpa using hpg, hmine, (Option.some.inj h).symm⟩
    · exact absurd h (by simp)

/-- Whoever takes the write lock, rows keep their holder. -/
theorem Sound.lockWriter (h : L.Sound H) (hlock : L.lockWriter H i = some L') :
    L'.Sound H ∧ L'.rows = L.rows ∧ L'.phase = L.phase ∧ L'.advisory = L.advisory ∧
      (H.postgres = false → L'.writer = some i) := by
  rcases lockWriter_some hlock with ⟨hpg, rfl⟩ | ⟨hpg, hmine, rfl⟩
  · exact ⟨h, rfl, rfl, rfl, fun hno => absurd (hpg.symm.trans hno) (by simp)⟩
  · refine ⟨⟨?_, h.chain, h.locked, h.read⟩, rfl, rfl, rfl, fun _ => rfl⟩
    intro r hr j howner
    have hj := h.owned r hr j howner
    unfold holder at hj ⊢
    rw [if_neg (by simp [hpg])] at hj ⊢
    rcases mine_iff.mp hmine with hnone | hi
    · exact absurd (hnone.symm.trans hj) (by simp)
    · exact hi.symm.trans hj

theorem Sound.acquire {a : AuditArgs} (h : L.Sound H)
    (hstep : L.step H (.acquire i a) = some L') : L'.Sound H := by
  unfold step at hstep
  dsimp only at hstep
  split at hstep
  · split at hstep
    · next hpg =>
      split at hstep
      · next hmine =>
        obtain rfl := Option.some.inj hstep
        -- the key had no other holder, so whoever held a key still does
        have hkeep : ∀ k j, L.advisory k = some j →
            Function.update L.advisory (chainKey H a.transaction_id) (some i) k = some j := by
          intro k j hk
          by_cases hkey : k = chainKey H a.transaction_id
          · subst hkey
            rw [Function.update_self]
            rcases mine_iff.mp hmine with hnone | hi
            · exact absurd (hnone.symm.trans hk) (by simp)
            · exact hi.symm.trans hk
          · rwa [Function.update_of_ne hkey]
        refine ⟨?_, h.chain, ?_, ?_⟩
        · intro r hr j howner
          have hj := h.owned r hr j howner
          unfold holder at hj ⊢
          rw [if_pos hpg] at hj ⊢
          exact hkeep _ _ hj
        · intro _ j a' hphase
          by_cases hj : j = i
          · subst hj
            simp only [setPhase, Function.update_self, Phase.locked.injEq] at hphase
            subst hphase
            exact Function.update_self ..
          · simp only [setPhase, Function.update_of_ne hj] at hphase
            exact hkeep _ _ (h.locked hpg j a' hphase)
        · intro _ j a' prev_hash hphase
          by_cases hj : j = i
          · subst hj
            simp [setPhase] at hphase
          · simp only [setPhase, Function.update_of_ne hj] at hphase
            obtain ⟨hlock, hprev⟩ := h.read hpg j a' prev_hash hphase
            exact ⟨hkeep _ _ hlock, hprev⟩
      · exact absurd hstep (by simp)
    · next hpg =>
      obtain rfl := Option.some.inj hstep
      exact ⟨h.owned, h.chain, fun hyes => absurd hyes hpg, fun hyes => absurd hyes hpg⟩
  · exact absurd hstep (by simp)

theorem Sound.read_step (h : L.Sound H) (hstep : L.step H (.read i) = some L') : L'.Sound H := by
  unfold step at hstep
  dsimp only at hstep
  split at hstep
  · next a hphase =>
    obtain rfl := Option.some.inj hstep
    refine ⟨h.owned, h.chain, ?_, ?_⟩
    · intro hpg j a' hj
      by_cases hji : j = i
      · subst hji
        simp [setPhase] at hj
      · simp only [setPhase, Function.update_of_ne hji] at hj
        exact h.locked hpg j a' hj
    · intro hpg j a' prev_hash hj
      by_cases hji : j = i
      · subst hji
        simp only [setPhase, Function.update_self, Phase.read.injEq] at hj
        obtain ⟨rfl, rfl⟩ := hj
        have hlock := h.locked hpg j a hphase
        have hmine : mine (L.holder H a.transaction_id) j = true := by
          rw [mine_iff, holder, if_pos hpg]
          exact .inr hlock
        exact ⟨hlock, by rw [visible_eq_chain h hmine]; rfl⟩
      · simp only [setPhase, Function.update_of_ne hji] at hj
        exact h.read hpg j a' prev_hash hj
  · exact absurd hstep (by simp)

theorem chain_append (r : LogRow) (t : String) :
    (L.append r).chain t = L.chain t ++ if r.event.transaction_id = t then [r] else [] := by
  unfold Log.chain append
  rw [List.filter_append]
  congr 1
  by_cases ht : r.event.transaction_id = t <;> simp [ht]

/-- The holder of a trace appends an event that links to its last row. -/
theorem Sound.append {e : AuditEvent} (h : L.Sound H) (hholder : L.holder H e.transaction_id = some i)
    (hready : L.phase i = .ready) (hprev : e.prev_hash = lastHash "GENESIS"
      ((L.chain e.transaction_id).map LogRow.event)) (hhash : e.event_hash = H.sha256_hex (e.preimage H)) :
    (L.append ⟨e, some i⟩).Sound H where
  owned := by
    intro r hr j howner
    rcases List.mem_append.mp hr with hr | hr
    · exact h.owned r hr j howner
    · obtain rfl := List.mem_singleton.mp hr
      obtain rfl := Option.some.inj howner
      exact hholder
  chain := by
    intro t
    obtain ⟨c, p, hsplit, hc, hp, hverify⟩ := h.chain t
    rw [chain_append]
    dsimp only
    split
    · next ht =>
      subst ht
      refine ⟨c, p ++ [⟨e, some i⟩], by rw [hsplit, List.append_assoc], hc, ?_, ?_⟩
      · intro r hr
        rcases List.mem_append.mp hr with hr | hr
        · exact hp r hr
        · rw [List.mem_singleton.mp hr]
          simp
      · rw [List.map_append, List.map_singleton, verify_append]
        exact ⟨hverify, hprev, hhash⟩
    · rw [List.append_nil]
      exact ⟨c, p, hsplit, hc, hp, hverify⟩
  locked := h.locked
  read := by
    intro hpg j a prev_hash hphase
    obtain ⟨hlock, hlast⟩ := h.read hpg j a prev_hash hphase
    refine ⟨hlock, ?_⟩
    rw [chain_append]
    dsimp only
    rw [if_neg, List.append_nil]
    · exact hlast
    · -- the reader of that trace would be the session itself, which is not reading
      intro ht
      rw [holder, if_pos hpg, ht] at hholder
      obtain rfl := Option.some.inj (hlock.symm.trans hholder)
      exact absurd (hready.symm.trans hphase) (by simp)

/-- A session that leaves `record_audit`. -/
theorem Sound.ready (h : L.Sound H) (i : Nat) : (L.setPhase i .ready).Sound H where
  owned := h.owned
  chain := h.chain
  locked := by
    intro hpg j a hj
    by_cases hji : j = i
    · subst hji
      simp [setPhase] at hj
    · simp only [setPhase, Function.update_of_ne hji] at hj
      exact h.locked hpg j a hj
  read := by
    intro hpg j a prev_hash hj
    by_cases hji : j = i
    · subst hji
      simp [setPhase] at hj
    · simp only [setPhase, Function.update_of_ne hji] at hj
      exact h.read hpg j a prev_hash hj

theorem Sound.insert {org_id : String} {now : Instant} (h : L.Sound H)
    (hcurrent : H.postgres = true ∨ L.Current (.insert i org_id now))
    (hstep : L.step H (.insert i org_id now) = some L') : L'.Sound H := by
  unfold step at hstep
  dsimp only at hstep
  split at hstep
  · next a prev_hash hphase =>
    obtain ⟨L₁, hlock, rfl⟩ := Option.map_eq_some_iff.mp hstep
    obtain ⟨h₁, hrows, hphases, hadvisory, hwriter⟩ := h.lockWriter hlock
    have hholder : L₁.holder H a.transaction_id = some i := by
      unfold holder
      split
      · next hpg =>
        rw [hadvisory]
        exact (h.read hpg i a prev_hash hphase).1
      · next hno => exact hwriter (by simpa using hno)
    have hchain : L₁.chain a.transaction_id = L.chain a.transaction_id := by
      unfold Log.chain
      rw [hrows]
    have hprev : prev_hash = lastHash "GENESIS" ((L₁.chain a.transaction_id).map LogRow.event) := by
      rcases hcurrent with hpg | hcurrent
      · rw [hchain]
        exact (h.read hpg i a prev_hash hphase).2
      · -- holding the write lock now, the session sees the whole trace
        rw [← visible_eq_chain h₁ (mine_iff.mpr (.inr hholder)), visible, hrows]
        exact hcurrent a prev_hash hphase
    refine (h₁.ready i).append (i := i) hholder ?_ hprev (linkEvent_hash _ _ _ _)
    exact Function.update_self ..
  · exact absurd hstep (by simp)

theorem holder_release (t : String) :
    (L.release i).holder H t = if L.holder H t = some i then none else L.holder H t := by
  unfold holder release
  dsimp only
  split <;> rfl

/-- What a session that goes on holds, it still holds. -/
theorem holder_of_other {j : Nat} {t : String} (hji : j ≠ i) (h : L.holder H t = some j) :
    (L.release i).holder H t = some j := by
  rw [holder_release, if_neg, h]
  rw [h]
  exact fun heq => hji (Option.some.inj heq)

/-- The uncommitted rows of a trace are all the session's, or none is. -/
theorem Sound.pending (h : L.Sound H) (i : Nat) (t : String) :
    (∀ r ∈ L.chain t, r.owner ≠ none → r.owner = some i) ∨ ∀ r ∈ L.chain t, r.owner ≠ some i := by
  by_cases hholder : L.holder H t = some i
  · refine .inl fun r hr hne => ?_
    obtain ⟨hmem, ht⟩ := mem_chain.mp hr
    obtain ⟨j, hj⟩ := Option.ne_none_iff_exists'.mp hne
    have := h.owned r hmem j hj
    rw [ht, hholder] at this
    exact hj.trans this.symm
  · refine .inr fun r hr hi => hholder ?_
    obtain ⟨hmem, ht⟩ := mem_chain.mp hr
    exact ht ▸ h.owned r hmem i hi

theorem advisory_of_other {j : Nat} {k : Int} (hji : j ≠ i) (h : L.advisory k = some j) :
    (L.release i).advisory k = some j := by
  show (if L.advisory k = some i then none else L.advisory k) = some j
  rw [if_neg, h]
  rw [h]
  exact fun heq => hji (Option.some.inj heq)

@[simp] theorem commit_event (i : Nat) (r : LogRow) : (r.commit i).event = r.event := by
  unfold LogRow.commit
  split <;> rfl

theorem chain_adopt (t : String) : (L.adopt i).chain t = (L.chain t).map (LogRow.commit i) := by
  unfold Log.chain adopt
  rw [List.filter_map]
  congr 2
  funext r
  simp

theorem chain_adopt_events (t : String) :
    ((L.adopt i).chain t).map LogRow.event = (L.chain t).map LogRow.event := by
  rw [chain_adopt, List.map_map]
  exact List.map_congr_left fun r _ => commit_event i r

theorem Sound.commit (h : L.Sound H) (hstep : L.step H (.commit i) = some L') : L'.Sound H := by
  unfold step at hstep
  dsimp only at hstep
  split at hstep
  · next hready =>
    obtain rfl := Option.some.inj hstep
    refine ⟨?_, ?_, ?_, ?_⟩
    · intro r hr j howner
      obtain ⟨r₀, hr₀, rfl⟩ := List.mem_map.mp hr
      rw [commit_event]
      unfold LogRow.commit at howner
      split at howner
      · exact absurd howner (by simp)
      · next hne =>
        have hji : j ≠ i := by
          rintro rfl
          exact hne howner
        exact holder_of_other (L := L.adopt i) hji (h.owned r₀ hr₀ j howner)
    · intro t
      obtain ⟨c, p, hsplit, hc, hp, hverify⟩ := h.chain t
      show ∃ c p, (L.adopt i).chain t = _ ∧ _ ∧ _ ∧
        verify_events H "GENESIS" (((L.adopt i).chain t).map LogRow.event) = true
      rw [chain_adopt_events, chain_adopt]
      rcases h.pending i t with hmine | hnot
      · refine ⟨_, [], (List.append_nil _).symm, ?_, fun _ hr => absurd hr List.not_mem_nil, hverify⟩
        intro r hr
        obtain ⟨r₀, hr₀, rfl⟩ := List.mem_map.mp hr
        unfold LogRow.commit
        split
        · rfl
        · next hne => exact not_not.mp fun hsome => hne (hmine r₀ hr₀ hsome)
      · refine ⟨c, p, ?_, hc, hp, hverify⟩
        rw [← hsplit]
        conv_rhs => rw [← List.map_id (L.chain t)]
        exact List.map_congr_left fun r hr => if_neg (hnot r hr)
    · intro hpg j a hphase
      refine advisory_of_other (L := L.adopt i) ?_ (h.locked hpg j a hphase)
      rintro rfl
      exact absurd (hready.symm.trans hphase) (by simp)
    · intro hpg j a prev_hash hphase
      obtain ⟨hlock, hlast⟩ := h.read hpg j a prev_hash hphase
      refine ⟨advisory_of_other (L := L.adopt i) ?_ hlock, hlast.trans ?_⟩
      · rintro rfl
        exact absurd (hready.symm.trans hphase) (by simp)
      · exact congrArg _ (chain_adopt_events _).symm
  · exact absurd hstep (by simp)

theorem chain_discard (t : String) :
    (L.discard i).chain t = (L.chain t).filter fun r => decide (r.owner ≠ some i) := by
  unfold Log.chain discard
  rw [List.filter_filter, List.filter_filter]
  congr 1
  funext r
  exact Bool.and_comm _ _

theorem Sound.rollback (h : L.Sound H) (hstep : L.step H (.rollback i) = some L') :
    L'.Sound H := by
  obtain rfl := Option.some.inj hstep
  refine ⟨?_, ?_, ?_, ?_⟩
  · intro r hr j howner
    obtain ⟨hmem, hne⟩ := List.mem_filter.mp hr
    refine holder_of_other (L := L.discard i) ?_ (h.owned r hmem j howner)
    rintro rfl
    exact absurd howner (by simpa using hne)
  · intro t
    obtain ⟨c, p, hsplit, hc, hp, hverify⟩ := h.chain t
    show ∃ c p, (L.discard i).chain t = _ ∧ _ ∧ _ ∧
      verify_events H "GENESIS" (((L.discard i).chain t).map LogRow.event) = true
    rw [chain_discard]
    rcases h.pending i t with hmine | hnot
    · -- every uncommitted row of the trace goes; the committed ones are its beginning
      have hrest : (L.chain t).filter (fun r => decide (r.owner ≠ some i)) = c := by
        rw [hsplit, List.filter_append, List.filter_eq_self.mpr, List.filter_eq_nil_iff.mpr,
          List.append_nil]
        · intro r hr
          have := hmine r (hsplit ▸ List.mem_append_right _ hr) (hp r hr)
          simp [this]
        · intro r hr
          simp [hc r hr]
      rw [hrest]
      refine ⟨c, [], (List.append_nil _).symm, hc, fun _ hr => absurd hr List.not_mem_nil, ?_⟩
      rw [hsplit, List.map_append] at hverify
      exact verify_prefix _ _ _ hverify
    · have hrest : (L.chain t).filter (fun r => decide (r.owner ≠ some i)) = L.chain t :=
        List.filter_eq_self.mpr fun r hr => by simpa using hnot r hr
      rw [hrest]
      exact ⟨c, p, hsplit, hc, hp, hverify⟩
  · intro hpg j a hphase
    by_cases hji : j = i
    · subst hji
      simp [setPhase] at hphase
    · simp only [setPhase, Function.update_of_ne hji] at hphase
      exact advisory_of_other (L := L.discard i) hji (h.locked hpg j a hphase)
  · intro hpg j a prev_hash hphase
    by_cases hji : j = i
    · subst hji
      simp [setPhase] at hphase
    · simp only [setPhase, Function.update_of_ne hji] at hphase
      obtain ⟨hlock, hlast⟩ := h.read hpg j a prev_hash hphase
      refine ⟨advisory_of_other (L := L.discard i) hji hlock, hlast.trans ?_⟩
      -- the reader holds the trace, so the session has no rows in it
      have hrest : (L.discard i).chain a.transaction_id = L.chain a.transaction_id := by
        rw [chain_discard]
        refine List.filter_eq_self.mpr fun r hr => ?_
        obtain ⟨hmem, ht⟩ := mem_chain.mp hr
        have hne : r.owner ≠ some i := by
          intro howner
          have hown := h.owned r hmem i howner
          rw [ht, holder, if_pos hpg, hlock] at hown
          exact hji (Option.some.inj hown)
        simpa using hne
      exact congrArg (fun rows => lastHash "GENESIS" (rows.map LogRow.event)) hrest.symm

/-- What one step keeps. -/
theorem Sound.step {act : Act} (h : L.Sound H) (hok : H.postgres = true ∨ L.Current act)
    (hstep : L.step H act = some L') : L'.Sound H := by
  cases act with
  | acquire i a => exact h.acquire hstep
  | read i => exact h.read_step hstep
  | insert i org_id now => exact h.insert hok hstep
  | write i =>
    unfold Log.step at hstep
    dsimp only at hstep
    split at hstep
    · exact (h.lockWriter hstep).1
    · exact absurd hstep (by simp)
  | commit i => exact h.commit hstep
  | rollback i => exact h.rollback hstep

/-! ## Nothing committed is lost -/

theorem lockWriter_rows (h : L.lockWriter H i = some L') : L'.rows = L.rows := by
  rcases lockWriter_some h with ⟨-, rfl⟩ | ⟨-, -, rfl⟩ <;> rfl

/-- A step only adds to what is committed. -/
theorem step_committed {act : Act} (h : L.step H act = some L') :
    L.db.audits.Sublist L'.db.audits := by
  have hrows : ∀ {L L' : Log}, L'.rows = L.rows → L.db.audits.Sublist L'.db.audits := by
    intro L L' hsame
    show List.Sublist ((L.rows.filter _).map _) ((L'.rows.filter _).map _)
    rw [hsame]
  unfold Log.step at h
  cases act with
  | acquire i a =>
    dsimp only at h
    split at h
    · split at h
      · split at h
        · exact hrows (by rw [← Option.some.inj h]; rfl)
        · exact absurd h (by simp)
      · exact hrows (by rw [← Option.some.inj h]; rfl)
    · exact absurd h (by simp)
  | read i =>
    dsimp only at h
    split at h
    · exact hrows (by rw [← Option.some.inj h]; rfl)
    · exact absurd h (by simp)
  | insert i org_id now =>
    dsimp only at h
    split at h
    · obtain ⟨L₁, hlock, rfl⟩ := Option.map_eq_some_iff.mp h
      show List.Sublist ((L.rows.filter _).map _) (((L₁.rows ++ [_]).filter _).map _)
      rw [lockWriter_rows hlock, List.filter_append, List.map_append]
      exact List.sublist_append_left _ _
    · exact absurd h (by simp)
  | write i =>
    dsimp only at h
    split at h
    · exact hrows (lockWriter_rows h)
    · exact absurd h (by simp)
  | commit i =>
    dsimp only at h
    split at h
    · obtain rfl := Option.some.inj h
      show List.Sublist ((L.rows.filter _).map _) (((L.rows.map (LogRow.commit i)).filter _).map _)
      induction L.rows with
      | nil => exact .slnil
      | cons r rows ih =>
        rw [List.map_cons, List.filter_cons, List.filter_cons]
        by_cases hnone : r.owner = none
        · have hr : r.commit i = r := if_neg (by rw [hnone]; simp)
          rw [hr, if_pos (by simpa using hnone), if_pos (by simpa using hnone)]
          exact ih.cons_cons _
        · rw [if_neg (by simpa using hnone)]
          split
          · exact ih.cons _
          · exact ih
    · exact absurd h (by simp)
  | rollback i =>
    obtain rfl := Option.some.inj h
    show List.Sublist ((L.rows.filter _).map _)
      (((L.rows.filter fun r => decide (r.owner ≠ some i)).filter _).map _)
    rw [List.filter_filter]
    have hsame : ∀ r ∈ L.rows, (r.owner == none) = (r.owner == none && decide (r.owner ≠ some i)) := by
      intro r _
      cases r.owner <;> simp
    rw [List.filter_congr hsame]

/-- The rows of a session that commits are committed. -/
theorem commit_committed (h : L.step H (.commit i) = some L') :
    ∀ r ∈ L.rows, r.owner = some i → r.event ∈ L'.db.audits := by
  intro r hr howner
  unfold Log.step at h
  dsimp only at h
  split at h
  · obtain rfl := Option.some.inj h
    refine List.mem_map.mpr ⟨r.commit i, List.mem_filter.mpr ⟨List.mem_map_of_mem hr, ?_⟩, commit_event i r⟩
    simp [LogRow.commit, howner]
  · exact absurd h (by simp)

/-- Where every insert on SQLite is current, a run stays sound. -/
theorem Runs.sound (h : Runs H (fun L act => H.postgres = true ∨ L.Current act) L L')
    (hsound : L.Sound H) : L'.Sound H := by
  induction h with
  | start => exact hsound
  | step _ act hok hstep ih => exact ih.step hok hstep

theorem Runs.committed {ok : Log → Act → Prop} (h : Runs H ok L L') :
    L.db.audits.Sublist L'.db.audits := by
  induction h with
  | start => exact List.Sublist.refl _
  | step _ act _ hstep ih => exact ih.trans (step_committed hstep)

/-- Take the steps one after the other. -/
def run (H : Host) (L : Log) (acts : List Act) : Option Log := acts.foldlM (step H) L

theorem runs_of_run {ok : Log → Act → Prop} (hok : ∀ L act, ok L act) {L₀ : Log} :
    ∀ (acts : List Act) {L : Log}, Runs H ok L₀ L → L.run H acts = some L' → Runs H ok L₀ L' := by
  intro acts
  induction acts with
  | nil =>
    intro L h hrun
    obtain rfl := Option.some.inj hrun
    exact h
  | cons act acts ih =>
    intro L h hrun
    obtain ⟨L₁, hstep, hrest⟩ := Option.bind_eq_some_iff.mp hrun
    exact ih (.step h act (hok _ _) hstep) hrest

end Log

open Log

/-- **The audit chain never forks** on PostgreSQL, nor on SQLite where every insert still
sees the tail it links to. From a verified history, in every order of steps of any number
of sessions, every committed state verifies, and what is committed stays. -/
theorem chain_never_forks {es : List AuditEvent}
    (hstart : ∀ t, verify_chain H { DB.empty with audits := es } t = true) {L L' : Log}
    (h : Runs H (fun L act => H.postgres = true ∨ L.Current act) (Log.start es) L)
    (h' : Runs H (fun L act => H.postgres = true ∨ L.Current act) L L') :
    (∀ t, verify_chain H L.db t = true) ∧ L.db.audits.Sublist L'.db.audits ∧
      ∀ i L₁, L.step H (.commit i) = some L₁ →
        ∀ r ∈ L.rows, r.owner = some i → r.event ∈ L₁.db.audits := by
  have hsound := h.sound (start_sound hstart)
  exact ⟨hsound.verified, h'.committed, fun i L₁ hcommit => commit_committed hcommit⟩

/-! ## Two sessions, one tail -/

namespace Sample

/-- An event for the trace. -/
def entry : AuditArgs := ⟨"trace", "agent", none, "intent_decided", [], none⟩

/-- The same host on PostgreSQL. -/
def postgresHost : Host := { chainHost with postgres := true }

/-- One session appends and commits; a second one after it. -/
def inTurn : List Act :=
  [.acquire 0 entry, .read 0, .insert 0 "default" 0, .commit 0,
    .acquire 1 entry, .read 1, .insert 1 "default" 1, .commit 1]

/-- The second session reads the tail before the first one writes. -/
def crossed : List Act :=
  [.acquire 0 entry, .read 0, .acquire 1 entry, .read 1, .insert 0 "default" 0, .commit 0,
    .insert 1 "default" 1, .commit 1]

end Sample

/-- Appending in turn on PostgreSQL. -/
theorem chain_never_forks_in_turn : ∃ L, (Log.start []).run Sample.postgresHost Sample.inTurn = some L ∧
    ∀ t, verify_chain Sample.postgresHost L.db t = true :=
  ⟨_, rfl, (chain_never_forks (fun _ => rfl)
    (runs_of_run (fun _ _ => .inl rfl) Sample.inTurn .start rfl) .start).1⟩

/-- On SQLite two sessions may link to one tail: the committed chain no longer verifies. -/
theorem chain_forks : ∃ L, Runs Sample.chainHost (fun _ _ => True) (Log.start []) L ∧
    verify_chain Sample.chainHost L.db "trace" = false :=
  ⟨_, runs_of_run (fun _ _ => trivial) Sample.crossed .start rfl, by decide⟩

end Paari
