import Mathlib.Data.List.Range
import Mathlib.Data.List.Nodup
import Mathlib.Logic.Function.Basic
import Paari.Host

/-!
# Rate limits

`check_rate` counts a call in the bucket of its scope and window, in a transaction of its own:
a DELETE of old buckets, an UPDATE, and where there is no row an INSERT that may lose a race.
The workers interleave statement by statement, as row locks and the unique constraint allow.
Every finished call has a number of its own in its bucket (`Counted`), so no more than the
limit return: as long as no bucket is counted in after its row was pruned. The DELETE takes
every row older than an hour, and a window may be longer than that.
-/

namespace Paari

namespace RateLimit

open Host (SECOND HOUR)

/-! ## Buckets -/

def PRUNE_AFTER : Int := HOUR

/-- The unique columns of a `RateBucket`. -/
structure Key where
  scope : String
  window_start : Instant
deriving DecidableEq

/-- What a transaction has done to a row and not committed: the count it has written, or that
it has deleted the row, and whether it pruned the row before. -/
structure Change where
  session : Nat
  count : Option Nat
  pruned : Bool

/-- One row, or its place: the committed count, the change under way, and whether a committed
DELETE has ever taken the row. -/
structure Row where
  count : Option Nat
  change : Option Change
  pruned : Bool

namespace Row

/-- The session has changed the row itself. -/
def own (r : Row) (i : Nat) : Option Change := r.change.filter fun ch => ch.session = i

/-- Another session has changed the row, and holds its lock. -/
def locked (r : Row) (i : Nat) : Bool := r.change.any fun ch => ch.session != i

/-- The count as a statement of the session sees it. -/
def seen (r : Row) (i : Nat) : Option Nat :=
  match r.own i with
  | some ch => ch.count
  | none => r.count

/-- The row was pruned, by a committed transaction or by the session's own. -/
def gone (r : Row) (i : Nat) : Bool := r.pruned || (r.own i).any fun ch => ch.pruned

def write (r : Row) (i count : Nat) : Row :=
  { r with change := some ⟨i, some count, (r.own i).any fun ch => ch.pruned⟩ }

def delete (r : Row) (i : Nat) : Row := { r with change := some ⟨i, none, true⟩ }

def commit (r : Row) (i : Nat) : Row :=
  match r.own i with
  | some ch => ⟨ch.count, none, r.pruned || ch.pruned⟩
  | none => r

def rollback (r : Row) (i : Nat) : Row :=
  match r.own i with
  | some _ => { r with change := none }
  | none => r

end Row

/-! ## Calls -/

/-- What the endpoints of a scope call `check_rate` with. -/
structure Budget where
  limit : Int
  window_seconds : Int

/-- A call and the clock it read. -/
structure Call where
  scope : String
  now : Instant
deriving DecidableEq

/-- Where a session stands in `check_rate`. -/
inductive Phase where
  | idle
  /-- The clock is read and the DELETE under way. -/
  | pruning (call : Call)
  /-- The UPDATE matched no row. -/
  | missed (call : Call)
  /-- The INSERT has lost the race, and is rolled back to the savepoint. -/
  | lost (call : Call)
  /-- The count is known and not committed. -/
  | counted (call : Call) (count : Nat)
deriving DecidableEq

def Phase.call? : Phase → Option Call
  | .idle => none
  | .pruning c | .missed c | .lost c | .counted c _ => some c

/-- A call that has committed, with the count it goes by. -/
structure Finished where
  call : Call
  count : Nat

structure Store where
  rows : Key → Row
  phase : Nat → Phase
  finished : List Finished

inductive Event where
  | begin (i : Nat) (scope : String) (now : Instant)
  /-- The DELETE takes a row. -/
  | prune (i : Nat) (key : Key)
  | update (i : Nat)
  | insert (i : Nat)
  | commit (i : Nat)
  /-- The transaction of the session is rolled back, inside `check_rate` or after it. -/
  | fail (i : Nat)

section
variable (budget : String → Budget)

/-- `epoch - (epoch % window_seconds)`, as a time. -/
def window_start (window_seconds : Int) (now : Instant) : Instant :=
  let epoch := Host.timestamp now
  (epoch - epoch % window_seconds) * SECOND

/-- The bucket a call counts in. -/
def Call.key (c : Call) : Key := ⟨c.scope, window_start (budget c.scope).window_seconds c.now⟩

/-- `check_rate` returns to its caller. -/
def Finished.accepted (f : Finished) : Bool := decide ((f.count : Int) ≤ (budget f.call.scope).limit)

namespace Store

variable (w : Store)

def empty : Store := ⟨fun _ => ⟨none, none, false⟩, fun _ => .idle, []⟩

def setPhase (i : Nat) (p : Phase) : Store := { w with phase := Function.update w.phase i p }

def setRow (k : Key) (r : Row) : Store := { w with rows := Function.update w.rows k r }

def rolled (i : Nat) : Store :=
  { w with rows := fun k => (w.rows k).rollback i, phase := Function.update w.phase i .idle }

/-- The count is written, and the call knows it. -/
def counts (i : Nat) (c : Call) (count : Nat) : Store :=
  (w.setRow (c.key budget) ((w.rows (c.key budget)).write i count)).setPhase i (.counted c count)

def commits (i : Nat) (c : Call) (count : Nat) : Store where
  rows := fun k => (w.rows k).commit i
  phase := Function.update w.phase i .idle
  finished := w.finished ++ [⟨c, count⟩]

theorem commits_self (i : Nat) (c : Call) (count : Nat) : (w.commits i c count).phase i = .idle :=
  Function.update_self _ _ _

theorem commits_of_ne {i j : Nat} (h : j ≠ i) (c : Call) (count : Nat) :
    (w.commits i c count).phase j = w.phase j :=
  Function.update_of_ne h _ _

/-- The UPDATE and the SELECT of its count. It waits for a row that another session has
changed, not for one that another has inserted; without a row the store is `otherwise`. -/
def updates (i : Nat) (c : Call) (otherwise : Store) : Option Store :=
  let r := w.rows (c.key budget)
  if r.locked i && r.count.isSome then none
  else
    match r.seen i with
    | some count => some (w.counts budget i c (count + 1))
    | none => some otherwise

/-- One statement of `check_rate`; `none` if the session is elsewhere or has to wait. -/
def step : Event → Option Store
  | .begin i scope now =>
    match w.phase i with
    | .idle => some (w.setPhase i (.pruning ⟨scope, now⟩))
    | _ => none
  | .prune i key =>
    match w.phase i with
    | .pruning c =>
      if key.window_start < c.now - PRUNE_AFTER ∧ (w.rows key).locked i = false ∧
          ((w.rows key).seen i).isSome then
        some (w.setRow key ((w.rows key).delete i))
      else none
    | _ => none
  | .update i =>
    match w.phase i with
    | .pruning c => w.updates budget i c (w.setPhase i (.missed c))
    -- The second SELECT finds nothing, and `None > limit` raises.
    | .lost c => w.updates budget i c (w.rolled i)
    | _ => none
  | .insert i =>
    match w.phase i with
    | .missed c =>
      let r := w.rows (c.key budget)
      -- The unique index makes it wait for whoever inserts or deletes the row.
      if r.locked i then none
      else if (r.seen i).isSome then some (w.setPhase i (.lost c))
      else some (w.counts budget i c 1)
    | _ => none
  | .commit i =>
    match w.phase i with
    | .counted c count => some (w.commits i c count)
    | _ => none
  | .fail i => some (w.rolled i)

theorem setPhase_self (i : Nat) (p : Phase) : (w.setPhase i p).phase i = p :=
  Function.update_self _ _ _

theorem setPhase_of_ne {i j : Nat} (h : j ≠ i) (p : Phase) : (w.setPhase i p).phase j = w.phase j :=
  Function.update_of_ne h _ _

theorem rolled_self (i : Nat) : (w.rolled i).phase i = .idle := Function.update_self _ _ _

theorem rolled_of_ne {i j : Nat} (h : j ≠ i) : (w.rolled i).phase j = w.phase j :=
  Function.update_of_ne h _ _

/-- A run of events. -/
def run (w : Store) : List Event → Option Store
  | [] => some w
  | e :: es => (w.step budget e).bind fun w' => run w' es

/-- The event counts in no bucket that was pruned. -/
def Keeps (w : Store) : Event → Bool
  | .update i | .insert i =>
    (w.phase i).call?.all fun c => !(w.rows (c.key budget)).gone i
  | _ => true

/-- Every event of the run does so. -/
def RunKeeps (w : Store) : List Event → Bool
  | [] => true
  | e :: es => w.Keeps budget e && (w.step budget e).all fun w' => RunKeeps w' es

/-- The finished calls of a bucket. -/
def served (k : Key) : List Finished := w.finished.filter fun f => f.call.key budget = k

end Store

end

/-! ## Rows -/

namespace Row

variable {r : Row} {i : Nat} {ch : Change}

theorem own_eq_some : r.own i = some ch ↔ r.change = some ch ∧ ch.session = i := by
  unfold own
  rw [Option.filter_eq_some_iff, decide_eq_true_iff]

theorem own_eq_none : r.own i = none ↔ ∀ ch, r.change = some ch → ch.session ≠ i := by
  constructor
  · intro h ch hch hsession
    exact absurd (h.symm.trans (own_eq_some.mpr ⟨hch, hsession⟩)) nofun
  · intro h
    cases hown : r.own i with
    | none => rfl
    | some ch =>
      obtain ⟨hch, hsession⟩ := own_eq_some.mp hown
      exact absurd hsession (h ch hch)

/-- A row that the session has not changed stays as it is when the session ends. -/
theorem commit_of_none (h : r.own i = none) : r.commit i = r := by
  unfold commit
  rw [h]

theorem rollback_of_none (h : r.own i = none) : r.rollback i = r := by
  unfold rollback
  rw [h]

theorem commit_of_some (h : r.own i = some ch) :
    r.commit i = ⟨ch.count, none, r.pruned || ch.pruned⟩ := by
  unfold commit
  rw [h]

theorem rollback_of_some (h : r.own i = some ch) : r.rollback i = { r with change := none } := by
  unfold rollback
  rw [h]

/-- The end of a session leaves a row that another has changed. -/
theorem change_of_commit (h : (r.commit i).change = some ch) :
    r.change = some ch ∧ ch.session ≠ i ∧ r.commit i = r := by
  cases hown : r.own i with
  | some ch' =>
    rw [commit_of_some hown] at h
    exact absurd h nofun
  | none =>
    rw [commit_of_none hown] at h
    exact ⟨h, own_eq_none.mp hown ch h, commit_of_none hown⟩

theorem change_of_rollback (h : (r.rollback i).change = some ch) :
    r.change = some ch ∧ ch.session ≠ i := by
  cases hown : r.own i with
  | some ch' =>
    rw [rollback_of_some hown] at h
    exact absurd h nofun
  | none =>
    rw [rollback_of_none hown] at h
    exact ⟨h, own_eq_none.mp hown ch h⟩

theorem rollback_count (r : Row) (i : Nat) : (r.rollback i).count = r.count := by
  cases hown : r.own i with
  | some ch => rw [rollback_of_some hown]
  | none => rw [rollback_of_none hown]

theorem rollback_pruned (r : Row) (i : Nat) : (r.rollback i).pruned = r.pruned := by
  cases hown : r.own i with
  | some ch => rw [rollback_of_some hown]
  | none => rw [rollback_of_none hown]

/-- A row that nobody has changed shows its committed count. -/
theorem seen_of_unchanged (h : r.change = none) (i : Nat) : r.seen i = r.count := by
  have hown : r.own i = none := own_eq_none.mpr fun ch hch => absurd (h.symm.trans hch) nofun
  unfold seen
  rw [hown]

end Row

/-! ## What a run keeps -/

section
variable (budget : String → Budget)

/-- The finished calls of every bucket are numbered from one, and the bucket counts them, until
it is pruned; a change under way is a DELETE, or the next number of a call that knows it. -/
structure Counted (w : Store) : Prop where
  deleted : ∀ k ch, (w.rows k).change = some ch → ch.pruned = true → ch.count = none
  changed : ∀ k ch, (w.rows k).change = some ch → ch.pruned = false →
    ∃ c, w.phase ch.session = .counted c ((w.rows k).count.getD 0 + 1) ∧ c.key budget = k ∧
      ch.count = some ((w.rows k).count.getD 0 + 1) ∧ (w.rows k).pruned = false
  counted : ∀ i c n, w.phase i = .counted c n → ∃ ch,
    (w.rows (c.key budget)).change = some ch ∧ ch.session = i ∧ ch.pruned = false
  numbered : ∀ k, (w.served budget k).map Finished.count = List.range' 1 (w.served budget k).length
  total : ∀ k, (w.rows k).pruned = false →
    (w.rows k).count.getD 0 = (w.served budget k).length

end

namespace Counted

variable {budget : String → Budget} {w : Store} {i : Nat} {c : Call} {p : Phase}

theorem empty : Counted budget Store.empty where
  deleted := fun _ _ h => absurd h nofun
  changed := fun _ _ h => absurd h nofun
  counted := fun _ _ _ h => absurd h nofun
  numbered := fun _ => rfl
  total := fun _ _ => rfl

/-- A session that knows no count yet has no row but those it has pruned. -/
theorem own_pruned (h : Counted budget w) (hp : ∀ c n, w.phase i ≠ .counted c n) {k : Key}
    {ch : Change} (hown : (w.rows k).own i = some ch) : ch.pruned = true := by
  obtain ⟨hch, rfl⟩ := Row.own_eq_some.mp hown
  cases hpruned : ch.pruned with
  | true => rfl
  | false =>
    obtain ⟨c, hphase, -⟩ := h.changed k ch hch hpruned
    exact absurd hphase (hp c _)

/-- In a bucket that is not gone, such a session has changed nothing. -/
theorem own_none (h : Counted budget w) (hp : ∀ c n, w.phase i ≠ .counted c n) {k : Key}
    (hkept : (w.rows k).gone i = false) : (w.rows k).own i = none := by
  cases hown : (w.rows k).own i with
  | none => rfl
  | some ch =>
    have hpruned := h.own_pruned hp hown
    unfold Row.gone at hkept
    rw [hown, Option.any_some, hpruned, Bool.or_true] at hkept
    exact absurd hkept nofun

/-- Moving on without a count. -/
theorem setPhase (h : Counted budget w) (hp : ∀ c n, w.phase i ≠ .counted c n)
    (hp' : ∀ c n, p ≠ .counted c n) : Counted budget (w.setPhase i p) where
  deleted := h.deleted
  changed := by
    intro k ch hch hpruned
    obtain ⟨c, hphase, hrest⟩ := h.changed k ch hch hpruned
    refine ⟨c, ?_, hrest⟩
    have hne : ch.session ≠ i := fun heq => hp c _ (heq ▸ hphase)
    exact (w.setPhase_of_ne hne p).trans hphase
  counted := by
    intro j c n hphase
    by_cases hj : j = i
    · rw [hj, w.setPhase_self i p] at hphase
      exact absurd hphase (hp' c n)
    · rw [w.setPhase_of_ne hj p] at hphase
      exact h.counted j c n hphase
  numbered := h.numbered
  total := h.total

/-- The session's own row of a bucket, written for the first time. -/
theorem counts (h : Counted budget w) (hp : ∀ c n, w.phase i ≠ .counted c n)
    (hfree : (w.rows (c.key budget)).change = none) (hkept : (w.rows (c.key budget)).pruned = false)
    {count : Nat} (hcount : count = (w.rows (c.key budget)).count.getD 0 + 1) :
    Counted budget (w.counts budget i c count) := by
  subst hcount
  have hown : (w.rows (c.key budget)).own i = none :=
    Row.own_eq_none.mpr fun ch hch => absurd (hfree.symm.trans hch) nofun
  have hrow : (w.counts budget i c ((w.rows (c.key budget)).count.getD 0 + 1)).rows (c.key budget) =
      { w.rows (c.key budget) with
        change := some ⟨i, some ((w.rows (c.key budget)).count.getD 0 + 1), false⟩ } := by
    show Function.update w.rows _ _ _ = _
    rw [Function.update_self]
    unfold Row.write
    rw [hown, Option.any_none]
  have hother : ∀ k, k ≠ c.key budget →
      (w.counts budget i c ((w.rows (c.key budget)).count.getD 0 + 1)).rows k = w.rows k :=
    fun k hk => Function.update_of_ne hk _ _
  have hself : (w.counts budget i c ((w.rows (c.key budget)).count.getD 0 + 1)).phase i =
      .counted c ((w.rows (c.key budget)).count.getD 0 + 1) := Function.update_self _ _ _
  have hphases : ∀ j, j ≠ i →
      (w.counts budget i c ((w.rows (c.key budget)).count.getD 0 + 1)).phase j = w.phase j :=
    fun j hj => Function.update_of_ne hj _ _
  refine ⟨?_, ?_, ?_, h.numbered, ?_⟩
  · intro k ch hch hpruned
    by_cases hk : k = c.key budget
    · rw [hk, hrow] at hch
      obtain rfl := Option.some.inj hch
      exact absurd hpruned nofun
    · rw [hother k hk] at hch
      exact h.deleted k ch hch hpruned
  · intro k ch hch hpruned
    by_cases hk : k = c.key budget
    · rw [hk, hrow] at hch ⊢
      obtain rfl := Option.some.inj hch
      exact ⟨c, hself, rfl, rfl, hkept⟩
    · rw [hother k hk] at hch ⊢
      obtain ⟨c', hphase, hrest⟩ := h.changed k ch hch hpruned
      have hne : ch.session ≠ i := fun heq => hp c' _ (heq ▸ hphase)
      exact ⟨c', (hphases _ hne).trans hphase, hrest⟩
  · intro j c' n hphase
    by_cases hj : j = i
    · rw [hj, hself] at hphase
      obtain ⟨rfl, -⟩ := Phase.counted.inj hphase
      exact ⟨_, congrArg Row.change hrow, hj.symm, rfl⟩
    · rw [hphases j hj] at hphase
      obtain ⟨ch, hch, hrest⟩ := h.counted j c' n hphase
      have hk : c'.key budget ≠ c.key budget := by
        intro heq
        rw [heq, hfree] at hch
        exact absurd hch nofun
      exact ⟨ch, (congrArg Row.change (hother _ hk)).trans hch, hrest⟩
  · intro k hpruned
    by_cases hk : k = c.key budget
    · rw [hk, hrow] at hpruned ⊢
      exact h.total _ hpruned
    · rw [hother k hk] at hpruned ⊢
      exact h.total k hpruned

/-- The session is rolled back. -/
theorem rolled (h : Counted budget w) (i : Nat) : Counted budget (w.rolled i) := by
  have hcount : ∀ k, ((w.rolled i).rows k).count = (w.rows k).count :=
    fun k => Row.rollback_count _ i
  have hpruned : ∀ k, ((w.rolled i).rows k).pruned = (w.rows k).pruned :=
    fun k => Row.rollback_pruned _ i
  refine ⟨?_, ?_, ?_, h.numbered, ?_⟩
  · intro k ch hch hdel
    exact h.deleted k ch (Row.change_of_rollback hch).1 hdel
  · intro k ch hch hdel
    obtain ⟨hold, hne⟩ := Row.change_of_rollback hch
    obtain ⟨c, hphase, hrest⟩ := h.changed k ch hold hdel
    rw [hcount, hpruned]
    exact ⟨c, (w.rolled_of_ne hne).trans hphase, hrest⟩
  · intro j c n hphase
    by_cases hj : j = i
    · rw [hj, w.rolled_self i] at hphase
      exact absurd hphase nofun
    · rw [w.rolled_of_ne hj] at hphase
      obtain ⟨ch, hch, hsession, hdel⟩ := h.counted j c n hphase
      refine ⟨ch, ?_, hsession, hdel⟩
      have hown : (w.rows (c.key budget)).own i = none := by
        refine Row.own_eq_none.mpr fun ch' hch' heq => hj ?_
        obtain rfl := Option.some.inj (hch.symm.trans hch')
        exact hsession.symm.trans heq
      exact (congrArg Row.change (Row.rollback_of_none hown)).trans hch
  · intro k hkept
    rw [hpruned] at hkept
    rw [hcount]
    exact h.total k hkept

/-- A row of an old bucket is deleted. -/
theorem pruned (h : Counted budget w) (hp : ∀ c n, w.phase i ≠ .counted c n) {key : Key}
    (hfree : (w.rows key).locked i = false) :
    Counted budget (w.setRow key ((w.rows key).delete i)) := by
  have hrow : (w.setRow key ((w.rows key).delete i)).rows key = (w.rows key).delete i :=
    Function.update_self _ _ _
  have hother : ∀ k, k ≠ key → (w.setRow key ((w.rows key).delete i)).rows k = w.rows k :=
    fun k hk => Function.update_of_ne hk _ _
  refine ⟨?_, ?_, ?_, h.numbered, ?_⟩
  · intro k ch hch hdel
    by_cases hk : k = key
    · rw [hk, hrow] at hch
      obtain rfl := Option.some.inj hch
      rfl
    · rw [hother k hk] at hch
      exact h.deleted k ch hch hdel
  · intro k ch hch hdel
    by_cases hk : k = key
    · rw [hk, hrow] at hch
      obtain rfl := Option.some.inj hch
      exact absurd hdel nofun
    · rw [hother k hk] at hch ⊢
      exact h.changed k ch hch hdel
  · intro j c n hphase
    obtain ⟨ch, hch, hsession, hdel⟩ := h.counted j c n hphase
    have hk : c.key budget ≠ key := by
      intro heq
      -- whoever counts there holds the lock
      rw [heq] at hch
      unfold Row.locked at hfree
      rw [hch, Option.any_some, bne_eq_false_iff_eq] at hfree
      rw [← hfree, hsession] at hp
      exact hp c n hphase
    exact ⟨ch, (congrArg Row.change (hother _ hk)).trans hch, hsession, hdel⟩
  · intro k hkept
    by_cases hk : k = key
    · rw [hk, hrow] at hkept ⊢
      exact h.total _ hkept
    · rw [hother k hk] at hkept ⊢
      exact h.total k hkept

/-- The UPDATE, where the bucket is not gone. -/
theorem updates (h : Counted budget w) (hp : ∀ c n, w.phase i ≠ .counted c n)
    (hkept : (w.rows (c.key budget)).gone i = false) {otherwise w' : Store}
    (hother : Counted budget otherwise) (hw : w.updates budget i c otherwise = some w') :
    Counted budget w' := by
  have hown := h.own_none hp hkept
  unfold Store.updates at hw
  dsimp only at hw
  split at hw
  · exact absurd hw nofun
  next hwait =>
  split at hw
  · next count hseen =>
    obtain rfl := Option.some.inj hw
    have hseen' : (w.rows (c.key budget)).seen i = (w.rows (c.key budget)).count := by
      unfold Row.seen
      rw [hown]
    rw [hseen'] at hseen
    have hfree : (w.rows (c.key budget)).change = none := by
      cases hchange : (w.rows (c.key budget)).change with
      | none => rfl
      | some ch =>
        -- it would be another session's, and the UPDATE would wait
        have hne := Row.own_eq_none.mp hown ch hchange
        refine absurd ?_ hwait
        unfold Row.locked
        rw [hchange, hseen]
        simp [hne]
    refine h.counts hp hfree ?_ (by rw [hseen, Option.getD_some])
    unfold Row.gone at hkept
    exact (Bool.or_eq_false_iff.mp hkept).1
  · obtain rfl := Option.some.inj hw
    exact hother

/-- The INSERT of a bucket that is not gone. -/
theorem inserts (h : Counted budget w) (hp : ∀ c n, w.phase i ≠ .counted c n)
    (hkept : (w.rows (c.key budget)).gone i = false)
    (hfree : (w.rows (c.key budget)).locked i = false)
    (hunseen : (w.rows (c.key budget)).seen i = none) : Counted budget (w.counts budget i c 1) := by
  have hown := h.own_none hp hkept
  have hchange : (w.rows (c.key budget)).change = none := by
    cases hchange : (w.rows (c.key budget)).change with
    | none => rfl
    | some ch =>
      have hne := Row.own_eq_none.mp hown ch hchange
      unfold Row.locked at hfree
      rw [hchange, Option.any_some, bne_eq_false_iff_eq] at hfree
      exact absurd hfree hne
  rw [Row.seen_of_unchanged hchange] at hunseen
  refine h.counts hp hchange ?_ (by rw [hunseen, Option.getD_none])
  unfold Row.gone at hkept
  exact (Bool.or_eq_false_iff.mp hkept).1

/-- The commit of a call. -/
theorem commits (h : Counted budget w) {n : Nat} (hphase : w.phase i = .counted c n) :
    Counted budget (w.commits i c n) := by
  obtain ⟨own, hchange, hsession, hdel⟩ := h.counted i c n hphase
  obtain ⟨c₁, hphase₁, -, hcount, hlive⟩ := h.changed _ own hchange hdel
  rw [hsession, hphase] at hphase₁
  obtain ⟨-, hn⟩ := Phase.counted.inj hphase₁
  have hown : (w.rows (c.key budget)).own i = some own := Row.own_eq_some.mpr ⟨hchange, hsession⟩
  have hcommitted : (w.rows (c.key budget)).commit i = ⟨some n, none, false⟩ := by
    rw [Row.commit_of_some hown, hcount, hlive, hdel, hn]
    rfl
  -- every other row the session has changed, it has pruned
  have hrest : ∀ k, k ≠ c.key budget → ∀ ch, (w.rows k).own i = some ch → ch.pruned = true := by
    intro k hk ch hch
    obtain ⟨hch, hs⟩ := Row.own_eq_some.mp hch
    cases hpruned : ch.pruned with
    | true => rfl
    | false =>
      obtain ⟨c₂, hphase₂, hkey, -⟩ := h.changed k ch hch hpruned
      rw [hs, hphase] at hphase₂
      obtain ⟨rfl, -⟩ := Phase.counted.inj hphase₂
      exact absurd hkey.symm hk
  have hserved : ∀ k, (w.commits i c n).served budget k =
      w.served budget k ++ if c.key budget = k then [⟨c, n⟩] else [] := by
    intro k
    show (w.finished ++ [_]).filter _ = w.finished.filter _ ++ _
    rw [List.filter_append]
    by_cases hk : c.key budget = k
    · simp [hk]
    · simp [hk]
  refine ⟨?_, ?_, ?_, ?_, ?_⟩
  · intro k ch hch hpruned
    exact h.deleted k ch (Row.change_of_commit hch).1 hpruned
  · intro k ch hch hpruned
    obtain ⟨hold, hne, hsame⟩ := Row.change_of_commit hch
    obtain ⟨c₂, hphase₂, hothers⟩ := h.changed k ch hold hpruned
    show ∃ c, _ = Phase.counted c (((w.rows k).commit i).count.getD 0 + 1) ∧ _ ∧
      _ = some (((w.rows k).commit i).count.getD 0 + 1) ∧ ((w.rows k).commit i).pruned = false
    rw [hsame]
    exact ⟨c₂, (Function.update_of_ne hne _ _).trans hphase₂, hothers⟩
  · intro j c₂ n₂ hphase₂
    by_cases hj : j = i
    · rw [hj, w.commits_self] at hphase₂
      exact absurd hphase₂ nofun
    · rw [w.commits_of_ne hj] at hphase₂
      obtain ⟨ch, hch, hs, hpruned⟩ := h.counted j c₂ n₂ hphase₂
      refine ⟨ch, ?_, hs, hpruned⟩
      have hnone : (w.rows (c₂.key budget)).own i = none := by
        refine Row.own_eq_none.mpr fun ch' hch' heq => hj ?_
        obtain rfl := Option.some.inj (hch.symm.trans hch')
        exact hs.symm.trans heq
      exact (congrArg Row.change (Row.commit_of_none hnone)).trans hch
  · intro k
    rw [hserved]
    by_cases hk : c.key budget = k
    · rw [if_pos hk, List.map_append, h.numbered k, List.length_append]
      have htotal := h.total k (hk ▸ hlive)
      show _ ++ [n] = List.range' 1 (_ + 1)
      rw [List.range'_1_concat, hn, hk, htotal, Nat.add_comm 1]
    · rw [if_neg hk, List.append_nil]
      exact h.numbered k
  · intro k hkept
    rw [hserved]
    by_cases hk : c.key budget = k
    · have htotal := h.total k (hk ▸ hlive)
      subst hk
      show ((w.rows _).commit i).count.getD 0 = _
      rw [hcommitted, if_pos rfl, List.length_append, ← htotal, hn]
      rfl
    · rw [if_neg hk, List.append_nil]
      have hnone : (w.rows k).own i = none := by
        cases hmine : (w.rows k).own i with
        | none => rfl
        | some ch =>
          have hpruned := hrest k (Ne.symm hk) ch hmine
          replace hkept : ((w.rows k).commit i).pruned = false := hkept
          rw [Row.commit_of_some hmine, hpruned] at hkept
          exact absurd hkept (by simp)
      have hsame : (w.commits i c n).rows k = w.rows k := Row.commit_of_none hnone
      rw [hsame] at hkept ⊢
      exact h.total k hkept

/-- **One statement keeps the count, if it counts in no bucket that is gone.** -/
theorem step (h : Counted budget w) {e : Event} (hkeeps : w.Keeps budget e = true) {w' : Store}
    (hw : w.step budget e = some w') : Counted budget w' := by
  cases e with
  | begin i scope now =>
    simp only [Store.step] at hw
    split at hw
    · next hidle =>
      obtain rfl := Option.some.inj hw
      exact h.setPhase (by simp [hidle]) (by simp)
    · exact absurd hw nofun
  | prune i key =>
    simp only [Store.step] at hw
    split at hw
    · next hphase =>
      split at hw
      · next hold =>
        obtain rfl := Option.some.inj hw
        exact h.pruned (i := i) (by simp [hphase]) hold.2.1
      · exact absurd hw nofun
    · exact absurd hw nofun
  | update i =>
    simp only [Store.step] at hw
    simp only [Store.Keeps] at hkeeps
    split at hw
    · next c hphase =>
      rw [hphase] at hkeeps
      have hp : ∀ c n, w.phase i ≠ .counted c n := by simp [hphase]
      exact h.updates hp (by simpa [Phase.call?] using hkeeps) (h.setPhase hp (by simp)) hw
    · next c hphase =>
      rw [hphase] at hkeeps
      have hp : ∀ c n, w.phase i ≠ .counted c n := by simp [hphase]
      exact h.updates hp (by simpa [Phase.call?] using hkeeps) (h.rolled i) hw
    · exact absurd hw nofun
  | insert i =>
    simp only [Store.step] at hw
    simp only [Store.Keeps] at hkeeps
    split at hw
    · next c hphase =>
      rw [hphase] at hkeeps
      have hp : ∀ c n, w.phase i ≠ .counted c n := by simp [hphase]
      split at hw
      · exact absurd hw nofun
      next hwait =>
      split at hw
      · obtain rfl := Option.some.inj hw
        exact h.setPhase hp (by simp)
      · next hunseen =>
        obtain rfl := Option.some.inj hw
        exact h.inserts hp (by simpa [Phase.call?] using hkeeps) (Bool.eq_false_iff.mpr hwait)
          (Option.not_isSome_iff_eq_none.mp hunseen)
    · exact absurd hw nofun
  | commit i =>
    simp only [Store.step] at hw
    split at hw
    · next c n hphase =>
      obtain rfl := Option.some.inj hw
      exact h.commits hphase
    · exact absurd hw nofun
  | fail i =>
    obtain rfl := Option.some.inj hw
    exact h.rolled i

theorem run (h : Counted budget w) {events : List Event} (hkeeps : w.RunKeeps budget events = true)
    {w' : Store} (hw : w.run budget events = some w') : Counted budget w' := by
  induction events generalizing w with
  | nil =>
    obtain rfl := Option.some.inj hw
    exact h
  | cons e es ih =>
    obtain ⟨w₁, hstep, hrest⟩ := Option.bind_eq_some_iff.mp hw
    simp only [Store.RunKeeps, hstep, Bool.and_eq_true, Option.all_some] at hkeeps
    exact ih (h.step hkeeps.1 hstep) hkeeps.2 hrest

end Counted

/-! ## The bound -/

/-- Of the numbers from one to `n`, no more than `limit` are within the limit. -/
theorem within_limit (n : Nat) (limit : Int) :
    ((List.range' 1 n).filter fun (c : Nat) => decide ((c : Int) ≤ limit)).length ≤ limit.toNat := by
  have hsub : ((List.range' 1 n).filter fun (c : Nat) => decide ((c : Int) ≤ limit)) ⊆
      List.range' 1 limit.toNat := by
    intro c hc
    obtain ⟨hmem, hle⟩ := List.mem_filter.mp hc
    rw [List.mem_range'_1] at hmem ⊢
    rw [decide_eq_true_iff] at hle
    omega
  have hlength := (List.subperm_of_subset (List.Nodup.filter _ (List.nodup_range' 1)) hsub).length_le
  rwa [List.length_range'] at hlength

/-- **No more calls return than the limit of the window, and each is counted once**: in every
interleaving in which no call counts in a bucket that was pruned. -/
theorem rate_limit_bound (budget : String → Budget) {events : List Event} {w : Store}
    (hrun : Store.empty.run budget events = some w)
    (hkeeps : Store.empty.RunKeeps budget events = true) (scope : String) (window : Instant) :
    ((w.served budget ⟨scope, window⟩).filter fun f => f.accepted budget).length ≤
        (budget scope).limit.toNat ∧
      (w.served budget ⟨scope, window⟩).map Finished.count =
        List.range' 1 (w.served budget ⟨scope, window⟩).length ∧
      ((w.rows ⟨scope, window⟩).pruned = false →
        (w.rows ⟨scope, window⟩).count.getD 0 = (w.served budget ⟨scope, window⟩).length) := by
  have h := Counted.empty.run hkeeps hrun
  refine ⟨?_, h.numbered _, h.total _⟩
  have hscope : ∀ f ∈ w.served budget ⟨scope, window⟩,
      f.accepted budget = decide ((f.count : Int) ≤ (budget scope).limit) := by
    intro f hf
    have hkey : f.call.key budget = ⟨scope, window⟩ := by simpa using (List.mem_filter.mp hf).2
    have hname : f.call.scope = scope := congrArg Key.scope hkey
    unfold Finished.accepted
    rw [hname]
  rw [List.filter_congr hscope]
  have hmap := within_limit (w.served budget ⟨scope, window⟩).length (budget scope).limit
  rw [← h.numbered, List.filter_map, List.length_map] at hmap
  exact hmap

namespace Sample

/-- One call a minute for `login`, one call a day for everything else. -/
def budgets (scope : String) : Budget := if scope = "login" then ⟨1, 60⟩ else ⟨1, 86400⟩

/-- Two workers race to insert the first row of a minute; the second is counted and refused. -/
def race : List Event :=
  [.begin 0 "login" 0, .begin 1 "login" SECOND, .update 0, .update 1, .insert 0, .commit 0,
    .insert 1, .update 1, .commit 1]

/-- The clock at half past two. -/
def late : Instant := 150 * Host.MINUTE

/-- Two calls on one day, an hour after it began: the second deletes the row of the first. -/
def daily : List Event :=
  [.begin 0 "export" late, .update 0, .insert 0, .commit 0, .begin 1 "export" late,
    .prune 1 ⟨"export", 0⟩, .update 1, .insert 1, .commit 1]

end Sample

/-- Of two racing calls one returns. -/
theorem rate_limit_bound_race : ∃ w, Store.empty.run Sample.budgets Sample.race = some w ∧
    (w.served Sample.budgets ⟨"login", 0⟩).length = 2 ∧
    ((w.served Sample.budgets ⟨"login", 0⟩).filter fun f => f.accepted Sample.budgets).length ≤ 1 := by
  refine ⟨_, rfl, by decide +kernel, ?_⟩
  exact (rate_limit_bound Sample.budgets
    (show Store.empty.run Sample.budgets Sample.race = some _ from rfl) (by decide +kernel)
    "login" 0).1

/-- Two calls return on a day that allows one. -/
theorem rate_limit_exceeded : ∃ w, Store.empty.run Sample.budgets Sample.daily = some w ∧
    (Sample.budgets "export").limit = 1 ∧
    ((w.served Sample.budgets ⟨"export", 0⟩).filter fun f => f.accepted Sample.budgets).length = 2 :=
  ⟨_, rfl, rfl, by decide +kernel⟩

end RateLimit

end Paari
