import Paari.Chain

/-!
# The state changes an audit trail tells

An event may carry a pair of states, under either of two names. Read in order, the
pairs of a trail are a walk through states; a trail accounts for a payment when that
walk goes from `AUTHORIZED` to the state the payment is in.
-/

namespace Paari

/-- A pair under these two names. -/
def pairUnder (first second : String) (detail : List (String × Json)) : Option (String × String) :=
  match detail.lookup first, detail.lookup second with
  | some (.str a), some (.str b) => some (a, b)
  | _, _ => none

/-- `from_state`/`to_state`, or `previous_state`/`current_state`. -/
def pairOf (detail : List (String × Json)) : Option (String × String) :=
  (pairUnder "from_state" "to_state" detail).orElse fun _ =>
    pairUnder "previous_state" "current_state" detail

def AuditEvent.pair (e : AuditEvent) : Option (String × String) := pairOf e.detail

/-- The pairs of a trace, oldest first. -/
def DB.pairs (db : DB) (transaction_id : String) : List (String × String) :=
  (db.trace transaction_id).filterMap AuditEvent.pair

/-- Where a walk along the pairs ends, if each starts where the one before ended. -/
def walk : String → List (String × String) → Option String
  | s, [] => some s
  | s, p :: ps => if p.1 = s then walk p.2 ps else none

theorem walk_append (ps qs : List (String × String)) : ∀ s : String,
    walk s (ps ++ qs) = (walk s ps).bind fun s' => walk s' qs := by
  induction ps with
  | nil => intro s; rfl
  | cons p ps ih =>
    intro s
    rw [List.cons_append, walk, walk]
    split
    · exact ih p.2
    · rfl

/-- The last pair ends in the state, which is `AUTHORIZED` when there is none. -/
def EndsIn (state : String) (ps : List (String × String)) : Prop :=
  ((ps.getLast?.map Prod.snd).getD "AUTHORIZED") = state

/-- Each pair starts where the one before ended. -/
def Connected (ps : List (String × String)) : Prop := ps.IsChain fun p q => p.2 = q.1

/-- The trail accounts for the state. -/
def Accounts (state : String) (ps : List (String × String)) : Prop := EndsIn state ps ∧ Connected ps

theorem walk_connected : ∀ (ps : List (String × String)) {s s' : String}, walk s ps = some s' →
    (ps.getLast?.map Prod.snd).getD s = s' ∧ Connected ps ∧ ∀ p, ps.head? = some p → p.1 = s := by
  intro ps
  induction ps with
  | nil =>
    intro s s' h
    exact ⟨Option.some.inj h, .nil, fun p hp => absurd hp (by simp)⟩
  | cons p ps ih =>
    intro s s' h
    rw [walk] at h
    split at h
    · next hp =>
      obtain ⟨hlast, hchain, hhead⟩ := ih h
      refine ⟨?_, ?_, fun q hq => (Option.some.inj hq) ▸ hp⟩
      · rw [List.getLast?_cons]
        rw [← hlast]
        cases ps.getLast? <;> rfl
      · cases ps with
        | nil => exact .singleton p
        | cons q qs =>
          exact List.isChain_cons_cons.mpr ⟨(hhead q rfl).symm, hchain⟩
    · exact absurd h (by simp)

/-- A walk from `AUTHORIZED` is all that is asked. -/
theorem accounts_of_walk {ps : List (String × String)} {s : String}
    (h : walk "AUTHORIZED" ps = some s) : Accounts s ps :=
  ⟨(walk_connected ps h).1, (walk_connected ps h).2.1⟩

end Paari
