import Paari.Conduct
import Paari.Effects

/-!
# One authorization, one submission

The single use of an authorization is a `Ticket`: free, held by a session that has
not committed yet, or spent. The column `usage_count`, with the uncommitted guarded
`UPDATE`s on it, is a ticket in every reachable world, whatever handlers race or die;
and only the session that spent the ticket, if it is a consumer, ever asks a
provider to create the payment.
-/

namespace Paari

open Atomic

/-! ## Tickets -/

/-- The single use of an authorization. `spent none` was spent before the run. -/
inductive Ticket
  | free
  | held (session : Nat)
  | spent (session : Option Nat)
deriving DecidableEq

namespace Ticket

/-- What `usage_count` shows. -/
def usage : Ticket → Int
  | free => 0
  | _ => 1

/-- Who spent it in this run. -/
def spender : Ticket → Option Nat
  | spent s => s
  | _ => none

/-- The session gives up what it holds. -/
def drop (i : Nat) : Ticket → Ticket
  | held j => if j = i then free else held j
  | τ => τ

/-- The session commits what it holds. -/
def spend (i : Nat) : Ticket → Ticket
  | held j => if j = i then spent (some j) else held j
  | τ => τ

theorem drop_of_ne {τ : Ticket} {i : Nat} (h : τ ≠ held i) : τ.drop i = τ := by
  cases τ with
  | held j =>
    have hj : j ≠ i := fun hj => h (hj ▸ rfl)
    simp [drop, hj]
  | _ => rfl

theorem spend_of_ne {τ : Ticket} {i : Nat} (h : τ ≠ held i) : τ.spend i = τ := by
  cases τ with
  | held j =>
    have hj : j ≠ i := fun hj => h (hj ▸ rfl)
    simp [spend, hj]
  | _ => rfl

@[simp] theorem drop_held (i : Nat) : (held i).drop i = free := by simp [drop]

@[simp] theorem spend_held (i : Nat) : (held i).spend i = spent (some i) := by simp [spend]

end Ticket

/-! ## The column is a ticket -/

/-- The rows of the authorization, and the reservations on them, show the ticket. -/
structure Shows (id : String) (τ : Ticket) (w : World) : Prop where
  rows : ∀ a ∈ w.db.authorizations, a.authorization_id = id →
    a.max_usage = 1 ∧ a.usage_count = τ.usage
  reserved : ∀ r ∈ w.reserved, r.authorization_id = id → τ = .held r.session ∧ r.usage_count = 0
  held : ∀ i, τ = .held i → ∃ r ∈ w.reserved, r.session = i ∧ r.authorization_id = id

namespace Shows

variable {id : String} {τ : Ticket} {w : World}

/-- A rollback, or a death, drops what the session holds. -/
theorem rollback (h : Shows id τ w) (i : Nat) : Shows id (τ.drop i) (w.rollback i) where
  rows := by
    intro a' ha' hid'
    obtain ⟨a, ha, hsame, hother, hnamed⟩ := undo_rows _ w a' ha'
    have hid : a.authorization_id = id := by rw [hsame] at hid'; exact hid'
    obtain ⟨hmax, husage⟩ := h.rows a ha hid
    refine ⟨by rw [hsame]; exact hmax, ?_⟩
    by_cases hτ : τ = .held i
    · subst hτ
      obtain ⟨r, hr, hsession, hrid⟩ := h.held i rfl
      have hmem : r ∈ w.reserved.filter fun r => decide (r.session = i) :=
        List.mem_filter.mpr ⟨hr, by simpa using hsession⟩
      obtain ⟨r', hr', hrid', hback⟩ := hnamed ⟨r, hmem, hrid.trans hid.symm⟩
      have := (h.reserved r' (List.mem_of_mem_filter hr') (hrid'.trans hid)).2
      rw [hback, this, Ticket.drop_held]
      rfl
    · rw [Ticket.drop_of_ne hτ, hother ?_, husage]
      intro r hr hrid
      obtain ⟨hr, hsession⟩ := List.mem_filter.mp hr
      exact hτ ((of_decide_eq_true hsession) ▸ (h.reserved r hr (hrid.trans hid)).1)
  reserved := by
    intro r hr hrid
    rw [rollback_reserved] at hr
    obtain ⟨hr, hsession⟩ := List.mem_filter.mp hr
    obtain ⟨hτ, h0⟩ := h.reserved r hr hrid
    have hne : τ ≠ .held i := by
      rw [hτ]
      intro hi
      exact absurd (Ticket.held.inj hi) (by simpa using hsession)
    exact ⟨by rw [Ticket.drop_of_ne hne, hτ], h0⟩
  held := by
    intro j hj
    have hne : τ ≠ .held i := fun hτ => by rw [hτ, Ticket.drop_held] at hj; exact absurd hj (by simp)
    rw [Ticket.drop_of_ne hne] at hj
    obtain ⟨r, hr, hsession, hrid⟩ := h.held j hj
    refine ⟨r, ?_, hsession, hrid⟩
    rw [rollback_reserved, List.mem_filter]
    refine ⟨hr, ?_⟩
    have : j ≠ i := fun hji => hne (hji ▸ hj)
    simpa [hsession] using this

/-- A commit spends what the session holds. -/
theorem release (h : Shows id τ w) {db : DB} (hdb : db.authorizations = w.db.authorizations)
    (i : Nat) : Shows id (τ.spend i) ({ w with db := db }.release i) where
  rows := by
    intro a ha hid
    rw [release_db] at ha
    obtain ⟨hmax, husage⟩ := h.rows a (hdb ▸ ha) hid
    refine ⟨hmax, husage.trans ?_⟩
    by_cases hτ : τ = .held i
    · rw [hτ, Ticket.spend_held]
      rfl
    · rw [Ticket.spend_of_ne hτ]
  reserved := by
    intro r hr hrid
    obtain ⟨hr, hsession⟩ := List.mem_filter.mp hr
    obtain ⟨hτ, h0⟩ := h.reserved r hr hrid
    have hne : τ ≠ .held i := by
      rw [hτ]
      intro hi
      exact absurd (Ticket.held.inj hi) (by simpa using hsession)
    exact ⟨by rw [Ticket.spend_of_ne hne, hτ], h0⟩
  held := by
    intro j hj
    have hne : τ ≠ .held i := fun hτ => by rw [hτ, Ticket.spend_held] at hj; exact absurd hj (by simp)
    rw [Ticket.spend_of_ne hne] at hj
    obtain ⟨r, hr, hsession, hrid⟩ := h.held j hj
    refine ⟨r, List.mem_filter.mpr ⟨hr, ?_⟩, hsession, hrid⟩
    have : j ≠ i := fun hji => hne (hji ▸ hj)
    simpa [hsession] using this

/-- The guarded `UPDATE` takes a free ticket, and only a free one. -/
theorem reserve (h : Shows id τ w) {id' : String} (hfree : w.reservable id' = true) (i : Nat)
    (spend : Spend) :
    (id' = id → τ = .free) ∧
      Shows id (if id' = id then .held i else τ) (w.exec i (.reserve id' spend)) := by
  unfold World.reservable at hfree
  obtain ⟨hres, hrow⟩ := Bool.and_eq_true_iff.mp hfree
  rw [List.all_eq_true] at hres
  have hexec : w.exec i (.reserve id' spend) = { w.setUsage id' spend.usage with
      reserved := ⟨i, id', w.usageOf id'⟩ :: w.reserved } := by
    have : w.reservable id' = true := by
      unfold World.reservable
      rw [List.all_eq_true.mpr hres, hrow]
      rfl
    simp [World.exec, this]
  rw [hexec]
  by_cases hid : id' = id
  · subst hid
    have hτ : τ = .free := by
      obtain ⟨a, ha, hboth⟩ := List.any_eq_true.mp hrow
      obtain ⟨hkey, hlt⟩ := Bool.and_eq_true_iff.mp hboth
      obtain ⟨hmax, husage⟩ := h.rows a ha (by simpa using hkey)
      have hlt' : a.usage_count < a.max_usage := of_decide_eq_true hlt
      cases τ with
      | free => rfl
      | held j =>
        obtain ⟨r, hr, _, hrid⟩ := h.held j rfl
        exact absurd hrid (by simpa using hres r hr)
      | spent s =>
        have h1 : a.usage_count = 1 := husage
        omega
    subst hτ
    refine ⟨fun _ => rfl, ?_⟩
    rw [if_pos rfl]
    refine ⟨?_, ?_, ?_⟩
    · intro a ha hkey
      obtain ⟨a₀, ha₀, rfl⟩ := List.mem_map.mp ha
      by_cases hk : a₀.authorization_id = id'
      · obtain ⟨hmax, husage⟩ := h.rows a₀ ha₀ hk
        rw [if_pos (by simpa using hk)]
        refine ⟨hmax, ?_⟩
        have h0 : a₀.usage_count = 0 := husage
        cases spend with
        | consume => show a₀.usage_count + 1 = 1; omega
        | revoke => exact hmax
      · rw [if_neg (by simpa using hk)] at hkey
        exact absurd hkey hk
    · intro r hr hrid
      rcases List.mem_cons.mp hr with rfl | hr
      · refine ⟨rfl, ?_⟩
        show w.usageOf id' = 0
        unfold World.usageOf
        cases hfind : w.db.authorizations.find? (fun a => a.authorization_id == id') with
        | none => rfl
        | some a => exact (h.rows a (List.mem_of_find?_eq_some hfind)
            (by simpa using List.find?_some hfind)).2
      · exact absurd hrid (by simpa using hres r hr)
    · intro j hj
      obtain rfl := Ticket.held.inj hj
      exact ⟨_, List.mem_cons_self, rfl, rfl⟩
  · refine ⟨fun hh => absurd hh hid, ?_⟩
    rw [if_neg hid]
    refine ⟨?_, ?_, ?_⟩
    · intro a ha hkey
      obtain ⟨a₀, ha₀, rfl⟩ := List.mem_map.mp ha
      by_cases hk : a₀.authorization_id = id'
      · rw [if_pos (by simpa using hk)] at hkey
        exact absurd (hk.symm.trans hkey) hid
      · rw [if_neg (by simpa using hk)] at hkey ⊢
        exact h.rows a₀ ha₀ hkey
    · intro r hr hrid
      rcases List.mem_cons.mp hr with rfl | hr
      · exact absurd hrid hid
      · exact h.reserved r hr hrid
    · intro j hj
      obtain ⟨r, hr, hboth⟩ := h.held j hj
      exact ⟨r, List.mem_cons_of_mem _ hr, hboth⟩

end Shows

/-! ## Wins and submissions in a history -/

/-- The handler whose commit makes a reservation of the authorization final. -/
def winner (id : String) : Event World Stmt Call Answer → Option Nat
  | .stmt i (.commit ws) w =>
    if (w.reserved.any fun r => r.session == i && r.authorization_id == id) &&
        (w.db.applyAll ws).isOk then some i
    else none
  | _ => none

/-- The handler that asks a provider to create the payment, whether or not it lives to
see the answer. -/
def submitter (id : String) : Event World Stmt Call Answer → Option Nat
  | .call i c _ _ => if c.op.submits = some id then some i else none
  | .died i (some c) => if c.op.submits = some id then some i else none
  | _ => none

def winners (id : String) (tr : List (Event World Stmt Call Answer)) : List Nat :=
  tr.filterMap (winner id)

def submitters (id : String) (tr : List (Event World Stmt Call Answer)) : List Nat :=
  tr.filterMap (submitter id)

theorem winners_snoc (id : String) (tr : List (Event World Stmt Call Answer))
    (ev : Event World Stmt Call Answer) :
    winners id (tr ++ [ev]) = winners id tr ++ (winner id ev).toList := by
  unfold winners
  rw [List.filterMap_append]
  cases h : winner id ev <;> simp [h]

theorem submitters_snoc (id : String) (tr : List (Event World Stmt Call Answer))
    (ev : Event World Stmt Call Answer) :
    submitters id (tr ++ [ev]) = submitters id tr ++ (submitter id ev).toList := by
  unfold submitters
  rw [List.filterMap_append]
  cases h : submitter id ev <;> simp [h]

/-- A submission is by the only winner so far, and that is a consumer. -/
def Lawful (roles : Nat → Spend) (id : String) (pre : List (Event World Stmt Call Answer))
    (ev : Event World Stmt Call Answer) : Prop :=
  ∀ i, submitter id ev = some i → winners id pre = [i] ∧ roles i = .consume

/-! ## The invariant -/

/-- The world shows the ticket, the desks know their part of it, and the history has
one win if it was spent, and at most one submission, by the winner. -/
structure Ticketed (roles : Nat → Spend) (id : String) (τ : Ticket) (w : World) (qs : Nat → Desk)
    (tr : List (Event World Stmt Call Answer)) : Prop where
  shows : Shows id τ w
  role : ∀ i, (qs i).role = roles i
  armed : ∀ i, (qs i).use = .armed id ↔ τ = .held i
  won : ∀ i, (qs i).use = .won id → τ = .spent (some i) ∧ submitters id tr = []
  winners : winners id tr = τ.spender.toList
  submitted : submitters id tr = [] ∨ ∃ i, submitters id tr = [i] ∧ τ = .spent (some i)
  lawful : Pool.Throughout (Lawful roles id) tr

namespace Ticketed

variable {roles : Nat → Spend} {id : String} {τ : Ticket} {w w' : World} {qs : Nat → Desk}
  {tr : List (Event World Stmt Call Answer)} {i : Nat} {q' : Desk}
  {ev : Event World Stmt Call Answer}

/-- A step that concerns another authorization, or none. -/
theorem other (h : Ticketed roles id τ w qs tr) (hshows : Shows id τ w')
    (hrole : q'.role = (qs i).role) (harmed : q'.use = .armed id ↔ (qs i).use = .armed id)
    (hwon : q'.use = .won id → (qs i).use = .won id) (hw : winner id ev = none)
    (hs : submitter id ev = none) :
    Ticketed roles id τ w' (Function.update qs i q') (tr ++ [ev]) := by
  have hsub : submitters id (tr ++ [ev]) = submitters id tr := by
    rw [submitters_snoc, hs]
    exact List.append_nil _
  refine ⟨hshows, fun j => ?_, fun j => ?_, fun j => ?_, ?_, ?_, ?_⟩
  · by_cases hj : j = i
    · subst hj
      rw [Function.update_self, hrole]
      exact h.role j
    · rw [Function.update_of_ne hj]
      exact h.role j
  · by_cases hj : j = i
    · subst hj
      rw [Function.update_self, harmed]
      exact h.armed j
    · rw [Function.update_of_ne hj]
      exact h.armed j
  · rw [hsub]
    by_cases hj : j = i
    · subst hj
      rw [Function.update_self]
      exact fun hq => h.won j (hwon hq)
    · rw [Function.update_of_ne hj]
      exact h.won j
  · rw [winners_snoc, hw, h.winners]
    exact List.append_nil _
  · rw [hsub]
    exact h.submitted
  · exact Pool.throughout_snoc h.lawful fun j hj => absurd (hs.symm.trans hj) (by simp)

/-- The ticket is taken. -/
theorem take (h : Ticketed roles id .free w qs tr) (hshows : Shows id (.held i) w')
    (hrole : q'.role = (qs i).role) (huse : q'.use = .armed id) (hw : winner id ev = none)
    (hs : submitter id ev = none) :
    Ticketed roles id (.held i) w' (Function.update qs i q') (tr ++ [ev]) := by
  have hsub : submitters id (tr ++ [ev]) = submitters id tr := by
    rw [submitters_snoc, hs]
    exact List.append_nil _
  refine ⟨hshows, fun j => ?_, fun j => ?_, fun j hj => ?_, ?_, ?_, ?_⟩
  · by_cases hj : j = i
    · subst hj
      rw [Function.update_self, hrole]
      exact h.role j
    · rw [Function.update_of_ne hj]
      exact h.role j
  · by_cases hj : j = i
    · subst hj
      rw [Function.update_self]
      exact iff_of_true huse rfl
    · rw [Function.update_of_ne hj]
      refine iff_of_false (fun hq => absurd ((h.armed j).mp hq) (by simp)) ?_
      exact fun hh => hj (Ticket.held.inj hh).symm
  · by_cases hji : j = i
    · subst hji
      rw [Function.update_self, huse] at hj
      exact absurd hj (by simp)
    · rw [Function.update_of_ne hji] at hj
      exact absurd (h.won j hj).1 (by simp)
  · rw [winners_snoc, hw, h.winners]
    rfl
  · rw [hsub]
    rcases h.submitted with hs | ⟨_, _, hτ⟩
    · exact .inl hs
    · exact absurd hτ (by simp)
  · exact Pool.throughout_snoc h.lawful fun j hj => absurd (hs.symm.trans hj) (by simp)

/-- The ticket is dropped. -/
theorem drop (h : Ticketed roles id (.held i) w qs tr) (hshows : Shows id .free w')
    (hrole : q'.role = (qs i).role) (huse : q'.use = .done) (hw : winner id ev = none)
    (hs : submitter id ev = none) :
    Ticketed roles id .free w' (Function.update qs i q') (tr ++ [ev]) := by
  have hsub : submitters id (tr ++ [ev]) = submitters id tr := by
    rw [submitters_snoc, hs]
    exact List.append_nil _
  refine ⟨hshows, fun j => ?_, fun j => ?_, fun j hj => ?_, ?_, ?_, ?_⟩
  · by_cases hj : j = i
    · subst hj
      rw [Function.update_self, hrole]
      exact h.role j
    · rw [Function.update_of_ne hj]
      exact h.role j
  · refine iff_of_false (fun hq => ?_) (by simp)
    by_cases hj : j = i
    · subst hj
      rw [Function.update_self, huse] at hq
      exact absurd hq (by simp)
    · rw [Function.update_of_ne hj] at hq
      exact hj (Ticket.held.inj ((h.armed j).mp hq)).symm
  · by_cases hji : j = i
    · subst hji
      rw [Function.update_self, huse] at hj
      exact absurd hj (by simp)
    · rw [Function.update_of_ne hji] at hj
      exact absurd (h.won j hj).1 (by simp)
  · rw [winners_snoc, hw, h.winners]
    rfl
  · rw [hsub]
    rcases h.submitted with hs | ⟨_, _, hτ⟩
    · exact .inl hs
    · exact absurd hτ (by simp)
  · exact Pool.throughout_snoc h.lawful fun j hj => absurd (hs.symm.trans hj) (by simp)

/-- The ticket is spent. -/
theorem spend (h : Ticketed roles id (.held i) w qs tr) (hshows : Shows id (.spent (some i)) w')
    (hrole : q'.role = (qs i).role) (huse : q'.use = .won id) (hw : winner id ev = some i)
    (hs : submitter id ev = none) :
    Ticketed roles id (.spent (some i)) w' (Function.update qs i q') (tr ++ [ev]) := by
  have hsub : submitters id (tr ++ [ev]) = submitters id tr := by
    rw [submitters_snoc, hs]
    exact List.append_nil _
  have hnone : submitters id tr = [] := by
    rcases h.submitted with hs | ⟨_, _, hτ⟩
    · exact hs
    · exact absurd hτ (by simp)
  refine ⟨hshows, fun j => ?_, fun j => ?_, fun j hj => ?_, ?_, .inl (hsub.trans hnone), ?_⟩
  · by_cases hj : j = i
    · subst hj
      rw [Function.update_self, hrole]
      exact h.role j
    · rw [Function.update_of_ne hj]
      exact h.role j
  · refine iff_of_false (fun hq => ?_) (by simp)
    by_cases hj : j = i
    · subst hj
      rw [Function.update_self, huse] at hq
      exact absurd hq (by simp)
    · rw [Function.update_of_ne hj] at hq
      exact hj (Ticket.held.inj ((h.armed j).mp hq)).symm
  · by_cases hji : j = i
    · subst hji
      exact ⟨rfl, hsub.trans hnone⟩
    · rw [Function.update_of_ne hji] at hj
      exact absurd (h.won j hj).1 (by simp)
  · rw [winners_snoc, hw, h.winners]
    rfl
  · exact Pool.throughout_snoc h.lawful fun j hj => absurd (hs.symm.trans hj) (by simp)

/-- The winner submits. -/
theorem submit (h : Ticketed roles id τ w qs tr) (hwon : (qs i).MaySubmit id)
    (hshows : Shows id τ w') (hrole : q'.role = (qs i).role) (huse : q'.use = .done)
    (hw : winner id ev = none) (hs : submitter id ev = some i) :
    Ticketed roles id τ w' (Function.update qs i q') (tr ++ [ev]) := by
  obtain ⟨hτ, hnone⟩ := h.won i hwon.1
  subst hτ
  have hsub : submitters id (tr ++ [ev]) = [i] := by
    rw [submitters_snoc, hs, hnone]
    rfl
  refine ⟨hshows, fun j => ?_, fun j => ?_, fun j hj => ?_, ?_, .inr ⟨i, hsub, rfl⟩, ?_⟩
  · by_cases hj : j = i
    · subst hj
      rw [Function.update_self, hrole]
      exact h.role j
    · rw [Function.update_of_ne hj]
      exact h.role j
  · refine iff_of_false (fun hq => ?_) (by simp)
    by_cases hj : j = i
    · subst hj
      rw [Function.update_self, huse] at hq
      exact absurd hq (by simp)
    · rw [Function.update_of_ne hj] at hq
      exact absurd ((h.armed j).mp hq) (by simp)
  · by_cases hji : j = i
    · subst hji
      rw [Function.update_self, huse] at hj
      exact absurd hj (by simp)
    · rw [Function.update_of_ne hji] at hj
      obtain rfl : i = j := by simpa using (h.won j hj).1
      exact absurd rfl hji
  · rw [winners_snoc, hw, h.winners]
    rfl
  · refine Pool.throughout_snoc h.lawful fun j hj => ?_
    obtain rfl : i = j := Option.some.inj (hs.symm.trans hj)
    exact ⟨h.winners, (h.role i).symm.trans hwon.2⟩

/-! ## The invariant, step by step -/

/-- A statement of a handler that holds no reservation of the authorization wins nothing. -/
theorem winner_none (h : Ticketed roles id τ w qs tr) (hi : (qs i).use ≠ .armed id) (s : Stmt) :
    winner id (.stmt i s w) = none := by
  cases s with
  | commit ws =>
    refine if_neg ?_
    rw [Bool.and_eq_true]
    rintro ⟨hany, _⟩
    obtain ⟨r, hr, hboth⟩ := List.any_eq_true.mp hany
    obtain ⟨hsession, hid⟩ := Bool.and_eq_true_iff.mp hboth
    have hτ := (h.shows.reserved r hr (by simpa using hid)).1
    obtain rfl : r.session = i := by simpa using hsession
    exact hi ((h.armed r.session).mpr hτ)
  | _ => rfl

/-- A commit of the handler that holds the reservation wins, if it succeeds. -/
theorem winner_commit (h : Ticketed roles id (.held i) w qs tr) {ws : List Write} {db : DB}
    (hdb : w.db.applyAll ws = .ok db) : winner id (.stmt i (.commit ws) w) = some i := by
  obtain ⟨r, hr, hsession, hid⟩ := h.shows.held i rfl
  refine if_pos ?_
  rw [Bool.and_eq_true]
  refine ⟨List.any_eq_true.mpr ⟨r, hr, by simp [hsession, hid]⟩, ?_⟩
  rw [hdb]
  rfl

theorem stmt {H : Host} {s : Stmt} (h : Ticketed roles id τ w qs tr)
    (hs : (desk H).stmt (qs i) s w q') :
    ∃ τ', Ticketed roles id τ' (w.exec i s) (Function.update qs i q') (tr ++ [.stmt i s w]) := by
  obtain ⟨hallow, rfl⟩ := hs
  have hrole := Desk.after_role (qs i) s w
  cases s with
  | fresh => exact hallow.elim
  | try_gate g => exact hallow.elim
  | select =>
    exact ⟨τ, h.other h.shows hrole Iff.rfl (fun hq => hq) rfl rfl⟩
  | rollback =>
    have hidle : (qs i).use ≠ .armed id := by rw [hallow]; simp
    have hτ : τ ≠ .held i := fun hτ => hidle ((h.armed i).mpr hτ)
    have hshows := Ticket.drop_of_ne hτ ▸ h.shows.rollback i
    exact ⟨τ, h.other hshows hrole Iff.rfl (fun hq => hq) rfl rfl⟩
  | reserve id' sp =>
    obtain ⟨hidle, _⟩ := hallow
    by_cases hfree : w.reservable id' = true
    · obtain ⟨htake, hshows⟩ := h.shows.reserve hfree i sp
      have huse : ((qs i).after (.reserve id' sp) w).use = .armed id' := by
        simp [Desk.after, hfree]
      by_cases hid : id' = id
      · subst hid
        rw [if_pos rfl] at hshows
        exact ⟨.held i, (htake rfl ▸ h).take hshows hrole huse rfl rfl⟩
      · rw [if_neg hid] at hshows
        refine ⟨τ, h.other hshows hrole ?_ ?_ rfl rfl⟩
        · rw [huse, hidle]
          exact iff_of_false (fun hh => hid (Use.armed.inj hh)) (by simp)
        · rw [huse]
          exact fun hh => absurd hh (by simp)
    · have hsame : w.exec i (.reserve id' sp) = w := by simp [World.exec, hfree]
      have huse : ((qs i).after (.reserve id' sp) w).use = (qs i).use := by
        simp [Desk.after, hfree]
      rw [hsame]
      exact ⟨τ, h.other h.shows hrole (by rw [huse]) (fun hq => huse ▸ hq) rfl rfl⟩
  | commit ws =>
    by_cases harmed : (qs i).use = .armed id
    · -- the handler holds the ticket: it spends it or drops it
      have hτ := (h.armed i).mp harmed
      subst hτ
      cases hdb : w.db.applyAll ws with
      | ok db =>
        have hauths : db.authorizations = w.db.authorizations := by
          rw [applyAll_frame hallow.settles hdb]
        have hshows := h.shows.release hauths i
        rw [Ticket.spend_held] at hshows
        have hexec : w.exec i (.commit ws) = { w with db := db }.release i := by
          simp [World.exec, World.commit, hdb]
        rw [hexec]
        refine ⟨_, h.spend hshows hrole ?_ (h.winner_commit hdb) rfl⟩
        simp [Desk.after, harmed, hdb, Use.settle, Except.isOk, Except.toBool]
      | error e =>
        have hshows := h.shows.rollback i
        rw [Ticket.drop_held] at hshows
        have hexec : w.exec i (.commit ws) = w.rollback i := by
          simp [World.exec, World.commit, hdb]
        rw [hexec]
        refine ⟨_, h.drop hshows hrole ?_ ?_ rfl⟩
        · simp [Desk.after, harmed, hdb, Use.settle, Except.isOk, Except.toBool]
        · simp [winner, hdb, Except.isOk, Except.toBool]
    · have hτ : τ ≠ .held i := fun hτ => harmed ((h.armed i).mpr hτ)
      have hshows : Shows id τ (w.exec i (.commit ws)) := by
        cases hdb : w.db.applyAll ws with
        | ok db =>
          have hauths : db.authorizations = w.db.authorizations := by
            rw [applyAll_frame hallow.settles hdb]
          have hexec : w.exec i (.commit ws) = { w with db := db }.release i := by
            simp [World.exec, World.commit, hdb]
          rw [hexec]
          exact Ticket.spend_of_ne hτ ▸ h.shows.release hauths i
        | error e =>
          have hexec : w.exec i (.commit ws) = w.rollback i := by
            simp [World.exec, World.commit, hdb]
          rw [hexec]
          exact Ticket.drop_of_ne hτ ▸ h.shows.rollback i
      have huse : ∀ u : Use, u ≠ .armed id → ∀ ok, (Use.settle ok u = .armed id ↔ u = .armed id) ∧
          (Use.settle ok u = .won id → u = .won id) := by
        intro u hu ok
        cases u with
        | armed id' =>
          have hne : id' ≠ id := fun hh => hu (hh ▸ rfl)
          cases ok <;> simp [Use.settle, hne]
        | _ => simp [Use.settle]
      exact ⟨τ, h.other hshows hrole (huse _ harmed _).1 (huse _ harmed _).2
        (h.winner_none harmed _) rfl⟩

theorem call {H : Host} {c : Call} {a : Answer} (h : Ticketed roles id τ w qs tr)
    (hc : (desk H).call (qs i) c a q') :
    ∃ τ', Ticketed roles id τ' w (Function.update qs i q') (tr ++ [.call i c a w]) := by
  obtain ⟨hallow, rfl⟩ := hc
  refine ⟨τ, ?_⟩
  by_cases hsub : c.op.submits = some id
  · refine h.submit (hallow id hsub) h.shows rfl ?_ rfl ?_
    · simp [Desk.called, hsub]
    · simp [submitter, hsub]
  · have hnone : submitter id (.call i c a w) = none := by simp [submitter, hsub]
    cases hop : c.op.submits with
    | none =>
      have huse : ((qs i).called c a).use = (qs i).use := by simp [Desk.called, hop]
      exact h.other h.shows rfl (by rw [huse]) (fun hq => huse ▸ hq) rfl hnone
    | some id' =>
      have huse : ((qs i).called c a).use = .done := by simp [Desk.called, hop]
      have hmay := hallow id' hop
      refine h.other h.shows rfl ?_ ?_ rfl hnone
      · rw [huse, hmay.1]
        simp
      · rw [huse]
        exact fun hh => absurd hh (by simp)

theorem die {H : Host} {x : Option Call} (h : Ticketed roles id τ w qs tr)
    (hx : ∀ c, x = some c → ∀ a, ∃ q', (desk H).call (qs i) c a q') :
    ∃ τ' q', Ticketed roles id τ' (w.rollback i) (Function.update qs i q')
      (tr ++ [.died i x]) := by
  by_cases harmed : (qs i).use = .armed id
  · have hτ := (h.armed i).mp harmed
    subst hτ
    have hshows := h.shows.rollback i
    rw [Ticket.drop_held] at hshows
    have hsub : submitter id (.died i x) = none := by
      cases x with
      | none => rfl
      | some c =>
        refine if_neg fun hop => ?_
        obtain ⟨_, hallow, _⟩ := hx c rfl (.ok .null)
        exact absurd (harmed.symm.trans (hallow id hop).1) (by simp)
    exact ⟨_, { qs i with use := .done }, h.drop hshows rfl rfl rfl hsub⟩
  · have hτ : τ ≠ .held i := fun hτ => harmed ((h.armed i).mpr hτ)
    have hshows := Ticket.drop_of_ne hτ ▸ h.shows.rollback i
    refine ⟨τ, { qs i with use := .done }, ?_⟩
    have hother : submitter id (.died i x) = none → Ticketed roles id τ (w.rollback i)
        (Function.update qs i { qs i with use := .done }) (tr ++ [.died i x]) :=
      h.other hshows rfl (iff_of_false (by simp) harmed) (fun hh => absurd hh (by simp)) rfl
    cases x with
    | none => exact hother rfl
    | some c =>
      by_cases hop : c.op.submits = some id
      · -- the call was made all the same
        obtain ⟨_, hallow, _⟩ := hx c rfl (.ok .null)
        exact h.submit (hallow id hop) hshows rfl rfl rfl (if_pos hop)
      · exact hother (if_neg hop)

end Ticketed

/-! ## Every run -/

/-- The authorization is single-use, and nobody is in the middle of using it. -/
structure World.SingleUse (id : String) (w : World) : Prop where
  rows : ∀ a ∈ w.db.authorizations, a.authorization_id = id → a.max_usage = 1
  usage : (∀ a ∈ w.db.authorizations, a.authorization_id = id → a.usage_count = 0) ∨
    ∀ a ∈ w.db.authorizations, a.authorization_id = id → a.usage_count = 1
  quiet : ∀ r ∈ w.reserved, r.authorization_id ≠ id

theorem World.SingleUse.ticketed {id : String} {w : World} (h : w.SingleUse id)
    (roles : Nat → Spend) :
    ∃ τ, Ticketed roles id τ w (fun i => Desk.empty (roles i)) [] := by
  have hstart : ∀ τ : Ticket, (∀ i, τ ≠ .held i) → τ.spender = none →
      (∀ a ∈ w.db.authorizations, a.authorization_id = id → a.usage_count = τ.usage) →
      Ticketed roles id τ w (fun i => Desk.empty (roles i)) [] := by
    intro τ hheld hspender husage
    refine ⟨⟨fun a ha hid => ⟨h.rows a ha hid, husage a ha hid⟩,
        fun r hr hid => absurd hid (h.quiet r hr), fun i hi => absurd hi (hheld i)⟩,
      fun _ => rfl, fun i => iff_of_false (by simp [Desk.empty]) (hheld i),
      fun i hi => absurd hi (by simp [Desk.empty]), by rw [hspender]; rfl, .inl rfl,
      Pool.throughout_nil⟩
  rcases h.usage with hu | hu
  · exact ⟨.free, hstart .free (by simp) rfl hu⟩
  · exact ⟨.spent none, hstart (.spent none) (by simp) rfl hu⟩

/-- In every reachable pool of settlement requests the authorization is a ticket. -/
theorem reach_ticketed {H : Host} {reqs : List Request} (hreqs : ∀ r ∈ reqs, r.settles = true)
    {w : World} {id : String} (hw : w.SingleUse id) {c : Pool World Stmt Call Answer Reply}
    (h : Pool.Reach machine Pool.Free (Pool.start w (reqs.map (handler H))) c) :
    ∃ τ qs, Ticketed (roleAt reqs) id τ c.store qs c.trace := by
  have hsim : ∃ qs, (∃ τ, Ticketed (roleAt reqs) id τ c.store qs c.trace) ∧
      c.Follows (desk H) (fun _ _ _ => True) qs := by
    refine Pool.sim (J := fun w' qs tr => ∃ τ, Ticketed (roleAt reqs) id τ w' qs tr)
      ?_ ?_ ?_ ?_ (hw.ticketed (roleAt reqs)) (start_follows H hreqs w) h
    · rintro w' qs tr i s q' ⟨τ, hJ⟩ _ hs
      exact hJ.stmt hs
    · rintro w' qs tr i cl a q' ⟨τ, hJ⟩ _ hc
      exact hJ.call hc
    · rintro w' qs tr i x ⟨τ, hJ⟩ _ hx
      obtain ⟨τ', q', hJ'⟩ := hJ.die hx
      exact ⟨q', τ', hJ'⟩
    · rintro w' qs tr d ⟨τ, hJ⟩
      exact ⟨τ, ⟨hJ.shows.rows, hJ.shows.reserved, hJ.shows.held⟩, hJ.role, hJ.armed, hJ.won,
        hJ.winners, hJ.submitted, hJ.lawful⟩
  obtain ⟨qs, ⟨τ, hJ⟩, _⟩ := hsim
  exact ⟨τ, qs, hJ⟩

/-- **Single provider submission.** However many consume, revoke and other settlement
requests race on a single-use authorization, and wherever they die: its `usage_count`
is 0 or `max_usage`, which is 1; at most one request wins the reservation; providers
are asked at most once to create its payment, by the consumer that won and after it
won; so never once a revoke has won, and no revoke wins once a consumer has. -/
theorem single_submission {H : Host} {reqs : List Request}
    (hreqs : ∀ r ∈ reqs, r.settles = true) {w : World} {id : String} (hw : w.SingleUse id)
    {c : Pool World Stmt Call Answer Reply}
    (h : Pool.Reach machine Pool.Free (Pool.start w (reqs.map (handler H))) c) :
    (∀ a ∈ c.store.db.authorizations, a.authorization_id = id →
      a.max_usage = 1 ∧ (a.usage_count = 0 ∨ a.usage_count = a.max_usage)) ∧
    (winners id c.trace).length ≤ 1 ∧ (submitters id c.trace).length ≤ 1 ∧
    Pool.Throughout (fun pre ev => ∀ i, submitter id ev = some i →
      winners id pre = [i] ∧ roleAt reqs i = .consume) c.trace ∧
    Pool.Throughout (fun pre ev => ∀ i, winner id ev = some i → roleAt reqs i = .revoke →
      winners id pre = [] ∧ submitters id pre = []) c.trace ∧
    ((∃ i ∈ winners id c.trace, roleAt reqs i = .revoke) → submitters id c.trace = []) := by
  obtain ⟨τ, qs, hJ⟩ := reach_ticketed hreqs hw h
  have hwin : (winners id c.trace).length ≤ 1 := by
    rw [hJ.winners]
    cases τ.spender <;> simp
  refine ⟨?_, hwin, ?_, hJ.lawful, ?_, ?_⟩
  · intro a ha hid
    obtain ⟨hmax, husage⟩ := hJ.shows.rows a ha hid
    refine ⟨hmax, ?_⟩
    rw [hmax, husage]
    cases τ with
    | free => exact .inl rfl
    | _ => exact .inr rfl
  · rcases hJ.submitted with hs | ⟨i, hs, _⟩ <;> rw [hs] <;> simp
  · intro pre ev post htr i hi hrole
    -- the win is the only one, so nobody won before; and only a winner submits
    have hpre : winners id pre = [] := by
      have hlen := hwin
      rw [htr, winners, List.filterMap_append, List.length_append, List.filterMap_cons, hi,
        List.length_cons] at hlen
      exact List.eq_nil_of_length_eq_zero (by unfold winners; omega)
    refine ⟨hpre, ?_⟩
    by_contra hne
    obtain ⟨j, hj⟩ := List.exists_mem_of_ne_nil _ hne
    obtain ⟨ev', hev', hsub⟩ := List.mem_filterMap.mp hj
    obtain ⟨pre', post', hsplit⟩ := List.append_of_mem hev'
    have hlaw := hJ.lawful pre' ev' (post' ++ ev :: post) (by rw [htr, hsplit]; simp)
    have hwins := (hlaw j hsub).1
    rw [hsplit, winners, List.filterMap_append] at hpre
    have := (List.append_eq_nil_iff.mp hpre).1
    rw [winners] at hwins
    rw [hwins] at this
    exact absurd this (by simp)
  · rintro ⟨i, hi, hrole⟩
    rcases hJ.submitted with hs | ⟨j, hs, hτ⟩
    · exact hs
    · obtain ⟨ev, hev, hsub⟩ := List.mem_filterMap.mp
        (show j ∈ submitters id c.trace by rw [hs]; exact List.mem_singleton_self j)
      obtain ⟨pre, post, hsplit⟩ := List.append_of_mem hev
      have hcons := (hJ.lawful pre ev post hsplit j hsub).2
      rw [hJ.winners, hτ] at hi
      obtain rfl : i = j := by simpa [Ticket.spender] using hi
      exact absurd (hrole.symm.trans hcons) (by simp)

/-- A consumer and a revoker of one authorization; the consumer is faster. -/
def raceStart : Pool World Stmt Call Answer Reply :=
  Pool.start (Sample.world (Sample.db [Sample.authorization 100] [Sample.txn .AUTHORIZED none none none]))
    ([.consume Sample.ctx "auth" "agent", .revoke_authorization Sample.ctx "auth" "agent"].map
      (handler (Sample.host false [])))

def race : Pool World Stmt Call Answer Reply :=
  (raceStart.run machine (List.replicate 18 (.run 0 (.ok .null)))).run machine
    (List.replicate 9 (.run 1 (.ok .null)))

theorem single_submission_race :
    submitters "auth" race.trace = [0] ∧ (submitters "auth" race.trace).length ≤ 1 := by
  have hstart : (Sample.world (Sample.db [Sample.authorization 100]
      [Sample.txn .AUTHORIZED none none none])).SingleUse "auth" := by
    refine ⟨?_, .inl ?_, fun r hr => absurd hr List.not_mem_nil⟩ <;>
      exact fun a ha _ => List.mem_singleton.mp ha ▸ rfl
  have hreach : Pool.Reach machine Pool.Free raceStart race :=
    Pool.reach_run _ _ _ _ (Pool.reach_run _ _ _ _ .start)
  exact ⟨rfl, (single_submission (by decide) hstart hreach).2.2.1⟩

end Paari
