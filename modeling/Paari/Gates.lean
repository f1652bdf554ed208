import Paari.Budget

/-!
# The gates of several mandates

`acquire_all_mandate_gates` takes one gate after another, and `acquire_gate` commits before it
tries. A PostgreSQL advisory lock ends with the transaction that took it, so that each gate
is given back when the next one is tried: after the call the session holds the gate of the
last mandate and no other. On SQLite all gates are the one write lock, and nothing is lost.

`World.Gated` ties the locks of the store to what each session holds; `Past` is a call that
has returned true, and `OneGate` says when that is as good as holding every gate.
-/

namespace Paari

open Atomic

/-! ## What a session holds -/

/-- The gates a session holds after one more of its statements. -/
def heldAfter (held : List Gate) (s : Stmt) (w : World) : List Gate :=
  match s with
  | .commit _ | .rollback => []
  | .try_gate g => if w.free g then g :: held else []
  | _ => held

/-- Handlers, with the gates they hold as their phase: any handler follows it. -/
def holding : Protocol World Stmt Call Answer (List Gate) where
  stmt held s w held' := held' = heldAfter held s w
  call held _ _ held' := held' = held

theorem conforms_holding {α : Type} (p : Handler α) (held : List Gate) :
    p.Conforms holding (fun _ _ => True) held := by
  refine Prog.conforms_of_all (I := fun _ => True) (fun held s w _ => ?_) (fun held _ _ _ => ?_) p
    trivial
  · exact ⟨heldAfter held s w, rfl, trivial⟩
  · exact ⟨held, rfl, trivial⟩

/-- The locks of the store are those the sessions hold, and none has two holders. -/
structure World.Gated (w : World) (held : Nat → List Gate) : Prop where
  known : ∀ g i, (g, i) ∈ w.gates ↔ g ∈ held i
  exclusive : ∀ g i j, g ∈ held i → g ∈ held j → i = j

namespace World.Gated

variable {w w' : World} {held : Nat → List Gate}

/-- The session's locks are gone. -/
theorem close (h : w.Gated held) {i : Nat} (hgates : w'.gates = w.gates.filter fun x => x.2 ≠ i) :
    w'.Gated (Function.update held i []) := by
  constructor
  · intro g j
    rw [hgates, List.mem_filter, h.known]
    by_cases hj : j = i
    · rw [hj, Function.update_self]
      simp
    · rw [Function.update_of_ne hj]
      simp [hj]
  · intro g j k hgj hgk
    by_cases hj : j = i
    · rw [hj, Function.update_self] at hgj
      exact absurd hgj List.not_mem_nil
    · by_cases hk : k = i
      · rw [hk, Function.update_self] at hgk
        exact absurd hgk List.not_mem_nil
      · rw [Function.update_of_ne hj] at hgj
        rw [Function.update_of_ne hk] at hgk
        exact h.exclusive g j k hgj hgk

theorem same (h : w.Gated held) {i : Nat} (hgates : w'.gates = w.gates) :
    w'.Gated (Function.update held i (held i)) := by
  rw [Function.update_eq_self]
  exact ⟨fun g j => hgates ▸ h.known g j, h.exclusive⟩

/-- A free gate is taken. -/
theorem take (h : w.Gated held) {i : Nat} {g : Gate} (hfree : w.free g = true)
    (hgates : w'.gates = (g, i) :: w.gates) : w'.Gated (Function.update held i (g :: held i)) := by
  have hnone : ∀ j, g ∉ held j := by
    intro j hj
    have hne := List.all_eq_true.mp hfree _ ((h.known g j).mpr hj)
    simp at hne
  have hmem : ∀ g' j, g' ∈ Function.update held i (g :: held i) j ↔ (g' = g ∧ j = i) ∨ g' ∈ held j := by
    intro g' j
    by_cases hj : j = i
    · rw [hj, Function.update_self, List.mem_cons]
      simp
    · rw [Function.update_of_ne hj]
      simp [hj]
  constructor
  · intro g' j
    rw [hgates, List.mem_cons, h.known, hmem, Prod.mk.injEq]
  · intro g' j k hj hk
    rw [hmem] at hj hk
    rcases hj with ⟨hgj, hj⟩ | hj <;> rcases hk with ⟨hgk, hk⟩ | hk
    · rw [hj, hk]
    · exact absurd (hgj ▸ hk) (hnone k)
    · exact absurd (hgk ▸ hj) (hnone j)
    · exact h.exclusive g' j k hj hk

theorem exec (h : w.Gated held) (i : Nat) (s : Stmt) :
    (w.exec i s).Gated (Function.update held i (heldAfter (held i) s w)) := by
  cases s with
  | select => exact h.same rfl
  | fresh => exact h.same rfl
  | reserve id spend =>
    refine h.same ?_
    unfold World.exec
    dsimp only
    split <;> rfl
  | rollback => exact h.close (rollback_gates w i)
  | commit ws =>
    refine h.close ?_
    show (w.commit i ws).gates = _
    unfold World.commit
    split
    · rfl
    · exact rollback_gates w i
  | try_gate g =>
    unfold World.exec heldAfter
    dsimp only
    by_cases hfree : w.free g = true
    · rw [if_pos hfree, if_pos hfree]
      exact h.take hfree rfl
    · rw [if_neg hfree, if_neg hfree]
      exact h.close (rollback_gates w i)

end World.Gated

/-- The event ends the transaction of session `i`: it commits, it rolls back, it gives up on
a gate that is taken, or it dies. -/
def EndsTransaction (i : Nat) : Event World Stmt Call Answer → Prop
  | .stmt j s w => j = i ∧ match s with
    | .commit _ | .rollback => True
    | .try_gate g => w.free g = false
    | _ => False
  | .call _ _ _ _ => False
  | .died j _ => j = i

/-- What a session holds, it holds until its transaction ends. -/
theorem heldAfter_subset {i : Nat} {held : List Gate} {s : Stmt} {w : World}
    (h : ¬EndsTransaction i (.stmt i s w)) : held ⊆ heldAfter held s w := by
  cases s with
  | select => exact List.Subset.refl _
  | fresh => exact List.Subset.refl _
  | reserve id spend => exact List.Subset.refl _
  | rollback => exact absurd ⟨rfl, trivial⟩ h
  | commit ws => exact absurd ⟨rfl, trivial⟩ h
  | try_gate g =>
    have hfree : w.free g = true := by
      by_contra hfree
      exact h ⟨rfl, Bool.eq_false_iff.mpr hfree⟩
    unfold heldAfter
    dsimp only
    rw [if_pos hfree]
    exact List.subset_cons_self _ _

/-- What each session holds, over a run; what `i` holds at its start it still holds if its
transaction has not ended. -/
theorem gated_run {ok : List (Event World Stmt Call Answer) → Event World Stmt Call Answer → Prop}
    {α : Type} {Post : Nat → α → List Gate → Prop} {c₀ c : Pool World Stmt Call Answer α}
    {held₀ : Nat → List Gate} (h₀ : c₀.store.Gated held₀) (hfollows : c₀.Follows holding Post held₀)
    (h : Pool.Reach machine ok c₀ c) (i : Nat) :
    ∃ held, c.store.Gated held ∧ c.Follows holding Post held ∧
      ((∀ tr ev, ok tr ev → ¬EndsTransaction i ev) → held₀ i ⊆ held i) := by
  have hstmt : ∀ (w : World) (held : Nat → List Gate) (tr : List (Event World Stmt Call Answer))
      (j : Nat) (s : Stmt), ok tr (.stmt j s w) →
        ((∀ tr ev, ok tr ev → ¬EndsTransaction i ev) → held₀ i ⊆ held i) →
          (∀ tr ev, ok tr ev → ¬EndsTransaction i ev) →
            held₀ i ⊆ Function.update held j (heldAfter (held j) s w) i := by
    intro w held tr j s hok hkept hends
    by_cases hj : i = j
    · subst hj
      rw [Function.update_self]
      exact List.Subset.trans (hkept hends) (heldAfter_subset (hends _ _ hok))
    · rw [Function.update_of_ne hj]
      exact hkept hends
  obtain ⟨held, ⟨hgated, hkept⟩, hf⟩ := Pool.sim
    (J := fun w held _ => w.Gated held ∧
      ((∀ tr ev, ok tr ev → ¬EndsTransaction i ev) → held₀ i ⊆ held i))
    (fun w held tr j s held' hJ hok (hs : held' = heldAfter (held j) s w) =>
      hs ▸ ⟨hJ.1.exec j s, hstmt w held tr j s hok hJ.2⟩)
    (fun w held tr j c a held' hJ hok (hc : held' = held j) => by
      rw [hc, Function.update_eq_self]
      exact hJ)
    (fun w held tr j waiting hJ hok _ => by
      refine ⟨[], hJ.1.close (rollback_gates w j), fun hends => ?_⟩
      by_cases hj : i = j
      · exact absurd hj.symm (hends _ _ hok)
      · rw [Function.update_of_ne hj]
        exact hJ.2 hends)
    (fun w held tr d hJ => ⟨⟨hJ.1.known, hJ.1.exclusive⟩, hJ.2⟩)
    ⟨h₀, fun _ => List.Subset.refl _⟩ hfollows h
  exact ⟨held, hgated, hf, hkept⟩

/-! ## After the call -/

/-- The handler calls `acquire_all_mandate_gates` on these ids, whatever it does before. -/
def CallsGates (H : Host) (ids : List String) (p : Handler Bool) : Prop :=
  ∃ (α : Type) (before : Handler α) (pending : α → Session),
    p = (before >>= fun a => acquire_all_mandate_gates H (pending a) ids)

/-- Of the gates of these mandates, all that is held is the gate of one. -/
def OnlyOne (H : Host) (ids : List String) (held : List Gate) : Prop :=
  ids ≠ [] → ∃ id ∈ ids, held = [mandateGate H id]

variable {H : Host}

/-- The loop ends with the last gate alone: each round commits, and so gives up the gate
of the round before. -/
theorem acquireEach_holding (ids : List String) : ∀ (pending : Session) (held : List Gate),
    (acquireEach H pending ids).Conforms holding
      (fun got held' => got = true → OnlyOne H ids held') held := by
  induction ids with
  | nil => exact fun _ _ _ hne => absurd rfl hne
  | cons id ids ih =>
    intro pending held
    have hgate : (acquire_mandate_serialization H pending id).Conforms holding
        (fun got held' => got = true → held' = [mandateGate H id]) held := by
      refine Handler.conforms_commit fun w => ⟨[], rfl, fun db _ => ?_⟩
      refine fun w' => ⟨_, rfl, fun hfree => ?_⟩
      show (if w'.free (mandateGate H id) then [mandateGate H id] else []) = _
      exact if_pos hfree
    refine Prog.conforms_seq hgate fun got held' hheld => ?_
    cases got with
    | false => exact fun hfalse => absurd hfalse Bool.false_ne_true
    | true =>
      cases ids with
      | nil => exact fun _ _ => ⟨id, List.mem_cons_self, hheld rfl⟩
      | cons id' ids =>
        refine Prog.conforms_mono (fun got' held'' hrest hgot _ => ?_) (ih [] held')
        obtain ⟨last, hlast, heq⟩ := hrest hgot (List.cons_ne_nil _ _)
        exact ⟨last, List.mem_cons_of_mem _ hlast, heq⟩

theorem callsGates_holding {ids : List String} {p : Handler Bool} (hp : CallsGates H ids p)
    (held : List Gate) :
    p.Conforms holding (fun got held' => got = true → OnlyOne H ids held') held := by
  obtain ⟨α, before, pending, rfl⟩ := hp
  refine Prog.conforms_seq (conforms_holding before held) fun a held' _ => ?_
  refine Prog.conforms_mono (fun got held'' h hgot hne => ?_) (acquireEach_holding _ (pending a) held')
  have hmem : ∀ id, id ∈ ids.dedup.insertionSort (· ≤ ·) ↔ id ∈ ids := fun id => by
    rw [List.mem_insertionSort, List.mem_dedup]
  obtain ⟨first, hfirst⟩ := List.exists_mem_of_ne_nil ids hne
  obtain ⟨last, hlast, heq⟩ := h hgot (List.ne_nil_of_mem ((hmem first).mpr hfirst))
  exact ⟨last, (hmem last).mp hlast, heq⟩

/-- The call on `ids` that session `i` makes has returned true, in a run from a world where
nobody holds a gate, beside any other sessions. -/
structure Past (H : Host) (ids : List String) (w : World) (ps : List (Handler Bool)) (i : Nat)
    (c : Pool World Stmt Call Answer Bool) : Prop where
  open_ : w.gates = []
  called : ∃ p, ps[i]? = some p ∧ CallsGates H ids p
  reached : Pool.Reach machine Pool.Free (Pool.start w ps) c
  returned : c.threads[i]? = some (.ret true)

/-- Session `i` goes on with what comes after the call, and nothing that happens up to `c'`
ends its transaction. -/
def GoesOn (i : Nat) (c c' : Pool World Stmt Call Answer Bool) : Prop :=
  ∃ after : Handler Bool, Pool.Reach machine (fun _ ev => ¬EndsTransaction i ev)
    { c with threads := c.threads.set i after } c'

/-- The call gives the session every gate of `ids`, until its transaction ends. -/
def KeepsGates (H : Host) (ids : List String) : Prop :=
  ∀ w ps i c c', Past H ids w ps i c → GoesOn i c c' →
    ∀ id ∈ ids, (mandateGate H id, i) ∈ c'.store.gates

/-- While a session is past its call on `ids`, no call of another on `ids'` returns true. -/
def KeepsOut (H : Host) (ids ids' : List String) : Prop :=
  ∀ w ps i j p c c', Past H ids w ps i c → GoesOn i c c' → i ≠ j → ps[j]? = some p →
    CallsGates H ids' p → c'.threads[j]? ≠ some (.ret true)

/-- One lock stands for all of these mandates. -/
def OneGate (H : Host) (ids : List String) : Prop :=
  ∀ id ∈ ids, ∀ id' ∈ ids, mandateGate H id = mandateGate H id'

theorem oneGate_of_sqlite (h : H.postgres = false) (ids : List String) : OneGate H ids := by
  intro id _ id' _
  unfold mandateGate gateOf
  rw [h]
  rfl

/-- On PostgreSQL one gate is one lock key. -/
theorem oneGate_iff_of_postgres (h : H.postgres = true) (ids : List String) : OneGate H ids ↔
    ∀ id ∈ ids, ∀ id' ∈ ids, signed_lock_key H ("paari:mandate:" ++ id) =
      signed_lock_key H ("paari:mandate:" ++ id') := by
  unfold OneGate mandateGate gateOf
  simp only [h, if_true, Gate.advisory.injEq]

theorem oneGate_of_single {ids : List String} (h : ∀ id ∈ ids, ∀ id' ∈ ids, id = id') :
    OneGate H ids := fun id hid id' hid' => by rw [h id hid id' hid']

/-- A session that has returned true from a call on `ids` holds the gate of one of them. -/
def HoldsOne (H : Host) (ps : List (Handler Bool)) (i : Nat) (got : Bool) (held : List Gate) : Prop :=
  ∀ p ids, ps[i]? = some p → CallsGates H ids p → got = true → OnlyOne H ids held

/-- The phase after a step is determined: all that can be shown of it holds at once. -/
theorem conforms_each {ι α : Type} {Post : ι → α → List Gate → Prop} {p : Handler α} :
    ∀ {held : List Gate}, (∀ x, p.Conforms holding (Post x) held) →
      p.Conforms holding (fun a held' => ∀ x, Post x a held') held := by
  induction p with
  | ret a => exact fun h => h
  | halt => exact fun _ => trivial
  | stmt s k ih =>
    intro held h w
    refine ⟨_, rfl, ih w fun x => ?_⟩
    obtain ⟨held', hs, hk⟩ := h x w
    obtain rfl : held' = heldAfter held s w := hs
    exact hk
  | call c k ih =>
    intro held h a
    refine ⟨_, rfl, ih a fun x => ?_⟩
    obtain ⟨held', hc, hk⟩ := h x a
    obtain rfl : held' = held := hc
    exact hk

theorem follows_holdsOne (w : World) (ps : List (Handler Bool)) :
    (Pool.start w ps).Follows holding (HoldsOne H ps) fun _ => [] := by
  intro i p hp
  have hids : ∀ ids, p.Conforms holding
      (fun got held => CallsGates H ids p → got = true → OnlyOne H ids held) [] := by
    intro ids
    by_cases hcalls : CallsGates H ids p
    · exact Prog.conforms_mono (fun got held h _ => h) (callsGates_holding hcalls [])
    · exact Prog.conforms_mono (fun got held _ h => absurd h hcalls) (conforms_holding p [])
  refine Prog.conforms_mono (fun got held h p' ids hp' => ?_) (conforms_each hids)
  obtain rfl : p = p' := Option.some.inj (hp.symm.trans hp')
  exact h ids

section
variable {ids ids' : List String} {w : World} {ps : List (Handler Bool)} {i j : Nat}
  {c c' : Pool World Stmt Call Answer Bool}

theorem Past.gated (h : Past H ids w ps i c) :
    ∃ held, c.store.Gated held ∧ c.Follows holding (HoldsOne H ps) held ∧ OnlyOne H ids (held i) := by
  have hopen : (Pool.start w ps).store.Gated fun _ => [] := by
    constructor
    · intro g k
      show (g, k) ∈ w.gates ↔ _
      rw [h.open_]
      simp
    · exact fun g k l hk => absurd hk List.not_mem_nil
  obtain ⟨held, hgated, hfollows, -⟩ := gated_run hopen (follows_holdsOne w ps) h.reached i
  obtain ⟨p, hp, hcalls⟩ := h.called
  exact ⟨held, hgated, hfollows, hfollows i _ h.returned p ids hp hcalls rfl⟩

/-- Past the call, the session keeps what it holds. -/
theorem GoesOn.gated {held : Nat → List Gate} (h : GoesOn i c c') (hgated : c.store.Gated held)
    (hfollows : c.Follows holding (HoldsOne H ps) held) :
    ∃ held', c'.store.Gated held' ∧ held i ⊆ held' i ∧
      ∀ j, i ≠ j → c'.threads[j]? = some (.ret true) → HoldsOne H ps j true (held' j) := by
  obtain ⟨after, h⟩ := h
  have hothers : c.Follows holding (fun k got held => i ≠ k → HoldsOne H ps k got held) held :=
    fun k p hp => Prog.conforms_mono (fun _ _ hpost _ => hpost) (hfollows k p hp)
  have hafter : after.Conforms holding (fun got held => i ≠ i → HoldsOne H ps i got held) (held i) :=
    Prog.conforms_mono (fun _ _ _ hne => absurd rfl hne) (conforms_holding after (held i))
  let resumed : Pool World Stmt Call Answer Bool := ⟨c.store, c.threads.set i after, c.trace⟩
  have hset : resumed.Follows holding (fun k got held => i ≠ k → HoldsOne H ps k got held)
      (Function.update held i (held i)) := Pool.follows_set hothers hafter
  rw [Function.update_eq_self] at hset
  have hsame : resumed.store.Gated held := hgated
  obtain ⟨held', hgated', hfollows', hkept⟩ := gated_run hsame hset h i
  exact ⟨held', hgated', hkept fun _ _ => id, fun j hij hj => hfollows' j _ hj hij⟩

theorem OneGate.holds (h : OneGate H ids) {held : List Gate} (hheld : OnlyOne H ids held) :
    ∀ id ∈ ids, mandateGate H id ∈ held := by
  intro id hid
  obtain ⟨last, hlast, rfl⟩ := hheld (List.ne_nil_of_mem hid)
  rw [h id hid last hlast]
  exact List.mem_singleton_self _

theorem keepsGates_of_oneGate (h : OneGate H ids) : KeepsGates H ids := by
  intro w ps i c c' hpast hon id hid
  obtain ⟨held, hgated, hfollows, hone⟩ := hpast.gated
  obtain ⟨held', hgated', hkept, -⟩ := hon.gated hgated hfollows
  exact (hgated'.known _ i).mpr (hkept (h.holds hone id hid))

/-- The gate of a shared mandate has one holder. -/
theorem keepsOut_of_oneGate (h : OneGate H ids) (h' : OneGate H ids') {id : String} (hid : id ∈ ids)
    (hid' : id ∈ ids') : KeepsOut H ids ids' := by
  intro w ps i j p c c' hpast hon hij hp hcalls hj
  obtain ⟨held, hgated, hfollows, hone⟩ := hpast.gated
  obtain ⟨held', hgated', hkept, hothers⟩ := hon.gated hgated hfollows
  have hmine : mandateGate H id ∈ held' i := hkept (h.holds hone id hid)
  have htheirs : mandateGate H id ∈ held' j := h'.holds (hothers j hij hj p ids' hp hcalls rfl) id hid'
  exact hij (hgated'.exclusive _ i j hmine htheirs)

/-- Alone on the database, every call returns true. -/
theorem acquireEach_alone (ids : List String) : ∀ (w : World) (tr : List (Event World Stmt Call Answer)),
    (∀ x ∈ w.gates, x.2 = 0) → ∃ ms,
      (Pool.run machine ⟨w, [acquireEach H [] ids], tr⟩ ms).threads = [.ret true] := by
  induction ids with
  | nil => exact fun w tr _ => ⟨[], rfl⟩
  | cons id ids ih =>
    intro w tr hmine
    have hopen : (w.commit 0 []).gates = [] := by
      show (w.gates.filter fun x => x.2 ≠ 0) = []
      rw [List.filter_eq_nil_iff]
      intro x hx
      rw [hmine x hx]
      decide
    have hfree : (w.commit 0 []).free (mandateGate H id) = true := by
      unfold World.free
      rw [hopen]
      rfl
    have hgates : ∀ x ∈ ((w.commit 0 []).exec 0 (.try_gate (mandateGate H id))).gates, x.2 = 0 := by
      unfold World.exec
      dsimp only
      rw [if_pos hfree, hopen]
      intro x hx
      rw [List.mem_singleton.mp hx]
    obtain ⟨ms, hms⟩ := ih _ (tr ++ [.stmt 0 (.commit []) w] ++
      [.stmt 0 (.try_gate (mandateGate H id)) (w.commit 0 [])]) hgates
    -- the commit that opens the round, then the attempt
    refine ⟨.run 0 (.ok .null) :: .run 0 (.ok .null) :: ms, ?_⟩
    have hround : Pool.step machine (Pool.step machine ⟨w, [acquireEach H [] (id :: ids)], tr⟩
        (.run 0 (.ok .null))) (.run 0 (.ok .null)) =
          ⟨(w.commit 0 []).exec 0 (.try_gate (mandateGate H id)),
            [if !(w.commit 0 []).free (mandateGate H id) then pure false else acquireEach H [] ids],
            tr ++ [.stmt 0 (.commit []) w] ++
              [.stmt 0 (.try_gate (mandateGate H id)) (w.commit 0 [])]⟩ := rfl
    rw [hfree] at hround
    show (Pool.run machine (Pool.step machine (Pool.step machine ⟨w, [acquireEach H [] (id :: ids)], tr⟩
        (.run 0 (.ok .null))) (.run 0 (.ok .null))) ms).threads = _
    rw [hround]
    exact hms

/-- Where two of the listed mandates have different gates, one of them is not held. -/
theorem oneGate_of_keepsGates (h : KeepsGates H ids) : OneGate H ids := by
  have hcalls : CallsGates H ids (acquire_all_mandate_gates H [] ids) :=
    ⟨Unit, .ret (), fun _ => [], rfl⟩
  obtain ⟨ms, hthreads⟩ := acquireEach_alone (H := H) (ids.dedup.insertionSort (· ≤ ·))
    ⟨DB.empty, 0, 0, [], []⟩ [] fun x hx => absurd hx List.not_mem_nil
  have hreach := Pool.reach_run machine
    (Pool.start ⟨DB.empty, 0, 0, [], []⟩ [acquire_all_mandate_gates H [] ids]) ms _ .start
  have hpast : Past H ids _ _ 0 _ := ⟨rfl, ⟨_, rfl, hcalls⟩, hreach, congrArg (·[0]?) hthreads⟩
  obtain ⟨held, hgated, -, hone⟩ := hpast.gated
  have hheld : ∀ id ∈ ids, mandateGate H id ∈ held 0 := by
    intro id hid
    have hmem := h _ _ 0 _ _ hpast ⟨.ret true, .start⟩ id hid
    exact (hgated.known _ 0).mp hmem
  intro id hid id' hid'
  obtain ⟨last, -, heq⟩ := hone (List.ne_nil_of_mem hid)
  rw [heq] at hheld
  rw [List.mem_singleton.mp (hheld id hid), List.mem_singleton.mp (hheld id' hid')]

end

/-- **The gates of several mandates are held together exactly when they are one lock.** -/
theorem mandate_gates_held_iff (H : Host) (ids ids' : List String) :
    (KeepsGates H ids ∧ KeepsGates H ids' ∧
      ((∃ id ∈ ids, id ∈ ids') → KeepsOut H ids ids' ∧ KeepsOut H ids' ids)) ↔
    OneGate H ids ∧ OneGate H ids' := by
  constructor
  · intro h
    exact ⟨oneGate_of_keepsGates h.1, oneGate_of_keepsGates h.2.1⟩
  · intro h
    refine ⟨keepsGates_of_oneGate h.1, keepsGates_of_oneGate h.2, fun hshared => ?_⟩
    obtain ⟨id, hid, hid'⟩ := hshared
    exact ⟨keepsOut_of_oneGate h.1 h.2 hid hid', keepsOut_of_oneGate h.2 h.1 hid' hid⟩

namespace Sample

/-- Two payments whose agents share the mandate "a". -/
def sharing : List (Handler Bool) :=
  [acquire_all_mandate_gates (host true []) [] ["a", "bb"],
    acquire_all_mandate_gates (host true []) [] ["a", "ccc"]]

/-- The first call runs to its end, then the second. -/
def unguarded (n : Nat) : Pool World Stmt Call Answer Bool :=
  (Pool.start ⟨DB.empty, 0, 0, [], []⟩ sharing).run machine
    (List.replicate 4 (.run 0 (.ok .null)) ++ List.replicate n (.run 1 (.ok .null)))

end Sample

/-- What another session does ends no transaction of this one. -/
theorem reach_others {i j : Nat} (hij : j ≠ i) (a : Answer) (n : Nat)
    {c₀ : Pool World Stmt Call Answer Bool} : ∀ c,
      Pool.Reach machine (fun _ ev => ¬EndsTransaction i ev) c₀ c →
        Pool.Reach machine (fun _ ev => ¬EndsTransaction i ev) c₀
          (c.run machine (List.replicate n (.run j a))) := by
  induction n with
  | zero => exact fun c h => h
  | succ n ih =>
    intro c h
    refine ih _ (.step h (.run j a) fun ev hev => ?_)
    unfold Pool.event at hev
    dsimp only at hev
    split at hev
    · obtain rfl := Option.some.inj hev
      exact fun hends => hij hends.1
    · obtain rfl := Option.some.inj hev
      exact fun hends => hends
    · exact absurd hev nofun

/-- Both sessions are past their calls at once, and the first no longer holds the gate of the
mandate they share. -/
theorem mandate_gates_given_back : ¬KeepsGates (Sample.host true []) ["a", "bb"] ∧
    ¬KeepsOut (Sample.host true []) ["a", "bb"] ["a", "ccc"] := by
  have hcalls : ∀ ids, CallsGates (Sample.host true [])  ids
      (acquire_all_mandate_gates (Sample.host true []) [] ids) :=
    fun ids => ⟨Unit, .ret (), fun _ => [], rfl⟩
  have hpast : Past (Sample.host true []) ["a", "bb"] ⟨DB.empty, 0, 0, [], []⟩ Sample.sharing 0
      (Sample.unguarded 0) :=
    ⟨rfl, ⟨_, rfl, hcalls _⟩, Pool.reach_run _ _ _ _ .start, rfl⟩
  constructor
  · intro h
    have hgate := h _ _ 0 _ _ hpast ⟨.ret true, .start⟩ "a" (by decide)
    exact absurd hgate (by decide +kernel)
  · intro h
    have hon : GoesOn 0 (Sample.unguarded 0) (Sample.unguarded 4) :=
      ⟨.ret true, reach_others (j := 1) (by decide) (.ok .null) 4 (Sample.unguarded 0) .start⟩
    exact h _ _ 0 1 _ _ _ hpast hon (by decide) rfl (hcalls _) rfl

end Paari
