import Mathlib.Data.List.AList
import Mathlib.Algebra.BigOperators.Group.List.Basic
import Mathlib.Algebra.Ring.Int.Defs
import Mathlib.Tactic.Ring

/-!
# What a keyed table weighs

A table with one record per key, and a weight for each record. Writing a record changes the
weight of the table by the difference it makes at its own key (`weight_insert`), whatever
else the table holds.
-/

namespace AList

variable {κ ρ : Type}

/-- The weight of all records together. -/
def weight (f : ρ → Int) (s : AList fun _ : κ => ρ) : Int := (s.entries.map fun e => f e.2).sum

@[simp] theorem weight_empty (f : ρ → Int) : weight f (∅ : AList fun _ : κ => ρ) = 0 := rfl

variable [DecidableEq κ]

/-- A record under a new key adds its weight. -/
theorem weight_insert_new {f : ρ → Int} {s : AList fun _ : κ => ρ} {a : κ} (b : ρ)
    (h : s.lookup a = none) : (s.insert a b).weight f = s.weight f + f b := by
  have hnot : a ∉ s := lookup_eq_none.mp h
  unfold weight
  rw [entries_insert_of_notMem hnot, List.map_cons, List.sum_cons, add_comm]

/-- A record under a known key adds the difference to the one it replaces. -/
theorem weight_insert_known {f : ρ → Int} {s : AList fun _ : κ => ρ} {a : κ} {b : ρ} (b' : ρ)
    (h : s.lookup a = some b) : (s.insert a b').weight f + f b = s.weight f + f b' := by
  have hkey : a ∈ s.entries.keys := lookup_isSome.mp (by rw [h]; rfl)
  obtain ⟨c, l₁, l₂, _, hentries, herase⟩ := List.exists_of_kerase hkey
  -- the erased entry is the one that is looked up
  obtain rfl : c = b := by
    have hmem : (⟨a, c⟩ : Sigma fun _ : κ => ρ) ∈ s.entries := by
      rw [hentries]
      exact List.mem_append_right _ List.mem_cons_self
    exact Option.some.inj ((mem_lookup_iff.mpr hmem).symm.trans h)
  unfold weight
  rw [entries_insert, herase, hentries]
  simp only [List.map_cons, List.map_append, List.sum_cons, List.sum_append]
  ring

/-- Writing a record changes the weight by the difference it makes. -/
theorem weight_insert (f : ρ → Int) (s : AList fun _ : κ => ρ) (a : κ) (b : ρ) :
    (s.insert a b).weight f = s.weight f + (f b - ((s.lookup a).map f).getD 0) := by
  cases h : s.lookup a with
  | none =>
    rw [weight_insert_new b h]
    simp
  | some c =>
    have := weight_insert_known (f := f) b h
    simp only [Option.map_some, Option.getD_some]
    omega

end AList
