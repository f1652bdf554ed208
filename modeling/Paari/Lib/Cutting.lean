import Mathlib.Data.List.DropRight
import Mathlib.Data.List.Infix

/-!
# Cutting a list at a separator

What `split`, `rsplit` and `rstrip` on one separator make of a list that is put together
around that separator, and when a list without it is a suffix or a prefix of such a list.
-/

namespace Cutting

variable {α : Type} {c : α} {s a b t : List α}

/-- The last separator of a list. -/
theorem exists_last (h : c ∈ s) : ∃ a b, s = a ++ c :: b ∧ c ∉ b := by
  obtain ⟨b, a, hs, hb⟩ := List.eq_append_cons_of_mem (List.mem_reverse.mpr h)
  refine ⟨a.reverse, b.reverse, ?_, fun hmem => hb (List.mem_reverse.mp hmem)⟩
  rw [← List.reverse_reverse s, hs]
  simp

/-! ### Suffixes and prefixes without the separator -/

theorem suffix_append_cons (h : c ∉ t) : t <:+ a ++ c :: b ↔ t <:+ b := by
  constructor
  · intro ht
    rcases List.suffix_or_suffix_of_suffix ht (List.suffix_append a (c :: b)) with hin | hover
    · rcases List.suffix_cons_iff.mp hin with heq | hin
      · exact absurd (heq ▸ List.mem_cons_self) h
      · exact hin
    · exact absurd (hover.subset List.mem_cons_self) h
  · intro ht
    exact ht.trans ((List.suffix_cons c b).trans (List.suffix_append a (c :: b)))

theorem prefix_append_cons (h : c ∉ t) : t <+: a ++ c :: b ↔ t <+: a := by
  constructor
  · intro ht
    rcases List.prefix_or_prefix_of_prefix ht (List.prefix_append a (c :: b)) with hin | hover
    · exact hin
    · obtain ⟨r, rfl⟩ := hover
      cases r with
      | nil => rw [List.append_nil]
      | cons x r =>
        have hx : x = c := (List.cons_prefix_cons.mp ((List.prefix_append_right_inj a).mp ht)).1
        exact absurd (hx ▸ List.mem_append_right a List.mem_cons_self) h
  · intro ht
    exact ht.trans (List.prefix_append a (c :: b))

/-! ### Pieces -/

variable [DecidableEq α]

/-- `s.rsplit(c, 1)[-1]` -/
def afterLast (c : α) (s : List α) : List α := s.rtakeWhile (· != c)

/-- `s[: s.rfind(c)]`, for an `s` that contains `c`. -/
def beforeLast (c : α) (s : List α) : List α := (s.rdropWhile (· != c)).dropLast

/-- `s.split(c)[0]` -/
def upTo (c : α) (s : List α) : List α := s.takeWhile (· != c)

/-- `s.rstrip(c)` -/
def rstrip (c : α) (s : List α) : List α := s.rdropWhile (· == c)

theorem all_ne (h : c ∉ s) : ∀ x ∈ s, (x != c) = true := by
  intro x hx
  exact bne_iff_ne.mpr fun heq => h (heq ▸ hx)

theorem takeWhile_ne_append_cons (c : α) (xs ys : List α) :
    (xs ++ c :: ys).takeWhile (· != c) = xs.takeWhile (· != c) := by
  induction xs with
  | nil => simp
  | cons x xs ih =>
    by_cases hx : x = c
    · simp [hx]
    · rw [List.cons_append, List.takeWhile_cons, List.takeWhile_cons, ih]

/-! ### The last piece -/

theorem afterLast_append_cons : afterLast c (a ++ c :: b) = afterLast c b := by
  unfold afterLast List.rtakeWhile
  rw [List.reverse_append, List.reverse_cons, List.append_assoc, List.singleton_append,
    takeWhile_ne_append_cons]

theorem afterLast_append (h : c ∉ b) : afterLast c (a ++ b) = afterLast c a ++ b := by
  unfold afterLast List.rtakeWhile
  have hall : ∀ x ∈ b.reverse, (x != c) = true :=
    fun x hx => all_ne h x (List.mem_reverse.mp hx)
  rw [List.reverse_append, List.takeWhile_append_of_pos hall, List.reverse_append,
    List.reverse_reverse]

theorem afterLast_eq_self (h : c ∉ s) : afterLast c s = s := by
  have happ := afterLast_append (a := []) h
  rwa [List.nil_append] at happ

theorem beforeLast_append_cons (h : c ∉ b) : beforeLast c (a ++ c :: b) = a := by
  unfold beforeLast List.rdropWhile
  have hall : ∀ x ∈ b.reverse, (x != c) = true :=
    fun x hx => all_ne h x (List.mem_reverse.mp hx)
  rw [List.reverse_append, List.reverse_cons, List.append_assoc, List.singleton_append,
    List.dropWhile_append_of_pos hall, List.dropWhile_cons_of_neg (by simp)]
  simp

/-! ### The first piece -/

theorem upTo_append_cons (h : c ∉ a) : upTo c (a ++ c :: b) = a := by
  unfold upTo
  rw [takeWhile_ne_append_cons, List.takeWhile_eq_self_iff.mpr (all_ne h)]

theorem upTo_eq_self (h : c ∉ s) : upTo c s = s := List.takeWhile_eq_self_iff.mpr (all_ne h)

/-! ### Without the separators at the end -/

theorem rstrip_append (h : rstrip c b ≠ []) : rstrip c (a ++ b) = a ++ rstrip c b := by
  unfold rstrip List.rdropWhile at *
  rw [List.reverse_append, List.dropWhile_append, if_neg, List.reverse_append, List.reverse_reverse]
  intro hempty
  exact h (by rw [List.isEmpty_iff.mp hempty, List.reverse_nil])

theorem rstrip_append_nil (h : rstrip c b = []) : rstrip c (a ++ b) = rstrip c a := by
  unfold rstrip List.rdropWhile at *
  rw [List.reverse_append, List.dropWhile_append, if_pos]
  exact List.isEmpty_iff.mpr (List.reverse_eq_nil_iff.mp h)

/-- What is stripped ends in no separator. -/
theorem rstrip_cons_ne_nil {x : α} (hx : x ≠ c) (s : List α) :
    rstrip c (x :: s) = x :: rstrip c s := by
  have hone : rstrip c [x] = [x] := by simp [rstrip, hx]
  by_cases hs : rstrip c s = []
  · have happ := rstrip_append_nil (a := [x]) hs
    rw [List.singleton_append] at happ
    rw [happ, hone, hs]
  · have happ := rstrip_append (a := [x]) hs
    rwa [List.singleton_append, List.singleton_append] at happ

theorem rstrip_eq_self (h : c ∉ s) : rstrip c s = s := by
  refine List.rdropWhile_eq_self_iff.mpr fun hs hlast => h ?_
  rw [← eq_of_beq hlast]
  exact List.getLast_mem hs

theorem mem_of_mem_rstrip {x : α} (h : x ∈ rstrip c s) : x ∈ s :=
  (List.rdropWhile_prefix _ s).subset h

end Cutting
