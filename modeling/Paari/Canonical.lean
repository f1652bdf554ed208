import Mathlib.Data.List.Sort
import Paari.Lib.JsonText
import Paari.Python

/-!
# `canonical_json`

`json.dumps(payload, sort_keys=True, separators=(",", ":"))`: members sorted by key at
every level, no blanks, everything outside printable ASCII escaped. How Python prints a
`float` is a parameter, of which `FloatRepr` says what is relied on. The text then
determines the value up to the order of keys (`canonical_json_injective`), which is what
a signature or a hash over the text is worth.
-/

namespace Paari

open JsonText

/-! ## Floats -/

/-- Halve the mantissa while it is even. -/
def reduceFloat : Nat → Int → Int → PyFloat
  | 0, _, _ => .finite 0 0
  | n + 1, m, e => if m % 2 = 0 then reduceFloat n (m / 2) (e + 1) else .finite m e

/-- The one spelling of a float's value: `m · 2^e` with `m` odd, or zero. -/
def PyFloat.norm : PyFloat → PyFloat
  | .finite m e => reduceFloat m.natAbs m e
  | x => x

/-- What is relied on about `float.__repr__`, with the names `json` gives to what is not
finite: different values have different texts, written with digits, sign, point, exponent
or the letters of `NaN` and `Infinity`, and never as an integer is. -/
structure FloatRepr (float_repr : PyFloat → String) : Prop where
  injective : ∀ x y : PyFloat, float_repr x.norm = float_repr y.norm → x.norm = y.norm
  chars : ∀ x, ∀ c ∈ (float_repr x).toList, c.isDigit = true ∨
    c ∈ ['-', '+', '.', 'e', 'N', 'a', 'I', 'n', 'f', 'i', 't', 'y']
  head : ∀ x c t, (float_repr x).toList = c :: t → c.isDigit = true ∨ c ∈ ['-', 'N', 'I']
  not_integer : ∀ x, ∃ c ∈ (float_repr x).toList, c.isDigit = false ∧ c ≠ '-'

/-! ## Values with their keys in order -/

/-- A JSON number: an integer, or a float under its one spelling. -/
abbrev Number := Int ⊕ {x : PyFloat // ∃ y : PyFloat, x = y.norm}

mutual

/-- The value as it is printed: keys in order. -/
def Json.tree : Json → JsonText.Tree Number
  | .null => .null
  | .bool b => .bool b
  | .int i => .num (.inl i)
  | .float x => .num (.inr ⟨x.norm, x, rfl⟩)
  | .str s => .str s
  | .list xs => .arr (treeItems xs)
  | .dict kvs => .obj ((treeMembers kvs).insertionSort fun a b => a.1 ≤ b.1)

def treeItems : List Json → List (JsonText.Tree Number)
  | [] => []
  | x :: xs => x.tree :: treeItems xs

def treeMembers : List (String × Json) → List (String × JsonText.Tree Number)
  | [] => []
  | (k, v) :: kvs => (k, v.tree) :: treeMembers kvs

end

/-- The same value: members in any order, floats under any spelling. -/
def Json.Same (x y : Json) : Prop := x.tree = y.tree

@[simp] theorem keys_treeMembers (kvs : List (String × Json)) :
    (treeMembers kvs).map Prod.fst = kvs.map Prod.fst := by
  induction kvs with
  | nil => rfl
  | cons kv kvs ih => exact congrArg _ ih

theorem lookup_treeMembers (k : String) (kvs : List (String × Json)) :
    (treeMembers kvs).lookup k = (kvs.lookup k).map Json.tree := by
  induction kvs with
  | nil => rfl
  | cons kv kvs ih =>
    show List.lookup k ((kv.1, kv.2.tree) :: treeMembers kvs) = _
    rw [List.lookup_cons, List.lookup_cons]
    split
    · rfl
    · exact ih

/-- Two objects that are the same have the same members. -/
theorem Json.Same.lookup {kvs kvs' : List (String × Json)} (h : (Json.dict kvs).Same (.dict kvs'))
    (hnodup : (kvs.map Prod.fst).Nodup) (hnodup' : (kvs'.map Prod.fst).Nodup) (k : String) :
    (kvs.lookup k).map Json.tree = (kvs'.lookup k).map Json.tree := by
  have hsorted := JsonText.Tree.obj.inj h
  rw [← lookup_treeMembers, ← lookup_treeMembers,
    lookup_perm (List.perm_insertionSort (fun a b => a.1 ≤ b.1) (treeMembers kvs)).symm (by simpa using hnodup),
    hsorted,
    lookup_perm (List.perm_insertionSort (fun a b => a.1 ≤ b.1) (treeMembers kvs')).symm (by simpa using hnodup')]

/-- Distinct keys stay distinct. -/
theorem Json.Same.nodup {kvs kvs' : List (String × Json)} (h : (Json.dict kvs).Same (.dict kvs'))
    (hnodup : (kvs.map Prod.fst).Nodup) : (kvs'.map Prod.fst).Nodup := by
  have hperm : ((treeMembers kvs).map Prod.fst).Perm ((treeMembers kvs').map Prod.fst) := by
    refine ((List.perm_insertionSort (fun a b => a.1 ≤ b.1) _).symm.trans ?_).map Prod.fst
    rw [JsonText.Tree.obj.inj h]
    exact List.perm_insertionSort _ _
  rw [keys_treeMembers, keys_treeMembers] at hperm
  exact hperm.nodup_iff.mp hnodup

theorem tree_eq_str {x : Json} {s : String} (h : x.tree = .str s) : x = .str s := by
  cases x <;> simp [Json.tree] at h
  rw [h]

theorem tree_eq_int {x : Json} {i : Int} (h : x.tree = .num (.inl i)) : x = .int i := by
  cases x <;> simp [Json.tree] at h
  rw [h]

/-! ## The text -/

/-- How a number is printed. -/
def token (float_repr : PyFloat → String) : Number → List Char
  | .inl i => decimal i
  | .inr x => (float_repr x.1).toList

def canonical_json (float_repr : PyFloat → String) (payload : Json) : String :=
  String.ofList (render (token float_repr) payload.tree)

theorem digit_plain {c : Char} (h : c.isDigit = true) : ¬ IsSeparator c ∧ kindOf c = '0' := by
  have hne : ∀ d : Char, d.isDigit = false → c ≠ d := by
    rintro d hd rfl
    rw [h] at hd
    exact absurd hd (by decide)
  constructor
  · rintro (hc | hc | hc) <;> exact hne _ (by decide) hc
  · unfold kindOf
    rw [if_neg]
    intro hc
    simp only [List.mem_cons, List.not_mem_nil, or_false] at hc
    rcases hc with hc | hc | hc | hc | hc | hc <;> exact hne _ (by decide) hc

theorem FloatRepr.tokens {float_repr : PyFloat → String} (h : FloatRepr float_repr) :
    Tokens (token float_repr) where
  injective m n hmn := by
    have hmixed : ∀ (i : Int) (x : PyFloat), decimal i ≠ (float_repr x).toList := by
      intro i x heq
      obtain ⟨c, hc, hdigit, hminus⟩ := h.not_integer x
      rcases decimal_chars i c (heq ▸ hc) with hd | hm
      · rw [hd] at hdigit
        exact absurd hdigit (by decide)
      · exact hminus hm
    rcases m with i | ⟨x, x', rfl⟩
    · rcases n with j | ⟨y, y', rfl⟩
      · exact congrArg _ (decimal_injective hmn)
      · exact absurd hmn (hmixed i _)
    · rcases n with j | ⟨y, y', rfl⟩
      · exact absurd hmn.symm (hmixed j _)
      · have := h.injective x' y' (String.toList_injective hmn)
        simp only [this]
  ne_nil n := by
    rcases n with i | x
    · exact decimal_ne_nil i
    · obtain ⟨c, hc, -⟩ := h.not_integer x.1
      exact List.ne_nil_of_mem hc
  plain n c hc := by
    rcases n with i | x
    · rcases decimal_chars i c hc with hd | rfl
      · exact (digit_plain hd).1
      · decide
    · rcases h.chars x.1 c hc with hd | hmem
      · exact (digit_plain hd).1
      · simp only [List.mem_cons, List.not_mem_nil, or_false] at hmem
        rcases hmem with rfl | rfl | rfl | rfl | rfl | rfl | rfl | rfl | rfl | rfl | rfl | rfl <;>
          decide
  head n c t hn := by
    rcases n with i | x
    · have hdec : decimal i = c :: t := hn
      rcases decimal_chars i c (hdec ▸ List.mem_cons_self) with hd | rfl
      · exact (digit_plain hd).2
      · decide
    · rcases h.head x.1 c t hn with hd | hmem
      · exact (digit_plain hd).2
      · simp only [List.mem_cons, List.not_mem_nil, or_false] at hmem
        rcases hmem with rfl | rfl | rfl <;> decide

/-- **The canonical text determines the value.** -/
theorem canonical_json_injective {float_repr : PyFloat → String} (h : FloatRepr float_repr)
    {x y : Json} (heq : canonical_json float_repr x = canonical_json float_repr y) : x.Same y :=
  render_injective h.tokens (String.ofList_injective heq)

end Paari
