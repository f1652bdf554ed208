import Mathlib.Algebra.Ring.Int.Defs
import Mathlib.Data.List.Infix

/-!
# The Python values the service handles

Everything that reaches the service from outside is JSON: provider answers,
webhook bodies, delegation documents. The service reads it with the ordinary
dynamic operations (`d.get(k)`, `x or {}`, `int(x)`, `str(x)`, `x in y`), each of
which may raise, so each is a total function here whose failure names the
exception.

A finite `float` is a dyadic rational and is kept as such (`m · 2^e`), so that
`int` on it truncates exactly. What depends on the Unicode tables or on Python's
own printer (`str.upper`, `repr`, …) is a field of `Text`; nothing below assumes
anything about these functions.
-/

namespace Paari

/-- A Python `float`: `finite m e` is `m · 2^e`. -/
inductive PyFloat
  | finite (m e : Int)
  | inf (negative : Bool)
  | nan
deriving DecidableEq

/-- A value of Python's `json` parser, `dict` keys in document order. -/
inductive Json
  | null
  | bool (b : Bool)
  | int (i : Int)
  | float (x : PyFloat)
  | str (s : String)
  | list (xs : List Json)
  | dict (kvs : List (String × Json))

/-- Python exceptions, as far as the code tells them apart. -/
inductive PyError
  | typeError
  | valueError
  | overflowError
  | keyError (key : String)
  | attributeError
  | runtimeError (text : String)
deriving DecidableEq

/-- `str` methods and the printer of the Python runtime. -/
structure Text where
  strip : String → String
  lower : String → String
  upper : String → String
  casefold : String → String
  repr : Json → String
  /-- `int(s)`, when the string is an integer literal. -/
  int : String → Option Int
  /-- `str(exc)`. -/
  message : PyError → String

/-- `s[:n]` -/
def slice (n : Nat) (s : String) : String := String.ofList (s.toList.take n)

namespace Json

/-- Truth value, as `if x:` and `x or y` read it. -/
def truthy : Json → Bool
  | null => false
  | bool b => b
  | int i => decide (i ≠ 0)
  | float (.finite m _) => decide (m ≠ 0)
  | float _ => true
  | str s => decide (s ≠ "")
  | list xs => !xs.isEmpty
  | dict kvs => !kvs.isEmpty

/-- `x or y` -/
def orElse (x y : Json) : Json := if x.truthy then x else y

/-- `x or {}` -/
def orEmpty (x : Json) : Json := x.orElse (dict [])

/-- `d.get(k, default)`; only a `dict` has the method. -/
def getD (d : Json) (k : String) (default : Json) : Except PyError Json :=
  match d with
  | dict kvs => .ok ((kvs.lookup k).getD default)
  | _ => .error .attributeError

/-- `d.get(k)` -/
def get (d : Json) (k : String) : Except PyError Json := d.getD k null

/-- `d[k]` -/
def item (d : Json) (k : String) : Except PyError Json :=
  match d with
  | dict kvs =>
    match kvs.lookup k with
    | some v => .ok v
    | none => .error (.keyError k)
  | _ => .error .typeError

/-- `k in d` for a string `k`: list members, dict keys, substrings. -/
def contains (d : Json) (k : String) : Except PyError Bool :=
  match d with
  | list xs => .ok (xs.any fun | str s => s == k | _ => false)
  | dict kvs => .ok (kvs.any fun kv => kv.1 == k)
  | str s => .ok (decide (k.toList <:+: s.toList))
  | _ => .error .typeError

/-- The value is the string `s` (`x == s`). -/
def isStr (x : Json) (s : String) : Bool :=
  match x with
  | str t => t == s
  | _ => false

def isNull : Json → Bool
  | null => true
  | _ => false

def asStr? : Json → Option String
  | str s => some s
  | _ => none

def isDict : Json → Bool
  | dict _ => true
  | _ => false

end Json

/-- Truncation towards zero, as `int(x)` does it. -/
def PyFloat.trunc : PyFloat → Except PyError Int
  | finite m e => .ok (if 0 ≤ e then m * 2 ^ e.toNat else m.tdiv (2 ^ (-e).toNat))
  | inf _ => .error .overflowError
  | nan => .error .valueError

/-- `int(x)` -/
def pyInt (T : Text) : Json → Except PyError Int
  | .int i => .ok i
  | .bool b => .ok (if b then 1 else 0)
  | .float x => x.trunc
  | .str s => (T.int s).elim (.error .valueError) .ok
  | _ => .error .typeError

/-- `str(x)` -/
def pyStr (T : Text) : Json → String
  | .str s => s
  | x => T.repr x

/-- `str(x).lower()` -/
def pyLower (T : Text) (x : Json) : String := T.lower (pyStr T x)

/-- `str(x).upper()` -/
def pyUpper (T : Text) (x : Json) : String := T.upper (pyStr T x)

/-- `list(x)`, for the values that are iterable. -/
def pyList : Json → Except PyError (List Json)
  | .list xs => .ok xs
  | .dict kvs => .ok (kvs.map fun kv => .str kv.1)
  | .str s => .ok (s.toList.map fun c => .str (String.singleton c))
  | _ => .error .typeError

/-- The value is, as a number, exactly the integer `n`: no fraction is dropped to
get there. -/
def Json.isInteger (T : Text) (n : Int) : Json → Bool
  | .int i => decide (i = n)
  | .bool b => decide ((if b then (1 : Int) else 0) = n)
  | .float (.finite m e) =>
    if 0 ≤ e then decide (m * 2 ^ e.toNat = n) else decide (m = n * 2 ^ (-e).toNat)
  | .str s => decide (T.int s = some n)
  | _ => false

/-- What is exactly `n` is also what `int` makes of it. -/
theorem pyInt_of_isInteger {T : Text} {n : Int} {x : Json} (h : x.isInteger T n = true) :
    pyInt T x = .ok n := by
  cases x with
  | null => simp [Json.isInteger] at h
  | bool b => simpa [Json.isInteger, pyInt] using h
  | int i => simpa [Json.isInteger, pyInt] using h
  | str s =>
    have hs : T.int s = some n := by simpa [Json.isInteger] using h
    simp [pyInt, hs]
  | list xs => simp [Json.isInteger] at h
  | dict kvs => simp [Json.isInteger] at h
  | float x =>
    cases x with
    | inf b => simp [Json.isInteger] at h
    | nan => simp [Json.isInteger] at h
    | finite m e =>
      by_cases he : 0 ≤ e
      · simpa [Json.isInteger, pyInt, PyFloat.trunc, he] using h
      · have hm : m = n * 2 ^ (-e).toNat := by simpa [Json.isInteger, he] using h
        have hpos : (2 : Int) ^ (-e).toNat ≠ 0 := Int.ne_of_gt (Int.pow_pos (by decide))
        simp [pyInt, PyFloat.trunc, he, hm, Int.mul_tdiv_cancel _ hpos]

end Paari
