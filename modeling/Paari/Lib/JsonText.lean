import Mathlib.Data.List.Basic
import Mathlib.Data.Bool.AllAny
import Mathlib.Data.String.Basic

/-!
# Compact JSON text, and that it can be read only one way

A document with its members in a fixed order is printed without a single blank and
with every character outside printable ASCII escaped. How a number is printed is a
parameter: all that matters is that its text contains no separator and does not look
like another kind of value (`Tokens`). Under that assumption the text determines the
document (`render_injective`), because the text of a value is never a proper prefix of
the text of another one where a separator follows.
-/

namespace JsonText

/-- A JSON document whose numbers are `N`. -/
inductive Tree (N : Type)
  | null
  | bool (b : Bool)
  | num (n : N)
  | str (s : String)
  | arr (xs : List (Tree N))
  | obj (kvs : List (String × Tree N))

/-! ## Characters -/

def hexDigit (n : Nat) : Char := ['0', '1', '2', '3', '4', '5', '6', '7', '8', '9', 'a', 'b', 'c', 'd', 'e', 'f'].getD n '0'

def hexValue (c : Char) : Nat :=
  ['0', '1', '2', '3', '4', '5', '6', '7', '8', '9', 'a', 'b', 'c', 'd', 'e', 'f'].idxOf c

theorem hexValue_hexDigit : ∀ n < 16, hexValue (hexDigit n) = n := by decide

/-- The characters with a short escape, and the letter that stands for each. -/
def shortEscapes : List (Char × Char) :=
  [('"', '"'), ('\\', '\\'), ('\n', 'n'), ('\r', 'r'), ('\t', 't'), ('\x08', 'b'), ('\x0c', 'f')]

/-- A `\u` and four hexadecimal digits. -/
def hex4 (n : Nat) : List Char :=
  ['\\', 'u', hexDigit (n / 4096 % 16), hexDigit (n / 256 % 16), hexDigit (n / 16 % 16), hexDigit (n % 16)]

/-- One character of a string: itself where it is printable ASCII, else escaped, with
a surrogate pair beyond the basic plane. -/
def escape (c : Char) : List Char :=
  match shortEscapes.lookup c with
  | some l => ['\\', l]
  | none =>
    if 0x20 ≤ c.toNat ∧ c.toNat ≤ 0x7e then [c]
    else if c.toNat < 0x10000 then hex4 c.toNat
    else hex4 (0xd800 + (c.toNat - 0x10000) / 0x400) ++ hex4 (0xdc00 + (c.toNat - 0x10000) % 0x400)

/-- Read a `\u` escape back. -/
def readHex : List Char → Option (Nat × List Char)
  | _ :: _ :: a :: b :: c :: d :: rest =>
    some (hexValue a * 4096 + hexValue b * 256 + hexValue c * 16 + hexValue d, rest)
  | _ => none

/-- Read one or two `\u` escapes back as a character. -/
def readUnits (cs : List Char) : Option (Char × List Char) :=
  (readHex cs).bind fun hi =>
    if 0xd800 ≤ hi.1 ∧ hi.1 < 0xdc00 then
      (readHex hi.2).map fun lo =>
        (Char.ofNat (0x10000 + (hi.1 - 0xd800) * 0x400 + (lo.1 - 0xdc00)), lo.2)
    else some (Char.ofNat hi.1, hi.2)

/-- Read one character back. -/
def unescape : List Char → Option (Char × List Char)
  | c :: l :: rest =>
    if c ≠ '\\' then some (c, l :: rest)
    else if l = 'u' then readUnits (c :: l :: rest)
    else ((shortEscapes.map Prod.swap).lookup l).map fun c => (c, rest)
  | [c] => some (c, [])
  | [] => none

theorem readHex_hex4 {n : Nat} (h : n < 65536) (rest : List Char) :
    readHex (hex4 n ++ rest) = some (n, rest) := by
  have h1 := hexValue_hexDigit (n / 4096 % 16) (by omega)
  have h2 := hexValue_hexDigit (n / 256 % 16) (by omega)
  have h3 := hexValue_hexDigit (n / 16 % 16) (by omega)
  have h4 := hexValue_hexDigit (n % 16) (by omega)
  simp only [hex4, List.cons_append, List.nil_append, readHex, h1, h2, h3, h4]
  congr 2
  omega

theorem unescape_hex4 (n : Nat) (rest : List Char) :
    unescape (hex4 n ++ rest) = readUnits (hex4 n ++ rest) := by
  simp [hex4, unescape]

/-- The letter of a short escape is no `u` and stands for one character only. -/
theorem shortEscapes_swap : ∀ p ∈ shortEscapes, p.2 ≠ 'u' ∧
    (shortEscapes.map Prod.swap).lookup p.2 = some p.1 := by decide

theorem mem_of_lookup {κ α : Type} [BEq κ] [LawfulBEq κ] {k : κ} {a : α} :
    ∀ {kvs : List (κ × α)}, kvs.lookup k = some a → (k, a) ∈ kvs
  | [], h => absurd h (by simp)
  | (k', a') :: kvs, h => by
    rw [List.lookup_cons] at h
    split at h
    · next heq =>
      obtain rfl := Option.some.inj h
      rw [eq_of_beq heq]
      exact List.mem_cons_self
    · exact List.mem_cons_of_mem _ (mem_of_lookup h)

/-- A character is no surrogate, and its number has at most 21 bits. -/
theorem char_range (c : Char) : c.toNat < 0xd800 ∨ 0xdfff < c.toNat ∧ c.toNat < 0x110000 := c.valid

theorem unescape_escape (c : Char) (rest : List Char) :
    unescape (escape c ++ rest) = some (c, rest) := by
  have hrange := char_range c
  unfold escape
  split
  · next l hl =>
    obtain ⟨hu, hswap⟩ := shortEscapes_swap (c, l) (mem_of_lookup hl)
    simp only [List.cons_append, List.nil_append, unescape, ne_eq, not_true_eq_false, if_false,
      if_neg hu, hswap, Option.map_some]
  · next hnone =>
    split
    · -- a backslash has a short escape
      have hc : c ≠ '\\' := by
        rintro rfl
        exact absurd hnone (by decide)
      cases rest with
      | nil => rfl
      | cons d rest => simp only [List.cons_append, List.nil_append, unescape, if_pos hc]
    split
    · rw [unescape_hex4, readUnits, readHex_hex4 (by omega), Option.bind_some, if_neg (by omega),
        Char.ofNat_toNat]
    · rw [List.append_assoc, unescape_hex4, readUnits, readHex_hex4 (by omega), Option.bind_some,
        if_pos (by omega), readHex_hex4 (by omega), Option.map_some]
      rw [show 0x10000 + (0xd800 + (c.toNat - 0x10000) / 0x400 - 0xd800) * 0x400 +
        (0xdc00 + (c.toNat - 0x10000) % 0x400 - 0xdc00) = c.toNat by omega, Char.ofNat_toNat]

theorem escape_injective {c d : Char} {r r' : List Char} (h : escape c ++ r = escape d ++ r') :
    c = d ∧ r = r' := by
  have hread := congrArg unescape h
  rw [unescape_escape, unescape_escape] at hread
  exact Prod.mk.inj (Option.some.inj hread)

/-- An escaped character does not end the string. -/
theorem escape_head (c : Char) : ∃ d t, escape c = d :: t ∧ d ≠ '"' := by
  unfold escape
  split
  · exact ⟨_, _, rfl, by decide⟩
  · next hnone =>
    split
    · -- a quote has a short escape
      refine ⟨_, _, rfl, ?_⟩
      rintro rfl
      exact absurd hnone (by decide)
    split
    · exact ⟨_, _, rfl, by decide⟩
    · exact ⟨_, _, rfl, by decide⟩

/-! ## Strings -/

/-- The characters of a string and the closing quote. -/
def body : List Char → List Char
  | [] => ['"']
  | c :: cs => escape c ++ body cs

/-- A string between quotes. -/
def quote (s : String) : List Char := '"' :: body s.toList

theorem body_injective : ∀ {cs ds r r' : List Char}, body cs ++ r = body ds ++ r' → cs = ds ∧ r = r'
  | [], [], r, r', h => ⟨rfl, (List.cons.inj h).2⟩
  | [], d :: ds, r, r', h => by
    obtain ⟨e, t, he, hne⟩ := escape_head d
    simp only [body, he, List.cons_append, List.nil_append, List.cons.injEq] at h
    exact absurd h.1.symm hne
  | c :: cs, [], r, r', h => by
    obtain ⟨e, t, he, hne⟩ := escape_head c
    simp only [body, he, List.cons_append, List.nil_append, List.cons.injEq] at h
    exact absurd h.1 hne
  | c :: cs, d :: ds, r, r', h => by
    simp only [body, List.append_assoc] at h
    obtain ⟨hc, hrest⟩ := escape_injective h
    obtain ⟨hcs, hr⟩ := body_injective hrest
    exact ⟨by rw [hc, hcs], hr⟩

theorem quote_injective {s t : String} {r r' : List Char} (h : quote s ++ r = quote t ++ r') :
    s = t ∧ r = r' := by
  obtain ⟨hbody, hrest⟩ := body_injective (List.cons.inj h).2
  exact ⟨String.toList_injective hbody, hrest⟩

/-! ## Integers -/

/-- What stands before the first occurrence of a character is read only one way. -/
theorem split_at {c : Char} : ∀ {xs ys r r' : List Char}, c ∉ xs → c ∉ ys →
    xs ++ c :: r = ys ++ c :: r' → xs = ys ∧ r = r'
  | [], [], r, r', _, _, h => ⟨rfl, (List.cons.inj h).2⟩
  | [], y :: ys, r, r', _, hy, h => absurd ((List.cons.inj h).1 ▸ List.mem_cons_self) hy
  | x :: xs, [], r, r', hx, _, h => absurd ((List.cons.inj h).1 ▸ List.mem_cons_self) hx
  | x :: xs, y :: ys, r, r', hx, hy, h => by
    obtain ⟨hxy, hrest⟩ := List.cons.inj h
    obtain ⟨hxs, hr⟩ := split_at (fun hm => hx (List.mem_cons_of_mem _ hm))
      (fun hm => hy (List.mem_cons_of_mem _ hm)) hrest
    exact ⟨by rw [hxy, hxs], hr⟩

/-- An integer in decimal. -/
def decimal : Int → List Char
  | .ofNat n => Nat.toDigits 10 n
  | .negSucc n => '-' :: Nat.toDigits 10 (n + 1)

theorem digits_injective {m n : Nat} (h : Nat.toDigits 10 m = Nat.toDigits 10 n) : m = n := by
  rw [← Nat.ofDigitChars_ten_toDigits (n := m), h, Nat.ofDigitChars_ten_toDigits]

theorem decimal_chars (i : Int) : ∀ c ∈ decimal i, c.isDigit = true ∨ c = '-' := by
  intro c hc
  cases i with
  | ofNat n => exact .inl (Nat.isDigit_of_mem_toDigits (by decide) (by decide) hc)
  | negSucc n =>
    rcases List.mem_cons.mp hc with hc | hc
    · exact .inr hc
    · exact .inl (Nat.isDigit_of_mem_toDigits (by decide) (by decide) hc)

theorem decimal_ne_nil (i : Int) : decimal i ≠ [] := by
  cases i with
  | ofNat n => exact Nat.toDigits_ne_nil
  | negSucc n => exact List.cons_ne_nil _ _

/-- The digits of a natural number do not start with a minus. -/
theorem digits_ne_minus {m : Nat} {cs : List Char} : Nat.toDigits 10 m ≠ '-' :: cs := by
  intro h
  have hdigit : '-'.isDigit = true := Nat.isDigit_of_mem_toDigits (b := 10) (n := m) (by decide)
    (by decide) (h ▸ List.mem_cons_self)
  exact absurd hdigit (by decide)

theorem decimal_injective {i j : Int} (h : decimal i = decimal j) : i = j := by
  cases i with
  | ofNat m =>
    cases j with
    | ofNat n => exact congrArg _ (digits_injective h)
    | negSucc n => exact absurd h digits_ne_minus
  | negSucc m =>
    cases j with
    | ofNat n => exact absurd h.symm digits_ne_minus
    | negSucc n =>
      have := digits_injective (List.cons.inj h).2
      rw [show m = n by omega]

/-! ## Documents -/

section
variable {N : Type} (tok : N → List Char)

mutual

/-- The text of a document. -/
def render : Tree N → List Char
  | .null => ['n', 'u', 'l', 'l']
  | .bool true => ['t', 'r', 'u', 'e']
  | .bool false => ['f', 'a', 'l', 's', 'e']
  | .num n => tok n
  | .str s => quote s
  | .arr xs => '[' :: renderItems true xs
  | .obj kvs => '{' :: renderMembers true kvs

/-- The remaining items of an array, with its closing bracket. -/
def renderItems (first : Bool) : List (Tree N) → List Char
  | [] => [']']
  | x :: xs => (if first then [] else [',']) ++ (render x ++ renderItems false xs)

/-- The remaining members of an object, with its closing brace. -/
def renderMembers (first : Bool) : List (String × Tree N) → List Char
  | [] => ['}']
  | (k, v) :: kvs =>
    (if first then [] else [',']) ++ (quote k ++ ':' :: (render v ++ renderMembers false kvs))

end

/-- What ends the text of a value. -/
def IsSeparator (c : Char) : Prop := c = ',' ∨ c = ']' ∨ c = '}'

instance (c : Char) : Decidable (IsSeparator c) := inferInstanceAs (Decidable (_ ∨ _))

/-- The text ends here, or a separator follows. -/
def Ends (r : List Char) : Prop := ∀ c t, r = c :: t → IsSeparator c

/-- The kind of value a text that starts with `c` holds. -/
def kindOf (c : Char) : Char := if c ∈ ['n', 't', 'f', '"', '[', '{'] then c else '0'

/-- A way to print numbers that cannot be mistaken for anything else. -/
structure Tokens : Prop where
  injective : ∀ m n, tok m = tok n → m = n
  ne_nil : ∀ n, tok n ≠ []
  plain : ∀ n, ∀ c ∈ tok n, ¬ IsSeparator c
  head : ∀ n c t, tok n = c :: t → kindOf c = '0'

end

section
variable {N : Type} {tok : N → List Char}

/-- The kind of a value. -/
def Tree.kind : Tree N → Char
  | .null => 'n'
  | .bool true => 't'
  | .bool false => 'f'
  | .num _ => '0'
  | .str _ => '"'
  | .arr _ => '['
  | .obj _ => '{'

/-- The first character tells the kind, and is no separator. -/
theorem render_head (htok : Tokens tok) (x : Tree N) :
    ∃ c t, render tok x = c :: t ∧ kindOf c = x.kind ∧ ¬ IsSeparator c := by
  match x with
  | .null => exact ⟨_, _, rfl, rfl, by decide⟩
  | .bool true => exact ⟨_, _, rfl, rfl, by decide⟩
  | .bool false => exact ⟨_, _, rfl, rfl, by decide⟩
  | .str s => exact ⟨_, _, rfl, rfl, by decide⟩
  | .arr xs => exact ⟨_, _, rfl, rfl, by decide⟩
  | .obj kvs => exact ⟨_, _, rfl, rfl, by decide⟩
  | .num n =>
    obtain ⟨c, t, hn⟩ := List.exists_cons_of_ne_nil (htok.ne_nil n)
    exact ⟨c, t, hn, htok.head n c t hn, htok.plain n c (hn ▸ List.mem_cons_self)⟩

theorem kind_eq (htok : Tokens tok) {x y : Tree N} {r r' : List Char}
    (h : render tok x ++ r = render tok y ++ r') : x.kind = y.kind := by
  obtain ⟨c, t, hx, hkx, -⟩ := render_head htok x
  obtain ⟨d, u, hy, hky, -⟩ := render_head htok y
  rw [hx, hy, List.cons_append, List.cons_append, List.cons.injEq] at h
  rw [← hkx, ← hky, h.1]

theorem renderItems_ends (xs : List (Tree N)) (r : List Char) :
    Ends (renderItems tok false xs ++ r) := by
  intro c t h
  cases xs with
  | nil => exact (List.cons.inj h).1 ▸ .inr (.inl rfl)
  | cons x xs => exact (List.cons.inj h).1 ▸ .inl rfl

theorem renderMembers_ends (kvs : List (String × Tree N)) (r : List Char) :
    Ends (renderMembers tok false kvs ++ r) := by
  intro c t h
  cases kvs with
  | nil => exact (List.cons.inj h).1 ▸ .inr (.inr rfl)
  | cons kv kvs => exact (List.cons.inj h).1 ▸ .inl rfl

/-- A number's text ends at the first separator. -/
theorem tok_prefix (htok : Tokens tok) {m n : N} {r r' : List Char} (hr : Ends r) (hr' : Ends r')
    (h : tok m ++ r = tok n ++ r') : m = n ∧ r = r' := by
  have htake : ∀ k s, Ends s → (tok k ++ s).takeWhile (fun c => decide (¬ IsSeparator c)) = tok k := by
    intro k s hs
    rw [List.takeWhile_append_of_pos (fun c hc => by simpa using htok.plain k c hc)]
    cases s with
    | nil => simp
    | cons c t => simp [hs c t rfl]
  have hmn : tok m = tok n := by rw [← htake m r hr, h, htake n r' hr']
  refine ⟨htok.injective m n hmn, ?_⟩
  rw [hmn] at h
  exact List.append_cancel_left h

mutual

/-- Two documents whose texts agree up to where both end are the same. -/
theorem render_prefix (htok : Tokens tok) : ∀ (x y : Tree N) {r r' : List Char}, Ends r → Ends r' →
    render tok x ++ r = render tok y ++ r' → x = y ∧ r = r'
  | .num m, y, r, r', hr, hr', h => by
    cases y with
    | num n =>
      obtain ⟨rfl, hrest⟩ := tok_prefix htok hr hr' h
      exact ⟨rfl, hrest⟩
    | bool b => cases b <;> exact absurd (kind_eq htok h) (by simp [Tree.kind])
    | _ => exact absurd (kind_eq htok h) (by simp [Tree.kind])
  | .null, y, r, r', _, _, h => by
    cases y with
    | null => exact ⟨rfl, List.append_cancel_left h⟩
    | bool b => cases b <;> exact absurd (kind_eq htok h) (by simp [Tree.kind])
    | _ => exact absurd (kind_eq htok h) (by simp [Tree.kind])
  | .bool b, y, r, r', _, _, h => by
    cases y with
    | bool b' =>
      have hkind := kind_eq htok h
      cases b <;> cases b' <;> simp [Tree.kind] at hkind <;>
        exact ⟨rfl, List.append_cancel_left h⟩
    | _ => cases b <;> exact absurd (kind_eq htok h) (by simp [Tree.kind])
  | .str s, y, r, r', _, _, h => by
    cases y with
    | str t =>
      obtain ⟨rfl, hrest⟩ := quote_injective h
      exact ⟨rfl, hrest⟩
    | bool b => cases b <;> exact absurd (kind_eq htok h) (by simp [Tree.kind])
    | _ => exact absurd (kind_eq htok h) (by simp [Tree.kind])
  | .arr xs, y, r, r', _, _, h => by
    cases y with
    | arr ys =>
      obtain ⟨rfl, hrest⟩ := items_prefix htok true xs ys (List.cons.inj h).2
      exact ⟨rfl, hrest⟩
    | bool b => cases b <;> exact absurd (kind_eq htok h) (by simp [Tree.kind])
    | _ => exact absurd (kind_eq htok h) (by simp [Tree.kind])
  | .obj kvs, y, r, r', _, _, h => by
    cases y with
    | obj kvs' =>
      obtain ⟨rfl, hrest⟩ := members_prefix htok true kvs kvs' (List.cons.inj h).2
      exact ⟨rfl, hrest⟩
    | bool b => cases b <;> exact absurd (kind_eq htok h) (by simp [Tree.kind])
    | _ => exact absurd (kind_eq htok h) (by simp [Tree.kind])

theorem items_prefix (htok : Tokens tok) (first : Bool) : ∀ (xs ys : List (Tree N)) {r r' : List Char},
    renderItems tok first xs ++ r = renderItems tok first ys ++ r' → xs = ys ∧ r = r'
  | [], [], r, r', h => ⟨rfl, (List.cons.inj h).2⟩
  | [], y :: ys, r, r', h => by
    obtain ⟨c, t, hy, -, hc⟩ := render_head htok y
    cases first <;> simp [renderItems, hy] at h
    exact absurd (.inr (.inl h.1.symm)) hc
  | x :: xs, [], r, r', h => by
    obtain ⟨c, t, hx, -, hc⟩ := render_head htok x
    cases first <;> simp [renderItems, hx] at h
    exact absurd (.inr (.inl h.1)) hc
  | x :: xs, y :: ys, r, r', h => by
    simp only [renderItems, List.append_assoc] at h
    obtain ⟨hxy, hrest⟩ := render_prefix htok x y (renderItems_ends xs r) (renderItems_ends ys r')
      (List.append_cancel_left h)
    obtain ⟨hxs, hr⟩ := items_prefix htok false xs ys hrest
    exact ⟨by rw [hxy, hxs], hr⟩

theorem members_prefix (htok : Tokens tok) (first : Bool) :
    ∀ (kvs kvs' : List (String × Tree N)) {r r' : List Char},
    renderMembers tok first kvs ++ r = renderMembers tok first kvs' ++ r' → kvs = kvs' ∧ r = r'
  | [], [], r, r', h => ⟨rfl, (List.cons.inj h).2⟩
  | [], (k, v) :: kvs', r, r', h => by
    cases first <;> simp [renderMembers, quote] at h
  | (k, v) :: kvs, [], r, r', h => by
    cases first <;> simp [renderMembers, quote] at h
  | (k, v) :: kvs, (k', v') :: kvs', r, r', h => by
    simp only [renderMembers, List.append_assoc, List.cons_append] at h
    obtain ⟨hk, hrest⟩ := quote_injective (List.append_cancel_left h)
    obtain ⟨hv, hrest⟩ := render_prefix htok v v' (renderMembers_ends kvs r)
      (renderMembers_ends kvs' r') (List.cons.inj hrest).2
    obtain ⟨hkvs, hr⟩ := members_prefix htok false kvs kvs' hrest
    exact ⟨by rw [hk, hv, hkvs], hr⟩

end

/-- **The text determines the document.** -/
theorem render_injective (htok : Tokens tok) {x y : Tree N} (h : render tok x = render tok y) :
    x = y := by
  have hends : Ends [] := fun c t hnil => absurd hnil (by simp)
  have htexts : render tok x ++ [] = render tok y ++ [] := by rw [h]
  have hboth := render_prefix htok x y hends hends htexts
  exact hboth.1

/-! ## Members -/

theorem lookup_of_mem {κ α : Type} [BEq κ] [LawfulBEq κ] {k : κ} {a : α} :
    ∀ {kvs : List (κ × α)}, (kvs.map Prod.fst).Nodup → (k, a) ∈ kvs → kvs.lookup k = some a
  | [], _, h => absurd h List.not_mem_nil
  | (k', a') :: kvs, hnodup, h => by
    rw [List.map_cons, List.nodup_cons] at hnodup
    rcases List.mem_cons.mp h with heq | hmem
    · obtain ⟨rfl, rfl⟩ := Prod.mk.inj heq
      simp
    · have hne : (k == k') = false := by
        rw [beq_eq_false_iff_ne]
        rintro rfl
        exact hnodup.1 (List.mem_map.mpr ⟨_, hmem, rfl⟩)
      rw [List.lookup_cons, hne]
      exact lookup_of_mem hnodup.2 hmem

/-- Where keys are distinct, the order of the members does not matter. -/
theorem lookup_perm {κ α : Type} [BEq κ] [LawfulBEq κ] {kvs kvs' : List (κ × α)}
    (hperm : kvs.Perm kvs') (hnodup : (kvs.map Prod.fst).Nodup) (k : κ) :
    kvs.lookup k = kvs'.lookup k := by
  have hnodup' : (kvs'.map Prod.fst).Nodup := (hperm.map Prod.fst).nodup_iff.mp hnodup
  ext a
  constructor
  · intro h
    exact lookup_of_mem hnodup' (hperm.mem_iff.mp (mem_of_lookup h))
  · intro h
    exact lookup_of_mem hnodup (hperm.mem_iff.mpr (mem_of_lookup h))

end

end JsonText
