import Paari.Lib.JsonText

/-!
# Two ways to print strings

The text of a document depends on how its strings are printed. `renderWith` takes that
as a parameter; the printing of `JsonText`, which escapes everything outside printable
ASCII, is one choice, and `plainQuote`, which leaves such characters as they are, is
another. The two texts of a document are the same exactly when none of its strings has a
character beyond `~` (`plain_iff`).
-/

namespace JsonText

section
variable {N : Type}

mutual

/-- Every string of a document, keys included. -/
def Tree.strings : Tree N → List String
  | .null => []
  | .bool _ => []
  | .num _ => []
  | .str s => [s]
  | .arr xs => itemStrings xs
  | .obj kvs => memberStrings kvs

def itemStrings : List (Tree N) → List String
  | [] => []
  | x :: xs => x.strings ++ itemStrings xs

def memberStrings : List (String × Tree N) → List String
  | [] => []
  | (k, v) :: kvs => k :: (v.strings ++ memberStrings kvs)

end

variable (q : String → List Char) (tok : N → List Char)

mutual

/-- The text of a document whose strings are printed by `q`. -/
def renderWith : Tree N → List Char
  | .null => ['n', 'u', 'l', 'l']
  | .bool true => ['t', 'r', 'u', 'e']
  | .bool false => ['f', 'a', 'l', 's', 'e']
  | .num n => tok n
  | .str s => q s
  | .arr xs => '[' :: renderItemsWith true xs
  | .obj kvs => '{' :: renderMembersWith true kvs

def renderItemsWith (first : Bool) : List (Tree N) → List Char
  | [] => [']']
  | x :: xs => (if first then [] else [',']) ++ (renderWith x ++ renderItemsWith false xs)

def renderMembersWith (first : Bool) : List (String × Tree N) → List Char
  | [] => ['}']
  | (k, v) :: kvs =>
    (if first then [] else [',']) ++ (q k ++ ':' :: (renderWith v ++ renderMembersWith false kvs))

end

end

section
variable {N : Type} {q q' : String → List Char} {tok : N → List Char}

mutual

theorem renderWith_quote : ∀ x : Tree N, renderWith quote tok x = render tok x
  | .null => rfl
  | .bool true => rfl
  | .bool false => rfl
  | .num _ => rfl
  | .str _ => rfl
  | .arr xs => congrArg ('[' :: ·) (renderItemsWith_quote true xs)
  | .obj kvs => congrArg ('{' :: ·) (renderMembersWith_quote true kvs)

theorem renderItemsWith_quote (first : Bool) :
    ∀ xs : List (Tree N), renderItemsWith quote tok first xs = renderItems tok first xs
  | [] => rfl
  | x :: xs => by rw [renderItemsWith, renderItems, renderWith_quote x, renderItemsWith_quote false xs]

theorem renderMembersWith_quote (first : Bool) :
    ∀ kvs : List (String × Tree N), renderMembersWith quote tok first kvs = renderMembers tok first kvs
  | [] => rfl
  | (k, v) :: kvs => by
    rw [renderMembersWith, renderMembers, renderWith_quote v, renderMembersWith_quote false kvs]

end

mutual

/-- Printers that agree on the strings of a document agree on the document. -/
theorem renderWith_congr : ∀ x : Tree N, (∀ s ∈ x.strings, q s = q' s) →
    renderWith q tok x = renderWith q' tok x
  | .null, _ => rfl
  | .bool true, _ => rfl
  | .bool false, _ => rfl
  | .num _, _ => rfl
  | .str s, h => h s (List.mem_singleton_self s)
  | .arr xs, h => congrArg ('[' :: ·) (renderItemsWith_congr true xs h)
  | .obj kvs, h => congrArg ('{' :: ·) (renderMembersWith_congr true kvs h)

theorem renderItemsWith_congr (first : Bool) : ∀ xs : List (Tree N),
    (∀ s ∈ itemStrings xs, q s = q' s) → renderItemsWith q tok first xs = renderItemsWith q' tok first xs
  | [], _ => rfl
  | x :: xs, h => by
    rw [renderItemsWith, renderItemsWith,
      renderWith_congr x fun s hs => h s (List.mem_append_left _ hs),
      renderItemsWith_congr false xs fun s hs => h s (List.mem_append_right _ hs)]

theorem renderMembersWith_congr (first : Bool) : ∀ kvs : List (String × Tree N),
    (∀ s ∈ memberStrings kvs, q s = q' s) →
      renderMembersWith q tok first kvs = renderMembersWith q' tok first kvs
  | [], _ => rfl
  | (k, v) :: kvs, h => by
    rw [renderMembersWith, renderMembersWith, h k List.mem_cons_self,
      renderWith_congr v fun s hs => h s (List.mem_cons_of_mem _ (List.mem_append_left _ hs)),
      renderMembersWith_congr false kvs fun s hs =>
        h s (List.mem_cons_of_mem _ (List.mem_append_right _ hs))]

end

mutual

/-- What a string is printed as stands in the text. -/
theorem mem_renderWith {s : String} {c : Char} (hc : c ∈ q s) :
    ∀ x : Tree N, s ∈ x.strings → c ∈ renderWith q tok x
  | .null, h => absurd h List.not_mem_nil
  | .bool _, h => absurd h List.not_mem_nil
  | .num _, h => absurd h List.not_mem_nil
  | .str s', h => by
    rw [← List.mem_singleton.mp h]
    exact hc
  | .arr xs, h => List.mem_cons_of_mem _ (mem_renderItemsWith hc true xs h)
  | .obj kvs, h => List.mem_cons_of_mem _ (mem_renderMembersWith hc true kvs h)

theorem mem_renderItemsWith {s : String} {c : Char} (hc : c ∈ q s) (first : Bool) :
    ∀ xs : List (Tree N), s ∈ itemStrings xs → c ∈ renderItemsWith q tok first xs
  | [], h => absurd h List.not_mem_nil
  | x :: xs, h => by
    refine List.mem_append_right _ (List.mem_append.mpr ?_)
    rcases List.mem_append.mp h with h | h
    · exact .inl (mem_renderWith hc x h)
    · exact .inr (mem_renderItemsWith hc false xs h)

theorem mem_renderMembersWith {s : String} {c : Char} (hc : c ∈ q s) (first : Bool) :
    ∀ kvs : List (String × Tree N), s ∈ memberStrings kvs → c ∈ renderMembersWith q tok first kvs
  | [], h => absurd h List.not_mem_nil
  | (k, v) :: kvs, h => by
    refine List.mem_append_right _ (List.mem_append.mpr ?_)
    rcases List.mem_cons.mp h with rfl | h
    · exact .inl hc
    · refine .inr (List.mem_cons_of_mem _ (List.mem_append.mpr ?_))
      rcases List.mem_append.mp h with h | h
      · exact .inl (mem_renderWith hc v h)
      · exact .inr (mem_renderMembersWith hc false kvs h)

end

/-! ## Printable characters -/

/-- A character of printable ASCII. -/
def Printable (c : Char) : Prop := 0x20 ≤ c.toNat ∧ c.toNat ≤ 0x7e

instance (c : Char) : Decidable (Printable c) := inferInstanceAs (Decidable (_ ∧ _))

theorem printable_hexDigit (n : Nat) : Printable (hexDigit n) := by
  by_cases hn : n < 16
  · have hall : ∀ n < 16, Printable (hexDigit n) := by decide
    exact hall n hn
  · have hzero : hexDigit n = '0' := by
      unfold hexDigit
      rw [List.getD_eq_getElem?_getD, List.getElem?_eq_none (by simpa using Nat.le_of_not_lt hn)]
      rfl
    rw [hzero]
    decide

theorem printable_hex4 (n : Nat) : ∀ c ∈ hex4 n, Printable c := by
  intro c hc
  simp only [hex4, List.mem_cons, List.not_mem_nil, or_false] at hc
  rcases hc with rfl | rfl | rfl | rfl | rfl | rfl
  · decide
  · decide
  all_goals exact printable_hexDigit _

theorem printable_escape (d : Char) : ∀ c ∈ escape d, Printable c := by
  intro c hc
  unfold escape at hc
  split at hc
  · next l hl =>
    have hletters : ∀ p ∈ shortEscapes, Printable p.2 := by decide
    rcases List.mem_cons.mp hc with rfl | hc
    · decide
    · rw [List.mem_singleton.mp hc]
      exact hletters _ (mem_of_lookup hl)
  · split at hc
    · next hplain =>
      rw [List.mem_singleton.mp hc]
      exact hplain
    · split at hc
      · exact printable_hex4 _ c hc
      · rcases List.mem_append.mp hc with hc | hc <;> exact printable_hex4 _ c hc

theorem printable_quote (s : String) : ∀ c ∈ quote s, Printable c := by
  have hbody : ∀ cs : List Char, ∀ c ∈ body cs, Printable c := by
    intro cs
    induction cs with
    | nil =>
      intro c hc
      rw [List.mem_singleton.mp hc]
      decide
    | cons d cs ih =>
      intro c hc
      rcases List.mem_append.mp hc with hc | hc
      · exact printable_escape d c hc
      · exact ih c hc
  intro c hc
  rcases List.mem_cons.mp hc with rfl | hc
  · decide
  · exact hbody _ c hc

mutual

/-- Strings and numbers printed in printable ASCII make a text in printable ASCII. -/
theorem printable_render (htok : ∀ n, ∀ c ∈ tok n, Printable c) :
    ∀ x : Tree N, ∀ c ∈ render tok x, Printable c
  | .null, c, hc => by
    have hall : ∀ c ∈ ['n', 'u', 'l', 'l'], Printable c :=
      List.all_iff_forall_prop.mp (by decide)
    exact hall c hc
  | .bool true, c, hc => by
    have hall : ∀ c ∈ ['t', 'r', 'u', 'e'], Printable c :=
      List.all_iff_forall_prop.mp (by decide)
    exact hall c hc
  | .bool false, c, hc => by
    have hall : ∀ c ∈ ['f', 'a', 'l', 's', 'e'], Printable c :=
      List.all_iff_forall_prop.mp (by decide)
    exact hall c hc
  | .num n, c, hc => htok n c hc
  | .str s, c, hc => printable_quote s c hc
  | .arr xs, c, hc => by
    rcases List.mem_cons.mp hc with rfl | hc
    · decide
    · exact printable_renderItems htok true xs c hc
  | .obj kvs, c, hc => by
    rcases List.mem_cons.mp hc with rfl | hc
    · decide
    · exact printable_renderMembers htok true kvs c hc

theorem printable_renderItems (htok : ∀ n, ∀ c ∈ tok n, Printable c) (first : Bool) :
    ∀ xs : List (Tree N), ∀ c ∈ renderItems tok first xs, Printable c
  | [], c, hc => by
    rw [List.mem_singleton.mp hc]
    decide
  | x :: xs, c, hc => by
    rcases List.mem_append.mp hc with hc | hc
    · cases first with
      | true => exact absurd hc List.not_mem_nil
      | false =>
        rw [List.mem_singleton.mp hc]
        decide
    rcases List.mem_append.mp hc with hc | hc
    · exact printable_render htok x c hc
    · exact printable_renderItems htok false xs c hc

theorem printable_renderMembers (htok : ∀ n, ∀ c ∈ tok n, Printable c) (first : Bool) :
    ∀ kvs : List (String × Tree N), ∀ c ∈ renderMembers tok first kvs, Printable c
  | [], c, hc => by
    rw [List.mem_singleton.mp hc]
    decide
  | (k, v) :: kvs, c, hc => by
    rcases List.mem_append.mp hc with hc | hc
    · cases first with
      | true => exact absurd hc List.not_mem_nil
      | false =>
        rw [List.mem_singleton.mp hc]
        decide
    rcases List.mem_append.mp hc with hc | hc
    · exact printable_quote k c hc
    rcases List.mem_cons.mp hc with rfl | hc
    · decide
    rcases List.mem_append.mp hc with hc | hc
    · exact printable_render htok v c hc
    · exact printable_renderMembers htok false kvs c hc

end

/-! ## Strings as they are -/

/-- One character of a string: escaped where it has a short escape or is a control
character, else itself. -/
def plainEscape (c : Char) : List Char :=
  match shortEscapes.lookup c with
  | some l => ['\\', l]
  | none => if c.toNat < 0x20 then hex4 c.toNat else [c]

def plainBody : List Char → List Char
  | [] => ['"']
  | c :: cs => plainEscape c ++ plainBody cs

/-- A string between quotes, its characters as they are. -/
def plainQuote (s : String) : List Char := '"' :: plainBody s.toList

/-- No character beyond `~`. -/
def Plain (s : String) : Prop := ∀ c ∈ s.toList, c.toNat ≤ 0x7e

instance (s : String) : Decidable (Plain s) := List.decidableBAll _ s.toList

theorem plainEscape_eq {c : Char} (h : c.toNat ≤ 0x7e) : plainEscape c = escape c := by
  unfold plainEscape escape
  cases shortEscapes.lookup c with
  | some l => rfl
  | none =>
    dsimp only
    by_cases hctl : c.toNat < 0x20
    · rw [if_pos hctl, if_neg (by omega), if_pos (by omega)]
    · rw [if_neg hctl, if_pos ⟨by omega, h⟩]

theorem plainQuote_eq {s : String} (h : Plain s) : plainQuote s = quote s := by
  have hbody : ∀ cs : List Char, (∀ c ∈ cs, c.toNat ≤ 0x7e) → plainBody cs = body cs := by
    intro cs
    induction cs with
    | nil => intro _; rfl
    | cons c cs ih =>
      intro hcs
      rw [plainBody, body, plainEscape_eq (hcs c List.mem_cons_self),
        ih fun d hd => hcs d (List.mem_cons_of_mem _ hd)]
  exact congrArg ('"' :: ·) (hbody _ h)

/-- A character beyond `~` stands for itself. -/
theorem mem_plainQuote {s : String} {c : Char} (hc : c ∈ s.toList) (h : 0x7e < c.toNat) :
    c ∈ plainQuote s := by
  have hself : plainEscape c = [c] := by
    unfold plainEscape
    split
    · next l hl =>
      have hshort : ∀ p ∈ shortEscapes, p.1.toNat ≤ 0x7e := by decide
      have hle : c.toNat ≤ 0x7e := hshort (c, l) (mem_of_lookup hl)
      omega
    · rw [if_neg (by omega)]
  have hbody : ∀ cs : List Char, c ∈ cs → c ∈ plainBody cs := by
    intro cs
    induction cs with
    | nil => intro hcs; exact absurd hcs List.not_mem_nil
    | cons d cs ih =>
      intro hcs
      rcases List.mem_cons.mp hcs with rfl | hcs
      · refine List.mem_append_left _ ?_
        rw [hself]
        exact List.mem_singleton_self c
      · exact List.mem_append_right _ (ih hcs)
  exact List.mem_cons_of_mem _ (hbody _ hc)

/-- A text that some document is printed as shows no character beyond `~`. -/
theorem plain_of_render_eq (htok : ∀ n, ∀ c ∈ tok n, Printable c) {x y : Tree N}
    (h : renderWith plainQuote tok x = render tok y) : ∀ s ∈ x.strings, Plain s := by
  intro s hs c hc
  by_contra hbeyond
  have hmem : c ∈ renderWith plainQuote tok x :=
    mem_renderWith (mem_plainQuote hc (Nat.lt_of_not_le hbeyond)) x hs
  rw [h] at hmem
  exact hbeyond (printable_render htok y c hmem).2

/-- **The two texts agree exactly on documents without characters beyond `~`.** -/
theorem plain_iff (htok : ∀ n, ∀ c ∈ tok n, Printable c) (x : Tree N) :
    renderWith plainQuote tok x = render tok x ↔ ∀ s ∈ x.strings, Plain s := by
  constructor
  · exact plain_of_render_eq htok
  · intro h
    rw [← renderWith_quote]
    exact renderWith_congr x fun s hs => plainQuote_eq (h s hs)

end

end JsonText
