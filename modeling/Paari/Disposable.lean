import Paari.Lib.Cutting

/-!
# Which databases may be dropped

`is_disposable_database_url` cuts the text of a URL at slashes, dots and question marks and
looks for a test name in the last piece. The driver reads the URL by its parts: the name it
connects to ends at the first question mark, the file it opens is resolved against the
working directory. `Scratch` says what the driver would drop, `Decoy` what the check takes for
its name; a URL is judged as it should be exactly when it names a scratch database or has no
decoy.
-/

namespace Paari

open Cutting

/-! ## The check -/

namespace Disposable

/-- `_TEST_DB_SUFFIXES` -/
def TEST_DB_SUFFIXES : List (List Char) := ["_test".toList, "_testing".toList, "_pytest".toList]

/-- The starts of a scratch file's name. -/
def SCRATCH_PREFIXES : List (List Char) :=
  ["test".toList, ".phase".toList, "paari_test".toList, "probe".toList]

def SQLITE_PREFIX : List Char := "sqlite".toList

def memory : List Char := ":memory:".toList

/-- `s.replace("\\", "/")` -/
def slashes (s : List Char) : List Char := s.map fun c => if c = '\\' then '/' else c

/-- `url.split(":///", 1)[1] if ":///" in url else ""` -/
def sqlite_file_path : List Char → List Char
  | [] => []
  | c :: cs => if ":///".toList <+: c :: cs then cs.drop 3 else sqlite_file_path cs

/-- `name[: name.rfind(".")] if "." in name else name` -/
def stemOf (name : List Char) : List Char := if '.' ∈ name then beforeLast '.' name else name

section
variable (lower : List Char → List Char)

/-- `name.lower().endswith(_TEST_DB_SUFFIXES)` -/
def TestName (name : List Char) : Prop := ∃ suffix ∈ TEST_DB_SUFFIXES, suffix <:+ lower name

instance (name : List Char) : Decidable (TestName lower name) :=
  inferInstanceAs (Decidable (∃ suffix ∈ TEST_DB_SUFFIXES, suffix <:+ lower name))

/-- `name.lower().startswith(...)` -/
def TestStart (name : List Char) : Prop := ∃ start ∈ SCRATCH_PREFIXES, start <+: lower name

instance (name : List Char) : Decidable (TestStart lower name) :=
  inferInstanceAs (Decidable (∃ start ∈ SCRATCH_PREFIXES, start <+: lower name))

/-- A scratch-style stem. -/
def ScratchStem (stem : List Char) : Prop := TestStart lower stem ∨ TestName lower stem

instance (stem : List Char) : Decidable (ScratchStem lower stem) :=
  inferInstanceAs (Decidable (TestStart lower stem ∨ TestName lower stem))

variable (tempdir : List Char)

/-- `tempfile.gettempdir()` as the check spells it. -/
def temp_root : List Char := rstrip '/' (lower (slashes tempdir))

/-- The path starts under the temporary directory, as it is written. -/
def UnderTemp (path : List Char) : Prop :=
  temp_root lower tempdir ≠ [] ∧ temp_root lower tempdir ++ ['/'] <+: lower path

instance (path : List Char) : Decidable (UnderTemp lower tempdir path) :=
  inferInstanceAs (Decidable (_ ∧ _))

/-- `is_disposable_database_url` -/
def is_disposable_database_url (url : List Char) : Bool :=
  if SQLITE_PREFIX <+: url then
    let path := slashes (sqlite_file_path url)
    if path = [] ∨ path = memory then true
    else
      let stem := stemOf (afterLast '/' path)
      decide (ScratchStem lower stem) || decide (UnderTemp lower tempdir path)
  else
    let dbname := upTo '?' (afterLast '/' (rstrip '/' url))
    decide (TestName lower dbname)

end

/-! ## The URL as the driver reads it -/

/-- `?query`, where there is one. -/
def queryText : Option (List Char) → List Char
  | none => []
  | some q => '?' :: q

/-- `scheme://[userinfo@]host[:port]/name[?query]`: the authority, which is what stands between
the scheme and the name, ends at the first slash, and the name at the first question mark. -/
structure ServerUrl where
  scheme : List Char
  authority : List Char
  name : List Char
  query : Option (List Char)
  server : ¬SQLITE_PREFIX <+: scheme
  plain : ∀ c ∈ scheme ++ authority, c ≠ '/' ∧ c ≠ '?'
  named : '?' ∉ name

/-- `sqlite:///path[?query]` -/
structure FileUrl where
  path : List Char
  query : Option (List Char)
  named : '?' ∉ path

def ServerUrl.text (u : ServerUrl) : List Char :=
  u.scheme ++ "://".toList ++ u.authority ++ '/' :: (u.name ++ queryText u.query)

def FileUrl.text (u : FileUrl) : List Char := "sqlite:///".toList ++ u.path ++ queryText u.query

/-- The file system: what it takes for the same name, which paths start at its root, whether a
backslash separates, and the directory the process works in. -/
structure FileSystem where
  fold : List Char → List Char
  absolute : List Char → Bool
  backslash : Bool
  cwd : List (List Char)

namespace FileSystem

variable (fs : FileSystem)

def separated (path : List Char) : List Char := if fs.backslash then slashes path else path

/-- One segment of a path, walked from a directory. -/
def walkSegment (directory : List (List Char)) (segment : List Char) : List (List Char) :=
  if segment = [] ∨ segment = ['.'] then directory
  else if segment = ['.', '.'] then directory.dropLast
  else directory ++ [segment]

/-- The file of a path: its segments from the root. -/
def resolve (path : List Char) : List (List Char) :=
  ((fs.separated path).splitOn '/').foldl walkSegment
    (if fs.absolute (fs.separated path) then [] else fs.cwd)

/-- The file lies in the directory. -/
def Inside (directory file : List (List Char)) : Prop :=
  directory.map fs.fold <+: file.map fs.fold ∧ directory.length < file.length

instance (directory file : List (List Char)) : Decidable (fs.Inside directory file) :=
  inferInstanceAs (Decidable (_ ∧ _))

end FileSystem

section
variable (lower : List Char → List Char)

/-- The database the driver connects to is named as a test database. -/
def ServerUrl.Scratch (u : ServerUrl) : Prop := TestName lower u.name

instance (u : ServerUrl) : Decidable (u.Scratch lower) :=
  inferInstanceAs (Decidable (TestName lower u.name))

/-- What the check may take for the name of the database: what follows the last slash of the
query, up to a question mark; or, without a query, what the name is without slashes at its
end, and the authority where nothing is left of it. -/
def ServerUrl.Decoy (u : ServerUrl) : Prop :=
  match u.query with
  | some q => '/' ∈ rstrip '/' q ∧ TestName lower (upTo '?' (afterLast '/' (rstrip '/' q)))
  | none =>
    if rstrip '/' u.name = [] then
      TestName lower (if u.authority = [] then u.scheme ++ [':'] else u.authority)
    else TestName lower (rstrip '/' u.name)

variable (fs : FileSystem) (tempdir : List Char)

/-- The file is in memory, or the resolved file is named as a scratch file, or lies in the
temporary directory. -/
def FileUrl.Scratch (u : FileUrl) : Prop :=
  u.path = [] ∨ u.path = memory ∨
    (∃ name ∈ (fs.resolve u.path).getLast?, ScratchStem lower (stemOf name)) ∨
    fs.Inside (fs.resolve tempdir) (fs.resolve u.path)

instance (u : FileUrl) : Decidable (u.Scratch lower fs tempdir) :=
  inferInstanceAs (Decidable (u.path = [] ∨ u.path = memory ∨
    (∃ name ∈ (fs.resolve u.path).getLast?, ScratchStem lower (stemOf name)) ∨
    fs.Inside (fs.resolve tempdir) (fs.resolve u.path)))

/-- What the check may take for the stem of the file: with a query, what follows its last
slash, or the name of the file together with the query up to its last dot. -/
def FileUrl.StemDecoy (u : FileUrl) : Prop :=
  match u.query with
  | none => ScratchStem lower (stemOf (afterLast '/' (slashes u.path)))
  | some q =>
    if '/' ∈ slashes q then ScratchStem lower (stemOf (afterLast '/' (slashes q)))
    else if '.' ∈ q then
      TestStart lower (afterLast '/' (slashes u.path)) ∨ TestName lower (beforeLast '.' q)
    else if '.' ∈ afterLast '/' (slashes u.path) then
      ScratchStem lower (stemOf (afterLast '/' (slashes u.path)))
    else TestStart lower (afterLast '/' (slashes u.path)) ∨ TestName lower q

/-- That, or a path that starts under the temporary directory as it is written, in letters of
either case and before its `..` are resolved. -/
def FileUrl.Decoy (u : FileUrl) : Prop :=
  u.StemDecoy lower ∨ UnderTemp lower tempdir (slashes (u.path ++ queryText u.query))

end

/-! ## What the check says of each -/

/-- What is relied on about `str.lower`: neither separator is part of a letter, nor between two
letters of a word. -/
structure Lowers (lower : List Char → List Char) : Prop where
  cut : ∀ c ∈ ['/', '?'], ∀ a b, lower (a ++ c :: b) = lower a ++ c :: lower b

section
variable {lower : List Char → List Char} (hlower : Lowers lower)
include hlower

theorem testName_append_cons {c : Char} (hc : c ∈ ['/', '?']) (a b : List Char) :
    TestName lower (a ++ c :: b) ↔ TestName lower b := by
  have hnot : ∀ suffix ∈ TEST_DB_SUFFIXES, c ∉ suffix := by
    rcases List.mem_pair.mp hc with hc | hc
    · rw [hc]
      decide
    · rw [hc]
      decide
  unfold TestName
  rw [hlower.cut c hc]
  refine exists_congr fun suffix => and_congr_right fun hmem => ?_
  exact suffix_append_cons (hnot suffix hmem)

theorem testStart_append_cons (a b : List Char) :
    TestStart lower (a ++ '?' :: b) ↔ TestStart lower a := by
  have hnot : ∀ start ∈ SCRATCH_PREFIXES, '?' ∉ start := by decide
  unfold TestStart
  rw [hlower.cut '?' (by decide)]
  refine exists_congr fun start => and_congr_right fun hmem => ?_
  exact prefix_append_cons (hnot start hmem)

/-- Only what follows the last slash of a name matters. -/
theorem testName_afterLast (name : List Char) :
    TestName lower (afterLast '/' name) ↔ TestName lower name := by
  by_cases hslash : '/' ∈ name
  · obtain ⟨a, b, rfl, hb⟩ := exists_last hslash
    rw [afterLast_append_cons, afterLast_eq_self hb]
    exact (testName_append_cons hlower (by decide) a b).symm
  · rw [afterLast_eq_self hslash]

end

namespace ServerUrl

variable {lower : List Char → List Char} (u : ServerUrl)

theorem not_sqlite : ¬SQLITE_PREFIX <+: u.text := by
  intro h
  have htext : u.text = u.scheme ++ ':' :: ('/' :: '/' :: (u.authority ++ '/' :: (u.name ++
      queryText u.query))) := by
    simp [text]
  rw [htext] at h
  exact u.server ((prefix_append_cons (by decide)).mp h)

/-- The text in front of the name, without the slashes at its end, after its last slash. -/
theorem last_of_authority :
    afterLast '/' (rstrip '/' (u.scheme ++ "://".toList ++ u.authority)) =
      if u.authority = [] then u.scheme ++ [':'] else u.authority := by
  have hscheme : '/' ∉ u.scheme := fun h => (u.plain '/' (List.mem_append_left _ h)).1 rfl
  have hauthority : '/' ∉ u.authority := fun h => (u.plain '/' (List.mem_append_right _ h)).1 rfl
  by_cases hnone : u.authority = []
  · rw [if_pos hnone, hnone, List.append_nil]
    have hrest : rstrip '/' "://".toList = [':'] := by decide
    rw [rstrip_append (by rw [hrest]; exact List.cons_ne_nil _ _), hrest]
    refine afterLast_eq_self ?_
    simp [hscheme]
  · have hself := rstrip_eq_self hauthority
    rw [if_neg hnone, rstrip_append (by rw [hself]; exact hnone), hself]
    have happ : u.scheme ++ "://".toList ++ u.authority =
        (u.scheme ++ [':', '/']) ++ '/' :: u.authority := by
      simp
    rw [happ, afterLast_append_cons, afterLast_eq_self hauthority]

/-- **What the check says of a server.** -/
theorem disposable_iff (hlower : Lowers lower) (tempdir : List Char) :
    is_disposable_database_url lower tempdir u.text = true ↔
      u.Decoy lower ∨ (∃ q, u.query = some q ∧ '/' ∉ rstrip '/' q) ∧ u.Scratch lower := by
  unfold is_disposable_database_url
  rw [if_neg u.not_sqlite]
  dsimp only
  rw [decide_eq_true_iff]
  unfold text Decoy Scratch
  cases hquery : u.query with
  | none =>
    have hback : (∃ q, none = some q ∧ '/' ∉ rstrip '/' q) ∧ TestName lower u.name ↔ False := by
      simp
    rw [hback, or_false]
    simp only [queryText, List.append_nil]
    by_cases hname : rstrip '/' u.name = []
    · have hcons : rstrip '/' ('/' :: u.name) = [] := by
        have h := rstrip_append_nil (a := ['/']) hname
        rw [List.singleton_append] at h
        rw [h]
        decide
      rw [if_pos hname, rstrip_append_nil hcons, last_of_authority, upTo_eq_self]
      have hplain : ∀ c ∈ u.scheme ++ u.authority, c ≠ '?' := fun c hc => (u.plain c hc).2
      split
      · intro h
        rcases List.mem_append.mp h with h | h
        · exact hplain _ (List.mem_append_left _ h) rfl
        · exact absurd h (by decide)
      · exact fun h => hplain _ (List.mem_append_right _ h) rfl
    · have hcons : rstrip '/' ('/' :: u.name) = '/' :: rstrip '/' u.name := by
        have h := rstrip_append (a := ['/']) hname
        rwa [List.singleton_append, List.singleton_append] at h
      rw [if_neg hname, rstrip_append (by rw [hcons]; exact List.cons_ne_nil _ _), hcons,
        afterLast_append_cons, upTo_eq_self, testName_afterLast hlower]
      intro h
      exact u.named (mem_of_mem_rstrip (List.IsSuffix.subset (List.rtakeWhile_suffix _ _) h))
  | some q =>
    have htail : rstrip '/' ('?' :: q) = '?' :: rstrip '/' q := rstrip_cons_ne_nil (by decide) q
    have hne : rstrip '/' ('?' :: q) ≠ [] := by
      rw [htail]
      exact List.cons_ne_nil _ _
    have happ : u.scheme ++ "://".toList ++ u.authority ++ '/' :: (u.name ++ queryText (some q)) =
        (u.scheme ++ "://".toList ++ u.authority ++ '/' :: u.name) ++ '?' :: q := by
      simp [queryText]
    rw [happ, rstrip_append hne, htail]
    by_cases hslash : '/' ∈ rstrip '/' q
    · obtain ⟨a, b, hq, hb⟩ := exists_last hslash
      have hlast : ∀ front : List Char,
          afterLast '/' (front ++ '?' :: rstrip '/' q) = afterLast '/' (rstrip '/' q) := by
        intro front
        rw [hq, ← List.cons_append, ← List.append_assoc, afterLast_append_cons,
          afterLast_append_cons]
      rw [hlast]
      constructor
      · exact fun h => .inl ⟨hslash, h⟩
      · intro h
        rcases h with h | ⟨⟨q', hq', hno⟩, -⟩
        · exact h.2
        · obtain rfl := Option.some.inj hq'
          exact absurd hslash hno
    · rw [afterLast_append (by simpa using hslash), afterLast_append_cons,
        upTo_append_cons, testName_afterLast hlower]
      · constructor
        · exact fun h => .inr ⟨⟨q, rfl, hslash⟩, h⟩
        · intro h
          rcases h with h | h
          · exact absurd h.1 hslash
          · exact h.2
      · exact fun h => u.named (List.IsSuffix.subset (List.rtakeWhile_suffix _ _) h)

end ServerUrl

/-! ### Files -/

theorem slashes_append (a b : List Char) : slashes (a ++ b) = slashes a ++ slashes b :=
  List.map_append

theorem slashes_query (q : List Char) : slashes ('?' :: q) = '?' :: slashes q := rfl

/-- Without slashes of either kind there is nothing to replace. -/
theorem slashes_eq_self {s : List Char} (h : '/' ∉ slashes s) : slashes s = s := by
  induction s with
  | nil => rfl
  | cons c cs ih =>
    have hcons : slashes (c :: cs) = (if c = '\\' then '/' else c) :: slashes cs := rfl
    rw [hcons, List.mem_cons, not_or] at h
    rw [hcons, ih h.2]
    by_cases hc : c = '\\'
    · exact absurd (if_pos hc).symm h.1
    · rw [if_neg hc]

theorem slashes_eq_memory {s : List Char} : slashes s = memory ↔ s = memory := by
  constructor
  · intro h
    rw [slashes_eq_self (by rw [h]; decide)] at h
    exact h
  · intro h
    rw [h]
    decide

theorem sqlite_file_path_text (rest : List Char) :
    sqlite_file_path ("sqlite:///".toList ++ rest) = rest := by
  simp [sqlite_file_path]

namespace FileUrl

variable {lower : List Char → List Char} (u : FileUrl)

/-- The stem that the check reads. -/
theorem stem_iff (hlower : Lowers lower) :
    ScratchStem lower (stemOf (afterLast '/' (slashes (u.path ++ queryText u.query)))) ↔
      u.StemDecoy lower := by
  unfold StemDecoy
  cases u.query with
  | none => rw [queryText, List.append_nil]
  | some q =>
    rw [queryText, slashes_append, slashes_query]
    dsimp only
    by_cases hslash : '/' ∈ slashes q
    · obtain ⟨a, b, hq, -⟩ := exists_last hslash
      rw [if_pos hslash, hq, ← List.cons_append, ← List.append_assoc, afterLast_append_cons,
        afterLast_append_cons]
    · rw [if_neg hslash, slashes_eq_self hslash,
        afterLast_append (by simpa [slashes_eq_self hslash] using hslash)]
      generalize afterLast '/' (slashes u.path) = name
      have hstem : ∀ rest, ScratchStem lower (name ++ '?' :: rest) ↔
          TestStart lower name ∨ TestName lower rest := by
        intro rest
        exact or_congr (testStart_append_cons hlower name rest)
          (testName_append_cons hlower (by decide) name rest)
      unfold stemOf
      by_cases hdot : '.' ∈ q
      · -- the stem ends inside the query
        obtain ⟨a, b, rfl, hb⟩ := exists_last hdot
        have happ : name ++ '?' :: (a ++ '.' :: b) = (name ++ '?' :: a) ++ '.' :: b := by simp
        rw [if_pos hdot, if_pos (by simp), happ, beforeLast_append_cons hb, beforeLast_append_cons hb]
        exact hstem a
      · by_cases hname : '.' ∈ name
        · obtain ⟨a, b, rfl, hb⟩ := exists_last hname
          have happ : (a ++ '.' :: b) ++ '?' :: q = a ++ '.' :: (b ++ '?' :: q) := by simp
          have hrest : '.' ∉ b ++ '?' :: q := by simp [hb, hdot]
          rw [if_neg hdot, if_pos hname, if_pos hname, if_pos (by simp), happ,
            beforeLast_append_cons hrest, beforeLast_append_cons hb]
        · rw [if_neg hdot, if_neg hname, if_neg (by simp [hname, hdot])]
          exact hstem q

/-- **What the check says of a file.** -/
theorem disposable_iff (hlower : Lowers lower) (tempdir : List Char) :
    is_disposable_database_url lower tempdir u.text = true ↔
      u.query = none ∧ (u.path = [] ∨ u.path = memory) ∨ u.Decoy lower tempdir := by
  have htext : sqlite_file_path u.text = u.path ++ queryText u.query := by
    unfold text
    rw [List.append_assoc, sqlite_file_path_text]
  have hsqlite : SQLITE_PREFIX <+: u.text := by
    unfold text SQLITE_PREFIX
    simp
  have hempty : (slashes (u.path ++ queryText u.query) = [] ∨
      slashes (u.path ++ queryText u.query) = memory) ↔
      u.query = none ∧ (u.path = [] ∨ u.path = memory) := by
    rw [slashes_eq_memory]
    cases u.query with
    | none => simp [queryText, slashes]
    | some q =>
      constructor
      · intro h
        rcases h with h | h
        · simp [queryText, slashes] at h
        · -- there is no question mark in `:memory:`
          have hmem : '?' ∈ memory := h ▸ List.mem_append_right _ List.mem_cons_self
          exact absurd hmem (by decide)
      · exact fun h => absurd h.1 nofun
  unfold is_disposable_database_url Decoy
  rw [if_pos hsqlite, htext, ← u.stem_iff hlower, ← hempty]
  dsimp only
  by_cases hmemory : slashes (u.path ++ queryText u.query) = [] ∨
      slashes (u.path ++ queryText u.query) = memory
  · rw [if_pos hmemory]
    exact ⟨fun _ => .inl hmemory, fun _ => rfl⟩
  · rw [if_neg hmemory, Bool.or_eq_true, decide_eq_true_iff, decide_eq_true_iff]
    constructor
    · exact .inr
    · exact fun h => h.resolve_left hmemory

end FileUrl

/-- **A URL is judged as it should be exactly when it names a scratch database, or nothing in
it is taken for one.** -/
theorem only_scratch_disposable_iff {lower : List Char → List Char} (hlower : Lowers lower)
    (fs : FileSystem) (tempdir : List Char) :
    (∀ u : ServerUrl,
      (is_disposable_database_url lower tempdir u.text = true → u.Scratch lower) ↔
        u.Scratch lower ∨ ¬u.Decoy lower) ∧
    ∀ u : FileUrl,
      (is_disposable_database_url lower tempdir u.text = true → u.Scratch lower fs tempdir) ↔
        u.Scratch lower fs tempdir ∨ ¬u.Decoy lower tempdir := by
  constructor
  · intro u
    rw [u.disposable_iff hlower tempdir]
    constructor
    · intro h
      by_cases hdecoy : u.Decoy lower
      · exact .inl (h (.inl hdecoy))
      · exact .inr hdecoy
    · intro h hjudged
      rcases hjudged with hdecoy | hname
      · exact h.resolve_right fun hno => hno hdecoy
      · exact hname.2
  · intro u
    rw [u.disposable_iff hlower tempdir]
    constructor
    · intro h
      by_cases hdecoy : u.Decoy lower tempdir
      · exact .inl (h (.inr hdecoy))
      · exact .inr hdecoy
    · intro h hjudged
      rcases hjudged with hmemory | hdecoy
      · rcases hmemory.2 with hpath | hpath
        · exact .inl hpath
        · exact .inr (.inl hpath)
      · exact h.resolve_right fun hno => hno hdecoy

namespace Sample

/-- `str.lower` on ASCII. -/
def asciiLower (s : List Char) : List Char := s.map Char.toLower

theorem ascii_lowers : Lowers asciiLower where
  cut := by
    intro c hc a b
    rcases List.mem_pair.mp hc with rfl | rfl
    · simp [asciiLower]
    · simp [asciiLower]

/-- A live database, reached with a certificate from a directory of the tests. -/
def liveUrl : ServerUrl where
  scheme := "postgresql".toList
  authority := "db".toList
  name := "prod".toList
  query := some "sslrootcert=/ca_test".toList
  server := by simp [SQLITE_PREFIX]
  plain := by simp
  named := by simp

def testUrl : ServerUrl :=
  { liveUrl with name := "Paari_Test".toList, named := by simp }

def posix : FileSystem := ⟨id, fun path => path.head? == some '/', false, ["srv".toList]⟩

/-- A live file, reached from the temporary directory. -/
def liveFile : FileUrl where
  path := "/tmp/../srv/paari.db".toList
  query := none
  named := by simp

end Sample

/-- The same certificate, with a database of the tests. -/
theorem only_scratch_disposable_test :
    (is_disposable_database_url Sample.asciiLower "/tmp".toList Sample.testUrl.text = true →
      Sample.testUrl.Scratch Sample.asciiLower) ∧
    is_disposable_database_url Sample.asciiLower "/tmp".toList Sample.testUrl.text = true :=
  ⟨((only_scratch_disposable_iff Sample.ascii_lowers Sample.posix "/tmp".toList).1 _).mpr
    (.inl (by decide)), by decide⟩

/-- Two live databases that may be dropped. -/
theorem live_database_disposable :
    (is_disposable_database_url Sample.asciiLower "/tmp".toList Sample.liveUrl.text = true ∧
      ¬Sample.liveUrl.Scratch Sample.asciiLower) ∧
    is_disposable_database_url Sample.asciiLower "/tmp".toList Sample.liveFile.text = true ∧
      ¬Sample.liveFile.Scratch Sample.asciiLower Sample.posix "/tmp".toList := by
  decide

end Disposable

end Paari
