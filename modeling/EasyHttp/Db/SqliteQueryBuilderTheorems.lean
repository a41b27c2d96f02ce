import EasyHttp.Db.SqliteQueryBuilder
import EasyHttp.Library.QuotedText

/-!
# What a reader of `SqliteQueryBuilder`'s statements sees

SQLite reads a literal from `'` to the next `'` that is not doubled. The builder puts every
value between two `'` as it stands, so a value is read back only while it holds no `'`.

* `insertTemplate`, `updateTemplate`: the statement each builder means, with its values as
  single units;
* `buildInsertString_eq`, `buildUpdateString_eq`: the builders splice these templates;
* `literals_readBack_iff`: the statements are read as meant exactly when no value holds a
  quote and no name holds a quote or a semicolon.
-/

namespace EasyHttp.Db

open QuotedText

/-- The entries of a list of keys. -/
def ContentValues.entries (values : ContentValues) :
    List String → Except SqlException (List (String × String))
  | [] => .ok []
  | key :: keys => do
    let value ← values.getStringValue key
    let rest ← values.entries keys
    return (key, value) :: rest

/-- The entries of a `ContentValues`, in the order of its keys. -/
def ContentValues.pairs (values : ContentValues) : Except SqlException (List (String × String)) :=
  values.entries values.getKeys

namespace SqliteQueryBuilder

/-! ## The statements meant -/

/-- The column list. -/
def namesText : ℕ → List (String × String) → List Char
  | _, [] => []
  | i, (key, _) :: pairs => (separator i).toList ++ key.toList ++ namesText (i + 1) pairs

/-- The value list. -/
def valuePieces : ℕ → List (String × String) → List (Piece Char)
  | _, [] => []
  | i, (_, value) :: pairs =>
    .plain (separator i).toList :: .value value.toList :: valuePieces (i + 1) pairs

/-- The assignments of an `UPDATE`. -/
def assignPieces : ℕ → List (String × String) → List (Piece Char)
  | _, [] => []
  | i, (key, value) :: pairs =>
    .plain ((separator i).toList ++ key.toList ++ ['=']) :: .value value.toList ::
      assignPieces (i + 1) pairs

/-- The text in front of the columns. -/
def insertHead (table : String) (conflictAlgorithm : SqliteConflictAlgorithm) : String :=
  "INSERT " ++ conflictAlgorithm.string ++ "INTO " ++ table

/-- An insert with its values as pieces of their own. -/
def insertTemplate (table : String) (pairs : List (String × String))
    (conflictAlgorithm : SqliteConflictAlgorithm) : List (Piece Char) :=
  match pairs with
  | [] => [.plain ((insertHead table conflictAlgorithm).toList ++ " () VALUES (NULL)".toList)]
  | _ :: _ =>
    .plain ((insertHead table conflictAlgorithm).toList ++ " (".toList ++ namesText 0 pairs
      ++ ") VALUES (".toList) :: (valuePieces 0 pairs ++ [.plain [')']])

/-- The text in front of the assignments. -/
def updateHead (table : String) (conflictAlgorithm : SqliteConflictAlgorithm) : String :=
  "UPDATE " ++ conflictAlgorithm.string ++ table ++ " SET "

/-- An update with its values as pieces of their own. -/
def updateTemplate (table : String) (pairs : List (String × String))
    (conflictAlgorithm : SqliteConflictAlgorithm) : List (Piece Char) :=
  .plain (updateHead table conflictAlgorithm).toList :: assignPieces 0 pairs

/-- `sql` is read as the template `t`, with no semicolon outside its literals, followed by
`rest` read on its own. -/
def ReadAs (sql : String) (t : List (Piece Char)) (rest : List Char) : Prop :=
  scan '\'' none sql.toList = items t ++ scan '\'' none rest ∧ Item.text ';' ∉ items t

/-- Whatever entries `values` presents, `buildInsertString` writes one `INSERT` whose
literals are read back as those values. -/
def InsertReadsBack (table : String) (values : ContentValues)
    (conflictAlgorithm : SqliteConflictAlgorithm) : Prop :=
  ∀ pairs, values.pairs = .ok pairs → ∃ sql,
    buildInsertString table values conflictAlgorithm = .ok sql ∧
      ReadAs sql (insertTemplate table pairs conflictAlgorithm) []

/-- Whatever entries `values` presents, `buildUpdateString` writes one `UPDATE` whose
assigned literals are read back as those values, before the caller's own `WHERE` clause. -/
def UpdateReadsBack (table : String) (values : ContentValues) (whereClause : Option String)
    (conflictAlgorithm : SqliteConflictAlgorithm) : Prop :=
  ∀ pairs, values.pairs = .ok pairs → pairs ≠ [] → ∃ sql,
    buildUpdateString table values whereClause conflictAlgorithm = .ok sql ∧
      ReadAs sql (updateTemplate table pairs conflictAlgorithm) (whereString whereClause).toList

/-- A name that stays plain text of one statement. -/
def PlainName (name : String) : Prop := '\'' ∉ name.toList ∧ ';' ∉ name.toList

/-- The condition on the inputs: plain names, and no quote in any value. -/
def SafeToSplice (table : String) (pairs : List (String × String)) : Prop :=
  PlainName table ∧ ∀ p ∈ pairs, PlainName p.1 ∧ '\'' ∉ p.2.toList

/-! ## The builders splice their templates -/

/-- The entries of keys that all have a value. -/
theorem entries_of_forall {values : ContentValues} {f : String → String} {keys : List String}
    (h : ∀ key ∈ keys, values.getStringValue key = .ok (f key)) :
    values.entries keys = .ok (keys.map fun key => (key, f key)) := by
  induction keys with
  | nil => rfl
  | cons key keys ih =>
    rw [ContentValues.entries, h key List.mem_cons_self,
      ih fun k hk => h k (List.mem_cons_of_mem key hk)]
    rfl

/-- Reading the entries of a list of keys one by one. -/
theorem entries_cons {values : ContentValues} {key : String} {keys : List String}
    {pairs : List (String × String)} (h : values.entries (key :: keys) = .ok pairs) :
    ∃ value rest, values.getStringValue key = .ok value ∧ values.entries keys = .ok rest ∧
      pairs = (key, value) :: rest := by
  rw [ContentValues.entries] at h
  cases hv : values.getStringValue key with
  | error e =>
    rw [hv] at h
    cases h
  | ok value =>
    cases hr : values.entries keys with
    | error e =>
      rw [hv, hr] at h
      cases h
    | ok rest =>
      rw [hv, hr] at h
      cases h
      exact ⟨value, rest, rfl, rfl, rfl⟩

/-- There is one entry for each key. -/
theorem entries_eq_nil {values : ContentValues} {keys : List String}
    {pairs : List (String × String)} (h : values.entries keys = .ok pairs) :
    keys = [] ↔ pairs = [] := by
  cases keys with
  | nil =>
    cases h
    simp
  | cons key keys =>
    obtain ⟨value, rest, -, -, rfl⟩ := entries_cons h
    simp

/-- The loop writes the names and the values of all keys. -/
theorem insertLoop_eq {values : ContentValues} {keys : List String}
    {pairs : List (String × String)} (h : values.entries keys = .ok pairs) (i : ℕ)
    (names vals : String) :
    ∃ names' vals', insertLoop values i keys names vals = .ok (names', vals') ∧
      names'.toList = names.toList ++ namesText i pairs ∧
      vals'.toList = vals.toList ++ splice '\'' (valuePieces i pairs) := by
  induction keys generalizing pairs i names vals with
  | nil =>
    cases h
    exact ⟨names, vals, rfl, by simp [namesText], by simp [valuePieces]⟩
  | cons key keys ih =>
    obtain ⟨value, rest, hv, hrest, rfl⟩ := entries_cons h
    obtain ⟨names', vals', hloop, hnames, hvals⟩ := ih hrest (i + 1) (names ++ separator i ++ key)
      (vals ++ separator i ++ "'" ++ value ++ "'")
    refine ⟨names', vals', ?_, ?_, ?_⟩
    · rw [insertLoop, hv]
      exact hloop
    · simp [hnames, namesText]
    · simp [hvals, valuePieces, Piece.splice]

/-- The loop writes an assignment for each key. -/
theorem updateLoop_eq {values : ContentValues} {keys : List String}
    {pairs : List (String × String)} (h : values.entries keys = .ok pairs) (i : ℕ)
    (sql : String) :
    ∃ sql', updateLoop values i keys sql = .ok sql' ∧
      sql'.toList = sql.toList ++ splice '\'' (assignPieces i pairs) := by
  induction keys generalizing pairs i sql with
  | nil =>
    cases h
    exact ⟨sql, rfl, by simp [assignPieces]⟩
  | cons key keys ih =>
    obtain ⟨value, rest, hv, hrest, rfl⟩ := entries_cons h
    obtain ⟨sql', hloop, hsql⟩ :=
      ih hrest (i + 1) (sql ++ separator i ++ key ++ "='" ++ value ++ "'")
    refine ⟨sql', ?_, ?_⟩
    · rw [updateLoop, hv]
      exact hloop
    · simp [hsql, assignPieces, Piece.splice]

/-- The two branches, put together from the pieces named above. -/
theorem buildInsertString_branches (values : ContentValues) (table : String)
    (alg : SqliteConflictAlgorithm) :
    buildInsertString table values alg =
      (if values.getKeys.length > 0 then do
        let (names, vals) ← insertLoop values 0 values.getKeys "" ""
        return insertHead table alg ++ " (" ++ names ++ ") " ++ "VALUES " ++ "(" ++ vals ++ ")"
      else return insertHead table alg ++ " () VALUES (NULL)") := rfl

/-- An insert is its template with the values spliced in. -/
theorem buildInsertString_eq {values : ContentValues} {pairs : List (String × String)}
    (h : values.pairs = .ok pairs) (table : String) (alg : SqliteConflictAlgorithm) :
    ∃ sql, buildInsertString table values alg = .ok sql ∧
      sql.toList = splice '\'' (insertTemplate table pairs alg) := by
  rw [buildInsertString_branches]
  cases pairs with
  | nil =>
    have hk : values.getKeys = [] := (entries_eq_nil h).mpr rfl
    rw [hk]
    refine ⟨insertHead table alg ++ " () VALUES (NULL)", rfl, ?_⟩
    simp only [insertTemplate, splice_cons, splice_nil, Piece.splice, String.toList_append,
      List.append_nil]
  | cons p pairs =>
    have hk : values.getKeys ≠ [] := fun hk => by simpa using (entries_eq_nil h).mp hk
    obtain ⟨names, vals, hloop, hnames, hvals⟩ := insertLoop_eq h 0 "" ""
    rw [if_pos (List.length_pos_iff.mpr hk), hloop]
    refine ⟨insertHead table alg ++ " (" ++ names ++ ") " ++ "VALUES " ++ "(" ++ vals ++ ")",
      rfl, ?_⟩
    simp only [insertTemplate, splice_cons, splice_append, splice_nil, Piece.splice,
      String.toList_append, hnames, hvals, String.toList_empty, List.nil_append,
      List.append_assoc, List.append_nil]
    rfl

/-- An update is its template with the values spliced in. -/
theorem buildUpdateString_eq {values : ContentValues} {pairs : List (String × String)}
    (h : values.pairs = .ok pairs) (hne : pairs ≠ []) (table : String)
    (whereClause : Option String) (alg : SqliteConflictAlgorithm) :
    ∃ sql, buildUpdateString table values whereClause alg = .ok sql ∧
      sql.toList = splice '\'' (updateTemplate table pairs alg)
        ++ (whereString whereClause).toList := by
  have hk : values.getKeys ≠ [] := fun hk => hne ((entries_eq_nil h).mp hk)
  have hlen : ¬ values.getKeys.length ≤ 0 := by simpa using hk
  obtain ⟨sql, hloop, hsql⟩ := updateLoop_eq h 0 (updateHead table alg)
  have hbuild : buildUpdateString table values whereClause alg = (do
      let sql ← updateLoop values 0 values.getKeys (updateHead table alg)
      return sql ++ whereString whereClause) := by
    unfold buildUpdateString
    rw [if_neg hlen]
    rfl
  refine ⟨sql ++ whereString whereClause, ?_, ?_⟩
  · rw [hbuild, hloop]
    rfl
  · rw [String.toList_append, hsql]
    rfl

/-! ## Where quotes and semicolons can come from -/

theorem spaced_valuePieces (i : ℕ) (pairs : List (String × String)) :
    Spaced false (valuePieces i pairs ++ [.plain [')']]) := by
  induction pairs generalizing i with
  | nil => simp [valuePieces, Spaced]
  | cons p pairs ih =>
    cases pairs with
    | nil => simp [valuePieces, Spaced]
    | cons p' pairs => simpa [valuePieces, Spaced, separator] using ih (i + 1)

theorem spaced_assignPieces (i : ℕ) (pairs : List (String × String)) :
    Spaced true (assignPieces i pairs) := by
  induction pairs generalizing i with
  | nil => simp [assignPieces, Spaced]
  | cons p pairs ih =>
    cases pairs with
    | nil => simp [assignPieces, Spaced]
    | cons p' pairs => simpa [assignPieces, Spaced, separator] using ih (i + 1)

/-- The `WHERE` part does not begin with a quote, so it cannot prolong a literal. -/
theorem head_whereString (whereClause : Option String) :
    (whereString whereClause).toList.head? ≠ some '\'' := by
  cases whereClause with
  | none => simp [whereString]
  | some w =>
    simp only [whereString]
    split
    · simp
    · rw [String.toList_append]
      simp

/-- A quote, a semicolon or a NUL: none of them comes from the builder's own text. -/
def IsForeign (c : Char) : Prop := c = '\'' ∨ c = ';' ∨ c = '\x00'

theorem separator_plain (i : ℕ) {c : Char} (hc : IsForeign c) : c ∉ (separator i).toList := by
  cases i <;> rcases hc with rfl | rfl | rfl <;> simp [separator]

theorem string_plain (alg : SqliteConflictAlgorithm) {c : Char} (hc : IsForeign c) :
    c ∉ alg.string.toList := by
  cases alg <;> rcases hc with rfl | rfl | rfl <;> decide

section
variable {c : Char} (hc : IsForeign c)
include hc

theorem notMem_namesText (i : ℕ) (pairs : List (String × String)) :
    c ∉ namesText i pairs ↔ ∀ p ∈ pairs, c ∉ p.1.toList := by
  induction pairs generalizing i with
  | nil => simp [namesText]
  | cons p pairs ih => simp [namesText, separator_plain i hc, ih]

theorem notInText_valuePieces (i : ℕ) (pairs : List (String × String)) :
    NotInText c (valuePieces i pairs) := by
  induction pairs generalizing i with
  | nil => trivial
  | cons p pairs ih => exact ⟨separator_plain i hc, ih (i + 1)⟩

theorem notInText_assignPieces (i : ℕ) (pairs : List (String × String)) :
    NotInText c (assignPieces i pairs) ↔ ∀ p ∈ pairs, c ∉ p.1.toList := by
  have heq : c ≠ '=' := by rcases hc with rfl | rfl | rfl <;> decide
  induction pairs generalizing i with
  | nil => simp [assignPieces, NotInText]
  | cons p pairs ih => simp [assignPieces, NotInText, separator_plain i hc, heq, ih]

theorem notMem_insertHead (table : String) (alg : SqliteConflictAlgorithm) :
    c ∉ (insertHead table alg).toList ↔ c ∉ table.toList := by
  have hi : c ∉ "INSERT ".toList := by rcases hc with rfl | rfl | rfl <;> decide
  have ho : c ∉ "INTO ".toList := by rcases hc with rfl | rfl | rfl <;> decide
  simp only [insertHead, String.toList_append, List.mem_append, hi, string_plain alg hc, ho,
    false_or]

theorem notMem_updateHead (table : String) (alg : SqliteConflictAlgorithm) :
    c ∉ (updateHead table alg).toList ↔ c ∉ table.toList := by
  have hu : c ∉ "UPDATE ".toList := by rcases hc with rfl | rfl | rfl <;> decide
  have hs : c ∉ " SET ".toList := by rcases hc with rfl | rfl | rfl <;> decide
  simp only [updateHead, String.toList_append, List.mem_append, hu, string_plain alg hc, hs,
    false_or, or_false]

theorem notInText_insertTemplate (table : String) (pairs : List (String × String))
    (alg : SqliteConflictAlgorithm) :
    NotInText c (insertTemplate table pairs alg) ↔
      c ∉ table.toList ∧ ∀ p ∈ pairs, c ∉ p.1.toList := by
  have hn : c ∉ " () VALUES (NULL)".toList := by rcases hc with rfl | rfl | rfl <;> decide
  have hp : c ∉ " (".toList := by rcases hc with rfl | rfl | rfl <;> decide
  have hv : c ∉ ") VALUES (".toList := by rcases hc with rfl | rfl | rfl <;> decide
  have he : c ∉ [')'] := by rcases hc with rfl | rfl | rfl <;> decide
  cases pairs with
  | nil =>
    simp only [insertTemplate, NotInText, List.mem_append, hn, or_false,
      notMem_insertHead hc, and_true]
    simp
  | cons p pairs =>
    simp only [insertTemplate, NotInText, notInText_append, List.mem_append, hp, hv, he,
      or_false, not_or, notMem_insertHead hc, notMem_namesText hc, notInText_valuePieces hc,
      not_false_eq_true, and_true]

theorem notInText_updateTemplate (table : String) (pairs : List (String × String))
    (alg : SqliteConflictAlgorithm) :
    NotInText c (updateTemplate table pairs alg) ↔
      c ∉ table.toList ∧ ∀ p ∈ pairs, c ∉ p.1.toList := by
  rw [updateTemplate, NotInText, notMem_updateHead hc, notInText_assignPieces hc]

end

section
variable {c : Char}

theorem notInValues_valuePieces (i : ℕ) (pairs : List (String × String)) :
    NotInValues c (valuePieces i pairs) ↔ ∀ p ∈ pairs, c ∉ p.2.toList := by
  induction pairs generalizing i with
  | nil => simp [valuePieces, NotInValues]
  | cons p pairs ih => simp [valuePieces, NotInValues, ih]

theorem notInValues_assignPieces (i : ℕ) (pairs : List (String × String)) :
    NotInValues c (assignPieces i pairs) ↔ ∀ p ∈ pairs, c ∉ p.2.toList := by
  induction pairs generalizing i with
  | nil => simp [assignPieces, NotInValues]
  | cons p pairs ih => simp [assignPieces, NotInValues, ih]

theorem notInValues_insertTemplate (table : String) (pairs : List (String × String))
    (alg : SqliteConflictAlgorithm) :
    NotInValues c (insertTemplate table pairs alg) ↔ ∀ p ∈ pairs, c ∉ p.2.toList := by
  cases pairs with
  | nil => simp [insertTemplate, NotInValues]
  | cons p pairs =>
    rw [insertTemplate, NotInValues, notInValues_append, notInValues_valuePieces]
    exact and_iff_left trivial

end

/-! ## Reading the statements back -/

/-- SQLite reads an insert as it was meant exactly if no quote is in names and values, and no
semicolon in the names. -/
theorem readAs_iff {sql : String} {t : List (Piece Char)} {rest : List Char} {last : Bool}
    (hsql : sql.toList = splice '\'' t ++ rest) (hsp : Spaced last t)
    (hrest : last = true → rest.head? ≠ some '\'') :
    ReadAs sql t rest ↔ (NotInText '\'' t ∧ NotInValues '\'' t) ∧ NotInText ';' t := by
  rw [ReadAs, hsql, scan_splice_iff hsp hrest, text_notMem_items_iff]

/-- What is safe to splice, character by character. -/
theorem safeToSplice_iff (table : String) (pairs : List (String × String)) :
    SafeToSplice table pairs ↔
      (('\'' ∉ table.toList ∧ ∀ p ∈ pairs, '\'' ∉ p.1.toList) ∧ ∀ p ∈ pairs, '\'' ∉ p.2.toList) ∧
        ';' ∉ table.toList ∧ ∀ p ∈ pairs, ';' ∉ p.1.toList := by
  constructor
  · rintro ⟨⟨htq, hts⟩, h⟩
    exact ⟨⟨⟨htq, fun p hp => (h p hp).1.1⟩, fun p hp => (h p hp).2⟩, hts,
      fun p hp => (h p hp).1.2⟩
  · rintro ⟨⟨⟨htq, hkq⟩, hv⟩, hts, hks⟩
    exact ⟨⟨htq, hts⟩, fun p hp => ⟨⟨hkq p hp, hks p hp⟩, hv p hp⟩⟩

/-- An insert reads back exactly if it is safe. -/
theorem insertReadsBack_iff (table : String) (values : ContentValues)
    (alg : SqliteConflictAlgorithm) :
    InsertReadsBack table values alg ↔
      ∀ pairs, values.pairs = .ok pairs → SafeToSplice table pairs := by
  refine forall₂_congr fun pairs h => ?_
  obtain ⟨sql, hbuild, hsql⟩ := buildInsertString_eq h table alg
  have hsp : Spaced false (insertTemplate table pairs alg) := by
    cases pairs with
    | nil => trivial
    | cons p pairs => exact spaced_valuePieces 0 (p :: pairs)
  have hsql' : sql.toList = splice '\'' (insertTemplate table pairs alg) ++ [] := by
    rw [hsql, List.append_nil]
  have hread := readAs_iff hsql' hsp (by simp)
  rw [notInText_insertTemplate (.inl rfl), notInValues_insertTemplate,
    notInText_insertTemplate (.inr (.inl rfl)), ← safeToSplice_iff] at hread
  rw [← hread, hbuild]
  simp

/-- Safe entries give an `INSERT` that is their template, and that is read back as they are. -/
theorem exists_readAs_of_safe {values : ContentValues} {table : String}
    {pairs : List (String × String)} (h : values.pairs = .ok pairs)
    (hsafe : SafeToSplice table pairs) (alg : SqliteConflictAlgorithm) :
    ∃ sql, buildInsertString table values alg = .ok sql ∧
      sql.toList = splice '\'' (insertTemplate table pairs alg) ∧
      ReadAs sql (insertTemplate table pairs alg) [] := by
  have hreads : InsertReadsBack table values alg := by
    rw [insertReadsBack_iff]
    intro pairs' hpairs'
    rw [h] at hpairs'
    cases hpairs'
    exact hsafe
  obtain ⟨sql, hbuild, hsql⟩ := buildInsertString_eq h table alg
  obtain ⟨sql', hbuild', hread⟩ := hreads pairs h
  rw [hbuild] at hbuild'
  cases hbuild'
  exact ⟨sql, hbuild, hsql, hread⟩

/-- A safe update reads back. -/
theorem updateReadsBack_of_safe {table : String} {values : ContentValues}
    (h : ∀ pairs, values.pairs = .ok pairs → SafeToSplice table pairs)
    (whereClause : Option String) (alg : SqliteConflictAlgorithm) :
    UpdateReadsBack table values whereClause alg := by
  intro pairs hpairs hne
  obtain ⟨sql, hbuild, hsql⟩ := buildUpdateString_eq hpairs hne table whereClause alg
  refine ⟨sql, hbuild, ?_⟩
  rw [readAs_iff hsql (spaced_assignPieces 0 pairs) (fun _ => head_whereString whereClause),
    notInText_updateTemplate (.inl rfl), notInText_updateTemplate (.inr (.inl rfl)), updateTemplate,
    NotInValues, notInValues_assignPieces, ← safeToSplice_iff]
  exact h pairs hpairs

/-- **Literals of the built statements.** Both statements are read back as meant, for the
entries that `values` presents, if and only if neither the table nor a column name contains
a quote or a semicolon and no value contains a quote. -/
theorem literals_readBack_iff (table : String) (values : ContentValues)
    (whereClause : Option String) (alg : SqliteConflictAlgorithm) :
    InsertReadsBack table values alg ∧ UpdateReadsBack table values whereClause alg ↔
      ∀ pairs, values.pairs = .ok pairs → SafeToSplice table pairs := by
  rw [insertReadsBack_iff]
  exact ⟨fun h => h.1, fun h => ⟨h, updateReadsBack_of_safe h whereClause alg⟩⟩

/-- The `ContentValues` of one entry. -/
def oneValue (key value : String) : ContentValues where
  conf := { keys := [key], getString := fun k => if k = key then some value else none }

/-- A status message with an apostrophe ends its own literal, in both statements. -/
theorem apostrophe_ends_literal :
    ¬ (InsertReadsBack "cache_metadata" (oneValue "status_message" "It's OK") .replace ∧
      UpdateReadsBack "cache_metadata" (oneValue "status_message" "It's OK")
        (some "cache_key=?") .none) := by
  rintro ⟨h, -⟩
  obtain ⟨sql, hsql, hread, -⟩ := h [("status_message", "It's OK")] (by decide)
  have hbuilt : buildInsertString "cache_metadata" (oneValue "status_message" "It's OK") .replace =
      .ok "INSERT OR REPLACE INTO cache_metadata (status_message) VALUES ('It's OK')" := by decide
  obtain rfl : "INSERT OR REPLACE INTO cache_metadata (status_message) VALUES ('It's OK')" = sql :=
    Except.ok.inj (hbuilt.symm.trans hsql)
  revert hread
  decide

end SqliteQueryBuilder

end EasyHttp.Db
