import EasyHttp.Cache.FileUtilTheorems
import EasyHttp.Db.ContentValues
import EasyHttp.Db.SqliteQueryBuilderTheorems

/-!
# The statement that stores the metadata of an entry

`HttpCacheDatabase::updateMetadata` puts the metadata into a `ContentValues`, which expands the
references in a text, and has an `INSERT OR REPLACE` built of it, which splices the texts between
quotes. `HttpCacheDatabase.updateMetadata` sets the row without that detour. Here is when this is
what the statement does.

* `values`, `updateStatement`: what is put, and the statement;
* `Gives`: the statement, as SQLite reads it, replaces the row of a key by a given row;
* `PlainTexts`: no text of the metadata has a quote or refers to a column;
* `writesRow_of_plainTexts`: then the statement gives the row that `updateMetadata` sets.
-/

namespace EasyHttp

open Db

/-- The value of `Request::HttpMethod`. -/
def HttpMethod.number : HttpMethod → ℤ
  | .delete => 0
  | .get => 1
  | .head => 2
  | .patch => 3
  | .post => 4
  | .put => 5

namespace HttpCacheDatabase

/-! ## What is put -/

/-- The table of the cache. -/
def TableName : String := "cache_metadata"

namespace Key

def CacheKey : String := "cache_key"
def Url : String := "url"
def Method : String := "method"
def StatusCode : String := "status_code"
def StatusMessage : String := "status_message"
def ResponseHeaderJson : String := "response_header_json"
def ResponseBodySize : String := "response_body_size"
def SentRequestAtEpoch : String := "sent_request_at_epoch"
def ReceivedResponseAtEpoch : String := "received_response_at_epoch"
def CreatedAtEpoch : String := "created_at_epoch"
def LastAccessedAtEpoch : String := "last_accessed_at_epoch"

end Key

section
variable (json : PocoJson) (createdAtEpoch nowAtEpoch : Int64)

/-- The calls of `put` in `updateMetadata`; a number is put as its decimal text. -/
def values (httpCacheMetadata : HttpCacheMetadata) : List (String × String) := [
  (Key.CacheKey, httpCacheMetadata.key),
  (Key.Url, httpCacheMetadata.url),
  (Key.Method, toString httpCacheMetadata.httpMethod.number),
  (Key.StatusCode, toString httpCacheMetadata.statusCode),
  (Key.StatusMessage, httpCacheMetadata.statusMessage),
  (Key.ResponseHeaderJson,
    HttpUtil.exchangeHeadersToJsonStr json.stringify httpCacheMetadata.responseHeaders),
  (Key.ResponseBodySize, toString (httpCacheMetadata.responseBodySize.toNat : ℤ)),
  (Key.SentRequestAtEpoch, toString httpCacheMetadata.sentRequestAtEpoch.toInt),
  (Key.ReceivedResponseAtEpoch, toString httpCacheMetadata.receivedResponseAtEpoch.toInt),
  (Key.CreatedAtEpoch, toString createdAtEpoch.toInt),
  (Key.LastAccessedAtEpoch, toString nowAtEpoch.toInt)]

/-- The statement that `SqliteDatabase::replace` executes. -/
def updateStatement {Conf : Type} (conf : Db.Poco Conf) (httpCacheMetadata : HttpCacheMetadata) :
    Except SqlException String :=
  SqliteQueryBuilder.buildInsertString TableName
    (ContentValues.putAll conf (values json createdAtEpoch nowAtEpoch httpCacheMetadata)) .replace

end

/-- The texts of the columns of a row. -/
def columns (key : String) (createdAtEpoch : Int64) (row : Row) : List (String × String) := [
  (Key.CacheKey, key),
  (Key.Url, row.url),
  (Key.Method, toString row.httpMethod.number),
  (Key.StatusCode, toString row.statusCode),
  (Key.StatusMessage, row.statusMessage),
  (Key.ResponseHeaderJson, row.responseHeaderJson),
  (Key.ResponseBodySize, toString (row.responseBodySize.toNat : ℤ)),
  (Key.SentRequestAtEpoch, toString row.sentRequestAtEpoch.toInt),
  (Key.ReceivedResponseAtEpoch, toString row.receivedResponseAtEpoch.toInt),
  (Key.CreatedAtEpoch, toString createdAtEpoch.toInt),
  (Key.LastAccessedAtEpoch, toString row.lastAccessedAtEpoch.toInt)]

/-- The names of the columns, without `id`. -/
def columnNames : List String := [Key.CacheKey, Key.Url, Key.Method, Key.StatusCode,
  Key.StatusMessage, Key.ResponseHeaderJson, Key.ResponseBodySize, Key.SentRequestAtEpoch,
  Key.ReceivedResponseAtEpoch, Key.CreatedAtEpoch, Key.LastAccessedAtEpoch]

/-- No column is written twice. -/
theorem nodup_columnNames : columnNames.Nodup := by decide

/-- What is put are the columns of the row that `updateMetadata` sets. -/
theorem values_eq_columns (json : PocoJson) (createdAtEpoch nowAtEpoch : Int64)
    (httpCacheMetadata : HttpCacheMetadata) :
    values json createdAtEpoch nowAtEpoch httpCacheMetadata =
      columns httpCacheMetadata.key createdAtEpoch (httpCacheMetadata.toRow json nowAtEpoch) := rfl

/-- The columns are always the same. -/
theorem map_fst_columns (key : String) (createdAtEpoch : Int64) (row : Row) :
    (columns key createdAtEpoch row).map Prod.fst = columnNames := rfl

/-! ## What the statement gives -/

/-- SQLite reads a statement up to its first NUL. -/
def prepared (sql : String) : String := String.ofList (sql.toList.takeWhile (· ≠ '\x00'))

/-- As SQLite reads it, the statement replaces the row of `key` by `row`: it is one `INSERT` of the
columns of the row, in some order. -/
def Gives (sql key : String) (row : Row) : Prop :=
  ∃ createdAtEpoch pairs, pairs.Perm (columns key createdAtEpoch row) ∧
    SqliteQueryBuilder.ReadAs (prepared sql)
      (SqliteQueryBuilder.insertTemplate TableName pairs .replace) []

/-- Whenever the metadata were created, `updateMetadata` builds a statement that gives the row. -/
def WritesRow {Conf : Type} (conf : Db.Poco Conf) (json : PocoJson) (nowAtEpoch : Int64)
    (httpCacheMetadata : HttpCacheMetadata) : Prop :=
  ∀ createdAtEpoch, ∃ sql,
    updateStatement json createdAtEpoch nowAtEpoch conf httpCacheMetadata = .ok sql ∧
      Gives sql httpCacheMetadata.key (httpCacheMetadata.toRow json nowAtEpoch)

/-! ## Plain texts -/

/-- A piece of a text that is left as it is: a reference is closed, and not to a column. -/
def LeftAsIs : References.Piece Char → Prop
  | .text _ => True
  | .reference name closed => String.ofList name ∉ columnNames ∧ closed = true

instance : DecidablePred LeftAsIs
  | .text _ => isTrue trivial
  | .reference _ _ => inferInstanceAs (Decidable (_ ∧ _))

/-- A text without a quote, a NUL or a reference to a column. -/
structure PlainText (closesAtEnd : Bool) (text : String) : Prop where
  quote : '\'' ∉ text.toList
  nul : '\x00' ∉ text.toList
  references : ∀ piece ∈ ContentValues.valuePieces closesAtEnd text, LeftAsIs piece

instance (closesAtEnd : Bool) (text : String) : Decidable (PlainText closesAtEnd text) :=
  decidable_of_iff ('\'' ∉ text.toList ∧ '\x00' ∉ text.toList ∧
    ∀ piece ∈ ContentValues.valuePieces closesAtEnd text, LeftAsIs piece)
    ⟨fun h => ⟨h.1, h.2.1, h.2.2⟩, fun h => ⟨h.quote, h.nul, h.references⟩⟩

/-- The texts of the metadata are plain. -/
structure PlainTexts (closesAtEnd : Bool) (json : PocoJson)
    (httpCacheMetadata : HttpCacheMetadata) : Prop where
  key : PlainText closesAtEnd httpCacheMetadata.key
  url : PlainText closesAtEnd httpCacheMetadata.url
  statusMessage : PlainText closesAtEnd httpCacheMetadata.statusMessage
  responseHeaderJson : PlainText closesAtEnd
    (HttpUtil.exchangeHeadersToJsonStr json.stringify httpCacheMetadata.responseHeaders)

instance (closesAtEnd : Bool) (json : PocoJson) (httpCacheMetadata : HttpCacheMetadata) :
    Decidable (PlainTexts closesAtEnd json httpCacheMetadata) :=
  decidable_of_iff (PlainText closesAtEnd httpCacheMetadata.key ∧
    PlainText closesAtEnd httpCacheMetadata.url ∧
    PlainText closesAtEnd httpCacheMetadata.statusMessage ∧ PlainText closesAtEnd
      (HttpUtil.exchangeHeadersToJsonStr json.stringify httpCacheMetadata.responseHeaders))
    ⟨fun h => ⟨h.1, h.2.1, h.2.2.1, h.2.2.2⟩,
      fun h => ⟨h.key, h.url, h.statusMessage, h.responseHeaderJson⟩⟩

section
variable {Conf : Type} {conf : Db.Poco Conf} {closesAtEnd : Bool} {json : PocoJson}
  {createdAtEpoch nowAtEpoch : Int64} {httpCacheMetadata : HttpCacheMetadata}
  {puts : List (String × String)}

/-- A text of digits, and a sign, is plain. -/
theorem plainText_of_digits {text : String}
    (h : ∀ c ∈ text.toList, c.isDigit = true ∨ c = '-') : PlainText closesAtEnd text := by
  have hnot : ∀ c : Char, c.isDigit = false → c ≠ '-' → c ∉ text.toList := by
    intro c hdigit hsign hc
    rcases h c hc with htrue | heq
    · rw [hdigit] at htrue
      cases htrue
    · exact hsign heq
  refine ⟨hnot _ (by decide) (by decide), hnot _ (by decide) (by decide), fun piece hpiece => ?_⟩
  have hmark : (ContentValues.delimiters closesAtEnd).mark ∉ text.toList :=
    hnot '$' (by decide) (by decide)
  unfold ContentValues.valuePieces at hpiece
  rw [References.pieces_of_notMem hmark] at hpiece
  obtain ⟨c, -, rfl⟩ := List.mem_map.mp hpiece
  trivial

/-- The text of a number is plain. -/
theorem plainText_toString (n : ℤ) : PlainText closesAtEnd (toString n) := by
  have hdigits : ∀ m : ℕ, ∀ c ∈ m.repr.toList, c.isDigit = true := by
    intro m c hc
    rw [Nat.toList_repr] at hc
    exact Nat.isDigit_of_mem_toDigits (by decide) (by decide) hc
  refine plainText_of_digits fun c hc => ?_
  rw [Int.toString_eq_repr, Int.repr_eq_if] at hc
  split at hc
  · exact .inl (hdigits _ c hc)
  · rw [String.toList_append, List.mem_append] at hc
    refine hc.symm.imp (hdigits _ c) fun hsign => ?_
    exact List.mem_singleton.mp hsign

/-- Every text that is put is plain when those of the metadata are. -/
theorem PlainTexts.values (h : PlainTexts closesAtEnd json httpCacheMetadata) :
    ∀ p ∈ values json createdAtEpoch nowAtEpoch httpCacheMetadata, PlainText closesAtEnd p.2 := by
  unfold HttpCacheDatabase.values
  simp only [List.forall_mem_cons, List.not_mem_nil, false_imp_iff, implies_true, and_true]
  exact ⟨h.key, h.url, plainText_toString _, plainText_toString _, h.statusMessage,
    h.responseHeaderJson, plainText_toString _, plainText_toString _, plainText_toString _,
    plainText_toString _, plainText_toString _⟩

/-- What is put is what is read of it. -/
theorem isPlain_of_plainTexts (hnames : puts.map Prod.fst = columnNames)
    (h : ∀ p ∈ puts, PlainText closesAtEnd p.2) : ContentValues.IsPlain closesAtEnd puts := by
  have hdots : ∀ name ∈ columnNames, '.' ∉ name.toList := by decide
  refine ⟨fun p hp => hdots _ (hnames ▸ List.mem_map_of_mem hp), fun p hp _ piece hpiece => ?_⟩
  have hleft := (h p hp).references piece hpiece
  cases piece with
  | text c => trivial
  | reference name closed =>
    refine ⟨?_, hleft.2⟩
    unfold ContentValues.raw
    rw [ContentValues.lastPut_eq_none (by rw [hnames]; exact hleft.1)]
    rfl

/-- The entries of the `ContentValues` are those that were put, in the order of its keys. -/
theorem pairs_perm (hconf : ContentValues.Documented conf closesAtEnd)
    (hnames : puts.map Prod.fst = columnNames) (h : ContentValues.IsPlain closesAtEnd puts) :
    ∃ pairs, (ContentValues.putAll conf puts).pairs = .ok pairs ∧ pairs.Perm puts := by
  have hnodup : (puts.map Prod.fst).Nodup := hnames ▸ nodup_columnNames
  have hkeys : (ContentValues.putAll conf puts).getKeys.Perm (puts.map Prod.fst) := by
    refine (List.perm_ext_iff_of_nodup (hconf.keys_nodup puts) hnodup).mpr fun key => ?_
    refine (hconf.keys_iff puts key).trans ?_
    rw [List.mem_map]
    refine exists_congr fun p => and_congr_right fun hp => ?_
    rw [ContentValues.beforeDot_eq_self (h.names p hp)]
  let value : String → String := fun key => (ContentValues.lastPut puts key).getD ""
  have hvalue : ∀ p ∈ puts, (p.1, value p.1) = p := by
    intro p hp
    show (p.1, (ContentValues.lastPut puts p.1).getD "") = p
    rw [ContentValues.lastPut_of_mem hnodup hp]
    rfl
  refine ⟨(ContentValues.putAll conf puts).getKeys.map fun key => (key, value key), ?_, ?_⟩
  · refine SqliteQueryBuilder.entries_of_forall fun key hkey => ?_
    obtain ⟨p, hp, rfl⟩ := List.mem_map.mp (hkeys.mem_iff.mp hkey)
    refine ContentValues.getStringValue_of_plain hconf h ?_
    rw [ContentValues.lastPut_of_mem hnodup hp]
    exact congrArg (fun q => some q.2) (hvalue p hp).symm
  · refine (hkeys.map fun key => (key, value key)).trans ?_
    rw [List.map_map]
    have hsame : puts.map ((fun key => (key, value key)) ∘ Prod.fst) = puts.map id :=
      List.map_congr_left hvalue
    rw [hsame, List.map_id]

/-- A statement without a NUL is read to its end. -/
theorem prepared_eq_self {sql : String} (h : '\x00' ∉ sql.toList) : prepared sql = sql := by
  have hall : ∀ c ∈ sql.toList, decide (c ≠ '\x00') = true :=
    fun c hc => decide_eq_true fun heq => h (heq ▸ hc)
  rw [prepared, List.takeWhile_eq_self_iff.mpr hall, String.ofList_toList]

/-- **Metadata of plain texts are stored as they are**: the statement gives the row that
`updateMetadata` sets. -/
theorem writesRow_of_plainTexts (hconf : ContentValues.Documented conf closesAtEnd)
    (h : PlainTexts closesAtEnd json httpCacheMetadata) :
    WritesRow conf json nowAtEpoch httpCacheMetadata := by
  intro createdAtEpoch
  have hnames := map_fst_columns httpCacheMetadata.key createdAtEpoch
    (httpCacheMetadata.toRow json nowAtEpoch)
  rw [← values_eq_columns] at hnames
  have htexts : ∀ p ∈ values json createdAtEpoch nowAtEpoch httpCacheMetadata,
      PlainText closesAtEnd p.2 := h.values
  -- plain texts are read from the configuration as they were put
  obtain ⟨pairs, hpairs, hperm⟩ := pairs_perm hconf hnames (isPlain_of_plainTexts hnames htexts)
  have hname : ∀ p ∈ pairs, p.1 ∈ columnNames :=
    fun p hp => hnames ▸ List.mem_map_of_mem (hperm.mem_iff.mp hp)
  have hplain : ∀ name ∈ columnNames, '\x00' ∉ name.toList ∧ SqliteQueryBuilder.PlainName name := by
    unfold SqliteQueryBuilder.PlainName
    decide
  -- without quotes SQLite reads each value as it was written
  have hsafe : SqliteQueryBuilder.SafeToSplice TableName pairs :=
    ⟨by unfold SqliteQueryBuilder.PlainName; decide,
      fun p hp => ⟨(hplain _ (hname p hp)).2, (htexts p (hperm.mem_iff.mp hp)).quote⟩⟩
  obtain ⟨sql, hsql, htext, hreads⟩ :=
    SqliteQueryBuilder.exists_readAs_of_safe hpairs hsafe .replace
  -- no NUL comes from the builder, from a name or from a text
  have hnul : '\x00' ∉ sql.toList := by
    rw [htext]
    refine QuotedText.notMem_splice (by decide) (QuotedText.notMem_content_iff.mpr ⟨?_, ?_⟩)
    · refine (SqliteQueryBuilder.notInText_insertTemplate (.inr (.inr rfl)) _ _ _).mpr ?_
      exact ⟨by decide, fun p hp => (hplain _ (hname p hp)).1⟩
    · refine (SqliteQueryBuilder.notInValues_insertTemplate _ _ _).mpr fun p hp => ?_
      exact (htexts p (hperm.mem_iff.mp hp)).nul
  refine ⟨sql, hsql, createdAtEpoch, pairs, hperm, ?_⟩
  rw [prepared_eq_self hnul]
  exact hreads

end

/-- A status message that refers to a column is stored as the text of that column. -/
example : updateStatement ⟨fun _ => "\x7b\x7d", fun _ => none⟩ 0 0 ContentValues.mapConfiguration
    { key := "k", url := "u", httpMethod := .get, statusCode := 200,
      statusMessage := "$\x7burl\x7d", responseHeaders := some Headers.empty,
      responseBodySize := 3, sentRequestAtEpoch := 1, receivedResponseAtEpoch := 2 } =
    .ok ("INSERT OR REPLACE INTO cache_metadata (cache_key, created_at_epoch, " ++
      "last_accessed_at_epoch, method, received_response_at_epoch, response_body_size, " ++
      "response_header_json, sent_request_at_epoch, status_code, status_message, url) VALUES " ++
      "('k', '0', '0', '1', '2', '3', '\x7b\x7d', '1', '200', 'u', 'u')") := by decide +kernel

end HttpCacheDatabase

end EasyHttp
