import EasyHttp.Message.Headers

/-!
# Cache-Control

`CacheControl` holds the directives of the `Cache-Control` and `Pragma` headers of a message;
a number is -1 when its directive is absent. `Poco` collects the functions of that library
which the code calls and whose source is not part of the repository.
-/

namespace EasyHttp

/-- A point in time, in microseconds since the epoch (`Poco::Timestamp`). -/
structure Timestamp where
  microseconds : Int64
deriving DecidableEq

/-- `epochTime`: seconds since the epoch, a `std::time_t`. -/
def Timestamp.epochTime (t : Timestamp) : Int64 := t.microseconds / 1000000

/-- The parts of a `Poco::URI` that the code reads. -/
structure Uri where
  scheme : String
  host : String
  port : UInt16
  query : String
deriving DecidableEq

/-- The date formats of `Poco::DateTimeFormat` that the code tries. -/
inductive DateTimeFormat where
  | http
  | asctime
deriving DecidableEq

/-- Functions of the Poco library. An `error` carries the message of the exception thrown. -/
structure Poco where
  /-- `NumberParser::tryParse64` -/
  tryParse64 : String → Option Int64
  /-- `DateTimeParser::tryParse` -/
  tryParseDateTime : DateTimeFormat → String → Option Timestamp
  /-- the constructor of `URI` from a string -/
  uri : String → Except String Uri
  /-- `URI::decode` -/
  decode : String → Except String String

namespace Poco

/-- `HttpUtil::tryParseDate`: the HTTP format, then that of `asctime`. -/
def tryParseDate (poco : Poco) (value : String) : Option Timestamp :=
  match poco.tryParseDateTime .http value with
  | some timeStamp => some timeStamp
  | none => poco.tryParseDateTime .asctime value

/-- The `URI` constructor, its exception not caught. -/
def parseUri (poco : Poco) (url : String) : Except HttpException Uri :=
  match poco.uri url with
  | .ok uri => .ok uri
  | .error message => .error (.poco message)

/-- A number in decimal digits. -/
def parseDigits (digits : List Char) : Option ℕ :=
  if digits = [] then none
  else digits.foldlM
    (fun n c => if c.isDigit then some (10 * n + (c.toNat - '0'.toNat)) else none) 0

/-- A decimal number with an optional minus sign. -/
def plainParse64 (s : String) : Option Int64 :=
  match s.toList with
  | '-' :: digits => (parseDigits digits).map fun n => Int64.ofInt (-n)
  | digits => (parseDigits digits).map fun n => Int64.ofInt n

/-- The parts of a URL `scheme://host:port/path?query#fragment`. -/
def plainUri (url : String) : Except String Uri :=
  let scheme := (url.toList.takeWhile (· ≠ ':')).map Char.toLower
  let rest := url.toList.drop (scheme.length + 3)
  let authority := rest.takeWhile fun c => c ≠ '/' && c ≠ '?' && c ≠ '#'
  let defaultPort := if scheme = "https".toList then 443 else 80
  .ok {
    scheme := String.ofList scheme
    host := String.ofList ((authority.takeWhile (· ≠ ':')).map Char.toLower)
    port := UInt16.ofNat ((parseDigits ((authority.dropWhile (· ≠ ':')).drop 1)).getD defaultPort)
    query := String.ofList (((rest.dropWhile (· ≠ '?')).drop 1).takeWhile (· ≠ '#')) }

/-- Functions that agree with the library on short decimal numbers, on absolute URLs without
escapes, and on texts that are no dates. -/
def plain : Poco where
  tryParse64 := plainParse64
  tryParseDateTime := fun _ _ => none
  uri := plainUri
  decode := .ok

end Poco

/-! ## Tokens -/

/-- `std::isspace` on ASCII. -/
def isSpace (c : Char) : Bool :=
  c = ' ' || c = '\t' || c = '\n' || c = '\x0b' || c = '\x0c' || c = '\r'

/-- `Poco::trim`. -/
def trim (cs : List Char) : List Char := ((cs.dropWhile isSpace).reverse.dropWhile isSpace).reverse

/-- `Poco::StringTokenizer` with `TOK_IGNORE_EMPTY | TOK_TRIM` and one separator. -/
def tokens (separator : Char) (s : List Char) : List (List Char) :=
  ((s.splitOn separator).map trim).filter fun token => token ≠ []

/-! ## Directives -/

/-- The directives. A `CacheControl::Builder` has the same fields. -/
structure CacheControl where
  maxAgeSec : Int64 := -1
  maxStaleSec : Int64 := -1
  minFreshSec : Int64 := -1
  sMaxAgeSec : Int64 := -1
  mustRevalidate : Bool := false
  noCache : Bool := false
  noStore : Bool := false
  noTransform : Bool := false
  onlyIfCached : Bool := false
  isPublic : Bool := false
  isPrivate : Bool := false
deriving DecidableEq

namespace CacheControl

/-- Only what is stored, however stale it is. -/
def createForceCache : CacheControl :=
  { onlyIfCached := true, maxStaleSec := Int64.maxValue }

/-- Nothing that is stored. -/
def createForceNetwork : CacheControl := { noCache := true }

/-- The number of a directive; a text that is none gives the default. -/
def parseNumber (poco : Poco) (parameter : List Char) (defaultValue : Int64) : Int64 :=
  if parameter = [] then defaultValue
  else match poco.tryParse64 (String.ofList parameter) with
    | none => defaultValue
    | some value => value

/-- The quotes of a quoted string, removed. -/
def unquote (parameter : List Char) : List Char :=
  if parameter.length > 2 && parameter.head? = some '"' && parameter.getLast? = some '"' then
    (parameter.drop 1).take (parameter.length - 2)
  else parameter

/-- One directive with its parameter. -/
def applyDirective (poco : Poco) (builder : CacheControl) (directive parameter : List Char) :
    CacheControl :=
  let same (name : String) : Bool := icompare (String.ofList directive) name
  let number := parseNumber poco parameter (-1)
  if same HttpConstants.CacheDirectives.MaxAge then { builder with maxAgeSec := number }
  else if same HttpConstants.CacheDirectives.SMaxAge then { builder with sMaxAgeSec := number }
  else if same HttpConstants.CacheDirectives.MaxStale then { builder with maxStaleSec := number }
  else if same HttpConstants.CacheDirectives.MinFresh then { builder with minFreshSec := number }
  else if same HttpConstants.CacheDirectives.MustRevalidate then
    { builder with mustRevalidate := true }
  else if same HttpConstants.CacheDirectives.NoCache then { builder with noCache := true }
  else if same HttpConstants.CacheDirectives.NoStore then { builder with noStore := true }
  else if same HttpConstants.CacheDirectives.NoTransform then { builder with noTransform := true }
  else if same HttpConstants.CacheDirectives.OnlyIfCached then { builder with onlyIfCached := true }
  else if same HttpConstants.CacheDirectives.Public then { builder with isPublic := true }
  else if same HttpConstants.CacheDirectives.Private then { builder with isPrivate := true }
  else builder

/-- The body of the loop over the directives of one header value. -/
def parseDirective (poco : Poco) (builder : CacheControl) (text : List Char) :
    Except HttpException CacheControl :=
  match tokens '=' text with
  -- `tokens[0]` of a text without tokens: the tokenizer throws
  | [] => .error (.poco "Out of range")
  | [directive] => .ok (applyDirective poco builder directive [])
  | [directive, parameter] => .ok (applyDirective poco builder directive (unquote parameter))
  -- too many "="
  | _ => .ok builder

/-- The body of the loop over the headers. -/
def parseHeader (poco : Poco) (builder : CacheControl) (header : String × String) :
    Except HttpException CacheControl :=
  if icompare header.1 HttpConstants.HeaderNames.Pragma then
    .ok (if icompare header.2 HttpConstants.CacheDirectives.NoCache then
      { builder with noCache := true } else builder)
  else if icompare header.1 HttpConstants.HeaderNames.CacheControl then
    (tokens ',' header.2.toList).foldlM (parseDirective poco) builder
  else .ok builder

/-- `createFromHeaders`; `none` is the NULL pointer. -/
def createFromHeaders (poco : Poco) : Option Headers → Except HttpException CacheControl
  | none => .ok {}
  | some headers => headers.items.foldlM (parseHeader poco) {}

end CacheControl

end EasyHttp
