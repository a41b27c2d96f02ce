import EasyHttp.Message.Headers
import EasyHttp.Library.SortedMap
import Mathlib.Data.String.Basic

/-!
# `HttpUtil`: headers as JSON text

The metadata of a cache entry keeps its response headers as the text of a JSON object.
`stringify` and `parse` are those of `Poco::JSON`, for objects whose members are strings;
`parse` is `none` where Poco throws.
-/

namespace EasyHttp

/-- The members of a `Poco::JSON::Object`, kept in a `std::map`. -/
abbrev JsonObject := SortedMap String String

namespace HttpUtil

variable (stringify : JsonObject → String) (parse : String → Option JsonObject)

/-- The loop of `exchangeHeadersToJsonStr`. -/
def headersToJson (headers : Headers) : JsonObject :=
  headers.items.foldl (fun headerJson e => headerJson.set e.1 e.2) SortedMap.empty

/-- `none` is the NULL pointer. -/
def exchangeHeadersToJsonStr : Option Headers → String
  | some headers => stringify (headersToJson headers)
  | none => ""

/-- `none` is the NULL pointer, returned when Poco throws. What `Headers::add` throws is not
one of Poco's exceptions and passes through. -/
def exchangeJsonStrToHeaders (headerJsonStr : String) : Except HttpException (Option Headers) :=
  match parse headerJsonStr with
  | some headerJson => do
    let headers ← Headers.empty.addAll headerJson.entries
    return some headers
  | none => return none

end HttpUtil

end EasyHttp
