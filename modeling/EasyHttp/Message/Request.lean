import EasyHttp.Message.CacheControl
import EasyHttp.Library.Store

/-!
# Request

A `Request` holds a pointer to its `Headers`, and `Request::Builder` can take that pointer
over. The header lists therefore stand in an explicit store, and code that creates or writes
one runs over that store. Other members are never written through a pointer and
are kept as values.
-/

namespace EasyHttp

instance : Inhabited Headers := ⟨Headers.empty⟩

/-- The address of a header list (`Headers::Ptr`). -/
abbrev HeadersPtr := ℕ

/-- The header lists that exist, by address. -/
abbrev HeaderStore := Store Headers

/-! ## Requests -/

/-- The methods a request can have. -/
inductive HttpMethod where
  | delete
  | get
  | head
  | patch
  | post
  | put
deriving DecidableEq

/-- `tag` and `body` are addresses, `none` for NULL. -/
structure Request where
  method : HttpMethod
  url : String
  tag : Option ℕ
  headers : HeadersPtr
  cacheControl : CacheControl
  body : Option ℕ
deriving DecidableEq

/-- `Request::Builder`; `none` is the NULL pointer. -/
structure RequestBuilder where
  method : HttpMethod := .get
  url : String := ""
  tag : Option ℕ := none
  headers : Option HeadersPtr := none
  cacheControl : Option CacheControl := none
  body : Option ℕ := none
deriving DecidableEq

namespace RequestBuilder

open Exec Store

/-- `Request::Builder::Builder(pRequest)`: the builder takes over the pointer to the headers. -/
def ofRequest (request : Request) : RequestBuilder where
  method := request.method
  url := request.url
  tag := request.tag
  headers := some request.headers
  cacheControl := some request.cacheControl
  body := request.body

/-- Writes to the list of the builder; without one it makes a list of its own. -/
def setHeader (builder : RequestBuilder) (name value : String) :
    Exec HttpException HeaderStore RequestBuilder := do
  if name = "" then
    throw (.illegalArgument "can not set empty name in header.")
  let headers ← match builder.headers with
    | some headers => pure headers
    | none => newCell Headers.empty
  let items ← readCell headers
  let items ← lift (items.set name value)
  writeCell headers items
  return { builder with headers := some headers }

/-- The builder takes a list as it is, and does not copy it. -/
def setHeaders (builder : RequestBuilder) (headers : HeadersPtr) : RequestBuilder :=
  { builder with headers := some headers }

/-- The URL has to be one that the library can parse. -/
def setUrl (poco : Poco) (builder : RequestBuilder) (url : String) :
    Except HttpException RequestBuilder :=
  if url = "" then .error (.illegalArgument "can not set empty url.")
  else match poco.uri url with
    | .ok _ => .ok { builder with url := url }
    | .error message =>
      .error (.illegalArgument ("[" ++ url ++ "] is invalid url. extra message=" ++ message))

/-- `build`: the request gets a copy of the builder's headers. -/
def build (poco : Poco) (builder : RequestBuilder) : Exec HttpException HeaderStore Request := do
  let items ← match builder.headers with
    | some headers => readCell headers
    | none => pure Headers.empty
  let headers ← newCell items
  let cacheControl ← match builder.cacheControl with
    | some cacheControl => pure cacheControl
    | none => lift (CacheControl.createFromHeaders poco (some items))
  return {
    method := builder.method
    url := builder.url
    tag := builder.tag
    headers := headers
    cacheControl := cacheControl
    body := builder.body }

end RequestBuilder

namespace Request

/-- The header list of a request. -/
def getHeaders (request : Request) (s : HeaderStore) : Headers := s.deref request.headers

/-- Whether the list of the request has the header. -/
def hasHeader (request : Request) (s : HeaderStore) (name : String) : Bool :=
  (request.getHeaders s).has name

/-- Its value there. -/
def getHeaderValue (request : Request) (s : HeaderStore) (name defaultValue : String) : String :=
  (request.getHeaders s).getValue name defaultValue

end Request

end EasyHttp
