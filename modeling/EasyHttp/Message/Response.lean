import EasyHttp.Message.Request
import Mathlib.Data.Int.Notation

/-!
# Response

A `Response::Builder` starts from a response or from defaults and `build` copies it. The
headers of a response are never shared with a request, so they are kept as a value.
-/

namespace EasyHttp

/-- Where the bytes of a response body come from. -/
inductive ResponseBodyStream where
  | withoutCaching
  | withCaching
  | fromCache
deriving DecidableEq

/-- What a response says of its body. -/
structure ResponseBody where
  hasContentLength : Bool
  contentLength : Int64
  stream : ResponseBodyStream
deriving DecidableEq

/-- A response, from the network or from the cache. -/
structure Response where
  request : Request
  statusCode : ℤ := 200
  statusMessage : String := ""
  hasContentLength : Bool := false
  contentLength : Int64 := -1
  headers : Headers := Headers.empty
  cacheControl : Option CacheControl := none
  body : Option ResponseBody := none
  sentRequestSec : Int64 := 0
  receivedResponseSec : Int64 := 0
deriving DecidableEq

namespace Response

/-- Whether there is such a header. -/
def hasHeader (response : Response) (name : String) : Bool := response.headers.has name

/-- The first value of the header. -/
def getHeaderValue (response : Response) (name defaultValue : String) : String :=
  response.headers.getValue name defaultValue

/-- The status codes from 200 to 299. -/
def isSuccessful (response : Response) : Bool :=
  response.statusCode ≥ 200 && response.statusCode < 300

/-- `Response::Builder::build`: a body gives the content length. -/
def build (builder : Response) : Response :=
  match builder.body with
  | some body =>
    { builder with hasContentLength := body.hasContentLength, contentLength := body.contentLength }
  | none => builder

/-- `Response::Builder::addHeader`. -/
def addHeader (builder : Response) (name value : String) : Except HttpException Response :=
  if name = "" then .error (.illegalArgument "can not set empty name in header.")
  else do
    let headers ← builder.headers.add name value
    return { builder with headers := headers }

end Response

end EasyHttp
