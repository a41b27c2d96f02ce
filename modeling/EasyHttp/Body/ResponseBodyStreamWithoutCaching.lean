import EasyHttp.Body.ResponseBodyStreamWithCaching

/-!
# `ResponseBodyStreamWithoutCaching`

The stream over a connection as `receiveResponse` makes it. It is exchanged for a
`ResponseBodyStreamWithCaching` over the same content if the response is to be cached, and is then
closed for good.
-/

namespace EasyHttp

open ResponseBodyStreamInternal

/-- A stream that only reads. -/
structure ResponseBodyStreamWithoutCaching where
  base : ResponseBodyStreamInternal
  /-- `none` for NULL -/
  connectionInternal : Option ConnectionPtr

namespace ResponseBodyStreamWithoutCaching

def construct (content : IStream) (connectionInternal : Option ConnectionPtr) :
    ResponseBodyStreamWithoutCaching where
  base := ResponseBodyStreamInternal.construct content
  connectionInternal := connectionInternal

/-- It is not overridden. -/
def read (s : ResponseBodyStreamWithoutCaching) (buffer : Bool) (readBytes : UInt64)
    (answer : Sgetn) : ReadResult × ResponseBodyStreamWithoutCaching :=
  let (result, base) := s.base.read buffer readBytes answer
  (result, { s with base := base })

/-- The read that `skipAll` calls. -/
def skipRead (s : ResponseBodyStreamWithoutCaching) (answer : Sgetn) :
    ReadResult × ResponseBodyStreamWithoutCaching :=
  s.read true responseBodySkipBytes answer

/-- What is asked of the pool, the stream, and the receive timeout of the connection's socket. -/
def close (s : ResponseBodyStreamWithoutCaching) (receiveTimeout : Int64) (env : SkipAll Sgetn) :
    Option PoolCall × ResponseBodyStreamWithoutCaching × Int64 :=
  if s.base.closed then (none, s, receiveTimeout)
  else match s.connectionInternal with
    | some p =>
      let (reusable, s, receiveTimeout) := skipAll (·.base) skipRead env s receiveTimeout
      (some (if reusable then .releaseConnection p else .removeConnection p),
        { s with base := s.base.close, connectionInternal := none }, receiveTimeout)
    -- after the exchange
    | none => (none, { s with base := s.base.close }, receiveTimeout)

/-- The new stream; this one is closed without touching the connection. -/
def exchangeToResponseBodyStreamWithCaching (s : ResponseBodyStreamWithoutCaching)
    (response : Response) : ResponseBodyStreamWithCaching × ResponseBodyStreamWithoutCaching :=
  (ResponseBodyStreamWithCaching.construct s.base.content s.connectionInternal response,
    { s with base := s.base.close, connectionInternal := none })

end ResponseBodyStreamWithoutCaching

end EasyHttp
