import EasyHttp.Body.ResponseBodyStreamInternal
import EasyHttp.Connection.ConnectionPoolInternal
import EasyHttp.Engine.SharedCache

/-!
# `ResponseBodyStreamWithCaching`

What is read from the connection is also written to a temporary file, which is made by the first
read that can make it. `close` skips the rest of the body, gives the connection back, and puts the
file into the cache if the body is taken to be complete. The `std::ostream` of the file has its
exceptions not enabled, so a failed write shows only in its badbit, and the `catch` around it
catches nothing.
-/

namespace EasyHttp

open ResponseBodyStreamInternal

/-- What the device of a file does with bytes: it takes them, or it fails and at least the last
`lost + 1` of them never get there. -/
inductive Device where
  | takes
  | fails (lost : ℕ)
deriving DecidableEq

/-- The bytes that get there. -/
def Device.written (device : Device) (data : List UInt8) : List UInt8 :=
  match device with
  | .takes => data
  | .fails lost => data.take (data.length - (lost + 1))

/-- A `Poco::FileOutputStream` over a file that was truncated when it was opened. -/
structure FileOutputStream where
  badbit : Bool := false
  written : List UInt8 := []
deriving DecidableEq

/-- `ostream::write`: nothing is written after a failure. -/
def FileOutputStream.write (f : FileOutputStream) (data : List UInt8) (device : Device) :
    FileOutputStream :=
  if f.badbit || data = [] then f
  else { badbit := device ≠ .takes, written := f.written ++ device.written data }

theorem Device.length_written_le (device : Device) (data : List UInt8) :
    (device.written data).length ≤ data.length := by
  cases device with
  | takes => exact le_refl _
  | fails lost => exact List.length_take_le' _ _

/-- A device that fails loses at least one of the bytes that it is given. -/
theorem Device.length_written_lt {device : Device} {data : List UInt8} (h : device ≠ .takes)
    (hdata : data ≠ []) : (device.written data).length < data.length := by
  cases device with
  | takes => exact (h rfl).elim
  | fails lost =>
    have hpos := List.length_pos_iff.mpr hdata
    show (data.take (data.length - (lost + 1))).length < data.length
    rw [List.length_take]
    omega

/-- It takes everything if it has room, or if there is nothing. -/
theorem Device.written_eq_iff {device : Device} {data : List UInt8} :
    device.written data = data ↔ device = .takes ∨ data = [] := by
  refine ⟨fun h => ?_, fun h => ?_⟩
  · by_contra hnot
    rw [not_or] at hnot
    have hlt := device.length_written_lt hnot.1 hnot.2
    rw [h] at hlt
    exact lt_irrefl _ hlt
  · rcases h with h | h
    · rw [h]
      rfl
    · have hle := device.length_written_le data
      rw [h] at hle ⊢
      exact List.eq_nil_of_length_eq_zero (Nat.le_zero.mp hle)

namespace FileOutputStream

theorem write_takes (written data : List UInt8) :
    (⟨false, written⟩ : FileOutputStream).write data .takes = ⟨false, written ++ data⟩ := by
  unfold write
  split
  · rename_i h
    simp only [Bool.false_or, decide_eq_true_eq] at h
    rw [h, List.append_nil]
  · rfl

theorem length_write_le (f : FileOutputStream) (data : List UInt8) (device : Device) :
    (f.write data device).written.length ≤ f.written.length + data.length := by
  have hwritten := device.length_written_le data
  unfold write
  split
  · exact Nat.le_add_right _ _
  · rw [List.length_append]
    omega

/-- It grows by less if the device has no room, or had none before. -/
theorem length_write_lt {f : FileOutputStream} {data : List UInt8} {device : Device}
    (h : f.badbit = true ∨ device ≠ .takes) (hdata : data ≠ []) :
    (f.write data device).written.length < f.written.length + data.length := by
  have hpos := List.length_pos_iff.mpr hdata
  unfold write
  split
  · omega
  · rename_i hgood
    simp only [Bool.or_eq_true, decide_eq_true_eq, not_or, Bool.not_eq_true] at hgood
    have hlt := Device.length_written_lt (h.resolve_left (by simp [hgood.1])) hdata
    rw [List.length_append]
    omega

end FileOutputStream

/-- What a read of the stream meets: the connection, whether the directory and the file can be
had, the name that would be given to it, and the device. -/
structure CachingRead where
  sgetn : Sgetn
  getTempDirectory : Bool := true
  tempName : String := "/cache/temp"
  openFile : Bool := true
  device : Device := .takes

/-- The file can be made. -/
def CachingRead.creates (env : CachingRead) : Bool := env.getTempDirectory && env.openFile

/-- What `close` meets besides: `flush` is the device when the file is closed. -/
structure CachingClose where
  skip : SkipAll CachingRead
  flush : Device := .takes
  /-- what `CacheManager::put` answers -/
  put : Except HttpException Bool := .ok true
  removeFileIfPresent : Bool := true

/-- What was put, with what the file held. -/
structure CachePut where
  httpCacheMetadata : HttpCacheMetadata
  file : List UInt8

/-- What a `close` asks of the pool. -/
inductive PoolCall where
  | releaseConnection (p : ConnectionPtr)
  | removeConnection (p : ConnectionPtr)
deriving DecidableEq

/-- A stream that copies what is read into a temporary file. -/
structure ResponseBodyStreamWithCaching where
  base : ResponseBodyStreamInternal
  /-- `none` for NULL -/
  connectionInternal : Option ConnectionPtr
  response : Response
  tempFilePath : String
  /-- `none` for NULL -/
  tempFileStream : Option FileOutputStream
  writtenDataSize : Int64

/-- How a `close` ended. -/
structure CachingClosed where
  result : Except HttpException Unit
  stream : ResponseBodyStreamWithCaching
  /-- that of the socket -/
  receiveTimeout : Int64
  poolCall : Option PoolCall
  /-- the entry that the cache has taken -/
  stored : Option CachePut

namespace ResponseBodyStreamWithCaching

def construct (content : IStream) (connectionInternal : Option ConnectionPtr)
    (response : Response) : ResponseBodyStreamWithCaching where
  base := ResponseBodyStreamInternal.construct content
  connectionInternal := connectionInternal
  response := response
  tempFilePath := ""
  tempFileStream := none
  writtenDataSize := 0

/-! ## Reading -/

/-- The file is made at the first read; the answer is whether there is one. -/
def createTempFile (s : ResponseBodyStreamWithCaching) (env : CachingRead) :
    Bool × ResponseBodyStreamWithCaching :=
  if s.tempFileStream.isSome then (true, s)
  else if !env.creates then (false, { s with tempFileStream := none, tempFilePath := "" })
  else (true, { s with
    tempFilePath := env.tempName
    tempFileStream := some {}
    writtenDataSize := 0 })

/-- The end of `read`: what was read is written to the file, if there is one. -/
def save (s : ResponseBodyStreamWithCaching) (data : List UInt8) (env : CachingRead) :
    ResponseBodyStreamWithCaching :=
  let (created, s) := s.createTempFile env
  if !created then s
  else { s with
    tempFileStream := s.tempFileStream.map (·.write data env.device)
    writtenDataSize := s.writtenDataSize + Int64.ofNat data.length }

/-- A read by the user, which is copied to the file. -/
def read (s : ResponseBodyStreamWithCaching) (buffer : Bool) (readBytes : UInt64)
    (env : CachingRead) : ReadResult × ResponseBodyStreamWithCaching :=
  match s.base.read buffer readBytes env.sgetn with
  | (.ok (some data), base) =>
    if base.closed then
      (.error (.illegalState "stream already closed."), { s with base := base })
    else (.ok (some data), ({ s with base := base }).save data env)
  | (r, base) => (r, { s with base := base })

theorem save_connectionInternal (s : ResponseBodyStreamWithCaching) (data : List UInt8)
    (env : CachingRead) : (s.save data env).connectionInternal = s.connectionInternal := by
  unfold save createTempFile
  by_cases hfile : s.tempFileStream.isSome = true
  · rw [if_pos hfile]
    rfl
  · rw [if_neg hfile]
    by_cases hcreates : (!env.creates) = true
    · rw [if_pos hcreates]
      rfl
    · rw [if_neg hcreates]
      rfl

theorem read_connectionInternal (s : ResponseBodyStreamWithCaching) (buffer : Bool)
    (readBytes : UInt64) (env : CachingRead) :
    (s.read buffer readBytes env).2.connectionInternal = s.connectionInternal := by
  unfold read
  split
  · split
    · rfl
    · exact save_connectionInternal ..
  · rfl

/-! ## Closing -/

/-- It is asked before the stream is closed, so `isEof` does not throw. -/
def isValidResponseBody (s : ResponseBodyStreamWithCaching) : Bool :=
  if !s.response.hasContentLength then s.base.content.eofbit
  else if s.response.contentLength = -1 then s.base.content.eofbit
  else s.response.contentLength = s.writtenDataSize

/-- What the file holds when its stream has been closed; what `close` reports is not read. -/
def closeOutStream (s : ResponseBodyStreamWithCaching) (flush : Device) :
    Option (List UInt8) × ResponseBodyStreamWithCaching :=
  (s.tempFileStream.map (flush.written ·.written), { s with tempFileStream := none })

/-- The answer of the file system is `removeFileIfPresent`. -/
def removeTempFile (s : ResponseBodyStreamWithCaching) (removeFileIfPresent : Bool) :
    Except HttpException Unit :=
  if s.tempFilePath = "" then .ok ()
  else if removeFileIfPresent then .ok ()
  else .error (.execution "can not receive response because IO error occurred.(remove)")

variable (makeCacheKey : HttpMethod → String → String)

/-- The metadata that `putCache` puts. -/
def putCacheMetadata (s : ResponseBodyStreamWithCaching) : HttpCacheMetadata :=
  SharedCache.putCacheMetadata makeCacheKey s.response s.writtenDataSize.toUInt64

/-- `put` moves the file, so without one it does not answer true. -/
def putCache (s : ResponseBodyStreamWithCaching) (file : Option (List UInt8))
    (env : CachingClose) : Except HttpException Unit × Option CachePut :=
  let httpCacheMetadata := s.putCacheMetadata makeCacheKey
  if httpCacheMetadata.key = "" then (s.removeTempFile env.removeFileIfPresent, none)
  else match env.put, file with
    | .error e, _ => (.error e, none)
    | .ok true, some file => (.ok (), some ⟨httpCacheMetadata, file⟩)
    | .ok _, _ => (s.removeTempFile env.removeFileIfPresent, none)

/-- The read that `skipAll` calls. -/
def skipRead (s : ResponseBodyStreamWithCaching) (env : CachingRead) :
    ReadResult × ResponseBodyStreamWithCaching :=
  s.read true responseBodySkipBytes env

/-- The end of `close`, when the connection has been given back. -/
def finishClose (s : ResponseBodyStreamWithCaching) (env : CachingClose) :
    Except HttpException Unit × ResponseBodyStreamWithCaching × Option CachePut :=
  let responseBodyValid := s.isValidResponseBody
  let (file, s) := ({ s with base := s.base.close }).closeOutStream env.flush
  if responseBodyValid then
    let (result, stored) := s.putCache makeCacheKey file env
    (result, s, stored)
  else (s.removeTempFile env.removeFileIfPresent, s, none)

/-- `receiveTimeout` is that of the connection's socket. -/
def close (s : ResponseBodyStreamWithCaching) (receiveTimeout : Int64) (env : CachingClose) :
    CachingClosed :=
  if s.base.closed then ⟨.ok (), s, receiveTimeout, none, none⟩
  else match s.connectionInternal with
    -- the pointer is dereferenced without a check
    | none => ⟨.error (.poco "Null pointer"), s, receiveTimeout, none, none⟩
    | some p =>
      let (reusable, s, receiveTimeout) := skipAll (·.base) skipRead env.skip s receiveTimeout
      let (result, s, stored) :=
        ({ s with connectionInternal := none }).finishClose makeCacheKey env
      { result := result
        stream := s
        receiveTimeout := receiveTimeout
        poolCall := some (if reusable then .releaseConnection p else .removeConnection p)
        stored := stored }

section
variable (s : ResponseBodyStreamWithCaching) (env : CachingClose)

/-- The stream itself is closed. -/
theorem finishClose_base : (s.finishClose makeCacheKey env).2.1.base = s.base.close := by
  simp only [finishClose, closeOutStream]
  split <;> rfl

theorem finishClose_connectionInternal :
    (s.finishClose makeCacheKey env).2.1.connectionInternal = s.connectionInternal := by
  simp only [finishClose, closeOutStream]
  split <;> rfl

end

end ResponseBodyStreamWithCaching

end EasyHttp
