import EasyHttp.Body.ResponseBodyStreamWithCaching
import EasyHttp.Library.Runs

/-!
# What is stored of a body that was read

A stream is read any number of times and closed. The file is made and written without the reader
hearing of a failure, so what is stored depends on whether every read was saved.

* `Saved`: a read that got bytes had them written to the file;
* `Held`, `Lost`: the file has all that was read so far, or bytes are missing for good;
* `stored_iff_saved`: what is put is what was read exactly when every read was saved.
-/

namespace EasyHttp.ResponseBodyStreamWithCaching

open ResponseBodyStreamInternal

/-- One call of `read`. -/
structure ReadCall where
  buffer : Bool := true
  readBytes : UInt64 := responseBodySkipBytes
  meets : CachingRead

/-- A read as a step of a machine. -/
def step (s : ResponseBodyStreamWithCaching) (call : ReadCall) :
    Option ResponseBodyStreamWithCaching :=
  some (s.read call.buffer call.readBytes call.meets).2

/-- The stream after some reads. -/
def afterReads (s : ResponseBodyStreamWithCaching) (calls : List ReadCall) :
    ResponseBodyStreamWithCaching :=
  calls.foldl (fun s call => (s.read call.buffer call.readBytes call.meets).2) s

/-- The reads of a `close`. -/
def skipCalls (s : ResponseBodyStreamWithCaching) (env : CachingClose) : List ReadCall :=
  (skipReads (·.base) skipRead env.skip s).map fun meets => { meets := meets }

/-- If a read gets bytes, there is a file or it makes one, and the device takes them. -/
def Saved (s : ResponseBodyStreamWithCaching) (call : ReadCall) : Prop :=
  bytesOf (s.base.read call.buffer call.readBytes call.meets.sgetn).1 ≠ [] →
    (s.tempFileStream.isSome || call.meets.creates) = true ∧ call.meets.device = .takes

instance (s : ResponseBodyStreamWithCaching) (call : ReadCall) : Decidable (Saved s call) := by
  unfold Saved
  infer_instance

/-! ## One read -/

variable {s : ResponseBodyStreamWithCaching} {before : List UInt8}

/-- The bytes in the file. -/
def fileBytes (s : ResponseBodyStreamWithCaching) : List UInt8 :=
  (s.tempFileStream.map (·.written)).getD []

/-- The file has all bytes that were read after `before`, and their number is counted. -/
def Held (s : ResponseBodyStreamWithCaching) (before : List UInt8) : Prop :=
  s.base.content.extracted = before ++ s.fileBytes ∧
    s.tempFileStream.all (!·.badbit) = true ∧
    s.writtenDataSize = Int64.ofNat s.fileBytes.length

/-- Bytes that were read after `before` are missing in the file. -/
def Lost (s : ResponseBodyStreamWithCaching) (before : List UInt8) : Prop :=
  before.length + s.fileBytes.length < s.base.content.extracted.length

section
variable (buffer : Bool) (readBytes : UInt64) (env : CachingRead)

/-- A read without bytes leaves the file alone, and one with bytes ends in `save`. -/
theorem read_cases :
    bytesOf (s.base.read buffer readBytes env.sgetn).1 = [] ∧
        (s.read buffer readBytes env).2 =
          { s with base := (s.base.read buffer readBytes env.sgetn).2 } ∨
      (s.read buffer readBytes env).2 =
        ({ s with base := (s.base.read buffer readBytes env.sgetn).2 }).save
          (bytesOf (s.base.read buffer readBytes env.sgetn).1) env := by
  have hclosed := s.base.read_closed buffer readBytes env.sgetn
  have hopen := s.base.read_cases buffer readBytes env.sgetn
  unfold read
  rcases hread : s.base.read buffer readBytes env.sgetn with ⟨e | _ | data, base⟩
  · exact .inl ⟨rfl, rfl⟩
  · exact .inl ⟨rfl, rfl⟩
  · rw [hread] at hclosed hopen
    have hstill : base.closed = false := by
      rw [show base.closed = s.base.closed from hclosed]
      rcases hopen with ⟨e, heq⟩ | ⟨hopen, -⟩
      · cases heq
      · exact hopen
    refine .inr ?_
    show (if base.closed then _ else _ : ReadResult × ResponseBodyStreamWithCaching).2 = _
    rw [hstill]
    rfl

end

/-- `save` into the file that is there. -/
theorem save_some {f : FileOutputStream} (hfile : s.tempFileStream = some f) (data : List UInt8)
    (env : CachingRead) :
    s.save data env = { s with
      tempFileStream := some (f.write data env.device)
      writtenDataSize := s.writtenDataSize + Int64.ofNat data.length } := by
  obtain ⟨base, connectionInternal, response, tempFilePath, tempFileStream, size⟩ := s
  cases hfile
  rfl

/-- `save` into a file that it makes. -/
theorem save_creates {env : CachingRead} (hfile : s.tempFileStream = none)
    (hcreates : env.creates = true) (data : List UInt8) :
    s.save data env = { s with
      tempFilePath := env.tempName
      tempFileStream := some (FileOutputStream.write {} data env.device)
      writtenDataSize := 0 + Int64.ofNat data.length } := by
  unfold save createTempFile
  rw [hfile, hcreates]
  rfl

/-- Without a file nothing is saved. -/
theorem save_none {env : CachingRead} (hfile : s.tempFileStream = none)
    (hcreates : env.creates = false) (data : List UInt8) :
    s.save data env = { s with tempFilePath := "", tempFileStream := none } := by
  unfold save createTempFile
  rw [hfile, hcreates]
  rfl

theorem save_base (data : List UInt8) (env : CachingRead) : (s.save data env).base = s.base := by
  rcases Option.eq_none_or_eq_some s.tempFileStream with hfile | ⟨f, hfile⟩
  · by_cases hcreates : env.creates = true
    · rw [save_creates hfile hcreates]
    · rw [save_none hfile (Bool.eq_false_iff.mpr hcreates)]
  · rw [save_some hfile]

section
variable {data : List UInt8} {env : CachingRead}

/-- Bytes that are saved come to those in the file. -/
theorem held_save (hbytes : s.base.content.extracted = before ++ (s.fileBytes ++ data))
    (hgood : s.tempFileStream.all (!·.badbit) = true)
    (hsize : s.writtenDataSize = Int64.ofNat s.fileBytes.length)
    (hsaved : data ≠ [] → (s.tempFileStream.isSome || env.creates) = true ∧ env.device = .takes) :
    Held (s.save data env) before := by
  -- a device that takes everything writes everything
  have hwrite : ∀ written, FileOutputStream.write ⟨false, written⟩ data env.device =
      ⟨false, written ++ data⟩ := by
    intro written
    by_cases hdata : data = []
    · rw [hdata, List.append_nil]
      rfl
    · rw [(hsaved hdata).2]
      exact FileOutputStream.write_takes written data
  unfold Held
  rw [save_base]
  rcases Option.eq_none_or_eq_some s.tempFileStream with hfile | ⟨⟨badbit, written⟩, hfile⟩
  -- the file is made by the first data
  · have hempty : s.fileBytes = [] := by
      rw [fileBytes, hfile]
      rfl
    by_cases hcreates : env.creates = true
    · rw [save_creates hfile hcreates]
      rw [hempty] at hbytes
      simp [fileBytes, hbytes, hwrite]
    · have hdata : data = [] := by
        by_contra hdata
        have hhas := (hsaved hdata).1
        rw [hfile] at hhas
        exact hcreates hhas
      rw [save_none hfile (Bool.eq_false_iff.mpr hcreates)]
      rw [hempty, hdata] at hbytes
      rw [hempty] at hsize
      exact ⟨hbytes, rfl, hsize⟩
  -- the file is open and was good so far
  · have hbadbit : badbit = false := by
      rw [hfile] at hgood
      simpa using hgood
    subst hbadbit
    have hheld : s.fileBytes = written := by
      rw [fileBytes, hfile]
      rfl
    rw [hheld] at hbytes hsize
    rw [save_some hfile]
    simp [fileBytes, hbytes, hwrite, hsize]

/-- No more than the bytes that are saved come to those in the file. -/
theorem length_fileBytes_save (data : List UInt8) (env : CachingRead) :
    (s.save data env).fileBytes.length ≤ s.fileBytes.length + data.length := by
  rcases Option.eq_none_or_eq_some s.tempFileStream with hfile | ⟨f, hfile⟩
  · by_cases hcreates : env.creates = true
    · rw [save_creates hfile hcreates]
      have hle := FileOutputStream.length_write_le {} data env.device
      simp only [fileBytes, hfile] at hle ⊢
      exact hle
    · rw [save_none hfile (Bool.eq_false_iff.mpr hcreates)]
      exact Nat.zero_le _
  · rw [save_some hfile]
    have hle := f.length_write_le data env.device
    simp only [fileBytes, hfile] at hle ⊢
    exact hle

/-- Bytes that are not saved are missing in the file. -/
theorem length_fileBytes_save_lt (hdata : data ≠ [])
    (hsaved : ¬ ((s.tempFileStream.isSome || env.creates) = true ∧ env.device = .takes)) :
    (s.save data env).fileBytes.length < s.fileBytes.length + data.length := by
  have hpos := List.length_pos_iff.mpr hdata
  rw [not_and] at hsaved
  rcases Option.eq_none_or_eq_some s.tempFileStream with hfile | ⟨f, hfile⟩
  · by_cases hcreates : env.creates = true
    · rw [save_creates hfile hcreates]
      have hlt := @FileOutputStream.length_write_lt {} _ _
        (.inr (hsaved (by rw [hcreates, Bool.or_true]))) hdata
      simp only [fileBytes, hfile] at hlt ⊢
      exact hlt
    · rw [save_none hfile (Bool.eq_false_iff.mpr hcreates)]
      show 0 < _
      omega
  · rw [save_some hfile]
    have hlt := @FileOutputStream.length_write_lt f _ _
      (.inr (hsaved (by rw [hfile]; rfl))) hdata
    simp only [fileBytes, hfile] at hlt ⊢
    exact hlt

end

/-! ## Any number of reads -/

section
variable {call : ReadCall}

/-- What is read is taken from the stream of the session. -/
theorem extracted_read (s : ResponseBodyStreamWithCaching) (call : ReadCall) :
    (s.read call.buffer call.readBytes call.meets).2.base.content.extracted =
      s.base.content.extracted ++
        bytesOf (s.base.read call.buffer call.readBytes call.meets.sgetn).1 := by
  rw [← s.base.read_extracted]
  rcases read_cases (s := s) call.buffer call.readBytes call.meets with ⟨-, heq⟩ | heq
  · rw [heq]
  · rw [heq, save_base]

/-- The file keeps what was read. -/
theorem held_read (h : Held s before) (hsaved : Saved s call) :
    Held (s.read call.buffer call.readBytes call.meets).2 before := by
  obtain ⟨hbytes, hgood, hsize⟩ := h
  have hextracted := s.base.read_extracted call.buffer call.readBytes call.meets.sgetn
  rw [hbytes, List.append_assoc] at hextracted
  rcases read_cases (s := s) call.buffer call.readBytes call.meets with ⟨hnone, heq⟩ | heq
  · rw [hnone, List.append_nil] at hextracted
    rw [heq]
    exact ⟨hextracted, hgood, hsize⟩
  · rw [heq]
    exact held_save hextracted hgood hsize hsaved

/-- What is lost once stays lost. -/
theorem lost_read (h : Lost s before) :
    Lost (s.read call.buffer call.readBytes call.meets).2 before := by
  unfold Lost at h ⊢
  rw [extracted_read, List.length_append]
  rcases read_cases (s := s) call.buffer call.readBytes call.meets with ⟨-, heq⟩ | heq
  · rw [heq]
    show before.length + s.fileBytes.length < _
    omega
  · rw [heq]
    have hle := length_fileBytes_save
      (s := { s with base := (s.base.read call.buffer call.readBytes call.meets.sgetn).2 })
      (bytesOf (s.base.read call.buffer call.readBytes call.meets.sgetn).1) call.meets
    have hsame : fileBytes
        { s with base := (s.base.read call.buffer call.readBytes call.meets.sgetn).2 } =
          s.fileBytes := rfl
    rw [hsame] at hle
    omega

/-- What is not saved is lost. -/
theorem lost_of_not_saved (h : Held s before) (hsaved : ¬ Saved s call) :
    Lost (s.read call.buffer call.readBytes call.meets).2 before := by
  obtain ⟨hdata, hsaved⟩ := Classical.not_imp.mp hsaved
  unfold Lost
  rw [extracted_read, List.length_append, h.1, List.length_append]
  rcases read_cases (s := s) call.buffer call.readBytes call.meets with ⟨hnone, -⟩ | heq
  · exact (hdata hnone).elim
  · rw [heq]
    have hlt := length_fileBytes_save_lt
      (s := { s with base := (s.base.read call.buffer call.readBytes call.meets.sgetn).2 })
      hdata hsaved
    have hsame : fileBytes
        { s with base := (s.base.read call.buffer call.readBytes call.meets.sgetn).2 } =
          s.fileBytes := rfl
    rw [hsame] at hlt
    omega

/-- The file has all that was read if every read was saved. -/
theorem held_afterReads {calls : List ReadCall} (h : Held s before)
    (hsaved : Runs.EveryStep step Saved s calls) : Held (s.afterReads calls) before := by
  induction calls generalizing s with
  | nil => exact h
  | cons call calls ih =>
    obtain ⟨hfirst, hrest⟩ := hsaved.cons (t := (s.read call.buffer call.readBytes call.meets).2) rfl
    exact ih (held_read h hfirst) hrest

theorem lost_afterReads {calls : List ReadCall} (h : Lost s before) :
    Lost (s.afterReads calls) before := by
  induction calls generalizing s with
  | nil => exact h
  | cons call calls ih => exact ih (lost_read h)

/-- One read that was not saved is enough. -/
theorem lost_of_not_everyStep {calls : List ReadCall} (h : Held s before)
    (hsaved : ¬ Runs.EveryStep step Saved s calls) : Lost (s.afterReads calls) before := by
  induction calls generalizing s with
  | nil => exact (hsaved trivial).elim
  | cons call calls ih =>
    by_cases hfirst : Saved s call
    · exact ih (held_read h hfirst) fun hrest => hsaved ⟨hfirst, hrest⟩
    · show Lost ((s.read call.buffer call.readBytes call.meets).2.afterReads calls) before
      exact lost_afterReads (lost_of_not_saved h hfirst)

end

/-! ## Closing -/

section
variable {makeCacheKey : HttpMethod → String → String} {receiveTimeout : Int64}
  {env : CachingClose} {put : CachePut}

/-- The reads that skip the rest are reads as well. -/
theorem skipAll_afterReads :
    (skipAll (·.base) skipRead env.skip s receiveTimeout).2.1 =
      s.afterReads (s.skipCalls env) := by
  rw [skipAll_stream, skipCalls, afterReads, List.foldl_map]
  rfl

/-- What goes into the cache is the file and what the response says of itself. -/
theorem putCache_some {file : Option (List UInt8)}
    (h : (s.putCache makeCacheKey file env).2 = some put) :
    put.httpCacheMetadata = s.putCacheMetadata makeCacheKey ∧ file = some put.file := by
  simp only [putCache] at h
  split at h
  · cases h
  split at h
  · cases h
  · cases h
    exact ⟨rfl, rfl⟩
  · cases h

/-- The stored file is what the device has taken of the bytes, with the number of all that were
read. -/
theorem finishClose_stored (h : (s.finishClose makeCacheKey env).2.2 = some put) :
    put.file = env.flush.written s.fileBytes ∧
      put.httpCacheMetadata.responseBodySize = s.writtenDataSize.toUInt64 := by
  simp only [finishClose, closeOutStream] at h
  split at h
  · obtain ⟨hmetadata, hfile⟩ := putCache_some h
    rw [hmetadata, fileBytes]
    refine ⟨?_, rfl⟩
    rcases Option.eq_none_or_eq_some s.tempFileStream with hnone | ⟨f, hsome⟩
    · rw [hnone] at hfile
      cases hfile
    · rw [hsome] at hfile ⊢
      exact (Option.some.inj hfile).symm
  · cases h

/-- What is put is the file as the last read of `close` left it. -/
theorem close_stored (h : (s.close makeCacheKey receiveTimeout env).stored = some put) :
    let last := s.afterReads (s.skipCalls env)
    (s.close makeCacheKey receiveTimeout env).stream.base.content = last.base.content ∧
      put.file = env.flush.written last.fileBytes ∧
      put.httpCacheMetadata.responseBodySize = last.writtenDataSize.toUInt64 := by
  rw [← @skipAll_afterReads s receiveTimeout env]
  unfold close at h ⊢
  split at h
  · cases h
  rename_i hopen
  rw [if_neg hopen]
  cases hconnection : s.connectionInternal with
  | none =>
    rw [hconnection] at h
    cases h
  | some p =>
    rw [hconnection] at h
    have hstored := @finishClose_stored _ makeCacheKey env put h
    refine ⟨?_, hstored⟩
    show (finishClose makeCacheKey _ env).2.1.base.content = _
    rw [finishClose_base]
    rfl

end

/-! ## What is stored -/

/-- The bytes that the reads of a stream got. -/
def bytesRead (s : ResponseBodyStreamWithCaching) (calls : List ReadCall) : List UInt8 :=
  (s.afterReads calls).base.content.extracted.drop s.base.content.extracted.length

/-- All reads of a stream that is read and then closed. -/
def allCalls (s : ResponseBodyStreamWithCaching) (calls : List ReadCall) (env : CachingClose) :
    List ReadCall :=
  calls ++ (s.afterReads calls).skipCalls env

/-- The entry has the bytes that were read from the connection since the content was `content`,
and their number. -/
def StoresWhatWasRead (content : IStream) (closed : CachingClosed) (put : CachePut) : Prop :=
  closed.stream.base.content.extracted = content.extracted ++ put.file ∧
    put.httpCacheMetadata.responseBodySize.toNat = put.file.length

instance (content : IStream) (closed : CachingClosed) (put : CachePut) :
    Decidable (StoresWhatWasRead content closed put) := by
  unfold StoresWhatWasRead
  infer_instance

/-- Every read was saved, those of `close` included; the file took what it had still to write
when it was closed; and the counter can count the bytes. -/
structure NothingLost (s : ResponseBodyStreamWithCaching) (calls : List ReadCall)
    (env : CachingClose) : Prop where
  saved : Runs.EveryStep step Saved s (s.allCalls calls env)
  flushed : env.flush = .takes ∨ s.bytesRead (s.allCalls calls env) = []
  counted : (s.bytesRead (s.allCalls calls env)).length < 2 ^ 64

/-- What is put is what was read exactly when nothing was lost. -/
theorem stored_iff_nothingLost (makeCacheKey : HttpMethod → String → String) (content : IStream)
    (connectionInternal : Option ConnectionPtr) (response : Response) (calls : List ReadCall)
    (receiveTimeout : Int64) (env : CachingClose) (put : CachePut)
    (hstored : (((construct content connectionInternal response).afterReads calls).close
      makeCacheKey receiveTimeout env).stored = some put) :
    StoresWhatWasRead content
        (((construct content connectionInternal response).afterReads calls).close makeCacheKey
          receiveTimeout env) put ↔
      NothingLost (construct content connectionInternal response) calls env := by
  -- `close` has stored the file with the number it counted
  obtain ⟨hcontent, hfile, hsize⟩ := close_stored hstored
  set s := construct content connectionInternal response with hs
  set last := (s.afterReads calls).afterReads ((s.afterReads calls).skipCalls env)
  have hlast : s.afterReads (s.allCalls calls env) = last := List.foldl_append
  have hinit : Held s content.extracted := ⟨(List.append_nil _).symm, rfl, rfl⟩
  unfold StoresWhatWasRead
  rw [hcontent, hfile, hsize]
  by_cases hsaved : Runs.EveryStep step Saved s (s.allCalls calls env)
  -- no read has lost anything: what counts is the flush, and the number
  · obtain ⟨hbytes, -, hcount⟩ := held_afterReads hinit hsaved
    rw [hlast] at hbytes hcount
    have hread : s.bytesRead (s.allCalls calls env) = last.fileBytes := by
      rw [bytesRead, hlast, hbytes]
      exact List.drop_left
    have hnumber : last.writtenDataSize.toUInt64.toNat = last.fileBytes.length % 2 ^ 64 := by
      rw [hcount]
      rfl
    rw [hbytes, hnumber, List.append_cancel_left_eq, eq_comm, Device.written_eq_iff]
    refine ⟨fun ⟨hflush, hsize⟩ => ⟨hsaved, ?_, ?_⟩, fun h => ⟨?_, ?_⟩⟩
    · rw [hread]
      exact hflush
    · rw [hread]
      rw [Device.written_eq_iff.mpr hflush] at hsize
      omega
    · exact hread ▸ h.flushed
    · have hflush := hread ▸ h.flushed
      have hsmall := h.counted
      rw [hread] at hsmall
      rw [Device.written_eq_iff.mpr hflush]
      omega
  -- some read has lost bytes: the file is shorter than what was read
  · have hlost := lost_of_not_everyStep hinit hsaved
    rw [hlast, Lost] at hlost
    refine iff_of_false (fun h => ?_) fun h => hsaved h.saved
    have hlength := congrArg List.length h.1
    have hle := env.flush.length_written_le last.fileBytes
    rw [List.length_append] at hlength
    omega

/-- A response without a content length. -/
def chunkedResponse : Response where
  request := ⟨.get, "http://a.com/", none, 0, {}, none⟩

/-- A body of two bytes is read and closed; the device takes the second byte or not. -/
def closeTwoBytes (device : Device) : CachingClosed :=
  ((construct {} (some 7) chunkedResponse).afterReads
    [{ readBytes := 1, meets := { sgetn := .bytes [1] } },
      { readBytes := 1, meets := { sgetn := .bytes [2], device := device } }]).close
    (fun _ url => url) 60000000
    { skip := ⟨true, [⟨0, true, { sgetn := .bytes [] }⟩], true⟩ }

theorem stored_iff_nothingLost_twoBytes :
    ∃ put ∈ (closeTwoBytes .takes).stored, put.file = [1, 2] ∧
      (StoresWhatWasRead {} (closeTwoBytes .takes) put ↔
        NothingLost (construct {} (some 7) chunkedResponse)
          [{ readBytes := 1, meets := { sgetn := .bytes [1] } },
            { readBytes := 1, meets := { sgetn := .bytes [2] } }]
          { skip := ⟨true, [⟨0, true, { sgetn := .bytes [] }⟩], true⟩ }) := by
  have hstored : ∃ put ∈ (closeTwoBytes .takes).stored, put.file = [1, 2] := by decide +kernel
  obtain ⟨put, hput, hfile⟩ := hstored
  exact ⟨put, hput, hfile, stored_iff_nothingLost _ _ _ _ _ _ _ _ hput⟩

/-- The second byte is not written, and an entry of two bytes is put whose file has one. -/
theorem not_storesWhatWasRead_failedWrite :
    ∃ put ∈ (closeTwoBytes (.fails 0)).stored, put.file = [1] ∧
      put.httpCacheMetadata.responseBodySize = 2 ∧
      ¬ StoresWhatWasRead {} (closeTwoBytes (.fails 0)) put := by
  decide +kernel

end EasyHttp.ResponseBodyStreamWithCaching
