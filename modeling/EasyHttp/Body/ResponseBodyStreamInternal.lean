import EasyHttp.Message.Headers

/-!
# `ResponseBodyStreamInternal`

The part that the two streams over a connection share. The content is a `std::istream` whose
exceptions are not enabled: what goes wrong in a read is seen in its state bits only. `skipAll`
calls the virtual `read`, so it is a function of the read of the class at hand.

* `IStream.read`, `ResponseBodyStreamInternal.read`: one read;
* `skipAll`: the timed loop that reads the rest before a connection is used again;
* `skipReads`: the reads which that loop makes.
-/

namespace EasyHttp

/-- A `std::istream`, and the bytes that have been read from it, which no code looks at. -/
structure IStream where
  eofbit : Bool := false
  failbit : Bool := false
  badbit : Bool := false
  extracted : List UInt8 := []
deriving DecidableEq

/-- What the buffer of an istream answers when it is asked for bytes: these, fewer than asked for
only at the end, or it throws. -/
inductive Sgetn where
  | bytes (data : List UInt8)
  | throws
deriving DecidableEq

namespace IStream

/-- No bit is set. -/
def good (s : IStream) : Bool := !s.eofbit && !s.failbit && !s.badbit

/-- `istream::read`: what it extracts, `gcount` bytes, and the stream afterwards. -/
def read (s : IStream) (n : ℕ) (answer : Sgetn) : List UInt8 × IStream :=
  if !s.good then ([], { s with failbit := true })
  else match answer with
    | .throws => ([], { s with badbit := true })
    | .bytes data =>
      (data.take n, { s with
        eofbit := (data.take n).length < n
        failbit := (data.take n).length < n
        extracted := s.extracted ++ data.take n })

/-- What is read is what comes to the bytes extracted. -/
theorem extracted_read (s : IStream) (n : ℕ) (answer : Sgetn) :
    (s.read n answer).2.extracted = s.extracted ++ (s.read n answer).1 := by
  unfold read
  split
  · exact (List.append_nil _).symm
  · cases answer with
    | throws => exact (List.append_nil _).symm
    | bytes data => rfl

/-- A read that fails before the end gets nothing. -/
theorem read_failed {s : IStream} {n : ℕ} {answer : Sgetn}
    (h : (((s.read n answer).2.failbit || (s.read n answer).2.badbit)
      && !(s.read n answer).2.eofbit) = true) : (s.read n answer).1 = [] := by
  unfold read at h ⊢
  split
  · rfl
  · rename_i hgood
    rw [if_neg hgood] at h
    cases answer with
    | throws => rfl
    | bytes data =>
      have hbad : s.badbit = false := by
        rw [Bool.not_eq_true, Bool.not_eq_false', good, Bool.and_eq_true, Bool.not_eq_true'] at hgood
        exact hgood.2
      simp [hbad] at h

end IStream

/-- `SSIZE_MAX` -/
def ssizeMax : UInt64 := 9223372036854775807

/-- The stream that the user reads, on that of the session. -/
structure ResponseBodyStreamInternal where
  closed : Bool
  content : IStream
deriving DecidableEq

namespace ResponseBodyStreamInternal

def construct (content : IStream) : ResponseBodyStreamInternal where
  closed := false
  content := content

/-- It throws where the stream is bad. -/
def isEof (s : ResponseBodyStreamInternal) : Except HttpException Bool :=
  if s.closed then .error (.illegalState "stream already closed.")
  else .ok s.content.eofbit

theorem eofbit_of_isEof {s : ResponseBodyStreamInternal} (h : s.isEof = .ok true) :
    s.content.eofbit = true := by
  unfold isEof at h
  split at h
  · cases h
  · exact Except.ok.inj h

/-- What `read` answers: the bytes, or `none` for -1. -/
abbrev ReadResult := Except HttpException (Option (List UInt8))

/-- The `try` of `read`. The exception for a failed `istream::read` is caught right there. -/
def readContent (s : ResponseBodyStreamInternal) (readBytes : UInt64) (answer : Sgetn) :
    ReadResult × ResponseBodyStreamInternal :=
  if s.content.eofbit then (.ok none, s)
  else
    let (data, content) := s.content.read readBytes.toNat answer
    (if (content.failbit || content.badbit) && !content.eofbit then
      .error (.execution "can not read from stream.")
    else .ok (some data), { s with content := content })

/-- `buffer` is false for NULL. -/
def read (s : ResponseBodyStreamInternal) (buffer : Bool) (readBytes : UInt64) (answer : Sgetn) :
    ReadResult × ResponseBodyStreamInternal :=
  if s.closed then (.error (.illegalState "stream already closed."), s)
  else if !buffer then (.error (.illegalArgument "pBuffer is NULL."), s)
  else if readBytes > ssizeMax then
    (.error (.illegalArgument
      ("readBytes is over SSIZE_MAX. [readBytes=" ++ toString readBytes.toNat ++ "]")), s)
  else s.readContent readBytes answer

/-- The stream is closed once. -/
def close (s : ResponseBodyStreamInternal) : ResponseBodyStreamInternal := { s with closed := true }

/-- The bytes that came with an answer of `read`. -/
def bytesOf : ReadResult → List UInt8
  | .ok (some data) => data
  | _ => []

section
variable (s : ResponseBodyStreamInternal) (buffer : Bool) (readBytes : UInt64) (answer : Sgetn)

/-- A read throws and changes nothing, or it comes to the content. -/
theorem read_cases :
    (∃ e, s.read buffer readBytes answer = (.error e, s)) ∨
      s.closed = false ∧ s.read buffer readBytes answer = s.readContent readBytes answer := by
  unfold read
  split
  · exact .inl ⟨_, rfl⟩
  rename_i hclosed
  split
  · exact .inl ⟨_, rfl⟩
  split
  · exact .inl ⟨_, rfl⟩
  · exact .inr ⟨Bool.eq_false_iff.mpr hclosed, rfl⟩

theorem read_closed : (s.read buffer readBytes answer).2.closed = s.closed := by
  rcases s.read_cases buffer readBytes answer with ⟨e, heq⟩ | ⟨-, heq⟩
  · rw [heq]
  · rw [heq, readContent]
    split <;> rfl

/-- The bytes that a read answers are those it has extracted. -/
theorem read_extracted :
    (s.read buffer readBytes answer).2.content.extracted =
      s.content.extracted ++ bytesOf (s.read buffer readBytes answer).1 := by
  rcases s.read_cases buffer readBytes answer with ⟨e, heq⟩ | ⟨-, heq⟩
  · rw [heq]
    exact (List.append_nil _).symm
  rw [heq, readContent]
  split
  · exact (List.append_nil _).symm
  have hread := s.content.extracted_read readBytes.toNat answer
  have hfailed := @IStream.read_failed s.content readBytes.toNat answer
  rcases hr : s.content.read readBytes.toNat answer with ⟨data, content⟩
  rw [hr] at hread hfailed
  show content.extracted = _
  rw [hread]
  show _ = _ ++ bytesOf (if _ then _ else _)
  split
  · rename_i h
    rw [show data = [] from hfailed h]
    rfl
  · rfl

end

/-! ## Skipping -/

/-- `ResponseBodySkipTimeout`, in microseconds -/
def responseBodySkipTimeout : Int64 := 100000

/-- The size of one read while the rest is skipped. -/
def responseBodySkipBytes : UInt64 := 8192

/-- One round of the loop in `skipAll`: the time since its start, whether the socket takes the
timeout, and what the read meets. -/
structure SkipRound (ρ : Type) where
  elapsed : Int64
  setReceiveTimeout : Bool
  meets : ρ

/-- What `skipAll` meets. When the rounds end, the time is over. -/
structure SkipAll (ρ : Type) where
  getReceiveTimeout : Bool
  rounds : List (SkipRound ρ)
  resetReceiveTimeout : Bool

section
variable {σ ρ : Type}
  -- the class that skips: its part here, and its read into a buffer of `responseBodySkipBytes`
  (base : σ → ResponseBodyStreamInternal) (read : σ → ρ → ReadResult × σ)

/-- The loop of `skipAll`: its `ret`, and the stream and the receive timeout of the socket. -/
def skipLoop : List (SkipRound ρ) → σ → Int64 → Bool × σ × Int64
  | rounds, s, receiveTimeout =>
    match isEof (base s) with
    | .error _ => (false, s, receiveTimeout)
    | .ok true => (true, s, receiveTimeout)
    | .ok false =>
      match rounds with
      | [] => (false, s, receiveTimeout)
      | round :: rounds =>
        let remainingTime := responseBodySkipTimeout - round.elapsed
        if remainingTime ≤ 0 then (false, s, receiveTimeout)
        else if !round.setReceiveTimeout then (false, s, receiveTimeout)
        else
          match read s round.meets with
          | (.error _, s) => (false, s, remainingTime)
          | (.ok _, s) => skipLoop rounds s remainingTime

/-- `receiveTimeout` is that of the socket. -/
def skipAll (env : SkipAll ρ) (s : σ) (receiveTimeout : Int64) : Bool × σ × Int64 :=
  if (base s).closed then (false, s, receiveTimeout)
  else if (base s).content.eofbit then (true, s, receiveTimeout)
  else if !env.getReceiveTimeout then (false, s, receiveTimeout)
  else
    let loop := skipLoop base read env.rounds s receiveTimeout
    if env.resetReceiveTimeout then (loop.1, loop.2.1, receiveTimeout)
    else (false, loop.2)

/-- What the reads of the loop meet, in their order. -/
def skipLoopReads : List (SkipRound ρ) → σ → List ρ
  | [], _ => []
  | round :: rounds, s =>
    match isEof (base s) with
    | .ok false =>
      if responseBodySkipTimeout - round.elapsed ≤ 0 then []
      else if !round.setReceiveTimeout then []
      else
        match read s round.meets with
        | (.error _, _) => [round.meets]
        | (.ok _, s) => round.meets :: skipLoopReads rounds s
    | _ => []

/-- What the reads of `skipAll` meet. -/
def skipReads (env : SkipAll ρ) (s : σ) : List ρ :=
  if (base s).closed || (base s).content.eofbit || !env.getReceiveTimeout then []
  else skipLoopReads base read env.rounds s

/-- The loop does to the stream what its reads do. -/
theorem skipLoop_stream (rounds : List (SkipRound ρ)) (s : σ) (receiveTimeout : Int64) :
    (skipLoop base read rounds s receiveTimeout).2.1 =
      (skipLoopReads base read rounds s).foldl (fun s r => (read s r).2) s := by
  fun_induction skipLoop base read rounds s receiveTimeout with
  | case1 rounds s _ e herror =>
    cases rounds with
    | nil => rfl
    | cons round rounds => rw [skipLoopReads, herror]; rfl
  | case2 rounds s _ heof =>
    cases rounds with
    | nil => rfl
    | cons round rounds => rw [skipLoopReads, heof]; rfl
  | case3 => rfl
  | case4 s _ hmore round rounds remainingTime hover =>
    simp only [skipLoopReads, hmore]
    rw [if_pos hover]
    rfl
  | case5 s _ hmore round rounds remainingTime hover hset =>
    simp only [skipLoopReads, hmore]
    rw [if_neg hover, if_pos hset]
    rfl
  | case6 s _ hmore round rounds remainingTime hover hset e s' hread =>
    simp only [skipLoopReads, hmore]
    rw [if_neg hover, if_neg hset, hread]
    show s' = (read s round.meets).2
    rw [hread]
  | case7 s _ hmore round rounds remainingTime hover hset r s' hread ih =>
    simp only [skipLoopReads, hmore]
    rw [if_neg hover, if_neg hset, hread, ih]
    show _ = List.foldl _ (read s round.meets).2 _
    rw [hread]

/-- To skip the rest is to read it. -/
theorem skipAll_stream (env : SkipAll ρ) (s : σ) (receiveTimeout : Int64) :
    (skipAll base read env s receiveTimeout).2.1 =
      (skipReads base read env s).foldl (fun s r => (read s r).2) s := by
  have hloop := skipLoop_stream base read env.rounds s receiveTimeout
  unfold skipAll skipReads
  by_cases hclosed : (base s).closed = true
  · simp [hclosed]
  by_cases heof : (base s).content.eofbit = true
  · simp [hclosed, heof]
  by_cases hget : env.getReceiveTimeout = true
  · simp only [hclosed, heof, hget, Bool.not_true, Bool.false_eq_true, if_false, Bool.or_self]
    rw [← hloop]
    split <;> rfl
  · simp [hclosed, heof, hget]

/-- A loop that answers true has come to the end of the stream. -/
theorem skipLoop_eof {rounds : List (SkipRound ρ)} {s : σ} {receiveTimeout : Int64}
    (h : (skipLoop base read rounds s receiveTimeout).1 = true) :
    (base (skipLoop base read rounds s receiveTimeout).2.1).content.eofbit = true := by
  fun_induction skipLoop base read rounds s receiveTimeout with
  | case1 => cases h
  | case2 _ s _ heof => exact eofbit_of_isEof heof
  | case3 => cases h
  | case4 => cases h
  | case5 => cases h
  | case6 => cases h
  | case7 _ _ _ _ _ _ _ _ _ _ _ ih => exact ih h

/-- When `skipAll` answers true, the stream is at its end and the socket has the receive timeout
that it had before. -/
theorem skipAll_true {env : SkipAll ρ} {s : σ} {receiveTimeout : Int64}
    (h : (skipAll base read env s receiveTimeout).1 = true) :
    (base (skipAll base read env s receiveTimeout).2.1).content.eofbit = true ∧
      (skipAll base read env s receiveTimeout).2.2 = receiveTimeout := by
  unfold skipAll at h ⊢
  split at h
  · cases h
  rename_i hclosed
  rw [if_neg hclosed]
  split at h
  · rename_i heof
    rw [if_pos heof]
    exact ⟨heof, rfl⟩
  rename_i heof
  rw [if_neg heof]
  split at h
  · cases h
  rename_i hget
  rw [if_neg hget]
  by_cases hreset : env.resetReceiveTimeout = true
  · rw [if_pos hreset] at h ⊢
    exact ⟨skipLoop_eof base read h, rfl⟩
  · rw [if_neg hreset] at h
    cases h

end

end ResponseBodyStreamInternal

end EasyHttp
