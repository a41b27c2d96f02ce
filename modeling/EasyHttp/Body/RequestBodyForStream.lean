import EasyHttp.Body.ResponseBodyStreamInternal

/-!
# Request bodies from a stream

`RequestBodyForStream` and `RequestBodyForSharedPtrStream` copy a `std::istream` to the server, and
`reset` goes back to the start of the stream when the request is to be sent once more. Neither
stream has its exceptions enabled.

* `ContentStream`: a seekable stream;
* `writeLoop`: the loop of `RequestBodyUtil::write`, for a number of reads;
* `ends_iff`: when the loop ends;
* `replays_iff`: when a body can be sent again.
-/

namespace EasyHttp

/-- No bit is set. -/
theorem IStream.good_iff {s : IStream} :
    s.good = true ↔ s.eofbit = false ∧ s.failbit = false ∧ s.badbit = false := by
  simp [IStream.good, and_assoc]

/-- A `std::istream` over a content that can be sought. -/
structure ContentStream where
  state : IStream := {}
  content : List UInt8
  position : ℕ := 0

namespace ContentStream

/-- What is still to be read. -/
def rest (s : ContentStream) : List UInt8 := s.content.drop s.position

/-- `istream::read`; the buffer of the stream may throw. -/
def read (s : ContentStream) (n : ℕ) (throws : Bool) : List UInt8 × ContentStream :=
  let (data, state) := s.state.read n (if throws then .throws else .bytes s.rest)
  (data, { s with state := state, position := s.position + data.length })

/-- `istream::fail` -/
def fail (s : ContentStream) : Bool := s.state.failbit || s.state.badbit

/-- `seekg(0, std::istream::beg)` -/
def seekBegin (s : ContentStream) : ContentStream :=
  if s.fail then { s with state := { s.state with eofbit := false } }
  else { s with state := { s.state with eofbit := false }, position := 0 }

end ContentStream

/-! ## `RequestBodyUtil` -/

namespace RequestBodyUtil

/-- The size of one read. -/
def ReadBufferSize : ℕ := 4096

/-- The loop of `write`, if it ends after at most that many reads: what is written, and the stream
afterwards. `throws` tells which of the reads fail in the stream's buffer. -/
def writeLoop : (ℕ → Bool) → ℕ → ContentStream → Option (List UInt8 × ContentStream)
  | _, 0, s => if s.state.eofbit then some ([], s) else none
  | throws, n + 1, s =>
    if s.state.eofbit then some ([], s)
    else
      let (data, next) := s.read ReadBufferSize (throws 0)
      (writeLoop (fun k => throws (k + 1)) n next).map fun (written, last) =>
        (data ++ written, last)

/-- `write` ends, and this is what it writes and leaves. -/
def Writes (throws : ℕ → Bool) (s : ContentStream) (written : List UInt8) (last : ContentStream) :
    Prop :=
  ∃ n, writeLoop throws n s = some (written, last)

/-- The loop ends after finitely many reads. -/
def Ends (throws : ℕ → Bool) (s : ContentStream) : Prop := ∃ n, (writeLoop throws n s).isSome

end RequestBodyUtil

/-- `reset` of both classes, and the stream afterwards. -/
def streamReset (s : ContentStream) : Bool × ContentStream := (!s.seekBegin.fail, s.seekBegin)

namespace RequestBodyForStream

def writeTo := RequestBodyUtil.Writes

def reset := streamReset

end RequestBodyForStream

namespace RequestBodyForSharedPtrStream

/-- `none` is NULL. -/
def construct : Option ContentStream → Except HttpException ContentStream
  | some content => .ok content
  | none => .error (.illegalArgument "pContent cannot be NULL.")

def writeTo := RequestBodyUtil.Writes

def reset := streamReset

end RequestBodyForSharedPtrStream

/-! ## What a read does -/

namespace ContentStream

variable {s : ContentStream} {n : ℕ}

/-- A read that fails in the buffer, or on a stream that is not good. -/
theorem read_throws (hgood : s.state.good = true) :
    s.read n true = ([], { s with state := { s.state with badbit := true } }) := by
  unfold read IStream.read
  rw [hgood]
  rfl

/-- A read from a stream that is not good gives nothing and fails. -/
theorem read_not_good (hgood : s.state.good = false) (throws : Bool) :
    s.read n throws = ([], { s with state := { s.state with failbit := true } }) := by
  unfold read IStream.read
  rw [hgood]
  rfl

/-- A read of a good stream gets the next bytes; it comes to the end if there are not enough. -/
theorem read_good (hgood : s.state.good = true) :
    (s.read n false).1 = s.rest.take n ∧
      (s.read n false).2.rest = s.rest.drop n ∧
      (s.read n false).2.content = s.content ∧
      (s.read n false).2.state.badbit = false ∧
      (s.read n false).2.state.eofbit = decide (s.rest.length < n) ∧
      (s.read n false).2.state.failbit = decide (s.rest.length < n) := by
  have hread : s.state.read n (.bytes s.rest) = (s.rest.take n, { s.state with
      eofbit := (s.rest.take n).length < n
      failbit := (s.rest.take n).length < n
      extracted := s.state.extracted ++ s.rest.take n }) := by
    unfold IStream.read
    rw [hgood]
    rfl
  have hlength : ((s.rest.take n).length < n) = (s.rest.length < n) := by
    rw [List.length_take]
    exact propext ⟨fun h => by omega, fun h => by omega⟩
  have hbad : s.state.badbit = false := (IStream.good_iff.mp hgood).2.2
  unfold read
  rw [if_neg Bool.false_ne_true, hread]
  refine ⟨rfl, ?_, rfl, hbad, ?_, ?_⟩
  · show s.content.drop (s.position + (s.rest.take n).length) = s.rest.drop n
    rw [← List.drop_drop]
    show s.rest.drop (s.rest.take n).length = s.rest.drop n
    rw [List.length_take]
    by_cases h : n ≤ s.rest.length
    · rw [Nat.min_eq_left h]
    · rw [Nat.min_eq_right (by omega), List.drop_length, List.drop_of_length_le (by omega)]
  · show decide ((s.rest.take n).length < n) = _
    simp only [hlength]
  · show decide ((s.rest.take n).length < n) = _
    simp only [hlength]

end ContentStream

namespace RequestBodyUtil

variable {throws : ℕ → Bool} {s : ContentStream}

/-! ## When the loop ends -/

/-- The loop stops at the end of the stream. -/
theorem writeLoop_eof (h : s.state.eofbit = true) (n : ℕ) :
    writeLoop throws n s = some ([], s) := by
  cases n with
  | zero => rw [writeLoop, if_pos h]
  | succ n => rw [writeLoop, if_pos h]

/-- Otherwise it reads once more. -/
theorem writeLoop_succ (h : s.state.eofbit = false) (n : ℕ) :
    writeLoop throws (n + 1) s =
      (writeLoop (fun k => throws (k + 1)) n (s.read ReadBufferSize (throws 0)).2).map
        fun (written, last) => ((s.read ReadBufferSize (throws 0)).1 ++ written, last) := by
  rw [writeLoop, if_neg (by rw [h]; exact Bool.false_ne_true)]

/-- At the end of the stream the loop ends at once. -/
theorem ends_eof (h : s.state.eofbit = true) : Ends throws s :=
  ⟨0, by rw [writeLoop_eof h]; rfl⟩

/-- The loop goes on with the next read. -/
theorem ends_succ (h : s.state.eofbit = false) : Ends throws s ↔
    Ends (fun k => throws (k + 1)) (s.read ReadBufferSize (throws 0)).2 := by
  constructor
  · rintro ⟨n, hn⟩
    cases n with
    | zero =>
      rw [writeLoop, h] at hn
      cases hn
    | succ n =>
      rw [writeLoop_succ h, Option.isSome_map] at hn
      exact ⟨n, hn⟩
  · rintro ⟨n, hn⟩
    refine ⟨n + 1, ?_⟩
    rw [writeLoop_succ h, Option.isSome_map]
    exact hn

/-- A stream that is not good never comes to its end. -/
theorem not_ends_fail (heof : s.state.eofbit = false) (hgood : s.state.good = false) :
    ¬Ends throws s := by
  rintro ⟨n, hn⟩
  induction n generalizing s throws with
  | zero =>
    rw [writeLoop, heof] at hn
    cases hn
  | succ n ih =>
    rw [writeLoop_succ heof, Option.isSome_map, s.read_not_good hgood] at hn
    refine ih (s := { s with state := { s.state with failbit := true } }) heof ?_ hn
    simp [IStream.good]

/-- From a good stream it ends if no read throws up to the end of the content. -/
theorem ends_good (hgood : s.state.good = true) :
    Ends throws s ↔ ∀ k < s.rest.length / ReadBufferSize + 1, throws k = false := by
  -- on how much is still to be read
  induction hlength : s.rest.length using Nat.strongRecOn generalizing s throws with
  | ind length ih =>
  have heof : s.state.eofbit = false := (IStream.good_iff.mp hgood).1
  rw [ends_succ heof]
  cases hthrows : throws 0 with
  -- the first read throws
  | true =>
    rw [ContentStream.read_throws hgood]
    refine iff_of_false (not_ends_fail heof (by simp [IStream.good])) fun h => ?_
    rw [h 0 (Nat.succ_pos _)] at hthrows
    cases hthrows
  | false =>
    obtain ⟨-, hrest, -, hbad, heof', hfail⟩ := s.read_good (n := ReadBufferSize) hgood
    -- the last read, which finds the end; otherwise another one follows
    by_cases hshort : s.rest.length < ReadBufferSize
    · rw [decide_eq_true hshort] at heof'
      refine iff_of_true (ends_eof heof') fun k hk => ?_
      rw [Nat.div_eq_of_lt (hlength ▸ hshort)] at hk
      rw [Nat.lt_one_iff.mp hk]
      exact hthrows
    · rw [decide_eq_false hshort] at heof' hfail
      have hgood' : (s.read ReadBufferSize false).2.state.good = true :=
        IStream.good_iff.mpr ⟨heof', hfail, hbad⟩
      have hsize : 0 < ReadBufferSize := by decide
      have hless : (s.read ReadBufferSize false).2.rest.length = length - ReadBufferSize := by
        rw [hrest, List.length_drop, hlength]
      rw [hlength] at hshort
      rw [ih _ (by omega) hgood' hless]
      -- one read more is one quotient more
      have hdiv : length / ReadBufferSize = (length - ReadBufferSize) / ReadBufferSize + 1 := by
        rw [← Nat.div_eq_sub_div hsize (Nat.le_of_not_lt hshort)]
      rw [hdiv]
      constructor
      · intro h k hk
        cases k with
        | zero => exact hthrows
        | succ k => exact h k (by omega)
      · exact fun h k hk => h (k + 1) (by omega)

/-- **The copy loop ends** when the stream's eofbit is set before, or when the stream is good and no
read up to the end of its content fails in the buffer; otherwise it never does. -/
theorem ends_iff (throws : ℕ → Bool) (s : ContentStream) :
    Ends throws s ↔ s.state.eofbit = true ∨
      s.state.good = true ∧ ∀ k < s.rest.length / ReadBufferSize + 1, throws k = false := by
  cases heof : s.state.eofbit with
  | true => exact iff_of_true (ends_eof heof) (.inl rfl)
  | false =>
    cases hgood : s.state.good with
    | true =>
      rw [ends_good hgood]
      simp
    | false =>
      refine iff_of_false (not_ends_fail heof hgood) ?_
      simp

/-- A stream whose failbit is set before, such as a file that could not be opened. -/
theorem not_ends_failbit :
    ¬Ends (fun _ => false) { state := { failbit := true }, content := [1, 2, 3] } :=
  not_ends_fail rfl rfl

/-! ## What is written -/

/-- A copy that ends has written all that was to be read, and leaves the stream with its failbit
set: the last read wanted more. -/
theorem writes_good {written : List UInt8} {last : ContentStream}
    (hgood : s.state.good = true) (h : Writes throws s written last) :
    written = s.rest ∧ last.fail = true := by
  obtain ⟨n, hn⟩ := h
  induction n generalizing s throws written with
  | zero =>
    have heof : s.state.eofbit = false := (IStream.good_iff.mp hgood).1
    rw [writeLoop, heof] at hn
    cases hn
  | succ n ih =>
    have heof : s.state.eofbit = false := (IStream.good_iff.mp hgood).1
    have hends : Ends throws s := ⟨n + 1, by rw [hn]; rfl⟩
    have hnone := (ends_good hgood).mp hends
    rw [writeLoop_succ heof, hnone 0 (Nat.succ_pos _)] at hn
    obtain ⟨⟨written', last'⟩, hloop, heq⟩ := Option.map_eq_some_iff.mp hn
    cases heq
    obtain ⟨hdata, hrest, -, hbad, heof', hfail⟩ := s.read_good (n := ReadBufferSize) hgood
    by_cases hshort : s.rest.length < ReadBufferSize
    · rw [decide_eq_true hshort] at heof' hfail
      rw [writeLoop_eof heof'] at hloop
      cases hloop
      refine ⟨?_, ?_⟩
      · rw [hdata, List.append_nil, List.take_of_length_le (by omega)]
      · rw [ContentStream.fail, hfail]
        rfl
    · rw [decide_eq_false hshort] at heof' hfail
      obtain ⟨hwritten, hlast⟩ := ih (IStream.good_iff.mpr ⟨heof', hfail, hbad⟩) hloop
      refine ⟨?_, hlast⟩
      rw [hdata, hwritten, hrest, List.take_append_drop]

end RequestBodyUtil

open RequestBodyUtil

/-! ## Sending once more -/

/-- `reset` succeeds after a body was written, and then the same is written once more. -/
def Replays (writeTo : (ℕ → Bool) → ContentStream → List UInt8 → ContentStream → Prop)
    (reset : ContentStream → Bool × ContentStream) (written : List UInt8) (last : ContentStream) :
    Prop :=
  (reset last).1 = true ∧ ∃ last', writeTo (fun _ => false) (reset last).2 written last'

/-- `reset` fails on a stream that has failed. -/
theorem reset_fails {s : ContentStream} (h : s.fail = true) : (streamReset s).1 = false := by
  have hsought : s.seekBegin.fail = true := by
    rw [ContentStream.seekBegin, if_pos h]
    exact h
  rw [streamReset, hsought]
  rfl

/-- A stream that only has its eofbit set is good again at its start. -/
theorem reset_succeeds {s : ContentStream} (h : s.fail = false) :
    (streamReset s).1 = true ∧ (streamReset s).2.state.good = true ∧
      (streamReset s).2.rest = s.content := by
  have hsought : s.seekBegin =
      { s with state := { s.state with eofbit := false }, position := 0 } := by
    rw [ContentStream.seekBegin, if_neg (by rw [h]; exact Bool.false_ne_true)]
  have hbits : s.state.failbit = false ∧ s.state.badbit = false := by
    rw [← Bool.or_eq_false_iff]
    exact h
  rw [streamReset, hsought]
  refine ⟨?_, IStream.good_iff.mpr ⟨rfl, hbits⟩, rfl⟩
  show (!s.fail) = true
  rw [h]
  rfl

/-- What was written can be written again only if there was nothing. -/
theorem replays_streamReset_iff {throws : ℕ → Bool} {s last : ContentStream}
    (hwrites : Writes throws s s.content last) :
    Replays Writes streamReset s.content last ↔
      s.content = [] ∧ s.state.eofbit = true ∧ s.fail = false := by
  cases heof : s.state.eofbit with
  | true =>
    -- nothing was read
    have hnothing : s.content = [] ∧ last = s := by
      obtain ⟨n, hn⟩ := hwrites
      rw [writeLoop_eof heof] at hn
      have heq := Option.some.inj hn
      exact ⟨(congrArg Prod.fst heq).symm, (congrArg Prod.snd heq).symm⟩
    obtain ⟨hcontent, rfl⟩ := hnothing
    -- `seekg` does nothing after a failure
    cases hfail : last.fail with
    | true =>
      refine iff_of_false (fun h => ?_) (by simp)
      rw [Replays, reset_fails hfail] at h
      exact Bool.false_ne_true h.1
    | false =>
      obtain ⟨hret, hgood, hrest⟩ := reset_succeeds hfail
      refine iff_of_true ⟨hret, ?_⟩ ⟨hcontent, rfl, rfl⟩
      -- an empty content can be written once more
      have hends : Ends (fun _ => false) last.seekBegin := (ends_good hgood).mpr fun _ _ => rfl
      obtain ⟨n, hn⟩ := hends
      obtain ⟨⟨written, last'⟩, hloop⟩ := Option.isSome_iff_exists.mp hn
      have hwritten := (writes_good hgood ⟨n, hloop⟩).1
      rw [hrest] at hwritten
      exact ⟨last', n, hwritten ▸ hloop⟩
  | false =>
    -- the content was read to its end
    have hgood : s.state.good = true := by
      by_contra h
      obtain ⟨n, hn⟩ := hwrites
      exact not_ends_fail heof (Bool.eq_false_iff.mpr h) ⟨n, by rw [hn]; rfl⟩
    have hfail := (writes_good hgood hwrites).2
    -- then `failbit` is set, and `reset` fails
    refine iff_of_false (fun h => ?_) (by simp)
    rw [Replays, reset_fails hfail] at h
    exact Bool.false_ne_true h.1

/-- **A body that was written in full** can be sent again only if it is empty and its stream was at
its end before, without a failure. -/
theorem replays_iff {throws : ℕ → Bool} {s last : ContentStream}
    (hwrites : RequestBodyForStream.writeTo throws s s.content last) :
    (Replays RequestBodyForStream.writeTo RequestBodyForStream.reset s.content last ↔
        s.content = [] ∧ s.state.eofbit = true ∧ s.fail = false) ∧
      (Replays RequestBodyForSharedPtrStream.writeTo RequestBodyForSharedPtrStream.reset s.content
        last ↔ s.content = [] ∧ s.state.eofbit = true ∧ s.fail = false) :=
  ⟨replays_streamReset_iff hwrites, replays_streamReset_iff hwrites⟩

/-- A stream of one byte. -/
def oneByte : ContentStream := { content := [65] }

/-- It is at its end, with its failbit set. -/
def oneByteWritten : ContentStream where
  state := { eofbit := true, failbit := true, extracted := [65] }
  content := [65]
  position := 1

theorem writes_oneByte :
    Writes (fun _ => false) oneByte oneByte.content oneByteWritten := ⟨1, rfl⟩

theorem replays_iff_oneByte :
    Replays RequestBodyForStream.writeTo RequestBodyForStream.reset [65] oneByteWritten ↔
      oneByte.content = [] ∧ oneByte.state.eofbit = true ∧ oneByte.fail = false :=
  (replays_iff writes_oneByte).1

/-- After it was written, it cannot be reset. -/
theorem not_replays_oneByte :
    Writes (fun _ => false) oneByte oneByte.content oneByteWritten ∧
      ¬Replays RequestBodyForStream.writeTo RequestBodyForStream.reset oneByte.content
        oneByteWritten :=
  ⟨⟨1, rfl⟩, fun h => Bool.false_ne_true h.1⟩

end EasyHttp
