import EasyHttp.Library.Exec
import EasyHttp.Message.Headers
import Mathlib.Data.List.TakeWhile

/-!
# `ByteArrayBuffer`, and a body as a string

A buffer grows with what is written to it; `toString` takes its bytes as a C string.
`ResponseBody::toString` reads the body's stream to its end by way of such a buffer. Any `new` may
find no memory: `Memory` says which ones do. A `write` that gets none answers 0 and writes nothing,
and every other function passes `std::bad_alloc` on.

* `Memory.Grants`: the allocations to come that succeed, by their sizes;
* `growths`, `textDemands`: the sizes that are asked for while nothing fails;
* `exec_writeAll`: what writes leave in a buffer, and when all of it is there;
* `bytes_read`, `exec_readLoop`: a loop of reads writes the pieces that it gets, one after another;
* `keepsBytes_iff`: which bytes survive.
-/

namespace EasyHttp

open Exec

/-! ## Memory -/

/-- What a `new` finds: whether it succeeds, by how many came before it and by its size. -/
structure Memory where
  /-- whether the allocation of this number gets so many bytes -/
  allocates : ℕ → ℕ → Bool
  /-- how many have been made -/
  allocations : ℕ := 0

/-- The exceptions that pass through: `std::bad_alloc`, and those of the stream. -/
inductive BufferException where
  | badAlloc
  | http (e : HttpException)
deriving DecidableEq

/-- Code that allocates memory. -/
abbrev MemoryExec (α : Type) := Exec BufferException Memory α

namespace Memory

/-- Memory after one allocation more, whether it has succeeded or not. -/
def next (memory : Memory) : Memory := { memory with allocations := memory.allocations + 1 }

/-- `new char[size]`; a `std::string` asks for its characters in the same way. -/
def new (size : ℕ) : MemoryExec Unit := do
  let memory ← getState
  modifyState next
  if !memory.allocates memory.allocations size then
    throw .badAlloc

/-- The next allocations succeed, one for each of the sizes. -/
def Grants : Memory → List ℕ → Prop
  | _, [] => True
  | memory, size :: sizes =>
    memory.allocates memory.allocations size = true ∧ memory.next.Grants sizes

/-- Memory after as many allocations. -/
def skip (memory : Memory) (n : ℕ) : Memory :=
  { memory with allocations := memory.allocations + n }

instance (memory : Memory) (sizes : List ℕ) : Decidable (memory.Grants sizes) :=
  match sizes with
  | [] => .isTrue trivial
  | size :: sizes =>
    have := instDecidableGrants memory.next sizes
    inferInstanceAs (Decidable (memory.allocates memory.allocations size = true ∧
      memory.next.Grants sizes))

variable {memory : Memory}

/-- An allocation succeeds or throws, and counts in either case. -/
theorem exec_new (memory : Memory) (size : ℕ) : exec (new size) memory =
    (if memory.allocates memory.allocations size = true then .ok () else .error .badAlloc,
      memory.next) := by
  unfold new
  rw [exec_bind_ok (exec_getState memory), exec_bind_ok (exec_modifyState next memory)]
  cases memory.allocates memory.allocations size <;> rfl

/-- What comes after an allocation is run if it succeeds. -/
theorem exec_new_bind {α : Type} (memory : Memory) (size : ℕ) (f : Unit → MemoryExec α) :
    exec (new size >>= f) memory =
      if memory.allocates memory.allocations size = true then exec (f ()) memory.next
      else (.error .badAlloc, memory.next) := by
  rw [exec_bind, exec_new]
  cases memory.allocates memory.allocations size <;> rfl

/-- One allocation and then `n` more. -/
theorem skip_next (memory : Memory) (n : ℕ) : memory.next.skip n = memory.skip (n + 1) := by
  show (⟨memory.allocates, memory.allocations + 1 + n⟩ : Memory) = ⟨_, memory.allocations + (n + 1)⟩
  rw [Nat.add_assoc, Nat.add_comm 1 n]

/-- The allocations of two pieces of code, one after the other. -/
theorem grants_append {sizes sizes' : List ℕ} : memory.Grants (sizes ++ sizes') ↔
    memory.Grants sizes ∧ (memory.skip sizes.length).Grants sizes' := by
  induction sizes generalizing memory with
  | nil => exact (true_and _).symm.to_iff
  | cons size sizes ih =>
    show _ ∧ memory.next.Grants (sizes ++ sizes') ↔ (_ ∧ memory.next.Grants sizes) ∧ _
    rw [ih, skip_next, List.length_cons, and_assoc]

end Memory

/-! ## The buffer -/

/-- `m_pBuffer`, `m_bufferSize` and `m_writtenDataSize`. The sizes are those of bytes in memory, so
that no sum of them leaves `size_t`. -/
structure ByteArrayBuffer where
  /-- The bytes allocated, `m_bufferSize` of them; NULL is empty. -/
  buffer : List UInt8
  writtenDataSize : ℕ
  written_le : writtenDataSize ≤ buffer.length

namespace ByteArrayBuffer

/-- The constructor without a capacity. -/
def construct : ByteArrayBuffer where
  buffer := []
  writtenDataSize := 0
  written_le := Nat.zero_le _

/-- What `expand` returns if it does not return NULL. -/
structure Expansion (b : ByteArrayBuffer) (newBufferSize : ℕ) where
  larger : ByteArrayBuffer
  length_eq : larger.buffer.length = newBufferSize
  written_eq : larger.writtenDataSize = b.writtenDataSize

/-- The same bytes in a larger buffer, with zeros behind them. -/
def enlarge (b : ByteArrayBuffer) {newBufferSize : ℕ} (h : b.buffer.length < newBufferSize) :
    b.Expansion newBufferSize where
  larger := {
    buffer := b.buffer ++ List.replicate (newBufferSize - b.buffer.length) 0
    writtenDataSize := b.writtenDataSize
    written_le := by
      rw [List.length_append]
      exact Nat.le_add_right_of_le b.written_le }
  length_eq := by
    show (b.buffer ++ List.replicate (newBufferSize - b.buffer.length) 0).length = newBufferSize
    rw [List.length_append, List.length_replicate]
    omega
  written_eq := rfl

/-- `expand`, to a size that is larger and so not 0. What `new` throws is caught, and the answer is
NULL then. -/
def expand (b : ByteArrayBuffer) (newBufferSize : ℕ) (h : b.buffer.length < newBufferSize) :
    MemoryExec (Option (b.Expansion newBufferSize)) :=
  Exec.tryCatch (do
    Memory.new newBufferSize
    return some (b.enlarge h))
    fun _ => return none

/-- The `memcpy` of `write`, behind what was written before. -/
def copy (b : ByteArrayBuffer) (data : List UInt8)
    (h : b.writtenDataSize + data.length ≤ b.buffer.length) : ByteArrayBuffer where
  buffer := b.buffer.take b.writtenDataSize ++ data ++
    b.buffer.drop (b.writtenDataSize + data.length)
  writtenDataSize := b.writtenDataSize + data.length
  written_le := by
    rw [List.length_append, List.length_append, List.length_take, List.length_drop]
    omega

/-- `write`: how many bytes were written, and the buffer after it. -/
def write (b : ByteArrayBuffer) (data : List UInt8) : MemoryExec (ℕ × ByteArrayBuffer) :=
  if h : b.buffer.length < b.writtenDataSize + data.length then do
    match ← b.expand (b.writtenDataSize + data.length) h with
    | none => return (0, b)
    | some expansion => return (data.length, expansion.larger.copy data (by
        rw [expansion.length_eq, expansion.written_eq]))
  else return (data.length, b.copy data (Nat.le_of_not_lt h))

/-- `toString`: the characters up to the first NUL, or up to the one that is put behind the bytes
in an array of its own. -/
def toString (b : ByteArrayBuffer) : MemoryExec (List UInt8) := do
  if b.buffer.length = 0 ∨ b.writtenDataSize = 0 then
    return []
  Memory.new (b.writtenDataSize + 1)
  let str := (b.buffer.take b.writtenDataSize ++ [0]).takeWhile (· ≠ 0)
  Memory.new (str.length + 1)
  return str

/-- Chunk after chunk is written; nobody looks at what `write` answers. -/
def writeAll : List (List UInt8) → ByteArrayBuffer → MemoryExec ByteArrayBuffer
  | [], b => return b
  | chunk :: chunks, b => do
    let (_, b) ← b.write chunk
    writeAll chunks b

/-- The bytes that have been written. -/
def contents (b : ByteArrayBuffer) : List UInt8 := b.buffer.take b.writtenDataSize

/-- The sizes to which a buffer grows under the writes, if it always can: `size` is its own, and
`written` are how many bytes it holds. -/
def growths : ℕ → ℕ → List (List UInt8) → List ℕ
  | _, _, [] => []
  | size, written, chunk :: chunks =>
    if size < written + chunk.length then
      (written + chunk.length) :: growths (written + chunk.length) (written + chunk.length) chunks
    else growths size (written + chunk.length) chunks

/-- The array and the string of `toString`, for bytes without a NUL. -/
def textDemands (bytes : List UInt8) : List ℕ :=
  if bytes = [] then [] else [bytes.length + 1, bytes.length + 1]

variable {b : ByteArrayBuffer} {data : List UInt8} {memory : Memory}

@[simp] theorem contents_construct : construct.contents = [] := rfl

/-- There are as many bytes as `m_writtenDataSize` says. -/
theorem length_contents (b : ByteArrayBuffer) : b.contents.length = b.writtenDataSize := by
  rw [contents, List.length_take, Nat.min_eq_left b.written_le]

/-- When `toString` returns the empty string at once. -/
theorem contents_eq_nil_iff : b.contents = [] ↔ b.buffer.length = 0 ∨ b.writtenDataSize = 0 := by
  rw [contents, List.take_eq_nil_iff, List.length_eq_zero_iff, or_comm]

/-- A larger buffer has the bytes of the smaller one. -/
theorem contents_enlarge {newBufferSize : ℕ} (h : b.buffer.length < newBufferSize) :
    (b.enlarge h).larger.contents = b.contents :=
  List.take_append_of_le_length b.written_le

/-- What is copied comes behind what was written before. -/
theorem contents_copy (h : b.writtenDataSize + data.length ≤ b.buffer.length) :
    (b.copy data h).contents = b.contents ++ data := by
  have hlength : (b.buffer.take b.writtenDataSize ++ data).length =
      b.writtenDataSize + data.length := by
    rw [List.length_append, List.length_take, Nat.min_eq_left b.written_le]
  exact List.take_left' hlength

/-- A copy stays in its buffer. -/
theorem length_copy (h : b.writtenDataSize + data.length ≤ b.buffer.length) :
    (b.copy data h).buffer.length = b.buffer.length := by
  show (b.buffer.take b.writtenDataSize ++ data ++
    b.buffer.drop (b.writtenDataSize + data.length)).length = _
  rw [List.length_append, List.length_append, List.length_take, List.length_drop,
    Nat.min_eq_left b.written_le]
  omega

/-! ## What a write leaves -/

/-- There is room: nothing is allocated. -/
theorem exec_write_fits (memory : Memory)
    (h : b.writtenDataSize + data.length ≤ b.buffer.length) :
    exec (b.write data) memory = (.ok (data.length, b.copy data h), memory) := by
  rw [write, dif_neg (Nat.not_lt_of_le h)]
  rfl

/-- The buffer grows. -/
theorem exec_write_granted (h : b.buffer.length < b.writtenDataSize + data.length)
    (hmemory : memory.allocates memory.allocations (b.writtenDataSize + data.length) = true) :
    exec (b.write data) memory = (.ok (data.length,
      (b.enlarge h).larger.copy data (b.enlarge h).length_eq.ge), memory.next) := by
  have hexpand : exec (b.expand (b.writtenDataSize + data.length) h) memory =
      (.ok (some (b.enlarge h)), memory.next) := by
    rw [expand, exec_tryCatch, exec_bind, Memory.exec_new, if_pos hmemory]
    rfl
  rw [write, dif_pos h, exec_bind_ok hexpand]
  rfl

/-- It cannot grow, and is left as it is. -/
theorem exec_write_refused (h : b.buffer.length < b.writtenDataSize + data.length)
    (hmemory : ¬memory.allocates memory.allocations (b.writtenDataSize + data.length) = true) :
    exec (b.write data) memory = (.ok (0, b), memory.next) := by
  have hexpand : exec (b.expand (b.writtenDataSize + data.length) h) memory =
      (.ok none, memory.next) := by
    rw [expand, exec_tryCatch, exec_bind, Memory.exec_new, if_neg hmemory]
    rfl
  rw [write, dif_pos h, exec_bind_ok hexpand]
  rfl

/-- A write of nothing changes nothing. -/
theorem exec_write_nil (b : ByteArrayBuffer) (memory : Memory) :
    exec (b.write []) memory = (.ok (0, b), memory) := by
  have hroom : b.writtenDataSize + ([] : List UInt8).length ≤ b.buffer.length := b.written_le
  rw [exec_write_fits memory hroom]
  have hcopy : b.copy [] b.written_le = b := by
    rcases b with ⟨buffer, writtenDataSize, hle⟩
    simp [copy]
  rw [hcopy]
  rfl

/-- What the writes leave. They all return; if each allocation succeeds the chunks are there one
after another, and otherwise a byte is missing. -/
structure Wrote (memory : Memory) (b : ByteArrayBuffer) (chunks : List (List UInt8))
    (b' : ByteArrayBuffer) (memory' : Memory) : Prop where
  run : exec (writeAll chunks b) memory = (.ok b', memory')
  granted : memory.Grants (growths b.buffer.length b.writtenDataSize chunks) →
    b'.contents = b.contents ++ chunks.flatten ∧
      memory' = memory.skip (growths b.buffer.length b.writtenDataSize chunks).length
  refused : ¬memory.Grants (growths b.buffer.length b.writtenDataSize chunks) →
    b'.contents.length < b.contents.length + chunks.flatten.length

/-- Nothing is written twice. -/
theorem Wrote.length_le {b' : ByteArrayBuffer} {memory' : Memory} {chunks : List (List UInt8)}
    (h : Wrote memory b chunks b' memory') :
    b'.contents.length ≤ b.contents.length + chunks.flatten.length := by
  by_cases hgrants : memory.Grants (growths b.buffer.length b.writtenDataSize chunks)
  · rw [(h.granted hgrants).1, List.length_append]
  · exact (h.refused hgrants).le

/-- One more chunk in front, which has got into the buffer. -/
theorem Wrote.cons {chunk : List UInt8} {chunks : List (List UInt8)} {c b' : ByteArrayBuffer}
    {memory' memory'' : Memory}
    (hwrite : exec (b.write chunk) memory = (.ok (chunk.length, c), memory'))
    (hcontents : c.contents = b.contents ++ chunk) (hrest : Wrote memory' c chunks b' memory'')
    (hgrants : memory.Grants (growths b.buffer.length b.writtenDataSize (chunk :: chunks)) ↔
      memory'.Grants (growths c.buffer.length c.writtenDataSize chunks))
    (hskip : memory'.skip (growths c.buffer.length c.writtenDataSize chunks).length =
      memory.skip (growths b.buffer.length b.writtenDataSize (chunk :: chunks)).length) :
    Wrote memory b (chunk :: chunks) b' memory'' where
  run := by
    rw [writeAll, exec_bind_ok hwrite]
    exact hrest.run
  granted h := by
    obtain ⟨hall, hmemory⟩ := hrest.granted (hgrants.mp h)
    rw [hall, hcontents, List.append_assoc, List.flatten_cons]
    exact ⟨rfl, hmemory.trans hskip⟩
  refused h := by
    have hless := hrest.refused fun hg => h (hgrants.mpr hg)
    rw [hcontents, List.length_append] at hless
    rw [List.flatten_cons, List.length_append]
    omega

/-- The growths of a write that does not fit. -/
theorem growths_cons_of_lt {size written : ℕ} {chunk : List UInt8}
    (h : size < written + chunk.length) (chunks : List (List UInt8)) :
    growths size written (chunk :: chunks) =
      (written + chunk.length) ::
        growths (written + chunk.length) (written + chunk.length) chunks := by
  rw [growths, if_pos h]

/-- One more chunk in front for which there is no memory: it is lost, and it is not empty. -/
theorem Wrote.cons_refused {chunk : List UInt8} {chunks : List (List UInt8)}
    {b' : ByteArrayBuffer} {memory' : Memory}
    (h : b.buffer.length < b.writtenDataSize + chunk.length)
    (hmemory : ¬memory.allocates memory.allocations (b.writtenDataSize + chunk.length) = true)
    (hrest : Wrote memory.next b chunks b' memory') :
    Wrote memory b (chunk :: chunks) b' memory' where
  run := by
    rw [writeAll, exec_bind_ok (exec_write_refused h hmemory)]
    exact hrest.run
  granted hgrants := by
    rw [growths_cons_of_lt h] at hgrants
    exact absurd hgrants.1 hmemory
  refused _ := by
    have hle := hrest.length_le
    have hwritten := b.written_le
    rw [List.flatten_cons, List.length_append]
    omega

/-- **Chunks written one after another** to a buffer. -/
theorem exec_writeAll (chunks : List (List UInt8)) (b : ByteArrayBuffer) (memory : Memory) :
    ∃ b' memory', Wrote memory b chunks b' memory' := by
  -- induction on the chunks; the memory that is left goes along
  induction chunks generalizing b memory with
  | nil =>
    exact ⟨b, memory, rfl, fun _ => ⟨(List.append_nil _).symm, rfl⟩, fun h => absurd trivial h⟩
  | cons chunk chunks ih =>
    by_cases hfits : b.buffer.length < b.writtenDataSize + chunk.length
    · by_cases hmemory :
          memory.allocates memory.allocations (b.writtenDataSize + chunk.length) = true
      -- the buffer can grow, and the chunk is copied
      · obtain ⟨b', memory', hrest⟩ :=
          ih ((b.enlarge hfits).larger.copy chunk (b.enlarge hfits).length_eq.ge) memory.next
        have hlength :=
          (length_copy (b.enlarge hfits).length_eq.ge).trans (b.enlarge hfits).length_eq
        refine ⟨b', memory', hrest.cons (exec_write_granted hfits hmemory)
          ((contents_copy _).trans (by rw [contents_enlarge])) ?_ ?_⟩
        · rw [growths_cons_of_lt hfits, hlength]
          exact and_iff_right hmemory
        · rw [growths_cons_of_lt hfits, hlength, Memory.skip_next]
          rfl
      · obtain ⟨b', memory', hrest⟩ := ih b memory.next
        exact ⟨b', memory', hrest.cons_refused hfits hmemory⟩
    · have hgrowths : growths b.buffer.length b.writtenDataSize (chunk :: chunks) =
          growths b.buffer.length (b.writtenDataSize + chunk.length) chunks := by
        rw [growths, if_neg hfits]
      -- the chunk fits, and no memory is asked for
      have hroom := Nat.le_of_not_lt hfits
      obtain ⟨b', memory', hrest⟩ := ih (b.copy chunk hroom) memory
      refine ⟨b', memory', hrest.cons (exec_write_fits memory hroom) (contents_copy hroom) ?_ ?_⟩
      · rw [hgrowths, length_copy]
        exact Iff.rfl
      · rw [hgrowths, length_copy]
        rfl

/-! ## The string -/

/-- A stop behind a list changes nothing of what comes before the first one. -/
theorem takeWhile_append_stop {α : Type*} {p : α → Bool} {a : α} (h : p a = false) (l : List α) :
    (l ++ [a]).takeWhile p = l.takeWhile p := by
  induction l with
  | nil => simp [h]
  | cons x l ih => simp [List.takeWhile_cons, ih]

/-- Nothing is cut off where there is no NUL. -/
theorem takeWhile_ne_eq_self_iff {bytes : List UInt8} :
    bytes.takeWhile (· ≠ 0) = bytes ↔ 0 ∉ bytes := by
  rw [List.takeWhile_eq_self_iff]
  simp only [decide_eq_true_eq]
  exact ⟨fun h hzero => h 0 hzero rfl, fun h byte hbyte hzero => h (hzero ▸ hbyte)⟩

/-- `toString` of a buffer with some bytes. -/
theorem toString_of_ne_nil (h : b.contents ≠ []) : b.toString = (do
    Memory.new (b.contents.length + 1)
    Memory.new ((b.contents.takeWhile (· ≠ 0)).length + 1)
    return b.contents.takeWhile (· ≠ 0)) := by
  have hne := fun hempty => h (contents_eq_nil_iff.mpr hempty)
  have hstr : (b.contents ++ [0]).takeWhile (· ≠ 0) = b.contents.takeWhile (· ≠ 0) :=
    takeWhile_append_stop rfl b.contents
  rw [toString, if_neg hne, ← hstr, length_contents]
  rfl

/-- The string ends before the first NUL, and takes two allocations unless nothing was written. -/
theorem toString_ok_iff {bytes : List UInt8} : (exec b.toString memory).1 = .ok bytes ↔
    b.contents.takeWhile (· ≠ 0) = bytes ∧
      (b.contents ≠ [] → memory.Grants [b.contents.length + 1, bytes.length + 1]) := by
  by_cases hempty : b.contents = []
  · rw [toString, if_pos (contents_eq_nil_iff.mp hempty), hempty]
    simp [exec_pure]
  rw [toString_of_ne_nil hempty, Memory.exec_new_bind]
  by_cases hfirst : memory.allocates memory.allocations (b.contents.length + 1) = true
  · rw [if_pos hfirst, Memory.exec_new_bind]
    by_cases hsecond : memory.next.allocates memory.next.allocations
        ((b.contents.takeWhile (· ≠ 0)).length + 1) = true
    · rw [if_pos hsecond, exec_pure, Except.ok.injEq]
      exact ⟨fun h => ⟨h, fun _ => ⟨hfirst, h ▸ hsecond, trivial⟩⟩, And.left⟩
    · rw [if_neg hsecond]
      refine ⟨fun h => (by cases h), fun h => absurd ?_ hsecond⟩
      rw [h.1]
      exact (h.2 hempty).2.1
  · rw [if_neg hfirst]
    exact ⟨fun h => (by cases h), fun h => absurd (h.2 hempty).1 hfirst⟩

/-- What is written to a buffer without content comes out of it. -/
theorem writeAll_toString_iff (hempty : b.writtenDataSize = 0) (chunks : List (List UInt8)) :
    (exec (do (← writeAll chunks b).toString) memory).1 = .ok chunks.flatten ↔
      0 ∉ chunks.flatten ∧ memory.Grants
        (growths b.buffer.length 0 chunks ++ textDemands chunks.flatten) := by
  obtain ⟨b', memory', hwrote⟩ := exec_writeAll chunks b memory
  have hnil : b.contents = [] := contents_eq_nil_iff.mpr (.inr hempty)
  have hgranted := hwrote.granted
  have hrefused := hwrote.refused
  rw [hnil, hempty, List.nil_append] at hgranted
  rw [hnil, hempty, List.length_nil, Nat.zero_add] at hrefused
  rw [exec_bind_ok hwrote.run, toString_ok_iff, Memory.grants_append]
  by_cases hgrants : memory.Grants (growths b.buffer.length 0 chunks)
  · obtain ⟨hcontents, rfl⟩ := hgranted hgrants
    rw [hcontents, takeWhile_ne_eq_self_iff, textDemands]
    refine and_congr_right fun _ => ?_
    by_cases hflat : chunks.flatten = []
    · rw [if_pos hflat]
      exact ⟨fun _ => ⟨hgrants, trivial⟩, fun _ h => absurd hflat h⟩
    · rw [if_neg hflat]
      exact ⟨fun h => ⟨hgrants, h hflat⟩, fun h _ => h.2⟩
  · -- a string of fewer bytes
    refine ⟨fun h => ?_, fun h => absurd h.2.1 hgrants⟩
    have hless := hrefused hgrants
    have hprefix := (List.takeWhile_prefix (l := b'.contents) (· ≠ 0)).length_le
    rw [h.1] at hprefix
    omega

end ByteArrayBuffer

/-! ## The body -/

namespace ResponseBodyText

/-- A body's stream, in the pieces in which its bytes come. An empty piece is a read that gets
nothing, or -1. -/
structure PieceStream where
  pieces : List (List UInt8)
  closed : Bool := false

namespace PieceStream

/-- The bytes to come. -/
def bytes (s : PieceStream) : List UInt8 := s.pieces.flatten

/-- Nothing more will be read. -/
def isEof (s : PieceStream) : Except HttpException Bool :=
  if s.closed then .error (.illegalState "stream already closed.") else .ok s.pieces.isEmpty

/-- A read gets a piece, or the start of it if the piece is larger than the buffer. -/
def read (s : PieceStream) (readBytes : ℕ) : List UInt8 × PieceStream :=
  match s.pieces with
  | [] => ([], s)
  | piece :: rest => (piece.take readBytes, { s with
      pieces := if readBytes < piece.length then piece.drop readBytes :: rest else rest })

/-- How many bytes and pieces are to come. -/
def size (s : PieceStream) : ℕ := s.bytes.length + s.pieces.length

variable {s : PieceStream}

/-- What a read gets is the start of what was to come. -/
theorem bytes_read (s : PieceStream) (readBytes : ℕ) :
    (s.read readBytes).1 ++ (s.read readBytes).2.bytes = s.bytes := by
  unfold read bytes
  cases hpieces : s.pieces with
  | nil =>
    show [] ++ s.pieces.flatten = _
    rw [hpieces]
    rfl
  | cons piece rest =>
    show piece.take readBytes ++ List.flatten (if readBytes < piece.length then
      piece.drop readBytes :: rest else rest) = piece ++ rest.flatten
    by_cases h : readBytes < piece.length
    · rw [if_pos h, List.flatten_cons, ← List.append_assoc, List.take_append_drop]
    · rw [if_neg h, List.take_of_length_le (Nat.le_of_not_lt h)]

/-- A read does not close the stream. -/
theorem closed_read (s : PieceStream) (readBytes : ℕ) :
    (s.read readBytes).2.closed = s.closed := by
  unfold read
  split <;> rfl

/-- Each read leaves less to come. -/
theorem size_read {readBytes : ℕ} (hpos : 0 < readBytes) (h : s.isEof = .ok false) :
    (s.read readBytes).2.size < s.size := by
  have hpieces : s.pieces ≠ [] := by
    intro hnil
    rw [isEof, hnil] at h
    split at h
    · cases h
    · cases h
  obtain ⟨piece, rest, hcons⟩ := List.exists_cons_of_ne_nil hpieces
  have hbefore : s.size = (piece ++ rest.flatten).length + (rest.length + 1) := by
    rw [size, bytes, hcons, List.flatten_cons, List.length_cons]
  have hafter : (s.read readBytes).2.pieces =
      if readBytes < piece.length then piece.drop readBytes :: rest else rest := by
    rw [read, hcons]
  rw [hbefore, List.length_append, size, bytes, hafter]
  by_cases hlt : readBytes < piece.length
  · rw [if_pos hlt, List.flatten_cons, List.length_append, List.length_drop, List.length_cons]
    omega
  · rw [if_neg hlt]
    omega

end PieceStream

/-- What a read got is written. -/
def writeRead (outBuffer : ByteArrayBuffer) (data : List UInt8) : MemoryExec ByteArrayBuffer := do
  if data.length > 0 then
    let (_, outBuffer) ← outBuffer.write data
    return outBuffer
  return outBuffer

/-- The loop of `ResponseBody::toString`: it ends, because each read gets something or uses up a
piece. -/
def readLoop (bufferSize : ℕ) (hpos : 0 < bufferSize) (s : PieceStream)
    (outBuffer : ByteArrayBuffer) : MemoryExec (ByteArrayBuffer × PieceStream) :=
  match _h : s.isEof with
  | .error e => throw (.http e)
  | .ok true => return (outBuffer, s)
  | .ok false => do
    let outBuffer ← writeRead outBuffer (s.read bufferSize).1
    readLoop bufferSize hpos (s.read bufferSize).2 outBuffer
termination_by s.size
decreasing_by exact PieceStream.size_read hpos _h

/-- `m_contentLength`, where it is known, or `DefaultBufferSize`. -/
def bufferSize (contentLength : Int64) : ℕ :=
  if contentLength > 0 then contentLength.toNatClampNeg else 4096

/-- A buffer of no bytes would never be filled. -/
theorem bufferSize_pos (contentLength : Int64) : 0 < bufferSize contentLength := by
  unfold bufferSize
  split
  · rename_i h
    rw [gt_iff_lt, Int64.lt_iff_toInt_lt, Int64.toInt_zero] at h
    rw [← Int64.toNat_toInt]
    omega
  · decide

/-- `ResponseBody::toString`, and the stream afterwards. `catch (const Poco::Exception&)` lets
`std::bad_alloc` pass. -/
def toString (contentLength : Int64) (s : PieceStream) : MemoryExec (List UInt8 × PieceStream) := do
  if contentLength = 0 then
    return ([], s)
  -- `Poco::Buffer<char> inBuffer(bufferSize)`
  Memory.new (bufferSize contentLength)
  let (outBuffer, s) ←
    readLoop (bufferSize contentLength) (bufferSize_pos contentLength) s .construct
  let str ← outBuffer.toString
  return (str, { s with closed := true })

/-- The pieces that the loop gets. -/
def reads (bufferSize : ℕ) (hpos : 0 < bufferSize) (s : PieceStream) : List (List UInt8) :=
  match _h : s.isEof with
  | .ok false => (s.read bufferSize).1 :: reads bufferSize hpos (s.read bufferSize).2
  | _ => []
termination_by s.size
decreasing_by exact PieceStream.size_read hpos _h

/-- The sizes that `toString` asks for, if every allocation succeeds. -/
def demands (contentLength : Int64) (s : PieceStream) : List ℕ :=
  bufferSize contentLength :: (ByteArrayBuffer.growths 0 0
    (reads (bufferSize contentLength) (bufferSize_pos contentLength) s) ++
      ByteArrayBuffer.textDemands s.bytes)

/-- Where nothing was read, nothing would have been written. -/
theorem exec_writeRead (outBuffer : ByteArrayBuffer) (data : List UInt8) (memory : Memory) :
    exec (writeRead outBuffer data) memory =
      exec (do let (_, outBuffer) ← outBuffer.write data; return outBuffer) memory := by
  unfold writeRead
  by_cases h : data.length > 0
  · rw [if_pos h]
  · have hnil := List.eq_nil_of_length_eq_zero (Nat.eq_zero_of_not_pos h)
    subst hnil
    rw [if_neg h, exec_bind_ok (ByteArrayBuffer.exec_write_nil outBuffer memory)]

variable {bufferSize : ℕ} {hpos : 0 < bufferSize} {s : PieceStream} {memory : Memory}

/-- A stream with more to come gives a piece. -/
theorem reads_of_more (h : s.isEof = .ok false) : reads bufferSize hpos s =
    (s.read bufferSize).1 :: reads bufferSize hpos (s.read bufferSize).2 := by
  rw [reads]
  split
  · rfl
  · contradiction

/-- A stream at its end gives nothing. -/
theorem reads_of_end (h : s.isEof = .ok true) : reads bufferSize hpos s = [] := by
  rw [reads]
  split
  · rename_i hmore
    cases h.symm.trans hmore
  · rfl

/-- One round of the loop. -/
theorem readLoop_of_more (h : s.isEof = .ok false) (outBuffer : ByteArrayBuffer) :
    readLoop bufferSize hpos s outBuffer = (do
      let outBuffer ← writeRead outBuffer (s.read bufferSize).1
      readLoop bufferSize hpos (s.read bufferSize).2 outBuffer) := by
  rw [readLoop]
  split
  · rename_i herror
    cases h.symm.trans herror
  · rename_i hend
    cases h.symm.trans hend
  · rfl

/-- An open stream that has nothing more is at its end. -/
theorem isEof_of_not_more (hopen : s.closed = false) (h : s.isEof ≠ .ok false) :
    s.isEof = .ok true ∧ s.bytes = [] := by
  rw [PieceStream.isEof, hopen] at h ⊢
  have hempty : s.pieces.isEmpty = true := by simpa using h
  rw [PieceStream.bytes, hempty, List.isEmpty_iff.mp hempty]
  exact ⟨rfl, rfl⟩

/-- The pieces are the bytes of an open stream. -/
theorem flatten_reads (hopen : s.closed = false) :
    (reads bufferSize hpos s).flatten = s.bytes := by
  induction s using reads.induct bufferSize hpos with
  | case1 s h ih =>
    rw [reads_of_more h, List.flatten_cons, ih ((s.closed_read bufferSize).trans hopen),
      PieceStream.bytes_read]
  | case2 s h =>
    obtain ⟨hend, hbytes⟩ := isEof_of_not_more hopen h
    rw [reads_of_end hend, hbytes]
    rfl

/-- The loop writes the pieces one after another. -/
theorem exec_readLoop (hopen : s.closed = false) {outBuffer buffer : ByteArrayBuffer}
    {memory' : Memory}
    (hwrites : exec (ByteArrayBuffer.writeAll (reads bufferSize hpos s) outBuffer) memory =
      (.ok buffer, memory')) :
    ∃ s', exec (readLoop bufferSize hpos s outBuffer) memory = (.ok (buffer, s'), memory') := by
  induction s using reads.induct bufferSize hpos generalizing outBuffer memory with
  | case1 s h ih =>
    rw [reads_of_more h, ByteArrayBuffer.writeAll, exec_bind] at hwrites
    rw [readLoop_of_more h, exec_bind, exec_writeRead, exec_bind]
    -- both write the same piece first
    rcases hwrite : exec (outBuffer.write (s.read bufferSize).1) memory with ⟨r, memory₁⟩
    rw [hwrite] at hwrites
    cases r with
    | error e => cases hwrites
    | ok written => exact ih ((s.closed_read bufferSize).trans hopen) hwrites
  | case2 s h =>
    have hend := (isEof_of_not_more hopen h).1
    refine ⟨s, ?_⟩
    rw [reads_of_end hend] at hwrites
    cases hwrites
    rw [readLoop]
    split
    · rename_i herror
      cases hend.symm.trans herror
    · rfl
    · contradiction

/-- The string of a body is the bytes of its stream. -/
def KeepsBody (memory : Memory) (contentLength : Int64) (s : PieceStream) : Prop :=
  (exec (toString contentLength s) memory).1.map Prod.fst = .ok s.bytes

/-- A body that is buffered. -/
theorem keepsBody_iff_of_ne_zero {contentLength : Int64} (hne : contentLength ≠ 0)
    (hopen : s.closed = false) : KeepsBody memory contentLength s ↔
      0 ∉ s.bytes ∧ memory.Grants (demands contentLength s) := by
  unfold KeepsBody toString
  rw [if_neg hne, Memory.exec_new_bind, demands, Memory.Grants]
  by_cases hfirst :
      memory.allocates memory.allocations (ResponseBodyText.bufferSize contentLength) = true
  · rw [if_pos hfirst, and_iff_right hfirst]
    let pieces := reads (ResponseBodyText.bufferSize contentLength) (bufferSize_pos contentLength) s
    have hbytes : pieces.flatten = s.bytes := flatten_reads hopen
    have hbuffer : (exec (do (← ByteArrayBuffer.writeAll pieces .construct).toString)
        memory.next).1 = .ok pieces.flatten ↔ _ :=
      ByteArrayBuffer.writeAll_toString_iff rfl pieces
    rw [hbytes] at hbuffer
    refine Iff.trans ?_ hbuffer
    obtain ⟨buffer, memory', hwrote⟩ := ByteArrayBuffer.exec_writeAll pieces .construct memory.next
    obtain ⟨s', hloop⟩ := exec_readLoop hopen hwrote.run
    rw [exec_bind_ok hwrote.run, exec_bind_ok hloop, exec_bind]
    rcases exec buffer.toString memory' with ⟨r, memory''⟩
    cases r with
    | error e => exact ⟨fun h => (by cases h), fun h => (by cases h)⟩
    | ok str => exact Iff.rfl
  · rw [if_neg hfirst]
    exact ⟨fun h => (by cases h), fun h => absurd h.2.1 hfirst⟩

/-- A content length of 0 stands for an empty body; any other body is buffered. -/
theorem keepsBody_iff {contentLength : Int64} (hopen : s.closed = false) :
    KeepsBody memory contentLength s ↔
      if contentLength = 0 then s.bytes = []
      else 0 ∉ s.bytes ∧ memory.Grants (demands contentLength s) := by
  by_cases hzero : contentLength = 0
  · rw [if_pos hzero, KeepsBody, toString, if_pos hzero]
    show Except.ok [] = Except.ok s.bytes ↔ _
    rw [Except.ok.injEq, eq_comm]
  · rw [if_neg hzero, keepsBody_iff_of_ne_zero hzero hopen]

end ResponseBodyText

open ResponseBodyText

/-- The string of what was written, chunk after chunk, to a buffer without content is the bytes of
the chunks. -/
def ByteArrayBuffer.KeepsChunks (memory : Memory) (b : ByteArrayBuffer)
    (chunks : List (List UInt8)) : Prop :=
  (exec (do (← writeAll chunks b).toString) memory).1 = .ok chunks.flatten

/-- **Bytes survive buffering**, those written to a buffer and those of a body, exactly when there
is no NUL among them and no allocation fails; a content length of 0 stands for an empty body. -/
theorem keepsBytes_iff (memory : Memory) {b : ByteArrayBuffer} (hempty : b.writtenDataSize = 0)
    (chunks : List (List UInt8)) (contentLength : Int64) {s : PieceStream}
    (hopen : s.closed = false) :
    (b.KeepsChunks memory chunks ↔ 0 ∉ chunks.flatten ∧ memory.Grants
        (ByteArrayBuffer.growths b.buffer.length 0 chunks ++
          ByteArrayBuffer.textDemands chunks.flatten)) ∧
      (KeepsBody memory contentLength s ↔
        if contentLength = 0 then s.bytes = []
        else 0 ∉ s.bytes ∧ memory.Grants (demands contentLength s)) :=
  ⟨ByteArrayBuffer.writeAll_toString_iff hempty chunks, keepsBody_iff hopen⟩

/-- Memory for anything below two gigabytes. -/
def smallMemory : Memory where
  allocates _ size := size < 2147483648

/-- "hi" in two chunks, and as a body of three pieces of which one is empty. -/
theorem keepsBytes_ascii :
    ByteArrayBuffer.construct.KeepsChunks smallMemory [[104], [105]] ∧
      KeepsBody smallMemory 2 { pieces := [[104], [], [105]] } := by
  have hiff := keepsBytes_iff smallMemory (b := .construct) rfl [[104], [105]] 2
    (s := { pieces := [[104], [], [105]] }) rfl
  have hdemands : demands 2 { pieces := [[104], [], [105]] } = [2, 1, 2, 3, 3] := by
    rw [demands, reads_of_more rfl, reads_of_more rfl, reads_of_more rfl, reads_of_end rfl]
    decide
  refine ⟨hiff.1.mpr (by decide), hiff.2.mpr ?_⟩
  rw [if_neg (by decide), hdemands]
  decide

/-- The bytes behind a NUL are lost, in a buffer and in a body. -/
theorem not_keepsBytes_nul : ¬ByteArrayBuffer.construct.KeepsChunks smallMemory [[1, 0, 2]] ∧
    ¬KeepsBody smallMemory 3 { pieces := [[1, 0], [2]] } := by
  refine ⟨fun h => ?_, fun h => ?_⟩
  · exact ((ByteArrayBuffer.writeAll_toString_iff rfl _).mp h).1 (by decide)
  · exact ((keepsBody_iff_of_ne_zero (by decide) rfl).mp h).1 (by decide)

/-- A server announces 2^63 - 1 bytes and sends two. -/
example : ¬KeepsBody smallMemory 9223372036854775807 { pieces := [[104, 105]] } := by
  intro h
  have hfirst := ((keepsBody_iff_of_ne_zero (by decide) rfl).mp h).2.1
  exact absurd hfirst (by decide)

end EasyHttp
