import MediaImporter.Store.Install

/-!
# Hashing streams

A stream is read into a buffer, piece by piece, and each piece is hashed; one of the two loops
also writes it. Reading, writing and the observer can fail at any piece. However the stream
is divided, both loops come to what hashing its content at once comes to.

BLAKE3 is a parameter here: it takes its input in pieces, and it is relied upon that only
their concatenation counts.

## Main definitions

* `Blake3`, `Blake3.Incremental` — the hash function.
* `Stream`, `StreamCalls` — a stream in its pieces, and what else can fail.
* `hashReader`, `hashReaderToWriter` — the two loops.
* `hashing_streams` — what they return, write and report.
-/

namespace MediaImporter

namespace Hashing

open Utf8

/-! ## The hash function -/

/-- The incremental hasher, whose digest is printed in hexadecimal. -/
structure Blake3 (σ : Type) where
  new : σ
  update : σ → Bytes → σ
  finalize : σ → Text

variable {σ : Type}

structure Blake3.Incremental (H : Blake3 σ) : Prop where
  pieces : ∀ chunks : List Bytes,
    H.finalize (chunks.foldl H.update H.new) = H.finalize (H.update H.new chunks.flatten)
  digits : ∀ state, IsHashText (H.finalize state)

/-- The hasher, and how many bytes it was given. -/
structure BlobHasher (σ : Type) where
  hasher : σ
  sizeBytes : ℕ

namespace BlobHasher

def new (H : Blake3 σ) : BlobHasher σ := ⟨H.new, 0⟩

def update (H : Blake3 σ) (h : BlobHasher σ) (bytes : Bytes) : Except String (BlobHasher σ) :=
  if h.sizeBytes + bytes.length < 2 ^ 64 then
    .ok ⟨H.update h.hasher bytes, h.sizeBytes + bytes.length⟩
  else .error "hashed byte count overflow"

def finish (H : Blake3 σ) (h : BlobHasher σ) : Except String HashResult := do
  let hash ← BlobHash.new (H.finalize h.hasher)
  return ⟨hash, h.sizeBytes⟩

end BlobHasher

/-- Hash a content that is there as a whole. -/
def hashAtOnce (H : Blake3 σ) (content : Bytes) : Except String HashResult := do
  let h ← (BlobHasher.new H).update H content
  h.finish H

/-! ## Streams -/

/-- What successful reads give, before the end or a read that fails. A read fills at most the
buffer, and an empty one is the end. -/
structure Stream (chunkSize : ℕ) where
  chunks : List Bytes
  failure : Option String
  fits : ∀ chunk ∈ chunks, chunk ≠ [] ∧ chunk.length ≤ chunkSize

def Stream.content {chunkSize : ℕ} (stream : Stream chunkSize) : Bytes := stream.chunks.flatten

/-- What the allocator, the writer and the observer answer. A write that fails has written some
of its bytes; the observer knows the sizes that it was given before. -/
structure StreamCalls where
  buffer : Except String Unit
  write : ℕ → Option (ℕ × String)
  observed : List ℕ → Except String Unit

/-- What has been written, and the sizes that the observer was given. -/
structure Progress where
  written : Bytes
  sizes : List ℕ

/-- The buffer after a read: what was in it before is still behind the bytes read. -/
def readInto (buffer chunk : Bytes) : Bytes := chunk ++ buffer.drop chunk.length

section Loops

variable (H : Blake3 σ) (calls : StreamCalls) (failure : Option String)

def hashLoop : List Bytes → Bytes → BlobHasher σ → Progress → Except String HashResult × Progress
  | [], _, hasher, progress => match failure with
    | some e => (.error ("read stream while hashing: " ++ e), progress)
    | none => (hasher.finish H, progress)
  | chunk :: chunks, buffer, hasher, progress =>
      let buffer := readInto buffer chunk
      match hasher.update H (buffer.take chunk.length) with
      | .error e => (.error e, progress)
      | .ok hasher =>
          let progress := { progress with sizes := progress.sizes ++ [chunk.length] }
          match calls.observed progress.sizes with
          | .error e => (.error e, progress)
          | .ok () => hashLoop chunks buffer hasher progress

def copyLoop : List Bytes → Bytes → BlobHasher σ → Progress → Except String HashResult × Progress
  | [], _, hasher, progress => match failure with
    | some e => (.error ("read source stream: " ++ e), progress)
    | none => (hasher.finish H, progress)
  | chunk :: chunks, buffer, hasher, progress =>
      let buffer := readInto buffer chunk
      match hasher.update H (buffer.take chunk.length) with
      | .error e => (.error e, progress)
      | .ok hasher => match calls.write progress.sizes.length with
        | some (n, e) =>
            (.error ("write staging stream: " ++ e),
              { progress with written := progress.written ++ (buffer.take chunk.length).take n })
        | none =>
            let progress : Progress :=
              ⟨progress.written ++ buffer.take chunk.length, progress.sizes ++ [chunk.length]⟩
            match calls.observed progress.sizes with
            | .error e => (.error e, progress)
            | .ok () => copyLoop chunks buffer hasher progress

variable {chunkSize : ℕ} (stream : Stream chunkSize)

/-- `hash_reader_with_chunk_observer`. -/
def hashReader : Except String HashResult × Progress := match calls.buffer with
  | .error e => (.error ("allocate hash buffer: " ++ e), ⟨[], []⟩)
  | .ok () => hashLoop H calls stream.failure stream.chunks (List.replicate chunkSize 0)
      (.new H) ⟨[], []⟩

/-- `hash_reader_to_writer_with_chunk_observer`. -/
def hashReaderToWriter : Except String HashResult × Progress := match calls.buffer with
  | .error e => (.error ("allocate copy buffer: " ++ e), ⟨[], []⟩)
  | .ok () => copyLoop H calls stream.failure stream.chunks (List.replicate chunkSize 0)
      (.new H) ⟨[], []⟩

end Loops

/-! ## The loops in step -/

section Steps

variable {H : Blake3 σ} {calls : StreamCalls} {failure : Option String} {hasher : BlobHasher σ}
  {buffer : Bytes} {progress : Progress} {done chunks : List Bytes} {result : HashResult}

@[simp] theorem take_readInto (buffer chunk : Bytes) :
    (readInto buffer chunk).take chunk.length = chunk := by
  simp [readInto]

/-- The hasher has been given these pieces. -/
def BlobHasher.Holds (H : Blake3 σ) (hasher : BlobHasher σ) (done : List Bytes) : Prop :=
  hasher.hasher = done.foldl H.update H.new ∧ hasher.sizeBytes = done.flatten.length

theorem BlobHasher.holds_new (H : Blake3 σ) : (new H).Holds H [] := ⟨rfl, rfl⟩

/-- Hashing a piece succeeds as long as the bytes can be counted. -/
theorem BlobHasher.Holds.update (h : hasher.Holds H done) (chunk : Bytes) :
    (∃ next, hasher.update H chunk = .ok next ∧ next.Holds H (done ++ [chunk]) ∧
      (done ++ [chunk]).flatten.length < 2 ^ 64) ∨
    ((∃ e, hasher.update H chunk = .error e) ∧ 2 ^ 64 ≤ (done ++ [chunk]).flatten.length) := by
  obtain ⟨hstate, hsize⟩ := h
  have hlength : (done ++ [chunk]).flatten.length = done.flatten.length + chunk.length := by
    simp
  by_cases hfits : hasher.sizeBytes + chunk.length < 2 ^ 64
  · left
    refine ⟨_, if_pos hfits, ⟨?_, ?_⟩, ?_⟩
    · rw [List.foldl_append, hstate]
      rfl
    · rw [hlength, hsize]
    · rw [hlength, ← hsize]
      exact hfits
  · right
    refine ⟨⟨_, if_neg hfits⟩, ?_⟩
    rw [hlength, ← hsize]
    exact not_lt.1 hfits

/-- The observer accepts each piece from here on. -/
def Accepted (calls : StreamCalls) (done : List Bytes) : List Bytes → Prop
  | [] => True
  | chunk :: chunks => calls.observed ((done ++ [chunk]).map List.length) = .ok () ∧
      Accepted calls (done ++ [chunk]) chunks

/-- The writer takes each piece from here on. -/
def Writes (calls : StreamCalls) (done : List Bytes) : List Bytes → Prop
  | [] => True
  | chunk :: chunks => calls.write done.length = none ∧ Writes calls (done ++ [chunk]) chunks

/-- What a loop returns when nothing fails. -/
def Finishes (H : Blake3 σ) (all : List Bytes) (result : HashResult) : Prop :=
  all.flatten.length < 2 ^ 64 ∧
    BlobHasher.finish H ⟨all.foldl H.update H.new, all.flatten.length⟩ = .ok result

theorem flatten_prefix_append (done chunks : List Bytes) :
    done.flatten <+: (done ++ chunks).flatten := by
  rw [List.flatten_append]
  exact List.prefix_append _ _

/-- **The copying loop**, from a state in which some pieces have been copied. -/
theorem copyLoop_spec (calls : StreamCalls) (failure : Option String) (chunks : List Bytes)
    (buffer : Bytes) (h : hasher.Holds H done)
    (hcount : done.flatten.length < 2 ^ 64) :
    (∀ result, (copyLoop H calls failure chunks buffer hasher
        ⟨done.flatten, done.map List.length⟩).1 = .ok result ↔
      (failure = none ∧ Writes calls done chunks ∧ Accepted calls done chunks) ∧
        Finishes H (done ++ chunks) result) ∧
    (∀ result, (copyLoop H calls failure chunks buffer hasher
        ⟨done.flatten, done.map List.length⟩).1 = .ok result →
      (copyLoop H calls failure chunks buffer hasher
        ⟨done.flatten, done.map List.length⟩).2 =
        ⟨(done ++ chunks).flatten, (done ++ chunks).map List.length⟩) ∧
    (copyLoop H calls failure chunks buffer hasher
      ⟨done.flatten, done.map List.length⟩).2.written <+: (done ++ chunks).flatten := by
  induction chunks generalizing done buffer hasher with
  | nil =>
      rw [List.append_nil]
      obtain ⟨hstate, hsize⟩ := h
      cases failure with
      | some e => exact ⟨fun result => by simp [copyLoop], fun _ _ => rfl, List.prefix_rfl⟩
      | none =>
          have hasher_eq : hasher = ⟨done.foldl H.update H.new, done.flatten.length⟩ := by
            rw [← hstate, ← hsize]
          refine ⟨fun result => ?_, fun _ _ => rfl, List.prefix_rfl⟩
          simp only [copyLoop, Writes, Accepted, Finishes, hcount, true_and, hasher_eq]
  | cons chunk chunks ih =>
      have hall : done ++ chunk :: chunks = done ++ [chunk] ++ chunks := by simp
      have hwritten : done.flatten ++ chunk = (done ++ [chunk]).flatten := by simp
      have hsizes : done.map List.length ++ [chunk.length] = (done ++ [chunk]).map List.length := by
        simp
      rw [copyLoop, take_readInto]
      rcases h.update chunk with ⟨next, hupdate, hnext, hfits⟩ | ⟨⟨e, hupdate⟩, hover⟩
      · simp only [hupdate, List.length_map]
        cases hwrite : calls.write done.length with
        | some failed =>
            obtain ⟨n, e⟩ := failed
            refine ⟨fun result => ?_, fun result hok => by simp at hok, ?_⟩
            · simp [Writes, hwrite]
            · rw [hall, List.flatten_append, ← hwritten]
              exact ((List.prefix_append_right_inj _).2 (List.take_prefix n chunk)).trans
                (List.prefix_append _ _)
        | none =>
            simp only [hwritten, hsizes]
            cases hobserved : calls.observed ((done ++ [chunk]).map List.length) with
            | error e =>
                refine ⟨fun result => ?_, fun result hok => by simp at hok, ?_⟩
                · refine iff_of_false (by simp) ?_
                  rintro ⟨⟨-, -, haccepted, -⟩, -⟩
                  rw [hobserved] at haccepted
                  cases haccepted
                · rw [hall]
                  exact flatten_prefix_append (done ++ [chunk]) chunks
            | ok _ =>
                have hrest := ih (readInto buffer chunk) hnext hfits
                rw [← hall] at hrest
                refine ⟨fun result => ?_, hrest.2.1, hrest.2.2⟩
                rw [hrest.1 result]
                simp only [Writes, Accepted, hwrite, hobserved, true_and]
      · simp only [hupdate]
        refine ⟨fun result => ?_, fun result hok => by simp at hok,
          flatten_prefix_append done (chunk :: chunks)⟩
        have hlong : ¬ (done ++ chunk :: chunks).flatten.length < 2 ^ 64 := by
          rw [hall, List.flatten_append, List.length_append]
          omega
        exact iff_of_false (by simp) fun hfinishes => hlong hfinishes.2.1

/-- The hashing loop does what the copying loop does with a writer that does not fail. -/
theorem hashLoop_eq_copyLoop (buffer written written' : Bytes) (sizes : List ℕ) :
    (hashLoop H calls failure chunks buffer hasher ⟨written, sizes⟩).1.toOption =
      (copyLoop H { calls with write := fun _ => none } failure chunks buffer hasher
        ⟨written', sizes⟩).1.toOption ∧
    (hashLoop H calls failure chunks buffer hasher ⟨written, sizes⟩).2.sizes =
      (copyLoop H { calls with write := fun _ => none } failure chunks buffer hasher
        ⟨written', sizes⟩).2.sizes := by
  induction chunks generalizing buffer hasher written' sizes with
  | nil => cases failure <;> exact ⟨rfl, rfl⟩
  | cons chunk chunks ih =>
      rw [hashLoop, copyLoop, take_readInto]
      cases hasher.update H chunk with
      | error e => exact ⟨rfl, rfl⟩
      | ok next =>
          dsimp only
          cases calls.observed (sizes ++ [chunk.length]) with
          | error e => exact ⟨rfl, rfl⟩
          | ok _ => exact ih _ _ _

theorem writes_never (done chunks : List Bytes) :
    Writes { calls with write := fun _ => none } done chunks := by
  induction chunks generalizing done with
  | nil => trivial
  | cons chunk chunks ih => exact ⟨rfl, ih _⟩

theorem accepted_congr (calls calls' : StreamCalls) (h : calls'.observed = calls.observed)
    (done chunks : List Bytes) : Accepted calls' done chunks ↔ Accepted calls done chunks := by
  induction chunks generalizing done with
  | nil => exact Iff.rfl
  | cons chunk chunks ih => rw [Accepted, Accepted, h, ih]

theorem toOption_eq_some_iff {ε α : Type} {r : Except ε α} {a : α} :
    r.toOption = some a ↔ r = .ok a := by
  cases r <;> simp [Except.toOption]

/-- Only the concatenation of the pieces counts. -/
theorem finishes_iff (hH : H.Incremental) : Finishes H chunks result ↔
    hashAtOnce H chunks.flatten = .ok result := by
  have hfinish : BlobHasher.finish H ⟨chunks.foldl H.update H.new, chunks.flatten.length⟩ =
      BlobHasher.finish H ⟨H.update H.new chunks.flatten, chunks.flatten.length⟩ := by
    rw [BlobHasher.finish, BlobHasher.finish, hH.pieces]
  rw [Finishes, hfinish, hashAtOnce, BlobHasher.update, BlobHasher.new, Nat.zero_add]
  by_cases hlength : chunks.flatten.length < 2 ^ 64
  · rw [if_pos hlength]
    exact and_iff_right hlength
  · rw [if_neg hlength]
    exact iff_of_false (fun h => hlength h.1) (by simp)

theorem hashAtOnce_ok (hH : H.Incremental) {content : Bytes} (h : content.length < 2 ^ 64) :
    hashAtOnce H content =
      .ok ⟨⟨H.finalize (H.update H.new content), hH.digits _⟩, content.length⟩ := by
  have hnew : BlobHash.new (H.finalize (H.update H.new content)) =
      .ok ⟨H.finalize (H.update H.new content), hH.digits _⟩ :=
    BlobHash.new_eq_ok_iff.2 rfl
  rw [hashAtOnce, BlobHasher.update, BlobHasher.new, Nat.zero_add, if_pos h, Except.ok_bind,
    BlobHasher.finish, hnew]
  rfl

theorem sizeBytes_of_hashAtOnce (hH : H.Incremental) {content : Bytes}
    (h : hashAtOnce H content = .ok result) : result.sizeBytes = content.length := by
  by_cases hlength : content.length < 2 ^ 64
  · rw [hashAtOnce_ok hH hlength] at h
    rw [← Except.ok.inj h]
  · rw [hashAtOnce, BlobHasher.update, BlobHasher.new, Nat.zero_add, if_neg hlength] at h
    cases h

end Steps

/-- What a loop needs to end well, apart from the writer. -/
def Undisturbed {chunkSize : ℕ} (calls : StreamCalls) (stream : Stream chunkSize) : Prop :=
  calls.buffer = .ok () ∧ stream.failure = none ∧ Accepted calls [] stream.chunks

section Streams

variable {H : Blake3 σ} {chunkSize : ℕ} (calls : StreamCalls) (stream : Stream chunkSize)

theorem hashReaderToWriter_spec (hH : H.Incremental) :
    (∀ result, (hashReaderToWriter H calls stream).1 = .ok result ↔
      Undisturbed calls stream ∧ Writes calls [] stream.chunks ∧
        hashAtOnce H stream.content = .ok result) ∧
    (∀ result, (hashReaderToWriter H calls stream).1 = .ok result →
      (hashReaderToWriter H calls stream).2 =
        ⟨stream.content, stream.chunks.map List.length⟩) ∧
    (hashReaderToWriter H calls stream).2.written <+: stream.content := by
  rw [hashReaderToWriter]
  cases hbuffer : calls.buffer with
  | error e =>
      refine ⟨fun result => ?_, fun result hok => by simp at hok, List.nil_prefix⟩
      refine iff_of_false (by simp) fun h => ?_
      rw [Undisturbed, hbuffer] at h
      cases h.1.1
  | ok _ =>
      obtain ⟨hok, hend, hprefix⟩ := copyLoop_spec calls stream.failure stream.chunks
        (List.replicate chunkSize 0) (BlobHasher.holds_new H) (by simp)
      refine ⟨fun result => ?_, hend, hprefix⟩
      rw [Stream.content, ← finishes_iff hH, Undisturbed, hbuffer]
      refine (hok result).trans ?_
      rw [List.nil_append]
      constructor
      · intro ⟨⟨hfailure, hwrites, haccepted⟩, hresult⟩
        exact ⟨⟨rfl, hfailure, haccepted⟩, hwrites, hresult⟩
      · intro ⟨⟨_, hfailure, haccepted⟩, hwrites, hresult⟩
        exact ⟨⟨hfailure, hwrites, haccepted⟩, hresult⟩

theorem hashReader_spec (hH : H.Incremental) :
    (∀ result, (hashReader H calls stream).1 = .ok result ↔
      Undisturbed calls stream ∧ hashAtOnce H stream.content = .ok result) ∧
    ∀ result, (hashReader H calls stream).1 = .ok result →
      (hashReader H calls stream).2.sizes = stream.chunks.map List.length := by
  have hcopy := hashReaderToWriter_spec { calls with write := fun _ => none } stream hH
  have hstep : (hashReader H calls stream).1.toOption =
      (hashReaderToWriter H { calls with write := fun _ => none } stream).1.toOption ∧
      (hashReader H calls stream).2.sizes =
      (hashReaderToWriter H { calls with write := fun _ => none } stream).2.sizes := by
    obtain ⟨allocated, write, observed⟩ := calls
    cases allocated with
    | error e => exact ⟨rfl, rfl⟩
    | ok _ => exact hashLoop_eq_copyLoop _ _ _ _
  have hsame : ∀ result, (hashReader H calls stream).1 = .ok result ↔
      (hashReaderToWriter H { calls with write := fun _ => none } stream).1 = .ok result := by
    intro result
    rw [← toOption_eq_some_iff, hstep.1, toOption_eq_some_iff]
  refine ⟨fun result => ?_, fun result hok => ?_⟩
  · have haccepted : Accepted { calls with write := fun _ => none } [] stream.chunks ↔
        Accepted calls [] stream.chunks :=
      accepted_congr calls { calls with write := fun _ => none } rfl [] stream.chunks
    rw [hsame, hcopy.1, Undisturbed, Undisturbed, haccepted]
    exact and_congr_right fun _ => and_iff_right (writes_never _ _)
  · rw [hstep.2, hcopy.2.1 result ((hsame result).1 hok)]

end Streams

/-- **Hashing streams.** Each loop returns what hashing the whole content at once returns when
no read, no write and no answer of the observer is an error, and otherwise it returns an error.
When it returns a result, the sizes that the observer was given add up to the length, and the
writer has the content; in any case the writer has a prefix of it. -/
theorem hashing_streams (H : Blake3 σ) (hH : H.Incremental) (calls : StreamCalls)
    {chunkSize : ℕ} (stream : Stream chunkSize) :
    (∀ result, (hashReader H calls stream).1 = .ok result ↔
      Undisturbed calls stream ∧ hashAtOnce H stream.content = .ok result) ∧
    (∀ result, (hashReader H calls stream).1 = .ok result →
      (hashReader H calls stream).2.sizes.sum = result.sizeBytes ∧
      result.sizeBytes = stream.content.length) ∧
    (∀ result, (hashReaderToWriter H calls stream).1 = .ok result ↔
      Undisturbed calls stream ∧ Writes calls [] stream.chunks ∧
        hashAtOnce H stream.content = .ok result) ∧
    (∀ result, (hashReaderToWriter H calls stream).1 = .ok result →
      (hashReaderToWriter H calls stream).2.written = stream.content ∧
      (hashReaderToWriter H calls stream).2.sizes.sum = result.sizeBytes ∧
      result.sizeBytes = stream.content.length) ∧
    (hashReaderToWriter H calls stream).2.written <+: stream.content ∧
    (stream.content.length < 2 ^ 64 →
      ∃ result, hashAtOnce H stream.content = .ok result) := by
  obtain ⟨hhash, hsizes⟩ := hashReader_spec calls stream hH
  obtain ⟨hcopy, hprogress, hprefix⟩ :=
    hashReaderToWriter_spec calls stream hH
  have hlength : (stream.chunks.map List.length).sum = stream.content.length :=
    List.length_flatten.symm
  refine ⟨hhash, fun result hok => ?_, hcopy, fun result hok => ?_, hprefix, fun hfits =>
    ⟨_, hashAtOnce_ok hH hfits⟩⟩
  · have hsize := sizeBytes_of_hashAtOnce hH ((hhash result).1 hok).2
    exact ⟨by rw [hsizes result hok, hlength, hsize], hsize⟩
  · have hsize := sizeBytes_of_hashAtOnce hH ((hcopy result).1 hok).2.2
    rw [hprogress result hok]
    exact ⟨rfl, hlength.trans hsize.symm, hsize⟩

/-- A hasher that keeps its input, and knows the digest of one word. -/
def helloBlake3 : Blake3 Bytes where
  new := []
  update := (· ++ ·)
  finalize input := if input = utf8 "hello".toList then
    "ea8f163db38682925e4491c5e58d4bb3506ef8c14eb78a86e908c5624a67200f".toList
    else List.replicate 64 '0'

/-- The word, in two pieces. -/
def helloStream : Stream 3 where
  chunks := [utf8 "hel".toList, utf8 "lo".toList]
  failure := none
  fits := by decide +kernel

theorem hashing_streams_hello :
    ∃ result : HashResult, result.hash.text =
      "ea8f163db38682925e4491c5e58d4bb3506ef8c14eb78a86e908c5624a67200f".toList ∧
    (hashReaderToWriter helloBlake3 ⟨.ok (), fun _ => none, fun _ => .ok ()⟩ helloStream).1 =
      .ok result := by
  have hfold : ∀ (chunks : List Bytes) (input : Bytes),
      chunks.foldl helloBlake3.update input = input ++ chunks.flatten := by
    intro chunks
    induction chunks with
    | nil => intro input; exact (List.append_nil input).symm
    | cons chunk chunks ih =>
        intro input
        rw [List.foldl_cons, ih, List.flatten_cons, ← List.append_assoc]
        rfl
  have hincremental : helloBlake3.Incremental := by
    refine ⟨fun chunks => ?_, fun input => ?_⟩
    · rw [hfold]
      rfl
    · change IsHashText (if _ then _ else _)
      split <;> decide +kernel
  obtain ⟨-, -, hcopy, -, -, hfits⟩ := hashing_streams helloBlake3 hincremental
    ⟨.ok (), fun _ => none, fun _ => .ok ()⟩ helloStream
  have hhello : hashAtOnce helloBlake3 helloStream.content = .ok
      ⟨⟨"ea8f163db38682925e4491c5e58d4bb3506ef8c14eb78a86e908c5624a67200f".toList,
        by decide +kernel⟩, 5⟩ := by
    rw [hashAtOnce_ok hincremental (by decide +kernel)]
    congr 2
  exact ⟨_, rfl, (hcopy _).2 ⟨⟨rfl, rfl, rfl, rfl, trivial⟩, ⟨rfl, rfl, trivial⟩, hhello⟩⟩

end Hashing

end MediaImporter
