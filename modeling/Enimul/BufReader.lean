import Mathlib.Data.List.Basic

/-! A buffered reader.
A connection returns its bytes chunk by chunk, each read as much of the next chunk as it has room
for. The reader keeps what it has read ahead in a buffer of fixed size. Whatever the chunks are,
the stream that is still to be read is the buffer and then the chunks. -/
namespace Enimul
namespace BufReader

/-- What is buffered, and what the reads of the connection will return. -/
structure Reader (α : Type) where
  buffered : List α
  chunks : List (List α)

variable {α : Type}

/-- All that is still to be read. -/
def Reader.stream (r : Reader α) : List α := r.buffered++r.chunks.flatten

/-- `n` elements have been taken from the stream. -/
def Reader.Took (r : Reader α) (n : ℕ) (r' : Reader α) : Prop :=
  n ≤ r.stream.length ∧ r'.stream = r.stream.drop n

variable (size : ℕ)

/-- Read until there are `n` elements in the buffer, it is full, or the connection ends. -/
def fill (n : ℕ) (buffered : List α) : List (List α) → Reader α
  | [] => ⟨buffered,[]⟩
  | c::cs =>
    if n ≤ buffered.length then ⟨buffered,c::cs⟩
    else if c.length ≤ size-buffered.length then fill n (buffered++c) cs
    else ⟨buffered++c.take (size-buffered.length),c.drop (size-buffered.length)::cs⟩

/-- The next `n` elements, which stay in the buffer. -/
def peek (n : ℕ) (r : Reader α) : Option (List α) × Reader α :=
  let r := fill size n r.buffered r.chunks
  (if n ≤ r.buffered.length then some (r.buffered.take n) else none,r)

/-- Read `n` more elements behind `got` with an empty buffer. A read of at least the size of the
buffer goes past the buffer. -/
def readRest (n : ℕ) (got : List α) : List (List α) → Option (List α × Reader α)
  | [] => if n = 0 then some (got,⟨[],[]⟩) else none
  | c::cs =>
    if n = 0 then some (got,⟨[],c::cs⟩)
    else if c.length ≤ n then readRest (n-c.length) (got++c) cs
    else if size ≤ n then some (got++c.take n,⟨[],c.drop n::cs⟩)
    else if c.length ≤ size then some (got++c.take n,⟨c.drop n,cs⟩)
    else some (got++c.take n,⟨(c.take size).drop n,c.drop size::cs⟩)

/-- Exactly `n` elements, or none if the connection ends before. -/
def readFull (n : ℕ) (r : Reader α) : Option (List α × Reader α) :=
  if n ≤ r.buffered.length then some (r.buffered.take n,⟨r.buffered.drop n,r.chunks⟩)
  else readRest size (n-r.buffered.length) r.buffered r.chunks

@[simp] theorem fill_stream (n : ℕ) (buffered : List α) (chunks : List (List α)) :
    (fill size n buffered chunks).stream = buffered++chunks.flatten := by
  induction chunks generalizing buffered with
  | nil => rfl
  | cons c cs ih =>
    rw [fill]
    split
    · rfl
    split
    · rw [ih,List.flatten_cons,List.append_assoc]
    · simp [Reader.stream,← List.append_assoc (List.take _ _)]

theorem peek_stream (n : ℕ) (r : Reader α) : (peek size n r).2.stream = r.stream :=
  fill_stream size n r.buffered r.chunks

/-- What is seen by a look ahead is the start of the stream. -/
theorem peek_some {n : ℕ} {r r' : Reader α} {b : List α} (h : peek size n r = (some b,r')) :
    b = r.stream.take n ∧ n ≤ r.stream.length ∧ r'.stream = r.stream := by
  have hstream := peek_stream size n r
  rw [h] at hstream
  dsimp only at hstream
  rw [peek,Prod.mk.injEq] at h
  obtain ⟨hb,rfl⟩ := h
  split at hb
  · next hn =>
    obtain rfl := Option.some.inj hb
    rw [← hstream]
    refine ⟨?_,?_,rfl⟩
    · rw [Reader.stream,List.take_append_of_le_length hn]
    · rw [Reader.stream,List.length_append]
      omega
  · cases hb

theorem readRest_some {n : ℕ} {got b : List α} {chunks : List (List α)} {r : Reader α}
    (h : readRest size n got chunks = some (b,r)) :
    b = got++chunks.flatten.take n ∧ n ≤ chunks.flatten.length ∧
      r.stream = chunks.flatten.drop n := by
  induction chunks generalizing n got with
  | nil =>
    rw [readRest] at h
    split at h
    · next hn =>
      cases h
      simp [hn,Reader.stream]
    · cases h
  | cons c cs ih =>
    rw [readRest] at h
    split at h
    · next hn =>
      cases h
      simp [hn,Reader.stream]
    split at h
    · next hc =>
      obtain ⟨hb,hn,hr⟩ := ih h
      rw [List.flatten_cons,List.take_append,List.take_of_length_le hc,List.drop_append,
        List.drop_of_length_le hc,List.length_append]
      refine ⟨by rw [hb,List.append_assoc],by omega,by rw [hr,List.nil_append]⟩
    next hc =>
    have hle : n ≤ c.length := by omega
    rw [List.flatten_cons,List.take_append_of_le_length hle,List.drop_append_of_le_length hle,
      List.length_append]
    split at h
    · cases h
      exact ⟨rfl,by omega,rfl⟩
    split at h
    · cases h
      exact ⟨rfl,by omega,rfl⟩
    · next hsize _ =>
      cases h
      refine ⟨rfl,by omega,?_⟩
      have hsplit : (c.take size).drop n++c.drop size = c.drop n := by
        rw [← List.drop_append_of_le_length (by rw [List.length_take]; omega),
          List.take_append_drop]
      rw [Reader.stream,List.flatten_cons,← List.append_assoc,hsplit]

/-- A full read takes what it returns from the stream. -/
theorem readFull_some {n : ℕ} {r r' : Reader α} {b : List α}
    (h : readFull size n r = some (b,r')) : b = r.stream.take n ∧ r.Took n r' := by
  rw [readFull] at h
  split at h
  · next hn =>
    cases h
    rw [Reader.Took,Reader.stream,Reader.stream,List.take_append_of_le_length hn,
      List.drop_append_of_le_length hn,List.length_append]
    exact ⟨rfl,by omega,rfl⟩
  · next hn =>
    obtain ⟨hb,hle,hr⟩ := readRest_some size h
    have hlt : r.buffered.length ≤ n := by omega
    rw [Reader.Took,Reader.stream,List.take_append,List.take_of_length_le hlt,List.drop_append,
      List.drop_of_length_le hlt,List.length_append]
    exact ⟨hb,by omega,hr⟩

theorem readRest_of_le {n : ℕ} (got : List α) {chunks : List (List α)} (h : n ≤ chunks.flatten.length) :
    ∃ res, readRest size n got chunks = some res := by
  induction chunks generalizing n got with
  | nil =>
    rw [readRest]
    exact ⟨_,if_pos (by simpa using h)⟩
  | cons c cs ih =>
    rw [List.flatten_cons,List.length_append] at h
    rw [readRest]
    split
    · exact ⟨_,rfl⟩
    split
    · exact ih _ (by omega)
    split
    · exact ⟨_,rfl⟩
    split <;> exact ⟨_,rfl⟩

/-- What is in the stream can be read. -/
theorem readFull_of_le {n : ℕ} {r : Reader α} (h : n ≤ r.stream.length) :
    ∃ r', readFull size n r = some (r.stream.take n,r') ∧ r'.stream = r.stream.drop n := by
  have hres : ∃ res, readFull size n r = some res := by
    rw [readFull]
    split
    · exact ⟨_,rfl⟩
    · rw [Reader.stream,List.length_append] at h
      exact readRest_of_le size _ (by omega)
  obtain ⟨⟨b,r'⟩,hread⟩ := hres
  obtain ⟨rfl,-,hrest⟩ := readFull_some size hread
  exact ⟨r',hread,hrest⟩

theorem readFull_none {n : ℕ} {r : Reader α} (h : r.stream.length < n) : readFull size n r = none := by
  cases hread : readFull size n r with
  | none => rfl
  | some res =>
    have hle := (readFull_some size hread).2.1
    omega

end BufReader
end Enimul
