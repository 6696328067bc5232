import Enimul.BufReader
import Enimul.DNSHijack

/-! DNS over TCP inside the program.
`serveLocalDNSTCP` reads queries that are preceded by their length, has each one answered, and
writes the answers in the same form. The connection returns its bytes in chunks of any size; a
query is read with `io.ReadFull`, which is a reader without a buffer. -/
namespace Enimul
namespace DNSTCPConn

open GoSlice GoText GoRun Resolve DNSHijack BufReader

/-! ### Frames -/

/-- A message behind its length. -/
def frame (msg : Bytes) : Bytes := putUint16 msg.length++msg

/-- The messages of a stream of frames. -/
def decodeFrames : Bytes → Option (List Bytes)
  | [] => some []
  | [_] => none
  | hi::lo::rest =>
    let n := hi.toNat*256+lo.toNat
    if n ≤ rest.length then (decodeFrames (rest.drop n)).map (rest.take n::·) else none
termination_by stream => stream.length
decreasing_by
  rw [List.length_drop,List.length_cons,List.length_cons]
  exact Nat.lt_succ_of_le (Nat.le_succ_of_le (Nat.sub_le _ _))

/-! ### Answering a packet -/

/-- The library that reads and writes DNS messages, and what the answers depend on. -/
structure Env (ω : Type) where
  unpack : Bytes → Except String Msg
  pack : Msg → Except String Bytes
  upstream : Msg → ω → Except String Msg × ω
  now : ω → ℤ
  mapLower : Str → Str
  shouldUseFakeIP : Str → Bool

section Serve

variable {ω : Type} (env : Env ω)

/-- Every query is sent upstream once. -/
def handleDNSQuery (req : Msg) : Proc (Stores × ω) Msg := fun s =>
  let r := env.upstream req s.2
  match DNSHijack.handleDNSQuery env.mapLower r.1 env.shouldUseFakeIP (env.now s.2) req s.1 with
  | .error fault => .error fault
  | .ok (res,stores) => .ok (res,(stores,r.2))

def handleDNSQueryPacket (payload : Bytes) : Proc (Stores × ω) Bytes := do
  let req ← Proc.withStr "unpack hijacked dns request" (Proc.ofExcept (env.unpack payload))
  let resp ← handleDNSQuery env req
  Proc.withStr "pack hijacked dns response" (Proc.ofExcept (env.pack resp))

/-- The connection: what is still to be read, the frames that have been written, and whether it
has been closed. -/
structure Conn where
  reader : Reader UInt8
  written : List Bytes := []
  closed : Bool := false

/-- `refuses` is the error of a write after the given ones. -/
def serveLocalDNSTCP (refuses : List Bytes → Bytes → Option String) (conn : Conn)
    (s : Stores × ω) : Checked (Conn × (Stores × ω)) :=
  -- every return runs the deferred `conn.Close()`
  match _h₁ : readFull 0 2 conn.reader with
  | none => .ok ({conn with closed := true},s)
  | some (lengthBuf,r₁) =>
    match bigEndianUint16 lengthBuf with
    | .error fault => .error fault
    | .ok msgLen =>
      if msgLen ≤ 0 then .ok ({conn with reader := r₁, closed := true},s) else
      match _h₂ : readFull 0 msgLen r₁ with
      | none => .ok ({conn with reader := r₁, closed := true},s)
      | some (payload,r₂) =>
        match handleDNSQueryPacket env payload s with
        | .error fault => .error fault
        | .ok (.error _,s) => .ok ({conn with reader := r₂, closed := true},s)
        | .ok (.ok resp,s) =>
          if 65535 < resp.length then .ok ({conn with reader := r₂, closed := true},s) else
          match refuses conn.written (frame resp) with
          | some _ => .ok ({conn with reader := r₂, closed := true},s)
          | none =>
            serveLocalDNSTCP refuses {conn with reader := r₂, written := conn.written++[frame resp]} s
termination_by conn.reader.stream.length
decreasing_by
  obtain ⟨-,hle₁,hrest₁⟩ := readFull_some 0 _h₁
  obtain ⟨-,-,hrest₂⟩ := readFull_some 0 _h₂
  rw [hrest₂,hrest₁,List.length_drop,List.length_drop]
  omega

variable {env} {refuses : List Bytes → Bytes → Option String} {conn : Conn} {q rest : Bytes}

/-- What the program does with a query that has been read. -/
def respond (env : Env ω) (refuses : List Bytes → Bytes → Option String) (conn : Conn) :
    Checked (Except String Bytes × (Stores × ω)) → Checked (Conn × (Stores × ω))
  | .error fault => .error fault
  | .ok (.error _,s) => .ok ({conn with closed := true},s)
  | .ok (.ok resp,s) =>
    if 65535 < resp.length then .ok ({conn with closed := true},s) else
    match refuses conn.written (frame resp) with
    | some _ => .ok ({conn with closed := true},s)
    | none => serveLocalDNSTCP env refuses {conn with written := conn.written++[frame resp]} s

/-- A frame at the head of the stream is read as a whole, however it is cut into chunks. -/
theorem serveLocalDNSTCP_frame (env : Env ω) (refuses : List Bytes → Bytes → Option String)
    (conn : Conn) (hpos : 0 < q.length) (hlen : q.length ≤ 65535)
    (hstream : conn.reader.stream = frame q++rest) (s : Stores × ω) :
    ∃ r, r.stream = rest ∧ serveLocalDNSTCP env refuses conn s =
      respond env refuses {conn with reader := r} (handleDNSQueryPacket env q s) := by
  rw [frame,List.append_assoc] at hstream
  have hlength : (2 : ℕ) ≤ conn.reader.stream.length := by
    rw [hstream]
    simp
  rw [serveLocalDNSTCP]
  split
  · rename_i hnone
    obtain ⟨r₁,hread,-⟩ := readFull_of_le 0 hlength
    rw [hread] at hnone
    cases hnone
  · rename_i lengthBuf r₁ hread₁
    obtain ⟨rfl,-,hrest₁⟩ := readFull_some 0 hread₁
    have hbuf : conn.reader.stream.take 2 = putUint16 q.length := by
      rw [hstream]
      exact List.take_left' rfl
    have hrest : r₁.stream = q++rest := by
      rw [hrest₁,hstream]
      exact List.drop_left' rfl
    rw [hbuf,bigEndianUint16_putUint16 (by omega)]
    dsimp only
    rw [if_neg (by omega)]
    split
    · rename_i hnone
      obtain ⟨r₂,hread,-⟩ := readFull_of_le 0 (n := q.length) (r := r₁) (by rw [hrest]; simp)
      rw [hread] at hnone
      cases hnone
    · rename_i payload r₂ hread₂
      obtain ⟨rfl,-,hrest₂⟩ := readFull_some 0 hread₂
      refine ⟨r₂,by rw [hrest₂,hrest,List.drop_left],?_⟩
      rw [hrest,List.take_left]
      rfl

/-- The queries are answered one after the other, each with at most 65535 bytes. -/
inductive Answers (env : Env ω) : Stores × ω → List (Bytes × Bytes) → Stores × ω → Prop
  | nil (s : Stores × ω) : Answers env s [] s
  | cons {s s₁ s₂ : Stores × ω} {q r : Bytes} {qrs : List (Bytes × Bytes)}
      (h : handleDNSQueryPacket env q s = .ok (.ok r,s₁)) (hr : r.length ≤ 65535)
      (hrest : Answers env s₁ qrs s₂) : Answers env s ((q,r)::qrs) s₂

theorem Answers.short {qrs : List (Bytes × Bytes)} {s s' : Stores × ω} (h : Answers env s qrs s') :
    ∀ msg ∈ qrs.map Prod.snd, msg.length ≤ 65535 := by
  induction h with
  | nil s => simp
  | cons hq hr hrest ih =>
    rw [List.map_cons,List.forall_mem_cons]
    exact ⟨hr,ih⟩

/-- The query fails, or its answer does not fit into a frame. -/
def Fails (env : Env ω) (q : Bytes) (s s' : Stores × ω) : Prop :=
  (∃ err, handleDNSQueryPacket env q s = .ok (.error err,s')) ∨
    ∃ r, handleDNSQueryPacket env q s = .ok (.ok r,s') ∧ 65535 < r.length

/-- The frames of messages, one after the other. -/
def frames (msgs : List Bytes) : Bytes := (msgs.map frame).flatten

theorem decodeFrames_frame {msg : Bytes} (h : msg.length ≤ 65535) (rest : Bytes) :
    decodeFrames (frame msg++rest) = (decodeFrames rest).map (msg::·) := by
  have hlen : (UInt8.ofNat (msg.length/256)).toNat*256+(UInt8.ofNat msg.length).toNat =
      msg.length := by
    rw [UInt8.toNat_ofNat',UInt8.toNat_ofNat']
    omega
  change decodeFrames (UInt8.ofNat (msg.length/256)::UInt8.ofNat msg.length::(msg++rest)) = _
  rw [decodeFrames,hlen,if_pos (by simp),List.take_left,List.drop_left]

theorem decodeFrames_frames {msgs : List Bytes} (h : ∀ msg ∈ msgs, msg.length ≤ 65535) :
    decodeFrames (frames msgs) = some msgs := by
  induction msgs with
  | nil => rw [frames,List.map_nil,List.flatten_nil,decodeFrames]
  | cons msg msgs ih =>
    have hrest := ih fun m hm => h m (.tail _ hm)
    rw [frames,List.map_cons,List.flatten_cons,decodeFrames_frame (h msg (.head _))]
    rw [frames] at hrest
    rw [hrest]
    rfl

/-- Queries that are answered leave the frames of their answers. -/
theorem serveLocalDNSTCP_answers (conn : Conn) {qrs : List (Bytes × Bytes)} {s s' : Stores × ω}
    (hwrites : ∀ written msg, refuses written msg = none)
    (hquery : ∀ qr ∈ qrs, 0 < qr.1.length ∧ qr.1.length ≤ 65535) (h : Answers env s qrs s')
    (hstream : conn.reader.stream = frames (qrs.map Prod.fst)++rest) :
    ∃ r, r.stream = rest ∧ serveLocalDNSTCP env refuses conn s =
      serveLocalDNSTCP env refuses
        {conn with reader := r, written := conn.written++qrs.map fun qr => frame qr.2} s' := by
  induction h generalizing conn with
  | nil s => exact ⟨conn.reader,by simpa [frames] using hstream,by simp⟩
  | @cons s s₁ s₂ q a qrs hq ha hrest ih =>
    obtain ⟨hpos,hlen⟩ := hquery (q,a) (.head _)
    rw [List.map_cons,frames,List.map_cons,List.flatten_cons,List.append_assoc] at hstream
    obtain ⟨r,hr,hserve⟩ := serveLocalDNSTCP_frame env refuses conn hpos hlen hstream s
    let next : Conn := {conn with reader := r, written := conn.written++[frame a]}
    have hnext : next.reader.stream = frames (qrs.map Prod.fst)++rest := hr
    obtain ⟨r',hr',hserve'⟩ := ih next (fun qr hqr => hquery qr (.tail _ hqr)) hnext
    refine ⟨r',hr',?_⟩
    rw [hserve,hq,respond,if_neg (by omega),hwrites]
    dsimp only
    rw [hserve']
    simp [next]

theorem serveLocalDNSTCP_end (s : Stores × ω) (h : conn.reader.stream = []) :
    serveLocalDNSTCP env refuses conn s = .ok ({conn with closed := true},s) := by
  have hnone := readFull_none 0 (n := 2) (r := conn.reader) (by rw [h]; decide)
  rw [serveLocalDNSTCP]
  split
  · rfl
  · rename_i hread
    rw [hnone] at hread
    cases hread

end Serve

/-- Queries in frames, cut into chunks in any way, are answered with the frames of their answers,
and then the connection is closed. At a query that fails or whose answer is too long it is closed
with the frames of the answers before. -/
theorem serveLocalDNSTCP_frames {ω : Type} (env : Env ω) (chunks : List Bytes)
    {refuses : List Bytes → Bytes → Option String} {qrs : List (Bytes × Bytes)} {s s' : Stores × ω}
    (hwrites : ∀ written msg, refuses written msg = none)
    (hquery : ∀ qr ∈ qrs, 0 < qr.1.length ∧ qr.1.length ≤ 65535) (hanswers : Answers env s qrs s') :
    (chunks.flatten = frames (qrs.map Prod.fst) →
      ∃ conn, serveLocalDNSTCP env refuses {reader := ⟨[],chunks⟩} s = .ok (conn,s') ∧
        conn.written = (qrs.map Prod.snd).map frame ∧ conn.closed = true ∧
        decodeFrames conn.written.flatten = some (qrs.map Prod.snd)) ∧
    ∀ q rest s'', 0 < q.length → q.length ≤ 65535 → Fails env q s' s'' →
      chunks.flatten = frames (qrs.map Prod.fst)++(frame q++rest) →
      ∃ conn, serveLocalDNSTCP env refuses {reader := ⟨[],chunks⟩} s = .ok (conn,s'') ∧
        conn.written = (qrs.map Prod.snd).map frame ∧ conn.closed = true := by
  have hshort : ∀ msg ∈ qrs.map Prod.snd, msg.length ≤ 65535 := hanswers.short
  refine ⟨fun hchunks => ?_,fun q rest s'' hpos hlen hfails hchunks => ?_⟩
  · have hstream : (Reader.mk [] chunks).stream = frames (qrs.map Prod.fst)++[] := by
      rw [List.append_nil]
      exact hchunks
    obtain ⟨r,hr,hserve⟩ := serveLocalDNSTCP_answers ⟨⟨[],chunks⟩,[],false⟩ hwrites hquery
      hanswers hstream
    rw [hserve,serveLocalDNSTCP_end _ hr]
    refine ⟨_,rfl,by simp,rfl,?_⟩
    have hdecode := decodeFrames_frames hshort
    rw [frames,List.map_map] at hdecode
    exact hdecode
  · obtain ⟨r,hr,hserve⟩ := serveLocalDNSTCP_answers ⟨⟨[],chunks⟩,[],false⟩ hwrites hquery
      hanswers hchunks
    obtain ⟨r',-,hlast⟩ := serveLocalDNSTCP_frame env refuses
      ⟨r,[]++qrs.map fun qr => frame qr.2,false⟩ hpos hlen hr s'
    rw [hserve,hlast]
    obtain ⟨err,herr⟩|⟨a,ha,hlong⟩ := hfails
    · rw [herr]
      exact ⟨_,rfl,by simp,rfl⟩
    · rw [ha,respond,if_pos hlong]
      exact ⟨_,rfl,by simp,rfl⟩

/-- A library that takes every packet for an empty query and packs every answer as three bytes. -/
def threeBytes : Env Unit where
  unpack _ := .ok {}
  pack _ := .ok [1,2,3]
  upstream _ w := (.ok {},w)
  now _ := 0
  mapLower := id
  shouldUseFakeIP _ := false

theorem serveLocalDNSTCP_frames_threeBytes :
    ∃ conn, serveLocalDNSTCP threeBytes (fun _ _ => none) {reader := ⟨[],[[0],[2,9],[9]]⟩} ({},()) =
        .ok (conn,({},())) ∧
      decodeFrames conn.written.flatten = some [[1,2,3]] := by
  have hanswers : Answers threeBytes ({},()) [([9,9],[1,2,3])] ({},()) :=
    .cons rfl (by decide) (.nil _)
  obtain ⟨conn,hserve,-,-,hdecode⟩ :=
    (serveLocalDNSTCP_frames threeBytes [[0],[2,9],[9]] (fun _ _ => rfl) (by simp)
      hanswers).1 rfl
  exact ⟨conn,hserve,hdecode⟩

end DNSTCPConn
end Enimul
