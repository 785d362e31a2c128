import StatsRelay.StatsdClient.ClientTask

/-! # The write task: `client_sender`

`client_sender` (`statsd_client.rs`) owns the TCP stream of one endpoint.  It connects
first (`form_connection`: retry after every failed attempt, give up only when the tripwire
fires), then takes buffers from `client_task` one at a time and writes each until it is
empty.  A write of zero bytes, or a write error, kills the connection: the stream is
dropped, `trim_to_next_newline` discards the buffer up to and including its next newline,
and the next write reconnects first.

The model is a step function over the events of its environment (`clientSenderStep`:
connect outcomes, the tripwire, received buffers, write outcomes), `none` when the event
cannot happen at that point or the task returns.  A connection is represented by the bytes
written on it.  For buffers that end with a newline, the invariant `SenderInv` says that
the bytes taken in so far are the bytes of the closed connections, each followed by the
piece its failure discarded, then the bytes of the open connection, then the rest of the
current buffer; each discarded piece is the rest of one line through its newline.  Hence
connections write contiguous, disjoint, ordered segments of the input, each beginning at
its start or just after a newline (`clientSender_segments`), and each failure discards
exactly one PDU, whole if the failure fell on a line boundary
(`clientSender_failure_discards_one_line`).

The inner write loop ends: every `write_buf` call on a buffer of `client_task` removes at
least one byte from it, a write by advancing it and a failure by `trim_to_next_newline`,
which finds a newline in every non-empty rest of such a buffer; so the loop makes at most
`buf.len()` calls, and it can always go on until then (`clientSender_write_loop_bound`).

Whatever the buffers, `bytes_sent` counts the bytes written on every stream formed, and
`connections_made` the streams formed, each dropped one counted once in
`connections_aborted` (`clientSender_counters`). -/

namespace StatsRelay.StatsdClient

/-- Where `client_sender` waits. -/
inductive SenderPc where
  /-- In `form_connection`, on a connect attempt. -/
  | connecting
  /-- On `recv.recv()`, for the next buffer. -/
  | receiving
  /-- On `connect.write_buf(&mut buf)`. -/
  | writing
  deriving DecidableEq, Repr

/-- What the environment of `client_sender` does next. -/
inductive SenderEvent where
  /-- `TcpStream::connect` succeeded within `CONNECT_TIMEOUT`. -/
  | connected
  /-- The attempt timed out or failed; `RECONNECT_DELAY` follows. -/
  | connectFailed
  /-- The connect tripwire fired during an attempt. -/
  | tripped
  /-- `recv.recv()` returned. -/
  | recv (buf : Option Bytes)
  /-- `write_buf` returned `Ok(n)`. -/
  | wrote (n : ℕ)
  /-- `write_buf` returned an error. -/
  | writeError
  deriving DecidableEq, Repr

/-- The state of `client_sender` and its counters. -/
structure ClientSender where
  pc : SenderPc
  /-- The unwritten rest of the current buffer. -/
  buf : Bytes
  /-- `lazy_connect`, as the bytes written on the open stream. -/
  conn : Option Bytes
  /-- The bytes written on each dropped stream, in order. -/
  closed : List Bytes
  bytesSent : ℕ
  connectionsAborted : ℕ
  connectionsMade : ℕ
  connectionsFailed : ℕ
  deriving DecidableEq, Repr

/-- `trim_to_next_newline`: drop everything up to and including the next newline. -/
def trimToNextNewline (buf : Bytes) : Bytes :=
  match memchr newline buf with
  | none => buf
  | some pos => buf.drop (pos + 1)

namespace ClientSender

/-- The task when it starts: connecting, with nothing received. -/
def init : ClientSender := ⟨.connecting, [], none, [], 0, 0, 0, 0⟩

/-- The head of the write loop: a drained buffer goes back to `recv`, a dropped stream
reconnects, otherwise write. -/
def next (s : ClientSender) : ClientSender :=
  { s with pc := if s.buf = [] then .receiving else if s.conn.isNone then .connecting else .writing }

@[simp] theorem next_buf (s : ClientSender) : s.next.buf = s.buf := rfl
@[simp] theorem next_conn (s : ClientSender) : s.next.conn = s.conn := rfl
@[simp] theorem next_closed (s : ClientSender) : s.next.closed = s.closed := rfl
@[simp] theorem next_connectionsAborted (s : ClientSender) :
    s.next.connectionsAborted = s.connectionsAborted := rfl
theorem next_pc (s : ClientSender) : s.next.pc =
    if s.buf = [] then .receiving else if s.conn.isNone then .connecting else .writing := rfl

/-- The connection dies: drop the stream, trim the buffer, count the abort. -/
def abort (s : ClientSender) : ClientSender :=
  next { s with buf := trimToNextNewline s.buf, conn := none, closed := s.closed ++ s.conn.toList,
                connectionsAborted := s.connectionsAborted + 1 }

end ClientSender

/-- One event in the life of `client_sender`; `none` when it cannot happen here or the
task returns (`returns`).  The tripwire during the first `form_connection` leaves the stream
unset, and the task goes on to `recv`. -/
def clientSenderStep (s : ClientSender) : SenderEvent → Option ClientSender
  | .connected =>
    if s.pc = .connecting then some { s with conn := some [], connectionsMade := s.connectionsMade + 1 }.next
    else none
  | .connectFailed =>
    if s.pc = .connecting then some { s with connectionsFailed := s.connectionsFailed + 1 } else none
  | .tripped => if s.pc = .connecting ∧ s.buf = [] then some s.next else none
  | .recv none => none
  | .recv (some b) => if s.pc = .receiving then some { s with buf := b }.next else none
  | .wrote n =>
    match s.pc, s.conn with
    | .writing, some c =>
      if n ≤ s.buf.length then
        let s' := { s with buf := s.buf.drop n, conn := some (c ++ s.buf.take n) }
        if n = 0 ∧ s'.buf ≠ [] then some s'.abort
        else some { s' with bytesSent := s.bytesSent + n }.next
      else none
    | _, _ => none
  | .writeError => if s.pc = .writing then some s.abort else none

/-- Whether `client_sender` returns on the event: the tripwire fires while it reconnects for
a buffer, or `recv.recv()` yields `None`. -/
def ClientSender.returns (s : ClientSender) : SenderEvent → Bool
  | .tripped => s.pc = .connecting ∧ s.buf ≠ []
  | .recv none => s.pc = .receiving
  | _ => false

/-- `client_sender` over a sequence of events. -/
def clientSender (s : ClientSender) : List SenderEvent → Option ClientSender
  | [] => some s
  | e :: es => (clientSenderStep s e).bind (clientSender · es)

/-- The buffers a run received, in order. -/
def receivedOf (es : List SenderEvent) : List Bytes :=
  es.filterMap fun | .recv (some b) => some b | _ => none

/-- What one step of `client_sender` can do, guards included. -/
theorem clientSenderStep_cases {s s' : ClientSender} {e : SenderEvent} (h : clientSenderStep s e = some s') :
    (e = .connected ∧ s.pc = .connecting ∧
        s' = { s with conn := some [], connectionsMade := s.connectionsMade + 1 }.next) ∨
    (e = .connectFailed ∧ s.pc = .connecting ∧ s' = { s with connectionsFailed := s.connectionsFailed + 1 }) ∨
    (e = .tripped ∧ s.pc = .connecting ∧ s.buf = [] ∧ s' = s.next) ∨
    (∃ b, e = .recv (some b) ∧ s.pc = .receiving ∧ s' = { s with buf := b }.next) ∨
    (∃ n c, e = .wrote n ∧ s.pc = .writing ∧ s.conn = some c ∧ n ≤ s.buf.length ∧
      ((n = 0 ∧ s.buf.drop n ≠ [] ∧
          s' = { s with buf := s.buf.drop n, conn := some (c ++ s.buf.take n) }.abort) ∨
        (¬(n = 0 ∧ s.buf.drop n ≠ []) ∧ s' =
          { s with buf := s.buf.drop n, conn := some (c ++ s.buf.take n), bytesSent := s.bytesSent + n }.next))) ∨
    (e = .writeError ∧ s.pc = .writing ∧ s' = s.abort) := by
  cases e with
  | connected => obtain ⟨hpc, ⟨⟩⟩ := Option.ite_none_right_eq_some.1 h; exact .inl ⟨rfl, hpc, rfl⟩
  | connectFailed =>
    obtain ⟨hpc, ⟨⟩⟩ := Option.ite_none_right_eq_some.1 h; exact .inr (.inl ⟨rfl, hpc, rfl⟩)
  | tripped =>
    obtain ⟨⟨hpc, hb⟩, ⟨⟩⟩ := Option.ite_none_right_eq_some.1 h; exact .inr (.inr (.inl ⟨rfl, hpc, hb, rfl⟩))
  | recv b =>
    cases b with
    | none => cases h
    | some b =>
      obtain ⟨hpc, ⟨⟩⟩ := Option.ite_none_right_eq_some.1 h
      exact .inr (.inr (.inr (.inl ⟨b, rfl, hpc, rfl⟩)))
  | wrote n =>
    simp only [clientSenderStep] at h
    split at h
    · next c hpc hc =>
      obtain ⟨hn, h⟩ := Option.ite_none_right_eq_some.1 h
      refine .inr (.inr (.inr (.inr (.inl ⟨n, c, rfl, hpc, hc, hn, ?_⟩))))
      split at h
      · next ha => exact .inl ⟨ha.1, ha.2, (Option.some.inj h).symm⟩
      · next ha => exact .inr ⟨ha, (Option.some.inj h).symm⟩
    · cases h
  | writeError =>
    obtain ⟨hpc, ⟨⟩⟩ := Option.ite_none_right_eq_some.1 h
    exact .inr (.inr (.inr (.inr (.inr ⟨rfl, hpc, rfl⟩))))

theorem clientSenderStep_recv_of_receiving {s : ClientSender} (hpc : s.pc = .receiving) (b : Bytes) :
    clientSenderStep s (.recv (some b)) = some { s with buf := b }.next := by
  simp [clientSenderStep, hpc]

/-- A write of the whole buffer on the open stream drains it. -/
theorem clientSenderStep_wrote_buf {s : ClientSender} {c : Bytes} (hpc : s.pc = .writing) (hc : s.conn = some c) :
    clientSenderStep s (.wrote s.buf.length) =
      some { s with buf := [], conn := some (c ++ s.buf), bytesSent := s.bytesSent + s.buf.length }.next := by
  simp [clientSenderStep, hpc, hc]

/-! ### Buffers that end with a newline -/

/-- Empty, or ending with a newline. -/
def EndsLine (b : Bytes) : Prop := b = [] ∨ b.getLast? = some newline

/-- The rest of one line: bytes without a newline, then the newline. -/
def LineRest (d : Bytes) : Prop := ∃ l, newline ∉ l ∧ d = l ++ [newline]

theorem endsLine_drop (n : ℕ) {b : Bytes} (h : EndsLine b) : EndsLine (b.drop n) := by
  rcases h with rfl | h
  · exact .inl (List.drop_nil)
  obtain ⟨ys, rfl⟩ := List.getLast?_eq_some_iff.1 h
  rw [List.drop_append_eq_append_drop]
  by_cases hn : n ≤ ys.length
  · exact .inr (by simp [Nat.sub_eq_zero_of_le hn])
  · exact .inl (by simp [List.drop_eq_nil_of_le (Nat.le_of_not_le hn),
      List.drop_eq_nil_of_le (show [newline].length ≤ n - ys.length by simp; omega)])

/-- `trim_to_next_newline` on a non-empty buffer that ends with a newline cuts off exactly
the rest of its first line. -/
theorem trimToNextNewline_split {b : Bytes} (hne : b ≠ []) (h : EndsLine b) :
    ∃ d, LineRest d ∧ b = d ++ trimToNextNewline b ∧ EndsLine (trimToNextNewline b) := by
  have hmem : newline ∈ b := List.mem_of_getLast?_eq_some (h.resolve_left hne)
  obtain ⟨i, hi⟩ : ∃ i, memchr newline b = some i := by
    cases hm : memchr newline b with
    | none => exact absurd hmem (memchr_eq_none.1 hm)
    | some i => exact ⟨i, rfl⟩
  have htrim : trimToNextNewline b = b.drop (i + 1) := by simp [trimToNextNewline, hi]
  obtain ⟨pre, post, rfl, hn, rfl⟩ := memchr_eq_some.1 hi
  have hdrop : (pre ++ newline :: post).drop (pre.length + 1) = post := by
    rw [← List.singleton_append, ← List.append_assoc, List.drop_left' (by simp)]
  refine ⟨pre ++ [newline], ⟨pre, hn, rfl⟩, by rw [htrim, hdrop]; simp, ?_⟩
  rw [htrim]
  exact endsLine_drop _ h

/-! ### The invariant -/

/-- The bytes of the closed connections, each followed by the piece its failure discarded. -/
def trail (closed ds : List Bytes) : Bytes := (List.zipWith (· ++ ·) closed ds).flatten

/-- The invariant of `client_sender`, `input` being the bytes of the buffers received. -/
structure SenderInv (input : Bytes) (s : ClientSender) : Prop where
  split : ∃ ds : List Bytes, ds.length = s.closed.length ∧ (∀ d ∈ ds, LineRest d) ∧
    trail s.closed ds ++ s.conn.getD [] ++ s.buf = input
  buf_ends : EndsLine s.buf
  aborted : s.connectionsAborted = s.closed.length
  connecting : s.pc = .connecting → s.conn = none
  receiving : s.pc = .receiving → s.buf = []
  writing : s.pc = .writing → s.conn.isSome ∧ s.buf ≠ []

theorem senderInv_init : SenderInv [] ClientSender.init :=
  ⟨⟨[], rfl, by simp, rfl⟩, .inl rfl, rfl, fun _ => rfl, fun _ => rfl, fun h => nomatch h⟩

/-- `next` sets the program point from the data, which is all the invariant asks of it. -/
theorem senderInv_next {input : Bytes} (s : ClientSender)
    (hsplit : ∃ ds : List Bytes, ds.length = s.closed.length ∧ (∀ d ∈ ds, LineRest d) ∧
      trail s.closed ds ++ s.conn.getD [] ++ s.buf = input)
    (hends : EndsLine s.buf) (habort : s.connectionsAborted = s.closed.length) :
    SenderInv input s.next := by
  refine ⟨by simpa using hsplit, by simpa using hends, by simpa using habort, fun h => ?_,
    fun h => ?_, fun h => ?_⟩ <;> rw [ClientSender.next_pc] at h <;> split_ifs at h with h1 h2 <;>
    simp_all [Option.isNone_iff_eq_none, Option.isSome_iff_ne_none]

theorem senderInv_abort {input : Bytes} (s : ClientSender) {c : Bytes} (hc : s.conn = some c)
    (hne : s.buf ≠ []) (hends : EndsLine s.buf) (habort : s.connectionsAborted = s.closed.length)
    (hsplit : ∃ ds : List Bytes, ds.length = s.closed.length ∧ (∀ d ∈ ds, LineRest d) ∧
      trail s.closed ds ++ s.conn.getD [] ++ s.buf = input) :
    SenderInv input s.abort := by
  obtain ⟨ds, hlen, hds, heq⟩ := hsplit
  obtain ⟨d, hd, hbuf, hends'⟩ := trimToNextNewline_split hne hends
  refine senderInv_next _ ⟨ds ++ [d], by simp [hlen, hc], ?_, ?_⟩ hends' (by simp [habort, hc])
  · intro d' h'
    rcases List.mem_append.1 h' with h' | h'
    · exact hds d' h'
    · rw [List.mem_singleton.1 h']; exact hd
  · rw [← heq, hc]
    simp [trail, hc, List.zipWith_append _ _ _ _ _ hlen.symm]
    conv_rhs => rw [hbuf]

theorem receivedOf_cons (e : SenderEvent) (es : List SenderEvent) :
    receivedOf (e :: es) = receivedOf [e] ++ receivedOf es := by
  cases e with
  | recv b => cases b <;> rfl
  | _ => rfl

/-- One step keeps the invariant, the received buffer (if any) joining the input. -/
theorem senderInv_step {input : Bytes} {s s' : ClientSender} {e : SenderEvent}
    (hi : SenderInv input s) (hb : ∀ b ∈ receivedOf [e], b.getLast? = some newline)
    (h : clientSenderStep s e = some s') : SenderInv (input ++ (receivedOf [e]).flatten) s' := by
  obtain ⟨ds, hlen, hds, heq⟩ := hi.split
  rcases clientSenderStep_cases h with ⟨rfl, hpc, rfl⟩ | ⟨rfl, -, rfl⟩ | ⟨rfl, -, -, rfl⟩ |
    ⟨b, rfl, hpc, rfl⟩ | ⟨n, c, rfl, -, hc, -, hw⟩ | ⟨rfl, hpc, rfl⟩
  · exact senderInv_next _ ⟨ds, hlen, hds, by simpa [hi.connecting hpc, receivedOf] using heq⟩
      hi.buf_ends hi.aborted
  · exact ⟨⟨ds, hlen, hds, by simpa [receivedOf] using heq⟩, hi.buf_ends, hi.aborted,
      hi.connecting, hi.receiving, hi.writing⟩
  · exact senderInv_next _ ⟨ds, hlen, hds, by simpa [receivedOf] using heq⟩ hi.buf_ends hi.aborted
  · refine senderInv_next _ ⟨ds, hlen, hds, ?_⟩ (.inr (hb b (by simp [receivedOf]))) hi.aborted
    simp [receivedOf, ← heq, hi.receiving hpc]
  · have hsplit : ∃ ds : List Bytes, ds.length = s.closed.length ∧ (∀ d ∈ ds, LineRest d) ∧
        trail s.closed ds ++ (c ++ s.buf.take n) ++ s.buf.drop n =
          input ++ (receivedOf [.wrote n]).flatten :=
      ⟨ds, hlen, hds, by simpa [hc, receivedOf] using heq⟩
    have hends := endsLine_drop n hi.buf_ends
    rcases hw with ⟨-, hne, rfl⟩ | ⟨-, rfl⟩
    · exact senderInv_abort _ rfl hne hends hi.aborted hsplit
    · exact senderInv_next _ hsplit hends hi.aborted
  · obtain ⟨hc, hne⟩ := hi.writing hpc
    obtain ⟨c, hc⟩ := Option.isSome_iff_exists.1 hc
    exact senderInv_abort _ hc hne hi.buf_ends hi.aborted
      ⟨ds, hlen, hds, by simpa [receivedOf] using heq⟩

theorem senderInv_run {input : Bytes} {s : ClientSender} (hi : SenderInv input s) :
    ∀ {es : List SenderEvent} {s' : ClientSender}, (∀ b ∈ receivedOf es, b.getLast? = some newline) →
      clientSender s es = some s' → SenderInv (input ++ (receivedOf es).flatten) s'
  | [], _, _, h => by cases h; simpa [receivedOf] using hi
  | e :: es, _, hb, h => by
    simp only [clientSender, Option.bind_eq_some] at h
    obtain ⟨s₁, h₁, h₂⟩ := h
    rw [receivedOf_cons] at hb ⊢
    have := senderInv_run (senderInv_step hi (fun b h => hb b (List.mem_append_left _ h)) h₁)
      (fun b h => hb b (List.mem_append_right _ h)) h₂
    simpa using this

/-! ### What the wire sees -/

/-- **Connections write ordered, disjoint segments of the input.**  For buffers that each
end with a newline, the bytes received so far are the bytes written on each closed
connection, each followed by a gap that ends with a newline, then the bytes written on the
open connection, then what is not written yet.  So every connection wrote one contiguous
segment of the input, beginning at its start or just after a newline, and the segments
follow the input order without overlap: no byte is written twice or out of order. -/
theorem clientSender_segments (es : List SenderEvent) (s : ClientSender)
    (hbufs : ∀ b ∈ receivedOf es, b.getLast? = some newline)
    (h : clientSender ClientSender.init es = some s) :
    ∃ ds : List Bytes, ds.length = s.closed.length ∧ (∀ d ∈ ds, d.getLast? = some newline) ∧
      ∃ rest, trail s.closed ds ++ s.conn.getD [] ++ rest = (receivedOf es).flatten := by
  obtain ⟨⟨ds, hlen, hds, heq⟩, -⟩ := senderInv_run senderInv_init hbufs h
  refine ⟨ds, hlen, fun d hd => ?_, s.buf, by simpa using heq⟩
  obtain ⟨l, -, rfl⟩ := hds d hd
  simp

theorem clientSender_segments_two_lines :
    (∀ b ∈ receivedOf [.connected, .recv (some [97, 10, 98, 10]), .wrote 2, .writeError],
        b.getLast? = some newline) ∧
      clientSender ClientSender.init [.connected, .recv (some [97, 10, 98, 10]), .wrote 2, .writeError] =
        some ⟨.receiving, [], none, [[97, 10]], 2, 1, 1, 0⟩ ∧
      ∃ ds : List Bytes, ds.length = [[97, 10]].length ∧ (∀ d ∈ ds, d.getLast? = some newline) ∧
        ∃ rest, trail [[97, 10]] ds ++ (none : Option Bytes).getD [] ++ rest =
          (receivedOf [.connected, .recv (some [97, 10, 98, 10]), .wrote 2, .writeError]).flatten := by
  have hbufs : ∀ b ∈ receivedOf [.connected, .recv (some [97, 10, 98, 10]), .wrote 2, .writeError],
      b.getLast? = some newline := by
    simp [receivedOf]; rfl
  exact ⟨hbufs, rfl, clientSender_segments _ _ hbufs rfl⟩

/-- **Each connection failure discards exactly one line.**  For buffers that each end with a
newline, the bytes received so far are the bytes written on the connections and one
discarded piece per failure (`Ok(0)` or an error), then what is not written yet; each piece
runs from the failure point through the next newline and holds no other newline.  A failure
inside a line discards the rest of that partially written PDU; a failure on a line
boundary discards the whole next PDU, none of which was written. -/
theorem clientSender_failure_discards_one_line (es : List SenderEvent) (s : ClientSender)
    (hbufs : ∀ b ∈ receivedOf es, b.getLast? = some newline)
    (h : clientSender ClientSender.init es = some s) :
    ∃ ds : List Bytes, ds.length = s.connectionsAborted ∧ (∀ d ∈ ds, LineRest d) ∧
      ∃ rest, trail s.closed ds ++ s.conn.getD [] ++ rest = (receivedOf es).flatten := by
  obtain ⟨⟨ds, hlen, hds, heq⟩, -, habort, -⟩ := senderInv_run senderInv_init hbufs h
  exact ⟨ds, habort ▸ hlen, hds, s.buf, by simpa using heq⟩

theorem clientSender_failure_discards_one_line_two_lines :
    (∀ b ∈ receivedOf [.connected, .recv (some [97, 10, 98, 10]), .wrote 2, .writeError],
        b.getLast? = some newline) ∧
      clientSender ClientSender.init [.connected, .recv (some [97, 10, 98, 10]), .wrote 2, .writeError] =
        some ⟨.receiving, [], none, [[97, 10]], 2, 1, 1, 0⟩ ∧
      ∃ ds : List Bytes, ds.length = 1 ∧ (∀ d ∈ ds, LineRest d) ∧
        ∃ rest, trail [[97, 10]] ds ++ (none : Option Bytes).getD [] ++ rest =
          (receivedOf [.connected, .recv (some [97, 10, 98, 10]), .wrote 2, .writeError]).flatten := by
  have hbufs : ∀ b ∈ receivedOf [.connected, .recv (some [97, 10, 98, 10]), .wrote 2, .writeError],
      b.getLast? = some newline := by
    simp [receivedOf]; rfl
  exact ⟨hbufs, rfl, clientSender_failure_discards_one_line _ _ hbufs rfl⟩

/-- A failure on a line boundary discards a PDU none of whose bytes was written: once
`"a\n"` is written, an error on the next write drops `"b\n"` whole, and the sender waits
for the next buffer. -/
theorem clientSender_drops_unwritten_line :
    clientSender ClientSender.init [.connected, .recv (some [97, 10, 98, 10]), .wrote 2, .writeError] =
      some ⟨.receiving, [], none, [[97, 10]], 2, 1, 1, 0⟩ := rfl

/-! ### The write loop ends -/

/-- Whether the event is the return of a `write_buf` call. -/
def SenderEvent.isWrite : SenderEvent → Bool
  | .wrote _ => true
  | .writeError => true
  | _ => false

/-- The `write_buf` calls of a run. -/
def writesOf (es : List SenderEvent) : ℕ := es.countP SenderEvent.isWrite

theorem writesOf_cons (e : SenderEvent) (es : List SenderEvent) :
    writesOf (e :: es) = writesOf [e] + writesOf es := by
  simp only [writesOf, List.countP_cons, List.countP_nil, Nat.zero_add, Nat.add_comm]

/-- The inner loop on a buffer that ends with a newline: it is left for `recv` exactly when
the buffer is drained, and a write has a stream to go to. -/
structure WriteLoopInv (s : ClientSender) : Prop where
  buf_ends : EndsLine s.buf
  receiving_iff : s.pc = .receiving ↔ s.buf = []
  writing : s.pc = .writing → s.conn.isSome

theorem writeLoopInv_next {s : ClientSender} (h : EndsLine s.buf) : WriteLoopInv s.next := by
  refine ⟨h, ?_, fun hw => ?_⟩ <;> simp only [ClientSender.next_pc, ClientSender.next_buf,
    ClientSender.next_conn] at * <;> split_ifs at * <;> simp_all [Option.isNone_iff_eq_none,
    Option.isSome_iff_ne_none]

theorem WriteLoopInv.buf_ne_nil {s : ClientSender} (hi : WriteLoopInv s) (hpc : s.pc ≠ .receiving) :
    s.buf ≠ [] :=
  fun h => hpc (hi.receiving_iff.2 h)

/-- `trim_to_next_newline` removes at least one byte from a non-empty buffer that ends
with a newline. -/
theorem length_trimToNextNewline_lt {b : Bytes} (hne : b ≠ []) (h : EndsLine b) :
    (trimToNextNewline b).length < b.length := by
  obtain ⟨_, ⟨l, -, rfl⟩, hb, -⟩ := trimToNextNewline_split hne h
  have hlen := congrArg List.length hb
  simp only [List.length_append, List.length_singleton] at hlen
  omega

theorem writeLoopInv_abort {s : ClientSender} (hne : s.buf ≠ []) (h : EndsLine s.buf) :
    WriteLoopInv s.abort ∧ s.abort.buf.length < s.buf.length :=
  ⟨writeLoopInv_next (trimToNextNewline_split hne h).choose_spec.2.2, length_trimToNextNewline_lt hne h⟩

/-- One step of the loop keeps its invariant, and a `write_buf` call removes at least one
byte of the buffer. -/
theorem writeLoop_step {s s' : ClientSender} {e : SenderEvent} (hi : WriteLoopInv s)
    (hr : receivedOf [e] = []) (h : clientSenderStep s e = some s') :
    WriteLoopInv s' ∧ s'.buf.length + writesOf [e] ≤ s.buf.length := by
  rcases clientSenderStep_cases h with ⟨rfl, -, rfl⟩ | ⟨rfl, -, rfl⟩ | ⟨rfl, -, -, rfl⟩ |
    ⟨b, rfl, -, -⟩ | ⟨n, c, rfl, hpc, -, hn, hw⟩ | ⟨rfl, hpc, rfl⟩
  · exact ⟨writeLoopInv_next hi.buf_ends, by simp [writesOf, SenderEvent.isWrite]⟩
  · exact ⟨⟨hi.buf_ends, hi.receiving_iff, hi.writing⟩, by simp [writesOf, SenderEvent.isWrite]⟩
  · exact ⟨writeLoopInv_next hi.buf_ends, by simp [writesOf, SenderEvent.isWrite]⟩
  · simp [receivedOf] at hr
  · have hne := hi.buf_ne_nil (by rw [hpc]; decide)
    have hone : writesOf [.wrote n] = 1 := rfl
    rcases hw with ⟨-, hdrop, rfl⟩ | ⟨habort, rfl⟩
    · obtain ⟨hi', hlt⟩ := writeLoopInv_abort (s := { s with buf := s.buf.drop n, conn := some (c ++ s.buf.take n) })
        hdrop (endsLine_drop n hi.buf_ends)
      simp only [List.length_drop] at hlt
      exact ⟨hi', by omega⟩
    · have hn0 : n ≠ 0 := fun h0 => habort ⟨h0, by simpa [h0] using hne⟩
      refine ⟨writeLoopInv_next (endsLine_drop n hi.buf_ends), ?_⟩
      simp only [ClientSender.next_buf, List.length_drop]
      omega
  · obtain ⟨hi', hlt⟩ := writeLoopInv_abort (hi.buf_ne_nil (by rw [hpc]; decide)) hi.buf_ends
    have hone : writesOf [.writeError] = 1 := rfl
    exact ⟨hi', by omega⟩

/-- A run of the loop with no new buffer keeps the invariant, and its `write_buf` calls are
at most the bytes it removed. -/
theorem writeLoop_run : ∀ {s s' : ClientSender} {es : List SenderEvent}, WriteLoopInv s →
    receivedOf es = [] → clientSender s es = some s' →
      WriteLoopInv s' ∧ s'.buf.length + writesOf es ≤ s.buf.length
  | _, _, [], hi, _, h => by cases h; exact ⟨hi, by simp [writesOf]⟩
  | _, _, e :: es, hi, hr, h => by
    simp only [clientSender, Option.bind_eq_some] at h
    obtain ⟨s₁, h₁, h₂⟩ := h
    rw [receivedOf_cons, List.append_eq_nil] at hr
    obtain ⟨hi₁, hle₁⟩ := writeLoop_step hi hr.1 h₁
    obtain ⟨hi', hle⟩ := writeLoop_run hi₁ hr.2 h₂
    exact ⟨hi', by rw [writesOf_cons]; omega⟩

/-- The loop never waits on anything but a connect or a write: until it is left, a connect
that succeeds, a write error and every count `write_buf` can return are all taken. -/
theorem writeLoop_live {s : ClientSender} (hi : WriteLoopInv s) :
    s.pc = .receiving ∨ (clientSenderStep s .connected).isSome ∨
      ((clientSenderStep s .writeError).isSome ∧ ∀ n ≤ s.buf.length, (clientSenderStep s (.wrote n)).isSome) := by
  cases hpc : s.pc with
  | receiving => exact .inl rfl
  | connecting => exact .inr (.inl (by simp [clientSenderStep, hpc]))
  | writing =>
    obtain ⟨c, hc⟩ := Option.isSome_iff_exists.1 (hi.writing hpc)
    refine .inr (.inr ⟨by simp [clientSenderStep, hpc], fun n hn => ?_⟩)
    simp only [clientSenderStep, hpc, hc, if_pos hn]
    split <;> rfl

/-- **The write loop ends after at most `buf.len()` calls of `write_buf`.**  For every buffer
`client_task` hands over, once `client_sender` has received it, whatever the connects and the
`write_buf` outcomes that follow, the calls made are at most the buffer's length less what
is left of it; a drained buffer sends the task back to `recv`; and until then a successful
connect or any outcome of `write_buf` can come next. -/
theorem clientSender_write_loop_bound {tes : List TaskEvent} {task : ClientTask}
    (hrun : clientTask ClientTask.init tes = some task) {b : Bytes} (hb : b ∈ task.handed)
    {s s' : ClientSender} (hpc : s.pc = .receiving) {es : List SenderEvent}
    (hes : receivedOf es = []) (h : clientSender s (.recv (some b) :: es) = some s') :
    writesOf es + s'.buf.length ≤ b.length ∧ (s'.buf = [] → s'.pc = .receiving) ∧
      (s'.pc = .receiving ∨ (clientSenderStep s' .connected).isSome ∨
        ((clientSenderStep s' .writeError).isSome ∧
          ∀ n ≤ s'.buf.length, (clientSenderStep s' (.wrote n)).isSome)) := by
  have hends : b.getLast? = some newline := (taskInv_run taskInv_init hrun).handed_ends b hb
  simp only [clientSender, clientSenderStep_recv_of_receiving hpc, Option.some_bind] at h
  obtain ⟨hi, hle⟩ := writeLoop_run (writeLoopInv_next (.inr hends)) hes h
  exact ⟨by simpa [Nat.add_comm] using hle, hi.receiving_iff.2, writeLoop_live hi⟩

theorem clientSender_write_loop_bound_two_writes :
    clientTask ClientTask.init [.pdu [97], .tick] = some ⟨[], [[97, 10]], true, 1, 1, 1⟩ ∧
      [97, 10] ∈ [[97, 10]] ∧
      clientSender ⟨.receiving, [], some [], [], 0, 0, 1, 0⟩ [.recv (some [97, 10]), .wrote 1, .writeError] =
        some ⟨.receiving, [], none, [[97]], 1, 1, 1, 0⟩ ∧
      writesOf [.wrote 1, .writeError] + ([] : Bytes).length ≤ ([97, 10] : Bytes).length := by
  refine ⟨rfl, by simp, rfl, (@clientSender_write_loop_bound [.pdu [97], .tick] ⟨[], [[97, 10]], true, 1, 1, 1⟩
    rfl [97, 10] (by simp) ⟨.receiving, [], some [], [], 0, 0, 1, 0⟩ ⟨.receiving, [], none, [[97]], 1, 1, 1, 0⟩
    rfl [.wrote 1, .writeError] rfl rfl).1⟩

/-! ### The counters -/

/-- What the counters of `client_sender` count, with the program point that keeps them so:
`bytes_sent` the bytes written on every stream, `connections_made` the streams formed and
`connections_aborted` the dropped ones; no stream is open while connecting, and one is
open while writing. -/
structure CounterInv (s : ClientSender) : Prop where
  sent : s.bytesSent = (s.closed ++ s.conn.toList).flatten.length
  made : s.connectionsMade = (s.closed ++ s.conn.toList).length
  aborted : s.connectionsAborted = s.closed.length
  connecting : s.pc = .connecting → s.conn = none
  writing : s.pc = .writing → s.conn.isSome

theorem counterInv_init : CounterInv ClientSender.init :=
  ⟨rfl, rfl, rfl, fun _ => rfl, fun h => nomatch h⟩

theorem counterInv_next {s : ClientSender} (hsent : s.bytesSent = (s.closed ++ s.conn.toList).flatten.length)
    (hmade : s.connectionsMade = (s.closed ++ s.conn.toList).length)
    (habort : s.connectionsAborted = s.closed.length) : CounterInv s.next := by
  refine ⟨hsent, hmade, habort, fun h => ?_, fun h => ?_⟩ <;> rw [ClientSender.next_pc] at h <;>
    split_ifs at h <;> simp_all [Option.isNone_iff_eq_none, Option.isSome_iff_ne_none]

theorem counterInv_abort {s : ClientSender} {c : Bytes} (hc : s.conn = some c)
    (hsent : s.bytesSent = (s.closed ++ s.conn.toList).flatten.length)
    (hmade : s.connectionsMade = (s.closed ++ s.conn.toList).length)
    (habort : s.connectionsAborted = s.closed.length) : CounterInv s.abort :=
  counterInv_next (by simpa using hsent) (by simpa using hmade) (by simp [habort, hc])

theorem counterInv_step {s s' : ClientSender} {e : SenderEvent} (hi : CounterInv s)
    (h : clientSenderStep s e = some s') : CounterInv s' := by
  rcases clientSenderStep_cases h with ⟨-, hpc, rfl⟩ | ⟨-, -, rfl⟩ | ⟨-, -, -, rfl⟩ |
    ⟨b, -, -, rfl⟩ | ⟨n, c, -, -, hc, hn, hw⟩ | ⟨-, hpc, rfl⟩
  case inl =>
    have hc := hi.connecting hpc
    exact counterInv_next (by simp [hi.sent, hc]) (by simp [hi.made, hc]) hi.aborted
  case inr.inl => exact ⟨hi.sent, hi.made, hi.aborted, hi.connecting, hi.writing⟩
  case inr.inr.inl => exact counterInv_next hi.sent hi.made hi.aborted
  case inr.inr.inr.inl => exact counterInv_next hi.sent hi.made hi.aborted
  case inr.inr.inr.inr.inl =>
    have hsent := hi.sent
    have hmade := hi.made
    simp only [hc, Option.toList_some] at hsent hmade
    rcases hw with ⟨rfl, -, rfl⟩ | ⟨-, rfl⟩
    · exact counterInv_abort rfl (by simpa using hsent) (by simpa using hmade) hi.aborted
    · refine counterInv_next ?_ (by simpa using hmade) hi.aborted
      simp [hsent, Nat.min_eq_left hn, Nat.add_assoc]
  case inr.inr.inr.inr.inr =>
    obtain ⟨c, hc⟩ := Option.isSome_iff_exists.1 (hi.writing hpc)
    exact counterInv_abort hc hi.sent hi.made hi.aborted

theorem counterInv_run {s : ClientSender} (hi : CounterInv s) :
    ∀ {es : List SenderEvent} {s' : ClientSender}, clientSender s es = some s' → CounterInv s'
  | [], _, h => by cases h; exact hi
  | e :: es, _, h => by
    simp only [clientSender, Option.bind_eq_some] at h
    obtain ⟨s₁, h₁, h₂⟩ := h
    exact counterInv_run (counterInv_step hi h₁) h₂

/-- **The counters count the streams.**  Along every run of `client_sender`, whatever its
buffers, connects and write outcomes, `bytes_sent` is the number of bytes written on all
the streams it formed, and `connections_made` is `connections_aborted` plus one while a
stream is open: no write goes uncounted, and no stream is dropped twice or left uncounted. -/
theorem clientSender_counters {es : List SenderEvent} {s : ClientSender}
    (h : clientSender ClientSender.init es = some s) :
    s.bytesSent = (s.closed ++ s.conn.toList).flatten.length ∧
      s.connectionsMade = s.connectionsAborted + s.conn.toList.length := by
  have hi := counterInv_run counterInv_init h
  exact ⟨hi.sent, by rw [hi.made, hi.aborted, List.length_append]⟩

/-- A zero-byte write drops the first stream and its line; the second stream writes the
next line whole. -/
theorem clientSender_counters_reconnect :
    clientSender ClientSender.init
        [.connected, .recv (some [97, 10]), .wrote 0, .recv (some [98, 10]), .connected, .wrote 2] =
      some ⟨.receiving, [], some [98, 10], [[]], 2, 1, 2, 0⟩ ∧
    (2 = ([[]] ++ (some ([98, 10] : Bytes)).toList).flatten.length ∧
      2 = 1 + (some ([98, 10] : Bytes)).toList.length) :=
  ⟨rfl, @clientSender_counters [.connected, .recv (some [97, 10]), .wrote 0, .recv (some [98, 10]),
    .connected, .wrote 2] ⟨.receiving, [], some [98, 10], [[]], 2, 1, 2, 0⟩ rfl⟩


end StatsRelay.StatsdClient
