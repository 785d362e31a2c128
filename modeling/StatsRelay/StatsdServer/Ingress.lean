import StatsRelay.StatsdServer.Framing

/-! # TCP ingress: `client_handler`

One `client_handler` task serves one TCP connection.  Each pass of its loop waits for a
read (`socket.read_buf` appends to `buf`), a read timeout or the shutdown tripwire, then
frames what `buf` holds with `process_buffer_newlines` and forwards the PDUs to
`Backends::provide_statsd_pdu`.  A read of zero bytes is the end of the stream: the
residual is parsed as one last PDU and the loop breaks; every error breaks it too, the
shutdown error after a courtesy write to the peer.

The model is a step function on the handler's state (`clientHandlerStep`, the loop body
after its read) and the loop over the results of successive reads (`clientHandler`).  The
stream invariant is that between reads `buf` is the residual of all bytes received so far
and the forwarded PDUs are the reference framing of all of them
(`clientHandler_data_reads`), whatever the read boundaries; with the end of the stream the
residual's PDU follows (`clientHandler_forwards_refFrame`), while an error of any kind ends
the handler without it (`clientHandler_error_drops_residual`).  A run panics exactly when a
complete line of the stream is empty, which again does not depend on the reads. -/

namespace StatsRelay.StatsdServer

/-- The kinds of `std::io::Error` the ingress tells apart. -/
inductive ErrorKind where
  /-- `ErrorKind::Other`, also the kind of the handler's own "shutting down" error. -/
  | other
  /-- `ErrorKind::TimedOut`, also the kind of the handler's own "read timeout" error. -/
  | timedOut
  /-- `ErrorKind::WouldBlock`: a UDP receive that timed out. -/
  | wouldBlock
  /-- Any other kind a socket reports. -/
  | connectionReset
  deriving DecidableEq, Repr

/-- The result of one pass of the handler's `select!`: the bytes `read_buf` appended to
the buffer (none at the end of the stream), or the error. -/
abbrev ReadResult := Except ErrorKind Bytes

/-- The state of one `client_handler` task and its counters. -/
structure Handler (P : Type) where
  /-- `buf`: bytes read and not yet framed. -/
  buf : Bytes
  /-- The PDUs passed to `Backends::provide_statsd_pdu`, in order. -/
  forwarded : List P
  /-- The bytes written back to the peer. -/
  sent : Bytes
  /-- The `incoming_bytes` counter. -/
  incomingBytes : ℕ
  /-- The `lines` counter. -/
  processedLines : ℕ
  /-- The `disconnects` counter. -/
  disconnects : ℕ

variable {P : Type} (pduNew : Bytes → Option P)

/-- A handler before its first read. -/
def Handler.init : Handler P := ⟨[], [], [], 0, 0, 0⟩

/-- The courtesy message written to the peer on shutdown. -/
def shutdownNotice : Bytes := "server closing due to shutdown, goodbye\n".toUTF8.toList

/-- One pass of the loop of `client_handler` after its read: the next state and whether
the loop goes on; `none` when `process_buffer_newlines` panics. -/
def clientHandlerStep (s : Handler P) : ReadResult → Option (Handler P × Bool)
  | .ok chunk =>
    let buf := s.buf ++ chunk
    if buf = [] ∧ chunk.length = 0 then some (s, false)
    else if chunk.length = 0 then
      (processBufferNewlines pduNew buf).map fun r =>
        ({ s with buf := r.2, processedLines := s.processedLines + r.1.length,
                  forwarded := s.forwarded ++ r.1 ++ (pduNew r.2).toList }, false)
    else
      (processBufferNewlines pduNew buf).map fun r =>
        ({ s with buf := r.2, incomingBytes := s.incomingBytes + chunk.length,
                  processedLines := s.processedLines + r.1.length,
                  forwarded := s.forwarded ++ r.1 }, true)
  | .error .other => some ({ s with sent := s.sent ++ shutdownNotice }, false)
  | .error _ => some (s, false)

/-- `client_handler` on the results of its successive reads: the state after the last one
while the loop runs, or after the loop broke and counted the disconnect (later reads never
happen); `none` when it panicked. -/
def clientHandler : Handler P → List ReadResult → Option (Handler P)
  | s, [] => some s
  | s, r :: rs => (clientHandlerStep pduNew s r).bind fun p =>
    if p.2 then clientHandler p.1 rs else some { p.1 with disconnects := p.1.disconnects + 1 }

/-! ### Reads of data -/

/-- The state after the bytes `d` were received on top of `s` and framed. -/
def Handler.received (s : Handler P) (d : Bytes) : Handler P :=
  { s with buf := (lines (s.buf ++ d)).2,
           forwarded := s.forwarded ++ refFrame pduNew (s.buf ++ d),
           incomingBytes := s.incomingBytes + d.length,
           processedLines := s.processedLines + (refFrame pduNew (s.buf ++ d)).length }

theorem clientHandlerStep_data (s : Handler P) {chunk : Bytes} (hc : chunk ≠ []) :
    clientHandlerStep pduNew s (.ok chunk) =
      if NoEmptyLine (s.buf ++ chunk) then some (s.received pduNew chunk, true) else none := by
  have hlen : chunk.length ≠ 0 := by simpa using hc
  simp only [clientHandlerStep, hlen, and_false, if_false, processBufferNewlines_eq]
  split <;> rfl

theorem received_received (s : Handler P) (a b : Bytes) :
    (s.received pduNew a).received pduNew b = s.received pduNew (a ++ b) := by
  have hl := lines_append (s.buf ++ a) b
  have hr := refFrame_append pduNew (s.buf ++ a) b
  rw [List.append_assoc] at hl hr
  simp only [Handler.received, hl, hr, List.length_append, List.append_assoc, Nat.add_assoc]

theorem received_nil (s : Handler P) (hs : newline ∉ s.buf) : s.received pduNew [] = s := by
  simp [Handler.received, lines_of_not_mem hs, refFrame_of_not_mem pduNew hs]

/-- **Stream invariant.**  From a state whose buffer holds no newline, reads of data frame
their concatenation as one buffer: the same PDUs, residual and counters whatever the read
boundaries, and a panic exactly when a complete line is empty. -/
theorem clientHandler_data_reads (s : Handler P) (hs : newline ∉ s.buf) :
    ∀ chunks : List Bytes, (∀ c ∈ chunks, c ≠ []) → ∀ rest : List ReadResult,
      clientHandler pduNew s (chunks.map .ok ++ rest) =
        if NoEmptyLine (s.buf ++ chunks.flatten) then
          clientHandler pduNew (s.received pduNew chunks.flatten) rest
        else none
  | [], _, rest => by
    simp [NoEmptyLine, lines_of_not_mem hs, received_nil pduNew s hs]
  | c :: cs, hne, rest => by
    have hc : c ≠ [] := hne c (by simp)
    have ih := clientHandler_data_reads (s.received pduNew c) (newline_not_mem_residual _) cs
      (fun c' h => hne c' (by simp [h])) rest
    rw [received_received] at ih
    simp only [List.map_cons, List.cons_append, clientHandler, clientHandlerStep_data pduNew s hc,
      List.flatten_cons, ← List.append_assoc s.buf c, noEmptyLine_append (s.buf ++ c)]
    by_cases h1 : NoEmptyLine (s.buf ++ c)
    · simpa [h1] using ih
    · simp [h1]

/-- At the end of the stream the residual is parsed as one last PDU, unless it is empty,
and the loop breaks. -/
theorem clientHandlerStep_eof (s : Handler P) (hs : newline ∉ s.buf) :
    clientHandlerStep pduNew s (.ok []) =
      some ({ s with forwarded := s.forwarded ++ if s.buf = [] then [] else (pduNew s.buf).toList }, false) := by
  by_cases hb : s.buf = []
  · cases s; simp_all [clientHandlerStep]
  · simp [clientHandlerStep, hb, processBufferNewlines_eq, NoEmptyLine, lines_of_not_mem hs,
      refFrame_of_not_mem pduNew hs]

theorem clientHandler_eof (s : Handler P) (hs : newline ∉ s.buf) :
    clientHandler pduNew s [.ok []] =
      some { s with forwarded := s.forwarded ++ if s.buf = [] then [] else (pduNew s.buf).toList,
                    disconnects := s.disconnects + 1 } := by
  simp [clientHandler, clientHandlerStep_eof pduNew s hs]

/-- A stream with no empty line, read in any non-empty chunks and then closed: the handler
forwards the framing of the whole stream and the residual's PDU, and counts one disconnect. -/
theorem clientHandler_stream_eof (chunks : List Bytes) (hne : ∀ c ∈ chunks, c ≠ [])
    (hs : NoEmptyLine chunks.flatten) :
    clientHandler pduNew Handler.init (chunks.map .ok ++ [.ok []]) =
      some { Handler.init.received pduNew chunks.flatten with
        forwarded := refFrame pduNew chunks.flatten ++
          if (lines chunks.flatten).2 = [] then [] else (pduNew (lines chunks.flatten).2).toList,
        disconnects := 1 } := by
  rw [clientHandler_data_reads pduNew (Handler.init : Handler P) (by simp [Handler.init]) chunks hne,
    if_pos (by simpa [Handler.init] using hs), clientHandler_eof pduNew _ (newline_not_mem_residual _)]
  simp [Handler.received, Handler.init]

/-- **Framing of a TCP stream.**  After every read of data the forwarded PDUs are the
reference framing of all bytes received and `buf` is what follows their last newline; at
the end of the stream the residual's PDU follows, when the residual is non-empty and
parses.  Both depend only on the bytes of the stream, not on how reads split it. -/
theorem clientHandler_forwards_refFrame (chunks : List Bytes) (hne : ∀ c ∈ chunks, c ≠ []) :
    (∀ s, clientHandler pduNew Handler.init (chunks.map .ok) = some s →
      s.forwarded = refFrame pduNew chunks.flatten ∧ s.buf = (lines chunks.flatten).2) ∧
    (∀ s, clientHandler pduNew Handler.init (chunks.map .ok ++ [.ok []]) = some s →
      s.forwarded = refFrame pduNew chunks.flatten ++
        if (lines chunks.flatten).2 = [] then [] else (pduNew (lines chunks.flatten).2).toList) := by
  have hrun := clientHandler_data_reads pduNew (Handler.init : Handler P) (by simp [Handler.init])
    chunks hne
  constructor
  · intro s h
    rw [← List.append_nil (chunks.map _), hrun] at h
    split at h
    · cases h; simp [Handler.received, Handler.init]
    · cases h
  · intro s h
    rw [hrun] at h
    split at h
    · rw [clientHandler_eof pduNew _ (newline_not_mem_residual _)] at h
      cases h; simp [Handler.received, Handler.init]
    · cases h

theorem clientHandler_forwards_refFrame_split_crlf :
    (∀ c ∈ [[97, 13], [10, 98]], c ≠ ([] : Bytes)) ∧
      clientHandler some Handler.init ([[97, 13], [10, 98]].map .ok) = some ⟨[98], [[97]], [], 4, 1, 0⟩ ∧
      [[97]] = refFrame some [97, 13, 10, 98] ∧ [98] = (lines [97, 13, 10, 98]).2 :=
  have hrun : clientHandler some Handler.init ([[97, 13], [10, 98]].map .ok) =
      some ⟨[98], [[97]], [], 4, 1, 0⟩ := by
    rw [← List.append_nil (List.map _ _),
      clientHandler_data_reads some Handler.init (by simp [Handler.init]) _ (by decide), if_pos (by decide)]
    rfl
  ⟨by decide, hrun, (clientHandler_forwards_refFrame some _ (by decide)).1 _ hrun⟩

/-- **An error loses the residual.**  A stream with no empty line, read in any non-empty
chunks and then ended by an error of any kind (a read timeout, the shutdown tripwire, a
socket error), leaves the handler with the framing of the whole stream and nothing else:
the bytes after the last newline, which the end of the stream would have parsed, are never
forwarded.  One disconnect is counted, and the peer is sent the shutdown notice exactly when
the error is of kind `ErrorKind::Other`: the kind of the shutdown tripwire, and of any other
socket error the handler sees with that kind. -/
theorem clientHandler_error_drops_residual (chunks : List Bytes) (hne : ∀ c ∈ chunks, c ≠ [])
    (hs : NoEmptyLine chunks.flatten) (k : ErrorKind) :
    clientHandler pduNew Handler.init (chunks.map .ok ++ [.error k]) =
      some { Handler.init.received pduNew chunks.flatten with
             sent := if k = .other then shutdownNotice else [], disconnects := 1 } := by
  rw [clientHandler_data_reads pduNew (Handler.init : Handler P) (by simp [Handler.init]) chunks hne,
    if_pos (by simpa [Handler.init] using hs)]
  cases k <;> simp [clientHandler, clientHandlerStep, Handler.received, Handler.init]

theorem clientHandler_error_drops_residual_timeout :
    (∀ c ∈ [[97, 10, 98]], c ≠ ([] : Bytes)) ∧ NoEmptyLine [97, 10, 98] ∧
      clientHandler some Handler.init ([[97, 10, 98]].map .ok ++ [.error .timedOut]) =
        some { Handler.init.received some [[97, 10, 98]].flatten with
               sent := if ErrorKind.timedOut = .other then shutdownNotice else [], disconnects := 1 } :=
  ⟨by decide, by decide, clientHandler_error_drops_residual some _ (by decide) (by decide) _⟩

end StatsRelay.StatsdServer
