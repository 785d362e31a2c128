import StatsRelay.StatsdServer.Ingress

/-! # UDP ingress: `UdpServer::udp_worker`

The UDP worker is a thread that loops until its shutdown gate is set.  Each pass allocates
`buf = BytesMut::with_capacity(65535)`, receives one datagram with
`socket.recv_from(&mut buf[..])`, frames `buf` with `process_buffer_newlines`, forwards
the PDUs, then parses what is left of `buf` as one more PDU.  A receive that times out
(`WouldBlock`, after the one-second read timeout) or fails goes round the loop again.

`with_capacity` reserves space but leaves the buffer empty, so `buf[..]` is an empty slice.
The model keeps that distinction: a buffer is its bytes, and `recvFrom` copies into the
slice only what fits in it and reports the count it copied.  The step lemma
`udpWorkerStep_datagram` says what one datagram does to the worker, whatever its bytes:
no byte of a datagram reaches the backends (`udpWorker_drops_datagram_lines`). -/

namespace StatsRelay.StatsdServer

/-- What one pass of the worker's loop sees. -/
inductive UdpEvent where
  /-- `gate.load(Relaxed)` returned `true`: the server was dropped. -/
  | shutdown
  /-- A datagram with these bytes was waiting for `recv_from`. -/
  | datagram (d : Bytes)
  /-- `recv_from` failed with `ErrorKind::WouldBlock` after the read timeout. -/
  | wouldBlock
  /-- `recv_from` failed otherwise. -/
  | error
  deriving DecidableEq, Repr

/-- The worker's state: what it forwarded and its counters. -/
structure UdpWorker (P : Type) where
  /-- The PDUs passed to `Backends::provide_statsd_pdu`, in order. -/
  forwarded : List P
  /-- The `incoming_bytes` counter. -/
  incomingBytes : ℕ
  /-- The `processed_lines` counter. -/
  processedLines : ℕ

/-- The `65535` of `BytesMut::with_capacity(65535)`: capacity, not length. -/
def udpCapacity : ℕ := 65535

/-- `BytesMut::with_capacity(cap)`: an empty buffer. -/
def withCapacity (_cap : ℕ) : Bytes := []

/-- `socket.recv_from(slice)` with datagram `d` waiting: the first bytes of `d` overwrite
the slice as far as it reaches, the rest of the datagram is discarded, and the count of
bytes copied is returned. -/
def recvFrom (slice d : Bytes) : Bytes × ℕ :=
  (d.take slice.length ++ slice.drop d.length, min d.length slice.length)

variable {P : Type} (pduNew : Bytes → Option P)

/-- The worker before its first pass. -/
def UdpWorker.init : UdpWorker P := ⟨[], 0, 0⟩

/-- One pass of the loop of `udp_worker`: the next state and whether the loop goes on;
`none` when `process_buffer_newlines` panics. -/
def udpWorkerStep (s : UdpWorker P) : UdpEvent → Option (UdpWorker P × Bool)
  | .shutdown => some (s, false)
  | .datagram d =>
    let (buf, size) := recvFrom (withCapacity udpCapacity) d
    (processBufferNewlines pduNew buf).map fun r =>
      ({ s with incomingBytes := s.incomingBytes + size,
                processedLines := s.processedLines + r.1.length,
                forwarded := s.forwarded ++ r.1 ++ (pduNew r.2).toList }, true)
  | .wouldBlock => some (s, true)
  | .error => some (s, true)

/-- `udp_worker` over the events of its passes: the state when the events run out or the
loop breaks; `none` when the thread panicked. -/
def udpWorker : UdpWorker P → List UdpEvent → Option (UdpWorker P)
  | s, [] => some s
  | s, e :: es => (udpWorkerStep pduNew s e).bind fun p => if p.2 then udpWorker p.1 es else some p.1

@[simp] theorem recvFrom_nil (d : Bytes) : recvFrom [] d = ([], 0) := by
  simp [recvFrom]

/-- **One datagram.**  Whatever the datagram, the slice `recv_from` fills is empty, so the
pass frames no bytes, counts none, and forwards only what `StatsdPDU::new` makes of the
empty residual. -/
theorem udpWorkerStep_datagram (s : UdpWorker P) (d : Bytes) :
    udpWorkerStep pduNew s (.datagram d) =
      some ({ s with forwarded := s.forwarded ++ (pduNew []).toList }, true) := by
  have h : processBufferNewlines pduNew [] = some ([], []) := by
    rw [processBufferNewlines_eq]
    simp [NoEmptyLine, lines, linesAux, refFrame]
  simp [udpWorkerStep, withCapacity, h]

/-- **A datagram's lines are never forwarded.**  For a datagram of complete lines one of
which parses, what the worker forwards for it is not the PDUs of its lines followed by the
PDU of its residual: `recv_from` fills the empty slice of `with_capacity`, so the datagram
is discarded and only the empty buffer is parsed. -/
theorem udpWorker_drops_datagram_lines (d : Bytes) (hend : d.getLast? = some newline)
    (hf : refFrame pduNew d ≠ []) :
    ∃ s', udpWorker pduNew UdpWorker.init [.datagram d] = some s' ∧
      s'.forwarded ≠ refFrame pduNew d ++ (pduNew (lines d).2).toList := by
  refine ⟨⟨(pduNew []).toList, 0, 0⟩, by simp [udpWorker, udpWorkerStep_datagram, UdpWorker.init], ?_⟩
  intro h
  rw [lines_residual_eq_nil hend] at h
  apply hf
  have hlen := congrArg List.length h
  simp only [List.length_append] at hlen
  exact List.length_eq_zero.1 (by omega)

theorem udpWorker_drops_datagram_lines_one_line :
    ([97, 10] : Bytes).length ≤ udpCapacity ∧ ([97, 10] : Bytes).getLast? = some newline ∧
      refFrame (fun b : Bytes => if b = [] then none else some b) [97, 10] ≠ [] ∧
      ∃ s', udpWorker (fun b : Bytes => if b = [] then none else some b) UdpWorker.init
          [.datagram [97, 10]] = some s' ∧
        s'.forwarded ≠ refFrame (fun b : Bytes => if b = [] then none else some b) [97, 10] ++
          ((fun b : Bytes => if b = [] then none else some b) (lines [97, 10]).2).toList :=
  ⟨by decide, rfl, by decide, udpWorker_drops_datagram_lines _ [97, 10] rfl (by decide)⟩

end StatsRelay.StatsdServer
