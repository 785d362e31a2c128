import StatsRelay.StatsdServer.Ingress
import StatsRelay.Wire

/-! # The relay process: TCP ingress into one target

`main` builds one duplication target from the shard map (`Backends::add_statsd_backend`)
and runs `statsd_server::run`, whose accept loop spawns one `client_handler` per
connection.  After framing a read, a handler calls `Backends::provide_statsd_pdu` on every
PDU of the pass, in order, then reads again; the target's sender tasks and their writers run
alongside (`Wire`).  This module puts them together:

* `Conn`: one connection's handler, the PDUs of its current pass not yet provided, whether
  its loop reads again, and the bytes of the reads it framed (a history variable);
* `serverStep`: an accepted connection, a read of a connection, one `provide_statsd_pdu`
  call of a connection, or any event of the target other than a provide.  A run is any
  interleaving of them; a panic of `process_buffer_newlines` ends that handler's task only.

The process keeps, as a history variable, every `provide_statsd_pdu` call in call order with
the connection that made it (`Server.calls`).  `ServerInv`: every call names an accepted
connection; each connection has provided a prefix of what its handler forwarded, which is
the reference framing of the bytes it read, followed at the end of the stream by the
residual's PDU; and the target's `PipeInv` holds for the PDUs of the calls.  Hence along every interleaving, what each
task's writer puts on the wire is framed from PDUs routed to it in the order they were
provided, and that order keeps the order of every connection's stream
(`server_wire_in_order`). -/

namespace StatsRelay.Service

open Backends StatsdClient StatsdServer DataPath Wire

variable {P : Type}

/-- One accepted connection and its `client_handler` task. -/
structure Conn (P : Type) where
  handler : Handler P
  /-- The PDUs of the current pass that `provide_statsd_pdu` has not had yet. -/
  outbox : List P
  /-- Whether the loop reads again. -/
  running : Bool
  /-- The bytes of the reads the handler framed, in order. -/
  bytes : Bytes

/-- A connection just accepted. -/
def Conn.init : Conn P := ⟨Handler.init, [], true, []⟩

/-- The TCP server's connections, in the order they were accepted, and the target. -/
structure Server (P : Type) where
  conns : List (Conn P)
  pipe : Pipeline P
  /-- History: the `provide_statsd_pdu` calls so far, in call order, each with the index of
  the connection that made it and its PDU. -/
  calls : List (ℕ × P)

/-- The process once `main` added the target of `conf`, before the first connection. -/
def Server.init (conf : StatsdDuplicateTo) : Server P := ⟨[], Pipeline.init conf, []⟩

/-- What happens next in the process. -/
inductive ServerEvent (P : Type) where
  /-- `listener.accept()` yields a socket, and a `client_handler` is spawned for it. -/
  | accept
  /-- The `select!` of connection `c`'s loop yields `r`. -/
  | read (c : ℕ) (r : ReadResult)
  /-- Connection `c` calls `provide_statsd_pdu` on the next PDU of its pass. -/
  | provide (c : ℕ)
  /-- Any other event of the target, its tasks or their writers. -/
  | target (e : PipelineEvent P)
  deriving Repr

variable (pduNew : Bytes → Option P) (ops : PduOps P) (asBytes : P → Bytes)

/-- A pass of the connection's loop on `r`: the PDUs it forwards wait to be provided, and a
panic of `process_buffer_newlines` ends the task. -/
def Conn.read (conn : Conn P) (r : ReadResult) : Conn P :=
  match clientHandlerStep pduNew conn.handler r with
  | none => { conn with running := false }
  | some (h, go) =>
    ⟨if go then h else { h with disconnects := h.disconnects + 1 },
      h.forwarded.drop conn.handler.forwarded.length, go, conn.bytes ++ r.toOption.getD []⟩

/-- One event; `none` when it cannot happen. -/
def serverStep (S : Server P) : ServerEvent P → Option (Server P)
  | .accept => some { S with conns := S.conns ++ [Conn.init] }
  | .read c r =>
    S.conns[c]?.bind fun conn =>
      if conn.running && conn.outbox.isEmpty then
        some { S with conns := S.conns.set c (conn.read pduNew r) }
      else none
  | .provide c =>
    S.conns[c]?.bind fun conn =>
      match conn.outbox with
      | [] => none
      | p :: rest =>
        (pipelineStep ops asBytes S.pipe (.relay (.provide p))).map fun pipe =>
          ⟨S.conns.set c { conn with outbox := rest }, pipe, S.calls ++ [(c, p)]⟩
  | .target (.relay (.provide _)) => none
  | .target e => (pipelineStep ops asBytes S.pipe e).map fun pipe => { S with pipe := pipe }

/-- A run of the process. -/
def server (S : Server P) : List (ServerEvent P) → Option (Server P)
  | [] => some S
  | e :: es => (serverStep pduNew ops asBytes S e).bind (server · es)

/-- The PDUs of the calls `calls` that connection `c` made, in order. -/
def providedBy (calls : List (ℕ × P)) (c : ℕ) : List P :=
  calls.filterMap fun x => if x.1 = c then some x.2 else none

theorem providedBy_append (calls : List (ℕ × P)) (p : P) (c c' : ℕ) :
    providedBy (calls ++ [(c, p)]) c' = providedBy calls c' ++ if c = c' then [p] else [] := by
  simp only [providedBy, List.filterMap_append]
  split_ifs <;> simp_all

theorem providedBy_of_forall_ne {calls : List (ℕ × P)} {c : ℕ} (h : ∀ x ∈ calls, x.1 ≠ c) :
    providedBy calls c = [] :=
  List.filterMap_eq_nil_iff.2 fun x hx => if_neg (h x hx)

/-! ### Connections -/

/-- What holds of a connection that has provided `provided`: those and the PDUs still to
provide are what its handler forwarded, the reference framing of the bytes it read,
followed at the end of the stream by the residual's PDU; a running handler is exactly the
state those bytes lead to. -/
structure ConnInv (provided : List P) (conn : Conn P) : Prop where
  merge : provided ++ conn.outbox = conn.handler.forwarded
  frame : conn.handler.forwarded = refFrame pduNew conn.bytes ∨
    conn.handler.forwarded = refFrame pduNew conn.bytes ++ (pduNew (lines conn.bytes).2).toList
  live : conn.running = true → conn.handler = Handler.init.received pduNew conn.bytes

theorem connInv_init : ConnInv pduNew [] (Conn.init : Conn P) :=
  ⟨rfl, .inl rfl, fun _ => (received_nil pduNew _ (List.not_mem_nil _)).symm⟩

theorem connInv_provide {provided : List P} {conn : Conn P} (hi : ConnInv pduNew provided conn)
    {p : P} {rest : List P} (ho : conn.outbox = p :: rest) :
    ConnInv pduNew (provided ++ [p]) { conn with outbox := rest } :=
  ⟨by rw [← hi.merge, ho]; simp, hi.frame, hi.live⟩

/-- A pass of a running handler whose PDUs were all provided keeps the invariant. -/
theorem connInv_read {provided : List P} {conn : Conn P} (hi : ConnInv pduNew provided conn)
    (hr : conn.running = true) (ho : conn.outbox = []) (r : ReadResult) :
    ConnInv pduNew provided (conn.read pduNew r) := by
  have hprov : provided = conn.handler.forwarded := by simpa [ho] using hi.merge
  obtain ⟨h₀, outbox, running, bytes⟩ := conn
  dsimp only at hr ho hprov
  have hl : h₀ = Handler.init.received pduNew bytes := hi.live hr
  subst hl hr ho hprov
  have hnl : newline ∉ (Handler.init.received pduNew bytes : Handler P).buf :=
    newline_not_mem_residual _
  rcases r with k | chunk
  · cases k <;> exact ⟨by simp [Conn.read, clientHandlerStep], .inl (by simp [Conn.read,
      clientHandlerStep, Except.toOption, Handler.received, Handler.init]), fun h => by cases h⟩
  · by_cases hc : chunk = []
    · subst hc
      simp only [Conn.read, clientHandlerStep_eof pduNew _ hnl, Bool.false_eq_true, if_false,
        Except.toOption, Option.getD_some, List.append_nil, List.drop_left]
      refine ⟨rfl, ?_, fun h => nomatch h⟩
      split_ifs with hb
      · exact .inl (by simp [Handler.received, Handler.init])
      · exact .inr (by simp [Handler.received, Handler.init])
    · simp only [Conn.read, clientHandlerStep_data pduNew _ hc]
      split_ifs
      · refine ⟨by simp [Handler.received], .inl (by rw [refFrame_append]; simp [Handler.received, Handler.init,
          Except.toOption]),
          fun _ => received_received pduNew _ _ _⟩
      · exact ⟨by simp, hi.frame, fun h => by cases h⟩

/-! ### The process -/

theorem getElem?_append_singleton {α : Type} {l : List α} {a b : α} {i : ℕ}
    (h : (l ++ [a])[i]? = some b) : l[i]? = some b ∨ i = l.length ∧ b = a := by
  by_cases hi : i < l.length
  · exact .inl (List.getElem?_append_left hi ▸ h)
  · rw [List.getElem?_append_right (Nat.le_of_not_lt hi)] at h
    obtain ⟨hk, hb⟩ := List.getElem?_eq_some_iff.1 h
    simp only [List.length_singleton, Nat.lt_one_iff] at hk
    exact .inr ⟨by omega, by simpa using hb.symm⟩

theorem getElem?_set_some {α : Type} {l : List α} {a b : α} {i j : ℕ} (h : (l.set i a)[j]? = some b) :
    i = j ∧ b = a ∨ i ≠ j ∧ l[j]? = some b := by
  rw [List.getElem?_set] at h
  split_ifs at h with hij
  · exact .inl ⟨hij, (Option.some.inj h).symm⟩
  · exact .inr ⟨hij, h⟩

/-- The invariant of a run from a target `b`: every call was made by an accepted
connection, every connection keeps its own invariant for the PDUs it provided, and the
target's for the PDUs of all calls. -/
structure ServerInv (b : StatsdBackend) (S : Server P) : Prop where
  pipe : PipeInv ops asBytes b (S.calls.map Prod.snd) S.pipe
  calls_lt : ∀ x ∈ S.calls, x.1 < S.conns.length
  conns : ∀ c conn, S.conns[c]? = some conn → ConnInv pduNew (providedBy S.calls c) conn

section Steps

variable {b : StatsdBackend} {S S' : Server P}

/-- Connection `c` going on as `conn'` keeps the invariant when `conn'` keeps its own. -/
theorem serverInv_set (hi : ServerInv pduNew ops asBytes b S) {c : ℕ} {conn' : Conn P}
    (h : ConnInv pduNew (providedBy S.calls c) conn') :
    ServerInv pduNew ops asBytes b { S with conns := S.conns.set c conn' } := by
  refine ⟨hi.pipe, fun x hx => ?_, fun c' conn hc => ?_⟩
  · simpa using hi.calls_lt x hx
  · rcases getElem?_set_some hc with ⟨rfl, rfl⟩ | ⟨-, hc⟩
    · exact h
    · exact hi.conns c' conn hc

theorem serverInv_accept (hi : ServerInv pduNew ops asBytes b S) :
    ServerInv pduNew ops asBytes b { S with conns := S.conns ++ [Conn.init] } := by
  refine ⟨hi.pipe, fun x hx => ?_, fun c conn hc => ?_⟩
  · simpa using Nat.lt_succ_of_lt (hi.calls_lt x hx)
  · rcases getElem?_append_singleton hc with hc | ⟨rfl, rfl⟩
    · exact hi.conns c conn hc
    · rw [providedBy_of_forall_ne fun x hx => Nat.ne_of_lt (hi.calls_lt x hx)]
      exact connInv_init pduNew

/-- A call of `provide_statsd_pdu` by connection `c` on the head of its pass. -/
theorem serverInv_provide (hi : ServerInv pduNew ops asBytes b S) {c : ℕ} {conn : Conn P}
    (hc : S.conns[c]? = some conn) {p : P} {rest : List P} (ho : conn.outbox = p :: rest)
    {pipe : Pipeline P} (h : pipelineStep ops asBytes S.pipe (.relay (.provide p)) = some pipe) :
    ServerInv pduNew ops asBytes b ⟨S.conns.set c { conn with outbox := rest }, pipe, S.calls ++ [(c, p)]⟩ := by
  have hlt : c < S.conns.length := (List.getElem?_eq_some_iff.1 hc).1
  refine ⟨by simpa using pipeInv_step ops asBytes hi.pipe h, fun x hx => ?_, fun c' conn' hc' => ?_⟩
  · rcases List.mem_append.1 hx with hx | hx
    · simpa using hi.calls_lt x hx
    · simpa [List.mem_singleton.1 hx] using hlt
  · rw [providedBy_append]
    rcases getElem?_set_some hc' with ⟨rfl, rfl⟩ | ⟨hne, hc'⟩
    · simpa using connInv_provide pduNew (hi.conns c conn hc) ho
    · simpa [hne] using hi.conns c' conn' hc'

/-- One event keeps the invariant. -/
theorem serverInv_step (hi : ServerInv pduNew ops asBytes b S) {e : ServerEvent P}
    (h : serverStep pduNew ops asBytes S e = some S') : ServerInv pduNew ops asBytes b S' := by
  cases e with
  | accept => cases h; exact serverInv_accept pduNew ops asBytes hi
  | read c r =>
    obtain ⟨conn, hc, h⟩ := Option.bind_eq_some.1 h
    obtain ⟨hrun, ⟨⟩⟩ := Option.ite_none_right_eq_some.1 h
    simp only [Bool.and_eq_true, List.isEmpty_iff] at hrun
    exact serverInv_set pduNew ops asBytes hi (connInv_read pduNew (hi.conns c conn hc) hrun.1 hrun.2 r)
  | provide c =>
    obtain ⟨conn, hc, h⟩ := Option.bind_eq_some.1 h
    split at h
    · cases h
    · next p rest ho =>
      obtain ⟨pipe, hp, rfl⟩ := Option.map_eq_some'.1 h
      exact serverInv_provide pduNew ops asBytes hi hc ho hp
  | target e =>
    have hpipe : ∀ {pipe : Pipeline P}, inputsOf [e] = [] → pipelineStep ops asBytes S.pipe e = some pipe →
        ServerInv pduNew ops asBytes b { S with pipe := pipe } := fun he hp =>
      ⟨by simpa [he] using pipeInv_step ops asBytes hi.pipe hp, hi.calls_lt, hi.conns⟩
    rcases e with (_ | _ | _ | _) | _ | _ <;> simp only [serverStep] at h <;>
      first
      | cases h
      | obtain ⟨pipe, hp, rfl⟩ := Option.map_eq_some'.1 h; exact hpipe rfl hp

theorem serverInv_run :
    ∀ {es : List (ServerEvent P)} {S S' : Server P},
      ServerInv pduNew ops asBytes b S → server pduNew ops asBytes S es = some S' → ServerInv pduNew ops asBytes b S'
  | [], _, _, hi, h => by cases h; exact hi
  | _ :: _, _, _, hi, h => by
    obtain ⟨S₁, h₁, h₂⟩ := Option.bind_eq_some.1 h
    exact serverInv_run (serverInv_step pduNew ops asBytes hi h₁) h₂

end Steps

theorem serverInv_init (conf : StatsdDuplicateTo) :
    ServerInv pduNew ops asBytes (StatsdBackend.new conf) (Server.init conf : Server P) :=
  ⟨pipeInv_init ops asBytes conf, fun _ h => (List.not_mem_nil _ h).elim, fun _ _ h => nomatch h⟩

/-- **From the TCP streams to the wire.**  Along every interleaving of accepted
connections, their reads and `provide_statsd_pdu` calls, and the passes and events of the
target's sender tasks and writers, from the process `main` starts with the target of
`conf`: every call so far was made by an accepted connection, and every connection has
provided, in its order, a prefix of what its handler forwarded, the rest of the pass still
to come; and what a handler forwarded is the reference framing of the bytes it read,
followed at the end of the stream by the residual's PDU.  For every task and its writer,
running or returned, at most ten buffers wait in their channel, and the bytes of the
writer's connections, one discarded line rest per aborted connection, then the writer's
buffer, the buffers in the channel and the task's buffer, are the framed PDUs the task took
from its channel; those followed by what still waits in its channel are a subsequence, in
order, of the PDUs of the calls, in call order, that the target routes to it.  So an
endpoint receives each connection's PDUs routed to it in that connection's order, none
twice. -/
theorem server_wire_in_order (conf : StatsdDuplicateTo) (es : List (ServerEvent P)) (S : Server P)
    (h : server pduNew ops asBytes (Server.init conf) es = some S) (t : ℕ) (task : ClientTask)
    (w : Writer) (ht : S.pipe.relay.tasks t = some task) (hw : S.pipe.writers t = some w) :
    (∀ x ∈ S.calls, x.1 < S.conns.length) ∧
      (∀ c conn, S.conns[c]? = some conn →
        providedBy S.calls c ++ conn.outbox = conn.handler.forwarded ∧
        (conn.handler.forwarded = refFrame pduNew conn.bytes ∨
          conn.handler.forwarded = refFrame pduNew conn.bytes ++ (pduNew (lines conn.bytes).2).toList)) ∧
      (task.handed.drop w.taken).length ≤ bufChannelCapacity ∧
      ∃ ds : List Bytes, ds.length = w.sender.connectionsAborted ∧ (∀ d ∈ ds, LineRest d) ∧
        trail w.sender.closed ds ++ w.sender.conn.getD [] ++
            (w.sender.buf ++ (task.handed.drop w.taken).flatten ++ task.buf) =
          frameAll ((S.pipe.relay.took t).map asBytes) ∧
        (S.pipe.relay.took t ++ (S.pipe.relay.queues t).pending).Sublist
          (((StatsdBackend.new conf).routedTo ops t (S.calls.map Prod.snd)).map
            ((StatsdBackend.new conf).outgoing ops)) := by
  have hi := serverInv_run pduNew ops asBytes (serverInv_init pduNew ops asBytes conf) h
  exact ⟨hi.calls_lt, fun c conn hc => ⟨(hi.conns c conn hc).merge, (hi.conns c conn hc).frame⟩,
    hi.pipe.wire ops asBytes ht hw⟩

theorem server_wire_in_order_one_line :
    ∃ S : Server Bytes,
      server some (⟨id, fun p a c => a ++ p ++ c, fun _ => 0, fun _ _ => true⟩ : PduOps Bytes) id
          (Server.init ⟨["a"], none, none, none, none⟩)
          [.accept, .read 0 (.ok [97, 10]), .provide 0, .target (.relay (.recv 0)), .target (.relay (.tick 0)),
            .target (.sender 0 .connected), .target (.take 0), .target (.sender 0 (.wrote 2))] = some S ∧
        S.calls = [(0, [97])] ∧ S.pipe.relay.took 0 = [[97]] ∧
        S.pipe.relay.tasks 0 = some ⟨[], [[97, 10]], true, 1, 1, 1⟩ ∧
        S.pipe.writers 0 = some ⟨⟨.receiving, [], some [97, 10], [], 2, 0, 1, 0⟩, 1, true⟩ ∧
        (∀ x ∈ S.calls, x.1 < S.conns.length) ∧
        (∀ c conn, S.conns[c]? = some conn →
          providedBy S.calls c ++ conn.outbox = conn.handler.forwarded ∧
          (conn.handler.forwarded = refFrame some conn.bytes ∨
            conn.handler.forwarded = refFrame some conn.bytes ++ (some (lines conn.bytes).2).toList)) ∧
        ([[97, 10]].drop 1).length ≤ bufChannelCapacity ∧
        ∃ ds : List Bytes, ds.length = 0 ∧ (∀ d ∈ ds, LineRest d) ∧
          trail [] ds ++ [97, 10] ++ ([] ++ ([[97, 10]].drop 1).flatten ++ []) =
            frameAll ((S.pipe.relay.took 0).map id) ∧
          (S.pipe.relay.took 0 ++ (S.pipe.relay.queues 0).pending).Sublist
            (((StatsdBackend.new ⟨["a"], none, none, none, none⟩).routedTo
                (⟨id, fun p a c => a ++ p ++ c, fun _ => 0, fun _ _ => true⟩ : PduOps Bytes) 0
                (S.calls.map Prod.snd)).map
              ((StatsdBackend.new ⟨["a"], none, none, none, none⟩).outgoing
                (⟨id, fun p a c => a ++ p ++ c, fun _ => 0, fun _ _ => true⟩ : PduOps Bytes))) := by
  have hread : (Conn.init : Conn Bytes).read some (.ok [97, 10]) =
      ⟨Handler.init.received some [97, 10], [[97]], true, [97, 10]⟩ := by
    simp only [Conn.read, clientHandlerStep_data some _ (List.cons_ne_nil _ _)]; rfl
  have hrun : server some (⟨id, fun p a c => a ++ p ++ c, fun _ => 0, fun _ _ => true⟩ : PduOps Bytes) id
        (Server.init ⟨["a"], none, none, none, none⟩)
        [.accept, .read 0 (.ok [97, 10]), .provide 0, .target (.relay (.recv 0)), .target (.relay (.tick 0)),
          .target (.sender 0 .connected), .target (.take 0), .target (.sender 0 (.wrote 2))] =
      server some (⟨id, fun p a c => a ++ p ++ c, fun _ => 0, fun _ _ => true⟩ : PduOps Bytes) id
        ⟨[⟨Handler.init.received some [97, 10], [[97]], true, [97, 10]⟩], Pipeline.init ⟨["a"], none, none, none, none⟩,
          []⟩
        [.provide 0, .target (.relay (.recv 0)), .target (.relay (.tick 0)), .target (.sender 0 .connected),
          .target (.take 0), .target (.sender 0 (.wrote 2))] := by
    rw [← hread]; rfl
  exact ⟨_, hrun.trans rfl, rfl, rfl, rfl, rfl, server_wire_in_order some _ id _ _ _ (hrun.trans (by exact rfl)) 0
    ⟨[], [[97, 10]], true, 1, 1, 1⟩ ⟨⟨.receiving, [], some [97, 10], [], 2, 0, 1, 0⟩, 1, true⟩ (by exact rfl)
    (by exact rfl)⟩

end StatsRelay.Service
