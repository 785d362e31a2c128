import Mathlib.Data.List.Dedup
import StatsRelay.Backends

/-! # Fan-out: `provide_statsd_pdu`

`StatsdBackend::provide_statsd_pdu` (`backends.rs`) hands one PDU to one duplication
target.  A PDU the target's input filter rejects is dropped; so is every PDU on an empty
ring.  Otherwise the ring picks a client from a code (`1` on a ring of one slot, the
metric's hash otherwise), the prefix and suffix are spliced into the PDU when the target
has either, and `try_send` puts it on the client's channel; a full channel, or one whose
task has returned, drops the PDU and counts it in `warning_log`.
`BackendsInner::provide_statsd_pdu` does this for every target.

The PDU operations, the hash and the regex set belong to code that is not under `src/`
(`statsd_proto`, `shard`, the `regex` crate): they are the parameters `PduOps`.  A task's
channel is the list of PDUs waiting in it and whether its receiver is gone; the channels of
a target are a function from task to channel.

Every PDU that passes the filter on a non-empty ring is queued exactly once, on the task of
the slot its code picks, or counted once in `warning_log` (`provideStatsdPdu_cases`).  Over
any sequence of PDUs, each task's queue grows by a subsequence of the PDUs routed to it, in
arrival order (`provideAll_queue`), and the PDUs queued plus the PDUs counted equal the
PDUs that passed the filter (`provideAll_conserves`). -/

namespace StatsRelay.Backends

/-- The calls of `provide_statsd_pdu` into code that is not under `src/`. -/
structure PduOps (P : Type) where
  /-- `pdu.name()`. -/
  name : P → Bytes
  /-- `pdu.with_prefix_suffix(prefix, suffix)`. -/
  withPrefixSuffix : P → Bytes → Bytes → P
  /-- `statsrelay_compat_hash(pdu)`, a `u32`. -/
  compatHash : P → ℕ
  /-- `is_match(name)` of the `RegexSet` compiled from these patterns. -/
  isMatch : List String → Bytes → Bool

/-- A sender task's channel (`tokio::sync::mpsc`): the PDUs waiting in it, and whether
its receiver is gone. -/
structure Channel (P : Type) where
  pending : List P
  closed : Bool

/-- The channels of a target's sender tasks, by task. -/
def Queues (P : Type) := ℕ → Channel P

/-- The channels of tasks that have received nothing. -/
def Queues.empty {P : Type} : Queues P := fun _ => ⟨[], false⟩

/-- The channels after `pdu` joined the channel of task `t`. -/
def Queues.push {P : Type} (q : Queues P) (t : ℕ) (pdu : P) : Queues P :=
  fun t' => if t' = t then { q t with pending := (q t).pending ++ [pdu] } else q t'

variable {P : Type} (ops : PduOps P)

/-- `client.sender().try_send(pdu)`: `none` when the channel is closed or holds
`channel_buffer` PDUs. -/
def trySend (q : Queues P) (client : StatsdClient) (pdu : P) : Option (Queues P) :=
  if (q client.task).closed = false ∧ (q client.task).pending.length < client.channelBuffer then
    some (q.push client.task pdu)
  else none

namespace StatsdBackend

/-- The input filter's verdict, `input_filter.map_or(true, |inf| inf.is_match(pdu.name()))`. -/
def admits (b : StatsdBackend) (pdu : P) : Bool :=
  (b.inputFilter.map fun inf => ops.isMatch inf (ops.name pdu)).getD true

/-- The code passed to `pick_from`: `none` on an empty ring, where the call returns. -/
def code (b : StatsdBackend) (pdu : P) : Option ℕ :=
  match b.ring.len with
  | 0 => none
  | 1 => some 1
  | _ => some (ops.compatHash pdu)

/-- The client the ring picks for a PDU. -/
def pick (b : StatsdBackend) (pdu : P) : Option StatsdClient := (b.code ops pdu).bind b.ring.pickFrom

/-- The PDU the target sends: with its prefix and suffix when it has either. -/
def outgoing (b : StatsdBackend) (pdu : P) : P :=
  if b.conf.metricPrefix.isSome || b.conf.metricSuffix.isSome then
    ops.withPrefixSuffix pdu ((b.conf.metricPrefix.map (·.toUTF8.toList)).getD [])
      ((b.conf.metricSuffix.map (·.toUTF8.toList)).getD [])
  else pdu

/-- `provide_statsd_pdu(pdu)`: the target (its `warning_log`) and its queues after the call. -/
def provideStatsdPdu (b : StatsdBackend) (q : Queues P) (pdu : P) : StatsdBackend × Queues P :=
  if !b.admits ops pdu then (b, q)
  else
    match b.pick ops pdu with
    | none => (b, q)
    | some client =>
      match trySend q client (b.outgoing ops pdu) with
      | some q' => (b, q')
      | none => ({ b with warningLog := b.warningLog + 1 }, q)

/-- A sequence of `provide_statsd_pdu` calls. -/
def provideAll (b : StatsdBackend) (q : Queues P) (pdus : List P) : StatsdBackend × Queues P :=
  pdus.foldl (fun st pdu => st.1.provideStatsdPdu ops st.2 pdu) (b, q)

end StatsdBackend

/-! ### One PDU -/

@[simp] theorem Queues.push_pending {P : Type} (q : Queues P) (t t' : ℕ) (pdu : P) :
    (q.push t pdu t').pending = if t' = t then (q t).pending ++ [pdu] else (q t').pending := by
  unfold Queues.push; split <;> rfl

@[simp] theorem Queues.push_closed {P : Type} (q : Queues P) (t t' : ℕ) (pdu : P) :
    (q.push t pdu t').closed = (q t').closed := by
  unfold Queues.push; split <;> simp_all

/-- The PDUs waiting on the tasks `ts`, counted with the multiplicity of each task. -/
def Queues.total {P : Type} (q : Queues P) : List ℕ → ℕ
  | [] => 0
  | t :: ts => (q t).pending.length + q.total ts

theorem Queues.total_push {P : Type} (q : Queues P) (t : ℕ) (pdu : P) :
    ∀ ts : List ℕ, (q.push t pdu).total ts = q.total ts + ts.count t
  | [] => rfl
  | u :: ts => by
    rw [Queues.total, Queues.total, Queues.total_push q t pdu ts, List.count_cons]
    by_cases h : u = t <;> simp [h] <;> omega

namespace StatsdBackend

/-- What a target is apart from its `warning_log`, which is all that routing reads. -/
theorem admits_warningLog (b : StatsdBackend) (w : ℕ) (pdu : P) :
    ({ b with warningLog := w } : StatsdBackend).admits ops pdu = b.admits ops pdu := rfl

theorem pick_warningLog (b : StatsdBackend) (w : ℕ) (pdu : P) :
    ({ b with warningLog := w } : StatsdBackend).pick ops pdu = b.pick ops pdu := rfl

theorem outgoing_warningLog (b : StatsdBackend) (w : ℕ) (pdu : P) :
    ({ b with warningLog := w } : StatsdBackend).outgoing ops pdu = b.outgoing ops pdu := rfl

theorem pick_mem {b : StatsdBackend} {pdu : P} {c : StatsdClient} (h : b.pick ops pdu = some c) :
    c ∈ b.ring.members := by
  obtain ⟨_, -, h⟩ := Option.bind_eq_some.1 h
  exact pickFrom_mem h

/-- **What one PDU does to a target.**  Nothing, when the filter rejects it or the ring is
empty.  Otherwise the ring picks a client; the PDU, with the target's prefix and suffix,
joins that client's channel, or, when the channel is full or closed, `warning_log` counts
it. -/
theorem provideStatsdPdu_cases (b : StatsdBackend) (q : Queues P) (pdu : P) :
    ((b.admits ops pdu = false ∨ b.pick ops pdu = none) ∧ b.provideStatsdPdu ops q pdu = (b, q)) ∨
      ∃ c, b.admits ops pdu = true ∧ b.pick ops pdu = some c ∧
        ((((q c.task).closed = false ∧ (q c.task).pending.length < c.channelBuffer) ∧
            b.provideStatsdPdu ops q pdu = (b, q.push c.task (b.outgoing ops pdu))) ∨
          (¬((q c.task).closed = false ∧ (q c.task).pending.length < c.channelBuffer) ∧
            b.provideStatsdPdu ops q pdu = ({ b with warningLog := b.warningLog + 1 }, q))) := by
  cases ha : b.admits ops pdu
  · exact .inl ⟨.inl rfl, by simp [provideStatsdPdu, ha]⟩
  cases hp : b.pick ops pdu with
  | none => exact .inl ⟨.inr rfl, by simp [provideStatsdPdu, ha, hp]⟩
  | some c =>
    refine .inr ⟨c, rfl, rfl, ?_⟩
    by_cases hq : (q c.task).closed = false ∧ (q c.task).pending.length < c.channelBuffer
    · exact .inl ⟨hq, by simp only [provideStatsdPdu, ha, hp, trySend, if_pos hq]; rfl⟩
    · exact .inr ⟨hq, by simp only [provideStatsdPdu, ha, hp, trySend, if_neg hq]; rfl⟩

/-! ### A sequence of PDUs -/

/-- The PDUs that pass the target's filter and that its ring sends to task `t`. -/
def routedTo (b : StatsdBackend) (t : ℕ) (pdus : List P) : List P :=
  pdus.filter fun p => b.admits ops p && (b.pick ops p).map (·.task) == some t

theorem provideAll_cons (b : StatsdBackend) (q : Queues P) (p : P) (ps : List P) :
    b.provideAll ops q (p :: ps) =
      (b.provideStatsdPdu ops q p).1.provideAll ops (b.provideStatsdPdu ops q p).2 ps := rfl

/-- **Per-task order.**  Over any sequence of PDUs, the queue of each task grows by a
subsequence of the PDUs routed to it, in arrival order, with the target's prefix and
suffix: no PDU is queued twice, on another task, or out of order. -/
theorem provideAll_queue (t : ℕ) :
    ∀ (pdus : List P) (b : StatsdBackend) (q : Queues P),
      ∃ l, ((b.provideAll ops q pdus).2 t).pending = (q t).pending ++ l ∧
      l.Sublist ((b.routedTo ops t pdus).map (b.outgoing ops))
  | [], _, _ => ⟨[], by simp [provideAll], List.nil_sublist _⟩
  | p :: ps, b, q => by
    have hsub : ((b.routedTo ops t ps).map (b.outgoing ops)).Sublist
        ((b.routedTo ops t (p :: ps)).map (b.outgoing ops)) :=
      ((List.sublist_cons_self p ps).filter _).map _
    rw [provideAll_cons]
    rcases provideStatsdPdu_cases ops b q p with ⟨-, hst⟩ | ⟨c, ha, hp, ⟨-, hst⟩ | ⟨-, hst⟩⟩ <;>
      rw [hst]
    · obtain ⟨l, hl, hls⟩ := provideAll_queue t ps b q
      exact ⟨l, hl, hls.trans hsub⟩
    · obtain ⟨l, hl, hls⟩ := provideAll_queue t ps b (q.push c.task (b.outgoing ops p))
      by_cases ht : t = c.task
      · refine ⟨b.outgoing ops p :: l, ?_, ?_⟩
        · rw [hl, Queues.push_pending, if_pos ht, ht, List.append_assoc, List.singleton_append]
        · have hr : b.routedTo ops t (p :: ps) = p :: b.routedTo ops t ps := by
            simp [routedTo, List.filter_cons, ha, hp, ht]
          rw [hr, List.map_cons]
          exact hls.cons₂ _
      · exact ⟨l, by simp [hl, ht], hls.trans hsub⟩
    · obtain ⟨l, hl, hls⟩ := provideAll_queue t ps { b with warningLog := b.warningLog + 1 } q
      exact ⟨l, hl, hls.trans hsub⟩

/-- **No PDU lost or duplicated.**  Over any sequence of PDUs, the PDUs that joined the
queues of the ring's tasks plus those counted in `warning_log` are exactly the PDUs that
passed the filter on a ring with a client. -/
theorem provideAll_conserves :
    ∀ (pdus : List P) (b : StatsdBackend) (q : Queues P),
      (b.provideAll ops q pdus).1.warningLog +
          (b.provideAll ops q pdus).2.total (b.ring.members.map (·.task)).dedup =
        b.warningLog + q.total (b.ring.members.map (·.task)).dedup +
          (pdus.filter fun p => b.admits ops p && (b.pick ops p).isSome).length
  | [], _, _ => by simp [provideAll]
  | p :: ps, b, q => by
    rw [provideAll_cons]
    rcases provideStatsdPdu_cases ops b q p with ⟨hno, hst⟩ | ⟨c, ha, hp, ⟨-, hst⟩ | ⟨-, hst⟩⟩ <;>
      rw [hst]
    · have hp : (b.admits ops p && (b.pick ops p).isSome) = false := by
        rcases hno with h | h <;> simp [h]
      rw [provideAll_conserves ps b q, List.filter_cons_of_neg (by simp [hp])]
    · have hc : (b.ring.members.map (·.task)).dedup.count c.task = 1 :=
        List.count_eq_one_of_mem (List.nodup_dedup _)
          (List.mem_dedup.2 (List.mem_map_of_mem _ (pick_mem ops hp)))
      rw [provideAll_conserves ps b _, Queues.total_push, hc,
        List.filter_cons_of_pos (by simp [ha, hp]), List.length_cons]
      omega
    · rw [provideAll_conserves ps { b with warningLog := b.warningLog + 1 } q,
        List.filter_cons_of_pos (by simp [ha, hp]), List.length_cons]
      simp only [admits_warningLog, pick_warningLog]
      omega

end StatsdBackend

/-- `BackendsInner`: the targets in the order they were added, each with its queues. -/
structure BackendsInner (P : Type) where
  statsd : List (StatsdBackend × Queues P)

namespace BackendsInner

/-- `BackendsInner::new()`. -/
def new : BackendsInner P := ⟨[]⟩

/-- `add_statsd_backend(c)`: a new target, whose fresh tasks have empty queues. -/
def addStatsdBackend (bs : BackendsInner P) (c : StatsdDuplicateTo) : BackendsInner P :=
  ⟨bs.statsd ++ [(StatsdBackend.new c, Queues.empty)]⟩

/-- `provide_statsd_pdu(pdu)`: every target in turn. -/
def provideStatsdPdu (bs : BackendsInner P) (pdu : P) : BackendsInner P :=
  ⟨bs.statsd.map fun st => st.1.provideStatsdPdu ops st.2 pdu⟩

end BackendsInner

end StatsRelay.Backends
