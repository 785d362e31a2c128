import StatsRelay.StatsdServer.Ingress
import StatsRelay.StatsdClient.ClientSender

/-! # Two relays in a chain

The endpoint of a target is a statsd server, and may be another statsrelay: the bytes
`client_task` frames and `client_sender` writes are then read by the next relay's
`client_handler`.  This module joins the two sides.

* The wire format round-trips: a buffer of PDUs each followed by `'\n'`, as `client_task`
  builds it, then a tail without a newline, is framed by `process_buffer_newlines` into
  `StatsdPDU::new` of each PDU with one trailing `'\r'` removed, in order, and the tail stays
  in the buffer; no such buffer makes it panic (`processBufferNewlines_frameAll`).
* Each connection the sender drops is read by a handler of the next relay, which sees the
  end of its stream when the sender drops it.  The sender's PDUs are, in order: for each
  dropped connection the complete lines it wrote, then the one line its failure cut, written
  part first; then the lines of the open connection and of the unwritten buffer.  For each
  dropped connection, however its bytes arrive, the next relay forwards the PDUs of its
  complete lines and then the parse of the cut line's written part, when that part is not
  empty (`relay_chain_connections`): a failure can hand the next relay a truncated line. -/

namespace StatsRelay.Chain

open StatsdServer StatsdClient

/-! ### The wire format -/

/-- Framed PDUs followed by any tail: the PDUs, then the tail's lines and residual. -/
theorem lines_frameAll_append {pdus : List Bytes} (h : ∀ p ∈ pdus, newline ∉ p) (rest : Bytes) :
    lines (frameAll pdus ++ rest) = (pdus ++ (lines rest).1, (lines rest).2) := by
  induction pdus with
  | nil => simp [frameAll]
  | cons p ps ih =>
    have hframe : frameAll (p :: ps) ++ rest = p ++ newline :: (frameAll ps ++ rest) := by
      simp [frameAll]
    rw [hframe, lines_newline _ (h p (List.mem_cons_self _ _)),
      ih fun q hq => h q (List.mem_cons_of_mem _ hq)]
    rfl

variable {Q : Type} (pduNew : Bytes → Option Q)

/-- **The wire format round-trips.**  `process_buffer_newlines` on non-empty, newline-free
PDUs framed as `client_task` frames them, followed by a tail without a newline, returns
`StatsdPDU::new` of each PDU with one trailing `'\r'` removed, in order, and leaves the
tail; it does not panic. -/
theorem processBufferNewlines_frameAll {pdus : List Bytes} (hp : ∀ p ∈ pdus, p ≠ [] ∧ newline ∉ p)
    {rest : Bytes} (hr : newline ∉ rest) :
    processBufferNewlines pduNew (frameAll pdus ++ rest) =
      some (pdus.filterMap fun p => pduNew (stripCr p), rest) := by
  have hl : lines (frameAll pdus ++ rest) = (pdus, rest) := by
    rw [lines_frameAll_append (fun p h => (hp p h).2), lines_of_not_mem hr, List.append_nil]
  rw [processBufferNewlines_eq,
    if_pos (show NoEmptyLine (frameAll pdus ++ rest) from fun l hm => (hp l (by simpa [hl] using hm)).1)]
  simp [refFrame, hl]

theorem processBufferNewlines_frameAll_crlf :
    (∀ p ∈ [[97], [98, 13]], p ≠ ([] : Bytes) ∧ newline ∉ p) ∧ newline ∉ ([99] : Bytes) ∧
      processBufferNewlines some (frameAll [[97], [98, 13]] ++ [99]) =
        some ([[97], [98, 13]].filterMap fun p => some (stripCr p), [99]) :=
  ⟨by decide, by decide, processBufferNewlines_frameAll some (by decide) (by decide)⟩

/-! ### The connections of a sender -/

theorem trail_cons (c d : Bytes) (cs ds : List Bytes) : trail (c :: cs) (d :: ds) = c ++ d ++ trail cs ds :=
  rfl

/-- The lines of the closed connections, each followed by the rest of the line its failure
cut, and then of any tail. -/
theorem lines_trail : ∀ (closed ls : List Bytes), closed.length = ls.length → (∀ l ∈ ls, newline ∉ l) →
    ∀ rest : Bytes, lines (trail closed (ls.map (· ++ [newline])) ++ rest) =
      ((List.zipWith (fun c l => (lines c).1 ++ [(lines c).2 ++ l]) closed ls).flatten ++ (lines rest).1,
        (lines rest).2)
  | [], [], _, _, rest => by simp [trail]
  | [], _ :: _, h, _, _ => by simp at h
  | _ :: _, [], h, _, _ => by simp at h
  | c :: cs, l :: ls, hlen, hl, rest => by
    have hcut : newline ∉ (lines c).2 ++ l := by
      simp [newline_not_mem_residual, hl l (List.mem_cons_self _ _)]
    have ih := lines_trail cs ls (by simpa using hlen) (fun l' h' => hl l' (List.mem_cons_of_mem _ h')) rest
    rw [List.map_cons, trail_cons, List.append_assoc, List.append_assoc, lines_append,
      show (lines c).2 ++ (l ++ [newline] ++ (trail cs (ls.map (· ++ [newline])) ++ rest)) =
        ((lines c).2 ++ l) ++ newline :: (trail cs (ls.map (· ++ [newline])) ++ rest) by simp,
      lines_newline _ hcut, ih]
    simp

theorem LineRest.dropLast_append {d : Bytes} (h : LineRest d) : d.dropLast ++ [newline] = d := by
  obtain ⟨l, -, rfl⟩ := h
  simp

theorem LineRest.newline_not_mem_dropLast {d : Bytes} (h : LineRest d) : newline ∉ d.dropLast := by
  obtain ⟨l, hl, rfl⟩ := h
  simpa using hl

theorem mem_zipWith_lines : ∀ (closed ls : List Bytes), closed.length = ls.length →
    ∀ c ∈ closed, ∀ x ∈ (lines c).1,
      x ∈ (List.zipWith (fun c l => (lines c).1 ++ [(lines c).2 ++ l]) closed ls).flatten
  | [], _, _, c, hc, _, _ => absurd hc (List.not_mem_nil c)
  | _ :: _, [], h, _, _, _, _ => by simp at h
  | c' :: cs, l :: ls, hlen, c, hc, x, hx => by
    rw [List.zipWith_cons_cons, List.flatten_cons]
    rcases List.mem_cons.1 hc with rfl | hc
    · exact List.mem_append_left _ (List.mem_append_left _ hx)
    · exact List.mem_append_right _ (mem_zipWith_lines cs ls (by simpa using hlen) c hc x hx)

/-- **Two relays in a chain.**  For a `client_sender` fed newline-terminated buffers whose
bytes are the non-empty, newline-free PDUs `pdus`, each followed by `'\n'`: along every run,
the PDUs are, in order, for each dropped connection `c` the complete lines of `c` and then
one line made of the residual of `c` (the part written before the failure) and a newline-free
rest that no connection wrote; then the lines of the open connection and of the unwritten
buffer.  A handler of the next relay reading a dropped connection, in any non-empty reads
and then the end of its stream, does not panic and forwards the framing of `c` followed by
`StatsdPDU::new` of the cut line's written part, when that part is not empty. -/
theorem relay_chain_connections {pdus : List Bytes} (hp : ∀ p ∈ pdus, p ≠ [] ∧ newline ∉ p)
    {es : List SenderEvent} {s : ClientSender} (hbufs : ∀ b ∈ receivedOf es, b.getLast? = some newline)
    (hin : (receivedOf es).flatten = frameAll pdus) (h : clientSender ClientSender.init es = some s) :
    ∃ ls : List Bytes, ls.length = s.closed.length ∧ (∀ l ∈ ls, newline ∉ l) ∧
      pdus = (List.zipWith (fun c l => (lines c).1 ++ [(lines c).2 ++ l]) s.closed ls).flatten ++
        (lines (s.conn.getD [] ++ s.buf)).1 ∧
      ∀ c ∈ s.closed, ∀ chunks : List Bytes, chunks.flatten = c → (∀ ch ∈ chunks, ch ≠ []) →
        ∃ hs, clientHandler pduNew Handler.init (chunks.map .ok ++ [.ok []]) = some hs ∧
          hs.forwarded = refFrame pduNew c ++ if (lines c).2 = [] then [] else (pduNew (lines c).2).toList := by
  obtain ⟨⟨ds, hlen, hds, heq⟩, -⟩ := senderInv_run senderInv_init hbufs h
  have hds' : ds = (ds.map List.dropLast).map (· ++ [newline]) := by
    rw [List.map_map]
    exact (List.map_id ds).symm.trans (List.map_congr_left fun d hd => (LineRest.dropLast_append (hds d hd)).symm)
  have hls : ∀ l ∈ ds.map List.dropLast, newline ∉ l := fun l hl => by
    obtain ⟨d, hd, rfl⟩ := List.mem_map.1 hl
    exact LineRest.newline_not_mem_dropLast (hds d hd)
  have hdecomp := congrArg (fun b => (lines b).1) heq
  simp only [List.nil_append, hin] at hdecomp
  have hframe : lines (frameAll pdus) = (pdus, []) := by
    simpa [lines] using lines_frameAll_append (fun p h => (hp p h).2) []
  rw [hds', List.append_assoc, lines_trail _ _ (by simpa using hlen.symm) hls, hframe] at hdecomp
  have hpdus : pdus = (List.zipWith (fun c l => (lines c).1 ++ [(lines c).2 ++ l]) s.closed
      (ds.map List.dropLast)).flatten ++ (lines (s.conn.getD [] ++ s.buf)).1 := hdecomp.symm
  refine ⟨ds.map List.dropLast, by simpa using hlen, hls, hpdus, fun c hc chunks hflat hne => ?_⟩
  have hnoEmpty : NoEmptyLine chunks.flatten := by
    rw [hflat]
    intro x hx
    have hmem := mem_zipWith_lines _ (ds.map List.dropLast) (by simpa using hlen.symm) c hc x hx
    exact (hp x (hpdus ▸ List.mem_append_left _ hmem)).1
  exact ⟨_, clientHandler_stream_eof pduNew chunks hne hnoEmpty, by simp [hflat]⟩

/-- One byte of `"a\n"` written before a write error: the dropped connection holds `"a"`,
whose newline no connection wrote, and `"b\n"` waits for the next one. -/
theorem relay_chain_connections_cut_line :
    (∀ p ∈ [[97], [98]], p ≠ ([] : Bytes) ∧ newline ∉ p) ∧
      (∀ b ∈ receivedOf [.connected, .recv (some [97, 10, 98, 10]), .wrote 1, .writeError],
        b.getLast? = some newline) ∧
      (receivedOf [.connected, .recv (some [97, 10, 98, 10]), .wrote 1, .writeError]).flatten =
        frameAll [[97], [98]] ∧
      clientSender ClientSender.init [.connected, .recv (some [97, 10, 98, 10]), .wrote 1, .writeError] =
        some ⟨.connecting, [98, 10], none, [[97]], 1, 1, 1, 0⟩ ∧
      ∃ ls : List Bytes, ls.length = [[97]].length ∧ (∀ l ∈ ls, newline ∉ l) ∧
        [[97], [98]] = (List.zipWith (fun c l => (lines c).1 ++ [(lines c).2 ++ l]) [[97]] ls).flatten ++
          (lines ((none : Option Bytes).getD [] ++ [98, 10])).1 ∧
        ∀ c ∈ [[97]], ∀ chunks : List Bytes, chunks.flatten = c → (∀ ch ∈ chunks, ch ≠ []) →
          ∃ hs, clientHandler some Handler.init (chunks.map .ok ++ [.ok []]) = some hs ∧
            hs.forwarded = refFrame some c ++ if (lines c).2 = [] then [] else (some (lines c).2).toList := by
  have hp : ∀ p ∈ [[97], [98]], p ≠ ([] : Bytes) ∧ newline ∉ p := by decide
  have hbufs : ∀ b ∈ receivedOf [.connected, .recv (some [97, 10, 98, 10]), .wrote 1, .writeError],
      b.getLast? = some newline := by
    simp [receivedOf]; rfl
  exact ⟨hp, hbufs, rfl, rfl, relay_chain_connections some hp hbufs rfl rfl⟩

end StatsRelay.Chain
