import Stmdsp.Model.CommandRun
import Stmdsp.Proofs.SerialStreams

/-! Progress of the serial driver: as long as the host asks for packets and the start of
frames goes on, everything written gets to the host, and a call of the thread returns
once its bytes, or room for them, can be there. -/

namespace Stmdsp

namespace SerialUSB

open OutSide

variable {s s' : SerialUSB} {n : ℕ}

/-! ### How transfers start -/

/-- What starting a transfer of `n` bytes leaves. -/
structure Started (s s' : SerialUSB) (n : ℕ) : Prop where
  transmitting : s'.usbp.transmitting = true
  txsize : s'.usbp.inState.txsize = n
  ie : s'.otg.ie.xfrc = s.otg.ie.xfrc ∧ s'.otg.ie.fifo = s.otg.ie.fifo
  thread : s'.writer = s.writer ∧ s'.session = s.session

theorem usbStartTransmitI_started {buf : ℕ} (h : s.usbStartTransmitI buf n = some s') :
    s.Started s' n := by
  rw [usbStartTransmitI] at h
  split at h
  · obtain rfl := Option.some.inj h
    exact ⟨rfl, rfl, ⟨rfl, rfl⟩, rfl, rfl⟩
  · cases h

theorem transmitFull_started (hq : s.obqueue.OutOk) (hlt : s.obqueue.bcounter < s.obqueue.bn)
    (h : s.transmitFull = some s') : ∃ n, 0 < n ∧ s.Started s' n := by
  rw [transmitFull, hq.getFull hlt] at h
  exact ⟨_, hq.head_pos hlt, usbStartTransmitI_started h⟩

/-- An empty packet follows a transfer of whole packets, and no other. -/
theorem transmitNext_started (hq : s.obqueue.OutOk) (h : s.transmitNext n = some s') :
    s' = s ∨ ∃ n', (n' = 0 → 0 < n) ∧ s.Started s' n' := by
  rw [transmitNext] at h
  rcases Nat.lt_or_eq_of_le hq.counter with hlt | heq
  · rw [hq.getFull hlt] at h
    have hpos := hq.head_pos hlt
    exact .inr ⟨_, fun hz => absurd hz (Nat.ne_of_gt hpos), usbStartTransmitI_started h⟩
  · rw [hq.getFull_none heq] at h
    by_cases hzero : 0 < n ∧ n &&& (EP1_MAXSIZE - 1) = 0
    · exact .inr ⟨0, fun _ => hzero.1, usbStartTransmitI_started ((if_pos hzero).symm.trans h)⟩
    · exact .inl (Option.some.inj ((if_neg hzero).symm.trans h)).symm

/-! ### The host is served -/

/-- Everything a step that serves the host leaves alone. -/
structure Served (s s' : SerialUSB) : Prop where
  inv : s'.Inv
  link : s'.link = s.link
  inSide : s'.inSide = s.inSide
  writer : s'.writer = s.writer
  carried : s'.session.carriedOut = s.session.carriedOut
  writes : s'.session.writes = s.session.writes

namespace Served

theorem refl (hi : s.Inv) : Served s s := ⟨hi, rfl, rfl, rfl, rfl, rfl⟩

theorem trans {s'' : SerialUSB} (h : Served s s') (h' : Served s' s'') : Served s s'' :=
  ⟨h'.inv, h'.link.trans h.link, h'.inSide.trans h.inSide, h'.writer.trans h.writer,
    h'.carried.trans h.carried, h'.writes.trans h.writes⟩

theorem on (h : Served s s') : s'.otg.daintmsk = s.otg.daintmsk := congrArg SerialLink.on h.link

theorem written (h : Served s s') : s'.outSide.written = s.outSide.written := by
  show loggedBytes s'.session.carriedOut s'.session.writes = _
  rw [h.carried, h.writes]
  rfl

end Served

/-- The steps that serve the host: none is the thread's, and none the bus's. -/
def serving : List USBAct := [.fifoEmpty, .inPacket, .inComplete, .sof]

/-- How far the transfer in progress is from its end. -/
def rank (s : SerialUSB) : ℕ :=
  if s.usbp.transmitting = false then 3
  else if s.usbp.inState.txsize = 0 then if s.otg.ie.xfrc then 4 else 5
  else if s.otg.ie.xfrc then 6
  else if s.otg.ie.fifo = [] then 2
  else 1

theorem rank_pos (s : SerialUSB) : 0 < s.rank := by
  rw [rank]
  split_ifs <;> decide

theorem rank_le (s : SerialUSB) : s.rank ≤ 6 := by
  rw [rank]
  split_ifs <;> decide

/-- What the host is owed, in steps. -/
def owed (s : SerialUSB) : ℕ :=
  6 * (s.outSide.written.length - s.session.received.flatten.length) + s.rank

theorem Served.owed_lt (h : Served s s') (hrec : s'.session.received.flatten = s.session.received.flatten)
    (hlt : s'.rank < s.rank) : s'.owed < s.owed := by
  rw [owed, owed, h.written, hrec]
  exact Nat.add_lt_add_left hlt _

/-- All that was written is with the host, and no transfer is in progress. -/
def Drained (s : SerialUSB) : Prop :=
  s.usbp.transmitting = false ∧ s.session.received.flatten = s.outSide.written

theorem rank_started {n : ℕ} (h : s.Started s' n) (hx : s.otg.ie.xfrc = false)
    (hfifo : s.otg.ie.fifo = []) : s'.rank = if n = 0 then 5 else 2 := by
  rw [rank, h.transmitting, h.txsize, h.ie.1, h.ie.2, hx, hfifo]
  simp

/-- Nothing in transfer, but bytes begun: the next start of a frame sends them. -/
theorem serve_idle (hi : s.Inv) (hon : s.otg.daintmsk = true) (h : s.outSide.Idle)
    (hne : s.session.received.flatten ≠ s.outSide.written) :
    ∃ s', USBStep s .sof s' ∧ Served s s' ∧ s'.owed < s.owed := by
  have hb := hi.tx.core.base
  have ht : s.usbp.transmitting = false := h.transmitting
  have hfifo : s.otg.ie.fifo = [] := h.fifo
  have hx : s.otg.ie.xfrc = false := h.xfrc
  have hfull : s.obqueue.obqFull = [] := by
    refine hb.queue.obqFull_eq_nil_iff.mpr ((hi.tx.sends hon).resolve_left ?_)
    rw [show s.outSide.transmitting = false from ht]
    exact Bool.false_ne_true
  have hbegun : s.obqueue.begun ≠ [] := by
    intro hnil
    have hpending : s.obqueue.pending = [] := by
      rw [IoBuffersQueue.pending, hfull, hnil]
      rfl
    have hexact := hb.exact hon
    rw [show s.outSide.q.pending = [] from hpending, List.drop_nil, List.append_nil, gone,
      show s.outSide.ie.fifo = [] from hfifo, List.flatten_nil, List.append_nil] at hexact
    exact hne hexact
  obtain ⟨s', hs', hlink, hin, hout⟩ := sduSOFHookI_spec hi.link hi.tx
  rcases hb.queue.tryFlush with ⟨-, hno⟩ | ⟨-, -, q, hflush, hposted, hq⟩
  · exact absurd hno (not_or.mpr ⟨not_not.mpr hfull, hbegun⟩)
  have hstart : ({ s with obqueue := q } : SerialUSB).transmitFull = some s' := by
    rw [sduSOFHookI, if_neg (by rw [active_of_on hi.link hon]; decide), if_neg (by rw [ht]; decide),
      show s.obqueue.obqTryFlushI = (true, q) from hflush] at hs'
    exact hs'
  have hlt : q.bcounter < q.bn := by
    refine Nat.lt_of_le_of_ne hposted.ok.counter (hposted.ok.obqFull_eq_nil_iff.not.mp ?_)
    rw [hq]
    exact List.cons_ne_nil _ _
  obtain ⟨n, hpos, hstarted⟩ := transmitFull_started hposted.ok hlt hstart
  have hserved : Served s s' := ⟨hi.of_tx hlink hin hout, hlink, hin, hstarted.thread.1,
    by rw [hstarted.thread.2], by rw [hstarted.thread.2]⟩
  refine ⟨s', ⟨rfl, hs'⟩, hserved, hserved.owed_lt (by rw [hstarted.thread.2]) ?_⟩
  rw [rank_started hstarted hx hfifo, if_neg (Nat.ne_of_gt hpos), rank, if_pos ht]
  decide

/-- The next packet of a transfer goes into the FIFO. -/
theorem serve_fill (hi : s.Inv) (hon : s.otg.daintmsk = true) {acked : ℕ}
    (h : s.outSide.Sending acked) (hfifo : s.otg.ie.fifo = []) :
    ∃ s', USBStep s .fifoEmpty s' ∧ Served s s' ∧ s'.owed < s.owed := by
  have ht : s.usbp.transmitting = true := h.transmitting
  have hx : s.otg.ie.xfrc = false := h.xfrc
  have hcnt : s.usbp.inState.txcnt = acked := by
    rw [show s.usbp.inState.txcnt = _ from h.txcnt, show s.outSide.ie.fifo = [] from hfifo]
    rfl
  have hlt : s.usbp.inState.txcnt < s.usbp.inState.txsize := by
    rw [hcnt]
    exact h.acked_lt
  have hmsk : s.otg.diepempmsk = true := h.filling hlt
  obtain ⟨hlink, hin, hout⟩ := otg_txfifo_handler_spec hi.tx hon hmsk
  have hs : s.otg_txfifo_handler =
      s.putPacket (min (s.usbp.inState.txsize - s.usbp.inState.txcnt) EP1_MAXSIZE) := by
    simp only [otg_txfifo_handler, hfifo, fillFifo_empty hlt rfl]
    rfl
  have hserved : Served s s.otg_txfifo_handler :=
    ⟨hi.of_tx hlink hin hout, hlink, hin, rfl, rfl, rfl⟩
  refine ⟨_, ⟨?_, rfl⟩, hserved, hserved.owed_lt rfl ?_⟩
  · rw [enabled, hon, hmsk]
    rfl
  · have hsize : s.usbp.inState.txsize ≠ 0 := Nat.ne_of_gt (Nat.zero_lt_of_lt hlt)
    rw [hs]
    simp [rank, putPacket, ht, hx, hfifo, hsize]

/-- The host takes a packet of a transfer. -/
theorem serve_packet (hi : s.Inv) {acked : ℕ}
    (h : s.outSide.Sending acked) {packet : List UInt8} (hfifo : s.otg.ie.fifo = [packet])
    (hlen : packet.length = min (s.usbp.inState.txsize - acked) EP1_MAXSIZE) :
    ∃ s', USBStep s .inPacket s' ∧ Served s s' ∧ s'.owed < s.owed := by
  have hen : s.otg.ie.epena = true := h.epena
  have hlt : acked < s.usbp.inState.txsize := h.acked_lt
  have hpos : 0 < packet.length := by
    rw [hlen]
    exact Nat.lt_min.mpr ⟨Nat.sub_pos_of_lt hlt, by decide⟩
  obtain ⟨hlink, hin, hout⟩ := sendPacket_spec hi.tx hen (.inl (by rw [hfifo]; exact List.cons_ne_nil _ _))
  have hserved : Served s s.sendPacket := ⟨hi.of_tx hlink hin hout, hlink, hin, rfl, rfl, rfl⟩
  refine ⟨_, ⟨?_, rfl⟩, hserved, ?_⟩
  · rw [enabled, hen, hfifo]
    rfl
  · -- The bytes of the packet outweigh the rank of any state.
    have hreached : s.session.received.flatten.length + packet.length ≤ s.outSide.written.length := by
      have hprefix := hi.tx.core.base.reached.length_le
      rw [gone, show s.outSide.ie.fifo = [packet] from hfifo, List.length_append,
        List.flatten_singleton] at hprefix
      exact hprefix
    have hrec : s.sendPacket.session.received.flatten.length =
        s.session.received.flatten.length + packet.length := by
      show (s.session.received ++ [s.otg.ie.fifo.headD []]).flatten.length = _
      rw [hfifo, List.flatten_append, List.length_append, List.flatten_singleton]
      rfl
    have hrank := s.sendPacket.rank_le
    have hrank' := s.rank_pos
    rw [owed, owed, hserved.written, hrec]
    omega

/-- The host takes the packet that ends a transfer of whole packets. -/
theorem serve_ending (hi : s.Inv) (h : s.outSide.Ending) (hen : s.otg.ie.epena = true) :
    ∃ s', USBStep s .inPacket s' ∧ Served s s' ∧ s'.owed < s.owed := by
  have ht : s.usbp.transmitting = true := h.transmitting
  have hsize : s.usbp.inState.txsize = 0 := h.txsize
  have hfifo : s.otg.ie.fifo = [] := h.fifo
  rcases h.running with ⟨-, hx, hpkt, hsiz⟩ | ⟨hen', -⟩
  · have hx' : s.otg.ie.xfrc = false := hx
    have hpkt' : s.otg.ie.pktcnt = 1 := hpkt
    have hsiz' : s.otg.ie.xfrsiz = 0 := hsiz
    obtain ⟨hlink, hin, hout⟩ := sendPacket_spec hi.tx hen (.inr hsiz')
    have hserved : Served s s.sendPacket := ⟨hi.of_tx hlink hin hout, hlink, hin, rfl, rfl, rfl⟩
    refine ⟨_, ⟨?_, rfl⟩, hserved, hserved.owed_lt ?_ ?_⟩
    · rw [enabled, hen, hsiz']
      exact Bool.or_true _
    · show (s.session.received ++ [s.otg.ie.fifo.headD []]).flatten = _
      rw [hfifo]
      simp
    · simp [rank, sendPacket, ht, hsize, hx', hpkt']
  · exact Bool.noConfusion (hen.symm.trans hen')

/-- The interrupt of a completed transfer: the next one starts, or none does. -/
theorem serve_complete (hi : s.Inv) (hon : s.otg.daintmsk = true) (hx : s.otg.ie.xfrc = true) :
    ∃ s', USBStep s .inComplete s' ∧ Served s s' ∧ s'.owed < s.owed := by
  obtain ⟨s', hs', hlink, hin, hout⟩ := otg_epin_handler_spec hi.tx hon hx
  have he : s.enabled .inComplete = true := by
    rw [enabled, hon, hx]
    rfl
  obtain ⟨q, hc⟩ := completed hi.tx hon hx
  have hnext : (s.doneTransmitting q).transmitNext s.usbp.inState.txsize = some s' :=
    hc.next.symm.trans hs'
  have hrank : s.rank = if s.usbp.inState.txsize = 0 then 4 else 6 := by
    simp [rank, hc.transmitting, hx]
  -- Without a buffer to send there is none in transfer, and an empty packet is not followed
  -- by another.
  have hlt : s'.rank < s.rank ∧ s'.writer = s.writer ∧ s'.session = s.session := by
    rcases transmitNext_started hc.base.queue hnext with rfl | ⟨n, hn, hstarted⟩
    · refine ⟨?_, rfl, rfl⟩
      have hdone : (s.doneTransmitting q).rank = 3 := if_pos rfl
      rw [hdone, hrank]
      split_ifs <;> decide
    · refine ⟨?_, hstarted.thread⟩
      rw [rank_started hstarted rfl hc.fifo, hrank]
      split_ifs with hz hz'
      · exact absurd hz' (Nat.ne_of_gt (hn hz))
      · decide
      · decide
      · decide
  have hserved : Served s s' := ⟨hi.of_tx hlink hin hout, hlink, hin, hlt.2.1, by rw [hlt.2.2],
    by rw [hlt.2.2]⟩
  exact ⟨s', ⟨he, hs'⟩, hserved, hserved.owed_lt (by rw [hlt.2.2]) hlt.1⟩

/-- Until everything is with the host, some step that serves it brings that nearer. -/
theorem serve (hi : s.Inv) (hon : s.otg.daintmsk = true) (hnot : ¬ s.Drained) :
    ∃ a ∈ serving, ∃ s', USBStep s a s' ∧ Served s s' ∧ s'.owed < s.owed := by
  cases hi.tx.core.phase hon with
  | idle h =>
    have hne := (not_and.mp hnot) h.transmitting
    exact ⟨.sof, by simp [serving], serve_idle hi hon h hne⟩
  | sending acked h =>
    rcases h.fifo with hnil | ⟨packet, hp, hlen⟩
    · exact ⟨.fifoEmpty, by simp [serving], serve_fill hi hon h hnil⟩
    · exact ⟨.inPacket, by simp [serving], serve_packet hi h hp hlen⟩
  | sent h => exact ⟨.inComplete, by simp [serving], serve_complete hi hon h.xfrc⟩
  | ending h =>
    rcases h.running with ⟨hen, -⟩ | ⟨-, hx, -⟩
    · exact ⟨.inPacket, by simp [serving], serve_ending hi h hen⟩
    · exact ⟨.inComplete, by simp [serving], serve_complete hi hon hx⟩

/-- Serving the host ends, with everything delivered. -/
theorem drain (hi : s.Inv) (hon : s.otg.daintmsk = true) :
    ∃ tr s', Run USBStep s tr s' ∧ (∀ p ∈ tr, p.2 ∈ serving) ∧ Served s s' ∧ s'.Drained := by
  induction hn : s.owed using Nat.strong_induction_on generalizing s with
  | _ n ih =>
    subst hn
    by_cases hd : s.Drained
    · exact ⟨[], s, .nil, by simp, .refl hi, hd⟩
    · obtain ⟨a, ha, s₁, hstep, hserved, hlt⟩ := serve hi hon hd
      obtain ⟨tr, s', hr, hall, hserved', hd'⟩ :=
        ih _ hlt hserved.inv (hserved.on.trans hon) rfl
      refine ⟨_, s', (Run.single hstep).append hr, ?_, hserved.trans hserved', hd'⟩
      rw [List.forall_mem_append, List.forall_mem_singleton]
      exact ⟨ha, hall⟩

/-! ### Calls of the thread -/

/-- Starting to receive leaves the queue and the thread alone. -/
theorem sdu_start_receive_frame (h : s.sdu_start_receive = some s') :
    s'.ibqueue = s.ibqueue ∧ s'.reader = s.reader ∧ s'.session = s.session := by
  rw [sdu_start_receive] at h
  split_ifs at h
  · obtain rfl := Option.some.inj h
    exact ⟨rfl, rfl, rfl⟩
  · obtain rfl := Option.some.inj h
    exact ⟨rfl, rfl, rfl⟩
  · cases hget : s.ibqueue.ibqGetEmptyBufferI with
    | none =>
      rw [hget] at h
      obtain rfl := Option.some.inj h
      exact ⟨rfl, rfl, rfl⟩
    | some buf =>
      rw [hget] at h
      dsimp only at h
      rw [usbStartReceiveI] at h
      split_ifs at h
      obtain rfl := Option.some.inj h
      exact ⟨rfl, rfl, rfl⟩

theorem obnotify_frame (hq : s.obqueue.OutOk) (hlt : s.obqueue.bcounter < s.obqueue.bn)
    (h : s.obnotify = some s') : s'.writer = s.writer ∧ s'.session = s.session := by
  rw [obnotify] at h
  split_ifs at h
  · obtain rfl := Option.some.inj h
    exact ⟨rfl, rfl⟩
  · obtain rfl := Option.some.inj h
    exact ⟨rfl, rfl⟩
  · obtain ⟨n, -, hstarted⟩ := transmitFull_started hq hlt h
    exact hstarted.thread

/-- A pass of a call of this session moves bytes when there are any. -/
theorem readPass_moves (hi : s.Inv) (hon : s.otg.daintmsk = true) {call : ReadCall}
    (hcall : s.reader = some call) (hlog : s.session.reads ≠ []) (hany : s.ibqueue.unread ≠ []) :
    ∃ bytes s', USBStep s .readPass s' ∧ s'.Inv ∧ bytes ≠ [] ∧ bytes.length ≤ call.left ∧
      s.ibqueue.unread = bytes ++ s'.ibqueue.unread ∧ s'.session = s.session.read bytes ∧
      s'.reader = (if call.left ≤ bytes.length then none
        else some ⟨call.left - bytes.length, call.bytes ++ bytes⟩) ∧
      s'.link = s.link ∧ s'.outSide = s.outSide := by
  have hc := hi.rx.core
  have he : s.enabled .readPass = true := by
    rw [enabled, hcall]
    rfl
  have hcnt : s.ibqueue.bcounter ≠ 0 := by
    intro hz
    apply hany
    rw [IoBuffersQueue.unread_eq, hz]
    exact List.drop_nil
  obtain ⟨s', hs', hlink, hout, hin⟩ := readPass_spec hi.link hi.rx hcall
  obtain ⟨r, hr, hpassed⟩ := hc.queue.readPass (hc.reader.left call hcall)
  have hact : s.act .readPass = some s' := by
    rw [act, hcall]
    exact hs'
  rw [readPass, show s.ibqueue.ibqReadPass call.left = some r from hr] at hs'
  cases hpassed with
  | @moved bytes notify q htook hw =>
    have hframe : s'.ibqueue = q ∧ s'.reader = (s.tookBytes call bytes q).reader ∧
        s'.session = s.session.read bytes := by
      cases notify with
      | true => exact sdu_start_receive_frame (s := s.tookBytes call bytes q) hs'
      | false =>
        obtain rfl := Option.some.inj hs'
        exact ⟨rfl, rfl, rfl⟩
    refine ⟨bytes, s', ⟨he, hact⟩, hi.of_rx hlink hout hin, List.ne_nil_of_length_pos htook.some_moved,
      htook.length_le, ?_, hframe.2.2, hframe.2.1, hlink, hout⟩
    rw [hframe.1]
    exact htook.unread
  | reset _ hwhy =>
    cases hwhy with
    | @told msg h hmsg =>
      cases msg with
      | MSG_OK => exact absurd rfl hmsg
      | MSG_TIMEOUT => exact absurd h hc.reader.no_timeout
      | MSG_RESET => exact absurd h (hc.reader.awake hon hlog)
    | suspended h => exact Bool.noConfusion (h.symm.trans (hc.resumed hon))
  | wait _ _ _ hwhy =>
    rcases hwhy with hwait | ⟨hz, -⟩
    · exact absurd (hc.reader.asleep hwait).1 hcnt
    · exact absurd hz hcnt

/-- A call returns the next bytes once they are there. -/
theorem readPasses_return (hi : s.Inv) (hon : s.otg.daintmsk = true) {call : ReadCall}
    (hcall : s.reader = some call) {done : List (ℕ × List UInt8)} {n : ℕ} {got : List UInt8}
    (hlog : s.session.reads = done ++ [(n, got)]) (hle : call.left ≤ s.ibqueue.unread.length) :
    ∃ tr s', Run USBStep s tr s' ∧ (∀ p ∈ tr, p.2 = .readPass) ∧ s'.Inv ∧ s'.reader = none ∧
      s'.session = { s.session with reads := done ++ [(n, got ++ s.ibqueue.unread.take call.left)] } ∧
      s'.ibqueue.unread = s.ibqueue.unread.drop call.left ∧
      s'.link = s.link ∧ s'.outSide = s.outSide := by
  induction hk : call.left using Nat.strong_induction_on generalizing s call got with
  | _ k ih =>
    subst hk
    have hleft : 0 < call.left := hi.rx.core.reader.left call hcall
    have hne : s.session.reads ≠ [] := by
      rw [hlog]
      simp
    obtain ⟨bytes, s₁, hstep, hi₁, hbytes, hlen, hunread, hsession, hreader, hlink, hout⟩ :=
      readPass_moves hi hon hcall hne (List.ne_nil_of_length_pos (Nat.lt_of_lt_of_le hleft hle))
    have hlog₁ : s₁.session = { s.session with reads := done ++ [(n, got ++ bytes)] } := by
      rw [hsession, USBSession.read, hlog, appendLast_snoc]
    have hon₁ : s₁.otg.daintmsk = true := (congrArg SerialLink.on hlink).trans hon
    by_cases hend : call.left ≤ bytes.length
    · have heq : bytes.length = call.left := Nat.le_antisymm hlen hend
      refine ⟨_, s₁, Run.single hstep, by simp, hi₁, by rw [hreader, if_pos hend], ?_, ?_, hlink, hout⟩
      · rw [hlog₁, hunread, ← heq, List.take_left]
      · rw [hunread, ← heq, List.drop_left]
    · rw [if_neg hend] at hreader
      have hpos := List.length_pos_iff.mpr hbytes
      have hle₁ : call.left - bytes.length ≤ s₁.ibqueue.unread.length := by
        rw [hunread, List.length_append] at hle
        omega
      obtain ⟨tr, s', hr, hall, hi', hnone, hsession', hunread', hlink', hout'⟩ :=
        ih (call.left - bytes.length) (by omega) hi₁ hon₁ hreader (by rw [hlog₁]) hle₁ rfl
      have hsplit : call.left = bytes.length + (call.left - bytes.length) := by omega
      refine ⟨_, s', (Run.single hstep).append hr, ?_, hi', hnone, ?_, ?_, hlink'.trans hlink,
        hout'.trans hout⟩
      · rw [List.forall_mem_append, List.forall_mem_singleton]
        exact ⟨rfl, hall⟩
      · rw [hsession', hlog₁, hunread, hsplit, List.take_length_add_append, List.append_assoc,
          Nat.add_sub_cancel_left]
      · rw [hunread', hunread, hsplit, List.drop_length_add_append, Nat.add_sub_cancel_left]

/-- A pass of a call of this session moves bytes when there is room. -/
theorem writePass_moves (hi : s.Inv) (hon : s.otg.daintmsk = true) {bytes : List UInt8}
    (hcall : s.writer = some bytes) (hlog : s.session.writes ≠ []) (hroom : s.obqueue.bcounter ≠ 0) :
    ∃ moved s', USBStep s .writePass s' ∧ s'.Inv ∧ moved ≠ [] ∧ moved <+: bytes ∧
      s'.session = s.session.wrote moved ∧
      s'.writer = (if bytes.length ≤ moved.length then none else some (bytes.drop moved.length)) ∧
      s'.link = s.link ∧ s'.inSide = s.inSide := by
  have hb := hi.tx.core.base
  have he : s.enabled .writePass = true := by
    rw [enabled, hcall]
    rfl
  obtain ⟨s', hs', hlink, hin, hout⟩ := writePass_spec hi.link hi.tx hcall
  obtain ⟨r, hr, hpassed⟩ := hb.queue.writePass (hb.writer.left bytes hcall)
  have hact : s.act .writePass = some s' := by
    rw [act, hcall]
    exact hs'
  rw [writePass, show s.obqueue.obqWritePass bytes = some r from hr] at hs'
  cases hpassed with
  | @moved moved notify q hput hw =>
    have hframe : s'.writer = (s.putBytes bytes moved q).writer ∧
        s'.session = s.session.wrote moved := by
      cases notify with
      | true =>
        obtain ⟨b, hfull⟩ := hput.full
        refine obnotify_frame (s := s.putBytes bytes moved q) hput.ok ?_ hs'
        refine Nat.lt_of_le_of_ne hput.ok.counter (hput.ok.obqFull_eq_nil_iff.not.mp ?_)
        rw [hfull]
        simp
      | false =>
        obtain rfl := Option.some.inj hs'
        exact ⟨rfl, rfl⟩
    exact ⟨moved, s', ⟨he, hact⟩, hi.of_tx hlink hin hout, List.ne_nil_of_length_pos hput.some_moved,
      hput.is_prefix, hframe.2, hframe.1, hlink, hin⟩
  | reset _ hwhy =>
    cases hwhy with
    | @told msg h hmsg =>
      cases msg with
      | MSG_OK => exact absurd rfl hmsg
      | MSG_TIMEOUT => exact absurd h hb.writer.no_timeout
      | MSG_RESET => exact absurd h (hb.writer.awake hon hlog)
    | suspended h => exact Bool.noConfusion (h.symm.trans (hb.resumed hon))
  | wait _ _ _ hwhy =>
    rcases hwhy with hwait | ⟨hz, -⟩
    · exact absurd (hb.writer.asleep hwait).1 hroom
    · exact absurd hz hroom

/-- With everything delivered, all buffers are empty. -/
theorem Drained.room (h : s.Drained) (hi : s.Inv) (hon : s.otg.daintmsk = true) :
    s.obqueue.bcounter ≠ 0 := by
  have hempty : s.obqueue.bcounter = s.obqueue.bn := by
    refine (hi.tx.sends hon).resolve_left ?_
    rw [show s.outSide.transmitting = false from h.1]
    exact Bool.false_ne_true
  rw [hempty]
  exact Nat.ne_of_gt hi.tx.core.base.queue.bn_pos

/-- A call writes all it was given, and the host gets it, as long as it is served. -/
theorem writePasses_return (hi : s.Inv) (hon : s.otg.daintmsk = true) {bytes : List UInt8}
    (hcall : s.writer = some bytes) {done : List (List UInt8 × List UInt8)} {all put : List UInt8}
    (hlog : s.session.writes = done ++ [(all, put)]) :
    ∃ tr s', Run USBStep s tr s' ∧ (∀ p ∈ tr, p.2 ∈ .writePass :: serving) ∧ s'.Inv ∧
      s'.writer = none ∧ s'.session.carriedOut = s.session.carriedOut ∧
      s'.session.writes = done ++ [(all, put ++ bytes)] ∧ s'.link = s.link ∧
      s'.inSide = s.inSide ∧ s'.Drained := by
  induction hk : bytes.length using Nat.strong_induction_on generalizing s bytes put with
  | _ k ih =>
    subst hk
    -- First the buffers are emptied, so that there is room.
    obtain ⟨tr₁, s₁, hr₁, hall₁, hserved₁, hd₁⟩ := drain hi hon
    have hon₁ : s₁.otg.daintmsk = true := hserved₁.on.trans hon
    have hlog₁ : s₁.session.writes = done ++ [(all, put)] := hserved₁.writes.trans hlog
    have hne : s₁.session.writes ≠ [] := by
      rw [hlog₁]
      simp
    obtain ⟨moved, s₂, hstep, hi₂, hmoved, hprefix, hsession, hwriter, hlink₂, hin₂⟩ :=
      writePass_moves hserved₁.inv hon₁ (hserved₁.writer.trans hcall) hne
        (hd₁.room hserved₁.inv hon₁)
    have hon₂ : s₂.otg.daintmsk = true := (congrArg SerialLink.on hlink₂).trans hon₁
    have hsession₂ : s₂.session.carriedOut = s.session.carriedOut ∧
        s₂.session.writes = done ++ [(all, put ++ moved)] := by
      rw [hsession, USBSession.wrote, hlog₁, appendLast_snoc]
      exact ⟨hserved₁.carried, rfl⟩
    have hr₂ := hr₁.append (Run.single hstep)
    have hall₂ : ∀ p ∈ tr₁ ++ [(s₁, USBAct.writePass)], p.2 ∈ .writePass :: serving := by
      rw [List.forall_mem_append, List.forall_mem_singleton]
      exact ⟨fun p hp => List.mem_cons_of_mem _ (hall₁ p hp), List.mem_cons_self⟩
    by_cases hend : bytes.length ≤ moved.length
    · rw [if_pos hend] at hwriter
      have heq : moved = bytes := hprefix.eq_of_length_le hend
      -- And in the end emptied again.
      obtain ⟨tr₃, s₃, hr₃, hall₃, hserved₃, hd₃⟩ := drain hi₂ hon₂
      refine ⟨_, s₃, hr₂.append hr₃, ?_, hserved₃.inv, hserved₃.writer.trans hwriter,
        hserved₃.carried.trans hsession₂.1, ?_, hserved₃.link.trans (hlink₂.trans hserved₁.link),
        hserved₃.inSide.trans (hin₂.trans hserved₁.inSide), hd₃⟩
      · rw [List.forall_mem_append]
        exact ⟨hall₂, fun p hp => List.mem_cons_of_mem _ (hall₃ p hp)⟩
      · rw [hserved₃.writes, hsession₂.2, heq]
    · obtain ⟨rest, hrest⟩ := hprefix
      rw [if_neg hend, ← hrest, List.drop_left] at hwriter
      have hlt : rest.length < bytes.length := by
        rw [← hrest, List.length_append]
        exact Nat.lt_add_of_pos_left (List.length_pos_iff.mpr hmoved)
      obtain ⟨tr₃, s₃, hr₃, hall₃, hi₃, hnone, hcarried, hwrites, hlink₃, hin₃, hd₃⟩ :=
        ih rest.length hlt hi₂ hon₂ hwriter hsession₂.2 rfl
      refine ⟨_, s₃, hr₂.append hr₃, ?_, hi₃, hnone, hcarried.trans hsession₂.1, ?_,
        hlink₃.trans (hlink₂.trans hserved₁.link), hin₃.trans (hin₂.trans hserved₁.inSide), hd₃⟩
      · rw [List.forall_mem_append]
        exact ⟨hall₂, hall₃⟩
      · rw [hwrites, List.append_assoc, hrest]

/-! ### The stream as the command thread sees it -/

/-- What the host has sent and the thread has not read. -/
def streamed (s : SerialUSB) : List UInt8 := s.ibqueue.unread ++ s.inSide.partly

theorem sent_eq (hi : s.Inv) (hon : s.otg.daintmsk = true) :
    s.session.sent.flatten = s.inSide.readOut ++ s.streamed := by
  rw [streamed, ← List.append_assoc]
  exact (hi.rx.core.exact hon).symm

/-- A call for bytes that are in the queue returns them without waiting, as
`USBSerial::read` on the stream does. -/
theorem read_returns {tr : List (SerialUSB × USBAct)} (hr : USBRun tr s)
    (hon : s.otg.daintmsk = true) (hidle : s.reader = none) (hpos : 0 < n)
    (hle : n ≤ s.ibqueue.unread.length) :
    ∃ tr' s', Run USBStep s ((s, .read n) :: tr') s' ∧ (∀ p ∈ tr', p.2 = .readPass) ∧
      s'.reader = none ∧ s'.outSide = s.outSide ∧
      s'.session.reads = s.session.reads ++ [(n, s.ibqueue.unread.take n)] ∧
      ∀ d : Device, d.input = s.streamed →
        (USBSerial.read n).run d = .ok (s.ibqueue.unread.take n) (d.afterRead n) ∧
          (d.afterRead n).input = s'.streamed := by
  have hi := inv_of_run hr
  have he : s.enabled (.read n) = true := by
    rw [enabled, hidle, decide_eq_true hpos]
    rfl
  obtain ⟨s₁, hs₁, hi₁⟩ := act_spec hi he
  have hcalled : s₁ = { s with
      reader := some ⟨n, []⟩
      session := { s.session with reads := s.session.reads ++ [(n, [])] } } :=
    (Option.some.inj hs₁).symm
  have hstep : USBStep s (.read n) s₁ := ⟨he, hs₁⟩
  have hon₁ : s₁.otg.daintmsk = true := hcalled ▸ hon
  have hcall₁ : s₁.reader = some ⟨n, []⟩ := hcalled ▸ rfl
  have hlog₁ : s₁.session.reads = s.session.reads ++ [(n, [])] := hcalled ▸ rfl
  have hle₁ : n ≤ s₁.ibqueue.unread.length := hcalled ▸ hle
  have hq₁ : s₁.ibqueue = s.ibqueue := hcalled ▸ rfl
  obtain ⟨tr', s', hr', hall, hi', hnone, hsession, hunread, hlink, hout⟩ :=
    readPasses_return hi₁ hon₁ hcall₁ hlog₁ hle₁
  have hon' : s'.otg.daintmsk = true := (congrArg SerialLink.on hlink).trans hon₁
  -- Both sides count the same bytes of the host.
  have hstream : s.streamed = s.ibqueue.unread.take n ++ s'.streamed := by
    have hsent : s'.session.sent.flatten = s.session.sent.flatten := by
      rw [hsession, hcalled]
    have hread : s'.inSide.readOut = s.inSide.readOut ++ s.ibqueue.unread.take n := by
      show loggedBytes s'.session.carriedIn s'.session.reads = _
      rw [hsession, hcalled]
      simp [loggedBytes, InSide.readOut, inSide]
    rw [sent_eq hi' hon', sent_eq hi hon, hread, List.append_assoc] at hsent
    exact (List.append_cancel_left hsent).symm
  have hlen : (s.ibqueue.unread.take n).length = n := List.length_take_of_le hle
  refine ⟨tr', s', (Run.single hstep).append hr', hall, hnone, ?_, ?_, ?_⟩
  · rw [hout, hcalled]
    rfl
  · rw [hsession, hq₁]
    rfl
  · intro d hd
    have htake : d.input.take n = s.ibqueue.unread.take n := by
      rw [hd, hstream, List.take_left' hlen]
    refine ⟨?_, ?_⟩
    · rw [run_read, if_pos hpos, htake]
    · rw [Device.afterRead_input, hd, hstream, List.drop_left' hlen]

theorem read_returns_bothWays :
    ∃ tr s tr' s', USBRun tr s ∧ Run USBStep s ((s, .read 1) :: tr') s' ∧
      s'.session.reads = [(2, [1, 2]), (1, [3])] := by
  obtain ⟨tr, s, hr, hp⟩ := exists_run bothWays
    (fun s => s.otg.daintmsk && s.reader.isNone && s.ibqueue.unread == [3] &&
      s.session.reads == [(2, [1, 2])]) (by decide +kernel)
  simp only [Bool.and_eq_true, beq_iff_eq, Option.isNone_iff_eq_none] at hp
  obtain ⟨⟨⟨hon, hidle⟩, hunread⟩, hreads⟩ := hp
  obtain ⟨tr', s', hr', -, -, -, hlog, -⟩ :=
    read_returns hr hon hidle Nat.one_pos (le_of_eq (by rw [hunread]; rfl))
  rw [hreads, hunread] at hlog
  exact ⟨tr, s, tr', s', hr, hr', hlog⟩

/-- A call of `USBSerial::write` returns, and all its bytes reach the host behind those
written before, when nothing happens but that the host is served. -/
theorem write_reaches_host {tr : List (SerialUSB × USBAct)} {bytes : List UInt8} (hr : USBRun tr s)
    (hon : s.otg.daintmsk = true) (hidle : s.writer = none) (hne : bytes ≠ []) :
    ∃ tr' s', Run USBStep s ((s, .write bytes) :: tr') s' ∧
      (∀ p ∈ tr', p.2 ∈ .writePass :: serving) ∧ s'.writer = none ∧ s'.inSide = s.inSide ∧
      s'.session.writes = s.session.writes ++ [(bytes, bytes)] ∧
      s'.session.received.flatten = s.outSide.written ++ bytes := by
  have hi := inv_of_run hr
  have he : s.enabled (.write bytes) = true := by
    rw [enabled, hidle, List.isEmpty_eq_false_iff.mpr hne]
    rfl
  obtain ⟨s₁, hs₁, hi₁⟩ := act_spec hi he
  have hcalled : s₁ = { s with
      writer := some bytes
      session := { s.session with writes := s.session.writes ++ [(bytes, [])] } } :=
    (Option.some.inj hs₁).symm
  have hstep : USBStep s (.write bytes) s₁ := ⟨he, hs₁⟩
  have hon₁ : s₁.otg.daintmsk = true := hcalled ▸ hon
  have hcall₁ : s₁.writer = some bytes := hcalled ▸ rfl
  have hlog₁ : s₁.session.writes = s.session.writes ++ [(bytes, [])] := hcalled ▸ rfl
  obtain ⟨tr', s', hr', hall, hi', hnone, hcarried, hwrites, hlink, hin, hd⟩ :=
    writePasses_return hi₁ hon₁ hcall₁ hlog₁
  refine ⟨tr', s', (Run.single hstep).append hr', hall, hnone, ?_, hwrites, ?_⟩
  · rw [hin, hcalled]
    rfl
  · rw [hd.2]
    show loggedBytes s'.session.carriedOut s'.session.writes = _
    rw [hcarried, hwrites, hcalled]
    simp [loggedBytes, OutSide.written, outSide]

theorem write_reaches_host_bothWays :
    ∃ tr s tr' s', USBRun tr s ∧ Run USBStep s ((s, .write [6]) :: tr') s' ∧
      s'.session.received.flatten = [4, 5, 6] := by
  obtain ⟨tr, s, hr, hp⟩ := exists_run bothWays
    (fun s => s.otg.daintmsk && s.writer.isNone && s.outSide.written == [4, 5]) (by decide +kernel)
  simp only [Bool.and_eq_true, beq_iff_eq, Option.isNone_iff_eq_none] at hp
  obtain ⟨⟨hon, hidle⟩, hwritten⟩ := hp
  obtain ⟨tr', s', hr', -, -, -, -, hrec⟩ :=
    write_reaches_host hr hon hidle (List.cons_ne_nil 6 [])
  rw [hwritten] at hrec
  exact ⟨tr, s, tr', s', hr, hr', hrec⟩

end SerialUSB

end Stmdsp
