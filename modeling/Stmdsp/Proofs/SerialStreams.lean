import Stmdsp.Proofs.SerialBus

/-! Whole runs of the serial driver: every step that can happen is taken without a
failed assertion, and both streams keep their bytes in order, whatever the order of
packets, interrupts, bus events and passes of the thread. -/

namespace Stmdsp

namespace SerialUSB

variable {s s' : SerialUSB} {a : USBAct} {tr : List (SerialUSB × USBAct)}

theorem Inv.of_rx (hi : s.Inv) (hlink : s'.link = s.link) (hout : s'.outSide = s.outSide)
    (hin : s'.inSide.Inv) : s'.Inv :=
  ⟨hlink ▸ hi.link, hin, hout ▸ hi.tx⟩

theorem Inv.of_tx (hi : s.Inv) (hlink : s'.link = s.link) (hin : s'.inSide = s.inSide)
    (hout : s'.outSide.Inv) : s'.Inv :=
  ⟨hlink ▸ hi.link, hin ▸ hi.rx, hout⟩

/-- What can happen does not fail, and keeps the invariant. -/
theorem act_spec (hi : s.Inv) (he : s.enabled a = true) : ∃ s', s.act a = some s' ∧ s'.Inv := by
  cases a with
  | outPacket packet =>
    rw [enabled, Bool.and_eq_true, decide_eq_true_eq] at he
    obtain ⟨hlink, hout, hin⟩ := acceptPacket_spec hi.rx he.1 he.2
    exact ⟨_, rfl, hi.of_rx hlink hout hin⟩
  | outComplete =>
    rw [enabled, Bool.and_eq_true] at he
    obtain ⟨s', hs', hlink, hout, hin⟩ := otg_epout_handler_spec hi.link hi.rx he.1 he.2
    exact ⟨s', hs', hi.of_rx hlink hout hin⟩
  | fifoEmpty =>
    rw [enabled, Bool.and_eq_true] at he
    obtain ⟨hlink, hin, hout⟩ := otg_txfifo_handler_spec hi.tx he.1 he.2
    exact ⟨_, rfl, hi.of_tx hlink hin hout⟩
  | inPacket =>
    rw [enabled, Bool.and_eq_true, Bool.or_eq_true, Bool.not_eq_true', beq_iff_eq] at he
    have hany : s.otg.ie.fifo ≠ [] ∨ s.otg.ie.xfrsiz = 0 :=
      he.2.imp_left fun h hnil => by simp [hnil] at h
    obtain ⟨hlink, hin, hout⟩ := sendPacket_spec hi.tx he.1 hany
    exact ⟨_, rfl, hi.of_tx hlink hin hout⟩
  | inComplete =>
    rw [enabled, Bool.and_eq_true] at he
    obtain ⟨s', hs', hlink, hin, hout⟩ := otg_epin_handler_spec hi.tx he.1 he.2
    exact ⟨s', hs', hi.of_tx hlink hin hout⟩
  | sof =>
    obtain ⟨s', hs', hlink, hin, hout⟩ := sduSOFHookI_spec hi.link hi.tx
    exact ⟨s', hs', hi.of_tx hlink hin hout⟩
  | reset => exact ⟨_, rfl, usb_reset_spec hi⟩
  | suspend =>
    rw [enabled, bne_iff_ne] at he
    exact ⟨_, rfl, usb_suspend_spec hi he⟩
  | wakeup =>
    rw [enabled, beq_iff_eq] at he
    exact ⟨_, rfl, usb_wakeup_spec hi he⟩
  | setAddress =>
    rw [enabled, beq_iff_eq] at he
    exact ⟨_, rfl, setAddress_spec hi he⟩
  | setConfiguration value =>
    rw [enabled, bne_iff_ne] at he
    exact setConfiguration_spec hi he value
  | read n =>
    rw [enabled, Bool.and_eq_true, Option.isNone_iff_eq_none, decide_eq_true_eq] at he
    exact ⟨_, rfl, hi.of_rx rfl rfl (read_spec hi.rx he.1 he.2)⟩
  | readPass =>
    rw [enabled] at he
    obtain ⟨call, hcall⟩ := Option.isSome_iff_exists.mp he
    obtain ⟨s', hs', hlink, hout, hin⟩ := readPass_spec hi.link hi.rx hcall
    refine ⟨s', ?_, hi.of_rx hlink hout hin⟩
    rw [act, hcall]
    exact hs'
  | write bytes =>
    rw [enabled, Bool.and_eq_true, Option.isNone_iff_eq_none, Bool.not_eq_true',
      List.isEmpty_eq_false_iff] at he
    exact ⟨_, rfl, hi.of_tx rfl rfl (write_spec hi.tx he.1 (List.length_pos_iff.mpr he.2))⟩
  | writePass =>
    rw [enabled] at he
    obtain ⟨bytes, hcall⟩ := Option.isSome_iff_exists.mp he
    obtain ⟨s', hs', hlink, hin, hout⟩ := writePass_spec hi.link hi.tx hcall
    refine ⟨s', ?_, hi.of_tx hlink hin hout⟩
    rw [act, hcall]
    exact hs'

theorem begin_inv : SerialUSB.begin.Inv := by
  have hno : ∀ {p : Prop}, false = true → p := fun h => Bool.noConfusion h
  have hsize : 0 < SERIAL_USB_BUFFERS_SIZE := by decide
  have hnum : 0 < SERIAL_USB_BUFFERS_NUMBER := by decide
  have hlink : SerialUSB.begin.link.epc = true ↔ SerialUSB.begin.link.state = .USB_ACTIVE ∨
      SerialUSB.begin.link.state = .USB_SUSPENDED ∧ SerialUSB.begin.link.saved = .USB_ACTIVE := by
    decide
  have hreader : SerialUSB.begin.inSide.ReaderOk :=
    ⟨fun _ => rfl, fun _ => rfl, fun _ h => (Option.some_ne_none _ h.symm).elim, hno, hno, by decide, by decide⟩
  have hwriter : SerialUSB.begin.outSide.WriterOk :=
    ⟨fun _ => rfl, fun _ => rfl, fun _ h => (Option.some_ne_none _ h.symm).elim, hno, hno, by decide, by decide⟩
  refine ⟨⟨rfl, hlink, by decide, hno⟩, ⟨⟨IoBuffersQueue.inOk_ibqObjectInit hsize hnum, rfl, rfl, hno,
    hno, hno, hno, hno, hno, hno, hno, List.prefix_rfl, hno, hreader, hno⟩, hno⟩,
    ⟨⟨⟨IoBuffersQueue.outOk_obqObjectInit hsize hnum, rfl, rfl, ?_, List.prefix_rfl, hno, hwriter,
      hno⟩, hno⟩, hno⟩⟩
  rintro (h | h | h) <;> exact hno h

theorem inv_of_run (hr : USBRun tr s) : s.Inv := by
  apply hr.invariant begin_inv
  rintro s a s' hi ⟨he, hs'⟩
  obtain ⟨t, ht, hinv⟩ := act_spec hi he
  rw [ht] at hs'
  obtain rfl := Option.some.inj hs'
  exact hinv

/-! ### Safety of every run -/

theorem exists_run (acts : List USBAct) (p : SerialUSB → Bool)
    (h : (acts.foldlM step SerialUSB.begin).any p = true) : ∃ tr s, USBRun tr s ∧ p s = true := by
  obtain ⟨tr, s, hr, -, hp⟩ := Run.exists_of_foldlM (fun _ _ _ => step_eq_some) acts p h
  exact ⟨tr, s, hr, hp⟩

/-- The device enumerated, with bytes sent both ways and a transfer of whole packets in
progress. -/
def bothWays : List USBAct :=
  [.reset, .setAddress, .setConfiguration 1, .outPacket [1, 2, 3], .outComplete, .read 2, .readPass,
    .outPacket (List.replicate 64 9), .write [4, 5], .writePass, .sof, .fifoEmpty, .inPacket]

/-- When the device falls silent, the host's last packet is a short one, which ends the
transfer there too: no byte waits at the host for a packet that does not come. -/
theorem silence_ends_transfers (hr : USBRun tr s) (hon : s.otg.daintmsk = true)
    (ht : s.usbp.transmitting = false) :
    s.otg.ie.fifo = [] ∧ ∀ packet, s.session.received.getLast? = some packet →
      packet.length < EP1_MAXSIZE := by
  have hidle := phase_quiet ((inv_of_run hr).tx.core.phase hon) ht
  exact ⟨hidle.fifo, hidle.ended⟩

/-- A buffer of whole packets, with the empty packet behind it. -/
def wholePackets : List USBAct :=
  [.reset, .setAddress, .setConfiguration 1, .write (List.replicate 64 7), .writePass, .sof,
    .fifoEmpty, .inPacket, .inComplete, .inPacket, .inComplete]

theorem silence_ends_transfers_wholePackets :
    ∃ tr s, USBRun tr s ∧ s.session.received = [List.replicate 64 7, []] ∧
      ∀ packet, s.session.received.getLast? = some packet → packet.length < EP1_MAXSIZE := by
  obtain ⟨tr, s, hr, hp⟩ := exists_run wholePackets
    (fun s => s.otg.daintmsk && !s.usbp.transmitting &&
      s.session.received == [List.replicate 64 7, []]) (by decide +kernel)
  rw [Bool.and_eq_true, Bool.and_eq_true, Bool.not_eq_true', beq_iff_eq] at hp
  exact ⟨tr, s, hr, hp.2, (silence_ends_transfers hr hp.1.1 hp.1.2).2⟩

end SerialUSB

end Stmdsp
