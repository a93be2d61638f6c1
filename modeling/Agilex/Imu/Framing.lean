import Agilex.Imu.Packet

/-!
# Frames are decoded

* **Bound** (`feed_framed`): no stream of bytes makes the decoder store outside `buf`.
* **Round trip** (`feed_encode`): a frame that arrives in the idle state is handed over once, and the decoder is idle again.

The two together are `frames_decoded`. `Framed` is what every stream keeps; `Filling` is the decoder amid a payload.
-/

namespace Agilex.Imu

open Agilex.Lib

variable {d d' : Decoder}

/-! ## What every stream keeps -/

/-- **The invariant of the decoder**: the sync bytes stay in its header, frames have their type, and there is room for
the next byte. -/
structure Framed (d : Decoder) : Prop where
  sync : d.crcHeader.toList.take 2 = [0x5A, 0xA5]
  type : d.status ≠ .idle → d.status ≠ .cmd → d.pkt.type = 0xA5
  room : d.status = .data → d.pkt.ofs.toNat < maxPacketLen

theorem Framed.init : Framed .init := ⟨rfl, fun h => absurd rfl h, fun h => by cases h⟩

/-- A store in bounds. -/
theorem store_eq (c : UInt8) {p : Packet} (h : p.ofs.toNat < maxPacketLen) :
    p.store c = some { p with buf := p.buf.set p.ofs.toNat c h, ofs := p.ofs + 1 } := dif_pos h

/-- The offset after a store in bounds. -/
theorem ofs_succ {ofs : UInt32} (h : ofs.toNat < maxPacketLen) : (ofs + 1).toNat = ofs.toNat + 1 := by
  have hone : (1 : UInt32).toNat = 1 := rfl
  unfold maxPacketLen at h
  rw [UInt32.toNat_add, hone]
  omega

/-- The length bytes do not touch the sync bytes. -/
theorem sync_set {v : Vector UInt8 4} (h : v.toList.take 2 = [0x5A, 0xA5]) (i : ℕ) (hi : i < 4) (h2 : 2 ≤ i) (c : UInt8) :
    (v.set i c hi).toList.take 2 = [0x5A, 0xA5] := by
  rw [Vector.toList_set, List.take_set_of_le h2]
  exact h

/-- **What a stored byte of a frame does**: overflow the packet, end it, or nothing more. -/
theorem stored_cases (ht : d.pkt.type = 0xA5) :
    maxPacketLen ≤ d.pkt.ofs.toNat ∧ d.stored = (chErr, { d with status := .idle }) ∨
    d.pkt.ofs.toNat < maxPacketLen ∧ d.pkt.payloadLen.toNat ≤ d.pkt.ofs.toNat ∧ d.stored = (chOk, d.checkCrc) ∨
    d.pkt.ofs.toNat < maxPacketLen ∧ d.pkt.ofs.toNat < d.pkt.payloadLen.toNat ∧ d.stored = (chOk, d) := by
  have hne : ¬(d.pkt.type = 0xA7 ∧ 8 ≤ d.pkt.ofs) := by
    rw [ht]
    exact fun h => absurd h.1 (by decide)
  unfold Decoder.stored
  simp only [if_neg hne]
  by_cases hfull : maxPacketLen ≤ d.pkt.ofs.toNat
  · exact Or.inl ⟨hfull, if_pos hfull⟩
  · rw [if_neg hfull]
    by_cases hend : d.pkt.payloadLen.toNat ≤ d.pkt.ofs.toNat
    · exact Or.inr (Or.inl ⟨not_le.1 hfull, hend, if_pos ⟨hend, ht⟩⟩)
    · exact Or.inr (Or.inr ⟨not_le.1 hfull, not_le.1 hend, if_neg fun h => hend h.1⟩)

theorem checkCrc_status (d : Decoder) : d.checkCrc.status = .idle := rfl

theorem checkCrc_header (d : Decoder) : d.checkCrc.crcHeader = d.crcHeader := by
  unfold Decoder.checkCrc
  simp only
  split <;> rfl

/-- Between frames only the sync bytes matter. -/
theorem Framed.ofIdle (hs : d.status = .idle) (h : d.crcHeader.toList.take 2 = [0x5A, 0xA5]) : Framed d :=
  ⟨h, fun hne => absurd hs hne, fun hd => by rw [hs] at hd; cases hd⟩

theorem Framed.stored (h : d.crcHeader.toList.take 2 = [0x5A, 0xA5]) (ht : d.pkt.type = 0xA5) : Framed d.stored.2 := by
  rcases stored_cases ht with ⟨-, hs⟩ | ⟨-, -, hs⟩ | ⟨hroom, -, hs⟩ <;> rw [hs]
  · exact Framed.ofIdle rfl h
  · exact Framed.ofIdle rfl (by rw [checkCrc_header]; exact h)
  · exact ⟨h, fun _ _ => ht, fun _ => hroom⟩

/-- **No byte makes the decoder store outside `buf`.** -/
theorem Framed.next (h : Framed d) (c : UInt8) : ∃ d', d.next c = some d' ∧ Framed d' := by
  have ht : d.status ≠ .idle → d.status ≠ .cmd → d.pkt.type = 0xA5 := h.type
  unfold Decoder.next packetDecode
  cases hs : d.status with
  | idle =>
    refine ⟨_, rfl, ?_⟩
    split
    · exact ⟨h.sync, fun _ h => absurd rfl h, fun h => by cases h⟩
    · exact Framed.ofIdle hs h.sync
  | cmd =>
    refine ⟨_, rfl, ?_⟩
    simp only
    split
    · rename_i hc
      exact ⟨h.sync, fun _ _ => hc, fun h => by cases h⟩
    · exact ⟨h.sync, fun _ h => absurd rfl h, fun h => by cases h⟩
  | lenLow =>
    rw [hs] at ht
    exact ⟨_, rfl, sync_set h.sync 2 (by omega) le_rfl c, fun _ _ => ht (by decide) (by decide), fun h => by cases h⟩
  | lenHigh =>
    rw [hs] at ht
    exact ⟨_, rfl, sync_set h.sync 3 (by omega) (by omega) c, fun _ _ => ht (by decide) (by decide), fun h => by cases h⟩
  | crcLow =>
    rw [hs] at ht
    exact ⟨_, rfl, h.sync, fun _ _ => ht (by decide) (by decide), fun h => by cases h⟩
  | crcHigh =>
    rw [hs] at ht
    exact ⟨_, rfl, h.sync, fun _ _ => ht (by decide) (by decide), fun _ => (by decide : 0 < maxPacketLen)⟩
  | data =>
    rw [hs] at ht
    simp only [store_eq c (h.room hs), Option.map_some]
    exact ⟨_, rfl, Framed.stored h.sync (ht (by decide) (by decide))⟩

/-- **No stream of bytes makes the decoder store outside `buf`.** -/
theorem feed_framed (h : Framed d) (bs : List UInt8) : ∃ d', feed bs d = some d' ∧ Framed d' := by
  induction bs generalizing d with
  | nil => exact ⟨d, rfl, h⟩
  | cons b bs ih =>
    obtain ⟨d₁, h₁, hd₁⟩ := h.next b
    obtain ⟨d₂, h₂, hd₂⟩ := ih hd₁
    exact ⟨d₂, by rw [feed, Machine.run, h₁]; exact h₂, hd₂⟩

theorem Framed.of_next (h : Framed d) {c : UInt8} (hn : d.next c = some d') : Framed d' := by
  obtain ⟨d₁, hd₁, hframed⟩ := h.next c
  obtain rfl : d' = d₁ := Option.some.inj (hn.symm.trans hd₁)
  exact hframed

theorem Framed.of_feed (h : Framed d) {bs : List UInt8} (hd : feed bs d = some d') : Framed d' :=
  Machine.run_invariant (fun _ _ _ hf hn => Framed.of_next hf hn) h hd

/-- A byte of the payload is stored. -/
theorem next_data {pkt : Packet} {c : UInt8} (hs : d.status = .data) (h : d.pkt.store c = some pkt) :
    d.next c = some ({ d with pkt := pkt } : Decoder).stored.2 := by
  simp only [Decoder.next, packetDecode, hs, h, Option.map_some]

/-! ## What is handed over -/

theorem checkCrc_received (d : Decoder) :
    d.checkCrc.received = d.received ∨ d.checkCrc.received = d.received ++ [d.pkt] := by
  unfold Decoder.checkCrc
  simp only
  split
  · exact Or.inr rfl
  · exact Or.inl rfl

/-- A stored byte hands over at most the packet, which fits into `buf` then. -/
theorem stored_received (ht : d.pkt.type = 0xA5) :
    d.stored.2.received = d.received ∨
      ∃ p, d.stored.2.received = d.received ++ [p] ∧ p.type = 0xA5 ∧ p.payloadLen.toNat < maxPacketLen := by
  rcases stored_cases ht with ⟨-, hs⟩ | ⟨hroom, hend, hs⟩ | ⟨-, -, hs⟩ <;> rw [hs]
  · exact Or.inl rfl
  · exact (checkCrc_received d).imp_right fun hrec => ⟨d.pkt, hrec, ht, by omega⟩
  · exact Or.inl rfl

/-- A byte hands over at most one packet: one of a frame, that fits into `buf`. -/
theorem next_received (h : Framed d) {c : UInt8} (hn : d.next c = some d') :
    d'.received = d.received ∨
      ∃ p, d'.received = d.received ++ [p] ∧ p.type = 0xA5 ∧ p.payloadLen.toNat < maxPacketLen := by
  cases hs : d.status with
  | data =>
    have ht : d.pkt.type = 0xA5 := h.type (by simp [hs]) (by simp [hs])
    obtain rfl := Option.some.inj (hn.symm.trans (next_data hs (store_eq c (h.room hs))))
    exact stored_received ht
  | idle | cmd =>
    simp only [Decoder.next, packetDecode, hs, Option.map_some, Option.some.injEq] at hn
    subst hn
    left
    split <;> rfl
  | lenLow | lenHigh | crcLow | crcHigh =>
    simp only [Decoder.next, packetDecode, hs, Option.map_some, Option.some.injEq] at hn
    subst hn
    exact Or.inl rfl

/-- **Every packet handed over** is one of a frame and fits into `buf`. -/
theorem received_packets {stream : List UInt8} (hd : feed stream .init = some d) {p : Packet} (hp : p ∈ d.received) :
    p.type = 0xA5 ∧ p.payloadLen.toNat < maxPacketLen := by
  have hkeep : Framed d ∧ ∀ p ∈ d.received, p.type = 0xA5 ∧ p.payloadLen.toNat < maxPacketLen := by
    refine Machine.run_invariant (P := fun d => Framed d ∧ ∀ p ∈ d.received, p.type = 0xA5 ∧ p.payloadLen.toNat < maxPacketLen)
      ?_ ⟨.init, by simp [Decoder.init]⟩ hd
    rintro c d d' ⟨hf, hall⟩ hn
    refine ⟨hf.of_next hn, ?_⟩
    rcases next_received hf hn with hrec | ⟨q, hrec, hq⟩ <;> rw [hrec]
    · exact hall
    · intro p hp
      rcases List.mem_append.1 hp with hp | hp
      · exact hall p hp
      · obtain rfl := List.mem_singleton.1 hp
        exact hq
  exact hkeep.2 p hp

/-! ## A frame -/

/-- The two bytes of a word, put together again. -/
theorem join_bytes (x : UInt16) : x.toUInt8.toUInt16 ||| (x >>> 8).toUInt8.toUInt16 <<< 8 = x := by
  apply UInt16.toNat_inj.1
  have hlt := x.toNat_lt
  have hhigh : x.toNat / 256 % 256 * 256 % 65536 = (x.toNat / 256) <<< 8 := by
    rw [Nat.shiftLeft_eq]
    omega
  have hjoin : x.toNat / 256 % 256 * 256 % 65536 ||| x.toNat % 256 = x.toNat := by
    rw [hhigh, ← Nat.shiftLeft_add_eq_or_of_lt (by omega : x.toNat % 256 < 2 ^ 8), Nat.shiftLeft_eq]
    omega
  rw [Nat.or_comm] at hjoin
  simpa [Nat.shiftRight_eq_div_pow, Nat.shiftLeft_eq] using hjoin

/-- The header of a frame and its CRC. -/
theorem feed_header (hs : d.status = .idle) (n : ℕ) (crc : UInt16) :
    feed (header n ++ [crc.toUInt8, (crc >>> 8).toUInt8]) d = some (d.expecting n crc) := by
  have h := feed_six hs (UInt16.ofNat n).toUInt8 (UInt16.ofNat n >>> 8).toUInt8 crc.toUInt8 (crc >>> 8).toUInt8
  rw [join_bytes, join_bytes] at h
  exact h

/-- The header bytes the CRC is taken over. -/
theorem expecting_header (h : d.crcHeader.toList.take 2 = [0x5A, 0xA5]) (n : ℕ) (crc : UInt16) :
    (d.expecting n crc).crcHeader.toList = header n := by
  have hlen : d.crcHeader.toList.length = 4 := Vector.length_toList
  simp only [Decoder.expecting, Vector.toList_set, header]
  match hl : d.crcHeader.toList, hlen with
  | [a, b, c, e], _ =>
    rw [hl] at h
    simpa using h

/-- **Amid a payload**: `done` is stored and `rest` is to come. -/
structure Filling (done rest : List UInt8) (d : Decoder) : Prop where
  status : d.status = .data
  type : d.pkt.type = 0xA5
  total : d.pkt.payloadLen.toNat = (done ++ rest).length
  small : (done ++ rest).length < maxPacketLen
  ofs : d.pkt.ofs.toNat = done.length
  stored : d.pkt.buf.toList.take done.length = done
  crc : crc16Update (crc16Update d.crcCalculated d.crcHeader.toList) (done ++ rest) = d.crcReceived

/-- The buffer up to the byte just stored. -/
theorem take_set (l : List UInt8) {i : ℕ} (hi : i < l.length) (c : UInt8) :
    (l.set i c).take (i + 1) = l.take i ++ [c] := by
  rw [List.take_add_one, List.take_set_of_le le_rfl, List.getElem?_set_self hi]
  rfl

/-- The byte is stored. -/
theorem Filling.store {done rest : List UInt8} {b : UInt8} (h : Filling done (b :: rest) d) :
    ∃ pkt, d.pkt.store b = some pkt ∧ pkt.payloadLen = d.pkt.payloadLen ∧
      Filling (done ++ [b]) rest { d with pkt := pkt } := by
  have hroom : d.pkt.ofs.toNat < maxPacketLen := by
    have := h.small
    rw [List.length_append, List.length_cons] at this
    rw [h.ofs]
    omega
  have hassoc : done ++ [b] ++ rest = done ++ b :: rest := by simp
  have hbuf : d.pkt.buf.toList.length = maxPacketLen := Vector.length_toList
  refine ⟨_, store_eq b hroom, rfl, h.status, h.type, ?_, ?_, ?_, ?_, ?_⟩
  · rw [hassoc]
    exact h.total
  · rw [hassoc]
    exact h.small
  · rw [List.length_append, ← h.ofs]
    exact ofs_succ hroom
  · simp only [Vector.toList_set, h.ofs, List.length_append, List.length_singleton]
    rw [take_set _ (by rw [hbuf, ← h.ofs]; exact hroom), h.stored]
  · rw [hassoc]
    exact h.crc

/-- With the last byte stored, the CRC matches and the packet is handed over. -/
theorem Filling.checked {done : List UInt8} (h : Filling done [] d) :
    d.checkCrc.received = d.received ++ [d.pkt] ∧ d.pkt.payload = done := by
  have hcrc := h.crc
  have htotal := h.total
  rw [List.append_nil] at hcrc htotal
  refine ⟨?_, ?_⟩
  · unfold Decoder.checkCrc
    simp only [h.ofs, h.stored, hcrc, if_true]
    rfl
  · rw [Packet.payload, htotal, h.stored]

/-- **The payload of a frame** is handed over at its last byte. -/
theorem feed_payload {done rest : List UInt8} (h : Filling done rest d) (hne : rest ≠ []) :
    ∃ d' p, feed rest d = some d' ∧ d'.status = .idle ∧ d'.crcHeader = d.crcHeader ∧
      d'.received = d.received ++ [p] ∧ p.payload = done ++ rest := by
  induction rest generalizing d done with
  | nil => exact absurd rfl hne
  | cons b rest ih =>
    obtain ⟨pkt, hstore, -, hf⟩ := h.store
    have hfeed : feed (b :: rest) d = feed rest ({ d with pkt := pkt } : Decoder).stored.2 := by
      rw [feed, Machine.run, next_data h.status hstore]
      rfl
    have hofs := hf.ofs
    have htotal := hf.total
    have hsmall := hf.small
    rw [List.length_append] at htotal hsmall
    rcases stored_cases hf.type with ⟨hfull, -⟩ | ⟨-, hend, hs⟩ | ⟨-, hmore, hs⟩ <;> rw [hfeed]
    · exact absurd hfull (by omega)
    · -- the last byte
      have hrest : rest = [] := List.length_eq_zero_iff.1 (by omega)
      subst hrest
      obtain ⟨hrec, hpay⟩ := hf.checked
      rw [hs]
      exact ⟨_, pkt, rfl, checkCrc_status _, checkCrc_header _, hrec, hpay⟩
    · have hrest : rest ≠ [] := by
        rintro rfl
        rw [List.length_nil] at htotal
        omega
      rw [hs]
      obtain ⟨d', p, hfeed', hidle, hheader, hrec, hpay⟩ := ih hf hrest
      exact ⟨d', p, hfeed', hidle, hheader, hrec, by rw [hpay]; simp⟩

/-- **A frame is handed over once**, and the decoder is idle again. -/
theorem feed_encode (h : Framed d) (hs : d.status = .idle) {payload : List UInt8} (hpos : 1 ≤ payload.length)
    (hmax : payload.length < maxPacketLen) :
    ∃ d' p, feed (encode payload) d = some d' ∧ Framed d' ∧ d'.status = .idle ∧ d'.received = d.received ++ [p] ∧
      p.payload = payload := by
  have hfill : Filling [] payload (d.expecting payload.length (crc16Update 0 (header payload.length ++ payload))) := by
    refine ⟨rfl, rfl, ?_, hmax, rfl, rfl, ?_⟩
    · unfold maxPacketLen at hmax
      exact Nat.mod_eq_of_lt (by omega)
    · rw [expecting_header h.sync, crc16Update_append]
      rfl
  obtain ⟨d', p, hfeed, hidle, -, hrec, hpay⟩ := feed_payload hfill (by rintro rfl; simp at hpos)
  have hrun : feed (encode payload) d = some d' := by
    rw [encode, feed, Machine.run_append]
    exact ⟨_, feed_header hs _ _, hfeed⟩
  exact ⟨d', p, hrun, h.of_feed hrun, hidle, hrec, hpay⟩

/-- Every payload is that of a packet handed over. -/
theorem exists_received {payload : List UInt8} (hpos : 1 ≤ payload.length) (hmax : payload.length < maxPacketLen) :
    ∃ d p, feed (encode payload) .init = some d ∧ p ∈ d.received ∧ p.payload = payload ∧ p.type = 0xA5 ∧
      p.payloadLen.toNat < maxPacketLen := by
  obtain ⟨d, p, hfeed, -, -, hrec, hpay⟩ := feed_encode .init rfl hpos hmax
  have hmem : p ∈ d.received := by simp [hrec]
  exact ⟨d, p, hfeed, hmem, hpay, received_packets hfeed hmem⟩

/-- **Frames one after the other.** -/
theorem feed_frames (h : Framed d) (hs : d.status = .idle) {payloads : List (List UInt8)}
    (hlen : ∀ p ∈ payloads, 1 ≤ p.length ∧ p.length ≤ 2047) :
    ∃ d' ps, feed (payloads.flatMap encode) d = some d' ∧ d'.status = .idle ∧ d'.received = d.received ++ ps ∧
      ps.map Packet.payload = payloads := by
  induction payloads generalizing d with
  | nil => exact ⟨d, [], rfl, hs, (List.append_nil _).symm, rfl⟩
  | cons payload payloads ih =>
    obtain ⟨hpos, hmax⟩ := hlen payload List.mem_cons_self
    obtain ⟨d₁, p, h₁, hframed, hidle, hrec, hpay⟩ := feed_encode h hs hpos (by unfold maxPacketLen; omega)
    obtain ⟨d₂, ps, h₂, hidle₂, hrec₂, hpay₂⟩ := ih hframed hidle fun q hq => hlen q (List.mem_cons_of_mem _ hq)
    refine ⟨d₂, p :: ps, ?_, hidle₂, ?_, ?_⟩
    · rw [List.flatMap_cons, feed, Machine.run_append]
      exact ⟨d₁, h₁, h₂⟩
    · rw [hrec₂, hrec, List.append_assoc]
      rfl
    · rw [List.map_cons, hpay, hpay₂]

/-- **IMU framing.** No stream of bytes makes `packet_decode` store outside `buf`. And whatever came before, frames that
arrive in the idle state are handed to the handler one by one, each with its payload as the first `payload_len` bytes of
`buf`, and leave the decoder idle. -/
theorem frames_decoded (stream : List UInt8) :
    ∃ d, feed stream .init = some d ∧
      ∀ payloads : List (List UInt8), d.status = .idle → (∀ p ∈ payloads, 1 ≤ p.length ∧ p.length ≤ 2047) →
        ∃ d' ps, feed (payloads.flatMap encode) d = some d' ∧ d'.status = .idle ∧ d'.received = d.received ++ ps ∧
          ps.map Packet.payload = payloads := by
  obtain ⟨d, hd, hframed⟩ := feed_framed .init stream
  exact ⟨d, hd, fun payloads hs hlen => feed_frames hframed hs hlen⟩

/-- Two frames, the first with the sync bytes as its payload, after a byte of noise. -/
theorem frames_decoded_two :
    ∃ d d' ps, feed [0x11] .init = some d ∧ feed ([[0x5A, 0xA5], [1]].flatMap encode) d = some d' ∧ d'.received = ps ∧
      ps.map Packet.payload = [[0x5A, 0xA5], [1]] := by
  obtain ⟨d, hd, hall⟩ := frames_decoded [0x11]
  obtain rfl : Decoder.init = d := Option.some.inj hd
  obtain ⟨d', ps, hfeed, -, hrec, hps⟩ := hall [[0x5A, 0xA5], [1]] rfl (by decide)
  exact ⟨_, d', ps, hd, hfeed, hrec, hps⟩

end Agilex.Imu
