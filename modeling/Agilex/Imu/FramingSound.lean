import Agilex.Imu.Framing

/-!
# What the decoder hands over

The frames that arrive in the idle state are handed over (`feed_encode`); this is the other direction: what is handed
over was a frame. It holds where the decoder keeps to the frame format (`InFormat`): the case `kStatus_Cmd` stays as it is
on a byte that is not `0xA5`, so that the sync bytes need not be next to each other, and a length of zero is met only
after a byte is stored. `Reading` is what the decoder knows of the bytes read so far.
-/

namespace Agilex.Imu

open Agilex.Lib

variable {d d' : Decoder} {bs : List UInt8} {c : UInt8}

/-! ## Frames at the end of a stream -/

/-- The word of two bytes, the lower first. -/
def joinBytes (low high : UInt8) : UInt16 := low.toUInt16 ||| high.toUInt16 <<< 8

/-- The stream ends with a frame, its bytes next to each other, and `p` is the packet of that frame. -/
def EndsWithFrame (bs : List UInt8) (p : Packet) : Prop :=
  ∃ front low high crcLow crcHigh, bs = front ++ [0x5A, 0xA5, low, high, crcLow, crcHigh] ++ p.payload ∧
    p.payloadLen = joinBytes low high ∧ p.payload.length = p.payloadLen.toNat ∧
    crc16Update 0 ([0x5A, 0xA5, low, high] ++ p.payload) = joinBytes crcLow crcHigh

theorem joinBytes_toNat (low high : UInt8) : (joinBytes low high).toNat = low.toNat + high.toNat * 256 := by
  have hlow := low.toNat_lt
  have hhigh := high.toNat_lt
  have hjoin := Nat.shiftLeft_add_eq_or_of_lt (by omega : low.toNat < 2 ^ 8) high.toNat
  rw [Nat.shiftLeft_eq] at hjoin
  have hmod : high.toNat * 256 % 65536 = high.toNat * 2 ^ 8 := by omega
  unfold joinBytes
  simp only [UInt16.toNat_or, UInt8.toNat_toUInt16, UInt16.toNat_shiftLeft, Nat.shiftLeft_eq]
  rw [Nat.or_comm]
  simp only [UInt16.reduceToNat, Nat.reduceMod, Nat.reducePow] at hjoin hmod ⊢
  rw [hmod, ← hjoin]
  omega

/-- The bytes of a word of two bytes. -/
theorem joinBytes_low (low high : UInt8) : (joinBytes low high).toUInt8 = low := by
  have hlow := low.toNat_lt
  apply UInt8.toNat_inj.1
  rw [UInt16.toNat_toUInt8, joinBytes_toNat]
  omega

theorem joinBytes_high (low high : UInt8) : (joinBytes low high >>> 8).toUInt8 = high := by
  have hlow := low.toNat_lt
  have hhigh := high.toNat_lt
  apply UInt8.toNat_inj.1
  rw [UInt16.toNat_toUInt8, UInt16.toNat_shiftRight, joinBytes_toNat, Nat.shiftRight_eq_div_pow]
  simp only [UInt16.reduceToNat, Nat.reduceMod, Nat.reducePow]
  omega

/-- Such a frame is the one its sender makes of the payload. -/
theorem EndsWithFrame.encode {p : Packet} (h : EndsWithFrame bs p) : encode p.payload <:+ bs := by
  obtain ⟨front, low, high, crcLow, crcHigh, rfl, hlen, htotal, hcrc⟩ := h
  have hheader : header p.payload.length = [0x5A, 0xA5, low, high] := by
    rw [htotal, Imu.header, UInt16.ofNat_toNat, hlen, joinBytes_low, joinBytes_high]
  refine ⟨front, ?_⟩
  rw [Imu.encode, hheader, hcrc, joinBytes_low, joinBytes_high]
  simp

/-- When the handler is called, the bytes read so far end with the frame of its packet. -/
def HandsFrame (c : UInt8) (read : List UInt8 × Decoder) : Prop :=
  ∀ d' p, read.2.next c = some d' → d'.received = read.2.received ++ [p] → EndsWithFrame (read.1 ++ [c]) p

/-- The byte that makes the decoder leave `kStatus_Cmd` follows the first sync byte, and no length is zero. -/
def InFormat (c : UInt8) (read : List UInt8 × Decoder) : Prop :=
  (read.2.status = .cmd → c = 0xA5 → read.1.getLast? = some 0x5A) ∧
    (read.2.status = .lenHigh → read.2.pkt.payloadLen = 0 → c ≠ 0)

instance (c : UInt8) (read : List UInt8 × Decoder) : Decidable (InFormat c read) := by
  unfold InFormat
  infer_instance

/-! ## What has been read -/

/-- The header in the decoder. -/
structure HasHeader (low high : UInt8) (d : Decoder) : Prop where
  header : d.crcHeader.toList = [0x5A, 0xA5, low, high]
  length : d.pkt.payloadLen = joinBytes low high
  pos : d.pkt.payloadLen ≠ 0

/-- The header, the CRC and the bytes of the payload stored so far are what the bytes read end with. -/
structure Storing (low high crcLow crcHigh : UInt8) (bs : List UInt8) (d : Decoder) : Prop where
  header : HasHeader low high d
  ends : [0x5A, 0xA5, low, high, crcLow, crcHigh] ++ d.pkt.buf.toList.take d.pkt.ofs.toNat <:+ bs
  received : d.crcReceived = joinBytes crcLow crcHigh
  calculated : d.crcCalculated = 0

/-- What the bytes read so far end with. -/
def Reading (bs : List UInt8) (d : Decoder) : Prop :=
  match d.status with
  | .idle | .cmd => True
  | .lenLow => [0x5A, 0xA5] <:+ bs
  | .lenHigh =>
    ∃ low, [0x5A, 0xA5, low] <:+ bs ∧ d.crcHeader.toList.take 3 = [0x5A, 0xA5, low] ∧ d.pkt.payloadLen = low.toUInt16
  | .crcLow => ∃ low high, HasHeader low high d ∧ [0x5A, 0xA5, low, high] <:+ bs
  | .crcHigh =>
    ∃ low high crcLow, HasHeader low high d ∧ [0x5A, 0xA5, low, high, crcLow] <:+ bs ∧ d.crcReceived = crcLow.toUInt16
  | .data =>
    ∃ low high crcLow crcHigh, Storing low high crcLow crcHigh bs d ∧ d.pkt.ofs.toNat < d.pkt.payloadLen.toNat

/-- A length with a nonzero byte. -/
theorem joinBytes_ne_zero {low high : UInt8} (h : low.toUInt16 = 0 → high ≠ 0) : joinBytes low high ≠ 0 := by
  intro h0
  have hsum := joinBytes_toNat low high
  rw [h0, UInt16.toNat_zero] at hsum
  have hlow : low.toUInt16 = 0 := by
    apply UInt16.toNat_inj.1
    rw [UInt8.toNat_toUInt16, UInt16.toNat_zero]
    omega
  have hhigh : high = 0 := by
    apply UInt8.toNat_inj.1
    rw [UInt8.toNat_zero]
    omega
  exact h hlow hhigh

/-- One more byte. -/
theorem suffix_snoc {l bs : List UInt8} (h : l <:+ bs) (c : UInt8) : l ++ [c] <:+ bs ++ [c] :=
  List.suffix_append_self_iff.2 h

/-- The second sync byte. -/
theorem sync_suffix (h : bs.getLast? = some 0x5A) : [0x5A, 0xA5] <:+ bs ++ [0xA5] := by
  obtain ⟨front, rfl⟩ := List.getLast?_eq_some_iff.1 h
  exact ⟨front, by simp⟩

/-! ## One byte -/

/-- The lower length byte enters the header. -/
theorem header_low {l : List UInt8} (hlen : l.length = 4) (h : l.take 2 = [0x5A, 0xA5]) (low : UInt8) :
    (l.set 2 low).take 3 = [0x5A, 0xA5, low] := by
  rw [take_set _ (by omega), h]
  rfl

/-- The upper one completes it. -/
theorem header_high {l : List UInt8} {low : UInt8} (hlen : l.length = 4) (h : l.take 3 = [0x5A, 0xA5, low])
    (high : UInt8) : l.set 3 high = [0x5A, 0xA5, low, high] := by
  have htake := take_set l (by omega : 3 < l.length) high
  rw [List.take_of_length_le (by rw [List.length_set]; omega), h] at htake
  rw [htake]
  rfl

/-- The bytes before the payload. -/
theorem Reading.header (hf : Framed d) (h : Reading bs d) (hin : InFormat c (bs, d)) (hs : d.status ≠ .data)
    (hn : d.next c = some d') : Reading (bs ++ [c]) d' ∧ d'.received = d.received := by
  unfold Decoder.next packetDecode at hn
  unfold Reading at h
  cases hst : d.status with
  | idle =>
    simp only [hst, Option.map_some, Option.some.injEq] at hn
    subst hn
    split
    · exact ⟨trivial, rfl⟩
    · simp [Reading, hst]
  | cmd =>
    simp only [hst, Option.map_some, Option.some.injEq] at hn
    subst hn
    split
    · rename_i hc
      obtain rfl : c = 0xA5 := hc
      exact ⟨sync_suffix (hin.1 hst rfl), rfl⟩
    · exact ⟨trivial, rfl⟩
  | lenLow =>
    simp only [hst, Option.map_some, Option.some.injEq] at hn h
    subst hn
    have hset : (d.crcHeader.set 2 c).toList.take 3 = [0x5A, 0xA5, c] := by
      rw [Vector.toList_set]
      exact header_low Vector.length_toList hf.sync c
    exact ⟨⟨c, suffix_snoc h c, hset, rfl⟩, rfl⟩
  | lenHigh =>
    simp only [hst, Option.map_some, Option.some.injEq] at hn h
    subst hn
    obtain ⟨low, hsuf, hheader, hlen⟩ := h
    have hpos : joinBytes low c ≠ 0 := joinBytes_ne_zero fun h0 => hin.2 hst (hlen.trans h0)
    have hjoin : d.pkt.payloadLen ||| c.toUInt16 <<< 8 = joinBytes low c := by rw [hlen, joinBytes]
    have hset : (d.crcHeader.set 3 c).toList = [0x5A, 0xA5, low, c] := by
      rw [Vector.toList_set]
      exact header_high Vector.length_toList hheader c
    exact ⟨⟨low, c, ⟨hset, hjoin, hjoin ▸ hpos⟩, suffix_snoc hsuf c⟩, rfl⟩
  | crcLow =>
    simp only [hst, Option.map_some, Option.some.injEq] at hn h
    subst hn
    obtain ⟨low, high, hheader, hsuf⟩ := h
    exact ⟨⟨low, high, c, ⟨hheader.header, hheader.length, hheader.pos⟩, suffix_snoc hsuf c, rfl⟩, rfl⟩
  | crcHigh =>
    simp only [hst, Option.map_some, Option.some.injEq] at hn h
    subst hn
    obtain ⟨low, high, crcLow, hheader, hsuf, hcrc⟩ := h
    have hjoin : d.crcReceived ||| c.toUInt16 <<< 8 = joinBytes crcLow c := by rw [hcrc, joinBytes]
    have hpos : 0 < d.pkt.payloadLen.toNat := Nat.pos_of_ne_zero fun h0 => hheader.pos (UInt16.toNat_inj.1 h0)
    have hstoring : Storing low high crcLow c (bs ++ [c]) { d with
        crcReceived := d.crcReceived ||| c.toUInt16 <<< 8, pkt := { d.pkt with ofs := 0 }, crcCalculated := 0
        status := .data } :=
      ⟨⟨hheader.header, hheader.length, hheader.pos⟩, suffix_snoc hsuf c, hjoin, rfl⟩
    exact ⟨⟨low, high, crcLow, c, hstoring, hpos⟩, rfl⟩
  | data => exact absurd hst hs

section payload

variable {low high crcLow crcHigh : UInt8}

/-- A byte of the payload is stored. -/
theorem Storing.store (h : Storing low high crcLow crcHigh bs d) (hroom : d.pkt.ofs.toNat < maxPacketLen) (c : UInt8) :
    Storing low high crcLow crcHigh (bs ++ [c])
      { d with pkt := { d.pkt with buf := d.pkt.buf.set d.pkt.ofs.toNat c hroom, ofs := d.pkt.ofs + 1 } } := by
  have hbuf : d.pkt.buf.toList.length = maxPacketLen := Vector.length_toList
  refine ⟨⟨h.header.header, h.header.length, h.header.pos⟩, ?_, h.received, h.calculated⟩
  simp only [ofs_succ hroom, Vector.toList_set]
  rw [take_set _ (by omega), ← List.append_assoc]
  exact suffix_snoc h.ends c

/-- With the last byte of the payload stored, a packet whose CRC matches is that of a frame. -/
theorem Storing.checkCrc (h : Storing low high crcLow crcHigh bs d) (hlen : d.pkt.payloadLen.toNat = d.pkt.ofs.toNat)
    (hroom : d.pkt.ofs.toNat < maxPacketLen) :
    d.checkCrc.received = d.received ∨ d.checkCrc.received = d.received ++ [d.pkt] ∧ EndsWithFrame bs d.pkt := by
  have hbuf : d.pkt.buf.toList.length = maxPacketLen := Vector.length_toList
  have hpay : d.pkt.payload = d.pkt.buf.toList.take d.pkt.ofs.toNat := by rw [Packet.payload, hlen]
  by_cases hcrc : crc16Update 0 ([0x5A, 0xA5, low, high] ++ d.pkt.payload) = d.crcReceived
  · obtain ⟨front, hfront⟩ := h.ends
    refine Or.inr ⟨?_, front, low, high, crcLow, crcHigh, ?_, h.header.length, ?_, hcrc.trans h.received⟩
    · unfold Decoder.checkCrc
      simp only [h.calculated, h.header.header, crc16Update_append, ← hpay, hcrc, if_true]
      rfl
    · rw [hpay, List.append_assoc, hfront]
    · rw [hpay, List.length_take, hlen]
      omega
  · left
    unfold Decoder.checkCrc
    simp only [h.calculated, h.header.header, crc16Update_append, ← hpay, if_neg hcrc]

/-- After a stored byte the packet goes on, is dropped, or is handed over with its frame at the end of the stream. -/
theorem Storing.stored (h : Storing low high crcLow crcHigh bs d) (hs : d.status = .data) (ht : d.pkt.type = 0xA5)
    (hle : d.pkt.ofs.toNat ≤ d.pkt.payloadLen.toNat) :
    Reading bs d.stored.2 ∧
      (d.stored.2.received = d.received ∨ ∃ p, d.stored.2.received = d.received ++ [p] ∧ EndsWithFrame bs p) := by
  rcases stored_cases ht with ⟨-, heq⟩ | ⟨hroom, hend, heq⟩ | ⟨-, hmore, heq⟩ <;> rw [heq]
  · exact ⟨trivial, Or.inl rfl⟩
  · exact ⟨trivial, (h.checkCrc (by omega) hroom).imp_right fun hrec => ⟨d.pkt, hrec⟩⟩
  · refine ⟨?_, Or.inl rfl⟩
    simp only [Reading, hs]
    exact ⟨low, high, crcLow, crcHigh, h, hmore⟩

end payload

/-- **What one byte keeps**: what is read is known, and what is handed over has its frame at the end of the stream. -/
theorem Reading.next (hf : Framed d) (h : Reading bs d) (hin : InFormat c (bs, d)) (hn : d.next c = some d') :
    Reading (bs ++ [c]) d' ∧
      (d'.received = d.received ∨ ∃ p, d'.received = d.received ++ [p] ∧ EndsWithFrame (bs ++ [c]) p) := by
  by_cases hs : d.status = .data
  · have hroom := hf.room hs
    have hsucc := ofs_succ hroom
    simp only [Reading, hs] at h
    obtain ⟨low, high, crcLow, crcHigh, hstoring, hofs⟩ := h
    have hstored := (hstoring.store hroom c).stored hs (hf.type (by simp [hs]) (by simp [hs])) (by
      simp only [hsucc]
      omega)
    obtain rfl := Option.some.inj (hn.symm.trans (next_data hs (store_eq c hroom)))
    exact hstored
  · obtain ⟨hreading, hrec⟩ := h.header hf hin hs hn
    exact ⟨hreading, Or.inl hrec⟩

/-! ## Every stream -/

/-- **What is handed over was a frame.** Bytes that reach `packet_decode` in the idle state: as long as they keep to the
frame format, each time the handler is called the bytes read since end with `5A A5`, the length, the CRC and the payload,
next to each other, the payload is the one handed over and the CRC is that of the header and the payload. -/
theorem handed_over_frames {before stream : List UInt8} {d : Decoder} (hd : feed before .init = some d)
    (hs : d.status = .idle) (hin : Machine.Along (Machine.withHistory Decoder.next) InFormat stream ([], d)) :
    Machine.Along (Machine.withHistory Decoder.next) HandsFrame stream ([], d) := by
  have hstart : Framed d ∧ Reading [] d := ⟨Framed.init.of_feed hd, by simp [Reading, hs]⟩
  refine Machine.Along.of_invariant (P := fun read => Framed read.2 ∧ Reading read.1 read.2) ?_ ?_ hstart hin
  · rintro c ⟨bs, d⟩ s' hc ⟨hf, hr⟩ hnext
    obtain ⟨d', hd', rfl⟩ := Machine.withHistory_eq_some.1 hnext
    exact ⟨hf.of_next hd', (hr.next hf hc hd').1⟩
  · rintro c ⟨bs, d⟩ hc ⟨hf, hr⟩ d' p hd' hrec
    rcases (hr.next hf hc hd').2 with hsame | ⟨q, hq, hends⟩
    · exact absurd (hrec.symm.trans hsame) (by simp)
    · obtain rfl : p = q := by simpa using hrec.symm.trans hq
      exact hends

/-- A frame after a byte of noise. -/
theorem handed_over_frames_one :
    Machine.Along (Machine.withHistory Decoder.next) HandsFrame (0x11 :: encode [0x5A, 0xA5]) ([], .init) :=
  handed_over_frames (rfl : feed [] .init = some .init) rfl (Machine.along_of_check (by decide +kernel))

/-- A sync byte, a byte of noise, and the rest of a frame. -/
def brokenSync : List UInt8 := [0x5A, 0x00, 0xA5, 0x01, 0x00, 0xBE, 0x22]

/-- **Sync bytes apart from each other are taken for a frame.** -/
theorem broken_sync_accepted :
    ¬∀ (before stream : List UInt8) (d : Decoder), feed before .init = some d → d.status = .idle →
      Machine.Along (Machine.withHistory Decoder.next) HandsFrame stream ([], d) := by
  intro hall
  have hrun : (Machine.run (Machine.withHistory Decoder.next) brokenSync ([], .init)).bind
      (fun read => (read.2.next 1).map fun d' => (read.1, read.2.received, d'.received.map Packet.payload)) =
        some (brokenSync, [], [[1]]) := by decide +kernel
  obtain ⟨⟨bs, d⟩, hd, hmap⟩ := Option.bind_eq_some_iff.1 hrun
  obtain ⟨d', hd', heq⟩ := Option.map_eq_some_iff.1 hmap
  obtain ⟨rfl, hnone, hone⟩ : bs = brokenSync ∧ d.received = [] ∧ d'.received.map Packet.payload = [[1]] := by
    simpa using heq
  obtain ⟨p, hp, hpay⟩ : ∃ p, d'.received = [p] ∧ p.payload = [1] := by simpa [List.map_eq_singleton_iff] using hone
  have hends := (hall [] (brokenSync ++ [1]) .init rfl rfl).at hd d' p hd' (by simp [hp, hnone])
  obtain ⟨front, low, high, crcLow, crcHigh, hstream, -⟩ := hends
  rw [hpay] at hstream
  have hfront : front.length = 1 := by
    have := congrArg List.length hstream
    simp [brokenSync] at this
    omega
  obtain ⟨x, rfl⟩ := List.length_eq_one_iff.1 hfront
  simp [brokenSync] at hstream

end Agilex.Imu
