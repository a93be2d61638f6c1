import Agilex.Imu.Decode
import Agilex.Imu.Framing
import Mathlib.Logic.Relation

/-!
# Where the items of a packet lie

`on_data_received` never compares the length of an item with what is left of the payload, nor the element count of a
gateway item with `MAX_LENGTH`. So it stays within the payload, and within the array of `receive_gwsol`, exactly for the
payloads in which every item has room (`ItemsFit`), and for these the bytes that earlier packets left in `buf` do not
matter.
-/

namespace Agilex.Imu

open Agilex.Lib

variable {p p' : Packet} {len i n o : ℕ} {r : Received} {α β : Type}

/-! ## Where items start -/

/-- The bytes the loop moves by for an item; of a gateway item, before its elements. -/
def ItemID.size : ItemID → ℕ
  | .id => 2
  | .accRaw | .gyrRaw | .gyrRawYunjing | .magRaw | .rotationEul => 7
  | .rotationQuat => 17
  | .pressure => 5
  | .imusol => 76
  | .gwsol => 8

/-- The kind of the item that starts at `o`. -/
def itemAt (payload : List UInt8) (o : ℕ) : Option ItemID := ItemID.ofCode (payload.getD o 0)

/-- The element count of a gateway item that starts at `o`. -/
def elementsAt (payload : List UInt8) (o : ℕ) : ℕ := (payload.getD (o + 2) 0).toNat

/-- The bytes the loop moves by at `o`. -/
def itemLength (payload : List UInt8) (o : ℕ) : ℕ :=
  match itemAt payload o with
  | none => 1
  | some .gwsol => ItemID.size .gwsol + 76 * elementsAt payload o
  | some kind => kind.size

/-- An item starts at `o`, the next one at `o'`. -/
def NextItem (payload : List UInt8) (o o' : ℕ) : Prop := o < payload.length ∧ o' = o + itemLength payload o

/-- The payload has the bytes that the item at `o` is read from. -/
def Room (payload : List UInt8) (o : ℕ) : Prop :=
  match itemAt payload o with
  | none | some .pressure => True
  | some .id => 2 ≤ payload.length
  | some .imusol => o + 2 ≤ payload.length ∧ 76 ≤ payload.length
  | some .gwsol =>
    o + 3 ≤ payload.length ∧
      (elementsAt payload o = 0 ∨ elementsAt payload o ≤ maxLength ∧ o + itemLength payload o ≤ payload.length)
  | some kind => o + kind.size ≤ payload.length

/-- Every item of the payload has room. -/
def ItemsFit (payload : List UInt8) : Prop :=
  ∀ o < payload.length, Relation.ReflTransGen (NextItem payload) 0 o → Room payload o

/-! ## Accesses in bounds -/

/-- A byte of the payload, or an element of the array. -/
def Access.InBounds (len : ℕ) : Access → Prop
  | .byte i => i < len
  | .element i => i < maxLength

/-- All accesses of a computation are in bounds. -/
def Stays (len : ℕ) (x : Traced Access α) : Prop := x.All (Access.InBounds len)

@[simp] theorem stays_pure (a : α) : Stays len (pure a : Traced Access α) := Traced.all_pure a

theorem stays_bind {x : Traced Access α} {f : α → Traced Access β} :
    Stays len (x >>= f) ↔ Stays len x ∧ ∀ a, x.result = some a → Stays len (f a) := Traced.all_bind

theorem length_payload (h : p.payloadLen.toNat ≤ maxPacketLen) : p.payload.length = p.payloadLen.toNat := by
  rw [Packet.payload, List.length_take, Vector.length_toList]
  omega

theorem getD_payload (h : i < p.payloadLen.toNat) : p.payload.getD i 0 = p.buf.toList.getD i 0 := by
  simp only [Packet.payload, List.getD_eq_getElem?_getD, List.getElem?_take_of_lt h]

theorem read_result (h : i < maxPacketLen) : (p.read i).result = some (p.buf.toList.getD i 0) := by
  have hlt : i < p.buf.toList.length := by rwa [Vector.length_toList]
  rw [Packet.read, List.getD_eq_getElem?_getD, List.getElem?_eq_getElem hlt]
  rfl

theorem copy_result (h : i + n ≤ maxPacketLen) : (p.copy i n).result = some (slice p.buf.toList i n) := if_pos h

theorem element_result (h : i < maxLength) : (element i).result = some ⟨i, h⟩ := dif_pos h

theorem stays_read : Stays len (p.read i) ↔ i < len := by simp [Stays, Traced.All, Packet.read, Access.InBounds]

theorem stays_copy (hn : 0 < n) : Stays len (p.copy i n) ↔ i + n ≤ len := by
  constructor
  · intro h
    have hlast : Access.InBounds len (.byte (i + (n - 1))) :=
      h _ (List.mem_map_of_mem (List.mem_range.2 (by omega)))
    change i + (n - 1) < len at hlast
    omega
  · intro h e he
    obtain ⟨k, hk, rfl⟩ := List.mem_map.1 he
    have := List.mem_range.1 hk
    change i + k < len
    omega

theorem stays_element : Stays len (element i) ↔ i < maxLength := by simp [Stays, Traced.All, element, Access.InBounds]

/-- A read, and what is done with the byte. -/
theorem stays_read_bind (hlen : len ≤ maxPacketLen) (f : UInt8 → Traced Access α) :
    Stays len (p.read i >>= f) ↔ i < len ∧ Stays len (f (p.buf.toList.getD i 0)) := by
  rw [stays_bind, stays_read]
  refine and_congr_right fun hi => ?_
  rw [read_result (by omega)]
  simp

theorem stays_copy_bind (hlen : len ≤ maxPacketLen) (hn : 0 < n) (f : List UInt8 → Traced Access α) :
    Stays len (p.copy i n >>= f) ↔ i + n ≤ len ∧ Stays len (f (slice p.buf.toList i n)) := by
  rw [stays_bind, stays_copy hn]
  refine and_congr_right fun hi => ?_
  rw [copy_result (by omega)]
  simp

theorem stays_element_bind (f : Fin maxLength → Traced Access α) :
    Stays len (element i >>= f) ↔ ∃ h : i < maxLength, Stays len (f ⟨i, h⟩) := by
  rw [stays_bind, stays_element]
  constructor
  · rintro ⟨hi, hf⟩
    exact ⟨hi, hf _ (element_result hi)⟩
  · rintro ⟨hi, hf⟩
    refine ⟨hi, fun j hj => ?_⟩
    obtain rfl : ⟨i, hi⟩ = j := Option.some.inj ((element_result hi).symm.trans hj)
    exact hf

/-! ## The elements of a gateway item -/

theorem stays_gwElement (hlen : len ≤ maxPacketLen) :
    Stays len (gwElement p i o r) ↔ i < maxLength ∧ o + 76 ≤ len := by
  unfold gwElement
  simp only [stays_read_bind hlen, stays_element_bind, stays_copy_bind hlen (by omega : 0 < 64), stays_pure]
  simp only [and_true, exists_prop]
  omega

/-- An element in bounds gives a result. -/
theorem gwElement_result (ho : o + 76 ≤ maxPacketLen) (hi : i < maxLength) : ∃ r', (gwElement p i o r).result = some r' := by
  unfold gwElement
  simp only [Traced.result_bind, read_result (by omega : o < maxPacketLen), element_result hi,
    read_result (by omega : o + 1 < maxPacketLen), copy_result (by omega : o + 12 + 64 ≤ maxPacketLen), Option.bind_some,
    Traced.result_pure]
  exact ⟨_, rfl⟩

/-- **The elements of a gateway item** are in bounds when the payload and the array have room for all of them. -/
theorem stays_gwElements (hlen : len ≤ maxPacketLen) :
    Stays len (gwElements p n i o r) ↔ n = 0 ∨ i + n ≤ maxLength ∧ o + 76 * n ≤ len := by
  induction n generalizing i o r with
  | zero => simp [gwElements]
  | succ n ih =>
    rw [gwElements, stays_bind, stays_gwElement hlen]
    simp only [ih]
    constructor
    · rintro ⟨⟨hi, ho⟩, hrest⟩
      obtain ⟨r', hr'⟩ := gwElement_result (p := p) (r := r) (by omega : o + 76 ≤ maxPacketLen) hi
      rcases hrest r' hr' with rfl | ⟨hi', ho'⟩ <;> omega
    · intro h
      exact ⟨by omega, fun _ _ => by omega⟩

theorem gwElements_result (hi : n = 0 ∨ i + n ≤ maxLength ∧ o + 76 * n ≤ maxPacketLen) :
    ∃ r', (gwElements p n i o r).result = some (o + 76 * n, r') := by
  induction n generalizing i o r with
  | zero => exact ⟨r, rfl⟩
  | succ n ih =>
    obtain ⟨r', hr'⟩ := gwElement_result (p := p) (r := r) (by omega : o + 76 ≤ maxPacketLen) (by omega : i < maxLength)
    obtain ⟨r'', hr''⟩ := ih (r := r') (by omega : n = 0 ∨ i + 1 + n ≤ maxLength ∧ o + 76 + 76 * n ≤ maxPacketLen)
    refine ⟨r'', ?_⟩
    rw [gwElements, Traced.result_bind, hr', Option.bind_some, hr'']
    congr 2
    omega

/-! ## One item -/

section item

variable (hlen : p.payloadLen.toNat ≤ maxPacketLen) (ho : o < p.payloadLen.toNat)
include hlen ho

/-- **An item is read in bounds** when it has room. -/
theorem stays_onItem : Stays p.payloadLen.toNat (onItem p o r) ↔ Room p.payload o := by
  have hat : itemAt p.payload o = ItemID.ofCode (p.buf.toList.getD o 0) := by rw [itemAt, getD_payload ho]
  unfold onItem
  rw [stays_read_bind hlen, Room, itemLength, length_payload hlen, ← hat]
  cases hkind : itemAt p.payload o with
  | none => simp [ho]
  | some kind =>
    cases kind with
    | pressure => simp [ho]
    | id =>
      simp only [stays_read_bind hlen, stays_pure, and_true]
      omega
    | accRaw | gyrRaw | gyrRawYunjing | magRaw | rotationEul | rotationQuat =>
      simp only [stays_copy_bind hlen (by omega : 0 < 6), stays_copy_bind hlen (by omega : 0 < 16), stays_pure,
        and_true, ItemID.size]
      omega
    | imusol =>
      simp only [stays_read_bind hlen, stays_copy_bind hlen (by omega : 0 < 4), stays_copy_bind hlen (by omega : 0 < 64),
        stays_pure, and_true]
      omega
    | gwsol =>
      simp only [stays_read_bind hlen, stays_gwElements hlen, ItemID.size]
      constructor
      · rintro ⟨-, -, -, hcount, hrest⟩
        have hn : elementsAt p.payload o = (p.buf.toList.getD (o + 2) 0).toNat := by
          rw [elementsAt, getD_payload hcount]
        rw [hn]
        omega
      · rintro ⟨hcount, hrest⟩
        have hn : elementsAt p.payload o = (p.buf.toList.getD (o + 2) 0).toNat := by
          rw [elementsAt, getD_payload (by omega)]
        rw [hn] at hrest
        omega

/-- An item with room gives a result, and the offset moves by its length. -/
theorem onItem_result (h : Room p.payload o) : ∃ r', (onItem p o r).result = some (o + itemLength p.payload o, r') := by
  have hat : itemAt p.payload o = ItemID.ofCode (p.buf.toList.getD o 0) := by rw [itemAt, getD_payload ho]
  have hread : ∀ i < p.payloadLen.toNat, (p.read i).result = some (p.buf.toList.getD i 0) :=
    fun i hi => read_result (by omega)
  have hcopy : ∀ i n, i + n ≤ p.payloadLen.toNat → (p.copy i n).result = some (slice p.buf.toList i n) :=
    fun i n hi => copy_result (by omega)
  rw [Room, itemLength, length_payload hlen] at h
  unfold onItem
  rw [Traced.result_bind, hread o ho, Option.bind_some, ← hat, itemLength]
  cases hkind : itemAt p.payload o with
  | none => exact ⟨_, rfl⟩
  | some kind =>
    simp only [hkind] at h
    cases kind with
    | pressure => exact ⟨_, rfl⟩
    | id =>
      simp only [Traced.result_bind, hread 1 (by omega), Option.bind_some]
      exact ⟨_, rfl⟩
    | accRaw | gyrRaw | gyrRawYunjing | magRaw | rotationEul =>
      simp only [Traced.result_bind, hcopy (o + 1) 6 (by simp only [ItemID.size] at h; omega), Option.bind_some]
      exact ⟨_, rfl⟩
    | rotationQuat =>
      simp only [Traced.result_bind, hcopy (o + 1) 16 (by simp only [ItemID.size] at h; omega), Option.bind_some]
      exact ⟨_, rfl⟩
    | imusol =>
      simp only [Traced.result_bind, hread (o + 1) (by omega), hcopy 8 4 (by omega), hcopy 12 64 (by omega),
        Option.bind_some]
      exact ⟨_, rfl⟩
    | gwsol =>
      have hn : elementsAt p.payload o = (p.buf.toList.getD (o + 2) 0).toNat := by
        rw [elementsAt, getD_payload (by omega)]
      simp only [Traced.result_bind, hread o ho, hread (o + 1) (by omega), hread (o + 2) (by omega), Option.bind_some]
      rw [← hn, ← Nat.add_assoc]
      refine gwElements_result ?_
      simp only [ItemID.size] at h
      omega

end item

/-! ## The loop -/

/-- The elements move the offset by 76 bytes each. -/
theorem gwElements_offset {o' : ℕ} {r' : Received} (h : (gwElements p n i o r).result = some (o', r')) :
    o' = o + 76 * n := by
  induction n generalizing i o r with
  | zero =>
    obtain ⟨rfl, -⟩ : o = o' ∧ r = r' := by simpa [gwElements] using h
    rfl
  | succ n ih =>
    rw [gwElements, Traced.result_bind] at h
    obtain ⟨r'', -, h⟩ := Option.bind_eq_some_iff.1 h
    rw [ih h]
    omega

/-- Every item moves the offset. -/
theorem onItem_advances {o' : ℕ} {r' : Received} (h : (onItem p o r).result = some (o', r')) : o < o' := by
  unfold onItem at h
  rw [Traced.result_bind] at h
  obtain ⟨tag, -, h⟩ := Option.bind_eq_some_iff.1 h
  cases hkind : ItemID.ofCode tag with
  | none =>
    simp only [hkind, Traced.result_pure, Option.some.injEq, Prod.mk.injEq] at h
    omega
  | some kind =>
    cases kind <;>
      simp only [hkind, Traced.result_bind, Traced.result_pure, Option.bind_eq_some_iff, Option.some.injEq,
        Prod.mk.injEq] at h
    case imusol =>
      obtain ⟨id, -, times, -, src, -, rfl, -⟩ := h
      omega
    case gwsol =>
      obtain ⟨tag, -, gwId, -, count, -, h⟩ := h
      have := gwElements_offset h
      omega
    case pressure => omega
    all_goals
      obtain ⟨src, -, rfl, -⟩ := h
      omega

/-- More turns than there are bytes change nothing. -/
theorem onItems_turns {turns turns' : ℕ} (h : p.payloadLen.toNat ≤ o + turns) (h' : p.payloadLen.toNat ≤ o + turns') :
    onItems p turns o r = onItems p turns' o r := by
  induction turns generalizing turns' o r with
  | zero =>
    cases turns' with
    | zero => rfl
    | succ turns' => rw [onItems, onItems, if_neg (by omega)]
  | succ turns ih =>
    cases turns' with
    | zero => rw [onItems, onItems, if_neg (by omega)]
    | succ turns' =>
      rw [onItems, onItems]
      split
      · refine Traced.bind_congr_of_all (P := fun _ => True) (fun _ _ => trivial) (fun _ => rfl) ?_
        rintro ⟨o', r'⟩ hr' -
        have := onItem_advances hr'
        exact ih (by omega) (by omega)
      · rfl

/-- **The loop of `on_data_received`**: it goes on as long as the payload has bytes. -/
theorem onItems_loop {turns : ℕ} (h : p.payloadLen.toNat ≤ o + turns) :
    onItems p turns o r =
      if o < p.payloadLen.toNat then do
        let (o', r') ← onItem p o r
        onItems p turns o' r'
      else pure r := by
  have hmore : onItems p turns o r = onItems p (turns + 1) o r := onItems_turns h (by omega)
  rw [hmore, onItems]

/-- **The loop stays in bounds** when every item from here on has room. -/
theorem stays_onItems {turns : ℕ} (hlen : p.payloadLen.toNat ≤ maxPacketLen) (h : p.payloadLen.toNat ≤ o + turns) :
    Stays p.payloadLen.toNat (onItems p turns o r) ↔
      ∀ o' < p.payload.length, Relation.ReflTransGen (NextItem p.payload) o o' → Room p.payload o' := by
  have hlength := length_payload hlen
  induction turns generalizing o r with
  | zero =>
    refine ⟨fun _ o' ho' hstart => ?_, fun _ => by simp [onItems]⟩
    rcases Relation.ReflTransGen.cases_head hstart with rfl | ⟨_, ⟨hlt, -⟩, -⟩ <;> omega
  | succ turns ih =>
    rw [onItems]
    split
    · rename_i ho
      rw [stays_bind, stays_onItem hlen ho]
      constructor
      · rintro ⟨hroom, hrest⟩ o' ho' hstart
        obtain ⟨r', hr'⟩ := onItem_result (r := r) hlen ho hroom
        rcases Relation.ReflTransGen.cases_head hstart with rfl | ⟨_, ⟨-, rfl⟩, hstart⟩
        · exact hroom
        · have := onItem_advances hr'
          exact (ih (by omega)).1 (hrest _ hr') o' ho' hstart
      · intro hall
        have hroom := hall o (by omega) .refl
        refine ⟨hroom, ?_⟩
        obtain ⟨r₁, hr₁⟩ := onItem_result (r := r) hlen ho hroom
        rintro ⟨o', r'⟩ hr'
        have hadv := onItem_advances hr'
        obtain ⟨rfl, -⟩ : o + itemLength p.payload o = o' ∧ r₁ = r' := by simpa using hr₁.symm.trans hr'
        exact (ih (by omega)).2 fun o' ho' hstart => hall o' ho' (.head ⟨by omega, rfl⟩ hstart)
    · refine ⟨fun _ o' ho' hstart => ?_, fun _ => stays_pure r⟩
      rcases Relation.ReflTransGen.cases_head hstart with rfl | ⟨_, ⟨hlt, -⟩, -⟩ <;> omega

/-! ## The bytes of earlier packets -/

section congr

variable (hp : p.payload = p'.payload) (hl : p.payloadLen = p'.payloadLen)
include hp hl

theorem read_congr (h : Stays p.payloadLen.toNat (p.read i)) : p.read i = p'.read i := by
  have hi := stays_read.1 h
  have heq : p.buf.toList[i]? = p'.buf.toList[i]? := by
    have := congrArg (·[i]?) hp
    simpa only [Packet.payload, List.getElem?_take_of_lt hi, List.getElem?_take_of_lt (hl ▸ hi)] using this
  rw [Packet.read, Packet.read, heq]

theorem copy_congr (hn : 0 < n) (h : Stays p.payloadLen.toNat (p.copy i n)) : p.copy i n = p'.copy i n := by
  have hi := (stays_copy hn).1 h
  have heq : slice p.buf.toList i n = slice p'.buf.toList i n := by
    refine slice_congr fun k hk => ?_
    have := congrArg (·[i + k]?) hp
    simpa only [Packet.payload, List.getElem?_take_of_lt (by omega : i + k < p.payloadLen.toNat),
      List.getElem?_take_of_lt (by rw [← hl]; omega : i + k < p'.payloadLen.toNat)] using this
  rw [Packet.copy, Packet.copy, heq]

theorem gwElement_congr (h : Stays p.payloadLen.toNat (gwElement p i o r)) : gwElement p i o r = gwElement p' i o r := by
  unfold gwElement at h ⊢
  refine Traced.bind_congr_of_all h (read_congr hp hl) fun tag _ h => ?_
  refine Traced.bind_congr_of_all h (fun _ => rfl) fun i _ h => ?_
  refine Traced.bind_congr_of_all h (read_congr hp hl) fun id _ h => ?_
  exact Traced.bind_congr_of_all h (copy_congr hp hl (by omega)) fun src _ _ => rfl

theorem gwElements_congr (h : Stays p.payloadLen.toNat (gwElements p n i o r)) :
    gwElements p n i o r = gwElements p' n i o r := by
  induction n generalizing i o r with
  | zero => rfl
  | succ n ih => exact Traced.bind_congr_of_all h (gwElement_congr hp hl) fun r' _ h => ih h

theorem onItem_congr (h : Stays p.payloadLen.toNat (onItem p o r)) : onItem p o r = onItem p' o r := by
  unfold onItem at h ⊢
  refine Traced.bind_congr_of_all h (read_congr hp hl) fun tag _ h => ?_
  cases hkind : ItemID.ofCode tag with
  | none => rfl
  | some kind =>
    simp only [hkind] at h ⊢
    cases kind with
    | id => exact Traced.bind_congr_of_all h (read_congr hp hl) fun id _ _ => rfl
    | accRaw | gyrRaw | gyrRawYunjing | magRaw | rotationEul | rotationQuat =>
      exact Traced.bind_congr_of_all h (copy_congr hp hl (by omega)) fun src _ _ => rfl
    | pressure => rfl
    | imusol =>
      refine Traced.bind_congr_of_all h (read_congr hp hl) fun id _ h => ?_
      refine Traced.bind_congr_of_all h (copy_congr hp hl (by omega)) fun times _ h => ?_
      exact Traced.bind_congr_of_all h (copy_congr hp hl (by omega)) fun src _ _ => rfl
    | gwsol =>
      refine Traced.bind_congr_of_all h (read_congr hp hl) fun tag _ h => ?_
      refine Traced.bind_congr_of_all h (read_congr hp hl) fun gwId _ h => ?_
      exact Traced.bind_congr_of_all h (read_congr hp hl) fun count _ h => gwElements_congr hp hl h

theorem onItems_congr {turns : ℕ} (h : Stays p.payloadLen.toNat (onItems p turns o r)) :
    onItems p turns o r = onItems p' turns o r := by
  induction turns generalizing o r with
  | zero => rfl
  | succ turns ih =>
    rw [onItems] at h
    rw [onItems, onItems, ← hl]
    split at h
    · rename_i ho
      rw [if_pos ho, if_pos ho]
      exact Traced.bind_congr_of_all h (onItem_congr hp hl) fun next _ h => ih h
    · rename_i ho
      rw [if_neg ho, if_neg ho]

end congr

/-! ## Every packet -/

theorem onDataReceived_eq (ht : p.type = 0xA5) (r : Received) :
    onDataReceived p r = onItems p p.payloadLen.toNat 0 { r with bitmap := 0 } := if_neg (not_not.2 ht)

/-- **Reading the items of a packet.** For every packet that `packet_decode` hands over, `on_data_received` reads only
bytes of the payload and writes only elements of the array if and only if every item of the payload has room; and then it
does the same whatever else is in `buf`. -/
theorem items_in_bounds {stream : List UInt8} {d : Decoder} (hd : feed stream .init = some d) {p : Packet}
    (hp : p ∈ d.received) (r : Received) :
    (Stays p.payloadLen.toNat (onDataReceived p r) ↔ ItemsFit p.payload) ∧
      (ItemsFit p.payload → ∀ p' : Packet, p'.type = p.type → p'.payloadLen = p.payloadLen → p'.payload = p.payload →
        onDataReceived p' r = onDataReceived p r) := by
  obtain ⟨ht, hlen⟩ := received_packets hd hp
  have hstays : Stays p.payloadLen.toNat (onDataReceived p r) ↔ ItemsFit p.payload := by
    rw [onDataReceived_eq ht]
    exact stays_onItems hlen.le (by omega)
  refine ⟨hstays, fun hfit p' ht' hl hpay => ?_⟩
  have hin := hstays.2 hfit
  rw [onDataReceived_eq ht] at hin
  rw [onDataReceived_eq ht, onDataReceived_eq (ht'.trans ht), hl, onItems_congr hpay.symm hl.symm hin]

/-- An acceleration item and an ID item, delivered from a frame. -/
theorem items_in_bounds_two :
    ∃ d p, feed (encode [0xA0, 1, 0, 2, 0, 3, 0, 0x90, 7]) .init = some d ∧ p ∈ d.received ∧
      (Stays p.payloadLen.toNat (onDataReceived p {}) ↔ ItemsFit p.payload) := by
  obtain ⟨d, p, hd, hp, -⟩ :=
    exists_received (by decide : 1 ≤ ([0xA0, 1, 0, 2, 0, 3, 0, 0x90, 7] : List UInt8).length) (by decide)
  exact ⟨d, p, hd, hp, (items_in_bounds hd hp {}).1⟩

/-- A packet of a stream, and an access of the loop over its items, by evaluation. -/
theorem access_of_stream (stream : List UInt8) (a : Access) (n : UInt16)
    (h : (feed stream .init).map (fun d => d.received.map fun p =>
      (p.payloadLen, decide (a ∈ (onDataReceived p {}).accesses))) = some [(n, true)]) :
    ∃ d p, feed stream .init = some d ∧ p ∈ d.received ∧ p.payloadLen = n ∧ a ∈ (onDataReceived p {}).accesses := by
  obtain ⟨d, hd, hmap⟩ := Option.map_eq_some_iff.1 h
  obtain ⟨p, hp, heq⟩ := List.map_eq_singleton_iff.1 hmap
  rw [Prod.mk.injEq, decide_eq_true_eq] at heq
  exact ⟨d, p, hd, by simp [hp], heq.1, heq.2⟩

/-- **An item is read past the end of its payload, and an element past the end of the array is written**: an acceleration
item of one byte, and a gateway item of 17 elements that has none. -/
theorem items_run_over :
    (¬∀ (stream : List UInt8) (d : Decoder) (p : Packet) (r : Received), feed stream .init = some d → p ∈ d.received →
      1 ≤ p.payloadLen.toNat ∧ p.payloadLen.toNat ≤ 2047 →
        ∀ i, .byte i ∈ (onDataReceived p r).accesses → i < p.payloadLen.toNat) ∧
    ¬∀ (stream : List UInt8) (d : Decoder) (p : Packet) (r : Received), feed stream .init = some d → p ∈ d.received →
      1 ≤ p.payloadLen.toNat ∧ p.payloadLen.toNat ≤ 2047 →
        ∀ i, .element i ∈ (onDataReceived p r).accesses → i < maxLength := by
  constructor
  · intro hall
    obtain ⟨d, p, hd, hp, hlen, hread⟩ := access_of_stream (encode [0xA0]) (.byte 6) 1 (by decide +kernel)
    have hlt := hall _ d p {} hd hp (by simp [hlen]) 6 hread
    simp [hlen] at hlt
  · intro hall
    obtain ⟨d, p, hd, hp, hlen, hwrite⟩ := access_of_stream (encode [0x62, 0, 17]) (.element 16) 3
      (by decide +kernel)
    have hlt := hall _ d p {} hd hp (by simp [hlen]) 16 hwrite
    exact absurd hlt (by decide)

end Agilex.Imu
