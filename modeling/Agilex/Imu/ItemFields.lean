import Agilex.Imu.DecodeBounds
import Agilex.Lib.Sequence

/-!
# What the items of a packet carry

A payload made of whole items, in any order and number. Most items are read where they stand, but the switch reads the
byte of an ID item at `p[1]`, and the time and the floats of an IMUSOL item at `p + 8` and `p + 12`, wherever these items
stand: at fixed places of the payload. `ItemID.value` is what an item gives a field, with the bytes of the item and those
at the fixed places told apart; a field gets the value of the last item that carries it (`onItems_stored`), and that is
the value in the item's own bytes exactly when the fixed places hold the same bytes (`OwnPlace`).
-/

namespace Agilex.Imu

open Agilex.Lib

variable {p : Packet} {o : ℕ} {r : Received}

/-! ## Fields -/

/-- The fields of `receive_imusol` that items carry. -/
inductive Field where
  | id | times | acc | gyr | mag | eul | quat
  deriving DecidableEq, Repr

/-- The words of a field. -/
def ImusolPacket.get (r : ImusolPacket) : Field → List UInt32
  | .id => [r.id.toUInt32]
  | .times => [r.times]
  | .acc => r.acc.toList
  | .gyr => r.gyr.toList
  | .mag => r.mag.toList
  | .eul => r.eul.toList
  | .quat => r.quat.toList

/-- What an item with the bytes `own` gives a field, and nothing for a field that it does not carry; what the switch
reads at a fixed place is taken from `fixed`. -/
def ItemID.value (own fixed : List UInt8) : ItemID → Field → Option (List UInt32)
  | .id, .id => some [(fixed.getD 1 0).toUInt32]
  | .accRaw, .acc =>
    let temp := int16At (slice own 1 6)
    some [floatDiv (temp 0) 1000, floatDiv (temp 1) 1000, floatDiv (temp 2) 1000]
  | .gyrRaw, .gyr | .gyrRawYunjing, .gyr | .magRaw, .mag =>
    let temp := int16At (slice own 1 6)
    some [floatDiv (temp 0) 10, floatDiv (temp 1) 10, floatDiv (temp 2) 10]
  | .rotationEul, .eul =>
    let temp := int16At (slice own 1 6)
    some [floatDiv (temp 1) 100, floatDiv (temp 0) 100, floatDiv (temp 2) 10]
  | .rotationQuat, .quat => some (words 4 (slice own 1 16)).toList
  | .imusol, .id => some [(own.getD 1 0).toUInt32]
  | .imusol, .times => some (words 1 (slice fixed 8 4)).toList
  | .imusol, .acc => some (words 3 (slice fixed 12 12)).toList
  | .imusol, .gyr => some (words 3 (slice fixed 24 12)).toList
  | .imusol, .mag => some (words 3 (slice fixed 36 12)).toList
  | .imusol, .eul => some (words 3 (slice fixed 48 12)).toList
  | .imusol, .quat => some (words 4 (slice fixed 60 16)).toList
  | _, _ => none

/-! ## Whole items -/

/-- A whole item of any kind but the gateway's: its tag and its data. -/
structure Item where
  kind : ItemID
  data : List UInt8
  plain : kind ≠ .gwsol
  size : data.length + 1 = kind.size

namespace Item

def bytes (i : Item) : List UInt8 := i.kind.code :: i.data

@[simp] theorem length_bytes (i : Item) : i.bytes.length = i.kind.size := i.size

theorem size_pos (i : Item) : 0 < i.kind.size := by
  rw [← i.size]
  omega

/-- The value of a field in the item's own bytes. -/
def value (i : Item) (f : Field) : Option (List UInt32) := i.kind.value i.bytes i.bytes f

/-- The value the switch gives a field for this item. -/
def valueIn (payload : List UInt8) (f : Field) (i : Item) : Option (List UInt32) := i.kind.value i.bytes payload f

end Item

/-- The bytes of some items, one after the other. -/
def itemBytes (items : List Item) : List UInt8 := items.flatMap Item.bytes

/-- The place of a field in an ID or IMUSOL item, and its width. -/
def Field.place : Field → ℕ × ℕ
  | .id => (1, 1)
  | .times => (8, 4)
  | .acc => (12, 12)
  | .gyr => (24, 12)
  | .mag => (36, 12)
  | .eul => (48, 12)
  | .quat => (60, 16)

/-- The fields the switch reads at a fixed place. -/
def ItemID.readsFixed : ItemID → Field → Bool
  | .id, .id => true
  | .imusol, .id => false
  | .imusol, _ => true
  | _, _ => false

/-- Where the last item that carries a field is read at a fixed place, the payload has the item's own bytes there. -/
def OwnPlace (items : List Item) : Prop :=
  ∀ (f : Field) (pre : List Item) (item : Item) (post : List Item), items = pre ++ item :: post →
    item.kind.readsFixed f = true → (∀ later ∈ post, later.value f = none) →
      slice (itemBytes items) f.place.1 f.place.2 = slice (itemBytes items) ((itemBytes pre).length + f.place.1) f.place.2

/-! ## One item -/

/-- What an item leaves in the received data. -/
structure Stored (payload : List UInt8) (items : List Item) (r r' : Received) : Prop where
  tag : r'.receiveImusol.tag = r.receiveImusol.tag
  get : ∀ f, r'.receiveImusol.get f = lastValue (Item.valueIn payload f) items (r.receiveImusol.get f)

/-- **A whole item** is read, and the fields it carries are set. -/
theorem onItem_stored (hlen : p.payloadLen.toNat ≤ maxPacketLen) (i : Item) (hfit : o + i.kind.size ≤ p.payloadLen.toNat)
    (hown : slice p.payload o i.kind.size = i.bytes) (r : Received) :
    ∃ r', (onItem p o r).result = some (o + i.kind.size, r') ∧ Stored p.payload [i] r r' := by
  have hcopy : ∀ a n, a + n ≤ p.payloadLen.toNat → (p.copy a n).result = some (slice p.payload a n) := by
    intro a n ha
    rw [copy_result (by omega), Packet.payload, slice_take _ ha]
  have hread : ∀ a < p.payloadLen.toNat, (p.read a).result = some (p.payload.getD a 0) := by
    intro a ha
    rw [read_result (by omega), getD_payload ha]
  have hownCopy : ∀ a n, a + n ≤ i.kind.size → (p.copy (o + a) n).result = some (slice i.bytes a n) := by
    intro a n ha
    rw [hcopy _ _ (by omega), ← slice_slice _ ha, hown]
  have hownRead : ∀ a < i.kind.size, (p.read (o + a)).result = some (i.bytes.getD a 0) := by
    intro a ha
    have hget : i.bytes.getD a 0 = p.payload.getD (o + a) 0 := by
      rw [← hown, slice, List.getD_eq_getElem?_getD, List.getElem?_take_of_lt ha, List.getElem?_drop,
        List.getD_eq_getElem?_getD]
    rw [hread _ (by omega), hget]
  have htag : (p.read o).result = some i.kind.code := hownRead 0 i.size_pos
  obtain ⟨kind, data, plain, size⟩ := i
  unfold onItem
  rw [Traced.result_bind, htag, Option.bind_some, ItemID.ofCode_code]
  cases kind with
  | gwsol => exact absurd rfl plain
  | id =>
    have htwo : 1 < p.payloadLen.toNat := by
      simp only [ItemID.size] at hfit
      omega
    simp only [Traced.result_bind, hread 1 htwo, Option.bind_some, Traced.result_pure]
    refine ⟨_, rfl, rfl, fun f => ?_⟩
    cases f <;> rfl
  | accRaw | gyrRaw | gyrRawYunjing | magRaw | rotationEul =>
    simp only [Traced.result_bind, hownCopy 1 6 (by simp [ItemID.size]), Option.bind_some, Traced.result_pure,
      getElem_stream2int16]
    refine ⟨_, rfl, rfl, fun f => ?_⟩
    cases f <;> rfl
  | rotationQuat =>
    simp only [Traced.result_bind, hownCopy 1 16 (by simp [ItemID.size]), Option.bind_some, Traced.result_pure]
    refine ⟨_, rfl, rfl, fun f => ?_⟩
    cases f <;> rfl
  | pressure =>
    refine ⟨_, rfl, rfl, fun f => ?_⟩
    cases f <;> rfl
  | imusol =>
    have hlong : 76 ≤ p.payloadLen.toNat := by
      simp only [ItemID.size] at hfit
      omega
    have hsrc : ∀ a n, a + n ≤ 64 → slice (slice p.payload 12 64) a n = slice p.payload (12 + a) n :=
      fun a n ha => slice_slice _ ha
    simp only [Traced.result_bind, hownRead 1 (by simp [ItemID.size]), hcopy 8 4 (by omega), hcopy 12 64 (by omega),
      Option.bind_some, Traced.result_pure]
    refine ⟨_, rfl, rfl, fun f => ?_⟩
    cases f with
    | id => rfl
    | times => rfl
    | acc | gyr | mag | eul | quat =>
      simp only [ImusolPacket.get, ImusolPacket.copyToAcc]
      rw [hsrc _ _ (by omega)]
      rfl

/-! ## The loop -/

theorem Stored.nil (payload : List UInt8) (r : Received) : Stored payload [] r r := ⟨rfl, fun _ => rfl⟩

/-- Items one after the other. -/
theorem Stored.cons {payload : List UInt8} {i : Item} {items : List Item} {r r' r'' : Received}
    (h : Stored payload [i] r r') (h' : Stored payload items r' r'') : Stored payload (i :: items) r r'' where
  tag := h'.tag.trans h.tag
  get f := by
    have hone := h.get f
    rw [lastValue_cons] at hone
    rw [h'.get f, hone, lastValue_cons]
    rfl

theorem itemBytes_cons (i : Item) (items : List Item) : itemBytes (i :: items) = i.bytes ++ itemBytes items :=
  List.flatMap_cons

/-- An item, cut out of the payload. -/
theorem slice_item (pre : List Item) (i : Item) (post : List Item) :
    slice (itemBytes pre ++ itemBytes (i :: post)) (itemBytes pre).length i.kind.size = i.bytes := by
  have hright := slice_append_right (itemBytes pre) (itemBytes (i :: post)) 0 i.kind.size
  rw [Nat.add_zero] at hright
  rw [hright, itemBytes_cons, slice_append (by simp), ← i.length_bytes, slice_self]

/-- **The items of a payload** are read one after the other, each from its own offset. -/
theorem onItems_stored {items pre : List Item} (hlen : p.payloadLen.toNat ≤ maxPacketLen)
    (hpay : p.payload = itemBytes pre ++ itemBytes items) {turns : ℕ}
    (hturns : p.payloadLen.toNat ≤ (itemBytes pre).length + turns) (r : Received) :
    ∃ r', (onItems p turns (itemBytes pre).length r).result = some r' ∧ Stored p.payload items r r' := by
  induction items generalizing pre r with
  | nil =>
    have htotal : p.payloadLen.toNat = (itemBytes pre).length := by
      rw [← length_payload hlen, hpay]
      simp [itemBytes]
    rw [onItems_loop hturns, if_neg (by omega)]
    exact ⟨r, rfl, .nil _ _⟩
  | cons i items ih =>
    have htotal : p.payloadLen.toNat = (itemBytes pre).length + i.kind.size + (itemBytes items).length := by
      rw [← length_payload hlen, hpay, itemBytes_cons, List.length_append, List.length_append, i.length_bytes]
      omega
    have hpos := i.size_pos
    have hown : slice p.payload (itemBytes pre).length i.kind.size = i.bytes := by rw [hpay, slice_item]
    obtain ⟨r₁, hr₁, hstored⟩ := onItem_stored hlen i (by omega) hown r
    have hnext : (itemBytes pre).length + i.kind.size = (itemBytes (pre ++ [i])).length := by
      simp [itemBytes]
    have hrest : p.payload = itemBytes (pre ++ [i]) ++ itemBytes items := by
      rw [hpay]
      simp [itemBytes]
    obtain ⟨r₂, hr₂, hstored₂⟩ := ih hrest (by omega) r₁
    refine ⟨r₂, ?_, hstored.cons hstored₂⟩
    rw [onItems_loop hturns, if_pos (by omega), Traced.result_bind, hr₁, Option.bind_some, hnext]
    exact hr₂

/-- **A payload of whole items**: every field ends with what the last item that carries it gives. -/
theorem onDataReceived_stored {items : List Item} (ht : p.type = 0xA5) (hlen : p.payloadLen.toNat ≤ maxPacketLen)
    (hpay : p.payload = itemBytes items) (r : Received) :
    ∃ r', (onDataReceived p r).result = some r' ∧ Stored (itemBytes items) items r r' := by
  have hsplit : p.payload = itemBytes [] ++ itemBytes items := hpay
  obtain ⟨r', hr', hstored⟩ := onItems_stored hlen hsplit (Nat.le_add_left _ _) { r with bitmap := 0 }
  rw [hpay] at hstored
  rw [onDataReceived_eq ht]
  exact ⟨r', hr', hstored.tag, hstored.get⟩

/-! ## Own bytes and fixed places -/

/-- Words are told apart by their bytes. -/
theorem words_inj {n : ℕ} {src src' : List UInt8} (hl : src.length = 4 * n) (hl' : src'.length = 4 * n)
    (h : words n src = words n src') : src = src' := by
  refine eq_of_slices hl hl' fun i hi => ?_
  have hlen : (slice src (4 * i) 4).length = 4 := length_slice (by omega)
  have hlen' : (slice src' (4 * i) 4).length = 4 := length_slice (by omega)
  have hlt := wordValue_lt false (slice src (4 * i) 4)
  have hlt' := wordValue_lt false (slice src' (4 * i) 4)
  have hword := congrArg UInt32.toNat (congrArg (·[i]) h)
  simp only [words, Vector.getElem_ofFn] at hword
  rw [UInt32.toNat_ofNat_of_lt' (by rw [hlen] at hlt; exact hlt),
    UInt32.toNat_ofNat_of_lt' (by rw [hlen'] at hlt'; exact hlt')] at hword
  exact wordValue_inj (hlen.trans hlen'.symm) hword

/-- Whether an item carries a field does not depend on its bytes. -/
theorem value_eq_none {kind : ItemID} {f : Field} (own fixed own' fixed' : List UInt8) :
    kind.value own fixed f = none ↔ kind.value own' fixed' f = none := by
  cases kind <;> cases f <;> simp [ItemID.value]

theorem place_le {kind : ItemID} {f : Field} (h : kind.readsFixed f = true) : f.place.1 + f.place.2 ≤ kind.size := by
  cases kind <;> cases f <;> first | exact absurd h (by decide) | decide

/-- What is read at a fixed place is told apart by the bytes there. -/
theorem value_fixed_iff {kind : ItemID} {f : Field} (h : kind.readsFixed f = true) {own fixed fixed' : List UInt8}
    (hl : f.place.1 + f.place.2 ≤ fixed.length) (hl' : f.place.1 + f.place.2 ≤ fixed'.length) :
    kind.value own fixed f = kind.value own fixed' f ↔
      slice fixed f.place.1 f.place.2 = slice fixed' f.place.1 f.place.2 := by
  have hwords : ∀ n a, a + 4 * n ≤ fixed.length → a + 4 * n ≤ fixed'.length →
      (some (words n (slice fixed a (4 * n))).toList = some (words n (slice fixed' a (4 * n))).toList ↔
        slice fixed a (4 * n) = slice fixed' a (4 * n)) := by
    intro n a ha ha'
    rw [Option.some.injEq, Vector.toList_inj]
    exact ⟨words_inj (length_slice ha) (length_slice ha'), congrArg _⟩
  cases kind with
  | id =>
    cases f with
    | id =>
      have hbyte : ∀ l : List UInt8, 2 ≤ l.length → slice l 1 1 = [l.getD 1 0]
        | [], h | [_], h => absurd h (by simp)
        | _ :: _ :: _, _ => rfl
      simp only [Field.place] at hl hl' ⊢
      rw [hbyte fixed hl, hbyte fixed' hl']
      simp [ItemID.value, ← UInt32.toNat_inj, ← UInt8.toNat_inj]
    | _ => exact absurd h (by decide)
  | imusol =>
    cases f with
    | id => exact absurd h (by decide)
    | times => exact hwords 1 8 hl hl'
    | acc => exact hwords 3 12 hl hl'
    | gyr => exact hwords 3 24 hl hl'
    | mag => exact hwords 3 36 hl hl'
    | eul => exact hwords 3 48 hl hl'
    | quat => exact hwords 4 60 hl hl'
  | _ => exact absurd h (by cases f <;> decide)

/-- What the switch reads elsewhere is the item's own. -/
theorem value_own {kind : ItemID} {f : Field} (h : kind.readsFixed f = false) (own fixed fixed' : List UInt8) :
    kind.value own fixed f = kind.value own fixed' f := by
  cases kind <;> cases f <;> first | exact absurd h (by decide) | rfl

/-- The value of an item is the one in its own bytes when the fixed place has these. -/
theorem value_eq_valueIn_iff (pre : List Item) (i : Item) (post : List Item) (f : Field) :
    i.value f = i.valueIn (itemBytes (pre ++ i :: post)) f ↔
      (i.kind.readsFixed f = true →
        slice (itemBytes (pre ++ i :: post)) f.place.1 f.place.2 =
          slice (itemBytes (pre ++ i :: post)) ((itemBytes pre).length + f.place.1) f.place.2) := by
  unfold Item.value Item.valueIn
  cases hfixed : i.kind.readsFixed f with
  | false => simp [value_own hfixed i.bytes i.bytes (itemBytes (pre ++ i :: post))]
  | true =>
    have hplace := place_le hfixed
    have hsplit : itemBytes (pre ++ i :: post) = itemBytes pre ++ itemBytes (i :: post) := List.flatMap_append
    have hlong : f.place.1 + f.place.2 ≤ (itemBytes (pre ++ i :: post)).length := by
      rw [hsplit, itemBytes_cons, List.length_append, List.length_append, i.length_bytes]
      omega
    have hown : slice i.bytes f.place.1 f.place.2 =
        slice (itemBytes (pre ++ i :: post)) ((itemBytes pre).length + f.place.1) f.place.2 := by
      rw [← slice_slice _ hplace, hsplit, slice_item]
    rw [value_fixed_iff hfixed (by rw [i.length_bytes]; exact hplace) hlong, hown]
    simp [eq_comm]

/-- **Where the fields of a payload come from.** For every packet of whole items, `on_data_received` ends with every
field equal to the value in the own bytes of the last item that carries it, and the fields that no item carries
unchanged, if and only if the payload has, at each fixed place that the last item of a field is read from, that item's own
bytes. -/
theorem fields_of_items {items : List Item} (ht : p.type = 0xA5) (hlen : p.payloadLen.toNat ≤ 2047)
    (hpay : p.payload = itemBytes items) (r : Received) :
    (∃ r', (onDataReceived p r).result = some r' ∧ r'.receiveImusol.tag = r.receiveImusol.tag ∧
      ∀ f, r'.receiveImusol.get f = lastValue (fun i => i.value f) items (r.receiveImusol.get f)) ↔ OwnPlace items := by
  have hmax : p.payloadLen.toNat ≤ maxPacketLen := hlen.trans (by decide)
  obtain ⟨r₁, hr₁, hstored⟩ := onDataReceived_stored ht hmax hpay r
  have hfield : ∀ f, r₁.receiveImusol.get f = lastValue (fun i => i.value f) items (r.receiveImusol.get f) ↔
      ∀ pre i post, items = pre ++ i :: post → (∀ later ∈ post, later.value f = none) →
        i.value f = i.valueIn (itemBytes items) f := by
    intro f
    rw [hstored.get f, eq_comm]
    exact lastValue_eq_iff fun i => value_eq_none _ _ _ _
  constructor
  · rintro ⟨r', hr', -, hget⟩ f pre i post hitems hfixed hlater
    obtain rfl : r₁ = r' := Option.some.inj (hr₁.symm.trans hr')
    have heq := (hfield f).1 (hget f) pre i post hitems hlater
    subst hitems
    exact (value_eq_valueIn_iff pre i post f).1 heq hfixed
  · intro hown
    refine ⟨r₁, hr₁, hstored.tag, fun f => (hfield f).2 fun pre i post hitems hlater => ?_⟩
    subst hitems
    exact (value_eq_valueIn_iff pre i post f).2 fun hfixed => hown f pre i post rfl hfixed hlater

/-- An acceleration item and an ID item. -/
def accItem : Item := ⟨.accRaw, [1, 0, 2, 0, 3, 0], by decide, by decide⟩
def idItem : Item := ⟨.id, [7], by decide, by decide⟩

/-- The ID item comes first. -/
theorem fields_of_items_id_first :
    ∃ p : Packet, p.payload = itemBytes [idItem, accItem] ∧
      ((∃ r', (onDataReceived p {}).result = some r' ∧ r'.receiveImusol.tag = 0 ∧
        ∀ f, r'.receiveImusol.get f =
          lastValue (fun i => i.value f) [idItem, accItem] (({} : ImusolPacket).get f)) ↔ OwnPlace [idItem, accItem]) := by
  obtain ⟨d, p, -, -, hpay, ht, hlen⟩ :=
    exists_received (by decide : 1 ≤ (itemBytes [idItem, accItem]).length) (by decide)
  exact ⟨p, hpay, fields_of_items ht (by unfold maxPacketLen at hlen; omega) hpay {}⟩

/-- **An ID item after another item**: the id received is a byte of the other item. -/
theorem id_of_another_item :
    ¬∀ (p : Packet) (items : List Item) (r : Received), p.type = 0xA5 → p.payloadLen.toNat ≤ 2047 →
      p.payload = itemBytes items →
        ∃ r', (onDataReceived p r).result = some r' ∧ r'.receiveImusol.tag = r.receiveImusol.tag ∧
          ∀ f, r'.receiveImusol.get f = lastValue (fun i => i.value f) items (r.receiveImusol.get f) := by
  intro hall
  obtain ⟨d, p, -, -, hpay, ht, hlen⟩ :=
    exists_received (by decide : 1 ≤ (itemBytes [accItem, idItem]).length) (by decide)
  obtain ⟨r₁, hr₁, hstored⟩ := onDataReceived_stored ht hlen.le hpay {}
  obtain ⟨r', hr', -, hget⟩ := hall p _ {} ht (by unfold maxPacketLen at hlen; omega) hpay
  obtain rfl : r₁ = r' := Option.some.inj (hr₁.symm.trans hr')
  have hid := (hstored.get .id).symm.trans (hget .id)
  exact absurd hid (by decide)

end Agilex.Imu
