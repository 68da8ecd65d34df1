import LightningX.Lib.Bytes
import LightningX.Matching.Engine.Restore

/-!
# Snapshots as bytes

`matching/engine_snapshot.rs`.  A buffer is read as a snapshot exactly if it begins with the
bytes of that snapshot and nothing of it is lost in them; what follows is not looked at.
-/

namespace LightningX.Matching

open List Bytes

def magic : List UInt8 := [69, 83, 78, 49]

def Side.byte : Side → UInt8
  | .buy => 0
  | .sell => 1

def TimeInForce.byte : TimeInForce → UInt8
  | .gtc => 0
  | .ioc => 1
  | .fok => 2
  | .postOnly => 3

def Order.bytes (order : Order) : List UInt8 :=
  leBytes 8 order.id ++ ([order.side.byte] ++ ([order.timeInForce.byte] ++
    (i64Bytes order.priceTicks ++ (i64Bytes order.quantityLots ++ leBytes 8 order.timestamp))))

def readSide : UInt8 → Option Side
  | 0 => some .buy
  | 1 => some .sell
  | _ => none

def readTimeInForce : UInt8 → Option TimeInForce
  | 0 => some .gtc
  | 1 => some .ioc
  | 2 => some .fok
  | 3 => some .postOnly
  | _ => none

/-- Body of the loop of `deserialize`. -/
def readOrder (buf : List UInt8) (p : Nat) : Option Order := do
  let side ← buf[p + 8]?.bind readSide
  let timeInForce ← buf[p + 9]?.bind readTimeInForce
  some (Order.new (ofLeBytes (slice buf p 8)) side (wrapI64 (ofLeBytes (slice buf (p + 10) 8)))
    (wrapI64 (ofLeBytes (slice buf (p + 18) 8))) timeInForce (ofLeBytes (slice buf (p + 26) 8)))

/-- Loop of `deserialize`. -/
def readOrders (buf : List UInt8) : Nat → Nat → Option (List Order)
  | 0, _ => some []
  | count + 1, p =>
    if p + 34 > buf.length then none
    else (readOrder buf p).bind fun order => (readOrders buf count (p + 34)).map (order :: ·)

/-- The bytes that a record at this place must have. -/
def OrderAt (buf : List UInt8) (p : Nat) : Prop :=
  (∃ side ∈ buf[p + 8]?, side ≤ 1) ∧ ∃ timeInForce ∈ buf[p + 9]?, timeInForce ≤ 3
deriving Decidable

/-- The order as `Order::new` makes one, and in the range of its types. -/
def Order.Plain (order : Order) : Prop :=
  order.filledLots = 0 ∧ order.isMarket = false ∧ order.id < 256 ^ 8 ∧
    InI64 order.priceTicks ∧ InI64 order.quantityLots ∧ order.timestamp < 256 ^ 8
deriving Decidable

namespace EngineSnapshot

def serialize (snapshot : EngineSnapshot) : List UInt8 :=
  magic ++ (leBytes 8 snapshot.nextOrderId ++ (leBytes 8 snapshot.tradeSequence ++
    (leBytes 4 snapshot.orders.length ++ snapshot.orders.flatMap Order.bytes)))

/-- The number of orders that a buffer announces. -/
def orderCount (buf : List UInt8) : Nat :=
  ofLeBytes (slice buf 20 4)

def deserialize (buf : List UInt8) : Option EngineSnapshot :=
  if buf.length < 24 ∨ slice buf 0 4 ≠ magic then none
  else
    (readOrders buf (orderCount buf) 24).map fun orders =>
      { orders := orders
        nextOrderId := ofLeBytes (slice buf 4 8)
        tradeSequence := ofLeBytes (slice buf 12 8) }

/-- The buffer has the magic and all the orders it announces, each with the byte of a side and
that of a time in force. -/
def WellFormed (buf : List UInt8) : Prop :=
  24 + 34 * orderCount buf ≤ buf.length ∧ slice buf 0 4 = magic ∧
    ∀ index < orderCount buf, OrderAt buf (24 + 34 * index)

/-- Nothing of the snapshot is lost in its bytes. -/
def Savable (snapshot : EngineSnapshot) : Prop :=
  snapshot.nextOrderId < 256 ^ 8 ∧ snapshot.tradeSequence < 256 ^ 8 ∧
    snapshot.orders.length < 256 ^ 4 ∧ ∀ order ∈ snapshot.orders, order.Plain

end EngineSnapshot

variable {buf : List UInt8} {p : Nat} {order : Order} {orders : List Order}

theorem readSide_eq_some_iff : readSide byte = some side ↔ byte = side.byte := by
  unfold readSide Side.byte
  split <;> cases side <;> simp_all

theorem readTimeInForce_eq_some_iff :
    readTimeInForce byte = some timeInForce ↔ byte = timeInForce.byte := by
  unfold readTimeInForce TimeInForce.byte
  split <;> cases timeInForce <;> simp_all

theorem isSome_readSide (byte : UInt8) : (readSide byte).isSome ↔ byte ≤ 1 := by
  unfold readSide
  split <;> grind

theorem isSome_readTimeInForce (byte : UInt8) : (readTimeInForce byte).isSome ↔ byte ≤ 3 := by
  unfold readTimeInForce
  split <;> grind

theorem isSome_readOrder (buf : List UInt8) (p : Nat) :
    (readOrder buf p).isSome ↔ OrderAt buf p := by
  simp only [readOrder, OrderAt, Option.bind_eq_bind, ← isSome_readSide,
    ← isSome_readTimeInForce]
  cases buf[p + 8]? with
  | none => simp
  | some side =>
    cases buf[p + 9]? with
    | none => simp
    | some timeInForce =>
      simp only [Option.bind_some, Option.mem_some_iff, exists_eq_left']
      cases readSide side <;> cases readTimeInForce timeInForce <;> simp

theorem readOrder_eq_some_iff (fits : p + 34 ≤ buf.length) :
    readOrder buf p = some order ↔ order.Plain ∧ slice buf p 34 = order.bytes := by
  have fields : slice buf p 34 = order.bytes ↔
      slice buf p 8 = leBytes 8 order.id ∧ buf[p + 8]? = some order.side.byte ∧
        buf[p + 9]? = some order.timeInForce.byte ∧
        slice buf (p + 10) 8 = i64Bytes order.priceTicks ∧
        slice buf (p + 18) 8 = i64Bytes order.quantityLots ∧
        slice buf (p + 26) 8 = leBytes 8 order.timestamp := by
    rw [Order.bytes, show 34 = 8 + (1 + (1 + (8 + (8 + 8)))) from rfl,
      slice_eq_append_iff (length_leBytes 8 _) (by omega),
      slice_eq_append_iff length_singleton (by omega),
      slice_eq_append_iff length_singleton (by omega),
      slice_eq_append_iff (length_i64Bytes _) (by omega),
      slice_eq_append_iff (length_i64Bytes _) (by omega), slice_one_eq_iff, slice_one_eq_iff]
  have number (start value : Nat) (inside : start + 8 ≤ buf.length) :
      ofLeBytes (slice buf start 8) = value ↔ _ := ofLeBytes_eq_iff (length_slice inside)
  have signed (start : Nat) (value : Int) (inside : start + 8 ≤ buf.length) :
      wrapI64 (ofLeBytes (slice buf start 8)) = value ↔ _ :=
    wrapI64_ofLeBytes_eq_iff (length_slice inside)
  rw [fields]
  cases order
  simp only [readOrder, Option.bind_eq_bind, Option.bind_eq_some_iff, readSide_eq_some_iff,
    readTimeInForce_eq_some_iff, Order.new, Option.some.injEq, Order.mk.injEq, Order.Plain,
    number p _ (by omega), number (p + 26) _ (by omega), signed (p + 10) _ (by omega),
    signed (p + 18) _ (by omega)]
  grind

@[simp] theorem Order.length_bytes (order : Order) : order.bytes.length = 34 := by
  simp [bytes]

/-- The loop reads the orders whose bytes lie behind each other. -/
theorem readOrders_eq_some_iff {count : Nat} (inside : p ≤ buf.length) :
    readOrders buf count p = some orders ↔
      orders.length = count ∧ p + 34 * count ≤ buf.length ∧ (∀ order ∈ orders, order.Plain) ∧
        slice buf p (34 * count) = orders.flatMap Order.bytes := by
  induction count generalizing p orders with
  | zero =>
    simp only [readOrders, Option.some.injEq]
    constructor
    · rintro rfl
      simpa [slice] using inside
    · rintro ⟨none, -⟩
      exact (length_eq_zero_iff.mp none).symm
  | succ count ih =>
    unfold readOrders
    split_ifs with short
    · simp only [false_iff]
      omega
    · have fits : p + 34 ≤ buf.length := by omega
      have rest := fun tail => @ih (p + 34) tail fits
      simp only [Option.bind_eq_some_iff, Option.map_eq_some_iff, readOrder_eq_some_iff fits, rest]
      rw [show 34 * (count + 1) = 34 + 34 * count by omega]
      cases orders with
      | nil => simp
      | cons order tail =>
        rw [flatMap_cons, slice_eq_append_iff order.length_bytes fits, forall_mem_cons]
        grind

theorem isSome_readOrders {count : Nat} (inside : p ≤ buf.length) :
    (readOrders buf count p).isSome ↔
      p + 34 * count ≤ buf.length ∧ ∀ index < count, OrderAt buf (p + 34 * index) := by
  induction count generalizing p with
  | zero => simpa [readOrders] using inside
  | succ count ih =>
    unfold readOrders
    split_ifs with short
    · simp only [Option.isSome_none, Bool.false_eq_true, false_iff]
      omega
    · have step : (∀ index < count + 1, OrderAt buf (p + 34 * index)) ↔
          OrderAt buf p ∧ ∀ index < count, OrderAt buf (p + 34 + 34 * index) := by
        simp only [Nat.forall_lt_succ_left', Nat.mul_zero, Nat.add_zero]
        grind
      rw [step, ← isSome_readOrder, show p + 34 * (count + 1) = p + 34 + 34 * count by omega]
      have rest := @ih (p + 34) (by omega)
      cases readOrder buf p with
      | none => simp
      | some order => simpa using rest

namespace EngineSnapshot

/-- The inputs that are refused, by their bytes. -/
theorem isSome_deserialize (buf : List UInt8) : (deserialize buf).isSome ↔ WellFormed buf := by
  unfold deserialize WellFormed
  split_ifs with refused
  · simp only [Option.isSome_none, Bool.false_eq_true, false_iff]
    grind
  · have header : 24 ≤ buf.length := by omega
    rw [Option.isSome_map, isSome_readOrders header]
    grind

theorem length_serialize (snapshot : EngineSnapshot) :
    snapshot.serialize.length = 24 + 34 * snapshot.orders.length := by
  simp [serialize, magic, length_flatMap]
  omega

/-- The bytes of a snapshot in a buffer, field by field. -/
theorem serialize_prefix_iff (snapshot : EngineSnapshot) (buf : List UInt8) :
    snapshot.serialize <+: buf ↔
      24 + 34 * snapshot.orders.length ≤ buf.length ∧ slice buf 0 4 = magic ∧
        slice buf 4 8 = leBytes 8 snapshot.nextOrderId ∧
        slice buf 12 8 = leBytes 8 snapshot.tradeSequence ∧
        slice buf 20 4 = leBytes 4 snapshot.orders.length ∧
        slice buf 24 (34 * snapshot.orders.length) = snapshot.orders.flatMap Order.bytes := by
  rw [prefix_iff_eq_take, length_serialize, eq_comm]
  by_cases fits : 24 + 34 * snapshot.orders.length ≤ buf.length
  · have width : 24 + 34 * snapshot.orders.length =
        4 + (8 + (8 + (4 + 34 * snapshot.orders.length))) := by omega
    rw [and_iff_right fits, width, serialize]
    change slice buf 0 _ = _ ↔ _
    rw [slice_eq_append_iff (m := 4) rfl (by omega),
      slice_eq_append_iff (length_leBytes 8 _) (by omega),
      slice_eq_append_iff (length_leBytes 8 _) (by omega),
      slice_eq_append_iff (length_leBytes 4 _) (by omega)]
  · have length := length_serialize snapshot
    grind

theorem deserialize_eq_some_iff (snapshot : EngineSnapshot) (buf : List UInt8) :
    deserialize buf = some snapshot ↔ snapshot.Savable ∧ snapshot.serialize <+: buf := by
  rw [serialize_prefix_iff]
  unfold deserialize
  split_ifs with refused
  · simp only [false_iff]
    grind
  · have header : 24 ≤ buf.length := by omega
    have number (start width value : Nat) (inside : start + width ≤ buf.length) :
        ofLeBytes (slice buf start width) = value ↔ _ := ofLeBytes_eq_iff (length_slice inside)
    have count := number 20 4 snapshot.orders.length (by omega)
    cases snapshot
    simp only [Option.map_eq_some_iff, readOrders_eq_some_iff header, mk.injEq, Savable,
      number 4 8 _ (by omega), number 12 8 _ (by omega)]
    grind [orderCount]

/-- A snapshot comes back from its bytes, and a buffer that is read as a snapshot is the bytes
of that snapshot, exactly if nothing of the snapshot is lost and the buffer is malformed or has
the length that it announces. -/
theorem deserialize_exact_iff (snapshot : EngineSnapshot) (buf : List UInt8) :
    (deserialize snapshot.serialize = some snapshot ∧
        ∀ read ∈ deserialize buf, buf = read.serialize) ↔
      snapshot.Savable ∧ (WellFormed buf → buf.length = 24 + 34 * orderCount buf) := by
  refine and_congr ?_ ?_
  · rw [deserialize_eq_some_iff]
    exact and_iff_left (prefix_refl _)
  · rw [← isSome_deserialize]
    cases found : deserialize buf with
    | none => simp
    | some read =>
      obtain ⟨⟨-, -, fits, -⟩, starts⟩ := (deserialize_eq_some_iff read buf).mp found
      have count : orderCount buf = read.orders.length := by
        rw [orderCount, ((serialize_prefix_iff read buf).mp starts).2.2.2.2.1,
          ofLeBytes_leBytes fits]
      have length := read.length_serialize
      simp only [Option.mem_some_iff, forall_eq', Option.isSome_some, true_imp_iff, count]
      constructor
      · rintro rfl
        exact length
      · intro same
        exact (starts.eq_of_length (length.trans same.symm)).symm

/-- A byte behind the snapshot is not noticed. -/
theorem deserialize_trailingByte :
    let snapshot : EngineSnapshot := ⟨[], 1, 0⟩
    let buf := snapshot.serialize ++ [0]
    deserialize buf = some snapshot ∧ buf ≠ snapshot.serialize := by
  decide

open MatchingEngine in
/-- A snapshot that is written, read and restored brings back every order and, if the queues
were in time order, an engine that answers alike. -/
theorem restoreResting_deserialize (config : PoolConfig) (calls : List Call)
    (savable : ((new config).run calls).1.snapshotResting.Savable) :
    let engine := ((new config).run calls).1
    ∃ read, deserialize engine.snapshotResting.serialize = some read ∧
      ((new config).restoreResting read).1.resting ~ engine.resting ∧
      (engine.InTimeOrder → ∀ later,
        (((new config).restoreResting read).1.run later).2 = (engine.run later).2) := by
  obtain ⟨book, reached⟩ := (reached_new config).run calls
  obtain ⟨restored, holds⟩ := reached.holds_recovered
  refine ⟨_, (deserialize_eq_some_iff _ _).mpr ⟨savable, prefix_rfl⟩, ?_, fun inTimeOrder => ?_⟩
  · have orders := holds.queues.perm.trans ((snapshotResting_perm _).map _)
    rw [← recovered, holds.sound.resting_eq, reached.sound.resting_eq]
    exact orders.trans reached.sound.savedOrders_asResting
  · exact (reached.sameBook_recovered_iff.mpr inTimeOrder).run

open MatchingEngine in
theorem restoreResting_sameInstant :
    ∃ read, ((new ⟨4, 4⟩).restoreResting read).1.resting ~
      ((new ⟨4, 4⟩).run sameInstant).1.resting :=
  (restoreResting_deserialize ⟨4, 4⟩ sameInstant (by unfold Savable Order.Plain; decide)).imp
    fun _ read => read.2.1

end EngineSnapshot
end LightningX.Matching
