import StellarFlow.Bytes
import StellarFlow.Foundation.Varint

/-!
# Compressed event payloads

The numeric fields of an event are written one after another as numbers of variable length:
seven bits to a byte, least significant first, and the high bit set on every byte but the last
of a field. Four flags, a sequence number and a short timestamp share one word.
-/
namespace StellarFlow.Events

open Foundation

def varintMaxLen : ℕ := 19

/-- Write the remaining value to the remaining places of the buffer. The write beyond the last
place traps, and the places that are not written stay zero. -/
def encodeLoop : ℕ → ℕ → Option ByteString
  | 0, _ => none
  | places + 1, v =>
    let byte := UInt8.ofNat (v &&& 0x7f)
    let rest := v >>> 7
    if rest ≠ 0 then do
      let out ← encodeLoop places rest
      some ((byte ||| 0x80) :: out)
    else some (byte :: List.replicate places 0)

def encodeVarintU64 (value : UInt64) : Option ByteString := encodeLoop varintMaxLen value.toNat

def encodeVarintU128 (value : BitVec 128) : Option ByteString :=
  encodeLoop varintMaxLen value.toNat

def decodeLoop (value : BitVec 128) (shift read : ℕ) : ByteString → Option (BitVec 128 × ℕ)
  | [] => none
  | byte :: buf =>
    let payload := (byte &&& 0x7f).toBitVec.setWidth 128
    if 128 ≤ shift ∨ (payload <<< shift) >>> shift ≠ payload then none
    else
      let value := value ||| payload <<< shift
      if byte &&& 0x80 = 0 then some (value, read + 1)
      else decodeLoop value (shift + 7) (read + 1) buf

/-- The value at the start of a buffer and the number of its bytes. -/
def decodeVarint (buf : ByteString) : Option (BitVec 128 × ℕ) :=
  if buf.isEmpty ∨ varintMaxLen < buf.length then none else decodeLoop 0 0 0 buf

/-- Groups of seven bits that are left besides the ones counted. -/
def lenLoop (v len : ℕ) : ℕ := if v = 0 then len else lenLoop (v >>> 7) (len + 1)
  termination_by v
  decreasing_by
    rw [Nat.shiftRight_eq_div_pow]
    omega

def varintLenU64 (value : UInt64) : ℕ := lenLoop (value.toNat >>> 7) 1

/-- The bytes of a field without the rest of the buffer. -/
def varintBytesU64 (value : UInt64) : Option ByteString := do
  let full ← encodeVarintU64 value
  some (full.take (varintLenU64 value))

def seqShift : ℕ := 16
def tsShift : ℕ := 32

def packWord (flag0 flag1 flag2 flag3 : Bool) (seq : BitVec 16) (timestamp : BitVec 32) :
    BitVec 64 :=
  let word : BitVec 64 := 0
  let word := if flag0 then word ||| 0x1 else word
  let word := if flag1 then word ||| 0x2 else word
  let word := if flag2 then word ||| 0x4 else word
  let word := if flag3 then word ||| 0x8 else word
  let word := word ||| seq.setWidth 64 <<< seqShift
  word ||| timestamp.setWidth 64 <<< tsShift

def unpackWord (word : BitVec 64) : Bool × Bool × Bool × Bool × BitVec 16 × BitVec 32 :=
  let flags := (word &&& 0xffffffff).setWidth 32
  (flags &&& 0x1 ≠ 0, flags &&& 0x2 ≠ 0, flags &&& 0x4 ≠ 0, flags &&& 0x8 ≠ 0,
    ((word >>> seqShift) &&& 0xffff).setWidth 16, (word >>> tsShift).setWidth 32)

structure CompressedEventPayload where
  fields : ByteString
  packedWord : BitVec 64

/-- Take the bytes of a field, up to its last one or until the places of the buffer are full. -/
def takeField : ℕ → ByteString → ByteString × ByteString
  | 0, bytes => ([], bytes)
  | _, [] => ([], [])
  | places + 1, byte :: bytes =>
    if byte &&& 0x80 = 0 then ([byte], bytes)
    else
      let (field, rest) := takeField places bytes
      (byte :: field, rest)

theorem takeField_append (places : ℕ) (bytes : ByteString) :
    (takeField places bytes).1 ++ (takeField places bytes).2 = bytes := by
  induction places generalizing bytes with
  | zero => rfl
  | succ places ih =>
    cases bytes with
    | nil => rfl
    | cons byte bytes =>
      rw [takeField]
      split_ifs with hlast
      · rfl
      · exact congrArg (byte :: ·) (ih bytes)

theorem takeField_fst_ne_nil (byte : UInt8) (bytes : ByteString) :
    (takeField varintMaxLen (byte :: bytes)).1 ≠ [] := by
  rw [varintMaxLen, takeField]
  split_ifs with hlast <;> exact List.cons_ne_nil _ _

/-- The bytes behind the first field are fewer. -/
theorem length_takeField_lt (byte : UInt8) (bytes : ByteString) :
    (takeField varintMaxLen (byte :: bytes)).2.length < (byte :: bytes).length := by
  have hlength := congrArg List.length (takeField_append varintMaxLen (byte :: bytes))
  have hpos := List.length_pos_of_ne_nil (takeField_fst_ne_nil byte bytes)
  rw [List.length_append] at hlength
  omega

def decodeFields (fields : ByteString) : Option (List (BitVec 128)) :=
  match fields with
  | [] => some []
  | byte :: bytes => do
    let (value, _) ← decodeVarint (takeField varintMaxLen (byte :: bytes)).1
    let out ← decodeFields (takeField varintMaxLen (byte :: bytes)).2
    some (value :: out)
  termination_by fields.length
  decreasing_by exact length_takeField_lt byte bytes

namespace CompressedEventPayload

def appendField (fields : ByteString) (v : UInt64) : Option ByteString := do
  let full ← encodeVarintU64 v
  some (fields ++ full.take (varintLenU64 v))

def new (values : List UInt64) (packedWord : BitVec 64) : Option CompressedEventPayload := do
  let fields ← values.foldlM appendField []
  some ⟨fields, packedWord⟩

def decodeFields (p : CompressedEventPayload) : Option (List (BitVec 128)) :=
  Events.decodeFields p.fields

end CompressedEventPayload

/-! ## Fields as groups of digits -/

/-- The bytes of a stream as numbers. Those with the high bit are the marked digits. -/
def symbols (bytes : ByteString) : List ℕ := bytes.map UInt8.toNat

/-- The shortest field of a number. -/
def fieldOf (n : ℕ) : ByteString := (Varint.mark 128 (Varint.digits 128 n)).map UInt8.ofNat

theorem symbols_injective : Function.Injective symbols :=
  List.map_injective_iff.mpr fun _ _ h => UInt8.toNat_inj.mp h

@[simp] theorem length_symbols (bytes : ByteString) : (symbols bytes).length = bytes.length :=
  List.length_map _

@[simp] theorem symbols_append (b b' : ByteString) : symbols (b ++ b') = symbols b ++ symbols b' :=
  List.map_append

@[simp] theorem symbols_cons (byte : UInt8) (bytes : ByteString) :
    symbols (byte :: bytes) = byte.toNat :: symbols bytes := rfl

theorem isGroup_digits (n : ℕ) : Varint.IsGroup 128 (Varint.digits 128 n) :=
  Varint.digits_isGroup (by norm_num) n

/-- The bytes of a group have its symbols. -/
theorem symbols_mark {ds : List ℕ} (h : Varint.IsGroup 128 ds) :
    symbols ((Varint.mark 128 ds).map UInt8.ofNat) = Varint.mark 128 ds := by
  rw [symbols, List.map_map]
  refine (List.map_congr_left fun x hx => ?_).trans (List.map_id _)
  have hlt := Varint.mark_lt h.lt x hx
  exact UInt8.toNat_ofNat_of_lt' (by omega)

theorem symbols_fieldOf (n : ℕ) : symbols (fieldOf n) = Varint.mark 128 (Varint.digits 128 n) :=
  symbols_mark (isGroup_digits n)

@[simp] theorem length_fieldOf (n : ℕ) : (fieldOf n).length = (Varint.digits 128 n).length := by
  rw [fieldOf, List.length_map, Varint.length_mark]

theorem length_fieldOf_le {n k : ℕ} (hk : 0 < k) (h : n < 128 ^ k) : (fieldOf n).length ≤ k := by
  rw [length_fieldOf]
  exact (Varint.length_digits_le_iff (by norm_num) hk).mpr h

theorem toNat_and_low (byte : UInt8) : (byte &&& 0x7f).toNat = byte.toNat % 128 := by
  rw [UInt8.toNat_and]
  exact Nat.and_two_pow_sub_one_eq_mod byte.toNat 7

theorem and_high_eq_zero_iff (byte : UInt8) : byte &&& 0x80 = 0 ↔ byte.toNat < 128 := by
  have hall : ∀ b : Fin 256, b.val &&& 128 = 0 ↔ b.val < 128 := by decide +kernel
  rw [← UInt8.toNat_inj, UInt8.toNat_and]
  exact hall ⟨byte.toNat, byte.toNat_lt⟩

theorem ofNat_or_high {d : ℕ} (h : d < 128) : UInt8.ofNat d ||| 0x80 = UInt8.ofNat (d + 128) := by
  have hor : 2 ^ 7 * 1 + d = 2 ^ 7 * 1 ||| d := Nat.two_pow_add_eq_or_of_lt h 1
  have hsize : UInt8.size = 256 := rfl
  apply UInt8.toNat_inj.mp
  rw [UInt8.toNat_or, UInt8.toNat_ofNat_of_lt' (by omega), UInt8.toNat_ofNat_of_lt' (by omega),
    Nat.or_comm, Nat.add_comm]
  exact hor.symm

/-- Where the places are enough, the buffer starts with the shortest field. -/
theorem encodeLoop_eq {places v : ℕ} (h : (fieldOf v).length ≤ places) :
    encodeLoop places v = some (fieldOf v ++ List.replicate (places - (fieldOf v).length) 0) := by
  induction places generalizing v with
  | zero =>
    have hpos := (isGroup_digits v).length_pos
    rw [length_fieldOf] at h
    omega
  | succ places ih =>
    have hrest : v >>> 7 = v / 128 := Nat.shiftRight_eq_div_pow v 7
    have hbyte : v &&& 0x7f = v % 128 := Nat.and_two_pow_sub_one_eq_mod v 7
    rw [encodeLoop, hrest, hbyte]
    obtain hlt | hle := Nat.lt_or_ge v 128
    · have hfield : fieldOf v = [UInt8.ofNat v] := by
        rw [fieldOf, Varint.digits_of_lt hlt, Varint.mark_singleton, List.map_singleton]
      rw [if_neg (by omega), Nat.mod_eq_of_lt hlt, hfield]
      rfl
    · have hfield : fieldOf v = UInt8.ofNat (v % 128 + 128) :: fieldOf (v / 128) := by
        rw [fieldOf, Varint.digits_of_le (by norm_num) hle,
          Varint.mark_cons _ (isGroup_digits (v / 128)).ne_nil, List.map_cons, fieldOf]
      rw [hfield, List.length_cons] at h ⊢
      rw [if_pos (by omega), ih (by omega), ofNat_or_high (Nat.mod_lt v (by norm_num)),
        Nat.add_sub_add_right]
      rfl

/-- The loop counts the digits of what is left. -/
theorem lenLoop_eq (v len : ℕ) : lenLoop v len = len + (Nat.digits 128 v).length := by
  induction v, len using lenLoop.induct with
  | case1 len => simp [lenLoop]
  | case2 v len hv ih =>
    have hrest : v >>> 7 = v / 128 := Nat.shiftRight_eq_div_pow v 7
    rw [lenLoop, if_neg hv, ih, Nat.digits_def' (by norm_num) (Nat.pos_of_ne_zero hv), hrest,
      List.length_cons]
    omega

theorem varintLenU64_eq (value : UInt64) :
    varintLenU64 value = (fieldOf value.toNat).length := by
  have hrest : value.toNat >>> 7 = value.toNat / 128 := Nat.shiftRight_eq_div_pow value.toNat 7
  rw [varintLenU64, lenLoop_eq, length_fieldOf, hrest, Varint.digits]
  split_ifs with hv
  · simp [hv]
  · rw [Nat.digits_def' (by norm_num) (Nat.pos_of_ne_zero hv), List.length_cons, Nat.add_comm]

theorem encodeVarintU64_eq (value : UInt64) :
    encodeVarintU64 value = some (fieldOf value.toNat ++
      List.replicate (varintMaxLen - (fieldOf value.toNat).length) 0) :=
  encodeLoop_eq (length_fieldOf_le (by norm_num [varintMaxLen])
    (lt_trans value.toNat_lt (by norm_num [varintMaxLen])))

theorem encodeVarintU128_eq (value : BitVec 128) :
    encodeVarintU128 value = some (fieldOf value.toNat ++
      List.replicate (varintMaxLen - (fieldOf value.toNat).length) 0) :=
  encodeLoop_eq (length_fieldOf_le (by norm_num [varintMaxLen])
    (lt_trans value.isLt (by norm_num [varintMaxLen])))

theorem varintBytesU64_eq (value : UInt64) :
    varintBytesU64 value = some (fieldOf value.toNat) := by
  rw [varintBytesU64, encodeVarintU64_eq, varintLenU64_eq]
  exact congrArg some (List.take_left)

/-! ## Decoding a field -/

section Payload

variable {w : ℕ} {x value : BitVec w} {shift : ℕ}

/-- A shift to the left and back keeps exactly the values that fit. -/
theorem shiftLeft_ushiftRight_eq_iff :
    (x <<< shift) >>> shift = x ↔ 2 ^ shift * x.toNat < 2 ^ w := by
  have hpow : 0 < 2 ^ shift := Nat.two_pow_pos shift
  rw [← BitVec.toNat_inj, BitVec.toNat_ushiftRight, BitVec.toNat_shiftLeft, Nat.shiftLeft_eq,
    Nat.shiftRight_eq_div_pow, Nat.mul_comm x.toNat]
  constructor
  · intro h
    by_contra hle
    have hlt : 2 ^ shift * x.toNat % 2 ^ w < 2 ^ shift * x.toNat :=
      lt_of_lt_of_le (Nat.mod_lt _ (Nat.two_pow_pos w)) (not_lt.mp hle)
    have hback := Nat.mul_div_le (2 ^ shift * x.toNat % 2 ^ w) (2 ^ shift)
    rw [h] at hback
    omega
  · intro h
    rw [Nat.mod_eq_of_lt h, Nat.mul_div_cancel_left _ hpow]

/-- Bits above a smaller value are added to it. -/
theorem toNat_or_shiftLeft (hvalue : value.toNat < 2 ^ shift)
    (hfits : 2 ^ shift * x.toNat < 2 ^ w) :
    (value ||| x <<< shift).toNat = value.toNat + 2 ^ shift * x.toNat := by
  rw [BitVec.toNat_or, BitVec.toNat_shiftLeft, Nat.shiftLeft_eq, Nat.mul_comm x.toNat,
    Nat.mod_eq_of_lt hfits, Nat.or_comm, ← Nat.two_pow_add_eq_or_of_lt hvalue, Nat.add_comm]

end Payload

theorem toNat_payload (byte : UInt8) :
    ((byte &&& 0x7f).toBitVec.setWidth 128).toNat = byte.toNat % 128 := by
  have hlow : (byte &&& 0x7f).toBitVec.toNat = byte.toNat % 128 := toNat_and_low byte
  rw [BitVec.toNat_setWidth, hlow]
  omega

/-- One round of the loop: the low bits go above the value so far, if they fit there. -/
theorem decodeLoop_cons {value : BitVec 128} {shift : ℕ} (hvalue : value.toNat < 2 ^ shift)
    (hshift : shift < 128) (read : ℕ) (byte : UInt8) (buf : ByteString) :
    (2 ^ 128 ≤ 2 ^ shift * (byte.toNat % 128) ∧
      decodeLoop value shift read (byte :: buf) = none) ∨
    ∃ value' : BitVec 128, value'.toNat = value.toNat + 2 ^ shift * (byte.toNat % 128) ∧
      decodeLoop value shift read (byte :: buf) =
        if byte.toNat < 128 then some (value', read + 1)
        else decodeLoop value' (shift + 7) (read + 1) buf := by
  have hpayload := toNat_payload byte
  rw [decodeLoop]
  simp only [and_high_eq_zero_iff, ne_eq, shiftLeft_ushiftRight_eq_iff, hpayload,
    not_le.mpr hshift, false_or, not_lt]
  by_cases hover : 2 ^ 128 ≤ 2 ^ shift * (byte.toNat % 128)
  · exact .inl ⟨hover, if_pos hover⟩
  · rw [if_neg hover]
    rw [← hpayload] at hover ⊢
    exact .inr ⟨_, toNat_or_shiftLeft hvalue (not_le.mp hover), rfl⟩

theorem decodeLoop_eq_some {value v : BitVec 128} {shift read n : ℕ} {buf : ByteString}
    (hvalue : value.toNat < 2 ^ shift) (hshift : shift + 7 * buf.length ≤ 133) :
    decodeLoop value shift read buf = some (v, n) ↔
      ∃ ds rest, (Varint.IsGroup 128 ds ∧ symbols buf = Varint.mark 128 ds ++ rest) ∧
        v.toNat = value.toNat + 2 ^ shift * Nat.ofDigits 128 ds ∧ n = read + ds.length := by
  induction buf generalizing value shift read with
  | nil =>
    refine iff_of_false (by simp [decodeLoop]) ?_
    rintro ⟨ds, rest, ⟨hds, heq⟩, _⟩
    have hlength := congrArg List.length heq
    have hpos := hds.length_pos
    simp [symbols] at hlength
    omega
  | cons byte buf ih =>
    rw [List.length_cons] at hshift
    have hbyte : byte.toNat < 2 * 128 := byte.toNat_lt
    have hpow : 0 < 2 ^ shift := Nat.two_pow_pos shift
    have hnext : 2 ^ (shift + 7) = 2 ^ shift * 128 := Nat.pow_add 2 shift 7
    obtain ⟨hover, hnone⟩ | ⟨value', hvalue', hstep⟩ :=
      decodeLoop_cons hvalue (by omega) read byte buf
    · -- a digit that does not fit leaves no room for the number either
      rw [hnone]
      refine iff_of_false (by simp) ?_
      rintro ⟨ds, rest, ⟨hds, heq⟩, hv, _⟩
      have hlt := v.isLt
      have hmul := Nat.mul_le_mul_left (2 ^ shift) (hds.mod_le_ofDigits hbyte heq)
      omega
    · rw [hstep]
      split_ifs with hlast
      · rw [Nat.mod_eq_of_lt hlast] at hvalue'
        constructor
        · intro h
          obtain ⟨rfl, rfl⟩ := Prod.mk.inj (Option.some.inj h)
          refine ⟨[byte.toNat], symbols buf, ⟨Varint.isGroup_singleton.mpr hlast, rfl⟩, ?_, rfl⟩
          rw [hvalue', Nat.ofDigits_singleton]
        · rintro ⟨ds, rest, hgroup, hv, rfl⟩
          obtain ⟨rfl, _⟩ := (Varint.mark_append_eq_cons_of_lt hlast).mp hgroup
          rw [Nat.ofDigits_singleton, ← hvalue', BitVec.toNat_inj] at hv
          rw [hv]
          rfl
      · have hmod : byte.toNat % 128 = byte.toNat - 128 := by omega
        rw [hmod] at hvalue'
        have hlt : value'.toNat < 2 ^ (shift + 7) := by
          have hdigit : byte.toNat - 128 ≤ 127 := by omega
          have hmul := Nat.mul_le_mul_left (2 ^ shift) hdigit
          omega
        rw [ih hlt (by omega)]
        constructor
        · rintro ⟨es, rest, ⟨hes, heq⟩, hv, rfl⟩
          refine ⟨(byte.toNat - 128) :: es, rest, ?_, ?_, ?_⟩
          · exact (Varint.mark_append_eq_cons_of_le (not_lt.mp hlast) hbyte).mpr ⟨es, rfl, hes, heq⟩
          · rw [hv, hvalue', hnext, Nat.ofDigits_cons]
            ring
          · rw [List.length_cons]
            omega
        · rintro ⟨ds, rest, hgroup, hv, rfl⟩
          obtain ⟨es, rfl, hes, heq⟩ :=
            (Varint.mark_append_eq_cons_of_le (not_lt.mp hlast) hbyte).mp hgroup
          refine ⟨es, rest, ⟨hes, heq⟩, ?_, ?_⟩
          · rw [hv, hvalue', hnext, Nat.ofDigits_cons]
            ring
          · rw [List.length_cons]
            omega

/-- A buffer decodes exactly when it is no longer than the longest field and starts with a field
whose value has at most 128 bits. -/
theorem decodeVarint_eq_some {buf : ByteString} {v : BitVec 128} {n : ℕ} :
    decodeVarint buf = some (v, n) ↔ buf.length ≤ varintMaxLen ∧
      ∃ ds rest, (Varint.IsGroup 128 ds ∧ symbols buf = Varint.mark 128 ds ++ rest) ∧
        v.toNat = Nat.ofDigits 128 ds ∧ n = ds.length := by
  rw [decodeVarint]
  split_ifs with hbuf
  · refine iff_of_false (by simp) ?_
    rintro ⟨hle, ds, rest, ⟨hds, heq⟩, _⟩
    have hlength := congrArg List.length heq
    have hpos := hds.length_pos
    rw [length_symbols, List.length_append, Varint.length_mark] at hlength
    obtain hempty | hlong := hbuf
    · rw [List.isEmpty_iff_length_eq_zero] at hempty
      omega
    · omega
  · have hle : buf.length ≤ varintMaxLen := by omega
    rw [decodeLoop_eq_some (by simp) (by unfold varintMaxLen at hle; omega)]
    simp [hle]

/-- A field decodes as a whole exactly when it is the bytes of one group. -/
theorem decodeVarint_eq_some_length {field : ByteString} {v : BitVec 128} :
    decodeVarint field = some (v, field.length) ↔
      ∃ ds, (Varint.IsGroup 128 ds ∧ ds.length ≤ varintMaxLen) ∧
        symbols field = Varint.mark 128 ds ∧ v.toNat = Nat.ofDigits 128 ds := by
  rw [decodeVarint_eq_some]
  constructor
  · rintro ⟨hle, ds, rest, ⟨hds, heq⟩, hv, hlength⟩
    have hrest := congrArg List.length heq
    rw [length_symbols, List.length_append, Varint.length_mark] at hrest
    have hnil : rest = [] := List.length_eq_zero_iff.mp (by omega)
    rw [hnil, List.append_nil] at heq
    exact ⟨ds, ⟨hds, by omega⟩, heq, hv⟩
  · rintro ⟨ds, ⟨hds, hle⟩, heq, hv⟩
    have hlength := congrArg List.length heq
    rw [length_symbols, Varint.length_mark] at hlength
    exact ⟨by omega, ds, [], ⟨hds, by rw [heq, List.append_nil]⟩, hv, hlength⟩

/-- Every buffer that the encoder fills decodes to its value and the length of the field. -/
theorem decodeVarint_encodeVarintU128 (value : BitVec 128) :
    ∃ buf, encodeVarintU128 value = some buf ∧ buf.length = varintMaxLen ∧
      decodeVarint buf = some (value, (fieldOf value.toNat).length) := by
  have hle : (fieldOf value.toNat).length ≤ varintMaxLen :=
    length_fieldOf_le (by norm_num [varintMaxLen])
      (lt_trans value.isLt (by norm_num [varintMaxLen]))
  have hlength : (fieldOf value.toNat ++
      List.replicate (varintMaxLen - (fieldOf value.toNat).length) 0).length = varintMaxLen := by
    rw [List.length_append, List.length_replicate]
    omega
  have hsymbols : symbols (fieldOf value.toNat ++
      List.replicate (varintMaxLen - (fieldOf value.toNat).length) 0) =
      Varint.mark 128 (Varint.digits 128 value.toNat) ++
        symbols (List.replicate (varintMaxLen - (fieldOf value.toNat).length) 0) := by
    rw [symbols_append, symbols_fieldOf]
  refine ⟨_, encodeVarintU128_eq value, hlength, decodeVarint_eq_some.mpr ⟨hlength.le, _, _,
    ⟨isGroup_digits _, hsymbols⟩, ?_, length_fieldOf _⟩⟩
  rw [Varint.ofDigits_digits]

/-! ## Decoding a payload -/

theorem length_takeField_le (places : ℕ) (bytes : ByteString) :
    (takeField places bytes).1.length ≤ places := by
  induction places generalizing bytes with
  | zero => exact le_rfl
  | succ places ih =>
    cases bytes with
    | nil => exact Nat.zero_le _
    | cons byte bytes =>
      rw [takeField]
      split_ifs with hlast
      · exact Nat.succ_le_succ (Nat.zero_le places)
      · exact Nat.succ_le_succ (ih bytes)

/-- A field that has the places is taken as a whole and alone. -/
theorem symbols_takeField {places : ℕ} {bytes : ByteString} {ds rest : List ℕ}
    (hds : Varint.IsGroup 128 ds) (heq : symbols bytes = Varint.mark 128 ds ++ rest)
    (hle : ds.length ≤ places) :
    symbols (takeField places bytes).1 = Varint.mark 128 ds ∧
      symbols (takeField places bytes).2 = rest := by
  induction places generalizing bytes ds with
  | zero =>
    have hpos := hds.length_pos
    omega
  | succ places ih =>
    cases bytes with
    | nil =>
      have hpos := hds.length_pos
      have hlength := congrArg List.length heq
      rw [length_symbols, List.length_append, Varint.length_mark, List.length_nil] at hlength
      omega
    | cons byte bytes =>
      rw [takeField]
      obtain hlast | hmore := Nat.lt_or_ge byte.toNat 128
      · rw [if_pos ((and_high_eq_zero_iff byte).mpr hlast)]
        obtain ⟨rfl, hrest⟩ := (Varint.mark_append_eq_cons_of_lt hlast).mp ⟨hds, heq⟩
        exact ⟨rfl, hrest⟩
      · rw [if_neg fun h => not_lt.mpr hmore ((and_high_eq_zero_iff byte).mp h)]
        obtain ⟨es, rfl, hes, hrest⟩ :=
          (Varint.mark_append_eq_cons_of_le hmore byte.toNat_lt).mp ⟨hds, heq⟩
        obtain ⟨hfield, hbehind⟩ := ih hes hrest (by simpa using hle)
        rw [Varint.mark_cons _ hes.ne_nil, Nat.sub_add_cancel hmore]
        exact ⟨congrArg (byte.toNat :: ·) hfield, hbehind⟩

/-- A payload decodes exactly when it starts with a field and decodes behind it. -/
theorem decodeFields_cons_eq_some {byte : UInt8} {bytes : ByteString} {vs : List (BitVec 128)} :
    decodeFields (byte :: bytes) = some vs ↔
      ∃ ds v rest us, (Varint.IsGroup 128 ds ∧ ds.length ≤ varintMaxLen) ∧
        symbols (byte :: bytes) = Varint.mark 128 ds ++ symbols rest ∧
        v.toNat = Nat.ofDigits 128 ds ∧ rest.length < (byte :: bytes).length ∧
        decodeFields rest = some us ∧ vs = v :: us := by
  rw [decodeFields]
  simp only [Option.bind_eq_bind, Option.bind_eq_some_iff, Prod.exists, Option.some.injEq]
  have happend := congrArg symbols (takeField_append varintMaxLen (byte :: bytes))
  rw [symbols_append] at happend
  constructor
  · rintro ⟨v, n, hv, us, hus, rfl⟩
    obtain ⟨hle, ds, r, ⟨hds, heq⟩, hvalue, _⟩ := decodeVarint_eq_some.mp hv
    rw [heq, List.append_assoc] at happend
    have hlength := congrArg List.length heq
    rw [length_symbols, List.length_append, Varint.length_mark] at hlength
    have hplaces : ds.length ≤ varintMaxLen := by omega
    obtain ⟨hfield, hrest⟩ := symbols_takeField hds happend.symm hplaces
    exact ⟨ds, v, (takeField varintMaxLen (byte :: bytes)).2, us, ⟨hds, hplaces⟩,
      happend.symm.trans (congrArg _ hrest.symm), hvalue, length_takeField_lt byte bytes, hus, rfl⟩
  · rintro ⟨ds, v, rest, us, ⟨hds, hplaces⟩, heq, hvalue, _, hus, rfl⟩
    obtain ⟨hfield, hrest⟩ := symbols_takeField hds heq hplaces
    refine ⟨v, ds.length, decodeVarint_eq_some.mpr ⟨length_takeField_le _ _, ds, [], ⟨hds, ?_⟩,
      hvalue, rfl⟩, us, ?_, rfl⟩
    · rw [hfield, List.append_nil]
    · rw [symbols_injective hrest]
      exact hus

namespace CompressedEventPayload

/-- Exactly the streams of groups of at most so many digits decode, and to their numbers. -/
theorem decodeFields_eq_some_join (p : CompressedEventPayload) (vs : List (BitVec 128)) :
    p.decodeFields = some vs ↔
      ∃ gs, symbols p.fields = Varint.join 128 gs ∧
        (∀ g ∈ gs, Varint.IsGroup 128 g ∧ g.length ≤ varintMaxLen) ∧
        vs.map BitVec.toNat = gs.map (Nat.ofDigits 128) := by
  obtain ⟨fields, word⟩ := p
  change Events.decodeFields fields = some vs ↔ _
  induction hn : fields.length using Nat.strong_induction_on generalizing fields vs with
  | _ n ih =>
    subst hn
    cases fields with
    | nil =>
      rw [Events.decodeFields, Option.some.injEq]
      constructor
      · rintro rfl
        exact ⟨[], rfl, by simp, rfl⟩
      · rintro ⟨gs, hjoin, hgs, hvs⟩
        cases gs with
        | nil => exact (List.map_eq_nil_iff.mp hvs).symm
        | cons g gs => exact absurd hjoin.symm (Varint.join_ne_nil (hgs g List.mem_cons_self).1)
    | cons byte bytes =>
      rw [decodeFields_cons_eq_some]
      constructor
      · rintro ⟨ds, v, rest, us, hds, heq, hv, hlt, hus, rfl⟩
        obtain ⟨gs, hjoin, hgs, hvs⟩ := (ih _ hlt us rest rfl).mp hus
        refine ⟨ds :: gs, ?_, List.forall_mem_cons.mpr ⟨hds, hgs⟩, ?_⟩
        · rw [Varint.join_cons, heq]
          exact congrArg _ hjoin
        · rw [List.map_cons, List.map_cons, hv, hvs]
      · rintro ⟨gs, hjoin, hgs, hvs⟩
        cases gs with
        | nil => exact absurd hjoin (List.cons_ne_nil _ _)
        | cons g gs =>
          obtain ⟨hg, hgs⟩ := List.forall_mem_cons.mp hgs
          cases vs with
          | nil => exact absurd hvs.symm (List.cons_ne_nil _ _)
          | cons v vs =>
            rw [List.map_cons, List.map_cons, List.cons.injEq] at hvs
            have hsplit := symbols_takeField hg.1 hjoin hg.2
            refine ⟨g, v, (takeField varintMaxLen (byte :: bytes)).2, vs, hg, ?_, hvs.1,
              length_takeField_lt byte bytes, ?_, rfl⟩
            · rw [hsplit.2]
              exact hjoin
            · exact (ih _ (length_takeField_lt byte bytes) vs _ rfl).mpr ⟨gs, hsplit.2, hgs, hvs.2⟩

/-- A payload decodes exactly when it can be cut into fields that decode one by one, each as a
whole. A field that ends in the middle, has too many bytes or exceeds 128 bits spoils it all. -/
theorem decodeFields_eq_some_iff (p : CompressedEventPayload) (vs : List (BitVec 128)) :
    p.decodeFields = some vs ↔ ∃ fields : List ByteString, p.fields = fields.flatten ∧
      List.Forall₂ (fun field v => decodeVarint field = some (v, field.length)) fields vs := by
  rw [decodeFields_eq_some_join]
  constructor
  · rintro ⟨gs, hjoin, hgs, hvs⟩
    refine ⟨gs.map fun g => (Varint.mark 128 g).map UInt8.ofNat, ?_, ?_⟩
    · apply symbols_injective
      rw [hjoin]
      clear hjoin hvs
      induction gs with
      | nil => rfl
      | cons g gs ih =>
        obtain ⟨hg, hgs⟩ := List.forall_mem_cons.mp hgs
        rw [List.map_cons, List.flatten_cons, symbols_append, symbols_mark hg.1, ← ih hgs]
        rfl
    · clear hjoin
      induction gs generalizing vs with
      | nil =>
        rw [List.map_eq_nil_iff.mp hvs]
        exact .nil
      | cons g gs ih =>
        obtain ⟨hg, hgs⟩ := List.forall_mem_cons.mp hgs
        cases vs with
        | nil => exact absurd hvs.symm (List.cons_ne_nil _ _)
        | cons v vs =>
          obtain ⟨hv, hvs⟩ := List.cons.inj hvs
          exact .cons (decodeVarint_eq_some_length.mpr ⟨g, hg, symbols_mark hg.1, hv⟩)
            (ih vs hgs hvs)
  · rintro ⟨fields, hfields, hvs⟩
    rw [hfields]
    clear hfields
    induction hvs with
    | nil => exact ⟨[], rfl, by simp, rfl⟩
    | cons hfield _ ih =>
      obtain ⟨gs, hjoin, hgs, hvs⟩ := ih
      obtain ⟨g, hg, hsymbols, hv⟩ := decodeVarint_eq_some_length.mp hfield
      refine ⟨g :: gs, ?_, List.forall_mem_cons.mpr ⟨hg, hgs⟩, ?_⟩
      · rw [List.flatten_cons, symbols_append, hsymbols, hjoin, Varint.join_cons]
      · rw [List.map_cons, List.map_cons, hv, hvs]

theorem appendField_eq (fields : ByteString) (v : UInt64) :
    appendField fields v = some (fields ++ fieldOf v.toNat) := by
  rw [appendField, encodeVarintU64_eq, varintLenU64_eq]
  exact congrArg (fun field => some (fields ++ field)) List.take_left

theorem foldlM_appendField (values : List UInt64) (fields : ByteString) :
    values.foldlM appendField fields =
      some (fields ++ (values.map fun v => fieldOf v.toNat).flatten) := by
  induction values generalizing fields with
  | nil => simp
  | cons v values ih =>
    rw [List.foldlM_cons, appendField_eq]
    exact (ih _).trans (by rw [List.map_cons, List.flatten_cons, List.append_assoc])

theorem new_eq (values : List UInt64) (packedWord : BitVec 64) :
    new values packedWord =
      some ⟨(values.map fun v => fieldOf v.toNat).flatten, packedWord⟩ := by
  rw [new, foldlM_appendField]
  rfl

theorem symbols_flatten_fieldOf (values : List UInt64) :
    symbols (values.map fun v => fieldOf v.toNat).flatten =
      Varint.join 128 (values.map fun v => Varint.digits 128 v.toNat) := by
  induction values with
  | nil => rfl
  | cons v values ih =>
    rw [List.map_cons, List.flatten_cons, symbols_append, symbols_fieldOf, ih]
    rfl

end CompressedEventPayload

/-! ## The packed word -/

/-- The four flags as a number. -/
def flagBits (flag0 flag1 flag2 flag3 : Bool) : ℕ :=
  flag0.toNat + 2 * flag1.toNat + 4 * flag2.toNat + 8 * flag3.toNat

theorem flagBits_lt (flag0 flag1 flag2 flag3 : Bool) : flagBits flag0 flag1 flag2 flag3 < 16 := by
  cases flag0 <;> cases flag1 <;> cases flag2 <;> cases flag3 <;> decide

theorem flagBits_bits (flag0 flag1 flag2 flag3 : Bool) :
    flagBits flag0 flag1 flag2 flag3 / 2 ^ 0 % 2 = flag0.toNat ∧
    flagBits flag0 flag1 flag2 flag3 / 2 ^ 1 % 2 = flag1.toNat ∧
    flagBits flag0 flag1 flag2 flag3 / 2 ^ 2 % 2 = flag2.toNat ∧
    flagBits flag0 flag1 flag2 flag3 / 2 ^ 3 % 2 = flag3.toNat := by
  cases flag0 <;> cases flag1 <;> cases flag2 <;> cases flag3 <;> decide

/-- The parts of a word do not overlap. -/
theorem toNat_packWord (flag0 flag1 flag2 flag3 : Bool) (seq : BitVec 16)
    (timestamp : BitVec 32) :
    (packWord flag0 flag1 flag2 flag3 seq timestamp).toNat =
      flagBits flag0 flag1 flag2 flag3 + 2 ^ 16 * seq.toNat + 2 ^ 32 * timestamp.toNat := by
  obtain ⟨flags, hflags, hword⟩ : ∃ flags : BitVec 64,
      flags.toNat = flagBits flag0 flag1 flag2 flag3 ∧
      packWord flag0 flag1 flag2 flag3 seq timestamp =
        (flags ||| seq.setWidth 64 <<< 16) ||| timestamp.setWidth 64 <<< 32 := by
    cases flag0 <;> cases flag1 <;> cases flag2 <;> cases flag3 <;> exact ⟨_, rfl, rfl⟩
  have hlt := flagBits_lt flag0 flag1 flag2 flag3
  have hseq : (seq.setWidth 64).toNat = seq.toNat := by
    rw [BitVec.toNat_setWidth]
    omega
  have hts : (timestamp.setWidth 64).toNat = timestamp.toNat := by
    rw [BitVec.toNat_setWidth]
    omega
  have hlow : (flags ||| seq.setWidth 64 <<< 16).toNat = flags.toNat + 2 ^ 16 * seq.toNat := by
    rw [toNat_or_shiftLeft (by omega) (by omega), hseq]
  rw [hword, toNat_or_shiftLeft (by omega) (by omega), hlow, hts, hflags]

/-- A test of one flag reads its bit of the word. -/
theorem flag_ne_zero (word : BitVec 64) {k : ℕ} (hk : k < 32) :
    (word &&& 0xffffffff).setWidth 32 &&& BitVec.twoPow 32 k ≠ 0 ↔ word.toNat / 2 ^ k % 2 = 1 := by
  have hmask : (word &&& 0xffffffff).toNat = word.toNat % 2 ^ 32 :=
    Nat.and_two_pow_sub_one_eq_mod word.toNat 32
  have hbit : ((word &&& 0xffffffff).setWidth 32).getLsbD k = word.toNat.testBit k := by
    rw [BitVec.getLsbD, BitVec.toNat_setWidth, hmask, Nat.mod_mod, Nat.testBit_mod_two_pow]
    simp [hk]
  have hone : BitVec.twoPow 32 k ≠ 0 := by
    rw [Ne, ← BitVec.toNat_inj, BitVec.toNat_twoPow_of_lt hk]
    exact (Nat.two_pow_pos k).ne'
  rw [BitVec.and_twoPow, hbit, Nat.testBit_eq_decide_div_mod_eq]
  by_cases h : word.toNat / 2 ^ k % 2 = 1
  · simpa [h] using hone
  · simp [h]

theorem unpackWord_packWord (flag0 flag1 flag2 flag3 : Bool) (seq : BitVec 16)
    (timestamp : BitVec 32) :
    unpackWord (packWord flag0 flag1 flag2 flag3 seq timestamp) =
      (flag0, flag1, flag2, flag3, seq, timestamp) := by
  have hword := toNat_packWord flag0 flag1 flag2 flag3 seq timestamp
  generalize packWord flag0 flag1 flag2 flag3 seq timestamp = word at hword
  have hlt := flagBits_lt flag0 flag1 flag2 flag3
  have hflag (k : ℕ) (hk : k < 4) :
      word.toNat / 2 ^ k % 2 = flagBits flag0 flag1 flag2 flag3 / 2 ^ k % 2 := by
    interval_cases k <;> omega
  have hseq : ((word >>> seqShift) &&& 0xffff).toNat = seq.toNat := by
    rw [BitVec.toNat_and, BitVec.toNat_ushiftRight, Nat.shiftRight_eq_div_pow, seqShift]
    refine (Nat.and_two_pow_sub_one_eq_mod _ 16).trans ?_
    omega
  have hts : (word >>> tsShift).toNat = timestamp.toNat := by
    rw [BitVec.toNat_ushiftRight, Nat.shiftRight_eq_div_pow, tsShift]
    omega
  have hflags (k : ℕ) (hk : k < 4) :
      (word &&& 0xffffffff).setWidth 32 &&& BitVec.twoPow 32 k ≠ 0 ↔
        flagBits flag0 flag1 flag2 flag3 / 2 ^ k % 2 = 1 := by
    rw [flag_ne_zero word (by omega), hflag k hk]
  have hread (k : ℕ) (hk : k < 4) (flag : Bool)
      (h : flagBits flag0 flag1 flag2 flag3 / 2 ^ k % 2 = flag.toNat) :
      decide ((word &&& 0xffffffff).setWidth 32 &&& BitVec.twoPow 32 k ≠ 0) = flag := by
    rw [Bool.eq_iff_iff, decide_eq_true_iff, hflags k hk, h]
    cases flag <;> decide
  obtain ⟨h0, h1, h2, h3⟩ := flagBits_bits flag0 flag1 flag2 flag3
  simp only [unpackWord, Prod.mk.injEq]
  refine ⟨hread 0 (by omega) flag0 h0, hread 1 (by omega) flag1 h1, hread 2 (by omega) flag2 h2,
    hread 3 (by omega) flag3 h3, ?_, ?_⟩
  · apply BitVec.eq_of_toNat_eq
    rw [BitVec.toNat_setWidth, hseq, Nat.mod_eq_of_lt seq.isLt]
  · apply BitVec.eq_of_toNat_eq
    rw [BitVec.toNat_setWidth, hts, Nat.mod_eq_of_lt timestamp.isLt]

/-! ## Round trip -/

/-- The value of a field in the width the decoder returns. -/
def widen (v : UInt64) : BitVec 128 := v.toBitVec.setWidth 128

theorem toNat_widen (v : UInt64) : (widen v).toNat = v.toNat := by
  rw [widen, BitVec.toNat_setWidth]
  exact Nat.mod_eq_of_lt (lt_trans v.toNat_lt (by norm_num))

namespace CompressedEventPayload

theorem ofDigits_map_digits (values : List UInt64) :
    (values.map widen).map BitVec.toNat =
      (values.map fun v => Varint.digits 128 v.toNat).map (Nat.ofDigits 128) := by
  rw [List.map_map, List.map_map]
  exact List.map_congr_left fun v _ =>
    (toNat_widen v).trans (Varint.ofDigits_digits 128 v.toNat).symm

theorem decodeFields_new {values : List UInt64} {packedWord : BitVec 64}
    {p : CompressedEventPayload} (h : new values packedWord = some p) :
    p.decodeFields = some (values.map widen) := by
  rw [new_eq, Option.some.injEq] at h
  subst h
  rw [decodeFields_eq_some_join]
  refine ⟨values.map fun v => Varint.digits 128 v.toNat, symbols_flatten_fieldOf values, ?_,
    ofDigits_map_digits values⟩
  rw [List.forall_mem_map]
  refine fun v _ => ⟨isGroup_digits v.toNat, ?_⟩
  exact (Varint.length_digits_le_iff (by norm_num) (by norm_num [varintMaxLen])).mpr
    (lt_trans v.toNat_lt (by norm_num [varintMaxLen]))

/-- What is written for a list of numbers and the parts of a word reads back, and no other byte
string that decodes to the same numbers is as short. -/
theorem payload_round_trip (values : List UInt64) (flag0 flag1 flag2 flag3 : Bool)
    (seq : BitVec 16) (timestamp : BitVec 32) :
    ∃ p, new values (packWord flag0 flag1 flag2 flag3 seq timestamp) = some p ∧
      p.decodeFields = some (values.map widen) ∧
      unpackWord p.packedWord = (flag0, flag1, flag2, flag3, seq, timestamp) ∧
      ∀ q : CompressedEventPayload, q.decodeFields = some (values.map widen) →
        q.fields.length ≤ p.fields.length → q.fields = p.fields := by
  have hnew := new_eq values (packWord flag0 flag1 flag2 flag3 seq timestamp)
  refine ⟨_, hnew, decodeFields_new hnew, unpackWord_packWord .., fun q hq hle => ?_⟩
  obtain ⟨gs, hjoin, hgs, hvalues⟩ := (decodeFields_eq_some_join q _).mp hq
  have hfields := symbols_flatten_fieldOf values
  rw [← length_symbols, ← length_symbols, hjoin, hfields] at hle
  have hshort : (values.map fun v => Varint.digits 128 v.toNat) =
      (gs.map (Nat.ofDigits 128)).map (Varint.digits 128) := by
    rw [← hvalues, List.map_map, List.map_map]
    exact List.map_congr_left fun v _ => congrArg (Varint.digits 128) (toNat_widen v).symm
  apply symbols_injective
  rw [hjoin, hfields]
  rw [hshort] at hle ⊢
  rw [Varint.join_digits_eq (by norm_num) (fun g hg => (hgs g hg).1) hle]

end CompressedEventPayload

end StellarFlow.Events
