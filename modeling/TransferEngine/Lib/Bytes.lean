import Mathlib.Data.List.Induction
import Mathlib.Tactic.Ring
import TransferEngine.Lib.Lists

/-!
# Checked access to a byte buffer

A decoder written against raw memory may read past the end of its buffer. To say that
it does not, every read here goes through `Bytes.byteAt` or `Bytes.readSpan`, which
answer with the bytes or with the fault of having left the buffer; a decoder stays in
bounds when its result is not a fault. Big-endian numbers are read with
`Bytes.readUint16` and `Bytes.readUint32`.

The lemmas come in pairs: a read in range answers, a read out of range is a fault. What a read
that answers has found is said by `Bytes.byteAt_eq_ok` and `Bytes.readUint32_eq_ok`.

An encoder fills a buffer that it has made large enough: `Bytes.write` copies bytes into a buffer,
or is a fault. Numbers are written with `Bytes.uint32Bytes` and `Bytes.uint16Bytes`.
-/

namespace Bytes

/-- A read left the buffer. -/
inductive OutOfBounds
  | outOfBounds
  deriving DecidableEq, Repr

variable {data w : List UInt8} {off n : ℕ}

/-- The byte at an index. -/
def byteAt (data : List UInt8) (off : ℕ) : Except OutOfBounds UInt8 :=
  match data[off]? with
  | some b => .ok b
  | none => .error .outOfBounds

/-- The `n` bytes from an index on. -/
def readSpan (data : List UInt8) (off n : ℕ) : Except OutOfBounds (List UInt8) :=
  if off + n ≤ data.length then .ok ((data.drop off).take n) else .error .outOfBounds

/-- The number a sequence of bytes spells, the most significant byte first. -/
def bigEndian (bs : List UInt8) : ℕ := bs.foldl (fun acc b => acc * 256 + b.toNat) 0

/-- A big-endian 32-bit number at an index. -/
def readUint32 (data : List UInt8) (off : ℕ) : Except OutOfBounds UInt32 :=
  (readSpan data off 4).map fun bs => UInt32.ofNat (bigEndian bs)

/-- A big-endian 16-bit number at an index. -/
def readUint16 (data : List UInt8) (off : ℕ) : Except OutOfBounds UInt16 :=
  (readSpan data off 2).map fun bs => UInt16.ofNat (bigEndian bs)

/-- Copy bytes into a buffer, at an index. -/
def write (out : List UInt8) (off : ℕ) (w : List UInt8) : Except OutOfBounds (List UInt8) :=
  if off + w.length ≤ out.length then .ok (out.overwrite off w) else .error .outOfBounds

/-- The bytes of a 32-bit number, the most significant first. -/
def uint32Bytes (n : UInt32) : List UInt8 :=
  [.ofNat (n.toNat / 2 ^ 24), .ofNat (n.toNat / 2 ^ 16), .ofNat (n.toNat / 2 ^ 8), .ofNat n.toNat]

/-- The bytes of a 16-bit number, the most significant first. -/
def uint16Bytes (n : UInt16) : List UInt8 := [.ofNat (n.toNat / 2 ^ 8), .ofNat n.toNat]

theorem byteAt_of_lt (h : off < data.length) : byteAt data off = .ok data[off] := by
  rw [byteAt, List.getElem?_eq_getElem h]

theorem readSpan_of_le (h : off + n ≤ data.length) :
    readSpan data off n = .ok ((data.drop off).take n) := by
  rw [readSpan, if_pos h]

theorem readSpan_of_lt (h : data.length < off + n) :
    readSpan data off n = .error .outOfBounds := by
  rw [readSpan, if_neg (by omega)]

theorem readUint32_of_le (h : off + 4 ≤ data.length) :
    readUint32 data off = .ok (UInt32.ofNat (bigEndian ((data.drop off).take 4))) := by
  rw [readUint32, readSpan_of_le h]
  rfl

theorem readUint16_of_le (h : off + 2 ≤ data.length) :
    readUint16 data off = .ok (UInt16.ofNat (bigEndian ((data.drop off).take 2))) := by
  rw [readUint16, readSpan_of_le h]
  rfl

/-- A read in range answers the same in a longer buffer. -/
theorem readSpan_append (h : off + n ≤ data.length) :
    readSpan (data ++ w) off n = readSpan data off n := by
  have hlen : off + n ≤ (data ++ w).length := by
    rw [List.length_append]
    omega
  rw [readSpan_of_le h, readSpan_of_le hlen, List.drop_append_of_le_length (by omega),
    List.take_append_of_le_length (by rw [List.length_drop]; omega)]

theorem readUint32_append (h : off + 4 ≤ data.length) :
    readUint32 (data ++ w) off = readUint32 data off := by
  rw [readUint32, readUint32, readSpan_append h]

theorem ok_bind {ε α β : Type} {a : α} {f : α → Except ε β} : ((.ok a : Except ε α) >>= f) = f a :=
  rfl

/-- A computation that answers went through each of its parts. -/
theorem bind_eq_ok {ε α β : Type} {x : Except ε α} {f : α → Except ε β} {b : β}
    (h : (x >>= f) = .ok b) : ∃ a, x = .ok a ∧ f a = .ok b := by
  cases x with
  | error e => cases h
  | ok a => exact ⟨a, rfl, h⟩

theorem le_of_readSpan (h : readSpan data off n = .ok w) :
    off + n ≤ data.length := by
  by_contra hc
  rw [readSpan_of_lt (by omega)] at h
  cases h

theorem byteAt_eq_ok {b : UInt8} : byteAt data off = .ok b ↔ data[off]? = some b := by
  rw [byteAt]
  split
  case h_1 b' hb => simp [hb]
  case h_2 hn => simp [hn]

/-- A number of `k` bytes is below `256 ^ k`. -/
theorem bigEndian_lt (bs : List UInt8) : bigEndian bs < 256 ^ bs.length := by
  induction bs using List.reverseRecOn with
  | nil => simp [bigEndian]
  | append_singleton bs b ih =>
    rw [bigEndian] at ih ⊢
    rw [List.foldl_append, List.length_append, pow_add]
    have hb : b.toNat < 256 := b.toNat_lt
    simp only [List.foldl_cons, List.foldl_nil, List.length_cons, List.length_nil]
    omega

/-! ### Numbers -/

theorem bigEndian_uint32Bytes (n : UInt32) : bigEndian (uint32Bytes n) = n.toNat := by
  have hn := n.toNat_lt
  simp only [bigEndian, uint32Bytes, List.foldl_cons, List.foldl_nil, UInt8.toNat_ofNat']
  omega

theorem bigEndian_uint16Bytes (n : UInt16) : bigEndian (uint16Bytes n) = n.toNat := by
  have hn := n.toNat_lt
  simp only [bigEndian, uint16Bytes, List.foldl_cons, List.foldl_nil, UInt8.toNat_ofNat']
  omega

/-- **Four bytes are those of the number they spell.** -/
theorem uint32Bytes_bigEndian {bs : List UInt8} (h : bs.length = 4) :
    uint32Bytes (.ofNat (bigEndian bs)) = bs := by
  obtain ⟨a, b, c, d, rfl⟩ := List.length_eq_four.mp h
  have ha := a.toNat_lt
  have hb := b.toNat_lt
  have hc := c.toNat_lt
  have hd := d.toNat_lt
  have hn : (UInt32.ofNat (bigEndian [a, b, c, d])).toNat =
      ((a.toNat * 256 + b.toNat) * 256 + c.toNat) * 256 + d.toNat := by
    rw [UInt32.toNat_ofNat']
    simp only [bigEndian, List.foldl_cons, List.foldl_nil]
    omega
  rw [uint32Bytes, hn]
  refine List.cons_eq_cons.mpr ⟨?_, List.cons_eq_cons.mpr ⟨?_, List.cons_eq_cons.mpr ⟨?_,
    List.cons_eq_cons.mpr ⟨?_, rfl⟩⟩⟩⟩ <;>
    · refine UInt8.toNat_inj.mp ?_
      rw [UInt8.toNat_ofNat']
      omega

theorem uint16Bytes_bigEndian {bs : List UInt8} (h : bs.length = 2) :
    uint16Bytes (.ofNat (bigEndian bs)) = bs := by
  obtain ⟨a, b, rfl⟩ := List.length_eq_two.mp h
  have ha := a.toNat_lt
  have hb := b.toNat_lt
  have hn : (UInt16.ofNat (bigEndian [a, b])).toNat = a.toNat * 256 + b.toNat := by
    rw [UInt16.toNat_ofNat']
    simp only [bigEndian, List.foldl_cons, List.foldl_nil]
    omega
  rw [uint16Bytes, hn]
  refine List.cons_eq_cons.mpr ⟨?_, List.cons_eq_cons.mpr ⟨?_, rfl⟩⟩ <;>
    · refine UInt8.toNat_inj.mp ?_
      rw [UInt8.toNat_ofNat']
      omega

/-! ### What was read -/

theorem readUint32_eq_ok {k : UInt32} : readUint32 data off = .ok k ↔
    off + 4 ≤ data.length ∧ (data.drop off).take 4 = uint32Bytes k := by
  rcases Nat.lt_or_ge data.length (off + 4) with h | h
  · rw [readUint32, readSpan_of_lt h]
    exact iff_of_false nofun fun hc => by omega
  · have hlen : ((data.drop off).take 4).length = 4 := by
      rw [List.length_take, List.length_drop]
      omega
    rw [readUint32_of_le h, Except.ok.injEq, and_iff_right h]
    constructor
    · rintro rfl
      exact (uint32Bytes_bigEndian hlen).symm
    · intro hk
      rw [hk, bigEndian_uint32Bytes, UInt32.ofNat_toNat]

/-! ### Filling a buffer -/

/-- **Filling a buffer from its front**: the next bytes take the place of as many zeros. -/
theorem write_zeros {out : List UInt8} (hoff : out.length = off) (h : w.length ≤ n) :
    write (out ++ List.replicate n 0) off w =
      .ok (out ++ w ++ List.replicate (n - w.length) 0) := by
  have hlen : (out ++ List.replicate n 0).length = off + n := by
    rw [List.length_append, List.length_replicate, hoff]
  rw [write, if_pos (by omega), List.overwrite, List.take_left' hoff, ← List.drop_drop,
    List.drop_left' hoff, List.drop_replicate]

theorem write_replicate (h : w.length ≤ n) :
    write (List.replicate n 0) 0 w = .ok (w ++ List.replicate (n - w.length) 0) := by
  have hw : write ([] ++ List.replicate n 0) 0 w =
      .ok ([] ++ w ++ List.replicate (n - w.length) 0) :=
    write_zeros rfl h
  simpa using hw

/-- Reading after a write elsewhere. -/
theorem getElem?_of_write {out out' w : List UInt8} {off k : ℕ} (h : write out off w = .ok out')
    (hk : ¬(off ≤ k ∧ k < off + w.length)) : out'[k]? = out[k]? := by
  rw [write] at h
  split at h
  case isTrue hle =>
    cases h
    rw [List.getElem?_overwrite hle, if_neg hk]
  case isFalse => cases h

theorem getElem?_of_write_singleton {out out' : List UInt8} {off : ℕ} {b : UInt8}
    (h : write out off [b] = .ok out') : out'[off]? = some b := by
  rw [write] at h
  split at h
  case isTrue hle =>
    cases h
    rw [List.getElem?_overwrite hle, if_pos ⟨le_rfl, by simp⟩, Nat.sub_self]
    rfl
  case isFalse => cases h

end Bytes
