-- SUMMARY: The reader of the language-specific data area, and the pointers that it reads.
import Hopter.Base.Reading
import Hopter.Unwind.Instructions

/-!
# Encoded pointers

`read_encoded_pointer` in `src/unwind/unw_lsda.rs`. The reader is one of the `gimli` crate: its
methods are a class, and `LawfulReader` says that they read numbers as they are documented to. A
`u64` that is read is cut to a `u32` where it is used.

The width of a pointer is that of its format. `DW_EH_PE_absptr` is a pointer of the target, which
is 4 bytes long, and is read as one of 8 bytes.
-/

namespace Hopter.Unwind

/-- `gimli::Error`, as far as it occurs. -/
inductive GimliError where
  | cannotParseOmitPointerEncoding
  | unknownPointerEncoding
  | noUnwindInfoForAddress
  | unexpectedEof
  | badUnsignedLeb128
  | badSignedLeb128
  deriving DecidableEq

/-- A reader that reads a value, or fails. What the reader is after an error is not looked at. -/
abbrev ReadM (R α : Type) : Type := StateT R (Except GimliError) α

/-- `gimli::Reader`: the methods that are used. -/
class Reader (R : Type) where
  readU8 : ReadM R (BitVec 8)
  readU16 : ReadM R (BitVec 16)
  readU32 : ReadM R (BitVec 32)
  readU64 : ReadM R (BitVec 64)
  readI16 : ReadM R (BitVec 16)
  readI32 : ReadM R (BitVec 32)
  readI64 : ReadM R (BitVec 64)
  readUleb128 : ReadM R (BitVec 64)
  readSleb128 : ReadM R (BitVec 64)
  offsetId : R → BitVec 64

-- ---------------------------------------------------------------------------
-- Reading a pointer
-- ---------------------------------------------------------------------------

def dwEhPeAbsptr : Byte := 0x00
def dwEhPeUleb128 : Byte := 0x01
def dwEhPeUdata2 : Byte := 0x02
def dwEhPeUdata4 : Byte := 0x03
def dwEhPeUdata8 : Byte := 0x04
def dwEhPeSleb128 : Byte := 0x09
def dwEhPeSdata2 : Byte := 0x0a
def dwEhPeSdata4 : Byte := 0x0b
def dwEhPeSdata8 : Byte := 0x0c
def dwEhPeOmit : Byte := 0xff

section

variable {R : Type} [Reader R]

def readEncodedPointer (encoding : Byte) : ReadM R (BitVec 64) :=
  if encoding = dwEhPeOmit then throw .cannotParseOmitPointerEncoding
  else if encoding = dwEhPeAbsptr then Reader.readU64
  else if encoding = dwEhPeUleb128 then Reader.readUleb128
  else if encoding = dwEhPeUdata2 then (fun v => v.setWidth 64) <$> Reader.readU16
  else if encoding = dwEhPeUdata4 then (fun v => v.setWidth 64) <$> Reader.readU32
  else if encoding = dwEhPeUdata8 then Reader.readU64
  else if encoding = dwEhPeSleb128 then Reader.readSleb128
  else if encoding = dwEhPeSdata2 then (fun v => v.signExtend 64) <$> Reader.readI16
  else if encoding = dwEhPeSdata4 then (fun v => v.signExtend 64) <$> Reader.readI32
  else if encoding = dwEhPeSdata8 then Reader.readI64
  else throw .unknownPointerEncoding

/-- `read_encoded_pointer(reader, encoding)? as u32`. -/
def readPointer (encoding : Byte) : ReadM R (BitVec 32) :=
  (fun v => v.setWidth 32) <$> readEncodedPointer encoding

end

-- ---------------------------------------------------------------------------
-- Formats
-- ---------------------------------------------------------------------------

/-- The formats of pointers. -/
inductive PointerFormat where
  | absptr | uleb128 | udata2 | udata4 | udata8 | sleb128 | sdata2 | sdata4 | sdata8
  deriving DecidableEq

namespace PointerFormat

def encoding : PointerFormat → Byte
  | absptr => dwEhPeAbsptr
  | uleb128 => dwEhPeUleb128
  | udata2 => dwEhPeUdata2
  | udata4 => dwEhPeUdata4
  | udata8 => dwEhPeUdata8
  | sleb128 => dwEhPeSleb128
  | sdata2 => dwEhPeSdata2
  | sdata4 => dwEhPeSdata4
  | sdata8 => dwEhPeSdata8

/-- The `k` bytes of a number without a sign. -/
def Unsigned (k : Nat) (code : List Byte) (v : Int) : Prop :=
  0 ≤ v ∧ v < 2 ^ (8 * k) ∧ code = leBytes k (BitVec.ofInt (8 * k) v).toNat

/-- The `k` bytes of a number with a sign. -/
def Signed (k : Nat) (code : List Byte) (v : Int) : Prop :=
  -2 ^ (8 * k - 1) ≤ v ∧ v < 2 ^ (8 * k - 1) ∧ code = leBytes k (BitVec.ofInt (8 * k) v).toNat

/-- The codes of a value on a target with pointers of 32 bits. A number of 64 bits has at most ten
bytes in LEB128. -/
def Encodes : PointerFormat → List Byte → Int → Prop
  | absptr, code, v => Unsigned 4 code v
  | uleb128, code, v => ∃ n < 2 ^ 64, v = (n : Nat) ∧ Uleb128 code n ∧ code.length ≤ 10
  | udata2, code, v => Unsigned 2 code v
  | udata4, code, v => Unsigned 4 code v
  | udata8, code, v => Unsigned 8 code v
  | sleb128, code, v => -2 ^ 63 ≤ v ∧ v < 2 ^ 63 ∧ Sleb128 code v ∧ code.length ≤ 10
  | sdata2, code, v => Signed 2 code v
  | sdata4, code, v => Signed 4 code v
  | sdata8, code, v => Signed 8 code v

end PointerFormat

-- ---------------------------------------------------------------------------
-- Lawful readers
-- ---------------------------------------------------------------------------

/-- What is documented of a reader over a slice of the memory. -/
structure LawfulReader {R : Type} [Reader R] (slice : R → Slice Byte) : Prop where
  readU8 : ∀ v : BitVec 8, Reads slice Reader.readU8 (leBytes 1 v.toNat) v
  readU16 : ∀ v : BitVec 16, Reads slice Reader.readU16 (leBytes 2 v.toNat) v
  readU32 : ∀ v : BitVec 32, Reads slice Reader.readU32 (leBytes 4 v.toNat) v
  readU64 : ∀ v : BitVec 64, Reads slice Reader.readU64 (leBytes 8 v.toNat) v
  readI16 : ∀ v : BitVec 16, Reads slice Reader.readI16 (leBytes 2 v.toNat) v
  readI32 : ∀ v : BitVec 32, Reads slice Reader.readI32 (leBytes 4 v.toNat) v
  readI64 : ∀ v : BitVec 64, Reads slice Reader.readI64 (leBytes 8 v.toNat) v
  readUleb128 : ∀ code n, Uleb128 code n → n < 2 ^ 64 → code.length ≤ 10 →
    Reads slice Reader.readUleb128 code (BitVec.ofNat 64 n)
  readSleb128 : ∀ code z, Sleb128 code z → -2 ^ 63 ≤ z → z < 2 ^ 63 → code.length ≤ 10 →
    Reads slice Reader.readSleb128 code (BitVec.ofInt 64 z)
  /-- There is an error at the end of the slice. -/
  readU64_eof : ∀ r, (slice r).unread.length < 8 → ∃ e, Reader.readU64.run r = .error e
  offsetId : ∀ r, Reader.offsetId r = BitVec.ofNat 64 (slice r).pos
  /-- A slice ends before the last address. -/
  inBounds : ∀ r, (slice r).pos + (slice r).unread.length < 2 ^ 32

section

variable {R : Type} [Reader R] {slice : R → Slice Byte} {f : PointerFormat} {code : List Byte} {v : Int}

theorem setWidth_ofInt {k : Nat} (hlo : 0 ≤ v) (hhi : v < 2 ^ (8 * k)) :
    (BitVec.ofInt (8 * k) v).setWidth 64 = BitVec.ofInt 64 v := by
  obtain ⟨n, rfl⟩ := Int.eq_ofNat_of_zero_le hlo
  have hn : n < 2 ^ (8 * k) := by exact_mod_cast hhi
  simp only [BitVec.ofInt_natCast]
  apply BitVec.eq_of_toNat_eq
  rw [BitVec.toNat_setWidth, BitVec.toNat_ofNat, BitVec.toNat_ofNat, Nat.mod_eq_of_lt hn]

theorem signExtend_ofInt {k : Nat} (hk : 0 < k) (hlo : -2 ^ (8 * k - 1) ≤ v) (hhi : v < 2 ^ (8 * k - 1)) :
    (BitVec.ofInt (8 * k) v).signExtend 64 = BitVec.ofInt 64 v := by
  rw [BitVec.signExtend, BitVec.toInt_ofInt_eq_self (by omega) hlo hhi]

/-- All formats but one have the width with which they are read. -/
theorem readEncodedPointer_reads (hR : LawfulReader slice) (hf : f ≠ .absptr) (h : f.Encodes code v) :
    Reads slice (readEncodedPointer f.encoding) code (BitVec.ofInt 64 v) := by
  cases f with
  | absptr => exact absurd rfl hf
  | uleb128 =>
    obtain ⟨n, hn, rfl, hcode, hlen⟩ := h
    rw [BitVec.ofInt_natCast]
    exact hR.readUleb128 code n hcode hn hlen
  | udata2 =>
    obtain ⟨hlo, hhi, rfl⟩ := h
    rw [← setWidth_ofInt hlo hhi]
    exact (hR.readU16 _).map _
  | udata4 =>
    obtain ⟨hlo, hhi, rfl⟩ := h
    rw [← setWidth_ofInt hlo hhi]
    exact (hR.readU32 _).map _
  | udata8 =>
    obtain ⟨-, -, rfl⟩ := h
    exact hR.readU64 _
  | sleb128 =>
    obtain ⟨hlo, hhi, hcode, hlen⟩ := h
    exact hR.readSleb128 code v hcode hlo hhi hlen
  | sdata2 =>
    obtain ⟨hlo, hhi, rfl⟩ := h
    rw [← signExtend_ofInt (by decide) hlo hhi]
    exact (hR.readI16 _).map _
  | sdata4 =>
    obtain ⟨hlo, hhi, rfl⟩ := h
    rw [← signExtend_ofInt (by decide) hlo hhi]
    exact (hR.readI32 _).map _
  | sdata8 =>
    obtain ⟨-, -, rfl⟩ := h
    exact hR.readI64 _

theorem setWidth_ofInt_64 (v : Int) : (BitVec.ofInt 64 v).setWidth 32 = BitVec.ofInt 32 v := by
  apply BitVec.eq_of_toNat_eq
  simp only [BitVec.toNat_setWidth, BitVec.toNat_ofInt]
  omega

theorem readPointer_reads (hR : LawfulReader slice) (hf : f ≠ .absptr) (h : f.Encodes code v) :
    Reads slice (readPointer f.encoding) code (BitVec.ofInt 32 v) := by
  rw [← setWidth_ofInt_64]
  exact (readEncodedPointer_reads hR hf h).map _

/-- A pointer of the target is read as one of twice its width. -/
theorem readU64_ne {r r' : R} {w : BitVec 64} {pos : Nat} {rest : List Byte} (hR : LawfulReader slice)
    (hlen : code.length = 4) (hslice : slice r = ⟨pos, code ++ rest⟩)
    (hrun : Reader.readU64.run r = .ok (w, r')) : slice r' ≠ ⟨pos + code.length, rest⟩ := by
  by_cases hshort : (slice r).unread.length < 8
  · obtain ⟨e, he⟩ := hR.readU64_eof r hshort
    rw [hrun] at he
    cases he
  · have hunread : (slice r).unread = code ++ rest := by rw [hslice]
    obtain ⟨read, rest', hsplit, hread⟩ : ∃ read rest', code ++ rest = read ++ rest' ∧ read.length = 8 :=
      ⟨(code ++ rest).take 8, (code ++ rest).drop 8, (List.take_append_drop _ _).symm, by
        rw [List.length_take]
        rw [hunread] at hshort
        omega⟩
    obtain ⟨v, hv⟩ : ∃ v : BitVec 64, leBytes 8 v.toNat = read :=
      ⟨BitVec.ofNat 64 (leNat read), by
        have hlt := leNat_lt read
        have hbytes := leBytes_leNat read
        rw [hread] at hlt hbytes
        rw [BitVec.toNat_ofNat, Nat.mod_eq_of_lt hlt, hbytes]⟩
    rw [hsplit, ← hv] at hslice
    obtain ⟨r'', hrun', hslice'⟩ := hR.readU64 v r pos rest' hslice
    obtain ⟨-, rfl⟩ := Prod.mk.inj (Except.ok.inj (hrun.symm.trans hrun'))
    rw [hslice', length_leBytes, hlen]
    intro heq
    have hpos := congrArg Slice.pos heq
    simp only at hpos
    omega

/-- A pointer in a table, in one of its codes. -/
structure Field where
  format : PointerFormat
  value : Int
  code : List Byte
  encoded : format.Encodes code value

/-- A pointer is read, and the reader stands right behind it, exactly when its format is not
`DW_EH_PE_absptr`. So tables without this format are read as they were written. -/
theorem readPointer_exact (hR : LawfulReader slice) :
    (∀ (x : Field) (r : R) (pos : Nat) (rest : List Byte), slice r = ⟨pos, x.code ++ rest⟩ →
      ((∃ r', (readPointer x.format.encoding).run r = .ok (BitVec.ofInt 32 x.value, r') ∧
        slice r' = ⟨pos + x.code.length, rest⟩) ↔ x.format ≠ .absptr)) ∧
    ∀ fields : List Field, (∀ x ∈ fields, x.format ≠ .absptr) →
      Reads slice (fields.mapM fun x => readPointer x.format.encoding) (fields.flatMap Field.code)
        (fields.map fun x => BitVec.ofInt 32 x.value) := by
  refine ⟨fun x r pos rest hslice => ⟨?_, fun hf => ?_⟩, fun fields hfields => ?_⟩
  · rintro ⟨r', hrun, hslice'⟩ habs
    have henc := x.encoded
    rw [habs] at hrun henc
    have hlen : x.code.length = 4 := by rw [henc.2.2, length_leBytes]
    rw [readPointer, StateT.run_map] at hrun
    obtain ⟨⟨w, r''⟩, hread, heq⟩ : ∃ y, (Reader.readU64 : ReadM R _).run r = .ok y ∧
        (y.1.setWidth 32, y.2) = (BitVec.ofInt 32 x.value, r') := by
      change ((fun y => (y.1.setWidth 32, y.2)) <$> (Reader.readU64 : ReadM R _).run r) = _ at hrun
      cases hcase : (Reader.readU64 : ReadM R _).run r with
      | error e =>
        rw [hcase] at hrun
        cases hrun
      | ok y =>
        rw [hcase] at hrun
        exact ⟨y, rfl, Except.ok.inj hrun⟩
    obtain ⟨-, rfl⟩ := Prod.mk.inj heq
    exact readU64_ne hR hlen hslice hread hslice'
  · exact readPointer_reads hR hf x.encoded r pos rest hslice
  · exact Reads.mapM fun x hx => readPointer_reads hR (hfields x hx) x.encoded

end

-- ---------------------------------------------------------------------------
-- A reader
-- ---------------------------------------------------------------------------

/-- A slice of bytes of the memory, `&[u8]`. As a reader, its numbers are little-endian. -/
structure U8Slice where
  addr : Nat
  bytes : List Byte
  inBounds : addr + bytes.length < 2 ^ 32

namespace U8Slice

def slice (r : U8Slice) : Slice Byte := ⟨r.addr, r.bytes⟩

def skip (r : U8Slice) (k : Nat) : U8Slice where
  addr := r.addr + min k r.bytes.length
  bytes := r.bytes.drop k
  inBounds := by
    have := r.inBounds
    rw [List.length_drop]
    omega

def readFixed (k : Nat) : ReadM U8Slice (BitVec (8 * k)) := fun r =>
  if r.bytes.length < k then .error .unexpectedEof
  else .ok (BitVec.ofNat (8 * k) (leNat (r.bytes.take k)), r.skip k)

/-- `leb128::read::unsigned`. The tenth byte is the last one that fits. -/
def readUnsigned : ReadM U8Slice (BitVec 64) := fun r =>
  match readUleb 10 r.bytes with
  | none => .error (if r.bytes.length < 10 then .unexpectedEof else .badUnsignedLeb128)
  | some (n, rest) =>
    if n < 2 ^ 64 then .ok (BitVec.ofNat 64 n, r.skip (r.bytes.length - rest.length))
    else .error .badUnsignedLeb128

/-- `leb128::read::signed`. -/
def readSigned : ReadM U8Slice (BitVec 64) := fun r =>
  match readSleb 10 r.bytes with
  | none => .error (if r.bytes.length < 10 then .unexpectedEof else .badSignedLeb128)
  | some (z, rest) =>
    if -2 ^ 63 ≤ z ∧ z < 2 ^ 63 then .ok (BitVec.ofInt 64 z, r.skip (r.bytes.length - rest.length))
    else .error .badSignedLeb128

instance : Reader U8Slice where
  readU8 := readFixed 1
  readU16 := readFixed 2
  readU32 := readFixed 4
  readU64 := readFixed 8
  readI16 := readFixed 2
  readI32 := readFixed 4
  readI64 := readFixed 8
  readUleb128 := readUnsigned
  readSleb128 := readSigned
  offsetId r := BitVec.ofNat 64 r.addr

variable {code : List Byte}

theorem slice_skip {r : U8Slice} {pos : Nat} {rest : List Byte} (h : r.slice = ⟨pos, code ++ rest⟩) :
    (r.skip code.length).slice = ⟨pos + code.length, rest⟩ := by
  obtain ⟨rfl, hbytes⟩ := Slice.mk.inj h
  simp [slice, skip, hbytes]

theorem readFixed_reads {k : Nat} (v : BitVec (8 * k)) :
    Reads slice (readFixed k) (leBytes k v.toNat) v := by
  intro r pos rest h
  obtain ⟨-, hbytes⟩ := Slice.mk.inj h
  have hlt : v.toNat < 256 ^ k := by
    have := v.isLt
    rwa [Nat.pow_mul] at this
  have hlen : ¬ r.bytes.length < k := by
    rw [hbytes, List.length_append, length_leBytes]
    omega
  have htake : r.bytes.take k = leBytes k v.toNat := by
    rw [hbytes, List.take_left' (length_leBytes k _)]
  refine ⟨r.skip k, ?_, ?_⟩
  · show readFixed k r = _
    rw [readFixed, if_neg hlen, htake, leNat_leBytes hlt, BitVec.ofNat_toNat, BitVec.setWidth_eq]
  · have hskip := slice_skip h
    rwa [length_leBytes] at hskip ⊢

theorem length_sub {r : U8Slice} {pos : Nat} {rest : List Byte} (h : r.slice = ⟨pos, code ++ rest⟩) :
    r.bytes.length - rest.length = code.length := by
  obtain ⟨-, hbytes⟩ := Slice.mk.inj h
  rw [hbytes, List.length_append, Nat.add_sub_cancel]

theorem lawful : LawfulReader slice where
  readU8 := readFixed_reads (k := 1)
  readU16 := readFixed_reads (k := 2)
  readU32 := readFixed_reads (k := 4)
  readU64 := readFixed_reads (k := 8)
  readI16 := readFixed_reads (k := 2)
  readI32 := readFixed_reads (k := 4)
  readI64 := readFixed_reads (k := 8)
  readUleb128 code n hcode hn hlen r pos rest h := by
    refine ⟨r.skip code.length, ?_, slice_skip h⟩
    obtain ⟨-, hbytes⟩ := Slice.mk.inj h
    show readUnsigned r = _
    rw [readUnsigned, hbytes, readUleb_of_uleb128 hcode hlen, ← hbytes]
    dsimp only
    rw [if_pos hn, length_sub h]
  readSleb128 code z hcode hlo hhi hlen r pos rest h := by
    refine ⟨r.skip code.length, ?_, slice_skip h⟩
    obtain ⟨-, hbytes⟩ := Slice.mk.inj h
    show readSigned r = _
    rw [readSigned, hbytes, readSleb_of_sleb128 hcode hlen, ← hbytes]
    dsimp only
    rw [if_pos ⟨hlo, hhi⟩, length_sub h]
  readU64_eof r h := ⟨_, if_pos h⟩
  offsetId _ := rfl
  inBounds r := r.inBounds

end U8Slice

/-- The bytes of a pointer, and those of the field behind it. -/
def absptrSlice : U8Slice := ⟨0x08001000, [0x01, 0x02, 0x00, 0x08, 0xff, 0xff, 0xff, 0xff], by decide⟩

def absptrField : Field := ⟨.absptr, 0x08000201, [0x01, 0x02, 0x00, 0x08], by decide, by decide, rfl⟩

/-- A number with a sign, and one of two bytes behind it. -/
def dataSlice : U8Slice := ⟨0x08001000, [0xf8, 0xff, 0xff, 0xff, 0x34, 0x12, 0x01], by decide⟩

def sdata4Field : Field := ⟨.sdata4, -8, [0xf8, 0xff, 0xff, 0xff], by decide, by decide, rfl⟩

def udata2Field : Field := ⟨.udata2, 0x1234, [0x34, 0x12], by decide, by decide, rfl⟩

theorem readPointer_exact_data :
    (∃ r', (readPointer dwEhPeSdata4).run dataSlice = .ok (0xfffffff8, r') ∧
      r'.slice = ⟨0x08001004, [0x34, 0x12, 0x01]⟩) ∧
    (∃ r', ([sdata4Field, udata2Field].mapM fun x => readPointer x.format.encoding).run dataSlice =
      .ok ([0xfffffff8, 0x1234], r') ∧ r'.slice = ⟨0x08001006, [0x01]⟩) ∧
    ¬ ∃ r', (readPointer dwEhPeAbsptr).run absptrSlice = .ok (BitVec.ofInt 32 0x08000201, r') ∧
      r'.slice = ⟨0x08001004, [0xff, 0xff, 0xff, 0xff]⟩ := by
  obtain ⟨hexact, hfields⟩ := readPointer_exact U8Slice.lawful
  refine ⟨?_, ?_, fun h => ?_⟩
  · exact (hexact sdata4Field dataSlice 0x08001000 [0x34, 0x12, 0x01] rfl).mpr (by decide)
  · exact hfields [sdata4Field, udata2Field] (by decide) dataSlice 0x08001000 [0x01] rfl
  · exact (hexact absptrField absptrSlice 0x08001000 [0xff, 0xff, 0xff, 0xff] rfl).mp h rfl

/-- A pointer of 4 bytes is read together with the 4 bytes behind it. -/
theorem absptr_drifts : ¬ ∀ (x : Field) (r : U8Slice) (pos : Nat) (rest : List Byte),
    r.slice = ⟨pos, x.code ++ rest⟩ →
      ∃ r', (readPointer x.format.encoding).run r = .ok (BitVec.ofInt 32 x.value, r') ∧
        r'.slice = ⟨pos + x.code.length, rest⟩ := by
  intro h
  obtain ⟨r', hrun, hslice⟩ := h absptrField absptrSlice 0x08001000 [0xff, 0xff, 0xff, 0xff] rfl
  obtain ⟨-, rfl⟩ := Prod.mk.inj (Except.ok.inj hrun)
  exact absurd (congrArg Slice.pos hslice) (by decide)

end Hopter.Unwind
