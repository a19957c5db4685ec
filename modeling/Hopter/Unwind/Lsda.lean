-- SUMMARY: The search for the landing pad of a stack frame in its language-specific data area.
import Hopter.Task.StackSafety
import Hopter.Unwind.Pointer
import Hopter.Unwind.Step

/-!
# Landing pads

The language-specific data area (LSDA) of a function has a table of its call sites. An entry covers
a range of addresses and says where its landing pad is: `src/unwind/unw_lsda.rs`. When the unwinder
gets to a stack frame, `unwind_next_function` in `src/unwind/unwind.rs` looks for the first entry
that covers the program counter.

The loop over the table has fuel. `none` is the end of the system, or a loop that did not end.
-/

namespace Hopter.Unwind

open Hopter.Allocator Hopter.Task

-- ---------------------------------------------------------------------------
-- Parsing
-- ---------------------------------------------------------------------------

structure LSDA (R : Type) where
  reader : R
  functionStartAddress : Reg

structure LsdaHeader where
  landingPadBaseEncoding : Byte
  landingPadBase : Option Reg
  typeTableEncoding : Byte
  typeTableOffset : Option Reg

structure CallSiteTableHeader where
  encoding : Byte
  length : Reg

structure CallSiteTableEntry where
  startingOffset : Reg
  length : Reg
  landingPadOffset : Reg
  actionOffset : Reg
  landingPadBase : Reg
  deriving DecidableEq

structure CallSiteTableIterator (R : Type) where
  callSiteTableEncoding : Byte
  endOfCallSiteTable : Reg
  landingPadBase : Reg
  reader : R

section

variable {R : Type} [Reader R]

/-- Read a field of the header unless its encoding is `DW_EH_PE_omit`. -/
def readUnlessOmitted (encoding : Byte) (field : ReadM R Reg) : ReadM R (Option Reg) :=
  if encoding = dwEhPeOmit then pure none else some <$> field

def LsdaHeader.parse : ReadM R LsdaHeader := do
  let lpEncoding ← Reader.readU8
  let lp ← readUnlessOmitted lpEncoding (readPointer lpEncoding)
  let ttEncoding ← Reader.readU8
  let ttOffset ← readUnlessOmitted ttEncoding (readPointer dwEhPeUleb128)
  pure ⟨lpEncoding, lp, ttEncoding, ttOffset⟩

def CallSiteTableHeader.parse : ReadM R CallSiteTableHeader := do
  let encoding ← Reader.readU8
  let length ← readPointer dwEhPeUleb128
  pure ⟨encoding, length⟩

def CallSiteTableEntry.parse (callSiteEncoding : Byte) (landingPadBase : Reg) :
    ReadM R CallSiteTableEntry := do
  let csStart ← readPointer callSiteEncoding
  let csLength ← readPointer callSiteEncoding
  let csLp ← readPointer callSiteEncoding
  let csAction ← readPointer dwEhPeUleb128
  pure ⟨csStart, csLength, csLp, csAction, landingPadBase⟩

end

namespace CallSiteTableEntry

def rangeOfCoveredAddresses (e : CallSiteTableEntry) : Reg × Reg :=
  (e.landingPadBase + e.startingOffset, e.landingPadBase + e.startingOffset + e.length)

/-- `range_of_covered_addresses().contains(&address)`. -/
def contains (e : CallSiteTableEntry) (address : Reg) : Bool :=
  e.rangeOfCoveredAddresses.1.toNat ≤ address.toNat ∧ address.toNat < e.rangeOfCoveredAddresses.2.toNat

def landingPadAddress (e : CallSiteTableEntry) : Option Reg :=
  if e.landingPadOffset = 0 then none else some (e.landingPadBase + e.landingPadOffset)

end CallSiteTableEntry

section

variable {R : Type} [Reader R]

/-- `CallSiteTableIterator::next`. -/
def CallSiteTableIterator.next (iter : CallSiteTableIterator R) :
    Except GimliError (Option CallSiteTableEntry × CallSiteTableIterator R) :=
  if ((Reader.offsetId iter.reader).setWidth 32).toNat < iter.endOfCallSiteTable.toNat then
    ((CallSiteTableEntry.parse iter.callSiteTableEncoding iter.landingPadBase).run iter.reader).map
      fun (entry, reader) => (some entry, { iter with reader := reader })
  else .ok (none, iter)

namespace LSDA

def parseFromBeginning : ReadM R (LsdaHeader × CallSiteTableHeader) := do
  let lsdaHeader ← LsdaHeader.parse
  let callSiteTableHeader ← CallSiteTableHeader.parse
  pure (lsdaHeader, callSiteTableHeader)

def callSiteTableEntries (lsda : LSDA R) : Except GimliError (CallSiteTableIterator R) :=
  (parseFromBeginning.run lsda.reader).map fun ((lsdaHeader, callSiteTableHeader), reader) =>
    { callSiteTableEncoding := callSiteTableHeader.encoding
      endOfCallSiteTable := (Reader.offsetId reader).setWidth 32 + callSiteTableHeader.length
      landingPadBase := lsdaHeader.landingPadBase.getD lsda.functionStartAddress
      reader := reader }

/-- The loop of `call_site_table_entry_for_address`. -/
def entryForAddress (address : Reg) :
    Nat → CallSiteTableIterator R → Option (Except GimliError CallSiteTableEntry)
  | 0, _ => none
  | fuel + 1, iter =>
    match iter.next with
    | .error e => some (.error e)
    | .ok (none, _) => some (.error .noUnwindInfoForAddress)
    | .ok (some entry, iter) =>
      if entry.contains address = true then some (.ok entry) else entryForAddress address fuel iter

def callSiteTableEntryForAddress (lsda : LSDA R) (fuel : Nat) (address : Reg) :
    Option (Except GimliError CallSiteTableEntry) :=
  match lsda.callSiteTableEntries with
  | .error e => some (.error e)
  | .ok iter => entryForAddress address fuel iter

end LSDA

end

-- ---------------------------------------------------------------------------
-- The next function
-- ---------------------------------------------------------------------------

/-- The state of the unwinder, with the LSDA of its `unw_ability`. -/
structure UnwindFrame (R : Type) extends UnwindState where
  lsda : Option (LSDA R)

namespace UnwindFrame

variable {R : Type} [Reader R] {n : Nat} (P : Platform) (cfg : Task.Config)
  (getForPc : Reg → Except String (UnwindAbility × Option (LSDA R)))

/-- The LSDA after a step. That of the caller is looked up together with its `unw_ability`. -/
def lsdaAfter (f : UnwindFrame R) (u : UnwindState) : Except String Unit → Option (LSDA R)
  | .error _ => f.lsda
  | .ok () =>
    if u.hasFinished = true then f.lsda
    else
      match getForPc (u.regs.gp .pc) with
      | .ok (_, lsda) => lsda
      | .error _ => f.lsda

/-- `UnwindState::step`. -/
def step (f : UnwindFrame R) (s : Machine n) : Option (UnwindFrame R × Machine n × Except String Unit) :=
  (f.toUnwindState.step P cfg (fun pc => (getForPc pc).map Prod.fst) s).map fun (u, s, r) =>
    ({ toUnwindState := u, lsda := f.lsdaAfter getForPc u r }, s, r)

/-- The first frame is looked at as it is, and the others after a step to them. -/
def advance (f : UnwindFrame R) (s : Machine n) :
    Option (UnwindFrame R × Machine n × Except String Unit) :=
  if f.isInitial = true then some ({ f with isInitial := false }, s, .ok ())
  else f.step P cfg getForPc s

def saveUnwStatePtr (f : UnwindFrame R) (unwStatePtr : Reg) : UnwindFrame R :=
  { f with regs := f.regs.setGp .r0 unwStatePtr }

/-- What `unwind_next_function` does with a frame whose entry is found. -/
def land (f : UnwindFrame R) (unwStatePtr : Reg) :
    Except GimliError CallSiteTableEntry → Option Reg × UnwindFrame R
  | .error _ => (none, f)
  | .ok entry =>
    match entry.landingPadAddress with
    -- The lowest bit selects the Thumb mode.
    | some addr => (some (addr ||| 1), f.saveUnwStatePtr unwStatePtr)
    | none => (none, f)

/-- `unwind_next_function`. -/
def unwindNextFunction (fuel : Nat) (unwStatePtr : Reg) (f : UnwindFrame R) (s : Machine n) :
    Option (Option Reg × UnwindFrame R × Machine n) :=
  (f.advance P cfg getForPc s).bind fun
    | (_, _, .error _) => none
    | (f, s, .ok ()) =>
      match f.unwAbility with
      | .cantUnwind => none
      | .canUnwind _ =>
        match f.lsda with
        | none => some (none, f, s)
        | some lsda =>
          (lsda.callSiteTableEntryForAddress fuel (f.regs.gp .pc)).map fun found =>
            let (land, f) := f.land unwStatePtr found
            (land, f, s)

end UnwindFrame

-- ---------------------------------------------------------------------------
-- Data areas
-- ---------------------------------------------------------------------------

/-- The base of the landing pads at the beginning of an LSDA, which is that of the function when
it is omitted. -/
inductive EncodesBase (functionStart : Reg) : List Byte → Reg → Prop
  | omitted : EncodesBase functionStart [dwEhPeOmit] functionStart
  | given {f : PointerFormat} {code : List Byte} {base : Reg} (hf : f = .udata4 ∨ f = .uleb128)
      (h : f.Encodes code base.toNat) : EncodesBase functionStart (f.encoding :: code) base

/-- The encoding and the offset of the type table. -/
inductive EncodesTypeTable : List Byte → Prop
  | omitted : EncodesTypeTable [dwEhPeOmit]
  | present {encoding : Byte} {code : List Byte} {offset : Int} (henc : encoding ≠ dwEhPeOmit)
      (h : PointerFormat.uleb128.Encodes code offset) : EncodesTypeTable (encoding :: code)

/-- An entry of the table of call sites. All its addresses are addresses of the target. -/
inductive EncodesEntry (f : PointerFormat) (base : Reg) : List Byte → CallSiteTableEntry → Prop
  | mk {start length landing action : List Byte} {e : CallSiteTableEntry} (hbase : e.landingPadBase = base)
      (hstart : f.Encodes start e.startingOffset.toNat) (hlength : f.Encodes length e.length.toNat)
      (hlanding : f.Encodes landing e.landingPadOffset.toNat)
      (haction : PointerFormat.uleb128.Encodes action e.actionOffset.toNat)
      (hrange : base.toNat + e.startingOffset.toNat + e.length.toNat < 2 ^ 32)
      (hpad : base.toNat + e.landingPadOffset.toNat < 2 ^ 32) :
      EncodesEntry f base (start ++ (length ++ (landing ++ action))) e

inductive EncodesEntries (f : PointerFormat) (base : Reg) : List Byte → List CallSiteTableEntry → Prop
  | nil : EncodesEntries f base [] []
  | cons {code codes : List Byte} {e : CallSiteTableEntry} {es : List CallSiteTableEntry}
      (h : EncodesEntry f base code e) (hs : EncodesEntries f base codes es) :
      EncodesEntries f base (code ++ codes) (e :: es)

/-- A well-formed LSDA of a function. -/
inductive EncodesLsda (functionStart : Reg) : List Byte → List CallSiteTableEntry → Prop
  | mk {lp tt len table : List Byte} {base : Reg} {f : PointerFormat} {es : List CallSiteTableEntry}
      (hlp : EncodesBase functionStart lp base) (htt : EncodesTypeTable tt)
      (hf : f = .uleb128 ∨ f = .udata2 ∨ f = .udata4) (hlen : PointerFormat.uleb128.Encodes len table.length)
      (htable : EncodesEntries f base table es) :
      EncodesLsda functionStart (lp ++ (tt ++ (f.encoding :: (len ++ table)))) es

/-- The entry covers the address. -/
def CallSiteTableEntry.Covers (e : CallSiteTableEntry) (address : Reg) : Prop :=
  e.landingPadBase.toNat + e.startingOffset.toNat ≤ address.toNat ∧
    address.toNat < e.landingPadBase.toNat + e.startingOffset.toNat + e.length.toNat

instance (e : CallSiteTableEntry) (address : Reg) : Decidable (e.Covers address) :=
  inferInstanceAs (Decidable (_ ∧ _))

/-- The first entry that covers the address. -/
def firstEntry (es : List CallSiteTableEntry) (address : Reg) : Option CallSiteTableEntry :=
  es.find? fun e => e.Covers address

/-- Where the frame with the program counter lands. -/
def landing (es : List CallSiteTableEntry) (pc : Reg) : Option Reg :=
  (firstEntry es pc).bind fun e =>
    if e.landingPadOffset = 0 then none
    else some (BitVec.ofNat 32 (e.landingPadBase.toNat + e.landingPadOffset.toNat) ||| 1)

/-- The iterator yields the entries and then `None`. -/
def CallSiteTableIterator.Yields {R : Type} [Reader R] :
    CallSiteTableIterator R → List CallSiteTableEntry → Prop
  | iter, [] => iter.next = .ok (none, iter)
  | iter, e :: es => ∃ iter', iter.next = .ok (some e, iter') ∧ iter'.Yields es

-- ---------------------------------------------------------------------------
-- Headers
-- ---------------------------------------------------------------------------

section

variable {R : Type} [Reader R] {slice : R → Slice Byte} {functionStart base : Reg} {f : PointerFormat}
  {code rest : List Byte} {e : CallSiteTableEntry} {es : List CallSiteTableEntry} {pos : Nat}

theorem readU8_reads (hR : LawfulReader slice) (v : Byte) : Reads slice Reader.readU8 [v] v := by
  have h := hR.readU8 v
  rwa [leBytes, leBytes, BitVec.ofNat_toNat, BitVec.setWidth_eq] at h

theorem encoding_ne_omit (f : PointerFormat) : f.encoding ≠ dwEhPeOmit := by cases f <;> decide

theorem readPointer_toNat (hR : LawfulReader slice) (hf : f ≠ .absptr) {v : Reg}
    (h : f.Encodes code v.toNat) : Reads slice (readPointer f.encoding) code v := by
  have hreads := readPointer_reads hR hf h
  rwa [BitVec.ofInt_natCast, BitVec.ofNat_toNat, BitVec.setWidth_eq] at hreads

omit [Reader R] in
theorem omitted_reads (field : ReadM R Reg) :
    Reads slice (readUnlessOmitted dwEhPeOmit field) [] none := by
  rw [readUnlessOmitted, if_pos rfl]
  exact Reads.pure none

omit [Reader R] in
theorem given_reads {encoding : Byte} {field : ReadM R Reg} {v : Reg} (henc : encoding ≠ dwEhPeOmit)
    (h : Reads slice field code v) : Reads slice (readUnlessOmitted encoding field) code (some v) := by
  rw [readUnlessOmitted, if_neg henc]
  exact h.map some

theorem base_reads (hR : LawfulReader slice) (h : EncodesBase functionStart code base) :
    ∃ encoding code' lp, code = encoding :: code' ∧ lp.getD functionStart = base ∧
      Reads slice (readUnlessOmitted encoding (readPointer encoding)) code' lp := by
  cases h with
  | omitted => exact ⟨_, [], none, rfl, rfl, omitted_reads _⟩
  | @given f code' base hf h =>
    have hne : f ≠ .absptr := by rcases hf with rfl | rfl <;> decide
    exact ⟨f.encoding, code', some base, rfl, rfl,
      given_reads (encoding_ne_omit f) (readPointer_toNat hR hne h)⟩

theorem typeTable_reads (hR : LawfulReader slice) (h : EncodesTypeTable code) :
    ∃ encoding code' offset, code = encoding :: code' ∧
      Reads slice (readUnlessOmitted encoding (readPointer dwEhPeUleb128)) code' offset := by
  cases h with
  | omitted => exact ⟨_, [], none, rfl, omitted_reads _⟩
  | @present encoding code' offset henc h =>
    exact ⟨encoding, code', _, rfl, given_reads henc (readPointer_reads hR (f := .uleb128) (by decide) h)⟩

theorem lsdaHeader_reads (hR : LawfulReader slice) {lp tt : List Byte}
    (hlp : EncodesBase functionStart lp base) (htt : EncodesTypeTable tt) :
    ∃ header : LsdaHeader, header.landingPadBase.getD functionStart = base ∧
      Reads slice LsdaHeader.parse (lp ++ tt) header := by
  obtain ⟨lpEncoding, lpCode, lpBase, rfl, hbase, hlpReads⟩ := base_reads hR hlp
  obtain ⟨ttEncoding, ttCode, ttOffset, rfl, httReads⟩ := typeTable_reads hR htt
  refine ⟨⟨lpEncoding, lpBase, ttEncoding, ttOffset⟩, hbase, ?_⟩
  have hreads : Reads slice LsdaHeader.parse ([lpEncoding] ++ (lpCode ++ ([ttEncoding] ++ (ttCode ++ []))))
      ⟨lpEncoding, lpBase, ttEncoding, ttOffset⟩ := by
    apply (readU8_reads hR lpEncoding).bind
    apply hlpReads.bind
    apply (readU8_reads hR ttEncoding).bind
    apply httReads.bind
    exact Reads.pure _
  simpa using hreads

theorem callSiteTableHeader_reads (hR : LawfulReader slice) {len : List Byte} {length : Nat}
    (hlen : PointerFormat.uleb128.Encodes len length) :
    Reads slice CallSiteTableHeader.parse (f.encoding :: len) ⟨f.encoding, BitVec.ofNat 32 length⟩ := by
  have hlength := readPointer_reads hR (by decide) hlen
  rw [BitVec.ofInt_natCast] at hlength
  rw [← List.append_nil len]
  apply (readU8_reads hR f.encoding).bind
  apply hlength.bind
  exact Reads.pure _

-- ---------------------------------------------------------------------------
-- Entries
-- ---------------------------------------------------------------------------

theorem entry_reads (hR : LawfulReader slice) (hf : f ≠ .absptr) (h : EncodesEntry f base code e) :
    Reads slice (CallSiteTableEntry.parse f.encoding base) code e := by
  obtain ⟨rfl, hstart, hlength, hlanding, haction, -, -⟩ := h
  rename_i action
  rw [← List.append_nil action]
  apply (readPointer_toNat hR hf hstart).bind
  apply (readPointer_toNat hR hf hlength).bind
  apply (readPointer_toNat hR hf hlanding).bind
  apply (readPointer_toNat hR (f := .uleb128) (by decide) haction).bind
  exact Reads.pure _

theorem EncodesEntry.length_pos (h : EncodesEntry f base code e) : 0 < code.length := by
  obtain ⟨-, -, -, -, ⟨n, -, -, hcode, -⟩, -, -⟩ := h
  have := hcode.length_pos
  simp only [List.length_append]
  omega

/-- Where an iterator is that still has the entries of `code` before it. -/
structure CallSiteTableIterator.Before (slice : R → Slice Byte) (f : PointerFormat) (base : Reg)
    (iter : CallSiteTableIterator R) (code rest : List Byte) : Prop where
  encoding : iter.callSiteTableEncoding = f.encoding
  base : iter.landingPadBase = base
  unread : (slice iter.reader).unread = code ++ rest
  stop : iter.endOfCallSiteTable.toNat = (slice iter.reader).pos + code.length

theorem offsetId_toNat (hR : LawfulReader slice) (r : R) :
    ((Reader.offsetId r).setWidth 32 : Reg).toNat = (slice r).pos := by
  have := hR.inBounds r
  rw [hR.offsetId, BitVec.toNat_setWidth, BitVec.toNat_ofNat]
  omega

/-- The table ends with its last entry, and what is behind it is not looked at. -/
theorem yields_entries (hR : LawfulReader slice) (hf : f ≠ .absptr) {iter : CallSiteTableIterator R}
    (hes : EncodesEntries f base code es) (hiter : iter.Before slice f base code rest) : iter.Yields es := by
  induction hes generalizing iter with
  | nil =>
    have hstop := hiter.stop
    rw [List.length_nil, Nat.add_zero] at hstop
    refine if_neg ?_
    rw [offsetId_toNat hR, hstop]
    exact lt_irrefl _
  | @cons code codes e es h _ ih =>
    have hpos := h.length_pos
    have hstop := hiter.stop
    rw [List.length_append] at hstop
    obtain ⟨reader, hrun, hslice⟩ := entry_reads hR hf h iter.reader (slice iter.reader).pos (codes ++ rest)
      (by rw [← List.append_assoc, ← hiter.unread])
    refine ⟨{ iter with reader := reader }, ?_, ih ⟨hiter.encoding, hiter.base, ?_, ?_⟩⟩
    · rw [CallSiteTableIterator.next, if_pos, hiter.encoding, hiter.base, hrun]
      · rfl
      · rw [offsetId_toNat hR]
        omega
    · rw [hslice]
    · rw [hslice, hstop]
      exact (Nat.add_assoc _ _ _).symm

theorem contains_iff (hrange : e.landingPadBase.toNat + e.startingOffset.toNat + e.length.toNat < 2 ^ 32)
    (address : Reg) : e.contains address = decide (e.Covers address) := by
  have hstart : (e.landingPadBase + e.startingOffset).toNat =
      e.landingPadBase.toNat + e.startingOffset.toNat := by
    rw [BitVec.toNat_add, Nat.mod_eq_of_lt (by omega)]
  have hend : (e.landingPadBase + e.startingOffset + e.length).toNat =
      e.landingPadBase.toNat + e.startingOffset.toNat + e.length.toNat := by
    rw [BitVec.toNat_add, hstart, Nat.mod_eq_of_lt hrange]
  rw [Bool.eq_iff_iff, decide_eq_true_iff]
  simp only [CallSiteTableEntry.contains, CallSiteTableEntry.rangeOfCoveredAddresses, hstart, hend,
    decide_eq_true_iff, CallSiteTableEntry.Covers]

theorem EncodesEntries.contains_iff (h : EncodesEntries f base code es) (address : Reg) :
    ∀ e ∈ es, e.contains address = decide (e.Covers address) := by
  induction h with
  | nil => exact fun e he => absurd he List.not_mem_nil
  | cons h _ ih =>
    intro e he
    rcases List.mem_cons.mp he with rfl | he
    · obtain ⟨rfl, -, -, -, -, hrange, -⟩ := h
      exact Unwind.contains_iff hrange address
    · exact ih e he

/-- The loop ends with the first entry that covers the address. -/
theorem entryForAddress_eq {iter : CallSiteTableIterator R} {address : Reg} {fuel : Nat}
    (hyields : iter.Yields es) (hfuel : es.length < fuel)
    (hcontains : ∀ e ∈ es, e.contains address = decide (e.Covers address)) :
    LSDA.entryForAddress address fuel iter =
      some ((firstEntry es address).elim (.error .noUnwindInfoForAddress) .ok) := by
  induction es generalizing iter fuel with
  | nil =>
    obtain ⟨fuel, rfl⟩ := Nat.exists_eq_succ_of_ne_zero (Nat.ne_of_gt hfuel)
    have hnext : iter.next = .ok (none, iter) := hyields
    simp only [LSDA.entryForAddress, hnext]
    rfl
  | cons e es ih =>
    obtain ⟨fuel, rfl⟩ := Nat.exists_eq_succ_of_ne_zero (Nat.ne_of_gt (Nat.lt_of_le_of_lt (Nat.zero_le _) hfuel))
    obtain ⟨iter', hnext, hyields⟩ := hyields
    have he := hcontains e List.mem_cons_self
    simp only [LSDA.entryForAddress, hnext, he, decide_eq_true_iff]
    by_cases hcovers : e.Covers address
    · have hfirst : firstEntry (e :: es) address = some e := by simp [firstEntry, hcovers]
      rw [if_pos hcovers, hfirst]
      rfl
    · have hfirst : firstEntry (e :: es) address = firstEntry es address := by
        simp [firstEntry, hcovers]
      rw [if_neg hcovers, hfirst]
      exact ih hyields (Nat.lt_of_succ_lt_succ hfuel) fun e he => hcontains e (List.mem_cons_of_mem _ he)

theorem callSiteTableEntries_yields (hR : LawfulReader slice) {lsda : LSDA R}
    (h : EncodesLsda lsda.functionStartAddress code es) (hslice : slice lsda.reader = ⟨pos, code ++ rest⟩) :
    ∃ iter, lsda.callSiteTableEntries = .ok iter ∧ iter.Yields es := by
  obtain ⟨hlp, htt, hf, hlen, htable⟩ := h
  rename_i lp tt len table base f
  obtain ⟨header, hbase, hheader⟩ := lsdaHeader_reads hR hlp htt
  have hparse : Reads slice LSDA.parseFromBeginning ((lp ++ tt) ++ ((f.encoding :: len) ++ []))
      (header, ⟨f.encoding, BitVec.ofNat 32 table.length⟩) := by
    apply hheader.bind
    apply (callSiteTableHeader_reads hR hlen).bind
    exact Reads.pure _
  obtain ⟨reader, hrun, hreader⟩ := hparse lsda.reader pos (table ++ rest) (by rw [hslice]; simp)
  refine ⟨_, by rw [LSDA.callSiteTableEntries, hrun]; rfl, ?_⟩
  have hne : f ≠ .absptr := by rcases hf with rfl | rfl | rfl <;> decide
  have hbound := hR.inBounds reader
  rw [hreader] at hbound
  refine yields_entries hR hne htable ⟨rfl, hbase, by rw [hreader], ?_⟩
  rw [BitVec.toNat_add, offsetId_toNat hR, hreader, BitVec.toNat_ofNat]
  simp only [List.length_append] at hbound ⊢
  omega

theorem callSiteTableEntryForAddress_eq (hR : LawfulReader slice) {lsda : LSDA R} {address : Reg}
    {fuel : Nat} (h : EncodesLsda lsda.functionStartAddress code es)
    (hslice : slice lsda.reader = ⟨pos, code ++ rest⟩) (hfuel : es.length < fuel) :
    lsda.callSiteTableEntryForAddress fuel address =
      some ((firstEntry es address).elim (.error .noUnwindInfoForAddress) .ok) := by
  obtain ⟨iter, hiter, hyields⟩ := callSiteTableEntries_yields hR h hslice
  obtain ⟨-, -, -, -, htable⟩ := h
  rw [LSDA.callSiteTableEntryForAddress, hiter]
  exact entryForAddress_eq hyields hfuel (htable.contains_iff address)

-- ---------------------------------------------------------------------------
-- Landing
-- ---------------------------------------------------------------------------

/-- The entries of the table of a frame. A frame without an LSDA has none. -/
inductive HasEntries (slice : R → Slice Byte) : Option (LSDA R) → List CallSiteTableEntry → Prop
  | noLsda : HasEntries slice none []
  | lsda {lsda : LSDA R} {code rest : List Byte} {es : List CallSiteTableEntry} {pos : Nat}
      (h : EncodesLsda lsda.functionStartAddress code es) (hslice : slice lsda.reader = ⟨pos, code ++ rest⟩) :
      HasEntries slice (some lsda) es

/-- What `unwind_next_function` returns with a frame and its table. -/
def UnwindFrame.landed (f : UnwindFrame R) (unwStatePtr : Reg) (es : List CallSiteTableEntry) :
    Option Reg × UnwindFrame R :=
  match landing es (f.regs.gp .pc) with
  | some addr => (some addr, f.saveUnwStatePtr unwStatePtr)
  | none => (none, f)

omit [Reader R] in
theorem land_eq {g : UnwindFrame R} {unwStatePtr : Reg} :
    g.land unwStatePtr ((firstEntry es (g.regs.gp .pc)).elim (.error .noUnwindInfoForAddress) .ok) =
      g.landed unwStatePtr es := by
  unfold UnwindFrame.landed landing
  cases hfirst : firstEntry es (g.regs.gp .pc) with
  | none => rfl
  | some e =>
    have hsum : BitVec.ofNat 32 (e.landingPadBase.toNat + e.landingPadOffset.toNat) =
        e.landingPadBase + e.landingPadOffset := by
      rw [BitVec.ofNat_add, BitVec.ofNat_toNat, BitVec.ofNat_toNat, BitVec.setWidth_eq, BitVec.setWidth_eq]
    simp only [Option.elim_some, UnwindFrame.land, CallSiteTableEntry.landingPadAddress, Option.bind_some,
      hsum]
    by_cases hoffset : e.landingPadOffset = 0
    · rw [if_pos hoffset, if_pos hoffset]
    · rw [if_neg hoffset, if_neg hoffset]

/-- The table of call sites is searched to its end and no further, and the first entry that covers
the address is found. The unwinder lands in it exactly when it has a landing pad. -/
theorem callSiteTable_lookup (hR : LawfulReader slice) :
    (∀ (lsda : LSDA R) (code rest : List Byte) (es : List CallSiteTableEntry) (pos : Nat),
      EncodesLsda lsda.functionStartAddress code es → slice lsda.reader = ⟨pos, code ++ rest⟩ →
        (∃ iter, lsda.callSiteTableEntries = .ok iter ∧ iter.Yields es) ∧
        ∀ (address : Reg) (fuel : Nat), es.length < fuel → lsda.callSiteTableEntryForAddress fuel address =
          some ((firstEntry es address).elim (.error .noUnwindInfoForAddress) .ok)) ∧
    ∀ {n : Nat} (P : Platform) (cfg : Task.Config)
      (getForPc : Reg → Except String (UnwindAbility × Option (LSDA R))) (unwStatePtr : Reg)
      (g g' : UnwindFrame R) (s s' : Machine n) (iter : UnwindByteIter) (es : List CallSiteTableEntry) (fuel : Nat),
      g.advance P cfg getForPc s = some (g', s', .ok ()) → g'.unwAbility = .canUnwind iter →
      HasEntries slice g'.lsda es → es.length < fuel →
        g.unwindNextFunction P cfg getForPc fuel unwStatePtr s =
          some ((g'.landed unwStatePtr es).1, (g'.landed unwStatePtr es).2, s') := by
  refine ⟨fun lsda code rest es pos h hslice => ⟨callSiteTableEntries_yields hR h hslice, fun address fuel hfuel =>
    callSiteTableEntryForAddress_eq hR h hslice hfuel⟩, ?_⟩
  intro n P cfg getForPc unwStatePtr g g' s s' iter es fuel hadvance hability hes hfuel
  rw [UnwindFrame.unwindNextFunction, hadvance, Option.bind_some]
  simp only [hability]
  generalize hlsda : g'.lsda = l at hes
  cases hes with
  | noLsda => rfl
  | lsda h hslice =>
    simp only [callSiteTableEntryForAddress_eq hR h hslice hfuel, Option.map_some,
      land_eq]

end

/-- The LSDA of a function with two call sites. Only the second one has a landing pad. -/
def sampleLsda : LSDA U8Slice where
  reader := ⟨0x08001000, [0xff, 0xff, 0x01, 0x08, 0x00, 0x04, 0x00, 0x00, 0x04, 0x08, 0x20, 0x00, 0xaa], by decide⟩
  functionStartAddress := 0x08000200

def sampleEntries : List CallSiteTableEntry := [⟨0, 4, 0, 0, 0x08000200⟩, ⟨4, 8, 0x20, 0, 0x08000200⟩]

def sampleRegs : Regs := ⟨fun r => if r = .pc then 0x08000206 else 0, fun _ => 0⟩

/-- A frame of the function at its second call site. -/
def sampleFrame : UnwindFrame U8Slice where
  regs := sampleRegs
  unwAbility := .canUnwind ⟨[], 0, rfl⟩
  stkletBoundary := 0x20000100
  isInitial := true
  lsda := some sampleLsda

theorem uleb128_byte (b : Byte) (hb : b.toNat < 128) : PointerFormat.uleb128.Encodes [b] b.toNat :=
  ⟨b.toNat, by omega, rfl, .last hb, Nat.le_of_ble_eq_true rfl⟩

theorem sampleEntries_encoded : EncodesEntries .uleb128 0x08000200
    ([0x00, 0x04, 0x00, 0x00] ++ ([0x04, 0x08, 0x20, 0x00] ++ [])) sampleEntries := by
  have h₁ : EncodesEntry .uleb128 0x08000200 ([0x00] ++ ([0x04] ++ ([0x00] ++ [0x00])))
      ⟨0, 4, 0, 0, 0x08000200⟩ :=
    .mk rfl (uleb128_byte 0 (by decide)) (uleb128_byte 4 (by decide)) (uleb128_byte 0 (by decide))
      (uleb128_byte 0 (by decide)) (by decide) (by decide)
  have h₂ : EncodesEntry .uleb128 0x08000200 ([0x04] ++ ([0x08] ++ ([0x20] ++ [0x00])))
      ⟨4, 8, 0x20, 0, 0x08000200⟩ :=
    .mk rfl (uleb128_byte 4 (by decide)) (uleb128_byte 8 (by decide)) (uleb128_byte 0x20 (by decide))
      (uleb128_byte 0 (by decide)) (by decide) (by decide)
  exact .cons h₁ (.cons h₂ .nil)

theorem sampleLsda_encoded : EncodesLsda 0x08000200
    ([0xff] ++ ([0xff] ++ (0x01 :: ([0x08] ++ [0x00, 0x04, 0x00, 0x00, 0x04, 0x08, 0x20, 0x00])))) sampleEntries :=
  .mk .omitted .omitted (.inl rfl) (uleb128_byte 8 (by decide)) sampleEntries_encoded

theorem callSiteTable_lookup_sample :
    sampleLsda.callSiteTableEntryForAddress 3 0x0800020c = some (.error .noUnwindInfoForAddress) ∧
    ∃ (s : Machine 1) (g : UnwindFrame U8Slice),
      sampleFrame.unwindNextFunction board boardConfig (fun _ => .error "") 3 0x20000800 s =
        some (some 0x08000221, g, s) ∧ g.regs.gp .r0 = 0x20000800 := by
  have h := callSiteTable_lookup U8Slice.lawful
  obtain ⟨client, -, -⟩ := boardHeap_start
  refine ⟨(h.1 sampleLsda _ [0xaa] _ 0x08001000 sampleLsda_encoded rfl).2 0x0800020c 3 (by decide),
    (boardTask (.default 1) client).machine,
    UnwindFrame.saveUnwStatePtr { sampleFrame with isInitial := false } 0x20000800, ?_, rfl⟩
  exact h.2 board boardConfig _ 0x20000800 sampleFrame { sampleFrame with isInitial := false } _ _ _
    sampleEntries 3 rfl rfl (.lsda sampleLsda_encoded rfl) (by decide)

end Hopter.Unwind
