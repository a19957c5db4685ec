-- SUMMARY: The lookup of the table entry of a function: a binary search, and what is read from the entry.
import Hopter.Unwind.Lsda
import Hopter.Unwind.Table

/-!
# Looking up a function

`UnwindAbility::get_for_pc` in `src/unwind/unwind.rs`. The index table is sorted by the addresses of
the functions, and the entry of a program counter is the last one whose address is not above it. The
search goes over the offsets of the bytes.

`none` is an index out of range, or a subtraction below zero. The search has none of them, and they
occur when the entry that is found points out of `.ARM.extab`.
-/

namespace Hopter.Unwind

open Hopter.Task

structure UnwindInfo where
  funcAddr : Reg
  personality : PersonalityType
  unwInstrIter : UnwindByteIter
  lsda : Option (LSDA U8Slice)

/-- `UnwindAbility`, with all of `UnwindInfo`. -/
inductive FullAbility where
  | cantUnwind
  | canUnwind (unwInfo : UnwindInfo)

namespace FullAbility

/-- `UnwindAbility::from_bytes`, for an entry of eight bytes. -/
def fromBytes (entry extab : U8Slice) : Option (Except String FullAbility) :=
  (ExIdxEntry.fromBytes entry).bind fun
    | .error e => some (.error e)
    | .ok ⟨_, .cantUnwind⟩ => some (.ok .cantUnwind)
    | .ok ⟨funcAddr, .compact personality iter⟩ => some (.ok (.canUnwind ⟨funcAddr, personality, iter, none⟩))
    | .ok ⟨funcAddr, .exTabEntryAddr addr⟩ =>
      -- `&extab[0]`, and the subtraction of its address.
      if extab.bytes = [] ∨ addr.toNat < extab.addr then none
      else
        (ExTabEntry.fromBytes extab (addr.toNat - extab.addr)).map fun
          | .error e => .error e
          | .ok (extabEntry, lsda) =>
            .ok (.canUnwind ⟨funcAddr, extabEntry.personality, extabEntry.unwInstrIter, some ⟨lsda, funcAddr⟩⟩)

/-- `*self = s` when there is one, and the result. -/
def assign (self : FullAbility) : Except String FullAbility → FullAbility × Except String Unit
  | .ok s => (s, .ok ())
  | .error e => (self, .error e)

/-- The loop of the binary search. The result is `first`. -/
def bisect (pc : Reg) (exidx : U8Slice) (first last : Nat) : Option Nat :=
  if last < 8 then none
  else if first < last - 8 then
    let mid := first + (((last - first) / 8 + 1) >>> 1) * 8
    (exidx.sub mid (mid + 4)).bind fun midPc =>
      if pc < (Prel31.fromBytes midPc).value then bisect pc exidx first mid
      else bisect pc exidx mid last
  else some first
termination_by last - first
decreasing_by
  all_goals
    rename_i hlast hlt
    simp only [Nat.shiftRight_eq_div_pow]
    omega

/-- `UnwindAbility::get_for_pc`. -/
def getForPc (self : FullAbility) (pc : Reg) (exidx extab : U8Slice) :
    Option (FullAbility × Except String Unit) :=
  if exidx.bytes.length % 8 ≠ 0 then
    some (self, .error "UnwindAbility::get_for_func: exidx length not multiple of 8.")
  else if exidx.bytes.length = 0 then some (self, .error "UnwindAbility::get_for_func: empty exidx.")
  else
    let first := 0
    let last := exidx.bytes.length - 8
    (exidx.sub first (first + 4)).bind fun firstPc =>
    if pc < (Prel31.fromBytes firstPc).value then
      some (self, .error "UnwindAbility::get_for_func: no matching entry.")
    else
      (exidx.sub last (last + 4)).bind fun lastPc =>
      if (Prel31.fromBytes lastPc).value ≤ pc then
        (exidx.sub last (last + 8)).bind fun entry => (fromBytes entry extab).map self.assign
      else
        (bisect pc exidx first last).bind fun first =>
        (exidx.sub first (first + 8)).bind fun entry => (fromBytes entry extab).map self.assign

end FullAbility

-- ---------------------------------------------------------------------------
-- The index table
-- ---------------------------------------------------------------------------

/-- The word at an offset. -/
def Prel31.at (s : U8Slice) (offset : Nat) : Prel31 :=
  ⟨BitVec.ofNat 32 (leNat ((s.bytes.drop offset).take 4)), BitVec.ofNat 32 (s.addr + offset)⟩

/-- The address of a function of the index table. -/
def funcAddr (exidx : U8Slice) (i : Nat) : Reg := (Prel31.at exidx (8 * i)).value

/-- The second word of an entry of the index table. -/
def content (exidx : U8Slice) (i : Nat) : Prel31 := Prel31.at exidx (8 * i + 4)

/-- The addresses of the functions do not decrease. -/
def Sorted (exidx : U8Slice) : Prop :=
  ∀ i j, i ≤ j → j < exidx.bytes.length / 8 → funcAddr exidx i ≤ funcAddr exidx j

/-- The last entry whose function does not begin behind the program counter. -/
structure Selected (exidx : U8Slice) (pc : Reg) (i : Nat) : Prop where
  lt : i < exidx.bytes.length / 8
  le : funcAddr exidx i ≤ pc
  last : ∀ j, i < j → j < exidx.bytes.length / 8 → pc < funcAddr exidx j

variable {exidx extab s t : U8Slice} {pc : Reg} {i j k : Nat} {self : FullAbility}

theorem sub_eq (h : i ≤ j ∧ j ≤ s.bytes.length) : ∃ t, s.sub i j = some t ∧
    t.addr = s.addr + i ∧ t.bytes = (s.bytes.drop i).take (j - i) :=
  ⟨_, dif_pos h, rfl, rfl⟩

theorem sub_word (h : i + 4 ≤ s.bytes.length) :
    ∃ t, s.sub i (i + 4) = some t ∧ Prel31.fromBytes t = Prel31.at s i := by
  obtain ⟨t, ht, haddr, hbytes⟩ := sub_eq (s := s) ⟨Nat.le_add_right i 4, h⟩
  refine ⟨t, ht, ?_⟩
  rw [Prel31.fromBytes, haddr, hbytes, Nat.add_sub_cancel_left]
  rfl

/-- The loop ends with the entry before the one where the functions begin behind the program counter. -/
theorem bisect_spec {i j : Nat} (hij : i < j) (hlen : 8 * j + 8 ≤ exidx.bytes.length) (hi : funcAddr exidx i ≤ pc)
    (hj : pc < funcAddr exidx j) :
    ∃ k, i ≤ k ∧ k < j ∧ FullAbility.bisect pc exidx (8 * i) (8 * j) = some (8 * k) ∧
      funcAddr exidx k ≤ pc ∧ pc < funcAddr exidx (k + 1) := by
  rw [FullAbility.bisect, if_neg (by omega)]
  by_cases hlt : 8 * i < 8 * j - 8
  · rw [if_pos hlt]
    obtain ⟨m, hmid, him, hmj⟩ : ∃ m, 8 * i + (((8 * j - 8 * i) / 8 + 1) >>> 1) * 8 = 8 * m ∧ i < m ∧ m < j := by
      refine ⟨i + (j - i + 1) / 2, ?_, by omega, by omega⟩
      rw [Nat.shiftRight_eq_div_pow]
      omega
    obtain ⟨w, hsub, hword⟩ := sub_word (s := exidx) (i := 8 * m) (by omega)
    have hw : (Prel31.fromBytes w).value = funcAddr exidx m := congrArg Prel31.value hword
    dsimp only
    rw [hmid, hsub, Option.bind_some, hw]
    by_cases hpc : pc < funcAddr exidx m
    · rw [if_pos hpc]
      obtain ⟨k, hik, hkm, hrun, hk⟩ := bisect_spec him (by omega) hi hpc
      exact ⟨k, hik, by omega, hrun, hk⟩
    · rw [if_neg hpc]
      obtain ⟨k, hmk, hkj, hrun, hk⟩ := bisect_spec hmj hlen (BitVec.not_lt.mp hpc) hj
      exact ⟨k, by omega, hkj, hrun, hk⟩
  · rw [if_neg hlt]
    obtain rfl : j = i + 1 := by omega
    exact ⟨i, le_rfl, Nat.lt_succ_self i, rfl, hi, hj⟩
termination_by j - i

-- ---------------------------------------------------------------------------
-- Entries within the tables
-- ---------------------------------------------------------------------------

/-- The entry of `.ARM.extab` at an offset is in the slice. An offset that is not a multiple of 4 is not
looked at, and neither are the words of an entry with a personality that is reserved. -/
def ExTabEntry.InBounds (extab : U8Slice) (offset : Nat) : Prop :=
  offset % 4 ≠ 0 ∨ ∃ rawPers, extab.bytes[offset + 3]? = some rawPers ∧
    if rawPers &&& 0x80 = 0x80 then
      rawPers &&& 0x0f = 1 ∨ rawPers &&& 0x0f = 2 → ∀ extraWordNum, extab.bytes[offset + 2]? = some extraWordNum →
        offset + 4 + 4 * extraWordNum.toNat ≤ extab.bytes.length
    else ∃ extraWordNum, extab.bytes[offset + 7]? = some extraWordNum ∧
      offset + 8 + 4 * extraWordNum.toNat ≤ extab.bytes.length

/-- The entry of the index table is corrupted, has its instructions in itself, or points into
`.ARM.extab`. -/
def EntryInBounds (exidx extab : U8Slice) (i : Nat) : Prop :=
  (Prel31.at exidx (8 * i)).isMsbSet ∨ (content exidx i).offsetRaw = 1 ∨ (content exidx i).isMsbSet ∨
    (extab.bytes ≠ [] ∧ extab.addr ≤ (content exidx i).value.toNat ∧
      ExTabEntry.InBounds extab ((content exidx i).value.toNat - extab.addr))

theorem sub_eq_none (h : s.bytes.length < j) : s.sub i j = none := dif_neg fun hle => by omega

theorem build_isSome {start stop : Nat} (personality : PersonalityType) (skip : UnwindByteIter → UnwindByteIter)
    (hle : start ≤ stop) :
    (ExTabEntry.build extab personality start stop skip).isSome = true ↔ stop ≤ extab.bytes.length := by
  by_cases hstop : stop ≤ extab.bytes.length
  · obtain ⟨words, hwords, -⟩ := sub_eq (s := extab) ⟨hle, hstop⟩
    obtain ⟨lsda, hlsda, -⟩ := sub_eq (s := extab) ⟨hstop, le_rfl⟩
    refine iff_of_true ?_ hstop
    rw [ExTabEntry.build, hwords, Option.bind_some]
    split
    · rfl
    · rw [hlsda]
      rfl
  · refine iff_of_false ?_ hstop
    rw [ExTabEntry.build, sub_eq_none (Nat.lt_of_not_le hstop)]
    exact Bool.false_ne_true

theorem exTabEntry_isSome {offset : Nat} :
    (ExTabEntry.fromBytes extab offset).isSome = true ↔ ExTabEntry.InBounds extab offset := by
  unfold ExTabEntry.fromBytes ExTabEntry.InBounds
  by_cases halign : offset % 4 ≠ 0
  · rw [if_pos halign]
    exact iff_of_true rfl (Or.inl halign)
  · rw [if_neg halign, or_iff_right halign]
    cases hpers : extab.bytes[offset + 3]? with
    | none => exact iff_of_false Bool.false_ne_true fun ⟨_, h, _⟩ => by cases h
    | some rawPers =>
      have hlen : offset + 3 < extab.bytes.length := (List.getElem?_eq_some_iff.mp hpers).1
      simp only [Option.bind_some, Option.some.injEq, exists_eq_left']
      by_cases hcompact : rawPers &&& 0x80 = 0x80
      · rw [if_pos hcompact, if_pos hcompact]
        by_cases hsel : rawPers &&& 0x0f = 1 ∨ rawPers &&& 0x0f = 2
        · obtain ⟨extraWordNum, hextra⟩ : ∃ x, extab.bytes[offset + 2]? = some x :=
            ⟨_, List.getElem?_eq_getElem (by omega)⟩
          rw [if_pos hsel, hextra, Option.bind_some, build_isSome _ _ (by omega)]
          constructor
          · rintro h - x hx
            exact Option.some.inj hx ▸ h
          · exact fun h => h hsel _ rfl
        · rw [if_neg hsel]
          refine iff_of_true ?_ fun h => absurd h hsel
          split
          · exact (build_isSome _ _ (by omega)).mpr (by omega)
          · rfl
      · rw [if_neg hcompact, if_neg hcompact]
        obtain ⟨persBytes, hsub, -⟩ := sub_eq (s := extab) (i := offset) (j := offset + 4) ⟨by omega, by omega⟩
        rw [hsub, Option.bind_some]
        cases hextra : extab.bytes[offset + 7]? with
        | none => exact iff_of_false Bool.false_ne_true fun ⟨_, h, _⟩ => by cases h
        | some extraWordNum =>
          simp only [Option.bind_some, Option.some.injEq, exists_eq_left']
          exact build_isSome _ _ (by omega)

/-- What is parsed from an entry of the index table. -/
theorem exIdxEntry_eq (hi : 8 * i + 8 ≤ exidx.bytes.length) :
    ∃ entry bytes : U8Slice, exidx.sub (8 * i) (8 * i + 8) = some entry ∧ bytes.bytes.length = 4 ∧
      ExIdxEntry.fromBytes entry =
        if (Prel31.at exidx (8 * i)).isMsbSet then some (.error "ExIdxEntry::from_bytes: corrupted entry.")
        else (ExIdxEntryContent.fromRaw (content exidx i) bytes).map fun content =>
          .ok ⟨funcAddr exidx i, content⟩ := by
  obtain ⟨entry, hentry, haddr, hbytes⟩ := sub_eq (s := exidx) (i := 8 * i) (j := 8 * i + 8) ⟨by omega, hi⟩
  have hlen : entry.bytes.length = 8 := by
    rw [hbytes, List.length_take, List.length_drop]
    omega
  have hat : ∀ k ≤ 4, Prel31.at entry k = Prel31.at exidx (8 * i + k) := by
    intro k hk
    have hword : ((entry.bytes.drop k).take 4) = ((exidx.bytes.drop (8 * i + k)).take 4) := by
      rw [hbytes, Nat.add_sub_cancel_left, List.drop_take, List.take_take, List.drop_drop,
        Nat.min_eq_left (by omega)]
    rw [Prel31.at, Prel31.at, hword, haddr, Nat.add_assoc]
  obtain ⟨func, hfunc, hfuncAt⟩ := sub_word (s := entry) (i := 0) (by omega)
  obtain ⟨bytes, hcontent, hcontentAt⟩ := sub_word (s := entry) (i := 4) (by omega)
  obtain ⟨bytes', hcontent', -, hbytes'⟩ := sub_eq (s := entry) (i := 4) (j := 8) ⟨by omega, by omega⟩
  obtain rfl : bytes = bytes' := Option.some.inj (hcontent.symm.trans hcontent')
  refine ⟨entry, bytes, hentry, ?_, ?_⟩
  · rw [hbytes', List.length_take, List.length_drop]
    omega
  · rw [ExIdxEntry.fromBytes, hfunc, Option.bind_some, hcontent', Option.bind_some, hfuncAt, hcontentAt,
      hat 0 (by decide), hat 4 le_rfl]
    rfl

theorem fromBytes_isSome (exidx extab : U8Slice) (i : Nat) (hi : 8 * i + 8 ≤ exidx.bytes.length) :
    ∃ entry, exidx.sub (8 * i) (8 * i + 8) = some entry ∧
      ((FullAbility.fromBytes entry extab).isSome = true ↔ EntryInBounds exidx extab i) := by
  obtain ⟨entry, bytes, hentry, hlen, heq⟩ := exIdxEntry_eq hi
  refine ⟨entry, hentry, ?_⟩
  unfold FullAbility.fromBytes EntryInBounds
  rw [heq]
  by_cases hcorrupted : (Prel31.at exidx (8 * i)).isMsbSet
  · rw [if_pos hcorrupted]
    exact iff_of_true rfl (Or.inl hcorrupted)
  · rw [if_neg hcorrupted, or_iff_right hcorrupted, ExIdxEntryContent.fromRaw]
    by_cases hcant : (content exidx i).offsetRaw = 1
    · rw [if_pos hcant]
      exact iff_of_true rfl (Or.inl hcant)
    · rw [if_neg hcant, or_iff_right hcant]
      by_cases hcompact : (content exidx i).isMsbSet
      · have hiter : UnwindByteIter.fromBytes bytes.bytes = .ok ⟨bytes.bytes, 0, by rw [hlen]⟩ := dif_pos _
        rw [if_pos hcompact, hiter]
        exact iff_of_true rfl (Or.inl hcompact)
      · rw [if_neg hcompact, or_iff_right hcompact, Option.map_some, Option.bind_some]
        dsimp only
        by_cases hout : extab.bytes = [] ∨ (content exidx i).value.toNat < extab.addr
        · rw [if_pos hout]
          refine iff_of_false Bool.false_ne_true fun h => ?_
          exact hout.elim h.1 fun hlt => absurd h.2.1 (Nat.not_le_of_lt hlt)
        · rw [not_or, Nat.not_lt] at hout
          rw [if_neg (not_or.mpr ⟨hout.1, Nat.not_lt.mpr hout.2⟩), Option.isSome_map, exTabEntry_isSome]
          exact ⟨fun h => ⟨hout.1, hout.2, h⟩, fun h => h.2.2⟩

-- ---------------------------------------------------------------------------
-- The lookup
-- ---------------------------------------------------------------------------

/-- The first and the last entry, and what is between them. -/
theorem getForPc_eq (self : FullAbility) (extab : U8Slice) (hmod : exidx.bytes.length % 8 = 0)
    (hne : exidx.bytes ≠ []) :
    (pc < funcAddr exidx 0 ∧ FullAbility.getForPc self pc exidx extab =
      some (self, .error "UnwindAbility::get_for_func: no matching entry.")) ∨
    (funcAddr exidx 0 ≤ pc ∧ ∃ i, i < exidx.bytes.length / 8 ∧ funcAddr exidx i ≤ pc ∧
      (i + 1 < exidx.bytes.length / 8 → pc < funcAddr exidx (i + 1)) ∧
      FullAbility.getForPc self pc exidx extab = (exidx.sub (8 * i) (8 * i + 8)).bind fun entry =>
        (FullAbility.fromBytes entry extab).map self.assign) := by
  have hpos := List.length_pos_of_ne_nil hne
  obtain ⟨n, hn⟩ : ∃ n, exidx.bytes.length = 8 * (n + 1) := ⟨exidx.bytes.length / 8 - 1, by omega⟩
  have hcount : exidx.bytes.length / 8 = n + 1 := by omega
  have hlast : exidx.bytes.length - 8 = 8 * n := by omega
  obtain ⟨w₀, hsub₀, hword₀⟩ := sub_word (s := exidx) (i := 0) (by omega)
  have hw₀ : (Prel31.fromBytes w₀).value = funcAddr exidx 0 := congrArg Prel31.value hword₀
  obtain ⟨w₁, hsub₁, hword₁⟩ := sub_word (s := exidx) (i := 8 * n) (by omega)
  have hw₁ : (Prel31.fromBytes w₁).value = funcAddr exidx n := congrArg Prel31.value hword₁
  have hstart : FullAbility.getForPc self pc exidx extab =
      if pc < funcAddr exidx 0 then some (self, .error "UnwindAbility::get_for_func: no matching entry.")
      else if funcAddr exidx n ≤ pc then
        (exidx.sub (8 * n) (8 * n + 8)).bind fun entry => (FullAbility.fromBytes entry extab).map self.assign
      else
        (FullAbility.bisect pc exidx 0 (8 * n)).bind fun first =>
        (exidx.sub first (first + 8)).bind fun entry => (FullAbility.fromBytes entry extab).map self.assign := by
    rw [FullAbility.getForPc, if_neg (not_not.mpr hmod), if_neg (by omega)]
    dsimp only
    rw [hsub₀, Option.bind_some, hw₀, hlast, hsub₁, Option.bind_some, hw₁]
  rw [hstart, hcount]
  by_cases hfirst : pc < funcAddr exidx 0
  · exact Or.inl ⟨hfirst, if_pos hfirst⟩
  · refine Or.inr ⟨BitVec.not_lt.mp hfirst, ?_⟩
    rw [if_neg hfirst]
    by_cases hend : funcAddr exidx n ≤ pc
    · exact ⟨n, Nat.lt_succ_self n, hend, fun h => absurd h (by omega), if_pos hend⟩
    · have hnpos : 0 < n := Nat.pos_of_ne_zero fun h => hend (h ▸ BitVec.not_lt.mp hfirst)
      obtain ⟨k, -, hkn, hrun, hle, hlt⟩ := bisect_spec (i := 0) hnpos (by omega) (BitVec.not_lt.mp hfirst)
        (BitVec.not_le.mp hend)
      refine ⟨k, by omega, hle, fun _ => hlt, ?_⟩
      rw [Nat.mul_zero] at hrun
      rw [if_neg hend, hrun]
      rfl

theorem reg_lt_of_lt_of_le {a b c : Reg} (hab : a < b) (hbc : b ≤ c) : a < c :=
  BitVec.lt_def.mpr (Nat.lt_of_lt_of_le (BitVec.lt_def.mp hab) (BitVec.le_def.mp hbc))

theorem Selected.unique (hi : Selected exidx pc i) (hj : Selected exidx pc j) : i = j := by
  rcases Nat.lt_trichotomy i j with hlt | rfl | hlt
  · exact absurd hj.le (BitVec.not_le.mpr (hi.last j hlt hj.lt))
  · rfl
  · exact absurd hi.le (BitVec.not_le.mpr (hj.last i hlt hi.lt))

/-- On a sorted table the binary search finds the entry of a linear scan. The lookup then returns what
the entry says exactly when the entry is corrupted, or within the tables. There is no entry when the
table is empty, or begins behind the program counter. -/
theorem getForPc_scan (self : FullAbility) (pc : Reg) (exidx extab : U8Slice) :
    (exidx.bytes.length % 8 ≠ 0 → ∃ e, self.getForPc pc exidx extab = some (self, .error e)) ∧
    (exidx.bytes.length % 8 = 0 → Sorted exidx →
      (∀ i, Selected exidx pc i →
        ((∃ entry r, exidx.sub (8 * i) (8 * i + 8) = some entry ∧ FullAbility.fromBytes entry extab = some r ∧
          self.getForPc pc exidx extab = some (self.assign r)) ↔ EntryInBounds exidx extab i)) ∧
      ((∀ i, ¬ Selected exidx pc i) ↔ exidx.bytes = [] ∨ pc < funcAddr exidx 0) ∧
      ((∀ i, ¬ Selected exidx pc i) → ∃ e, self.getForPc pc exidx extab = some (self, .error e))) := by
  refine ⟨fun hmod => ⟨_, if_pos hmod⟩, fun hmod hsorted => ?_⟩
  by_cases hne : exidx.bytes = []
  · have hlen : exidx.bytes.length = 0 := by rw [hne, List.length_nil]
    have hnone : ∀ i, ¬ Selected exidx pc i := fun i h => absurd h.lt (by omega)
    refine ⟨fun i h => absurd h (hnone i), iff_of_true hnone (Or.inl hne), fun _ => ?_⟩
    rw [FullAbility.getForPc, if_neg (not_not.mpr hmod), if_pos hlen]
    exact ⟨_, rfl⟩
  · have hpos := List.length_pos_of_ne_nil hne
    rcases getForPc_eq self extab hmod hne with ⟨hbefore, heq⟩ | ⟨hfirst, k, hk, hle, hlt, heq⟩
    · -- The first function begins behind the program counter, and so do the others.
      have hnone : ∀ i, ¬ Selected exidx pc i := fun i h =>
        absurd h.le (BitVec.not_le.mpr (reg_lt_of_lt_of_le hbefore (hsorted 0 i (Nat.zero_le i) h.lt)))
      exact ⟨fun i h => absurd h (hnone i), iff_of_true hnone (Or.inr hbefore), fun _ => ⟨_, heq⟩⟩
    · have hsel : Selected exidx pc k := ⟨hk, hle, fun j hkj hj =>
        reg_lt_of_lt_of_le (hlt (by omega)) (hsorted (k + 1) j hkj hj)⟩
      refine ⟨fun i hi => ?_, ?_, fun h => absurd hsel (h k)⟩
      · obtain rfl := hi.unique hsel
        obtain ⟨entry, hentry, hsome⟩ := fromBytes_isSome exidx extab i (by omega)
        rw [← hsome, heq, hentry, Option.bind_some]
        constructor
        · rintro ⟨entry', r, hentry', hr, -⟩
          obtain rfl := Option.some.inj hentry'
          rw [hr]
          rfl
        · intro h
          obtain ⟨r, hr⟩ := Option.isSome_iff_exists.mp h
          exact ⟨entry, r, rfl, hr, by rw [hr, Option.map_some]⟩
      · refine iff_of_false (fun h => h k hsel) ?_
        rintro (h | h)
        · exact hne h
        · exact absurd hfirst (BitVec.not_le.mpr h)

/-- A table with one function, whose entry points to `0x08002000`. -/
def sampleExidx : U8Slice where
  addr := 0x08001000
  bytes := [0x00, 0x00, 0x00, 0x00, 0xfc, 0x0f, 0x00, 0x00]
  inBounds := by decide

def sampleExtab : U8Slice := ⟨0x08002000, [0xb0, 0xb0, 0x01, 0x81, 0xb0, 0xb0, 0xb0, 0xb0], by decide⟩

/-- The table without its last word, which belongs to the entry. -/
def shortExtab : U8Slice := ⟨0x08002000, [0xb0, 0xb0, 0x01, 0x81], by decide⟩

theorem sampleExidx_sorted : Sorted sampleExidx := by
  intro i j hij hj
  have hcount : sampleExidx.bytes.length / 8 = 1 := rfl
  obtain ⟨rfl, rfl⟩ : i = 0 ∧ j = 0 := by omega
  exact BitVec.le_refl _

theorem sampleExidx_selected : Selected sampleExidx 0x08001004 0 where
  lt := by decide
  le := by decide
  last j hpos hj := by
    have hcount : sampleExidx.bytes.length / 8 = 1 := rfl
    omega

theorem getForPc_scan_sample :
    ((∃ entry r, sampleExidx.sub (8 * 0) (8 * 0 + 8) = some entry ∧
        FullAbility.fromBytes entry sampleExtab = some r ∧
        FullAbility.cantUnwind.getForPc 0x08001004 sampleExidx sampleExtab =
          some (FullAbility.cantUnwind.assign r)) ↔ EntryInBounds sampleExidx sampleExtab 0) :=
  ((getForPc_scan .cantUnwind 0x08001004 sampleExidx sampleExtab).2 (by decide) sampleExidx_sorted).1 0
    sampleExidx_selected

/-- An entry that claims a word behind the end of `.ARM.extab` is not an error, but an index out of
range. -/
theorem getForPc_out_of_range : ¬ ∀ (self : FullAbility) (pc : Reg) (exidx extab : U8Slice),
    exidx.bytes.length % 8 = 0 → Sorted exidx → (self.getForPc pc exidx extab).isSome = true := by
  intro h
  have hsome := h .cantUnwind 0x08001004 sampleExidx shortExtab (by decide) sampleExidx_sorted
  have hnone : (FullAbility.cantUnwind.getForPc 0x08001004 sampleExidx shortExtab).isSome = false := by
    decide +kernel
  rw [hnone] at hsome
  cases hsome

end Hopter.Unwind
