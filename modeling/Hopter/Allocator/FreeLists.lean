-- SUMMARY: The six free lists in memory: link round trips, `unlink_chunk` and `link_chunk` as ring operations, and the list search.
import Hopter.Allocator.Chunks
import Hopter.Base.Ring

/-!
# Free lists

The links of the free chunks and of the sentinels form six rings in memory. A
link stores a header address in 16 bits, which loses nothing for a `Node`: a
word-aligned address of the link window. On nodes, `unlink_chunk` and
`link_chunk` are the ring operations of the library (`links_unlinkChunk`,
`links_linkChunk`), and they write nothing but link fields.
-/

namespace Hopter.Allocator

open Word

variable (P : Platform)

/-- What the linker script and the configuration promise about the addresses: the
link window is word aligned and holds the heap and the sentinels, and the static
variables end before the heap starts. -/
structure Platform.Valid (dataEnd : Nat) : Prop where
  offset_aligned : P.linkOffset % 4 = 0
  sentinels_aligned : P.sentinels % 4 = 0
  offset_le : P.linkOffset ≤ P.sentinels
  sentinels_le : P.sentinels + 48 ≤ dataEnd
  ramEnd_aligned : P.ramEnd % 8 = 0
  ramEnd_le : P.ramEnd ≤ P.linkOffset + 2 ^ 18
  ramEnd_lt : P.ramEnd < 2 ^ 32

/-- A header address that a link can name. -/
structure Node (x : Nat) : Prop where
  offset_aligned : P.linkOffset % 4 = 0
  aligned : x % 4 = 0
  le : P.linkOffset ≤ x
  lt : x < P.linkOffset + 2 ^ 18
  fits : x + 8 < 2 ^ 32

variable {P}

namespace Node

variable {x y : Nat}

/-- Links are lossless on nodes. -/
@[simp] theorem linkToPtr_ptrToLink (hx : Node P x) : linkToPtr P (ptrToLink P x) = x := by
  have ho := hx.offset_aligned
  have ha := hx.aligned
  have hle := hx.le
  have hlt := hx.lt
  have hfits := hx.fits
  rw [ptrToLink, wsub_eq hle (by omega), linkToPtr, wadd_eq (by omega)]
  omega

theorem nextField_eq (hx : Node P x) : hdrToNextField x = x + 6 := by
  have := hx.fits
  exact wadd_eq (by omega)

theorem prevField_eq (hx : Node P x) : hdrToPrevField x = x + 4 := by
  have := hx.fits
  exact wadd_eq (by omega)

/-- Different nodes have disjoint link fields. -/
theorem apart (hx : Node P x) (hy : Node P y) (hne : x ≠ y) : x + 4 ≤ y ∨ y + 4 ≤ x := by
  have := hx.aligned
  have := hy.aligned
  omega

end Node

theorem ptrToLink_lt (x : Nat) : ptrToLink P x < 2 ^ 16 := Nat.mod_lt _ (by decide)

-- ---------------------------------------------------------------------------
-- The rings in memory
-- ---------------------------------------------------------------------------

variable (P) in
/-- The link structure that the memory holds. -/
def links (m : Mem) : Links Nat := ⟨hdrToNextHdr P m, hdrToPrevHdr P m⟩

variable (P) in
/-- Two link structures that agree on every node. -/
def SameLinks (k k' : Links Nat) : Prop :=
  ∀ x, Node P x → k'.next x = k.next x ∧ k'.prev x = k.prev x

variable {m m' : Mem} {k k' : Links Nat} {x p n : Nat}

theorem SameLinks.trans {k'' : Links Nat} (h : SameLinks P k k') (h' : SameLinks P k' k'') :
    SameLinks P k k'' :=
  fun x hx => ⟨(h' x hx).1.trans (h x hx).1, (h' x hx).2.trans (h x hx).2⟩

theorem SameLinks.setNext (h : SameLinks P k k') (p n : Nat) :
    SameLinks P (k.setNext p n) (k'.setNext p n) := by
  intro x hx
  by_cases hxp : x = p
  · subst hxp
    simpa [Links.setNext] using (h x hx).2
  · simpa [Links.setNext, hxp] using h x hx

theorem SameLinks.setPrev (h : SameLinks P k k') (n p : Nat) :
    SameLinks P (k.setPrev n p) (k'.setPrev n p) := by
  intro x hx
  by_cases hxn : x = n
  · subst hxn
    simpa [Links.setPrev] using (h x hx).1
  · simpa [Links.setPrev, hxn] using h x hx

/-- Writing the `next` field of a node sets one link. -/
theorem links_store_next (hp : Node P p) (hn : Node P n) :
    SameLinks P ((links P m).setNext p n)
      (links P (m.store16 (hdrToNextField p) (ptrToLink P n))) := by
  intro x hx
  simp only [links, Links.setNext, hdrToNextHdr, hdrToPrevHdr, hp.nextField_eq, hx.nextField_eq,
    hx.prevField_eq]
  by_cases hxp : x = p
  · subst hxp
    rw [Mem.load16_store16_same (ptrToLink_lt n), hn.linkToPtr_ptrToLink,
      Mem.load16_store16_disjoint (by omega)]
    simp
  · have := hx.apart hp hxp
    rw [Mem.load16_store16_disjoint (by omega), Mem.load16_store16_disjoint (by omega)]
    simp [hxp, hdrToNextHdr, hx.nextField_eq]

/-- Writing the `prev` field of a node sets one link. -/
theorem links_store_prev (hn : Node P n) (hp : Node P p) :
    SameLinks P ((links P m).setPrev n p)
      (links P (m.store16 (hdrToPrevField n) (ptrToLink P p))) := by
  intro x hx
  simp only [links, Links.setPrev, hdrToNextHdr, hdrToPrevHdr, hn.prevField_eq, hx.nextField_eq,
    hx.prevField_eq]
  by_cases hxn : x = n
  · subst hxn
    rw [Mem.load16_store16_same (ptrToLink_lt p), hp.linkToPtr_ptrToLink,
      Mem.load16_store16_disjoint (by omega)]
    simp
  · have := hx.apart hn hxn
    rw [Mem.load16_store16_disjoint (by omega), Mem.load16_store16_disjoint (by omega)]
    simp [hxn, hdrToPrevHdr, hx.prevField_eq]

theorem links_unlinkChunk (hp : Node P (hdrToPrevHdr P m x)) (hn : Node P (hdrToNextHdr P m x)) :
    SameLinks P ((links P m).unlink x) (links P (unlinkChunk P m x)) :=
  ((links_store_next hp hn).setPrev _ _).trans (links_store_prev hn hp)

theorem links_linkChunk (hp : Node P p) (hx : Node P x) (hn : Node P (hdrToNextHdr P m p)) :
    SameLinks P ((links P m).linkAfter p x) (links P (linkChunk P m p x)) := by
  have h1 := links_store_next (m := m) hp hx
  have h2 := (h1.setPrev (hdrToNextHdr P m p) x).trans (links_store_prev hn hx)
  have h3 := (h2.setNext x (hdrToNextHdr P m p)).trans (links_store_next hx hn)
  exact (h3.setPrev x p).trans (links_store_prev hx hp)

/-- Unlinking writes two link fields. -/
theorem unlinkChunk_apply (hp : Node P (hdrToPrevHdr P m x)) (hn : Node P (hdrToNextHdr P m x))
    {y : Nat} (hy : ¬ linkFields [hdrToPrevHdr P m x, hdrToNextHdr P m x] y) :
    unlinkChunk P m x y = m y := by
  simp only [linkFields, List.mem_cons, List.not_mem_nil, or_false, exists_eq_or_imp,
    exists_eq_left, not_or, not_and, not_lt] at hy
  obtain ⟨hy1, hy2⟩ := hy
  simp only [unlinkChunk, hp.nextField_eq, hn.prevField_eq]
  rw [Mem.agreeOn_store16 (b := y) (c := y + 1) (by omega) y le_rfl (by omega),
    Mem.agreeOn_store16 (b := y) (c := y + 1) (by omega) y le_rfl (by omega)]

/-- Linking writes three link fields. -/
theorem linkChunk_apply (hp : Node P p) (hx : Node P x) (hn : Node P (hdrToNextHdr P m p))
    {y : Nat} (hy : ¬ linkFields [p, x, hdrToNextHdr P m p] y) :
    linkChunk P m p x y = m y := by
  simp only [linkFields, List.mem_cons, List.not_mem_nil, or_false, exists_eq_or_imp,
    exists_eq_left, not_or, not_and, not_lt] at hy
  obtain ⟨hy1, hy2, hy3⟩ := hy
  simp only [linkChunk, hp.nextField_eq, hn.prevField_eq, hx.nextField_eq, hx.prevField_eq]
  rw [Mem.agreeOn_store16 (b := y) (c := y + 1) (by omega) y le_rfl (by omega),
    Mem.agreeOn_store16 (b := y) (c := y + 1) (by omega) y le_rfl (by omega),
    Mem.agreeOn_store16 (b := y) (c := y + 1) (by omega) y le_rfl (by omega),
    Mem.agreeOn_store16 (b := y) (c := y + 1) (by omega) y le_rfl (by omega)]

/-- A write that misses the link fields commutes with linking. -/
theorem linkChunk_store32 {a v : Nat} (hp : Node P p) (hx : Node P x)
    (hn : Node P (hdrToNextHdr P m p))
    (ha : ∀ n ∈ [p, x, hdrToNextHdr P m p], a + 4 ≤ n + 4 ∨ n + 8 ≤ a) :
    linkChunk P (m.store32 a v) p x = (linkChunk P m p x).store32 a v := by
  simp only [List.mem_cons, List.not_mem_nil, or_false, forall_eq_or_imp, forall_eq] at ha
  obtain ⟨hap, hax, han⟩ := ha
  have hnext : hdrToNextHdr P (m.store32 a v) p = hdrToNextHdr P m p := by
    simp only [hdrToNextHdr, hp.nextField_eq]
    rw [Mem.load16_store32_disjoint (by omega)]
  simp only [linkChunk, hnext, hp.nextField_eq, hn.prevField_eq, hx.nextField_eq, hx.prevField_eq]
  rw [Mem.store16_store32_comm (by omega), Mem.store16_store32_comm (by omega),
    Mem.store16_store32_comm (by omega), Mem.store16_store32_comm (by omega)]

-- ---------------------------------------------------------------------------
-- The six lists
-- ---------------------------------------------------------------------------

theorem chunkSizeToListIndex_lt (size : Nat) : chunkSizeToListIndex size < 6 := by
  simp only [chunkSizeToListIndex]
  omega

/-- The list that a free chunk of the given size belongs to. -/
def listIndex (size : Nat) : Fin 6 := ⟨chunkSizeToListIndex size, chunkSizeToListIndex_lt size⟩

variable (P) in
/-- A node of the lists: a sentinel or a free chunk. -/
def ListNode (free : Nat → Nat → Prop) (n : Nat) : Prop :=
  (∃ i : Fin 6, n = sentinelHdr P i) ∨ ∃ size, free n size

variable (P) in
/-- The memory holds the six lists `ls`, whose members are exactly the free
chunks, each in the list of its size. `free x size` is a free chunk at `x`. -/
structure Lists (m : Mem) (ls : Fin 6 → List Nat) (free : Nat → Nat → Prop) : Prop where
  rings : (links P m).Rings (fun i : Fin 6 => sentinelHdr P i) ls
  members : ∀ i x, x ∈ ls i ↔ ∃ size, free x size ∧ listIndex size = i
  sentinel : ∀ i : Fin 6, Node P (sentinelHdr P i)
  node : ∀ {x size}, free x size → Node P x
  outside : ∀ {x size}, free x size → P.sentinels + 48 ≤ x
  unique : ∀ {x size size'}, free x size → free x size' → size = size'

namespace Lists

variable {ls : Fin 6 → List Nat} {free free' : Nat → Nat → Prop} {size : Nat}

theorem node_of_listNode (h : Lists P m ls free) (hx : ListNode P free x) : Node P x := by
  rcases hx with ⟨i, rfl⟩ | ⟨size, hx⟩
  · exact h.sentinel i
  · exact h.node hx

theorem listNode_of_mem (h : Lists P m ls free) {i : Fin 6}
    (hx : x ∈ sentinelHdr P i :: ls i) : ListNode P free x := by
  rcases List.mem_cons.mp hx with rfl | hx
  · exact Or.inl ⟨i, rfl⟩
  · obtain ⟨size, hfree, -⟩ := (h.members i x).mp hx
    exact Or.inr ⟨size, hfree⟩

theorem congr_free (h : Lists P m ls free) (hf : ∀ x size, free' x size ↔ free x size) :
    Lists P m ls free' := by
  have heq : free' = free := by
    funext x size
    exact propext (hf x size)
  rwa [heq]

/-- A write that misses the link fields of the nodes leaves the lists alone. -/
theorem congr (h : Lists P m ls free)
    (hm : ∀ n, ListNode P free n → m.AgreeOn m' (n + 4) (n + 8)) : Lists P m' ls free := by
  refine { h with rings := h.rings.congr fun i x hx => ?_ }
  have hnode := h.node_of_listNode (h.listNode_of_mem hx)
  have hagree := hm x (h.listNode_of_mem hx)
  simp only [links, hdrToNextHdr, hdrToPrevHdr, hnode.nextField_eq, hnode.prevField_eq]
  rw [Mem.load16_congr (hagree.mono (by omega) le_rfl),
    Mem.load16_congr (hagree.mono le_rfl (by omega))]
  exact ⟨rfl, rfl⟩

/-- `unlink_chunk` takes a free chunk out of its list and writes link fields of
list nodes only. -/
theorem unlink (h : Lists P m ls free) (hx : free x size) :
    ∃ nodes u v, ls (listIndex size) = u ++ x :: v ∧
      Lists P (unlinkChunk P m x) (Function.update ls (listIndex size) (u ++ v))
        (fun y size => free y size ∧ y ≠ x) ∧
      (∀ n ∈ nodes, ListNode P free n) ∧
      ∀ y, ¬ linkFields nodes y → unlinkChunk P m x y = m y := by
  have hmem : x ∈ ls (listIndex size) := (h.members _ _).mpr ⟨size, hx, rfl⟩
  obtain ⟨u, v, huv⟩ := List.append_of_mem hmem
  obtain ⟨hprev, hnext⟩ := (h.rings.ring _).neighbours_mem hmem
  have hprev := h.listNode_of_mem hprev
  have hnext := h.listNode_of_mem hnext
  have hp : Node P (hdrToPrevHdr P m x) := h.node_of_listNode hprev
  have hn : Node P (hdrToNextHdr P m x) := h.node_of_listNode hnext
  have hnd := h.rings.nodup (listIndex size)
  rw [huv] at hnd
  refine ⟨[hdrToPrevHdr P m x, hdrToNextHdr P m x], u, v, huv, ?_, ?_, ?_⟩
  · have hmembers : ∀ i y, y ∈ Function.update ls (listIndex size) (u ++ v) i ↔
        ∃ t, (free y t ∧ y ≠ x) ∧ listIndex t = i := by
      intro i y
      by_cases hi : i = listIndex size
      · subst hi
        have hy := h.members (listIndex size) y
        rw [huv] at hy
        rw [Function.update_self]
        simp only [List.mem_append, List.mem_cons, List.nodup_cons, List.nodup_append] at hy hnd ⊢
        constructor
        · intro hyuv
          obtain ⟨t, ht, hti⟩ := hy.mp (by tauto)
          exact ⟨t, ⟨ht, by grind⟩, hti⟩
        · rintro ⟨t, ⟨ht, hne⟩, hti⟩
          have := hy.mpr ⟨t, ht, hti⟩
          tauto
      · rw [Function.update_of_ne hi, h.members i y]
        constructor
        · rintro ⟨t, ht, rfl⟩
          refine ⟨t, ⟨ht, ?_⟩, rfl⟩
          rintro rfl
          exact hi (by rw [h.unique hx ht])
        · rintro ⟨t, ⟨ht, -⟩, hti⟩
          exact ⟨t, ht, hti⟩
    have hrings : (links P (unlinkChunk P m x)).Rings (fun i : Fin 6 => sentinelHdr P i)
        (Function.update ls (listIndex size) (u ++ v)) :=
      (h.rings.unlink huv).congr fun i y hy => by
        refine links_unlinkChunk hp hn y (h.node_of_listNode ?_)
        rcases List.mem_cons.mp hy with rfl | hy
        · exact Or.inl ⟨i, rfl⟩
        · obtain ⟨t, ⟨ht, -⟩, -⟩ := (hmembers i y).mp hy
          exact Or.inr ⟨t, ht⟩
    exact
      { rings := hrings
        members := hmembers
        sentinel := h.sentinel
        node := fun hy => h.node hy.1
        outside := fun hy => h.outside hy.1
        unique := fun hy hy' => h.unique hy.1 hy'.1 }
  · simp only [List.mem_cons, List.not_mem_nil, or_false, forall_eq_or_imp, forall_eq]
    exact ⟨hprev, hnext⟩
  · exact fun y hy => unlinkChunk_apply hp hn hy

/-- `link_chunk` puts a new free chunk at the front of the list of its size and
writes link fields of list nodes only. -/
theorem link (h : Lists P m ls free) (hx : Node P x) (hout : P.sentinels + 48 ≤ x)
    (hfresh : ∀ t, ¬ free x t) (size : Nat) :
    Lists P (linkChunk P m (sentinelHdr P (chunkSizeToListIndex size)) x)
        (Function.update ls (listIndex size) (x :: ls (listIndex size)))
        (fun y t => free y t ∨ (y = x ∧ t = size)) ∧
      ∃ nodes, (∀ n ∈ nodes, n = x ∨ ListNode P free n) ∧
        ∀ y, ¬ linkFields nodes y →
          linkChunk P m (sentinelHdr P (chunkSizeToListIndex size)) x y = m y := by
  have hp : Node P (sentinelHdr P (chunkSizeToListIndex size)) := h.sentinel (listIndex size)
  have hnext := h.listNode_of_mem (h.rings.ring (listIndex size)).next_head_mem
  have hn : Node P (hdrToNextHdr P m (sentinelHdr P (chunkSizeToListIndex size))) :=
    h.node_of_listNode hnext
  have hxlist : ∀ j : Fin 6, x ∉ sentinelHdr P j :: ls j := by
    intro j hj
    rcases List.mem_cons.mp hj with heq | hj
    · have := j.isLt
      simp only [sentinelHdr] at heq
      omega
    · obtain ⟨t, ht, -⟩ := (h.members j x).mp hj
      exact hfresh t ht
  have hmembers : ∀ i y, y ∈ Function.update ls (listIndex size) (x :: ls (listIndex size)) i ↔
      ∃ t, (free y t ∨ (y = x ∧ t = size)) ∧ listIndex t = i := by
    intro i y
    by_cases hi : i = listIndex size
    · subst hi
      rw [Function.update_self, List.mem_cons, h.members]
      constructor
      · rintro (rfl | ⟨t, ht, hti⟩)
        · exact ⟨size, Or.inr ⟨rfl, rfl⟩, rfl⟩
        · exact ⟨t, Or.inl ht, hti⟩
      · rintro ⟨t, ht | ⟨rfl, rfl⟩, hti⟩
        · exact Or.inr ⟨t, ht, hti⟩
        · exact Or.inl rfl
    · rw [Function.update_of_ne hi, h.members]
      constructor
      · rintro ⟨t, ht, hti⟩
        exact ⟨t, Or.inl ht, hti⟩
      · rintro ⟨t, ht | ⟨-, rfl⟩, hti⟩
        · exact ⟨t, ht, hti⟩
        · exact absurd hti.symm hi
  refine ⟨?_, [sentinelHdr P (chunkSizeToListIndex size), x,
    hdrToNextHdr P m (sentinelHdr P (chunkSizeToListIndex size))], ?_, ?_⟩
  · have hrings : (links P (linkChunk P m (sentinelHdr P (chunkSizeToListIndex size)) x)).Rings
        (fun i : Fin 6 => sentinelHdr P i)
        (Function.update ls (listIndex size) (x :: ls (listIndex size))) :=
      (h.rings.linkAfter_head (listIndex size) hxlist).congr fun i y hy => by
        refine links_linkChunk hp hx hn y ?_
        rcases List.mem_cons.mp hy with rfl | hy
        · exact h.sentinel i
        · obtain ⟨t, ht | ⟨rfl, -⟩, -⟩ := (hmembers i y).mp hy
          · exact h.node ht
          · exact hx
    refine
      { rings := hrings
        members := hmembers
        sentinel := h.sentinel
        node := ?_
        outside := ?_
        unique := ?_ }
    · rintro y t (ht | ⟨rfl, -⟩)
      · exact h.node ht
      · exact hx
    · rintro y t (ht | ⟨rfl, -⟩)
      · exact h.outside ht
      · exact hout
    · rintro y t t' (ht | ⟨rfl, rfl⟩) (ht' | ⟨hy', rfl⟩)
      · exact h.unique ht ht'
      · exact absurd (hy' ▸ ht) (hfresh t)
      · exact absurd ht' (hfresh t')
      · rfl
  · simp only [List.mem_cons, List.not_mem_nil, or_false, forall_eq_or_imp, forall_eq]
    exact ⟨Or.inr (Or.inl ⟨listIndex size, rfl⟩), by simp, Or.inr hnext⟩
  · exact fun y hy => linkChunk_apply hp hx hn hy

end Lists

-- ---------------------------------------------------------------------------
-- The search
-- ---------------------------------------------------------------------------

/-- Walking the links of a list finds the first chunk that is large enough. -/
theorem searchList_eq_find {l : List Nat} {stop fuel cur : Nat} (size : Nat)
    (hcur : (l ++ [stop]).head? = some cur) (hchain : (l ++ [stop]).IsChain (links P m).Adj)
    (hstop : stop ∉ l) (hfuel : l.length < fuel) :
    searchList P m stop size fuel cur = some (l.find? fun x => size ≤ getHdrChunkSize m x) := by
  induction l generalizing fuel cur with
  | nil =>
    obtain ⟨fuel, rfl⟩ : ∃ n, fuel = n + 1 := ⟨fuel - 1, by simp at hfuel; omega⟩
    simp only [List.nil_append, List.head?_cons, Option.some.injEq] at hcur
    simp [searchList, hcur]
  | cons x l ih =>
    obtain ⟨fuel, rfl⟩ : ∃ n, fuel = n + 1 := ⟨fuel - 1, by simp at hfuel; omega⟩
    simp only [List.cons_append, List.head?_cons, Option.some.injEq] at hcur
    subst hcur
    have hne : x ≠ stop := fun heq => hstop (by simp [heq])
    by_cases hfit : size ≤ getHdrChunkSize m x
    · simp [searchList, hne, hfit]
    · have hnext : (l ++ [stop]).head? = some (hdrToNextHdr P m x) := by
        cases l with
        | nil => exact congrArg some (List.isChain_cons_cons.mp hchain).1.1.symm
        | cons y l => exact congrArg some (List.isChain_cons_cons.mp hchain).1.1.symm
      have hrest := ih hnext hchain.tail (fun h => hstop (List.mem_cons_of_mem _ h))
        (Nat.lt_of_succ_lt_succ hfuel)
      simp [searchList, hne, hfit, hrest]

/-- The lists that the search for a chunk of the given size visits. -/
def searched (size : Nat) : List (Fin 6) :=
  (List.finRange 6).filter fun i => min (chunkSizeToListIndex size + 1) 5 ≤ i.val

theorem range_idxFit {idx : Nat} (h : idx ≤ 5) :
    List.range' idx (6 - idx) = ((List.finRange 6).filter fun i => idx ≤ i.val).map Fin.val := by
  have hcases : idx = 0 ∨ idx = 1 ∨ idx = 2 ∨ idx = 3 ∨ idx = 4 ∨ idx = 5 := by omega
  rcases hcases with rfl | rfl | rfl | rfl | rfl | rfl <;> decide

namespace Lists

variable {ls : Fin 6 → List Nat} {free : Nat → Nat → Prop} {size : Nat}

theorem searchLists_eq_find (h : Lists P m ls free) (hlen : ∀ i, (ls i).length < searchFuel)
    (idxs : List (Fin 6)) : searchLists P m size (idxs.map Fin.val) =
      some (((idxs.flatMap ls).find? fun x => size ≤ getHdrChunkSize m x).getD 0) := by
  induction idxs with
  | nil => rfl
  | cons i idxs ih =>
    have hring := h.rings.ring i
    have hhead : (ls i ++ [sentinelHdr P i]).head? =
        some (hdrToNextHdr P m (sentinelHdr P i)) := by
      cases hls : ls i with
      | nil =>
        rw [hls] at hring
        exact congrArg some (List.isChain_cons_cons.mp hring).1.1.symm
      | cons x l =>
        rw [hls] at hring
        exact congrArg some (List.isChain_cons_cons.mp hring).1.1.symm
    have hlist := searchList_eq_find size hhead hring.tail
      (List.nodup_cons.mp (h.rings.nodup i)).1 (hlen i)
    simp only [hdrToNextHdr] at hlist
    simp only [List.map_cons, searchLists, hlist, List.flatMap_cons, List.find?_append]
    cases hfind : (ls i).find? fun x => decide (size ≤ getHdrChunkSize m x) with
    | none => simp [ih]
    | some x => simp

/-- The search returns the first fitting chunk of the lists it visits, and null
when there is none. -/
theorem searchFirstFit_eq_find (h : Lists P m ls free)
    (hlen : ∀ i, (ls i).length < searchFuel) : searchFirstFit P m size =
      some ((((searched size).flatMap ls).find? fun x => size ≤ getHdrChunkSize m x).getD 0) := by
  have hidx : min (chunkSizeToListIndex size + 1) 5 ≤ 5 := Nat.min_le_right _ _
  rw [searchFirstFit, range_idxFit hidx]
  exact h.searchLists_eq_find hlen (searched size)

/-- A chunk that the search finds is free and large enough. -/
theorem searchFirstFit_spec {n : Nat} (h : Lists P m ls free)
    (hlen : ∀ i, (ls i).length < searchFuel) :
    ∃ x, searchFirstFit P m n = some x ∧
      (x ≠ 0 → n ≤ getHdrChunkSize m x ∧ ∃ t, free x t) := by
  refine ⟨_, h.searchFirstFit_eq_find hlen, fun hx => ?_⟩
  cases hfind : ((searched n).flatMap ls).find? fun x => decide (n ≤ getHdrChunkSize m x) with
  | none => simp [hfind] at hx
  | some x =>
    have hfit := List.find?_some hfind
    have hmem := List.mem_of_find?_eq_some hfind
    simp only [List.mem_flatMap] at hmem
    obtain ⟨i, -, hxi⟩ := hmem
    obtain ⟨t, ht, -⟩ := (h.members i x).mp hxi
    exact ⟨by simpa using hfit, t, ht⟩

end Lists

end Hopter.Allocator
