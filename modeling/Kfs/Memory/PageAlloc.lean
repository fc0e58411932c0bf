import Kfs.Memory.BuddyRuns

/-!
# The page allocator as its users see it

`vmm.c`, `vma.c` and the process code call `buddy_alloc_pages` and `buddy_free_block` and rely on
little of what happens behind them: a block that is handed out consists of pages that nobody uses,
`NULL` changes nothing, and a block that is live can be given back. `PageAlloc` is the pair of
entry points over any allocator state, `PageAlloc.Lawful` says what the users rely on, and the
buddy allocator of `Kfs.Memory.Buddy` is lawful.
-/

namespace Kfs.Memory

open Kfs.Lib Kfs.Lib.Word32 Kfs.Lib.Dyadic

universe u

/-- The entry points of a page allocator with state `σ`. -/
structure PageAlloc (σ : Type u) where
  buddyAllocPages : ℕ → Zone → σ → Kern (ℕ × σ)
  buddyFreeBlock : ℕ → σ → Kern σ

namespace PageAlloc

/-- What can be said about an allocator state: its invariant, the pages that are free, and the live
blocks, each as its first page and its order. -/
structure View (σ : Type u) where
  Inv : σ → Prop
  free : σ → Set ℕ
  live : σ → Set (ℕ × ℕ)

variable {σ : Type u}

/-- The block of order `k` at page `p` has been handed out. -/
structure Taken (V : View σ) (a a' : σ) (zone : Zone) (p k : ℕ) : Prop where
  inv : V.Inv a'
  ne_zero : p ≠ 0
  inTable : ∀ j ∈ block p k, j < maxPages
  zone : ∀ j ∈ block p k, zoneOfPage j = zone
  subset : block p k ⊆ V.free a
  free : V.free a' = V.free a \ block p k
  live : V.live a' = insert (p, k) (V.live a)

/-- The block of order `k` at page `p` has been given back. -/
structure Returned (V : View σ) (a a' : σ) (p k : ℕ) : Prop where
  inv : V.Inv a'
  free : V.free a' = V.free a ∪ block p k
  live : V.live a' = V.live a \ {(p, k)}

/-- What the users of pages rely on. -/
structure Lawful (A : PageAlloc σ) (V : View σ) : Prop where
  alloc : ∀ {a : σ}, V.Inv a → ∀ size zone,
    A.buddyAllocPages size zone a = .ok (0, a) ∨
    ∃ p a', A.buddyAllocPages size zone a = .ok (p * 4096, a') ∧
      Taken V a a' zone p (sizeToOrder size)
  release : ∀ {a : σ}, V.Inv a → ∀ {p k : ℕ}, (p, k) ∈ V.live a →
    ∃ a', A.buddyFreeBlock (p * 4096) a = .ok a' ∧ Returned V a a' p k
  notFree : ∀ {a : σ}, V.Inv a → ∀ {p k : ℕ}, (p, k) ∈ V.live a →
    Disjoint (block p k) (V.free a)
  disjoint : ∀ {a : σ}, V.Inv a → ∀ {p k q l : ℕ}, (p, k) ∈ V.live a → (q, l) ∈ V.live a →
    (p, k) ≠ (q, l) → Disjoint (block p k) (block q l)

end PageAlloc

/-! ## The buddy allocator -/

/-- The buddy allocator with the ghost list of its live blocks. -/
def buddyPageAlloc : PageAlloc BuddyRun where
  buddyAllocPages size zone r := do
    let (ptr, s) ← buddyAllocPages size zone r.buddy
    .ok (ptr, { buddy := s
                live := if ptr = 0 then r.live else (ptr, sizeToOrder size) :: r.live })
  buddyFreeBlock ptr r := do
    let s ← buddyFreeBlock ptr r.buddy
    .ok { buddy := s, live := (r.live.find? (·.1 == ptr)).elim r.live r.live.erase }

/-- Page 0 is not among the pages that the allocator was given. -/
def buddyView : PageAlloc.View BuddyRun where
  Inv r := ∃ A, RunInv A r ∧ 0 ∉ A
  free r := freePages r.buddy
  live r := { b | (b.1 * 4096, b.2) ∈ r.live }

section Buddy

variable {A : Set ℕ} {r : BuddyRun}

/-- The first page of a live block names the block. -/
theorem RunInv.liveBlock_eq (h : RunInv A r) {p k : ℕ} (hb : (p * 4096, k) ∈ r.live) :
    liveBlock (p * 4096, k) = block p k := by
  have hl := h.live _ hb
  have hlt : p * 4096 < 2 ^ 32 := by
    have := pageToPhys_lt (pageAddrToPage (p * 4096))
    rw [← hl.addr] at this
    exact this
  unfold liveBlock
  rw [pageAddrToPage_eq hlt, Nat.mul_div_cancel p (by norm_num)]

theorem RunInv.live_disjoint (h : RunInv A r) {b c : ℕ × ℕ} (hb : b ∈ r.live) (hc : c ∈ r.live)
    (hne : b ≠ c) : Disjoint (liveBlock b) (liveBlock c) := by
  have hsymm : Std.Symm fun b c : ℕ × ℕ => Disjoint (liveBlock b) (liveBlock c) :=
    ⟨fun _ _ hdis => hdis.symm⟩
  exact h.disjoint.forall hb hc hne

/-- Two entries of the live list with one address are one entry. -/
theorem RunInv.live_inj (h : RunInv A r) {b c : ℕ × ℕ} (hb : b ∈ r.live) (hc : c ∈ r.live)
    (haddr : b.1 = c.1) : b = c := by
  by_contra hne
  have hself : pageAddrToPage b.1 ∈ liveBlock c := by
    rw [haddr]
    exact self_mem_block _ _
  exact Set.disjoint_left.mp (h.live_disjoint hb hc hne) (self_mem_block _ _) hself

/-- A block occurs once in the live list. -/
theorem RunInv.nodup (h : RunInv A r) : r.live.Nodup := by
  refine h.disjoint.imp_of_mem fun {b c} hb _ hdis heq => ?_
  subst heq
  exact Set.disjoint_left.mp hdis (self_mem_block _ _) (self_mem_block _ _)

/-- The block of an address is found by its address. -/
theorem RunInv.find_live (h : RunInv A r) {b : ℕ × ℕ} (hb : b ∈ r.live) :
    r.live.find? (·.1 == b.1) = some b := by
  cases hfind : r.live.find? (·.1 == b.1) with
  | none => exact absurd (List.find?_eq_none.mp hfind b hb) (by simp)
  | some c =>
    have haddr : c.1 = b.1 := by simpa using List.find?_some hfind
    rw [h.live_inj (List.mem_of_find?_eq_some hfind) hb haddr]

/-- The view of the states whose pages meet a condition. -/
def buddyViewOf (P : Set ℕ → Prop) : PageAlloc.View BuddyRun :=
  { buddyView with Inv := fun r => ∃ A, RunInv A r ∧ P A }

/-- A block that `buddy_alloc_pages` takes. -/
theorem RunInv.taken (h : RunInv A r) {P : Set ℕ → Prop} (hP : P A) {size p c : ℕ} {zone : Zone}
    {s : BuddyState} (hrun : buddyAllocPages size zone r.buddy = .ok (pageToPhys p, s))
    (ha : Allocated r.buddy s (A \ livePages r.live) zone (sizeToOrder size) p c) :
    ∃ r', buddyPageAlloc.buddyAllocPages size zone r = .ok (p * 4096, r') ∧
      PageAlloc.Taken (buddyViewOf P) r r' zone p (sizeToOrder size) := by
  have hp : p < maxPages := h.free.inTable p (ha.subset (self_mem_block p _))
  have hne : p * 4096 ≠ 0 := by
    have := ha.ne_zero
    omega
  refine ⟨{ buddy := s, live := (p * 4096, sizeToOrder size) :: r.live }, ?_, ?_⟩
  · simp only [buddyPageAlloc, hrun, ok_bind, pageToPhys_eq hp, hne, if_false]
  · have hinv := h.alloc ha
    rw [pageToPhys_eq hp] at hinv
    exact {
      inv := ⟨A, hinv, hP⟩
      ne_zero := ha.ne_zero
      inTable := fun j hj => h.free.inTable j (ha.subset hj)
      zone := fun j hj => (zoneOfPage_eq_of_mem ha.aligned ha.order_le hj).trans ha.zone
      subset := by
        show block p _ ⊆ freePages r.buddy
        rw [h.free.freePages_eq]
        exact ha.subset
      free := by
        show freePages s = freePages r.buddy \ _
        rw [h.free.freePages_eq, ha.inv.freePages_eq]
      live := by
        ext ⟨q, l⟩
        simp [buddyViewOf, buddyView] }

/-- A block that `buddy_free_block` takes back. -/
theorem RunInv.returned (h : RunInv A r) {P : Set ℕ → Prop} (hP : P A) {p k : ℕ}
    (hb : (p * 4096, k) ∈ r.live) : ∃ r', buddyPageAlloc.buddyFreeBlock (p * 4096) r = .ok r' ∧
      PageAlloc.Returned (buddyViewOf P) r r' p k := by
  obtain ⟨s, hrun, hinv⟩ := h.free_spec hb
  refine ⟨{ buddy := s, live := r.live.erase (p * 4096, k) }, ?_, ?_⟩
  · simp only [buddyPageAlloc, hrun, ok_bind, h.find_live hb, Option.elim_some]
  · exact {
      inv := ⟨A, hinv, hP⟩
      free := by
        show freePages s = freePages r.buddy ∪ _
        rw [h.free.freePages_eq, hinv.free.freePages_eq, livePages_erase hb h.disjoint,
          h.liveBlock_eq hb, Set.sdiff_sdiff_right, ← h.liveBlock_eq hb,
          Set.inter_eq_right.mpr (h.live _ hb).subset]
      live := by
        ext ⟨q, l⟩
        simp only [buddyViewOf, buddyView, Set.mem_ofPred_eq, Set.mem_sdiff, Set.mem_singleton_iff]
        rw [h.nodup.mem_erase_iff]
        constructor
        · rintro ⟨hne, hmem⟩
          exact ⟨hmem, fun heq => hne (by rw [(Prod.mk.inj heq).1, (Prod.mk.inj heq).2])⟩
        · rintro ⟨hmem, hne⟩
          refine ⟨fun heq => hne ?_, hmem⟩
          obtain ⟨haddr, horder⟩ := Prod.mk.inj heq
          exact Prod.ext (Nat.eq_of_mul_eq_mul_right (by norm_num) haddr) horder }

/-- The pages of a live block are not free. -/
theorem RunInv.notFree (h : RunInv A r) {p k : ℕ} (hb : (p * 4096, k) ∈ r.live) :
    Disjoint (block p k) (freePages r.buddy) := by
  rw [h.free.freePages_eq, ← h.liveBlock_eq hb, Set.disjoint_left]
  exact fun j hj hF => hF.2 ⟨_, hb, hj⟩

/-- Two live blocks have no page in common. -/
theorem RunInv.blocks_disjoint (h : RunInv A r) {p k q l : ℕ} (hb : (p * 4096, k) ∈ r.live)
    (hc : (q * 4096, l) ∈ r.live) (hne : (p, k) ≠ (q, l)) : Disjoint (block p k) (block q l) := by
  rw [← h.liveBlock_eq hb, ← h.liveBlock_eq hc]
  refine h.live_disjoint hb hc fun heq => hne ?_
  obtain ⟨haddr, horder⟩ := Prod.mk.inj heq
  exact Prod.ext (Nat.eq_of_mul_eq_mul_right (by norm_num) haddr) horder

end Buddy

/-- **The buddy allocator is lawful.** -/
theorem buddyPageAlloc_lawful : buddyPageAlloc.Lawful buddyView where
  alloc := by
    rintro r ⟨A, h, h0⟩ size zone
    have h0F : 0 ∉ A \ livePages r.live := fun hmem => h0 hmem.1
    rcases buddyAllocPages_spec h.free h0F size zone with ⟨hnull, -⟩ | ⟨p, c, s, hrun, ha⟩
    · left
      simp only [buddyPageAlloc, hnull, ok_bind, if_true]
    · obtain ⟨r', hcall, ht⟩ := h.taken (P := fun A => 0 ∉ A) h0 hrun ha
      exact Or.inr ⟨p, r', hcall, ht⟩
  release := by
    rintro r ⟨A, h, h0⟩ p k hb
    exact h.returned (P := fun A => 0 ∉ A) h0 hb
  notFree := fun ⟨_, h, _⟩ => h.notFree
  disjoint := fun ⟨_, h, _⟩ => h.blocks_disjoint

/-! ## A machine with two zones -/

/-- Page `i` is one of 64 pages of `LOWMEM` or of 64 pages of `HIGHMEM`. -/
def inTwoZones (i : ℕ) : Bool :=
  decide (4096 ≤ i ∧ i < 4160) || decide (229376 ≤ i ∧ i < 229440)

/-- A buddy allocator with one free block of order 6 in each of the two zones. -/
def twoZoneBuddy : BuddyState where
  pages i :=
    { flags := (if inTwoZones i then pageStateFree else pageStateUnusable) |||
        pageGetZoneFlag (pageToPhys i)
      privateData := if i = 4096 ∨ i = 229376 then 6 else pageMagic }
  areas zone order :=
    if order = 6 then
      match zone with
      | .lowmem => { freeList := [4096], nrFree := 1 }
      | .highmem => { freeList := [229376], nrFree := 1 }
      | .dma => { freeList := [], nrFree := 0 }
    else { freeList := [], nrFree := 0 }

theorem twoZoneBuddy_flags (i : ℕ) :
    pageGetState (twoZoneBuddy.pages i) =
        (if inTwoZones i then pageStateFree else pageStateUnusable) ∧
      pageGetZone (twoZoneBuddy.pages i) = pageGetZoneFlag (pageToPhys i) := by
  unfold twoZoneBuddy pageGetState pageGetZone
  dsimp only
  cases inTwoZones i with
  | false =>
    rcases pageGetZoneFlag_cases (pageToPhys i) with h | h | h <;> rw [h] <;> decide
  | true =>
    rcases pageGetZoneFlag_cases (pageToPhys i) with h | h | h <;> rw [h] <;> decide

theorem twoZoneBuddy_mem {z : Zone} {k i : ℕ} (h : i ∈ (twoZoneBuddy.areas z k).freeList) :
    k = 6 ∧ (z = .lowmem ∧ i = 4096 ∨ z = .highmem ∧ i = 229376) := by
  unfold twoZoneBuddy at h
  dsimp only at h
  split at h
  · next hk =>
    refine ⟨hk, ?_⟩
    cases z with
    | lowmem => exact Or.inl ⟨rfl, List.mem_singleton.mp h⟩
    | highmem => exact Or.inr ⟨rfl, List.mem_singleton.mp h⟩
    | dma => cases h
  · cases h

theorem mem_freeBlocks_twoZoneBuddy {i k : ℕ} :
    (i, k) ∈ freeBlocks twoZoneBuddy ↔ k = 6 ∧ (i = 4096 ∨ i = 229376) := by
  constructor
  · rintro ⟨z, hz⟩
    obtain ⟨hk, ⟨-, hi⟩ | ⟨-, hi⟩⟩ := twoZoneBuddy_mem hz
    · exact ⟨hk, Or.inl hi⟩
    · exact ⟨hk, Or.inr hi⟩
  · rintro ⟨rfl, rfl | rfl⟩
    · exact ⟨.lowmem, List.mem_singleton.mpr rfl⟩
    · exact ⟨.highmem, List.mem_singleton.mpr rfl⟩

/-- The two blocks are the pages of the machine. -/
theorem inTwoZones_iff {j : ℕ} : inTwoZones j = true ↔
    ∃ i k, (i, k) ∈ freeBlocks twoZoneBuddy ∧ j ∈ block i k := by
  unfold inTwoZones
  simp only [mem_freeBlocks_twoZoneBuddy, mem_block, Bool.or_eq_true, decide_eq_true_eq]
  constructor
  · rintro (h | h)
    · exact ⟨4096, 6, ⟨rfl, Or.inl rfl⟩, by norm_num; omega⟩
    · exact ⟨229376, 6, ⟨rfl, Or.inr rfl⟩, by norm_num; omega⟩
  · rintro ⟨i, k, ⟨rfl, rfl | rfl⟩, h⟩
    · norm_num at h
      omega
    · norm_num at h
      omega

theorem twoZoneBuddy_freeInv : FreeInv twoZoneBuddy { j | inTwoZones j = true } ∅ where
  zoneFlag i _ := (twoZoneBuddy_flags i).2
  count z k := by
    unfold twoZoneBuddy
    dsimp only
    split
    · cases z <;> rfl
    · rfl
  nodup z k := by
    unfold twoZoneBuddy
    dsimp only
    split
    · cases z <;> simp
    · simp
  zone h := by
    obtain ⟨-, ⟨rfl, rfl⟩ | ⟨rfl, rfl⟩⟩ := twoZoneBuddy_mem h
    · decide
    · decide
  tiling := {
    aligned := by
      intro i k h
      obtain ⟨rfl, rfl | rfl⟩ := mem_freeBlocks_twoZoneBuddy.mp h
      · decide
      · decide
    order_le := by
      intro i k h
      obtain ⟨rfl, -⟩ := mem_freeBlocks_twoZoneBuddy.mp h
      decide
    disjoint := by
      intro i k i' k' j h h' hj hj'
      obtain ⟨rfl, hi⟩ := mem_freeBlocks_twoZoneBuddy.mp h
      obtain ⟨rfl, hi'⟩ := mem_freeBlocks_twoZoneBuddy.mp h'
      rw [mem_block] at hj hj'
      norm_num at hj hj'
      omega
    cover := fun j => inTwoZones_iff }
  head := by
    intro i k h
    have hin : inTwoZones i = true := inTwoZones_iff.mpr ⟨i, k, h, self_mem_block i k⟩
    obtain ⟨rfl, hi⟩ := mem_freeBlocks_twoZoneBuddy.mp h
    rw [(twoZoneBuddy_flags i).1, if_pos hin]
    refine ⟨rfl, ?_⟩
    show (if i = 4096 ∨ i = 229376 then 6 else pageMagic) = 6
    rw [if_pos hi]
  tail := by
    intro i k j h hj hne
    have hin : inTwoZones j = true := inTwoZones_iff.mpr ⟨i, k, h, hj⟩
    obtain ⟨rfl, hi⟩ := mem_freeBlocks_twoZoneBuddy.mp h
    rw [(twoZoneBuddy_flags j).1, if_pos hin]
    refine ⟨rfl, ?_⟩
    show (if j = 4096 ∨ j = 229376 then 6 else pageMagic) = pageMagic
    rw [mem_block] at hj
    norm_num at hj
    rw [if_neg (by omega)]
  inTable j hj := by
    have hj : inTwoZones j = true := hj
    unfold inTwoZones at hj
    simp only [Bool.or_eq_true, decide_eq_true_eq] at hj
    unfold maxPages
    omega
  notFree j _ hF _ := by
    have hF : ¬ inTwoZones j = true := hF
    rw [(twoZoneBuddy_flags j).1, if_neg hF]
    decide

/-- The machine is ready to serve pages. -/
theorem twoZoneBuddy_inv : buddyView.Inv { buddy := twoZoneBuddy, live := [] } := by
  refine ⟨{ j | inTwoZones j = true }, ⟨?_, ?_, fun b hb => (nomatch hb), List.Pairwise.nil⟩, ?_⟩
  · rw [livePages_nil, Set.sdiff_empty]
    exact twoZoneBuddy_freeInv
  · intro i k h hk h'
    obtain ⟨rfl, hi⟩ := mem_freeBlocks_twoZoneBuddy.mp h
    obtain ⟨-, hi'⟩ := mem_freeBlocks_twoZoneBuddy.mp h'
    rcases hi with rfl | rfl
    · exact absurd hi' (by decide)
    · exact absurd hi' (by decide)
  · show ¬ inTwoZones 0 = true
    decide

end Kfs.Memory
