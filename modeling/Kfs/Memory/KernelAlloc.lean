import Kfs.Memory.VmmRuns
import Kfs.Memory.VmaSpec

/-!
# Pages and heap objects

The kernel heap takes its pages from the buddy allocator and gives them back when it likes. Code
that uses both relies on one thing: the heap keeps to its own pages. `KernelAlloc` is the page
allocator with `kmalloc` and `kfree`, and `KernelAlloc.Lawful` says what its users rely on. A view
shows the blocks of the users of pages only, so that a call of the heap changes nothing in it.
`Kfs.Memory.HeapContract` proves it of the kernel's own heap over the buddy allocator.

The words of heap objects are not part of the physical memory that is modelled, which is read for
page tables only.
-/

namespace Kfs.Memory

open Kfs.Lib Kfs.Lib.Word32 Kfs.Lib.Dyadic

universe u

/-- The entry points of a page allocator and a heap with state `σ`. -/
structure KernelAlloc (σ : Type u) extends PageAlloc σ where
  kmalloc : ℕ → ℕ → σ → Kern (ℕ × σ)
  kfree : ℕ → σ → Kern σ

/-- The view of the states in which the live heap objects are `O`. -/
def PageAlloc.View.holding {σ : Type u} (V : PageAlloc.View σ) (objs : σ → Set ℕ) (O : Set ℕ) :
    PageAlloc.View σ :=
  { V with Inv := fun a => V.Inv a ∧ objs a = O }

/-- A call of the heap shows nothing to the users of pages. -/
structure HeapCall {σ : Type u} (V : PageAlloc.View σ) (a a' : σ) : Prop where
  inv : V.Inv a'
  free : V.free a' = V.free a
  live : V.live a' = V.live a

/-- What the users of pages and of heap objects rely on. -/
structure KernelAlloc.Lawful {σ : Type u} (K : KernelAlloc σ) (V : PageAlloc.View σ)
    (objs : σ → Set ℕ) : Prop where
  pages : ∀ O, K.toPageAlloc.Lawful (V.holding objs O)
  kmalloc : ∀ {a : σ}, V.Inv a → ∀ {size flags ptr : ℕ} {a' : σ},
    K.kmalloc size flags a = .ok (ptr, a') → HeapCall V a a' ∧
      if ptr = 0 then objs a' = objs a else ptr ∉ objs a ∧ objs a' = insert ptr (objs a)
  kfree : ∀ {a : σ}, V.Inv a → ∀ {ptr : ℕ}, ptr ∈ objs a → ∀ {a' : σ},
    K.kfree ptr a = .ok a' → HeapCall V a a' ∧ objs a' = objs a \ {ptr}

section Env

variable {σ : Type} (K : KernelAlloc σ)

/-- `kmalloc` on physical memory. -/
def KernelAlloc.kmallocOn (size flags : ℕ) (s : Phys σ) : Kern (ℕ × Phys σ) := do
  let (ptr, a) ← K.kmalloc size flags s.alloc
  .ok (ptr, { s with alloc := a })

/-- `kfree` on physical memory. -/
def KernelAlloc.kfreeOn (ptr : ℕ) (s : Phys σ) : Kern (Phys σ) := do
  let a ← K.kfree ptr s.alloc
  .ok { s with alloc := a }

/-- `buddy_alloc_pages` on physical memory. -/
def PageAlloc.allocOn (A : PageAlloc σ) (size : ℕ) (zone : Zone) (s : Phys σ) :
    Kern (ℕ × Phys σ) := do
  let (ptr, a) ← A.buddyAllocPages size zone s.alloc
  .ok (ptr, { s with alloc := a })

/-- `buddy_free_block` on physical memory. -/
def PageAlloc.freeOn (A : PageAlloc σ) (ptr : ℕ) (s : Phys σ) : Kern (Phys σ) := do
  let a ← A.buddyFreeBlock ptr s.alloc
  .ok { s with alloc := a }

/-- What `vma.c` calls in the kernel. -/
def KernelAlloc.vmaEnv : VmaEnv (Phys σ) where
  kmalloc := K.kmallocOn
  kfree := K.kfreeOn
  buddyAllocPages := K.toPageAlloc.allocOn
  buddyFreeBlock := K.toPageAlloc.freeOn
  vmmMapPage := vmmMapPage K.toPageAlloc
  vmmUnmapPage := vmmUnmapPage K.toPageAlloc

end Env

/-! ## Calls leave memory alone -/

section Calls

variable {σ : Type} {A : PageAlloc σ} {s s' : Phys σ}

theorem PageAlloc.allocOn_ok {size ptr : ℕ} {zone : Zone} (h : A.allocOn size zone s = .ok (ptr, s')) :
    A.buddyAllocPages size zone s.alloc = .ok (ptr, s'.alloc) ∧ s'.mem = s.mem := by
  unfold PageAlloc.allocOn at h
  rw [bind_eq_ok] at h
  obtain ⟨⟨ptr', a⟩, hcall, h⟩ := h
  obtain ⟨rfl, rfl⟩ := Prod.mk.inj (Except.ok.inj h)
  exact ⟨hcall, rfl⟩

theorem PageAlloc.freeOn_mem {ptr : ℕ} (h : A.freeOn ptr s = .ok s') : s'.mem = s.mem := by
  unfold PageAlloc.freeOn at h
  rw [bind_eq_ok] at h
  obtain ⟨a, -, h⟩ := h
  rw [← Except.ok.inj h]

end Calls

/-! ## Page tables beside the heap -/

section Tables

variable {σ : Type} {V V' : PageAlloc.View σ} {A : PageAlloc σ} {K : KernelAlloc σ}
  {objs : σ → Set ℕ} {O : Set ℕ} {W L : Set (ℕ × ℕ)} {s s' : Phys σ}

theorem slotPresent_congr (hmem : s'.mem = s.mem) (w : ℕ × ℕ) :
    slotPresent s' w = slotPresent s w := by
  unfold slotPresent
  rw [hmem]

theorem tableOf_congr (hmem : s'.mem = s.mem) (w : ℕ × ℕ) : tableOf s' w = tableOf s w := by
  unfold tableOf
  rw [hmem]

theorem tables_congr (hmem : s'.mem = s.mem) : tables W s' = tables W s := by
  unfold tables
  simp only [slotPresent_congr hmem, tableOf_congr hmem]

/-- The tables do not see a call of the heap. -/
theorem PageTables.of_heapCall (h : PageTables V W L s) (hmem : s'.mem = s.mem)
    (hinv : V'.Inv s'.alloc) (hfree : V'.free s'.alloc = V.free s.alloc)
    (hlive : V'.live s'.alloc = V.live s.alloc) : PageTables V' W L s' where
  inv := hinv
  dir := by
    rw [hfree]
    exact h.dir
  table w hw hpres := by
    rw [slotPresent_congr hmem] at hpres
    rw [tableOf_congr hmem]
    exact h.table w hw hpres
  inj w hw w' hw' hpres hpres' heq := by
    rw [slotPresent_congr hmem] at hpres hpres'
    rw [tableOf_congr hmem, tableOf_congr hmem] at heq
    exact h.inj w hw w' hw' hpres hpres' heq
  live := by
    rw [hlive, tables_congr hmem]
    exact h.live

/-- **`kmalloc`** beside page tables. -/
theorem PageTables.kmalloc_spec (hK : K.Lawful V objs) (h : PageTables (V.holding objs O) W L s)
    {size flags ptr : ℕ} (hrun : K.kmallocOn size flags s = .ok (ptr, s')) :
    s'.mem = s.mem ∧ ((ptr = 0 ∧ PageTables (V.holding objs O) W L s') ∨
      (ptr ≠ 0 ∧ ptr ∉ O ∧ PageTables (V.holding objs (insert ptr O)) W L s')) := by
  unfold KernelAlloc.kmallocOn at hrun
  rw [bind_eq_ok] at hrun
  obtain ⟨⟨ptr', a⟩, hcall, hrun⟩ := hrun
  obtain ⟨rfl, rfl⟩ := Prod.mk.inj (Except.ok.inj hrun)
  obtain ⟨hinv, hobjs⟩ := h.inv
  obtain ⟨hheap, hptr⟩ := hK.kmalloc hinv hcall
  refine ⟨rfl, ?_⟩
  split at hptr
  · next hnull =>
    exact Or.inl ⟨hnull, h.of_heapCall rfl ⟨hheap.inv, hptr.trans hobjs⟩ hheap.free hheap.live⟩
  · next hne =>
    rw [hobjs] at hptr
    exact Or.inr ⟨hne, hptr.1, h.of_heapCall rfl ⟨hheap.inv, hptr.2⟩ hheap.free hheap.live⟩

/-- **`kfree`** beside page tables. -/
theorem PageTables.kfree_spec (hK : K.Lawful V objs) (h : PageTables (V.holding objs O) W L s)
    {ptr : ℕ} (hptr : ptr ∈ O) (hrun : K.kfreeOn ptr s = .ok s') :
    s'.mem = s.mem ∧ PageTables (V.holding objs (O \ {ptr})) W L s' := by
  unfold KernelAlloc.kfreeOn at hrun
  rw [bind_eq_ok] at hrun
  obtain ⟨a, hcall, hrun⟩ := hrun
  obtain rfl := Except.ok.inj hrun
  obtain ⟨hinv, hobjs⟩ := h.inv
  obtain ⟨hheap, hgone⟩ := hK.kfree hinv (hobjs ▸ hptr) hcall
  rw [hobjs] at hgone
  exact ⟨rfl, h.of_heapCall rfl ⟨hheap.inv, hgone⟩ hheap.free hheap.live⟩

/-- A block that has been handed out beside page tables. -/
structure NewBlock (V : PageAlloc.View σ) (W L : Set (ℕ × ℕ)) (s s' : Phys σ) (zone : Zone)
    (p k : ℕ) : Prop where
  tables : PageTables V W (insert (p, k) L) s'
  mem : s'.mem = s.mem
  ne_zero : p ≠ 0
  inTable : ∀ j ∈ block p k, j < maxPages
  zone : ∀ j ∈ block p k, zoneOfPage j = zone
  subset : block p k ⊆ V.free s.alloc
  fresh : (p, k) ∉ L

/-- **`buddy_alloc_pages`** beside page tables. -/
theorem PageTables.alloc_spec (hA : A.Lawful V) (h : PageTables V W L s) (size : ℕ) (zone : Zone) :
    A.allocOn size zone s = .ok (0, s) ∨ ∃ p s', A.allocOn size zone s = .ok (p * 4096, s') ∧
      NewBlock V W L s s' zone p (sizeToOrder size) := by
  unfold PageAlloc.allocOn
  rcases hA.alloc h.inv size zone with hnull | ⟨p, a', hrun, ht⟩
  · left
    rw [hnull, ok_bind]
  · right
    refine ⟨p, { s with alloc := a' }, by rw [hrun, ok_bind], ?_⟩
    have hself : p ∈ V.free s.alloc := ht.subset (self_mem_block p _)
    have hfresh : (p, sizeToOrder size) ∉ V.live s.alloc := fun hlive =>
      Set.disjoint_left.mp (hA.notFree h.inv hlive) (self_mem_block p _) hself
    refine {
      mem := rfl
      ne_zero := ht.ne_zero
      inTable := ht.inTable
      zone := ht.zone
      subset := ht.subset
      fresh := fun hL => hfresh (by rw [h.live]; exact Or.inl hL)
      tables := {
        inv := ht.inv
        dir := fun w hw => ?_
        table := fun w hw hpres => ?_
        inj := h.inj
        live := ?_ } }
    · obtain ⟨h1, h2, h3, h4⟩ := h.dir w hw
      rw [ht.free]
      exact ⟨h1, h2, h3, fun hc => h4 hc.1⟩
    · obtain ⟨h1, h2, h3⟩ := h.table w hw hpres
      refine ⟨h1, ?_, h3⟩
      rintro (heq | hL)
      · -- a table page is not free
        have hpage : tableOf s w / 4096 = p := (Prod.mk.inj heq).1
        apply h.table_notFree hA hw hpres
        rw [hpage]
        exact hself
      · exact h2 hL
    · show V.live a' = insert (p, sizeToOrder size) L ∪ tables W s
      rw [ht.live, h.live, Set.insert_union]

/-- A call of **`buddy_alloc_pages`** that did not return `NULL`. -/
theorem PageTables.alloc_ok (hA : A.Lawful V) (h : PageTables V W L s) {size ptr : ℕ} {zone : Zone}
    (hrun : A.allocOn size zone s = .ok (ptr, s')) (hne : ptr ≠ 0) :
    ∃ p, ptr = p * 4096 ∧ NewBlock V W L s s' zone p (sizeToOrder size) := by
  rcases h.alloc_spec hA size zone with hnull | ⟨p, s₁, hok, hnew⟩
  · exact absurd (Prod.mk.inj (Except.ok.inj (hrun.symm.trans hnull))).1 hne
  · obtain ⟨rfl, rfl⟩ := Prod.mk.inj (Except.ok.inj (hrun.symm.trans hok))
    exact ⟨p, rfl, hnew⟩

/-- **`buddy_free_block`** beside page tables, on a block that holds no directory. -/
theorem PageTables.free_spec (hA : A.Lawful V) (h : PageTables V W L s) {p k : ℕ}
    (hL : (p, k) ∈ L) (hdir : ∀ w ∈ W, w.1 / 4096 ∉ block p k) :
    ∃ s', A.freeOn (p * 4096) s = .ok s' ∧ s'.mem = s.mem ∧ PageTables V W (L \ {(p, k)}) s' ∧
      V.free s'.alloc = V.free s.alloc ∪ block p k := by
  have hlive : (p, k) ∈ V.live s.alloc := by
    rw [h.live]
    exact Or.inl hL
  obtain ⟨a', hrun, hret⟩ := hA.release h.inv hlive
  unfold PageAlloc.freeOn
  refine ⟨{ s with alloc := a' }, by rw [hrun, ok_bind], rfl, {
    inv := hret.inv
    dir := fun w hw => ?_
    table := fun w hw hpres => ?_
    inj := h.inj
    live := ?_ }, hret.free⟩
  · obtain ⟨h1, h2, h3, h4⟩ := h.dir w hw
    refine ⟨h1, h2, h3, ?_⟩
    rw [hret.free]
    rintro (hc | hc)
    · exact h4 hc
    · exact hdir w hw hc
  · obtain ⟨h1, h2, h3⟩ := h.table w hw hpres
    exact ⟨h1, fun hc => h2 hc.1, h3⟩
  · -- no table is the block that is given back
    have htables : tables W s \ {(p, k)} = tables W s := by
      apply Set.sdiff_singleton_eq_self
      rintro ⟨w, hw, hpres, heq⟩
      exact (h.table w hw hpres).2.1 (heq ▸ hL)
    show V.live a' = L \ {(p, k)} ∪ tables W s
    rw [hret.live, h.live, Set.union_sdiff_distrib, htables]

end Tables

/-! ## Translations by page number -/

section Translations

variable {σ : Type} {V : PageAlloc.View σ} {A : PageAlloc σ} {W L : Set (ℕ × ℕ)} {s s' : Phys σ}

/-- The entry of page `n` of a directory, if the page is mapped. -/
def entryAt (s : Phys σ) (pd n : ℕ) : Option ℕ := pte s (pd, n / 1024) (n % 1024)

theorem entryAt_congr (hmem : s'.mem = s.mem) (pd n : ℕ) : entryAt s' pd n = entryAt s pd n := by
  unfold entryAt pte
  rw [slotPresent_congr hmem, tableOf_congr hmem, hmem]

/-- A change of one entry by slot and index is a change of one page. -/
theorem entryAt_of_pte {pd v : ℕ} {e : Option ℕ}
    (h : ∀ w ∈ W, ∀ j < 1024, pte s' w j =
      if w = (pd, getPdeIndex v) ∧ j = getPteIndex v then e else pte s w j) {pd' n : ℕ}
    (hw : (pd', n / 1024) ∈ W) :
    entryAt s' pd' n = if pd' = pd ∧ n = v / 4096 then e else entryAt s pd' n := by
  unfold entryAt
  rw [h _ hw _ (Nat.mod_lt n (by norm_num))]
  exact if_congr slot_eq_iff rfl rfl

/-- **`vmm_map_page`** by page number. -/
theorem PageTables.mapPage_spec (hA : A.Lawful V) (h : PageTables V W L s) {pd v p flags : ℕ}
    (hw : (pd, v / 4096 / 1024) ∈ W) (hflag : flagIsSet flags ptePresentBit = true) :
    vmmMapPage A pd v p flags s = .ok (false, s) ∨
    ∃ s', vmmMapPage A pd v p flags s = .ok (true, s') ∧ PageTables V W L s' ∧
      ∀ pd' n, (pd', n / 1024) ∈ W →
        entryAt s' pd' n = if pd' = pd ∧ n = v / 4096 then some (p ||| flags) else entryAt s pd' n := by
  rw [← getPdeIndex_eq] at hw
  rcases h.vmmMapPage_spec (p := p) hA hw hflag with ⟨hrun, -⟩ | ⟨s', hrun, hinv, -, hpte⟩
  · exact Or.inl hrun
  · exact Or.inr ⟨s', hrun, hinv, fun pd' n hw' => entryAt_of_pte hpte hw'⟩

/-- **`vmm_unmap_page`** by page number. -/
theorem PageTables.unmapPage_spec (hA : A.Lawful V) (h : PageTables V W L s) {pd v : ℕ}
    (hw : (pd, v / 4096 / 1024) ∈ W) :
    ∃ ok s', vmmUnmapPage A pd v s = .ok (ok, s') ∧ PageTables V W L s' ∧
      ∀ pd' n, (pd', n / 1024) ∈ W →
        entryAt s' pd' n = if pd' = pd ∧ n = v / 4096 then none else entryAt s pd' n := by
  rw [← getPdeIndex_eq] at hw
  rcases h.vmmUnmapPage_spec hA hw with ⟨hrun, hnone⟩ | ⟨s', hrun, hinv, -, -, -, -, hpte⟩
  · refine ⟨false, s, hrun, h, fun pd' n hw' => ?_⟩
    refine entryAt_of_pte (fun w hw j hj => ?_) hw'
    split
    · next heq => rw [heq.1, heq.2, hnone]
    · rfl
  · exact ⟨true, s', hrun, hinv, fun pd' n hw' => entryAt_of_pte hpte hw'⟩

end Translations

/-! ## A heap that never uses an address twice -/

/-- The next address and the live objects. -/
structure BumpHeap where
  next : ℕ
  live : List ℕ
  deriving DecidableEq, Repr

/-- The objects lie below the next address. -/
structure BumpHeap.Valid (h : BumpHeap) : Prop where
  pos : 0 < h.next
  lt : ∀ o ∈ h.live, o < h.next
  nodup : h.live.Nodup

section Bump

variable {σ : Type} (A : PageAlloc σ) (V : PageAlloc.View σ)

/-- A page allocator with a heap beside it. -/
def bumpKernel : KernelAlloc (σ × BumpHeap) where
  buddyAllocPages size zone a := do
    let (ptr, pages) ← A.buddyAllocPages size zone a.1
    .ok (ptr, (pages, a.2))
  buddyFreeBlock ptr a := do
    let pages ← A.buddyFreeBlock ptr a.1
    .ok (pages, a.2)
  kmalloc size _ a :=
    .ok (a.2.next, (a.1, { next := a.2.next + size + 1, live := a.2.next :: a.2.live }))
  kfree ptr a := .ok (a.1, { a.2 with live := a.2.live.erase ptr })

/-- The page allocator as it was. -/
def bumpView : PageAlloc.View (σ × BumpHeap) where
  Inv a := V.Inv a.1 ∧ a.2.Valid
  free a := V.free a.1
  live a := V.live a.1

/-- The objects of the heap. -/
def bumpObjs (a : σ × BumpHeap) : Set ℕ := { o | o ∈ a.2.live }

variable {A V}

theorem bumpKernel_lawful (hA : A.Lawful V) :
    (bumpKernel A).Lawful (bumpView V) bumpObjs where
  pages O := {
    alloc := by
      rintro ⟨a, h⟩ ⟨⟨hinv, hvalid⟩, hobjs⟩ size zone
      rcases hA.alloc hinv size zone with hnull | ⟨p, a', hrun, ht⟩
      · left
        show (A.buddyAllocPages size zone a >>= _) = _
        rw [hnull, ok_bind]
      · right
        refine ⟨p, (a', h), ?_, ⟨⟨ht.inv, hvalid⟩, hobjs⟩, ht.ne_zero, ht.inTable, ht.zone, ht.subset,
          ht.free, ht.live⟩
        show (A.buddyAllocPages size zone a >>= _) = _
        rw [hrun, ok_bind]
    release := by
      rintro ⟨a, h⟩ ⟨⟨hinv, hvalid⟩, hobjs⟩ p k hb
      obtain ⟨a', hrun, hret⟩ := hA.release hinv hb
      refine ⟨(a', h), ?_, ⟨⟨hret.inv, hvalid⟩, hobjs⟩, hret.free, hret.live⟩
      show (A.buddyFreeBlock (p * 4096) a >>= _) = _
      rw [hrun, ok_bind]
    notFree := fun h => hA.notFree h.1.1
    disjoint := fun h => hA.disjoint h.1.1 }
  kmalloc := by
    rintro ⟨a, h⟩ ⟨hinv, hvalid⟩ size flags ptr a' hrun
    obtain ⟨rfl, rfl⟩ := Prod.mk.inj (Except.ok.inj hrun)
    refine ⟨⟨⟨hinv, Nat.succ_pos _, ?_, ?_⟩, rfl, rfl⟩, ?_⟩
    · intro o ho
      rcases List.mem_cons.mp ho with rfl | ho
      · dsimp only
        omega
      · have := hvalid.lt o ho
        dsimp only at this ⊢
        omega
    · refine List.nodup_cons.mpr ⟨fun hmem => ?_, hvalid.nodup⟩
      exact lt_irrefl _ (hvalid.lt _ hmem)
    · have hne : h.next ≠ 0 := hvalid.pos.ne'
      rw [if_neg hne]
      refine ⟨fun hmem => lt_irrefl _ (hvalid.lt _ hmem), ?_⟩
      ext o
      simp [bumpObjs]
  kfree := by
    rintro ⟨a, h⟩ ⟨hinv, hvalid⟩ ptr hptr a' hrun
    obtain rfl := Except.ok.inj hrun
    refine ⟨⟨⟨hinv, hvalid.pos, fun o ho => hvalid.lt o (List.mem_of_mem_erase ho),
      hvalid.nodup.erase _⟩, rfl, rfl⟩, ?_⟩
    ext o
    simp only [bumpObjs, Set.mem_ofPred_eq, Set.mem_sdiff, Set.mem_singleton_iff]
    rw [hvalid.nodup.mem_erase_iff, and_comm]

end Bump

end Kfs.Memory
