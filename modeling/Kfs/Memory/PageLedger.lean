import Kfs.Memory.PageLog
import Kfs.Memory.SlotFrames

/-!
# The books of a call

A call that fails has to give back what it has taken. The log of its calls to the page allocator is
compared with the blocks that are live: a block is handed out as often as it is given back, once more
if it was not live before and is now, and once less if it was and is not. The books balance after every
lawful call, so that it is enough to look at the blocks that are live in the end.
-/

namespace Kfs.Memory

open Kfs.Lib Kfs.Lib.Dyadic

universe u

/-! ## Counting -/

/-- The addresses of the blocks. -/
def blockStarts (live : Set (ℕ × ℕ)) : Set ℕ := { ptr | ∃ b ∈ live, ptr = b.1 * 4096 }

theorem mem_blockStarts_insert {live : Set (ℕ × ℕ)} {p k ptr : ℕ} :
    ptr ∈ blockStarts (insert (p, k) live) ↔ ptr = p * 4096 ∨ ptr ∈ blockStarts live := by
  simp [blockStarts]

/-- The books since `live₀` were the live blocks. -/
def Balanced (live₀ live : Set (ℕ × ℕ)) (log : List PageEvent) : Prop :=
  ∀ ptr, log.count (.alloc ptr) + (blockStarts live₀).indicator 1 ptr =
    log.count (.free ptr) + (blockStarts live).indicator 1 ptr

theorem Balanced.nil (live : Set (ℕ × ℕ)) : Balanced live live [] := fun _ => rfl

section Balance

variable {live₀ live : Set (ℕ × ℕ)} {log : List PageEvent} {p k : ℕ}

/-- A block is handed out whose first page is that of no live block. -/
theorem Balanced.alloc (h : Balanced live₀ live log) (hfresh : p * 4096 ∉ blockStarts live) :
    Balanced live₀ (insert (p, k) live) (.alloc (p * 4096) :: log) := by
  intro ptr
  have hbal := h ptr
  by_cases heq : ptr = p * 4096
  · subst heq
    rw [Set.indicator_of_mem (mem_blockStarts_insert.mpr (Or.inl rfl))]
    rw [Set.indicator_of_notMem hfresh] at hbal
    simp only [List.count_cons_self, List.count_cons_of_ne (by simp : PageEvent.alloc (p * 4096) ≠
      .free (p * 4096)), Pi.one_apply]
    omega
  · have hmem : ptr ∈ blockStarts (insert (p, k) live) ↔ ptr ∈ blockStarts live :=
      mem_blockStarts_insert.trans (or_iff_right heq)
    have hother : PageEvent.alloc (p * 4096) ≠ .alloc ptr := fun hc => heq (PageEvent.alloc.inj hc).symm
    rw [List.count_cons_of_ne hother, List.count_cons_of_ne (by simp)]
    have hind : (blockStarts (insert (p, k) live)).indicator (1 : ℕ → ℕ) ptr =
        (blockStarts live).indicator 1 ptr := Set.indicator_eq_indicator hmem rfl
    rw [hind]
    exact hbal

/-- A live block is given back, and no other live block starts where it does. -/
theorem Balanced.free (h : Balanced live₀ live log) (hp : (p, k) ∈ live)
    (hother : ∀ q l, (q, l) ∈ live → (q, l) ≠ (p, k) → q ≠ p) :
    Balanced live₀ (live \ {(p, k)}) (.free (p * 4096) :: log) := by
  have hstart : ∀ {ptr}, ptr ∈ blockStarts (live \ {(p, k)}) ↔ ptr ∈ blockStarts live ∧ ptr ≠ p * 4096 := by
    intro ptr
    constructor
    · rintro ⟨⟨q, l⟩, ⟨hq, hne⟩, rfl⟩
      refine ⟨⟨_, hq, rfl⟩, fun heq => hother q l hq hne ?_⟩
      exact Nat.eq_of_mul_eq_mul_right (by norm_num) heq
    · rintro ⟨⟨⟨q, l⟩, hq, rfl⟩, hne⟩
      refine ⟨_, ⟨hq, fun heq => hne ?_⟩, rfl⟩
      rw [(Prod.mk.inj (Set.mem_singleton_iff.mp heq)).1]
  intro ptr
  have hbal := h ptr
  by_cases heq : ptr = p * 4096
  · subst heq
    have hin : p * 4096 ∈ blockStarts live := ⟨_, hp, rfl⟩
    rw [Set.indicator_of_mem hin] at hbal
    rw [Set.indicator_of_notMem fun hc => (hstart.mp hc).2 rfl]
    simp only [List.count_cons_self, List.count_cons_of_ne (by simp : PageEvent.free (p * 4096) ≠
      .alloc (p * 4096))]
    simp only [Pi.one_apply] at hbal
    omega
  · have hne : PageEvent.free (p * 4096) ≠ .free ptr := fun hc => heq (PageEvent.free.inj hc).symm
    rw [List.count_cons_of_ne (by simp), List.count_cons_of_ne hne]
    have hmem : ptr ∈ blockStarts (live \ {(p, k)}) ↔ ptr ∈ blockStarts live :=
      hstart.trans (and_iff_left heq)
    have hind : (blockStarts (live \ {(p, k)})).indicator (1 : ℕ → ℕ) ptr =
        (blockStarts live).indicator 1 ptr := Set.indicator_eq_indicator hmem rfl
    rw [hind]
    exact hbal

/-- Where the same blocks start, every block was handed out as often as it was given back. -/
theorem Balanced.count_eq (h : Balanced live₀ live log) {ptr : ℕ}
    (hsame : ptr ∈ blockStarts live ↔ ptr ∈ blockStarts live₀) :
    log.count (.alloc ptr) = log.count (.free ptr) := by
  have hbal := h ptr
  have hind : (blockStarts live).indicator (1 : ℕ → ℕ) ptr = (blockStarts live₀).indicator 1 ptr :=
    Set.indicator_eq_indicator hsame rfl
  rw [hind] at hbal
  exact Nat.add_right_cancel hbal

end Balance

/-! ## Kernels that keep a property -/

section Kernel

variable {σ : Type} {K : KernelAlloc σ} {V : PageAlloc.View σ} {objs : σ → Set ℕ}
  {Large Spent : σ → ℕ → Prop} {P : σ → Prop}

/-- The four calls keep the property. -/
structure KernelAlloc.Keeps (K : KernelAlloc σ) (V : PageAlloc.View σ) (objs : σ → Set ℕ)
    (P : σ → Prop) : Prop where
  alloc : ∀ {a : σ}, V.Inv a → P a → ∀ {size zone ptr a'},
    K.buddyAllocPages size zone a = .ok (ptr, a') → P a'
  free : ∀ {a : σ}, V.Inv a → P a → ∀ {p k : ℕ}, (p, k) ∈ V.live a → ∀ {a'},
    K.buddyFreeBlock (p * 4096) a = .ok a' → P a'
  kmalloc : ∀ {a : σ}, V.Inv a → P a → ∀ {size flags ptr a'},
    K.kmalloc size flags a = .ok (ptr, a') → P a'
  kfree : ∀ {a : σ}, V.Inv a → P a → ∀ {ptr}, ptr ∈ objs a → ∀ {a'}, K.kfree ptr a = .ok a' → P a'

/-- **A kernel is lawful with a property that its calls keep.** -/
theorem KernelAlloc.Lawful.and (hK : K.Lawful V objs) (hP : K.Keeps V objs P) :
    K.Lawful (V.and P) objs where
  pages O := {
    alloc := by
      rintro a ⟨⟨hinv, hPa⟩, hobjs⟩ size zone
      rcases (hK.pages O).alloc ⟨hinv, hobjs⟩ size zone with hnull | ⟨p, a', hrun, ht⟩
      · exact Or.inl hnull
      · exact Or.inr ⟨p, a', hrun, ⟨⟨ht.inv.1, hP.alloc hinv hPa hrun⟩, ht.inv.2⟩, ht.ne_zero, ht.inTable,
          ht.zone, ht.subset, ht.free, ht.live⟩
    release := by
      rintro a ⟨⟨hinv, hPa⟩, hobjs⟩ p k hb
      obtain ⟨a', hrun, hret⟩ := (hK.pages O).release ⟨hinv, hobjs⟩ hb
      exact ⟨a', hrun, ⟨⟨hret.inv.1, hP.free hinv hPa hb hrun⟩, hret.inv.2⟩, hret.free, hret.live⟩
    notFree := fun h => (hK.pages O).notFree ⟨h.1.1, h.2⟩
    disjoint := fun h => (hK.pages O).disjoint ⟨h.1.1, h.2⟩ }
  kmalloc := by
    rintro a ⟨hinv, hPa⟩ size flags ptr a' hrun
    obtain ⟨hheap, hptr⟩ := hK.kmalloc hinv hrun
    exact ⟨⟨⟨hheap.inv, hP.kmalloc hinv hPa hrun⟩, hheap.free, hheap.live⟩, hptr⟩
  kfree := by
    rintro a ⟨hinv, hPa⟩ ptr hptr a' hrun
    obtain ⟨hheap, hgone⟩ := hK.kfree hinv hptr hrun
    exact ⟨⟨⟨hheap.inv, hP.kfree hinv hPa hptr hrun⟩, hheap.free, hheap.live⟩, hgone⟩

/-- So is its contract. -/
theorem KernelAlloc.Contract.and (hK : K.Contract V objs Large Spent) (hP : K.Keeps V objs P) :
    K.Contract (V.and P) objs Large Spent where
  toLawful := hK.toLawful.and hP
  order_lt hinv := hK.order_lt hinv.1
  kmalloc_large hinv := hK.kmalloc_large hinv.1
  alloc_large hinv := hK.alloc_large hinv.1
  free_large hinv := hK.free_large hinv.1
  kfree_large hinv := hK.kfree_large hinv.1
  free_spent hinv := hK.free_spent hinv.1
  spent_zero := hK.spent_zero
  kfree_spent hinv := hK.kfree_spent hinv.1

/-! ## The books of a logged kernel -/

/-- The books are in order since the state `a₀`, and the allocator looks after the same pages. -/
structure BooksKept (V : PageAlloc.View σ) (a₀ : σ) (a : σ × List PageEvent) : Prop where
  balanced : Balanced (V.live a₀) (V.live a.1) a.2
  pages : V.pages a.1 = V.pages a₀

theorem BooksKept.start (V : PageAlloc.View σ) (a₀ : σ) : BooksKept V a₀ (a₀, []) :=
  ⟨Balanced.nil _, rfl⟩

/-- A free page is the first of no live block. -/
theorem notMem_blockStarts (hK : K.Lawful V objs) {a : σ} (hinv : V.Inv a) {p : ℕ}
    (hp : p ∈ V.free a) : p * 4096 ∉ blockStarts (V.live a) := by
  rintro ⟨⟨q, l⟩, hq, heq⟩
  obtain rfl : p = q := Nat.eq_of_mul_eq_mul_right (by norm_num) heq
  exact Set.disjoint_left.mp ((hK.pages (objs a)).notFree ⟨hinv, rfl⟩ hq) (self_mem_block p l) hp

/-- A call of the heap takes no page and gives none back. -/
theorem HeapCall.pages {a a' : σ} (h : HeapCall V a a') : V.pages a' = V.pages a := by
  unfold PageAlloc.View.pages
  rw [h.free, h.live]

/-- **Every call keeps the books.** -/
theorem KernelAlloc.Lawful.booksKept (hK : K.Lawful V objs) (a₀ : σ) :
    K.logged.Keeps (loggedView V) (fun a => objs a.1) (BooksKept V a₀) where
  alloc := by
    rintro ⟨a, log⟩ ⟨hinv, -⟩ hbooks size zone ptr a' hrun
    have hA := hK.pages (objs a)
    have hcall := K.logged_alloc hrun
    refine ⟨?_, (hA.alloc_pages ⟨hinv, rfl⟩ hcall).trans hbooks.pages⟩
    have hrun : (K.buddyAllocPages size zone a >>= fun r => Except.ok (r.1, (r.2,
      if r.1 = 0 then log else PageEvent.alloc r.1 :: log))) = .ok (ptr, a') := hrun
    -- A call that returns null writes no event; else the block was free before.
    rcases hA.alloc (a := a) ⟨hinv, rfl⟩ size zone with hnull | ⟨p, b, hok, ht⟩
    · rw [hnull, ok_bind] at hrun
      obtain ⟨-, rfl⟩ := Prod.mk.inj (Except.ok.inj hrun)
      exact hbooks.balanced
    · have hne : p * 4096 ≠ 0 := by
        have := ht.ne_zero
        omega
      rw [hok, ok_bind] at hrun
      simp only [hne, if_false] at hrun
      obtain ⟨-, rfl⟩ := Prod.mk.inj (Except.ok.inj hrun)
      show Balanced _ (V.live b) _
      rw [show V.live b = insert (p, sizeToOrder size) (V.live a) from ht.live]
      exact hbooks.balanced.alloc (notMem_blockStarts hK hinv (ht.subset (self_mem_block p _)))
  free := by
    rintro ⟨a, log⟩ ⟨hinv, -⟩ hbooks p k hb a' hrun
    have hA := hK.pages (objs a)
    obtain ⟨b, hok, hret⟩ := hA.release (a := a) ⟨hinv, rfl⟩ hb
    simp only [KernelAlloc.logged, hok] at hrun
    obtain rfl := Except.ok.inj hrun
    refine ⟨?_, (hret.pages hb).trans hbooks.pages⟩
    show Balanced _ (V.live b) _
    rw [show V.live b = V.live a \ {(p, k)} from hret.live]
    -- Of the live blocks only this one starts at `p`.
    refine hbooks.balanced.free hb fun q l hq hne heq => ?_
    subst heq
    exact Set.disjoint_left.mp (hA.disjoint ⟨hinv, rfl⟩ hq hb hne) (self_mem_block q l)
      (self_mem_block q k)
  kmalloc := by
    rintro ⟨a, log⟩ ⟨hinv, -⟩ hbooks size flags ptr a' hrun
    obtain ⟨⟨ptr', b⟩, hcall, hret⟩ := bind_eq_ok.mp hrun
    obtain ⟨-, rfl⟩ := Prod.mk.inj (Except.ok.inj hret)
    obtain ⟨hheap, -⟩ := hK.kmalloc hinv hcall
    refine ⟨?_, hheap.pages.trans hbooks.pages⟩
    show Balanced _ (V.live b) log
    rw [hheap.live]
    exact hbooks.balanced
  kfree := by
    rintro ⟨a, log⟩ ⟨hinv, -⟩ hbooks ptr hptr a' hrun
    obtain ⟨b, hcall, hret⟩ := bind_eq_ok.mp hrun
    obtain rfl := Except.ok.inj hret
    obtain ⟨hheap, -⟩ := hK.kfree hinv hptr hcall
    refine ⟨?_, hheap.pages.trans hbooks.pages⟩
    show Balanced _ (V.live b) log
    rw [hheap.live]
    exact hbooks.balanced

/-- The view of a logged kernel with its books. -/
def ledgerView (V : PageAlloc.View σ) (a₀ : σ) : PageAlloc.View (σ × List PageEvent) :=
  (loggedView V).and (BooksKept V a₀)

/-- The first call finds an empty log. -/
def Phys.withLog (s : Phys σ) : Phys (σ × List PageEvent) where
  mem := s.mem
  alloc := (s.alloc, [])

/-- The page tables at the start of a call. -/
theorem PageTables.withLog {O : Set ℕ} {W L : Set (ℕ × ℕ)} {s : Phys σ}
    (h : PageTables (V.holding objs O) W L s) :
    PageTables ((ledgerView V s.alloc).holding (fun a => objs a.1) O) W L s.withLog where
  inv := ⟨⟨⟨h.inv.1, LogInv.nil _⟩, BooksKept.start V s.alloc⟩, h.inv.2⟩
  dir := h.dir
  table := h.table
  inj := h.inj
  live := h.live

/-- **What was taken has been given back**: every block that was handed out has been given back as often
as that, and nothing is given back twice. -/
structure GivenBack (log : List PageEvent) : Prop where
  once : NoDoubleFree log
  all : ∀ ptr, .alloc ptr ∈ log → log.count (.alloc ptr) = log.count (.free ptr)

end Kernel

end Kfs.Memory
