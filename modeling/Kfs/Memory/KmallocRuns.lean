import Kfs.Lib.TransitionSystem
import Kfs.Memory.KmallocSpec

/-!
# Runs of the kernel allocators

Runs of `kmalloc` and `kfree`, and runs of `slab_alloc` and `slab_free`, from the state that
`buddy_init` and `slab_init` leave. Callers free live pointers only.

`slab_shrink_caches` returns the pages of empty slabs to the buddy allocator but leaves the slabs
on the list of the empty ones, and `slab_create` marks its page `SLAB` before it knows whether it
gets a header. The two conditions `ReclaimsNothing` and `HeaderAvailable` on a call of `kmalloc`
keep a run away from these places.
-/

namespace Kfs.Memory

open Kfs.Lib Kfs.Lib.Word32 Kfs.Lib.Dyadic

/-! ## The systems -/

/-- What `page_descriptor_init` leaves for `buddy_init`. The boot allocator reserves page 0. -/
structure BootTable (totalPages : ℕ) (t : BuddyState) : Prop where
  totalPages_le : totalPages ≤ maxPages
  zoneFlag : ∀ i < maxPages, pageGetZone (t.pages i) = pageGetZoneFlag (pageToPhys i)
  states : ∀ i < maxPages, pageGetState (t.pages i) = pageStateAvailable ∨
    pageGetState (t.pages i) = pageStateReserved ∨ pageGetState (t.pages i) = pageStateUnusable
  zero : pageGetState (t.pages 0) ≠ pageStateAvailable

theorem BootTable.tableInit {n : ℕ} {t : BuddyState} (h : BootTable n t) : TableInit t.pages where
  zoneFlag := h.zoneFlag
  notFree i hi := by
    rcases h.states i hi with hs | hs | hs <;> rw [hs] <;> decide

theorem pageDescriptorInit_bootTable {freeZones resZones : Zone → List Region} {n : ℕ}
    (hn : n ≤ maxPages)
    (h0 : pageGetState (pageDescriptorInit freeZones resZones 0) ≠ pageStateAvailable) :
    BootTable n { pages := pageDescriptorInit freeZones resZones, areas := emptyAreas } where
  totalPages_le := hn
  zoneFlag i _ := (pageDescriptorInit_flags freeZones resZones i).2
  states i _ := by
    rw [(pageDescriptorInit_flags freeZones resZones i).1]
    exact pageGetStateFlag_cases freeZones resZones (pageToPhys i)
  zero := h0

/-- The allocators and the live pointers, each with its requested size. -/
structure KRun where
  state : KState
  live : List (ℕ × ℕ)

/-- `buddy_init` and `slab_init` have run on the table `t`. -/
def KRun.Initial (totalPages : ℕ) (t : BuddyState) (r : KRun) : Prop :=
  r.live = [] ∧ ∃ s, buddyInit totalPages t = .ok s.buddy ∧ r.state = slabInit s

/-- The live list after a call that returned `ptr`. -/
def addLive (ptr size : ℕ) (live : List (ℕ × ℕ)) : List (ℕ × ℕ) :=
  if ptr = 0 then live else (ptr, size) :: live

/-- Frees the live pointer `ptr` with `free`; freeing anything else is no call of a run. -/
def freeLive (free : ℕ → KState → Kern KState) (ptr : ℕ) (r : KRun) : Kern KRun :=
  match r.live.find? (·.1 == ptr) with
  | none => .error .fault
  | some a => do
    let s ← free ptr r.state
    .ok { state := s, live := r.live.erase a }

/-- The calls of `kmalloc` and `kfree`. -/
inductive KCall where
  | kmalloc (size flags : ℕ)
  | kfree (ptr : ℕ)
  deriving DecidableEq, Repr

def kmallocStep (r : KRun) : KCall → Kern KRun
  | .kmalloc size flags => do
    let (ptr, s) ← kmalloc size flags r.state
    .ok { state := s, live := addLive ptr size r.live }
  | .kfree ptr => freeLive kfree ptr r

def kmallocSystem (totalPages : ℕ) (t : BuddyState) : System KRun KCall :=
  System.ofStep (KRun.Initial totalPages t) kmallocStep

/-- The calls of `slab_alloc` and `slab_free`. -/
inductive SlabCall where
  | slabAlloc (size : ℕ) (zone : Zone)
  | slabFree (ptr : ℕ)
  deriving DecidableEq, Repr

def slabStep (r : KRun) : SlabCall → Kern KRun
  | .slabAlloc size zone => do
    let (ptr, s) ← slabAlloc kmalloc size zone r.state
    .ok { state := s, live := addLive ptr size r.live }
  | .slabFree ptr => freeLive slabFree ptr r

def slabSystem (totalPages : ℕ) (t : BuddyState) : System KRun SlabCall :=
  System.ofStep (KRun.Initial totalPages t) slabStep

/-- The call does not reclaim: `kmalloc` refuses the size at once, or serves it, or has no empty
slab to reclaim. -/
def ReclaimsNothing (r : KRun) : KCall → Prop
  | .kmalloc size flags => size = 0 ∨ maxKmallocSize < size ∨
      fits r.state (kmallocZone flags) size = true ∨
      noEmptySlabs r.state (kmallocZone flags) = true
  | .kfree _ => True

/-- The call does not need a second page for a header where the zone has only one. -/
def HeaderAvailable (r : KRun) : KCall → Prop
  | .kmalloc size flags => headerStarved r.state (kmallocZone flags) size = false
  | .kfree _ => True

/-- A call of `slab_alloc` with a size and a zone of the slab allocator for which the zone has the
pages it needs. -/
def PagesSucceed (r : KRun) : SlabCall → Prop
  | .slabAlloc size zone => size ≤ maxSlabSize ∧ zone ≠ .highmem ∧
      pagesNeeded r.state zone (sizeToCacheSize size) ≤ zoneFreePages zone r.state.buddy
  | .slabFree _ => True

instance (r : KRun) : (call : KCall) → Decidable (ReclaimsNothing r call)
  | .kmalloc _ _ => inferInstanceAs (Decidable (_ ∨ _ ∨ _ ∨ _))
  | .kfree _ => inferInstanceAs (Decidable True)

instance (r : KRun) : (call : KCall) → Decidable (HeaderAvailable r call)
  | .kmalloc _ _ => inferInstanceAs (Decidable (_ = _))
  | .kfree _ => inferInstanceAs (Decidable True)

instance (r : KRun) : (call : SlabCall) → Decidable (PagesSucceed r call)
  | .slabAlloc _ _ => inferInstanceAs (Decidable (_ ∧ _))
  | .slabFree _ => inferInstanceAs (Decidable True)

/-! ## A machine that can be run -/

/-- A machine whose only free memory is `k` pages of the DMA zone, from page 1 on. -/
def dmaTable (k : ℕ) : BuddyState where
  pages := pageDescriptorInit
    (fun z => if z = .dma then [{ start := 0x1000, stop := 0x1000 + k * 0x1000 }] else []) fun _ => []
  areas := emptyAreas

/-- The state after `buddy_init` and `slab_init`, with memory that nobody has written. -/
def bootRun (totalPages : ℕ) (t : BuddyState) : Kern KRun := do
  let b ← buddyInit totalPages t
  let s : KState := { buddy := b, caches := fun _ i => initCache i,
                      slabs := fun _ => { parentCache := (.lowmem, 0), inuse := 0, freelist := 0 },
                      mem := fun _ => 0 }
  .ok { state := slabInit s, live := [] }

theorem bootRun_initial {n : ℕ} {t : BuddyState} {r : KRun} (h : bootRun n t = .ok r) :
    KRun.Initial n t r := by
  obtain ⟨b, hb, hr⟩ := bind_eq_ok.mp h
  obtain rfl := Except.ok.inj hr
  exact ⟨rfl, _, hb, rfl⟩

/-- The runs from `bootRun` over a list of calls, each of which meets `C`. -/
def runCalls {ι : Type} (C : KRun → ι → Prop) [∀ r a, Decidable (C r a)]
    (step : KRun → ι → Kern KRun) (n : ℕ) (t : BuddyState) (calls : List ι) : Option KRun :=
  (bootRun n t).toOption.bind fun r => calls.foldlM (System.checkedStep C step) r

/-- A run over a list of calls is a run of the restricted system. -/
theorem runCalls_reachable {ι : Type} {C : KRun → ι → Prop} [∀ r a, Decidable (C r a)]
    {step : KRun → ι → Kern KRun} {n : ℕ} {t : BuddyState} {calls : List ι} {r : KRun}
    (h : runCalls C step n t calls = some r) :
    ((System.ofStep (KRun.Initial n t) step).restrict C).Reachable r := by
  obtain ⟨r₀, hboot, hrun⟩ := Option.bind_eq_some_iff.mp h
  have hinit := bootRun_initial (eq_ok_of_toOption hboot)
  have hstart : ((System.ofStep (KRun.Initial n t) step).restrict C).Reachable r₀ := .init hinit
  exact hstart.foldlM_restrict hrun

/-! ## The invariant of a run -/

/-- The heap invariant for some choice of its ghost parameters. -/
def KRun.Inv (r : KRun) : Prop := ∃ F S L κ, HeapInv r.state r.live F S L κ

/-- `slab_init` on a buddy allocator none of whose pages is a slab. -/
theorem HeapInv.of_slabInit {s : KState} {F : Set ℕ} (hfree : FreeInv s.buddy F ∅) (h0 : 0 ∉ F)
    (hslab : ∀ p < maxPages, pageGetState (s.buddy.pages p) ≠ pageStateSlab) :
    HeapInv (slabInit s) [] F ∅ ∅ fun _ => .part := by
  have hempty : ∀ z c fill, ((slabInit s).caches z c).list fill = [] := by
    intro z c fill
    cases fill <;> rfl
  refine {
    inv := {
      buddy := hfree
      caches := fun _ _ _ => ⟨rfl, rfl⟩
      pages := fun p hp => hp.elim
      inj := fun p hp => hp.elim
      objs := fun x hx => hx.elim
      lists := fun z c _ fill hd => ?_
      nodup := fun z c _ fill => by rw [hempty]; exact List.nodup_nil }
    filed := fun p hp => hp.elim
    zero := h0
    slabState := fun p hp hstate => absurd hstate (hslab p hp)
    ptrs := List.Pairwise.nil
    small := fun a ha => (nomatch ha)
    cover := fun x hx => hx.1.elim
    large := fun a ha => (nomatch ha)
    apart := fun a ha => (nomatch ha) }
  rw [hempty]
  simp only [List.not_mem_nil, false_iff, not_and]
  rintro ⟨p, hp, -⟩
  exact hp.elim

/-- The heap after the boot: its pages are those that the table calls available. -/
theorem HeapInv.of_initial {n : ℕ} {t : BuddyState} (ht : BootTable n t) {r : KRun}
    (hr : KRun.Initial n t r) :
    HeapInv r.state r.live (availablePages n t.pages) ∅ ∅ fun _ => .part := by
  obtain ⟨state, live⟩ := r
  obtain ⟨hlive, s, hinit, hstate⟩ := hr
  simp only at hlive hstate
  subst hlive hstate
  obtain ⟨b, hrun, hfree, -, hframe⟩ := buddyInit_spec ht.tableInit ht.totalPages_le
  obtain rfl : b = s.buddy := Except.ok.inj (hrun.symm.trans hinit)
  refine HeapInv.of_slabInit hfree (fun h0 => ht.zero h0.2) fun p hp hslab => ?_
  -- an available page is free now, and no other page has changed
  by_cases hav : p ∈ availablePages n t.pages
  · exact absurd (hslab.symm.trans (hfree.state_of_mem hav)) (by decide)
  · have hsame : pageGetState (t.pages p) = pageStateSlab := by
      rw [← hframe p hav]
      exact hslab
    rcases ht.states p hp with hs | hs | hs <;> exact absurd (hsame.symm.trans hs) (by decide)

section Steps

variable {r r' : KRun}

/-- Freeing a live pointer keeps the invariant. -/
theorem KRun.Inv.freeLive {free : ℕ → KState → Kern KState} {ptr : ℕ}
    (hfree : ∀ a ∈ r.live, ∃ s, free a.1 r.state = .ok s ∧
      KRun.Inv { state := s, live := r.live.erase a })
    (hs : freeLive free ptr r = .ok r') : r'.Inv := by
  unfold Memory.freeLive at hs
  cases hfind : r.live.find? (·.1 == ptr) with
  | none =>
    rw [hfind] at hs
    cases hs
  | some a =>
    rw [hfind] at hs
    obtain ⟨s, hrun, hinv⟩ := hfree a (List.mem_of_find?_eq_some hfind)
    have hptr : a.1 = ptr := by simpa using List.find?_some hfind
    rw [← hptr, hrun] at hs
    obtain rfl := Except.ok.inj hs
    exact hinv

theorem KRun.Inv.step {call : KCall} (h : r.Inv) (hcond : ReclaimsNothing r call)
    (hs : kmallocStep r call = .ok r') : r'.Inv := by
  obtain ⟨F, S, L, κ, hinv⟩ := h
  cases call with
  | kmalloc size flags =>
    simp only [Memory.kmallocStep] at hs
    rcases hinv.kmalloc_spec size flags hcond with
      ⟨x, s', F', S', L', κ', hrun, hne, hinv', -⟩ | hnull | ⟨-, hstop⟩
    · rw [hrun] at hs
      obtain rfl := Except.ok.inj hs
      refine ⟨F', S', L', κ', ?_⟩
      simp only [addLive, hne, if_false]
      exact hinv'
    · rw [hnull] at hs
      obtain rfl := Except.ok.inj hs
      exact ⟨F, S, L, κ, hinv⟩
    · rw [hstop] at hs
      cases hs
  | kfree ptr =>
    refine KRun.Inv.freeLive (fun a ha => ?_) hs
    obtain ⟨s', F', L', κ', hrun, hinv', -⟩ := hinv.kfree_spec ha
    exact ⟨s', hrun, F', S, L', κ', hinv'⟩

theorem KRun.Inv.of_reachable {n : ℕ} {t : BuddyState} (ht : BootTable n t)
    (hr : ((kmallocSystem n t).restrict ReclaimsNothing).Reachable r) : r.Inv := by
  apply hr.invariant
  · intro r₀ hr₀
    exact ⟨_, _, _, _, HeapInv.of_initial ht hr₀⟩
  · intro r₁ call r₂ h hstep
    exact h.step hstep.1 hstep.2

/-- `slab_alloc` of a size and zone of the slab allocator, with the pages it needs. -/
theorem HeapInv.slabAlloc_spec {s : KState} {live : List (ℕ × ℕ)} {F S L : Set ℕ} {κ : ℕ → Fill}
    (h : HeapInv s live F S L κ) {size : ℕ} {z : Zone} (hsize : size ≤ maxSlabSize)
    (hz : z ≠ .highmem)
    (hpages : pagesNeeded s z (sizeToCacheSize size) ≤ zoneFreePages z s.buddy) :
    ∃ x s' F' S' L' κ', slabAlloc kmalloc size z s = .ok (x, s') ∧ x ≠ 0 ∧
      x ∉ L ∧ (∀ a ∈ live, a.1 ≠ x) ∧ HeapInv s' ((x, size) :: live) F' S' L' κ' := by
  have hc := (sizeToCacheSize_spec hsize).1
  rcases h.inv.slabAlloc_spec h.filed h.zero hz rfl hc (fun _ => headerAlloc_kmallocN 1) with
    ⟨-, x, s', F', S', L', κ', hrun, hserved⟩ | ⟨hlt, -, -⟩ | ⟨hlt, -, -⟩
  · obtain ⟨hinv, -⟩ := h.allocSmall hc hsize rfl hserved
    refine ⟨x, s', F', S', L', κ', hrun, ?_, hserved.fresh, fun a ha heq => ?_, hinv⟩
    · obtain ⟨p, -, -, -, hobj⟩ := hserved.obj
      have hrange := objects_range hc hobj
      unfold pageVirt kernelVaddrBase at hrange
      omega
    · exact (List.pairwise_cons.mp hinv.ptrs).1 a ha heq.symm
  · exact absurd hpages (not_le.mpr hlt)
  · exact absurd hpages (not_le.mpr hlt)

/-- In runs of the slab allocator every live pointer is small. -/
def KRun.SlabInv (r : KRun) : Prop := r.Inv ∧ ∀ a ∈ r.live, a.2 ≤ maxSlabSize

theorem KRun.SlabInv.slabStep {call : SlabCall} (h : r.SlabInv) (hcond : PagesSucceed r call)
    (hs : slabStep r call = .ok r') : r'.SlabInv := by
  obtain ⟨⟨F, S, L, κ, hinv⟩, hsmall⟩ := h
  cases call with
  | slabAlloc size zone =>
    obtain ⟨hsize, hz, hpages⟩ := hcond
    obtain ⟨x, s', F', S', L', κ', hrun, hne, -, -, hinv'⟩ :=
      hinv.slabAlloc_spec hsize hz hpages
    simp only [Memory.slabStep, hrun, ok_bind] at hs
    obtain rfl := Except.ok.inj hs
    simp only [addLive, hne, if_false]
    refine ⟨⟨F', S', L', κ', hinv'⟩, fun a ha => ?_⟩
    rcases List.mem_cons.mp ha with rfl | ha
    · exact hsize
    · exact hsmall a ha
  | slabFree ptr =>
    refine ⟨KRun.Inv.freeLive (fun a ha => ?_) hs, fun a ha => ?_⟩
    · obtain ⟨s', κ', hrun, hinv', -⟩ := hinv.slabFree_spec ha (hsmall a ha)
      exact ⟨s', hrun, F, S, L \ {a.1}, κ', hinv'⟩
    · simp only [Memory.slabStep, freeLive] at hs
      cases hfind : r.live.find? (·.1 == ptr) with
      | none =>
        rw [hfind] at hs
        cases hs
      | some b =>
        rw [hfind] at hs
        obtain ⟨s, -, hr'⟩ := bind_eq_ok.mp hs
        obtain rfl := Except.ok.inj hr'
        exact hsmall a (List.mem_of_mem_erase ha)

end Steps

/-! ## Live allocations do not overlap -/

/-- The byte ranges of two allocations, as pointer and requested size, are disjoint. -/
def NoOverlap (a b : ℕ × ℕ) : Prop := Disjoint (Set.Ico a.1 (a.1 + a.2)) (Set.Ico b.1 (b.1 + b.2))

/-- **No two live allocations overlap** in a run of `kmalloc` and `kfree` in which no call reclaims
an empty slab. -/
theorem kmalloc_live_noOverlap {n : ℕ} {t : BuddyState} (ht : BootTable n t) {r : KRun}
    (hr : ((kmallocSystem n t).restrict ReclaimsNothing).Reachable r) :
    r.live.Pairwise NoOverlap := by
  obtain ⟨F, S, L, κ, hheap⟩ := KRun.Inv.of_reachable ht hr
  exact hheap.disjoint

theorem kmalloc_live_noOverlap_dmaTable : ∃ r,
    ((kmallocSystem 4 (dmaTable 3)).restrict ReclaimsNothing).Reachable r ∧
    r.live = [(0xC0002000, 4096), (0xC0001040, 30), (0xC0001020, 20)] ∧
    r.live.Pairwise NoOverlap := by
  have hrun : (runCalls ReclaimsNothing kmallocStep 4 (dmaTable 3)
      [.kmalloc 20 gfpDma, .kmalloc 30 gfpDma, .kmalloc 4096 gfpDma]).map (·.live) =
      some [(0xC0002000, 4096), (0xC0001040, 30), (0xC0001020, 20)] := by decide +kernel
  obtain ⟨r, hr, hlive⟩ := Option.map_eq_some_iff.mp hrun
  have hreach := runCalls_reachable hr
  exact ⟨r, hreach, hlive,
    kmalloc_live_noOverlap (pageDescriptorInit_bootTable (by decide) (by decide)) hreach⟩

/-- With one page of memory, reclaim gives the page of an empty slab to a caller, and the next
small request is served from that slab. -/
theorem kmalloc_overlap_dmaTable : BootTable 2 (dmaTable 1) ∧
    ∃ r, (kmallocSystem 2 (dmaTable 1)).Reachable r ∧ ¬ r.live.Pairwise NoOverlap := by
  have hrun : (runCalls (fun _ _ => True) kmallocStep 2 (dmaTable 1)
      [.kmalloc 8 gfpDma, .kfree 0xC0001020, .kmalloc 4096 gfpDma, .kmalloc 8 gfpDma]).map
        (·.live) = some [(0xC0001020, 8), (0xC0001000, 4096)] := by decide +kernel
  obtain ⟨r, hr, hlive⟩ := Option.map_eq_some_iff.mp hrun
  refine ⟨pageDescriptorInit_bootTable (by decide) (by decide), r,
    (runCalls_reachable hr).of_restrict, fun hpair => ?_⟩
  rw [hlive, List.pairwise_cons] at hpair
  have hdis : NoOverlap (0xC0001020, 8) (0xC0001000, 4096) := hpair.1 _ List.mem_cons_self
  have hmem : (0xC0001020 : ℕ) ∈ Set.Ico 0xC0001020 (0xC0001020 + 8) := by simp
  exact Set.disjoint_left.mp hdis hmem (by simp)

/-! ## Out of memory -/

/-- **Out of memory is reported**: in a run in which no call reclaims an empty slab or lacks the
page for a header, `kmalloc` returns, `NULL` leaves the state as it was, and `kfree` returns. -/
theorem kmalloc_reports_oom {n : ℕ} {t : BuddyState} (ht : BootTable n t) {r : KRun}
    (hr : ((kmallocSystem n t).restrict fun r call =>
      ReclaimsNothing r call ∧ HeaderAvailable r call).Reachable r) :
    (∀ size flags, ReclaimsNothing r (.kmalloc size flags) →
      HeaderAvailable r (.kmalloc size flags) →
      ∃ ptr s, kmalloc size flags r.state = .ok (ptr, s) ∧ (ptr = 0 → s = r.state)) ∧
    (∀ a ∈ r.live, ∃ s, kfree a.1 r.state = .ok s) := by
  obtain ⟨F, S, L, κ, hheap⟩ := KRun.Inv.of_reachable ht (hr.restrict_mono fun _ _ hcall => hcall.1)
  refine ⟨fun size flags hreclaim hheader => ?_, fun a ha => ?_⟩
  · rcases hheap.kmalloc_spec size flags hreclaim with
      ⟨x, s', F', S', L', κ', hrun, hne, -⟩ | hnull | ⟨hstarved, -⟩
    · exact ⟨x, s', hrun, fun h0 => absurd h0 hne⟩
    · exact ⟨0, r.state, hnull, fun _ => rfl⟩
    · exact absurd (hstarved.symm.trans hheader) (by decide)
  · obtain ⟨s', F', L', κ', hrun, -⟩ := hheap.kfree_spec ha
    exact ⟨s', hrun⟩

theorem kmalloc_reports_oom_dmaTable : ∃ r,
    ((kmallocSystem 2 (dmaTable 1)).restrict fun r call =>
      ReclaimsNothing r call ∧ HeaderAvailable r call).Reachable r ∧
    r.live = [(0xC0001000, 4096)] ∧
    (∃ ptr s, kmalloc 8 gfpDma r.state = .ok (ptr, s) ∧ (ptr = 0 → s = r.state)) ∧
    (∃ s, kfree 0xC0001000 r.state = .ok s) := by
  have hrun : (runCalls (fun r call => ReclaimsNothing r call ∧ HeaderAvailable r call) kmallocStep 2
      (dmaTable 1) [.kmalloc 4096 gfpDma]).map (fun r => (r.live, decide
        (ReclaimsNothing r (.kmalloc 8 gfpDma)), decide (HeaderAvailable r (.kmalloc 8 gfpDma)))) =
      some ([(0xC0001000, 4096)], true, true) := by decide +kernel
  obtain ⟨r, hr, hview⟩ := Option.map_eq_some_iff.mp hrun
  simp only [Prod.mk.injEq, decide_eq_true_eq] at hview
  obtain ⟨hlive, hreclaim, hheader⟩ := hview
  have hreach := runCalls_reachable hr
  obtain ⟨halloc, hfree⟩ :=
    kmalloc_reports_oom (pageDescriptorInit_bootTable (by decide) (by decide)) hreach
  refine ⟨r, hreach, hlive, halloc 8 gfpDma hreclaim hheader, hfree (0xC0001000, 4096) ?_⟩
  rw [hlive]
  exact List.mem_cons_self

/-- With one page of memory `slab_create` gives its page back while it is marked `SLAB`. -/
theorem kmalloc_panics_dmaTable : BootTable 2 (dmaTable 1) ∧
    ∃ r, (kmallocSystem 2 (dmaTable 1)).Reachable r ∧
      kmalloc 1024 gfpDma r.state =
        .error (.kpanic "Attempt to free a page with invalid state (%d) at %p\n") := by
  have hrun : (runCalls (fun _ _ => True) kmallocStep 2 (dmaTable 1) []).map
      (fun r => stopOf (kmalloc 1024 gfpDma r.state)) =
      some (some (.kpanic "Attempt to free a page with invalid state (%d) at %p\n")) := by
    decide +kernel
  obtain ⟨r, hr, hstop⟩ := Option.map_eq_some_iff.mp hrun
  exact ⟨pageDescriptorInit_bootTable (by decide) (by decide), r,
    (runCalls_reachable hr).of_restrict, eq_error_of_stopOf hstop⟩

/-! ## The slab caches -/

/-- The objects in use: those of the callers, and the headers of the slabs that keep them outside
their page. -/
def liveObjects (r : KRun) : Set ℕ :=
  { x | (∃ a ∈ r.live, a.1 = x) ∨ ∃ p < maxPages,
      pageGetState (r.state.buddy.pages p) = pageStateSlab ∧
      slabIsExternal (r.state.caches (r.state.slabs x).parentCache.1
        (r.state.slabs x).parentCache.2).objectSize = true ∧
      (r.state.buddy.pages p).privateData = x }

/-- The first object of a slab on page `p` with objects of the given size. -/
def firstObject (p size : ℕ) : ℕ :=
  if slabIsExternal size then physToVirtLinear (pageToPhys p)
  else physToVirtLinear (pageToPhys p) + sizeofSlab

/-- The representation of the slab with header `slab` on page `p`, in terms of the C structures. -/
structure SlabRep (s : KState) (live : Set ℕ) (p slab : ℕ) (cache : SlabCache) : Prop where
  onList : ∀ z, ∀ c < numSlabCaches, ∀ fill, slab ∈ (s.caches z c).list fill ↔
    (z, c) = (s.slabs slab).parentCache ∧
      fill = if (s.slabs slab).inuse = cache.objectsPerSlab then .full
        else if (s.slabs slab).inuse = 0 then .empty else .part
  once : ∀ z, ∀ c < numSlabCaches, ∀ fill, ((s.caches z c).list fill).count slab ≤ 1
  inuse_le : (s.slabs slab).inuse ≤ cache.objectsPerSlab
  freelist : ∃ free, Chain s.mem 0 (s.slabs slab).freelist free ∧ free.Nodup ∧
    free.length = cache.objectsPerSlab - (s.slabs slab).inuse ∧
    (∀ x ∈ free, (∃ i < cache.objectsPerSlab,
        x = firstObject p cache.objectSize + i * cache.objectSize) ∧
      x + cache.objectSize ≤ physToVirtLinear (pageToPhys p) + pageSize) ∧
    (∀ i < cache.objectsPerSlab, firstObject p cache.objectSize + i * cache.objectSize ∈ live ↔
      firstObject p cache.objectSize + i * cache.objectSize ∉ free)

section Representation

variable {r : KRun} {F S L : Set ℕ} {κ : ℕ → Fill}

theorem firstObject_add {p c : ℕ} (hp : p < linearPages) (i : ℕ) :
    firstObject p (objSize c) + i * objSize c = objAddr p c i := by
  unfold firstObject objAddr headerSpace isExternal
  rw [physToVirtLinear_pageToPhys hp]
  cases slabIsExternal (objSize c) <;> simp

/-- A header that `liveObjects` counts is an allocated object. -/
theorem HeapInv.externalHeader_mem (h : HeapInv r.state r.live F S L κ) {q : ℕ} (hq : q < maxPages)
    (hstate : pageGetState (r.state.buddy.pages q) = pageStateSlab)
    (hext : slabIsExternal (r.state.caches
      (r.state.slabs (r.state.buddy.pages q).privateData).parentCache.1
      (r.state.slabs (r.state.buddy.pages q).privateData).parentCache.2).objectSize = true) :
    (r.state.buddy.pages q).privateData ∈ L := by
  have hqS := h.slabState q hq hstate
  obtain ⟨free, hslab⟩ := h.inv.pages q hqS
  rw [show (r.state.caches _ (r.state.slabs (r.state.buddy.pages q).privateData).parentCache.2
    ).objectSize = objSize (classOf r.state q) from (h.inv.caches _ _ hslab.class_lt).1] at hext
  rcases h.inv.header_cases hqS with ⟨hext', -⟩ | ⟨-, hL, -⟩
  · rw [isExternal, hext] at hext'
    cases hext'
  · exact hL

/-- Inside a slab the allocated objects are the live ones. -/
theorem HeapInv.mem_live_iff (h : HeapInv r.state r.live F S L κ) {p x : ℕ} (hp : p ∈ S)
    (hx : x ∈ objects p (classOf r.state p)) : x ∈ L ↔ x ∈ liveObjects r := by
  constructor
  · intro hL
    by_cases hh : x ∈ headers r.state S
    · obtain ⟨q, hq, rfl⟩ := hh
      obtain ⟨free, hslab⟩ := h.inv.pages q hq
      refine Or.inr ⟨q, ?_, hslab.state, ?_, rfl⟩
      · have := hslab.linear
        unfold linearPages at this
        unfold maxPages
        omega
      · rw [show (r.state.caches _ (r.state.slabs (headerOf r.state q)).parentCache.2).objectSize =
          objSize (classOf r.state q) from (h.inv.caches _ _ hslab.class_lt).1]
        rcases h.inv.header_cases hq with ⟨hext, -⟩ | ⟨hext, -⟩
        · exact absurd rfl (h.inv.object_ne_ownHeader hp hq hx hext)
        · exact hext
    · obtain ⟨a, ha, heq, -⟩ := h.cover x ⟨hL, hh⟩
      exact Or.inl ⟨a, ha, heq⟩
  · rintro (⟨a, ha, rfl⟩ | ⟨q, hq, hstate, hext, rfl⟩)
    · exact (h.small a ha (h.small_of_mem_objects ha hp hx)).1.1
    · exact h.externalHeader_mem hq hstate hext

/-- Every page in the state `SLAB` is represented as the C structures say. -/
theorem HeapInv.slabRep (h : HeapInv r.state r.live F S L κ) {p : ℕ} (hp : p < maxPages)
    (hstate : pageGetState (r.state.buddy.pages p) = pageStateSlab) :
    SlabRep r.state (liveObjects r) p (headerOf r.state p)
      (r.state.caches (zoneOfPage p) (classOf r.state p)) := by
  have hpS := h.slabState p hp hstate
  obtain ⟨free, hslab⟩ := h.inv.pages p hpS
  obtain ⟨hobjSize, hper⟩ := h.inv.caches (zoneOfPage p) _ hslab.class_lt
  have hfiled := h.filed p hpS (Set.notMem_empty p)
  have hcount := hslab.count
  refine {
    onList := fun z c hc fill => ?_
    once := fun z c hc fill => (List.nodup_iff_count_le_one.mp (h.inv.nodup z c hc fill)) _
    inuse_le := by rw [hper]; omega
    freelist := ⟨free, hslab.chain, hslab.nodup, by rw [hper]; omega, fun x hx => ?_, fun i hi => ?_⟩ }
  · rw [h.inv.lists z c hc fill, hfiled, hper]
    unfold fillOf
    constructor
    · rintro ⟨-, hcache, hfill⟩
      exact ⟨hcache.symm, hfill.symm⟩
    · rintro ⟨hcache, hfill⟩
      exact ⟨SlabInv.header_mem hpS, hcache.symm, hfill.symm⟩
  · have hobj := hslab.objs x hx
    have hrange := objects_range hslab.class_lt hobj
    obtain ⟨i, hi, hxi⟩ := hobj
    rw [hobjSize, hper, physToVirtLinear_pageToPhys hslab.linear]
    exact ⟨⟨i, hi, by rw [firstObject_add hslab.linear]; exact hxi⟩, hrange.2⟩
  · rw [hper] at hi
    have hobj : objAddr p (classOf r.state p) i ∈ objects p (classOf r.state p) := ⟨i, hi, rfl⟩
    rw [hobjSize, firstObject_add hslab.linear, ← h.mem_live_iff hpS hobj]
    exact hslab.live _ hobj

end Representation

/-- The slab caches of a state with live objects: every slab page is represented as `SlabRep` says
and the lists hold nothing else; every request is served with an object that is not live, and every
live object is as large as requested and can be freed. -/
structure SlabCachesRep (r : KRun) : Prop where
  slabs : ∀ p < maxPages, pageGetState (r.state.buddy.pages p) = pageStateSlab →
    ∃ cache, (r.state.slabs (r.state.buddy.pages p).privateData).parentCache =
        (zoneOfPage p, cache) ∧ cache < numSlabCaches ∧
      SlabRep r.state (liveObjects r) p (r.state.buddy.pages p).privateData
        (r.state.caches (zoneOfPage p) cache)
  lists : ∀ z, ∀ c < numSlabCaches, ∀ fill, ∀ slab ∈ (r.state.caches z c).list fill,
    ∃ p < maxPages, pageGetState (r.state.buddy.pages p) = pageStateSlab ∧
      (r.state.buddy.pages p).privateData = slab
  alloc : ∀ size zone, PagesSucceed r (.slabAlloc size zone) → ∃ x s,
    slabAlloc kmalloc size zone r.state = .ok (x, s) ∧ x ≠ 0 ∧ x ∉ liveObjects r
  size_le : ∀ a ∈ r.live, ∃ p < maxPages, pageAddrToPage (virtToPhysLinear a.1) = p ∧
    pageGetState (r.state.buddy.pages p) = pageStateSlab ∧
    a.2 ≤ (r.state.caches (zoneOfPage p)
      (r.state.slabs (r.state.buddy.pages p).privateData).parentCache.2).objectSize
  free : ∀ a ∈ r.live, ∃ s, slabFree a.1 r.state = .ok s

/-- **Representation invariant of the slab caches**, in every run of `slab_alloc` and `slab_free` in
which page allocations succeed. -/
theorem slab_representation {n : ℕ} {t : BuddyState} (ht : BootTable n t) {r : KRun}
    (hr : ((slabSystem n t).restrict PagesSucceed).Reachable r) : SlabCachesRep r := by
  have hinv : r.SlabInv := by
    apply hr.invariant
    · intro r₀ hr₀
      refine ⟨⟨_, _, _, _, HeapInv.of_initial ht hr₀⟩, fun a ha => ?_⟩
      rw [hr₀.1] at ha
      cases ha
    · intro r₁ call r₂ h hstep
      exact h.slabStep hstep.1 hstep.2
  obtain ⟨⟨F, S, L, κ, h⟩, hsmall⟩ := hinv
  have hmax : ∀ {p}, p < linearPages → p < maxPages := fun hp => by
    unfold linearPages at hp
    unfold maxPages
    omega
  refine ⟨fun p hp hstate => ?_, fun z c hc fill slab hslab => ?_, fun size zone hcond => ?_,
    fun a ha => ?_, fun a ha => ?_⟩
  · have hpS := h.slabState p hp hstate
    obtain ⟨free, hslab⟩ := h.inv.pages p hpS
    exact ⟨classOf r.state p, h.inv.parentCache_eq hpS, hslab.class_lt, h.slabRep hp hstate⟩
  · obtain ⟨⟨p, hp, rfl⟩, -⟩ := (h.inv.lists z c hc fill slab).mp hslab
    obtain ⟨free, hpage⟩ := h.inv.pages p hp
    exact ⟨p, hmax hpage.linear, hpage.state, rfl⟩
  · obtain ⟨hsize, hz, hpages⟩ := hcond
    obtain ⟨x, s', F', S', L', κ', hrun, hne, hfresh, hnew, -⟩ :=
      h.slabAlloc_spec hsize hz hpages
    refine ⟨x, s', hrun, hne, ?_⟩
    rintro (⟨a, ha, heq⟩ | ⟨q, hq, hstate, hext, rfl⟩)
    · exact hnew a ha heq
    · exact hfresh (h.externalHeader_mem hq hstate hext)
  · obtain ⟨-, p, hp, hobj, hcls⟩ := h.small a ha (hsmall a ha)
    obtain ⟨free, hslab⟩ := h.inv.pages p hp
    refine ⟨p, hmax hslab.linear, page_of_object hslab.linear hslab.class_lt hobj, hslab.state, ?_⟩
    rw [show (r.state.caches _ (r.state.slabs (r.state.buddy.pages p).privateData).parentCache.2
      ).objectSize = objSize (classOf r.state p) from (h.inv.caches _ _ hslab.class_lt).1]
    exact size_le_objSize (hsmall a ha) hcls
  · obtain ⟨s', κ', hrun, -⟩ := h.slabFree_spec ha (hsmall a ha)
    exact ⟨s', hrun⟩

theorem slab_representation_dmaTable : ∃ r,
    ((slabSystem 4 (dmaTable 3)).restrict PagesSucceed).Reachable r ∧
    r.live = [(0xC0002040, 20), (0xC0001000, 1024)] ∧ SlabCachesRep r := by
  have hrun : (runCalls PagesSucceed slabStep 4 (dmaTable 3)
      [.slabAlloc 1024 .dma, .slabAlloc 20 .dma]).map (·.live) =
      some [(0xC0002040, 20), (0xC0001000, 1024)] := by decide +kernel
  obtain ⟨r, hr, hlive⟩ := Option.map_eq_some_iff.mp hrun
  have hreach := runCalls_reachable hr
  exact ⟨r, hreach, hlive,
    slab_representation (pageDescriptorInit_bootTable (by decide) (by decide)) hreach⟩

end Kfs.Memory
