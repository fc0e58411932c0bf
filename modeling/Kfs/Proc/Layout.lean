import Kfs.Proc.Userspace

/-!
# The layout of a user address space

`userspace_create_new` checks where the text and the data start and nothing else. The stack, the
trampoline and the end of the heap are fixed. So whether the ranges are disjoint and stay below the
kernel is a matter of the sums of the addresses and sizes that the caller chose.
-/

namespace Kfs.Userspace

open Kfs.Lib Kfs.Lib.Word32 Kfs.Memory Kfs.Proc

/-! ## Sound layouts -/

/-- The addresses of the pages of a section. -/
def Section.range (sec : Section) : ℕ × ℕ :=
  (alignDown32 sec.vAddr 12, alignDown32 sec.vAddr 12 + sec.mappingSize)

/-- The range that `vma_init_area` gets. -/
def UserTask.heapRange (task : UserTask) : ℕ × ℕ :=
  (task.heapSec.vAddr, sub32 task.stackSec.vAddr pageSize)

/-- The sections that are mapped. -/
def UserTask.mapped (task : UserTask) : List Section :=
  if task.dataSec.dataSize = 0 then [task.textSec, task.stackSec, task.sigTrampoline]
  else [task.textSec, task.dataSec, task.stackSec, task.sigTrampoline]

/-- The ranges of an address space. -/
def UserTask.ranges (task : UserTask) : List (ℕ × ℕ) :=
  task.heapRange :: task.mapped.map Section.range

/-- The layout is sound. -/
structure UserTask.LayoutSound (task : UserTask) : Prop where
  nonempty : ∀ r ∈ task.ranges, r.1 < r.2
  below : ∀ r ∈ task.ranges, r.2 ≤ kernelStart
  disjoint : task.ranges.Pairwise fun r r' => r.2 ≤ r'.1 ∨ r'.2 ≤ r.1
  /-- Every page is mapped through a slot of the user half. -/
  userHalf : ∀ sec ∈ task.mapped, ∀ i < sec.mappingSize / pageSize,
    getPdeIndex (add32 sec.vAddr (i * pageSize)) < userPdes

/-! ## When the layout is sound -/

def userHeapEnd : ℕ := 0xBFFFB000 -- task->stack_sec->v_addr - PAGE_SIZE
def userStackBottom : ℕ := 0xBFFFC000 -- stack->v_addr

/-- The fields are machine words. -/
structure Section.IsWord (sec : Section) : Prop where
  vAddr : sec.vAddr < 2 ^ 32
  dataSize : sec.dataSize < 2 ^ 32

/-- Where the text goes. -/
def textBase (text : Section) : ℕ :=
  if text.vAddr = 0 then userTextStart else text.vAddr / 4096 * 4096

/-- The start of the heap behind data at an address of its own. -/
def heapBehind (data : Section) : ℕ :=
  (data.vAddr + 4095) / 4096 * 4096 + alignUp32 data.dataSize 12 + pageSize

/-- The text lies before the data, in the gap between data and heap, or in one of the two pages that
are left free around the stack. -/
def TextBesideData (text data : Section) : Prop :=
  let start := textBase text
  let stop := textBase text + alignUp32 text.dataSize 12
  let dataStart := data.vAddr / 4096 * 4096
  stop ≤ dataStart ∨
    (dataStart + alignUp32 data.dataSize 12 ≤ start ∧ stop ≤ heapBehind data) ∨
    (userHeapEnd ≤ start ∧ stop ≤ userStackBottom) ∨
    (userStackStart ≤ start ∧ stop ≤ userTrampolineVaddr)

/-- What text and data must meet: no size is rounded up to 0, what follows the last section leaves a
guard page and at least one page for the heap, and the text does not overlap. -/
def LayoutFits (text data : Section) : Prop :=
  0 < alignUp32 text.dataSize 12 ∧
  if data.dataSize = 0 then
    textBase text + alignUp32 text.dataSize 12 + pageSize < userHeapEnd
  else
    0 < alignUp32 data.dataSize 12 ∧
    if data.vAddr = 0 then
      textBase text + alignUp32 text.dataSize 12 + alignUp32 data.dataSize 12 + pageSize <
        userHeapEnd
    else heapBehind data < userHeapEnd ∧ TextBesideData text data

/-- The trampoline as `task_get_new` sets it up. -/
def IsTrampoline (image : KernelImage) (sec : Section) : Prop :=
  ∃ pAddr, sectionInitFromBuffer userTrampolineVaddr image.sigTrampolineStart
    (image.sigTrampolineEnd - image.sigTrampolineStart) userSectionRo = some { sec with pAddr := pAddr }

/-! ## Machine arithmetic -/

theorem add32_mod (a b : ℕ) : add32 a b = (a + b) % 4294967296 := by
  unfold add32
  rfl

theorem alignUp32_mod (x : ℕ) : alignUp32 x 12 = (x + 4095) % 4294967296 / 4096 * 4096 := by
  unfold alignUp32
  rw [and_highMask (add32_lt _ _) (by decide), add32_mod]
  norm_num

theorem alignDown32_page {x : ℕ} (hx : x < 4294967296) :
    alignDown32 x 12 = x / 4096 * 4096 :=
  alignDown32_eq hx (by decide)

/-! ## The ranges decide -/

/-- Two ranges do not meet. -/
def Apart (r r' : ℕ × ℕ) : Prop := r.2 ≤ r'.1 ∨ r'.2 ≤ r.1

/-- A page of a section whose range ends below the kernel is mapped in the user half. -/
theorem getPdeIndex_lt {sec : Section} (hword : sec.vAddr < 4294967296)
    (hbelow : sec.range.2 ≤ kernelStart) {i : ℕ} (hi : i < sec.mappingSize / pageSize) :
    getPdeIndex (add32 sec.vAddr (i * pageSize)) < userPdes := by
  unfold Section.range kernelStart kernelVaddrBase at hbelow
  rw [alignDown32_page hword] at hbelow
  unfold pageSize at hi ⊢
  have hfit : sec.vAddr + i * 4096 < 3221225472 := by omega
  rw [add32_eq (by omega)]
  unfold getPdeIndex userPdes
  rw [Nat.shiftRight_eq_div_pow]
  omega

/-- The user half follows from the ranges. -/
theorem layoutSound_iff {task : UserTask} (hwords : ∀ sec ∈ task.mapped, sec.vAddr < 4294967296) :
    task.LayoutSound ↔ (∀ r ∈ task.ranges, r.1 < r.2) ∧ (∀ r ∈ task.ranges, r.2 ≤ kernelStart) ∧
      task.ranges.Pairwise Apart := by
  constructor
  · intro h
    exact ⟨h.nonempty, h.below, h.disjoint⟩
  · rintro ⟨hne, hbelow, hdis⟩
    refine ⟨hne, hbelow, hdis, fun sec hsec i hi => ?_⟩
    apply getPdeIndex_lt (hwords sec hsec) _ hi
    exact hbelow _ (List.mem_cons_of_mem _ (List.mem_map_of_mem hsec))

/-- The four ranges of a task without data, by their addresses. -/
theorem ranges_text {text heap stack trampoline : ℕ × ℕ} :
    ((∀ r ∈ [heap, text, stack, trampoline], r.1 < r.2) ∧
        (∀ r ∈ [heap, text, stack, trampoline], r.2 ≤ kernelStart) ∧
        [heap, text, stack, trampoline].Pairwise Apart) ↔
      (heap.1 < heap.2 ∧ text.1 < text.2 ∧ stack.1 < stack.2 ∧ trampoline.1 < trampoline.2) ∧
      (heap.2 ≤ kernelStart ∧ text.2 ≤ kernelStart ∧ stack.2 ≤ kernelStart ∧
        trampoline.2 ≤ kernelStart) ∧
      (Apart heap text ∧ Apart heap stack ∧ Apart heap trampoline) ∧
      (Apart text stack ∧ Apart text trampoline) ∧ Apart stack trampoline := by
  simp [List.pairwise_cons]

/-- The five ranges of a task with data. -/
theorem ranges_data {text data heap stack trampoline : ℕ × ℕ} :
    ((∀ r ∈ [heap, text, data, stack, trampoline], r.1 < r.2) ∧
        (∀ r ∈ [heap, text, data, stack, trampoline], r.2 ≤ kernelStart) ∧
        [heap, text, data, stack, trampoline].Pairwise Apart) ↔
      (heap.1 < heap.2 ∧ text.1 < text.2 ∧ data.1 < data.2 ∧ stack.1 < stack.2 ∧
        trampoline.1 < trampoline.2) ∧
      (heap.2 ≤ kernelStart ∧ text.2 ≤ kernelStart ∧ data.2 ≤ kernelStart ∧
        stack.2 ≤ kernelStart ∧ trampoline.2 ≤ kernelStart) ∧
      (Apart heap text ∧ Apart heap data ∧ Apart heap stack ∧ Apart heap trampoline) ∧
      (Apart text data ∧ Apart text stack ∧ Apart text trampoline) ∧
      (Apart data stack ∧ Apart data trampoline) ∧ Apart stack trampoline := by
  simp [List.pairwise_cons]

/-! ## What the code lays out -/

theorem layoutText_some {text text' : Section} (hw : text.IsWord) (h : layoutText text = some text') :
    text'.vAddr = textBase text ∧ text'.mappingSize = alignUp32 text.dataSize 12 ∧
      textBase text < kernelStart ∧ 4096 ∣ textBase text := by
  unfold layoutText at h
  split at h
  · cases h
  · next hcond =>
    obtain rfl := Option.some.inj h
    rw [not_or, not_le] at hcond
    by_cases h0 : text.vAddr = 0
    · have hbase : textBase text = userTextStart := if_pos h0
      rw [hbase]
      exact ⟨if_pos h0, rfl, by decide, by decide⟩
    · have hbase : textBase text = text.vAddr / 4096 * 4096 := if_neg h0
      rw [hbase]
      have hlt : text.vAddr / 4096 * 4096 < kernelStart :=
        Nat.lt_of_le_of_lt (Nat.div_mul_le_self _ _) hcond.2
      refine ⟨?_, rfl, hlt, Nat.dvd_mul_left _ _⟩
      simp only [h0, if_false]
      split
      · next hdvd => exact (Nat.div_mul_cancel hdvd).symm
      · exact alignDown32_page hw.vAddr

theorem initStackSection_vAddr : initStackSection.vAddr = userStackBottom := by decide +kernel

theorem initStackSection_mappingSize : initStackSection.mappingSize = 8192 := by decide +kernel

/-- A trampoline is one page. -/
theorem IsTrampoline.section {image : KernelImage} {sec : Section} (h : IsTrampoline image sec) :
    sec.vAddr = userTrampolineVaddr ∧ sec.mappingSize = pageSize := by
  obtain ⟨pAddr, h⟩ := h
  unfold sectionInitFromBuffer at h
  split at h
  · cases h
  · next hcond =>
    have hsec := Option.some.inj h
    have hsize := image.trampoline_size
    have hv := congrArg Section.vAddr hsec
    have hm := congrArg Section.mappingSize hsec
    simp only at hv hm
    refine ⟨hv.symm, ?_⟩
    rw [← hm, alignUp32_mod]
    unfold pageSize at hsize ⊢
    omega

/-- The start of the heap behind a section. -/
theorem initHeapSection_vAddr (prev : Section) : (initHeapSection prev).vAddr =
    ((prev.vAddr + (prev.mappingSize + 4096) % 4294967296) % 4294967296 + 4095) % 4294967296 /
      4096 * 4096 := by
  show alignUp32 (add32 prev.vAddr (add32 prev.mappingSize pageSize)) 12 = _
  rw [alignUp32_mod, add32_mod, add32_mod]
  rfl

theorem alignUp32_spec (x : ℕ) : alignUp32 x 12 < 4294967296 ∧ 4096 ∣ alignUp32 x 12 := by
  rw [alignUp32_mod]
  omega

/-! ### The ranges at the top of the user half -/

theorem stackSec_range {l : UserTask}
    (hstack : l.stackSec.vAddr = userStackBottom ∧ l.stackSec.mappingSize = 8192) :
    l.stackSec.range = (userStackBottom, userStackStart) := by
  unfold Section.range
  rw [hstack.1, hstack.2, alignDown32_page (by decide)]
  rfl

theorem sigTrampoline_range {l : UserTask} (htramp : l.sigTrampoline.vAddr = userTrampolineVaddr ∧
    l.sigTrampoline.mappingSize = pageSize) :
    l.sigTrampoline.range = (userTrampolineVaddr, kernelStart) := by
  unfold Section.range
  rw [htramp.1, htramp.2, alignDown32_page (by decide)]
  rfl

/-- The heap begins behind the section `prev` and ends below the stack. -/
theorem heapRange_eq {l : UserTask} {prev : Section} (hheap : l.heapSec = initHeapSection prev)
    (hstack : l.stackSec.vAddr = userStackBottom ∧ l.stackSec.mappingSize = 8192) :
    l.heapRange = ((initHeapSection prev).vAddr, userHeapEnd) := by
  unfold UserTask.heapRange
  rw [hheap, hstack.1, sub32_eq (by decide) (by decide)]
  rfl

theorem top_nonempty : userStackBottom < userStackStart ∧ userTrampolineVaddr < kernelStart := by
  decide

theorem top_below : userHeapEnd ≤ kernelStart ∧ userStackStart ≤ kernelStart := by decide

theorem top_apart (h : ℕ) : Apart (h, userHeapEnd) (userStackBottom, userStackStart) ∧
    Apart (h, userHeapEnd) (userTrampolineVaddr, kernelStart) ∧
    Apart (userStackBottom, userStackStart) (userTrampolineVaddr, kernelStart) :=
  ⟨Or.inl (show userHeapEnd ≤ userStackBottom by decide),
    Or.inl (show userHeapEnd ≤ userTrampolineVaddr by decide),
    Or.inl (show userStackStart ≤ userTrampolineVaddr by decide)⟩

/-! ### The other ranges -/

/-- The start of the heap where nothing wraps. -/
theorem initHeapSection_vAddr_eq {prev : Section} (hdvd : 4096 ∣ prev.mappingSize)
    (hfit : prev.vAddr / 4096 * 4096 + prev.mappingSize ≤ kernelStart) :
    (initHeapSection prev).vAddr =
      (prev.vAddr + 4095) / 4096 * 4096 + prev.mappingSize + pageSize := by
  rw [initHeapSection_vAddr]
  unfold kernelStart kernelVaddrBase at hfit
  unfold pageSize
  omega

/-- The start of the data behind the text where nothing wraps. -/
theorem getNextSectionStart_eq {t m : ℕ} (ht : 4096 ∣ t) (hm : 4096 ∣ m)
    (hfit : t + m ≤ kernelStart) : getNextSectionStart t m = t + m := by
  unfold getNextSectionStart
  rw [alignUp32_mod, add32_mod]
  unfold kernelStart kernelVaddrBase at hfit
  omega

/-- A task without data. -/
theorem layoutSound_text {l : UserTask} {t m : ℕ} (hlow : t < kernelStart) (ht : 4096 ∣ t)
    (hm : m < 4294967296 ∧ 4096 ∣ m) (hdata : l.dataSec.dataSize = 0)
    (htext : l.textSec.vAddr = t ∧ l.textSec.mappingSize = m)
    (hheap : l.heapSec = initHeapSection l.textSec)
    (hstack : l.stackSec.vAddr = userStackBottom ∧ l.stackSec.mappingSize = 8192)
    (htramp : l.sigTrampoline.vAddr = userTrampolineVaddr ∧
      l.sigTrampoline.mappingSize = pageSize) :
    l.LayoutSound ↔ 0 < m ∧ t + m + pageSize < userHeapEnd := by
  obtain ⟨hword, hdvd⟩ := hm
  have hlow : t < 3221225472 := hlow
  have hwords : ∀ sec ∈ l.mapped, sec.vAddr < 4294967296 := by
    unfold UserTask.mapped
    rw [if_pos hdata]
    simp only [List.mem_cons, List.not_mem_nil, or_false, forall_eq_or_imp, forall_eq, htext.1,
      hstack.1, htramp.1]
    exact ⟨by omega, by decide, by decide⟩
  have hranges : l.ranges = [l.heapRange, l.textSec.range, l.stackSec.range,
      l.sigTrampoline.range] := by
    unfold UserTask.ranges UserTask.mapped
    rw [if_pos hdata]
    rfl
  have hrange : l.textSec.range = (t, t + m) := by
    unfold Section.range
    rw [htext.1, htext.2, alignDown32_page (by omega), Nat.div_mul_cancel ht]
  obtain ⟨hstackApart, htrampApart, htopApart⟩ := top_apart (initHeapSection l.textSec).vAddr
  rw [layoutSound_iff hwords, hranges, heapRange_eq hheap hstack, hrange, stackSec_range hstack,
    sigTrampoline_range htramp, ranges_text]
  simp only [top_nonempty, top_below, hstackApart, htrampApart, htopApart, and_true, true_and,
    le_refl, lt_add_iff_pos_right]
  by_cases hfit : t + m ≤ kernelStart
  · -- nothing wraps
    have hstart : (initHeapSection l.textSec).vAddr = t + m + pageSize := by
      rw [initHeapSection_vAddr_eq (htext.2 ▸ hdvd) (by rwa [htext.1, htext.2, Nat.div_mul_cancel ht]),
        htext.1, htext.2]
      omega
    rw [hstart]
    unfold Apart userHeapEnd userStackBottom userStackStart userTrampolineVaddr kernelStart
      kernelVaddrBase pageSize
    dsimp only
    constructor
    · rintro ⟨⟨hheapFits, hpos⟩, -⟩
      exact ⟨hpos, hheapFits⟩
    · rintro ⟨hpos, hheapFits⟩
      exact ⟨⟨hheapFits, hpos⟩, by omega, by omega, by omega, by omega⟩
  · refine iff_of_false (fun hsound => hfit hsound.2.1) fun hfits => hfit ?_
    have hend := hfits.2
    unfold userHeapEnd pageSize at hend
    unfold kernelStart kernelVaddrBase
    omega

/-- Heap from `h`, text of `m` bytes from `t` and data of `n` bytes from the page `lo` on do not meet
and leave the stack and the trampoline alone. -/
def RangesFit (h t m lo n : ℕ) : Prop :=
  (h < userHeapEnd ∧ 0 < m ∧ 0 < n) ∧
    (t + m ≤ kernelStart ∧ lo + n ≤ kernelStart) ∧
    (Apart (h, userHeapEnd) (t, t + m) ∧ Apart (h, userHeapEnd) (lo, lo + n)) ∧
    (Apart (t, t + m) (lo, lo + n) ∧ Apart (t, t + m) (userStackBottom, userStackStart) ∧
      Apart (t, t + m) (userTrampolineVaddr, kernelStart)) ∧
    Apart (lo, lo + n) (userStackBottom, userStackStart) ∧
    Apart (lo, lo + n) (userTrampolineVaddr, kernelStart)

/-- The ranges of a task with data, by their addresses. -/
theorem layoutSound_data {l : UserTask} {t m d n h lo : ℕ} (hlow : t < kernelStart) (ht : 4096 ∣ t)
    (hd : d < 4294967296) (hdata : l.dataSec.dataSize ≠ 0)
    (htext : l.textSec.vAddr = t ∧ l.textSec.mappingSize = m)
    (hplace : l.dataSec.vAddr = d ∧ l.dataSec.mappingSize = n)
    (hheap : l.heapSec = initHeapSection l.dataSec)
    (hstack : l.stackSec.vAddr = userStackBottom ∧ l.stackSec.mappingSize = 8192)
    (htramp : l.sigTrampoline.vAddr = userTrampolineVaddr ∧
      l.sigTrampoline.mappingSize = pageSize) (hh : (initHeapSection l.dataSec).vAddr = h)
    (hlo : d / 4096 * 4096 = lo) : l.LayoutSound ↔ RangesFit h t m lo n := by
  have hlow : t < 3221225472 := hlow
  have hwords : ∀ sec ∈ l.mapped, sec.vAddr < 4294967296 := by
    unfold UserTask.mapped
    rw [if_neg hdata]
    simp only [List.mem_cons, List.not_mem_nil, or_false, forall_eq_or_imp, forall_eq, htext.1,
      hplace.1, hstack.1, htramp.1]
    exact ⟨by omega, hd, by decide, by decide⟩
  have hranges : l.ranges = [l.heapRange, l.textSec.range, l.dataSec.range, l.stackSec.range,
      l.sigTrampoline.range] := by
    unfold UserTask.ranges UserTask.mapped
    rw [if_neg hdata]
    rfl
  have hrange : l.textSec.range = (t, t + m) := by
    unfold Section.range
    rw [htext.1, htext.2, alignDown32_page (by omega), Nat.div_mul_cancel ht]
  have hrange' : l.dataSec.range = (lo, lo + n) := by
    unfold Section.range
    rw [hplace.1, hplace.2, alignDown32_page hd, hlo]
  obtain ⟨hstackApart, htrampApart, htopApart⟩ := top_apart h
  rw [layoutSound_iff hwords, hranges, heapRange_eq hheap hstack, hh, hrange, hrange',
    stackSec_range hstack, sigTrampoline_range htramp, ranges_data]
  simp only [RangesFit, top_nonempty, top_below, hstackApart, htrampApart, htopApart, and_true,
    true_and, le_refl, lt_add_iff_pos_right]

/-- Data behind the text and the heap behind the data. -/
theorem rangesFit_behind {t m n : ℕ} :
    RangesFit (t + m + n + pageSize) t m (t + m) n ↔
      0 < m ∧ 0 < n ∧ t + m + n + pageSize < userHeapEnd := by
  unfold RangesFit Apart userStackStart userTrampolineVaddr kernelStart kernelVaddrBase
  constructor
  · rintro ⟨⟨hheap, hm, hn⟩, -⟩
    exact ⟨hm, hn, hheap⟩
  · rintro ⟨hm, hn, hheap⟩
    unfold userHeapEnd userStackBottom pageSize at *
    exact ⟨⟨hheap, hm, hn⟩, by omega, by omega, by omega, by omega, by omega⟩

/-- Data at an address of its own, from the page `lo` on, and the heap behind it. -/
theorem rangesFit_beside {h t m lo u n : ℕ} (hlo : lo ≤ u) (hh : h = u + n + pageSize) :
    RangesFit h t m lo n ↔ 0 < m ∧ 0 < n ∧ h < userHeapEnd ∧
      (t + m ≤ lo ∨ (lo + n ≤ t ∧ t + m ≤ h) ∨
        (userHeapEnd ≤ t ∧ t + m ≤ userStackBottom) ∨
        (userStackStart ≤ t ∧ t + m ≤ userTrampolineVaddr)) := by
  unfold RangesFit Apart userStackStart userTrampolineVaddr kernelStart kernelVaddrBase
  dsimp only
  constructor
  · rintro ⟨⟨hheap, hm, hn⟩, ⟨hbelow, -⟩, ⟨htextHeap, -⟩, ⟨htextData, htextStack, htextTramp⟩, -⟩
    refine ⟨hm, hn, hheap, ?_⟩
    -- Before the data, before the heap, before the stack or before the trampoline.
    rcases htextData with hbefore | hbehind
    · exact Or.inl hbefore
    refine Or.inr ?_
    rcases htextHeap with habove | hbefore
    · refine Or.inr ?_
      rcases htextStack with hbefore | hstack
      · exact Or.inl ⟨habove, hbefore⟩
      · rcases htextTramp with hbefore | htop
        · exact Or.inr ⟨hstack, hbefore⟩
        · omega
    · exact Or.inl ⟨hbehind, hbefore⟩
  · rintro ⟨hm, hn, hheap, hplace⟩
    unfold userHeapEnd userStackBottom pageSize at *
    refine ⟨⟨hheap, hm, hn⟩, ⟨?_, by omega⟩, ⟨?_, by omega⟩, ⟨?_, ?_, ?_⟩, by omega, by omega⟩
    · rcases hplace with h | h | h | h <;> omega
    · rcases hplace with h | h | h | h <;> omega
    · rcases hplace with h | h | h | h <;> omega
    · rcases hplace with h | h | h | h <;> omega
    · rcases hplace with h | h | h | h <;> omega

/-- A section behind the text: the code rounds and wraps, which makes no difference where it fits. -/
theorem rangesFit_next {sec : Section} {t m n : ℕ} (ht : 4096 ∣ t) (hm : 4096 ∣ m) (hn : 4096 ∣ n)
    (hplace : sec.vAddr = getNextSectionStart t m ∧ sec.mappingSize = n) :
    RangesFit (initHeapSection sec).vAddr t m (getNextSectionStart t m / 4096 * 4096) n ↔
      0 < m ∧ 0 < n ∧ t + m + n + pageSize < userHeapEnd := by
  have hdvd : 4096 ∣ t + m := dvd_add ht hm
  by_cases hfit : t + m + n ≤ kernelStart
  · have hnext := getNextSectionStart_eq ht hm (le_trans (Nat.le_add_right _ _) hfit)
    have hstart : (initHeapSection sec).vAddr = t + m + n + pageSize := by
      rw [initHeapSection_vAddr_eq (hplace.2 ▸ hn)
        (by rwa [hplace.1, hplace.2, hnext, Nat.div_mul_cancel hdvd]), hplace.1, hplace.2, hnext]
      omega
    rw [hstart, hnext, Nat.div_mul_cancel hdvd]
    exact rangesFit_behind
  · refine iff_of_false (fun hsound => ?_) fun hfits => hfit ?_
    · obtain ⟨-, ⟨htext, hdata⟩, -⟩ := hsound
      rw [getNextSectionStart_eq ht hm htext, Nat.div_mul_cancel hdvd] at hdata
      exact hfit hdata
    · exact (Nat.le_add_right _ pageSize).trans (hfits.2.2.le.trans top_below.1)

/-- Data at its own address. -/
theorem rangesFit_own {sec text data : Section}
    (hplace : sec.vAddr = data.vAddr ∧ sec.mappingSize = alignUp32 data.dataSize 12) :
    RangesFit (initHeapSection sec).vAddr (textBase text) (alignUp32 text.dataSize 12)
        (data.vAddr / 4096 * 4096) (alignUp32 data.dataSize 12) ↔
      0 < alignUp32 text.dataSize 12 ∧ 0 < alignUp32 data.dataSize 12 ∧
        heapBehind data < userHeapEnd ∧ TextBesideData text data := by
  have hn := (alignUp32_spec data.dataSize).2
  have hup : data.vAddr / 4096 * 4096 ≤ (data.vAddr + 4095) / 4096 * 4096 := by omega
  by_cases hfit : data.vAddr / 4096 * 4096 + alignUp32 data.dataSize 12 ≤ kernelStart
  · have hstart : (initHeapSection sec).vAddr = heapBehind data := by
      rw [initHeapSection_vAddr_eq (hplace.2 ▸ hn) (by rwa [hplace.1, hplace.2]), hplace.1,
        hplace.2]
      rfl
    rw [hstart]
    exact rangesFit_beside hup rfl
  · refine iff_of_false (fun hsound => hfit hsound.2.1.2) fun hfits => hfit ?_
    have hbehind : data.vAddr / 4096 * 4096 + alignUp32 data.dataSize 12 ≤ heapBehind data :=
      (Nat.add_le_add_right hup _).trans (Nat.le_add_right _ _)
    exact hbehind.trans (hfits.2.2.1.le.trans top_below.1)

/-- Every section that is mapped starts at a machine word. -/
theorem layoutSections_words {image : KernelImage} {task l : UserTask}
    (htext : task.textSec.IsWord) (hdata : task.dataSec.IsWord)
    (htramp : IsTrampoline image task.sigTrampoline) (h : layoutSections task = some l) :
    ∀ sec ∈ l.mapped, sec.vAddr < 4294967296 := by
  obtain ⟨text, ht, h⟩ := Option.bind_eq_some_iff.mp h
  obtain ⟨data, hd, h⟩ := Option.bind_eq_some_iff.mp h
  obtain rfl := Option.some.inj h
  obtain ⟨htv, -, hlow, -⟩ := layoutText_some htext ht
  unfold kernelStart kernelVaddrBase at hlow
  have hstack : initStackSection.vAddr < 4294967296 := by
    rw [initStackSection_vAddr]
    decide
  have htv : text.vAddr < 4294967296 := by omega
  have hdv : data.vAddr < 4294967296 := by
    unfold layoutData at hd
    split at hd
    · rw [← Option.some.inj hd]
      exact hdata.vAddr
    · split at hd
      · rw [← Option.some.inj hd]
        exact (alignUp32_spec _).1
      · split at hd
        · cases hd
        · rw [← Option.some.inj hd]
          exact hdata.vAddr
  have htrv : task.sigTrampoline.vAddr < 4294967296 := by
    rw [htramp.section.1]
    decide
  by_cases h0 : data.dataSize = 0
  · simp [UserTask.mapped, h0, htv, hstack, htrv]
  · simp [UserTask.mapped, h0, htv, hdv, hstack, htrv]

/-- **The layout** that the code makes is sound exactly if text and data fit. -/
theorem layoutSections_sound_iff {image : KernelImage} {task l : UserTask}
    (htext : task.textSec.IsWord) (hdata : task.dataSec.IsWord)
    (htramp : IsTrampoline image task.sigTrampoline) (h : layoutSections task = some l) :
    l.LayoutSound ↔ LayoutFits task.textSec task.dataSec := by
  have h : ((layoutText task.textSec).bind fun text => (layoutData text task.dataSec).bind fun data =>
      some { task with
        textSec := text
        dataSec := data
        heapSec := initHeapSection (if 0 < data.dataSize then data else text)
        stackSec := initStackSection }) = some l := h
  -- The sections as the code has laid them out, one by one.
  obtain ⟨text, ht, h⟩ := Option.bind_eq_some_iff.mp h
  obtain ⟨data, hd, h⟩ := Option.bind_eq_some_iff.mp h
  have hl := Option.some.inj h
  have hltext : l.textSec = text := by rw [← hl]
  have hldata : l.dataSec = data := by rw [← hl]
  have hlheap : l.heapSec = initHeapSection (if 0 < data.dataSize then data else text) := by
    rw [← hl]
  have hlstack : l.stackSec = initStackSection := by rw [← hl]
  have hltramp : l.sigTrampoline = task.sigTrampoline := by rw [← hl]
  obtain ⟨htv, htm, hlow, hal⟩ := layoutText_some htext ht
  have htextl : l.textSec.vAddr = textBase task.textSec ∧
      l.textSec.mappingSize = alignUp32 task.textSec.dataSize 12 := by
    rw [hltext]
    exact ⟨htv, htm⟩
  have hstackl : l.stackSec.vAddr = userStackBottom ∧ l.stackSec.mappingSize = 8192 := by
    rw [hlstack]
    exact ⟨initStackSection_vAddr, initStackSection_mappingSize⟩
  have htrampl := htramp.section
  rw [← hltramp] at htrampl
  have hm := alignUp32_spec task.textSec.dataSize
  have hn := alignUp32_spec task.dataSec.dataSize
  unfold LayoutFits
  -- The heap follows the last section that is not empty.
  by_cases h0 : task.dataSec.dataSize = 0
  · -- Only a text.
    unfold layoutData at hd
    rw [if_pos h0] at hd
    obtain rfl := Option.some.inj hd
    rw [if_neg (by omega), ← hltext] at hlheap
    rw [if_pos h0]
    exact layoutSound_text hlow hal hm (hldata ▸ h0) htextl hlheap hstackl htrampl
  · rw [if_neg h0]
    unfold layoutData at hd
    rw [if_neg h0] at hd
    by_cases hv : task.dataSec.vAddr = 0
    · -- the data follows the text
      rw [if_pos hv] at hd
      obtain rfl := Option.some.inj hd
      have hplace : l.dataSec.vAddr =
            getNextSectionStart (textBase task.textSec) (alignUp32 task.textSec.dataSize 12) ∧
          l.dataSec.mappingSize = alignUp32 task.dataSec.dataSize 12 := by
        rw [hldata, ← htv, ← htm]
        exact ⟨rfl, rfl⟩
      rw [if_pos (Nat.pos_of_ne_zero h0), ← hldata] at hlheap
      have hsize : l.dataSec.dataSize ≠ 0 := by
        rw [hldata]
        exact h0
      rw [if_pos hv, layoutSound_data hlow hal (alignUp32_spec _).1 hsize htextl hplace hlheap hstackl
        htrampl rfl rfl]
      exact rangesFit_next hal hm.2 hn.2 hplace
    · -- The data has an address of its own, and may lie on either side of the text.
      rw [if_neg hv] at hd
      split at hd
      · cases hd
      · next hbelow =>
        obtain rfl := Option.some.inj hd
        have hplace : l.dataSec.vAddr = task.dataSec.vAddr ∧
            l.dataSec.mappingSize = alignUp32 task.dataSec.dataSize 12 := by
          rw [hldata]
          exact ⟨rfl, rfl⟩
        rw [if_pos (Nat.pos_of_ne_zero h0), ← hldata] at hlheap
        have hsize : l.dataSec.dataSize ≠ 0 := by
          rw [hldata]
          exact h0
        rw [if_neg hv, layoutSound_data hlow hal hdata.vAddr hsize htextl hplace hlheap hstackl
          htrampl rfl rfl]
        exact rangesFit_own hplace

/-! ## What is mapped -/

section Create

variable {σ : Type} {K : KernelAlloc σ} {image : KernelImage} {kernelDir cur pd : ℕ}
  {s s' : Phys σ}

/-- `map_section` writes the address of the frames and nothing else of a section. -/
theorem mapSection_section {sec sec' : Section} {ok : Bool}
    (h : mapSection K image cur pd sec s = .ok (ok, sec', s')) :
    ∃ p, sec' = { sec with pAddr := p } := by
  have hsame : ∃ p, sec = { sec with pAddr := p } := ⟨sec.pAddr, rfl⟩
  unfold mapSection at h
  split at h
  · obtain ⟨-, rfl, -⟩ := by simpa using Except.ok.inj h
    exact hsame
  · rw [bind_eq_ok] at h
    obtain ⟨⟨pool, s₁⟩, -, h⟩ := h
    dsimp only at h
    split at h
    · obtain ⟨-, rfl, -⟩ := by simpa using Except.ok.inj h
      exact hsame
    · -- with and without a stream the code goes on in the same way
      split at h
      all_goals
        rw [bind_eq_ok] at h
        obtain ⟨⟨stream, s₂⟩, -, h⟩ := h
        dsimp only at h
        split at h
        · rw [bind_eq_ok] at h
          obtain ⟨s₃, -, h⟩ := h
          obtain ⟨-, rfl, -⟩ := by simpa using Except.ok.inj h
          exact hsame
        · rw [bind_eq_ok] at h
          obtain ⟨⟨ok₁, l⟩, -, h⟩ := h
          dsimp only at h
          split at h
          · rw [bind_eq_ok] at h
            obtain ⟨s₃, -, h⟩ := h
            rw [bind_eq_ok] at h
            obtain ⟨s₄, -, h⟩ := h
            obtain ⟨-, rfl, -⟩ := by simpa using Except.ok.inj h
            exact ⟨pool, rfl⟩
          · rw [bind_eq_ok] at h
            obtain ⟨s₃, -, h⟩ := h
            obtain ⟨-, rfl, -⟩ := by simpa using Except.ok.inj h
            exact hsame

/-- The sections keep their places when they are mapped. -/
def SamePlaces (task task' : UserTask) : Prop :=
  ∃ text data stack trampoline cr3, task' = { task with
    textSec := { task.textSec with pAddr := text }
    dataSec := { task.dataSec with pAddr := data }
    stackSec := { task.stackSec with pAddr := stack }
    sigTrampoline := { task.sigTrampoline with pAddr := trampoline }
    cr3 := cr3 }

theorem mapSections_places {task task' : UserTask} {ok : Bool}
    (h : mapSections K image cur pd task s = .ok (ok, task', s')) : SamePlaces task task' := by
  unfold mapSections at h
  rw [bind_eq_ok] at h
  obtain ⟨⟨ok₁, text, s₁⟩, htext, h⟩ := h
  obtain ⟨p₁, rfl⟩ := mapSection_section htext
  dsimp only at h
  split at h
  · obtain ⟨-, rfl, -⟩ := by simpa using Except.ok.inj h
    exact ⟨p₁, task.dataSec.pAddr, task.stackSec.pAddr, task.sigTrampoline.pAddr, task.cr3, rfl⟩
  · rw [bind_eq_ok] at h
    obtain ⟨⟨ok₂, stack, s₂⟩, hstack, h⟩ := h
    obtain ⟨p₂, rfl⟩ := mapSection_section hstack
    dsimp only at h
    split at h
    · obtain ⟨-, rfl, -⟩ := by simpa using Except.ok.inj h
      exact ⟨p₁, task.dataSec.pAddr, p₂, task.sigTrampoline.pAddr, task.cr3, rfl⟩
    · split at h
      all_goals
        rw [bind_eq_ok] at h
        obtain ⟨⟨ok₃, data, s₃⟩, hdata, h⟩ := h
        obtain ⟨p₃, rfl⟩ : ∃ p, data = { task.dataSec with pAddr := p } := by
          first
          | exact mapSection_section hdata
          | exact ⟨task.dataSec.pAddr, (Prod.mk.inj (Prod.mk.inj (Except.ok.inj hdata)).2).1.symm⟩
        dsimp only at h
        split at h
        · obtain ⟨-, rfl, -⟩ := by simpa using Except.ok.inj h
          exact ⟨p₁, p₃, p₂, task.sigTrampoline.pAddr, task.cr3, rfl⟩
        · rw [bind_eq_ok] at h
          obtain ⟨⟨ok₄, trampoline, s₄⟩, htramp, h⟩ := h
          obtain ⟨p₄, rfl⟩ := mapSection_section htramp
          obtain ⟨-, rfl, -⟩ := by simpa using Except.ok.inj h
          exact ⟨p₁, p₃, p₂, p₄, task.cr3, rfl⟩

/-- An accepted task has the layout that was made for it. -/
theorem userspaceCreateNew_places {task task' : UserTask}
    (h : userspaceCreateNew K image kernelDir cur task s = .ok (some task', s')) :
    ∃ l, layoutSections task = some l ∧ SamePlaces l task' := by
  unfold userspaceCreateNew at h
  split at h
  · cases (Prod.mk.inj (Except.ok.inj h)).1
  · next l hl =>
    refine ⟨l, hl, ?_⟩
    rw [bind_eq_ok] at h
    obtain ⟨⟨dir, s₁⟩, -, h⟩ := h
    dsimp only at h
    split at h
    · cases (Prod.mk.inj (Except.ok.inj h)).1
    · rw [bind_eq_ok] at h
      obtain ⟨⟨ok, s₂⟩, -, h⟩ := h
      dsimp only at h
      -- only a call that has mapped everything returns the task
      split at h
      all_goals
        rw [bind_eq_ok] at h
        obtain ⟨⟨ok₁, task₁, s₃⟩, hmap, h⟩ := h
        dsimp only at h
        split at h
        · next hok =>
          obtain ⟨htask, -⟩ := Prod.mk.inj (Except.ok.inj h)
          obtain rfl := Option.some.inj htask
          first
          | obtain ⟨text, data, stack, trampoline, cr3, rfl⟩ := mapSections_places hmap
            exact ⟨text, data, stack, trampoline, dir, rfl⟩
          | obtain ⟨rfl, -⟩ := Prod.mk.inj (Except.ok.inj hmap)
            cases hok
        · simp only [bind_eq_ok] at h
          obtain ⟨_, -, _, -, _, -, _, -, _, -, h⟩ := h
          cases (Prod.mk.inj (Except.ok.inj h)).1

/-- Sections at the same places make the same layout. -/
theorem SamePlaces.layoutSound_iff {task task' : UserTask} (h : SamePlaces task task')
    (hwords : ∀ sec ∈ task.mapped, sec.vAddr < 4294967296) :
    task'.LayoutSound ↔ task.LayoutSound := by
  obtain ⟨text, data, stack, trampoline, cr3, rfl⟩ := h
  rw [Userspace.layoutSound_iff hwords, Userspace.layoutSound_iff]
  · have hranges : ∀ {t : UserTask}, t.ranges = t.heapRange :: (if t.dataSec.dataSize = 0 then
        [t.textSec.range, t.stackSec.range, t.sigTrampoline.range]
      else [t.textSec.range, t.dataSec.range, t.stackSec.range, t.sigTrampoline.range]) := by
      intro t
      unfold UserTask.ranges UserTask.mapped
      split
      · rfl
      · rfl
    rw [hranges, hranges]
    exact Iff.rfl
  · unfold UserTask.mapped at hwords ⊢
    split at hwords
    · next h0 =>
      rw [if_pos h0]
      simpa using hwords
    · next h0 =>
      rw [if_neg h0]
      simpa using hwords

/-- **The layout of an accepted task**: it is sound exactly if text and data fit. -/
theorem userspaceCreateNew_layout_iff {task task' : UserTask} (htext : task.textSec.IsWord)
    (hdata : task.dataSec.IsWord) (htramp : IsTrampoline image task.sigTrampoline)
    (h : userspaceCreateNew K image kernelDir cur task s = .ok (some task', s')) :
    task'.LayoutSound ↔ LayoutFits task.textSec task.dataSec := by
  obtain ⟨l, hl, hplaces⟩ := userspaceCreateNew_places h
  rw [hplaces.layoutSound_iff (layoutSections_words htext hdata htramp hl)]
  exact layoutSections_sound_iff htext hdata htramp hl

end Create

/-! ## Two text sections -/

/-- A kernel image with a trampoline of seven bytes. -/
def smallImage : KernelImage where
  bytes _ := 0x90
  sigTrampolineStart := 0xC0100000
  sigTrampolineEnd := 0xC0100007
  userCafeStart := 0xC0101000
  userCafeEnd := 0xC0101040
  userDeadStart := 0xC0102000
  userDeadEnd := 0xC0102040
  trampoline_size := by decide

/-- A machine with free pages in two zones, the kernel directory at `0x1000` and the first of the
kernel's page tables at `0x2000`. -/
def smallPhys : Phys (BuddyRun × BumpHeap) where
  mem a := if a = 0x1000 + 4 * userPdes then 0x2003 else 0
  alloc := ({ buddy := twoZoneBuddy, live := [] }, { next := 0xD0000000, live := [] })

/-- A task of `task_get_new` with a given text and no data, before its address space is made. -/
def taskWithText (vAddr size : ℕ) : UserTask where
  addr := 0xD0000000
  pid := 2
  cr3 := 0
  kernelStackPointer := 0xD0001000
  textSec := { vAddr := vAddr, pAddr := 0, dataStart := 0xC0101000, dataSize := size,
               mappingSize := 0, flags := 0 }
  dataSec := .zero
  stackSec := .zero
  heapSec := .zero
  sigTrampoline := { vAddr := userTrampolineVaddr, pAddr := 0, dataStart := 0xC0100000,
                     dataSize := 7, mappingSize := pageSize, flags := userSectionRo }
  cloned := false
  name := []
  vmaAreas := []
  zombie := false

theorem taskWithText_trampoline (vAddr size : ℕ) :
    IsTrampoline smallImage (taskWithText vAddr size).sigTrampoline := by
  have hsec : sectionInitFromBuffer userTrampolineVaddr 0xC0100000 7 userSectionRo =
      some { vAddr := userTrampolineVaddr, pAddr := 0, dataStart := 0xC0100000, dataSize := 7,
             mappingSize := pageSize, flags := userSectionRo } := by decide +kernel
  exact ⟨0, hsec⟩

/-- `userspace_create_new` for such a task. -/
def createWithText (vAddr size : ℕ) : Kern (Option UserTask × Phys (BuddyRun × BumpHeap)) :=
  userspaceCreateNew (bumpKernel buddyPageAlloc) smallImage 0x1000 0x1000 (taskWithText vAddr size)
    smallPhys

theorem createWithText_accepted {vAddr size : ℕ}
    (h : (createWithText vAddr size).toOption.any (fun r => r.1.isSome) = true) :
    ∃ task' s', createWithText vAddr size = .ok (some task', s') := by
  cases hrun : createWithText vAddr size with
  | error e =>
    rw [hrun] at h
    cases h
  | ok r =>
    obtain ⟨task', s'⟩ := r
    rw [hrun] at h
    cases task' with
    | none => cases h
    | some task' => exact ⟨task', s', rfl⟩

/-- Text at the default address. -/
theorem userspaceCreateNew_layout_iff_default : ∃ task' s',
    createWithText 0 64 = .ok (some task', s') ∧ task'.LayoutSound := by
  have haccepted : (createWithText 0 64).toOption.any (fun r => r.1.isSome) = true := by
    decide +kernel
  obtain ⟨task', s', hrun⟩ := createWithText_accepted haccepted
  refine ⟨task', s', hrun, ?_⟩
  have hsound := userspaceCreateNew_layout_iff (by constructor <;> decide) (by constructor <;> decide)
    (taskWithText_trampoline 0 64) hrun
  refine hsound.mpr ⟨by decide +kernel, ?_⟩
  have hsize : (taskWithText 0 64).dataSec.dataSize = 0 := rfl
  rw [if_pos hsize]
  decide +kernel

/-- Two pages of text from the last user page on: the second one replaces the first page of the
kernel's linear map. -/
theorem not_userspaceCreateNew_layout : ¬ ∀ (task task' : UserTask)
    (s s' : Phys (BuddyRun × BumpHeap)), task.textSec.IsWord → task.dataSec.IsWord →
      IsTrampoline smallImage task.sigTrampoline →
      userspaceCreateNew (bumpKernel buddyPageAlloc) smallImage 0x1000 0x1000 task s =
        .ok (some task', s') → task'.LayoutSound := by
  intro h
  have haccepted : (createWithText 0xBFFFF000 0x1001).toOption.any (fun r => r.1.isSome) = true := by
    decide +kernel
  obtain ⟨task', s', hrun⟩ := createWithText_accepted haccepted
  have htext : (taskWithText 0xBFFFF000 0x1001).textSec.IsWord := by constructor <;> decide
  have hdata : (taskWithText 0xBFFFF000 0x1001).dataSec.IsWord := by constructor <;> decide
  have htramp := taskWithText_trampoline 0xBFFFF000 0x1001
  have hsound := h _ task' smallPhys s' htext hdata htramp hrun
  -- the text ends above the kernel base
  obtain ⟨l, hl, text, data, stack, trampoline, cr3, rfl⟩ := userspaceCreateNew_places hrun
  have hrange : (layoutSections (taskWithText 0xBFFFF000 0x1001)).map (fun l =>
      (l.textSec.range, l.dataSec.dataSize)) = some ((0xBFFFF000, 0xC0001000), 0) := by
    decide +kernel
  rw [hl, Option.map_some] at hrange
  obtain ⟨hrange, -⟩ := Prod.mk.inj (Option.some.inj hrange)
  have hbelow : l.textSec.range.2 ≤ kernelStart := by
    apply hsound.below
    unfold UserTask.ranges UserTask.mapped
    apply List.mem_cons_of_mem
    split
    · exact List.mem_cons_self
    · exact List.mem_cons_self
  rw [hrange] at hbelow
  exact absurd hbelow (by decide)

end Kfs.Userspace
