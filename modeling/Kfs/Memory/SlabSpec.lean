import Kfs.Memory.SlabInvariant

/-!
# What `slab_alloc` and `slab_free` do

Each half of the two functions is described by its effect on the ghost parameters of
`Kfs.Memory.SlabInv`. `slabAlloc_spec` takes what it needs of `kmalloc`, which allocates the
headers of slabs of large objects, as a hypothesis; `Kfs.Memory.KmallocSpec` discharges it.
-/

namespace Kfs.Memory

open Kfs.Lib Kfs.Lib.Word32 Kfs.Lib.Dyadic

section FreelistInit

variable {s : KState}

/-! ## The fresh free list -/

theorem KState.store_ok {a v : ℕ} (h : s.inListedHeader a = false) :
    s.store a v = .ok { s with mem := Function.update s.mem a v } := by
  unfold KState.store
  rw [h]
  rfl

/-- The loop of `slab_init_intrusive_freelist` links every object it has passed to the next. -/
theorem initFreelist_loop {p c : ℕ} (hp : p < linearPages) (hc : c < numSlabCaches)
    (hout : ∀ x ∈ objects p c, s.inListedHeader x = false) {n : ℕ} (hn : n < perSlab c) :
    ∃ mem, (List.range n).foldlM (fun q _ => initFreelistStep (objSize c) q) (objAddr p c 0, s) =
        .ok (objAddr p c n, { s with mem := mem }) ∧
      (∀ i < n, mem (objAddr p c i) = objAddr p c (i + 1)) ∧
      (∀ a, a ∉ objects p c → mem a = s.mem a) := by
  induction n with
  | zero => exact ⟨s.mem, rfl, fun i hi => absurd hi (Nat.not_lt_zero i), fun _ _ => rfl⟩
  | succ n ih =>
    obtain ⟨mem, hrun, hlinks, hframe⟩ := ih (Nat.lt_of_succ_lt hn)
    have hobj : objAddr p c n ∈ objects p c := ⟨n, Nat.lt_of_succ_lt hn, rfl⟩
    have hstore : KState.inListedHeader { s with mem := mem } (objAddr p c n) = false :=
      hout _ hobj
    have hnext : add32 (objAddr p c n) (objSize c) = objAddr p c (n + 1) := by
      obtain ⟨-, hhi⟩ := objects_range hc hobj
      unfold linearPages at hp
      unfold pageVirt kernelVaddrBase at hhi
      rw [add32_eq (by omega)]
      unfold objAddr
      rw [Nat.succ_mul, Nat.add_assoc]
    refine ⟨Function.update mem (objAddr p c n) (objAddr p c (n + 1)), ?_, ?_, ?_⟩
    · rw [List.range_succ, List.foldlM_append, hrun, ok_bind, List.foldlM_cons]
      simp only [List.foldlM_nil, bind_pure, initFreelistStep, KState.store_ok hstore, ok_bind,
        hnext]
    · intro i hi
      by_cases hin : i = n
      · subst hin
        exact Function.update_self _ _ _
      · rw [Function.update_of_ne (fun heq => hin (objAddr_injective hc p heq))]
        exact hlinks i (by omega)
    · intro a ha
      rw [Function.update_of_ne (ne_of_mem_of_not_mem hobj ha).symm]
      exact hframe a ha

/-- The free list that `slab_init_intrusive_freelist` builds holds every object in order. -/
theorem slabInitIntrusiveFreelist_spec {p c src : ℕ} (hp : p < linearPages)
    (hc : c < numSlabCaches) (hout : ∀ x ∈ objects p c, s.inListedHeader x = false) {space : ℕ}
    (hspace : space / objSize c = perSlab c) :
    ∃ mem, slabInitIntrusiveFreelist src (objAddr p c 0) (objSize c) space s =
        .ok { s with
              mem := mem
              slabs := Function.update s.slabs src
                { s.slabs src with freelist := objAddr p c 0 } } ∧
      Chain mem 0 (objAddr p c 0) ((List.range (perSlab c)).map (objAddr p c)) ∧
      (∀ a, a ∉ objects p c → mem a = s.mem a) := by
  obtain ⟨hsize, htwo, -⟩ := class_geometry hc
  obtain ⟨n, hn⟩ : ∃ n, perSlab c = n + 1 := Nat.exists_eq_succ_of_ne_zero (by omega)
  obtain ⟨mem, hrun, hlinks, hframe⟩ := initFreelist_loop hp hc hout (show n < perSlab c by omega)
  have hlast : objAddr p c n ∈ objects p c := ⟨n, by omega, rfl⟩
  have hstore : KState.inListedHeader { s with mem := mem } (objAddr p c n) = false :=
    hout _ hlast
  refine ⟨Function.update mem (objAddr p c n) 0, ?_, ?_, ?_⟩
  · simp only [slabInitIntrusiveFreelist, hspace, hn, Nat.add_sub_cancel, hrun, ok_bind,
      KState.store_ok hstore]
    rfl
  · rw [hn]
    apply Chain.ofFn
    · intro i _
      unfold objAddr pageVirt kernelVaddrBase
      omega
    · intro i hi
      rw [Function.update_of_ne (fun heq => hi.ne (objAddr_injective hc p heq))]
      exact hlinks i hi
    · exact Function.update_self _ _ _
  · intro a ha
    rw [Function.update_of_ne (ne_of_mem_of_not_mem hlast ha).symm]
    exact hframe a ha

end FreelistInit

section Operations

variable {s : KState} {F S L : Set ℕ} {κ : ℕ → Fill}

/-- `slab_create` from its last lines on, and the `list_add_head` of its caller. -/
theorem SlabInv.slabSetup_spec (h : SlabInv s F S L κ) {p hd c : ℕ} (hpS : p ∉ S) (hpF : p ∉ F)
    (hp : p < linearPages) (hc : c < numSlabCaches)
    (hstate : pageGetState (s.buddy.pages p) = pageStateSlab) (hnew : hd ∉ headers s S)
    (hheader : if isExternal c then hd ∈ L ∧ ∃ q ∈ S, classOf s q = 2 ∧ hd ∈ objects q 2
      else hd = pageVirt p) :
    ∃ mem s', FreshSlab s F S L p hd c mem ∧
      slabSetup (zoneOfPage p, c) p hd (objAddr p c 0)
        (if isExternal c then pageSize else pageSize - sizeofSlab) s = .ok (hd, s') ∧
      s'.listAddHead hd (zoneOfPage p, c) .part = .ok (withSlab s p hd (zoneOfPage p, c) mem) := by
  have hout : ∀ x ∈ objects p c, s.inListedHeader x = false := fun x hx =>
    h.inListedHeader_object hc hx (fun hS => absurd hS hpS) (fun hS => absurd hS hpS)
  obtain ⟨mem, hinit, hchain, hframe⟩ :=
    @slabInitIntrusiveFreelist_spec (s.setSlab hd
      { s.slabs hd with inuse := 0, parentCache := (zoneOfPage p, c) }) p c hd hp hc hout _
      (class_geometry hc).2.2.2.2
  have hlisted : s.isListed hd = false := by
    rw [← Bool.not_eq_true, h.isListed_iff]
    exact hnew
  have hsize : (s.caches (zoneOfPage p) c).objectSize = objSize c := (h.caches _ c hc).1
  refine ⟨mem, { withSlab s p hd (zoneOfPage p, c) mem with caches := s.caches },
    ⟨hpS, hpF, hp, hc, hstate, hnew, hheader, hframe, hchain⟩, ?_, ?_⟩
  · simp only [slabSetup, hsize, hinit, ok_bind]
    unfold withSlab KState.setPage KState.setSlab
    simp only [Function.update_self, Function.update_idem]
  · have hlisted' : KState.isListed { withSlab s p hd (zoneOfPage p, c) mem with
        caches := s.caches } hd = false := hlisted
    unfold KState.listAddHead
    rw [hlisted']
    rfl

/-! ## Taking and giving back an object -/

theorem SlabInv.parentCache_eq (h : SlabInv s F S L κ) {p : ℕ} (hp : p ∈ S) :
    (s.slabs (headerOf s p)).parentCache = (zoneOfPage p, classOf s p) := by
  obtain ⟨free, hslab⟩ := h.pages p hp
  rw [← hslab.zone]
  rfl

/-- The second half of `slab_alloc`, on a slab that is on the list of the partial ones and has a
free object. -/
theorem SlabInv.takeObject_spec (h : SlabInv s F S L κ) {p x : ℕ} {free : List ℕ} (hp : p ∈ S)
    (hslab : SlabPage s S L p (x :: free)) (hκ : κ (headerOf s p) = .part)
    (hfiled : Filed s S {p} κ) {cache : Zone × ℕ}
    (hcache : (s.slabs (headerOf s p)).parentCache = cache) :
    ∃ s' κ', takeObject (headerOf s p) cache s = .ok (x, s') ∧
      SlabInv s' F S (insert x L) κ' ∧ Filed s' S ∅ κ' ∧ s'.buddy = s.buddy ∧
      (∀ q, classOf s' q = classOf s q) := by
  obtain ⟨hfirst, hx0, hrest⟩ := hslab.chain
  have hcount := hslab.count
  rw [List.length_cons] at hcount
  have hlt := (class_geometry hslab.class_lt).2.2.1
  have hinuse : add32 (s.slabs (headerOf s p)).inuse 1 = (s.slabs (headerOf s p)).inuse + 1 :=
    add32_eq (by omega)
  have htake := h.take hp hslab
  -- The first free object leaves the list; the slab is filed anew if it was the last one.
  have hrun : takeObject (headerOf s p) cache s =
      if s.mem x = 0 then do
        let s ← (s.setSlab (headerOf s p)
          { freelist := s.mem x
            inuse := (s.slabs (headerOf s p)).inuse + 1
            parentCache := (s.slabs (headerOf s p)).parentCache }).moveNode (headerOf s p) cache
          .full
        .ok (x, s)
      else .ok (x, s.setSlab (headerOf s p)
        { freelist := s.mem x
          inuse := (s.slabs (headerOf s p)).inuse + 1
          parentCache := (s.slabs (headerOf s p)).parentCache }) := by
    unfold takeObject
    simp only [hfirst, hx0, if_false, hinuse]
    rfl
  rw [hrun]
  generalize hnew : Slab.mk (s.mem x) ((s.slabs (headerOf s p)).inuse + 1)
    (s.slabs (headerOf s p)).parentCache = new at htake ⊢
  have hparent : new.parentCache = (s.slabs (headerOf s p)).parentCache := by rw [← hnew]
  have hnewinuse : new.inuse = (s.slabs (headerOf s p)).inuse + 1 := by rw [← hnew]
  have hclass := @classOf_setSlab s p new hparent
  by_cases hnext : s.mem x = 0
  · -- the last object: the slab moves to the list of the full ones
    have hempty : free = [] := hrest.eq_null_iff.mp hnext
    have hcache' : ((s.setSlab (headerOf s p) new).slabs
        (headerOf (s.setSlab (headerOf s p) new) p)).parentCache = cache := by
      rw [← hcache, ← hparent]
      exact congrArg Slab.parentCache (Function.update_self _ _ _)
    obtain ⟨caches, hmove, hinv⟩ := htake.moveNode hp hcache' .full
    refine ⟨{ s.setSlab (headerOf s p) new with caches := caches }, _, ?_, hinv, ?_, rfl, hclass⟩
    · have hmove' : (s.setSlab (headerOf s p) new).moveNode (headerOf s p) cache .full =
          .ok { s.setSlab (headerOf s p) new with caches := caches } := hmove
      rw [if_pos hnext, hmove']
      rfl
    · refine hfiled.setSlab h hp rfl rfl hparent (fun hd hne => Function.update_of_ne hne _ _) ?_
      refine (Function.update_self _ _ _).trans ?_
      rw [hempty, List.length_nil] at hcount
      unfold fillOf
      rw [if_pos (by omega)]
  · -- Another object is left: the slab stays among the partly used ones.
    have hne : free ≠ [] := fun hempty => hnext (hrest.eq_null_iff.mpr hempty)
    have hlen : 0 < free.length := List.length_pos_of_ne_nil hne
    refine ⟨_, κ, if_neg hnext, htake, ?_, rfl, hclass⟩
    refine hfiled.setSlab h hp rfl rfl hparent (fun _ _ => rfl) ?_
    rw [hκ, hnewinuse]
    unfold fillOf
    rw [if_neg (by omega), if_neg (by omega)]

/-- **`slab_free`** of an allocated object that is no header. -/
theorem SlabInv.slabFree_spec (h : SlabInv s F S L κ) {p x : ℕ} (hfiled : Filed s S ∅ κ) (hp : p ∈ S)
    (hx : x ∈ objects p (classOf s p)) (hL : x ∈ L) (hnot : x ∉ headers s S) :
    ∃ s' κ', slabFree x s = .ok s' ∧ SlabInv s' F S (L \ {x}) κ' ∧ Filed s' S ∅ κ' ∧
      s'.buddy = s.buddy ∧ (∀ q, classOf s' q = classOf s q) := by
  obtain ⟨free, hslab⟩ := h.pages p hp
  have hpage : pageAddrToPage (virtToPhysLinear x) = p :=
    page_of_object hslab.linear hslab.class_lt hx
  have hstore : s.inListedHeader x = false :=
    h.inListedHeader_object hslab.class_lt hx (fun _ => rfl) (fun _ => hnot)
  obtain ⟨-, htwo, hlt, -⟩ := class_geometry hslab.class_lt
  have hcount := hslab.count
  obtain ⟨hpos, hgive⟩ := h.give hp hslab hx hL hnot
  have hinuse : sub32 (s.slabs (headerOf s p)).inuse 1 = (s.slabs (headerOf s p)).inuse - 1 :=
    sub32_eq (by omega) hpos
  have hper : sub32 (perSlab (classOf s p)) 1 = perSlab (classOf s p) - 1 :=
    sub32_eq (by omega) (by omega)
  have hobjs : (s.caches (s.slabs (headerOf s p)).parentCache.1
      (s.slabs (headerOf s p)).parentCache.2).objectsPerSlab = perSlab (classOf s p) :=
    (h.caches _ _ hslab.class_lt).2
  have hfiled' : Filed s S {p} κ := fun q hq _ => hfiled q hq (Set.notMem_empty q)
  have hold : κ (headerOf s p) = fillOf (classOf s p) (s.slabs (headerOf s p)).inuse :=
    hfiled p hp (Set.notMem_empty p)
  generalize hcache : (s.slabs (headerOf s p)).parentCache = cache at hgive hobjs
  generalize hs₁ : KState.setSlab
      { s with mem := Function.update s.mem x (s.slabs (headerOf s p)).freelist } (headerOf s p)
      { freelist := x, inuse := (s.slabs (headerOf s p)).inuse - 1, parentCache := cache } = s₁
    at hgive
  have hrun : slabFree x s =
      if (s.slabs (headerOf s p)).inuse - 1 = perSlab (classOf s p) - 1 then
        s₁.moveNode (headerOf s p) cache .part
      else if (s.slabs (headerOf s p)).inuse - 1 = 0 then s₁.moveNode (headerOf s p) cache .empty
      else .ok s₁ := by
    have hpd : (s.buddy.pages p).privateData = headerOf s p := rfl
    unfold slabFree
    simp only [hpage, hslab.state, ne_eq, not_true_eq_false, if_false, hpd,
      KState.store_ok hstore, hcache, hinuse]
    rw [← hs₁]
    simp only [bind, Except.bind, pure, Except.pure]
    show (if _ = sub32 (s.caches cache.1 cache.2).objectsPerSlab 1 then _ else _) = _
    rw [hobjs, hper]
  have hhead : ∀ q, headerOf s₁ q = headerOf s q := fun q => by rw [← hs₁]; rfl
  have hbuddy : s₁.buddy = s.buddy := by rw [← hs₁]; rfl
  have hslabs : s₁.slabs = Function.update s.slabs (headerOf s p)
      { freelist := x, inuse := (s.slabs (headerOf s p)).inuse - 1, parentCache := cache } := by
    rw [← hs₁]
    rfl
  have hclass : ∀ q, classOf s₁ q = classOf s q := by
    rw [← hs₁]
    exact classOf_setSlab hcache.symm
  have hcache₁ : (s₁.slabs (headerOf s₁ p)).parentCache = cache := by
    rw [hslabs, hhead, Function.update_self]
  -- filing the slab under `fill` is right when `fill` is the list for the new counter
  have hmoved : ∀ fill, fillOf (classOf s p) ((s.slabs (headerOf s p)).inuse - 1) = fill →
      ∃ s' κ', s₁.moveNode (headerOf s p) cache fill = .ok s' ∧ SlabInv s' F S (L \ {x}) κ' ∧
        Filed s' S ∅ κ' ∧ s'.buddy = s.buddy ∧ (∀ q, classOf s' q = classOf s q) := by
    intro fill hfill
    obtain ⟨caches, hmove, hinv⟩ := hgive.moveNode hp hcache₁ fill
    rw [hhead] at hmove hinv
    refine ⟨_, _, hmove, hinv, ?_, hbuddy, hclass⟩
    refine hfiled'.setSlab h hp hbuddy hslabs hcache.symm
      (fun hd hne => Function.update_of_ne hne _ _) ?_
    rw [Function.update_self]
    exact hfill.symm
  rw [hrun]
  by_cases hfull : (s.slabs (headerOf s p)).inuse - 1 = perSlab (classOf s p) - 1
  · rw [if_pos hfull]
    apply hmoved
    unfold fillOf
    rw [if_neg (by omega), if_neg (by omega)]
  · rw [if_neg hfull]
    by_cases hzero : (s.slabs (headerOf s p)).inuse - 1 = 0
    · rw [if_pos hzero]
      apply hmoved
      unfold fillOf
      rw [if_neg (by omega), if_pos hzero]
    · -- the slab was partial and stays so
      rw [if_neg hzero]
      refine ⟨s₁, κ, rfl, hgive, ?_, hbuddy, hclass⟩
      refine hfiled'.setSlab h hp hbuddy hslabs hcache.symm (fun _ _ => rfl) ?_
      rw [hold]
      show _ = fillOf (classOf s p) ((s.slabs (headerOf s p)).inuse - 1)
      unfold fillOf
      rw [if_neg (by omega), if_neg (by omega), if_neg (by omega), if_neg (by omega)]

end Operations

section Growth

variable {s s' : KState} {F F' S S' L : Set ℕ} {κ : ℕ → Fill}

/-! ## Pages for slabs -/

/-- Allocation turns free pages into slab pages and touches no other page. -/
structure Grow (s s' : KState) (F F' S S' : Set ℕ) : Prop where
  pages : ∀ j ∉ F, s'.buddy.pages j = s.buddy.pages j
  slabs : S ⊆ S'
  new : S' ⊆ S ∪ F
  free : F' = F \ S'
  cls : ∀ q ∈ S, classOf s' q = classOf s q

/-- No slab page is free. -/
theorem SlabInv.notMem_free (h : SlabInv s F S L κ) {p : ℕ} (hp : p ∈ S) : p ∉ F := by
  intro hF
  obtain ⟨free, hslab⟩ := h.pages p hp
  obtain ⟨i, k, hb, hj⟩ := (h.buddy.tiling.cover p).mp hF
  have hfree : pageGetState (s.buddy.pages p) = pageStateFree := by
    by_cases hpi : p = i
    · rw [hpi]
      exact (h.buddy.head hb).1
    · exact (h.buddy.tail hb hj hpi).1
  rw [hslab.state] at hfree
  exact absurd hfree (by decide)

theorem headers_congr_buddy {b : BuddyState} (hpages : ∀ j ∈ S, b.pages j = s.buddy.pages j) :
    headers { s with buddy := b } S = headers s S := by
  ext x
  constructor
  · rintro ⟨q, hq, rfl⟩
    exact ⟨q, hq, by unfold headerOf; simp only [hpages q hq]⟩
  · rintro ⟨q, hq, rfl⟩
    exact ⟨q, hq, by unfold headerOf; simp only [hpages q hq]⟩

theorem classOf_congr_buddy {b : BuddyState} {q : ℕ} (hpage : b.pages q = s.buddy.pages q) :
    classOf { s with buddy := b } q = classOf s q := by
  unfold classOf headerOf
  simp only [hpage]

/-- The slabs do not depend on the rest of the buddy allocator. -/
theorem SlabInv.congr_buddy (h : SlabInv s F S L κ) {b : BuddyState} (hb : FreeInv b F' ∅)
    (hpages : ∀ j ∈ S, b.pages j = s.buddy.pages j) : SlabInv { s with buddy := b } F' S L κ := by
  have hhead : ∀ {q}, q ∈ S → headerOf { s with buddy := b } q = headerOf s q := fun hq => by
    unfold headerOf
    simp only [hpages _ hq]
  have hclass : ∀ {q}, q ∈ S → classOf { s with buddy := b } q = classOf s q := fun hq =>
    classOf_congr_buddy (hpages _ hq)
  have hheaders : headers { s with buddy := b } S = headers s S := headers_congr_buddy hpages
  refine {
    buddy := hb
    caches := h.caches
    pages := fun q hq => ?_
    inj := fun q hq r hr heq => ?_
    objs := fun x hx => ?_
    lists := fun z c hc fill hd => by rw [hheaders]; exact h.lists z c hc fill hd
    nodup := h.nodup }
  · obtain ⟨free, hslab⟩ := h.pages q hq
    exact ⟨free, hslab.congr (hpages q hq) rfl (fun _ _ => rfl) (fun _ _ => Iff.rfl) id
      fun r hr => ⟨hr, hclass hr⟩⟩
  · rw [hhead hq, hhead hr] at heq
    exact h.inj q hq r hr heq
  · obtain ⟨q, hq, hobj⟩ := h.objs x hx
    exact ⟨q, hq, by rw [hclass hq]; exact hobj⟩

theorem Filed.congr_buddy {E : Set ℕ} {b : BuddyState} (hfiled : Filed s S E κ)
    (hpages : ∀ j ∈ S, b.pages j = s.buddy.pages j) : Filed { s with buddy := b } S E κ := by
  intro q hq hqE
  have hold := hfiled q hq hqE
  rw [classOf_congr_buddy (hpages q hq)]
  unfold headerOf at hold ⊢
  simp only [hpages q hq]
  exact hold

/-- Marking the page in hand keeps the buddy invariant. -/
theorem FreeInv.setState {b : BuddyState} {p st : ℕ} (h : FreeInv b F ∅) (hp : p ∉ F)
    (hst : st < 8) (hfree : st ≠ pageStateFree) :
    FreeInv { b with pages := Function.update b.pages p (pageSetState (b.pages p) st) } F ∅ := by
  apply h.congr_pages
  · exact fun j hj => Function.update_of_ne (ne_of_mem_of_not_mem hj hp) _ _
  · intro j _
    by_cases hj : j = p
    · subst hj
      rw [Function.update_self, pageGetZone_pageSetState _ hst]
    · rw [Function.update_of_ne hj]
  · intro j hj hjF hjH
    by_cases hjp : j = p
    · subst hjp
      rw [Function.update_self, pageGetState_pageSetState _ hst]
      exact hfree
    · rw [Function.update_of_ne hjp]
      exact h.notFree j hj hjF hjH

/-- The state of `slab_create` with its page in hand. -/
def pageInHand (s : KState) (b : BuddyState) (p : ℕ) : KState :=
  { s with buddy := { b with
      pages := Function.update b.pages p (pageSetState (b.pages p) pageStateSlab) } }

/-- The first lines of `slab_create`: a page of the zone in the state `SLAB`, or `NULL` when the
zone has no free page. -/
theorem SlabInv.allocPage (h : SlabInv s F S L κ) (h0 : 0 ∉ F) {z : Zone} (hz : z ≠ .highmem) :
    (zoneFreePages z s.buddy = 0 ∧ buddyAllocPages pageSize z s.buddy = .ok (0, s.buddy)) ∨
    ∃ p b, buddyAllocPages pageSize z s.buddy = .ok (pageToPhys p, b) ∧ pageToPhys p ≠ 0 ∧
      pageAddrToPage (pageToPhys p) = p ∧ p ∈ F ∧ p < linearPages ∧ zoneOfPage p = z ∧
      zoneFreePages z (pageInHand s b p).buddy + 1 = zoneFreePages z s.buddy ∧
      (∀ j ∉ F, (pageInHand s b p).buddy.pages j = s.buddy.pages j) ∧
      pageGetState ((pageInHand s b p).buddy.pages p) = pageStateSlab ∧
      SlabInv (pageInHand s b p) (F \ {p}) S L κ := by
  rcases buddyAllocPages_spec h.buddy h0 pageSize z with ⟨hnull, hempty⟩ | ⟨p, c, b, hrun, ha⟩
  · left
    rw [sizeToOrder_pageSize] at hempty
    refine ⟨?_, hnull⟩
    rw [h.buddy.zoneFreePages_eq_zero_iff]
    exact fun j hj => hempty j (Nat.zero_le j) hj
  · right
    rw [sizeToOrder_pageSize] at ha
    have hpF : p ∈ F := ha.subset (self_mem_block p 0)
    have hpmax : p < maxPages := h.buddy.inTable p hpF
    have hfree := ha.inv
    rw [block_zero] at hfree
    have hframe : ∀ j ∉ F, (pageInHand s b p).buddy.pages j = s.buddy.pages j := by
      intro j hj
      have hjp : j ≠ p := fun heq => hj (heq ▸ hpF)
      exact (Function.update_of_ne hjp _ _).trans
        (ha.frame j fun hmem => hj (ha.popped_subset hmem))
    refine ⟨p, b, hrun, ?_, pageAddrToPage_pageToPhys hpmax, hpF, ?_, ha.zone,
      ha.zoneFreePages h.buddy, hframe, ?_, ?_⟩
    · rw [pageToPhys_eq hpmax]
      have := ha.ne_zero
      omega
    · have hzone := ha.zone
      unfold zoneOfPage at hzone
      split at hzone
      next => exact absurd hzone.symm hz
      next hlt => exact not_le.mp hlt
    · show pageGetState (Function.update b.pages p _ p) = _
      rw [Function.update_self]
      exact pageGetState_pageSetState _ (by decide)
    · exact h.congr_buddy (hfree.setState (fun hmem => hmem.2 rfl) (by decide) (by decide))
        fun j hj => hframe j (h.notMem_free hj)

end Growth

/-! ## Demand for pages -/

/-- The cache has a slab with a free object. -/
def slabReady (s : KState) (z : Zone) (c : ℕ) : Bool :=
  !(s.caches z c).slabsPartial.isEmpty || !(s.caches z c).slabsEmpty.isEmpty

/-- The pages that `slab_alloc` takes from the buddy allocator for an object of class `c`: one for
a new slab, and one more if the header needs a new slab as well. -/
def pagesNeeded (s : KState) (z : Zone) (c : ℕ) : ℕ :=
  if slabReady s z c then 0
  else if isExternal c then (if slabReady s z 2 then 1 else 2)
  else 1

/-- No cache of the zone has a slab without live objects, so `slab_shrink_caches` has nothing to
reclaim. -/
def noEmptySlabs (s : KState) (z : Zone) : Bool :=
  (List.range numSlabCaches).all fun c => (s.caches z c).slabsEmpty.isEmpty

/-! ## Allocation of an object -/

/-- An object of class `c` and zone `z` has been allocated: `x` is new, it is the only new object
that is not a header, and new slabs were free pages. -/
structure Served (s : KState) (F S L : Set ℕ) (z : Zone) (c x : ℕ) (s' : KState)
    (F' S' L' : Set ℕ) (κ' : ℕ → Fill) : Prop where
  inv : SlabInv s' F' S' L' κ'
  filed : Filed s' S' ∅ κ'
  grow : Grow s s' F F' S S'
  mono : L ⊆ L'
  fresh : x ∉ L
  live : L' \ headers s' S' = insert x (L \ headers s S)
  obj : ∃ p ∈ S', classOf s' p = c ∧ zoneOfPage p = z ∧ x ∈ objects p c

/-- `slab_alloc` has found or made a slab `p` with a free object and has put it on the list of the
partial ones. -/
structure Chosen (s : KState) (F S L : Set ℕ) (z : Zone) (c p : ℕ) (s' : KState)
    (F' S' L' : Set ℕ) (κ' : ℕ → Fill) : Prop where
  inv : SlabInv s' F' S' L' κ'
  filed : Filed s' S' {p} κ'
  grow : Grow s s' F F' S S'
  live : L' \ headers s' S' = L \ headers s S
  mono : L ⊆ L'
  mem : p ∈ S'
  onPart : κ' (headerOf s' p) = .part
  cache : (s'.slabs (headerOf s' p)).parentCache = (z, c)
  free : ∃ x free, SlabPage s' S' L' p (x :: free)

section Allocation

variable {s s' : KState} {F F' S S' L L' : Set ℕ} {κ κ' : ℕ → Fill} {z : Zone} {c p : ℕ}

theorem Grow.refl (s : KState) (hFS : Disjoint F S) : Grow s s F F S S where
  pages _ _ := rfl
  slabs := subset_rfl
  new := Set.subset_union_left
  free := hFS.sdiff_eq_left.symm
  cls _ _ := rfl

theorem SlabInv.disjoint (h : SlabInv s F S L κ) : Disjoint F S := by
  rw [Set.disjoint_right]
  exact fun q hq => h.notMem_free hq

/-- Taking the first free object of the chosen slab serves the request. -/
theorem Chosen.takeObject_spec (hch : Chosen s F S L z c p s' F' S' L' κ') :
    ∃ x s'' κ'', takeObject (headerOf s' p) (z, c) s' = .ok (x, s'') ∧
      Served s F S L z c x s'' F' S' (insert x L') κ'' := by
  obtain ⟨x, free, hslab⟩ := hch.free
  obtain ⟨s'', κ'', hrun, hinv, hfiled, hbuddy, hclass⟩ :=
    hch.inv.takeObject_spec hch.mem hslab hch.onPart hch.filed hch.cache
  have hxobj : x ∈ objects p (classOf s' p) := hslab.objs x List.mem_cons_self
  have hxL : x ∉ L' := fun hL => ((hslab.live x hxobj).mp hL) List.mem_cons_self
  have hcp : classOf s' p = c := congrArg Prod.snd hch.cache
  have hheaders : headers s'' S' = headers s' S' := by
    unfold headers headerOf
    rw [hbuddy]
  refine ⟨x, s'', κ'', hrun, ?_⟩
  refine {
    inv := hinv
    filed := hfiled
    grow := { hch.grow with
      pages := fun j hj => by rw [hbuddy]; exact hch.grow.pages j hj
      cls := fun q hq => (hclass q).trans (hch.grow.cls q hq) }
    mono := hch.mono.trans (Set.subset_insert x L')
    fresh := fun hL => hxL (hch.mono hL)
    live := ?_
    obj := ⟨p, hch.mem, (hclass p).trans hcp, ?_, hcp ▸ hxobj⟩ }
  · rw [hheaders, ← hch.live]
    exact Set.insert_sdiff_of_notMem _ (hch.inv.notMem_headers_of_notMem hch.mem hxobj hxL)
  · rw [← hslab.zone, hch.cache]

/-- A listed slab belongs to its cache. -/
theorem SlabInv.of_mem_list (h : SlabInv s F S L κ) (hc : c < numSlabCaches) {fill : Fill} {hd : ℕ}
    (hmem : hd ∈ (s.caches z c).list fill) :
    ∃ p ∈ S, headerOf s p = hd ∧ (s.slabs hd).parentCache = (z, c) ∧ κ hd = fill := by
  obtain ⟨⟨p, hp, rfl⟩, hcache, hκ⟩ := (h.lists z c hc fill hd).mp hmem
  exact ⟨p, hp, rfl, hcache, hκ⟩

/-- A slab that is not full has a free object. -/
theorem SlabPage.exists_free {free : List ℕ} (hslab : SlabPage s S L p free)
    (hinuse : (s.slabs (headerOf s p)).inuse ≠ perSlab (classOf s p)) :
    ∃ x rest, free = x :: rest := by
  cases free with
  | nil =>
    have hcount := hslab.count
    rw [List.length_nil, Nat.zero_add] at hcount
    exact absurd hcount hinuse
  | cons x rest => exact ⟨x, rest, rfl⟩

theorem Filed.inuse_ne (hfiled : Filed s S ∅ κ) (hp : p ∈ S) (hκ : κ (headerOf s p) ≠ .full) :
    (s.slabs (headerOf s p)).inuse ≠ perSlab (classOf s p) := by
  intro heq
  apply hκ
  rw [hfiled p hp (Set.notMem_empty p)]
  unfold fillOf
  rw [if_pos heq]

/-- A partial or an empty slab is chosen without a new page. -/
theorem SlabInv.chooseSlab_ready (h : SlabInv s F S L κ) (hfiled : Filed s S ∅ κ)
    (hc : c < numSlabCaches) (hready : slabReady s z c = true)
    (kmalloc : ℕ → ℕ → KState → Kern (ℕ × KState)) :
    ∃ p s' κ', chooseSlab kmalloc (z, c) s = .ok (some (headerOf s' p), s') ∧
      Chosen s F S L z c p s' F S L κ' := by
  have hpart : ∀ p, Filed s S {p} κ := fun p q hq _ => hfiled q hq (Set.notMem_empty q)
  cases hp : (s.caches z c).slabsPartial with
  | cons hd rest =>
    obtain ⟨p, hpS, rfl, hcache, hκ⟩ :=
      h.of_mem_list hc (show hd ∈ (s.caches z c).list .part by
        show hd ∈ (s.caches z c).slabsPartial
        rw [hp]
        exact List.mem_cons_self)
    refine ⟨p, s, κ, by simp only [chooseSlab, hp], ?_⟩
    obtain ⟨free, hslab⟩ := h.pages p hpS
    obtain ⟨x, rest', rfl⟩ := hslab.exists_free (hfiled.inuse_ne hpS (by rw [hκ]; decide))
    exact ⟨h, hpart p, Grow.refl s h.disjoint, rfl, subset_rfl, hpS, hκ, hcache, x, rest', hslab⟩
  | nil =>
    cases he : (s.caches z c).slabsEmpty with
    | nil =>
      unfold slabReady at hready
      rw [hp, he] at hready
      cases hready
    | cons hd rest =>
      obtain ⟨p, hpS, rfl, hcache, hκ⟩ :=
        h.of_mem_list hc (show hd ∈ (s.caches z c).list .empty by
          show hd ∈ (s.caches z c).slabsEmpty
          rw [he]
          exact List.mem_cons_self)
      obtain ⟨caches, hmove, hinv⟩ := h.moveNode hpS hcache .part
      refine ⟨p, { s with caches := caches }, Function.update κ (headerOf s p) .part, ?_, ?_⟩
      · simp only [chooseSlab, hp, he, hmove, ok_bind]
        rfl
      · obtain ⟨free, hslab⟩ := hinv.pages p hpS
        obtain ⟨x, rest', rfl⟩ := hslab.exists_free (hfiled.inuse_ne hpS (by rw [hκ]; decide))
        refine ⟨hinv, ?_, ?_, rfl, subset_rfl, hpS, Function.update_self _ _ _, hcache, x, rest',
          hslab⟩
        · intro q hq hqp
          have hne' : headerOf s q ≠ headerOf s p := fun heq => hqp (h.inj q hq p hpS heq)
          exact (Function.update_of_ne hne' _ _).trans (hpart p q hq hqp)
        · exact { Grow.refl s h.disjoint with pages := fun _ _ => rfl, cls := fun _ _ => rfl }

/-- The page in hand has become a slab: the request can be served from it. -/
theorem SlabInv.chosen_withSlab (h : SlabInv s F S L κ) (hpF : p ∈ F) (hzone : zoneOfPage p = z)
    {b : BuddyState} (hb : ∀ j ∉ F, b.pages j = s.buddy.pages j) (hinv : SlabInv s' F' S' L' κ')
    (hfiled : Filed s' S' ∅ κ') (hgrow : Grow { s with buddy := b } s' (F \ {p}) F' S S')
    {hd : ℕ} {mem : ℕ → ℕ} (hf : FreshSlab s' F' S' L' p hd c mem)
    (hlive : L' \ insert hd (headers s' S') = L \ headers s S) (hmono : L ⊆ L') :
    Chosen s F S L z c p (withSlab s' p hd (z, c) mem) F' (insert p S') L'
      (Function.update κ' hd .part) := by
  subst hzone
  have hpage := hf.slabPage hinv
  have hhead : headerOf (withSlab s' p hd (zoneOfPage p, c) mem) p = hd := by
    rw [headerOf_withSlab, if_pos rfl]
  have hold : ∀ q ∈ S, b.pages q = s.buddy.pages q := fun q hq => hb q (h.notMem_free hq)
  refine {
    inv := hinv.addSlab hf
    filed := fun q hq hqp => ?_
    grow := ?_
    live := by rw [hf.headers_eq]; exact hlive
    mono := hmono
    mem := Set.mem_insert p S'
    onPart := by rw [hhead]; exact Function.update_self _ _ _
    cache := by
      rw [hhead]
      unfold withSlab
      simp only [Function.update_self]
    free := ?_ }
  · have hqp : q ≠ p := hqp
    have hqS : q ∈ S' := hq.resolve_left hqp
    rw [hf.classOf_eq _ hqS, hf.slabs_eq _ hqS, headerOf_withSlab, if_neg hqp,
      Function.update_of_ne (fun heq => hf.newHeader ⟨q, hqS, heq⟩)]
    exact hfiled q hqS (Set.notMem_empty q)
  · refine {
      pages := fun j hj => ?_
      slabs := hgrow.slabs.trans (Set.subset_insert p S')
      new := ?_
      free := ?_
      cls := fun q hq => ?_ }
    · have hjp : j ≠ p := fun heq => hj (heq ▸ hpF)
      have hj' : j ∉ F \ {p} := fun hmem => hj hmem.1
      refine (Function.update_of_ne hjp _ _).trans ((hgrow.pages j hj').trans (hb j hj))
    · rintro q (rfl | hq)
      · exact Or.inr hpF
      · exact (hgrow.new hq).imp id fun hmem => hmem.1
    · rw [hgrow.free, Set.sdiff_sdiff, Set.singleton_union]
    · rw [hf.classOf_eq _ (hgrow.slabs hq), hgrow.cls q hq, classOf_congr_buddy (hold q hq)]
  · obtain ⟨-, htwo, -⟩ := class_geometry hf.class_lt
    obtain ⟨n, hn⟩ : ∃ n, perSlab c = n + 1 := Nat.exists_eq_succ_of_ne_zero (by omega)
    rw [hn, List.range_succ_eq_map, List.map_cons] at hpage
    exact ⟨_, _, hpage⟩

/-- The header of a slab that keeps it in its own page is new. -/
theorem SlabInv.pageVirt_notMem (h : SlabInv s F S L κ) (hp : p ∉ S) :
    pageVirt p ∉ headers s S ∧ pageVirt p ∉ L := by
  have hobj : ∀ {q d x}, q ∈ S → d < numSlabCaches → x ∈ objects q d → x ≠ pageVirt p := by
    intro q d x hq hd hx heq
    have hrange := objects_range hd hx
    have hsize := (class_geometry hd).1
    have hqp : q ≠ p := fun heq => hp (heq ▸ hq)
    rcases pageVirt_le_of_ne hqp with hle | hle <;> omega
  constructor
  · rintro ⟨q, hq, heq⟩
    rcases h.header_cases hq with ⟨-, hown⟩ | ⟨-, -, r, hr, -, hmem⟩
    · have hqp : q ≠ p := fun heq => hp (heq ▸ hq)
      rcases pageVirt_le_of_ne hqp with hle | hle <;> omega
    · exact hobj hr (by decide) hmem heq
  · intro hL
    obtain ⟨q, hq, hmem⟩ := h.objs _ hL
    obtain ⟨free, hslab⟩ := h.pages q hq
    exact hobj hq hslab.class_lt hmem rfl

/-- What `slab_create` relies on in `kmalloc`: the header is an object of 32 bytes of the zone, and
without memory and without anything to reclaim the call returns `NULL` and changes nothing. -/
def HeaderAlloc (kmalloc : ℕ → ℕ → KState → Kern (ℕ × KState)) : Prop :=
  ∀ {s : KState} {F S L : Set ℕ} {κ : ℕ → Fill} {z : Zone}, SlabInv s F S L κ → Filed s S ∅ κ →
    0 ∉ F → z ≠ .highmem →
    (pagesNeeded s z 2 ≤ zoneFreePages z s.buddy → ∃ x s' F' S' L' κ',
      kmalloc sizeofSlab (if z = .dma then gfpKernel ||| gfpDma else gfpKernel) s = .ok (x, s') ∧
      Served s F S L z 2 x s' F' S' L' κ') ∧
    (zoneFreePages z s.buddy < pagesNeeded s z 2 → noEmptySlabs s z = true →
      kmalloc sizeofSlab (if z = .dma then gfpKernel ||| gfpDma else gfpKernel) s = .ok (0, s))

/-- `slab_create` once it has its page. -/
theorem slabCreate_of_page (kmalloc : ℕ → ℕ → KState → Kern (ℕ × KState)) {b : BuddyState}
    (hrun : buddyAllocPages pageSize z s.buddy = .ok (pageToPhys p, b)) (hphys : pageToPhys p ≠ 0)
    (hpage : pageAddrToPage (pageToPhys p) = p) :
    slabCreate kmalloc (z, c) z s =
      if slabIsExternal (s.caches z c).objectSize then do
        let (ret, s') ← kmalloc sizeofSlab
          (if z = .dma then gfpKernel ||| gfpDma else gfpKernel) (pageInHand s b p)
        if ret = 0 then do
          let buddy ← buddyFreeBlock (pageToPhys p) s'.buddy
          return (0, { s' with buddy := buddy })
        slabSetup (z, c) p ret (physToVirtLinear (pageToPhys p)) pageSize s'
      else
        slabSetup (z, c) p (physToVirtLinear (pageToPhys p))
          (add32 (physToVirtLinear (pageToPhys p)) sizeofSlab) (pageSize - sizeofSlab)
          (pageInHand s b p) := by
  unfold slabCreate
  rw [hrun]
  simp only [ok_bind, hphys, if_false, hpage]
  rfl

/-- With no slab at hand `slab_alloc` asks `slab_create`. -/
theorem chooseSlab_create (kmalloc : ℕ → ℕ → KState → Kern (ℕ × KState))
    (hready : slabReady s z c = false) :
    chooseSlab kmalloc (z, c) s = (do
      let (slab, s') ← slabCreate kmalloc (z, c) z s
      if slab = 0 then .ok (none, s')
      else do
        let s'' ← s'.listAddHead slab (z, c) .part
        .ok (some slab, s'')) := by
  have hlists : (s.caches z c).slabsPartial = [] ∧ (s.caches z c).slabsEmpty = [] := by
    simpa [slabReady] using hready
  simp only [chooseSlab, hlists.1, hlists.2]

/-- `slab_create` for a class whose slabs hold their own header. -/
theorem SlabInv.chooseSlab_intrusive (h : SlabInv s F S L κ) (hfiled : Filed s S ∅ κ)
    (h0 : 0 ∉ F) (hz : z ≠ .highmem) (hc : c < numSlabCaches) (hready : slabReady s z c = false)
    (hext : isExternal c = false) (kmalloc : ℕ → ℕ → KState → Kern (ℕ × KState)) :
    (zoneFreePages z s.buddy = 0 ∧ chooseSlab kmalloc (z, c) s = .ok (none, s)) ∨
    (1 ≤ zoneFreePages z s.buddy ∧
      ∃ p s' F' S' L' κ', chooseSlab kmalloc (z, c) s = .ok (some (headerOf s' p), s') ∧
        Chosen s F S L z c p s' F' S' L' κ') := by
  have hsize : slabIsExternal (s.caches z c).objectSize = false := by
    rw [(h.caches z c hc).1]
    exact hext
  rcases h.allocPage h0 hz with ⟨hzero, hnull⟩ |
      ⟨p, b, hrun, hphys, hpage, hpF, hlin, hzone, hcount, hframe, hstate, hinv⟩
  · left
    refine ⟨hzero, ?_⟩
    rw [chooseSlab_create kmalloc hready]
    simp only [slabCreate, hnull, bind, Except.bind, if_true, pure, Except.pure]
  · right
    refine ⟨by omega, ?_⟩
    have hpS : p ∉ S := fun hS => h.notMem_free hS hpF
    have hold : ∀ q ∈ S, (pageInHand s b p).buddy.pages q = s.buddy.pages q := fun q hq =>
      hframe q (h.notMem_free hq)
    obtain ⟨hnew, hnotL⟩ := hinv.pageVirt_notMem hpS
    obtain ⟨mem, s₁, hfresh, hsetup, hadd⟩ := hinv.slabSetup_spec hpS
      (fun hmem => hmem.2 rfl) hlin hc hstate hnew (by rw [hext]; rfl)
    have hvirt : physToVirtLinear (pageToPhys p) = pageVirt p := physToVirtLinear_pageToPhys hlin
    have hfirst : add32 (pageVirt p) sizeofSlab = objAddr p c 0 := by
      unfold objAddr headerSpace
      rw [hext]
      unfold linearPages at hlin
      rw [add32_eq (by unfold pageVirt kernelVaddrBase sizeofSlab; omega)]
      simp
    have hne : pageVirt p ≠ 0 := by unfold pageVirt kernelVaddrBase; omega
    refine ⟨p, withSlab (pageInHand s b p) p (pageVirt p) (z, c) mem, _, _, _, _, ?_,
      h.chosen_withSlab hpF hzone hframe hinv (hfiled.congr_buddy hold)
        (Grow.refl _ hinv.disjoint) hfresh ?_ subset_rfl⟩
    · rw [hext, hzone] at hsetup
      rw [hzone] at hadd
      rw [headerOf_withSlab, if_pos rfl, chooseSlab_create kmalloc hready,
        slabCreate_of_page kmalloc hrun hphys hpage, hsize, hvirt, hfirst]
      simp only [Bool.false_eq_true, if_false] at hsetup ⊢
      rw [hsetup, ok_bind]
      simp only
      rw [if_neg hne, hadd, ok_bind]
    · have hheaders : headers (pageInHand s b p) S = headers s S := headers_congr_buddy hold
      rw [hheaders, Set.sdiff_insert_of_notMem hnotL]

/-- `buddy_free_block` refuses a page in the state `SLAB`. -/
theorem buddyFreeBlock_slab {b : BuddyState} {ptr : ℕ}
    (hstate : pageGetState (b.pages (pageAddrToPage ptr)) = pageStateSlab) :
    buddyFreeBlock ptr b =
      .error (.kpanic "Attempt to free a page with invalid state (%d) at %p\n") := by
  have h1 : pageStateSlab ≠ pageStateFree := by decide
  have h2 : pageStateSlab ≠ pageStateAllocated ∧ pageStateSlab ≠ pageStateAvailable := by decide
  unfold buddyFreeBlock
  simp only [hstate, h1, h2, if_false, if_true, ne_eq, not_false_eq_true, and_self]
  rfl

/-- `slab_create` for a class whose slabs have their header elsewhere. -/
theorem SlabInv.chooseSlab_external (h : SlabInv s F S L κ) (hfiled : Filed s S ∅ κ)
    (h0 : 0 ∉ F) (hz : z ≠ .highmem) (hc : c < numSlabCaches) (hready : slabReady s z c = false)
    (hext : isExternal c = true) {kmalloc : ℕ → ℕ → KState → Kern (ℕ × KState)}
    (hk : HeaderAlloc kmalloc) :
    (zoneFreePages z s.buddy = 0 ∧ chooseSlab kmalloc (z, c) s = .ok (none, s)) ∨
    (pagesNeeded s z 2 + 1 ≤ zoneFreePages z s.buddy ∧
      ∃ p s' F' S' L' κ', chooseSlab kmalloc (z, c) s = .ok (some (headerOf s' p), s') ∧
        Chosen s F S L z c p s' F' S' L' κ') ∨
    (1 ≤ zoneFreePages z s.buddy ∧ zoneFreePages z s.buddy ≤ pagesNeeded s z 2 ∧
      (noEmptySlabs s z = true → chooseSlab kmalloc (z, c) s =
        .error (.kpanic "Attempt to free a page with invalid state (%d) at %p\n"))) := by
  have hsize : slabIsExternal (s.caches z c).objectSize = true := by
    rw [(h.caches z c hc).1]
    exact hext
  rcases h.allocPage h0 hz with ⟨hzero, hnull⟩ |
      ⟨p, b, hrun, hphys, hpage, hpF, hlin, hzone, hcount, hframe, hstate, hinv⟩
  · left
    refine ⟨hzero, ?_⟩
    rw [chooseSlab_create kmalloc hready]
    simp only [slabCreate, hnull, bind, Except.bind, if_true, pure, Except.pure]
  · right
    have hpS : p ∉ S := fun hS => h.notMem_free hS hpF
    have hold : ∀ q ∈ S, (pageInHand s b p).buddy.pages q = s.buddy.pages q := fun q hq =>
      hframe q (h.notMem_free hq)
    have hfiled₁ : Filed (pageInHand s b p) S ∅ κ := hfiled.congr_buddy hold
    have h01 : 0 ∉ F \ {p} := fun hmem => h0 hmem.1
    obtain ⟨hgood, hbad⟩ := hk hinv hfiled₁ h01 hz
    have hneed : pagesNeeded (pageInHand s b p) z 2 = pagesNeeded s z 2 := rfl
    by_cases hfit : pagesNeeded s z 2 + 1 ≤ zoneFreePages z s.buddy
    · left
      refine ⟨hfit, ?_⟩
      -- the header comes from the class of 32 bytes, in a state where the page is in hand
      obtain ⟨x, s₁, F₁, S₁, L₁, κ₁, halloc, hserved⟩ := hgood (by omega)
      have hxmem : x ∈ L₁ \ headers s₁ S₁ := by
        rw [hserved.live]
        exact Set.mem_insert x _
      have hpS₁ : p ∉ S₁ := by
        intro hmem
        rcases hserved.grow.new hmem with hS | hF
        · exact hpS hS
        · exact hF.2 rfl
      have hpF₁ : p ∉ F₁ := by
        rw [hserved.grow.free]
        exact fun hmem => hmem.1.2 rfl
      have hstate₁ : pageGetState (s₁.buddy.pages p) = pageStateSlab := by
        rw [hserved.grow.pages p (fun hmem => hmem.2 rfl)]
        exact hstate
      have hheader : if isExternal c then x ∈ L₁ ∧ ∃ q ∈ S₁, classOf s₁ q = 2 ∧ x ∈ objects q 2
          else x = pageVirt p := by
        rw [if_pos hext]
        obtain ⟨q, hq, hcq, -, hobj⟩ := hserved.obj
        exact ⟨hxmem.1, q, hq, hcq, hobj⟩
      obtain ⟨mem, s₂, hfresh, hsetup, hadd⟩ :=
        hserved.inv.slabSetup_spec hpS₁ hpF₁ hlin hc hstate₁ hxmem.2 hheader
      have hvirt : physToVirtLinear (pageToPhys p) = objAddr p c 0 := by
        rw [physToVirtLinear_pageToPhys hlin]
        unfold objAddr headerSpace
        rw [hext]
        simp
      have hne : x ≠ 0 := by
        obtain ⟨q, -, -, -, hobj⟩ := hserved.obj
        have hrange := objects_range (by decide : (2 : ℕ) < numSlabCaches) hobj
        unfold pageVirt kernelVaddrBase at hrange
        omega
      have hheaders : headers (pageInHand s b p) S = headers s S := headers_congr_buddy hold
      have hxL : x ∉ L \ headers s S := fun hmem => hserved.fresh hmem.1
      refine ⟨p, withSlab s₁ p x (z, c) mem, _, _, _, _, ?_,
        h.chosen_withSlab hpF hzone hframe hserved.inv hserved.filed hserved.grow hfresh ?_
          hserved.mono⟩
      · rw [hext, hzone] at hsetup
        rw [hzone] at hadd
        rw [headerOf_withSlab, if_pos rfl, chooseSlab_create kmalloc hready,
          slabCreate_of_page kmalloc hrun hphys hpage, hsize, hvirt]
        simp only [if_true] at hsetup ⊢
        rw [halloc, ok_bind]
        simp only
        rw [if_neg hne, hsetup, ok_bind]
        simp only
        rw [if_neg hne, hadd, ok_bind]
      · calc L₁ \ insert x (headers s₁ S₁)
            = (L₁ \ headers s₁ S₁) \ {x} := by rw [Set.sdiff_sdiff, Set.union_singleton]
          _ = insert x (L \ headers s S) \ {x} := by rw [hserved.live, hheaders]
          _ = L \ headers s S := Set.insert_sdiff_self_of_notMem hxL
    · right
      refine ⟨by omega, by omega, fun hempty => ?_⟩
      have hnull := hbad (by omega) hempty
      rw [chooseSlab_create kmalloc hready, slabCreate_of_page kmalloc hrun hphys hpage, hsize]
      simp only [if_true]
      rw [hnull, ok_bind]
      simp only [if_true]
      rw [buddyFreeBlock_slab (by rw [hpage]; exact hstate)]
      rfl

/-- The header class: one page for a new slab, none otherwise. -/
theorem pagesNeeded_two (s : KState) (z : Zone) :
    pagesNeeded s z 2 = if slabReady s z 2 then 0 else 1 := by
  have hext : isExternal 2 = false := by decide
  unfold pagesNeeded
  rw [hext]
  rfl

/-- **`slab_alloc`** serves the request when the zone has the pages it needs. Without a free page
it returns `NULL`; with one page where it needs two it ends in the panic of `buddy_free_block`,
unless the header can be had by reclaiming. -/
theorem SlabInv.slabAlloc_spec (h : SlabInv s F S L κ) (hfiled : Filed s S ∅ κ) (h0 : 0 ∉ F)
    (hz : z ≠ .highmem) {size : ℕ} (hsize : sizeToCacheSize size = c) (hc : c < numSlabCaches)
    {kmalloc : ℕ → ℕ → KState → Kern (ℕ × KState)}
    (hk : isExternal c = true → HeaderAlloc kmalloc) :
    (pagesNeeded s z c ≤ zoneFreePages z s.buddy ∧
      ∃ x s' F' S' L' κ', slabAlloc kmalloc size z s = .ok (x, s') ∧
        Served s F S L z c x s' F' S' L' κ') ∨
    (zoneFreePages z s.buddy < pagesNeeded s z c ∧ zoneFreePages z s.buddy = 0 ∧
      slabAlloc kmalloc size z s = .ok (0, s)) ∨
    (zoneFreePages z s.buddy < pagesNeeded s z c ∧ zoneFreePages z s.buddy = 1 ∧
      (noEmptySlabs s z = true → slabAlloc kmalloc size z s =
        .error (.kpanic "Attempt to free a page with invalid state (%d) at %p\n"))) := by
  have hguard : ¬ (c = numSlabCaches ∨ z = .highmem) := by
    rintro (heq | heq)
    · exact absurd heq hc.ne
    · exact hz heq
  -- the two halves of the function
  have hserve : ∀ {p s₁ F₁ S₁ L₁ κ₁}, chooseSlab kmalloc (z, c) s = .ok (some (headerOf s₁ p), s₁) →
      Chosen s F S L z c p s₁ F₁ S₁ L₁ κ₁ → ∃ x s' F' S' L' κ',
        slabAlloc kmalloc size z s = .ok (x, s') ∧ Served s F S L z c x s' F' S' L' κ' := by
    intro p s₁ F₁ S₁ L₁ κ₁ hrun hch
    obtain ⟨x, s', κ', htake, hserved⟩ := hch.takeObject_spec
    refine ⟨x, s', _, _, _, κ', ?_, hserved⟩
    unfold slabAlloc
    rw [hsize, if_neg hguard, hrun, ok_bind]
    exact htake
  have hnone : chooseSlab kmalloc (z, c) s = .ok (none, s) →
      slabAlloc kmalloc size z s = .ok (0, s) := by
    intro hrun
    unfold slabAlloc
    rw [hsize, if_neg hguard, hrun, ok_bind]
    rfl
  cases hready : slabReady s z c with
  | true =>
    left
    have hneed : pagesNeeded s z c = 0 := by
      unfold pagesNeeded
      rw [if_pos hready]
    obtain ⟨p, s₁, κ₁, hrun, hch⟩ := h.chooseSlab_ready hfiled hc hready kmalloc
    exact ⟨by omega, hserve hrun hch⟩
  | false =>
    cases hext : isExternal c with
    | false =>
      have hneed : pagesNeeded s z c = 1 := by
        unfold pagesNeeded
        rw [hready, hext]
        rfl
      rcases h.chooseSlab_intrusive hfiled h0 hz hc hready hext kmalloc with
        ⟨hzero, hrun⟩ | ⟨hpos, p, s₁, F₁, S₁, L₁, κ₁, hrun, hch⟩
      · exact Or.inr (Or.inl ⟨by omega, hzero, hnone hrun⟩)
      · exact Or.inl ⟨by omega, hserve hrun hch⟩
    | true =>
      have hneed : pagesNeeded s z c = pagesNeeded s z 2 + 1 := by
        rw [pagesNeeded_two]
        unfold pagesNeeded
        rw [hready, hext]
        cases slabReady s z 2 <;> rfl
      have hneed2 : pagesNeeded s z 2 ≤ 1 := by
        rw [pagesNeeded_two]
        split <;> omega
      rcases h.chooseSlab_external hfiled h0 hz hc hready hext (hk hext) with
        ⟨hzero, hrun⟩ | ⟨hfit, p, s₁, F₁, S₁, L₁, κ₁, hrun, hch⟩ | ⟨hone, hle, hstop⟩
      · exact Or.inr (Or.inl ⟨by omega, hzero, hnone hrun⟩)
      · exact Or.inl ⟨by omega, hserve hrun hch⟩
      · refine Or.inr (Or.inr ⟨by omega, by omega, fun hempty => ?_⟩)
        unfold slabAlloc
        rw [hsize, if_neg hguard, hstop hempty]
        rfl

end Allocation

end Kfs.Memory
