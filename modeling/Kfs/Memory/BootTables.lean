import Kfs.Memory.BootAllocatorSpec

/-!
# Tables of non-empty regions

On regions that end above their start, sorting and merging neither lose nor add a byte. If the
regions are pairwise apart as well, the merged table is sorted with a gap between any two entries.
-/

namespace Kfs.Memory

open Kfs.Lib

/-- No byte belongs to both regions. -/
def Region.Apart (a b : Region) : Prop := ∀ p, a.Has p → ¬ b.Has p

/-- Every region of the table ends above its start. -/
def NonEmptyRegions (regions : List Region) : Prop := ∀ reg ∈ regions, reg.start < reg.stop

/-- Each region ends below the start of the ones after it. -/
def Gapped (regions : List Region) : Prop := regions.Pairwise fun a b => a.stop < b.start

theorem Region.Apart.symm {a b : Region} (h : a.Apart b) : b.Apart a := fun p hb ha => h p ha hb

/-- Of two non-empty regions that are apart, the one that starts first ends first. -/
theorem Region.Apart.stop_le {a b : Region} (h : a.Apart b) (hb : b.start < b.stop)
    (hle : a.start ≤ b.start) : a.stop ≤ b.start := by
  by_contra hlt
  exact h b.start ⟨hle, not_le.mp hlt⟩ ⟨le_rfl, hb⟩

/-- A table with gaps has no byte twice. -/
theorem Gapped.apart {regions : List Region} (h : Gapped regions) :
    regions.Pairwise Region.Apart := by
  refine List.Pairwise.imp (fun {a b} hlt p ha hb => ?_) h
  obtain ⟨_, ha₂⟩ := ha
  obtain ⟨hb₁, _⟩ := hb
  omega

section Covers

variable {regions : List Region} {p : ℕ}

@[simp] theorem covers_nil : ¬ Covers [] p := fun ⟨_, hreg, _⟩ => absurd hreg (by simp)

theorem covers_cons {reg : Region} : Covers (reg :: regions) p ↔ reg.Has p ∨ Covers regions p := by
  simp [Covers]

theorem covers_append {regions' : List Region} :
    Covers (regions ++ regions') p ↔ Covers regions p ∨ Covers regions' p := by
  unfold Covers
  simp only [List.mem_append]
  constructor
  · rintro ⟨reg, hreg | hreg, hp⟩
    · exact .inl ⟨reg, hreg, hp⟩
    · exact .inr ⟨reg, hreg, hp⟩
  · rintro (⟨reg, hreg, hp⟩ | ⟨reg, hreg, hp⟩)
    · exact ⟨reg, .inl hreg, hp⟩
    · exact ⟨reg, .inr hreg, hp⟩

/-- The bytes of a table do not depend on its order. -/
theorem Covers.perm {regions' : List Region} (h : regions.Perm regions') :
    Covers regions p ↔ Covers regions' p := by
  unfold Covers
  simp only [h.mem_iff]

end Covers

section SortAndMerge

variable {regions merged : List Region}

/-- No end of a non-empty region is lost. -/
theorem not_lostEnd (hne : NonEmptyRegions regions) {reg : Region} (hreg : reg ∈ regions) :
    ¬ LostEnd regions reg.stop := by
  intro hlost
  generalize hstop : reg.stop = stop at hlost
  induction hlost generalizing reg with
  | zero =>
    have := hne reg hreg
    omega
  | step hmem _ ih => exact ih hmem rfl

/-- **Sorting and merging keep exactly the bytes** of a table of non-empty regions. -/
theorem sortAndMerge_covers (hne : NonEmptyRegions regions) (h : sortAndMerge regions = .ok merged) :
    NonEmptyRegions merged ∧ ∀ p, Covers merged p ↔ Covers regions p := by
  have hsub := sortAndMerge_free hne h
  have hsup := (sortAndMerge_reserved (fun reg hreg => .inl (hne reg hreg)) h).2
  refine ⟨fun reg hreg => (hsub reg hreg).1, fun p => ⟨?_, ?_⟩⟩
  · rintro ⟨reg, hreg, hp⟩
    exact (hsub reg hreg).2 p hp
  · rintro ⟨reg, hreg, hp⟩
    exact hsup reg hreg (not_lostEnd hne hreg) p hp

/-- Merging a sorted table of regions that do not overlap closes all the seams. -/
theorem mergeLoop_gapped (rest : List Region) : ∀ {cur : Region},
    NonEmptyRegions (cur :: rest) → (cur :: rest).Pairwise (fun a b => a.stop ≤ b.start) →
    Gapped (mergeLoop cur rest) ∧ ∀ out ∈ mergeLoop cur rest, cur.start ≤ out.start := by
  induction rest with
  | nil =>
    intro cur _ _
    simp [mergeLoop, Gapped]
  | cons next rest ih =>
    intro cur hne hsorted
    have hcur := hne cur (by simp)
    have hnext := hne next (by simp)
    obtain ⟨hhead, htail⟩ := List.pairwise_cons.mp hsorted
    have hle : cur.stop ≤ next.start := hhead next (by simp)
    have hneTail : NonEmptyRegions (next :: rest) :=
      fun reg hreg => hne reg (List.mem_cons_of_mem cur hreg)
    unfold mergeLoop
    split
    next htouch =>
      -- the joined region ends where `next` ended
      have hneJoined : NonEmptyRegions ({ cur with stop := next.stop } :: rest) := by
        intro reg hreg
        rcases List.mem_cons.mp hreg with rfl | hreg
        · dsimp only
          omega
        · exact hne reg (by simp [hreg])
      exact ih hneJoined (List.pairwise_cons.mpr (List.pairwise_cons.mp htail))
    next hgap =>
      obtain ⟨hgapped, hlow⟩ := ih hneTail htail
      refine ⟨List.pairwise_cons.mpr ⟨fun out hout => ?_, hgapped⟩, fun out hout => ?_⟩
      · have := hlow out hout
        omega
      · rcases List.mem_cons.mp hout with rfl | hout
        · exact le_rfl
        · have := hlow out hout
          omega

/-- **Sorting and merging regions that are apart** leaves a gap between any two. -/
theorem sortAndMerge_gapped (hne : NonEmptyRegions regions) (hapart : regions.Pairwise Region.Apart)
    (h : sortAndMerge regions = .ok merged) : Gapped merged := by
  rcases sortAndMerge_eq h with ⟨rfl, rfl⟩ | ⟨cur, rest, hs, rfl⟩
  · exact List.Pairwise.nil
  · have hperm : (cur :: rest).Perm regions := hs ▸ sortRegions_perm regions
    have hne' : NonEmptyRegions (cur :: rest) := fun reg hreg => hne reg (hperm.mem_iff.mp hreg)
    have hapart' : (cur :: rest).Pairwise Region.Apart :=
      (hperm.pairwise_iff fun {a b} => Region.Apart.symm).mpr hapart
    have hsorted : ByStart (cur :: rest) := hs ▸ sortRegions_byStart regions
    refine (mergeLoop_gapped rest hne' ?_).1
    refine (hapart'.and hsorted).imp_of_mem fun {a b} _ hb hab => ?_
    exact hab.1.stop_le (hne' b hb) hab.2

/-- Merging does not lengthen a table. -/
theorem mergeLoop_length (rest : List Region) : ∀ {cur : Region},
    (mergeLoop cur rest).length ≤ rest.length + 1 := by
  induction rest with
  | nil =>
    intro cur
    simp [mergeLoop]
  | cons next rest ih =>
    intro cur
    unfold mergeLoop
    split
    · exact ih.trans (by simp)
    · simpa using ih

/-- A table that fits is sorted and merged. -/
theorem sortAndMerge_ok (hlen : regions.length ≤ maxRegions) :
    ∃ merged, sortAndMerge regions = .ok merged ∧ merged.length ≤ regions.length := by
  have hperm := sortRegions_perm regions
  unfold sortAndMerge
  cases hs : sortRegions regions with
  | nil => exact ⟨[], rfl, Nat.zero_le _⟩
  | cons cur rest =>
    have hsorted : ByStart (cur :: rest) := hs ▸ sortRegions_byStart regions
    have hlength : rest.length + 1 = regions.length := by
      rw [← hperm.length_eq, hs, List.length_cons]
    have hle : (mergeLoop cur rest).length ≤ rest.length + 1 := mergeLoop_length rest
    refine ⟨mergeLoop cur rest, ?_, by omega⟩
    simp only [mergeContiguousRegions, sortRegions_of_byStart hsorted, List.tail_cons]
    rw [if_neg (by omega)]

end SortAndMerge

end Kfs.Memory
