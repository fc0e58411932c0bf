import Kfs.Memory.UserCopy
import Kfs.Proc.Registry

/-!
# What a call of `waitpid` writes and releases

`sys_waitpid` of `src/syscalls/waitpid.c` with the copy of the exit code to the caller. The model of
`Kfs.Proc.Scheduler` is told whether the copy succeeds; here it is the copy of `Kfs.Memory.UserCopy`
in the memory that the call finds.

## Layers

- **The code**: one turn of the loop, with the memory before and after it.
- **The turn**: `Turn` says once what a turn can do, and a turn is one of `Kfs.Proc.Scheduler`.
- **The status**: what the caller reads at `status` after a copy that succeeded.
-/

namespace Kfs.Proc.Wait

open Kfs.Lib Kfs.Lib.Word32 Kfs.Memory

/-! ## The code -/

def exitCodeOffset : ℕ := 224 -- offsetof(struct task, exit_code)
def sizeofInt : ℕ := 4 -- sizeof(int)

/-- Physical memory and the page directory of the caller. -/
structure UserMemory where
  bytes : ℕ → ℕ
  cr3 : ℕ

/-- The copy of `zombie->exit_code` to `status`, if there is one to make: whether the call goes on. -/
def putStatus (status : ℕ) (zombie : TaskId) (m : UserMemory) : Kern (Bool × UserMemory) :=
  if status = 0 then .ok (true, m)
  else do
    let (left, bytes) ← copyToUser m.cr3 status (zombie + exitCodeOffset) sizeofInt m.bytes
    .ok (left = 0, { m with bytes := bytes })

/-- One turn of the loop of `sys_waitpid`. -/
def sysWaitpid (pid : ℤ) (status : ℕ) (m : UserMemory) (k : Kernel) :
    Kern (WaitResult × UserMemory × Kernel) :=
  if pid = 0 ∨ pid < -1 then .ok (.ret (-22), m, k)
  else do
    let cur ← k.getTask k.current
    if cur.children = [] then
      if k.current ≠ k.kitoxD then .ok (.ret (-10), m, k)
      else do
        let k ← waitForChild k
        .ok (.blocked, m, k)
    else if pid > 0 ∧ !taskHasChildPid cur.children pid k then .ok (.ret (-10), m, k)
    else
      match findZombieChild cur.children pid k with
      | some zombie => do
        let z ← k.getTask zombie
        let (copied, m) ← putStatus status zombie m
        if !copied then .ok (.ret (-14), m, k)
        else do
          let k ← taskRelease k.current zombie k
          .ok (.ret z.pid, m, k)
      | none => do
        let k ← waitForChild k
        .ok (.blocked, m, k)

/-! ## The turn -/

/-- The kernel has lost the child `t` of `p`, and nothing else has changed. -/
structure Released (p t : TaskId) (k k' : Kernel) : Prop where
  gone : k'.tasks t = none
  parent : ∀ y, k.tasks p = some y → k'.tasks p = some { y with children := y.children.erase t }
  others : ∀ u, u ≠ t → u ≠ p → k'.tasks u = k.tasks u
  rest : { k' with tasks := k.tasks } = k

/-- The three ways in which a turn ends. -/
inductive Turn (pid : ℤ) (status : ℕ) (m : UserMemory) (k : Kernel) (r : WaitResult)
    (m' : UserMemory) (k' : Kernel) : Prop where
  | fails (value : ℤ) (hv : value < 0) (hr : r = .ret value) (hm : m' = m) (hk : k' = k)
  | reaps (t : TaskId) (cur x : Task) (hcur : k.tasks k.current = some cur)
      (hfind : findZombieChild cur.children pid k = some t) (hx : k.tasks t = some x)
      (hput : putStatus status t m = .ok (true, m')) (hr : r = .ret x.pid)
      (hk : taskRelease k.current t k = .ok k')
  | sleeps (hr : r = .blocked) (hm : m' = m) (hk : waitForChild k = .ok k')

section Turns

variable {pid : ℤ} {status : ℕ} {m m' : UserMemory} {k k' : Kernel} {r : WaitResult} {t : TaskId}

/-- Two equal results of a turn. -/
theorem result_inj {r₁ r₂ : WaitResult} {m₁ m₂ : UserMemory} {k₁ k₂ : Kernel}
    (h : (.ok (r₁, m₁, k₁) : Kern (WaitResult × UserMemory × Kernel)) = .ok (r₂, m₂, k₂)) :
    r₁ = r₂ ∧ m₁ = m₂ ∧ k₁ = k₂ := by
  simpa using h

/-- A copy that does not succeed has written nothing. -/
theorem usercopy_failed {cr3 kernelBuf userBuf n left : ℕ} {copyIntoKbuf : Bool}
    {bytes bytes' : ℕ → ℕ}
    (h : usercopy cr3 kernelBuf userBuf n copyIntoKbuf bytes = .ok (left, bytes'))
    (hleft : left ≠ 0) : bytes' = bytes := by
  unfold usercopy at h
  split at h
  · exact (Prod.mk.inj (Except.ok.inj h)).2.symm
  · rw [bind_eq_ok] at h
    obtain ⟨pd, -, h⟩ := h
    rw [bind_eq_ok] at h
    obtain ⟨ret, -, h⟩ := h
    split at h
    · exact (Prod.mk.inj (Except.ok.inj h)).2.symm
    · rw [bind_eq_ok] at h
      obtain ⟨bytes₁, -, h⟩ := h
      exact absurd (Prod.mk.inj (Except.ok.inj h)).1.symm hleft

theorem putStatus_failed (h : putStatus status t m = .ok (false, m')) : m' = m := by
  unfold putStatus at h
  split at h
  · cases Except.ok.inj h
  · rw [bind_eq_ok] at h
    obtain ⟨⟨left, bytes⟩, hcopy, h⟩ := h
    obtain ⟨hleft, rfl⟩ := Prod.mk.inj (Except.ok.inj h)
    rw [usercopy_failed hcopy (of_decide_eq_false hleft)]

/-- What a turn does. -/
theorem sysWaitpid_cases (h : sysWaitpid pid status m k = .ok (r, m', k')) :
    Turn pid status m k r m' k' := by
  have hblock : (waitForChild k >>= fun k => Except.ok (WaitResult.blocked, m, k)) = .ok (r, m', k') →
      Turn pid status m k r m' k' := by
    intro h
    rw [bind_eq_ok] at h
    obtain ⟨k₁, h₁, h⟩ := h
    obtain ⟨rfl, rfl, rfl⟩ := result_inj h
    exact .sleeps rfl rfl h₁
  have hfail : ∀ value : ℤ, value < 0 → (.ok (.ret value, m, k) : Kern _) = .ok (r, m', k') →
      Turn pid status m k r m' k' := by
    intro value hv h
    obtain ⟨rfl, rfl, rfl⟩ := result_inj h
    exact .fails value hv rfl rfl rfl
  unfold sysWaitpid at h
  split at h
  · exact hfail (-22) (by decide) h -- a bad pid
  rw [bind_eq_ok] at h
  obtain ⟨cur, hcur, h⟩ := h
  have hcur := getTask_ok hcur
  split at h
  · split at h
    · exact hfail (-10) (by decide) h -- no child
    · exact hblock h
  split at h
  · exact hfail (-10) (by decide) h -- no child with the pid
  split at h
  · next zombie hfind =>
    rw [bind_eq_ok] at h
    obtain ⟨x, hx, h⟩ := h
    rw [bind_eq_ok] at h
    obtain ⟨⟨copied, m₁⟩, hput, h⟩ := h
    cases copied with
    | false =>
      rw [putStatus_failed hput] at h
      exact hfail (-14) (by decide) h -- the status cannot be written
    | true =>
      dsimp only at h
      rw [if_neg (by decide), bind_eq_ok] at h
      obtain ⟨k₁, hk₁, h⟩ := h
      obtain ⟨rfl, rfl, rfl⟩ := result_inj h
      exact .reaps zombie cur x hcur hfind (getTask_ok hx) hput rfl hk₁
  · exact hblock h

/-- A turn is one of `Kfs.Proc.Scheduler`, for the outcome of its copy. -/
theorem sysWaitpid_refines (h : sysWaitpid pid status m k = .ok (r, m', k')) :
    ∃ copyOk, Proc.sysWaitpid pid copyOk k = .ok (r, k') := by
  -- The two definitions agree where a wait blocks, and where it fails at once.
  have hblock : (waitForChild k >>= fun k => Except.ok (WaitResult.blocked, m, k)) = .ok (r, m', k') →
      (waitForChild k >>= fun k => Except.ok (WaitResult.blocked, k)) = .ok (r, k') := by
    intro h
    rw [bind_eq_ok] at h
    obtain ⟨k₁, h₁, h⟩ := h
    obtain ⟨rfl, -, rfl⟩ := result_inj h
    rw [h₁, ok_bind]
  have hfail : ∀ value : ℤ, (.ok (.ret value, m, k) : Kern _) = .ok (r, m', k') →
      (.ok (.ret value, k) : Kern _) = .ok (r, k') := by
    intro value h
    obtain ⟨rfl, -, rfl⟩ := result_inj h
    rfl
  unfold sysWaitpid at h
  unfold Proc.sysWaitpid
  split at h
  · next hpid => exact ⟨true, by rw [if_pos hpid]; exact hfail _ h⟩
  next hpid =>
  rw [bind_eq_ok] at h
  obtain ⟨cur, hcur, h⟩ := h
  simp only [if_neg hpid, hcur, ok_bind]
  split at h
  · next hnil =>
    simp only [if_pos hnil]
    split at h
    · next hne => exact ⟨true, by rw [if_pos hne]; exact hfail _ h⟩
    · next hne => exact ⟨true, by rw [if_neg hne]; exact hblock h⟩
  next hnil =>
  simp only [if_neg hnil]
  split at h
  · next hno => exact ⟨true, by rw [if_pos hno]; exact hfail _ h⟩
  next hno =>
  simp only [if_neg hno]
  -- Only a zombie's status is copied; `copied` is what that copy returned.
  cases hfind : findZombieChild cur.children pid k with
  | some zombie =>
    rw [hfind] at h
    dsimp only at h ⊢
    rw [bind_eq_ok] at h
    obtain ⟨x, hx, h⟩ := h
    rw [bind_eq_ok] at h
    obtain ⟨⟨copied, m₁⟩, hput, h⟩ := h
    refine ⟨copied, ?_⟩
    rw [hx, ok_bind]
    dsimp only at h
    split at h
    · next hno =>
      rw [putStatus_failed (show putStatus status zombie m = .ok (false, m₁) by simp_all)] at h
      rw [if_pos hno]
      exact hfail _ h
    · next hyes =>
      rw [if_neg hyes]
      rw [bind_eq_ok] at h
      obtain ⟨k₁, hk₁, h⟩ := h
      obtain ⟨rfl, -, rfl⟩ := result_inj h
      rw [hk₁, ok_bind]
  | none =>
    rw [hfind] at h
    exact ⟨true, hblock h⟩

/-- **`task_release`** of a child. -/
theorem taskRelease_released {p : TaskId} (hpt : p ≠ t) (h : taskRelease p t k = .ok k') :
    Released p t k k' := by
  unfold taskRelease at h
  rw [bind_eq_ok] at h
  obtain ⟨y, hy, h⟩ := h
  have hy := getTask_ok hy
  obtain rfl := Except.ok.inj h
  refine ⟨if_pos rfl, fun z hz => ?_, fun u hut hup => ?_, rfl⟩
  · obtain rfl := Option.some.inj (hy.symm.trans hz)
    dsimp only
    rw [if_neg hpt, Kernel.setTask_self]
  · dsimp only
    rw [if_neg hut, Kernel.setTask_of_ne k _ hup]

end Turns

/-! ## The status -/

/-- User code reads the word `w` at `status`. -/
def UserWord (m : UserMemory) (status w : ℕ) : Prop :=
  ∀ i < sizeofInt, ∃ p, translate m.bytes m.cr3 (status + i) = some p ∧
    m.bytes p = w / 256 ^ i % 256

/-- The bytes of the page tables that the translation of `v` reads. -/
def walkBytes (bytes : ℕ → ℕ) (pd v : ℕ) : Set ℕ :=
  { a | (∃ j < 4, a = pd + 4 * getPdeIndex v + j) ∨
    ∃ j < 4, a = getEntryAddr (readWord bytes (pd + 4 * getPdeIndex v)) + 4 * getPteIndex v + j }

/-- What a call that writes the exit code of `t` relies on: the tables of the caller lie in linearly
mapped memory, `&t->exit_code` is a mapped kernel address whose bytes are those of the exit code `w`,
and the word at `status` shares no byte with it or with the page tables. -/
structure StatusBuffer (m : UserMemory) (status : ℕ) (t : TaskId) (w : ℕ) : Prop where
  cr3 : m.cr3 < highmemStart
  tables : TablesLinear m.bytes m.cr3
  status_lt : status < 2 ^ 32
  kernel : kernelVaddrBase ≤ t + exitCodeOffset ∧ t + exitCodeOffset + sizeofInt ≤ 2 ^ 32
  exitCode : ∀ i < sizeofInt, ∃ q, translate m.bytes m.cr3 (t + exitCodeOffset + i) = some q ∧
    m.bytes q = w / 256 ^ i % 256
  apart : ∀ i < sizeofInt, ∀ j < sizeofInt,
    translate m.bytes m.cr3 (t + exitCodeOffset + i) ≠ translate m.bytes m.cr3 (status + j)
  outside : ∀ i < sizeofInt, ∀ p, translate m.bytes m.cr3 (status + i) = some p →
    ∀ j < sizeofInt, p ∉ walkBytes m.bytes m.cr3 (status + j)

section Status

variable {bytes bytes' : ℕ → ℕ} {pd v : ℕ} {m m' : UserMemory} {status w : ℕ} {t : TaskId}

theorem readWord_congr {a : ℕ} (h : ∀ j < 4, bytes' (a + j) = bytes (a + j)) :
    readWord bytes' a = readWord bytes a := by
  unfold readWord
  rw [h 1 (by decide), h 2 (by decide), h 3 (by decide)]
  have h₀ := h 0 (by decide)
  rw [Nat.add_zero] at h₀
  rw [h₀]

/-- A translation depends on the bytes that it reads. -/
theorem translate_congr (h : ∀ a ∈ walkBytes bytes pd v, bytes' a = bytes a) :
    translate bytes' pd v = translate bytes pd v := by
  have hpde : readWord bytes' (pd + 4 * getPdeIndex v) = readWord bytes (pd + 4 * getPdeIndex v) :=
    readWord_congr fun j hj => h _ (.inl ⟨j, hj, rfl⟩)
  unfold Memory.translate
  dsimp only
  rw [hpde, readWord_congr fun j hj => h _ (.inr ⟨j, hj, rfl⟩)]

/-- Translation keeps the offset in the page. -/
theorem translate_mod {p : ℕ} (h : translate bytes pd v = some p) : p % 4096 = v % 4096 := by
  unfold Memory.translate at h
  dsimp only at h
  split at h
  · split at h
    · have hp := Option.some.inj h
      obtain ⟨frame, hframe⟩ := getEntryAddr_dvd (readWord bytes (getEntryAddr (readWord bytes
        (pd + 4 * getPdeIndex v)) + 4 * getPteIndex v))
      unfold pageSize at hp
      omega
    · cases h
  · cases h

/-- Bytes of a word in user memory lie at distinct places. -/
theorem translate_inj {i j p : ℕ} (hi : i < sizeofInt) (hj : j < sizeofInt)
    (hpi : translate bytes pd (v + i) = some p) (hpj : translate bytes pd (v + j) = some p) :
    i = j := by
  have hmi := translate_mod hpi
  have hmj := translate_mod hpj
  unfold sizeofInt at hi hj
  omega

/-- **A status that was written**: the caller reads the exit code there. -/
theorem putStatus_userWord (hstatus : status ≠ 0) (h : StatusBuffer m status t w)
    (hput : putStatus status t m = .ok (true, m')) : UserWord m' status w := by
  have hmapped : ∀ i < sizeofInt, translate m.bytes m.cr3 (t + exitCodeOffset + i) ≠ none := by
    intro i hi
    obtain ⟨q, hq, -⟩ := h.exitCode i hi
    rw [hq]
    exact Option.some_ne_none q
  obtain ⟨left, bytes, hcopy, hleft, hcopied, -⟩ :=
    (usercopy_exact h.status_lt (by decide) h.cr3 h.tables h.kernel hmapped h.apart).1
  unfold putStatus at hput
  rw [if_neg hstatus, hcopy, ok_bind] at hput
  obtain ⟨hzero, rfl⟩ := Prod.mk.inj (Except.ok.inj hput)
  have hzero : left = 0 := of_decide_eq_true hzero
  have hcopied := hcopied hzero
  have haccess := (hleft.mp hzero).resolve_left (by decide)
  intro i hi
  have huser : translate m.bytes m.cr3 (status + i) ≠ none :=
    translate_of_pageHas (haccess.2 (status + i) (Nat.le_add_right status i) (by omega))
  obtain ⟨p, hp⟩ := Option.ne_none_iff_exists'.mp huser
  obtain ⟨q, hq, hbyte⟩ := h.exitCode i hi
  -- the page tables are as they were, and only byte `i` goes to this place
  have htables : translate bytes m.cr3 (status + i) = translate m.bytes m.cr3 (status + i) := by
    refine translate_congr fun a ha => hcopied.frame a fun j hj hpa => ?_
    exact h.outside j hj a hpa i hi ha
  refine ⟨p, htables.trans hp, ?_⟩
  exact (hcopied.value i hi p q hp hq
    fun j hij hj hpj => hij.ne (translate_inj hi hj hp hpj)).trans hbyte

end Status

end Kfs.Proc.Wait
