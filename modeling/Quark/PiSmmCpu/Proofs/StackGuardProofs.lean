import Mathlib.Data.BitVec
import Mathlib.Order.Monotone.Basic
import Quark.PiSmmCpu.Proofs.PageTableProofs

/-!
# Every stack is guarded

Pages are numbered. The guard pages are an arithmetic progression, and `GuardPage` is the first one of them that
the loops have not come by, or 0 behind the last. The blocks from the first guard page's to the last one's get a
page table, and no other block has a guard page in it.
-/

namespace Quark.PiSmmCpu

open Machine Exec

/-! ## Guard pages -/

def guardAt (c : PagingConfig) (cpu : Nat) : Nat :=
  c.stackArrayBase.toNat / 2 ^ 12 + 1 + cpu * (c.stackSize.toNat / 2 ^ 12)

def IsGuard (c : PagingConfig) (cpus page : Nat) : Prop := ∃ cpu < cpus, page = guardAt c cpu

def NextGuard (c : PagingConfig) (cpus page : Nat) (guardPage : BitVec 32) : Prop :=
  ∃ k ≤ cpus, (∀ cpu < k, guardAt c cpu < page) ∧
    (k < cpus → page ≤ guardAt c k ∧ guardPage.toNat = guardAt c k * 2 ^ 12) ∧ (k = cpus → guardPage = 0)

section Guards

variable {c : PagingConfig} {cpus page : Nat} {guardPage : BitVec 32}

theorem StackLayout.size_toNat (h : StackLayout c cpus) :
    c.stackSize.toNat = c.stackSize.toNat / 2 ^ 12 * 2 ^ 12 ∧ 3 ≤ c.stackSize.toNat / 2 ^ 12 := by
  have haligned := h.size_aligned
  have hge := h.size_ge
  omega

theorem guardAt_succ (c : PagingConfig) (cpu : Nat) :
    guardAt c (cpu + 1) = guardAt c cpu + c.stackSize.toNat / 2 ^ 12 := by
  rw [guardAt, guardAt, Nat.succ_mul]
  omega

theorem StackLayout.guardAt_strictMono (h : StackLayout c cpus) : StrictMono (guardAt c) := by
  refine strictMono_nat_of_lt_succ fun cpu => ?_
  have hsize := h.size_toNat.2
  rw [guardAt_succ]
  omega

theorem StackLayout.guardAt_toNat (h : StackLayout c cpus) (cpu : Nat) :
    guardAt c cpu * 2 ^ 12 = c.stackArrayBase.toNat + cpu * c.stackSize.toNat + 2 ^ 12 := by
  have hbase := h.base_aligned
  have hmul : cpu * c.stackSize.toNat = cpu * (c.stackSize.toNat / 2 ^ 12) * 2 ^ 12 := by
    rw [Nat.mul_assoc, ← h.size_toNat.1]
  rw [guardAt, hmul]
  omega

theorem StackLayout.guardAt_le (h : StackLayout c cpus) : guardAt c cpus ≤ 2 ^ 20 - 2 ^ 10 + 1 := by
  have hval := h.guardAt_toNat cpus
  have hbelow := h.below
  omega

theorem StackLayout.guardAt_lt (h : StackLayout c cpus) {cpu : Nat} (hcpu : cpu < cpus) :
    guardAt c cpu < 2 ^ 20 - 2 ^ 10 := by
  have hsize := h.size_toNat.2
  have hle := h.guardAt_strictMono.monotone (Nat.succ_le_of_lt hcpu)
  have htop := h.guardAt_le
  rw [Nat.succ_eq_add_one, guardAt_succ] at hle
  omega

theorem StackLayout.stackArrayEnd_toNat (h : StackLayout c cpus) :
    c.stackArrayEnd.toNat + 2 ^ 12 + 1 = guardAt c cpus * 2 ^ 12 := by
  have hval := h.guardAt_toNat cpus
  have hbelow := h.below
  have hsize := h.size_ge
  have hpos : 0 < cpus * c.stackSize.toNat := Nat.mul_pos h.cpus_pos (by omega)
  have hcpus : cpus ≤ cpus * c.stackSize.toNat := Nat.le_mul_of_pos_right _ (by omega)
  have hmul : (BitVec.ofNat 32 cpus * c.stackSize).toNat = cpus * c.stackSize.toNat := by
    rw [BitVec.toNat_mul, BitVec.toNat_ofNat, Nat.mod_eq_of_lt (a := cpus) (by omega)]
    exact Nat.mod_eq_of_lt (by omega)
  have hend : c.stackArrayEnd.toNat = c.stackArrayBase.toNat + cpus * c.stackSize.toNat - 1 := by
    rw [h.stackArrayEnd, BitVec.toNat_sub, BitVec.toNat_add, hmul, show (1 : BitVec 32).toNat = 1 from rfl]
    omega
  omega

theorem OnGuardPage.iff_isGuard (h : StackLayout c cpus) (address : BitVec 32) :
    OnGuardPage c cpus address ↔ IsGuard c cpus (address.toNat / 2 ^ 12) := by
  refine exists_congr fun cpu => and_congr_right fun _ => ?_
  rw [← h.guardAt_toNat cpu]
  omega

theorem NextGuard.step (h : StackLayout c cpus) (hn : NextGuard c cpus page guardPage) :
    if page * 2 ^ 12 = guardPage.toNat then
      IsGuard c cpus page ∧ NextGuard c cpus (page + 1)
        (if guardPage + c.stackSize > c.stackArrayEnd then 0 else guardPage + c.stackSize)
    else ¬ IsGuard c cpus page ∧ NextGuard c cpus (page + 1) guardPage := by
  have hmono := h.guardAt_strictMono
  obtain ⟨k, hk, hbefore, hnext, hlast⟩ := hn
  rcases Nat.lt_or_ge k cpus with hlt | hge
  · obtain ⟨hle, hval⟩ := hnext hlt
    split
    · next heq =>
      have hpage : page = guardAt c k := by omega
      refine ⟨⟨k, hlt, hpage⟩, k + 1, hlt, fun cpu hcpu => ?_, fun hmore => ?_, fun hall => ?_⟩
      · have hup := hmono.monotone (Nat.le_of_lt_succ hcpu)
        omega
      all_goals
        have hsum : (guardPage + c.stackSize).toNat = guardAt c (k + 1) * 2 ^ 12 := by
          have hup := hmono.monotone (Nat.succ_le_of_lt hlt)
          have htop := h.guardAt_le
          have hsize := h.size_toNat.1
          rw [Nat.succ_eq_add_one] at hup
          rw [BitVec.toNat_add, hval, guardAt_succ, Nat.add_mul, ← hsize]
          refine Nat.mod_eq_of_lt ?_
          rw [guardAt_succ] at hup
          omega
        have hend := h.stackArrayEnd_toNat
      · have hup := hmono hmore
        have hnot : ¬ guardPage + c.stackSize > c.stackArrayEnd := by
          have hgap := hmono.monotone (Nat.succ_le_of_lt hmore)
          have hsize := h.size_toNat.2
          rw [Nat.succ_eq_add_one, guardAt_succ] at hgap
          rw [gt_iff_lt, BitVec.lt_def, hsum]
          omega
        rw [if_neg hnot, hsum]
        have hstep := hmono (Nat.lt_succ_self k)
        exact ⟨by rw [hpage]; exact hstep, rfl⟩
      · refine if_pos ?_
        rw [gt_iff_lt, BitVec.lt_def, hsum, hall]
        omega
    · next hne =>
      refine ⟨?_, k, hk, fun cpu hcpu => (hbefore cpu hcpu).trans (Nat.lt_succ_self _), fun _ => ?_, hlast⟩
      · rintro ⟨cpu, -, hpage⟩
        rcases Nat.lt_trichotomy cpu k with hcpu | hcpu | hcpu
        · have := hbefore cpu hcpu
          omega
        · rw [hcpu] at hpage
          omega
        · have := hmono hcpu
          omega
      · have hne' : page ≠ guardAt c k := fun heq => hne (by rw [heq, hval])
        omega
  · obtain rfl : k = cpus := by omega
    have hzero := hlast rfl
    have hfirst := hbefore 0 h.cpus_pos
    rw [if_neg]
    · refine ⟨?_, k, hk, fun cpu hcpu => (hbefore cpu hcpu).trans (Nat.lt_succ_self _),
        fun hlt => absurd hlt (Nat.lt_irrefl _), hlast⟩
      rintro ⟨cpu, hcpu, hpage⟩
      have := hbefore cpu hcpu
      omega
    · rw [hzero]
      show ¬ page * 2 ^ 12 = 0
      omega

/-- The entry of a page: its own address, and that it is present and can be written to unless it is a guard. -/
def MapsPage (c : PagingConfig) (cpus page : Nat) (entry : BitVec 64) : Prop :=
  (IsGuard c cpus page → entry = BitVec.ofNat 64 (page * 2 ^ 12) + BitVec.ofNat 64 0) ∧
    (¬ IsGuard c cpus page → entry = BitVec.ofNat 64 (page * 2 ^ 12) + BitVec.ofNat 64 3)

theorem guardedEntries_eq (h : StackLayout c cpus) {pageIndex : BitVec 32}
    (hindex : pageIndex.toNat = page * 2 ^ 12) (hpage : page + 512 ≤ 2 ^ 20)
    (hn : NextGuard c cpus page guardPage) : ∀ n ≤ 512,
    NextGuard c cpus (page + n) (guardedEntries c pageIndex guardPage n).2 ∧
      ∀ k < n, MapsPage c cpus (page + k) (((guardedEntries c pageIndex guardPage n).1 k).setWidth 64) := by
  intro n
  induction n with
  | zero => exact fun _ => ⟨hn, fun k hk => absurd hk (Nat.not_lt_zero _)⟩
  | succ n ih =>
    intro hle
    obtain ⟨hnext, hentries⟩ := ih (by omega)
    have hstep := hnext.step h
    generalize hr : guardedEntries c pageIndex guardPage n = r at hnext hentries hstep
    obtain ⟨entries, g⟩ := r
    dsimp only at hnext hentries hstep
    have haddress : (pageIndex + 0x1000 * BitVec.ofNat 32 n).toNat = (page + n) * 2 ^ 12 := by
      rw [BitVec.toNat_add, BitVec.toNat_mul, BitVec.toNat_ofNat, hindex,
        show (0x1000 : BitVec 32).toNat = 2 ^ 12 from rfl]
      omega
    have heq : guardedEntries c pageIndex guardPage (n + 1) =
        if pageIndex + 0x1000 * BitVec.ofNat 32 n = g then
          (Function.update entries n (pageIndex + 0x1000 * BitVec.ofNat 32 n),
            if g + c.stackSize > c.stackArrayEnd then 0 else g + c.stackSize)
        else (Function.update entries n (pageIndex + 0x1000 * BitVec.ofNat 32 n + 2 + 1), g) := by
      rw [guardedEntries, hr]
    rw [heq]
    have hcond : pageIndex + 0x1000 * BitVec.ofNat 32 n = g ↔ (page + n) * 2 ^ 12 = g.toNat := by
      rw [← haddress]
      exact BitVec.toNat_inj.symm
    -- an entry is the last one or one of those before
    have hput : ∀ v : BitVec 32, MapsPage c cpus (page + n) (v.setWidth 64) → ∀ k < n + 1,
        MapsPage c cpus (page + k) ((Function.update entries n v k).setWidth 64) := by
      intro v hv k hk
      by_cases hself : k = n
      · rw [hself, Function.update_self]
        exact hv
      · rw [Function.update_of_ne hself]
        exact hentries k (by omega)
    by_cases hg : pageIndex + 0x1000 * BitVec.ofNat 32 n = g
    · rw [if_pos (hcond.mp hg)] at hstep
      rw [if_pos hg]
      refine ⟨hstep.2, hput _ ⟨fun _ => ?_, fun hnot => absurd hstep.1 hnot⟩⟩
      refine BitVec.eq_of_toNat_eq ?_
      have hlt : (page + n) * 2 ^ 12 < 2 ^ 64 := by omega
      rw [toNat_link (by omega) 0 (by decide), BitVec.toNat_setWidth, haddress, Nat.add_zero,
        Nat.mod_eq_of_lt hlt]
    · rw [if_neg (hcond.not.mp hg)] at hstep
      rw [if_neg hg]
      refine ⟨hstep.2, hput _ ⟨fun hyes => absurd hyes hstep.1, fun _ => ?_⟩⟩
      refine BitVec.eq_of_toNat_eq ?_
      rw [toNat_link (by omega) 3 (by decide), BitVec.toNat_setWidth, BitVec.toNat_add, BitVec.toNat_add,
        haddress, show (2 : BitVec 32).toNat = 2 from rfl, show (1 : BitVec 32).toNat = 1 from rfl]
      omega

end Guards

/-! ## Blocks -/

section Blocks

variable {c : PagingConfig} {cpus : Nat}

theorem block_of_page (page : Nat) {offset : Nat} (hoffset : offset < 2 ^ 12) :
    (page * 2 ^ 12 + offset) / 2 ^ 21 * 2 ^ 21 = page / 512 * 2 ^ 21 := by
  omega

theorem StackLayout.firstGuard_toNat (h : StackLayout c cpus) :
    (c.stackArrayBase + 0x1000).toNat = guardAt c 0 * 2 ^ 12 := by
  have hfirst := h.guardAt_lt h.cpus_pos
  have hbase := h.guardAt_toNat 0
  rw [Nat.zero_mul, Nat.add_zero] at hbase
  rw [BitVec.toNat_add, show (0x1000 : BitVec 32).toNat = 2 ^ 12 from rfl, hbase]
  exact Nat.mod_eq_of_lt (by omega)

theorem StackLayout.boundaries (h : StackLayout c cpus) :
    (low2MBoundary c).toNat = guardAt c 0 / 512 * 2 ^ 21 ∧
      (high2MBoundary c).toNat = guardAt c (cpus - 1) / 512 * 2 ^ 21 := by
  have hlast := h.guardAt_lt (Nat.sub_lt h.cpus_pos Nat.one_pos)
  have hend := h.stackArrayEnd_toNat
  have hsize := h.size_toNat.1
  have hstack := guardAt_succ c (cpus - 1)
  rw [Nat.sub_add_cancel h.cpus_pos] at hstack
  constructor
  · rw [low2MBoundary, if_pos h.stackGuard,
      toNat_and_not_low (show (size2MB - 1).toNat = 2 ^ 21 - 1 by decide), h.firstGuard_toNat]
    have hblock := block_of_page (guardAt c 0) (Nat.two_pow_pos 12)
    rw [Nat.add_zero] at hblock
    exact hblock
  · have hsum : (c.stackArrayEnd - c.stackSize + 0x2000).toNat =
        guardAt c (cpus - 1) * 2 ^ 12 + (2 ^ 12 - 1) := by
      have hsizelt := c.stackSize.isLt
      rw [BitVec.toNat_add, BitVec.toNat_sub, show (0x2000 : BitVec 32).toNat = 2 * 2 ^ 12 from rfl]
      omega
    rw [high2MBoundary, if_pos h.stackGuard,
      toNat_and_not_low (show (size2MB - 1).toNat = 2 ^ 21 - 1 by decide), hsum]
    exact block_of_page _ (by decide)

theorem StackLayout.pagesNeeded_eq (h : StackLayout c cpus) :
    guardAt c 0 / 512 + pagesNeeded c = guardAt c (cpus - 1) / 512 + 1 ∧ guardAt c (cpus - 1) / 512 < 2046 := by
  obtain ⟨hlow, hhigh⟩ := h.boundaries
  have hlast := h.guardAt_lt (Nat.sub_lt h.cpus_pos Nat.one_pos)
  have hmono := h.guardAt_strictMono.monotone (Nat.zero_le (cpus - 1))
  rw [pagesNeeded, if_pos h.stackGuard, BitVec.toNat_udiv, BitVec.toNat_sub_of_le, hlow, hhigh,
    show size2MB.toNat = 2 ^ 21 from rfl]
  · omega
  · rw [BitVec.le_def, hlow, hhigh]
    omega

theorem IsGuard.block (h : StackLayout c cpus) {page : Nat} (hg : IsGuard c cpus page) :
    guardAt c 0 / 512 ≤ page / 512 ∧ page / 512 < guardAt c 0 / 512 + pagesNeeded c := by
  obtain ⟨cpu, hcpu, rfl⟩ := hg
  have hneeded := h.pagesNeeded_eq.1
  have hfirst := h.guardAt_strictMono.monotone (Nat.zero_le cpu)
  have hlast := h.guardAt_strictMono.monotone (Nat.le_pred_of_lt hcpu)
  rw [Nat.pred_eq_sub_one] at hlast
  omega

/-- The tables when `m` blocks have got a page table: where the loop is, and the entries on each level. -/
structure Split (c : PagingConfig) (cpus root m : Nat) (s : Paging) (l : GuardLoop) (t : Paging) : Prop where
  le : m ≤ pagesNeeded c
  pageIndex : l.pageIndex.toNat = (guardAt c 0 / 512 + m) * 2 ^ 21
  pages : l.pages = root + 5 + m
  next : NextGuard c cpus ((guardAt c 0 / 512 + m) * 512) l.guardPage
  pdpt : ∀ i < 4, t.entry root i = BitVec.ofNat 64 ((root + (i + 1)) * 2 ^ 12) + BitVec.ofNat 64 1
  split : ∀ k < m, t.entry (root + 1 + (guardAt c 0 / 512 + k) / 512) ((guardAt c 0 / 512 + k) % 512) =
    BitVec.ofNat 64 ((root + 5 + k) * 2 ^ 12) + BitVec.ofNat 64 3
  whole : ∀ block < 2048, ¬ (guardAt c 0 / 512 ≤ block ∧ block < guardAt c 0 / 512 + m) →
    t.entry (root + 1 + block / 512) (block % 512) = blockEntry block
  pt : ∀ k < m, ∀ index < 512,
    MapsPage c cpus ((guardAt c 0 / 512 + k) * 512 + index) (t.entry (root + 5 + k) index)
  frame : ∀ f, f < root ∨ root + 5 + pagesNeeded c ≤ f → t.entry f = s.entry f
  used : t.used = s.used

theorem Split.start (h : StackLayout c cpus) (root : Nat) (s : Paging) :
    Split c cpus root 0 s ⟨low2MBoundary c, c.stackArrayBase + 0x1000, root + 5⟩
      (Paging.fill (root + 1) 2048 (fun k => BitVec.ofNat 64 (k * 2 ^ 21) + ia32PgPs + ia32PgRw + ia32PgP)
        (Paging.fill root 4 (fun k => BitVec.ofNat 64 ((root + (k + 1)) * 2 ^ 12) + ia32PgP)
          (Paging.fill root 512 (fun _ => 0) s))) := by
  refine ⟨Nat.zero_le _, h.boundaries.1, rfl, ?_, fun i hi => ?_, fun k hk => absurd hk (Nat.not_lt_zero k),
    fun block hblock _ => ?_, fun k hk => absurd hk (Nat.not_lt_zero k), fun f hf => ?_, rfl⟩
  · refine ⟨0, Nat.zero_le _, fun cpu hcpu => absurd hcpu (Nat.not_lt_zero cpu),
      fun _ => ⟨by omega, h.firstGuard_toNat⟩, fun hnone => absurd h.cpus_pos (by omega)⟩
  · refine (if_neg fun hin => absurd hin.1 (by omega)).trans ?_
    exact Paging.fill_self hi (by omega)
  · have hlast : block / 512 * 512 + block % 512 = block := by omega
    refine (Paging.fill_apply (Nat.mod_lt _ (by decide)) (by omega)).trans ?_
    rw [hlast]
    rfl
  · funext k
    refine (if_neg fun hin => ?_).trans ((if_neg fun hin => ?_).trans (if_neg fun hin => ?_))
    all_goals omega

theorem bitFieldRead32_block {b : BitVec 32} {block : Nat} (hb : b.toNat = block * 2 ^ 21) :
    bitFieldRead32 b 30 31 = block / 512 % 4 ∧ bitFieldRead32 b 21 29 = block % 512 := by
  unfold bitFieldRead32
  rw [hb]
  omega

theorem Split.step (h : StackLayout c cpus) {root m : Nat} {s t : Paging} {l : GuardLoop}
    (hlt : root + 5 + pagesNeeded c ≤ 2 ^ 20) (hs : Split c cpus root m s l t) :
    wp (guardBody c root (high2MBoundary c) l) (fun r u => match r with
      | .inl l' => m < pagesNeeded c ∧ Split c cpus root (m + 1) s l' u
      | .inr () => m = pagesNeeded c ∧ u = t) (fun _ _ => False) t := by
  obtain ⟨hneeded, htop⟩ := h.pagesNeeded_eq
  have hhigh := h.boundaries.2
  have hle := hs.le
  have hindex := hs.pageIndex
  unfold guardBody
  rw [wp_ite, BitVec.le_def, hindex, hhigh]
  constructor
  · intro hcond
    have hm : m < pagesNeeded c := by omega
    rw [wp_bind, wp_get, wp_bind, wp_modify]
    -- the entries of the block's own table
    have hfits : (guardAt c 0 / 512 + m) * 512 + 512 ≤ 2 ^ 20 := by
      have hblock : guardAt c 0 / 512 + m < 2046 := by omega
      clear hindex hcond hhigh
      omega
    have hstart : l.pageIndex.toNat = (guardAt c 0 / 512 + m) * 512 * 2 ^ 12 := by
      rw [hindex, Nat.mul_assoc _ 512]
      rfl
    have hall := guardedEntries_eq h hstart hfits hs.next 512 (Nat.le_refl _)
    generalize guardedEntries c l.pageIndex l.guardPage 512 = r at hall ⊢
    obtain ⟨entries, g⟩ := r
    obtain ⟨hnext, hentries⟩ := hall
    dsimp only at hnext hentries ⊢
    rw [wp_bind, wp_modify, wp_pure]
    refine ⟨hm, ?_⟩
    have hpd : (t.entry root (bitFieldRead32 l.pageIndex 30 31)).toNat % 2 ^ 32 / 2 ^ 12 =
        root + 1 + (guardAt c 0 / 512 + m) / 512 := by
      rw [(bitFieldRead32_block hindex).1, hs.pdpt _ (Nat.mod_lt _ (by decide)), ← table_eq c,
        table_link c (by omega) (by decide)]
      omega
    rw [hpd, (bitFieldRead32_block hindex).2, hs.pages]
    have hpt : ∀ f k, f ≠ root + 5 + m →
        ¬ (f = root + 1 + (guardAt c 0 / 512 + m) / 512 ∧ k = (guardAt c 0 / 512 + m) % 512) →
        (Paging.fill (root + 5 + m) 512 (fun k => (entries k).setWidth 64)
          (Paging.write (root + 1 + (guardAt c 0 / 512 + m) / 512) ((guardAt c 0 / 512 + m) % 512)
            (BitVec.ofNat 64 ((root + 5 + m) * 2 ^ 12) + ia32PgRw + ia32PgP) t)).entry f k = t.entry f k :=
      fun f k hf hk => by rw [Paging.fill_of_ne (Nat.le_refl _) hf, Paging.write_of_ne hk]
    refine ⟨hm, ?_, ?_, ?_, fun i hi => ?_, fun k hk => ?_, fun block hblock hout => ?_,
      fun k hk index hindex' => ?_, fun f hf => ?_, hs.used⟩
    · show (l.pageIndex + size2MB).toNat = _
      rw [BitVec.toNat_add, hindex, show size2MB.toNat = 2 ^ 21 from rfl]
      omega
    · show root + 5 + m + 1 = _
      omega
    · show NextGuard c cpus _ g
      have hblock : (guardAt c 0 / 512 + m) * 512 + 512 = (guardAt c 0 / 512 + (m + 1)) * 512 := by omega
      rw [← hblock]
      exact hnext
    · rw [hpt root i (by omega) (by omega)]
      exact hs.pdpt i hi
    · by_cases hself : k = m
      · rw [hself, Paging.fill_of_ne (Nat.le_refl _) (by omega), Paging.write_self, BitVec.add_assoc]
        rfl
      · rw [hpt _ _ (by omega) (by omega)]
        exact hs.split k (by omega)
    · rw [hpt _ _ (by omega) (by omega)]
      exact hs.whole block hblock (by omega)
    · by_cases hself : k = m
      · rw [hself, Paging.fill_self hindex' hindex']
        exact hentries index hindex'
      · rw [hpt _ _ (by omega) (by omega)]
        exact hs.pt k (by omega) index hindex'
    · funext k
      rw [hpt f k (by omega) (by omega)]
      exact congrFun (hs.frame f hf) k
  · intro hcond
    rw [wp_pure]
    exact ⟨by omega, rfl⟩

end Blocks

/-! ## The identity map -/

section Identity

variable {c : PagingConfig} {cpus : Nat}

theorem link_and_phyMask (c : PagingConfig) {f flags : Nat} (hf : f < 2 ^ 20) (hflags : flags < 2 ^ 12) :
    (BitVec.ofNat 64 (f * 2 ^ 12) + BitVec.ofNat 64 flags) &&& c.phyMask = BitVec.ofNat 64 (f * 2 ^ 12) := by
  have hbits := c.physBits_ge
  refine BitVec.eq_of_getLsbD_eq fun i hi => ?_
  rw [BitVec.getLsbD_and, getLsbD_phyMask, BitVec.getLsbD, toNat_link hf flags hflags, Nat.mul_comm,
    Nat.testBit_two_pow_mul_add _ hflags, BitVec.getLsbD_ofNat, Nat.testBit_two_pow_mul]
  by_cases hlow : 12 ≤ i
  · rw [if_neg (by omega)]
    by_cases hhigh : i < 32
    · simp [hlow, hi]
      omega
    · have hbit : f.testBit (i - 12) = false :=
        Nat.testBit_eq_false_of_lt (hf.trans_le (Nat.pow_le_pow_right (by decide) (by omega)))
      simp [hbit]
  · simp [hlow]

theorem blockEntry_eq_link (block : Nat) :
    blockEntry block = BitVec.ofNat 64 (block * 512 * 2 ^ 12) + BitVec.ofNat 64 0x83 := by
  rw [blockEntry, BitVec.add_assoc, BitVec.add_assoc, Nat.mul_assoc]
  rfl

theorem blockEntry_physical (c : PagingConfig) (block index : Nat) (hblock : block < 2048)
    (hindex : index < 512) :
    (blockEntry block &&& c.phyMask &&& ~~~(2 ^ 21 - 1)) ||| BitVec.ofNat 64 (index * 2 ^ 12) =
      BitVec.ofNat 64 ((block * 512 + index) * 2 ^ 12) := by
  rw [blockEntry_eq_link, link_and_phyMask c (by omega) (by decide)]
  refine BitVec.eq_of_toNat_eq ?_
  rw [BitVec.toNat_or, toNat_and_not_low (show (2 ^ 21 - 1 : BitVec 64).toNat = 2 ^ 21 - 1 by decide),
    BitVec.toNat_ofNat, BitVec.toNat_ofNat, BitVec.toNat_ofNat]
  have hhead : block * 512 * 2 ^ 12 % 2 ^ 64 / 2 ^ 21 * 2 ^ 21 = 2 ^ 21 * block := by omega
  have htail : index * 2 ^ 12 % 2 ^ 64 = index * 2 ^ 12 := Nat.mod_eq_of_lt (by omega)
  rw [hhead, htail, ← Nat.two_pow_add_eq_or_of_lt (show index * 2 ^ 12 < 2 ^ 21 by omega) block]
  omega

theorem link_bit {f : Nat} (hf : f < 2 ^ 20) {flags k : Nat} (hflags : flags < 2 ^ 12) (hk : k < 12) :
    (BitVec.ofNat 64 (f * 2 ^ 12) + BitVec.ofNat 64 flags) &&& 1 <<< k ≠ 0 ↔ flags.testBit k = true := by
  refine (and_bit_eq_zero _ (by omega)).not.trans ?_
  rw [getLsbD_link hf hflags hk, Bool.not_eq_false]

theorem Split.viewPage (h : StackLayout c cpus) {root : Nat} {s t : Paging} {l : GuardLoop}
    (hlt : root + 5 + pagesNeeded c ≤ 2 ^ 20) (hs : Split c cpus root (pagesNeeded c) s l t) {page : Nat}
    (hpage : page < 2 ^ 20) :
    (IsGuard c cpus page → (viewPage c root t page).present = false) ∧
      (¬ IsGuard c cpus page → (viewPage c root t page).present = true ∧
        (viewPage c root t page).writable = true ∧
        (viewPage c root t page).physical = BitVec.ofNat 64 (page * 2 ^ 12)) := by
  have hpdpte := hs.pdpt (page / 2 ^ 18) (by omega)
  have hdir : c.table (t.entry root (page / 2 ^ 18)) = root + 1 + page / 512 / 512 := by
    rw [hpdpte, table_link c (by omega) (by decide)]
    omega
  have hpresent : t.entry root (page / 2 ^ 18) &&& ia32PgP ≠ 0 := by
    rw [hpdpte]
    exact (link_bit (k := 0) (by omega) (by decide) (by decide)).mpr rfl
  have hindex : page / 2 ^ 9 % 512 = page / 512 % 512 := by omega
  by_cases hin : guardAt c 0 / 512 ≤ page / 512 ∧ page / 512 < guardAt c 0 / 512 + pagesNeeded c
  · -- a block with a page table
    obtain ⟨k, hk⟩ : ∃ k, page / 512 = guardAt c 0 / 512 + k := ⟨page / 512 - guardAt c 0 / 512, by omega⟩
    have hpde : t.entry (frameOf c root t (.pd (page / 2 ^ 18))) (page / 2 ^ 9 % 512) =
        BitVec.ofNat 64 ((root + 5 + k) * 2 ^ 12) + BitVec.ofNat 64 3 := by
      rw [frameOf, hdir, hindex, hk]
      exact hs.split k (by omega)
    have hsmall : Small c root t (page / 2 ^ 18) (page / 2 ^ 9 % 512) := by
      rw [Small, hpde]
      exact and_ps_link (by omega) (by decide)
    have hpt : frameOf c root t (.pt (page / 2 ^ 18) (page / 2 ^ 9 % 512)) = root + 5 + k :=
      (congrArg c.table hpde).trans (table_link c (by omega) (by decide))
    rw [viewPage_small rfl rfl rfl hsmall, hpde, hpt]
    have hpte := hs.pt k (by omega) (page % 512) (Nat.mod_lt _ (by decide))
    have hnumber : (guardAt c 0 / 512 + k) * 512 + page % 512 = page := by omega
    rw [hnumber] at hpte
    have hdirP : (BitVec.ofNat 64 ((root + 5 + k) * 2 ^ 12) + BitVec.ofNat 64 3) &&& ia32PgP ≠ 0 :=
      (link_bit (k := 0) (by omega) (by decide) (by decide)).mpr rfl
    have hdirRw : (BitVec.ofNat 64 ((root + 5 + k) * 2 ^ 12) + BitVec.ofNat 64 3) &&& ia32PgRw ≠ 0 :=
      (link_bit (k := 1) (by omega) (by decide) (by decide)).mpr rfl
    refine ⟨fun hg => ?_, fun hg => ?_⟩
    · rw [hpte.1 hg]
      refine decide_eq_false fun hand => ?_
      exact absurd ((link_bit (k := 0) hpage (by decide) (by decide)).mp hand.2.2) (by decide)
    · rw [hpte.2 hg]
      exact ⟨decide_eq_true ⟨hpresent, hdirP, (link_bit (k := 0) hpage (by decide) (by decide)).mpr rfl⟩,
        decide_eq_true ⟨hdirRw, (link_bit (k := 1) hpage (by decide) (by decide)).mpr rfl⟩,
        link_and_phyMask c hpage (by decide)⟩
  · -- a block of its own
    have hpde : t.entry (c.table (t.entry root (page / 2 ^ 18))) (page / 2 ^ 9 % 512) =
        blockEntry (page / 512) := by
      rw [hdir, hindex]
      exact hs.whole _ (by omega) hin
    have hlarge : blockEntry (page / 512) &&& ia32PgPs ≠ 0 := blockEntry_large (by omega)
    refine ⟨fun hg => absurd (hg.block h) hin, fun _ => ?_⟩
    unfold PiSmmCpu.viewPage
    dsimp only
    rw [hpde, if_pos hlarge]
    refine ⟨decide_eq_true ⟨hpresent, ?_⟩, decide_eq_true (blockEntry_writable (by omega)), ?_⟩
    · rw [blockEntry_eq_link]
      exact (link_bit (k := 0) (by omega) (by decide) (by decide)).mpr rfl
    · have hphysical := blockEntry_physical c (page / 512) (page % 512) (by omega)
        (Nat.mod_lt _ (by decide))
      have hnumber : page / 512 * 512 + page % 512 = page := by omega
      rw [hnumber] at hphysical
      exact hphysical

theorem Split.mapsGuarded (h : StackLayout c cpus) {root : Nat} {s t : Paging} {l : GuardLoop}
    (hlt : root + 5 + pagesNeeded c ≤ 2 ^ 20) (hs : Split c cpus root (pagesNeeded c) s l t) :
    MapsGuarded c cpus root t := by
  refine ⟨fun address hg => ?_, fun address hg => ?_⟩
  · have hpage : address.toNat / 2 ^ 12 < 2 ^ 20 := by omega
    exact (hs.viewPage h hlt hpage).1 ((OnGuardPage.iff_isGuard h address).mp hg)
  · have hpage : address.toNat / 2 ^ 12 < 2 ^ 20 := by omega
    obtain ⟨hpresent, hwritable, hphysical⟩ :=
      (hs.viewPage h hlt hpage).2 ((OnGuardPage.iff_isGuard h address).not.mp hg)
    refine ⟨hpresent, hwritable, ?_⟩
    rw [hphysical]
    refine BitVec.eq_of_toNat_eq ?_
    rw [toNat_link hpage _ (Nat.mod_lt _ (by decide)), BitVec.toNat_setWidth]
    omega

/-- The page table of SMM maps every address to itself except for the guard pages, and it is built in the pages
that are allocated for it. -/
theorem gen4GPageTable_guarded (h : StackLayout c cpus) (fuel extraPages : Nat) (s : Paging) {frame : Nat}
    (hallocate : c.allocate s.used (extraPages + 5 + pagesNeeded c) = some frame)
    (hfuel : pagesNeeded c < fuel) :
    ∃ t, gen4GPageTable c fuel extraPages s = .ret (frame + extraPages) t ∧
      MapsGuarded c cpus (frame + extraPages) t ∧
      t.used = List.range' frame (extraPages + 5 + pagesNeeded c) ++ s.used ∧
      ∀ f, f ∉ List.range' frame (extraPages + 5 + pagesNeeded c) → t.entry f = s.entry f := by
  obtain ⟨-, hfresh⟩ := c.allocate_fresh _ _ _ hallocate
  have hlt : frame + extraPages + 5 + pagesNeeded c ≤ 2 ^ 20 := by
    have htop := (hfresh (extraPages + 5 + pagesNeeded c - 1) (by omega)).1
    omega
  have hrun : wp (gen4GPageTable c fuel extraPages) (fun root t => root = frame + extraPages ∧
      MapsGuarded c cpus (frame + extraPages) t ∧
      t.used = List.range' frame (extraPages + 5 + pagesNeeded c) ++ s.used ∧
      ∀ f, f ∉ List.range' frame (extraPages + 5 + pagesNeeded c) → t.entry f = s.entry f)
      (fun _ _ => False) s := by
    unfold gen4GPageTable allocatePages
    rw [wp_bind, wp_bind, wp_get, hallocate, wp_bind, wp_modify, wp_pure]
    dsimp only
    rw [wp_bind, wp_modify, wp_bind, wp_modify, wp_bind, wp_modify, wp_bind]
    generalize hu : Paging.fill (frame + extraPages + 1) 2048 _ _ = u
    generalize hv : ({ s with used := List.range' frame (extraPages + 5 + pagesNeeded c) ++ s.used } : Paging) = v
      at hu
    have hstart := Split.start h (frame + extraPages) v
    rw [hu] at hstart
    rw [wp_when]
    refine ⟨fun _ => ?_, fun hoff => absurd h.stackGuard hoff⟩
    refine wp_loop_ranked (fun k l t => ∃ m, k = pagesNeeded c - m ∧ Split c cpus (frame + extraPages) m v l t)
      _ _ ?_ (Nat.lt_of_le_of_lt (Nat.sub_le _ _) hfuel) ⟨0, rfl, hstart⟩
    rintro k l t - ⟨m, rfl, hs⟩
    refine wp_mono (hs.step h hlt) ?_ fun _ _ he => he
    rintro (l' | r) w hw
    · exact ⟨pagesNeeded c - (m + 1), by omega, m + 1, rfl, hw.2⟩
    · obtain ⟨rfl, rfl⟩ := hw
      refine ⟨rfl, hs.mapsGuarded h hlt, ?_, fun f hf => ?_⟩
      · rw [hs.used, ← hv]
      · have hout : f < frame + extraPages ∨ frame + extraPages + 5 + pagesNeeded c ≤ f := by
          rw [List.mem_range'_1] at hf
          omega
        rw [hs.frame f hout, ← hv]
  obtain ⟨root, t, hret, rfl, hmaps, hused, hframe⟩ := returns_of_wp hrun
  exact ⟨t, hret, hmaps, hused, hframe⟩

def guardedPaging : PagingConfig :=
  { plainPaging with
    stackGuard := true
    stackArrayBase := 0x1FE000
    stackArrayEnd := 0x203FFF
    stackSize := 0x3000 }

theorem gen4GPageTable_guarded_two :
    StackLayout guardedPaging 2 ∧ ∃ t, gen4GPageTable guardedPaging 3 0 ⟨fun _ _ => 0, []⟩ = .ret 1 t ∧
      MapsGuarded guardedPaging 2 1 t ∧ t.used = List.range' 1 7 ++ [] ∧
      ∀ f, f ∉ List.range' 1 7 → t.entry f = fun _ => 0 := by
  have hlayout : StackLayout guardedPaging 2 :=
    ⟨rfl, by decide, by decide, by decide, by decide, by decide, by decide⟩
  exact ⟨hlayout, gen4GPageTable_guarded hlayout 3 0 ⟨fun _ _ => 0, []⟩ (by decide) (by decide)⟩

end Identity

end Quark.PiSmmCpu
