import Quark.Ohci.Proofs.MemPoolProofs

/-!
# Calls of the OHCI memory pool

An allocation is entered in the ledger of the pool, and giving it back takes it out again.
-/

namespace Quark.Ohci

open Machine Exec MemBlock

/-! ## The units that a call asks for -/

section

variable {size : Nat}

theorem roundUnits_pos (hpos : 0 < size) (hsize : size + usbHcMemUnit ≤ 0x100000000) :
    0 < usbHcMemRound size / usbHcMemUnit := by
  rw [usbHcMemRound_eq hsize, Nat.mul_div_cancel _ (by decide)]
  change 0 < (size + 63) / 64
  omega

theorem usbHcMemRound_mul (size : Nat) :
    usbHcMemRound size = usbHcMemUnit * (usbHcMemRound size / usbHcMemUnit) :=
  Allocation.len_eq ⟨0, size⟩

theorem newBlockPages_enough (size : Nat) :
    usbHcMemRound size ≤ newBlockPages (usbHcMemRound size) * efiPageSize := by
  unfold newBlockPages efiSizeToPages efiPagesToSize usbHcMemDefaultPages efiPageSize
  have hsixteen : u32 (16 * 0x1000) = 0x10000 := by decide
  rw [hsixteen]
  split
  · split
    · omega
    · omega
  · omega

end


namespace Grown

variable {pool₀ pool before behind next : MemPool} {live : List Allocation} {a : Allocation}
  {b b' head : MemBlock} {k n : Nat}

theorem apart_of_free (h : Grown pool₀ live (before ++ b :: behind)) (hfree : b.Free k n)
    (hmem : a.mem = b.unitAddress k) (hlen : a.len = usbHcMemUnit * n) (hn : 0 < n) :
    ∀ x ∈ live, a.Apart x := by
  intro x hx
  obtain ⟨c, hc, hinside⟩ := h.inside x hx
  have hb := h.sound.block
  have hbuf := hb.bufLen
  have hunits := hfree.1
  unfold MemBlock.unitAddress at hmem
  change b.bufLen = 64 * b.units at hbuf
  change a.mem = b.bufHost + 64 * k at hmem
  change a.len = 64 * n at hlen
  have hother : c ∈ before ++ behind → a.Apart x := by
    intro hc
    have hapart := (h.sound.others c hc).2
    have hlow := hinside.low
    have hhigh := hinside.high
    unfold MemBlock.Apart at hapart
    unfold Allocation.Apart
    omega
  rcases List.mem_append.mp hc with hc | hc
  · exact hother (List.mem_append_left _ hc)
  · rcases List.mem_cons.mp hc with rfl | hc
    · -- in the same block a common unit would be marked and free
      obtain ⟨j, m, hxmem, hxlen, hxunits, hm⟩ := hinside.units hb
      obtain ⟨base, hbase, -⟩ := h.loaded
      obtain ⟨_, c₀, _, -, -, hloaded, -⟩ := forall₂_split hbase
      have hset := hloaded.set hx hxmem hxlen hxunits
      have hsep : j + m ≤ k ∨ k + n ≤ j := by
        by_contra hcommon
        have hclear := hfree.2 (max j k) (by omega) (by omega)
        rw [hset (max j k) (by omega) (by omega)] at hclear
        cases hclear
      unfold MemBlock.unitAddress at hxmem
      change x.mem = c.bufHost + 64 * j at hxmem
      change x.len = 64 * m at hxlen
      unfold Allocation.Apart
      omega
    · exact hother (List.mem_append_right _ hc)

theorem inside_of_units (hb : b.Sound) (hmem : a.mem = b.unitAddress k)
    (hlen : a.len = usbHcMemUnit * n) (hunits : k + n ≤ b.units) (hn : 0 < n) : a.Inside b := by
  have halign := hb.aligned
  have hbuf := hb.bufLen
  unfold MemBlock.unitAddress at hmem
  change a.mem = b.bufHost + 64 * k at hmem
  change a.len = 64 * n at hlen
  change b.bufHost % 64 = 0 at halign
  change b.bufLen = 64 * b.units at hbuf
  exact ⟨by change a.mem % 64 = 0; omega, by omega, by omega, by omega⟩

theorem mark (h : Grown pool₀ live (before ++ b :: behind)) (hfree : b.Free k n)
    (hassign : Assigned b b' k n true) (hmem : a.mem = b.unitAddress k)
    (hlen : a.len = usbHcMemUnit * n) (hn : 0 < n) :
    Grown pool₀ (a :: live) (before ++ b' :: behind) := by
  have hb := h.sound.block
  have hsame := hassign.sameMemory
  have hinside : a.Inside b := inside_of_units hb hmem hlen hfree.1 hn
  obtain ⟨base, hbase, htrim⟩ := h.loaded
  refine ⟨h.sound.replace hsame fun _ => hassign.inUse hn hfree.1, ⟨base, ?_, htrim⟩, ?_, ?_⟩
  · refine forall₂_replace hbase (fun x hx => hx.mark hassign hfree hmem hlen) fun c hc x hx => ?_
    obtain ⟨hcs, hapart⟩ := h.sound.others c hc
    exact hx.other (hinside.not_covers hcs hapart)
  · intro x hx
    rcases List.mem_cons.mp hx with rfl | hx
    · exact ⟨b', by simp, hinside.same hsame⟩
    · obtain ⟨c, hc, hxc⟩ := h.inside x hx
      rcases List.mem_append.mp hc with hc | hc
      · exact ⟨c, List.mem_append_left _ hc, hxc⟩
      · rcases List.mem_cons.mp hc with rfl | hc
        · exact ⟨b', by simp, hxc.same hsame⟩
        · exact ⟨c, List.mem_append_right _ (List.mem_cons_of_mem _ hc), hxc⟩
  · exact List.pairwise_cons.mpr ⟨h.apart_of_free hfree hmem hlen hn, h.apart⟩

theorem insert (h : Grown pool₀ live (head :: next)) (hb : b.Sound)
    (hempty : ∀ i, b.isSet i = false) (huse : ¬ b.InUse)
    (hapart : ∀ c ∈ head :: next, c.Apart b) (hfree : b.Free k n) (hassign : Assigned b b' k n true)
    (hmem : a.mem = b.unitAddress k) (hlen : a.len = usbHcMemUnit * n) (hn : 0 < n) :
    Grown pool₀ (a :: live) (head :: b' :: next) := by
  have hsame := hassign.sameMemory
  have hb' := hb.same hsame
  have hinside : a.Inside b := inside_of_units hb hmem hlen hfree.1 hn
  obtain ⟨base, hbase, htrim⟩ := h.loaded
  obtain ⟨head₀, next₀, hhead, hnext, rfl⟩ := List.forall₂_cons_right_iff.mp hbase
  have hother : ∀ c ∈ head :: next, ∀ x, Loaded live x c → Loaded (a :: live) x c :=
    fun c hc x hx => hx.other (hinside.not_covers (h.sound.blocks c hc) (.inr (hapart c hc)))
  have hnew : Loaded live b b := by
    refine ⟨rfl, rfl, rfl, fun i => ?_, fun i _ _ => hempty i⟩
    rw [hempty i]
    simp only [Bool.false_eq_true, false_or, false_iff, not_and, not_exists]
    intro hi x hx hcovers
    obtain ⟨c, hc, hxc⟩ := h.inside x hx
    exact hxc.not_covers hb (.inl (hapart c hc)) i hi hcovers
  refine ⟨h.sound.insert hb' (fun c hc => hsame.apart_right (hapart c hc))
    (hassign.inUse hn hfree.1), ⟨head₀ :: b :: next₀, ?_, ?_⟩, ?_, ?_⟩
  · refine .cons (hother head List.mem_cons_self head₀ hhead)
      (.cons (hnew.mark hassign hfree hmem hlen) ?_)
    exact forall₂_mono hnext fun c hc x hx => hother c (List.mem_cons_of_mem head hc) x hx
  · have hdrop := trimmed_drop (x := [head₀]) (z := next₀) (by simp) huse
    rw [← htrim]
    exact hdrop
  · intro x hx
    rcases List.mem_cons.mp hx with rfl | hx
    · exact ⟨b', by simp, hinside.same hsame⟩
    · obtain ⟨c, hc, hxc⟩ := h.inside x hx
      rcases List.mem_cons.mp hc with rfl | hc
      · exact ⟨c, List.mem_cons_self, hxc⟩
      · exact ⟨c, List.mem_cons_of_mem _ (List.mem_cons_of_mem _ hc), hxc⟩
  · refine List.pairwise_cons.mpr ⟨fun x hx => ?_, h.apart⟩
    obtain ⟨c, hc, hxc⟩ := h.inside x hx
    have hcb := hapart c hc
    have hlow := hinside.low
    have hhigh := hinside.high
    have hlow' := hxc.low
    have hhigh' := hxc.high
    unfold MemBlock.Apart at hcb
    unfold Allocation.Apart
    omega

theorem reset (h : Grown pool₀ (a :: live) (before ++ b :: behind)) (hinside : a.Inside b)
    (hassign : Assigned b b' k n false) (hmem : a.mem = b.unitAddress k)
    (hlen : a.len = usbHcMemUnit * n) (hunits : k + n ≤ b.units) :
    ∃ base, List.Forall₂ (Loaded live) base (before ++ b' :: behind) ∧ trimmed base = pool₀ := by
  obtain ⟨base, hbase, htrim⟩ := h.loaded
  have hapart := (List.pairwise_cons.mp h.apart).1
  refine ⟨base, forall₂_replace hbase
    (fun x hx => hx.reset hassign hunits hmem hlen hapart) fun c hc x hx => ?_, htrim⟩
  obtain ⟨hcs, hcapart⟩ := h.sound.others c hc
  exact hx.drop (hinside.not_covers hcs hcapart)

theorem inside_reset (h : Grown pool₀ (a :: live) (before ++ b :: behind))
    (hsame : b.SameMemory b') : ∀ x ∈ live, ∃ c ∈ before ++ b' :: behind, x.Inside c := by
  intro x hx
  obtain ⟨c, hc, hxc⟩ := h.inside x (List.mem_cons_of_mem a hx)
  rcases List.mem_append.mp hc with hc | hc
  · exact ⟨c, List.mem_append_left _ hc, hxc⟩
  · rcases List.mem_cons.mp hc with rfl | hc
    · exact ⟨b', by simp, hxc.same hsame⟩
    · exact ⟨c, List.mem_append_right _ (List.mem_cons_of_mem _ hc), hxc⟩

theorem remove (hsound : Sound (before ++ b :: behind)) (hsame : b.SameMemory b')
    (hloaded : ∃ base, List.Forall₂ (Loaded live) base (before ++ b' :: behind) ∧
      trimmed base = pool₀)
    (hinside : ∀ x ∈ live, ∃ c ∈ before ++ b' :: behind, x.Inside c)
    (hapart : live.Pairwise Allocation.Apart) (hbefore : before ≠ []) (huse : ¬ b'.InUse) :
    Grown pool₀ live (before ++ behind) := by
  obtain ⟨base, hbase, htrim⟩ := hloaded
  obtain ⟨x, y, z, rfl, hx, hy, hz⟩ := forall₂_split hbase
  have hyuse : ¬ y.InUse := fun hyuse => huse (hy.inUse hyuse)
  have hxne : x ≠ [] := by
    rintro rfl
    cases hx
    exact hbefore rfl
  refine ⟨hsound.remove hbefore, ⟨x ++ z, List.rel_append hx hz, ?_⟩, ?_, hapart⟩
  · rw [← htrim, trimmed_drop hxne hyuse]
  · intro d hd
    obtain ⟨c, hc, hdc⟩ := hinside d hd
    rcases List.mem_append.mp hc with hc | hc
    · exact ⟨c, List.mem_append_left _ hc, hdc⟩
    · rcases List.mem_cons.mp hc with rfl | hc
      · -- a unit of the allocation would be in use
        have hsound' := hsound.block.same hsame
        obtain ⟨j, m, hdmem, hdlen, hdunits, hm⟩ := hdc.units hsound'
        have hset := hy.set hd hdmem hdlen hdunits j (Nat.le_refl j) (by omega)
        exfalso
        unfold MemBlock.InUse usbHcIsMemBlockEmpty at huse
        simp only [decide_eq_true_eq, not_not] at huse
        have hbyte : j / 8 < c.bitsLen := by
          unfold MemBlock.units at hdunits
          omega
        unfold MemBlock.isSet at hset
        rw [huse _ hbyte] at hset
        simp at hset
      · exact ⟨c, List.mem_append_right _ hc, hdc⟩

end Grown


/-! ## Calls -/

section

variable {σ : Type} {pool₀ pool : MemPool} {live : List Allocation} {size : Nat}

theorem unitAddress_lt {b : MemBlock} (hb : b.Sound) {k n : Nat} (hfree : b.Free k n) (hn : 0 < n) :
    b.unitAddress k < 0x100000000 := by
  have hbelow := hb.below
  have hbuf := hb.bufLen
  have hunits := hfree.1
  unfold MemBlock.unitAddress
  change b.bufLen = 64 * b.units at hbuf
  change b.bufHost + 64 * k < _
  omega

/-- What a call of `UsbHcAllocateMem` comes to: nothing, if there is no room in the pool and no memory for
a new block, or an allocation more in the ledger. -/
inductive Allocated (pool₀ : MemPool) (live : List Allocation) (pool : MemPool) (size : Nat)
    (buffer : Option Nat) : Option Nat → MemPool → Prop
  | nothing (hbuffer : buffer = none)
      (hfull : ∀ b ∈ pool, ∀ k, ¬ b.Free k (usbHcMemRound size / usbHcMemUnit)) :
      Allocated pool₀ live pool size buffer none pool
  | entered {mem : Nat} {pool' : MemPool} (hpos : 0 < mem) (hlt : mem < 0x100000000)
      (hroom : buffer = none → ∃ b ∈ pool, ∃ k, b.Free k (usbHcMemRound size / usbHcMemUnit))
      (hgrown : Grown pool₀ (⟨mem, size⟩ :: live) pool')
      (hblocks : ∀ b' ∈ pool', (∃ b ∈ pool, b.SameMemory b') ∨
        (buffer = some b'.bufHost ∧
          b'.bufLen = newBlockPages (usbHcMemRound size) * efiPageSize)) :
      Allocated pool₀ live pool size buffer (some mem) pool'

theorem usbHcAllocateMem_ret (asserts : Bool) (h : Grown pool₀ live pool) (hpos : 0 < size)
    (hsize : size + usbHcMemUnit ≤ 0x100000000) {buffer : Option Nat}
    (hbuffer : ∀ p, buffer = some p → FreshBuffer pool size p) (s : σ) :
    ∃ r pool', (usbHcAllocateMem asserts pool size buffer : Exec σ _) s = .ret (r, pool') s ∧
      Allocated pool₀ live pool size buffer r pool' := by
  have hn := roundUnits_pos hpos hsize
  have hlen := usbHcMemRound_mul size
  have hassert : assert asserts (pool ≠ []) s = .ret () s := assert_of (fun _ => h.sound.nonempty) s
  obtain ⟨r, pool', hrun, hr⟩ := allocFromBlocks_ret asserts hn pool s
  have hcall : (usbHcAllocateMem asserts pool size buffer : Exec σ _) s = _ :=
    (bind_of_ret hassert).trans (bind_of_ret hrun)
  rcases hr with ⟨rfl, rfl, hfull⟩ | ⟨before, b, behind, b', k, rfl, rfl, rfl, hfree, hassign⟩
  · -- a new block
    cases buffer with
    | none => exact ⟨none, pool', hcall.trans rfl, .nothing rfl hfull⟩
    | some p =>
      obtain ⟨halign, hp, hbelow, hapart⟩ := hbuffer p rfl
      have henough := newBlockPages_enough size
      generalize hpages : newBlockPages (usbHcMemRound size) = pages at hbelow hapart henough
      have hbytes : efiPagesToSize pages = pages * efiPageSize :=
        u32_of_lt (by omega)
      obtain ⟨b, hb⟩ : ∃ b, usbHcAllocMemBlock pages (some p) = some b := ⟨_, rfl⟩
      have hbits : ∀ i, b.isSet i = false := by
        intro i
        cases hb
        unfold MemBlock.isSet
        simp
      have hhost : b.bufHost = p := by
        cases hb
        rfl
      have hbuf : b.bufLen = pages * efiPageSize := by
        cases hb
        exact hbytes
      have hunits : b.units = usbHcMemUnit * pages := by
        cases hb
        show 8 * (efiPagesToSize pages / (usbHcMemUnit * 8)) = usbHcMemUnit * pages
        rw [hbytes]
        change 8 * (pages * 4096 / (64 * 8)) = 64 * pages
        omega
      have huse : ¬ b.InUse := by
        cases hb
        unfold MemBlock.InUse usbHcIsMemBlockEmpty
        simp
      change p % 4096 = 0 at halign
      change p + pages * 4096 < 0x100000000 at hbelow
      change b.bufLen = pages * 4096 at hbuf
      change b.units = 64 * pages at hunits
      change usbHcMemRound size ≤ pages * 4096 at henough
      change usbHcMemRound size = 64 * (usbHcMemRound size / 64) at hlen
      have hsound : b.Sound :=
        ⟨by change b.bufHost % 64 = 0; omega, by omega, by change b.bufLen = 64 * b.units; omega,
          by omega⟩
      have hroom : b.Free 0 (usbHcMemRound size / usbHcMemUnit) :=
        ⟨by change 0 + usbHcMemRound size / 64 ≤ b.units; omega, fun i _ _ => hbits i⟩
      obtain ⟨r, b', hblock, hr⟩ := usbHcAllocMemFromBlock_ret asserts b hn s
      rcases hr with ⟨-, -, hnone⟩ | ⟨k, rfl, hfree, hassign⟩
      · exact absurd hroom (hnone 0)
      · have hfresh : ∀ c ∈ pool', c.Apart b := by
          intro c hc
          have := hapart c hc
          unfold MemBlock.Apart
          rw [hhost, hbuf]
          exact this
        obtain ⟨head, next, rfl⟩ : ∃ head next, pool' = head :: next :=
          List.exists_cons_of_ne_nil h.sound.nonempty
        have hlt := unitAddress_lt hsound hfree hn
        have hgrown := h.insert hsound hbits huse hfresh hfree hassign
          (a := ⟨b.unitAddress k, size⟩) rfl hlen hn
        refine ⟨some (b.unitAddress k), head :: b' :: next, ?_, .entered ?_ hlt (by simp) hgrown ?_⟩
        · rw [hcall]
          dsimp only
          rw [hpages, hb]
          refine (bind_of_ret hblock).trans ?_
          rw [u32_of_lt hlt]
          rfl
        · have := hsound.pos
          unfold MemBlock.unitAddress
          omega
        · intro c hc
          rcases List.mem_cons.mp hc with rfl | hc
          · exact .inl ⟨c, List.mem_cons_self, rfl, rfl, rfl⟩
          · rcases List.mem_cons.mp hc with rfl | hc
            · refine .inr ⟨?_, ?_⟩
              · rw [hassign.bufHost, hhost]
              · rw [hassign.bufLen, hbuf, hpages]
            · exact .inl ⟨c, List.mem_cons_of_mem head hc, rfl, rfl, rfl⟩
  · have hlt := unitAddress_lt h.sound.block hfree hn
    have hgrown := h.mark hfree hassign (a := ⟨b.unitAddress k, size⟩) rfl hlen hn
    rw [u32_of_lt hlt] at hcall
    refine ⟨_, _, hcall, .entered ?_ hlt (fun _ => ⟨b, by simp, k, hfree⟩) hgrown ?_⟩
    · have := h.sound.block.pos
      unfold MemBlock.unitAddress
      omega
    · intro c hc
      rcases List.mem_append.mp hc with hc | hc
      · exact .inl ⟨c, List.mem_append_left _ hc, rfl, rfl, rfl⟩
      · rcases List.mem_cons.mp hc with rfl | hc
        · exact .inl ⟨b, by simp, hassign.sameMemory⟩
        · exact .inl ⟨c, List.mem_append_right _ (List.mem_cons_of_mem b hc), rfl, rfl, rfl⟩

theorem findHolding_eq {before behind : MemPool} {b : MemBlock} {a : Allocation}
    (hsound : Sound (before ++ b :: behind)) (hinside : a.Inside b) :
    findHolding a.mem a.len (before ++ b :: behind) = some (before, b, behind) := by
  have hend : ∀ c : MemBlock, c.Sound → u32 (c.bufHost + c.bufLen) = c.bufHost + c.bufLen :=
    fun c hc => u32_of_lt hc.below
  have hb := hsound.block
  have hhigh := hinside.high
  have hmem : u32 (a.mem + a.len) = a.mem + a.len := u32_of_lt (by have := hb.below; omega)
  have hholds : b.holds a.mem a.len = true := by
    unfold MemBlock.holds
    rw [hmem, hend b hb]
    exact decide_eq_true ⟨hinside.low, hhigh⟩
  have hothers : ∀ c ∈ before, c.holds a.mem a.len = false := by
    intro c hc
    obtain ⟨hcs, hapart⟩ := hsound.others c (List.mem_append_left _ hc)
    have hlow := hinside.low
    have hpos := hinside.pos
    unfold MemBlock.holds
    rw [hmem, hend c hcs]
    refine decide_eq_false ?_
    unfold MemBlock.Apart at hapart
    omega
  clear hsound
  induction before with
  | nil =>
    show (if b.holds a.mem a.len then _ else _) = _
    rw [if_pos hholds]
  | cons c before ih =>
    have hc := hothers c List.mem_cons_self
    have hrest := ih fun d hd => hothers d (List.mem_cons_of_mem c hd)
    show (if c.holds a.mem a.len then _
      else (findHolding a.mem a.len (before ++ b :: behind)).map _) = _
    rw [if_neg (by rw [hc]; decide), hrest]
    rfl

theorem usbHcFreeMem_ret (asserts : Bool) {a : Allocation} (h : Grown pool₀ (a :: live) pool) (s : σ) :
    ∃ pool', (usbHcFreeMem asserts pool a.mem a.size : Exec σ _) s = .ret pool' s ∧
      Grown pool₀ live pool' := by
  obtain ⟨b, hb, hinside⟩ := h.inside a List.mem_cons_self
  obtain ⟨before, behind, rfl⟩ := List.append_of_mem hb
  have hsound := h.sound
  obtain ⟨k, n, hmem, hlen, hunits, hn⟩ := hinside.units hsound.block
  obtain ⟨base, hbase, -⟩ := h.loaded
  obtain ⟨_, b₀, _, -, -, hloaded, -⟩ := forall₂_split hbase
  have hset := hloaded.set List.mem_cons_self hmem hlen hunits
  obtain ⟨b', hreset, hassign⟩ := resetUnits_ret asserts hset s
  have hsame := hassign.sameMemory
  have hbase' := h.reset hinside hassign hmem hlen hunits
  have hinside' := h.inside_reset hsame
  have hapart := (List.pairwise_cons.mp h.apart).2
  have hunit : (a.mem - b.bufHost) / usbHcMemUnit = k := by
    rw [hmem]
    unfold MemBlock.unitAddress
    rw [Nat.add_sub_cancel_left, Nat.mul_div_cancel_left _ (by decide)]
  have hcount : usbHcMemRound a.size / usbHcMemUnit = n := by
    have hlen' : usbHcMemRound a.size = usbHcMemUnit * n := hlen
    rw [hlen', Nat.mul_div_cancel_left _ (by decide)]
  have hcall : (usbHcFreeMem asserts (before ++ b :: behind) a.mem a.size : Exec σ _) s =
      (if before ≠ [] ∧ usbHcIsMemBlockEmpty b' then pure (before ++ behind)
        else pure (before ++ b' :: behind) : Exec σ _) s := by
    have hfind : findHolding a.mem (usbHcMemRound a.size) (before ++ b :: behind) =
        some (before, b, behind) := findHolding_eq hsound hinside
    unfold usbHcFreeMem
    dsimp only
    rw [hfind]
    dsimp only
    rw [hunit, hcount, bind_of_ret hreset]
  rw [hcall]
  by_cases hempty : before ≠ [] ∧ usbHcIsMemBlockEmpty b' = true
  · rw [if_pos hempty]
    have huse : ¬ b'.InUse := not_not.mpr hempty.2
    exact ⟨_, rfl, Grown.remove hsound hsame hbase' hinside' hapart hempty.1 huse⟩
  · rw [if_neg hempty]
    refine ⟨_, rfl, ⟨hsound.replace hsame fun hbefore => ?_, hbase', hinside', hapart⟩⟩
    exact fun hemptyb => hempty ⟨hbefore, hemptyb⟩

end

/-! ## The OHCI memory pool at work

Over a whole run of calls, the bitmaps are a record of what is live. A size from which rounding up to
units runs past 32 bits is the one thing that gets in the way.
-/

/-! ## What the pool is for -/

namespace Allocation

def extent (a : Allocation) : Nat := (a.size + (usbHcMemUnit - 1)) / usbHcMemUnit * usbHcMemUnit

def HasUnit (a : Allocation) (x : Nat) : Prop := a.mem ≤ x ∧ x < a.mem + a.extent

end Allocation

structure PoolInvariant (asserts : Bool) (s : Session) : Prop where
  /-- The bits that are set are those of the units of the live allocations. -/
  bits : ∀ b ∈ s.pool, ∀ k < b.units,
    (b.isSet k = true ↔ ∃ a ∈ s.live, a.HasUnit (b.unitAddress k))
  disjoint : s.live.Pairwise fun a a' => a.mem + a.extent ≤ a'.mem ∨ a'.mem + a'.extent ≤ a.mem
  aligned : ∀ a ∈ s.live, a.mem % usbHcMemUnit = 0
  inside : ∀ a ∈ s.live, ∃ b ∈ s.pool,
    b.bufHost ≤ a.mem ∧ a.mem + a.extent ≤ b.bufHost + b.bufLen
  /-- A block has memory to give exactly when it has a run of enough free units. -/
  gives : ∀ b ∈ s.pool, ∀ n, 0 < n → ∃ r b',
    (usbHcAllocMemFromBlock asserts b n : Exec Session _) s = .ret (r, b') s ∧
      (r ≠ none ↔ ∃ k, b.Free k n)
  /-- Freeing restores the bitmap that preceded the allocation. -/
  restores : ∀ size buffer mem pool', 0 < size → size + usbHcMemUnit ≤ 0x100000000 →
    (∀ p, buffer = some p → FreshBuffer s.pool size p) →
    (usbHcAllocateMem asserts s.pool size buffer : Exec Session _) s = .ret (some mem, pool') s →
    (usbHcFreeMem asserts pool' mem size : Exec Session _) s = .ret s.pool s

section

variable {asserts : Bool} {pool₀ : MemPool} {s : Session}

theorem Allocation.extent_eq {a : Allocation} (h : a.size + usbHcMemUnit ≤ 0x100000000) :
    a.extent = a.len :=
  (usbHcMemRound_eq h).symm

structure Ledger (pool₀ : MemPool) (s : Session) : Prop where
  grown : Grown pool₀ s.live s.pool
  bounded : ∀ a ∈ s.live, a.size + usbHcMemUnit ≤ 0x100000000

theorem Ledger.allocate (h : Ledger pool₀ s) {size : Nat} {buffer : Option Nat} (hpos : 0 < size)
    (hbuffer : ∀ p, buffer = some p → FreshBuffer s.pool size p)
    (hsize : size + usbHcMemUnit ≤ 0x100000000) :
    wp (servePool asserts (.allocate size buffer)) (fun _ => Ledger pool₀) (fun _ _ => False) s := by
  obtain ⟨r, pool', hcall, hr⟩ := usbHcAllocateMem_ret asserts h.grown hpos hsize hbuffer s
  show wp (Exec.get >>= _) _ _ s
  rw [wp_bind, wp_get, wp_bind]
  refine wp_of_eq_ret hcall ?_
  rw [wp_modify]
  cases hr with
  | nothing _ _ => exact h
  | @entered mem _ _ _ _ hgrown _ =>
    refine ⟨hgrown, fun a ha => ?_⟩
    rcases List.mem_cons.mp ha with rfl | ha
    · exact hsize
    · exact h.bounded a ha

theorem Ledger.free (h : Ledger pool₀ s) {a : Allocation} (ha : a ∈ s.live) :
    wp (servePool asserts (.free a)) (fun _ => Ledger pool₀) (fun _ _ => False) s := by
  have hgrown := h.grown.perm (List.perm_cons_erase ha)
  obtain ⟨pool', hcall, hgrown'⟩ := usbHcFreeMem_ret asserts hgrown s
  show wp (Exec.get >>= _) _ _ s
  rw [wp_bind, wp_get, wp_bind]
  refine wp_of_eq_ret hcall ?_
  rw [wp_modify]
  exact ⟨hgrown', fun x hx => h.bounded x (List.mem_of_mem_erase hx)⟩

theorem isSet_of_empty {b : MemBlock} (h : ¬ b.InUse) {k : Nat} (hk : k < b.units) :
    b.isSet k = false := by
  unfold MemBlock.InUse usbHcIsMemBlockEmpty at h
  simp only [decide_eq_true_eq, not_not] at h
  unfold MemBlock.units at hk
  unfold MemBlock.isSet
  rw [h (k / 8) (by omega)]
  simp

theorem Ledger.invariant (h : Ledger pool₀ s) (hempty : ∀ b ∈ pool₀, ¬ b.InUse) :
    PoolInvariant asserts s := by
  obtain ⟨base, hbase, htrim⟩ := h.grown.loaded
  have hextent : ∀ a ∈ s.live, a.extent = a.len := fun a ha => a.extent_eq (h.bounded a ha)
  refine ⟨fun b hb k hk => ?_, ?_, fun a ha => ?_, fun a ha => ?_, fun b _ n hn => ?_, ?_⟩
  · obtain ⟨before, behind, heq⟩ := List.append_of_mem hb
    rw [heq] at hbase
    obtain ⟨x, b₀, z, hsplit, -, hloaded, -⟩ := forall₂_split hbase
    have hzero : b₀.isSet k = false := by
      have hmem : b₀ ∈ base := by rw [hsplit]; simp
      have hidle : ¬ b₀.InUse := by
        intro huse
        refine hempty b₀ ?_ huse
        rw [← htrim]
        cases base with
        | nil => cases hmem
        | cons head next =>
          rcases List.mem_cons.mp hmem with rfl | hmem
          · exact List.mem_cons_self
          · exact List.mem_cons_of_mem head (List.mem_filter.mpr ⟨hmem, decide_eq_true huse⟩)
      refine isSet_of_empty hidle ?_
      unfold MemBlock.units at hk ⊢
      rw [← hloaded.bitsLen]
      exact hk
    rw [hloaded.isSet, hzero]
    simp only [Bool.false_eq_true, false_or]
    constructor
    · rintro ⟨-, a, ha, hcovers⟩
      refine ⟨a, ha, ?_⟩
      unfold Allocation.HasUnit
      rw [hextent a ha]
      exact hcovers
    · rintro ⟨a, ha, hunit⟩
      unfold Allocation.HasUnit at hunit
      rw [hextent a ha] at hunit
      exact ⟨hk, a, ha, hunit⟩
  · refine h.grown.apart.imp_of_mem fun ha hb hapart => ?_
    rw [hextent _ ha, hextent _ hb]
    exact hapart
  · obtain ⟨b, _, hinside⟩ := h.grown.inside a ha
    exact hinside.aligned
  · obtain ⟨b, hb, hinside⟩ := h.grown.inside a ha
    rw [hextent a ha]
    exact ⟨b, hb, hinside.low, hinside.high⟩
  · obtain ⟨r, b', hcall, hr⟩ := usbHcAllocMemFromBlock_ret asserts b hn s
    refine ⟨r, b', hcall, ?_⟩
    rcases hr with ⟨rfl, -, hnone⟩ | ⟨k, rfl, hfree, -⟩
    · exact ⟨fun hr => absurd rfl hr, fun ⟨k, hk⟩ => absurd hk (hnone k)⟩
    · exact ⟨fun _ => ⟨k, hfree⟩, fun _ => by simp⟩
  · intro size buffer mem pool' hpos hsize hbuffer hcall
    obtain ⟨r, pool'', hcall', hr⟩ :=
      usbHcAllocateMem_ret asserts (Grown.none h.grown.sound) hpos hsize hbuffer s
    rw [hcall] at hcall'
    injection hcall' with hpair _
    injection hpair with hr' hpool
    subst hr' hpool
    cases hr with
    | entered _ _ _ hgrown _ =>
      obtain ⟨pool₁, hfree, hback⟩ := usbHcFreeMem_ret asserts hgrown s
      rw [hback.eq_of_nil] at hfree
      exact hfree

end

end Quark.Ohci
