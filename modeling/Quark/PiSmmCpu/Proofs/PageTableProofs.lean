import Quark.PiSmmCpu.PageTable
import Quark.Machine.BitField

/-!
# One page's cacheability

The tables that `Gen4GPageTable` and `SetCacheability` build are pages of their own, each reached by one entry.
So an entry of a page table belongs to one page, and setting its cacheability leaves the others alone. When a
2MB block is broken into pages, though, its directory entry loses the flag for writes.
-/

namespace Quark.PiSmmCpu

open Machine Exec

/-! ## Entries -/

theorem and_bit_eq_zero (e : BitVec 64) {k : Nat} (hk : k < 64) :
    e &&& 1#64 <<< k = 0 ↔ e.getLsbD k = false := by
  have htwo : (1#64 <<< k) = BitVec.twoPow 64 k := rfl
  have hne : BitVec.twoPow 64 k ≠ 0#64 := by
    intro h
    have hbit := congrArg (fun x : BitVec 64 => x.getLsbD k) h
    simp [hk] at hbit
  rw [htwo, BitVec.and_twoPow]
  cases e.getLsbD k with
  | false => simp
  | true => simpa using hne

section Entries

variable {c : PagingConfig} {e : BitVec 64} {f : Nat}

theorem getLsbD_phyMask (c : PagingConfig) (i : Nat) :
    c.phyMask.getLsbD i = decide (i < c.physBits ∧ 12 ≤ i ∧ i < 48) := by
  have hlow : (2 ^ 48 - 2 ^ 12 : Nat) = (2 ^ 36 - 1) <<< 12 := rfl
  rw [PagingConfig.phyMask, BitVec.getLsbD_and, BitVec.getLsbD_ofNat, BitVec.getLsbD_ofNat, hlow,
    Nat.testBit_shiftLeft, Nat.testBit_two_pow_sub_one, Nat.testBit_two_pow_sub_one]
  rw [Bool.eq_iff_iff]
  simp only [Bool.and_eq_true, decide_eq_true_eq]
  omega

theorem table_eq (c : PagingConfig) (e : BitVec 64) : c.table e = e.toNat % 2 ^ 32 / 2 ^ 12 := by
  refine Nat.eq_of_testBit_eq fun i => ?_
  rw [PagingConfig.table, Nat.testBit_div_two_pow, Nat.testBit_div_two_pow, Nat.testBit_mod_two_pow,
    Nat.testBit_mod_two_pow, BitVec.toNat_and, Nat.testBit_and]
  by_cases hi : i + 12 < 32
  · have hmask : c.phyMask.toNat.testBit (i + 12) = true := by
      have hbits := c.physBits_ge
      exact (getLsbD_phyMask c (i + 12)).trans (by simp; omega)
    rw [hmask, Bool.and_true]
  · simp [hi]

theorem toNat_link (hf : f < 2 ^ 20) (flags : Nat) (hflags : flags < 2 ^ 12) :
    (BitVec.ofNat 64 (f * 2 ^ 12) + BitVec.ofNat 64 flags).toNat = f * 2 ^ 12 + flags := by
  rw [← BitVec.ofNat_add, BitVec.toNat_ofNat]
  exact Nat.mod_eq_of_lt (by omega)

theorem table_link (c : PagingConfig) (hf : f < 2 ^ 20) {flags : Nat} (hflags : flags < 2 ^ 12) :
    c.table (BitVec.ofNat 64 (f * 2 ^ 12) + BitVec.ofNat 64 flags) = f := by
  rw [table_eq, toNat_link hf flags hflags]
  omega

theorem getLsbD_link (hf : f < 2 ^ 20) {flags k : Nat} (hflags : flags < 2 ^ 12) (hk : k < 12) :
    (BitVec.ofNat 64 (f * 2 ^ 12) + BitVec.ofNat 64 flags).getLsbD k = flags.testBit k := by
  rw [BitVec.getLsbD, toNat_link hf flags hflags, Nat.mul_comm, Nat.testBit_two_pow_mul_add _ hflags, if_pos hk]

theorem newTable_eq (c : PagingConfig) (hf : f < 2 ^ 20) :
    (BitVec.ofNat 64 (f * 2 ^ 12) &&& c.phyMask) ||| ia32PgP =
      BitVec.ofNat 64 (f * 2 ^ 12) + BitVec.ofNat 64 1 := by
  have hbits := c.physBits_ge
  have hmask : BitVec.ofNat 64 (f * 2 ^ 12) &&& c.phyMask = BitVec.ofNat 64 (f * 2 ^ 12) := by
    refine BitVec.eq_of_getLsbD_eq fun i hi => ?_
    rw [BitVec.getLsbD_and, getLsbD_phyMask, BitVec.getLsbD_ofNat, Nat.testBit_mul_two_pow]
    by_cases hlow : 12 ≤ i
    · by_cases hhigh : i < 32
      · simp [hlow]
        omega
      · have hbit : f.testBit (i - 12) = false :=
          Nat.testBit_eq_false_of_lt (hf.trans_le (Nat.pow_le_pow_right (by decide) (by omega)))
        simp [hbit]
    · simp [hlow]
  rw [hmask]
  refine BitVec.eq_of_toNat_eq ?_
  rw [toNat_link hf 1 (by decide), BitVec.toNat_or, BitVec.toNat_ofNat, Nat.mod_eq_of_lt (by omega)]
  have hor := Nat.two_pow_add_eq_or_of_lt (show 1 < 2 ^ 12 by decide) f
  rw [Nat.mul_comm, hor]
  rfl

end Entries

/-! ## Tables -/

/-- A table by its place in the walk. -/
inductive TableName where
  | pdpt
  | pd (i : Nat)
  | pt (i j : Nat)

section Tables

variable (c : PagingConfig) (root : Nat) (s : Paging)

def frameOf : TableName → Nat
  | .pdpt => root
  | .pd i => c.table (s.entry root i)
  | .pt i j => c.table (s.entry (c.table (s.entry root i)) j)

def Small (i j : Nat) : Prop := s.entry (frameOf c root s (.pd i)) j &&& ia32PgPs = 0

def InUse : TableName → Prop
  | .pdpt => True
  | .pd i => i < 4
  | .pt i j => i < 4 ∧ j < 512 ∧ Small c root s i j

/-- The tables are pages of their own. Large entries allow writes, and the pages are below 4GB. -/
structure Tables : Prop where
  used : ∀ n, InUse c root s n → frameOf c root s n ∈ s.used
  inj : ∀ n n', InUse c root s n → InUse c root s n' → frameOf c root s n = frameOf c root s n' → n = n'
  large : ∀ i < 4, ∀ j < 512, ¬ Small c root s i j →
    s.entry (frameOf c root s (.pd i)) j &&& ia32PgRw ≠ 0
  below : ∀ i j, InUse c root s (.pt i j) → ∀ k < 512,
    (s.entry (frameOf c root s (.pt i j)) k).toNat < 2 ^ 32

end Tables

section Steps

variable {c : PagingConfig} {root : Nat} {s t : Paging} {i j f : Nat} {e : BitVec 64}

theorem Paging.write_of_ne {frame index frame' index' : Nat} {v : BitVec 64}
    (h : ¬ (frame' = frame ∧ index' = index)) :
    (Paging.write frame index v s).entry frame' index' = s.entry frame' index' := by
  show Function.update s.entry frame _ frame' index' = _
  by_cases hframe : frame' = frame
  · subst hframe
    rw [Function.update_self, Function.update_of_ne fun hindex => h ⟨rfl, hindex⟩]
  · rw [Function.update_of_ne hframe]

theorem Paging.write_self {frame index : Nat} {v : BitVec 64} :
    (Paging.write frame index v s).entry frame index = v := by
  show Function.update s.entry frame _ frame index = v
  rw [Function.update_self, Function.update_self]

theorem frameOf_congr (hroot : ∀ i < 4, t.entry root i = s.entry root i)
    (hpd : ∀ i < 4, ∀ j < 512, t.entry (frameOf c root s (.pd i)) j = s.entry (frameOf c root s (.pd i)) j) :
    (∀ n, InUse c root t n ↔ InUse c root s n) ∧
      ∀ n, InUse c root s n → frameOf c root t n = frameOf c root s n := by
  have hdir : ∀ i < 4, frameOf c root t (.pd i) = frameOf c root s (.pd i) := by
    intro i hi
    rw [frameOf, frameOf, hroot i hi]
  have hentry : ∀ i < 4, ∀ j < 512, t.entry (frameOf c root t (.pd i)) j =
      s.entry (frameOf c root s (.pd i)) j := by
    intro i hi j hj
    rw [hdir i hi, hpd i hi j hj]
  refine ⟨fun n => ?_, fun n hn => ?_⟩
  · cases n with
    | pdpt => exact Iff.rfl
    | pd i => exact Iff.rfl
    | pt i j =>
      refine and_congr_right fun hi => and_congr_right fun hj => ?_
      rw [Small, Small, hentry i hi j hj]
  · cases n with
    | pdpt => rfl
    | pd i => exact hdir i hn
    | pt i j => exact congrArg c.table (hentry i hn.1 j hn.2.1)

theorem Tables.write (h : Tables c root s) (hn : InUse c root s (.pt i j)) {k : Nat} {v : BitVec 64}
    (hv : v.toNat < 2 ^ 32) :
    Tables c root (Paging.write (frameOf c root s (.pt i j)) k v s) ∧
      (∀ n, InUse c root (Paging.write (frameOf c root s (.pt i j)) k v s) n ↔ InUse c root s n) ∧
      ∀ n, InUse c root s n →
        frameOf c root (Paging.write (frameOf c root s (.pt i j)) k v s) n = frameOf c root s n := by
  have hother : ∀ n, InUse c root s n → n ≠ .pt i j → ∀ k',
      (Paging.write (frameOf c root s (.pt i j)) k v s).entry (frameOf c root s n) k' =
        s.entry (frameOf c root s n) k' :=
    fun n hn' hne k' => Paging.write_of_ne fun heq => hne (h.inj n _ hn' hn heq.1)
  have hroot : ∀ i' < 4, (Paging.write (frameOf c root s (.pt i j)) k v s).entry root i' =
      s.entry root i' := fun i' _ => hother .pdpt trivial nofun i'
  obtain ⟨huse, hframe⟩ := frameOf_congr hroot fun i' hi' j' _ => hother (.pd i') hi' nofun j'
  have hdir : ∀ i' < 4, ∀ j',
      (Paging.write (frameOf c root s (.pt i j)) k v s).entry
        (frameOf c root (Paging.write (frameOf c root s (.pt i j)) k v s) (.pd i')) j' =
      s.entry (frameOf c root s (.pd i')) j' := by
    intro i' hi' j'
    rw [hframe (.pd i') hi']
    exact hother (.pd i') hi' nofun j'
  refine ⟨⟨fun n hn' => ?_, fun n n' hn' hn'' heq => ?_, fun i' hi' j' hj' hlarge => ?_,
    fun i' j' hn' k' hk' => ?_⟩, huse, hframe⟩
  · have hn' := (huse n).mp hn'
    rw [hframe n hn']
    exact h.used n hn'
  · have hn' := (huse n).mp hn'
    have hn'' := (huse n').mp hn''
    rw [hframe n hn', hframe n' hn''] at heq
    exact h.inj n n' hn' hn'' heq
  · rw [hdir i' hi' j']
    refine h.large i' hi' j' hj' fun hsmall => hlarge ?_
    rw [Small, hdir i' hi' j']
    exact hsmall
  · have hn' := (huse _).mp hn'
    rw [hframe _ hn']
    by_cases hself : frameOf c root s (.pt i' j') = frameOf c root s (.pt i j) ∧ k' = k
    · rw [hself.1, hself.2, Paging.write_self]
      exact hv
    · rw [Paging.write_of_ne hself]
      exact h.below i' j' hn' k' hk'

/-- A new page table has been filled in at frame `f`, and the directory entry `e` leads to it. -/
structure Linked (c : PagingConfig) (root i j f : Nat) (e : BitVec 64) (s t : Paging) : Prop where
  used : ∀ x ∈ s.used, x ∈ t.used
  mem : f ∈ t.used
  below : ∀ k < 512, (t.entry f k).toNat < 2 ^ 32
  own : t.entry (frameOf c root s (.pd i)) j = e
  frame : ∀ f' k, f' ≠ f → ¬ (f' = frameOf c root s (.pd i) ∧ k = j) → t.entry f' k = s.entry f' k

theorem Tables.link_frame (h : Tables c root s) (hi : i < 4)
    (hfresh : ∀ n, InUse c root s n → frameOf c root s n ≠ f) (hl : Linked c root i j f e s t) :
    (∀ i' < 4, ∀ j', ¬ (i' = i ∧ j' = j) → t.entry (frameOf c root t (.pd i')) j' =
      s.entry (frameOf c root s (.pd i')) j') ∧
      t.entry (frameOf c root t (.pd i)) j = e ∧
      ∀ n, InUse c root t n → n ≠ .pt i j → InUse c root s n ∧ frameOf c root t n = frameOf c root s n := by
  have hroot : ∀ i' < 4, t.entry root i' = s.entry root i' := by
    intro i' hi'
    refine hl.frame root i' (hfresh .pdpt trivial) fun heq => ?_
    exact absurd (h.inj .pdpt (.pd i) trivial hi heq.1) nofun
  have hdir : ∀ i' < 4, frameOf c root t (.pd i') = frameOf c root s (.pd i') := by
    intro i' hi'
    rw [frameOf, frameOf, hroot i' hi']
  have hentry : ∀ i' < 4, ∀ j', ¬ (i' = i ∧ j' = j) → t.entry (frameOf c root t (.pd i')) j' =
      s.entry (frameOf c root s (.pd i')) j' := by
    intro i' hi' j' hne
    rw [hdir i' hi']
    refine hl.frame _ j' (hfresh (.pd i') hi') fun heq => hne ⟨?_, heq.2⟩
    injection h.inj (.pd i') (.pd i) hi' hi heq.1
  have hown : t.entry (frameOf c root t (.pd i)) j = e := by
    rw [hdir i hi]
    exact hl.own
  refine ⟨hentry, hown, fun n hn hne => ?_⟩
  cases n with
  | pdpt => exact ⟨trivial, rfl⟩
  | pd i' => exact ⟨hn, hdir i' hn⟩
  | pt i' j' =>
    have heq := hentry i' hn.1 j' fun heq => hne (by rw [heq.1, heq.2])
    refine ⟨⟨hn.1, hn.2.1, ?_⟩, congrArg c.table heq⟩
    rw [Small, ← heq]
    exact hn.2.2

theorem Tables.link (h : Tables c root s) (hi : i < 4)
    (hfresh : ∀ n, InUse c root s n → frameOf c root s n ≠ f) (htable : c.table e = f)
    (hsmall : e &&& ia32PgPs = 0) (hl : Linked c root i j f e s t) : Tables c root t := by
  obtain ⟨hentry, hown, hold⟩ := h.link_frame hi hfresh hl
  have hself : frameOf c root t (.pt i j) = f := (congrArg c.table hown).trans htable
  refine ⟨fun n hn => ?_, fun n n' hn hn' heq => ?_, fun i' hi' j' hj' hlarge => ?_,
    fun i' j' hn k hk => ?_⟩
  · by_cases hne : n = .pt i j
    · rw [hne, hself]
      exact hl.mem
    · obtain ⟨hs, hf⟩ := hold n hn hne
      rw [hf]
      exact hl.used _ (h.used n hs)
  · by_cases hne : n = .pt i j
    · by_cases hne' : n' = .pt i j
      · rw [hne, hne']
      · obtain ⟨hs, hf⟩ := hold n' hn' hne'
        rw [hne, hself, hf] at heq
        exact absurd heq.symm (hfresh n' hs)
    · obtain ⟨hs, hf⟩ := hold n hn hne
      by_cases hne' : n' = .pt i j
      · rw [hne', hself, hf] at heq
        exact absurd heq (hfresh n hs)
      · obtain ⟨hs', hf'⟩ := hold n' hn' hne'
        rw [hf, hf'] at heq
        exact h.inj n n' hs hs' heq
  · have hne : ¬ (i' = i ∧ j' = j) := by
      rintro ⟨rfl, rfl⟩
      refine hlarge ?_
      rw [Small, hown]
      exact hsmall
    have heq := hentry i' hi' j' hne
    rw [heq]
    refine h.large i' hi' j' hj' fun hs => hlarge ?_
    rw [Small, heq]
    exact hs
  · by_cases hne : (TableName.pt i' j') = .pt i j
    · rw [hne, hself]
      exact hl.below k hk
    · obtain ⟨hs, hf⟩ := hold _ hn hne
      have hne' : frameOf c root s (.pt i' j') ≠ frameOf c root s (.pd i) :=
        fun heq => absurd (h.inj (.pt i' j') (.pd i) hs hi heq) nofun
      rw [hf, hl.frame _ k (hfresh _ hs) fun heq => hne' heq.1]
      exact h.below i' j' hs k hk

end Steps

/-! ## One call -/

section Call

variable {c : PagingConfig} {root : Nat} {s t : Paging} {address : BitVec 32} {cacheability : BitVec 8}

theorem wp_allocatePages {pages : Nat} {Q : Nat → Paging → Prop}
    (h : ∀ f, c.allocate s.used pages = some f → Q f { s with used := List.range' f pages ++ s.used }) :
    wp (allocatePages c pages) Q (fun _ _ => True) s := by
  unfold allocatePages
  rw [wp_bind, wp_get]
  cases hf : c.allocate s.used pages with
  | some f => exact h f hf
  | none => simp

theorem page_index (address : BitVec 32) : ptIndex address 30 < 4 ∧ ptIndex address 21 < 512 ∧
    ptIndex address 12 < 512 ∧ address.toNat / 2 ^ 12 / 2 ^ 18 = ptIndex address 30 ∧
    address.toNat / 2 ^ 12 / 2 ^ 9 % 512 = ptIndex address 21 ∧
    address.toNat / 2 ^ 12 % 512 = ptIndex address 12 := by
  have hlt := address.isLt
  unfold ptIndex
  omega

theorem viewPage_congr {page : Nat} (hpdpte : t.entry root (page / 2 ^ 18) = s.entry root (page / 2 ^ 18))
    (hpde : t.entry (frameOf c root s (.pd (page / 2 ^ 18))) (page / 2 ^ 9 % 512) =
      s.entry (frameOf c root s (.pd (page / 2 ^ 18))) (page / 2 ^ 9 % 512))
    (hpte : Small c root s (page / 2 ^ 18) (page / 2 ^ 9 % 512) →
      t.entry (frameOf c root s (.pt (page / 2 ^ 18) (page / 2 ^ 9 % 512))) (page % 512) =
        s.entry (frameOf c root s (.pt (page / 2 ^ 18) (page / 2 ^ 9 % 512))) (page % 512)) :
    viewPage c root t page = viewPage c root s page := by
  have hpde' : t.entry (c.table (t.entry root (page / 2 ^ 18))) (page / 2 ^ 9 % 512) =
      s.entry (c.table (s.entry root (page / 2 ^ 18))) (page / 2 ^ 9 % 512) := by
    rw [hpdpte]
    exact hpde
  unfold viewPage
  dsimp only
  rw [hpde', hpdpte]
  by_cases hsmall : s.entry (c.table (s.entry root (page / 2 ^ 18))) (page / 2 ^ 9 % 512) &&& ia32PgPs = 0
  · rw [if_neg (not_not_intro hsmall), if_neg (not_not_intro hsmall)]
    have hpte' := hpte hsmall
    simp only [frameOf] at hpte'
    rw [hpte']
  · rw [if_pos hsmall, if_pos hsmall]

def Within (cacheability : BitVec 8) : Prop := cacheability &&& ~~~0x98 = 0

instance (cacheability : BitVec 8) : Decidable (Within cacheability) := inferInstanceAs (Decidable (_ = _))

theorem within_iff (cacheability : BitVec 8) :
    cacheability.setWidth 64 &&& cacheFlags = cacheability.setWidth 64 ↔ Within cacheability := by
  revert cacheability
  decide +kernel

def withCacheability (pte : BitVec 64) (cacheability : BitVec 8) : BitVec 64 :=
  clearFlags pte cacheFlags ||| cacheability.setWidth 64

theorem getLsbD_withCacheability {pte : BitVec 64} (hpte : pte.toNat < 2 ^ 32)
    (cacheability : BitVec 8) (n : Nat) :
    (withCacheability pte cacheability).getLsbD n =
      ((pte.getLsbD n && !cacheFlags.getLsbD n) || (cacheability.setWidth 64).getLsbD n) := by
  rw [withCacheability, BitVec.getLsbD_or, clearFlags, BitVec.getLsbD_and, BitVec.getLsbD_setWidth,
    BitVec.getLsbD_not, BitVec.getLsbD_setWidth]
  by_cases hn : n < 32
  · simp [hn, show n < 64 by omega]
  · have hbit : pte.getLsbD n = false :=
      Nat.testBit_eq_false_of_lt (hpte.trans_le (Nat.pow_le_pow_right (by decide) (by omega)))
    simp [hbit]

theorem withCacheability_lt {pte : BitVec 64} (hpte : pte.toNat < 2 ^ 32) (cacheability : BitVec 8) :
    (withCacheability pte cacheability).toNat < 2 ^ 32 := by
  refine Nat.lt_pow_two_of_testBit _ fun n hn => ?_
  have hbit : pte.getLsbD n = false :=
    Nat.testBit_eq_false_of_lt (hpte.trans_le (Nat.pow_le_pow_right (by decide) hn))
  have h := getLsbD_withCacheability hpte cacheability n
  rw [hbit, BitVec.getLsbD_setWidth, BitVec.getLsbD_of_ge cacheability n (by omega), Bool.and_false,
    Bool.false_and, Bool.or_false] at h
  exact h

theorem withCacheability_and_cacheFlags {pte : BitVec 64} (hpte : pte.toNat < 2 ^ 32) :
    withCacheability pte cacheability &&& cacheFlags = cacheability.setWidth 64 &&& cacheFlags := by
  refine BitVec.eq_of_getLsbD_eq fun n _ => ?_
  rw [BitVec.getLsbD_and, BitVec.getLsbD_and, getLsbD_withCacheability hpte cacheability]
  cases cacheFlags.getLsbD n <;> simp

theorem withCacheability_and {pte m : BitVec 64} (hpte : pte.toNat < 2 ^ 32) (hw : Within cacheability)
    (hm : m &&& cacheFlags = 0) : withCacheability pte cacheability &&& m = pte &&& m := by
  refine BitVec.eq_of_getLsbD_eq fun n _ => ?_
  have hflag : (m.getLsbD n && cacheFlags.getLsbD n) = false := by
    rw [← BitVec.getLsbD_and, hm]
    exact BitVec.getLsbD_zero
  have hreq : (cacheability.setWidth 64).getLsbD n =
      ((cacheability.setWidth 64).getLsbD n && cacheFlags.getLsbD n) := by
    rw [← BitVec.getLsbD_and, (within_iff cacheability).mpr hw]
  rw [BitVec.getLsbD_and, BitVec.getLsbD_and, getLsbD_withCacheability hpte cacheability, hreq]
  cases hm' : m.getLsbD n with
  | false => simp
  | true =>
    rw [hm', Bool.true_and] at hflag
    rw [hflag]
    simp

theorem phyMask_and_cacheFlags (c : PagingConfig) : c.phyMask &&& cacheFlags = 0 := by
  refine BitVec.eq_of_getLsbD_eq fun n hn => ?_
  rw [BitVec.getLsbD_and, getLsbD_phyMask]
  by_cases hlow : 12 ≤ n
  · have hflag : cacheFlags.getLsbD n = false := by
      have hall : ∀ m < 64, 12 ≤ m → cacheFlags.getLsbD m = false := by decide
      exact hall n hn hlow
    rw [hflag, Bool.and_false]
    exact BitVec.getLsbD_zero.symm
  · rw [decide_eq_false (fun h => hlow h.2.1), Bool.false_and]
    exact BitVec.getLsbD_zero.symm

def smallView (c : PagingConfig) (pdpte pde pte : BitVec 64) : PageView where
  physical := pte &&& c.phyMask
  present := pdpte &&& ia32PgP ≠ 0 ∧ pde &&& ia32PgP ≠ 0 ∧ pte &&& ia32PgP ≠ 0
  writable := pde &&& ia32PgRw ≠ 0 ∧ pte &&& ia32PgRw ≠ 0
  cacheability := pte &&& cacheFlags
  flags := pte &&& ~~~(c.phyMask ||| cacheFlags)

theorem smallView_iff {pdpte pde pte : BitVec 64} (hpte : pte.toNat < 2 ^ 32) :
    smallView c pdpte pde (withCacheability pte cacheability) =
      { smallView c pdpte pde pte with cacheability := cacheability.setWidth 64 } ↔
      Within cacheability := by
  constructor
  · intro h
    have hcache : withCacheability pte cacheability &&& cacheFlags = cacheability.setWidth 64 :=
      congrArg PageView.cacheability h
    rw [withCacheability_and_cacheFlags hpte] at hcache
    exact (within_iff cacheability).mp hcache
  · intro hw
    have hand := fun {m : BitVec 64} (hm : m &&& cacheFlags = 0) => withCacheability_and hpte hw hm
    have hflags : ~~~(c.phyMask ||| cacheFlags) &&& cacheFlags = 0 := by
      refine BitVec.eq_of_getLsbD_eq fun n hn => ?_
      rw [BitVec.getLsbD_and, BitVec.getLsbD_not, BitVec.getLsbD_or]
      cases cacheFlags.getLsbD n <;> simp
    have hP : ia32PgP &&& cacheFlags = 0 := by decide
    have hRw : ia32PgRw &&& cacheFlags = 0 := by decide
    unfold smallView
    rw [hand (phyMask_and_cacheFlags c), hand hP, hand hRw, hand hflags,
      withCacheability_and_cacheFlags hpte, (within_iff cacheability).mpr hw]

theorem viewPage_small {page i j k : Nat} (hi : page / 2 ^ 18 = i) (hj : page / 2 ^ 9 % 512 = j)
    (hk : page % 512 = k) (hsmall : Small c root s i j) :
    viewPage c root s page = smallView c (s.entry root i) (s.entry (frameOf c root s (.pd i)) j)
      (s.entry (frameOf c root s (.pt i j)) k) := by
  subst hi hj hk
  unfold viewPage
  exact if_neg (not_not_intro hsmall)

theorem changesOnly_write_iff (h : Tables c root s) (hsmall : HasPageTable c root address s) :
    let pt := frameOf c root s (.pt (ptIndex address 30) (ptIndex address 21))
    ChangesOnly c root address cacheability s (Paging.write pt (ptIndex address 12)
      (withCacheability (s.entry pt (ptIndex address 12)) cacheability) s) ↔ Within cacheability := by
  intro pt
  obtain ⟨hi, hj, hk, hpi, hpj, hpk⟩ := page_index address
  have hinUse : InUse c root s (.pt (ptIndex address 30) (ptIndex address 21)) := ⟨hi, hj, hsmall⟩
  have hbelow := h.below _ _ hinUse _ hk
  have hother : ∀ n, InUse c root s n → n ≠ .pt (ptIndex address 30) (ptIndex address 21) → ∀ k' v,
      (Paging.write pt (ptIndex address 12) v s).entry (frameOf c root s n) k' =
        s.entry (frameOf c root s n) k' :=
    fun n hn hne k' v => Paging.write_of_ne fun heq => hne (h.inj n _ hn hinUse heq.1)
  -- the other pages
  have hrest : ∀ v, ∀ page < 2 ^ 20, page ≠ address.toNat / 2 ^ 12 →
      viewPage c root (Paging.write pt (ptIndex address 12) v s) page = viewPage c root s page := by
    intro v page hlt hne
    have hi' : page / 2 ^ 18 < 4 := by omega
    have hj' : page / 2 ^ 9 % 512 < 512 := Nat.mod_lt _ (by decide)
    refine viewPage_congr (hother .pdpt trivial nofun _ v) (hother (.pd _) hi' nofun _ v) fun hs => ?_
    by_cases hsame : page / 2 ^ 18 = ptIndex address 30 ∧ page / 2 ^ 9 % 512 = ptIndex address 21
    · refine Paging.write_of_ne fun heq => hne ?_
      omega
    · refine hother (.pt _ _) ⟨hi', hj', hs⟩ (fun heq => hsame ?_) _ v
      injection heq with h₁ h₂
      exact ⟨h₁, h₂⟩
  -- the page itself
  have hown : ∀ v, viewPage c root (Paging.write pt (ptIndex address 12) v s) (address.toNat / 2 ^ 12) =
      smallView c (s.entry root (ptIndex address 30))
        (s.entry (frameOf c root s (.pd (ptIndex address 30))) (ptIndex address 21)) v := by
    intro v
    have hpd := hother (.pd (ptIndex address 30)) hi nofun (ptIndex address 21) v
    have hdir : frameOf c root (Paging.write pt (ptIndex address 12) v s) (.pd (ptIndex address 30)) =
        frameOf c root s (.pd (ptIndex address 30)) :=
      congrArg c.table (hother .pdpt trivial nofun _ v)
    have hentry : (Paging.write pt (ptIndex address 12) v s).entry
        (frameOf c root (Paging.write pt (ptIndex address 12) v s) (.pd (ptIndex address 30)))
          (ptIndex address 21) =
        s.entry (frameOf c root s (.pd (ptIndex address 30))) (ptIndex address 21) := by
      rw [hdir]
      exact hpd
    have hpt : frameOf c root (Paging.write pt (ptIndex address 12) v s)
        (.pt (ptIndex address 30) (ptIndex address 21)) = pt := congrArg c.table hentry
    rw [viewPage_small hpi hpj hpk, hentry, hpt, Paging.write_self]
    · exact congrArg (smallView c · _ v) (hother .pdpt trivial nofun _ v)
    · rw [Small, hentry]
      exact hsmall
  have hold : viewPage c root s (address.toNat / 2 ^ 12) = smallView c (s.entry root (ptIndex address 30))
      (s.entry (frameOf c root s (.pd (ptIndex address 30))) (ptIndex address 21))
      (s.entry pt (ptIndex address 12)) :=
    viewPage_small hpi hpj hpk hsmall
  rw [ChangesOnly, hown, hold, smallView_iff hbelow]
  refine and_iff_left fun page hlt hne => ?_
  rw [hrest _ page hlt hne]
  exact ⟨rfl, rfl, rfl, rfl⟩

/-! ### Breaking a large entry -/

theorem Paging.fill_self {frame n : Nat} {value : Nat → BitVec 64} {k : Nat} (hk : k < n) (hk' : k < 512) :
    (Paging.fill frame n value s).entry frame k = value k := by
  show (if _ then _ else _) = _
  rw [Nat.sub_self, Nat.zero_mul, Nat.zero_add, if_pos ⟨Nat.le_refl _, hk', hk⟩]

theorem Paging.fill_of_ne {frame n : Nat} {value : Nat → BitVec 64} {frame' k : Nat} (hn : n ≤ 512)
    (h : frame' ≠ frame) : (Paging.fill frame n value s).entry frame' k = s.entry frame' k := by
  refine if_neg fun hin => h ?_
  omega

theorem clearFlags_lt (e flags : BitVec 64) : (clearFlags e flags).toNat < 2 ^ 32 := by
  rw [clearFlags, BitVec.toNat_and, BitVec.toNat_setWidth]
  refine Nat.and_le_right.trans_lt ((Nat.mod_le _ _).trans_lt ?_)
  exact BitVec.isLt _

theorem splitEntry_lt (e : BitVec 64) {k : Nat} (hk : k < 512) : (splitEntry e k).toNat < 2 ^ 32 := by
  unfold splitEntry
  rw [BitVec.toNat_or]
  refine Nat.or_lt_two_pow ?_ ?_
  · split
    · rw [BitVec.toNat_or]
      exact Nat.or_lt_two_pow (clearFlags_lt _ _) (by decide)
    · exact clearFlags_lt _ _
  · rw [BitVec.toNat_ofNat]
    omega

theorem and_ps_link {f : Nat} (hf : f < 2 ^ 20) {flags : Nat} (hflags : flags < 2 ^ 7) :
    (BitVec.ofNat 64 (f * 2 ^ 12) + BitVec.ofNat 64 flags) &&& ia32PgPs = 0 := by
  refine (and_bit_eq_zero _ (by decide)).mpr ?_
  rw [getLsbD_link hf (by omega) (by decide)]
  exact Nat.testBit_eq_false_of_lt hflags

theorem wp_breakEntry (h : Tables c root s) {i : Nat} (hi : i < 4) (j : Nat) :
    wp (breakEntry c (frameOf c root s (.pd i)) j) (fun _ t => Tables c root t ∧
      t.entry root i = s.entry root i ∧ ∃ f < 2 ^ 20,
        t.entry (frameOf c root s (.pd i)) j = BitVec.ofNat 64 (f * 2 ^ 12) + BitVec.ofNat 64 1)
      (fun _ _ => True) s := by
  unfold breakEntry
  rw [wp_bind]
  refine wp_allocatePages fun f hf => ?_
  obtain ⟨-, hfresh⟩ := c.allocate_fresh _ _ _ hf
  obtain ⟨hlt, hunused⟩ := hfresh 0 (by decide)
  rw [Nat.add_zero] at hlt hunused
  have hne : ∀ n, InUse c root s n → frameOf c root s n ≠ f := fun n hn heq => hunused (heq ▸ h.used n hn)
  rw [wp_bind, wp_get, wp_bind, wp_modify, wp_modify, newTable_eq c hlt]
  have hlinked : Linked c root i j f (BitVec.ofNat 64 (f * 2 ^ 12) + BitVec.ofNat 64 1) s
      (Paging.write (frameOf c root s (.pd i)) j (BitVec.ofNat 64 (f * 2 ^ 12) + BitVec.ofNat 64 1)
        (Paging.fill f 512 (splitEntry (s.entry (frameOf c root s (.pd i)) j))
          { s with used := List.range' f 1 ++ s.used })) := by
    refine ⟨fun x hx => List.mem_append_right _ hx, List.mem_append_left _ (by simp), fun k hk => ?_,
      Paging.write_self, fun f' k hf' hk => ?_⟩
    · rw [Paging.write_of_ne fun heq => hne (.pd i) hi heq.1.symm, Paging.fill_self hk hk]
      exact splitEntry_lt _ hk
    · rw [Paging.write_of_ne hk, Paging.fill_of_ne (Nat.le_refl _) hf']
  refine ⟨h.link hi hne (table_link c hlt (by decide)) (and_ps_link hlt (by decide)) hlinked, ?_, f, hlt,
    hlinked.own⟩
  refine hlinked.frame root i (hne .pdpt trivial) fun heq => ?_
  exact absurd (h.inj .pdpt (.pd i) trivial hi heq.1) nofun

/-! ### The whole call -/

theorem wp_setEntry (h : Tables c root s) {i j k pd : Nat} (hi : i < 4) (hj : j < 512) (hk : k < 512)
    (hpd : pd = frameOf c root s (.pd i)) (hsmall : Small c root s i j) {Q : Unit → Paging → Prop}
    (hQ : Tables c root (Paging.write (frameOf c root s (.pt i j)) k
        (withCacheability (s.entry (frameOf c root s (.pt i j)) k) cacheability) s) →
      Q () (Paging.write (frameOf c root s (.pt i j)) k
        (withCacheability (s.entry (frameOf c root s (.pt i j)) k) cacheability) s)) :
    wp (do
      let s ← Exec.get
      let pde := s.entry pd j
      assert c.assertEnabled (pde &&& ia32PgP ≠ 0)
      let pt := c.table pde
      let pte := s.entry pt k
      assert c.assertEnabled (pte &&& ia32PgP ≠ 0)
      Exec.modify (Paging.write pt k
        (clearFlags pte (ia32PgPat4K ||| ia32PgCd ||| ia32PgWt) ||| cacheability.setWidth 64)))
      Q (fun _ _ => True) s := by
  subst hpd
  have hinUse : InUse c root s (.pt i j) := ⟨hi, hj, hsmall⟩
  have htables := (h.write hinUse (k := k)
    (withCacheability_lt (h.below _ _ hinUse k hk) cacheability)).1
  rw [wp_bind, wp_get, wp_bind, wp_assert]
  refine ⟨fun _ => ?_, fun _ => trivial⟩
  rw [wp_bind, wp_assert]
  refine ⟨fun _ => ?_, fun _ => trivial⟩
  rw [wp_modify]
  exact hQ htables

theorem not_changesOnly_of_link (h : Tables c root s)
    (hlarge : ¬ HasPageTable c root address s) {f : Nat} (hf : f < 2 ^ 20)
    (hpde : t.entry (frameOf c root t (.pd (ptIndex address 30))) (ptIndex address 21) =
      BitVec.ofNat 64 (f * 2 ^ 12) + BitVec.ofNat 64 1) :
    ¬ ChangesOnly c root address cacheability s t := by
  obtain ⟨hi, hj, hk, hpi, hpj, hpk⟩ := page_index address
  -- another page of the block
  obtain ⟨page, hpage, hne, hi', hj'⟩ : ∃ page < 2 ^ 20, page ≠ address.toNat / 2 ^ 12 ∧
      page / 2 ^ 18 = ptIndex address 30 ∧ page / 2 ^ 9 % 512 = ptIndex address 21 := by
    refine ⟨ptIndex address 30 * 2 ^ 18 + ptIndex address 21 * 2 ^ 9 + (ptIndex address 12 + 1) % 512, ?_⟩
    omega
  have hsmall : Small c root t (ptIndex address 30) (ptIndex address 21) := by
    rw [Small, hpde]
    exact and_ps_link hf (by decide)
  intro hchanges
  have hwritable := (hchanges.2 page hpage hne).2.2.1
  have hbefore : (viewPage c root s page).writable = true := by
    have hlarge' : ¬ Small c root s (ptIndex address 30) (ptIndex address 21) := hlarge
    have hview : (viewPage c root s page).writable = decide (s.entry (frameOf c root s
        (.pd (ptIndex address 30))) (ptIndex address 21) &&& ia32PgRw ≠ 0) := by
      unfold viewPage
      dsimp only
      rw [hi', hj']
      exact congrArg PageView.writable (if_pos hlarge)
    rw [hview]
    exact decide_eq_true (h.large _ hi _ hj hlarge')
  have hafter : (viewPage c root t page).writable = false := by
    rw [viewPage_small hi' hj' rfl hsmall, hpde]
    refine decide_eq_false fun hand => hand.1 ?_
    refine (and_bit_eq_zero _ (by decide)).mpr ?_
    rw [getLsbD_link hf (by decide) (by decide)]
    rfl
  rw [hbefore, hafter] at hwritable
  exact absurd hwritable nofun

theorem wp_setCacheability (h : Tables c root s) (address : BitVec 32) (cacheability : BitVec 8) :
    wp (setCacheability c root address cacheability) (fun _ t => Tables c root t ∧
      (ChangesOnly c root address cacheability s t ↔
        HasPageTable c root address s ∧ Within cacheability)) (fun _ _ => True) s := by
  obtain ⟨hi, hj, hk, -, -, -⟩ := page_index address
  unfold setCacheability
  rw [wp_bind, wp_assert]
  refine ⟨fun _ => ?_, fun _ => trivial⟩
  rw [wp_bind, wp_get, wp_bind, wp_assert]
  refine ⟨fun _ => ?_, fun _ => trivial⟩
  rw [wp_bind, wp_when]
  constructor
  · intro hlarge
    refine wp_mono (wp_breakEntry h hi _) ?_ fun _ _ he => he
    rintro _ u ⟨hu, hroot, f, hf, hpde⟩
    have hdir : frameOf c root u (.pd (ptIndex address 30)) = frameOf c root s (.pd (ptIndex address 30)) :=
      congrArg c.table hroot
    have hsmall : Small c root u (ptIndex address 30) (ptIndex address 21) := by
      rw [Small, hdir, hpde]
      exact and_ps_link hf (by decide)
    refine wp_setEntry hu hi hj hk hdir.symm hsmall fun ht => ⟨ht, ?_⟩
    have hinUse : InUse c root u (.pt (ptIndex address 30) (ptIndex address 21)) := ⟨hi, hj, hsmall⟩
    refine iff_of_false (not_changesOnly_of_link h hlarge hf ?_) fun hand => hlarge hand.1
    have hframe := (hu.write hinUse (k := ptIndex address 12)
      (withCacheability_lt (hu.below _ _ hinUse _ hk) cacheability)).2.2
    rw [hframe (.pd (ptIndex address 30)) hi, Paging.write_of_ne, hdir, hpde]
    exact fun heq => absurd (hu.inj (.pd _) (.pt _ _) hi hinUse heq.1) nofun
  · intro hsmall
    have hsmall' : HasPageTable c root address s := not_not.mp hsmall
    refine wp_setEntry h hi hj hk rfl hsmall' fun ht => ⟨ht, ?_⟩
    exact (changesOnly_write_iff h hsmall').trans (and_iff_right hsmall').symm

end Call

/-! ## Building the tables -/

section Build

variable {c : PagingConfig} {root : Nat} {s t : Paging}

theorem Paging.fill_apply {frame n : Nat} {value : Nat → BitVec 64} {i j : Nat} (hj : j < 512)
    (hn : i * 512 + j < n) : (Paging.fill frame n value s).entry (frame + i) j = value (i * 512 + j) := by
  show (if _ then _ else _) = _
  rw [Nat.add_sub_cancel_left, if_pos ⟨Nat.le_add_right _ _, hj, hn⟩]

def blockEntry (k : Nat) : BitVec 64 := BitVec.ofNat 64 (k * 2 ^ 21) + ia32PgPs + ia32PgRw + ia32PgP

theorem getLsbD_blockEntry {k n : Nat} (hk : k < 2048) (hn : n < 8) :
    (blockEntry k).getLsbD n = Nat.testBit 0x83 n := by
  have hval : (blockEntry k).toNat = 2 ^ 21 * k + 0x83 := by
    have hflags : blockEntry k = BitVec.ofNat 64 (k * 2 ^ 21) + BitVec.ofNat 64 0x83 := by
      rw [blockEntry, BitVec.add_assoc, BitVec.add_assoc]
      rfl
    rw [hflags, ← BitVec.ofNat_add, BitVec.toNat_ofNat]
    omega
  rw [BitVec.getLsbD, hval, Nat.testBit_two_pow_mul_add _ (by decide), if_pos (by omega)]

theorem blockEntry_large {k : Nat} (hk : k < 2048) : blockEntry k &&& ia32PgPs ≠ 0 := by
  refine (and_bit_eq_zero _ (by decide)).not.mpr ?_
  rw [getLsbD_blockEntry hk (by decide)]
  decide

theorem blockEntry_writable {k : Nat} (hk : k < 2048) : blockEntry k &&& ia32PgRw ≠ 0 := by
  refine (and_bit_eq_zero _ (by decide)).not.mpr ?_
  rw [getLsbD_blockEntry hk (by decide)]
  decide

theorem tables_of_blocks (hused : ∀ x, root ≤ x → x < root + 5 → x ∈ s.used) (hlt : root + 5 ≤ 2 ^ 20)
    (hroot : ∀ i < 4, s.entry root i = BitVec.ofNat 64 ((root + (i + 1)) * 2 ^ 12) + BitVec.ofNat 64 1)
    (hdir : ∀ i < 4, ∀ j < 512, s.entry (root + (i + 1)) j = blockEntry (i * 512 + j)) :
    Tables c root s ∧ ∀ n, InUse c root s n → frameOf c root s n < root + 5 := by
  have hpd : ∀ i < 4, frameOf c root s (.pd i) = root + (i + 1) := by
    intro i hi
    rw [frameOf, hroot i hi]
    exact table_link c (by omega) (by decide)
  have hlarge : ∀ i < 4, ∀ j < 512, ¬ Small c root s i j := by
    intro i hi j hj
    rw [Small, hpd i hi, hdir i hi j hj]
    exact blockEntry_large (by omega)
  have hnone : ∀ i j, ¬ InUse c root s (.pt i j) := fun i j hn => hlarge i hn.1 j hn.2.1 hn.2.2
  have hframe : ∀ n, InUse c root s n → root ≤ frameOf c root s n ∧ frameOf c root s n < root + 5 := by
    intro n hn
    cases n with
    | pdpt => exact ⟨Nat.le_refl _, by rw [frameOf]; omega⟩
    | pd i =>
      have hi : i < 4 := hn
      rw [hpd i hi]
      omega
    | pt i j => exact absurd hn (hnone i j)
  refine ⟨⟨fun n hn => hused _ (hframe n hn).1 (hframe n hn).2, fun n n' hn hn' heq => ?_,
    fun i hi j hj _ => ?_, fun i j hn => absurd hn (hnone i j)⟩, fun n hn => (hframe n hn).2⟩
  · cases n with
    | pdpt =>
      cases n' with
      | pdpt => rfl
      | pd i =>
        rw [hpd i hn', frameOf] at heq
        omega
      | pt i j => exact absurd hn' (hnone i j)
    | pd i =>
      cases n' with
      | pdpt =>
        rw [hpd i hn, frameOf] at heq
        omega
      | pd i' =>
        rw [hpd i hn, hpd i' hn'] at heq
        exact congrArg TableName.pd (by omega)
      | pt i' j => exact absurd hn' (hnone i' j)
    | pt i j => exact absurd hn (hnone i j)
  · rw [hpd i hi, hdir i hi j hj]
    exact blockEntry_writable (by omega)

/-! ### Guard pages -/

theorem boundary_aligned (b : BitVec 32) : (b &&& ~~~(size2MB - 1)).toNat % 2 ^ 21 = 0 := by
  rw [toNat_and_not_low (show (size2MB - 1).toNat = 2 ^ 21 - 1 by decide)]
  exact Nat.mul_mod_left _ _

structure Guarding (c : PagingConfig) (root : Nat) (l : GuardLoop) (s : Paging) : Prop where
  tables : Tables c root s
  before : ∀ n, InUse c root s n → frameOf c root s n < l.pages
  used : ∀ x, root ≤ x → x < root + 5 + pagesNeeded c → x < 2 ^ 20 ∧ x ∈ s.used
  count : ∃ k, l.pages = root + 5 + k ∧ l.pageIndex.toNat = (low2MBoundary c).toNat + k * 2 ^ 21

def Runaway (c : PagingConfig) (l : GuardLoop) : Prop :=
  (high2MBoundary c).toNat = 0xFFE00000 ∧ l.pageIndex.toNat % 2 ^ 21 = 0

theorem toNat_add_size2MB {b : BitVec 32} (hb : b.toNat % 2 ^ 21 = 0) :
    if b.toNat = 0xFFE00000 then (b + size2MB).toNat = 0 else (b + size2MB).toNat = b.toNat + 2 ^ 21 := by
  have hlt := b.isLt
  rw [BitVec.toNat_add, show size2MB.toNat = 0x200000 from rfl]
  split <;> omega

theorem wp_guardBody (hguard : c.stackGuard = true) {l : GuardLoop} (h : Guarding c root l s ∨ Runaway c l) :
    wp (guardBody c root (high2MBoundary c) l) (fun r t => match r with
      | .inl l' => Guarding c root l' t ∨ Runaway c l'
      | .inr () => Tables c root t) (fun _ _ => True) s := by
  have hlow : (low2MBoundary c).toNat % 2 ^ 21 = 0 := by
    rw [low2MBoundary, if_pos hguard]
    exact boundary_aligned _
  have hhigh : (high2MBoundary c).toNat % 2 ^ 21 = 0 := by
    rw [high2MBoundary, if_pos hguard]
    exact boundary_aligned _
  unfold guardBody
  rw [wp_ite]
  constructor
  · intro hle
    rw [BitVec.le_def] at hle
    rw [wp_bind, wp_get, wp_bind, wp_modify]
    generalize hentries : guardedEntries c l.pageIndex l.guardPage 512 = entries
    obtain ⟨entries, guardPage⟩ := entries
    dsimp only
    rw [wp_bind, wp_modify, wp_pure]
    rcases h with h | ⟨htop, halign⟩
    · obtain ⟨k, hpages, hindex⟩ := h.count
      have hhighlt := (high2MBoundary c).isLt
      -- there is a page left for the block
      have hneeded : k < pagesNeeded c := by
        rw [pagesNeeded, if_pos hguard, BitVec.toNat_udiv, BitVec.toNat_sub_of_le]
        · rw [show size2MB.toNat = 0x200000 from rfl]
          omega
        · rw [BitVec.le_def]
          omega
      obtain ⟨hlt, hmem⟩ := h.used l.pages (by omega) (by omega)
      have hne : ∀ n, InUse c root s n → frameOf c root s n ≠ l.pages :=
        fun n hn => (h.before n hn).ne
      have hi : bitFieldRead32 l.pageIndex 30 31 < 4 := Nat.mod_lt _ (by decide)
      have hpd : (s.entry root (bitFieldRead32 l.pageIndex 30 31)).toNat % 2 ^ 32 / 2 ^ 12 =
          frameOf c root s (.pd (bitFieldRead32 l.pageIndex 30 31)) := (table_eq c _).symm
      have hlink : BitVec.ofNat 64 (l.pages * 2 ^ 12) + ia32PgRw + ia32PgP =
          BitVec.ofNat 64 (l.pages * 2 ^ 12) + BitVec.ofNat 64 3 := by
        rw [BitVec.add_assoc]
        rfl
      rw [hpd, hlink]
      have hlinked : Linked c root (bitFieldRead32 l.pageIndex 30 31) (bitFieldRead32 l.pageIndex 21 29)
          l.pages (BitVec.ofNat 64 (l.pages * 2 ^ 12) + BitVec.ofNat 64 3) s
          (Paging.fill l.pages 512 (fun k => (entries k).setWidth 64)
            (Paging.write (frameOf c root s (.pd (bitFieldRead32 l.pageIndex 30 31)))
              (bitFieldRead32 l.pageIndex 21 29)
              (BitVec.ofNat 64 (l.pages * 2 ^ 12) + BitVec.ofNat 64 3) s)) := by
        refine ⟨fun x hx => hx, hmem, fun k hk => ?_, ?_, fun f' k hf' hk => ?_⟩
        · rw [Paging.fill_self hk hk, BitVec.toNat_setWidth]
          exact (Nat.mod_le _ _).trans_lt (entries k).isLt
        · rw [Paging.fill_of_ne (Nat.le_refl _) (hne (.pd _) hi), Paging.write_self]
        · rw [Paging.fill_of_ne (Nat.le_refl _) hf', Paging.write_of_ne hk]
      have htable : c.table (BitVec.ofNat 64 (l.pages * 2 ^ 12) + BitVec.ofNat 64 3) = l.pages :=
        table_link c hlt (by decide)
      obtain ⟨-, hown, hold⟩ := h.tables.link_frame hi hne hlinked
      by_cases htop : l.pageIndex.toNat = 0xFFE00000
      · refine .inr ⟨?_, ?_⟩
        · have hval := toNat_add_size2MB (b := l.pageIndex) (by omega)
          omega
        · have hval := toNat_add_size2MB (b := l.pageIndex) (by omega)
          rw [if_pos htop] at hval
          show (l.pageIndex + size2MB).toNat % 2 ^ 21 = 0
          rw [hval, Nat.zero_mod]
      · refine .inl ⟨h.tables.link hi hne htable (and_ps_link hlt (by decide)) hlinked, fun n hn => ?_,
          h.used, k + 1, ?_, ?_⟩
        · show frameOf c root _ n < l.pages + 1
          by_cases hnew : n = .pt (bitFieldRead32 l.pageIndex 30 31) (bitFieldRead32 l.pageIndex 21 29)
          · rw [hnew]
            exact Nat.lt_succ_of_le ((congrArg c.table hown).trans htable).le
          · obtain ⟨hs, hf⟩ := hold n hn hnew
            rw [hf]
            exact (h.before n hs).trans (Nat.lt_succ_self _)
        · show l.pages + 1 = root + 5 + (k + 1)
          omega
        · have hval := toNat_add_size2MB (b := l.pageIndex) (by omega)
          rw [if_neg htop] at hval
          show (l.pageIndex + size2MB).toNat = _
          omega
    · refine .inr ⟨htop, ?_⟩
      have hval := toNat_add_size2MB halign
      show (l.pageIndex + size2MB).toNat % 2 ^ 21 = 0
      split at hval <;> omega
  · intro hgt
    rw [BitVec.le_def] at hgt
    rw [wp_pure]
    rcases h with h | ⟨htop, halign⟩
    · exact h.tables
    · have hlt := l.pageIndex.isLt
      omega

theorem wp_gen4GPageTable (c : PagingConfig) (fuel extraPages : Nat) (s : Paging) :
    wp (gen4GPageTable c fuel extraPages) (fun root t => Tables c root t) (fun _ _ => True) s := by
  unfold gen4GPageTable
  rw [wp_bind]
  refine wp_allocatePages fun f hf => ?_
  obtain ⟨-, hfresh⟩ := c.allocate_fresh _ _ _ hf
  have hused : ∀ x, f + extraPages ≤ x → x < f + extraPages + 5 + pagesNeeded c →
      x < 2 ^ 20 ∧ x ∈ List.range' f (extraPages + 5 + pagesNeeded c) ++ s.used := by
    intro x hle hlt
    have hx := (hfresh (x - f) (by omega)).1
    refine ⟨by omega, List.mem_append_left _ (List.mem_range'_1.mpr (by omega))⟩
  have htop := (hused (f + extraPages + 4) (by omega) (by omega)).1
  dsimp only
  rw [wp_bind, wp_modify, wp_bind, wp_modify, wp_bind, wp_modify, wp_bind]
  generalize hu : Paging.fill (f + extraPages + 1) 2048 _ _ = u
  have hroot : ∀ i < 4, u.entry (f + extraPages) i =
      BitVec.ofNat 64 ((f + extraPages + (i + 1)) * 2 ^ 12) + BitVec.ofNat 64 1 := by
    intro i hi
    rw [← hu]
    refine (if_neg fun h => absurd h.1 (by omega)).trans ?_
    exact Paging.fill_self (by omega) (by omega)
  have hdir : ∀ i < 4, ∀ j < 512, u.entry (f + extraPages + (i + 1)) j = blockEntry (i * 512 + j) := by
    intro i hi j hj
    rw [← hu, Nat.add_comm i 1, ← Nat.add_assoc]
    exact Paging.fill_apply hj (by omega)
  have huused : u.used = List.range' f (extraPages + 5 + pagesNeeded c) ++ s.used := by
    rw [← hu]
    rfl
  have hblock : ∀ x, f + extraPages ≤ x → x < f + extraPages + 5 + pagesNeeded c →
      x < 2 ^ 20 ∧ x ∈ u.used := by
    rw [huused]
    exact hused
  obtain ⟨htables, hbefore⟩ := tables_of_blocks (c := c)
    (fun x hle hlt => (hblock x hle (by omega)).2) (by omega) hroot hdir
  rw [wp_when]
  refine ⟨fun hguard => ?_, fun _ => htables⟩
  refine wp_loop (fun l t => Guarding c (f + extraPages) l t ∨ Runaway c l)
    (fun l t h => wp_mono (wp_guardBody hguard h) ?_ fun _ _ he => he) (fun _ _ _ => trivial) fuel ?_
  · rintro (l' | ⟨⟩) t h
    · exact h
    · exact h
  · exact .inl ⟨htables, hbefore, hblock, 0, rfl, (Nat.add_zero _).symm⟩

end Build

/-! ## Every run -/

def buildTables (c : PagingConfig) (fuel extraPages : Nat) (calls : List (BitVec 32 × BitVec 8)) :
    Exec Paging Nat := do
  let pageTable ← gen4GPageTable c fuel extraPages
  Exec.serve (fun call => setCacheability c pageTable call.1 call.2) calls
  pure pageTable

def oneMoreCall (c : PagingConfig) (fuel extraPages : Nat) (calls : List (BitVec 32 × BitVec 8))
    (address : BitVec 32) (cacheability : BitVec 8) : Exec Paging (Nat × Paging × Paging) := do
  let pageTable ← buildTables c fuel extraPages calls
  let s ← Exec.get
  setCacheability c pageTable address cacheability
  let t ← Exec.get
  pure (pageTable, s, t)

theorem wp_buildTables (c : PagingConfig) (fuel extraPages : Nat) (calls : List (BitVec 32 × BitVec 8))
    (s : Paging) :
    wp (buildTables c fuel extraPages calls) (fun root t => Tables c root t) (fun _ _ => True) s := by
  unfold buildTables
  rw [wp_bind]
  refine wp_mono (wp_gen4GPageTable c fuel extraPages s) ?_ fun _ _ he => he
  intro root t ht
  rw [wp_bind]
  refine wp_serve_mem (I := fun u => Tables c root u) (fun call _ u hu => ?_) t ht
  exact wp_mono (wp_setCacheability hu call.1 call.2) (fun _ _ h => h.1) fun _ _ he => he

theorem setCacheability_changesOnly_iff (c : PagingConfig) (fuel extraPages : Nat)
    (calls : List (BitVec 32 × BitVec 8)) (address : BitVec 32) (cacheability : BitVec 8) (start : Paging) :
    wp (oneMoreCall c fuel extraPages calls address cacheability) (fun r _ =>
      ChangesOnly c r.1 address cacheability r.2.1 r.2.2 ↔
        HasPageTable c r.1 address r.2.1 ∧ Within cacheability) (fun _ _ => True) start := by
  unfold oneMoreCall
  rw [wp_bind]
  refine wp_mono (wp_buildTables c fuel extraPages calls start) ?_ fun _ _ he => he
  intro root s hs
  rw [wp_bind, wp_get, wp_bind]
  refine wp_mono (wp_setCacheability hs address cacheability) ?_ fun _ _ he => he
  exact fun _ t ht => ht.2

def nextFrames (used : List Nat) (n : Nat) : Option Nat :=
  if used.foldr max 0 + 1 + n ≤ 2 ^ 20 then some (used.foldr max 0 + 1) else none

theorem nextFrames_fresh (used : List Nat) (n f : Nat) (h : nextFrames used n = some f) :
    f ≠ 0 ∧ ∀ k < n, f + k < 2 ^ 20 ∧ f + k ∉ used := by
  unfold nextFrames at h
  split at h
  · injection h with h
    refine ⟨by omega, fun k hk => ⟨by omega, fun hmem => ?_⟩⟩
    have hle : ∀ (l : List Nat), ∀ x ∈ l, x ≤ l.foldr max 0 := by
      intro l
      induction l with
      | nil => intro x hx; exact absurd hx List.not_mem_nil
      | cons a l ih =>
        intro x hx
        rcases List.mem_cons.mp hx with rfl | hx
        · exact Nat.le_max_left _ _
        · exact (ih x hx).trans (Nat.le_max_right _ _)
    have := hle used _ hmem
    omega
  · exact absurd h nofun

def plainPaging : PagingConfig where
  assertEnabled := true
  physBits := 32
  physBits_ge := by decide
  stackGuard := false
  stackArrayBase := 0
  stackArrayEnd := 0
  stackSize := 0
  allocate := nextFrames
  allocate_fresh := nextFrames_fresh

theorem setCacheability_not_changesOnly :
    ∃ r, (oneMoreCall plainPaging 0 0 [] 0x200000 0x10 ⟨fun _ _ => 0, []⟩).value? = some r ∧
      ¬ ChangesOnly plainPaging r.1 0x200000 0x10 r.2.1 r.2.2 := by
  -- the page behind the given one can be written to before the call, and not after it
  have hrun : (oneMoreCall plainPaging 0 0 [] 0x200000 0x10 ⟨fun _ _ => 0, []⟩).value?.map
      (fun r => ((viewPage plainPaging r.1 r.2.1 0x201).writable,
        (viewPage plainPaging r.1 r.2.2 0x201).writable)) = some (true, false) := by decide +kernel
  obtain ⟨r, hr, hviews⟩ := Option.map_eq_some_iff.mp hrun
  obtain ⟨hbefore, hafter⟩ := Prod.mk.inj hviews
  refine ⟨r, hr, fun h => ?_⟩
  have hwritable := (h.2 0x201 (by decide) (by decide)).2.2.1
  rw [hbefore, hafter] at hwritable
  exact absurd hwritable nofun

end Quark.PiSmmCpu
