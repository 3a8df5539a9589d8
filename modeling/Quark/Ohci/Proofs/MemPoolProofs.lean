import Mathlib.Logic.Function.Basic
import Quark.Ohci.MemPool

/-!
# One block of the OHCI memory pool

The search finds the first run of free units that is long enough, if there is one; marking and resetting
change the units they are asked to and no others.
-/

namespace Quark.Ohci

open Machine Exec

namespace MemBlock

def units (b : MemBlock) : Nat := 8 * b.bitsLen

def isSet (b : MemBlock) (k : Nat) : Bool := (b.bits (k / 8)).getLsbD (k % 8)

def withByte (b : MemBlock) (byte : Nat) (v : BitVec 8) : MemBlock :=
  { b with bits := Function.update b.bits byte v }

def Free (b : MemBlock) (k n : Nat) : Prop :=
  k + n ≤ b.units ∧ ∀ i, k ≤ i → i < k + n → b.isSet i = false

/-- `b'` is `b` with the bits of `n` units from `k` on made `v`. -/
structure Assigned (b b' : MemBlock) (k n : Nat) (v : Bool) : Prop where
  bitsLen : b'.bitsLen = b.bitsLen
  bufHost : b'.bufHost = b.bufHost
  bufLen : b'.bufLen = b.bufLen
  isSet : ∀ i, b'.isSet i = if k ≤ i ∧ i < k + n then v else b.isSet i

end MemBlock

open MemBlock

/-! ## Bits -/

theorem usbHcBitIsSet_eq (data : BitVec 8) {bit : Nat} (h : bit < 8) :
    usbHcBitIsSet data bit = data.getLsbD bit := by
  have hpow : 1#8 <<< bit = BitVec.twoPow 8 bit := rfl
  have hne : (0#8 : BitVec 8) ≠ BitVec.twoPow 8 bit := by
    intro heq
    have hbit : (0#8).getLsbD bit = (BitVec.twoPow 8 bit).getLsbD bit := by rw [heq]
    simp [h] at hbit
  unfold usbHcBitIsSet
  rw [hpow, BitVec.and_twoPow]
  by_cases hbit : data.getLsbD bit = true
  · simp [hbit]
  · simp [hbit, hne]

theorem usbHcBitIsSet_unit (b : MemBlock) (k : Nat) :
    usbHcBitIsSet (b.bits (k / 8)) (k % 8) = b.isSet k :=
  usbHcBitIsSet_eq _ (Nat.mod_lt k (by decide))

theorem nextBit_unit (k : Nat) : nextBit (k / 8) (k % 8) = ((k + 1) / 8, (k + 1) % 8) := by
  unfold nextBit
  split
  · rw [Prod.mk.injEq]
    omega
  · rw [Prod.mk.injEq]
    omega

theorem isSet_update (b : MemBlock) {k : Nat} {byte : BitVec 8} {v : Bool}
    (hbyte : ∀ j < 8, byte.getLsbD j = if j = k % 8 then v else (b.bits (k / 8)).getLsbD j) (i : Nat) :
    (b.withByte (k / 8) byte).isSet i =
      if i = k then v else b.isSet i := by
  show (Function.update b.bits (k / 8) byte (i / 8)).getLsbD (i % 8) = _
  by_cases hdiv : i / 8 = k / 8
  · rw [hdiv, Function.update_self, hbyte _ (Nat.mod_lt i (by decide))]
    by_cases hi : i = k
    · rw [if_pos hi, if_pos (by rw [hi])]
    · rw [if_neg hi, if_neg (by omega)]
      unfold MemBlock.isSet
      rw [hdiv]
  · rw [Function.update_of_ne hdiv, if_neg (by rintro rfl; exact hdiv rfl)]
    rfl

theorem getLsbD_or_bit (data : BitVec 8) (bit : Nat) (j : Nat) (hj : j < 8) :
    (data ||| 1#8 <<< bit).getLsbD j = if j = bit then true else data.getLsbD j := by
  have hpow : 1#8 <<< bit = BitVec.twoPow 8 bit := rfl
  rw [hpow, BitVec.getLsbD_or, BitVec.getLsbD_twoPow]
  by_cases h : j = bit
  · subst h
    simp [hj]
  · have h' : bit ≠ j := fun heq => h heq.symm
    simp [h, h']

theorem getLsbD_xor_bit (data : BitVec 8) {bit : Nat} (hset : data.getLsbD bit = true) (j : Nat)
    (hj : j < 8) :
    (data ^^^ 1#8 <<< bit).getLsbD j = if j = bit then false else data.getLsbD j := by
  have hpow : 1#8 <<< bit = BitVec.twoPow 8 bit := rfl
  rw [hpow, BitVec.getLsbD_xor, BitVec.getLsbD_twoPow]
  by_cases h : j = bit
  · subst h
    simp [hj, hset]
  · have h' : bit ≠ j := fun heq => h heq.symm
    simp [h, h']

theorem MemBlock.eq_of_isSet {b b' : MemBlock} (hbits : ∀ k, b.isSet k = b'.isSet k)
    (hlen : b.bitsLen = b'.bitsLen) (hhost : b.bufHost = b'.bufHost) (hbuf : b.bufLen = b'.bufLen) :
    b = b' := by
  have hall : b.bits = b'.bits := by
    funext byte
    apply BitVec.eq_of_getLsbD_eq
    intro j hj
    have h := hbits (8 * byte + j)
    unfold MemBlock.isSet at h
    rwa [show (8 * byte + j) / 8 = byte by omega, show (8 * byte + j) % 8 = j by omega] at h
  cases b
  cases b'
  simp_all

/-! ## Marking and resetting -/

namespace MemBlock.Assigned

variable {b b' b'' : MemBlock} {k n : Nat} {v : Bool}

theorem none (b : MemBlock) (k : Nat) (v : Bool) : Assigned b b k 0 v :=
  ⟨rfl, rfl, rfl, fun i => by rw [if_neg (by omega)]⟩

theorem cons (hfirst : Assigned b b' k 1 v) (hrest : Assigned b' b'' (k + 1) n v) :
    Assigned b b'' k (n + 1) v := by
  refine ⟨hrest.bitsLen.trans hfirst.bitsLen, hrest.bufHost.trans hfirst.bufHost,
    hrest.bufLen.trans hfirst.bufLen, fun i => ?_⟩
  rw [hrest.isSet, hfirst.isSet]
  by_cases hi : k + 1 ≤ i ∧ i < k + 1 + n
  · rw [if_pos hi, if_pos (by omega)]
  · rw [if_neg hi]
    by_cases hk : k ≤ i ∧ i < k + 1
    · rw [if_pos hk, if_pos (by omega)]
    · rw [if_neg hk, if_neg (by omega)]

theorem one {byte : BitVec 8}
    (hbyte : ∀ j < 8, byte.getLsbD j = if j = k % 8 then v else (b.bits (k / 8)).getLsbD j) :
    Assigned b (b.withByte (k / 8) byte) k 1 v := by
  refine ⟨rfl, rfl, rfl, fun i => ?_⟩
  rw [isSet_update b hbyte]
  by_cases hi : i = k
  · rw [if_pos hi, if_pos (by omega)]
  · rw [if_neg hi, if_neg (by omega)]

theorem units (h : Assigned b b' k n v) : b'.units = b.units := by
  unfold MemBlock.units
  rw [h.bitsLen]

theorem isSet_outside (h : Assigned b b' k n v) {i : Nat} (hi : i < k ∨ k + n ≤ i) :
    b'.isSet i = b.isSet i := by
  rw [h.isSet, if_neg (by omega)]

theorem isSet_inside (h : Assigned b b' k n v) {i : Nat} (hi : k ≤ i ∧ i < k + n) :
    b'.isSet i = v := by
  rw [h.isSet, if_pos hi]

end MemBlock.Assigned

section

variable {σ : Type} {b : MemBlock} {k n : Nat}

theorem markUnits_ret (asserts : Bool) (hfree : ∀ i, k ≤ i → i < k + n → b.isSet i = false) (s : σ) :
    ∃ b', (markUnits asserts n (k / 8) (k % 8) b : Exec σ _) s = .ret b' s ∧
      Assigned b b' k n true := by
  induction n generalizing b k with
  | zero => exact ⟨b, rfl, Assigned.none b k true⟩
  | succ n ih =>
    have hclear := hfree k (Nat.le_refl k) (by omega)
    have hone : Assigned b (b.withByte (k / 8) (b.bits (k / 8) ||| 1#8 <<< (k % 8))) k 1 true :=
      Assigned.one fun j hj => getLsbD_or_bit (b.bits (k / 8)) (k % 8) j hj
    have hrest : ∀ i, k + 1 ≤ i → i < k + 1 + n →
        (b.withByte (k / 8) (b.bits (k / 8) ||| 1#8 <<< (k % 8))).isSet i = false := by
      intro i hlow hhigh
      rw [hone.isSet_outside (by omega)]
      exact hfree i (by omega) (by omega)
    obtain ⟨b', hrun, hassigned⟩ := ih hrest
    refine ⟨b', ?_, hone.cons hassigned⟩
    have hassert : assert asserts (usbHcBitIsSet (b.bits (k / 8)) (k % 8) = false) s = .ret () s :=
      assert_of (fun _ => by rw [usbHcBitIsSet_unit]; exact hclear) s
    unfold markUnits
    rw [bind_of_ret hassert, nextBit_unit]
    exact hrun

theorem resetUnits_ret (asserts : Bool) (hset : ∀ i, k ≤ i → i < k + n → b.isSet i = true) (s : σ) :
    ∃ b', (resetUnits asserts n (k / 8) (k % 8) b : Exec σ _) s = .ret b' s ∧
      Assigned b b' k n false := by
  induction n generalizing b k with
  | zero => exact ⟨b, rfl, Assigned.none b k false⟩
  | succ n ih =>
    have hbit := hset k (Nat.le_refl k) (by omega)
    have hone : Assigned b (b.withByte (k / 8) (b.bits (k / 8) ^^^ 1#8 <<< (k % 8))) k 1 false :=
      Assigned.one fun j hj => getLsbD_xor_bit (b.bits (k / 8)) hbit j hj
    have hrest : ∀ i, k + 1 ≤ i → i < k + 1 + n →
        (b.withByte (k / 8) (b.bits (k / 8) ^^^ 1#8 <<< (k % 8))).isSet i = true := by
      intro i hlow hhigh
      rw [hone.isSet_outside (by omega)]
      exact hset i (by omega) (by omega)
    obtain ⟨b', hrun, hassigned⟩ := ih hrest
    refine ⟨b', ?_, hone.cons hassigned⟩
    have hassert : assert asserts (usbHcBitIsSet (b.bits (k / 8)) (k % 8) = true) s = .ret () s :=
      assert_of (fun _ => by rw [usbHcBitIsSet_unit]; exact hbit) s
    unfold resetUnits
    rw [bind_of_ret hassert, nextBit_unit]
    exact hrun

/-! ## The search -/

/-- The locals of the search at unit `i`, with the run under way from unit `start` on. -/
def searchAt (i start : Nat) : SearchLocals := ⟨i / 8, i % 8, start / 8, start % 8, i - start⟩

/-- At unit `i` no run before `start` has been long enough, and the one from `start` on is not yet. -/
structure Searching (b : MemBlock) (n i start : Nat) : Prop where
  start_le : start ≤ i
  le_units : i ≤ b.units
  short : i - start < n
  run : ∀ x, start ≤ x → x < i → b.isSet x = false
  none_before : ∀ j < start, ∃ x, j ≤ x ∧ x < j + n ∧ b.isSet x = true

theorem Searching.next {i start : Nat} (h : Searching b n i start) (hlt : i < b.units)
    (hfree : b.isSet i = false) (hshort : i + 1 - start < n) : Searching b n (i + 1) start := by
  refine ⟨Nat.le_succ_of_le h.start_le, hlt, hshort, fun x hlow hhigh => ?_, h.none_before⟩
  by_cases hx : x = i
  · rw [hx]
    exact hfree
  · exact h.run x hlow (by omega)

theorem Searching.restart {i start : Nat} (h : Searching b n i start) (hlt : i < b.units)
    (hused : b.isSet i = true) : Searching b n (i + 1) (i + 1) := by
  have hstart := h.start_le
  have hshort := h.short
  refine ⟨Nat.le_refl _, hlt, by omega, fun x hlow hhigh => by omega, fun j hj => ?_⟩
  by_cases hj' : j < start
  · exact h.none_before j hj'
  · exact ⟨i, by omega, by omega, hused⟩

theorem wp_searchBody {i start : Nat} (h : Searching b n i start) (s : σ) :
    wp (searchBody b n (searchAt i start) : Exec σ _) (fun r t => match r with
      | .inl l => (t = s ∧ ∃ i' start', l = searchAt i' start' ∧ Searching b n i' start') ∧
          b.units - (8 * l.byte + l.bit) <
            b.units - (8 * (searchAt i start).byte + (searchAt i start).bit)
      | .inr l => t = s ∧ ((l.available < n ∧ ∀ k, ¬ b.Free k n) ∨
          ∃ k, n ≤ l.available ∧ l.startByte = k / 8 ∧ l.startBit = k % 8 ∧ b.Free k n))
      (fun _ _ => False) s := by
  have hstart := h.start_le
  have hshort := h.short
  have hunits : b.units = 8 * b.bitsLen := rfl
  unfold searchBody
  by_cases hlt : (searchAt i start).byte < b.bitsLen
  · have hi : i < b.units := by
      have : i / 8 < b.bitsLen := hlt
      omega
    have hmeasure : b.units - (8 * ((i + 1) / 8) + (i + 1) % 8) <
        b.units - (8 * (i / 8) + i % 8) := by omega
    have hnext : nextBit (searchAt i start).byte (searchAt i start).bit =
        ((i + 1) / 8, (i + 1) % 8) := nextBit_unit i
    rw [if_pos hlt, hnext]
    show wp (if ¬ usbHcBitIsSet (b.bits (i / 8)) (i % 8) then _ else _) _ _ s
    rw [usbHcBitIsSet_unit]
    by_cases hused : b.isSet i = true
    · rw [if_neg (not_not.mpr hused)]
      refine ⟨⟨rfl, i + 1, i + 1, ?_, h.restart hi hused⟩, hmeasure⟩
      unfold searchAt
      rw [Nat.sub_self]
    · rw [if_pos hused]
      have hfree : b.isSet i = false := by simpa using hused
      by_cases henough : n ≤ (searchAt i start).available + 1
      · rw [if_pos henough]
        have henough' : n ≤ i - start + 1 := henough
        refine ⟨rfl, .inr ⟨start, henough, rfl, rfl, by omega, fun x hlow hhigh => ?_⟩⟩
        by_cases hx : x = i
        · rw [hx]
          exact hfree
        · exact h.run x hlow (by omega)
      · rw [if_neg henough]
        have henough' : ¬ n ≤ i - start + 1 := henough
        refine ⟨⟨rfl, i + 1, start, ?_, h.next hi hfree (by omega)⟩, hmeasure⟩
        unfold searchAt
        rw [Nat.succ_sub hstart]
  · rw [if_neg hlt]
    have hle : ¬ i / 8 < b.bitsLen := hlt
    have hi : i = b.units := by
      have := h.le_units
      omega
    refine ⟨rfl, .inl ⟨hshort, ?_⟩⟩
    rintro k ⟨hfits, hfree⟩
    by_cases hk : k < start
    · obtain ⟨x, hlow, hhigh, hused⟩ := h.none_before k hk
      rw [hfree x hlow hhigh] at hused
      cases hused
    · omega

theorem search_ret (b : MemBlock) (hn : 0 < n) (s : σ) :
    ∃ l, (Exec.loop (8 * b.bitsLen + 1) (searchBody b n) ⟨0, 0, 0, 0, 0⟩ : Exec σ _) s = .ret l s ∧
      ((l.available < n ∧ ∀ k, ¬ b.Free k n) ∨
        ∃ k, n ≤ l.available ∧ l.startByte = k / 8 ∧ l.startBit = k % 8 ∧ b.Free k n) := by
  have hstart : Searching b n 0 0 :=
    ⟨Nat.le_refl 0, Nat.zero_le _, hn, fun x _ hx => absurd hx (Nat.not_lt_zero x),
      fun j hj => absurd hj (Nat.not_lt_zero j)⟩
  have hloop : wp (Exec.loop (8 * b.bitsLen + 1) (searchBody b n) ⟨0, 0, 0, 0, 0⟩ : Exec σ _)
      (fun l t => t = s ∧ ((l.available < n ∧ ∀ k, ¬ b.Free k n) ∨
        ∃ k, n ≤ l.available ∧ l.startByte = k / 8 ∧ l.startBit = k % 8 ∧ b.Free k n))
      (fun _ _ => False) s := by
    refine wp_loop_total (fun l t => t = s ∧ ∃ i start, l = searchAt i start ∧
      Searching b n i start) (fun l _ => b.units - (8 * l.byte + l.bit)) ?_ _ _ s
      (by show b.units - 0 < _; unfold MemBlock.units; omega) ⟨rfl, 0, 0, rfl, hstart⟩
    rintro l t ⟨rfl, i, start, rfl, h⟩
    refine wp_mono (wp_searchBody h t) ?_ (fun _ _ hf => hf)
    rintro (l' | l') t' hl <;> exact hl
  obtain ⟨l, t, hrun, rfl, hl⟩ := returns_of_wp hloop
  exact ⟨l, hrun, hl⟩

end

/-! ## The OHCI memory pool as a ledger

What the bitmaps of a pool say: which allocations have been made on top of an earlier pool and not been
given back. Once all of them are given back, the pool is the earlier one.
-/

/-! ## Blocks and allocations -/

namespace MemBlock

def unitAddress (b : MemBlock) (k : Nat) : Nat := b.bufHost + usbHcMemUnit * k

/-- A block as `UsbHcAllocMemBlock` makes it, with all of its memory below 4 GB. -/
structure Sound (b : MemBlock) : Prop where
  aligned : b.bufHost % usbHcMemUnit = 0
  pos : 0 < b.bufHost
  bufLen : b.bufLen = usbHcMemUnit * b.units
  below : b.bufHost + b.bufLen < 0x100000000

def Apart (b b' : MemBlock) : Prop :=
  b.bufHost + b.bufLen ≤ b'.bufHost ∨ b'.bufHost + b'.bufLen ≤ b.bufHost

end MemBlock

namespace Allocation

def len (a : Allocation) : Nat := usbHcMemRound a.size

def Covers (a : Allocation) (x : Nat) : Prop := a.mem ≤ x ∧ x < a.mem + a.len

def Apart (a a' : Allocation) : Prop := a.mem + a.len ≤ a'.mem ∨ a'.mem + a'.len ≤ a.mem

structure Inside (a : Allocation) (b : MemBlock) : Prop where
  aligned : a.mem % usbHcMemUnit = 0
  low : b.bufHost ≤ a.mem
  high : a.mem + a.len ≤ b.bufHost + b.bufLen
  pos : 0 < a.len

end Allocation

/-- `b` is the block `b₀` with the units of the allocations marked, which were free in it. -/
structure Loaded (live : List Allocation) (b₀ b : MemBlock) : Prop where
  bitsLen : b.bitsLen = b₀.bitsLen
  bufHost : b.bufHost = b₀.bufHost
  bufLen : b.bufLen = b₀.bufLen
  isSet : ∀ k, b.isSet k = true ↔
    b₀.isSet k = true ∨ (k < b.units ∧ ∃ a ∈ live, a.Covers (b.unitAddress k))
  free : ∀ k < b.units, (∃ a ∈ live, a.Covers (b.unitAddress k)) → b₀.isSet k = false

def MemBlock.InUse (b : MemBlock) : Prop := ¬ usbHcIsMemBlockEmpty b = true

instance (b : MemBlock) : Decidable b.InUse := inferInstanceAs (Decidable (¬ _))

def trimmed : MemPool → MemPool
  | [] => []
  | head :: next => head :: next.filter fun b => decide b.InUse

/-- A pool as the driver keeps it: the blocks share no memory, and only the first one may be empty. -/
structure Sound (pool : MemPool) : Prop where
  nonempty : pool ≠ []
  blocks : ∀ b ∈ pool, b.Sound
  apart : pool.Pairwise MemBlock.Apart
  inUse : ∀ b ∈ pool.tail, b.InUse

/-- `pool` is `pool₀` with the allocations of `live` made on top of it. -/
structure Grown (pool₀ : MemPool) (live : List Allocation) (pool : MemPool) : Prop where
  sound : Sound pool
  loaded : ∃ base, List.Forall₂ (Loaded live) base pool ∧ trimmed base = pool₀
  inside : ∀ a ∈ live, ∃ b ∈ pool, a.Inside b
  apart : live.Pairwise Allocation.Apart

/-- What `PciIo->AllocateBuffer` promises of a buffer: it is made of pages below 4 GB, and it shares no
memory with the blocks that the driver has. -/
structure FreshBuffer (pool : MemPool) (size bufHost : Nat) : Prop where
  aligned : bufHost % efiPageSize = 0
  pos : 0 < bufHost
  below : bufHost + newBlockPages (usbHcMemRound size) * efiPageSize < 0x100000000
  apart : ∀ b ∈ pool, b.bufHost + b.bufLen ≤ bufHost ∨
    bufHost + newBlockPages (usbHcMemRound size) * efiPageSize ≤ b.bufHost


/-! ## What a block says of the allocations -/

theorem usbHcMemRound_eq {size : Nat} (h : size + usbHcMemUnit ≤ 0x100000000) :
    usbHcMemRound size = (size + (usbHcMemUnit - 1)) / usbHcMemUnit * usbHcMemUnit := by
  unfold usbHcMemRound
  rw [u32_of_lt (by change size + 63 < _; change size + 64 ≤ _ at h; omega)]

theorem Allocation.len_eq (a : Allocation) : a.len = usbHcMemUnit * (a.len / usbHcMemUnit) := by
  unfold Allocation.len usbHcMemRound
  rw [Nat.mul_div_cancel _ (by decide), Nat.mul_comm]

namespace Loaded

variable {live live' : List Allocation} {a : Allocation} {b₀ b b' : MemBlock} {k n : Nat}

theorem unitAddress_eq {v : Bool} (h : Assigned b b' k n v) (i : Nat) :
    b'.unitAddress i = b.unitAddress i := by
  unfold MemBlock.unitAddress
  rw [h.bufHost]

theorem covers_iff (hmem : a.mem = b.unitAddress k) (hlen : a.len = usbHcMemUnit * n) (i : Nat) :
    a.Covers (b.unitAddress i) ↔ k ≤ i ∧ i < k + n := by
  unfold Allocation.Covers
  rw [hmem, hlen]
  unfold MemBlock.unitAddress
  change _ + 64 * k ≤ _ + 64 * i ∧ _ + 64 * i < _ + 64 * k + 64 * n ↔ _
  omega

theorem perm (h : Loaded live b₀ b) (hlive : ∀ x, x ∈ live ↔ x ∈ live') : Loaded live' b₀ b :=
  { h with
    isSet := fun k => by
      rw [h.isSet k]
      simp only [hlive]
    free := fun k hk hc => by
      refine h.free k hk ?_
      simpa only [hlive] using hc }

theorem mark (h : Loaded live b₀ b) (hassign : Assigned b b' k n true) (hfree : b.Free k n)
    (hmem : a.mem = b.unitAddress k) (hlen : a.len = usbHcMemUnit * n) :
    Loaded (a :: live) b₀ b' := by
  have haddr := unitAddress_eq hassign
  refine ⟨hassign.bitsLen.trans h.bitsLen, hassign.bufHost.trans h.bufHost,
    hassign.bufLen.trans h.bufLen, fun i => ?_, fun i hi hc => ?_⟩
  · rw [hassign.isSet, haddr, hassign.units]
    by_cases hi : k ≤ i ∧ i < k + n
    · have hlt : i < b.units := by
        have := hfree.1
        omega
      have hcovers := (covers_iff hmem hlen i).mpr hi
      simp only [if_pos hi, true_iff]
      exact .inr ⟨hlt, a, List.mem_cons_self, hcovers⟩
    · have hnot : ¬ a.Covers (b.unitAddress i) := fun hc => hi ((covers_iff hmem hlen i).mp hc)
      rw [if_neg hi, h.isSet]
      simp [hnot]
  · rw [haddr] at hc
    rw [hassign.units] at hi
    obtain ⟨x, hx, hcx⟩ := hc
    rcases List.mem_cons.mp hx with rfl | hx
    · have hin := (covers_iff hmem hlen i).mp hcx
      have hclear := hfree.2 i hin.1 hin.2
      by_contra hset
      have hb : b.isSet i = true := (h.isSet i).mpr (.inl (by simpa using hset))
      rw [hclear] at hb
      cases hb
    · exact h.free i hi ⟨x, hx, hcx⟩

theorem other (h : Loaded live b₀ b) (hout : ∀ i < b.units, ¬ a.Covers (b.unitAddress i)) :
    Loaded (a :: live) b₀ b := by
  refine { h with isSet := fun i => ?_, free := fun i hi hc => h.free i hi ?_ }
  · rw [h.isSet]
    constructor
    · rintro (hs | ⟨hi, x, hx, hc⟩)
      · exact .inl hs
      · exact .inr ⟨hi, x, List.mem_cons_of_mem a hx, hc⟩
    · rintro (hs | ⟨hi, x, hx, hc⟩)
      · exact .inl hs
      · rcases List.mem_cons.mp hx with rfl | hx
        · exact absurd hc (hout i hi)
        · exact .inr ⟨hi, x, hx, hc⟩
  · obtain ⟨x, hx, hcx⟩ := hc
    rcases List.mem_cons.mp hx with rfl | hx
    · exact absurd hcx (hout i hi)
    · exact ⟨x, hx, hcx⟩

theorem drop (h : Loaded (a :: live) b₀ b) (hout : ∀ i < b.units, ¬ a.Covers (b.unitAddress i)) :
    Loaded live b₀ b := by
  refine { h with isSet := fun i => ?_, free := fun i hi hc => h.free i hi ?_ }
  · rw [h.isSet]
    constructor
    · rintro (hs | ⟨hi, x, hx, hc⟩)
      · exact .inl hs
      · rcases List.mem_cons.mp hx with rfl | hx
        · exact absurd hc (hout i hi)
        · exact .inr ⟨hi, x, hx, hc⟩
    · rintro (hs | ⟨hi, x, hx, hc⟩)
      · exact .inl hs
      · exact .inr ⟨hi, x, List.mem_cons_of_mem a hx, hc⟩
  · obtain ⟨x, hx, hcx⟩ := hc
    exact ⟨x, List.mem_cons_of_mem a hx, hcx⟩

theorem set (h : Loaded live b₀ b) (ha : a ∈ live) (hmem : a.mem = b.unitAddress k)
    (hlen : a.len = usbHcMemUnit * n) (hunits : k + n ≤ b.units) :
    ∀ i, k ≤ i → i < k + n → b.isSet i = true := by
  intro i hlow hhigh
  exact (h.isSet i).mpr (.inr ⟨by omega, a, ha, (covers_iff hmem hlen i).mpr ⟨hlow, hhigh⟩⟩)

theorem reset (h : Loaded (a :: live) b₀ b) (hassign : Assigned b b' k n false)
    (hunits : k + n ≤ b.units) (hmem : a.mem = b.unitAddress k) (hlen : a.len = usbHcMemUnit * n)
    (hapart : ∀ x ∈ live, a.Apart x) : Loaded live b₀ b' := by
  have haddr := unitAddress_eq hassign
  have hcovers := covers_iff hmem hlen
  -- no other allocation covers a unit of this one
  have halone : ∀ i, k ≤ i ∧ i < k + n → ¬ ∃ x ∈ live, x.Covers (b.unitAddress i) := by
    rintro i hi ⟨x, hx, hlow, hhigh⟩
    obtain ⟨halow, hahigh⟩ := (hcovers i).mpr hi
    rcases hapart x hx with hap | hap
    · omega
    · omega
  refine ⟨hassign.bitsLen.trans h.bitsLen, hassign.bufHost.trans h.bufHost,
    hassign.bufLen.trans h.bufLen, fun i => ?_, fun i hi hc => ?_⟩
  · rw [hassign.isSet, haddr, hassign.units]
    by_cases hi : k ≤ i ∧ i < k + n
    · have hclear : b₀.isSet i = false :=
        h.free i (by omega) ⟨a, List.mem_cons_self, (hcovers i).mpr hi⟩
      simp only [if_pos hi, Bool.false_eq_true, false_iff, not_or, not_and]
      exact ⟨by rw [hclear]; decide, fun _ => halone i hi⟩
    · rw [if_neg hi, h.isSet]
      have hnot : ¬ a.Covers (b.unitAddress i) := fun hc => hi ((hcovers i).mp hc)
      simp [hnot]
  · rw [haddr] at hc
    rw [hassign.units] at hi
    obtain ⟨x, hx, hcx⟩ := hc
    exact h.free i hi ⟨x, List.mem_cons_of_mem a hx, hcx⟩

theorem eq_of_nil (h : Loaded [] b₀ b) : b = b₀ := by
  refine MemBlock.eq_of_isSet (fun k => ?_) h.bitsLen h.bufHost h.bufLen
  rw [Bool.eq_iff_iff, h.isSet]
  simp

theorem none (b : MemBlock) : Loaded [] b b :=
  ⟨rfl, rfl, rfl, fun k => by simp, fun k _ hc => by simp at hc⟩

theorem inUse (h : Loaded live b₀ b) (hb₀ : b₀.InUse) : b.InUse := by
  unfold MemBlock.InUse usbHcIsMemBlockEmpty at *
  simp only [decide_eq_true_eq] at *
  intro hempty
  refine hb₀ fun byte hbyte => ?_
  have hzero := hempty byte (by rw [h.bitsLen]; exact hbyte)
  apply BitVec.eq_of_getLsbD_eq
  intro j hj
  by_contra hne
  have hset : b₀.isSet (8 * byte + j) = true := by
    unfold MemBlock.isSet
    rw [show (8 * byte + j) / 8 = byte by omega, show (8 * byte + j) % 8 = j by omega]
    simpa using hne
  have hset' := (h.isSet (8 * byte + j)).mpr (.inl hset)
  unfold MemBlock.isSet at hset'
  rw [show (8 * byte + j) / 8 = byte by omega, hzero] at hset'
  simp at hset'

end Loaded


/-! ## Taking memory from blocks -/

section

variable {σ : Type} {n : Nat}

theorem usbHcAllocMemFromBlock_ret (asserts : Bool) (b : MemBlock) (hn : 0 < n) (s : σ) :
    ∃ r b', (usbHcAllocMemFromBlock asserts b n : Exec σ _) s = .ret (r, b') s ∧
      ((r = none ∧ b' = b ∧ ∀ k, ¬ b.Free k n) ∨
        ∃ k, r = some (u32 (b.unitAddress k)) ∧ b.Free k n ∧ Assigned b b' k n true) := by
  obtain ⟨l, hloop, hl⟩ := search_ret b hn s
  have hassert : assert asserts (n ≠ 0) s = .ret () s := assert_of (fun _ => by omega) s
  unfold usbHcAllocMemFromBlock
  rw [bind_of_ret hassert, bind_of_ret hloop]
  rcases hl with ⟨hshort, hnone⟩ | ⟨k, hlong, hbyte, hbit, hfree⟩
  · refine ⟨none, b, ?_, .inl ⟨rfl, rfl, hnone⟩⟩
    rw [if_pos hshort]
    rfl
  · obtain ⟨b', hmark, hassign⟩ := markUnits_ret asserts hfree.2 s
    refine ⟨some (u32 (b.unitAddress k)), b', ?_, .inr ⟨k, rfl, hfree, hassign⟩⟩
    rw [if_neg (by omega), hbyte, hbit, bind_of_ret hmark]
    have hunit : (k / 8 * 8 + k % 8) * usbHcMemUnit = usbHcMemUnit * k := by
      rw [Nat.div_add_mod', Nat.mul_comm]
    have haddr : b'.bufHost + (k / 8 * 8 + k % 8) * usbHcMemUnit = b.unitAddress k := by
      rw [hunit, hassign.bufHost]
      rfl
    rw [haddr]
    rfl

theorem allocFromBlocks_ret (asserts : Bool) (hn : 0 < n) (pool : MemPool) (s : σ) :
    ∃ r pool', (allocFromBlocks asserts n pool : Exec σ _) s = .ret (r, pool') s ∧
      ((r = none ∧ pool' = pool ∧ ∀ b ∈ pool, ∀ k, ¬ b.Free k n) ∨
        ∃ before b behind b' k, pool = before ++ b :: behind ∧ pool' = before ++ b' :: behind ∧
          r = some (u32 (b.unitAddress k)) ∧ b.Free k n ∧ Assigned b b' k n true) := by
  induction pool with
  | nil => exact ⟨none, [], rfl, .inl ⟨rfl, rfl, fun b hb => by cases hb⟩⟩
  | cons b next ih =>
    obtain ⟨r, b', hblock, hr⟩ := usbHcAllocMemFromBlock_ret asserts b hn s
    have hrun : (allocFromBlocks asserts n (b :: next) : Exec σ _) s = _ := bind_of_ret hblock
    rcases hr with ⟨rfl, rfl, hnone⟩ | ⟨k, rfl, hfree, hassign⟩
    · obtain ⟨r, next', hnext, hr⟩ := ih
      refine ⟨r, b' :: next', hrun.trans ((bind_of_ret hnext).trans rfl), ?_⟩
      rcases hr with ⟨rfl, rfl, hall⟩ | ⟨before, c, behind, c', k, rfl, rfl, rfl, hfree, hassign⟩
      · refine .inl ⟨rfl, rfl, fun c hc => ?_⟩
        rcases List.mem_cons.mp hc with rfl | hc
        · exact hnone
        · exact hall c hc
      · exact .inr ⟨b' :: before, c, behind, c', k, rfl, rfl, rfl, hfree, hassign⟩
    · exact ⟨_, b' :: next, hrun.trans rfl, .inr ⟨[], b, next, b', k, rfl, rfl, rfl, hfree, hassign⟩⟩

end

/-! ## Pools -/

section

variable {α β : Type} {R R' : α → β → Prop} {base : List α} {before behind l : List β} {b b' : β}

theorem forall₂_mono (h : List.Forall₂ R base l) (hmono : ∀ c ∈ l, ∀ x, R x c → R' x c) :
    List.Forall₂ R' base l := by
  induction h with
  | nil => exact .nil
  | cons hx _ ih =>
    exact .cons (hmono _ List.mem_cons_self _ hx) (ih fun c hc => hmono c (List.mem_cons_of_mem _ hc))

theorem forall₂_replace (h : List.Forall₂ R base (before ++ b :: behind))
    (hb : ∀ x, R x b → R' x b') (hother : ∀ c ∈ before ++ behind, ∀ x, R x c → R' x c) :
    List.Forall₂ R' base (before ++ b' :: behind) := by
  induction before generalizing base with
  | nil =>
    obtain ⟨x, xs, hx, hxs, rfl⟩ := List.forall₂_cons_right_iff.mp h
    exact .cons (hb x hx) (forall₂_mono hxs hother)
  | cons c before ih =>
    obtain ⟨x, xs, hx, hxs, rfl⟩ := List.forall₂_cons_right_iff.mp h
    exact .cons (hother c List.mem_cons_self x hx)
      (ih hxs fun d hd => hother d (List.mem_cons_of_mem c hd))

theorem forall₂_split (h : List.Forall₂ R base (before ++ b :: behind)) :
    ∃ x y z, base = x ++ y :: z ∧ List.Forall₂ R x before ∧ R y b ∧ List.Forall₂ R z behind := by
  induction before generalizing base with
  | nil =>
    obtain ⟨y, z, hy, hz, rfl⟩ := List.forall₂_cons_right_iff.mp h
    exact ⟨[], y, z, rfl, .nil, hy, hz⟩
  | cons c before ih =>
    obtain ⟨w, ws, hw, hws, rfl⟩ := List.forall₂_cons_right_iff.mp h
    obtain ⟨x, y, z, rfl, hx, hy, hz⟩ := ih hws
    exact ⟨w :: x, y, z, rfl, .cons hw hx, hy, hz⟩

end

theorem trimmed_of_inUse {pool : MemPool} (h : ∀ b ∈ pool.tail, b.InUse) : trimmed pool = pool := by
  cases pool with
  | nil => rfl
  | cons head next =>
    have hnext : next.filter (fun b => decide b.InUse) = next :=
      List.filter_eq_self.mpr fun b hb => decide_eq_true (h b hb)
    exact congrArg (head :: ·) hnext

theorem trimmed_drop {x z : MemPool} {y : MemBlock} (hx : x ≠ []) (hy : ¬ y.InUse) :
    trimmed (x ++ y :: z) = trimmed (x ++ z) := by
  cases x with
  | nil => exact absurd rfl hx
  | cons head x =>
    show head :: List.filter _ (x ++ y :: z) = head :: List.filter _ (x ++ z)
    rw [List.filter_append, List.filter_append, List.filter_cons_of_neg (by simpa using hy)]

namespace Grown

variable {pool₀ pool : MemPool} {live live' : List Allocation} {a : Allocation}

theorem none (h : Sound pool) : Grown pool [] pool :=
  ⟨h, ⟨pool, List.forall₂_same.mpr fun b _ => Loaded.none b, trimmed_of_inUse h.inUse⟩,
    fun _ ha => absurd ha List.not_mem_nil, .nil⟩

theorem eq_of_nil (h : Grown pool₀ [] pool) : pool = pool₀ := by
  obtain ⟨base, hbase, htrim⟩ := h.loaded
  have hsame : List.Forall₂ (fun x b => x = b) base pool :=
    forall₂_mono hbase fun c _ x hx => hx.eq_of_nil.symm
  have heq : base = pool := by rwa [List.forall₂_eq_eq_eq] at hsame
  rw [← htrim, heq, trimmed_of_inUse h.sound.inUse]

theorem perm (h : Grown pool₀ live pool) (hlive : live.Perm live') : Grown pool₀ live' pool := by
  obtain ⟨base, hbase, htrim⟩ := h.loaded
  refine ⟨h.sound, ⟨base, ?_, htrim⟩, fun a ha => h.inside a (hlive.mem_iff.mpr ha), ?_⟩
  · exact forall₂_mono hbase fun c _ x hx => hx.perm fun y => hlive.mem_iff
  · exact h.apart.perm hlive fun hxy => Or.symm hxy

end Grown


/-! ## Allocations in sound pools -/

namespace MemBlock

variable {b b' c : MemBlock} {k n : Nat} {v : Bool}

def SameMemory (b b' : MemBlock) : Prop :=
  b'.bitsLen = b.bitsLen ∧ b'.bufHost = b.bufHost ∧ b'.bufLen = b.bufLen

theorem Assigned.sameMemory (h : Assigned b b' k n v) : b.SameMemory b' :=
  ⟨h.bitsLen, h.bufHost, h.bufLen⟩

theorem Sound.same (h : b.Sound) (hsame : b.SameMemory b') : b'.Sound := by
  obtain ⟨hbits, hhost, hlen⟩ := hsame
  refine ⟨by rw [hhost]; exact h.aligned, by rw [hhost]; exact h.pos, ?_, ?_⟩
  · rw [hlen, h.bufLen]
    unfold MemBlock.units
    rw [hbits]
  · rw [hhost, hlen]
    exact h.below

theorem SameMemory.apart_left (hsame : b.SameMemory b') (h : b.Apart c) : b'.Apart c := by
  unfold MemBlock.Apart at *
  rw [hsame.2.1, hsame.2.2]
  exact h

theorem SameMemory.apart_right (hsame : b.SameMemory b') (h : c.Apart b) : c.Apart b' := by
  unfold MemBlock.Apart at *
  rw [hsame.2.1, hsame.2.2]
  exact h

theorem Assigned.inUse (h : Assigned b b' k n true) (hn : 0 < n) (hunits : k + n ≤ b.units) :
    b'.InUse := by
  unfold MemBlock.InUse usbHcIsMemBlockEmpty
  simp only [decide_eq_true_eq]
  intro hempty
  have hset := h.isSet_inside (i := k) ⟨Nat.le_refl k, by omega⟩
  have hbyte : k / 8 < b'.bitsLen := by
    rw [h.bitsLen]
    unfold MemBlock.units at hunits
    omega
  unfold MemBlock.isSet at hset
  rw [hempty _ hbyte] at hset
  simp at hset

end MemBlock

namespace Allocation.Inside

variable {a : Allocation} {b b' c : MemBlock}

theorem units (h : a.Inside b) (hb : b.Sound) :
    ∃ k n, a.mem = b.unitAddress k ∧ a.len = usbHcMemUnit * n ∧ k + n ≤ b.units ∧ 0 < n := by
  have halign := h.aligned
  have halign' := hb.aligned
  have hlow := h.low
  have hhigh := h.high
  have hpos := h.pos
  have hlen := a.len_eq
  have hbuf := hb.bufLen
  refine ⟨(a.mem - b.bufHost) / 64, a.len / 64, ?_, hlen, ?_, ?_⟩
  · unfold MemBlock.unitAddress
    change a.mem = b.bufHost + 64 * _
    change a.mem % 64 = 0 at halign
    change b.bufHost % 64 = 0 at halign'
    omega
  · change a.mem % 64 = 0 at halign
    change b.bufHost % 64 = 0 at halign'
    change a.len = 64 * (a.len / 64) at hlen
    change b.bufLen = 64 * b.units at hbuf
    omega
  · change a.len = 64 * (a.len / 64) at hlen
    omega

theorem same (h : a.Inside b) (hsame : b.SameMemory b') : a.Inside b' := by
  refine ⟨h.aligned, ?_, ?_, h.pos⟩
  · rw [hsame.2.1]
    exact h.low
  · rw [hsame.2.1, hsame.2.2]
    exact h.high

theorem not_covers (h : a.Inside b) (hc : c.Sound) (hapart : b.Apart c ∨ c.Apart b) :
    ∀ i < c.units, ¬ a.Covers (c.unitAddress i) := by
  rintro i hi ⟨hlow, hhigh⟩
  have h₁ := h.low
  have h₂ := h.high
  have hbuf := hc.bufLen
  unfold MemBlock.unitAddress at hlow hhigh
  change a.mem ≤ c.bufHost + 64 * i at hlow
  change c.bufHost + 64 * i < a.mem + a.len at hhigh
  change c.bufLen = 64 * c.units at hbuf
  unfold MemBlock.Apart at hapart
  omega

end Allocation.Inside

namespace Sound

variable {before behind : MemPool} {b b' : MemBlock}

theorem block (h : Sound (before ++ b :: behind)) : b.Sound :=
  h.blocks b (List.mem_append_right _ List.mem_cons_self)

theorem others (h : Sound (before ++ b :: behind)) :
    ∀ c ∈ before ++ behind, c.Sound ∧ (b.Apart c ∨ c.Apart b) := by
  intro c hc
  obtain ⟨-, hbehind, hcross⟩ := List.pairwise_append.mp h.apart
  rcases List.mem_append.mp hc with hc | hc
  · exact ⟨h.blocks c (List.mem_append_left _ hc), .inr (hcross c hc b List.mem_cons_self)⟩
  · exact ⟨h.blocks c (List.mem_append_right _ (List.mem_cons_of_mem b hc)),
      .inl ((List.pairwise_cons.mp hbehind).1 c hc)⟩

theorem replace (h : Sound (before ++ b :: behind)) (hsame : b.SameMemory b')
    (huse : before ≠ [] → b'.InUse) : Sound (before ++ b' :: behind) := by
  refine ⟨by simp, fun c hc => ?_, ?_, fun c hc => ?_⟩
  · rcases List.mem_append.mp hc with hc | hc
    · exact h.blocks c (List.mem_append_left _ hc)
    · rcases List.mem_cons.mp hc with rfl | hc
      · exact h.block.same hsame
      · exact h.blocks c (List.mem_append_right _ (List.mem_cons_of_mem b hc))
  · obtain ⟨hbefore, hbehind, hcross⟩ := List.pairwise_append.mp h.apart
    obtain ⟨hb, hbehind⟩ := List.pairwise_cons.mp hbehind
    refine List.pairwise_append.mpr ⟨hbefore, List.pairwise_cons.mpr ⟨fun c hc => ?_, hbehind⟩,
      fun c hc d hd => ?_⟩
    · exact hsame.apart_left (hb c hc)
    · rcases List.mem_cons.mp hd with rfl | hd
      · exact hsame.apart_right (hcross c hc b List.mem_cons_self)
      · exact hcross c hc d (List.mem_cons_of_mem b hd)
  · cases before with
    | nil => exact h.inUse c hc
    | cons head before =>
      have hc' : c ∈ before ++ b' :: behind := hc
      rcases List.mem_append.mp hc' with hc' | hc'
      · exact h.inUse c (List.mem_append_left _ hc')
      · rcases List.mem_cons.mp hc' with rfl | hc'
        · exact huse (by simp)
        · exact h.inUse c (List.mem_append_right _ (List.mem_cons_of_mem b hc'))

theorem remove (h : Sound (before ++ b :: behind)) (hbefore : before ≠ []) :
    Sound (before ++ behind) := by
  have hsub : (before ++ behind).Sublist (before ++ b :: behind) :=
    List.Sublist.append_left (List.sublist_cons_self b behind) before
  refine ⟨by simp [hbefore], fun c hc => h.blocks c (hsub.subset hc), h.apart.sublist hsub,
    fun c hc => ?_⟩
  cases before with
  | nil => exact absurd rfl hbefore
  | cons head before =>
    refine h.inUse c ?_
    have hc' : c ∈ before ++ behind := hc
    rcases List.mem_append.mp hc' with hc' | hc'
    · exact List.mem_append_left _ hc'
    · exact List.mem_append_right _ (List.mem_cons_of_mem b hc')

theorem insert {head : MemBlock} {next : MemPool} (h : Sound (head :: next)) (hb : b.Sound)
    (hapart : ∀ c ∈ head :: next, c.Apart b) (huse : b.InUse) : Sound (head :: b :: next) := by
  obtain ⟨hhead, hnext⟩ := List.pairwise_cons.mp h.apart
  refine ⟨by simp, fun c hc => ?_, ?_, fun c hc => ?_⟩
  · rcases List.mem_cons.mp hc with rfl | hc
    · exact h.blocks c List.mem_cons_self
    · rcases List.mem_cons.mp hc with rfl | hc
      · exact hb
      · exact h.blocks c (List.mem_cons_of_mem head hc)
  · refine List.pairwise_cons.mpr ⟨fun c hc => ?_, List.pairwise_cons.mpr ⟨fun c hc => ?_, hnext⟩⟩
    · rcases List.mem_cons.mp hc with rfl | hc
      · exact hapart head List.mem_cons_self
      · exact hhead c hc
    · exact Or.symm (hapart c (List.mem_cons_of_mem head hc))
  · rcases List.mem_cons.mp hc with rfl | hc
    · exact huse
    · exact h.inUse c hc

end Sound

end Quark.Ohci
