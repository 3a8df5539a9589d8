import Mathlib.Tactic.SplitIfs
import Quark.Acpi.Madt

/-!
# Multiple APIC description table: size and contents

The size that is computed is the size of the structures that are written, so that every write is inside
and the last one ends at the end of the table. What is left is whether the size loop ends, and which NMI
structures the shift by the number of the processor gives.
-/

namespace Quark.Acpi

open Machine Exec

/-! ## Writing -/

/-- A table whose first bytes are written, with `k` bytes from the zeroed pool behind them. -/
def filled (pre : List Byte) (k : Nat) : List Byte := pre ++ List.replicate k 0

theorem writeAt_filled (pre bytes : List Byte) (k : Nat) :
    writeAt pre.length bytes (filled pre (bytes.length + k)) = .ret () (filled (pre ++ bytes) k) := by
  have hput : put? (filled pre (bytes.length + k)) pre.length bytes = some (filled (pre ++ bytes) k) := by
    unfold put? filled
    rw [if_pos (by simp only [List.length_append, List.length_replicate]; omega)]
    rw [List.take_left' rfl, List.drop_append, List.drop_eq_nil_of_le (by omega), List.nil_append,
      Nat.add_sub_cancel_left, List.drop_replicate, Nat.add_sub_cancel_left]
  have hget : (Exec.get : Exec (List Byte) (List Byte)) (filled pre (bytes.length + k)) =
      .ret (filled pre (bytes.length + k)) (filled pre (bytes.length + k)) := rfl
  unfold writeAt
  rw [bind_of_ret hget, hput]
  rfl

theorem writeEach_filled {α : Type} (present : α → Bool) (structureOf : α → List Byte) (entries : List α) (k : Nat) :
    ∀ pre : List Byte,
      writeEach present structureOf entries pre.length
          (filled pre ((structuresOf present structureOf entries).flatten.length + k)) =
        .ret (pre ++ (structuresOf present structureOf entries).flatten).length
          (filled (pre ++ (structuresOf present structureOf entries).flatten) k) := by
  induction entries with
  | nil =>
    intro pre
    simp only [structuresOf, List.filter_nil, List.map_nil, List.flatten_nil, List.length_nil, Nat.zero_add,
      List.append_nil]
    rfl
  | cons a rest ih =>
    intro pre
    by_cases ha : present a = true
    · have hcons : structuresOf present structureOf (a :: rest) =
          structureOf a :: structuresOf present structureOf rest := by
        rw [structuresOf, List.filter_cons_of_pos ha, List.map_cons, structuresOf]
      rw [writeEach, if_pos ha, hcons, List.flatten_cons, List.length_append, Nat.add_assoc,
        bind_of_ret (writeAt_filled pre (structureOf a) _), ← List.length_append, ih, List.append_assoc]
    · have hcons : structuresOf present structureOf (a :: rest) = structuresOf present structureOf rest := by
        rw [structuresOf, List.filter_cons_of_neg ha, structuresOf]
      rw [writeEach, if_neg ha, hcons, ih]

theorem writeAt_length (off : Nat) (bytes table : List Byte) :
    (writeAt off bytes).wp (fun _ t => t.length = table.length) (fun _ _ => True) table := by
  unfold writeAt
  rw [wp_bind, wp_get]
  by_cases h : off + bytes.length ≤ table.length
  · obtain ⟨t, ht, hlength⟩ := put?_of_le h
    rw [ht]
    exact hlength
  · rw [put?, if_neg h]
    trivial

theorem writeEach_length {α : Type} (present : α → Bool) (structureOf : α → List Byte) (entries : List α) :
    ∀ (off : Nat) (table : List Byte),
      (writeEach present structureOf entries off).wp (fun _ t => t.length = table.length) (fun _ _ => True) table := by
  induction entries with
  | nil =>
    intro off table
    rfl
  | cons a rest ih =>
    intro off table
    unfold writeEach
    rw [wp_ite]
    refine ⟨fun _ => ?_, fun _ => ih off table⟩
    rw [wp_bind]
    apply wp_mono (writeAt_length off (structureOf a) table)
    · intro _ t ht
      apply wp_mono (ih _ t)
      · intro _ t' ht'
        exact ht'.trans ht
      · intro _ _ _
        trivial
    · intro _ _ _
      trivial

/-! ## The size of the structures -/

theorem length_flatten_structuresOf {α : Type} {present : α → Bool} {structureOf : α → List Byte} {k : Nat}
    (h : ∀ a, (structureOf a).length = k) (entries : List α) :
    (structuresOf present structureOf entries).flatten.length = k * entries.countP present := by
  induction entries with
  | nil => rfl
  | cons a rest ih =>
    by_cases ha : present a = true
    · rw [structuresOf, List.filter_cons_of_pos ha, List.map_cons, List.flatten_cons, List.length_append, h,
        ← structuresOf, ih, List.countP_cons_of_pos ha, Nat.mul_succ, Nat.add_comm]
    · rw [structuresOf, List.filter_cons_of_neg ha, ← structuresOf, ih, List.countP_cons_of_neg ha]

@[simp] theorem length_wordBytes {w : Nat} (k : Nat) (v : BitVec w) : (wordBytes k v).length = k :=
  length_leBytes k v.toNat

@[simp] theorem length_madtHeader (cfg : MadtConfigData) (size : BitVec 32) : (madtHeader cfg size).length = 44 := by
  simp [madtHeader]

theorem length_processorLocalApic (index : Nat) : (processorLocalApic index).length = 8 := by
  simp [processorLocalApic]

theorem length_ioApic (s : IoApicSetting) : (ioApic s).length = 12 := by simp [ioApic]

theorem length_interruptSourceOverride (s : InterruptOverrideSetting) : (interruptSourceOverride s).length = 10 := by
  simp [interruptSourceOverride]

theorem length_ioApicNmiSource (s : IoApicSetting) : (ioApicNmiSource s).length = 8 := by simp [ioApicNmiSource]

theorem length_localApicNmiSource (s : LocalApicSetting) (index : Nat) : (localApicNmiSource s index).length = 6 := by
  simp [localApicNmiSource]

theorem length_localApicAddressOverride (s : LocalApicSetting) : (localApicAddressOverride s).length = 12 := by
  simp [localApicAddressOverride]

def fixedSize (cfg : MadtConfigData) (cpus : Nat) : Nat :=
  8 * cpus + 12 + 10 * cfg.interruptSetting.countP (fun s => s.enable ≠ 0) +
    (if cfg.ioApicSetting.nmiEnable ≠ 0 then 8 else 0) +
    (if cfg.localApicSetting.addressOverrideEnable ≠ 0 then 12 else 0)

theorem length_structuresWith (cfg : MadtConfigData) (cpus : Nat) (nmi : Nat → Bool) :
    (structuresWith cfg cpus nmi).flatten.length = fixedSize cfg cpus + 6 * (List.range cpus).countP nmi := by
  have hall : (List.range cpus).countP (fun _ => true) = cpus := by
    rw [List.countP_true, List.length_range]
  simp only [structuresWith, List.flatten_append, List.length_append,
    length_flatten_structuresOf length_processorLocalApic, length_flatten_structuresOf length_ioApic,
    length_flatten_structuresOf length_interruptSourceOverride, length_flatten_structuresOf length_ioApicNmiSource,
    length_flatten_structuresOf (length_localApicNmiSource _),
    length_flatten_structuresOf length_localApicAddressOverride, hall, fixedSize, List.countP_cons, List.countP_nil]
  by_cases h₁ : cfg.ioApicSetting.nmiEnable = 0 <;> by_cases h₂ : cfg.localApicSetting.addressOverrideEnable = 0 <;>
    simp [h₁, h₂] <;> omega

theorem structureLength_of_mem {cfg : MadtConfigData} {cpus : Nat} {nmi : Nat → Bool} {s : List Byte}
    (h : s ∈ structuresWith cfg cpus nmi) : s[1]? = some (BitVec.ofNat 8 s.length) ∧ s.length < 256 := by
  simp only [structuresWith, structuresOf, List.mem_append, List.mem_map] at h
  rcases h with ⟨i, -, rfl⟩ | ⟨i, -, rfl⟩ | ⟨i, -, rfl⟩ | ⟨i, -, rfl⟩ | ⟨i, -, rfl⟩ | ⟨i, -, rfl⟩
  · rw [length_processorLocalApic]
    exact ⟨rfl, by omega⟩
  · rw [length_ioApic]
    exact ⟨rfl, by omega⟩
  · rw [length_interruptSourceOverride]
    exact ⟨rfl, by omega⟩
  · rw [length_ioApicNmiSource]
    exact ⟨rfl, by omega⟩
  · rw [length_localApicNmiSource]
    exact ⟨rfl, by omega⟩
  · rw [length_localApicAddressOverride]
    exact ⟨rfl, by omega⟩

/-! ## The size that is computed -/

theorem nmiMask_ne_zero (mask : BitVec 8) (index : Nat) :
    nmiMask mask index ≠ 0 ↔ mask.getLsbD (index % 32) = true := by
  have hlt : index % 32 < 32 := Nat.mod_lt _ (by omega)
  have hone : 1#32 <<< (index % 32) = BitVec.twoPow 32 (index % 32) := rfl
  have hne : BitVec.twoPow 32 (index % 32) ≠ 0 := by
    intro h
    have hbit := congrArg (fun v : BitVec 32 => v.getLsbD (index % 32)) h
    simp [BitVec.getLsbD_twoPow, hlt] at hbit
  rw [nmiMask, hone, BitVec.and_twoPow, BitVec.getLsbD_setWidth]
  by_cases h : mask.getLsbD (index % 32) = true
  · simp only [hlt, h, decide_true, Bool.and_true, if_true, ne_eq, hne, not_false_eq_true]
  · simp only [hlt, h, decide_true, Bool.and_false, Bool.false_eq_true, if_false]
    exact iff_of_false (fun h0 => h0 rfl) id

def nmiPresent (cfg : MadtConfigData) (index : Nat) : Bool :=
  nmiMask cfg.localApicSetting.nmiEnabelApicIdMask index ≠ 0

theorem nmiPresent_eq (cfg : MadtConfigData) (index : Nat) :
    nmiPresent cfg index = cfg.localApicSetting.nmiEnabelApicIdMask.getLsbD (index % 32) := by
  rw [Bool.eq_iff_iff, ← nmiMask_ne_zero, nmiPresent, decide_eq_true_eq]

theorem nmiPresent_of_configured {cfg : MadtConfigData} {i : Nat}
    (h : cfg.localApicSetting.nmiEnabelApicIdMask.getLsbD i = true) : nmiPresent cfg i = true := by
  have hlt : i < 8 := BitVec.lt_of_getLsbD h
  rw [nmiPresent_eq, Nat.mod_eq_of_lt (by omega), h]

theorem toInt_of_lt {n : BitVec 32} (h : n.toNat < 2 ^ 31) : n.toInt = n.toNat := by
  rw [BitVec.toInt_eq_toNat_of_lt]
  omega

theorem loop_nmiSizeBody (cfg : MadtConfigData) {n : BitVec 32} (hn : n.toNat < 256) (t : List Byte) :
    ∀ (k i : Nat) (size : BitVec 32), i + k = n.toNat →
      loop (k + 1) (nmiSizeBody cfg.localApicSetting.nmiEnabelApicIdMask n) (BitVec.ofNat 8 i, size) t =
        .ret (size + BitVec.ofNat 32 (6 * (List.range' i k).countP (nmiPresent cfg))) t := by
  have hint : n.toInt = n.toNat := toInt_of_lt (by omega)
  intro k
  induction k with
  | zero =>
    intro i size hi
    have hbody : nmiSizeBody cfg.localApicSetting.nmiEnabelApicIdMask n (BitVec.ofNat 8 i, size) t =
        .ret (.inr size) t := by
      unfold nmiSizeBody
      rw [if_neg (by rw [hint, BitVec.toNat_ofNat]; omega)]
      rfl
    rw [loop_of_inr hbody]
    simp
  | succ k ih =>
    intro i size hi
    have hmod : (BitVec.ofNat 8 i).toNat = i := by
      rw [BitVec.toNat_ofNat]
      exact Nat.mod_eq_of_lt (by omega)
    have hnext : BitVec.ofNat 8 i + 1 = BitVec.ofNat 8 (i + 1) := by
      rw [BitVec.ofNat_add]
      rfl
    have hbody : nmiSizeBody cfg.localApicSetting.nmiEnabelApicIdMask n (BitVec.ofNat 8 i, size) t =
        .ret (.inl (BitVec.ofNat 8 (i + 1), if nmiPresent cfg i then size + 6 else size)) t := by
      unfold nmiSizeBody
      rw [if_pos (by rw [hint, hmod]; omega), hmod, hnext]
      simp only [nmiPresent, decide_eq_true_eq]
      rfl
    rw [loop_of_inl hbody, ih (i + 1) _ (by omega), List.range'_succ, List.countP_cons]
    by_cases hp : nmiPresent cfg i = true
    · simp only [hp, if_true, Nat.mul_add, BitVec.ofNat_add, Nat.mul_one]
      rw [BitVec.add_assoc, BitVec.add_comm 6]
      rfl
    · simp only [hp, Bool.false_eq_true, if_false, Nat.add_zero]

theorem loop_nmiSizeBody_unfinished {mask : BitVec 8} {n : BitVec 32} (hn : 256 ≤ n.toNat) (hint : n.toNat < 2 ^ 31)
    (t : List Byte) :
    ∀ (fuel : Nat) (l : BitVec 8 × BitVec 32), loop fuel (nmiSizeBody mask n) l t = .stop .unfinished t := by
  intro fuel
  induction fuel with
  | zero => intro l; rfl
  | succ fuel ih =>
    intro l
    have hbody : nmiSizeBody mask n l t =
        .ret (.inl (l.1 + 1, if nmiMask mask l.1.toNat ≠ 0 then l.2 + 6 else l.2)) t := by
      have hlt := l.1.isLt
      unfold nmiSizeBody
      rw [if_pos (by rw [toInt_of_lt hint]; omega)]
      rfl
    rw [loop_of_inl hbody, ih]

theorem foldl_enabled (settings : List InterruptOverrideSetting) (size : BitVec 32) :
    settings.foldl (fun size s => if s.enable ≠ 0 then size + 10 else size) size =
      size + BitVec.ofNat 32 (10 * settings.countP (fun s => s.enable ≠ 0)) := by
  induction settings generalizing size with
  | nil => simp
  | cons s rest ih =>
    rw [List.foldl_cons, ih, List.countP_cons]
    by_cases h : s.enable = 0
    · simp [h]
    · simp only [ne_eq, h, not_false_eq_true, if_true, decide_true, Nat.mul_add, BitVec.ofNat_add, Nat.mul_one]
      rw [BitVec.add_assoc, BitVec.add_comm 10]
      rfl

theorem getAcutalMadtTableSize_eq (cfg : MadtConfigData) {n : BitVec 32} (hn : n.toNat < 256) (t : List Byte) :
    ∃ size : BitVec 32, getAcutalMadtTableSize (n.toNat + 1) cfg n t = .ret size t ∧
      size.toNat = 44 + (structuresWith cfg n.toNat (nmiPresent cfg)).flatten.length := by
  have hloop := fun size => loop_nmiSizeBody cfg hn t n.toNat 0 size (Nat.zero_add _)
  have hcount := List.countP_le_length (l := List.range n.toNat) (p := nmiPresent cfg)
  have hoverrides := List.countP_le_length (l := cfg.interruptSetting) (p := fun s => decide (s.enable ≠ 0))
  rw [List.length_range] at hcount
  rw [cfg.interruptSetting_length] at hoverrides
  unfold getAcutalMadtTableSize
  refine ⟨_, bind_of_ret (hloop _), ?_⟩
  rw [length_structuresWith, fixedSize, foldl_enabled, ← List.range_eq_range']
  generalize List.countP (fun s : InterruptOverrideSetting => decide (s.enable ≠ 0)) cfg.interruptSetting = c
    at hoverrides ⊢
  generalize List.countP (nmiPresent cfg) (List.range n.toNat) = d at hcount ⊢
  split_ifs <;> simp only [BitVec.toNat_add, BitVec.toNat_mul, BitVec.ofNat_eq_ofNat, BitVec.toNat_ofNat] <;> omega

/-! ## The function -/

theorem filter_eq_of_countP_eq {α : Type} {p q : α → Bool} {l : List α} (h : ∀ a, q a = true → p a = true)
    (hcount : l.countP p = l.countP q) : l.filter p = l.filter q := by
  refine ((List.monotone_filter_right l h).eq_of_length ?_).symm
  rw [← List.countP_eq_length_filter, ← List.countP_eq_length_filter, hcount]

theorem word?_madtHeader (cfg : MadtConfigData) (size : BitVec 32) (rest : List Byte) :
    word? 4 (madtHeader cfg size ++ rest) 4 = some size.toNat := by
  have hread := word?_append 4 size.toNat (['A', 'P', 'I', 'C'].map fun c => BitVec.ofNat 8 c.toNat)
    ((madtHeader cfg size).drop 8 ++ rest)
  rw [Nat.mod_eq_of_lt (show size.toNat < 256 ^ 4 from size.isLt)] at hread
  exact hread

theorem madtTableInitialize_of_lt {asserts : Bool} {a : BitVec 32} (ha : asserts = true → a.msb = false)
    (cfg : MadtConfigData) {n : BitVec 32} (hn : n.toNat < 256) (t : List Byte) :
    ∃ size : BitVec 32, size.toNat = 44 + (structuresWith cfg n.toNat (nmiPresent cfg)).flatten.length ∧
      madtTableInitialize (n.toNat + 1) asserts (some a) cfg n t =
        .ret size (madtHeader cfg size ++ (structuresWith cfg n.toNat (nmiPresent cfg)).flatten) := by
  obtain ⟨size, hrun, hsize⟩ := getAcutalMadtTableSize_eq cfg hn t
  refine ⟨size, hsize, ?_⟩
  have hassert : assert asserts (((some a).getD 0).msb = false) t = .ret () t := assert_of ha t
  have hpool : (Exec.modify fun _ => List.replicate size.toNat 0 : Exec (List Byte) Unit) t =
      .ret () (filled [] size.toNat) := rfl
  have hheader : writeAt 0 (madtHeader cfg size) (filled [] size.toNat) =
      .ret () (filled (madtHeader cfg size) (structuresWith cfg n.toNat (nmiPresent cfg)).flatten.length) := by
    rw [hsize, ← length_madtHeader cfg size]
    exact writeAt_filled [] (madtHeader cfg size) _
  have hlast := writeEach_filled (fun s : LocalApicSetting => s.addressOverrideEnable ≠ 0) localApicAddressOverride
    [cfg.localApicSetting] 0
  simp only [Nat.add_zero] at hlast
  have hpresent : (fun index => decide (nmiMask cfg.localApicSetting.nmiEnabelApicIdMask index ≠ 0)) =
      nmiPresent cfg := rfl
  unfold madtTableInitialize
  rw [bind_of_ret hrun, bind_of_ret hassert, if_neg (Option.some_ne_none a), bind_of_ret hpool, bind_of_ret hheader,
    ← length_madtHeader cfg size, hpresent]
  simp only [structuresWith, List.flatten_append, List.length_append]
  rw [bind_of_ret (writeEach_filled _ _ _ _ _), bind_of_ret (writeEach_filled _ _ _ _ _),
    bind_of_ret (writeEach_filled _ _ _ _ _), bind_of_ret (writeEach_filled _ _ _ _ _),
    bind_of_ret (writeEach_filled _ _ _ _ _), bind_of_ret (hlast _)]
  simp only [filled, List.replicate_zero, List.append_nil, List.append_assoc]
  rfl

theorem getAcutalMadtTableSize_mono {fuel fuel' : Nat} (hle : fuel ≤ fuel') {cfg : MadtConfigData}
    {n size : BitVec 32} {s t : List Byte} (h : getAcutalMadtTableSize fuel cfg n s = .ret size t) :
    getAcutalMadtTableSize fuel' cfg n s = .ret size t := by
  unfold getAcutalMadtTableSize at h ⊢
  obtain ⟨total, u, hloop, hrest⟩ := ret_of_bind h
  rw [bind_of_ret (loop_mono hloop hle), hrest]

theorem madtTableInitialize_returns {fuel : Nat} {asserts : Bool} {pool : Option (BitVec 32)} {cfg : MadtConfigData}
    {n size : BitVec 32} {table : List Byte}
    (h : madtTableInitialize fuel asserts pool cfg n [] = .ret size table) :
    table.length = size.toNat ∧ (∃ a, pool = some a ∧ (asserts = true → a.msb = false)) ∧
      (n.toNat < 256 ∨ 2 ^ 31 ≤ n.toNat) := by
  unfold madtTableInitialize at h
  obtain ⟨madtSize, t, hsize, h⟩ := ret_of_bind h
  obtain ⟨_, t', hassert, h⟩ := ret_of_bind h
  obtain ⟨hmsb, -⟩ := of_assert hassert
  have hcpus : n.toNat < 256 ∨ 2 ^ 31 ≤ n.toNat := by
    by_contra hmiddle
    unfold getAcutalMadtTableSize at hsize
    obtain ⟨_, _, hloop, -⟩ := ret_of_bind hsize
    rw [loop_nmiSizeBody_unfinished (by omega) (by omega)] at hloop
    cases hloop
  cases pool with
  | none => cases h
  | some a =>
    refine ⟨?_, ⟨a, rfl, hmsb⟩, hcpus⟩
    rw [if_neg (Option.some_ne_none a)] at h
    obtain ⟨_, t₀, hpool, h⟩ := ret_of_bind h
    obtain ⟨_, t₁, h₁, h⟩ := ret_of_bind h
    obtain ⟨_, t₂, h₂, h⟩ := ret_of_bind h
    obtain ⟨_, t₃, h₃, h⟩ := ret_of_bind h
    obtain ⟨_, t₄, h₄, h⟩ := ret_of_bind h
    obtain ⟨_, t₅, h₅, h⟩ := ret_of_bind h
    obtain ⟨_, t₆, h₆, h⟩ := ret_of_bind h
    obtain ⟨_, t₇, h₇, h⟩ := ret_of_bind h
    cases h
    cases hpool
    rw [wp_of_ret (writeEach_length _ _ _ _ _) h₇, wp_of_ret (writeEach_length _ _ _ _ _) h₆,
      wp_of_ret (writeEach_length _ _ _ _ _) h₅, wp_of_ret (writeEach_length _ _ _ _ _) h₄,
      wp_of_ret (writeEach_length _ _ _ _ _) h₃, wp_of_ret (writeEach_length _ _ _ _ _) h₂,
      wp_of_ret (writeAt_length _ _ _) h₁, List.length_replicate]

theorem madtTableInitialize_size {fuel : Nat} {asserts : Bool} {pool : Option (BitVec 32)} {cfg : MadtConfigData}
    {n size : BitVec 32} {table : List Byte} (hn : n.toNat < 256)
    (h : madtTableInitialize fuel asserts pool cfg n [] = .ret size table) :
    size.toNat = 44 + (structuresWith cfg n.toNat (nmiPresent cfg)).flatten.length := by
  obtain ⟨size', hsize', hvalue⟩ := getAcutalMadtTableSize_eq cfg hn []
  unfold madtTableInitialize at h
  obtain ⟨madtSize, t, hsize, h⟩ := ret_of_bind h
  have hreturned : size = madtSize := by
    obtain ⟨_, t', -, h⟩ := ret_of_bind h
    cases pool with
    | none => cases h
    | some a =>
      rw [if_neg (Option.some_ne_none a)] at h
      obtain ⟨_, _, -, h⟩ := ret_of_bind h
      obtain ⟨_, _, -, h⟩ := ret_of_bind h
      obtain ⟨_, _, -, h⟩ := ret_of_bind h
      obtain ⟨_, _, -, h⟩ := ret_of_bind h
      obtain ⟨_, _, -, h⟩ := ret_of_bind h
      obtain ⟨_, _, -, h⟩ := ret_of_bind h
      obtain ⟨_, _, -, h⟩ := ret_of_bind h
      obtain ⟨_, _, -, h⟩ := ret_of_bind h
      cases h
      rfl
  have hmore := getAcutalMadtTableSize_mono (Nat.le_max_left fuel (n.toNat + 1)) hsize
  rw [getAcutalMadtTableSize_mono (Nat.le_max_right fuel (n.toNat + 1)) hsize'] at hmore
  cases hmore
  rw [hreturned, hvalue]

theorem nmiPresent_eq_configured {cfg : MadtConfigData} {cpus : Nat}
    (h : ∀ i, 32 ≤ i → i < cpus → cfg.localApicSetting.nmiEnabelApicIdMask.getLsbD (i % 32) = false) {i : Nat}
    (hi : i < cpus) : nmiPresent cfg i = cfg.localApicSetting.nmiEnabelApicIdMask.getLsbD i := by
  rw [nmiPresent_eq]
  by_cases h32 : i < 32
  · rw [Nat.mod_eq_of_lt h32]
  · rw [h i (by omega) hi, BitVec.getLsbD_of_ge _ _ (by omega)]

theorem structuresWith_congr {cfg : MadtConfigData} {cpus : Nat} {nmi nmi' : Nat → Bool}
    (h : ∀ i < cpus, nmi i = nmi' i) : structuresWith cfg cpus nmi = structuresWith cfg cpus nmi' := by
  have hfilter : (List.range cpus).filter nmi = (List.range cpus).filter nmi' :=
    List.filter_congr fun i hi => h i (List.mem_range.mp hi)
  simp only [structuresWith, structuresOf, hfilter]

def MadtInitialized (asserts : Bool) (pool : Option (BitVec 32)) (cfg : MadtConfigData) (n : BitVec 32) : Prop :=
  ∃ fuel size table, madtTableInitialize fuel asserts pool cfg n [] = .ret size table ∧
    size.toNat = table.length ∧ MadtWellFormed cfg n.toNat table

/-- There is room in the pool, at an address that `ASSERT_EFI_ERROR` does not take for an error; there are
fewer than 256 processors; and none from the 32nd on has the number of an NMI bit, modulo 32. -/
def MadtCondition (asserts : Bool) (pool : Option (BitVec 32)) (cfg : MadtConfigData) (n : BitVec 32) : Prop :=
  (∃ a, pool = some a ∧ (asserts = true → a.msb = false)) ∧ n.toNat < 256 ∧
    ∀ i, 32 ≤ i → i < n.toNat → cfg.localApicSetting.nmiEnabelApicIdMask.getLsbD (i % 32) = false

theorem condition_of_initialized {asserts : Bool} {pool : Option (BitVec 32)} {cfg : MadtConfigData} {n : BitVec 32}
    (h : MadtInitialized asserts pool cfg n) : MadtCondition asserts pool cfg n := by
  obtain ⟨fuel, size, table, hrun, hsize, hformed⟩ := h
  obtain ⟨hlength, hpool, hcpus⟩ := madtTableInitialize_returns hrun
  obtain ⟨header, hheader, htable⟩ := hformed.tiled
  have htotal : table.length = 44 + fixedSize cfg n.toNat +
      6 * (List.range n.toNat).countP fun i => cfg.localApicSetting.nmiEnabelApicIdMask.getLsbD i := by
    rw [htable, List.length_append, hheader, madtStructures, length_structuresWith, Nat.add_assoc]
  have hfew : n.toNat < 256 := by
    have hlt := size.isLt
    unfold fixedSize at htotal
    omega
  refine ⟨hpool, hfew, fun i h32 hi => ?_⟩
  have hcount : (List.range n.toNat).countP (nmiPresent cfg) =
      (List.range n.toNat).countP fun i => cfg.localApicSetting.nmiEnabelApicIdMask.getLsbD i := by
    have hcode := madtTableInitialize_size hfew hrun
    rw [length_structuresWith] at hcode
    omega
  have hfilter := filter_eq_of_countP_eq (fun _ hj => nmiPresent_of_configured hj) hcount
  by_contra hbit
  have hmem : i ∈ (List.range n.toNat).filter (nmiPresent cfg) := by
    rw [List.mem_filter, List.mem_range, nmiPresent_eq]
    exact ⟨hi, Bool.eq_true_of_not_eq_false hbit⟩
  rw [hfilter, List.mem_filter, BitVec.getLsbD_of_ge _ _ (by omega)] at hmem
  cases hmem.2

theorem initialized_of_condition {asserts : Bool} {pool : Option (BitVec 32)} {cfg : MadtConfigData} {n : BitVec 32}
    (h : MadtCondition asserts pool cfg n) : MadtInitialized asserts pool cfg n := by
  obtain ⟨⟨a, rfl, ha⟩, hn, hmask⟩ := h
  obtain ⟨size, hsize, hrun⟩ := madtTableInitialize_of_lt ha cfg hn []
  have hall : structuresWith cfg n.toNat (nmiPresent cfg) = madtStructures cfg n.toNat :=
    structuresWith_congr fun i hi => nmiPresent_eq_configured hmask hi
  have htable : (madtHeader cfg size ++ (structuresWith cfg n.toNat (nmiPresent cfg)).flatten).length =
      size.toNat := by
    rw [List.length_append, length_madtHeader, hsize]
  refine ⟨_, size, _, hrun, htable.symm, ⟨⟨_, length_madtHeader cfg size, by rw [hall]⟩, ?_, ?_⟩⟩
  · rw [word?_madtHeader, htable]
  · intro s hs
    exact structureLength_of_mem hs

/-- `MadtTableInitialize` gives a well-formed table exactly under `MadtCondition`. -/
theorem madtTableInitialize_wellFormed_iff (asserts : Bool) (pool : Option (BitVec 32)) (cfg : MadtConfigData)
    (n : BitVec 32) : MadtInitialized asserts pool cfg n ↔ MadtCondition asserts pool cfg n :=
  ⟨condition_of_initialized, initialized_of_condition⟩

def firstNmi : MadtConfigData where
  interruptSetting := List.replicate 16 ⟨0, 0, 0, 0, 0⟩
  ioApicSetting := ⟨0xFEC00000, 0, 1, 0, 0, 0, 0⟩
  localApicSetting := ⟨1, 0, 0, 0, 1, 0xFEE00000, 0⟩
  interruptSetting_length := List.length_replicate

/-- With 33 processors the table has an NMI structure too many: the last one has the bit of the first. -/
theorem madtTableInitialize_33_cpus : ¬ MadtInitialized true (some 0x0F000000) firstNmi 33 := by
  intro h
  obtain ⟨-, -, hmask⟩ := condition_of_initialized h
  have hbit := hmask 32 (Nat.le_refl 32) (Nat.lt_succ_self 32)
  simp [firstNmi] at hbit

end Quark.Acpi
