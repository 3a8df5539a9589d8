import Quark.Fvb.BlockService
import Quark.Fvb.Proofs.BlockMapProofs
import Quark.Spi.Proofs.FlashProofs

/-!
# A volume in the part

The flash area is the BIOS region of the part, and a volume of the area is read and written at the same
addresses. Byte `x` of the volume is byte `v.chipBase env + x` of the part.
-/

namespace Quark.Fvb

open Machine Machine.Exec
open Spi (Host Exchange Cycle eraseSectorSize)

def FvbEnv.polled (env : FvbEnv) (spis : Nat → BitVec 16) : FvbEnv :=
  { env with spi := { env.spi with spis := spis } }

structure Placed (env : FvbEnv) (v : Volume) : Prop where
  flash : env.spi.Flash
  /-- The parts of the table have up to 8 MB. -/
  part : env.spi.flashSize ≤ 0x800000
  area : env.pcdFlashAreaBaseAddress.toNat = env.spi.window + env.spi.initTable.biosStartOffset.toNat
  write : v.fvWriteBase = v.fvBase
  above : env.pcdFlashAreaBaseAddress.toNat ≤ v.fvBase.toNat
  below : v.fvBase.toNat + v.blocks.sum ≤ 2 ^ 32
  count : v.numOfBlocks.toNat = v.blocks.length

def Volume.chipBase (v : Volume) (env : FvbEnv) : Nat := v.fvBase.toNat - env.spi.window

def Volume.InBlock (v : Volume) (lba : BitVec 64) (a : BitVec 32) : Prop :=
  ∃ n o, v.blocks[lba.toNat]? = some n ∧ o < n ∧
    a = v.fvBase + BitVec.ofNat 32 (v.start lba.toNat + o)

variable {env : FvbEnv} {v : Volume}

theorem Placed.polled (hp : Placed env v) (spis : Nat → BitVec 16) : Placed (env.polled spis) v where
  flash := hp.flash.polled spis
  part := hp.part
  area := hp.area
  write := hp.write
  above := hp.above
  below := hp.below
  count := hp.count

theorem completes_idle (env : FvbEnv) : (env.polled fun _ => 0).spi.Completes :=
  fun _ => ⟨0, by decide, fun _ hi => absurd hi (Nat.not_lt_zero _), BitVec.zero_and⟩

theorem Placed.bounds (hp : Placed env v) :
    v.fvBase.toNat = env.spi.window + v.chipBase env ∧ env.spi.window = 2 ^ 32 - env.spi.flashSize ∧
      v.chipBase env + v.blocks.sum ≤ env.spi.flashSize := by
  have hwindow : env.spi.window = 2 ^ 32 - env.spi.flashSize := rfl
  have hbase : v.chipBase env = v.fvBase.toNat - env.spi.window := rfl
  have := hp.part
  have := hp.area
  have := hp.above
  have := hp.below
  omega

theorem Placed.sum_lt (hp : Placed env v) : v.blocks.sum < 2 ^ 32 := by
  have := hp.bounds.2.2
  have := hp.part
  omega

theorem Placed.linear (hp : Placed env v) {x : Nat} (hx : x ≤ v.blocks.sum) :
    env.spi.linear (v.fvWriteBase + BitVec.ofNat 32 x - env.pcdFlashAreaBaseAddress) =
      v.chipBase env + x := by
  obtain ⟨hbase, hwindow, hend⟩ := hp.bounds
  have hpart := hp.part
  have harea := hp.area
  have habove := hp.above
  rw [hp.write]
  show (v.fvBase + BitVec.ofNat 32 x - env.pcdFlashAreaBaseAddress +
    env.spi.initTable.biosStartOffset).toNat = _
  generalize env.spi.window = window at *
  generalize v.chipBase env = base at *
  generalize v.blocks.sum = sum at *
  generalize env.spi.flashSize = size at *
  generalize env.spi.initTable.biosStartOffset = start at *
  generalize env.pcdFlashAreaBaseAddress = area at *
  generalize v.fvBase = fv at *
  bv_omega

theorem Placed.inBlock_iff (hp : Placed env v) {lba : BitVec 64} {n x : Nat}
    (hn : v.blocks[lba.toNat]? = some n) (hx : x < 2 ^ 24) :
    v.InBlock lba (BitVec.ofNat 32 (env.spi.window + x)) ↔
      v.chipBase env + v.start lba.toNat ≤ x ∧ x < v.chipBase env + v.start lba.toNat + n := by
  obtain ⟨hbase, hwindow, hend⟩ := hp.bounds
  have hpart := hp.part
  have hle : v.start lba.toNat + n ≤ v.blocks.sum := Layout.start_add_le hn
  have hmemory : ∀ o < n, BitVec.ofNat 32 (env.spi.window + x) =
      v.fvBase + BitVec.ofNat 32 (v.start lba.toNat + o) ↔ x = v.chipBase env + v.start lba.toNat + o := by
    intro o ho
    generalize env.spi.window = window at *
    generalize v.chipBase env = base at *
    generalize v.start lba.toNat = start at *
    generalize env.spi.flashSize = size at *
    generalize v.fvBase = fv at *
    constructor
    · intro heq
      have heq := congrArg BitVec.toNat heq
      rw [BitVec.toNat_ofNat, BitVec.toNat_add, BitVec.toNat_ofNat] at heq
      omega
    · rintro rfl
      apply BitVec.eq_of_toNat_eq
      rw [BitVec.toNat_ofNat, BitVec.toNat_add, BitVec.toNat_ofNat]
      omega
  constructor
  · rintro ⟨n', o, hn', ho, heq⟩
    cases hn.symm.trans hn'
    have := (hmemory o ho).mp heq
    omega
  · rintro ⟨hlo, hhi⟩
    exact ⟨n, x - (v.chipBase env + v.start lba.toNat), hn, by omega, (hmemory _ (by omega)).mpr (by omega)⟩

/-! ## A volume of two sectors -/

def readyFvb : FvbEnv := ⟨Spi.readyEnv 0x800000 0x800000 0, 0xFF800000, 0⟩

def twoSectors : Volume := ⟨0xFF900000, 0xFF900000, 2, true, 0x36, [⟨2, 0x1000⟩]⟩

theorem blocks_twoSectors : twoSectors.blocks = [0x1000, 0x1000] := by decide

theorem placed_twoSectors : Placed readyFvb twoSectors where
  flash := ⟨⟨rfl, by decide, by decide⟩, rfl, rfl, rfl, rfl, rfl, rfl⟩
  part := by decide
  area := by decide
  write := rfl
  above := by decide
  below := by rw [blocks_twoSectors]; decide
  count := by rw [blocks_twoSectors]; rfl

end Quark.Fvb
