import Mathlib.Data.List.FinRange

/-!
# MRC: commands to the DRAM

`dram_init_command` of `meminit.c`. On a board that has the lines of rank 1 connected in another order, the bank
and address bits of a command to that rank are moved to where the platform data says the pins are.
-/

namespace Quark.MemoryInit

/-- The `dram_bit_swap_enables`, `bankSelect` and `addrSelect` of `MRCParams_t`. -/
structure LineSwap where
  dramBitSwapEnables : BitVec 8
  bankSelect : Fin 3 → BitVec 8
  addrSelect : Fin 16 → BitVec 8

/-- One of the two loops: the bits from the one of `bitPos` on go to where the table says. -/
def swapPins {n : Nat} (data bitPos : BitVec 32) (select : Fin n → BitVec 8) (temp : BitVec 32) : BitVec 32 :=
  (List.finRange n).foldl (fun temp count => temp ||| (((data >>> count.val) &&& bitPos) <<< (select count).toNat))
    temp

/-- `dram_init_command`: what is written to `DCMD`. -/
def dramInitCommand (swap : LineSwap) (data : BitVec 32) : BitVec 32 :=
  if swap.dramBitSwapEnables ≠ 0 then
    if data &&& 0x00400000 ≠ 0 then
      let temp := data &&& ~~~0x003FFFF8
      let temp := swapPins data 0x00000008 swap.bankSelect temp
      swapPins data 0x00000040 swap.addrSelect temp
    else data
  else data

end Quark.MemoryInit
