import Quark.Base.Efi

/-!
# The geometry of a card

`CaculateCardParameter` of `MMCSDTransfer.c`, and what `MMCSDBlockIoInit` makes of it.
-/

namespace Quark.SdMedia

open Machine Machine.Exec

inductive CardType where
  | unknownCard
  | mmcCard
  | mmcCardHighCap
  | ceataCard
  | sdMemoryCard
  | sdMemoryCard2
  | sdMemoryCard2High
  deriving DecidableEq, Repr

def CardType.isMmc (cardType : CardType) : Prop := cardType = .mmcCard ∨ cardType = .mmcCardHighCap

instance (cardType : CardType) : Decidable cardType.isMmc := by
  unfold CardType.isMmc
  infer_instance

/-- `CSDRegister`, whose bits are seen as `CSD` or as `CSD_SDV2`. -/
abbrev Csd := BitVec 128

namespace Csd

variable (csd : Csd)

def tmpWriteProtect : Nat := (csd.extractLsb' 12 1).toNat

def permWriteProtect : Nat := (csd.extractLsb' 13 1).toNat

def cSizeMult : Nat := (csd.extractLsb' 47 3).toNat

/-- `C_SIZELow2` and `C_SIZEHigh10`. -/
def cSize : Nat := (csd.extractLsb' 62 2).toNat + 4 * (csd.extractLsb' 64 10).toNat

/-- `C_SIZE` of `CSD_SDV2`. -/
def cSizeV2 : Nat := (csd.extractLsb' 48 22).toNat

def readBlLen : Nat := (csd.extractLsb' 80 4).toNat

def tranSpeed : Nat := (csd.extractLsb' 96 8).toNat

def csdStructure : Nat := (csd.extractLsb' 126 2).toNat

end Csd

structure CardParameter where
  maxFrequency : Nat
  blockLen : Nat
  blockNumber : Nat
  deriving DecidableEq, Repr

/-- The first `switch` of `CaculateCardParameter`. -/
def frequencyOf (tranSpeed : Nat) : Option Nat :=
  match tranSpeed % 8 with
  | 0 => some (100 * 1000)
  | 1 => some (1 * 1000 * 1000)
  | 2 => some (10 * 1000 * 1000)
  | 3 => some (100 * 1000 * 1000)
  | _ => none

/-- The second `switch` of `CaculateCardParameter`. -/
def multipleOf (cardType : CardType) (tranSpeed : Nat) : Option Nat :=
  match tranSpeed / 8 % 16 with
  | 1 => some 10
  | 2 => some 12
  | 3 => some 13
  | 4 => some 15
  | 5 => some 20
  | 6 => some (if cardType.isMmc then 26 else 25)
  | 7 => some 30
  | 8 => some 35
  | 9 => some 40
  | 10 => some 45
  | 11 => some (if cardType.isMmc then 52 else 50)
  | 12 => some 55
  | 13 => some 60
  | 14 => some 70
  | 15 => some 80
  | _ => none

/-- The number of blocks of `blockLen` bytes that the CSD register gives. -/
def csdBlockNumber (cardType : CardType) (csd : Csd) (blockLen : Nat) : Nat :=
  if cardType = .sdMemoryCard2High then
    (csd.cSizeV2 + 1) * (512 * 1024) / blockLen
  else
    2 ^ (csd.cSizeMult + 2) * (csd.cSize + 1)

def transferBlocks (maxFrequency blockLen blockNumber : Nat) : CardParameter :=
  if blockLen > 512 then
    { maxFrequency, blockLen := 512, blockNumber := blockNumber * blockLen / 512 }
  else
    { maxFrequency, blockLen, blockNumber }

def caculateCardParameter (enabled : Bool) (cardType : CardType) (csd : Csd) :
    Exec Unit (Except EfiStatus CardParameter) :=
  match frequencyOf csd.tranSpeed, multipleOf cardType csd.tranSpeed with
  | some frequency, some multiple => do
    assert enabled (cardType = .sdMemoryCard2High → csd.csdStructure = 1)
    let blockLen := 2 ^ csd.readBlLen
    pure (.ok (transferBlocks (frequency * multiple % 2 ^ 32 / 10) blockLen
      (csdBlockNumber cardType csd blockLen)))
  | _, _ => pure (.error .invalidParameter)

/-- `CARD_DATA`, with the parameters that `CaculateCardParameter` derives. Blocks fit the boundary up to
which the host transfers at once, and `SDMediaDevice.c` asserts that this is no less than 4 KiB. -/
structure CardData where
  cardType : CardType
  csd : Csd
  parameter : CardParameter
  extCsdCardType : BitVec 8
  boundarySize : Nat
  calculated : ∃ enabled, caculateCardParameter enabled cardType csd () = .ret (.ok parameter) ()
  boundary_ge : 4 * 1024 ≤ boundarySize
  blockLen_dvd : parameter.blockLen ∣ boundarySize

namespace CardData

variable (card : CardData)

def mediaId : BitVec 32 := 0

def blockSize : Nat := card.parameter.blockLen

def lastBlock : Nat := card.parameter.blockNumber - 1

def readOnly : Bool := card.csd.permWriteProtect ≠ 0 ∨ card.csd.tmpWriteProtect ≠ 0

def sectorAddressing : Bool :=
  card.cardType = .sdMemoryCard2High ∨ card.cardType = .mmcCardHighCap

end CardData

end Quark.SdMedia
