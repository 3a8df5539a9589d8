/-!
# Flash layout

The constants of `FlashMap.h` and `FlashLayout.h`, with the fixed PCDs at the values
`QuarkPlatformPkg.dec` and `QuarkPlatformPkg.fdf` give them.
-/

namespace Quark

abbrev flashBlockSize : Nat := 0x1000

/-! ## Fixed PCDs -/

/-- `PcdFlashFvFixedStage1AreaBase`: the recovery image. -/
abbrev pcdFlashFvFixedStage1AreaBase : Nat := 0xFFF90000
abbrev pcdFlashFvFixedStage1AreaSize : Nat := 0x00040000
abbrev pcdPlatformDataBaseAddress : Nat := 0xFFF10000
abbrev pcdPlatformDataMaxLen : Nat := 0x20000
abbrev pcdFlashNvMfh : Nat := 0xFFF08000
abbrev pcdFlashNvStorageBase : Nat := 0xFFF30000
abbrev pcdFlashNvStorageSize : Nat := 0x20000
abbrev pcdFvSecurityHeaderSize : Nat := 0x400

/-! ## Regions -/

abbrev flashRegionBootromOverrideBaseAddress : Nat := 0xFFFE0000
abbrev flashRegionBootromOverrideMaxSize : Nat := 0x20000
abbrev flashRegionQuarkKeyModuleBaseAddress : Nat := 0xFFFD8000
abbrev flashRegionKeyModuleMaxSize : Nat := 0x8000
abbrev flashRegionSvnBaseAddress : Nat := 0xFFFD0000
abbrev flashRegionPlatformDataBaseAddress : Nat := pcdPlatformDataBaseAddress
abbrev flashRegionPlatformDataMaxSize : Nat := pcdPlatformDataMaxLen
abbrev flashRegionMfhBaseAddress : Nat := pcdFlashNvMfh
abbrev flashRegionMfhMaxSize : Nat := 0x8000
abbrev flashRegionRmuBaseAddress : Nat := 0xFFF00000
abbrev flashRegionRmuMaxSize : Nat := 0x8000
abbrev flashRegionBiosStagesMaxSize : Nat := 0x300000
/-- `FLASH_REGION_RMU_BASE_ADDRESS - 1`. -/
abbrev flashRegionBiosStagesLimitAddress : Nat := 0xFFEFFFFF
/-- `(FLASH_REGION_BIOS_STAGES_LIMIT_ADDRESS - FLASH_REGION_BIOS_STAGES_MAX_SIZE) + 1`. -/
abbrev flashRegionBiosStagesBaseAddress : Nat := 0xFFC00000
abbrev flashRegionOsDefaultBaseAddress : Nat := 0xFF800000
abbrev flashRegionBiosNvStorageBase : Nat := pcdFlashNvStorageBase
abbrev flashRegionBiosNvStorageSize : Nat := pcdFlashNvStorageSize
/-- `FLASH_REGION_BIOS_NV_STORAGE_BASE + FLASH_REGION_BIOS_NV_STORAGE_SIZE`. -/
abbrev flashRegionOemNvStorageBase : Nat := 0xFFF50000
abbrev flashRegionOemNvStorageSize : Nat := 0

end Quark
