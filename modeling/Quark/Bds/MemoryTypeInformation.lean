import Quark.Base.Efi

/-!
# Memory type information

`SetMemoryTypeInformationVariable`: just before an option is booted, the pages that are set aside for
each memory type are compared with the pages that this boot has needed, and the list for the next boot
is saved in a variable.
-/

namespace Quark.Bds

open Machine

/-! ## The lists -/

abbrev efiMaxMemoryType : BitVec 32 := 14

end Quark.Bds
