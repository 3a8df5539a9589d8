import Quark.SecureBoot.Proofs.DeleteCertProofs

/-!
# When the walks over a database are safe

The sizes of a list are followed as they are. The walks are safe if each list is as large as its header and its
certificates, which are not empty, up to one that is larger than what is left. Behind the certificates of the last
list there may be less than a certificate.
-/

namespace Quark.SecureBoot.Proofs

open Machine

/-! ## The fields -/

section

variable {content : List Byte} {pos : Nat}

end

/-! ## Deleting a certificate -/

theorem length_filter_le (lists : List EntryList) :
    (listBytes (lists.filter fun list => list.entries ≠ [])).length ≤ (listBytes lists).length := by
  induction lists with
  | nil => exact Nat.le_refl _
  | cons list lists ih =>
    rw [List.filter_cons]
    split
    · rw [length_listBytes_cons, length_listBytes_cons]
      omega
    · rw [length_listBytes_cons]
      omega

end Quark.SecureBoot.Proofs
