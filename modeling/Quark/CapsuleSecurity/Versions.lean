import Quark.CapsuleSecurity.VersionCheck
import Quark.Library.Proofs.MfhSearchProofs
import Quark.Machine.VersionFloor

/-!
# The versions that a capsule offers

To the version checks a capsule is a list of versions, each offered under a security version number
index. An image is refused for what it is itself, or for a version below the floor that the flash and
the images before it have set.
-/

namespace Quark.CapsuleSecurity

open Machine MfhLib VersionFloor

namespace Context

variable (C : Context)

def Signed (hint : UpdateHint) : Prop :=
  isUnsignedDataArea hint.targetAddr = false ∧
    cshIdentifier C.rd (C.dataToWrite hint) = quarkCshIdentifier

instance (hint : UpdateHint) : Decidable (C.Signed hint) := inferInstanceAs (Decidable (_ ∧ _))

def version (hint : UpdateHint) : Nat × Nat :=
  (securityVersionNumberIndex C.rd (C.dataToWrite hint),
    securityVersionNumber C.rd (C.dataToWrite hint))

/-- What the index of an image, its entry in the MFH and its signature come to, without its version. -/
def hintStatus (hint : UpdateHint) : EfiStatus :=
  let (status, stage3PlusImage) := C.validateSvnIndex hint.targetAddr (C.version hint).1
  if status.isError then status
  else if stage3PlusImage then
    if ∃ item ∈ itemsOf C.rd C.useMfhHeader findAnyFitFilter,
        itemFlashAddress C.rd item = hint.targetAddr then .success
    else .unsupported
  else C.securityAuthenticateImage (u32 (C.dataToWrite hint + pcdFvSecurityHeaderSize))

def versions (hints : List UpdateHint) : List (Nat × Nat) :=
  (hints.filter fun hint => C.Signed hint).map C.version

def HeaderValid : Prop :=
  cshIdentifier C.rd C.signedCapsule = quarkCshIdentifier →
    securityVersionNumberIndex C.rd C.signedCapsule = quarkFixedSvnIndexCapsuleImage

instance : Decidable C.HeaderValid := inferInstanceAs (Decidable (_ → _))

/-- The header and every image pass for themselves: no image has an index that its target does not
allow, is missing in the MFH, fails its authentication or is older than the flash allows. -/
structure EachValid (hints : List UpdateHint) : Prop where
  header : C.HeaderValid
  status : ∀ hint ∈ hints, C.Signed hint → C.hintStatus hint = .success
  notBelow : ∀ hint ∈ hints, C.Signed hint →
    readCurrentSvnArray C.rd (C.version hint).1 ≤ (C.version hint).2

def VersionsAscend (hints : List UpdateHint) : Prop :=
  hints.Pairwise fun a b => C.Signed a → C.Signed b →
    (C.version a).1 = (C.version b).1 → (C.version a).2 ≤ (C.version b).2

def OneVersionPerIndex (hints : List UpdateHint) : Prop :=
  ∀ a ∈ hints, ∀ b ∈ hints, C.Signed a → C.Signed b →
    (C.version a).1 = (C.version b).1 → (C.version a).2 = (C.version b).2

/-- Two hint tables are both accepted or both refused, and accepted ones yield the same array, whatever
the caller has in its buffer. -/
def SameVerdict (hints hints' : List UpdateHint) : Prop :=
  ∀ (σ : Type) (s : σ), ∃ l l', C.versionChecks hints s = .ret l s ∧
    C.versionChecks hints' s = .ret l' s ∧ l.status.isError = l'.status.isError ∧
    (l.status.isError = false → ∀ buffer, l.newSvnArray buffer = l'.newSvnArray buffer)

end Context

end Quark.CapsuleSecurity
