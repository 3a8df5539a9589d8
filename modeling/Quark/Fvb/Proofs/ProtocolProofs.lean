import Mathlib.Data.List.TakeWhile
import Quark.Fvb.Proofs.RangeProofs

/-!
# The protocol of a volume

To its callers a volume is its attributes and its bytes: blocks are erased as a whole, and writing can only clear
bits. Any sequence of calls of the protocol answers, and leaves, what it does on them.
-/

namespace Quark.Fvb

open Machine Machine.Exec
open Spi (Host eraseSectorSize)

/-! ## What the calls mean -/

variable {env : FvbEnv} {v : Volume} {before bytes : ByteStore} {h : Host}

/-- The checks of a read or a write: the length of the block. -/
def checked (v : Volume) (status : BitVec 32) (lba : BitVec 64) (offset numBytes : BitVec 32) :
    Except EfiStatus Nat :=
  if numBytes = 0 then .error .invalidParameter
  else match v.blocks[lba.toNat]? with
    | none => .error .invalidParameter
    | some len =>
      if v.attributes &&& status = 0 then .error .accessDenied
      else if len < offset.toNat then .error .invalidParameter
      else .ok len

def moved (len : Nat) (offset numBytes : BitVec 32) : Nat := min numBytes.toNat (len - offset.toNat)

def movedStatus (len : Nat) (offset numBytes : BitVec 32) : EfiStatus :=
  if len < numBytes.toNat + offset.toNat then .badBufferSize else .success

/-- The position is in one of the listed blocks. -/
def InListed (v : Volume) (pairs : List (BitVec 64 × BitVec 32)) (x : Nat) : Prop :=
  ∃ p ∈ pairs, ∃ k ∈ List.range' p.1.toNat p.2.toNat, ∃ n ∈ v.blocks[k]?, v.start k ≤ x ∧ x < v.start k + n

instance (p : BitVec 64 × BitVec 32) : Decidable (Missing v p) := inferInstanceAs (Decidable (_ ∧ _))

instance (p : BitVec 64 × BitVec 32) : Decidable (Rejected v p) := inferInstanceAs (Decidable (_ ∨ _))

instance : Decidable v.Writable := inferInstanceAs (Decidable (_ ∧ _))

instance (pairs : List (BitVec 64 × BitVec 32)) (x : Nat) : Decidable (InListed v pairs x) :=
  inferInstanceAs (Decidable (∃ p ∈ pairs, ∃ k ∈ List.range' p.1.toNat p.2.toNat, ∃ n ∈ v.blocks[k]?, _ ∧ _))

/-- What is erased of listed blocks: those before the first pair that names a block that does not exist. -/
def eraseMeaning (v : Volume) (pairs : List (BitVec 64 × BitVec 32)) (bytes : ByteStore) :
    EfiStatus × ByteStore :=
  if ∃ p ∈ pairs, Rejected v p then (.invalidParameter, bytes)
  else if pairs = [] then (.success, bytes)
  else if ¬ v.Writable then (.accessDenied, bytes)
  else (if ∃ p ∈ pairs, Missing v p then .invalidParameter else .success, fun x =>
    if InListed v (pairs.takeWhile fun p => ¬ Missing v p) x then ByteStore.erased else bytes x)

/-- What a call answers, and what it leaves of the volume and of its bytes. -/
def Request.meaning (v : Volume) (bytes : ByteStore) : Request → (Answer × Volume) × ByteStore
  | .getPhysicalAddress => (({ status := .success, stored := [v.fvBase] }, v), bytes)
  | .getBlockSize lba => ((fvbProtocolGetBlockSize v lba, v), bytes)
  | .getAttributes => (({ status := .success, stored := [v.attributes] }, v), bytes)
  | .setAttributes attributes => (fvbProtocolSetAttributes v attributes, bytes)
  | .eraseBlocks args => (({ status := (eraseMeaning v (named args) bytes).1 }, v),
      (eraseMeaning v (named args) bytes).2)
  | .write lba offset numBytes buffer =>
    if v.writeEnabled = false then ((⟨.accessDenied, [numBytes], buffer⟩, v), bytes)
    else match checked v Attr.writeStatus lba offset numBytes with
      | .error status => ((⟨status, [numBytes], buffer⟩, v), bytes)
      | .ok len =>
        ((⟨movedStatus len offset numBytes, [BitVec.ofNat 32 (moved len offset numBytes)], buffer⟩, v),
          bytes.program (v.start lba.toNat + offset.toNat) (buffer.take (moved len offset numBytes)))
  | .read lba offset numBytes buffer =>
    match checked v Attr.readStatus lba offset numBytes with
    | .error status => ((⟨status, [numBytes], buffer⟩, v), bytes)
    | .ok len =>
      ((⟨movedStatus len offset numBytes, [BitVec.ofNat 32 (moved len offset numBytes)],
        bytes.read (v.start lba.toNat + offset.toNat) (moved len offset numBytes) ++
          buffer.drop (moved len offset numBytes)⟩, v), bytes)

def meanings : Volume → ByteStore → List Request → (List Answer × Volume) × ByteStore
  | v, bytes, [] => (([], v), bytes)
  | v, bytes, request :: requests =>
    let r := request.meaning v bytes
    let rs := meanings r.1.2 r.2 requests
    ((r.1.1 :: rs.1.1, rs.1.2), rs.2)

/-- In an existing block a transfer ends at a 32-bit offset, and the buffer has room. A write starts before the
end of the block. -/
def Request.Inside (v : Volume) : Request → Prop
  | .read lba offset numBytes buffer => ∀ len ∈ v.blocks[lba.toNat]?, offset.toNat ≤ len →
      numBytes.toNat + offset.toNat < 2 ^ 32 ∧ moved len offset numBytes ≤ buffer.length
  | .write lba offset numBytes buffer => ∀ len ∈ v.blocks[lba.toNat]?, offset.toNat ≤ len →
      numBytes.toNat + offset.toNat < 2 ^ 32 ∧ moved len offset numBytes ≤ buffer.length ∧ offset.toNat < len
  | _ => True

/-- The bytes of the volume are `bytes`, and all others are those of `before`. -/
structure Holding (env : FvbEnv) (v : Volume) (before : ByteStore) (h : Host) (bytes : ByteStore) : Prop where
  inside : ∀ x < v.blocks.sum, h.chip (v.chipBase env + x) = bytes x
  outside : ∀ a, a < v.chipBase env ∨ v.chipBase env + v.blocks.sum ≤ a → h.chip a = before a

/-- The call returns, with the answer and the bytes that it means. -/
def Meant (env : FvbEnv) (v : Volume) (before bytes : ByteStore) (h : Host) (request : Request) : Prop :=
  wp (serveRequest env v request) (fun r t => r = (request.meaning v bytes).1 ∧
    Holding env v before t (request.meaning v bytes).2) (fun _ _ => False) h

/-! ## Reads and writes -/

section Block

variable {lba : BitVec 64} {offset numBytes : BitVec 32} {len : Nat}

theorem served_of_checked {status : BitVec 32} (hok : checked v status lba offset numBytes = .ok len) :
    Served v status lba offset numBytes len := by
  unfold checked at hok
  split at hok
  · cases hok
  · rename_i hbytes
    split at hok
    · cases hok
    · rename_i len' hlen
      split at hok
      · cases hok
      · rename_i henabled
        split at hok
        · cases hok
        · rename_i hinside
          cases hok
          exact ⟨hbytes, hlen, henabled, Nat.le_of_not_lt hinside⟩

/-- The checks that a read and a write of the code share, with what follows them. -/
theorem checks_eq (hsize : v.blocks.sum < 2 ^ 32) (status : BitVec 32) {α : Type} (reject : EfiStatus → α)
    (serve : LbaInfo → α) :
    (if numBytes = 0 then reject .invalidParameter
      else match fvbGetLbaAddress v lba with
        | .error st => reject st
        | .ok info =>
          if v.attributes &&& status = 0 then reject .accessDenied
          else if info.lbaLength < offset then reject .invalidParameter
          else serve info) =
      match checked v status lba offset numBytes with
        | .error st => reject st
        | .ok len => serve (lbaInfoAt v v.blockMap 0 lba.toNat len) := by
  unfold checked
  by_cases hzero : numBytes = 0
  · simp [hzero]
  cases hlen : v.blocks[lba.toNat]? with
  | none => simp [fvbGetLbaAddress_of_none hsize hlen]
  | some len =>
    have hlt : (lbaInfoAt v v.blockMap 0 lba.toNat len).lbaLength < offset ↔ len < offset.toNat := by
      show BitVec.ofNat 32 len < offset ↔ _
      rw [BitVec.lt_def, toNat_lbaLength hsize hlen]
    simp only [if_neg hzero, fvbGetLbaAddress_of_block hsize hlen, hlt]
    by_cases henabled : v.attributes &&& status = 0
    · simp only [if_pos henabled]
    · simp only [if_neg henabled]
      by_cases hbehind : len < offset.toNat
      · simp only [if_pos hbehind]
      · simp only [if_neg hbehind]

theorem movedStatus_eq (hsize : v.blocks.sum < 2 ^ 32) (hlen : v.blocks[lba.toNat]? = some len)
    (hsum : numBytes.toNat + offset.toNat < 2 ^ 32) :
    boundaryStatus (BitVec.ofNat 32 len) numBytes offset = movedStatus len offset numBytes := by
  unfold boundaryStatus movedStatus
  refine if_congr ?_ rfl rfl
  rw [cut_iff _ hsum, toNat_lbaLength hsize hlen]

theorem toNat_moved (hsize : v.blocks.sum < 2 ^ 32) (hlen : v.blocks[lba.toNat]? = some len)
    (hsum : numBytes.toNat + offset.toNat < 2 ^ 32) (hle : offset.toNat ≤ len) :
    (adjusted (BitVec.ofNat 32 len) numBytes offset).toNat = moved len offset numBytes := by
  have hlength := toNat_lbaLength hsize hlen
  rw [toNat_adjusted _ hsum (by omega), hlength]
  rfl

theorem Holding.read (hh : Holding env v before h bytes) (hp : Placed env v) {pos n : Nat}
    (hend : pos + n ≤ v.blocks.sum) (a : BitVec 32) (ha : a = v.fvBase + BitVec.ofNat 32 pos) :
    (List.range n).map (fun i => Spi.memoryAt env.spi h (a + BitVec.ofNat 32 i)) = bytes.read pos n := by
  apply List.map_congr_left
  intro i hi
  have hlt := List.mem_range.mp hi
  rw [ha, BitVec.add_assoc, ← BitVec.ofNat_add, hp.memoryAt (by omega)]
  exact hh.inside _ (by omega)

theorem meant_read (hp : Placed env v) {buffer : List Byte}
    (hin : (Request.read lba offset numBytes buffer).Inside v) (hh : Holding env v before h bytes) :
    Meant env v before bytes h (.read lba offset numBytes buffer) := by
  simp only [Meant, serveRequest, Request.meaning]
  rw [wp_bind]
  cases hchecked : checked v Attr.readStatus lba offset numBytes with
  | error status =>
    have hrejected : fvbReadBlock env v lba offset numBytes buffer = pure (status, numBytes, buffer) := by
      refine (checks_eq hp.sum_lt Attr.readStatus (fun st => pure (st, numBytes, buffer)) _).trans ?_
      rw [hchecked]
    rw [hrejected]
    exact ⟨rfl, hh⟩
  | ok len =>
    have hserved := served_of_checked hchecked
    obtain ⟨hsum, hbuffer⟩ := hin len hserved.block hserved.inside
    have hmoved := toNat_moved hp.sum_lt hserved.block hsum hserved.inside
    have hend : v.start lba.toNat + len ≤ v.blocks.sum := Layout.start_add_le hserved.block
    have hle : moved len offset numBytes ≤ len - offset.toNat := Nat.min_le_right _ _
    have hbounds := hp.below
    have hread : v.start lba.toNat + offset.toNat + moved len offset numBytes ≤ v.blocks.sum := by
      have := hserved.inside
      omega
    dsimp only
    refine wp_mono (wp_fvbReadBlock env hp.sum_lt hserved rfl rfl buffer h) ?_ ?_
    · rintro r t ⟨rfl, rfl⟩
      refine ⟨?_, hh.inside, hh.outside⟩
      rw [movedStatus_eq hp.sum_lt hserved.block hsum, hmoved,
        hh.read hp hread _ rfl, ← hmoved,
        BitVec.ofNat_toNat, BitVec.setWidth_eq]
    · intro _ _ hfail
      have haddr : (v.fvBase + BitVec.ofNat 32 (v.start lba.toNat + offset.toNat)).toNat ≤
          v.fvBase.toNat + (v.start lba.toNat + offset.toNat) := by
        rw [BitVec.toNat_add, BitVec.toNat_ofNat]
        exact (Nat.mod_le _ _).trans (Nat.add_le_add_left (Nat.mod_le _ _) _)
      rw [hmoved] at hfail
      omega

theorem meant_write (hp : Placed env v) (hready : env.spi.Completes) {buffer : List Byte}
    (hin : (Request.write lba offset numBytes buffer).Inside v) (hh : Holding env v before h bytes) :
    Meant env v before bytes h (.write lba offset numBytes buffer) := by
  simp only [Meant, serveRequest, Request.meaning]
  rw [wp_bind]
  by_cases hwrite : v.writeEnabled = false
  · rw [fvbWriteBlock, if_pos hwrite, if_pos hwrite]
    exact ⟨rfl, hh⟩
  rw [if_neg hwrite]
  cases hchecked : checked v Attr.writeStatus lba offset numBytes with
  | error status =>
    have hrejected : fvbWriteBlock env v lba offset numBytes buffer = pure (status, numBytes) := by
      refine (if_neg hwrite).trans ?_
      refine (checks_eq hp.sum_lt Attr.writeStatus (fun st => pure (st, numBytes)) _).trans ?_
      rw [hchecked]
    rw [hrejected]
    exact ⟨rfl, hh⟩
  | ok len =>
    have hserved := served_of_checked hchecked
    obtain ⟨hsum, hbuffer, hlt⟩ := hin len hserved.block hserved.inside
    have hmoved := toNat_moved hp.sum_lt hserved.block hsum hserved.inside
    have hend : v.start lba.toNat + len ≤ v.blocks.sum := Layout.start_add_le hserved.block
    have hle : moved len offset numBytes ≤ len - offset.toNat := Nat.min_le_right _ _
    dsimp only
    refine wp_mono (wp_write_inside hp (Bool.eq_true_of_not_eq_false hwrite) hserved hsum hlt rfl buffer
      (hmoved.trans_le hbuffer) h) ?_ fun _ _ hf => hf
    rintro ⟨status, n⟩ t ⟨rfl, st, es, hw, rfl⟩
    rcases hw.outcome with ⟨rfl, -, hchip⟩ | ⟨-, hno⟩
    swap
    · exact absurd hready hno
    rw [hmoved] at hchip
    have htake : (buffer.take (moved len offset numBytes)).length = moved len offset numBytes := by
      rw [List.length_take, Nat.min_eq_left hbuffer]
    refine ⟨?_, fun x hx => ?_, fun a ha => ?_⟩
    · show (Answer.mk (boundaryStatus _ _ _) [adjusted _ _ _] buffer, v) = _
      rw [movedStatus_eq hp.sum_lt hserved.block hsum, ← hmoved, BitVec.ofNat_toNat, BitVec.setWidth_eq]
    · rw [hchip]
      unfold ByteStore.program
      rw [Nat.add_assoc, Nat.add_sub_add_left, hh.inside x hx]
      exact if_congr (by omega) rfl rfl
    · rw [hchip]
      rcases ha with hbelow | habove
      · rw [ByteStore.program_of_lt (by omega), hh.outside a (.inl hbelow)]
      · rw [ByteStore.program_of_ge (by omega), hh.outside a (.inr habove)]

end Block

/-! ## Erasures -/

theorem listed_iff (pairs : List (BitVec 64 × BitVec 32)) (x : Nat) :
    Listed env v pairs (v.chipBase env + x) ↔ InListed v pairs x := by
  constructor
  · rintro ⟨p, hp, k, n, hlow, hhigh, hn, hstart, hend⟩
    exact ⟨p, hp, k, List.mem_range'_1.mpr ⟨hlow, hhigh⟩, n, hn, by omega, by omega⟩
  · rintro ⟨p, hp, k, hk, n, hn, hstart, hend⟩
    have hrange := List.mem_range'_1.mp hk
    exact ⟨p, hp, k, n, hrange.1, hrange.2, hn, by omega, by omega⟩

theorem Holding.erased (hh : Holding env v before h bytes) (hs : Sectored env v)
    {pairs : List (BitVec 64 × BitVec 32)} {t : Host}
    (hchip : t.chip = h.chip.eraseSectors eraseSectorSize (v.sectorsOf env pairs)) :
    Holding env v before t fun x => if InListed v pairs x then ByteStore.erased else bytes x where
  inside x hx := by
    rw [hchip]
    unfold ByteStore.eraseSectors
    rw [hh.inside x hx]
    exact if_congr ((hs.listed pairs _).trans (listed_iff pairs x)) rfl rfl
  outside a ha := by
    rw [hchip, ← hh.outside a ha]
    refine if_neg fun hmem => ?_
    obtain ⟨p, -, k, n, -, -, hn, hstart, hend⟩ := (hs.listed pairs a).mp hmem
    have hblock : v.start k + n ≤ v.blocks.sum := Layout.start_add_le hn
    omega

theorem SectorsErased.ready {sectors : List Nat} {t : Host} {st : EfiStatus}
    (he : SectorsErased env sectors h st t) (hready : env.spi.Completes) :
    st = .success ∧ t.chip = h.chip.eraseSectors eraseSectorSize sectors := by
  rcases he with ⟨-, hno, -⟩ | ⟨hst, hchip, -⟩
  · exact absurd hready hno
  · exact ⟨hst, hchip⟩

theorem meant_eraseBlocks (hp : Placed env v) (hs : Sectored env v) (hready : env.spi.Completes)
    (args : List (BitVec 64 × BitVec 32)) (hh : Holding env v before h bytes) :
    Meant env v before bytes h (.eraseBlocks args) := by
  simp only [Meant, serveRequest, Request.meaning, eraseMeaning]
  rw [wp_bind]
  by_cases hrejected : ∃ p ∈ named args, Rejected v p
  · rw [fvbProtocolEraseBlocks_rejected hp hrejected]
    simp only [if_pos hrejected]
    exact ⟨rfl, hh⟩
  have hscanned : ∀ p ∈ named args, ¬ Rejected v p := fun p hp hr => hrejected ⟨p, hp, hr⟩
  rw [fvbProtocolEraseBlocks_scanned hp hscanned]
  by_cases hnil : named args = []
  · rw [eraseListed_of_nil hnil]
    simp only [if_neg hrejected, if_pos hnil]
    exact ⟨rfl, hh⟩
  by_cases hwrite : v.Writable
  swap
  · rw [eraseListed_of_not_writable hwrite hnil hscanned]
    simp only [if_neg hrejected, if_neg hnil, if_pos hwrite]
    exact ⟨rfl, hh⟩
  simp only [if_neg hrejected, if_neg hnil, if_neg (not_not.mpr hwrite)]
  by_cases hmissing : ∃ p ∈ named args, Missing v p
  · obtain ⟨first, p, after, hnamed, hfirst, hgone⟩ := exists_first_missing hmissing
    have hbefore : (named args).takeWhile (fun q => ¬ Missing v q) = first := by
      rw [hnamed, List.takeWhile_append_of_pos (by simpa using hfirst),
        List.takeWhile_cons_of_neg (by simpa using hgone), List.append_nil]
    refine wp_mono (wp_eraseListed_missing hp hwrite hgone (hscanned p (by simp [hnamed])) first args h hnamed
      hfirst) ?_ fun _ _ hf => hf
    rintro st t ⟨st', he, rfl⟩
    obtain ⟨rfl, hchip⟩ := he.ready hready
    rw [if_pos rfl, if_pos hmissing, hbefore]
    exact ⟨rfl, hh.erased hs hchip⟩
  · have hpresent : ∀ p ∈ named args, ¬ Missing v p := fun p hp hm => hmissing ⟨p, hp, hm⟩
    have hall : (named args).takeWhile (fun q => ¬ Missing v q) = named args :=
      List.takeWhile_eq_self_iff.mpr (by simpa using hpresent)
    refine wp_mono (wp_eraseListed hp (named args) args h rfl (fun _ => hwrite) hpresent) ?_ fun _ _ hf => hf
    intro st t he
    obtain ⟨rfl, hchip⟩ := he.ready hready
    rw [if_neg hmissing, hall]
    exact ⟨rfl, hh.erased hs hchip⟩

/-! ## Runs -/

theorem meant_of_ready (hp : Placed env v) (hs : Sectored env v) (hready : env.spi.Completes) {request : Request}
    (hin : request.Inside v) (hh : Holding env v before h bytes) :
    Meant env v before bytes h request := by
  cases request with
  | eraseBlocks args => exact meant_eraseBlocks hp hs hready args hh
  | write lba offset numBytes buffer => exact meant_write hp hready hin hh
  | read lba offset numBytes buffer => exact meant_read hp hin hh
  | _ => exact ⟨rfl, hh⟩

theorem meaning_volume (request : Request) (v : Volume) (bytes : ByteStore) :
    ∃ a, (request.meaning v bytes).1.2 = { v with attributes := a } := by
  cases request with
  | setAttributes attributes => exact ⟨_, rfl⟩
  | write lba offset numBytes buffer =>
    refine ⟨v.attributes, ?_⟩
    simp only [Request.meaning]
    split
    · rfl
    · split <;> rfl
  | read lba offset numBytes buffer =>
    refine ⟨v.attributes, ?_⟩
    simp only [Request.meaning]
    split <;> rfl
  | _ => exact ⟨v.attributes, rfl⟩

section Attributes

variable (a : BitVec 32)

theorem Placed.withAttributes (hp : Placed env v) : Placed env { v with attributes := a } :=
  ⟨hp.flash, hp.part, hp.area, hp.write, hp.above, hp.below, hp.count⟩

theorem Sectored.withAttributes (hs : Sectored env v) : Sectored env { v with attributes := a } :=
  ⟨hs.base, hs.blocks⟩

theorem inside_withAttributes {request : Request} (hin : request.Inside v) :
    request.Inside { v with attributes := a } := by
  cases request with
  | _ => exact hin

end Attributes

theorem wp_serveRequests (hready : env.spi.Completes) {requests : List Request} : ∀ {v : Volume} {h : Host}
    {bytes : ByteStore}, Placed env v → Sectored env v → (∀ r ∈ requests, r.Inside v) →
    Holding env v before h bytes →
    wp (serveRequests env v requests) (fun rs t => rs = (meanings v bytes requests).1 ∧
      Holding env v before t (meanings v bytes requests).2) (fun _ _ => False) h := by
  induction requests with
  | nil => exact fun _ _ _ hh => ⟨rfl, hh⟩
  | cons request requests ih =>
    intro v h bytes hp hs hin hh
    show wp (serveRequest env v request >>= _) _ _ h
    rw [wp_bind]
    refine wp_mono (meant_of_ready hp hs hready (hin _ List.mem_cons_self) hh) ?_ fun _ _ hf => hf
    rintro r t ⟨rfl, ht⟩
    obtain ⟨a, ha⟩ := meaning_volume request v bytes
    simp only [meanings]
    rw [wp_bind, ha]
    refine wp_mono (ih (hp.withAttributes a) (hs.withAttributes a)
      (fun r hr => inside_withAttributes a (hin r (List.mem_cons_of_mem _ hr))) ⟨ht.inside, ht.outside⟩) ?_
      fun _ _ hf => hf
    rintro rs u ⟨rfl, hu⟩
    exact ⟨rfl, hu.inside, hu.outside⟩

def contents (env : FvbEnv) (v : Volume) (h : Host) : ByteStore := fun x => h.chip (v.chipBase env + x)

/-- On a part that completes its cycles any sequence of calls answers what it answers on the attributes and the
bytes of the volume, leaves what it leaves of them, and leaves the rest of the part alone. -/
theorem serveRequests_refines (hp : Placed env v) (hs : Sectored env v) (hready : env.spi.Completes)
    {requests : List Request} (hin : ∀ r ∈ requests, r.Inside v) (h : Host) :
    ∃ t, serveRequests env v requests h = .ret (meanings v (contents env v h) requests).1 t ∧
      (∀ x < v.blocks.sum, contents env v t x = (meanings v (contents env v h) requests).2 x) ∧
      ∀ a, a < v.chipBase env ∨ v.chipBase env + v.blocks.sum ≤ a → t.chip a = h.chip a := by
  have hstart : Holding env v h.chip h (contents env v h) := ⟨fun _ _ => rfl, fun _ _ => rfl⟩
  obtain ⟨rs, t, hrun, rfl, ht⟩ := returns_of_wp (wp_serveRequests hready hp hs hin hstart)
  exact ⟨t, hrun, ht.inside, ht.outside⟩

/-- Two bytes are written and read back. The volume cannot be disabled for writes. -/
theorem serveRequests_refines_readBack :
    ∃ t, serveRequests readyFvb twoSectors [.write 1 0x10 2 [0x12, 0x34], .setAttributes 0x04,
        .read 1 0x10 2 [0, 0]] (Spi.hostWith fun _ => 0xFF) =
      .ret ([⟨.success, [2], [0x12, 0x34]⟩, ⟨.invalidParameter, [0x04], []⟩, ⟨.success, [2], [0x12, 0x34]⟩],
        twoSectors) t := by
  have hin : ∀ r ∈ [Request.write 1 0x10 2 [0x12, 0x34], .setAttributes 0x04, .read 1 0x10 2 [0, 0]],
      r.Inside twoSectors := by
    intro r hr
    simp only [List.mem_cons, List.not_mem_nil, or_false] at hr
    rcases hr with rfl | rfl | rfl
    · intro len hlen _
      rw [blocks_twoSectors] at hlen
      cases hlen
      decide
    · trivial
    · intro len hlen _
      rw [blocks_twoSectors] at hlen
      cases hlen
      decide
  obtain ⟨t, hrun, -, -⟩ := serveRequests_refines placed_twoSectors sectored_twoSectors
    (Spi.readyEnv_completes 0x800000 0x800000 0) hin (Spi.hostWith fun _ => 0xFF)
  exact ⟨t, hrun⟩

/-! ## Locked volumes -/

theorem fvbWriteBlock_of_disabled (env : FvbEnv) (hdisabled : v.attributes &&& Attr.writeStatus = 0) (lba : BitVec 64)
    (offset numBytes : BitVec 32) (buffer : List Byte) :
    ∃ r, fvbWriteBlock env v lba offset numBytes buffer = pure r := by
  simp only [fvbWriteBlock, if_pos hdisabled]
  repeat' split
  all_goals exact ⟨_, rfl⟩

theorem eraseListed_of_disabled (hwrite : ¬ v.Writable) (args : List (BitVec 64 × BitVec 32)) :
    ∃ st, eraseListed env v args = pure st := by
  induction args with
  | nil => exact ⟨_, rfl⟩
  | cons p args ih =>
    unfold eraseListed
    split
    · exact ⟨_, rfl⟩
    cases p.2.toNat with
    | zero => exact ih
    | succ n =>
      rw [eraseLbas, fvbEraseBlock_of_not_writable hwrite]
      exact ⟨_, rfl⟩

theorem wp_read_chip (lba : BitVec 64) (offset numBytes : BitVec 32) (buffer : List Byte) :
    wp (fvbReadBlock env v lba offset numBytes buffer) (fun _ t => t.chip = h.chip) (fun _ t => t.chip = h.chip)
      h := by
  unfold fvbReadBlock
  rw [wp_ite]
  refine ⟨fun _ => rfl, fun _ => ?_⟩
  split
  · rfl
  rw [wp_ite]
  refine ⟨fun _ => rfl, fun _ => ?_⟩
  rw [wp_ite]
  refine ⟨fun _ => rfl, fun _ => ?_⟩
  rw [wp_bind, mmioReadBuffer8, wp_bind, wp_assert]
  refine ⟨fun _ => ?_, fun _ => rfl⟩
  rw [Spi.copyMem, wp_bind, wp_get, wp_bind, wp_when]
  exact ⟨fun _ => rfl, fun _ => rfl⟩

section Locked

variable (env : FvbEnv) (hlock : v.attributes &&& Attr.lockStatus ≠ 0)
  (hdisabled : v.attributes &&& Attr.writeStatus = 0)
include hlock hdisabled

theorem wp_serveRequest_locked (request : Request) (h : Host) :
    wp (serveRequest env v request) (fun r t => r.2 = v ∧ t.chip = h.chip) (fun _ t => t.chip = h.chip) h := by
  have hwrite : ¬ v.Writable := fun hw => hw.2 hdisabled
  cases request with
  | setAttributes attributes =>
    refine ⟨?_, rfl⟩
    show { v with attributes := afterRequest v.attributes attributes } = v
    rw [(follows_afterRequest v.attributes attributes).locked hlock]
  | eraseBlocks args =>
    have hpure : ∃ st, fvbProtocolEraseBlocks env v args = pure st := by
      unfold fvbProtocolEraseBlocks
      split
      · exact eraseListed_of_disabled hwrite args
      · exact ⟨_, rfl⟩
    obtain ⟨st, hst⟩ := hpure
    simp only [serveRequest]
    rw [hst]
    exact ⟨rfl, rfl⟩
  | write lba offset numBytes buffer =>
    obtain ⟨r, hr⟩ := fvbWriteBlock_of_disabled env hdisabled lba offset numBytes buffer
    simp only [serveRequest]
    rw [hr]
    exact ⟨rfl, rfl⟩
  | read lba offset numBytes buffer =>
    simp only [serveRequest]
    rw [wp_bind]
    exact wp_mono (wp_read_chip lba offset numBytes buffer) (fun _ _ ht => ⟨rfl, ht⟩) fun _ _ ht => ht
  | _ => exact ⟨rfl, rfl⟩

/-- Once a volume is locked with writes disabled, no sequence of calls changes its attributes or the part, whatever
the controller does. -/
theorem serveRequests_locked (requests : List Request) (h : Host) :
    wp (serveRequests env v requests) (fun rs t => rs.2 = v ∧ t.chip = h.chip) (fun _ t => t.chip = h.chip)
      h := by
  induction requests generalizing h with
  | nil => exact ⟨rfl, rfl⟩
  | cons request requests ih =>
    show wp (serveRequest env v request >>= _) _ _ h
    rw [wp_bind]
    refine wp_mono (wp_serveRequest_locked env hlock hdisabled request h) ?_ fun _ _ ht => ht
    rintro r t ⟨hr, ht⟩
    rw [wp_bind, hr]
    refine wp_mono (ih t) ?_ fun _ _ hu => hu.trans ht
    rintro rs u ⟨hv, hu⟩
    exact ⟨hv, hu.trans ht⟩

end Locked

theorem serveRequests_locked_erase :
    wp (serveRequests readyFvb { twoSectors with attributes := 0xC6 } [.setAttributes 0x26, .eraseBlocks [(1, 1)]])
      (fun rs t => rs.2 = { twoSectors with attributes := 0xC6 } ∧ t.chip = (Spi.hostWith fun _ => 0).chip)
      (fun _ t => t.chip = (Spi.hostWith fun _ => 0).chip) (Spi.hostWith fun _ => 0) :=
  serveRequests_locked (v := { twoSectors with attributes := 0xC6 }) readyFvb (by decide) (by decide) _ _

end Quark.Fvb
