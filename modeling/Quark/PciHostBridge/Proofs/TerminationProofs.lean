import Quark.PciHostBridge.Proofs.NodeRunProofs

/-!
# Allocation and its end

A search steps by `Alignment + 1`. It ends, unless the step is zero (an alignment of all ones) and the first
address is inside the window, or the window of a downward search begins at zero, below which no address is.
-/

namespace Quark.PciHostBridge

open Machine Exec

/-! ## Ends -/

def Ends {σ α : Type} (x : Exec σ α) (s : σ) : Prop := wp x (fun _ _ => True) (fun w _ => w ≠ .unfinished) s

def fullGcd : Gcd := fun _ _ => .held

def Stuck {α : Type} (x : Exec Gcd α) : Prop := wp x (fun _ _ => False) (fun w _ => w = .unfinished) fullGcd

def Down32Ends (a : Aperture) : Prop := ¬ (a.mem32Base = 0 ∧ 0 < a.mem32Limit)

def Down64Ends (c : Config) (a : Aperture) : Prop :=
  ¬ (a.mem64Base = 0 ∧ 0 < a.mem64Limit ∧ c.pci64BitResourceAllocation = true)

def Up32Ends (a : Aperture) (node : ResNode) : Prop :=
  ¬ (a.mem32Base < a.mem32Limit ∧ node.alignment = BitVec.allOnes 64 ∧
    node.length ≤ (a.mem32Limit + 1).setWidth 64)

def SearchEnds (c : Config) (b : RootBridge) (t : ResType) : Prop :=
  match t with
  | .io | .bus => True
  | .mem32 => Up32Ends b.aperture (b.resAllocNode t)
  | .pMem32 => Down32Ends b.aperture
  | .mem64 | .pMem64 =>
    Down64Ends c b.aperture ∧ (b.status t ≠ .allocated → Down32Ends b.aperture)

/-- The nodes that are attempted, in order: they depend on the alignments, and on which nodes were asked
for. -/
def attemptOrder : List ResType → (ResType → ResNode) → (ResType → Bool) → List ResType
  | [], _, _ => []
  | index1 :: rest, node, handled =>
    if (node index1).status = .none then attemptOrder rest node (Function.update handled index1 true)
    else
      match pickNode node handled with
      | none => []
      | some index => index :: attemptOrder rest node (Function.update handled index true)

def RootBridge.attempts (b : RootBridge) : List ResType :=
  attemptOrder resTypes b.resAllocNode fun _ => false

/-- `NotifyPhase (EfiPciHostBridgeAllocateResources)` ends, if its loops are followed far enough. -/
def AllocationEnds (c : Config) (s : HostBridge) : Prop :=
  ∃ n, Ends (notifyPhase { c with fuel := n } .allocateResources) s

structure Submittable (t : ResType) (node : ResNode) : Prop where
  alignment : ∃ n ≤ 64, node.alignment.toNat = 2 ^ n - 1
  length : node.status = .none → node.length = 0

theorem nodeClosed_submittable : NodeClosed Submittable where
  empty _ _ := ⟨⟨0, by decide, rfl⟩, fun _ => rfl⟩
  place _ _ _ _ h _ := ⟨h.alignment, nofun⟩
  zeroed _ _ node h := by
    unfold zeroed
    split
    · exact ⟨h.alignment, fun _ => rfl⟩
    · exact h
  emptied _ _ _ h := ⟨h.alignment, fun _ => rfl⟩
  stored t _ node d h _ hd := by
    refine ⟨?_, fun hnone => absurd hnone (status_storeRequest t d node).2⟩
    unfold storeRequest
    cases t with
    | pMem32 => exact h.alignment
    | pMem64 => exact h.alignment
    | _ => exact hd.1

/-! ## Searches that end and searches that do not -/

section Search

variable {space : Space} {addrLen : BitVec 64} {inside : BitVec 64 → Bool} {next : BitVec 64 → BitVec 64}
  {I : BitVec 64 → Prop}

theorem ends_search {m : BitVec 64 → Nat} {gcd : Gcd}
    (hnext : ∀ b, I b → inside b = true → I (next b) ∧ m (next b) < m b) {n : Nat} {b₀ : BitVec 64}
    (hn : m b₀ < n) (h₀ : I b₀) :
    Ends (Exec.loop n (fun b => tryAddress space (inside b) addrLen b (next b)) b₀) gcd := by
  refine wp_loop_total (fun b _ => I b) (fun b _ => m b) ?_ n b₀ gcd hn h₀
  intro b g hb
  unfold tryAddress
  rw [wp_ite]
  refine ⟨fun hin => ?_, fun _ => trivial⟩
  rw [wp_bind, allocateSpace, wp_bind, wp_get, wp_ite]
  refine ⟨fun _ => ?_, fun _ => hnext b hb hin⟩
  rw [wp_bind, wp_modify]
  trivial

theorem wp_allocateSpace_full (b : BitVec 64) :
    wp (allocateSpace space b addrLen) (fun r g => r = false ∧ g = fullGcd) (fun _ _ => False) fullGcd := by
  rw [allocateSpace, wp_bind, wp_get, wp_ite]
  refine ⟨fun h => ?_, fun _ => ⟨rfl, rfl⟩⟩
  have hbad : AddressSpace.All (fullGcd space) .free b.toNat addrLen.toNat := h.2.2
  have := hbad 0 (Nat.pos_of_ne_zero h.1)
  cases this

theorem stuck_search (hnext : ∀ b, I b → inside b = true ∧ I (next b)) (n : Nat) {b₀ : BitVec 64}
    (h₀ : I b₀) : Stuck (Exec.loop n (fun b => tryAddress space (inside b) addrLen b (next b)) b₀) := by
  refine wp_loop (fun b g => I b ∧ g = fullGcd) ?_ (fun _ _ _ => rfl) n ⟨h₀, rfl⟩
  rintro b _ ⟨hb, rfl⟩
  unfold tryAddress
  rw [wp_ite]
  refine ⟨fun _ => ?_, fun hin => absurd (hnext b hb).1 hin⟩
  rw [wp_bind]
  refine wp_mono (wp_allocateSpace_full b) ?_ (fun _ _ h => h.elim)
  rintro r g ⟨rfl, rfl⟩
  exact ⟨(hnext b hb).2, rfl⟩

theorem refused_search (n : Nat) (b₀ : BitVec 64) :
    wp (Exec.loop n (fun b => tryAddress space (inside b) addrLen b (next b)) b₀)
      (fun r g => r = none ∧ g = fullGcd) (fun w _ => w = .unfinished) fullGcd := by
  refine wp_loop (fun _ g => g = fullGcd) ?_ (fun _ _ _ => rfl) n rfl
  rintro b _ rfl
  unfold tryAddress
  rw [wp_ite]
  refine ⟨fun _ => ?_, fun _ => ⟨rfl, rfl⟩⟩
  rw [wp_bind]
  refine wp_mono (wp_allocateSpace_full b) ?_ (fun _ _ h => h.elim)
  rintro r g ⟨rfl, rfl⟩
  rfl

end Search

/-! ## Windows -/

theorem alignUp_allOnes (b : BitVec 64) : alignUp b (BitVec.allOnes 64) = 0 := by
  unfold alignUp
  rw [BitVec.not_allOnes, BitVec.and_zero, BitVec.and_zero]
  split
  · rfl
  · next h => exact (not_not.mp h).symm

theorem alignDown_allOnes (b : BitVec 64) : alignDown b (BitVec.allOnes 64) = 0 := by
  unfold alignDown
  rw [BitVec.not_allOnes, BitVec.and_zero]
  split
  · rfl
  · next h => exact (not_not.mp h).symm

section Windows

variable {space : Space} {addrLen alignment : BitVec 64} {n : Nat} {gcd : Gcd}

theorem ends_searchUp {k : Nat} (halign : AlignmentOf alignment k) {limit : BitVec 64}
    (hlimit : limit.toNat ≤ 2 ^ 32) (hn : 2 ^ 64 < n) (b₀ : BitVec 64) :
    Ends (Exec.loop n (searchUp space limit addrLen alignment) b₀) gcd := by
  have hpow := halign.pow_le
  have hpos := Nat.two_pow_pos k
  -- what is left of the window behind the address
  refine ends_search (I := fun _ => True)
    (m := fun b => if b + addrLen ≤ limit then limit.toNat - (b + addrLen).toNat + 1 else 0) ?_ ?_ trivial
  · intro b _ hin
    have hle : b + addrLen ≤ limit := of_decide_eq_true hin
    have hle' : (b + addrLen).toNat ≤ limit.toNat := BitVec.le_def.mp hle
    have hstep : (b + (alignment + 1) + addrLen).toNat = (b + addrLen).toNat + 2 ^ k := by
      have hcomm : b + (alignment + 1) + addrLen = b + addrLen + (alignment + 1) := by
        rw [BitVec.add_assoc, BitVec.add_comm (alignment + 1), ← BitVec.add_assoc]
      rw [hcomm, BitVec.toNat_add, halign.step, Nat.mod_eq_of_lt (by omega)]
    refine ⟨trivial, ?_⟩
    show (if b + (alignment + 1) + addrLen ≤ limit then _ else 0) < if b + addrLen ≤ limit then _ else 0
    rw [if_pos hle]
    split
    · next hle₂ =>
      have := BitVec.le_def.mp hle₂
      rw [hstep] at this ⊢
      omega
    · omega
  · show (if b₀ + addrLen ≤ limit then _ else 0) < n
    split <;> omega

theorem ends_searchDown (halign : ∃ k ≤ 64, alignment.toNat = 2 ^ k - 1) {first : BitVec 64}
    (hfirst : first ≠ 0) (hn : 2 ^ 64 < n) (top : BitVec 64) :
    Ends (Exec.loop n (searchDown space first addrLen alignment) (alignDown top alignment)) gcd := by
  have hpos : 0 < first.toNat := by
    refine Nat.pos_of_ne_zero fun hc => hfirst (BitVec.eq_of_toNat_eq ?_)
    exact hc
  have hlt := (alignDown top alignment).isLt
  obtain ⟨k, hk, heq⟩ := halign
  rcases Nat.lt_or_eq_of_le hk with hk | rfl
  · have hal : AlignmentOf alignment k := ⟨by omega, heq⟩
    have hpow := Nat.two_pow_pos k
    refine ends_search (I := fun b => 2 ^ k ∣ b.toNat) (m := BitVec.toNat) ?_ (hlt.trans hn)
      (alignDown_spec hal top).1
    intro b hb hin
    have hge : first.toNat ≤ b.toNat := BitVec.le_def.mp (of_decide_eq_true hin)
    -- an aligned address above zero is at least one step above zero
    have hstep : 2 ^ k ≤ b.toNat := Nat.le_of_dvd (by omega) hb
    have hsub : (b - (alignment + 1)).toNat = b.toNat - 2 ^ k := by
      rw [BitVec.toNat_sub_of_le (BitVec.le_def.mpr (by rw [hal.step]; exact hstep)), hal.step]
    rw [hsub]
    exact ⟨Nat.dvd_sub hb (Nat.dvd_refl _), by omega⟩
  · have hones : alignment = BitVec.allOnes 64 := BitVec.eq_of_toNat_eq heq
    have hzero : alignDown top alignment = 0 := by
      rw [hones]
      exact alignDown_allOnes top
    refine ends_search (I := fun b => b = 0) (m := BitVec.toNat) ?_ (hlt.trans hn) hzero
    rintro b rfl hin
    have hge : first.toNat ≤ 0 := BitVec.le_def.mp (of_decide_eq_true hin)
    omega

theorem stuck_searchDown (n : Nat) (b₀ : BitVec 64) :
    Stuck (Exec.loop n (searchDown space 0 addrLen alignment) b₀) :=
  stuck_search (I := fun _ => True)
    (fun _ _ => ⟨decide_eq_true (BitVec.le_def.mpr (Nat.zero_le _)), trivial⟩) n trivial

theorem stuck_searchUp {limit first : BitVec 64} (hlen : addrLen ≤ limit) (n : Nat) :
    Stuck (Exec.loop n (searchUp space limit addrLen (BitVec.allOnes 64))
      (alignUp first (BitVec.allOnes 64))) := by
  rw [alignUp_allOnes]
  refine stuck_search (I := fun b => b = 0) ?_ n rfl
  rintro b rfl
  refine ⟨decide_eq_true ?_, by decide⟩
  simpa using hlen

end Windows

/-! ## Nodes -/

section Node

variable {c : Config} {a : Aperture} {node : ResNode} {gcd : Gcd}

theorem ends_none : Ends (pure none : Exec Gcd (Option (BitVec 64))) gcd := trivial

theorem toNat_limit_le (x : BitVec 32) : ((x + 1).setWidth 64).toNat ≤ 2 ^ 32 :=
  (toNat_wide (x + 1)).trans_le (x + 1).isLt.le

theorem eq_allOnes {x : BitVec 64} (h : x.toNat = 2 ^ 64 - 1) : x = BitVec.allOnes 64 :=
  BitVec.eq_of_toNat_eq h

theorem ends_placeIo (hal : ∃ k ≤ 64, node.alignment.toNat = 2 ^ k - 1) (hn : 2 ^ 64 < c.fuel) :
    Ends (placeIo c a node) gcd := by
  unfold placeIo
  split
  · dsimp only
    split
    · have hzero : AlignmentOf 0 0 := ⟨by decide, rfl⟩
      exact ends_searchUp hzero (toNat_limit_le _) hn _
    · next hbits =>
      obtain ⟨k, hk, heq⟩ := hal
      have hsize : Nat.size node.alignment.toNat ≤ 15 := by
        unfold bitsOfAlignment at hbits
        omega
      have hsmall := Nat.size_le.mp hsize
      have hlt : k ≤ 63 := by
        by_contra hc
        have : k = 64 := by omega
        rw [heq, this] at hsmall
        omega
      exact ends_searchUp ⟨hlt, heq⟩ (toNat_limit_le _) hn _
  · exact ends_none

theorem ends_placeMem32 (hal : ∃ k ≤ 64, node.alignment.toNat = 2 ^ k - 1) (h : Up32Ends a node)
    (hn : 2 ^ 64 < c.fuel) : Ends (placeMem32 c a node) gcd := by
  unfold placeMem32
  split
  · next hwindow =>
    obtain ⟨k, hk, heq⟩ := hal
    rcases Nat.lt_or_eq_of_le hk with hk | rfl
    · exact ends_searchUp ⟨by omega, heq⟩ (toNat_limit_le _) hn _
    · have hones := eq_allOnes heq
      have hlong : ¬ node.length ≤ (a.mem32Limit + 1).setWidth 64 := fun hle => h ⟨hwindow, hones, hle⟩
      have hzero : alignUp (a.mem32Base.setWidth 64) node.alignment = 0 := by
        rw [hones]
        exact alignUp_allOnes _
      refine ends_search (I := fun b => b = 0) (m := BitVec.toNat) ?_ (by rw [hzero]; omega) hzero
      rintro b rfl hin
      have hle : 0 + node.length ≤ (a.mem32Limit + 1).setWidth 64 := of_decide_eq_true hin
      exact absurd (by simpa using hle) hlong
  · exact ends_none

theorem ends_placePMem32 (hal : ∃ k ≤ 64, node.alignment.toNat = 2 ^ k - 1) (h : Down32Ends a)
    (hn : 2 ^ 64 < c.fuel) : Ends (placePMem32 c a node) gcd := by
  unfold placePMem32
  split
  · next hwindow =>
    refine ends_searchDown hal (fun hzero => ?_) hn _
    have hbase : a.mem32Base = 0 := by
      apply BitVec.eq_of_toNat_eq
      rw [← toNat_wide, hzero]
      rfl
    exact h ⟨hbase, hbase ▸ hwindow⟩
  · exact ends_none

theorem ends_placeMem64 (hal : ∃ k ≤ 64, node.alignment.toNat = 2 ^ k - 1) (h : Down64Ends c a)
    (hn : 2 ^ 64 < c.fuel) : Ends (placeMem64 c a node) gcd := by
  unfold placeMem64
  split
  · next hwindow =>
    refine ends_searchDown hal (fun hbase => ?_) hn _
    exact h ⟨hbase, hbase ▸ hwindow.1, hwindow.2⟩
  · exact ends_none

theorem stuck_placeMem32 (h : ¬ Up32Ends a node) : Stuck (placeMem32 c a node) := by
  obtain ⟨hwindow, hones, hlen⟩ := not_not.mp h
  unfold placeMem32
  rw [if_pos hwindow, hones]
  exact stuck_searchUp hlen c.fuel

theorem stuck_placePMem32 (h : ¬ Down32Ends a) : Stuck (placePMem32 c a node) := by
  obtain ⟨hbase, hlimit⟩ := not_not.mp h
  unfold placePMem32
  rw [if_pos (hbase ▸ hlimit), hbase]
  exact stuck_searchDown c.fuel _

theorem stuck_placeMem64 (h : ¬ Down64Ends c a) : Stuck (placeMem64 c a node) := by
  obtain ⟨hbase, hlimit, hpci⟩ := not_not.mp h
  unfold placeMem64
  rw [if_pos ⟨hbase ▸ hlimit, hpci⟩, hbase]
  exact stuck_searchDown c.fuel _

theorem refused_searches (c : Config) (a : Aperture) (node : ResNode) (t : ResType) :
    ∀ x ∈ searches c a node t,
      wp x (fun r g => r = none ∧ g = fullGcd) (fun w _ => w = .unfinished) fullGcd := by
  intro x hx
  rcases isSearch_searches hx with rfl | ⟨inside, next, b₀, rfl⟩
  · exact ⟨rfl, rfl⟩
  · exact refused_search c.fuel b₀

theorem wp_none {α β : Type} {x : Exec Gcd α} {Q : β → Gcd → Prop} {E : Stop → Gcd → Prop}
    {k : α → Exec Gcd β} (h : wp x (fun _ _ => False) E gcd) : wp (x >>= k) Q E gcd := by
  rw [wp_bind]
  exact wp_mono h (fun _ _ h => h.elim) (fun _ _ h => h)

theorem ends_allocateNode {b : RootBridge} {t : ResType}
    (hal : ∃ k ≤ 64, (b.resAllocNode t).alignment.toNat = 2 ^ k - 1) (h : SearchEnds c b t)
    (hn : 2 ^ 64 < c.fuel) : Ends (allocateNode c b t) gcd := by
  have hone : ∀ x : Exec Gcd (Option (BitVec 64)), Ends x gcd →
      Ends (x >>= fun base => pure (b.place t base)) gcd := by
    intro x hx
    show wp _ _ _ _
    rw [wp_bind]
    exact wp_mono hx (fun _ _ _ => trivial) (fun _ _ h => h)
  -- the 32-bit window is searched when nothing was found in the 64-bit one
  have htwo : ∀ (x : Exec Gcd (Option (BitVec 64))) (y : RootBridge → Exec Gcd (Option (BitVec 64))),
      Ends x gcd → (b.status t ≠ .allocated → ∀ gcd, Ends (y b) gcd) →
      Ends (x >>= fun base =>
        if ((b.place t base).resAllocNode t).status ≠ .allocated then
          y (b.place t base) >>= fun base' => pure ((b.place t base).place t base')
        else pure (b.place t base)) gcd := by
    intro x y hx hy
    show wp _ _ _ _
    rw [wp_bind]
    refine wp_mono hx ?_ (fun _ _ h => h)
    intro r gcd' _
    rw [wp_ite]
    refine ⟨fun hst => ?_, fun _ => trivial⟩
    cases r with
    | none =>
      rw [wp_bind]
      exact wp_mono (hy hst gcd') (fun _ _ _ => trivial) (fun _ _ h => h)
    | some base =>
      refine absurd ?_ hst
      simp [RootBridge.place]
  cases t with
  | io => exact hone _ (ends_placeIo hal hn)
  | mem32 => exact hone _ (ends_placeMem32 hal h hn)
  | pMem32 => exact hone _ (ends_placePMem32 hal h hn)
  | mem64 =>
    exact htwo _ (fun b => placePMem32 c b.aperture (b.resAllocNode .mem64))
      (ends_placeMem64 hal h.1 hn) fun hst _ => ends_placePMem32 hal (h.2 hst) hn
  | pMem64 =>
    exact htwo _ (fun b => placePMem32 c b.aperture (b.resAllocNode .pMem64))
      (ends_placeMem64 hal h.1 hn) fun hst _ => ends_placePMem32 hal (h.2 hst) hn
  | bus => trivial

theorem refused_allocateNode (c : Config) (b : RootBridge) (t : ResType) :
    wp (allocateNode c b t) (fun b' g => b' = b ∧ g = fullGcd) (fun w _ => w = .unfinished) fullGcd := by
  have hrefused := refused_searches c b.aperture (b.resAllocNode t) t
  have hone : ∀ x ∈ searches c b.aperture (b.resAllocNode t) t,
      wp (x >>= fun base => pure (b.place t base)) (fun b' g => b' = b ∧ g = fullGcd)
        (fun w _ => w = .unfinished) fullGcd := by
    intro x hx
    rw [wp_bind]
    refine wp_mono (hrefused x hx) ?_ (fun _ _ h => h)
    rintro r g ⟨rfl, rfl⟩
    exact ⟨rfl, rfl⟩
  have htwo : ∀ x ∈ searches c b.aperture (b.resAllocNode t) t,
      ∀ y : RootBridge → Exec Gcd (Option (BitVec 64)),
        y b ∈ searches c b.aperture (b.resAllocNode t) t →
      wp (x >>= fun base =>
        if ((b.place t base).resAllocNode t).status ≠ .allocated then
          y (b.place t base) >>= fun base' => pure ((b.place t base).place t base')
        else pure (b.place t base)) (fun b' g => b' = b ∧ g = fullGcd) (fun w _ => w = .unfinished)
        fullGcd := by
    intro x hx y hy
    rw [wp_bind]
    refine wp_mono (hrefused x hx) ?_ (fun _ _ h => h)
    rintro r g ⟨rfl, rfl⟩
    rw [wp_ite]
    exact ⟨fun _ => hone (y b) hy, fun _ => ⟨rfl, rfl⟩⟩
  cases t with
  | io => exact hone _ List.mem_cons_self
  | mem32 => exact hone _ List.mem_cons_self
  | pMem32 => exact hone _ List.mem_cons_self
  | mem64 =>
    exact htwo _ List.mem_cons_self (fun b => placePMem32 c b.aperture (b.resAllocNode .mem64))
      (List.mem_cons_of_mem _ List.mem_cons_self)
  | pMem64 =>
    exact htwo _ List.mem_cons_self (fun b => placePMem32 c b.aperture (b.resAllocNode .pMem64))
      (List.mem_cons_of_mem _ List.mem_cons_self)
  | bus => exact ⟨rfl, rfl⟩

theorem stuck_allocateNode {b : RootBridge} {t : ResType} (h : ¬ SearchEnds c b t) :
    Stuck (allocateNode c b t) := by
  have htwo : ∀ (u : ResType) (y : RootBridge → Exec Gcd (Option (BitVec 64))),
      ¬ (Down64Ends c b.aperture ∧ (b.status u ≠ .allocated → Down32Ends b.aperture)) →
      y b = placePMem32 c b.aperture (b.resAllocNode u) →
      (placeMem64 c b.aperture (b.resAllocNode u)) ∈ searches c b.aperture (b.resAllocNode u) u →
      Stuck (placeMem64 c b.aperture (b.resAllocNode u) >>= fun base =>
        if ((b.place u base).resAllocNode u).status ≠ .allocated then
          y (b.place u base) >>= fun base' => pure ((b.place u base).place u base')
        else pure (b.place u base)) := by
    intro u y hu hy hmem
    by_cases h64 : Down64Ends c b.aperture
    · have hnot : ¬ (b.status u ≠ .allocated → Down32Ends b.aperture) := fun h32 => hu ⟨h64, h32⟩
      obtain ⟨hst, h32⟩ := Classical.not_imp.mp hnot
      show wp _ _ _ _
      rw [wp_bind]
      refine wp_mono (refused_searches c b.aperture (b.resAllocNode u) u _ hmem) ?_ (fun _ _ h => h)
      rintro r g ⟨rfl, rfl⟩
      rw [wp_ite]
      refine ⟨fun _ => wp_none ?_, fun hc => absurd hst hc⟩
      show wp (y b) _ _ _
      rw [hy]
      exact stuck_placePMem32 h32
    · exact wp_none (stuck_placeMem64 h64)
  cases t with
  | io => exact absurd trivial h
  | mem32 => exact wp_none (stuck_placeMem32 h)
  | pMem32 => exact wp_none (stuck_placePMem32 h)
  | mem64 =>
    exact htwo .mem64 (fun b => placePMem32 c b.aperture (b.resAllocNode .mem64)) h rfl
      List.mem_cons_self
  | pMem64 =>
    exact htwo .pMem64 (fun b => placePMem32 c b.aperture (b.resAllocNode .pMem64)) h rfl
      List.mem_cons_self
  | bus => exact absurd trivial h

end Node

/-! ## Order of the attempts -/

def Spare (rest : List ResType) (handled : ResType → Bool) : Prop :=
  ∃ l : List ResType, l.length + rest.length ≤ resTypes.length ∧ ∀ t, handled t = true → t ∈ l

theorem spare_start : Spare resTypes fun _ => false := ⟨[], le_refl _, nofun⟩

theorem Spare.handle {rest : List ResType} {handled : ResType → Bool} {i : ResType}
    (h : Spare (i :: rest) handled) (t : ResType) : Spare rest (Function.update handled t true) := by
  obtain ⟨l, hlen, hl⟩ := h
  refine ⟨t :: l, by simpa [Nat.add_right_comm, Nat.add_assoc] using hlen, fun u hu => ?_⟩
  by_cases hut : u = t
  · exact hut ▸ List.mem_cons_self
  · rw [Function.update_of_ne hut] at hu
    exact List.mem_cons_of_mem t (hl u hu)

theorem Spare.pick {rest : List ResType} {handled : ResType → Bool} {i : ResType}
    (h : Spare (i :: rest) handled) (node : ResType → ResNode) : ∃ t, pickNode node handled = some t := by
  have hbest := bestOf_foldl node handled resTypes resTypes_sorted
  unfold pickNode
  generalize resTypes.foldl (pickStep node handled) (0, none) = m at hbest
  obtain ⟨max, t⟩ := m
  cases t with
  | some t => exact ⟨t, rfl⟩
  | none =>
    -- then all types are handled, which are more than there were rounds
    obtain ⟨l, hlen, hl⟩ := h
    have hsub : resTypes ⊆ l := fun u hu => hl u (hbest.2 u hu)
    have hle := (List.subperm_of_subset resTypes_nodup hsub).length_le
    rw [List.length_cons] at hlen
    omega

theorem pickNode_congr {node node' : ResType → ResNode} {handled : ResType → Bool}
    (h : ∀ t, (node' t).alignment = (node t).alignment) : pickNode node' handled = pickNode node handled := by
  have hstep : pickStep node' handled = pickStep node handled := by
    funext max t
    unfold pickStep
    rw [h]
  unfold pickNode
  rw [hstep]

theorem attemptOrder_skip {node : ResType → ResNode} {handled : ResType → Bool} {i : ResType}
    {rest : List ResType} (h : (node i).status = .none) :
    attemptOrder (i :: rest) node handled = attemptOrder rest node (Function.update handled i true) :=
  if_pos h

theorem attemptOrder_none {node : ResType → ResNode} {handled : ResType → Bool} {i : ResType}
    {rest : List ResType} (h : (node i).status ≠ .none) (ht : pickNode node handled = none) :
    attemptOrder (i :: rest) node handled = [] :=
  (if_neg h).trans (by rw [ht])

theorem attemptOrder_pick {node : ResType → ResNode} {handled : ResType → Bool} {i t : ResType}
    {rest : List ResType} (h : (node i).status ≠ .none) (ht : pickNode node handled = some t) :
    attemptOrder (i :: rest) node handled =
      t :: attemptOrder rest node (Function.update handled t true) :=
  (if_neg h).trans (by rw [ht])

theorem attemptOrder_congr {node node' : ResType → ResNode}
    (halign : ∀ t, (node' t).alignment = (node t).alignment)
    (hnone : ∀ t, (node' t).status = .none ↔ (node t).status = .none) :
    ∀ (rest : List ResType) (handled : ResType → Bool),
      attemptOrder rest node' handled = attemptOrder rest node handled := by
  intro rest
  induction rest with
  | nil => intro handled; rfl
  | cons i rest ih =>
    intro handled
    by_cases hskip : (node i).status = .none
    · rw [attemptOrder_skip hskip, attemptOrder_skip ((hnone i).mpr hskip), ih]
    have hskip' := mt (hnone i).mp hskip
    cases hpick : pickNode node handled with
    | none =>
      rw [attemptOrder_none hskip hpick, attemptOrder_none hskip' ((pickNode_congr halign).trans hpick)]
    | some t =>
      rw [attemptOrder_pick hskip hpick, attemptOrder_pick hskip' ((pickNode_congr halign).trans hpick), ih]

theorem attemptOrder_unhandled {node : ResType → ResNode} {t : ResType} :
    ∀ {rest : List ResType} {handled : ResType → Bool}, t ∈ attemptOrder rest node handled →
      handled t = false := by
  have hupdate : ∀ {handled : ResType → Bool} {u : ResType}, Function.update handled u true t = false →
      handled t = false := by
    intro handled u hu
    by_cases htu : t = u
    · subst htu
      rw [Function.update_self] at hu
      nomatch hu
    · rwa [Function.update_of_ne htu] at hu
  intro rest
  induction rest with
  | nil => exact fun h => nomatch h
  | cons i rest ih =>
    intro handled h
    by_cases hskip : (node i).status = .none
    · rw [attemptOrder_skip hskip] at h
      exact hupdate (ih h)
    cases hu : pickNode node handled with
    | none =>
      rw [attemptOrder_none hskip hu] at h
      cases h
    | some u =>
      rw [attemptOrder_pick hskip hu] at h
      rcases List.mem_cons.mp h with rfl | h
      · exact (pickNode_some hu).2.1
      · exact hupdate (ih h)

/-! ## One bridge -/

section Bridge

variable {c : Config}

theorem searchEnds_place {b : RootBridge} {t u : ResType} (hut : u ≠ t) (r : Option (BitVec 64)) :
    SearchEnds c (b.place t r) u ↔ SearchEnds c b u := by
  have hnode : (b.place t r).resAllocNode u = b.resAllocNode u := by
    cases r with
    | none => rfl
    | some base => exact resAllocNode_setNode_ne b _ hut
  unfold SearchEnds RootBridge.status
  rw [hnode, aperture_place]

theorem alignment_place (b : RootBridge) (t : ResType) (r : Option (BitVec 64)) (u : ResType) :
    ((b.place t r).resAllocNode u).alignment = (b.resAllocNode u).alignment := by
  cases r with
  | none => rfl
  | some base =>
    by_cases hut : u = t
    · subst hut
      have hnode : (b.place u (some base)).resAllocNode u =
          { b.resAllocNode u with base := base, status := .allocated } := resAllocNode_setNode b u _
      rw [hnode]
    · exact congrArg ResNode.alignment (resAllocNode_setNode_ne b _ hut)

theorem none_place {b : RootBridge} {t : ResType} {r : Option (BitVec 64)} (hb : b.Satisfies Submittable)
    (ht : t ∈ resTypes) (hlen : ∀ base, r = some base → (b.resAllocNode t).length ≠ 0) (u : ResType) :
    ((b.place t r).resAllocNode u).status = .none ↔ (b.resAllocNode u).status = .none := by
  cases r with
  | none => exact Iff.rfl
  | some base =>
    by_cases hut : u = t
    · subst hut
      have hnode : (b.place u (some base)).resAllocNode u =
          { b.resAllocNode u with base := base, status := .allocated } := resAllocNode_setNode b u _
      rw [hnode]
      exact ⟨nofun, fun hnone => absurd ((hb u ht).length hnone) (hlen base rfl)⟩
    · exact iff_of_eq (congrArg (·.status = .none) (resAllocNode_setNode_ne b _ hut))

theorem ends_allocateTypes (hn : 2 ^ 64 < c.fuel) : ∀ (rest : List ResType) (p : Progress) (gcd : Gcd),
    Spare rest p.resNodeHandled → p.bridge.Satisfies Submittable →
    (∀ t ∈ attemptOrder rest p.bridge.resAllocNode p.resNodeHandled, SearchEnds c p.bridge t) →
    wp (allocateTypes c rest p) (fun p' _ => p'.bridge.Satisfies Submittable) (fun w _ => w ≠ .unfinished)
      gcd := by
  intro rest
  induction rest with
  | nil => exact fun p gcd _ hb _ => hb
  | cons i rest ih =>
    intro p gcd hspare hb hends
    rw [allocateTypes, wp_ite]
    refine ⟨fun hnone => ih _ gcd (hspare.handle i) hb ?_, fun hsome => ?_⟩
    · rw [attemptOrder_skip hnone] at hends
      exact hends
    · obtain ⟨t, ht⟩ := hspare.pick p.bridge.resAllocNode
      have hmem := (pickNode_some ht).1
      rw [attemptOrder_pick hsome ht] at hends
      rw [ht]
      show wp (allocateNode c p.bridge t >>= _) _ _ gcd
      rw [wp_bind]
      have hone : Ends (allocateNode c p.bridge t) gcd :=
        ends_allocateNode (hb t hmem).alignment (hends t List.mem_cons_self) hn
      have hfinds := wp_allocateNode (finds_searches c p.bridge.aperture (p.bridge.resAllocNode t) t gcd)
      have hkept := wp_allocateNode_satisfies nodeClosed_submittable hb (c := c) (t := t) gcd
      refine wp_mono (wp_and hone (wp_and hfinds hkept)) ?_ (fun _ _ h => h.1)
      rintro b' gcd' ⟨-, ⟨r, rfl, hfound, -⟩, hb'⟩
      have hlen : ∀ base, r = some base → (p.bridge.resAllocNode t).length ≠ 0 := by
        rintro base rfl hzero
        rw [hzero] at hfound
        exact hfound.1.1 rfl
      refine ih _ gcd' (hspare.handle t) hb' fun u hu => ?_
      have hu' : u ∈ attemptOrder rest p.bridge.resAllocNode (Function.update p.resNodeHandled t true) := by
        rw [← attemptOrder_congr (alignment_place p.bridge t r) (none_place hb hmem hlen)]
        exact hu
      have hut : u ≠ t := by
        rintro rfl
        have := attemptOrder_unhandled hu'
        rw [Function.update_self] at this
        cases this
      exact (searchEnds_place hut r).mpr (hends u (List.mem_cons_of_mem t hu'))

theorem refused_allocateTypes : ∀ (rest : List ResType) (p : Progress), Spare rest p.resNodeHandled →
    wp (allocateTypes c rest p) (fun _ g => g = fullGcd) (fun w _ => w = .unfinished) fullGcd := by
  intro rest
  induction rest with
  | nil => exact fun _ _ => rfl
  | cons i rest ih =>
    intro p hspare
    rw [allocateTypes, wp_ite]
    refine ⟨fun _ => ih _ (hspare.handle i), fun _ => ?_⟩
    obtain ⟨t, ht⟩ := hspare.pick p.bridge.resAllocNode
    rw [ht]
    show wp (allocateNode c p.bridge t >>= _) _ _ fullGcd
    rw [wp_bind]
    refine wp_mono (refused_allocateNode c p.bridge t) ?_ (fun _ _ h => h)
    rintro b' g ⟨-, rfl⟩
    exact ih _ (hspare.handle t)

theorem stuck_allocateTypes : ∀ (rest : List ResType) (p : Progress), Spare rest p.resNodeHandled →
    (∃ t ∈ attemptOrder rest p.bridge.resAllocNode p.resNodeHandled, ¬ SearchEnds c p.bridge t) →
    Stuck (allocateTypes c rest p) := by
  intro rest
  induction rest with
  | nil =>
    rintro p - ⟨t, ht, -⟩
    nomatch ht
  | cons i rest ih =>
    intro p hspare hstuck
    show wp (allocateTypes c (i :: rest) p) _ _ _
    rw [allocateTypes, wp_ite]
    refine ⟨fun hnone => ih _ (hspare.handle i) ?_, fun hsome => ?_⟩
    · rw [attemptOrder_skip hnone] at hstuck
      exact hstuck
    · obtain ⟨t, ht⟩ := hspare.pick p.bridge.resAllocNode
      rw [attemptOrder_pick hsome ht] at hstuck
      rw [ht]
      show wp (allocateNode c p.bridge t >>= _) _ _ fullGcd
      obtain ⟨u, hu, hbad⟩ := hstuck
      rcases List.mem_cons.mp hu with rfl | hu
      · exact wp_none (stuck_allocateNode hbad)
      · rw [wp_bind]
        refine wp_mono (refused_allocateNode c p.bridge t) ?_ (fun _ _ h => h)
        rintro b' g ⟨rfl, rfl⟩
        exact ih _ (hspare.handle t) ⟨u, hu, hbad⟩

/-! ## All bridges -/

theorem ends_allocateBridges (hn : 2 ^ 64 < c.fuel) : ∀ (bs : List RootBridge) (st : EfiStatus) (gcd : Gcd),
    (∀ b ∈ bs, b.Satisfies Submittable ∧ ∀ t ∈ b.attempts, SearchEnds c b t) →
    Ends (allocateBridges c bs st) gcd := by
  intro bs
  induction bs with
  | nil => exact fun _ _ _ => trivial
  | cons b bs ih =>
    intro st gcd h
    obtain ⟨hb, hends⟩ := h b List.mem_cons_self
    show wp _ _ _ _
    rw [allocateBridges, wp_bind]
    refine wp_mono (ends_allocateTypes hn resTypes _ gcd spare_start hb hends) ?_ (fun _ _ h => h)
    intro p gcd' _
    rw [wp_bind]
    exact wp_mono (ih p.returnStatus gcd' fun b' hb' => h b' (List.mem_cons_of_mem b hb'))
      (fun _ _ _ => trivial) (fun _ _ h => h)

theorem stuck_allocateBridges : ∀ (bs : List RootBridge) (st : EfiStatus),
    (∃ b ∈ bs, ∃ t ∈ b.attempts, ¬ SearchEnds c b t) → Stuck (allocateBridges c bs st) := by
  intro bs
  induction bs with
  | nil =>
    rintro st ⟨b, hb, -⟩
    nomatch hb
  | cons b bs ih =>
    rintro st ⟨b', hb', hbad⟩
    show wp _ _ _ _
    rw [allocateBridges]
    rcases List.mem_cons.mp hb' with rfl | hb'
    · exact wp_none (stuck_allocateTypes resTypes _ spare_start hbad)
    · rw [wp_bind]
      refine wp_mono (refused_allocateTypes resTypes _ spare_start) ?_ (fun _ _ h => h)
      rintro p g rfl
      exact wp_none (ih p.returnStatus ⟨b', hb', hbad⟩)

end Bridge

/-! ## The call -/

theorem ends_notifyPhase {c : Config} (hn : 2 ^ 64 < c.fuel) {s : HostBridge}
    (h : s.resourceSubmited = true →
      ∀ b ∈ s.bridges, b.Satisfies Submittable ∧ ∀ t ∈ b.attempts, SearchEnds c b t) :
    Ends (notifyPhase c .allocateResources) s := by
  show wp _ _ _ _
  rw [notifyPhase, wp_bind, wp_get]
  show wp (ite _ _ _) _ _ s
  rw [wp_ite]
  refine ⟨fun hsub => ?_, fun _ => trivial⟩
  rw [wp_bind, wp_onGcd]
  exact wp_mono (ends_allocateBridges hn s.bridges .success s.gcd (h hsub)) (fun _ _ _ => trivial)
    (fun _ _ h => h)

theorem not_ends_notifyPhase {c : Config} {s : HostBridge} (hsub : s.resourceSubmited = true)
    (h : ∃ b ∈ s.bridges, ∃ t ∈ b.attempts, ¬ SearchEnds c b t) :
    ¬ Ends (notifyPhase c .allocateResources) { s with gcd := fullGcd } := by
  have hstuck : wp (notifyPhase c .allocateResources) (fun _ _ => False) (fun w _ => w = .unfinished)
      { s with gcd := fullGcd } := by
    rw [notifyPhase, wp_bind, wp_get]
    show wp (ite _ _ _) _ _ _
    rw [wp_ite]
    refine ⟨fun _ => ?_, fun hc => absurd hsub hc⟩
    rw [wp_bind, wp_onGcd]
    exact wp_mono (stuck_allocateBridges s.bridges .success h) (fun _ _ h => h.elim) (fun _ _ h => h)
  intro hends
  have hboth := wp_and hstuck hends
  unfold wp at hboth
  split at hboth
  · exact hboth.1
  · exact hboth.2 hboth.1

theorem not_allocationEnds {c : Config} {s : HostBridge} (hsub : s.resourceSubmited = true)
    (h : ∃ b ∈ s.bridges, ∃ t ∈ b.attempts, ¬ SearchEnds c b t) :
    ¬ AllocationEnds c { s with gcd := fullGcd } := by
  rintro ⟨n, hends⟩
  exact not_ends_notifyPhase (c := { c with fuel := n }) hsub h hends

/-- In every state that the driver comes to, allocation ends for every answer of the GCD exactly when the
searches for all nodes that it attempts do: no upward search has a step of zero and room at address zero, and
no window that is searched downwards begins at zero. -/
theorem allocationEnds_iff {c : Config} {s₀ s : HostBridge} (h₀ : Started s₀) (calls : List Call)
    (hrun : serve (serveCall c) calls s₀ = .ret () s) :
    (∀ gcd, AllocationEnds c { s with gcd := gcd }) ↔
      (s.resourceSubmited = true → ∀ b ∈ s.bridges, ∀ t ∈ b.attempts, SearchEnds c b t) := by
  constructor
  · intro hends hsub b hb t ht
    by_contra hbad
    exact not_allocationEnds hsub ⟨b, hb, t, ht, hbad⟩ (hends fullGcd)
  · intro h gcd
    have hnodes := h₀.nodesSatisfy nodeClosed_submittable hrun
    refine ⟨2 ^ 64 + 1, ends_notifyPhase (c := { c with fuel := 2 ^ 64 + 1 }) (Nat.lt_succ_self _) ?_⟩
    exact fun hsub b hb => ⟨hnodes b hb, h hsub b hb⟩

/-! ## Examples -/

def mem32Request (length alignment : BitVec 64) : Call :=
  .submitResources 1 (some ⟨[⟨0, 0, 32, 0, alignment, length⟩], true⟩)

instance (c : Config) (b : RootBridge) (t : ResType) : Decidable (SearchEnds c b t) :=
  match t with
  | .io | .bus => isTrue trivial
  | .mem32 => inferInstanceAs (Decidable (¬ _))
  | .pMem32 => inferInstanceAs (Decidable (¬ _))
  | .mem64 | .pMem64 => inferInstanceAs (Decidable (¬ _ ∧ (_ → ¬ _)))

theorem serve_afterRequest {call : Call} (h : (serveCall exampleConfig call twoBridges).value?.isSome) :
    serve (serveCall exampleConfig) [call] twoBridges = .ret () (afterRequest call) := by
  obtain ⟨r, hr⟩ := Option.isSome_iff_exists.mp h
  exact serve_cons_ret.mpr ⟨r, _, Outcome.eq_ret hr, rfl⟩

theorem allocationEnds_iff_mem32 :
    AllocationEnds exampleConfig { afterRequest (mem32Request 1 0xF) with gcd := fullGcd } :=
  (allocationEnds_iff started_twoBridges [mem32Request 1 0xF] (serve_afterRequest (by decide))).mpr
    (by decide) fullGcd

theorem not_allocationEnds_mem32 :
    ¬ ∀ gcd, AllocationEnds exampleConfig
      { afterRequest (mem32Request 1 0xFFFFFFFFFFFFFFFF) with gcd := gcd } := by
  intro h
  exact not_allocationEnds (by decide) (by decide) (h fullGcd)

end Quark.PciHostBridge
