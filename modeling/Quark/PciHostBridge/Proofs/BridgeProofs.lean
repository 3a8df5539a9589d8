import Mathlib.Data.List.Count
import Mathlib.Data.List.Induction
import Mathlib.Data.List.Perm.Subperm
import Quark.PciHostBridge.Proofs.NodeProofs

/-!
# What the calls do to a bridge

Apart from allocation, a call leaves a node as it is or makes it one that is not allocated. So the list of
allocated ranges only loses entries, and what holds of the allocated nodes goes on holding.
-/

namespace Quark.PciHostBridge

open Machine Exec

/-! ## Bridges -/

/-- Every node is as `SubmitResources` leaves it, and the allocated ones are placed. -/
def BridgeOk (b : RootBridge) : Prop :=
  ∀ t ∈ resTypes, NodeOk t (b.resAllocNode t) ∧ (b.status t = .allocated → Placed b t)

structure Kept (b b' : RootBridge) : Prop where
  aperture : b'.aperture = b.aperture
  node : ∀ t ∈ resTypes, b'.resAllocNode t = b.resAllocNode t ∨
    b'.status t ≠ .allocated ∧ NodeOk t (b'.resAllocNode t)

theorem Kept.refl (b : RootBridge) : Kept b b := ⟨rfl, fun _ _ => .inl rfl⟩

theorem Kept.trans {b b' b'' : RootBridge} (h : Kept b b') (h' : Kept b' b'') : Kept b b'' := by
  refine ⟨h'.aperture.trans h.aperture, fun t ht => ?_⟩
  rcases h'.node t ht with heq | hnew
  · rcases h.node t ht with heq' | hnew'
    · exact .inl (heq.trans heq')
    · refine .inr ?_
      rw [RootBridge.status, heq]
      exact hnew'
  · exact .inr hnew

theorem Kept.range? {b b' : RootBridge} (h : Kept b b') {t : ResType} (ht : t ∈ resTypes) :
    b'.range? t = b.range? t ∨ b'.range? t = none := by
  rcases h.node t ht with heq | hnew
  · exact .inl (range?_congr heq)
  · exact .inr (range?_of_not_allocated hnew.1)

theorem Kept.ok {b b' : RootBridge} (h : Kept b b') (hok : BridgeOk b) : BridgeOk b' := by
  intro t ht
  rcases h.node t ht with heq | hnew
  · obtain ⟨hnode, hplaced⟩ := hok t ht
    refine ⟨heq ▸ hnode, fun hst => ?_⟩
    have hst' : b.status t = .allocated := by rw [RootBridge.status, ← heq]; exact hst
    obtain ⟨-, hin, halign⟩ := hplaced hst'
    refine ⟨hst, ?_, heq ▸ halign⟩
    rw [h.aperture, RootBridge.range, heq]
    exact hin
  · exact ⟨hnew.2, fun hst => absurd hst hnew.1⟩

theorem Kept.setNode {b : RootBridge} {t : ResType} {node : ResNode} (hst : node.status ≠ .allocated)
    (hok : NodeOk t node) : Kept b (b.setNode t node) := by
  refine ⟨rfl, fun u _ => ?_⟩
  by_cases hu : u = t
  · subst hu
    refine .inr ?_
    rw [RootBridge.status, resAllocNode_setNode]
    exact ⟨hst, hok⟩
  · exact .inl (resAllocNode_setNode_ne b node hu)

theorem sublist_filterMap {α β : Type} {f f' : α → Option β} :
    ∀ {l : List α}, (∀ x ∈ l, f' x = f x ∨ f' x = none) → (l.filterMap f').Sublist (l.filterMap f) := by
  intro l
  induction l with
  | nil => intro _; exact .refl _
  | cons x l ih =>
    intro h
    have hl := ih fun y hy => h y (List.mem_cons_of_mem x hy)
    rcases h x List.mem_cons_self with heq | hnone
    · cases hf : f x with
      | none => rw [List.filterMap_cons_none hf, List.filterMap_cons_none (heq.trans hf)]; exact hl
      | some y =>
        rw [List.filterMap_cons_some hf, List.filterMap_cons_some (heq.trans hf)]
        exact hl.cons_cons y
    · rw [List.filterMap_cons_none hnone]
      cases hf : f x with
      | none => rw [List.filterMap_cons_none hf]; exact hl
      | some y => rw [List.filterMap_cons_some hf]; exact hl.cons y

theorem allocatedRanges_sublist {bs bs' : List RootBridge} (h : List.Forall₂ Kept bs bs') :
    (allocatedRanges bs').Sublist (allocatedRanges bs) := by
  induction h with
  | nil => exact .refl _
  | cons hb _ ih =>
    unfold allocatedRanges at ih ⊢
    rw [List.flatMap_cons, List.flatMap_cons]
    exact (sublist_filterMap fun t ht => hb.range? ht).append ih

theorem forall₂_kept_ok {bs bs' : List RootBridge} (h : List.Forall₂ Kept bs bs')
    (hok : ∀ b ∈ bs, BridgeOk b) : ∀ b ∈ bs', BridgeOk b := by
  induction h with
  | nil => exact hok
  | cons hb _ ih =>
    intro b' hb'
    rcases List.mem_cons.mp hb' with rfl | hb'
    · exact hb.ok (hok _ List.mem_cons_self)
    · exact ih (fun b hmem => hok b (List.mem_cons_of_mem _ hmem)) b' hb'

section Forall

variable {R : RootBridge → RootBridge → Prop} {f : RootBridge → RootBridge} {bs : List RootBridge}

theorem forall₂_map (h : ∀ b ∈ bs, R b (f b)) : List.Forall₂ R bs (bs.map f) :=
  List.forall₂_map_right_iff.mpr (List.forall₂_same.mpr h)

theorem forall₂_updateBridge {handle : Nat} (hrefl : ∀ b ∈ bs, R b b)
    (h : ∀ b, bs.find? (·.handle = handle) = some b → R b (f b)) :
    List.Forall₂ R bs (updateBridge handle f bs) := by
  induction bs with
  | nil => exact .nil
  | cons b bs ih =>
    have hrest : ∀ b' ∈ bs, R b' b' := fun b' hb' => hrefl b' (List.mem_cons_of_mem b hb')
    unfold updateBridge
    by_cases hb : b.handle = handle
    · rw [if_pos hb]
      exact .cons (h b (by simp [hb])) (List.forall₂_same.mpr hrest)
    · rw [if_neg hb]
      refine .cons (hrefl b List.mem_cons_self) (ih hrest fun c hc => h c ?_)
      rw [List.find?_cons_of_neg (by simpa using hb)]
      exact hc

end Forall

/-! ## Changes of all nodes -/

def RootBridge.mapNodes (b : RootBridge) (l : List ResType) (g : ResNode → ResNode) : RootBridge :=
  { b with resAllocNode := fun t => if t ∈ l then g (b.resAllocNode t) else b.resAllocNode t }

theorem mapNodes_nil (b : RootBridge) (g : ResNode → ResNode) : b.mapNodes [] g = b := by
  unfold RootBridge.mapNodes
  simp

theorem mapNodes_cons {b : RootBridge} {t : ResType} {l : List ResType} {g : ResNode → ResNode}
    (ht : t ∉ l) : (b.setNode t (g (b.resAllocNode t))).mapNodes l g = b.mapNodes (t :: l) g := by
  unfold RootBridge.mapNodes
  congr 1
  funext u
  by_cases hu : u = t
  · subst hu
    simp [ht]
  · simp [hu]

theorem resAllocNode_mapNodes {b : RootBridge} {l : List ResType} {g : ResNode → ResNode} {t : ResType}
    (ht : t ∈ l) : (b.mapNodes l g).resAllocNode t = g (b.resAllocNode t) := if_pos ht

theorem foldl_setNode {g : ResNode → ResNode} : ∀ {l : List ResType}, l.Nodup → ∀ b : RootBridge,
    l.foldl (fun b t => b.setNode t (g (b.resAllocNode t))) b = b.mapNodes l g := by
  intro l
  induction l with
  | nil => intro _ b; exact (mapNodes_nil b g).symm
  | cons u l ih =>
    intro hnodup b
    obtain ⟨hu, hl⟩ := List.nodup_cons.mp hnodup
    rw [List.foldl_cons, ih hl, mapNodes_cons hu]

theorem setNode_self (b : RootBridge) (t : ResType) : b.setNode t (b.resAllocNode t) = b := by
  unfold RootBridge.setNode
  rw [Function.update_eq_self]

def zeroed (node : ResNode) : ResNode :=
  if node.status ≠ .allocated then { node with length := 0 } else node

theorem zeroFailed_eq (b : RootBridge) : b.zeroFailed = b.mapNodes resTypes zeroed := by
  have hstep : (fun (b : RootBridge) (t : ResType) =>
      if (b.resAllocNode t).status ≠ .allocated
      then b.setNode t { b.resAllocNode t with length := 0 } else b) =
      fun b t => b.setNode t (zeroed (b.resAllocNode t)) := by
    funext b t
    unfold zeroed
    split
    · rfl
    · exact (setNode_self b t).symm
  unfold RootBridge.zeroFailed
  rw [hstep]
  exact foldl_setNode resTypes_nodup b

theorem resAllocNode_zeroFailed (b : RootBridge) {t : ResType} (ht : t ∈ resTypes) :
    b.zeroFailed.resAllocNode t = zeroed (b.resAllocNode t) := by
  rw [zeroFailed_eq]
  exact resAllocNode_mapNodes ht

theorem zeroed_of_allocated {node : ResNode} (h : node.status = .allocated) : zeroed node = node :=
  if_neg (not_not.mpr h)

theorem status_zeroed (node : ResNode) : (zeroed node).status = node.status := by
  unfold zeroed
  split <;> rfl

theorem NodeOk.cleared {t : ResType} {node node' : ResNode} (h : NodeOk t node)
    (halign : node'.alignment = node.alignment) (hlen : node'.length = 0) : NodeOk t node' := by
  refine ⟨halign ▸ h.alignment, fun _ => ?_⟩
  rw [hlen]
  decide

theorem kept_zeroFailed {b : RootBridge} (hok : BridgeOk b) : Kept b b.zeroFailed := by
  have hnode := fun t ht => resAllocNode_zeroFailed b (t := t) ht
  refine ⟨by rw [zeroFailed_eq]; rfl, fun t ht => ?_⟩
  rw [hnode t ht]
  by_cases hst : (b.resAllocNode t).status = .allocated
  · exact .inl (zeroed_of_allocated hst)
  · refine .inr ⟨?_, ?_⟩
    · rw [RootBridge.status, hnode t ht, status_zeroed]
      exact hst
    · rw [zeroed, if_pos hst]
      exact (hok t ht).1.cleared rfl rfl

def emptied (node : ResNode) : ResNode := { node with base := 0, length := 0, status := .none }

theorem reset_eq (b : RootBridge) : b.reset = b.mapNodes (resTypes ++ [ResType.bus]) emptied := by
  have hnodup : (resTypes ++ [ResType.bus]).Nodup := by decide
  exact foldl_setNode (g := emptied) hnodup b

theorem resAllocNode_reset (b : RootBridge) (t : ResType) :
    b.reset.resAllocNode t = emptied (b.resAllocNode t) := by
  have hmem : t ∈ resTypes ++ [ResType.bus] := by cases t <;> decide
  rw [reset_eq]
  exact resAllocNode_mapNodes hmem

theorem kept_reset {b : RootBridge} (hok : BridgeOk b) : Kept b b.reset := by
  refine ⟨by rw [reset_eq]; rfl, fun t ht => .inr ⟨?_, ?_⟩⟩
  · rw [RootBridge.status, resAllocNode_reset]
    nofun
  · rw [resAllocNode_reset]
    exact (hok t ht).1.cleared rfl rfl

theorem kept_assignBus (b : RootBridge) (busStart busLen : BitVec 32) :
    Kept b (b.assignBus busStart busLen) := by
  refine ⟨rfl, fun t ht => .inl ?_⟩
  exact resAllocNode_setNode_ne b _ (mem_resTypes.mp ht)

/-! ## Requests -/

theorem getPowerOfTwo64_eq (x : Nat) : getPowerOfTwo64 x = 0 ∨ ∃ n, getPowerOfTwo64 x = 2 ^ n ∧ 2 ^ n ≤ x := by
  unfold getPowerOfTwo64
  split
  · exact .inl rfl
  · rename_i hx
    exact .inr ⟨x.log2, rfl, Nat.log2_self_le hx⟩

theorem alignment_of_power2MaxMemory {x : BitVec 64} (h : power2MaxMemory (x + 1) = x + 1) :
    ∃ n ≤ 64, x.toNat = 2 ^ n - 1 := by
  have hx := x.isLt
  have hsum : (x + 1).toNat = (x.toNat + 1) % 2 ^ 64 := BitVec.toNat_add ..
  by_cases hmax : x.toNat + 1 = 2 ^ 64
  · exact ⟨64, le_refl _, by omega⟩
  have hval : (x + 1).toNat = x.toNat + 1 := by rw [hsum, Nat.mod_eq_of_lt (by omega)]
  have hpow : ∃ n, (x + 1).toNat = 2 ^ n := by
    rw [← h]
    have hpos : (power2MaxMemory (x + 1)).toNat ≠ 0 := by rw [h, hval]; omega
    unfold power2MaxMemory at hpos ⊢
    split at hpos
    · rename_i hhigh
      rw [if_pos hhigh]
      rcases getPowerOfTwo64_eq (((x + 1).toNat >>> 32) % 2 ^ 32) with h0 | ⟨n, hn, hle⟩
      · rw [h0] at hpos
        exact absurd rfl hpos
      · refine ⟨n + 32, ?_⟩
        have hlt : 2 ^ n < 2 ^ 32 := Nat.lt_of_le_of_lt hle (Nat.mod_lt _ (by decide))
        rw [hn, BitVec.toNat_ofNat, Nat.shiftLeft_eq, Nat.mod_eq_of_lt (by omega), Nat.pow_add]
    · rename_i hlow
      rw [if_neg hlow]
      rcases getPowerOfTwo64_eq ((x + 1).toNat % 2 ^ 32) with h0 | ⟨n, hn, hle⟩
      · rw [h0] at hpos
        exact absurd rfl hpos
      · refine ⟨n, ?_⟩
        have hlt : 2 ^ n < 2 ^ 32 := Nat.lt_of_le_of_lt hle (Nat.mod_lt _ (by decide))
        rw [hn, BitVec.toNat_ofNat, Nat.mod_eq_of_lt (by omega)]
  obtain ⟨n, hn⟩ := hpow
  refine ⟨n, ?_, by omega⟩
  by_contra hc
  have : 2 ^ 64 ≤ 2 ^ n := Nat.pow_le_pow_right (by decide) (by omega)
  omega

def DescriptorOk (d : Descriptor) : Prop :=
  (∃ n ≤ 64, d.addrRangeMax.toNat = 2 ^ n - 1) ∧
    (d.resType = acpiAddressSpaceTypeMem → d.addrSpaceGranularity = 32 → d.addrLen.toNat < 2 ^ 32)

theorem wp_checkDescriptor {σ : Type} (b : RootBridge) (d : Descriptor) (s : σ) :
    wp (checkDescriptor b d) (fun st t => t = s ∧ (st.isError = false → DescriptorOk d))
      (fun _ _ => True) s := by
  have hcheck : ∀ P : Prop, (power2MaxMemory (d.addrRangeMax + 1) = d.addrRangeMax + 1 → P) →
      wp (checkAlignment d) (fun st t => t = s ∧ (st.isError = false → P)) (fun _ _ => True) s := by
    intro P hP
    unfold checkAlignment
    rw [wp_ite]
    refine ⟨fun _ => trivial, fun heq => ⟨rfl, fun _ => hP (not_not.mp heq)⟩⟩
  unfold checkDescriptor
  rw [wp_ite]
  refine ⟨fun hmem => ?_, fun hmem => ?_⟩
  · rw [wp_ite]
    refine ⟨fun _ => ⟨rfl, nofun⟩, fun _ => ?_⟩
    rw [wp_ite]
    refine ⟨fun _ => ⟨rfl, nofun⟩, fun hlen => ?_⟩
    rw [wp_ite]
    refine ⟨fun _ => ⟨rfl, nofun⟩, fun _ => ?_⟩
    refine hcheck _ fun heq => ⟨alignment_of_power2MaxMemory heq, fun _ hg => ?_⟩
    have hle : ¬ (0xffffffff : BitVec 64) < d.addrLen := fun hc => hlen ⟨hg, hc⟩
    have := mt BitVec.lt_def.mpr hle
    rw [show (0xffffffff : BitVec 64).toNat = 0xffffffff from rfl] at this
    omega
  · rw [wp_ite]
    refine ⟨fun _ => ?_, fun _ => ⟨rfl, nofun⟩⟩
    exact hcheck _ fun heq => ⟨alignment_of_power2MaxMemory heq, fun hc => absurd hc hmem⟩

theorem wp_checkDescriptors {σ : Type} (b : RootBridge) (s : σ) : ∀ ds : List Descriptor,
    wp (checkDescriptors b ds) (fun st t => t = s ∧ (st.isError = false → ∀ d ∈ ds, DescriptorOk d))
      (fun _ _ => True) s := by
  intro ds
  induction ds with
  | nil => exact ⟨rfl, fun _ _ h => absurd h List.not_mem_nil⟩
  | cons d ds ih =>
    rw [checkDescriptors, wp_bind]
    refine wp_mono (wp_checkDescriptor b d s) ?_ (fun _ _ h => h)
    rintro st t ⟨rfl, hd⟩
    rw [wp_ite]
    refine ⟨fun herr => ⟨rfl, fun hc => absurd hc (by rw [herr]; decide)⟩, fun herr => ?_⟩
    refine wp_mono ih ?_ (fun _ _ h => h)
    rintro st' u ⟨hu, hds⟩
    refine ⟨hu, fun hst d' hd' => ?_⟩
    rcases List.mem_cons.mp hd' with rfl | hd'
    · exact hd (by simpa using herr)
    · exact hds hst d' hd'

theorem applyDescriptor_spec {b : RootBridge} {d : Descriptor} :
    (d.target? = none ∧ (applyDescriptor b d).1 = b) ∨
      ∃ t ∈ resTypes, d.target? = some t ∧
        ((applyDescriptor b d).1 = b.mark t ∨ ∃ status, status ≠ .allocated ∧ status ≠ .none ∧
          (t = .mem32 → d.resType = acpiAddressSpaceTypeMem ∧ d.addrSpaceGranularity = 32) ∧
            (applyDescriptor b d).1 = b.request t d status) := by
  unfold applyDescriptor Descriptor.target?
  split_ifs with h1 h2 h3 h4 h5 h6
  · exact .inr ⟨.pMem32, by decide, rfl, .inl rfl⟩
  · exact .inr ⟨.mem32, by decide, rfl, .inr ⟨.requested, nofun, nofun, fun _ => ⟨h1, h2⟩, rfl⟩⟩
  · exact .inr ⟨.pMem64, by decide, rfl, .inl rfl⟩
  · exact .inr ⟨.mem64, by decide, rfl, .inr ⟨.submitted, nofun, nofun, nofun, rfl⟩⟩
  · exact .inl ⟨rfl, rfl⟩
  · exact .inr ⟨.io, by decide, rfl, .inr ⟨.requested, nofun, nofun, nofun, rfl⟩⟩
  · exact .inl ⟨rfl, rfl⟩

theorem kept_applyDescriptor {b : RootBridge} {d : Descriptor} (hok : BridgeOk b) (hd : DescriptorOk d) :
    Kept b (applyDescriptor b d).1 := by
  rcases applyDescriptor_spec (b := b) (d := d) with ⟨-, heq⟩ | ⟨t, ht, -, heq | ⟨st, hst, -, h32, heq⟩⟩
  · rw [heq]
    exact Kept.refl b
  · rw [heq]
    exact Kept.setNode nofun ⟨(hok t ht).1.alignment, (hok t ht).1.length⟩
  · rw [heq]
    exact Kept.setNode hst ⟨hd.1, fun hc => hd.2 (h32 hc).1 (h32 hc).2⟩

theorem kept_applyDescriptors : ∀ {ds : List Descriptor} {b : RootBridge}, BridgeOk b →
    (∀ d ∈ ds, DescriptorOk d) → Kept b (applyDescriptors b ds).1 := by
  intro ds
  induction ds with
  | nil => intro b _ _; exact Kept.refl b
  | cons d ds ih =>
    intro b hok hds
    have hfirst := kept_applyDescriptor hok (hds d List.mem_cons_self)
    exact hfirst.trans (ih (hfirst.ok hok) fun d' hd' => hds d' (List.mem_cons_of_mem d hd'))

/-! ## Giving ranges back

`EfiPciHostBridgeFreeResources` walks the allocated nodes and makes them empty. The range of a `TypePMem32` or a
`TypeMem64` is not given back.
-/

theorem wp_freeNode {pre post : List RootBridge} {b : RootBridge} {t : ResType} {gcd : Gcd}
    (ht : t ∈ resTypes) (hst : b.status t = .allocated)
    (hb : Backs gcd (allocatedRanges (pre ++ b :: post))) :
    wp (freeNode t (b.resAllocNode t)) (fun st gcd' => st = .success ∧
      Backs gcd' (allocatedRanges (pre ++ b.resetNode t :: post)) ∧
      (∀ k a, gcd' k a = .absent ↔ gcd k a = .absent) ∧
      (t ≠ .pMem32 → t ≠ .mem64 → Exact gcd (allocatedRanges (pre ++ b :: post)) →
        Exact gcd' (allocatedRanges (pre ++ b.resetNode t :: post)))) (fun _ _ => False) gcd := by
  obtain ⟨l₁, l₂, hold, hnew⟩ := allocatedRanges_setNode pre post b ht
  have hnone : (b.resetNode t).range? t = none := by
    simp [RootBridge.resetNode, RootBridge.range?, RootBridge.status]
  have hnew' : allocatedRanges (pre ++ b.resetNode t :: post) = l₁ ++ l₂ := by
    have heq := hnew { b.resAllocNode t with base := 0, length := 0, status := .none }
    refine heq.trans ?_
    show l₁ ++ ((b.resetNode t).range? t).toList ++ l₂ = _
    rw [hnone, Option.toList_none, List.append_nil]
  rw [range?_of_allocated hst, Option.toList_some, List.append_assoc, List.singleton_append] at hold
  rw [hold] at hb ⊢
  rw [hnew']
  have hheld : (b.range t).Held gcd := hb.held _ (List.mem_append_right _ List.mem_cons_self)
  have hfree : ∀ space, t.space = space →
      wp (freeSpace space (b.resAllocNode t).base (b.resAllocNode t).length) (fun st gcd' =>
        st = .success ∧ Backs gcd' (l₁ ++ l₂) ∧ (∀ k a, gcd' k a = .absent ↔ gcd k a = .absent) ∧
        (t ≠ .pMem32 → t ≠ .mem64 → Exact gcd (l₁ ++ b.range t :: l₂) → Exact gcd' (l₁ ++ l₂)))
        (fun _ _ => False) gcd := by
    rintro space rfl
    have hlen : ¬ (b.resAllocNode t).length = 0 := by
      intro hc
      have := hheld.1
      simp [RootBridge.range, hc] at this
    have hall : (gcd t.space).All .held (b.resAllocNode t).base.toNat
        (b.resAllocNode t).length.toNat := hheld.2
    rw [freeSpace, wp_bind, wp_get, if_neg hlen, if_pos hall, wp_bind, wp_modify, wp_pure]
    exact ⟨rfl, hb.release, absent_fillExtent (by decide) (by decide) hheld.2,
      fun _ _ he => he.release hb⟩
  have hkeep : t = .pMem32 ∨ t = .mem64 → (Backs gcd (l₁ ++ l₂) ∧
      (t ≠ .pMem32 → t ≠ .mem64 → Exact gcd (l₁ ++ b.range t :: l₂) → Exact gcd (l₁ ++ l₂))) := by
    intro hor
    refine ⟨hb.sublist (List.Sublist.append_left (List.sublist_cons_self _ _) _), fun h1 h2 => ?_⟩
    rcases hor with hc | hc
    · exact absurd hc h1
    · exact absurd hc h2
  cases t with
  | io => exact hfree _ rfl
  | mem32 => exact hfree _ rfl
  | pMem64 => exact hfree _ rfl
  | pMem32 => exact ⟨rfl, (hkeep (.inl rfl)).1, fun _ _ => Iff.rfl, (hkeep (.inl rfl)).2⟩
  | mem64 => exact ⟨rfl, (hkeep (.inr rfl)).1, fun _ _ => Iff.rfl, (hkeep (.inr rfl)).2⟩
  | bus => exact absurd rfl (mem_resTypes.mp ht)

def freedNode (node : ResNode) : ResNode := if node.status = .allocated then emptied node else node

theorem mapNodes_freed_of_allocated {b : RootBridge} {t : ResType} {l : List ResType} (ht : t ∉ l)
    (hst : b.status t = .allocated) :
    (b.resetNode t).mapNodes l freedNode = b.mapNodes (t :: l) freedNode := by
  have hnode : freedNode (b.resAllocNode t) = emptied (b.resAllocNode t) := if_pos hst
  rw [← mapNodes_cons ht, hnode]
  rfl

theorem mapNodes_freed_of_not_allocated {b : RootBridge} {t : ResType} {l : List ResType} (ht : t ∉ l)
    (hst : b.status t ≠ .allocated) : b.mapNodes l freedNode = b.mapNodes (t :: l) freedNode := by
  have hnode : freedNode (b.resAllocNode t) = b.resAllocNode t := if_neg hst
  rw [← mapNodes_cons ht, hnode, setNode_self]

def FreesAll (b : RootBridge) : Prop := b.status .pMem32 ≠ .allocated ∧ b.status .mem64 ≠ .allocated

/-- What freeing leaves: the ranges of the nodes that are still allocated are held, no address appears or
disappears, and if everything is given back then no more is held than the nodes say. -/
structure Frees (all : Prop) (l l' : List (Extent Space)) (gcd gcd' : Gcd) : Prop where
  backs : Backs gcd' l'
  absent : ∀ k a, gcd' k a = .absent ↔ gcd k a = .absent
  exact : all → Exact gcd l → Exact gcd' l'

theorem Frees.trans {p : Prop} {l l' l'' : List (Extent Space)} {gcd gcd' gcd'' : Gcd}
    (h : Frees p l l' gcd gcd') (h' : Frees p l' l'' gcd' gcd'') : Frees p l l'' gcd gcd'' :=
  ⟨h'.backs, fun k a => (h'.absent k a).trans (h.absent k a), fun hp he => h'.exact hp (h.exact hp he)⟩

theorem wp_freeTypes {pre post : List RootBridge} : ∀ {l : List ResType} {b : RootBridge} {gcd : Gcd}
    {st : EfiStatus}, l.Nodup → (∀ t ∈ l, t ∈ resTypes) →
    Backs gcd (allocatedRanges (pre ++ b :: post)) →
    wp (freeTypes l b st) (fun r gcd' => r = (b.mapNodes l freedNode, st) ∧
      Frees (FreesAll b) (allocatedRanges (pre ++ b :: post))
        (allocatedRanges (pre ++ b.mapNodes l freedNode :: post)) gcd gcd') (fun _ _ => False) gcd := by
  intro l
  induction l with
  | nil =>
    intro b gcd st _ _ hb
    rw [freeTypes, wp_pure, mapNodes_nil]
    exact ⟨rfl, hb, fun _ _ => Iff.rfl, fun _ he => he⟩
  | cons t l ih =>
    intro b gcd st hnodup hl hb
    obtain ⟨ht, hnodup'⟩ := List.nodup_cons.mp hnodup
    have hl' : ∀ u ∈ l, u ∈ resTypes := fun u hu => hl u (List.mem_cons_of_mem t hu)
    rw [freeTypes, wp_ite]
    refine ⟨fun hst => ?_, fun hst => ?_⟩
    · rw [wp_bind]
      refine wp_mono (wp_freeNode (hl t List.mem_cons_self) hst hb) ?_ (fun _ _ h => h)
      rintro _ gcd' ⟨rfl, hbacks, habsent, hexact⟩
      refine wp_mono (ih hnodup' hl' hbacks) ?_ (fun _ _ h => h)
      rintro r gcd'' ⟨rfl, hfrees⟩
      rw [mapNodes_freed_of_allocated ht hst] at hfrees ⊢
      refine ⟨rfl, ?_⟩
      have hfirst : Frees (FreesAll b) (allocatedRanges (pre ++ b :: post))
          (allocatedRanges (pre ++ b.resetNode t :: post)) gcd gcd' :=
        ⟨hbacks, habsent, fun hall he => hexact (fun hc => hall.1 (hc ▸ hst)) (fun hc => hall.2 (hc ▸ hst)) he⟩
      refine hfirst.trans ⟨hfrees.backs, hfrees.absent, fun hall => hfrees.exact ?_⟩
      have hreset : ∀ u, b.status u ≠ .allocated → (b.resetNode t).status u ≠ .allocated := by
        intro u hu
        by_cases hut : u = t
        · exact absurd (hut ▸ hst) hu
        · rw [RootBridge.status, RootBridge.resetNode, resAllocNode_setNode_ne _ _ hut]
          exact hu
      exact ⟨hreset _ hall.1, hreset _ hall.2⟩
    · refine wp_mono (ih hnodup' hl' hb) ?_ (fun _ _ h => h)
      rintro r gcd' ⟨rfl, hfrees⟩
      rw [mapNodes_freed_of_not_allocated ht hst] at hfrees ⊢
      exact ⟨rfl, hfrees⟩

theorem wp_freeBridges : ∀ {bs pre : List RootBridge} {gcd : Gcd} {st : EfiStatus},
    Backs gcd (allocatedRanges (pre ++ bs)) →
    wp (freeBridges bs st) (fun r gcd' => r = (bs.map (·.mapNodes resTypes freedNode), st) ∧
      Frees (∀ b ∈ bs, FreesAll b) (allocatedRanges (pre ++ bs))
        (allocatedRanges (pre ++ bs.map (·.mapNodes resTypes freedNode))) gcd gcd') (fun _ _ => False) gcd := by
  intro bs
  induction bs with
  | nil =>
    intro pre gcd st hb
    exact ⟨rfl, hb, fun _ _ => Iff.rfl, fun _ he => he⟩
  | cons b bs ih =>
    intro pre gcd st hb
    rw [freeBridges, wp_bind]
    refine wp_mono (wp_freeTypes resTypes_nodup (fun _ h => h) hb) ?_ (fun _ _ h => h)
    rintro r gcd' ⟨rfl, hfrees⟩
    have hassoc : ∀ l : List RootBridge, pre ++ b.mapNodes resTypes freedNode :: l = (pre ++ [b.mapNodes resTypes freedNode]) ++ l := by
      simp
    rw [hassoc] at hfrees
    rw [wp_bind]
    refine wp_mono (ih hfrees.backs) ?_ (fun _ _ h => h)
    rintro r gcd'' ⟨rfl, hfrees'⟩
    rw [wp_pure]
    refine ⟨rfl, ?_⟩
    rw [List.map_cons, hassoc]
    refine Frees.trans ⟨hfrees.backs, hfrees.absent, fun hall => hfrees.exact (hall b List.mem_cons_self)⟩
      ⟨hfrees'.backs, hfrees'.absent, fun hall => hfrees'.exact fun b' hb' =>
        hall b' (List.mem_cons_of_mem b hb')⟩

/-! ## The order of attempts

Each round of the loop over `Index1` attempts the node with the greatest alignment that is not handled. Nodes
that were not asked for are handled only when the loop comes by, so one with a later type competes with those
that were.
-/

variable {b₀ : RootBridge}

def ResType.index (t : ResType) : Nat := resTypes.idxOf t

theorem resTypes_sorted : resTypes.Pairwise fun t u => t.index < u.index := by decide

/-! ## One pick -/

/-- What the search for the greatest alignment has found among the types of `l`. -/
def BestOf (node : ResType → ResNode) (handled : ResType → Bool) (l : List ResType) :
    BitVec 64 × Option ResType → Prop
  | (max, none) => max = 0 ∧ ∀ u ∈ l, handled u = true
  | (max, some t) => max = (node t).alignment ∧ t ∈ l ∧ handled t = false ∧
      ∀ u ∈ l, handled u = false → u = t ∨ (node u).alignment.toNat < (node t).alignment.toNat ∨
        (node u).alignment.toNat = (node t).alignment.toNat ∧ u.index < t.index

theorem bestOf_foldl (node : ResType → ResNode) (handled : ResType → Bool) (l : List ResType)
    (hl : l.Pairwise fun t u => t.index < u.index) :
    BestOf node handled l (l.foldl (pickStep node handled) (0, none)) := by
  induction l using List.reverseRecOn with
  | nil => exact ⟨rfl, fun _ h => absurd h List.not_mem_nil⟩
  | append_singleton l x ih =>
    obtain ⟨hl, -, hlt⟩ := List.pairwise_append.mp hl
    have hbest := ih hl
    rw [List.foldl_append, List.foldl_cons, List.foldl_nil]
    generalize l.foldl (pickStep node handled) (0, none) = m at hbest ⊢
    obtain ⟨max, o⟩ := m
    unfold pickStep
    by_cases hx : handled x = true
    · -- a handled type changes nothing
      rw [if_pos hx]
      cases o with
      | none =>
        refine ⟨hbest.1, fun u hu => ?_⟩
        rcases List.mem_append.mp hu with hu | hu
        · exact hbest.2 u hu
        · rw [List.mem_singleton.mp hu]; exact hx
      | some t =>
        obtain ⟨hmax, ht, hfree, hall⟩ := hbest
        refine ⟨hmax, List.mem_append_left _ ht, hfree, fun u hu hu' => ?_⟩
        rcases List.mem_append.mp hu with hu | hu
        · exact hall u hu hu'
        · rw [List.mem_singleton.mp hu, hx] at hu'; cases hu'
    rw [if_neg hx]
    have hx' : handled x = false := by simpa using hx
    have hmem : x ∈ l ++ [x] := List.mem_append_right _ List.mem_cons_self
    by_cases hle : max ≤ (node x).alignment
    · -- the later type wins, also with the same alignment
      rw [if_pos hle]
      refine ⟨rfl, hmem, hx', fun u hu hu' => ?_⟩
      rcases List.mem_append.mp hu with hu | hu
      · have hidx : u.index < x.index := hlt u hu x List.mem_cons_self
        cases o with
        | none => exact absurd (hbest.2 u hu) (by rw [hu']; decide)
        | some t =>
          obtain ⟨hmax, -, -, hall⟩ := hbest
          have hmaxle : (node t).alignment.toNat ≤ (node x).alignment.toNat := by
            rw [← hmax]
            exact BitVec.le_def.mp hle
          have hule : (node u).alignment.toNat ≤ (node t).alignment.toNat := by
            rcases hall u hu hu' with rfl | hlt | heq
            · exact le_refl _
            · exact le_of_lt hlt
            · exact le_of_eq heq.1
          rcases lt_or_eq_of_le (le_trans hule hmaxle) with h | h
          · exact .inr (.inl h)
          · exact .inr (.inr ⟨h, hidx⟩)
      · exact .inl (List.mem_singleton.mp hu)
    · rw [if_neg hle]
      cases o with
      | none => exact absurd (by rw [hbest.1]; exact BitVec.le_def.mpr (Nat.zero_le _)) hle
      | some t =>
        obtain ⟨hmax, ht, hfree, hall⟩ := hbest
        refine ⟨hmax, List.mem_append_left _ ht, hfree, fun u hu hu' => ?_⟩
        rcases List.mem_append.mp hu with hu | hu
        · exact hall u hu hu'
        · rw [List.mem_singleton.mp hu]
          refine .inr (.inl ?_)
          rw [← hmax]
          exact Nat.lt_of_not_le fun hc => hle (BitVec.le_def.mpr hc)

theorem pickNode_some {node : ResType → ResNode} {handled : ResType → Bool} {t : ResType}
    (h : pickNode node handled = some t) :
    t ∈ resTypes ∧ handled t = false ∧ ∀ u ∈ resTypes, handled u = false → u = t ∨
      (node u).alignment.toNat < (node t).alignment.toNat ∨
        (node u).alignment.toNat = (node t).alignment.toNat ∧ u.index < t.index := by
  have hbest := bestOf_foldl node handled resTypes resTypes_sorted
  unfold pickNode at h
  generalize resTypes.foldl (pickStep node handled) (0, none) = m at h hbest
  obtain ⟨max, o⟩ := m
  cases h
  exact hbest.2

/-! ## All picks -/

/-- Where the loop over `Index1` stands after the types of `done`. -/
structure Picking (b₀ : RootBridge) (done rest : List ResType) (p : Progress) : Prop where
  split : resTypes = done ++ rest
  alignment : ∀ t, (p.bridge.resAllocNode t).alignment = (b₀.resAllocNode t).alignment
  none_iff : ∀ t, p.bridge.status t = .none ↔ b₀.status t = .none
  nodup : p.attempts.Nodup
  requested : ∀ t ∈ p.attempts, t ∈ resTypes ∧ b₀.status t ≠ .none
  handled : ∀ t ∈ resTypes,
    p.resNodeHandled t = true ↔ t ∈ p.attempts ∨ t ∈ done ∧ b₀.status t = .none
  count : p.attempts.length = done.countP fun t => b₀.status t ≠ .none

theorem Picking.start (b₀ : RootBridge) (st : EfiStatus) :
    Picking b₀ [] resTypes ⟨b₀, fun _ => false, st, []⟩ where
  split := rfl
  alignment _ := rfl
  none_iff _ := Iff.rfl
  nodup := .nil
  requested _ h := absurd h List.not_mem_nil
  handled _ _ := by simp
  count := rfl

theorem Picking.skip {done rest : List ResType} {i : ResType} {p : Progress}
    (h : Picking b₀ done (i :: rest) p) (hi : p.bridge.status i = .none) :
    Picking b₀ (done ++ [i]) rest
      { p with resNodeHandled := Function.update p.resNodeHandled i true } where
  split := by rw [h.split, List.append_assoc]; rfl
  alignment := h.alignment
  none_iff := h.none_iff
  nodup := h.nodup
  requested := h.requested
  handled t ht := by
    have hnone := (h.none_iff i).mp hi
    show Function.update p.resNodeHandled i true t = true ↔ _
    by_cases hti : t = i
    · subst hti
      simp [hnone]
    · rw [Function.update_of_ne hti, h.handled t ht]
      simp [hti]
  count := by
    have hnone := (h.none_iff i).mp hi
    simp [List.countP_append, h.count, hnone]

theorem Picking.pick_requested {done rest : List ResType} {i t : ResType} {p : Progress}
    (h : Picking b₀ done (i :: rest) p) (hi : p.bridge.status i ≠ .none) (hfit : PicksFit b₀)
    (ht : pickNode p.bridge.resAllocNode p.resNodeHandled = some t) :
    t ∈ resTypes ∧ b₀.status t ≠ .none ∧ t ∉ p.attempts := by
  obtain ⟨hmem, hfree, hbest⟩ := pickNode_some ht
  have hnot : ¬ (t ∈ p.attempts ∨ t ∈ done ∧ b₀.status t = .none) := by
    rw [← h.handled t hmem, hfree]
    decide
  refine ⟨hmem, fun hnone => ?_, fun hc => hnot (.inl hc)⟩
  -- `t` was not asked for: it has a later type than all of `done` and than `i`
  have hdone : t ∉ done := fun hc => hnot (.inr ⟨hc, hnone⟩)
  have hi₀ : b₀.status i ≠ .none := fun hc => hi ((h.none_iff i).mpr hc)
  have hti : t ≠ i := fun hc => hi₀ (hc ▸ hnone)
  have hrest : t ∈ rest := by
    have := h.split ▸ hmem
    rcases List.mem_append.mp this with hd | hr
    · exact absurd hd hdone
    · exact (List.mem_cons.mp hr).resolve_left hti
  have hsorted := h.split ▸ resTypes_sorted
  obtain ⟨-, hsuffix, hcross⟩ := List.pairwise_append.mp hsorted
  have hearlier : ∀ u ∈ done ++ [i], u.index < t.index := by
    intro u hu
    rcases List.mem_append.mp hu with hu | hu
    · exact hcross u hu t (List.mem_cons_of_mem i hrest)
    · rw [List.mem_singleton.mp hu]
      exact (List.pairwise_cons.mp hsuffix).1 t hrest
  -- the requested nodes that go before `t` have been attempted
  have hbefore : resTypes.filter (fun u => b₀.status u ≠ .none ∧ Beats b₀ u t) ⊆ p.attempts := by
    intro u hu
    obtain ⟨humem, hcond⟩ := List.mem_filter.mp hu
    obtain ⟨hreq, hbeats⟩ : b₀.status u ≠ .none ∧ Beats b₀ u t := by simpa using hcond
    by_contra hnotin
    have hufree : p.resNodeHandled u = false := by
      rw [← Bool.not_eq_true, h.handled u humem]
      rintro (hc | hc)
      · exact hnotin hc
      · exact hreq hc.2
    have hbeats' : (b₀.resAllocNode t).alignment.toNat < (b₀.resAllocNode u).alignment.toNat ∨
        (b₀.resAllocNode t).alignment.toNat = (b₀.resAllocNode u).alignment.toNat ∧ t.index < u.index :=
      hbeats.imp BitVec.lt_def.mp fun hc => ⟨congrArg BitVec.toNat hc.1, hc.2⟩
    rw [← h.alignment, ← h.alignment] at hbeats'
    rcases hbest u humem hufree with rfl | hbest
    · exact hreq hnone
    · omega
  have hle : resTypes.countP (fun u => b₀.status u ≠ .none ∧ Beats b₀ u t) ≤ p.attempts.length := by
    rw [List.countP_eq_length_filter]
    exact (List.subperm_of_subset (resTypes_nodup.filter _) hbefore).length_le
  -- and those with an earlier type are more than have been attempted
  have hgt : p.attempts.length < resTypes.countP
      (fun u => b₀.status u ≠ .none ∧ resTypes.idxOf u < resTypes.idxOf t) := by
    have hcount : ((done ++ [i]).countP fun u => b₀.status u ≠ .none) = p.attempts.length + 1 := by
      simp [List.countP_append, h.count, hi₀]
    have hsub : (done ++ [i]).Sublist resTypes := by
      rw [h.split]
      exact List.Sublist.append_left (List.singleton_sublist.mpr List.mem_cons_self) _
    have hmono : ((done ++ [i]).countP fun u => b₀.status u ≠ .none) ≤
        (done ++ [i]).countP (fun u => b₀.status u ≠ .none ∧ resTypes.idxOf u < resTypes.idxOf t) := by
      refine List.countP_mono_left fun u hu hreq => ?_
      have := hearlier u hu
      simp only [ResType.index] at this
      simpa [this] using hreq
    have := hsub.countP_le (p := fun u => decide (b₀.status u ≠ .none ∧
      resTypes.idxOf u < resTypes.idxOf t))
    omega
  exact absurd (hfit t hmem hnone) (by omega)

theorem Picking.pick {done rest : List ResType} {i t : ResType} {p : Progress} {b : RootBridge}
    (h : Picking b₀ done (i :: rest) p) (hi : p.bridge.status i ≠ .none) (hfit : PicksFit b₀)
    (ht : pickNode p.bridge.resAllocNode p.resNodeHandled = some t)
    {r : Option (BitVec 64)} (hb : b = p.bridge.place t r) :
    Picking b₀ (done ++ [i]) rest (p.attempted t b) := by
  obtain ⟨hmem, hreq, hnew⟩ := h.pick_requested hi hfit ht
  have hi₀ : b₀.status i ≠ .none := fun hc => hi ((h.none_iff i).mpr hc)
  have hother : ∀ u, u ≠ t → b.resAllocNode u = p.bridge.resAllocNode u := by
    intro u hu
    rw [hb]
    cases r with
    | none => rfl
    | some base => exact resAllocNode_setNode_ne _ _ hu
  have halign : (b.resAllocNode t).alignment = (p.bridge.resAllocNode t).alignment := by
    rw [hb]
    cases r with
    | none => rfl
    | some base => simp [RootBridge.place]
  have hstat : b.status t ≠ .none := by
    have hold : p.bridge.status t ≠ .none := fun hc => hreq ((h.none_iff t).mp hc)
    rw [hb]
    cases r with
    | none => exact hold
    | some base => simp [RootBridge.place, RootBridge.status]
  constructor
  · rw [h.split, List.append_assoc]; rfl
  · intro u
    by_cases hu : u = t
    · rw [hu]; exact halign.trans (h.alignment t)
    · show (b.resAllocNode u).alignment = _
      rw [hother u hu]
      exact h.alignment u
  · intro u
    by_cases hu : u = t
    · rw [hu]
      exact iff_of_false hstat hreq
    · show b.status u = .none ↔ _
      rw [RootBridge.status, hother u hu]
      exact h.none_iff u
  · show (p.attempts ++ [t]).Nodup
    rw [List.nodup_append]
    refine ⟨h.nodup, by simp, fun a ha c hc hac => ?_⟩
    rw [List.mem_singleton] at hc
    exact hnew (hc ▸ hac ▸ ha)
  · intro u hu
    rcases List.mem_append.mp hu with hu | hu
    · exact h.requested u hu
    · rw [List.mem_singleton.mp hu]
      exact ⟨hmem, hreq⟩
  · intro u hu
    show Function.update p.resNodeHandled t true u = true ↔ u ∈ p.attempts ++ [t] ∨ _
    by_cases hut : u = t
    · subst hut
      simp
    · rw [Function.update_of_ne hut, h.handled u hu]
      have hui : u = i → b₀.status u ≠ .none := fun hc => hc ▸ hi₀
      simp only [List.mem_append, List.mem_singleton, hut, or_false]
      constructor
      · rintro (hc | hc)
        · exact .inl hc
        · exact .inr ⟨.inl hc.1, hc.2⟩
      · rintro (hc | ⟨hc | hc, hnone⟩)
        · exact .inl hc
        · exact .inr ⟨hc, hnone⟩
        · exact absurd hnone (hui hc)
  · show (p.attempts ++ [t]).length = _
    simp [List.countP_append, h.count, hi₀]

theorem Picking.all_attempted {done : List ResType} {p : Progress} (h : Picking b₀ done [] p)
    {t : ResType} (ht : t ∈ resTypes) (hreq : b₀.status t ≠ .none) : t ∈ p.attempts := by
  have hdone : resTypes = done := by rw [h.split, List.append_nil]
  have hsub : p.attempts ⊆ resTypes.filter fun t => b₀.status t ≠ .none := by
    intro u hu
    obtain ⟨humem, hu'⟩ := h.requested u hu
    exact List.mem_filter.mpr ⟨humem, by simpa using hu'⟩
  have hperm : p.attempts.Perm (resTypes.filter fun t => b₀.status t ≠ .none) := by
    refine (List.subperm_of_subset h.nodup hsub).perm_of_length_le ?_
    rw [← List.countP_eq_length_filter, h.count, hdone]
  exact hperm.mem_iff.mpr (List.mem_filter.mpr ⟨ht, by simpa using hreq⟩)

end Quark.PciHostBridge
