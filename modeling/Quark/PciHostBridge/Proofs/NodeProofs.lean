import Mathlib.Data.List.Nodup
import Quark.PciHostBridge.Spec
import Quark.Machine.BitField

/-!
# The search for an address

The addresses that a search tries are aligned, and they stay inside the window as long as no addition or
subtraction wraps.
-/

namespace Quark.PciHostBridge

open Machine Exec

/-! ## Alignment -/

def AlignmentOf (alignment : BitVec 64) (n : Nat) : Prop := n ≤ 63 ∧ alignment.toNat = 2 ^ n - 1

section Alignment

variable {alignment : BitVec 64} {n : Nat} (h : AlignmentOf alignment n)
include h

theorem AlignmentOf.pow_le : 2 ^ n ≤ 2 ^ 63 := Nat.pow_le_pow_right (by decide) h.1

theorem AlignmentOf.toNat_add_one : alignment.toNat + 1 = 2 ^ n := by
  have := Nat.two_pow_pos n
  rw [h.2]
  omega

theorem AlignmentOf.step : (alignment + 1).toNat = 2 ^ n := by
  have hle := h.pow_le
  rw [BitVec.toNat_add, show (1 : BitVec 64).toNat = 1 from rfl, h.toNat_add_one, Nat.mod_eq_of_lt]
  omega

theorem toNat_and_not (b : BitVec 64) : (b &&& ~~~alignment).toNat = b.toNat / 2 ^ n * 2 ^ n :=
  toNat_and_not_low h.2 b

theorem and_not_eq_iff (b : BitVec 64) : b &&& ~~~alignment = b ↔ 2 ^ n ∣ b.toNat := by
  rw [← BitVec.toNat_inj, toNat_and_not h]
  constructor
  · intro heq
    exact ⟨b.toNat / 2 ^ n, by rw [Nat.mul_comm]; exact heq.symm⟩
  · exact Nat.div_mul_cancel

theorem alignDown_spec (b : BitVec 64) :
    2 ^ n ∣ (alignDown b alignment).toNat ∧ (alignDown b alignment).toNat ≤ b.toNat := by
  unfold alignDown
  split
  · rw [toNat_and_not h]
    exact ⟨Nat.dvd_mul_left _ _, Nat.div_mul_le_self _ _⟩
  · rename_i heq
    exact ⟨(and_not_eq_iff h b).mp (not_not.mp heq), le_refl _⟩

theorem alignUp_spec {b : BitVec 64} (hb : b.toNat + alignment.toNat < 2 ^ 64) :
    2 ^ n ∣ (alignUp b alignment).toNat ∧ b.toNat ≤ (alignUp b alignment).toNat ∧
      (alignUp b alignment).toNat ≤ b.toNat + alignment.toNat := by
  unfold alignUp
  split
  · have hpos := Nat.two_pow_pos n
    have hsum : (b + alignment).toNat = b.toNat + alignment.toNat := by
      rw [BitVec.toNat_add, Nat.mod_eq_of_lt hb]
    rw [toNat_and_not h, hsum, h.2]
    refine ⟨Nat.dvd_mul_left _ _, ?_, Nat.div_mul_le_self _ _⟩
    have hdiv := Nat.div_add_mod (b.toNat + (2 ^ n - 1)) (2 ^ n)
    have hmod := Nat.mod_lt (b.toNat + (2 ^ n - 1)) hpos
    rw [Nat.mul_comm] at hdiv
    omega
  · rename_i heq
    exact ⟨(and_not_eq_iff h b).mp (not_not.mp heq), le_refl _, Nat.le_add_right _ _⟩

end Alignment

/-! ## Searches -/

/-- What a search leaves of the GCD: it is as it was, or the range found was free and is held. -/
def Found (space : Space) (addrLen : BitVec 64) (gcd : Gcd) (base : Option (BitVec 64)) (gcd' : Gcd) :
    Prop :=
  match base with
  | none => gcd' = gcd
  | some base => (gcd space).Grants base.toNat addrLen.toNat ∧
      gcd' = fillExtent gcd .held ⟨space, base.toNat, addrLen.toNat⟩

theorem wp_search {space : Space} {addrLen : BitVec 64} {inside : BitVec 64 → Bool}
    {next : BitVec 64 → BitVec 64} {I : BitVec 64 → Prop} {gcd : Gcd}
    (hnext : ∀ b, I b → inside b = true → I (next b)) (fuel : Nat) {b₀ : BitVec 64} (h₀ : I b₀) :
    wp (Exec.loop fuel (fun b => tryAddress space (inside b) addrLen b (next b)) b₀)
      (fun r gcd' => Found space addrLen gcd r gcd' ∧ ∀ base, r = some base → I base ∧ inside base = true)
      (fun _ _ => True) gcd := by
  refine wp_loop (fun b g => I b ∧ g = gcd) ?_ (fun _ _ _ => trivial) fuel ⟨h₀, rfl⟩
  rintro b _ ⟨hb, rfl⟩
  unfold tryAddress
  rw [wp_ite]
  refine ⟨fun hin => ?_, fun _ => ⟨rfl, nofun⟩⟩
  rw [wp_bind, allocateSpace, wp_bind, wp_get, wp_ite]
  refine ⟨fun hgrant => ?_, fun _ => ⟨hnext b hb hin, rfl⟩⟩
  rw [wp_bind, wp_modify]
  refine ⟨⟨hgrant, rfl⟩, ?_⟩
  intro base hbase
  injection hbase with hbase
  exact hbase ▸ ⟨hb, hin⟩

section Windows

variable {space : Space} {addrLen alignment : BitVec 64} {n : Nat} {gcd : Gcd}
  (halign : AlignmentOf alignment n)
include halign

def FoundIn (first last : Nat) (space : Space) (addrLen : BitVec 64) (n : Nat) (gcd : Gcd)
    (r : Option (BitVec 64)) (gcd' : Gcd) : Prop :=
  Found space addrLen gcd r gcd' ∧ ∀ base, r = some base →
    InWindow first last ⟨space, base.toNat, addrLen.toNat⟩ ∧ 2 ^ n ∣ base.toNat

theorem wp_searchUp {first limit : BitVec 64} {last : Nat} (hlimit : limit.toNat ≤ last + 1)
    (hlast : last + 1 ≤ 2 ^ 32)
    (hfits : first.toNat + alignment.toNat + addrLen.toNat < 2 ^ 64) (fuel : Nat) :
    wp (Exec.loop fuel (searchUp space limit addrLen alignment) (alignUp first alignment))
      (FoundIn first.toNat last space addrLen n gcd) (fun _ _ => True) gcd := by
  have hpow := halign.pow_le
  have hsum : ∀ b : BitVec 64, b.toNat + addrLen.toNat < 2 ^ 64 →
      (b + addrLen).toNat = b.toNat + addrLen.toNat := by
    intro b hb
    rw [BitVec.toNat_add, Nat.mod_eq_of_lt hb]
  obtain ⟨hdvd, hlow, hhigh⟩ := alignUp_spec halign (show first.toNat + alignment.toNat < 2 ^ 64 by omega)
  refine wp_mono (wp_search (I := fun b => first.toNat ≤ b.toNat ∧ 2 ^ n ∣ b.toNat ∧
    b.toNat + addrLen.toNat < 2 ^ 64) ?_ fuel ⟨hlow, hdvd, by omega⟩) ?_ (fun _ _ h => h)
  · rintro b ⟨hfirst, hb, hno⟩ hin
    have hle : (b + addrLen).toNat ≤ limit.toNat := BitVec.le_def.mp (by simpa using hin)
    rw [hsum b hno] at hle
    have hstep : (b + (alignment + 1)).toNat = b.toNat + 2 ^ n := by
      rw [BitVec.toNat_add, halign.step, Nat.mod_eq_of_lt (by omega)]
    rw [hstep]
    exact ⟨by omega, Nat.dvd_add hb (Nat.dvd_refl _), by omega⟩
  · rintro r gcd' ⟨hfound, hres⟩
    refine ⟨hfound, fun base hbase => ?_⟩
    obtain ⟨⟨hfirst, hb, hno⟩, hin⟩ := hres base hbase
    have hle : (base + addrLen).toNat ≤ limit.toNat := BitVec.le_def.mp (by simpa using hin)
    rw [hsum base hno] at hle
    exact ⟨⟨hfirst, by show base.toNat + addrLen.toNat ≤ _; omega⟩, hb⟩

theorem wp_searchDown {first top : BitVec 64} {last : Nat} (hfirst : 0 < first.toNat)
    (htop : top.toNat + addrLen.toNat ≤ last + 1) (fuel : Nat) :
    wp (Exec.loop fuel (searchDown space first addrLen alignment) (alignDown top alignment))
      (FoundIn first.toNat last space addrLen n gcd) (fun _ _ => True) gcd := by
  have hpow := halign.pow_le
  obtain ⟨hdvd, hdown⟩ := alignDown_spec halign top
  refine wp_mono (wp_search (I := fun b => 2 ^ n ∣ b.toNat ∧ b.toNat + addrLen.toNat ≤ last + 1)
    ?_ fuel ⟨hdvd, by omega⟩) ?_ (fun _ _ h => h)
  · rintro b ⟨hb, hle⟩ hin
    have hge : first.toNat ≤ b.toNat := BitVec.le_def.mp (by simpa using hin)
    -- an aligned address above zero is at least one step above zero
    have hstep : 2 ^ n ≤ b.toNat := Nat.le_of_dvd (by omega) hb
    have hsub : (b - (alignment + 1)).toNat = b.toNat - 2 ^ n := by
      rw [BitVec.toNat_sub_of_le (BitVec.le_def.mpr (by rw [halign.step]; exact hstep)), halign.step]
    rw [hsub]
    exact ⟨Nat.dvd_sub hb (Nat.dvd_refl _), by omega⟩
  · rintro r gcd' ⟨hfound, hres⟩
    refine ⟨hfound, fun base hbase => ?_⟩
    obtain ⟨⟨hb, hle⟩, hin⟩ := hres base hbase
    exact ⟨⟨BitVec.le_def.mp (by simpa using hin), hle⟩, hb⟩

end Windows

/-! ## One node

What an attempt at one node does to its bridge and to the GCD, and what a change of one node does to the list
of allocated ranges.
-/

/-! ## Nodes of a bridge -/

theorem range?_congr {b b' : RootBridge} {t : ResType} (h : b'.resAllocNode t = b.resAllocNode t) :
    b'.range? t = b.range? t := by
  unfold RootBridge.range? RootBridge.status RootBridge.range
  rw [h]

section SetNode

variable (b : RootBridge) (t : ResType) (node : ResNode)

@[simp] theorem aperture_setNode : (b.setNode t node).aperture = b.aperture := rfl

@[simp] theorem handle_setNode : (b.setNode t node).handle = b.handle := rfl

@[simp] theorem resAllocNode_setNode : (b.setNode t node).resAllocNode t = node :=
  Function.update_self ..

variable {t} in
@[simp] theorem resAllocNode_setNode_ne {u : ResType} (h : u ≠ t) :
    (b.setNode t node).resAllocNode u = b.resAllocNode u :=
  Function.update_of_ne h ..

variable {t} in
theorem range?_setNode_ne {u : ResType} (h : u ≠ t) : (b.setNode t node).range? u = b.range? u :=
  range?_congr (resAllocNode_setNode_ne b node h)

end SetNode

@[simp] theorem aperture_place (b : RootBridge) (t : ResType) (r : Option (BitVec 64)) :
    (b.place t r).aperture = b.aperture := by
  cases r <;> rfl

/-! ## Allocated ranges -/

theorem resTypes_nodup : resTypes.Nodup := by decide

theorem mem_resTypes {t : ResType} : t ∈ resTypes ↔ t ≠ .bus := by
  cases t <;> decide

theorem allocatedRanges_setNode (pre post : List RootBridge) (b : RootBridge) {t : ResType}
    (ht : t ∈ resTypes) :
    ∃ l₁ l₂, allocatedRanges (pre ++ b :: post) = l₁ ++ (b.range? t).toList ++ l₂ ∧
      ∀ node, allocatedRanges (pre ++ b.setNode t node :: post) =
        l₁ ++ ((b.setNode t node).range? t).toList ++ l₂ := by
  obtain ⟨u, v, huv⟩ := List.append_of_mem ht
  have hnodup := resTypes_nodup
  rw [huv, List.nodup_middle] at hnodup
  have hne : ∀ x ∈ u ++ v, x ≠ t := fun x hx hc => (List.nodup_cons.mp hnodup).1 (hc ▸ hx)
  have hsplit : ∀ c : RootBridge, allocatedRanges (pre ++ c :: post) =
      (allocatedRanges pre ++ u.filterMap c.range?) ++ (c.range? t).toList ++
        (v.filterMap c.range? ++ allocatedRanges post) := by
    intro c
    have hcons : (t :: v).filterMap c.range? = (c.range? t).toList ++ v.filterMap c.range? := by
      cases hc : c.range? t <;> simp [hc]
    simp only [allocatedRanges, List.flatMap_append, List.flatMap_cons, huv, List.filterMap_append, hcons,
      List.append_assoc]
  refine ⟨allocatedRanges pre ++ u.filterMap b.range?, v.filterMap b.range? ++ allocatedRanges post,
    hsplit b, fun node => ?_⟩
  have hsame : ∀ l : List ResType, (∀ x ∈ l, x ∈ u ++ v) →
      l.filterMap (b.setNode t node).range? = l.filterMap b.range? := fun l hl =>
    List.filterMap_congr fun x hx => range?_setNode_ne b node (hne x (hl x hx))
  rw [hsplit, hsame u fun x hx => List.mem_append_left v hx, hsame v fun x hx => List.mem_append_right u hx]

theorem allocatedRanges_congr {bs bs' : List RootBridge}
    (h : List.Forall₂ (fun b b' => ∀ t ∈ resTypes, b'.range? t = b.range? t) bs bs') :
    allocatedRanges bs' = allocatedRanges bs := by
  induction h with
  | nil => rfl
  | cons hb _ ih =>
    unfold allocatedRanges at ih ⊢
    rw [List.flatMap_cons, List.flatMap_cons, ih, List.filterMap_congr hb]

theorem range?_of_allocated {b : RootBridge} {t : ResType} (h : b.status t = .allocated) :
    b.range? t = some (b.range t) := if_pos h

theorem range?_of_not_allocated {b : RootBridge} {t : ResType} (h : b.status t ≠ .allocated) :
    b.range? t = none := if_neg h

/-! ## Attempts -/

/-- The code is a search for a range of the length, and what it finds has the property `P`. -/
def Finds (P : BitVec 64 → Prop) (space : Space) (addrLen : BitVec 64) (gcd : Gcd)
    (x : Exec Gcd (Option (BitVec 64))) : Prop :=
  wp x (fun r gcd' => Found space addrLen gcd r gcd' ∧ ∀ base, r = some base → P base)
    (fun _ _ => True) gcd

theorem finds_none {P : BitVec 64 → Prop} {space : Space} {addrLen : BitVec 64} {gcd : Gcd} :
    Finds P space addrLen gcd (pure none) := ⟨rfl, nofun⟩

def searches (c : Config) (a : Aperture) (node : ResNode) :
    ResType → List (Exec Gcd (Option (BitVec 64)))
  | .io => [placeIo c a node]
  | .mem32 => [placeMem32 c a node]
  | .pMem32 => [placePMem32 c a node]
  | .mem64 | .pMem64 => [placeMem64 c a node, placePMem32 c a node]
  | .bus => []

def Attempted (P : BitVec 64 → Prop) (b : RootBridge) (t : ResType) (gcd : Gcd) (b' : RootBridge)
    (gcd' : Gcd) : Prop :=
  ∃ r, b' = b.place t r ∧ Found t.space (b.resAllocNode t).length gcd r gcd' ∧
    ∀ base, r = some base → P base

theorem wp_allocateNode {c : Config} {b : RootBridge} {t : ResType} {gcd : Gcd} {P : BitVec 64 → Prop}
    (h : ∀ x ∈ searches c b.aperture (b.resAllocNode t) t,
      Finds P t.space (b.resAllocNode t).length gcd x) :
    wp (allocateNode c b t) (Attempted P b t gcd) (fun _ _ => True) gcd := by
  have hone : ∀ x : Exec Gcd (Option (BitVec 64)), Finds P t.space (b.resAllocNode t).length gcd x →
      wp (x >>= fun base => pure (b.place t base)) (Attempted P b t gcd) (fun _ _ => True) gcd := by
    intro x hx
    rw [wp_bind]
    refine wp_mono hx ?_ (fun _ _ h => h)
    rintro r gcd' ⟨hfound, hP⟩
    exact ⟨r, rfl, hfound, hP⟩
  -- the 64-bit window first, then the 32-bit one
  have htwo : ∀ (x : Exec Gcd (Option (BitVec 64))) (y : RootBridge → Exec Gcd (Option (BitVec 64))),
      Finds P t.space (b.resAllocNode t).length gcd x →
      Finds P t.space (b.resAllocNode t).length gcd (y b) →
      wp (x >>= fun base =>
        if ((b.place t base).resAllocNode t).status ≠ .allocated then
          y (b.place t base) >>= fun base' => pure ((b.place t base).place t base')
        else pure (b.place t base)) (Attempted P b t gcd) (fun _ _ => True) gcd := by
    intro x y hx hy
    rw [wp_bind]
    refine wp_mono hx ?_ (fun _ _ h => h)
    rintro r gcd' ⟨hfound, hP⟩
    cases r with
    | none =>
      have hsame : gcd' = gcd := hfound
      subst hsame
      rw [wp_ite]
      exact ⟨fun _ => hone (y b) hy, fun _ => ⟨none, rfl, rfl, nofun⟩⟩
    | some base =>
      have hst : ((b.place t (some base)).resAllocNode t).status = .allocated := by
        simp [RootBridge.place]
      rw [if_neg (not_not.mpr hst)]
      exact ⟨some base, rfl, hfound, hP⟩
  cases t with
  | io => exact hone _ (h _ List.mem_cons_self)
  | mem32 => exact hone _ (h _ List.mem_cons_self)
  | pMem32 => exact hone _ (h _ List.mem_cons_self)
  | mem64 =>
    exact htwo _ (fun b => placePMem32 c b.aperture (b.resAllocNode .mem64)) (h _ List.mem_cons_self)
      (h _ (List.mem_cons_of_mem _ List.mem_cons_self))
  | pMem64 =>
    exact htwo _ (fun b => placePMem32 c b.aperture (b.resAllocNode .pMem64)) (h _ List.mem_cons_self)
      (h _ (List.mem_cons_of_mem _ List.mem_cons_self))
  | bus => exact ⟨none, rfl, rfl, nofun⟩

/-! ## Searches without and with a window -/

theorem finds_loop {space : Space} {addrLen : BitVec 64} {gcd : Gcd} {inside : BitVec 64 → Bool}
    {next : BitVec 64 → BitVec 64} (fuel : Nat) (b₀ : BitVec 64) :
    Finds (fun _ => True) space addrLen gcd
      (Exec.loop fuel (fun b => tryAddress space (inside b) addrLen b (next b)) b₀) :=
  wp_mono (wp_search (I := fun _ => True) (fun _ _ _ => trivial) fuel trivial)
    (fun _ _ h => ⟨h.1, fun _ _ => trivial⟩) (fun _ _ h => h)

def IsSearch (c : Config) (space : Space) (addrLen : BitVec 64) (x : Exec Gcd (Option (BitVec 64))) :
    Prop :=
  x = pure none ∨ ∃ (inside : BitVec 64 → Bool) (next : BitVec 64 → BitVec 64) (b₀ : BitVec 64),
    x = Exec.loop c.fuel (fun b => tryAddress space (inside b) addrLen b (next b)) b₀

theorem isSearch_searches {c : Config} {a : Aperture} {node : ResNode} {t : ResType}
    {x : Exec Gcd (Option (BitVec 64))} (hx : x ∈ searches c a node t) :
    IsSearch c t.space node.length x := by
  have hIo : IsSearch c .io node.length (placeIo c a node) := by
    unfold placeIo
    split
    · exact .inr ⟨_, _, _, rfl⟩
    · exact .inl rfl
  have hMem32 : IsSearch c .memory node.length (placeMem32 c a node) := by
    unfold placeMem32
    split
    · exact .inr ⟨_, _, _, rfl⟩
    · exact .inl rfl
  have hPMem32 : IsSearch c .memory node.length (placePMem32 c a node) := by
    unfold placePMem32
    split
    · exact .inr ⟨_, _, _, rfl⟩
    · exact .inl rfl
  have hMem64 : IsSearch c .memory node.length (placeMem64 c a node) := by
    unfold placeMem64
    split
    · exact .inr ⟨_, _, _, rfl⟩
    · exact .inl rfl
  cases t with
  | io => exact List.mem_singleton.mp hx ▸ hIo
  | mem32 => exact List.mem_singleton.mp hx ▸ hMem32
  | pMem32 => exact List.mem_singleton.mp hx ▸ hPMem32
  | mem64 | pMem64 =>
    rcases List.mem_cons.mp hx with rfl | hx
    · exact hMem64
    · exact List.mem_singleton.mp hx ▸ hPMem32
  | bus => cases hx

theorem finds_searches (c : Config) (a : Aperture) (node : ResNode) (t : ResType) (gcd : Gcd) :
    ∀ x ∈ searches c a node t, Finds (fun _ => True) t.space node.length gcd x := by
  intro x hx
  rcases isSearch_searches hx with rfl | ⟨inside, next, b₀, rfl⟩
  · exact finds_none
  · exact finds_loop c.fuel b₀

def GoodAddress (a : Aperture) (t : ResType) (node : ResNode) (base : BitVec 64) : Prop :=
  InAperture a t ⟨t.space, base.toNat, node.length.toNat⟩ ∧ node.alignment.toNat + 1 ∣ base.toNat

/-- What `SubmitResources` makes sure of. -/
structure NodeOk (t : ResType) (node : ResNode) : Prop where
  alignment : ∃ n ≤ 64, node.alignment.toNat = 2 ^ n - 1
  length : t = .mem32 → node.length.toNat < 2 ^ 32

theorem NodeOk.alignmentOf {t : ResType} {node : ResNode} (h : NodeOk t node)
    (hlt : node.alignment.toNat + 1 < 2 ^ 64) : ∃ n, AlignmentOf node.alignment n := by
  obtain ⟨n, hn, heq⟩ := h.alignment
  refine ⟨n, ?_, heq⟩
  by_contra hc
  have : n = 64 := by omega
  rw [this] at heq
  omega

theorem finds_foundIn {P : BitVec 64 → Prop} {first last n : Nat} {space : Space} {addrLen : BitVec 64}
    {gcd : Gcd} {x : Exec Gcd (Option (BitVec 64))}
    (h : wp x (FoundIn first last space addrLen n gcd) (fun _ _ => True) gcd)
    (hP : ∀ base : BitVec 64, InWindow first last ⟨space, base.toNat, addrLen.toNat⟩ →
      2 ^ n ∣ base.toNat → P base) : Finds P space addrLen gcd x :=
  wp_mono h (fun _ _ hr => ⟨hr.1, fun base hb => hP base (hr.2 base hb).1 (hr.2 base hb).2⟩)
    (fun _ _ h => h)

theorem toNat_limit (x : BitVec 32) : ((x + 1).setWidth 64).toNat ≤ x.toNat + 1 := by
  rw [BitVec.toNat_setWidth, BitVec.toNat_add, show (1 : BitVec 32).toNat = 1 from rfl]
  exact (Nat.mod_le _ _).trans (Nat.mod_le _ _)

theorem toNat_wide (x : BitVec 32) : (x.setWidth 64).toNat = x.toNat := by
  rw [BitVec.toNat_setWidth]
  exact Nat.mod_eq_of_lt (x.isLt.trans (by decide))

section Fits

variable {c : Config} {a : Aperture} {node : ResNode} {gcd : Gcd} {P : BitVec 64 → Prop} {space : Space}

theorem finds_up {first last : BitVec 32} {n : Nat} (hn : AlignmentOf node.alignment n)
    (hup : UpwardFits first.toNat node)
    (hP : ∀ base : BitVec 64, InWindow first.toNat last.toNat ⟨space, base.toNat, node.length.toNat⟩ →
      node.alignment.toNat + 1 ∣ base.toNat → P base) (fuel : Nat) :
    Finds P space node.length gcd
      (Exec.loop fuel (searchUp space ((last + 1).setWidth 64) node.length node.alignment)
        (alignUp (first.setWidth 64) node.alignment)) := by
  have hup' : (first.setWidth 64).toNat + node.alignment.toNat + node.length.toNat < 2 ^ 64 := by
    rw [toNat_wide]
    exact hup
  refine finds_foundIn (wp_searchUp hn (toNat_limit last) last.isLt hup' fuel) ?_
  intro base hin hdvd
  rw [toNat_wide] at hin
  exact hP base hin (by rw [hn.toNat_add_one]; exact hdvd)

theorem finds_placeIo (hok : NodeOk .io node) (h : SearchFits c a .io node) :
    Finds (GoodAddress a .io node) .io node.length gcd (placeIo c a node) := by
  obtain ⟨hsmall, hup⟩ := h
  obtain ⟨n, hn⟩ := hok.alignmentOf (by omega)
  have hbits : ¬ bitsOfAlignment node.alignment ≥ 16 := by
    have hone := hn.toNat_add_one
    have hlt : n < 16 := (Nat.pow_lt_pow_iff_right (by decide)).mp (show 2 ^ n < 2 ^ 16 by omega)
    have hle : 2 ^ n ≤ 2 ^ 15 := Nat.pow_le_pow_right (by decide) (by omega)
    have hsize : Nat.size node.alignment.toNat ≤ 15 := Nat.size_le.mpr (by omega)
    unfold bitsOfAlignment
    omega
  unfold placeIo
  split
  · exact finds_up hn hup (fun _ hin hdvd => ⟨hin, hdvd⟩) c.fuel
  · exact finds_none

theorem finds_placeMem32 (hok : NodeOk .mem32 node) (h : SearchFits c a .mem32 node) :
    Finds (GoodAddress a .mem32 node) .memory node.length gcd (placeMem32 c a node) := by
  obtain ⟨n, hn⟩ := hok.alignmentOf h
  have hlen := hok.length rfl
  have hbase := a.mem32Base.isLt
  have hpow := hn.pow_le
  have hone := hn.toNat_add_one
  unfold placeMem32
  split
  · refine finds_up hn ?_ (fun _ hin hdvd => ⟨hin, hdvd⟩) c.fuel
    unfold UpwardFits
    omega
  · exact finds_none

theorem finds_down {first top : BitVec 64} {last n : Nat} (hn : AlignmentOf node.alignment n)
    (hfirst : 0 < first.toNat) (htop : top.toNat + node.length.toNat ≤ last + 1)
    (hP : ∀ base : BitVec 64, InWindow first.toNat last ⟨space, base.toNat, node.length.toNat⟩ →
      node.alignment.toNat + 1 ∣ base.toNat → P base) (fuel : Nat) :
    Finds P space node.length gcd
      (Exec.loop fuel (searchDown space first node.length node.alignment)
        (alignDown top node.alignment)) := by
  refine finds_foundIn (wp_searchDown hn hfirst htop fuel) ?_
  intro base hin hdvd
  exact hP base hin (by rw [hn.toNat_add_one]; exact hdvd)

theorem finds_placePMem32 {n : Nat} (hn : AlignmentOf node.alignment n) (h : Downward32Fits a node)
    (hP : ∀ base : BitVec 64,
      InWindow a.mem32Base.toNat a.mem32Limit.toNat ⟨.memory, base.toNat, node.length.toNat⟩ →
        node.alignment.toNat + 1 ∣ base.toNat → P base) :
    Finds P .memory node.length gcd (placePMem32 c a node) := by
  unfold placePMem32
  split
  · rename_i hwindow
    obtain ⟨⟨hfirst, hlen⟩, hend⟩ := h hwindow
    have hlimit : ((a.mem32Limit + 1).setWidth 64).toNat = a.mem32Limit.toNat + 1 := by
      rw [toNat_wide, BitVec.toNat_add, show (1 : BitVec 32).toNat = 1 from rfl, Nat.mod_eq_of_lt hend]
    have htop : ((a.mem32Limit + 1).setWidth 64 - node.length).toNat + node.length.toNat ≤
        a.mem32Limit.toNat + 1 := by
      rw [BitVec.toNat_sub_of_le (BitVec.le_def.mpr (by rw [hlimit]; exact hlen)), hlimit]
      omega
    refine finds_down hn (by rw [toNat_wide]; exact hfirst) htop (fun base hin => ?_) c.fuel
    rw [toNat_wide] at hin
    exact hP base hin
  · exact finds_none

theorem finds_placeMem64 {n : Nat} (hn : AlignmentOf node.alignment n)
    (h : a.mem64Base < a.mem64Limit → c.pci64BitResourceAllocation = true →
      DownwardFits a.mem64Base.toNat a.mem64Limit.toNat node)
    (hP : ∀ base : BitVec 64,
      InWindow a.mem64Base.toNat a.mem64Limit.toNat ⟨.memory, base.toNat, node.length.toNat⟩ →
        node.alignment.toNat + 1 ∣ base.toNat → P base) :
    Finds P .memory node.length gcd (placeMem64 c a node) := by
  unfold placeMem64
  split
  · rename_i hwindow
    obtain ⟨hfirst, hlen⟩ := h hwindow.1 hwindow.2
    have htop : (a.mem64Limit + 1 - node.length).toNat + node.length.toNat ≤ a.mem64Limit.toNat + 1 := by
      have hlt := node.length.isLt
      rw [BitVec.toNat_sub, BitVec.toNat_add, show (1 : BitVec 64).toNat = 1 from rfl]
      omega
    exact finds_down hn hfirst htop (fun base hin => hP base hin) c.fuel
  · exact finds_none

theorem finds_good {t : ResType} (hok : NodeOk t node) (h : SearchFits c a t node) :
    ∀ x ∈ searches c a node t, Finds (GoodAddress a t node) t.space node.length gcd x := by
  intro x hx
  cases t with
  | io => exact List.mem_singleton.mp hx ▸ finds_placeIo hok h
  | mem32 => exact List.mem_singleton.mp hx ▸ finds_placeMem32 hok h
  | pMem32 =>
    obtain ⟨n, hn⟩ := hok.alignmentOf h.1
    exact List.mem_singleton.mp hx ▸ finds_placePMem32 hn h.2 fun _ hin hdvd => ⟨hin, hdvd⟩
  | mem64 | pMem64 =>
    obtain ⟨n, hn⟩ := hok.alignmentOf h.1
    rcases List.mem_cons.mp hx with rfl | hx
    · exact finds_placeMem64 hn h.2.2 fun _ hin hdvd => ⟨.inl hin, hdvd⟩
    · exact List.mem_singleton.mp hx ▸ finds_placePMem32 hn h.2.1 fun _ hin hdvd => ⟨.inr hin, hdvd⟩
  | bus => cases hx

end Fits

end Quark.PciHostBridge
