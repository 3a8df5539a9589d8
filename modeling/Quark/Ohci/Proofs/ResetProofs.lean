import Quark.Ohci.Reset
import Quark.Ohci.Proofs.TransferProofs

/-!
# What a reset gives back

The loops of `OhciFreeFixedIntMemory` come to the first four places of each level, so 44 EDs of the
interval tree stay allocated. `OhciFreeDynamicIntMemory` goes on from the entry that it has just freed.
-/

namespace Quark.Ohci.Transfer

open Machine Exec

/-! ## What a reset is to give back -/

/-- The tree is in place: all its EDs have memory of their own in the pool, and the places that no level
has are `NULL`. -/
structure TreeInPlace (s : HcDev) : Prop where
  live : ∃ pool₀ rest, Grown pool₀ ((placeholders s).map edUnit ++ rest) s.memPool
  created : ∀ ed ∈ placeholders s, ed ≠ 0
  unused : ∀ p ∈ outerPlaces, s.intervalList p.1 p.2 = 0

/-- Freeing the interrupt structures uses no memory that has been freed, and gives back all EDs of the
tree and all interrupt transfers. -/
def ReturnsAll (asserts : Bool) (s : HcDev) : Prop :=
  wp (ohciFreeIntTransferMemory asserts) (fun _ t => (∀ ed ∈ placeholders s, ¬ HandedOut t.memPool ed) ∧
    ∀ a e, s.entry a = some e → t.entry a = none ∧ ¬ HandedOut t.memPool e.ed) (fun _ _ => False) s

def RoundReturns (asserts : Bool) (e : ResetRound) (s : HcDev) : Prop :=
  e.request.reaches = true → ReturnsAll asserts (e.between s)

/-! ## The fixed part -/

section

variable {pool₀ : MemPool} {rest : List Allocation} {s t u : HcDev} (asserts : Bool)

theorem handedOut_of_live {live : List Allocation} {pool : MemPool} (h : Grown pool₀ live pool) {ed : Nat}
    (hed : edUnit ed ∈ live) : HandedOut pool ed := by
  obtain ⟨b, hb, hinside⟩ := h.inside _ hed
  obtain ⟨base, hloaded, -⟩ := h.loaded
  obtain ⟨k, n, hmem, hlen, hunits, hpos⟩ := hinside.units (h.sound.blocks b hb)
  obtain ⟨i, hi, hget⟩ := List.mem_iff_getElem.mp hb
  have hi' : i < base.length := hloaded.length_eq ▸ hi
  have hblock := hloaded.get hi' hi
  simp only [List.get_eq_getElem, hget] at hblock
  have hk : k < b.units := by omega
  have hcovers : (edUnit ed).Covers (b.unitAddress k) := by
    have hlow := hinside.pos
    exact ⟨hmem.le, by omega⟩
  exact ⟨b, hb, k, hk, hmem.symm, (hblock.isSet k).mpr (.inr ⟨hk, _, hed, hcovers⟩)⟩

def freePlace (p : Nat × Nat) : Exec HcDev Unit := do
  let s ← .get
  .when (s.intervalList p.1 p.2 ≠ 0) (freeMem asserts (s.intervalList p.1 p.2) sizeofEd)

def createdAt (s : HcDev) (ps : List (Nat × Nat)) : List Allocation :=
  (ps.filter fun p => s.intervalList p.1 p.2 ≠ 0).map fun p => edUnit (s.intervalList p.1 p.2)

theorem createdAt_cons_pos {p : Nat × Nat} (hp : s.intervalList p.1 p.2 ≠ 0) (ps : List (Nat × Nat)) :
    createdAt s (p :: ps) = edUnit (s.intervalList p.1 p.2) :: createdAt s ps := by
  simp [createdAt, hp]

theorem createdAt_cons_neg {p : Nat × Nat} (hp : s.intervalList p.1 p.2 = 0) (ps : List (Nat × Nat)) :
    createdAt s (p :: ps) = createdAt s ps := by
  simp [createdAt, hp]

theorem freePlaces_ret (ps : List (Nat × Nat)) (t : HcDev)
    (h : Grown pool₀ (createdAt t ps ++ rest) t.memPool) :
    ∃ pool', Exec.serve (freePlace asserts) ps t = .ret () { t with memPool := pool' } ∧
      Grown pool₀ rest pool' := by
  induction ps generalizing t with
  | nil => exact ⟨t.memPool, rfl, h⟩
  | cons p ps ih =>
    by_cases hp : t.intervalList p.1 p.2 ≠ 0
    · rw [createdAt_cons_pos hp] at h
      obtain ⟨pool₁, hfree, hgrown⟩ := freeMem_ret asserts h
      obtain ⟨pool₂, hrest, hgrown₂⟩ := ih { t with memPool := pool₁ } hgrown
      refine ⟨pool₂, serve_cons_ret.mpr ⟨(), { t with memPool := pool₁ }, ?_, hrest⟩, hgrown₂⟩
      refine (bind_of_ret (get_ret t)).trans ?_
      exact (congrFun (if_pos hp) t).trans hfree
    · rw [createdAt_cons_neg (not_not.mp hp)] at h
      obtain ⟨pool₂, hrest, hgrown₂⟩ := ih t h
      refine ⟨pool₂, serve_cons_ret.mpr ⟨(), t, ?_, hrest⟩, hgrown₂⟩
      refine (bind_of_ret (get_ret t)).trans ?_
      exact congrFun (if_neg hp) t

def firstFour (level : Nat) : List (Nat × Nat) := [(level, 0), (level, 1), (level, 2), (level, 3)]

theorem level_ret {level : Nat} (h : Exec.serve (freePlace asserts) (firstFour level) t = .ret () u) :
    Exec.loop 33 (freeFixedBody asserts level) 0 t = .ret () u := by
  have hbody : ∀ index < 4, ∀ {s s' : HcDev}, freePlace asserts (level, index) s = .ret () s' →
      freeFixedBody asserts level index s = .ret (.inl (index + 1)) s' := by
    intro index hindex s s' hplace
    have heq : freeFixedBody asserts level index = freePlace asserts (level, index) >>= fun _ =>
        pure (.inl (index + 1)) := by
      obtain rfl | rfl | rfl | rfl : index = 0 ∨ index = 1 ∨ index = 2 ∨ index = 3 := by omega
      all_goals rfl
    rw [heq]
    exact bind_of_ret hplace
  obtain ⟨_, t₁, h₀, h⟩ := serve_cons_ret.mp h
  obtain ⟨_, t₂, h₁, h⟩ := serve_cons_ret.mp h
  obtain ⟨_, t₃, h₂, h⟩ := serve_cons_ret.mp h
  obtain ⟨_, t₄, h₃, h⟩ := serve_cons_ret.mp h
  injection h with _ h
  rw [loop_of_inl (hbody 0 (by decide) h₀), loop_of_inl (hbody 1 (by decide) h₁),
    loop_of_inl (hbody 2 (by decide) h₂), loop_of_inl (hbody 3 (by decide) h₃), ← h]
  exact loop_of_inr rfl _

theorem freePlaces_append (ps qs : List (Nat × Nat)) (t : HcDev)
    (h : Exec.serve (freePlace asserts) (ps ++ qs) t = .ret () u) :
    ∃ t', Exec.serve (freePlace asserts) ps t = .ret () t' ∧
      Exec.serve (freePlace asserts) qs t' = .ret () u := by
  induction ps generalizing t with
  | nil => exact ⟨t, rfl, h⟩
  | cons p ps ih =>
    obtain ⟨_, t₁, hp, hrest⟩ := serve_cons_ret.mp h
    obtain ⟨t', hps, hqs⟩ := ih t₁ hrest
    exact ⟨t', serve_cons_ret.mpr ⟨_, t₁, hp, hps⟩, hqs⟩

theorem levels_ret (levels : List Nat) (t : HcDev)
    (h : Exec.serve (freePlace asserts) (levels.flatMap firstFour) t = .ret () u) :
    Exec.serve (fun level => Exec.loop 33 (freeFixedBody asserts level) 0) levels t = .ret () u := by
  induction levels generalizing t with
  | nil => exact h
  | cons level levels ih =>
    obtain ⟨t', hlevel, hrest⟩ :=
      freePlaces_append asserts (firstFour level) (levels.flatMap firstFour) t h
    exact serve_cons_ret.mpr ⟨_, t', level_ret asserts hlevel, ih t' hrest⟩

def visitedPlaces : List (Nat × Nat) := (List.range 6).flatMap firstFour

theorem places_perm :
    places.Perm (visitedPlaces.filter (· ∈ places) ++ places.filter (· ∉ visitedPlaces)) := by
  decide

theorem ohciFreeFixedIntMemory_ret (h : TreeInPlace s) :
    ∃ t, ohciFreeFixedIntMemory asserts s = .ret () t ∧
      ∀ p ∈ places, p ∉ visitedPlaces → HandedOut t.memPool (s.intervalList p.1 p.2) := by
  obtain ⟨pool₀, rest, hgrown⟩ := h.live
  have hused : createdAt s visitedPlaces =
      (visitedPlaces.filter (· ∈ places)).map fun p => edUnit (s.intervalList p.1 p.2) := by
    unfold createdAt
    congr 1
    refine List.filter_congr fun p hp => ?_
    have hcases : ∀ p ∈ visitedPlaces, p ∈ places ∨ p ∈ outerPlaces ∧ p ∉ places := by
      decide
    rcases hcases p hp with hin | ⟨hout, hnot⟩
    · have hne := h.created _ (List.mem_map_of_mem hin)
      simp [hin, hne]
    · have hzero := h.unused p hout
      simp [hnot, hzero]
  have hperm : ((placeholders s).map edUnit ++ rest).Perm
      (createdAt s visitedPlaces ++
        ((places.filter (· ∉ visitedPlaces)).map (fun p => edUnit (s.intervalList p.1 p.2)) ++ rest)) := by
    rw [hused, ← List.append_assoc, ← List.map_append]
    unfold placeholders
    rw [List.map_map]
    exact (places_perm.map _).append_right rest
  obtain ⟨pool', hrun, hgrown'⟩ := freePlaces_ret asserts visitedPlaces s (hgrown.perm hperm)
  refine ⟨_, levels_ret asserts (List.range 6) s hrun, fun p hp hnot => ?_⟩
  refine handedOut_of_live hgrown' (List.mem_append_left _ ?_)
  exact List.mem_map_of_mem (List.mem_filter.mpr ⟨hp, by simpa using hnot⟩)

/-! ## The dynamic part -/

def held (s : HcDev) : (Nat → Option InterruptContextEntry) × Nat × List Nat :=
  (s.entry, s.interruptContextList, s.poolMemory)

def contexts (s : HcDev) : (Nat → Option InterruptContextEntry) × Nat := (s.entry, s.interruptContextList)

theorem keeps_contexts {α : Type} {x : Exec HcDev α} (h : Keeps held x) : Keeps contexts x :=
  h.of_comp fun r => (r.1, r.2.1)

theorem keeps_resetUnits {σ γ : Type} {f : σ → γ} (count byte bit : Nat) (block : MemBlock) :
    Keeps f (resetUnits asserts count byte bit block : Exec σ MemBlock) := by
  induction count generalizing byte bit block with
  | zero => exact .pure _
  | succ count ih =>
    refine .bind ?_ fun _ => ih _ _ _
    exact .ite (.halt _) (.pure _)

theorem keeps_usbHcFreeMem {σ γ : Type} {f : σ → γ} (pool : MemPool) (mem size : Nat) :
    Keeps f (usbHcFreeMem asserts pool mem size : Exec σ MemPool) := by
  unfold usbHcFreeMem
  dsimp only
  cases findHolding mem (usbHcMemRound size) pool with
  | none =>
    refine .bind ?_ fun _ => .halt _
    exact .ite (.halt _) (.pure _)
  | some found => exact .bind (keeps_resetUnits asserts _ _ _ _) fun _ => .ite (.pure _) (.pure _)

theorem keeps_freeMem (mem size : Nat) : Keeps held (freeMem asserts mem size) := by
  refine .bind .get fun s => ?_
  exact .bind (keeps_usbHcFreeMem asserts _ _ _) fun _ => .modify fun _ => rfl

theorem keeps_freeTds (headTd : Nat) : Keeps held (freeTds asserts headTd) := by
  refine .loop (fun td => ?_) _ _
  refine .ite (.bind .get fun s => ?_) (.pure _)
  exact .bind (keeps_freeMem asserts _ _) fun _ => .pure _

theorem keeps_freeInterruptEdAt (intEd index : Nat) :
    Keeps held (freeInterruptEdAt asserts intEd index) := by
  refine .bind .get fun s => .when (.loop (fun ed => ?_) _ _)
  refine .bind .get fun s => .ite (.ite ?_ (.pure _)) (.pure _)
  refine .bind (.modify fun _ => rfl) fun _ => ?_
  exact .bind (.when (keeps_freeMem asserts _ _)) fun _ => .pure _

theorem keeps_ohciFreeInterruptEdByEd (intEd : Nat) :
    Keeps held (ohciFreeInterruptEdByEd asserts intEd) :=
  .when (.serve (fun index => keeps_freeInterruptEdAt asserts intEd index) _)

theorem wp_ohciFreeInterruptContextEntry (entry : Nat) (t : HcDev) :
    wp (ohciFreeInterruptContextEntry asserts entry)
      (fun _ u => u.entry entry = none ∧ u.interruptContextList = t.interruptContextList)
      (fun _ _ => True) t := by
  unfold ohciFreeInterruptContextEntry
  rw [wp_bind, wp_get]
  cases t.entry entry with
  | none => trivial
  | some e =>
    have hkeeps : Keeps contexts (do
        unmap e.uCBufferMapping
        .when (e.uCBuffer ≠ 0) (freePool e.uCBuffer)
        freeTds asserts e.dataTd
        freePool entry) := by
      refine .bind (.when (.modify fun _ => rfl)) fun _ => ?_
      refine .bind (.when (.modify fun _ => rfl)) fun _ => ?_
      exact .bind (keeps_contexts (keeps_freeTds asserts _)) fun _ => .modify fun _ => rfl
    have hlist := hkeeps.wp t
    simp only [wp_bind] at hlist ⊢
    refine wp_mono hlist (fun _ u hu => ?_) fun _ _ _ => trivial
    refine wp_mono hu (fun _ v hv => ?_) fun _ _ _ => trivial
    refine wp_mono hv (fun _ w hw => ?_) fun _ _ _ => trivial
    refine wp_mono hw (fun _ x hx => ?_) fun _ _ _ => trivial
    rw [wp_modify]
    exact ⟨Function.update_self _ _ _, congrArg Prod.snd hx⟩

theorem wp_freeDynamicBody (hlist : t.interruptContextList ≠ 0) :
    wp (freeDynamicBody asserts ()) (fun _ _ => False) (fun _ _ => True) t := by
  unfold freeDynamicBody
  rw [wp_bind, wp_get, if_pos hlist]
  cases t.entry t.interruptContextList with
  | none => trivial
  | some e =>
    dsimp only
    rw [wp_bind]
    have hkeeps := keeps_contexts (keeps_ohciFreeInterruptEdByEd asserts e.ed)
    refine wp_mono (hkeeps.wp t) (fun _ u hu => ?_) fun _ _ _ => trivial
    rw [wp_bind]
    refine wp_mono (wp_ohciFreeInterruptContextEntry asserts t.interruptContextList u) ?_ fun _ _ _ => trivial
    rintro _ v ⟨hgone, hsame⟩
    have hhead : v.interruptContextList = t.interruptContextList := hsame.trans (congrArg Prod.snd hu)
    rw [wp_bind, wp_get, hhead, hgone]
    trivial

theorem ohciFreeDynamicIntMemory_live (hlist : t.interruptContextList ≠ 0) :
    wp (ohciFreeDynamicIntMemory asserts) (fun _ _ => False) (fun _ _ => True) t := by
  have hstep : ∀ n,
      wp (Exec.loop n (freeDynamicBody asserts) ()) (fun _ _ => False) (fun _ _ => True) t := by
    intro n
    cases n with
    | zero => trivial
    | succ n =>
      rw [wp_loop_succ]
      exact wp_mono (wp_freeDynamicBody asserts hlist) (fun _ _ hno => hno.elim) fun _ _ hE => hE
  exact hstep walkLimit

theorem ohciFreeDynamicIntMemory_empty (hlist : t.interruptContextList = 0) :
    ohciFreeDynamicIntMemory asserts t = .ret () t := by
  have hbody : freeDynamicBody asserts () t = .ret (.inr ()) t := by
    refine (bind_of_ret (get_ret t)).trans ?_
    exact congrFun (if_neg (not_not.mpr hlist)) t
  exact loop_of_inr hbody _

/-! ## Resets -/

theorem TreeInPlace.not_returnsAll (h : TreeInPlace s) : ¬ ReturnsAll asserts s := by
  intro hall
  unfold ReturnsAll ohciFreeIntTransferMemory at hall
  rw [wp_bind] at hall
  by_cases hlist : s.interruptContextList = 0
  · have hfixed := wp_of_ret hall (ohciFreeDynamicIntMemory_empty asserts hlist)
    obtain ⟨t, hrun, hleft⟩ := ohciFreeFixedIntMemory_ret asserts h
    have hback := (wp_of_ret hfixed hrun).1
    -- the fifth ED of the first level is one that the loop does not come to
    have hplace : (0, 4) ∈ places := by decide
    refine hback (s.intervalList 0 4) ?_ (hleft (0, 4) hplace (by decide))
    exact List.mem_map_of_mem hplace
  · have hnever := wp_and (ohciFreeDynamicIntMemory_live asserts hlist) hall
    obtain ⟨_, t, -, hno, -⟩ := returns_of_wp (wp_mono hnever (fun _ _ hQ => hQ) fun _ _ hE => hE.2)
    exact hno

theorem ohciReset_of_not_reaches {p : ResetRequest} (h : p.reaches = false) (t : HcDev) :
    ∃ status, ohciReset asserts p t = .ret status t := by
  unfold ohciReset
  by_cases hattributes : p.attributesValid = false
  · exact ⟨_, congrFun (if_pos hattributes) t⟩
  · rw [if_neg hattributes]
    by_cases hreset : p.resetHostController = true ∧ (p.resetStarted = false ∨ p.resetDone = false)
    · exact ⟨_, congrFun (if_pos hreset) t⟩
    · have hreaches : p.reaches = true := decide_eq_true ⟨eq_true_of_ne_false hattributes, hreset⟩
      rw [h] at hreaches
      cases hreaches

/-- Resets give everything back exactly if none of them gets as far as giving back anything. -/
theorem resets_returnAll_iff (rounds : List ResetRound) (s : HcDev) (h : TreeInPlace s)
    (hbetween : ∀ e ∈ rounds, ∀ t, TreeInPlace t → TreeInPlace (e.between t)) :
    EachMeets (serveRound asserts) (RoundReturns asserts) rounds s ↔
      ∀ e ∈ rounds, e.request.reaches = false := by
  induction rounds generalizing s with
  | nil => exact iff_of_true trivial nofun
  | cons e rounds ih =>
    have hplace := hbetween e List.mem_cons_self s h
    by_cases hreaches : e.request.reaches = true
    · refine iff_of_false (fun hmeets => ?_) fun hnone => ?_
      · exact hplace.not_returnsAll asserts (hmeets.1 hreaches)
      · rw [hnone e List.mem_cons_self] at hreaches
        cases hreaches
    · rw [Bool.not_eq_true] at hreaches
      obtain ⟨status, hreset⟩ := ohciReset_of_not_reaches asserts hreaches (e.between s)
      have hserve : serveRound asserts e s = .ret status (e.between s) := hreset
      have hround : RoundReturns asserts e s := fun hyes => by
        rw [hreaches] at hyes
        cases hyes
      have hrest := ih (e.between s) hplace fun x hx => hbetween x (List.mem_cons_of_mem e hx)
      rw [eachMeets_cons, hserve, and_iff_right hround, List.forall_mem_cons, and_iff_right hreaches]
      exact hrest

end

/-! ## The tree that is built -/

section

variable {buffer : Nat → Option Nat} {pool₀ : MemPool} {live rest : List Allocation} {i : Nat}
  {t u : HcDev} (asserts : Bool)

theorem Owns.later {pool : MemPool} (h : Owns buffer pool₀ i live pool) :
    Owns buffer pool₀ (i + 1) live pool := by
  refine ⟨h.grown, fun j hj => h.fresh.fresh j (by omega), ?_⟩
  exact fun j k hj hk => h.fresh.apart j k (by omega) (by omega)

theorem createdAt_cons (s : HcDev) (p : Nat × Nat) (ps : List (Nat × Nat)) :
    createdAt s (p :: ps) = createdAt s [p] ++ createdAt s ps := by
  unfold createdAt
  rw [← List.map_append, ← List.filter_append]
  rfl

theorem createdAt_congr {s s' : HcDev} {ps : List (Nat × Nat)}
    (h : ∀ p ∈ ps, s.intervalList p.1 p.2 = s'.intervalList p.1 p.2) :
    createdAt s ps = createdAt s' ps := by
  unfold createdAt
  rw [List.filter_congr fun p hp => by rw [h p hp]]
  exact List.map_congr_left fun p hp => by rw [h p (List.mem_of_mem_filter hp)]

theorem createTable_ret (count : Nat) (hcount : count ≤ 32) (t : HcDev) (live : List Allocation)
    (h : Owns buffer pool₀ (32 - count) live t.memPool) :
    ∃ status u, createTable asserts buffer count t = .ret status u ∧ (status = .success →
      Owns buffer pool₀ 32
        (((List.range' (32 - count) count).map fun i => edUnit (u.hccaInterruptTable i)) ++ live)
        u.memPool ∧
      (∀ i < 32 - count, u.hccaInterruptTable i = t.hccaInterruptTable i) ∧
      u.intervalList = t.intervalList) := by
  induction count generalizing t live with
  | zero => exact ⟨_, t, rfl, fun _ => ⟨h, fun _ _ => rfl, rfl⟩⟩
  | succ count ih =>
    have hindex : 32 - (count + 1) = 31 - count := by omega
    have hnext : 31 - count + 1 = 32 - count := by omega
    rw [hindex] at h ⊢
    obtain ⟨ed, t', hcreate, hout⟩ := ohciCreateED_ret asserts h
    have hrun : createTable asserts buffer (count + 1) t =
        (if ed = 0 then pure .outOfResources else createTable asserts buffer count)
          { t' with hccaInterruptTable := Function.update t'.hccaInterruptTable (31 - count) ed } :=
      bind_of_ret hcreate
    rcases hout with ⟨hzero, -, -⟩ | ⟨hne, -, -, pool', rfl, howns⟩
    · exact ⟨_, _, hrun.trans (congrFun (if_pos hzero) _), nofun⟩
    · rw [hnext] at howns
      obtain ⟨status, u, htable, hu⟩ := ih (by omega)
        { t with
          memPool := pool'
          ed := Function.update t.ed ed (ohciSetEDField .skip 1 zeroEd)
          hccaInterruptTable := Function.update t.hccaInterruptTable (31 - count) ed }
        (edUnit ed :: live) howns
      refine ⟨status, u, (hrun.trans (congrFun (if_neg hne) _)).trans htable, fun hok => ?_⟩
      obtain ⟨hall, hbefore, hintervals⟩ := hu hok
      have hed : u.hccaInterruptTable (31 - count) = ed :=
        (hbefore (31 - count) (by omega)).trans (Function.update_self _ _ _)
      refine ⟨hall.perm ?_, fun i hi => ?_, hintervals⟩
      · rw [List.range'_succ, List.map_cons, hed, hnext]
        exact List.perm_middle
      · rw [hbefore i (by omega)]
        exact Function.update_of_ne (by omega) _ _

theorem wp_createInterval (p : Nat × Nat) (h : Owns buffer pool₀ i live t.memPool) :
    wp (createInterval asserts buffer i p.1 p.2)
      (fun _ u => Owns buffer pool₀ (i + 1) (createdAt u [p] ++ live) u.memPool ∧
        ∀ q, q ≠ p → u.intervalList q.1 q.2 = t.intervalList q.1 q.2) (fun _ _ => True) t := by
  obtain ⟨ed, t', hcreate, hout⟩ := ohciCreateED_ret asserts h
  unfold createInterval
  rw [wp_bind]
  refine wp_of_eq_ret hcreate ?_
  -- the links change neither the pool nor the table
  have hlinked : ∀ u : HcDev, u.memPool = t'.memPool → u.intervalList = Function.update t'.intervalList p.1
      (Function.update (t'.intervalList p.1) p.2 ed) →
      Owns buffer pool₀ (i + 1) (createdAt u [p] ++ live) u.memPool ∧
        ∀ q, q ≠ p → u.intervalList q.1 q.2 = t.intervalList q.1 q.2 := by
    intro u hpool hintervals
    have hat : u.intervalList p.1 p.2 = ed := by
      rw [hintervals, Function.update_self, Function.update_self]
    have helse : ∀ q, q ≠ p → u.intervalList q.1 q.2 = t'.intervalList q.1 q.2 := by
      intro q hq
      rw [hintervals]
      by_cases hlevel : q.1 = p.1
      · have hplace : q.2 ≠ p.2 := fun heq => hq (Prod.ext hlevel heq)
        rw [hlevel, Function.update_self, Function.update_of_ne hplace]
      · rw [Function.update_of_ne hlevel]
    rw [hpool]
    rcases hout with ⟨hzero, rfl, -⟩ | ⟨hne, -, -, pool', rfl, howns⟩
    · have hnone : createdAt u [p] = [] := by simp [createdAt, hat, hzero]
      rw [hnone]
      exact ⟨h.later, helse⟩
    · have hone : createdAt u [p] = [edUnit ed] := by simp [createdAt, hat, hne]
      rw [hone]
      exact ⟨howns, helse⟩
  simp only [storeInterval, modifyEd, wp_bind, wp_modify, wp_get, wp_ite, wp_pure, wp_halt]
  refine ⟨fun _ => hlinked _ rfl rfl, fun _ => ⟨fun _ => trivial, fun _ => hlinked _ rfl rfl⟩⟩

theorem wp_createIntervals (ps : List (Nat × Nat)) (hps : ps.Nodup) (i : Nat) (t : HcDev)
    (live : List Allocation) (h : Owns buffer pool₀ i live t.memPool) :
    wp (createIntervals asserts buffer i ps) (fun status u => status = .success →
      (∃ n, Owns buffer pool₀ n (createdAt u ps ++ live) u.memPool) ∧
      ∀ q ∉ ps, u.intervalList q.1 q.2 = t.intervalList q.1 q.2) (fun _ _ => True) t := by
  induction ps generalizing i t live with
  | nil => exact fun _ => ⟨⟨i, h⟩, fun _ _ => rfl⟩
  | cons p ps ih =>
    obtain ⟨hp, hps⟩ := List.nodup_cons.mp hps
    unfold createIntervals
    rw [wp_bind]
    refine wp_mono (wp_createInterval asserts p h) ?_ fun _ _ hE => hE
    rintro status u ⟨howns, helse⟩
    rw [wp_ite]
    refine ⟨fun herror hok => ?_, fun _ => ?_⟩
    · rw [hok] at herror
      cases herror
    · refine wp_mono (ih hps _ u _ howns) (fun status v hv hok => ?_) fun _ _ hE => hE
      obtain ⟨⟨n, hn⟩, hrest⟩ := hv hok
      refine ⟨⟨n, hn.perm ?_⟩, fun q hq => ?_⟩
      · have hsame : createdAt u [p] = createdAt v [p] := by
          refine createdAt_congr fun q hq => ?_
          rw [List.mem_singleton.mp hq]
          exact (hrest p hp).symm
        rw [createdAt_cons v p ps, hsame, ← List.append_assoc]
        exact List.perm_append_comm.append_right live
      · rw [List.mem_cons, not_or] at hq
        rw [hrest q hq.2, helse q hq.1]

def leafAt (index : Nat) : Nat := leafOrder[index]?.getD 0

theorem leafOrder_getElem? {α : Type} (d : α) (f : Nat → α) {index : Nat} (hindex : index < 32) :
    (match leafOrder[index]? with
      | none => d
      | some leaf => f leaf) = f (leafAt index) := by
  have hlength : index < leafOrder.length := hindex
  unfold leafAt
  rw [List.getElem?_eq_getElem hlength]
  rfl

theorem leafOrder_perm : ((List.range 32).map leafAt).Perm (List.range 32) := by
  decide

theorem wp_ohciInitializeInterruptList (h : Owns buffer pool₀ 0 rest t.memPool)
    (hunused : ∀ p ∈ outerPlaces, t.intervalList p.1 p.2 = 0) :
    wp (ohciInitializeInterruptList asserts buffer) (fun status u => status = .success →
      (∀ ed ∈ placeholders u, ed ≠ 0) → TreeInPlace u) (fun _ _ => True) t := by
  obtain ⟨status, u, htable, hu⟩ := createTable_ret asserts 32 (Nat.le_refl 32) t rest h
  unfold ohciInitializeInterruptList
  rw [wp_bind]
  refine wp_of_eq_ret htable ?_
  rw [wp_ite]
  refine ⟨fun herror hok => ?_, fun hok => ?_⟩
  · rw [hok] at herror
    cases herror
  · have hsuccess := EfiStatus.isError_eq_false.mp (Bool.eq_false_of_not_eq_true hok)
    obtain ⟨howns, -, hintervals⟩ := hu hsuccess
    rw [wp_bind, wp_modify]
    refine wp_mono (wp_createIntervals asserts innerPlaces (by decide) 32 _ _ howns) ?_ fun _ _ hE => hE
    intro status v hv hstatus hcreated
    obtain ⟨⟨n, hn⟩, helse⟩ := hv hstatus
    -- the leaves are the EDs of the table in another order
    have hleaf : ∀ index < 32, v.intervalList 0 index = u.hccaInterruptTable (leafAt index) := by
      intro index hindex
      have hnot : (0, index) ∉ innerPlaces := by
        unfold innerPlaces
        simp
      refine (helse (0, index) hnot).trans ?_
      show Function.update u.intervalList 0 _ 0 index = _
      rw [Function.update_self]
      exact leafOrder_getElem? (u.intervalList 0 index) u.hccaInterruptTable hindex
    have hinner : createdAt v innerPlaces = innerPlaces.map fun p => edUnit (v.intervalList p.1 p.2) := by
      unfold createdAt
      congr 1
      refine List.filter_eq_self.mpr fun p hp => decide_eq_true ?_
      exact hcreated _ (List.mem_map_of_mem (List.mem_append_right _ hp))
    have hlevel : ((List.range 32).map fun index => edUnit (v.intervalList 0 index)).Perm
        ((List.range 32).map fun i => edUnit (u.hccaInterruptTable i)) := by
      have hmap : ((List.range 32).map fun index => edUnit (v.intervalList 0 index)) =
          ((List.range 32).map leafAt).map fun i => edUnit (u.hccaInterruptTable i) := by
        rw [List.map_map]
        refine List.map_congr_left fun index hindex => ?_
        rw [hleaf index (List.mem_range.mp hindex)]
        rfl
      rw [hmap]
      exact leafOrder_perm.map _
    refine ⟨⟨pool₀, rest, hn.grown.perm ?_⟩, hcreated, fun p hp => ?_⟩
    · have hplaceholders : (placeholders v).map edUnit =
          ((List.range 32).map fun index => edUnit (v.intervalList 0 index)) ++
            innerPlaces.map fun p => edUnit (v.intervalList p.1 p.2) := by
        unfold placeholders places
        rw [List.map_map, List.map_append, List.map_map]
        rfl
      rw [hplaceholders, hinner, List.append_assoc]
      refine (List.perm_append_comm_assoc _ _ _).trans ?_
      exact hlevel.symm.append_right _
    · have hnot : p ∉ innerPlaces ∧ p.1 ≠ 0 := by
        revert p
        decide
      refine (helse p hnot.1).trans ?_
      have hrow : Function.update u.intervalList 0 (fun index => match leafOrder[index]? with
          | none => u.intervalList 0 index
          | some leaf => u.hccaInterruptTable leaf) p.1 = u.intervalList p.1 :=
        Function.update_of_ne hnot.2 _ _
      exact (congrFun hrow p.2).trans ((congrFun (congrFun hintervals p.1) p.2).trans (hunused p hp))

theorem ohciInitializeInterruptList_inPlace (h : Owns buffer pool₀ 0 rest t.memPool)
    (hunused : ∀ p ∈ outerPlaces, t.intervalList p.1 p.2 = 0)
    (hrun : ohciInitializeInterruptList asserts buffer t = .ret .success u)
    (hcreated : ∀ ed ∈ placeholders u, ed ≠ 0) : TreeInPlace u :=
  wp_of_ret (wp_ohciInitializeInterruptList asserts h hunused) hrun rfl hcreated

end

/-! ## A tree to begin with -/

@[irreducible] def treeDev : HcDev := (ohciInitializeInterruptList true (fun _ => none) resetDev).state

theorem treeDev_inPlace : TreeInPlace treeDev := by
  have howns : Owns (fun _ => none) [emptyBlock] 0 [] resetDev.memPool :=
    ⟨.none resetDev_sound, (resetDev_start (.ok ⟨0x2000, 20, 8⟩)).fresh⟩
  have hrun : (ohciInitializeInterruptList true (fun _ => none) resetDev).value? = some .success ∧
      ∀ ed ∈ placeholders (ohciInitializeInterruptList true (fun _ => none) resetDev).state, ed ≠ 0 := by
    decide +kernel
  unfold treeDev
  exact ohciInitializeInterruptList_inPlace true howns (fun _ _ => rfl) (Outcome.eq_ret hrun.1) hrun.2

def plainReset : ResetRequest where
  attributesValid := true
  resetHostController := false
  resetStarted := true
  resetDone := true
  resetGlobal := false
  stateWritten := true
  buffer _ := none

theorem resets_returnAll_iff_treeDev :
    EachMeets (serveRound true) (RoundReturns true) [⟨id, plainReset⟩] treeDev ↔
      ∀ e ∈ [(⟨id, plainReset⟩ : ResetRound)], e.request.reaches = false :=
  resets_returnAll_iff true [⟨id, plainReset⟩] treeDev treeDev_inPlace fun e he t ht => by
    rw [List.mem_singleton.mp he]
    exact ht

theorem resets_not_returnAll :
    TreeInPlace treeDev ∧
      ¬ EachMeets (serveRound true) (RoundReturns true) [⟨id, plainReset⟩] treeDev :=
  ⟨treeDev_inPlace, fun hmeets => treeDev_inPlace.not_returnsAll true (hmeets.1 rfl)⟩

end Quark.Ohci.Transfer
