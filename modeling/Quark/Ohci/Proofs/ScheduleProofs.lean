import Quark.Ohci.TransferSpec
import Quark.Ohci.Proofs.PoolRunProofs

/-!
# Descriptors of a transfer

What creating, linking and freeing descriptors does to the pool and to the list of TDs.
-/

namespace Quark.Ohci.Transfer

open Machine Exec

theorem get_ret (t : HcDev) : (Exec.get : Exec HcDev HcDev) t = .ret t t := rfl

/-! ## Descriptors as allocations -/

def tdUnit (td : Nat) : Allocation := ⟨td, sizeofTd⟩

def edUnit (ed : Nat) : Allocation := ⟨ed, sizeofEd⟩

/-- What `PciIo->AllocateBuffer` promises during one transfer, for the descriptors from number `i` on:
the buffers share no memory with the blocks of the pool, nor with one another. -/
structure FreshFrom (i : Nat) (pool : MemPool) (buffer : Nat → Option Nat) : Prop where
  fresh : ∀ j, i ≤ j → ∀ p, buffer j = some p → FreshBuffer pool sizeofTd p
  apart : ∀ j k, i ≤ j → i ≤ k → j ≠ k → ∀ p q, buffer j = some p → buffer k = some q →
    p + 0x10000 ≤ q ∨ q + 0x10000 ≤ p

structure Owns (buffer : Nat → Option Nat) (pool₀ : MemPool) (i : Nat) (live : List Allocation)
    (pool : MemPool) : Prop where
  grown : Grown pool₀ live pool
  fresh : FreshFrom i pool buffer

structure NoMemory (pool : MemPool) (buffer : Option Nat) : Prop where
  buffer : buffer = none
  full : ∀ b ∈ pool, ∀ k, ¬ b.Free k 1

section

variable {buffer : Nat → Option Nat} {pool₀ pool pool' : MemPool} {live live' : List Allocation}
  {i : Nat} {t : HcDev} (asserts : Bool)

theorem FreshFrom.next (h : FreshFrom i pool buffer) {size : Nat} {r : Option Nat}
    (hpages : newBlockPages (usbHcMemRound size) = 16)
    (ha : Allocated pool₀ live pool size (buffer i) r pool') : FreshFrom (i + 1) pool' buffer := by
  refine ⟨fun j hj p hp => ?_, fun j k hj hk => h.apart j k (by omega) (by omega)⟩
  have hfresh := h.fresh j (by omega) p hp
  cases ha with
  | nothing _ _ => exact hfresh
  | entered _ _ _ _ hblocks =>
    refine ⟨hfresh.aligned, hfresh.pos, hfresh.below, fun b' hb' => ?_⟩
    rcases hblocks b' hb' with ⟨b, hb, -, hhost, hlen⟩ | ⟨hbuffer, hlen⟩
    · rw [hhost, hlen]
      exact hfresh.apart b hb
    · have hsep := h.apart i j (Nat.le_refl i) (by omega) (by omega) b'.bufHost p hbuffer hp
      have htd : newBlockPages (usbHcMemRound sizeofTd) = 16 := by decide
      rw [hlen, hpages, htd]
      exact hsep

theorem Owns.perm (h : Owns buffer pool₀ i live pool) (hlive : live.Perm live') :
    Owns buffer pool₀ i live' pool :=
  ⟨h.grown.perm hlive, h.fresh⟩

theorem Owns.allocate (h : Owns buffer pool₀ i live pool) (size : Nat) (hpos : 0 < size)
    (hsize : size ≤ sizeofTd) (s : HcDev) :
    ∃ r pool', (usbHcAllocateMem asserts pool size (buffer i) : Exec HcDev _) s = .ret (r, pool') s ∧
      ((r = none ∧ pool' = pool ∧ NoMemory pool (buffer i)) ∨
        ∃ mem, r = some mem ∧ 0 < mem ∧ mem < 0x100000000 ∧ ¬ NoMemory pool (buffer i) ∧
          Owns buffer pool₀ (i + 1) (⟨mem, size⟩ :: live) pool') := by
  change size ≤ 32 at hsize
  have hround : usbHcMemRound size = 64 := by
    rw [usbHcMemRound_eq (by change size + 64 ≤ _; omega)]
    change (size + 63) / 64 * 64 = 64
    omega
  have hpages : newBlockPages (usbHcMemRound size) = 16 := by
    rw [hround]
    decide
  have hbuffer : ∀ p, buffer i = some p → FreshBuffer pool size p := by
    intro p hp
    have hfresh := h.fresh.fresh i (Nat.le_refl i) p hp
    have htd : newBlockPages (usbHcMemRound sizeofTd) = 16 := by decide
    refine ⟨hfresh.aligned, hfresh.pos, ?_, ?_⟩
    · have hbelow := hfresh.below
      rw [htd] at hbelow
      rw [hpages]
      exact hbelow
    · have hapart := hfresh.apart
      rw [htd] at hapart
      rw [hpages]
      exact hapart
  obtain ⟨r, pool', hcall, hr⟩ := usbHcAllocateMem_ret asserts h.grown hpos
    (by change size + 64 ≤ _; omega) hbuffer s
  have hnext := h.fresh.next hpages hr
  refine ⟨r, pool', hcall, ?_⟩
  cases hr with
  | nothing hbuffer hfull =>
    rw [hround] at hfull
    exact .inl ⟨rfl, rfl, hbuffer, hfull⟩
  | @entered mem _ hmem hlt hroom hgrown _ =>
    rw [hround] at hroom
    refine .inr ⟨mem, rfl, hmem, hlt, fun hnone => ?_, hgrown, hnext⟩
    obtain ⟨b, hb, k, hfree⟩ := hroom hnone.buffer
    exact hnone.full b hb k hfree

theorem ohciCreateTD_ret (h : Owns buffer pool₀ i live t.memPool) :
    ∃ td t', ohciCreateTD asserts (buffer i) t = .ret td t' ∧
      ((td = 0 ∧ t' = t ∧ NoMemory t.memPool (buffer i)) ∨
        (td ≠ 0 ∧ td < 0x100000000 ∧ ¬ NoMemory t.memPool (buffer i) ∧ ∃ pool',
          t' = { t with
            memPool := pool'
            td := Function.update t.td td zeroTd } ∧
          Owns buffer pool₀ (i + 1) (tdUnit td :: live) pool')) := by
  obtain ⟨r, pool', hcall, hr⟩ :=
    h.allocate asserts sizeofTd (by decide) (Nat.le_refl _) t
  have hrun : ohciCreateTD asserts (buffer i) t = _ :=
    (bind_of_ret (get_ret t)).trans (bind_of_ret hcall)
  rcases hr with ⟨rfl, rfl, hnext⟩ | ⟨td, rfl, hpos, hlt, hroom, hnext⟩
  · exact ⟨0, t, hrun.trans rfl, .inl ⟨rfl, rfl, hnext⟩⟩
  · exact ⟨td, _, hrun.trans rfl, .inr ⟨by omega, hlt, hroom, pool', rfl, hnext⟩⟩

theorem ohciCreateED_ret (h : Owns buffer pool₀ i live t.memPool) :
    ∃ ed t', ohciCreateED asserts (buffer i) t = .ret ed t' ∧
      ((ed = 0 ∧ t' = t ∧ NoMemory t.memPool (buffer i)) ∨
        (ed ≠ 0 ∧ ed < 0x100000000 ∧ ¬ NoMemory t.memPool (buffer i) ∧ ∃ pool',
          t' = { t with
            memPool := pool'
            ed := Function.update t.ed ed (ohciSetEDField .skip 1 zeroEd) } ∧
          Owns buffer pool₀ (i + 1) (edUnit ed :: live) pool')) := by
  obtain ⟨r, pool', hcall, hr⟩ :=
    h.allocate asserts sizeofEd (by decide) (by decide) t
  have hrun : ohciCreateED asserts (buffer i) t = _ :=
    (bind_of_ret (get_ret t)).trans (bind_of_ret hcall)
  rcases hr with ⟨rfl, rfl, hnext⟩ | ⟨ed, rfl, hpos, hlt, hroom, hnext⟩
  · exact ⟨0, t, hrun.trans rfl, .inl ⟨rfl, rfl, hnext⟩⟩
  · exact ⟨ed, _, hrun.trans rfl, .inr ⟨by omega, hlt, hroom, pool', rfl, hnext⟩⟩

theorem freeMem_ret {a : Allocation} (h : Grown pool₀ (a :: live) t.memPool) :
    ∃ pool', freeMem asserts a.mem a.size t = .ret () { t with memPool := pool' } ∧
      Grown pool₀ live pool' := by
  obtain ⟨pool', hcall, hgrown⟩ := usbHcFreeMem_ret asserts h t
  have hrun : freeMem asserts a.mem a.size t = _ :=
    (bind_of_ret (get_ret t)).trans (bind_of_ret hcall)
  exact ⟨pool', hrun, hgrown⟩

end

/-! ## Lists of TDs -/

def TdDescriptor.unlinked (td : TdDescriptor) : TdDescriptor := { td with
  nextTD := 0
  nextTDPointer := 0 }

section

variable {t : HcDev} {td td' : Nat → TdDescriptor} {headTd z q : Nat} {tds : List Nat}

theorem TdList.single {a : Nat} (hne : a ≠ 0) (hlt : a < 0x100000000) (hnext : (td a).nextTD = 0)
    (hpointer : (td a).nextTDPointer = 0) : TdList td a [a] :=
  ⟨⟨rfl, hne, _, rfl, hnext⟩, ⟨rfl, hne, _, rfl, hpointer⟩, fun b hb => by
    rw [List.mem_singleton.mp hb]
    exact hlt⟩

theorem TdList.congr (h : TdList td headTd tds) (hnext : ∀ a ∈ tds, (td' a).nextTD = (td a).nextTD)
    (hpointer : ∀ a ∈ tds, (td' a).nextTDPointer = (td a).nextTDPointer) : TdList td' headTd tds := by
  refine ⟨h.next.congr fun a ha x hx => ?_, h.pointer.congr fun a ha x hx => ?_, h.below⟩
  · cases hx
    exact ⟨_, rfl, hnext a ha⟩
  · cases hx
    exact ⟨_, rfl, hpointer a ha⟩

theorem TdList.snoc (h : TdList td headTd (tds ++ [z])) (hq : q ≠ 0) (hlt : q < 0x100000000)
    (hfresh : q ∉ tds ++ [z]) (hnext : (td q).nextTD = 0) (hpointer : (td q).nextTDPointer = 0) :
    TdList (Function.update td z { td z with
      nextTD := q
      nextTDPointer := q }) headTd (tds ++ [z] ++ [q]) := by
  have hz : z ∉ tds := fun hmem => by
    have hnodup := h.next.nodup
    rw [List.nodup_append] at hnodup
    exact hnodup.2.2 z hmem z List.mem_cons_self rfl
  have hqz : q ≠ z := by
    rintro rfl
    exact hfresh (by simp)
  have hother : ∀ a ∈ tds, a ≠ z := fun a ha heq => hz (heq ▸ ha)
  refine ⟨h.next.snoc (v := { td z with nextTD := q, nextTDPointer := q }) (w := td q) ?_ rfl hq ?_
    hnext fun a ha x hx => ?_, h.pointer.snoc (v := { td z with nextTD := q, nextTDPointer := q })
    (w := td q) ?_ rfl hq ?_ hpointer fun a ha x hx => ?_, fun a ha => ?_⟩
  · rw [Function.update_self]
  · rw [Function.update_of_ne hqz]
  · cases hx
    rw [Function.update_of_ne (hother a ha)]
    exact ⟨_, rfl, rfl⟩
  · rw [Function.update_self]
  · rw [Function.update_of_ne hqz]
  · cases hx
    rw [Function.update_of_ne (hother a ha)]
    exact ⟨_, rfl, rfl⟩
  · rcases List.mem_append.mp ha with ha | ha
    · exact h.below a ha
    · rw [List.mem_singleton.mp ha]
      exact hlt

theorem loop_lastTd : ∀ {tds : List Nat} {headTd : Nat},
    Linked TdDescriptor.nextTD (fun a => some (t.td a)) headTd (tds ++ [z]) →
      ∀ n, tds.length < n → Exec.loop n lastTdBody headTd t = .ret z t := by
  intro tds
  induction tds with
  | nil =>
    rintro headTd ⟨rfl, hne, x, hx, hend⟩ n hn
    obtain ⟨n, rfl⟩ : ∃ m, n = m + 1 := ⟨n - 1, by simp only [List.length_nil] at hn; omega⟩
    cases hx
    have hzero : (t.td headTd).nextTD = 0 := hend
    refine loop_of_inr ?_ n
    unfold lastTdBody
    show (if (t.td headTd).nextTD ≠ 0 then _ else _ : Exec HcDev _) t = _
    rw [if_neg (by rw [hzero]; decide)]
    rfl
  | cons a tds ih =>
    rintro headTd ⟨rfl, hne, x, hx, htail⟩ n hn
    rw [List.length_cons] at hn
    obtain ⟨n, rfl⟩ : ∃ m, n = m + 1 := ⟨n - 1, by omega⟩
    cases hx
    have hnext : (t.td headTd).nextTD ≠ 0 := by
      cases tds with
      | nil => exact htail.1 ▸ htail.2.1
      | cons b tds => exact htail.1 ▸ htail.2.1
    have hbody : lastTdBody headTd t = .ret (.inl (t.td headTd).nextTD) t := by
      unfold lastTdBody
      show (if (t.td headTd).nextTD ≠ 0 then _ else _ : Exec HcDev _) t = _
      rw [if_pos hnext]
      rfl
    rw [loop_of_inl hbody]
    exact ih htail n (by omega)

theorem TdList.length_lt (h : TdList td headTd tds) : tds.length < walkLimit :=
  h.next.length_lt h.below (by decide)

theorem ohciLinkTD_ret (h : TdList t.td headTd (tds ++ [z])) (hfresh : q ∉ tds ++ [z]) :
    ohciLinkTD headTd q t = .ret () { t with td := Function.update t.td z { t.td z with
      nextTD := q
      nextTDPointer := q } } := by
  have hlen := h.length_lt
  rw [List.length_append] at hlen
  have hwalk := loop_lastTd h.next walkLimit (by omega)
  have hhead : headTd ∈ tds ++ [z] := by
    cases tds with
    | nil => exact h.next.1 ▸ List.mem_cons_self
    | cons a tds => exact h.next.1 ▸ List.mem_cons_self
  have hne := (h.next.node hhead).1
  unfold ohciLinkTD
  rw [if_neg hne, if_neg fun heq : headTd = q => hfresh (heq ▸ hhead), bind_of_ret hwalk]
  rfl

theorem freeTds_ret (asserts : Bool) {pool₀ : MemPool} {rest : List Allocation} :
    ∀ {tds : List Nat} {headTd : Nat} {t : HcDev} (n : Nat), tds.length < n →
      Linked TdDescriptor.nextTDPointer (fun a => some (t.td a)) headTd tds →
      Grown pool₀ (tds.map tdUnit ++ rest) t.memPool →
      ∃ pool', Exec.loop n (freeTdBody asserts) headTd t = .ret () { t with memPool := pool' } ∧
        Grown pool₀ rest pool' := by
  intro tds
  induction tds with
  | nil =>
    rintro headTd t n hn hlist hgrown
    obtain ⟨n, rfl⟩ : ∃ m, n = m + 1 := ⟨n - 1, by simp only [List.length_nil] at hn; omega⟩
    have hzero : headTd = 0 := hlist
    refine ⟨t.memPool, loop_of_inr ?_ n, hgrown⟩
    unfold freeTdBody
    rw [if_neg (not_not.mpr hzero)]
    rfl
  | cons a tds ih =>
    rintro headTd t n hn ⟨rfl, hne, x, hx, htail⟩ hgrown
    rw [List.length_cons] at hn
    obtain ⟨n, rfl⟩ : ∃ m, n = m + 1 := ⟨n - 1, by omega⟩
    cases hx
    obtain ⟨pool', hfree, hgrown'⟩ := freeMem_ret asserts hgrown
    have hbody : freeTdBody asserts headTd t =
        .ret (.inl (t.td headTd).nextTDPointer) { t with memPool := pool' } := by
      unfold freeTdBody
      rw [if_pos hne]
      exact bind_of_ret hfree
    obtain ⟨pool'', hrest, hgrown''⟩ :=
      ih (t := { t with memPool := pool' }) n (by omega) htail hgrown'
    exact ⟨pool'', by rw [loop_of_inl hbody]; exact hrest, hgrown''⟩

end

end Quark.Ohci.Transfer
