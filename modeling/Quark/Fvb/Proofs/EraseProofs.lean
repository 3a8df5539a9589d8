import Mathlib.Algebra.BigOperators.Ring.List
import Mathlib.Algebra.Ring.Nat
import Quark.Fvb.Proofs.PlacementProofs

/-!
# Erasing listed blocks

`FvbProtocolEraseBlocks` scans its argument list twice. The first scan works with the 64-bit sum of a pair,
which wraps for blocks near the end of the range; what the second scan does is put together from the
sectors that the blocks are erased by.
-/

namespace Quark.Fvb

open Machine Machine.Exec
open Spi (Host Exchange eraseSectorSize)

variable {env : FvbEnv} {v : Volume}

/-! ## Sectors -/

def Volume.sectors (v : Volume) (env : FvbEnv) (k : Nat) : List Nat :=
  (List.range ((v.blocks[k]?).getD 0 / eraseSectorSize)).map fun i =>
    (v.chipBase env + (v.start k + i * eraseSectorSize)) / eraseSectorSize

def Volume.sectorsFrom (v : Volume) (env : FvbEnv) (k n : Nat) : List Nat :=
  (List.range' k n).flatMap (v.sectors env)

def named (args : List (BitVec 64 × BitVec 32)) : List (BitVec 64 × BitVec 32) :=
  args.takeWhile (·.1 ≠ lbaListTerminator)

def Volume.sectorsOf (v : Volume) (env : FvbEnv) (pairs : List (BitVec 64 × BitVec 32)) : List Nat :=
  pairs.flatMap fun p => v.sectorsFrom env p.1.toNat p.2.toNat

def SectorsErased (env : FvbEnv) (sectors : List Nat) (h : Host) (st : EfiStatus) (t : Host) : Prop :=
  st = .deviceError ∧ ¬ env.spi.Completes ∧ sectors ≠ [] ∨
    st = .success ∧ t.chip = h.chip.eraseSectors eraseSectorSize sectors ∧
      ∃ es, t.exchanges = h.exchanges ++ es ∧ es.length = sectors.length

theorem SectorsErased.none {h : Host} : SectorsErased env [] h .success h :=
  .inr ⟨rfl, (ByteStore.eraseSectors_nil _ _).symm, [], (List.append_nil _).symm, rfl⟩

theorem SectorsErased.trans {first second : List Nat} {h t u : Host} {st : EfiStatus}
    (hfirst : SectorsErased env first h .success t) (hsecond : SectorsErased env second t st u) :
    SectorsErased env (first ++ second) h st u := by
  rcases hfirst with ⟨hfail, -⟩ | ⟨-, hchip, es, hes, hlen⟩
  · cases hfail
  rcases hsecond with ⟨rfl, hno, hsome⟩ | ⟨rfl, hchip', es', hes', hlen'⟩
  · exact .inl ⟨rfl, hno, by simp [hsome]⟩
  · refine .inr ⟨rfl, by rw [hchip', hchip, ByteStore.eraseSectors_append], es ++ es', ?_, ?_⟩
    · rw [hes', hes, List.append_assoc]
    · rw [List.length_append, List.length_append, hlen, hlen']

theorem SectorsErased.of_failed {first : List Nat} {h t : Host}
    (hfirst : SectorsErased env first h .deviceError t) (second : List Nat) :
    SectorsErased env (first ++ second) h .deviceError t := by
  rcases hfirst with ⟨-, hno, hsome⟩ | ⟨hfail, -⟩
  · exact .inl ⟨rfl, hno, by simp [hsome]⟩
  · cases hfail

theorem SectorsErased.status {sectors : List Nat} {h t : Host} {st : EfiStatus}
    (he : SectorsErased env sectors h st t) : st = .success ∨ st = .deviceError :=
  he.elim (fun hfail => .inr hfail.1) fun hdone => .inl hdone.1

theorem wp_erase_seq {first second : List Nat} {x y : Exec Host EfiStatus} {h : Host}
    (hx : wp x (SectorsErased env first h) (fun _ _ => False) h)
    (hy : ∀ t, wp y (SectorsErased env second t) (fun _ _ => False) t) {c : EfiStatus → Prop}
    [DecidablePred c] (hc : c .deviceError ∧ ¬ c .success) :
    wp (x >>= fun st => if c st then pure st else y) (SectorsErased env (first ++ second) h)
      (fun _ _ => False) h := by
  rw [wp_bind]
  refine wp_mono hx ?_ fun _ _ hf => hf
  intro st t he
  rcases he.status with rfl | rfl
  · rw [if_neg hc.2]
    exact wp_mono (hy t) (fun _ _ he' => he.trans he') fun _ _ hf => hf
  · rw [if_pos hc.1]
    exact he.of_failed second

/-! ## One block -/

theorem wp_flashFdErase (hp : Placed env v) {x : Nat} (hx : x < v.blocks.sum) (h : Host) :
    wp (flashFdErase env (v.fvWriteBase + BitVec.ofNat 32 x))
      (SectorsErased env [(v.chipBase env + x) / eraseSectorSize] h) (fun _ _ => False) h := by
  have hlinear := hp.linear (Nat.le_of_lt hx)
  obtain ⟨-, -, hend⟩ := hp.bounds
  have hpart := hp.part
  rw [flashFdErase, wp_bind]
  refine wp_mono (Spi.wp_erase hp.flash (by rw [hlinear]; omega) h) ?_ fun _ _ hf => hf
  rintro r t (⟨hfail, hno⟩ | ⟨hsuccess, ⟨e, he⟩, hchip⟩)
  · exact .inl ⟨hfail, hno, List.cons_ne_nil _ _⟩
  · rw [hlinear, ByteStore.erase_eq_eraseSectors (by decide)] at hchip
    exact .inr ⟨hsuccess, hchip, [e], he, rfl⟩

theorem wp_eraseSectors (hp : Placed env v) {x : Nat} : ∀ (left index : Nat) (h : Host),
    x + (index + left) * eraseSectorSize ≤ v.blocks.sum →
    wp (eraseSectors env (v.fvWriteBase + BitVec.ofNat 32 x) index left)
      (SectorsErased env ((List.range' index left).map fun i =>
        (v.chipBase env + (x + i * eraseSectorSize)) / eraseSectorSize) h) (fun _ _ => False) h := by
  intro left
  induction left with
  | zero => intro index h _; exact SectorsErased.none
  | succ left ih =>
    intro index h hend
    have hfirst : x + index * eraseSectorSize < v.blocks.sum := by
      unfold eraseSectorSize at hend ⊢
      omega
    have hrest : x + (index + 1 + left) * eraseSectorSize ≤ v.blocks.sum := by
      rw [show index + 1 + left = index + (left + 1) by omega]
      exact hend
    rw [List.range'_succ, List.map_cons, ← List.singleton_append]
    unfold eraseSectors
    refine wp_erase_seq ?_ (fun t => ih (index + 1) t hrest) (by decide)
    rw [BitVec.add_assoc, ← BitVec.ofNat_add]
    exact wp_flashFdErase hp hfirst h

def Volume.Writable (v : Volume) : Prop :=
  v.writeEnabled = true ∧ v.attributes &&& Attr.writeStatus ≠ 0

theorem fvbEraseBlock_of_not_writable (hwrite : ¬ v.Writable) (lba : BitVec 64) :
    fvbEraseBlock env v lba = pure .accessDenied := by
  unfold fvbEraseBlock
  by_cases henabled : v.writeEnabled = false
  · exact if_pos henabled
  · rw [if_neg henabled]
    exact if_pos (by_contra fun hne => hwrite ⟨Bool.eq_true_of_not_eq_false henabled, hne⟩)

theorem fvbEraseBlock_of_none (hsize : v.blocks.sum < 2 ^ 32) (hwrite : v.Writable) {lba : BitVec 64}
    (hnone : v.blocks[lba.toNat]? = none) : fvbEraseBlock env v lba = pure .invalidParameter := by
  unfold fvbEraseBlock
  rw [if_neg (by rw [hwrite.1]; decide), if_neg hwrite.2, fvbGetLbaAddress_of_none hsize hnone]

theorem wp_fvbEraseBlock (hp : Placed env v) (hwrite : v.Writable) {lba : BitVec 64}
    (hlba : lba.toNat < v.blocks.length) (h : Host) :
    wp (fvbEraseBlock env v lba) (SectorsErased env (v.sectors env lba.toNat) h) (fun _ _ => False) h := by
  have hsize := hp.sum_lt
  have hn : v.blocks[lba.toNat]? = some (v.blocks[lba.toNat]) := List.getElem?_eq_getElem hlba
  generalize v.blocks[lba.toNat] = n at hn
  have hle : v.start lba.toNat + n ≤ v.blocks.sum := Layout.start_add_le hn
  have hlen : (BitVec.ofNat 32 n).toNat = n := by
    rw [BitVec.toNat_ofNat]
    exact Nat.mod_eq_of_lt (by omega)
  have haddr : v.fvWriteBase + (0#32 + BitVec.ofNat 32 (v.start lba.toNat)) =
      v.fvWriteBase + BitVec.ofNat 32 (v.start lba.toNat) := by rw [BitVec.zero_add]
  unfold fvbEraseBlock
  rw [if_neg (by rw [hwrite.1]; decide), if_neg hwrite.2, fvbGetLbaAddress_of_block hsize hn]
  show wp (eraseSectors env (v.fvWriteBase + (0#32 + BitVec.ofNat 32 (v.start lba.toNat))) 0
    ((BitVec.ofNat 32 n).toNat / eraseSectorSize)) _ _ h
  rw [haddr, hlen, Volume.sectors, hn, Option.getD_some, List.range_eq_range']
  have hdiv := Nat.div_mul_le_self n eraseSectorSize
  exact wp_eraseSectors hp _ 0 h (by rw [Nat.zero_add]; omega)

/-! ## One pair -/

theorem wp_eraseLbas (hp : Placed env v) (hwrite : v.Writable) : ∀ (n : Nat) (lba : BitVec 64) (h : Host),
    lba.toNat + n ≤ v.blocks.length →
    wp (eraseLbas env v lba n) (SectorsErased env (v.sectorsFrom env lba.toNat n) h) (fun _ _ => False)
      h := by
  intro n
  induction n with
  | zero => intro lba h _; exact SectorsErased.none
  | succ n ih =>
    intro lba h hend
    have hlen : v.blocks.length ≤ v.blocks.sum := length_blockLengths_le v.blockMap
    have hsum := hp.sum_lt
    have hnext : (lba + 1).toNat = lba.toNat + 1 := by
      rw [BitVec.toNat_add]
      exact Nat.mod_eq_of_lt (by show lba.toNat + 1 < _; omega)
    rw [Volume.sectorsFrom, List.range'_succ, List.flatMap_cons]
    unfold eraseLbas
    refine wp_erase_seq (wp_fvbEraseBlock hp hwrite (by omega) h) (fun t => ?_)
      (by decide)
    have htail := ih (lba + 1) t (by omega)
    rw [hnext] at htail
    exact htail

/-! ## The list -/

theorem named_cons_of_ne {p : BitVec 64 × BitVec 32} {args : List (BitVec 64 × BitVec 32)}
    (h : p.1 ≠ lbaListTerminator) : named (p :: args) = p :: named args :=
  List.takeWhile_cons_of_pos (by simpa using h)

theorem named_cons_of_eq {p : BitVec 64 × BitVec 32} {args : List (BitVec 64 × BitVec 32)}
    (h : p.1 = lbaListTerminator) : named (p :: args) = [] :=
  List.takeWhile_cons_of_neg (by simpa using h)

def Missing (v : Volume) (p : BitVec 64 × BitVec 32) : Prop :=
  0 < p.2.toNat ∧ v.blocks.length < p.1.toNat + p.2.toNat

def Rejected (v : Volume) (p : BitVec 64 × BitVec 32) : Prop :=
  p.2.toNat = 0 ∨ v.blocks.length < (p.1.toNat + p.2.toNat) % 2 ^ 64

theorem eraseBlocksValid_iff (hp : Placed env v) (args : List (BitVec 64 × BitVec 32)) :
    eraseBlocksValid v args = true ↔ ∀ p ∈ named args, ¬ Rejected v p := by
  induction args with
  | nil => exact ⟨fun _ _ h => absurd h List.not_mem_nil, fun _ => rfl⟩
  | cons p args ih =>
    obtain ⟨lba, n⟩ := p
    unfold eraseBlocksValid
    by_cases hend : lba = lbaListTerminator
    · rw [if_pos hend, named_cons_of_eq hend]
      exact ⟨fun _ _ h => absurd h List.not_mem_nil, fun _ => rfl⟩
    rw [if_neg hend, named_cons_of_ne hend, List.forall_mem_cons, ← ih]
    have hreject : Rejected v (lba, n) ↔ n = 0 ∨ v.numOfBlocks.setWidth 64 < lba + n.setWidth 64 := by
      have hcount := hp.count
      have hwidth : ∀ b : BitVec 32, (b.setWidth 64).toNat = b.toNat := fun b => by
        rw [BitVec.toNat_setWidth]
        exact Nat.mod_eq_of_lt (Nat.lt_of_lt_of_le b.isLt (by decide))
      have hzero : n = 0 ↔ n.toNat = 0 := ⟨fun h => h ▸ rfl, fun h => BitVec.eq_of_toNat_eq h⟩
      rw [hzero, BitVec.lt_def, BitVec.toNat_add, hwidth, hwidth, hcount]
      exact Iff.rfl
    rw [hreject]
    by_cases hzero : n = 0
    · rw [if_pos hzero]
      exact ⟨nofun, fun h => absurd (.inl hzero) h.1⟩
    rw [if_neg hzero]
    by_cases hbehind : v.numOfBlocks.setWidth 64 < lba + n.setWidth 64
    · rw [if_pos hbehind]
      exact ⟨nofun, fun h => absurd (.inr hbehind) h.1⟩
    · rw [if_neg hbehind]
      exact ⟨fun h => ⟨fun hor => hor.elim hzero hbehind, h⟩, fun h => h.2⟩

theorem eraseListed_of_nil {args : List (BitVec 64 × BitVec 32)} (hnil : named args = []) :
    eraseListed env v args = pure .success := by
  cases args with
  | nil => rfl
  | cons p args =>
    by_cases hend : p.1 = lbaListTerminator
    · exact if_pos hend
    · rw [named_cons_of_ne hend] at hnil
      cases hnil

theorem eraseListed_of_cons (env : FvbEnv) (v : Volume) {p : BitVec 64 × BitVec 32}
    {pairs : List (BitVec 64 × BitVec 32)} :
    ∀ {args : List (BitVec 64 × BitVec 32)}, named args = p :: pairs → ∃ rest, named rest = pairs ∧
      eraseListed env v args = (eraseLbas env v p.1 p.2.toNat >>= fun st =>
        if st.isError then pure st else eraseListed env v rest) := by
  rintro (_ | ⟨q, args⟩) hnamed
  · cases hnamed
  by_cases hend : q.1 = lbaListTerminator
  · rw [named_cons_of_eq hend] at hnamed
    cases hnamed
  · rw [named_cons_of_ne hend] at hnamed
    obtain ⟨rfl, rfl⟩ := List.cons.inj hnamed
    exact ⟨args, rfl, if_neg hend⟩

theorem wp_eraseLbas_of_not_missing (hp : Placed env v) (hwrite : v.Writable) {p : BitVec 64 × BitVec 32}
    (hno : ¬ Missing v p) (h : Host) :
    wp (eraseLbas env v p.1 p.2.toNat)
      (SectorsErased env (v.sectorsFrom env p.1.toNat p.2.toNat) h) (fun _ _ => False) h := by
  by_cases hzero : p.2.toNat = 0
  · rw [hzero]
    exact SectorsErased.none
  · exact wp_eraseLbas hp hwrite _ _ h (Nat.le_of_not_lt fun hlt => hno ⟨Nat.pos_of_ne_zero hzero, hlt⟩)

theorem wp_eraseListed (hp : Placed env v) : ∀ (pairs args : List (BitVec 64 × BitVec 32)) (h : Host),
    named args = pairs → (pairs ≠ [] → v.Writable) → (∀ p ∈ pairs, ¬ Missing v p) →
    wp (eraseListed env v args) (SectorsErased env (v.sectorsOf env pairs) h) (fun _ _ => False) h := by
  intro pairs
  induction pairs with
  | nil =>
    intro args h hnamed _ _
    rw [eraseListed_of_nil hnamed]
    exact SectorsErased.none
  | cons p pairs ih =>
    intro args h hnamed hwrite hno
    obtain ⟨rest, hrest, heq⟩ := eraseListed_of_cons env v hnamed
    have hwrite := hwrite (List.cons_ne_nil _ _)
    rw [heq, Volume.sectorsOf, List.flatMap_cons]
    exact wp_erase_seq (wp_eraseLbas_of_not_missing hp hwrite (hno p List.mem_cons_self) h)
      (fun t => ih rest t hrest (fun _ => hwrite) fun q hq => hno q (.tail _ hq))
      (by decide)

theorem eraseLbas_of_missing (hp : Placed env v) (hwrite : v.Writable) {p : BitVec 64 × BitVec 32}
    (hmissing : Missing v p) (hscanned : ¬ Rejected v p) :
    eraseLbas env v p.1 p.2.toNat = (pure .invalidParameter : Exec Host EfiStatus) := by
  obtain ⟨hpos, hbehind⟩ := hmissing
  have hsize := hp.sum_lt
  have hlength : v.blocks.length ≤ v.blocks.sum := length_blockLengths_le v.blockMap
  have hlen := p.2.isLt
  -- the sum has wrapped, so already the first block is missing
  have hwraps : ¬ v.blocks.length < (p.1.toNat + p.2.toNat) % 2 ^ 64 := fun h => hscanned (.inr h)
  have hfirst : v.blocks[p.1.toNat]? = none := by
    refine List.getElem?_eq_none ?_
    have := p.1.isLt
    omega
  obtain ⟨n, hn⟩ : ∃ n, p.2.toNat = n + 1 := Nat.exists_eq_add_one.mpr hpos
  rw [hn, eraseLbas, fvbEraseBlock_of_none hsize hwrite hfirst]
  rfl

theorem wp_eraseListed_missing (hp : Placed env v) (hwrite : v.Writable) {p : BitVec 64 × BitVec 32}
    {after : List (BitVec 64 × BitVec 32)} (hmissing : Missing v p) (hscanned : ¬ Rejected v p) :
    ∀ (before args : List (BitVec 64 × BitVec 32)) (h : Host), named args = before ++ p :: after →
      (∀ q ∈ before, ¬ Missing v q) →
      wp (eraseListed env v args)
        (fun st t => ∃ st', SectorsErased env (v.sectorsOf env before) h st' t ∧
          st = if st' = .success then .invalidParameter else st') (fun _ _ => False) h := by
  intro before
  induction before with
  | nil =>
    intro args h hnamed _
    obtain ⟨rest, -, heq⟩ := eraseListed_of_cons env v hnamed
    rw [heq, eraseLbas_of_missing hp hwrite hmissing hscanned]
    exact ⟨.success, SectorsErased.none, rfl⟩
  | cons q before ih =>
    intro args h hnamed hno
    obtain ⟨rest, hrest, heq⟩ := eraseListed_of_cons env v hnamed
    rw [heq, wp_bind, Volume.sectorsOf, List.flatMap_cons]
    refine wp_mono (wp_eraseLbas_of_not_missing hp hwrite (hno q List.mem_cons_self) h) ?_ fun _ _ hf => hf
    intro st t he
    rcases he.status with rfl | rfl
    · refine wp_mono (ih rest t hrest fun q hq => hno q (.tail _ hq)) ?_ fun _ _ hf => hf
      rintro st u ⟨st', he', hst⟩
      exact ⟨st', he.trans he', hst⟩
    · exact ⟨_, he.of_failed _, rfl⟩

theorem eraseListed_of_not_writable (hwrite : ¬ v.Writable) {args : List (BitVec 64 × BitVec 32)}
    (hsome : named args ≠ []) (hscanned : ∀ p ∈ named args, ¬ Rejected v p) :
    eraseListed env v args = (pure .accessDenied : Exec Host EfiStatus) := by
  obtain ⟨p, pairs, hnamed⟩ := List.exists_cons_of_ne_nil hsome
  obtain ⟨rest, -, heq⟩ := eraseListed_of_cons env v hnamed
  have hpos : p.2.toNat ≠ 0 := fun hzero => hscanned p (hnamed ▸ List.mem_cons_self) (.inl hzero)
  obtain ⟨n, hn⟩ := Nat.exists_eq_succ_of_ne_zero hpos
  rw [heq, hn, eraseLbas, fvbEraseBlock_of_not_writable hwrite]
  rfl

/-! ## The call -/

def Listed (env : FvbEnv) (v : Volume) (pairs : List (BitVec 64 × BitVec 32)) (x : Nat) : Prop :=
  ∃ p ∈ pairs, ∃ k n, p.1.toNat ≤ k ∧ k < p.1.toNat + p.2.toNat ∧ v.blocks[k]? = some n ∧
    v.chipBase env + v.start k ≤ x ∧ x < v.chipBase env + v.start k + n

/-- If a pair names a block that does not exist then nothing is erased, and otherwise exactly the listed
blocks are if the call succeeds. -/
def EraseAtomic (env : FvbEnv) (v : Volume) (args : List (BitVec 64 × BitVec 32)) : Prop :=
  ∀ (spis : Nat → BitVec 16) (h : Host),
    ∃ st t, fvbProtocolEraseBlocks (env.polled spis) v args h = .ret st t ∧
      ((∃ p ∈ named args, Missing v p) →
        st = .invalidParameter ∧ t.chip = h.chip ∧ t.exchanges = h.exchanges) ∧
      ((∀ p ∈ named args, ¬ Missing v p) → st = .success →
        ∀ x, (Listed env v (named args) x → t.chip x = ByteStore.erased) ∧
          (¬ Listed env v (named args) x → t.chip x = h.chip x))

theorem fvbProtocolEraseBlocks_rejected (hp : Placed env v) {args : List (BitVec 64 × BitVec 32)}
    (hrejected : ∃ p ∈ named args, Rejected v p) :
    fvbProtocolEraseBlocks env v args = pure .invalidParameter := by
  obtain ⟨p, hmem, hrej⟩ := hrejected
  exact if_neg fun hvalid => (eraseBlocksValid_iff hp args).mp hvalid p hmem hrej

theorem fvbProtocolEraseBlocks_scanned (hp : Placed env v) {args : List (BitVec 64 × BitVec 32)}
    (hscanned : ∀ p ∈ named args, ¬ Rejected v p) :
    fvbProtocolEraseBlocks env v args = eraseListed env v args :=
  if_pos ((eraseBlocksValid_iff hp args).mpr hscanned)

theorem exists_first_missing {pairs : List (BitVec 64 × BitVec 32)} (h : ∃ p ∈ pairs, Missing v p) :
    ∃ before p after, pairs = before ++ p :: after ∧ (∀ q ∈ before, ¬ Missing v q) ∧ Missing v p := by
  classical
  obtain ⟨q, hmem, hq⟩ := h
  have hfound : (pairs.find? fun p => decide (Missing v p)).isSome :=
    List.find?_isSome.mpr ⟨q, hmem, decide_eq_true hq⟩
  obtain ⟨p, hp⟩ := Option.isSome_iff_exists.mp hfound
  obtain ⟨hmissing, before, after, heq, hbefore⟩ := List.find?_eq_some_iff_append.mp hp
  refine ⟨before, p, after, heq, fun r hr => ?_, of_decide_eq_true hmissing⟩
  simpa using hbefore r hr

theorem eraseAtomic_of_rejected (hp : Placed env v) {args : List (BitVec 64 × BitVec 32)}
    (hrejected : ∃ p ∈ named args, Rejected v p) : EraseAtomic env v args := by
  intro spis h
  have hrun := congrFun (fvbProtocolEraseBlocks_rejected (hp.polled spis) hrejected) h
  exact ⟨_, _, hrun, fun _ => ⟨rfl, rfl, rfl⟩, fun _ => nofun⟩

theorem eraseAtomic_of_missing (hp : Placed env v) {args : List (BitVec 64 × BitVec 32)}
    (hscanned : ∀ p ∈ named args, ¬ Rejected v p) {before after : List (BitVec 64 × BitVec 32)}
    {p : BitVec 64 × BitVec 32} (hnamed : named args = before ++ p :: after)
    (hbefore : ∀ q ∈ before, ¬ Missing v q) (hmissing : Missing v p) :
    EraseAtomic env v args ↔ v.Writable ∧ v.sectorsOf env before = [] := by
  have hmem : p ∈ named args := hnamed ▸ List.mem_append_right _ List.mem_cons_self
  constructor
  · intro hatomic
    obtain ⟨st, t, hrun, hmiss, -⟩ := hatomic (fun _ => 0) (Spi.hostWith fun _ => 0)
    obtain ⟨rfl, -, hsame⟩ := hmiss ⟨p, hmem, hmissing⟩
    have hidle := hp.polled fun _ => 0
    rw [fvbProtocolEraseBlocks_scanned hidle hscanned] at hrun
    have hwrite : v.Writable := by
      by_contra hno
      rw [eraseListed_of_not_writable hno (List.ne_nil_of_mem hmem) hscanned] at hrun
      cases hrun
    refine ⟨hwrite, ?_⟩
    obtain ⟨st', he, -⟩ := wp_of_ret (wp_eraseListed_missing hidle hwrite hmissing (hscanned p hmem) before
      args _ hnamed hbefore) hrun
    rcases he with ⟨-, hno, -⟩ | ⟨-, -, es, hes, hlen⟩
    · exact absurd (completes_idle env) hno
    · rw [hsame] at hes
      have hnil : es = [] := List.self_eq_append_right.mp hes
      rw [hnil] at hlen
      exact List.eq_nil_of_length_eq_zero hlen.symm
  · rintro ⟨hwrite, hnone⟩ spis h
    have hpolled := hp.polled spis
    obtain ⟨st, t, hrun, st', he, hst⟩ := returns_of_wp (wp_eraseListed_missing hpolled hwrite hmissing
      (hscanned p hmem) before args h hnamed hbefore)
    rw [← fvbProtocolEraseBlocks_scanned hpolled hscanned] at hrun
    have hsectors : v.sectorsOf (env.polled spis) before = [] := hnone
    rw [hsectors] at he
    rcases he with ⟨-, -, hsome⟩ | ⟨rfl, hchip, es, hes, hlen⟩
    · exact absurd rfl hsome
    · rw [ByteStore.eraseSectors_nil] at hchip
      rw [List.eq_nil_of_length_eq_zero hlen, List.append_nil] at hes
      exact ⟨st, t, hrun, fun _ => ⟨hst, hchip, hes⟩, fun hno => absurd hmissing (hno p hmem)⟩

theorem eraseAtomic_of_present (hp : Placed env v) {args : List (BitVec 64 × BitVec 32)}
    (hscanned : ∀ p ∈ named args, ¬ Rejected v p) (hpresent : ∀ p ∈ named args, ¬ Missing v p) :
    EraseAtomic env v args ↔ (v.Writable →
      ∀ x, x / eraseSectorSize ∈ v.sectorsOf env (named args) ↔ Listed env v (named args) x) := by
  constructor
  · intro hatomic hwrite x
    have hidle := hp.polled fun _ => 0
    have hrun := wp_eraseListed hidle (named args) args (Spi.hostWith fun _ => 0) rfl (fun _ => hwrite) hpresent
    rw [← fvbProtocolEraseBlocks_scanned hidle hscanned] at hrun
    obtain ⟨st, t, hret, he⟩ := returns_of_wp hrun
    obtain ⟨st', t', hret', -, hlisted⟩ := hatomic (fun _ => 0) (Spi.hostWith fun _ => 0)
    rw [hret] at hret'
    injection hret' with hst ht
    subst hst ht
    rcases he with ⟨-, hno, -⟩ | ⟨rfl, hchip, -⟩
    · exact absurd (completes_idle env) hno
    have hbyte : t.chip x = if x / eraseSectorSize ∈ v.sectorsOf env (named args) then ByteStore.erased
        else 0 := congrFun hchip x
    obtain ⟨hin, hout⟩ := hlisted hpresent rfl x
    have hne : ByteStore.erased ≠ 0 := by decide
    by_cases hmem : x / eraseSectorSize ∈ v.sectorsOf env (named args)
    · rw [if_pos hmem] at hbyte
      refine ⟨fun _ => by_contra fun hno => hne ?_, fun _ => hmem⟩
      exact hbyte.symm.trans (hout hno)
    · rw [if_neg hmem] at hbyte
      refine ⟨fun h => absurd h hmem, fun hx => absurd ?_ hne⟩
      exact (hin hx).symm.trans hbyte
  · intro hcover spis h
    have hpolled := hp.polled spis
    by_cases hwrite : named args ≠ [] → v.Writable
    · obtain ⟨st, t, hrun, he⟩ := returns_of_wp (wp_eraseListed hpolled (named args) args h rfl hwrite hpresent)
      rw [← fvbProtocolEraseBlocks_scanned hpolled hscanned] at hrun
      refine ⟨st, t, hrun, fun ⟨p, hmem, hmissing⟩ => absurd hmissing (hpresent p hmem), fun _ hst x => ?_⟩
      rcases he with ⟨rfl, -⟩ | ⟨-, hchip, -⟩
      · cases hst
      have hbyte : t.chip x = if x / eraseSectorSize ∈ v.sectorsOf env (named args) then ByteStore.erased
          else h.chip x := congrFun hchip x
      have hiff : x / eraseSectorSize ∈ v.sectorsOf env (named args) ↔ Listed env v (named args) x := by
        by_cases hnil : named args = []
        · rw [hnil]
          exact ⟨fun h => absurd h List.not_mem_nil, fun ⟨p, h, _⟩ => absurd h List.not_mem_nil⟩
        · exact hcover (hwrite hnil) x
      rw [← hiff]
      exact ⟨fun h => hbyte.trans (if_pos h), fun h => hbyte.trans (if_neg h)⟩
    · obtain ⟨hsome, hwrite⟩ := Classical.not_imp.mp hwrite
      refine ⟨.accessDenied, h, ?_, fun ⟨p, hmem, hmissing⟩ => absurd hmissing (hpresent p hmem), fun _ => nofun⟩
      rw [fvbProtocolEraseBlocks_scanned hpolled hscanned, eraseListed_of_not_writable hwrite hsome hscanned]
      rfl

/-- The call is all or nothing exactly if the first scan rejects the list, or no pair has a missing block
and the sectors of the blocks make them up, or nothing is erased before the first pair with a missing
block. -/
theorem eraseAtomic_iff (env : FvbEnv) (v : Volume) (hp : Placed env v)
    (args : List (BitVec 64 × BitVec 32)) :
    EraseAtomic env v args ↔
      (∃ p ∈ named args, Rejected v p) ∨
      ((∀ p ∈ named args, ¬ Missing v p) ∧ (v.Writable →
        ∀ x, x / eraseSectorSize ∈ v.sectorsOf env (named args) ↔ Listed env v (named args) x)) ∨
      ∃ before p after, named args = before ++ p :: after ∧ (∀ q ∈ before, ¬ Missing v q) ∧
        Missing v p ∧ v.Writable ∧ v.sectorsOf env before = [] := by
  by_cases hrejected : ∃ p ∈ named args, Rejected v p
  · exact ⟨fun _ => .inl hrejected, fun _ => eraseAtomic_of_rejected hp hrejected⟩
  have hscanned : ∀ p ∈ named args, ¬ Rejected v p := fun p hp hr => hrejected ⟨p, hp, hr⟩
  constructor
  · intro hatomic
    by_cases hmissing : ∃ p ∈ named args, Missing v p
    · obtain ⟨before, p, after, hnamed, hbefore, hp'⟩ := exists_first_missing hmissing
      obtain ⟨hwrite, hnone⟩ := (eraseAtomic_of_missing hp hscanned hnamed hbefore hp').mp hatomic
      exact .inr (.inr ⟨before, p, after, hnamed, hbefore, hp', hwrite, hnone⟩)
    · have hpresent : ∀ p ∈ named args, ¬ Missing v p := fun p hp hm => hmissing ⟨p, hp, hm⟩
      exact .inr (.inl ⟨hpresent, (eraseAtomic_of_present hp hscanned hpresent).mp hatomic⟩)
  · rintro (hr | ⟨hpresent, hcover⟩ | ⟨before, p, after, hnamed, hbefore, hmissing, hwrite, hnone⟩)
    · exact absurd hr hrejected
    · exact (eraseAtomic_of_present hp hscanned hpresent).mpr hcover
    · exact (eraseAtomic_of_missing hp hscanned hnamed hbefore hmissing).mpr ⟨hwrite, hnone⟩

/-! ## Volumes of whole sectors -/

structure Sectored (env : FvbEnv) (v : Volume) : Prop where
  base : eraseSectorSize ∣ v.chipBase env
  blocks : ∀ n ∈ v.blocks, eraseSectorSize ∣ n

theorem Sectored.start (hs : Sectored env v) (k : Nat) : eraseSectorSize ∣ v.start k :=
  List.dvd_sum fun n hn => hs.blocks n (List.mem_of_mem_take hn)

theorem Sectored.mem_sectors (hs : Sectored env v) {k n : Nat} (hn : v.blocks[k]? = some n) {x : Nat} :
    x / eraseSectorSize ∈ v.sectors env k ↔
      v.chipBase env + v.start k ≤ x ∧ x < v.chipBase env + v.start k + n := by
  obtain ⟨b, hb⟩ := hs.base
  obtain ⟨a, ha⟩ := hs.start k
  obtain ⟨m, hm⟩ := hs.blocks n (List.mem_of_getElem? hn)
  rw [Volume.sectors, hn, Option.getD_some, List.mem_map]
  unfold eraseSectorSize at hb ha hm ⊢
  constructor
  · rintro ⟨i, hi, heq⟩
    have := List.mem_range.mp hi
    omega
  · rintro ⟨hlow, hhigh⟩
    exact ⟨x / 0x1000 - (b + a), List.mem_range.mpr (by omega), by omega⟩

theorem Sectored.listed (hs : Sectored env v) (pairs : List (BitVec 64 × BitVec 32)) (x : Nat) :
    x / eraseSectorSize ∈ v.sectorsOf env pairs ↔ Listed env v pairs x := by
  unfold Volume.sectorsOf Volume.sectorsFrom Listed
  simp only [List.mem_flatMap, List.mem_range'_1]
  refine exists_congr fun p => and_congr_right fun _ => exists_congr fun k => ?_
  constructor
  · rintro ⟨⟨hlow, hhigh⟩, hmem⟩
    cases hn : v.blocks[k]? with
    | none =>
      rw [Volume.sectors, hn, Option.getD_none, Nat.zero_div, List.range_zero, List.map_nil] at hmem
      cases hmem
    | some n => exact ⟨n, hlow, hhigh, rfl, (hs.mem_sectors hn).mp hmem⟩
  · rintro ⟨n, hlow, hhigh, hn, hx⟩
    exact ⟨⟨hlow, hhigh⟩, (hs.mem_sectors hn).mpr hx⟩

theorem sectored_twoSectors : Sectored readyFvb twoSectors where
  base := by decide
  blocks := by rw [blocks_twoSectors]; decide

theorem eraseAtomic_twoSectors : EraseAtomic readyFvb twoSectors [(1, 1), (lbaListTerminator, 0)] := by
  refine (eraseAtomic_iff readyFvb twoSectors placed_twoSectors _).mpr (.inr (.inl ⟨?_, fun _ x => ?_⟩))
  · intro p hp
    have hp : p ∈ [((1 : BitVec 64), (1 : BitVec 32))] := hp
    rw [List.mem_singleton.mp hp]
    unfold Missing
    rw [blocks_twoSectors]
    decide
  · exact sectored_twoSectors.listed _ x

/-- The first block is erased before the call finds out that there is no block `0xFFFFFFFFFFFFFFFE`. -/
theorem not_eraseAtomic :
    (∃ t, fvbProtocolEraseBlocks readyFvb twoSectors [(0, 1), (0xFFFFFFFFFFFFFFFE, 3)]
        (Spi.hostWith fun _ => 0) = .ret .invalidParameter t ∧
          t.exchanges.map (fun e => (e.cycle.opcode, e.cycle.address)) = [(Spi.SpiCommand.erase, 0x100000)]) ∧
      ¬ EraseAtomic readyFvb twoSectors [(0, 1), (0xFFFFFFFFFFFFFFFE, 3)] := by
  refine ⟨⟨_, rfl, rfl⟩, fun hatomic => ?_⟩
  obtain ⟨st, t, hrun, hmiss, -⟩ := hatomic (fun _ => 0) (Spi.hostWith fun _ => 0)
  obtain ⟨-, -, hsame⟩ := hmiss ⟨(0xFFFFFFFFFFFFFFFE, 3), by decide, by
    unfold Missing
    rw [blocks_twoSectors]
    decide⟩
  injection hrun with _ ht
  rw [← ht] at hsame
  exact absurd (congrArg List.length hsame) (by decide)

end Quark.Fvb
