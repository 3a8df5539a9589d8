import Quark.PciHostBridge.Proofs.HoldingProofs

/-!
# Submission of resources

The first walk over a configuration returns `EFI_INVALID_PARAMETER` at the first descriptor that is wrong,
unless only its alignment is: there `CpuDeadLoop` comes first. The second walk notes a length and an
alignment, the last ones for a node, but only marks the nodes of prefetchable memory.
-/

namespace Quark.PciHostBridge

open Machine Exec

/-! ## Bytes -/

theorem word?_leBytes {k v off : Nat} {pre post : List Byte} (h : pre.length = off) (hv : v < 256 ^ k) :
    word? k (pre ++ (leBytes k v ++ post)) off = some v := by
  subst h
  rw [word?_append, Nat.mod_eq_of_lt hv]

theorem descriptorAt_bytes (d : Descriptor) (len genFlag addrTranslationOffset : Nat) (rest : List Byte) :
    descriptorAt (d.bytes len genFlag addrTranslationOffset ++ rest) = some d := by
  let bs := d.bytes len genFlag addrTranslationOffset ++ rest
  have hget : ∀ {k v off : Nat} (pre post : List Byte), pre.length = off → v < 256 ^ k →
      bs = pre ++ (leBytes k v ++ post) → word? k bs off = some v := by
    intro k v off pre post hpre hv heq
    rw [heq]
    exact word?_leBytes hpre hv
  have hbs : bs = acpiAddressSpaceDescriptor :: leBytes 2 len ++ (leBytes 1 d.resType.toNat ++
      (leBytes 1 genFlag ++ (leBytes 1 d.specificFlag.toNat ++ (leBytes 8 d.addrSpaceGranularity.toNat ++
      (leBytes 8 d.addrRangeMin.toNat ++ (leBytes 8 d.addrRangeMax.toNat ++
      (leBytes 8 addrTranslationOffset ++ (leBytes 8 d.addrLen.toNat ++ rest)))))))) := by
    show d.bytes len genFlag addrTranslationOffset ++ rest = _
    unfold Descriptor.bytes
    simp only [List.append_assoc]
  -- the bytes in front of each field that is read
  let flags := acpiAddressSpaceDescriptor :: leBytes 2 len ++ leBytes 1 d.resType.toNat ++ leBytes 1 genFlag
  let granularity := flags ++ leBytes 1 d.specificFlag.toNat
  let min := granularity ++ leBytes 8 d.addrSpaceGranularity.toNat
  let max := min ++ leBytes 8 d.addrRangeMin.toNat
  let length := max ++ leBytes 8 d.addrRangeMax.toNat ++ leBytes 8 addrTranslationOffset
  have hresType : word? 1 bs 3 = some d.resType.toNat :=
    hget (acpiAddressSpaceDescriptor :: leBytes 2 len) _ rfl d.resType.isLt hbs
  have hspecificFlag : word? 1 bs 5 = some d.specificFlag.toNat :=
    hget flags _ rfl d.specificFlag.isLt hbs
  have hgranularity : word? 8 bs 6 = some d.addrSpaceGranularity.toNat :=
    hget granularity _ rfl d.addrSpaceGranularity.isLt hbs
  have hmin : word? 8 bs 14 = some d.addrRangeMin.toNat := hget min _ rfl d.addrRangeMin.isLt hbs
  have hmax : word? 8 bs 22 = some d.addrRangeMax.toNat := hget max _ rfl d.addrRangeMax.isLt hbs
  have hlength : word? 8 bs 38 = some d.addrLen.toNat := hget length _ rfl d.addrLen.isLt hbs
  show descriptorAt bs = some d
  unfold descriptorAt
  rw [hresType, hspecificFlag, hgranularity, hmin, hmax, hlength]
  simp only [Option.bind_eq_bind, Option.bind_some, BitVec.ofNat_toNat, BitVec.setWidth_eq]

theorem configurationFrom_bytes {n : Nat} {tag : Byte} (htag : tag ≠ acpiAddressSpaceDescriptor)
    (ds : List (Descriptor × Nat × Nat × Nat)) (rest : List Byte) (hn : ds.length < n) :
    configurationFrom n (ds.flatMap (fun d => d.1.bytes d.2.1 d.2.2.1 d.2.2.2) ++ tag :: rest) =
      some ⟨ds.map (·.1), tag = acpiEndTagDescriptor⟩ := by
  induction ds generalizing n with
  | nil =>
    obtain ⟨n, rfl⟩ := Nat.exists_eq_succ_of_ne_zero (Nat.ne_zero_of_lt hn)
    rw [List.flatMap_nil, List.nil_append, configurationFrom]
    show (if tag = acpiAddressSpaceDescriptor then _ else _) = _
    rw [if_neg htag]
    rfl
  | cons d ds ih =>
    obtain ⟨n, rfl⟩ := Nat.exists_eq_succ_of_ne_zero (Nat.ne_zero_of_lt hn)
    have hrest := ih (Nat.succ_lt_succ_iff.mp hn)
    rw [List.flatMap_cons, List.append_assoc, configurationFrom]
    generalize ds.flatMap (fun d => d.1.bytes d.2.1 d.2.2.1 d.2.2.2) ++ tag :: rest = tail at hrest
    have hdrop : (d.1.bytes d.2.1 d.2.2.1 d.2.2.2 ++ tail).drop descriptorSize = tail :=
      List.drop_left' rfl
    have htag' : (d.1.bytes d.2.1 d.2.2.1 d.2.2.2 ++ tail).head? = some acpiAddressSpaceDescriptor := rfl
    rw [htag', Option.bind_eq_bind, Option.bind_some, if_pos rfl, descriptorAt_bytes, hdrop, hrest]
    rfl

theorem configurationOf_bytes {tag : Byte} (htag : tag ≠ acpiAddressSpaceDescriptor)
    (ds : List (Descriptor × Nat × Nat × Nat)) (rest : List Byte) :
    configurationOf (ds.flatMap (fun d => d.1.bytes d.2.1 d.2.2.1 d.2.2.2) ++ tag :: rest) =
      some ⟨ds.map (·.1), tag = acpiEndTagDescriptor⟩ := by
  refine configurationFrom_bytes htag ds rest ?_
  have hle : ds.length ≤ (ds.flatMap fun d => d.1.bytes d.2.1 d.2.2.1 d.2.2.2).length := by
    induction ds with
    | nil => exact Nat.zero_le _
    | cons d ds ih =>
      rw [List.flatMap_cons, List.length_append, List.length_cons]
      have : 1 ≤ (d.1.bytes d.2.1 d.2.2.1 d.2.2.2).length := by
        unfold Descriptor.bytes
        simp only [List.length_append, List.length_cons]
        omega
      omega
  rw [List.length_append, List.length_cons]
  omega

/-! ## Checks -/

theorem getPowerOfTwo64_two_pow (n : Nat) : getPowerOfTwo64 (2 ^ n) = 2 ^ n := by
  rw [getPowerOfTwo64, if_neg (Nat.two_pow_pos n).ne', Nat.log2_two_pow]

theorem power2MaxMemory_eq_iff (x : BitVec 64) :
    power2MaxMemory (x + 1) = x + 1 ↔ ∃ n ≤ 64, x.toNat = 2 ^ n - 1 := by
  refine ⟨alignment_of_power2MaxMemory, ?_⟩
  rintro ⟨n, hn, hx⟩
  have hpos := Nat.two_pow_pos n
  have hsum : (x + 1).toNat = 2 ^ n % 2 ^ 64 := by
    have : (x + 1).toNat = (x.toNat + 1) % 2 ^ 64 := BitVec.toNat_add ..
    rw [this, hx, Nat.sub_add_cancel hpos]
  apply BitVec.eq_of_toNat_eq
  rcases Nat.lt_or_eq_of_le hn with hlt | rfl
  · have hpow : 2 ^ n < 2 ^ 64 := Nat.pow_lt_pow_right (by decide) hlt
    rw [Nat.mod_eq_of_lt hpow] at hsum
    unfold power2MaxMemory
    rw [hsum, Nat.shiftRight_eq_div_pow]
    rcases Nat.lt_or_ge n 32 with hlow | hhigh
    · have hsmall : 2 ^ n < 2 ^ 32 := Nat.pow_lt_pow_right (by decide) hlow
      rw [Nat.div_eq_of_lt hsmall, if_neg (not_not.mpr rfl), Nat.mod_eq_of_lt hsmall,
        getPowerOfTwo64_two_pow, BitVec.toNat_ofNat, Nat.mod_eq_of_lt hpow]
    · have hdiv : 2 ^ n / 2 ^ 32 = 2 ^ (n - 32) := Nat.pow_div hhigh (by decide)
      have hsmall : 2 ^ (n - 32) < 2 ^ 32 := Nat.pow_lt_pow_right (by decide) (by omega)
      rw [hdiv, if_pos (Nat.two_pow_pos _).ne', Nat.mod_eq_of_lt hsmall, getPowerOfTwo64_two_pow,
        Nat.shiftLeft_eq, ← Nat.pow_add, Nat.sub_add_cancel hhigh, BitVec.toNat_ofNat,
        Nat.mod_eq_of_lt hpow]
  · have hzero : x + 1 = 0 := BitVec.eq_of_toNat_eq hsum
    rw [hzero]
    rfl

variable {b : RootBridge} {d : Descriptor} {s : HostBridge}

theorem checkAlignment_eq (d : Descriptor) (s : HostBridge) :
    checkAlignment d s = if power2MaxMemory (d.addrRangeMax + 1) = d.addrRangeMax + 1 then .ret .success s
      else .stop .deadLoop s := by
  unfold checkAlignment
  rw [ite_not]
  split <;> rfl

theorem checkDescriptor_typed (h : d.Typed b) : checkDescriptor b d s = checkAlignment d s := by
  unfold checkDescriptor
  rcases h with hio | ⟨hmem, hgran, hlen, hflag⟩
  · rw [if_neg (by rw [hio]; decide), if_pos hio]
  · have hlen' : ¬ (d.addrSpaceGranularity = 32 ∧ d.addrLen > 0xffffffff) := by
      rintro ⟨h32, hgt⟩
      have hlt := hlen h32
      have : (0xffffffff : BitVec 64).toNat < d.addrLen.toNat := BitVec.lt_def.mp hgt
      rw [show (0xffffffff : BitVec 64).toNat = 0xffffffff from rfl] at this
      omega
    rw [if_pos hmem, if_neg (by tauto), if_neg hlen', if_neg (fun hc => hc.2 (hflag hc.1))]

theorem checkDescriptor_not_typed (h : ¬ d.Typed b) : checkDescriptor b d s = .ret .invalidParameter s := by
  unfold checkDescriptor
  split_ifs with hmem hgran hlen hflag hio
  · rfl
  · rfl
  · rfl
  · refine absurd (.inr ⟨hmem, by tauto, fun h32 => ?_, fun hc => ?_⟩) h
    · have hle : ¬ (0xffffffff : BitVec 64) < d.addrLen := fun hc => hlen ⟨h32, hc⟩
      have := mt BitVec.lt_def.mpr hle
      rw [show (0xffffffff : BitVec 64).toNat = 0xffffffff from rfl] at this
      omega
    · exact not_not.mp fun hc' => hflag ⟨hc, hc'⟩
  · exact absurd (.inl hio) h
  · rfl

theorem checkDescriptor_valid (h : d.Valid b) : checkDescriptor b d s = .ret .success s := by
  rw [checkDescriptor_typed h.typed, checkAlignment_eq, if_pos ((power2MaxMemory_eq_iff _).mpr h.aligned)]

theorem checkDescriptors_cons_valid {ds : List Descriptor} (h : d.Valid b) :
    checkDescriptors b (d :: ds) s = checkDescriptors b ds s := by
  rw [checkDescriptors, bind_of_ret (checkDescriptor_valid h)]
  rfl

theorem checkDescriptors_valid {ds : List Descriptor} (h : ∀ d ∈ ds, d.Valid b) :
    checkDescriptors b ds s = .ret .success s := by
  induction ds with
  | nil => rfl
  | cons d ds ih =>
    rw [checkDescriptors_cons_valid (h d List.mem_cons_self)]
    exact ih fun d' hd' => h d' (List.mem_cons_of_mem d hd')

theorem checkDescriptors_misaligned {ds : List Descriptor} (h : Misaligned b ds) :
    checkDescriptors b ds s = .stop .deadLoop s := by
  obtain ⟨pre, d, post, rfl, hpre, htyped, haligned⟩ := h
  induction pre with
  | nil =>
    have hd : (checkDescriptor b d s : Outcome HostBridge EfiStatus) = .stop .deadLoop s := by
      rw [checkDescriptor_typed htyped, checkAlignment_eq,
        if_neg (mt (power2MaxMemory_eq_iff _).mp haligned)]
    rw [List.nil_append, checkDescriptors]
    show Exec.bind (checkDescriptor b d) _ s = _
    unfold Exec.bind
    rw [hd]
  | cons d' pre ih =>
    rw [List.cons_append, checkDescriptors_cons_valid (hpre d' List.mem_cons_self)]
    exact ih fun d'' hd'' => hpre d'' (List.mem_cons_of_mem d' hd'')

theorem checkDescriptors_invalid {ds : List Descriptor} (h : ¬ ∀ d ∈ ds, d.Valid b)
    (hmis : ¬ Misaligned b ds) : checkDescriptors b ds s = .ret .invalidParameter s := by
  induction ds with
  | nil => exact absurd (fun d hd => absurd hd List.not_mem_nil) h
  | cons d ds ih =>
    by_cases hvalid : d.Valid b
    · rw [checkDescriptors_cons_valid hvalid]
      refine ih (fun hds => h ?_) ?_
      · intro d' hd'
        rcases List.mem_cons.mp hd' with rfl | hd'
        · exact hvalid
        · exact hds d' hd'
      · rintro ⟨pre, d', post, rfl, hpre, htyped, haligned⟩
        refine hmis ⟨d :: pre, d', post, rfl, ?_, htyped, haligned⟩
        intro d'' hd''
        rcases List.mem_cons.mp hd'' with rfl | hd''
        · exact hvalid
        · exact hpre d'' hd''
    · have htyped : ¬ d.Typed b := by
        intro htyped
        refine hmis ⟨[], d, ds, rfl, fun d' hd' => absurd hd' List.not_mem_nil, htyped, fun haligned => ?_⟩
        exact hvalid ⟨htyped, haligned⟩
      rw [checkDescriptors, bind_of_ret (checkDescriptor_not_typed htyped)]
      rfl

/-! ## Stores -/

theorem Descriptor.Typed.target (h : d.Typed b) : ∃ t, d.target? = some t := by
  unfold Descriptor.target?
  rcases h with hio | ⟨hmem, hgran, -⟩
  · rw [if_neg (by rw [hio]; decide), if_pos hio]
    exact ⟨_, rfl⟩
  · rw [if_pos hmem]
    rcases hgran with h32 | h64
    · rw [if_pos h32]
      split <;> exact ⟨_, rfl⟩
    · rw [if_neg (by rw [h64]; decide), if_pos h64]
      split <;> exact ⟨_, rfl⟩

theorem nodeAfter_of_mem {t : ResType} {ds : List Descriptor} (hd : d ∈ ds) (ht : d.target? = some t) :
    ∃ d₀ ∈ ds, d₀.target? = some t ∧ ∀ node, nodeAfter t ds node = storeRequest t d₀ node := by
  have hmem : d ∈ ds.filter fun d => decide (d.target? = some t) :=
    List.mem_filter.mpr ⟨hd, decide_eq_true ht⟩
  unfold nodeAfter
  cases hl : (ds.filter fun d => decide (d.target? = some t)).getLast? with
  | none => exact absurd (List.getLast?_eq_none_iff.mp hl) (List.ne_nil_of_mem hmem)
  | some d₀ =>
    obtain ⟨hd₀, htarget⟩ := List.mem_filter.mp (List.mem_of_getLast? hl)
    exact ⟨d₀, hd₀, of_decide_eq_true htarget, fun _ => rfl⟩

theorem storeRequest_values (t : ResType) (d : Descriptor) (node : ResNode) :
    (t = .pMem32 ∨ t = .pMem64) ∧ (storeRequest t d node).length = node.length ∧
        (storeRequest t d node).alignment = node.alignment ∨
      ¬ (t = .pMem32 ∨ t = .pMem64) ∧ (storeRequest t d node).length = d.addrLen ∧
        (storeRequest t d node).alignment = d.addrRangeMax := by
  cases t with
  | pMem32 => exact .inl ⟨.inl rfl, rfl, rfl⟩
  | pMem64 => exact .inl ⟨.inr rfl, rfl, rfl⟩
  | io | mem32 | mem64 | bus => exact .inr ⟨by simp, rfl, rfl⟩

theorem recorded_iff_recordable {ds : List Descriptor} (htyped : ∀ d ∈ ds, d.Typed b) :
    (∀ d ∈ ds, ∃ t, d.target? = some t ∧ Records (applyDescriptors b ds).1 t d) ↔ Recordable b ds := by
  have hnode : ∀ t, (applyDescriptors b ds).1.resAllocNode t = nodeAfter t ds (b.resAllocNode t) := by
    intro t
    rw [applyDescriptors_eq]
    rfl
  constructor
  · intro h
    have hrecords : ∀ d ∈ ds, ∀ t, d.target? = some t → Records (applyDescriptors b ds).1 t d := by
      intro d hd t ht
      obtain ⟨t', ht', hrec⟩ := h d hd
      rw [ht] at ht'
      injection ht' with ht'
      rw [ht']
      exact hrec
    refine ⟨fun d hd d' hd' heq => ?_, fun d hd t ht hpre => ?_⟩
    · obtain ⟨t, ht⟩ := (htyped d hd).target
      have hrec := hrecords d hd t ht
      have hrec' := hrecords d' hd' t (heq ▸ ht)
      exact ⟨hrec.length.symm.trans hrec'.length, hrec.alignment.symm.trans hrec'.alignment⟩
    · have hrec := hrecords d hd t ht
      obtain ⟨d₀, -, -, hstore⟩ := nodeAfter_of_mem hd ht
      rcases storeRequest_values t d₀ (b.resAllocNode t) with ⟨-, hlen, hal⟩ | ⟨hnot, -⟩
      · rw [← hlen, ← hal, ← hstore, ← hnode]
        exact ⟨hrec.length, hrec.alignment⟩
      · exact absurd hpre hnot
  · intro h d hd
    obtain ⟨t, ht⟩ := (htyped d hd).target
    obtain ⟨d₀, hd₀, ht₀, hstore⟩ := nodeAfter_of_mem hd ht
    have hst := (status_storeRequest t d₀ (b.resAllocNode t)).2
    refine ⟨t, ht, ?_⟩
    rcases storeRequest_values t d₀ (b.resAllocNode t) with ⟨hpre, hlen, hal⟩ | ⟨-, hlen, hal⟩
    · have hvals := h.prefetchable d hd t ht hpre
      refine ⟨?_, ?_, ?_⟩
      · rw [RootBridge.status, hnode, hstore]
        exact hst
      · rw [hnode, hstore, hlen, hvals.1]
      · rw [hnode, hstore, hal, hvals.2]
    · have hvals := h.agree d hd d₀ hd₀ (ht.trans ht₀.symm)
      refine ⟨?_, ?_, ?_⟩
      · rw [RootBridge.status, hnode, hstore]
        exact hst
      · rw [hnode, hstore, hlen, hvals.1]
      · rw [hnode, hstore, hal, hvals.2]

theorem find?_updateBridge {handle : Nat} {b' : RootBridge} (hb' : b'.handle = handle) :
    ∀ {bs : List RootBridge}, bs.find? (fun b => decide (b.handle = handle)) = some b →
      (updateBridge handle (fun _ => b') bs).find? (fun b => decide (b.handle = handle)) = some b' := by
  intro bs
  induction bs with
  | nil => exact fun h => nomatch h
  | cons x bs ih =>
    intro h
    unfold updateBridge
    by_cases hx : x.handle = handle
    · rw [if_pos hx, List.find?_cons_of_pos (by simpa using hb')]
    · rw [List.find?_cons_of_neg (by simpa using hx)] at h
      rw [if_neg hx, List.find?_cons_of_neg (by simpa using hx)]
      exact ih h

/-! ## Submission -/

variable {handle : Nat} {config : Configuration}

def submitted (handle : Nat) (config : Configuration) (b : RootBridge) (s : HostBridge) : HostBridge :=
  { s with
    bridges := updateBridge handle (fun _ => (applyDescriptors b config.descriptors).1) s.bridges
    resourceSubmited := s.resourceSubmited || (applyDescriptors b config.descriptors).2 }

theorem submitTo_valid (h : config.Valid b) :
    submitTo handle config b s = .ret .success (submitted handle config b s) := by
  rw [submitTo, bind_of_ret (checkDescriptors_valid h.descriptors)]
  show (if ¬ config.endTag = true then _ else _ : Exec HostBridge EfiStatus) s = _
  rw [if_neg (not_not.mpr h.endTag)]
  rfl

theorem submitTo_misaligned (h : Misaligned b config.descriptors) :
    submitTo handle config b s = .stop .deadLoop s := by
  unfold submitTo
  show Exec.bind (checkDescriptors b config.descriptors) _ s = _
  unfold Exec.bind
  rw [checkDescriptors_misaligned h]

theorem submitTo_invalid (h : ¬ config.Valid b) (hmis : ¬ Misaligned b config.descriptors) :
    submitTo handle config b s = .ret .invalidParameter s := by
  by_cases hds : ∀ d ∈ config.descriptors, d.Valid b
  · rw [submitTo, bind_of_ret (checkDescriptors_valid hds)]
    show (if ¬ config.endTag = true then _ else _ : Exec HostBridge EfiStatus) s = _
    rw [if_pos fun htag => h ⟨hds, htag⟩]
    rfl
  · rw [submitTo, bind_of_ret (checkDescriptors_invalid hds hmis)]
    rfl

theorem Misaligned.not_valid {ds : List Descriptor} (h : Misaligned b ds) : ¬ ∀ d ∈ ds, d.Valid b := by
  obtain ⟨pre, d, post, rfl, -, -, haligned⟩ := h
  exact fun hall => haligned (hall d (by simp)).aligned

theorem not_submitsAtomically (h : Misaligned b config.descriptors) :
    ¬ SubmitsAtomically s handle b config (submitTo handle config b s) := by
  intro hatomic
  have hout := hatomic.invalid fun hvalid => h.not_valid hvalid.descriptors
  rw [submitTo_misaligned h] at hout
  nomatch hout

theorem allRecorded_submitted (hb : s.bridges.find? (fun b => decide (b.handle = handle)) = some b)
    (h : config.Valid b) :
    AllRecorded handle config (submitted handle config b s) ↔ Recordable b config.descriptors := by
  have hhandle : (applyDescriptors b config.descriptors).1.handle = handle := by
    rw [handle_applyDescriptors]
    simpa using List.find?_some hb
  have hfind := find?_updateBridge hhandle hb
  rw [← recorded_iff_recordable fun d hd => (h.descriptors d hd).typed]
  constructor
  · rintro ⟨b', hb', hall⟩
    have heq : some b' = some (applyDescriptors b config.descriptors).1 := hb'.symm.trans hfind
    injection heq with heq
    rw [← heq]
    exact hall
  · exact fun hall => ⟨_, hfind, hall⟩

/-- Whatever bytes are submitted to a bridge, the submission is atomic exactly when no descriptor behind valid
ones is wrong by its alignment only, and the descriptors of a valid configuration can all be recorded. -/
theorem submitResources_atomic_iff (s : HostBridge) (handle : Nat) (b : RootBridge) (bytes : List Byte)
    (config : Configuration) (hb : s.bridges.find? (fun b => decide (b.handle = handle)) = some b)
    (hbytes : configurationOf bytes = some config) :
    SubmitsAtomically s handle b config (submitResources handle (configurationOf bytes) s) ↔
      ¬ Misaligned b config.descriptors ∧ (config.Valid b → Recordable b config.descriptors) := by
  rw [hbytes, submitResources_found hb]
  constructor
  · intro h
    refine ⟨fun hmis => not_submitsAtomically hmis h, fun hvalid => ?_⟩
    obtain ⟨s', hout, hall⟩ := h.success hvalid
    rw [submitTo_valid hvalid] at hout
    injection hout with _ hs
    rw [← allRecorded_submitted hb hvalid, hs]
    exact hall
  · rintro ⟨hmis, hrec⟩
    refine ⟨fun hvalid => ?_, fun hvalid => submitTo_invalid hvalid hmis⟩
    exact ⟨_, submitTo_valid hvalid, (allRecorded_submitted hb hvalid).mpr (hrec hvalid)⟩

/-! ## Examples -/

def ioDescriptor (alignment : BitVec 64) : Descriptor := ⟨acpiAddressSpaceTypeIo, 0, 0, 0, alignment, 0x10⟩

def ioBytes (alignment : BitVec 64) : List Byte :=
  [(ioDescriptor alignment, 0, 0, 0)].flatMap (fun d => d.1.bytes d.2.1 d.2.2.1 d.2.2.2) ++
    [acpiEndTagDescriptor]

def ioConfiguration (alignment : BitVec 64) : Configuration := ⟨[ioDescriptor alignment], true⟩

theorem configurationOf_ioBytes (alignment : BitVec 64) :
    configurationOf (ioBytes alignment) = some (ioConfiguration alignment) :=
  configurationOf_bytes (by decide) [(ioDescriptor alignment, 0, 0, 0)] []

abbrev firstBridge : RootBridge := newBridge 1 ⟨0, 0, 1, 2, 0, 0, 0x1000, 0x1FFF⟩

theorem find?_firstBridge :
    twoBridges.bridges.find? (fun b => decide (b.handle = 1)) = some firstBridge := rfl

theorem submitResources_atomic_iff_io :
    SubmitsAtomically twoBridges 1 firstBridge (ioConfiguration 0xF)
      (submitResources 1 (configurationOf (ioBytes 0xF)) twoBridges) := by
  have hvalid : (ioDescriptor 0xF).Valid firstBridge := ⟨.inl rfl, 4, by decide, rfl⟩
  have hall : ∀ d ∈ (ioConfiguration 0xF).descriptors, d = ioDescriptor 0xF := fun d hd =>
    List.mem_singleton.mp hd
  refine (submitResources_atomic_iff twoBridges 1 firstBridge _ _ find?_firstBridge
    (configurationOf_ioBytes 0xF)).mpr ⟨fun hmis => hmis.not_valid fun d hd => ?_, fun _ => ⟨?_, ?_⟩⟩
  · rw [hall d hd]
    exact hvalid
  · intro d hd d' hd' _
    rw [hall d hd, hall d' hd']
    exact ⟨rfl, rfl⟩
  · intro d hd t ht hpre
    rw [hall d hd] at ht
    have : some ResType.io = some t := ht
    injection this with this
    subst this
    exact absurd hpre (by decide)

theorem submitResources_not_atomic :
    ¬ SubmitsAtomically twoBridges 1 firstBridge (ioConfiguration 4)
      (submitResources 1 (configurationOf (ioBytes 4)) twoBridges) := by
  rw [configurationOf_ioBytes, submitResources_found find?_firstBridge]
  refine not_submitsAtomically
    ⟨[], ioDescriptor 4, [], rfl, fun d hd => absurd hd List.not_mem_nil, .inl rfl, ?_⟩
  intro haligned
  exact absurd ((power2MaxMemory_eq_iff 4).mpr haligned) (by decide)

end Quark.PciHostBridge
