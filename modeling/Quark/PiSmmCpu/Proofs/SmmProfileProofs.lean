import Quark.PiSmmCpu.SmmProfile
import Quark.Machine.BitField

/-!
# The page table after profiling

Every handler run is a step on a table that CPUs open and close. An entry has two values, the one that `InitPaging`
left and the one of the open page, whichever CPU faults on it.
-/

namespace Quark.PiSmmCpu

open Machine Exec

variable {c : ProfileConfig}

/-! ## Handler runs as steps -/

def PageEntry.base : PageEntry → Nat
  | .large pdpte pd => pdpte * 2 ^ 30 + pd * 2 ^ 21
  | .small pdpte pd pt => pdpte * 2 ^ 30 + pd * 2 ^ 21 + pt * 2 ^ 12

def openEntry (e : PageEntry) : BitVec 64 :=
  match e with
  | .large _ _ => BitVec.ofNat 64 e.base ||| ia32PgPs ||| (ia32PgRw ||| ia32PgP)
  | .small _ _ _ => BitVec.ofNat 64 e.base ||| 0 ||| (ia32PgRw ||| ia32PgP)

def entryOf (t : PageTables) (pfAddress : BitVec 64) : PageEntry :=
  let pdpte := bitFieldRead64 pfAddress 30 38
  let pd := bitFieldRead64 pfAddress 21 29
  if t.entry (.large pdpte pd) &&& ia32PgPs ≠ 0 then .large pdpte pd
  else .small pdpte pd (bitFieldRead64 pfAddress 12 20)

theorem and_not_nx {v : BitVec 64} (h : v.toNat < 2 ^ 63) : v &&& ~~~ia32PgNx = v := by
  apply BitVec.eq_of_getLsbD_eq
  intro i hi
  rw [BitVec.getLsbD_and, BitVec.getLsbD_not]
  by_cases h63 : i = 63
  · subst h63
    have hbit : v.getLsbD 63 = false := Nat.testBit_eq_false_of_lt h
    rw [hbit, Bool.false_and]
  · have hnx : ia32PgNx.getLsbD i = false := by
      have : ∀ j < 64, j ≠ 63 → ia32PgNx.getLsbD j = false := by decide
      exact this i hi h63
    rw [hnx, decide_eq_true hi, Bool.not_false, Bool.and_true, Bool.and_true]

theorem newEntry_eq {a flags : BitVec 64} {shift base : Nat} (hshift : shift < 64)
    (ha : a.toNat < 2 ^ 32) (hflags : flags.toNat < 2 ^ 32) (hbase : a.toNat / 2 ^ shift * 2 ^ shift = base)
    (errorCode : BitVec 32) :
    newEntry a shift flags errorCode = BitVec.ofNat 64 base ||| flags ||| (ia32PgRw ||| ia32PgP) := by
  have hmask : (BitVec.ofNat 64 (2 ^ shift - 1)).toNat = 2 ^ shift - 1 := by
    have := Nat.pow_lt_pow_right (a := 2) (by decide) hshift
    rw [BitVec.toNat_ofNat, Nat.mod_eq_of_lt (by omega)]
  have hpage : a &&& ~~~BitVec.ofNat 64 (2 ^ shift - 1) = BitVec.ofNat 64 base := by
    apply BitVec.eq_of_toNat_eq
    have hle : base ≤ a.toNat := hbase ▸ Nat.div_mul_le_self _ _
    rw [toNat_and_not_low hmask, hbase, BitVec.toNat_ofNat, Nat.mod_eq_of_lt (by omega)]
  have hlt : (BitVec.ofNat 64 base ||| flags ||| (ia32PgRw ||| ia32PgP)).toNat < 2 ^ 63 := by
    have hle : base ≤ a.toNat := hbase ▸ Nat.div_mul_le_self _ _
    have hb : (BitVec.ofNat 64 base).toNat < 2 ^ 32 := by
      rw [BitVec.toNat_ofNat, Nat.mod_eq_of_lt (by omega)]
      omega
    have h32 := Nat.or_lt_two_pow (Nat.or_lt_two_pow hb hflags)
      (show (ia32PgRw ||| ia32PgP).toNat < 2 ^ 32 by decide)
    rw [BitVec.toNat_or, BitVec.toNat_or]
    omega
  unfold newEntry
  rw [hpage]
  dsimp only
  split
  · exact and_not_nx hlt
  · rfl

theorem newEntry_large {a : BitVec 64} (ha : a.toNat < 2 ^ 32) (errorCode : BitVec 32) :
    newEntry a 21 ia32PgPs errorCode =
      openEntry (.large (bitFieldRead64 a 30 38) (bitFieldRead64 a 21 29)) := by
  refine newEntry_eq (by decide) ha (by decide) ?_ errorCode
  simp only [PageEntry.base, bitFieldRead64]
  omega

theorem newEntry_small {a : BitVec 64} (ha : a.toNat < 2 ^ 32) (errorCode : BitVec 32) :
    newEntry a 12 0 errorCode = openEntry (.small (bitFieldRead64 a 30 38) (bitFieldRead64 a 21 29)
      (bitFieldRead64 a 12 20)) := by
  refine newEntry_eq (by decide) ha (by decide) ?_ errorCode
  simp only [PageEntry.base, bitFieldRead64]
  omega

def Profile.entries (s : Profile) : OpenTable Nat PageEntry (BitVec 64) where
  table := s.pageTable.entry
  kept := s.lastPFEntry

def entryStep (s : Profile) : HandlerRun → OpenStep Nat PageEntry
  | .pageFault cpu address _ => .opens cpu (entryOf s.pageTable address)
  | .singleStep cpu => .closes cpu

structure RunsAs (s s' : Profile) (a : OpenStep Nat PageEntry) : Prop where
  entries : s'.entries = s.entries.step openEntry a
  start : s'.smmProfileStart = s.smmProfileStart
  above : s'.pageTable.pml4e = s.pageTable.pml4e ∧ s'.pageTable.pdpte = s.pageTable.pdpte

theorem wp_followTable {s : Profile} (value : BitVec 64) :
    wp (followTable c value) (fun _ t => t = s) (fun _ _ => True) s := by
  rw [followTable, wp_bind, wp_assert]
  refine ⟨fun _ => ?_, fun _ => trivial⟩
  rw [wp_ite]
  exact ⟨fun _ => trivial, fun _ => rfl⟩

theorem wp_replaceEntry {s : Profile} {cpu : Nat} {e : PageEntry}
    (hroom : (s.lastPFEntry cpu).length < maxPfEntryCount) :
    wp (replaceEntry c cpu e (openEntry e)) (fun _ t => RunsAs s t (.opens cpu e)) (fun _ _ => True) s := by
  rw [replaceEntry, wp_bind, wp_get, wp_bind, wp_assert]
  refine ⟨fun _ => ?_, fun _ => trivial⟩
  rw [wp_bind, wp_modify, wp_modify]
  unfold recordEntry
  rw [if_pos hroom]
  exact ⟨rfl, rfl, rfl, rfl⟩

theorem wp_restorePageTable {s : Profile} {cpu : Nat} {a : BitVec 64} {errorCode : BitVec 32}
    (ha : a.toNat < 2 ^ 32) (hroom : (s.lastPFEntry cpu).length < maxPfEntryCount) :
    wp (restorePageTableBelow4G c a cpu errorCode)
      (fun _ t => RunsAs s t (.opens cpu (entryOf s.pageTable a))) (fun _ _ => True) s := by
  rw [restorePageTableBelow4G, wp_bind, wp_get, wp_bind]
  have htop : wp (Exec.when (c.x64 = true) (followTable c s.pageTable.pml4e)) (fun _ t => t = s)
      (fun _ _ => True) s := by
    rw [wp_when]
    exact ⟨fun _ => wp_followTable _, fun _ => rfl⟩
  refine wp_mono htop ?_ (fun _ _ h => h)
  rintro _ t rfl
  rw [wp_bind]
  refine wp_mono (wp_followTable _) ?_ (fun _ _ h => h)
  rintro _ s rfl
  unfold entryOf
  dsimp only
  by_cases hps : s.pageTable.entry (.large (bitFieldRead64 a 30 38) (bitFieldRead64 a 21 29)) &&&
      ia32PgPs ≠ 0
  · rw [if_pos hps, if_pos hps, newEntry_large ha]
    exact wp_replaceEntry hroom
  · rw [if_neg hps, if_neg hps, wp_bind]
    refine wp_mono (wp_followTable _) ?_ (fun _ _ h => h)
    rintro _ t rfl
    rw [newEntry_small ha]
    exact wp_replaceEntry hroom

theorem wp_runHandler {s : Profile} {run : HandlerRun} (hstart : s.smmProfileStart = true)
    (hallowed : FaultAllowed run s) :
    wp (runHandler c run) (fun _ t => RunsAs s t (entryStep s run)) (fun _ _ => True) s := by
  cases run with
  | pageFault cpu a errorCode =>
    rw [runHandler, smmProfilePFHandler, wp_bind, wp_get, wp_when]
    refine ⟨fun _ => ?_, fun h => absurd hstart h⟩
    exact wp_restorePageTable hallowed.1 hallowed.2
  | singleStep cpu =>
    rw [runHandler, debugExceptionHandler, wp_bind, wp_get, wp_when]
    refine ⟨fun _ => ?_, fun h => absurd hstart h⟩
    rw [wp_modify]
    exact ⟨rfl, rfl, rfl, rfl⟩

/-! ## Runs -/

theorem closesLast_iff {t : PageTables} {s : Profile} (run : HandlerRun) :
    s.entries.ClosesLast t.entry (entryStep s run) ↔ ClosesAsOpened t run s := by
  cases run <;> exact Iff.rfl

theorem serve_steps {t : PageTables} : ∀ {runs : List HandlerRun} {s s' : Profile},
    s.smmProfileStart = true → EachMeets (runHandler c) FaultAllowed runs s →
    Exec.serve (runHandler c) runs s = .ret () s' →
    ∃ as, s'.entries = as.foldl (OpenTable.step openEntry) s.entries ∧
      (s'.pageTable.pml4e = s.pageTable.pml4e ∧ s'.pageTable.pdpte = s.pageTable.pdpte) ∧
      (OpenTable.AllCloseLast openEntry t.entry as s.entries ↔
        EachMeets (runHandler c) (ClosesAsOpened t) runs s) := by
  intro runs
  induction runs with
  | nil =>
    intro s s' _ _ h
    injection h with _ h
    subst h
    exact ⟨[], rfl, ⟨rfl, rfl⟩, Iff.rfl⟩
  | cons run runs ih =>
    intro s s' hstart hallowed h
    obtain ⟨r, u, hret, hrest⟩ := serve_cons_ret.mp h
    have hstep := wp_of_ret (wp_runHandler (c := c) hstart hallowed.1) hret
    obtain ⟨as, hentries, habove, hiff⟩ := ih (hstep.start.trans hstart) (hallowed.2 r u hret) hrest
    refine ⟨entryStep s run :: as, ?_, ⟨habove.1.trans hstep.above.1, habove.2.trans hstep.above.2⟩, ?_⟩
    · rw [List.foldl_cons, ← hstep.entries]
      exact hentries
    · show s.entries.ClosesLast t.entry (entryStep s run) ∧
        OpenTable.AllCloseLast openEntry t.entry as (s.entries.step openEntry (entryStep s run)) ↔ _
      rw [closesLast_iff, ← hstep.entries, hiff]
      refine and_congr_right fun _ => ⟨fun h r' u' hret' => ?_, fun h => h r u hret⟩
      rw [hret] at hret'
      injection hret' with _ hu
      exact hu ▸ h

/-- When every CPU has completed its last single step, the page table is the one that `InitPaging` left exactly if
each entry was closed last by a CPU whose last record of it has the value from before it was opened. -/
theorem page_table_restored_iff {s₀ s : Profile} (h₀ : ProfileStarted s₀) (runs : List HandlerRun)
    (hallowed : EachMeets (runHandler c) FaultAllowed runs s₀)
    (hruns : Exec.serve (runHandler c) runs s₀ = .ret () s) (hstepped : AllStepped s) :
    s.pageTable = s₀.pageTable ↔ EachMeets (runHandler c) (ClosesAsOpened s₀.pageTable) runs s₀ := by
  obtain ⟨as, hentries, ⟨hpml4e, hpdpte⟩, hiff⟩ := serve_steps (t := s₀.pageTable) h₀.start hallowed hruns
  have htwo : OpenTable.TwoValued openEntry s₀.pageTable.entry s₀.entries := by
    refine ⟨fun _ => .inl rfl, fun cpu r hr => ?_⟩
    have hr' : r ∈ s₀.lastPFEntry cpu := hr
    rw [h₀.kept cpu] at hr'
    cases hr'
  have hquiet : (as.foldl (OpenTable.step openEntry) s₀.entries).Quiet := by
    rw [← hentries]
    exact hstepped
  rw [← hiff, ← OpenTable.table_eq_iff as htwo (fun _ => .inl rfl) hquiet, ← hentries]
  refine ⟨fun h => congrArg PageTables.entry h, fun h => ?_⟩
  have heta : ∀ t : PageTables, t = ⟨t.pml4e, t.pdpte, t.entry⟩ := fun _ => rfl
  rw [heta s.pageTable, heta s₀.pageTable, hpml4e, hpdpte]
  exact congrArg _ h

theorem lastPFEntry_of_others {cpu : Nat} : ∀ {runs : List HandlerRun} {s s' : Profile},
    s.smmProfileStart = true → EachMeets (runHandler c) FaultAllowed runs s →
    Exec.serve (runHandler c) runs s = .ret () s' → (∀ run ∈ runs, run.cpu ≠ cpu) →
    s'.lastPFEntry cpu = s.lastPFEntry cpu := by
  intro runs
  induction runs with
  | nil =>
    intro s s' _ _ h _
    injection h with _ h
    rw [h]
  | cons run runs ih =>
    intro s s' hstart hallowed h hcpu
    obtain ⟨r, u, hret, hrest⟩ := serve_cons_ret.mp h
    have hstep := wp_of_ret (wp_runHandler (c := c) hstart hallowed.1) hret
    have hrun : u.lastPFEntry cpu = s.lastPFEntry cpu := by
      have hne : cpu ≠ run.cpu := (hcpu run List.mem_cons_self).symm
      have hkept := congrFun (congrArg OpenTable.kept hstep.entries) cpu
      refine hkept.trans ?_
      cases run with
      | pageFault cpu' a errorCode => exact Function.update_of_ne hne _ _
      | singleStep cpu' => exact Function.update_of_ne hne _ _
    rw [ih (hstep.start.trans hstart) (hallowed.2 r u hret) hrest
      fun run' hr => hcpu run' (List.mem_cons_of_mem run hr), hrun]

/-! ## Examples -/

def closedPages : Profile where
  smmProfileStart := true
  pageTable := ⟨0, fun _ => 0x1001, fun e => BitVec.ofNat 64 e.base ||| ia32PgPs⟩
  lastPFEntry _ := []

theorem profileStarted_closedPages : ProfileStarted closedPages := ⟨rfl, fun _ => rfl⟩

def profileConfig : ProfileConfig := ⟨true, false⟩

def afterHandlers (runs : List HandlerRun) : Profile :=
  (Exec.serve (runHandler profileConfig) runs closedPages).state

theorem allStepped_after {runs : List HandlerRun}
    (hallowed : EachMeets (runHandler profileConfig) FaultAllowed runs closedPages)
    (hret : (Exec.serve (runHandler profileConfig) runs closedPages).value? = some ())
    (hcpu : ∀ run ∈ runs, run.cpu < 2)
    (hstepped : ∀ cpu < 2, (afterHandlers runs).lastPFEntry cpu = []) : AllStepped (afterHandlers runs) := by
  intro cpu
  by_cases hlt : cpu < 2
  · exact hstepped cpu hlt
  · refine lastPFEntry_of_others (c := profileConfig) rfl hallowed (Outcome.eq_ret hret) fun run hr => ?_
    have := hcpu run hr
    omega

def oneFault : List HandlerRun := [.pageFault 0 0x200000 0, .singleStep 0]

theorem page_table_restored_one_fault :
    (afterHandlers oneFault).pageTable = closedPages.pageTable ↔
      EachMeets (runHandler profileConfig) (ClosesAsOpened closedPages.pageTable) oneFault closedPages := by
  have hallowed : EachMeets (runHandler profileConfig) FaultAllowed oneFault closedPages := by
    decide
  have hret : (Exec.serve (runHandler profileConfig) oneFault closedPages).value? = some () := by
    decide
  exact page_table_restored_iff profileStarted_closedPages oneFault hallowed (Outcome.eq_ret hret)
    (allStepped_after hallowed hret (by decide) (by decide))

def twoFaults : List HandlerRun :=
  [.pageFault 0 0x200000 0, .pageFault 1 0x200000 0, .singleStep 0, .singleStep 1]

/-- The second CPU records the page as the first one opened it, and leaves it open. -/
theorem page_left_open : ¬ ∀ s, EachMeets (runHandler profileConfig) FaultAllowed twoFaults closedPages →
    Exec.serve (runHandler profileConfig) twoFaults closedPages = .ret () s → AllStepped s →
      s.pageTable = closedPages.pageTable := by
  intro h
  have hallowed : EachMeets (runHandler profileConfig) FaultAllowed twoFaults closedPages := by
    decide
  have hret : (Exec.serve (runHandler profileConfig) twoFaults closedPages).value? = some () := by
    decide
  have hstepped := allStepped_after hallowed hret (by decide) (by decide)
  have heq := h _ hallowed (Outcome.eq_ret hret) hstepped
  have hopen : (afterHandlers twoFaults).pageTable.entry (.large 0 1) ≠
      closedPages.pageTable.entry (.large 0 1) := by
    decide
  exact hopen (congrArg (fun t => t.entry (.large 0 1)) heq)

end Quark.PiSmmCpu
