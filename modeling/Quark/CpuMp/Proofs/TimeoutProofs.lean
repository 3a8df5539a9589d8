import Quark.CpuMp.Timeout

/-!
# Timeouts of the MP services: the total is the time since the call

Between two polls less than a cycle passes, and the difference of the two values, corrected by the cycle, is that
time, whichever way the counter counts. A total that began at zero is then the time since the call began.
-/

namespace Quark.CpuMp

section
variable {counter : PerformanceCounter}

/-! ## The difference of two values -/

theorem int64_of_bounds {x : Int} (hlo : -2 ^ 63 ≤ x) (hhi : x < 2 ^ 63) : int64 x = x := by
  rw [int64, Int.bmod_def]
  omega

theorem timeoutCycle_eq : timeoutCycle counter = counter.cycle := by
  have hrange := counter.range_lt
  have hstart := counter.startValue_lt
  rw [timeoutCycle, int64_of_bounds (x := (counter.endValue : Int) - counter.startValue) (by omega) (by omega)]
  by_cases hneg : (counter.endValue : Int) - counter.startValue < 0
  · simp only [if_pos hneg]
    rw [int64_of_bounds (x := -((counter.endValue : Int) - counter.startValue)) (by omega) (by omega),
      int64_of_bounds (by omega) (by omega), PerformanceCounter.cycle]
    omega
  · simp only [if_neg hneg]
    rw [int64_of_bounds (by omega) (by omega), PerformanceCounter.cycle]
    omega

theorem mod_cycle_cases {cycle n m : Nat} (hle : n ≤ m) (hlt : m - n < cycle) :
    m % cycle = n % cycle + (m - n) ∨ m % cycle + cycle = n % cycle + (m - n) := by
  have hn := Nat.mod_lt n (show 0 < cycle by omega)
  have hm : m % cycle = (n % cycle + (m - n)) % cycle := by
    rw [Nat.mod_add_mod, Nat.add_sub_cancel' hle]
  rcases Nat.lt_or_ge (n % cycle + (m - n)) cycle with h | h
  · left
    rw [hm, Nat.mod_eq_of_lt h]
  · right
    rw [hm, Nat.mod_eq_sub_mod h, Nat.mod_eq_of_lt (by omega)]
    omega

theorem timeoutDelta_eq {n m : Nat} (hle : n ≤ m) (hlt : m - n < counter.cycle) :
    timeoutDelta counter (counter.value m) (counter.value n) = (m - n : Nat) := by
  have hrange := counter.range_lt
  have hcycle : counter.cycle = counter.startValue - counter.endValue + (counter.endValue - counter.startValue) + 1 :=
    rfl
  have hn := Nat.mod_lt n (show 0 < counter.cycle by omega)
  have hm := Nat.mod_lt m (show 0 < counter.cycle by omega)
  have hcases := mod_cycle_cases hle hlt
  rw [timeoutDelta, timeoutCycle_eq, PerformanceCounter.value, PerformanceCounter.value]
  generalize n % counter.cycle = a at hn hcases ⊢
  generalize m % counter.cycle = b at hm hcases ⊢
  by_cases hdown : counter.endValue < counter.startValue
  · simp only [if_pos hdown, gt_iff_lt]
    rw [int64_of_bounds (x := ((counter.startValue - b : Nat) : Int) - (counter.startValue - a : Nat))
      (by omega) (by omega), int64_of_bounds (by omega) (by omega)]
    split
    · rw [int64_of_bounds (by omega) (by omega)]
      omega
    · omega
  · simp only [if_neg hdown, gt_iff_lt]
    rw [int64_of_bounds (x := ((counter.startValue + b : Nat) : Int) - (counter.startValue + a : Nat))
      (by omega) (by omega)]
    split
    · rw [int64_of_bounds (by omega) (by omega)]
      omega
    · omega

/-! ## A call that waits -/

/-- With a timeout, the timer holds the value of the last poll, the ticks of the timeout, and the time since the
call began, which has not reached the timeout. -/
structure Running.Timed (counter : PerformanceCounter) (r : Running) (timer : CallTimer) : Prop where
  value : timer.currentTime = counter.value r.polled
  expected : timer.expectedTime = counter.frequency * r.timeoutInMicroseconds / 1000000
  expected_pos : 0 < timer.expectedTime
  expected_lt : timer.expectedTime < 2 ^ 63
  total : timer.totalTime = r.polled - r.begun
  total_le : timer.totalTime ≤ timer.expectedTime
  begun_le : r.begun ≤ r.polled

structure Waits (counter : PerformanceCounter) (s : MpSystemData) (r : Running) (timer : CallTimer) : Prop where
  polled_le : r.polled ≤ s.ticks
  infinite : r.timeoutInMicroseconds = 0 → timer.expectedTime = 0
  timed : r.timeoutInMicroseconds ≠ 0 → r.Timed counter timer

def Invariant (counter : PerformanceCounter) (s : MpSystemData) : Prop :=
  ∀ call r, s.running call = some r → Waits counter s r (s.timers call)

theorem invariant_start : Invariant counter .start := by
  intro call r h
  cases h

theorem checkTimeout_timed {r : Running} {timer : CallTimer} {ticks : Nat} (h : r.Timed counter timer)
    (hle : r.polled ≤ ticks) (hlt : ticks - r.polled < counter.cycle) :
    checkTimeout counter (counter.value ticks) timer =
      (decide (timer.expectedTime < ticks - r.begun),
        { timer with currentTime := counter.value ticks, totalTime := ticks - r.begun }) := by
  have hcycle : counter.cycle < 2 ^ 63 := counter.range_lt
  have hpos := h.expected_pos
  have hexpected := h.expected_lt
  have htotal := h.total
  have htotalLe := h.total_le
  have hbegun := h.begun_le
  have hsum : ((timer.totalTime + timeoutDelta counter (counter.value ticks) timer.currentTime) % 2 ^ 64).toNat
      = ticks - r.begun := by
    rw [h.value, timeoutDelta_eq hle hlt]
    omega
  rw [checkTimeout, if_neg (by omega)]
  simp only [hsum]

theorem expired_iff {r : Running} {timer : CallTimer} {ticks : Nat} (h : r.Timed counter timer)
    (ht : r.timeoutInMicroseconds ≠ 0) : timer.expectedTime < ticks - r.begun ↔ r.Expired counter ticks := by
  rw [h.expected, Running.Expired, Nat.div_lt_iff_lt_mul (by decide), Nat.mul_comm _ 1000000]
  exact ⟨fun hlt => ⟨ht, hlt⟩, fun hexpired => hexpired.2⟩

theorem check_cases {s : MpSystemData} {call : Call} {r : Running} (hinv : Invariant counter s)
    (hrun : s.running call = some r) (hlt : s.ticks - r.polled < counter.cycle) :
    (r.Expired counter s.ticks ∧ (check counter call false s).1 = .timeout ∧
      (check counter call false s).2.running = Function.update s.running call none ∧
      (check counter call false s).2.ticks = s.ticks ∧
      ∀ other ≠ call, (check counter call false s).2.timers other = s.timers other) ∨
    (¬ r.Expired counter s.ticks ∧ (check counter call false s).1 = .notReady ∧
      (check counter call false s).2.running = Function.update s.running call (some { r with polled := s.ticks }) ∧
      (check counter call false s).2.ticks = s.ticks ∧
      (∀ other ≠ call, (check counter call false s).2.timers other = s.timers other) ∧
      Waits counter s { r with polled := s.ticks } ((check counter call false s).2.timers call)) := by
  have hwaits := hinv call r hrun
  by_cases ht : r.timeoutInMicroseconds = 0
  · -- without a timeout the timer is left as it is
    right
    have hnone : checkTimeout counter (counter.value s.ticks) (s.timers call) = (false, s.timers call) := by
      rw [checkTimeout, if_pos (hwaits.infinite ht)]
    simp only [check, hnone, hrun]
    refine ⟨fun h => h.1 ht, rfl, rfl, rfl, fun other hne => Function.update_of_ne hne _ _, ?_⟩
    show Waits counter s _ (Function.update s.timers call _ call)
    rw [Function.update_self]
    exact ⟨Nat.le_refl _, hwaits.infinite, fun h => absurd ht h⟩
  · have htimed := hwaits.timed ht
    have hpoll := checkTimeout_timed htimed hwaits.polled_le hlt
    by_cases hexpired : r.Expired counter s.ticks
    · left
      rw [decide_eq_true ((expired_iff htimed ht).mpr hexpired)] at hpoll
      simp only [check, hpoll]
      exact ⟨hexpired, rfl, rfl, rfl, fun other hne => Function.update_of_ne hne _ _⟩
    · right
      have hle := mt (expired_iff htimed ht).mp hexpired
      rw [decide_eq_false hle] at hpoll
      simp only [check, hpoll, hrun]
      refine ⟨hexpired, rfl, rfl, rfl, fun other hne => Function.update_of_ne hne _ _, ?_⟩
      show Waits counter s _ (Function.update s.timers call _ call)
      rw [Function.update_self]
      refine ⟨Nat.le_refl _, fun h => absurd h ht, fun _ => ⟨rfl, htimed.expected, htimed.expected_pos,
        htimed.expected_lt, rfl, Nat.le_of_not_lt hle, Nat.le_trans htimed.begun_le hwaits.polled_le⟩⟩

/-! ## Steps and runs -/

theorem exact_of_invariant {s : MpSystemData} (hinv : Invariant counter s) {action : Action}
    (hallowed : Allowed counter s action) : Exact counter s action := by
  rcases action with ticks | ⟨call, timeout⟩ | ⟨call, finished⟩
  · trivial
  · trivial
  cases finished with
  | true => trivial
  | false =>
    intro r hrun
    obtain ⟨r', hrun', hlt⟩ := hallowed
    rw [hrun] at hrun'
    cases hrun'
    rcases check_cases hinv hrun hlt with ⟨hexpired, hstatus, -⟩ | ⟨hexpired, hstatus, -⟩
    · exact iff_of_true hstatus hexpired
    · exact iff_of_false (by rw [hstatus]; decide) hexpired

theorem invariant_step {s : MpSystemData} (hinv : Invariant counter s) {action : Action}
    (hallowed : Allowed counter s action) (hfresh : Fresh counter s action) :
    Invariant counter (step counter action s) := by
  rcases action with ticks | ⟨call, timeout⟩ | ⟨call, finished⟩
  · intro call r hrun
    have hwaits := hinv call r hrun
    exact ⟨Nat.le_trans hwaits.polled_le (Nat.le_add_right _ _), hwaits.infinite, hwaits.timed⟩
  · intro other r hrun
    change Function.update s.running call _ other = some r at hrun
    show Waits counter _ r (Function.update s.timers call _ other)
    by_cases hother : other = call
    · subst hother
      rw [Function.update_self] at hrun ⊢
      cases hrun
      refine ⟨Nat.le_refl _, fun ht => if_pos ht, fun ht => ?_⟩
      obtain ⟨htotal, htick, hwrap⟩ := Or.resolve_left hfresh ht
      have hexpected : calculateTimeout counter timeout = counter.frequency * timeout / 1000000 := by
        rw [calculateTimeout, if_neg ht, Nat.mod_eq_of_lt hwrap]
      have htotal : (s.timers other).totalTime = 0 := htotal
      refine ⟨rfl, hexpected, ?_, ?_, ?_, ?_, Nat.le_refl _⟩
      · show 0 < calculateTimeout counter timeout
        omega
      · show calculateTimeout counter timeout < 2 ^ 63
        omega
      · show (s.timers other).totalTime = s.ticks - s.ticks
        omega
      · show (s.timers other).totalTime ≤ _
        omega
    · rw [Function.update_of_ne hother] at hrun ⊢
      have hwaits := hinv other r hrun
      exact ⟨hwaits.polled_le, hwaits.infinite, hwaits.timed⟩
  · obtain ⟨r, hrun, hlt⟩ := hallowed
    have hothers : ∀ other ≠ call, ∀ q, s.running other = some q → ∀ t : MpSystemData, t.ticks = s.ticks →
        t.timers other = s.timers other → Waits counter t q (t.timers other) := by
      intro other _ q hq t hticks htimers
      have hwaits := hinv other q hq
      rw [htimers]
      exact ⟨hticks ▸ hwaits.polled_le, hwaits.infinite, hwaits.timed⟩
    intro other q hq
    by_cases hother : other = call
    · subst hother
      cases finished with
      | true =>
        change Function.update s.running other none other = some q at hq
        rw [Function.update_self] at hq
        cases hq
      | false =>
        change (check counter other false s).2.running other = some q at hq
        rcases check_cases hinv hrun hlt with ⟨-, -, hnone, -⟩ | ⟨-, -, hsome, hticks, -, hwaits⟩
        · rw [hnone, Function.update_self] at hq
          cases hq
        · rw [hsome, Function.update_self] at hq
          cases hq
          exact ⟨hticks ▸ hwaits.polled_le, hwaits.infinite, hwaits.timed⟩
    · cases finished with
      | true =>
        change Function.update s.running call none other = some q at hq
        rw [Function.update_of_ne hother] at hq
        exact hothers other hother q hq _ rfl rfl
      | false =>
        change (check counter call false s).2.running other = some q at hq
        rcases check_cases hinv hrun hlt with ⟨-, -, hnone, hticks, htimers⟩ | ⟨-, -, hsome, hticks, htimers, -⟩
        · rw [hnone, Function.update_of_ne hother] at hq
          exact hothers other hother q hq _ hticks (htimers other hother)
        · rw [hsome, Function.update_of_ne hother] at hq
          exact hothers other hother q hq _ hticks (htimers other hother)

theorem run_exact_of_invariant (run : List Action) : ∀ s, Invariant counter s → RunAllowed counter run s →
    RunFresh counter run s → RunExact counter run s := by
  induction run with
  | nil =>
    intro s _ _ _
    trivial
  | cons action run ih =>
    rintro s hinv ⟨hallowed, hrest⟩ ⟨hfresh, hfreshRest⟩
    exact ⟨exact_of_invariant hinv hallowed, ih _ (invariant_step hinv hallowed hfresh) hrest hfreshRest⟩

theorem timeouts_exact_of_fresh (counter : PerformanceCounter) (run : List Action)
    (hallowed : RunAllowed counter run .start) (hfresh : RunFresh counter run .start) :
    RunExact counter run .start :=
  run_exact_of_invariant run _ invariant_start hallowed hfresh

end

def acpiTimer : PerformanceCounter := ⟨0, 0xFFFFFF, 3579545, by decide, by decide, by decide⟩

/-- Two calls of `StartupAllAPs` for 100 microseconds: the first is finished after 357 ticks, the second polled after
one. -/
def secondCall : List Action :=
  [.startup .allAPs 100, .wait 357, .check .allAPs false, .check .allAPs true,
    .startup .allAPs 100, .wait 1, .check .allAPs false]

/-- The 357 ticks of the first call are counted to the second, which is reported after one tick. -/
theorem second_call_expires :
    RunAllowed acpiTimer secondCall .start ∧ ¬ RunExact acpiTimer secondCall .start := by
  constructor
  · refine ⟨⟨rfl, by decide⟩, trivial, ⟨_, rfl, by decide⟩, ⟨_, rfl, by decide⟩, ⟨rfl, by decide⟩, trivial,
      ⟨_, rfl, by decide⟩, trivial⟩
  · rintro ⟨-, -, -, -, -, -, hexact, -⟩
    have hexpired := (hexact _ rfl).mp (by decide)
    revert hexpired
    simp [Running.Expired, acpiTimer, step, startup, check, MpSystemData.start]

theorem first_calls_exact :
    RunExact acpiTimer [.startup (.thisAP 1) 5000000, .startup .allAPs 0, .wait 0xFFFFFE, .check .allAPs false,
      .check (.thisAP 1) false, .wait 0xFFFFFE, .check (.thisAP 1) false] .start := by
  apply timeouts_exact_of_fresh
  · refine ⟨⟨rfl, by decide⟩, ⟨rfl, by decide⟩, trivial, ⟨_, rfl, by decide⟩, ⟨_, rfl, by decide⟩, trivial,
      ⟨_, rfl, by decide⟩, trivial⟩
  · exact ⟨.inr ⟨rfl, by decide, by decide⟩, .inl rfl, trivial, trivial, trivial, trivial, trivial, trivial⟩

end Quark.CpuMp
