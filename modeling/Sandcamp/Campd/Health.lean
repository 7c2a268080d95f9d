import Sandcamp.Foundations.Windows
import Sandcamp.Campd.History

/-!
# What the health of a probe says about its history

The two counters of `ProbeState` and its three-valued health against the whole history of
results: the health is decided by the last window of enough equal results.
-/

namespace Sandcamp.Campd
open Foundations

/-- A window of successes or of failures ends after `n` results. -/
def Closes (successes failures n : ℕ) (results : List Bool) : Prop :=
  WindowEnds true successes n results ∨ WindowEnds false failures n results

/-- The health that these results come to: no window has ended yet, or the last position at
which one ends closes a window of this kind. -/
def HealthOf (successes failures : ℕ) (results : List Bool) : ProbeHealth → Prop
  | .starting => ∀ n, ¬Closes successes failures n results
  | .ready => ∃ n, WindowEnds true successes n results ∧
      ∀ m, n < m → ¬Closes successes failures m results
  | .unready => ∃ n, WindowEnds false failures n results ∧
      ∀ m, n < m → ¬Closes successes failures m results

/-! ### One health for a history -/

section Unique
variable {successes failures : ℕ} {results : List Bool}

theorem closes_one {n : ℕ} (hs : 0 < successes) (hf : 0 < failures)
    (hsuccess : WindowEnds true successes n results)
    (hfailure : WindowEnds false failures n results) : False := by
  obtain ⟨hsize, -, htrue⟩ := hsuccess
  obtain ⟨-, -, hfalse⟩ := hfailure
  have hlast := htrue (n - 1) (by omega) (by omega)
  rw [hfalse (n - 1) (by omega) (by omega)] at hlast
  cases hlast

/-- Two windows after which none ends stand at one position. -/
theorem last_position {n m : ℕ} (hn : Closes successes failures n results)
    (hm : Closes successes failures m results)
    (hlastn : ∀ k, n < k → ¬Closes successes failures k results)
    (hlastm : ∀ k, m < k → ¬Closes successes failures k results) : n = m := by
  have hle : ¬n < m := fun hlt => hlastn m hlt hm
  have hge : ¬m < n := fun hlt => hlastm n hlt hn
  omega

theorem healthOf_unique (hs : 0 < successes) (hf : 0 < failures) {health health' : ProbeHealth}
    (h : HealthOf successes failures results health)
    (h' : HealthOf successes failures results health') : health = health' := by
  cases health with
  | starting =>
    cases health' with
    | starting => rfl
    | ready =>
      obtain ⟨n, hn, -⟩ := h'
      exact absurd (Or.inl hn) (h n)
    | unready =>
      obtain ⟨n, hn, -⟩ := h'
      exact absurd (Or.inr hn) (h n)
  | ready =>
    obtain ⟨n, hn, hlast⟩ := h
    cases health' with
    | starting => exact absurd (Or.inl hn) (h' n)
    | ready => rfl
    | unready =>
      obtain ⟨m, hm, hlast'⟩ := h'
      obtain rfl := last_position (Or.inl hn) (Or.inr hm) hlast hlast'
      exact (closes_one hs hf hn hm).elim
  | unready =>
    obtain ⟨n, hn, hlast⟩ := h
    cases health' with
    | starting => exact absurd (Or.inr hn) (h' n)
    | ready =>
      obtain ⟨m, hm, hlast'⟩ := h'
      obtain rfl := last_position (Or.inr hn) (Or.inl hm) hlast hlast'
      exact (closes_one hs hf hm hn).elim
    | unready => rfl

end Unique

/-! ### One more result -/

section Snoc
variable {successes failures : ℕ} {results : List Bool} (result : Bool)

theorem closes_snoc (n : ℕ) (h : n ≤ results.length) :
    Closes successes failures n (results ++ [result]) ↔ Closes successes failures n results := by
  unfold Closes
  rw [windowEnds_append true successes n results [result] h,
    windowEnds_append false failures n results [result] h]

theorem not_closes_beyond (n : ℕ) (h : results.length < n) :
    ¬Closes successes failures n results := by
  rintro (hn | hn)
  · have hle := hn.2.1
    omega
  · have hle := hn.2.1
    omega

/-- A window that the new result closes decides alone. -/
theorem healthOf_closed_success
    (h : WindowEnds true successes (results ++ [result]).length (results ++ [result])) :
    HealthOf successes failures (results ++ [result]) .ready :=
  ⟨_, h, fun m hm => not_closes_beyond m hm⟩

theorem healthOf_closed_failure
    (h : WindowEnds false failures (results ++ [result]).length (results ++ [result])) :
    HealthOf successes failures (results ++ [result]) .unready :=
  ⟨_, h, fun m hm => not_closes_beyond m hm⟩

theorem healthOf_open {health : ProbeHealth} (h : HealthOf successes failures results health)
    (hopen : ¬Closes successes failures (results ++ [result]).length (results ++ [result])) :
    HealthOf successes failures (results ++ [result]) health := by
  have hlength : (results ++ [result]).length = results.length + 1 := by simp
  -- nothing is new before the last position, and nothing ends at it or beyond
  have hnone : ∀ n, (n ≤ results.length → ¬Closes successes failures n results) →
      ¬Closes successes failures n (results ++ [result]) := by
    intro n hold hnew
    have hcases : n ≤ results.length ∨ n = (results ++ [result]).length ∨
        (results ++ [result]).length < n := by omega
    rcases hcases with hn | rfl | hn
    · exact hold hn ((closes_snoc result n hn).mp hnew)
    · exact hopen hnew
    · exact not_closes_beyond n hn hnew
  cases health with
  | starting => exact fun n => hnone n fun _ => h n
  | ready =>
    obtain ⟨n, hn, hlast⟩ := h
    refine ⟨n, (windowEnds_append true successes n results [result] hn.2.1).mpr hn, ?_⟩
    exact fun m hm => hnone m fun _ => hlast m hm
  | unready =>
    obtain ⟨n, hn, hlast⟩ := h
    refine ⟨n, (windowEnds_append false failures n results [result] hn.2.1).mpr hn, ?_⟩
    exact fun m hm => hnone m fun _ => hlast m hm

end Snoc

/-! ### The counters -/

theorem saturatingSucc_toNat (n : UInt32) :
    (saturatingSucc n).toNat = min (n.toNat + 1) (2 ^ 32 - 1) := by
  have hlt := n.toNat_lt
  unfold saturatingSucc
  split
  · rename_i hfull
    subst hfull
    decide
  · rename_i hfree
    have hne : n.toNat ≠ 2 ^ 32 - 1 := fun he => hfree (UInt32.toNat_inj.mp he)
    rw [UInt32.toNat_add, Nat.mod_eq_of_lt (by simp; omega)]
    simp
    omega

/-- A threshold is reached by the saturated counter exactly when enough results trail. -/
theorem threshold_le_iff (threshold counter : UInt32) (count : ℕ)
    (h : counter.toNat = min count (2 ^ 32 - 1)) :
    threshold ≤ counter ↔ threshold.toNat ≤ count := by
  have hlt := threshold.toNat_lt
  rw [UInt32.le_iff_toNat_le, h]
  omega

/-- The counters of a state that has been fed these results. -/
structure Counts (probe : Probe) (results : List Bool) (state : ProbeState) : Prop where
  successThreshold : state.successThreshold = probe.successThreshold
  failureThreshold : state.failureThreshold = probe.failureThreshold
  successes : state.consecutiveSuccesses.toNat = min (trailing true results) (2 ^ 32 - 1)
  failures : state.consecutiveFailures.toNat = min (trailing false results) (2 ^ 32 - 1)

theorem counts_new (probe : Probe) : Counts probe [] (ProbeState.new probe) :=
  ⟨rfl, rfl, rfl, rfl⟩

theorem observe_success {probe : Probe} {results : List Bool} {state : ProbeState}
    (h : Counts probe results state) :
    Counts probe (results ++ [true]) (state.observe true).1 ∧
      (state.observe true).1.health =
        if probe.successThreshold.toNat ≤ trailing true results + 1 then .ready
        else state.health := by
  have hcounter : (saturatingSucc state.consecutiveSuccesses).toNat =
      min (trailing true results + 1) (2 ^ 32 - 1) := by
    rw [saturatingSucc_toNat, h.successes]
    omega
  have hreached := threshold_le_iff probe.successThreshold _ _ hcounter
  have hother := trailing_snoc_other false true results (by decide)
  have hsame := trailing_snoc_same true results
  simp only [ProbeState.observe, if_true, h.successThreshold, hreached]
  split
  · exact ⟨⟨rfl, h.failureThreshold, by rw [hsame]; exact hcounter, by rw [hother]; rfl⟩, rfl⟩
  · exact ⟨⟨rfl, h.failureThreshold, by rw [hsame]; exact hcounter, by rw [hother]; rfl⟩, rfl⟩

theorem observe_failure {probe : Probe} {results : List Bool} {state : ProbeState}
    (h : Counts probe results state) :
    Counts probe (results ++ [false]) (state.observe false).1 ∧
      (state.observe false).1.health =
        if probe.failureThreshold.toNat ≤ trailing false results + 1 then .unready
        else state.health := by
  have hcounter : (saturatingSucc state.consecutiveFailures).toNat =
      min (trailing false results + 1) (2 ^ 32 - 1) := by
    rw [saturatingSucc_toNat, h.failures]
    omega
  have hreached := threshold_le_iff probe.failureThreshold _ _ hcounter
  have hother := trailing_snoc_other true false results (by decide)
  have hsame := trailing_snoc_same false results
  simp only [ProbeState.observe, Bool.false_eq_true, if_false, h.failureThreshold, hreached]
  split
  · exact ⟨⟨h.successThreshold, rfl, by rw [hother]; rfl, by rw [hsame]; exact hcounter⟩, rfl⟩
  · exact ⟨⟨h.successThreshold, rfl, by rw [hother]; rfl, by rw [hsame]; exact hcounter⟩, rfl⟩

/-! ### Whole histories -/

/-- The state after a history: its counters count what trails, its health is that of the
history. -/
theorem probeAfter_health (probe : Probe) (hs : probe.successThreshold ≠ 0)
    (hf : probe.failureThreshold ≠ 0) (results : List Bool) :
    Counts probe results (probeAfter probe results) ∧
      HealthOf probe.successThreshold.toNat probe.failureThreshold.toNat results
        (probeAfter probe results).health := by
  have hpositive : ∀ threshold : UInt32, threshold ≠ 0 → 0 < threshold.toNat := by
    intro threshold hne
    refine Nat.pos_of_ne_zero fun he => hne ?_
    exact UInt32.toNat_inj.mp he
  induction results using List.reverseRecOn with
  | nil =>
    refine ⟨counts_new probe, ?_⟩
    show ∀ n, ¬Closes _ _ n []
    rintro n (⟨hsize, hn, -⟩ | ⟨hsize, hn, -⟩)
    · have hpos := hpositive _ hs
      rw [List.length_nil] at hn
      omega
    · have hpos := hpositive _ hf
      rw [List.length_nil] at hn
      omega
  | append_singleton results result ih =>
    obtain ⟨hcounts, hhealth⟩ := ih
    rw [probeAfter_snoc]
    cases result with
    | true =>
      obtain ⟨hnext, hvalue⟩ := observe_success hcounts
      refine ⟨hnext, ?_⟩
      have hclosed := windowEnds_length_iff true probe.successThreshold.toNat (results ++ [true])
      rw [trailing_snoc_same] at hclosed
      have hfailure := windowEnds_length_iff false probe.failureThreshold.toNat (results ++ [true])
      rw [trailing_snoc_other false true results (by decide)] at hfailure
      rw [hvalue]
      split
      · rename_i hreached
        exact healthOf_closed_success true (hclosed.mpr hreached)
      · rename_i hshort
        refine healthOf_open true hhealth ?_
        rintro (hwindow | hwindow)
        · exact hshort (hclosed.mp hwindow)
        · have hzero := hfailure.mp hwindow
          have hpos := hpositive _ hf
          omega
    | false =>
      obtain ⟨hnext, hvalue⟩ := observe_failure hcounts
      refine ⟨hnext, ?_⟩
      have hclosed := windowEnds_length_iff false probe.failureThreshold.toNat (results ++ [false])
      rw [trailing_snoc_same] at hclosed
      have hsuccess := windowEnds_length_iff true probe.successThreshold.toNat (results ++ [false])
      rw [trailing_snoc_other true false results (by decide)] at hsuccess
      rw [hvalue]
      split
      · rename_i hreached
        exact healthOf_closed_failure false (hclosed.mpr hreached)
      · rename_i hshort
        refine healthOf_open false hhealth ?_
        rintro (hwindow | hwindow)
        · have hzero := hsuccess.mp hwindow
          have hpos := hpositive _ hs
          omega
        · exact hshort (hclosed.mp hwindow)

/-- What `observe` reports. -/
theorem observe_reports (state : ProbeState) (result : Bool) :
    (state.observe result).2 = if state.health ≠ (state.observe result).1.health then
      some (state.health, (state.observe result).1.health) else none := rfl

/-- The health of a probe is that of its whole history, and `observe` reports exactly its
changes. -/
theorem health_of_history (probe : Probe) (hs : 1 ≤ probe.successThreshold)
    (hf : 1 ≤ probe.failureThreshold) (results : List Bool) :
    (∀ health, (probeAfter probe results).health = health ↔
      HealthOf probe.successThreshold.toNat probe.failureThreshold.toNat results health) ∧
    ∀ result, ((probeAfter probe results).observe result).2 =
      if (probeAfter probe results).health ≠ (probeAfter probe (results ++ [result])).health then
        some ((probeAfter probe results).health, (probeAfter probe (results ++ [result])).health)
      else none := by
  have hs' : 1 ≤ probe.successThreshold.toNat := UInt32.le_iff_toNat_le.mp hs
  have hf' : 1 ≤ probe.failureThreshold.toNat := UInt32.le_iff_toNat_le.mp hf
  have hne : ∀ threshold : UInt32, 1 ≤ threshold.toNat → threshold ≠ 0 := by
    rintro threshold hle rfl
    exact absurd hle (by decide)
  obtain ⟨-, hhealth⟩ := probeAfter_health probe (hne _ hs') (hne _ hf') results
  refine ⟨fun health => ⟨?_, ?_⟩, fun result => ?_⟩
  · rintro rfl
    exact hhealth
  · exact fun h => healthOf_unique hs' hf' hhealth h
  · rw [probeAfter_snoc]
    exact observe_reports _ result

def flappingProbe : Probe where
  path := lit "/health"
  port := 8080
  startupTimeoutMs := 10000
  periodMs := 1000
  timeoutMs := 1000
  failureThreshold := 2
  successThreshold := 3

theorem health_of_history_flapping :
    (∀ health, (probeAfter flappingProbe [true, true, true, false]).health = health ↔
      HealthOf 3 2 [true, true, true, false] health) ∧
    ∀ result, ((probeAfter flappingProbe [true, true, true, false]).observe result).2 =
      if (probeAfter flappingProbe [true, true, true, false]).health ≠
          (probeAfter flappingProbe ([true, true, true, false] ++ [result])).health then
        some ((probeAfter flappingProbe [true, true, true, false]).health,
          (probeAfter flappingProbe ([true, true, true, false] ++ [result])).health)
      else none :=
  health_of_history flappingProbe (by decide) (by decide) [true, true, true, false]

end Sandcamp.Campd
