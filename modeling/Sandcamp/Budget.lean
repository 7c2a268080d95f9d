import Sandcamp.Agreement

/-!
# The startup budget (spec.go:136-185, 331-356; render.go:35-41; spec.rs:294-405)

`Validate` adds the timeouts of a list of any length in a counter of 64 bits, which can wrap
around. What `RenderStart` returns has a bounded payload, each process takes part of it, and so
few processes cannot wrap the counter. campd adds with a check and needs no such bound.
-/

namespace Sandcamp.Budget
open Foundations Sandcamp.Sdk Sandcamp.Campd Sandcamp.Agreement

/-- The exact sum of the startup timeouts of the probes, with their defaults, and of the job
timeouts, in nanoseconds. -/
def declared (spec : Sdk.Spec) : ℤ := exactSum Process.startupBudget spec.processes

/-- What the counter of `Validate` holds after its loops. -/
def counter (spec : Sdk.Spec) : Int64 :=
  spec.processes.foldl (fun budget process => budget + process.startupBudget) 0

variable {replacement : Json.Replacement} {images : ImageSet} {spec : Sdk.Spec}
  {configuration : CustomConfiguration}

theorem processes_of_rendered (h : renderStart replacement images spec = .ok configuration) :
    AcceptedSpec spec ∧ spec.processes.length ≤ Sdk.maxEncodedSpecBytes := by
  obtain ⟨resolved, -, -, haccepted, -, hsize, -⟩ :=
    renderStart_ok replacement images spec configuration h
  exact ⟨haccepted, Nat.le_trans (processes_le_payload replacement spec resolved) hsize⟩

theorem rendered_budget (h : renderStart replacement images spec = .ok configuration) :
    (counter spec).toInt = declared spec ∧ declared spec ≤ 25 * 10 ^ 9 := by
  obtain ⟨haccepted, hcount⟩ := processes_of_rendered h
  have hexact := counted_budget spec haccepted hcount
  have hlimit := exact_budget spec haccepted hcount
  exact ⟨hexact, hlimit⟩

theorem decoded_budget {decoders : Decoders} {payload : Bytes} {spec : Campd.Spec}
    (h : decode decoders payload = .ok spec) :
    (spec.processes.map (·.startupBudget)).sum ≤ 25000 := by
  simp only [decode, bind_eq_ok, exists_unit, Except.ok.injEq] at h
  obtain ⟨-, -, -, -, -, decoded, -, hvalid, rfl⟩ := h
  exact ((validate_eq_ok decoded).mp hvalid).budget

/-- No declaration gets past the startup budget: what `RenderStart` returns was declared with
25 seconds at most, and its counter has not wrapped around; what campd decodes declares 25000
milliseconds at most. -/
theorem startup_budget :
    (∀ replacement images spec configuration,
      renderStart replacement images spec = .ok configuration →
      (counter spec).toInt = declared spec ∧ declared spec ≤ 25 * 10 ^ 9) ∧
    ∀ decoders payload spec, decode decoders payload = .ok spec →
      (spec.processes.map (·.startupBudget)).sum ≤ 25000 :=
  ⟨fun _ _ _ _ => rendered_budget, fun _ _ _ => decoded_budget⟩

/-- The payload a rendered declaration carries to campd. -/
def webPayload : Bytes :=
  ((renderStart .literal webImages webSpec).toOption.bind (·.env.head?)).elim [] (·.value)

theorem startup_budget_web :
    (∃ configuration, renderStart .literal webImages webSpec = .ok configuration ∧
      declared webSpec ≤ 25 * 10 ^ 9) ∧ declared webSpec = 8 * 10 ^ 9 ∧
    ∃ spec, decode compactDecoders webPayload = .ok spec ∧
      (spec.processes.map (·.startupBudget)).sum ≤ 25000 := by
  have hrendered : (renderStart .literal webImages webSpec).isOk = true := by decide +kernel
  have hdecoded : (decode compactDecoders webPayload).isOk = true := by decide +kernel
  refine ⟨?_, by decide +kernel, ?_⟩
  · cases h : renderStart .literal webImages webSpec with
    | error e =>
      rw [h] at hrendered
      cases hrendered
    | ok configuration =>
      exact ⟨configuration, rfl, (startup_budget.1 .literal webImages webSpec configuration h).2⟩
  · cases h : decode compactDecoders webPayload with
    | error e =>
      rw [h] at hdecoded
      cases hdecoded
    | ok spec => exact ⟨spec, rfl, startup_budget.2 compactDecoders webPayload spec h⟩

end Sandcamp.Budget
