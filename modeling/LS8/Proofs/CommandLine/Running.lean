import LS8.Proofs.CommandLine.Tracing
import LS8.Proofs.Machine.LineOutput

/-!
# Running a listing

What the `run` command reports is determined by the machine that collects what it prints, if the
standard output takes every line: the exit code and the diagnostic are those of the ending, and the
standard output has one line for each value (`runReport_of_parse`).
-/
namespace LS8

theorem LineWriter.not_refuses (reason : String) (values : List UInt8) :
    ¬ ({ reason := reason } : LineWriter).Refuses values := by
  rintro (⟨n, hroom, -⟩ | hflush)
  · cases hroom
  · cases hflush

namespace Machine

/-! ## Two machines run together -/

section Together

variable {w : LineWriter} {c : Machine (Array UInt8)} {m : Machine LineWriter}

/-- Where no value is refused, both machines always do the same. -/
theorem InStep.step (hw : ∀ values, ¬ w.Refuses values) (h : InStep w c m) :
    InStep w c.step.1 m.step.1 ∧ m.step.2 = c.step.2 := by
  cases h.steps fun hroom => hw _ (Or.inl hroom) with
  | silent _ hresult hnext => exact ⟨hnext, hresult⟩
  | taken _ _ hresult hnext => exact ⟨hnext, hresult⟩
  | refused _ _ hrefused => exact absurd hrefused (hw _)

theorem InStep.run (hw : ∀ values, ¬ w.Refuses values) (h : InStep w c m) (limit : Nat) :
    InStep w (c.run limit).1 (m.run limit).1 ∧ (m.run limit).2 = (c.run limit).2 := by
  induction limit, c using run_induct generalizing m with
  | halted limit c hhalted =>
    rw [run_halted hhalted, run_halted (h.status_eq.trans hhalted)]
    exact ⟨h, rfl⟩
  | exhausted c hrun =>
    rw [run_zero hrun, run_zero (h.status_eq.trans hrun)]
    exact ⟨h, rfl⟩
  | stepped limit c next status hrun hstep ih =>
    obtain ⟨hnext, hresult⟩ := h.step hw
    rw [hstep] at hnext hresult
    have hstep' : m.step = (m.step.1, .ok status) := Prod.ext rfl hresult
    rw [run_succ_of_step hrun hstep, run_succ_of_step (h.status_eq.trans hrun) hstep']
    exact ih hnext
  | faulted limit c next fault hrun hstep =>
    obtain ⟨hnext, hresult⟩ := h.step hw
    rw [hstep] at hnext hresult
    have hstep' : m.step = (m.step.1, .error fault) := Prod.ext rfl hresult
    rw [run_succ_of_fault hrun hstep, run_succ_of_fault (h.status_eq.trans hrun) hstep']
    exact ⟨hnext, rfl⟩

end Together

/-- With a working output, a machine ends as the one that collects does, and has printed the same
values. -/
theorem run_prints (s : State) (reason : String) (limit : Nat) :
    let collecting := ({ state := s, channel := #[] } : Machine (Array UInt8)).run limit
    let printing := ({ state := s, channel := { reason } } : Machine LineWriter).run limit
    printing.2 = collecting.2 ∧
      printing.1.channel.text = decimalLines collecting.1.channel.toList := by
  have hnothing := LineWriter.written_nil none none reason
  have hstart : InStep { reason } { state := s, channel := #[] }
      { state := s, channel := { reason } } := ⟨rfl, rfl, hnothing.symm⟩
  obtain ⟨hlast, hending⟩ := hstart.run (LineWriter.not_refuses reason) limit
  refine ⟨hending, ?_⟩
  rw [hlast.channel_eq]
  rfl

/-- A machine that collects its output fails in its instructions only. -/
theorem instruction_of_step_faulted {m after : Machine (Array UInt8)} {fault : Fault}
    (h : m.step = (after, .error fault)) : ∃ cause, fault = .instruction cause m.state.pc := by
  have hrun : m.status = .running := running_of_step (by simp [h])
  rcases (step_eq_error_iff hrun).mp (congrArg Prod.snd h) with
    ⟨cause, -, hfault⟩ | ⟨value, next, -, hemit⟩
  · exact ⟨cause, hfault⟩
  · cases hemit

theorem instruction_of_run_faulted {m after : Machine (Array UInt8)} {limit : Nat} {fault : Fault}
    (h : m.run limit = (after, .faulted fault)) :
    ∃ cause address, fault = .instruction cause address := by
  obtain ⟨path, last, -, hstep⟩ := executes_of_run_faulted h
  obtain ⟨cause, hfault⟩ := instruction_of_step_faulted hstep
  exact ⟨cause, last.state.pc, hfault⟩

end Machine

namespace CommandLine

/-- What is reported of a run that ends so, the log apart. A run that goes on for ever has no
report. -/
def endReport? (files : Files) : Machine (Array UInt8) × Ending → Option Report
  | (m, .halted) => some { code := 0, stdout := decimalLines m.channel.toList, files := files }
  | (m, .faulted fault) => some {
      code := 3
      stdout := decimalLines m.channel.toList
      stderr := "runtime error: " ++ fault.message ++ "\n"
      files := files }
  | (_, .unfinished) => none

/-- The report of a run is that of the machine that collects, whatever the file is called. -/
theorem runReport_of_parse {files : Files} {name listing : String} {image : Image}
    (hread : files.read name = .ok listing) (hparse : Listing.parse listing = .ok image)
    (hfits : image.length ≤ memorySize) (limit : Nat) (coloured : Bool) (reason : String) :
    ∃ result, execute limit image = .ok result ∧
      runReport limit { files, coloured, output := { reason } } name false =
        endReport? files result := by
  obtain ⟨memory, hmemory, hload⟩ :=
    Machine.exists_load_eq_ok hfits ({ channel := #[] } : Machine (Array UInt8))
  refine ⟨({ state := { memory }, channel := #[] } : Machine _).run limit, ?_, ?_⟩
  · rw [execute, hload]
    rfl
  · have hloaded : Machine.load { channel := ({ reason } : LineWriter) } image =
        .ok { state := { memory }, channel := { reason } } := Machine.load_eq_ok hmemory
    have hlog (m : Machine LineWriter) :=
      Logger.lines_of_onRequest (onRequest_of_execution image m limit) coloured
    obtain ⟨hending, htext⟩ := Machine.run_prints { memory } reason limit
    rcases hc : ({ state := { memory }, channel := #[] } : Machine (Array UInt8)).run limit with
      ⟨last, ending⟩
    rcases hm : ({ state := { memory }, channel := { reason } } : Machine LineWriter).run limit with
      ⟨last', ending'⟩
    rw [hc, hm] at htext hending
    obtain rfl : ending' = ending := hending
    simp only [runReport, readImage_of_parse hread hparse, executionReport, Surroundings.scene,
      hloaded, hlog, hm]
    cases ending' with
    | unfinished => rfl
    | halted =>
      simp only [endReport?, ← htext]
    | faulted fault =>
      obtain ⟨cause, address, rfl⟩ := Machine.instruction_of_run_faulted hc
      simp only [endReport?, ← htext]
      rfl

end CommandLine
end LS8
