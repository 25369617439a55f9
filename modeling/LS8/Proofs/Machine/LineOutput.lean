import LS8.Proofs.Machine.History

/-!
# Printing to a writer

A machine that prints to a line writer does what a machine does that collects the values, up to the
first value that the writer refuses: the first one whose line does not fit in the room that is left,
or whose flush is the one that fails. The step that prints this value fails and leaves the machine
at its PRN, and of the lines the writer has what fitted (`prints_up_to_first_refusal`).
-/
namespace LS8

/-- What is written for these values. -/
def decimalLines (values : List UInt8) : String := String.join (values.map decimalLine)

@[simp] theorem decimalLines_nil : decimalLines [] = "" := rfl

theorem decimalLines_concat (values : List UInt8) (value : UInt8) :
    decimalLines (values ++ [value]) = decimalLines values ++ decimalLine value := by
  simp [decimalLines, String.join_append]

namespace LineWriter

/-- The lines of these values are more than the writer has room for. -/
def Exceeded (w : LineWriter) (values : List UInt8) : Prop :=
  ∃ n, w.room = some n ∧ n < (decimalLines values).length

/-- The last of these values is not taken, where the values before it were. -/
def Refuses (w : LineWriter) (values : List UInt8) : Prop :=
  w.Exceeded values ∨ w.failingFlush = some values.length

/-- None of these values is the first one not to be taken. -/
def Takes (w : LineWriter) (values : List UInt8) : Prop :=
  ∀ front, front <+: values → front ≠ [] → ¬ w.Refuses front

/-- What the writer is left with when it does not take the last of these values: as much of the
lines as there was room for and no flush, or all of the lines and the flush that failed. -/
structure Refusal (w : LineWriter) (values : List UInt8) (after : LineWriter) : Prop where
  exceeded : ∀ n, w.room = some n → n < (decimalLines values).length →
    after.text = String.ofList ((decimalLines values).toList.take n) ∧
      after.flushes = values.length - 1
  flushed : ¬ w.Exceeded values →
    after.text = decimalLines values ∧ after.flushes = values.length

/-- The writer after it has taken these values. -/
def written (w : LineWriter) (values : List UInt8) : LineWriter :=
  { w with
    text := decimalLines values
    room := w.room.map (· - (decimalLines values).length)
    flushes := values.length }

/-- The writer after there was no room for the last of these values. -/
def cutOff (w : LineWriter) (values : List UInt8) (room : Nat) : LineWriter :=
  { w with
    text := String.ofList ((decimalLines values).toList.take room)
    room := some 0
    flushes := values.length - 1 }

/-- Nothing has been written yet. -/
theorem written_nil (room failingFlush : Option Nat) (reason : String) :
    ({ room, failingFlush, reason } : LineWriter).written [] = { room, failingFlush, reason } := by
  cases room <;> rfl

variable {w : LineWriter} {values : List UInt8} {value : UInt8}

theorem room_written {n : Nat} (hw : w.room = some n) :
    (w.written values).room = some (n - (decimalLines values).length) := by
  rw [written, hw]
  rfl

/-- What has been taken and the line of one more value, where there is room for all of it. -/
theorem write_of_not_exceeded (hroom : ¬ w.Exceeded (values ++ [value])) :
    (w.written values).write (decimalLine value) =
      ({ w.written (values ++ [value]) with flushes := values.length }, .ok ()) := by
  cases hw : w.room with
  | none => simp [write, written, hw, decimalLines_concat]
  | some n =>
    have hfits : ¬ n < (decimalLines (values ++ [value])).length := fun hlt => hroom ⟨n, hw, hlt⟩
    rw [decimalLines_concat, String.length_append] at hfits
    have hline : (decimalLine value).length ≤ n - (decimalLines values).length := by omega
    simp only [write, room_written hw, if_pos hline]
    simp [written, hw, decimalLines_concat, Nat.sub_sub]

/-- The lines are written as far as there is room, where that is not enough for the last one. -/
theorem write_of_exceeded {n : Nat} (hw : w.room = some n) (hbefore : ¬ w.Exceeded values)
    (hroom : n < (decimalLines (values ++ [value])).length) :
    (w.written values).write (decimalLine value) =
      (w.cutOff (values ++ [value]) n, .error w.reason) := by
  have hfits : ¬ n < (decimalLines values).length := fun hlt => hbefore ⟨n, hw, hlt⟩
  rw [decimalLines_concat, String.length_append] at hroom
  have hline : ¬ (decimalLine value).length ≤ n - (decimalLines values).length := by omega
  have hkept : (decimalLines values).toList.take n = (decimalLines values).toList :=
    List.take_of_length_le (by rw [String.length_toList]; omega)
  simp only [write, room_written hw, if_neg hline]
  simp [written, cutOff, decimalLines_concat, List.take_append, String.length_toList, hkept]

/-- A value that is not refused is taken. -/
theorem emit_of_not_refused (h : ¬ w.Refuses (values ++ [value])) :
    Channel.emit (w.written values) value = (w.written (values ++ [value]), .ok ()) := by
  have hflush : w.failingFlush ≠ some (values.length + 1) := by
    intro heq
    exact h (Or.inr (by simpa using heq))
  simp only [Channel.emit, write_of_not_exceeded fun hroom => h (Or.inl hroom)]
  simp [flush, written, hflush]
  rfl

/-- Without room for the line, there is no flush. -/
theorem emit_of_exceeded {n : Nat} (hw : w.room = some n) (hbefore : ¬ w.Exceeded values)
    (hroom : n < (decimalLines (values ++ [value])).length) :
    Channel.emit (w.written values) value =
      (w.cutOff (values ++ [value]) n, .error (.output w.reason)) := by
  simp only [Channel.emit, write_of_exceeded hw hbefore hroom]

/-- Where the flush fails, the line has been written. -/
theorem emit_of_failingFlush (hroom : ¬ w.Exceeded (values ++ [value]))
    (hflush : w.failingFlush = some (values ++ [value]).length) :
    Channel.emit (w.written values) value =
      (w.written (values ++ [value]), .error (.output w.reason)) := by
  have hnumber : w.failingFlush = some (values.length + 1) := by simpa using hflush
  simp only [Channel.emit, write_of_not_exceeded hroom]
  simp [flush, written, hnumber]
  rfl

theorem emit_of_refused (hbefore : ¬ w.Exceeded values) (h : w.Refuses (values ++ [value])) :
    ∃ after, Channel.emit (w.written values) value = (after, .error (.output w.reason)) ∧
      w.Refusal (values ++ [value]) after := by
  by_cases hroom : w.Exceeded (values ++ [value])
  · obtain ⟨n, hw, hlt⟩ := hroom
    refine ⟨_, emit_of_exceeded hw hbefore hlt, fun n' hw' _ => ?_, fun hno => ?_⟩
    · obtain rfl := Option.some.inj (hw.symm.trans hw')
      exact ⟨rfl, rfl⟩
    · exact absurd ⟨n, hw, hlt⟩ hno
  · have hflush := h.resolve_left hroom
    refine ⟨_, emit_of_failingFlush hroom hflush, fun n hw hlt => ?_, fun _ => ⟨rfl, rfl⟩⟩
    exact absurd ⟨n, hw, hlt⟩ hroom

theorem Takes.concat (h : w.Takes values) (hvalue : ¬ w.Refuses (values ++ [value])) :
    w.Takes (values ++ [value]) := by
  intro front hfront hne
  rcases List.prefix_concat_iff.mp hfront with rfl | hshorter
  · exact hvalue
  · exact h front hshorter hne

theorem Takes.not_exceeded (h : w.Takes values) : ¬ w.Exceeded values := by
  by_cases hne : values = []
  · rintro ⟨n, -, hlt⟩
    simp [hne] at hlt
  · exact fun hroom => h values (List.prefix_refl values) hne (Or.inl hroom)

end LineWriter

namespace Machine

/-- The same state, and on the writer's side the lines of the values that the other machine has
collected. -/
structure InStep (w : LineWriter) (c : Machine (Array UInt8)) (m : Machine LineWriter) : Prop where
  state_eq : m.state = c.state
  status_eq : m.status = c.status
  channel_eq : m.channel = w.written c.channel.toList

/-- One step of both machines. -/
inductive StepsTogether (w : LineWriter) (c : Machine (Array UInt8)) (m : Machine LineWriter) : Prop
  | silent (hchannel : c.step.1.channel = c.channel) (hresult : m.step.2 = c.step.2)
      (hnext : InStep w c.step.1 m.step.1)
  | taken {value} (hchannel : c.step.1.channel = c.channel.push value)
      (htaken : ¬ w.Refuses (c.channel.toList ++ [value])) (hresult : m.step.2 = c.step.2)
      (hnext : InStep w c.step.1 m.step.1)
  | refused {value} (hchannel : c.step.1.channel = c.channel.push value)
      (hprinted : c.state.printed = [value]) (hrefused : w.Refuses (c.channel.toList ++ [value]))
      (hresult : m.step.2 = .error (.output w.reason)) (hstate : m.step.1.state = c.state)
      (hstatus : m.step.1.status = .halted)
      (hwriter : w.Refusal (c.channel.toList ++ [value]) m.step.1.channel)

/-- Both machines do the same, unless a value is printed that the writer refuses. -/
theorem InStep.steps {w : LineWriter} {c : Machine (Array UInt8)} {m : Machine LineWriter}
    (h : InStep w c m) (hroom : ¬ w.Exceeded c.channel.toList) : StepsTogether w c m := by
  obtain ⟨hstate, hstatus, hchannel⟩ := h
  cases hrun : c.status with
  | halted =>
    have hc := step_halted hrun
    have hm := step_halted (hstatus.trans hrun)
    refine .silent (by rw [hc]) (by rw [hc, hm]) ?_
    rw [hc, hm]
    exact ⟨hstate, hstatus, hchannel⟩
  | running =>
    have hrun' : m.status = .running := hstatus.trans hrun
    rcases haction : c.state.action with cause | ⟨next⟩ | ⟨value, next⟩ | _
    · have hc := step_of_error hrun haction
      have hm := step_of_error hrun' (hstate ▸ haction)
      refine .silent (by rw [hc]) (by rw [hc, hm, hstate]) ?_
      rw [hc, hm]
      exact ⟨hstate, rfl, hchannel⟩
    · have hc := step_of_proceed hrun haction
      have hm := step_of_proceed hrun' (hstate ▸ haction)
      refine .silent (by rw [hc]) (by rw [hc, hm]) ?_
      rw [hc, hm]
      exact ⟨rfl, hstatus, hchannel⟩
    · have hcollect : Channel.emit c.channel value = (c.channel.push value, .ok ()) := rfl
      have hc := step_of_print hrun haction hcollect
      by_cases hrefused : w.Refuses (c.channel.toList ++ [value])
      · obtain ⟨after, hemit, hwriter⟩ := LineWriter.emit_of_refused hroom hrefused
        have hm := step_of_rejected hrun' (hstate ▸ haction) (hchannel ▸ hemit)
        refine .refused (by rw [hc]) (State.printed_of_print haction) hrefused (by rw [hm]) ?_ ?_ ?_
        · rw [hm]
          exact hstate
        · rw [hm]
        · rw [hm]
          exact hwriter
      · have hemit := LineWriter.emit_of_not_refused hrefused
        have hm := step_of_print hrun' (hstate ▸ haction) (hchannel ▸ hemit)
        refine .taken (by rw [hc]) hrefused (by rw [hc, hm]) ?_
        rw [hc, hm]
        exact ⟨rfl, hstatus, by rw [Array.toList_push]⟩
    · have hc := step_of_halt hrun haction
      have hm := step_of_halt hrun' (hstate ▸ haction)
      refine .silent (by rw [hc]) (by rw [hc, hm]) ?_
      rw [hc, hm]
      exact ⟨hstate, rfl, hchannel⟩

/-- What has been collected stays. -/
theorem exists_collected (c : Machine (Array UInt8)) :
    ∃ more, c.step.1.channel.toList = c.channel.toList ++ more := by
  cases hrun : c.status with
  | halted => exact ⟨[], by rw [step_halted hrun, List.append_nil]⟩
  | running =>
    have hsteps := steps hrun
    generalize c.step = result at hsteps
    cases hsteps with
    | refused | halted | proceeded => exact ⟨[], (List.append_nil _).symm⟩
    | @taken value next channel haction hemit =>
      obtain rfl := (Prod.mk.inj hemit).1
      exact ⟨[value], Array.toList_push⟩
    | rejected haction hemit => cases (Prod.mk.inj hemit).2

/-- In `t` steps the machine `m` that prints to the writer has done what the machine `c` that
collects has done, and all its lines have been taken. -/
structure AgreeUpTo (w : LineWriter) (c : Nat → Machine (Array UInt8))
    (m : Nat → Machine LineWriter) (t : Nat) : Prop where
  takes : w.Takes (c t).channel.toList
  inStep : ∀ u ≤ t, InStep w (c u) (m u)
  results : ∀ u < t, (m u).step.2 = (c u).step.2

/-- For `u` steps the machine `m` agreed with `c`; then `c` collected `value`, which the writer
refused: the step of `m` failed, and since then `m` stands at this PRN and has written nothing. -/
structure RefusedAt (w : LineWriter) (c : Nat → Machine (Array UInt8))
    (m : Nat → Machine LineWriter) (t u : Nat) (value : UInt8) : Prop where
  agreed : AgreeUpTo w c m u
  collected : (c u).channel.toList ++ [value] <+: (c t).channel.toList
  printed : (c u).state.printed = [value]
  refused : w.Refuses ((c u).channel.toList ++ [value])
  result : (m u).step.2 = .error (.output w.reason)
  state_eq : (m t).state = (c u).state
  status_eq : (m t).status = .halted
  left : w.Refusal ((c u).channel.toList ++ [value]) (m t).channel

section Runs
variable {w : LineWriter} {c : Nat → Machine (Array UInt8)} {m : Nat → Machine LineWriter} {t : Nat}

/-- One more step on which both agree. -/
theorem AgreeUpTo.extend (h : AgreeUpTo w c m t) (htakes : w.Takes (c (t + 1)).channel.toList)
    (hnext : InStep w (c (t + 1)) (m (t + 1))) (hresult : (m t).step.2 = (c t).step.2) :
    AgreeUpTo w c m (t + 1) where
  takes := htakes
  inStep := fun u hu => by
    rcases Nat.le_succ_iff.mp hu with hle | rfl
    · exact h.inStep u hle
    · exact hnext
  results := fun u hu => by
    rcases Nat.lt_succ_iff_lt_or_eq.mp hu with hlt | rfl
    · exact h.results u hlt
    · exact hresult

/-- As long as both agree, the next step keeps the agreement or is the one that fails. -/
theorem AgreeUpTo.succ (h : AgreeUpTo w c m t) (hc : c (t + 1) = (c t).step.1)
    (hm : m (t + 1) = (m t).step.1) :
    AgreeUpTo w c m (t + 1) ∨ ∃ value, RefusedAt w c m (t + 1) t value := by
  cases (h.inStep t (Nat.le_refl t)).steps h.takes.not_exceeded with
  | silent hchannel hresult hnext =>
    refine .inl (h.extend ?_ ?_ hresult)
    · rw [hc, hchannel]
      exact h.takes
    · rwa [hc, hm]
  | taken hchannel htaken hresult hnext =>
    refine .inl (h.extend ?_ ?_ hresult)
    · rw [hc, hchannel, Array.toList_push]
      exact h.takes.concat htaken
    · rwa [hc, hm]
  | @refused value hchannel hprinted hrefused hresult hstate hstatus hwriter =>
    have hcollected : (c (t + 1)).channel.toList = (c t).channel.toList ++ [value] := by
      rw [hc, hchannel, Array.toList_push]
    have hcollects : (c t).channel.toList ++ [value] <+: (c (t + 1)).channel.toList :=
      hcollected ▸ List.prefix_refl _
    refine .inr ⟨value, h, hcollects, hprinted, hrefused, hresult, ?_, ?_, ?_⟩
    · rw [hm, hstate]
    · rw [hm, hstatus]
    · rwa [hm]

/-- After the refusal nothing changes on the writer's side, whatever the other machine goes on to
collect. -/
theorem RefusedAt.succ {u : Nat} {value : UInt8} (h : RefusedAt w c m t u value)
    (hc : c (t + 1) = (c t).step.1) (hm : m (t + 1) = (m t).step.1) :
    RefusedAt w c m (t + 1) u value := by
  obtain ⟨more, hmore⟩ := exists_collected (c t)
  have hstill : m (t + 1) = m t := by rw [hm, step_halted h.status_eq]
  refine ⟨h.agreed, ?_, h.printed, h.refused, h.result, ?_, ?_, ?_⟩
  · rw [hc, hmore]
    exact h.collected.trans (List.prefix_append _ _)
  · rw [hstill, h.state_eq]
  · rw [hstill, h.status_eq]
  · rw [hstill]
    exact h.left

end Runs

-- The value 200, printed twice: where the room and the flush would fail at one line, the flush is
-- not attempted.
example :
    (((fresh ({ room := some 6, failingFlush := some 2 } : LineWriter)).call
        (.load [0x82, 0, 200, 0x47, 0, 0x47, 0])).stepped 3).channel =
      { room := some 0, failingFlush := some 2, text := "200\n20", flushes := 1 } := by
  decide +kernel

end Machine
end LS8
