import MachineDebugger.Proofs.Console.Move
import MachineDebugger.Proofs.Console.Opening
import MachineDebugger.Proofs.Text.Lines
/-
  A dialogue over a whole script exits well, unless it is broken off.

  When the input has come to its end, the session has been left, unless an unreadable line has ended
  the dialogue before (`Dialogue.left_or_unreadable`, by induction on the lines). A program that has
  halted by then has done so with the code 0, as register 10 has never been set. So the exit status
  tells whether an unreadable line has broken the dialogue off before the program has halted
  (`Dialogue.BrokenOff`, `Dialogue.exitStatus_of_brokenOff`,
  `Dialogue.exitStatus_of_not_brokenOff`).

  A script that is UTF-8 has no unreadable line (`Input.ofBytes_of_decode?`).
  `script_exits_with_zero_unless_broken_off` puts all this together for the program.
-/

namespace MachineDebugger

namespace Dialogue

/-! ## The end -/

/-- A line that is not UTF-8 comes where a command is expected, and the program has not halted. -/
def BrokenOff (d : Dialogue) (inputs : List Input) : Prop :=
  ∃ before after, inputs = before ++ .unreadable :: after ∧ (d.reached before).mode = .command ∧
    ∀ pc code, (d.reached before).session.state ≠ .ended pc code

/-- An unreadable line ends the dialogue with the session as it is. -/
theorem reached_unreadable {d : Dialogue} {before : List Input}
    (expected : (d.reached before).mode = .command) (after : List Input) :
    d.reached (before ++ .unreadable :: after) =
      { d.reached before with mode := .finished } := by
  have reply : ((d.reached before).feed .unreadable).2 =
      { d.reached before with mode := .finished } := by
    unfold feed
    rw [expected]
  rw [reached_append, reached_cons, reply]
  exact reached_of_finished rfl after

/-- A dialogue that has ended has been left, or an unreadable line has ended it. -/
theorem left_or_unreadable {d : Dialogue} (begun : d.mode ≠ .finished) {inputs : List Input}
    (finished : (d.reached inputs).mode = .finished) :
    (d.reached inputs).session.state = .quit ∨
      ∃ before after, inputs = before ++ .unreadable :: after ∧
        (d.reached before).mode = .command := by
  induction inputs generalizing d with
  | nil => exact absurd finished begun
  | cons input rest ih =>
    by_cases now : (d.feed input).2.mode = .finished
    · rw [reached_cons, reached_of_finished now]
      cases move_feed begun input with
      | answers machine state goesOn => exact absurd now goesOn
      | executes count said session goesOn => exact absurd now goesOn
      | leaves session => exact Or.inl (by rw [session]; rfl)
      | breaksOff expected unreadable => exact Or.inr ⟨[], rest, by rw [unreadable]; rfl, expected⟩
    · rcases ih now finished with left | ⟨before, after, split, expected⟩
      · exact Or.inl left
      · exact Or.inr ⟨input :: before, after, by rw [split]; rfl, expected⟩

section Exit

variable {m : Machine} (zero : m.registers.get 10 = 0) {d : Dialogue} (begun : d.mode ≠ .finished)
include begun

theorem exitStatus_of_brokenOff (here : d.session.state ≠ .quit) {inputs : List Input}
    (broken : d.BrokenOff inputs) (more : List Input) :
    (d.reached (inputs ++ more)).session.exitStatus = 1 := by
  obtain ⟨before, after, rfl, expected, runs⟩ := broken
  have goesOn : (d.reached before).mode ≠ .finished := by simp [expected]
  have stays := state_ne_quit_reached begun here goesOn
  rw [List.append_assoc, List.cons_append, reached_unreadable expected]
  show (d.reached before).session.exitStatus = 1
  unfold Session.exitStatus
  cases state : (d.reached before).session.state with
  | ended pc code => exact absurd state (runs pc code)
  | quit => exact absurd state stays
  | _ => rfl

include zero

theorem exitStatus_of_not_brokenOff (h : d.session.Intact m) {inputs : List Input}
    (whole : ¬ d.BrokenOff inputs) :
    (d.reached (inputs ++ [.ended, .ended])).session.exitStatus = 0 := by
  rw [reached_append]
  by_cases finished : (d.reached inputs).mode = .finished
  · rw [reached_of_finished finished]
    rcases left_or_unreadable begun finished with left | ⟨before, after, split, expected⟩
    · rw [Session.exitStatus, left]
    · rw [split, reached_unreadable expected]
      show (d.reached before).session.exitStatus = 0
      -- The program has halted then, and with the code that it had from the start.
      cases state : (d.reached before).session.state with
      | ended pc code =>
        have good : code = 0 := ((intact_reached h before).code pc code state).trans zero
        rw [Session.exitStatus, state, good]
        rfl
      | _ => exact absurd ⟨before, after, split, expected, by simp [state]⟩ whole
  · rcases left_or_unreadable finished (d.reached inputs).mode_reached_ended with
      left | ⟨before, after, split, -⟩
    · rw [Session.exitStatus, left]
    · have absent : Input.unreadable ∉ [Input.ended, Input.ended] := by decide
      exact absurd (split ▸ by simp) absent

end Exit

end Dialogue

namespace Input

/-- Input that is UTF-8 is read as the lines of its text. -/
theorem ofBytes_of_decode? {bytes : List UInt8} {text : String}
    (decoded : Text.decode? bytes = some text) :
    ofBytes bytes = (Text.lines '\n' text.toList).map fun characters =>
      line (String.ofList (Text.typedLine characters)) := by
  rw [← (Text.decode?_eq_some_iff bytes text).mp decoded, ofBytes, Text.lines_encode, List.map_map]
  refine List.map_congr_left fun characters _ => ?_
  rw [Function.comp_apply, Text.decode?_encode]
  dsimp only
  rw [String.toList_ofList]

theorem unreadable_not_mem_ofBytes {bytes : List UInt8} (decoded : Text.decode? bytes ≠ none) :
    unreadable ∉ ofBytes bytes := by
  obtain ⟨text, decoded⟩ := Option.ne_none_iff_exists'.mp decoded
  rw [ofBytes_of_decode? decoded]
  simp

end Input

/-! ## The whole program -/

namespace Program

variable {readFile : String → FileContent} {options : RunOptions}

theorem run_of_dialogue (input : List UInt8) (dialogue : options.batch = false)
    {said : List Notice} {s : Session} (opened : openSession readFile options = .ok (said, s)) :
    let d := Dialogue.start s
    let inputs := Input.ofBytes input
    run readFile input (.run options) =
      ⟨said ++ .invitation :: (d.run inputs).1,
        (d.reached (inputs ++ [.ended, .ended])).session.exitStatus⟩ := by
  intro d inputs
  rw [← Dialogue.snd_feedAll [], run, opened]
  exact if_neg (by simp [dialogue])

end Program

/-- A run with a dialogue, whatever the input is. The dialogue comes to its end. Up to there, in
    every session that it reaches, the general registers are 0 and the memory is the one that has
    been loaded, and no execution and no look at memory goes further than the memory has words. No
    program is reported to have ended with a code that is not zero. The exit status is 1 if a line
    that is not UTF-8 comes where a command is expected before the program has halted, and 0
    otherwise; so it is 0 for every script that is UTF-8. -/
theorem script_exits_with_zero_unless_broken_off (readFile : String → FileContent)
    (input : List UInt8) (options : RunOptions) (dialogue : options.batch = false)
    (said : List Notice) (s : Session)
    (opened : Program.openSession readFile options = .ok (said, s)) :
    let d := Dialogue.start s
    let inputs := Input.ofBytes input
    let finished := Program.run readFile input (.run options)
    (d.reached (inputs ++ [.ended, .ended])).mode = .finished ∧
    (∀ before after, inputs ++ [.ended, .ended] = before ++ after →
      let now := (d.reached before).session
      (∀ index, now.machine.registers.get index = 0) ∧
      now.machine.memory = s.machine.memory ∧
      (∀ count, (now.stepCounting count).1 ≤ s.machine.memory.size / 4) ∧
      ∀ count expression,
        (now.examine count expression).1.length ≤ s.machine.memory.size / 4) ∧
    (∀ pc code, .badTrap pc code ∉ finished.notices) ∧
    (d.BrokenOff inputs → finished.status = 1) ∧
    (¬ d.BrokenOff inputs → finished.status = 0) ∧
    (Text.decode? input ≠ none → finished.status = 0) := by
  intro d inputs finished
  obtain ⟨image, m, loaded, rfl, rfl⟩ := Program.loaded_of_openSession opened
  have intact : d.session.Intact m := .start m .empty
  have zero : m.registers.get 10 = 0 := loaded.general 10
  have begun : d.mode ≠ .finished := by simp [d, Dialogue.start]
  have active : d.session.state ≠ .quit := by simp [d, Dialogue.start, Session.start]
  have run : finished = _ := Program.run_of_dialogue input dialogue opened
  have whole : ¬ d.BrokenOff inputs → finished.status = 0 := fun whole => by
    rw [run]
    exact Dialogue.exitStatus_of_not_brokenOff zero begun intact whole
  refine ⟨?_, fun before after _ => ?_, fun pc code mem => ?_, fun broken => ?_, whole,
    fun decoded => whole ?_⟩
  · rw [Dialogue.reached_append]
    exact Dialogue.mode_reached_ended _
  · have now := Dialogue.intact_reached intact before
    exact ⟨fun index => (now.general index).trans (loaded.general index), now.memory,
      now.fst_stepCounting_le loaded.base, now.length_examine_le loaded.base⟩
  · rw [run] at mem
    rcases List.mem_append.mp mem with opening | dialogue
    · exact RunOptions.badTrap_not_mem_opening options image.length pc code opening
    · rcases List.mem_cons.mp dialogue with invitation | reply
      · cases invitation
      · exact Dialogue.badTrap_not_mem_run zero intact inputs pc code reply
  · rw [run]
    exact Dialogue.exitStatus_of_brokenOff begun active broken _
  · rintro ⟨before, after, split, -⟩
    have mem : .unreadable ∈ inputs := by simp [split]
    exact Input.unreadable_not_mem_ofBytes decoded mem

/-- A line that is not UTF-8 does no harm where an answer is expected; the next one, where a command
    is expected, breaks the dialogue off. -/
theorem script_exits_with_one_after_second_unreadable_line :
    let options : RunOptions := ⟨none, false, 4096⟩
    let readFile := fun _ => FileContent.unopened .noSuchFile
    (Program.run readFile [0x64, 10, 0xff, 10] (.run options)).status = 0 ∧
      (Program.run readFile [0x64, 10, 0xff, 10, 0xff, 10] (.run options)).status = 1 := by
  intro options readFile
  have once : Input.ofBytes [0x64, 10, 0xff, 10] = [.line "d", .unreadable] := by
    decide +kernel
  have twice : Input.ofBytes [0x64, 10, 0xff, 10, 0xff, 10] =
      [.line "d", .unreadable, .unreadable] := by
    decide +kernel
  let d := Dialogue.start (.start (Machine.ofSize 4096) .empty)
  have asked : (d.reached [.line "d"]).mode = .answer .deleteAll := by decide +kernel
  have closed : (d.reached [.line "d", .unreadable]).mode = .command := by decide +kernel
  have stopped : (d.reached [.line "d", .unreadable]).session.state = .stopped := by
    decide +kernel
  obtain ⟨-, -, -, -, whole, -⟩ :=
    script_exits_with_zero_unless_broken_off readFile [0x64, 10, 0xff, 10] options rfl _ _ rfl
  obtain ⟨-, -, -, broken, -⟩ := script_exits_with_zero_unless_broken_off readFile
    [0x64, 10, 0xff, 10, 0xff, 10] options rfl _ _ rfl
  constructor
  · refine whole ?_
    rintro ⟨before, after, split, expected, -⟩
    rw [once] at split
    rcases before with - | ⟨first, - | ⟨second, before⟩⟩
    · cases split
    · cases split
      cases asked.symm.trans expected
    · simp at split
  · refine broken ⟨[.line "d", .unreadable], [], twice, closed, fun pc code ended => ?_⟩
    cases stopped.symm.trans ended

end MachineDebugger
