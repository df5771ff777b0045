import MachineDebugger.Console.Program
import MachineDebugger.Proofs.Machine.Image
/-
  How the session of a run is opened.

  The image of a run is the bytes of the file at its path, or no bytes if there is no path
  (`RunOptions.imageBytes?`); laid over what a new machine holds they are the contents of memory
  (`Machine.contents`). If they fit, the machine of the session has been loaded with these contents
  (`Program.openSession_of_le`), and otherwise the run is refused (`Program.openSession_of_lt`).
  So a session that could be opened has a machine that is loaded (`Program.loaded_of_openSession`).
-/

namespace MachineDebugger

/-- What a machine with so many bytes of memory holds when an image has been loaded. -/
def Machine.contents (size : Nat) (image : List UInt8) : List UInt8 :=
  overlay image (initialContents size)

theorem Machine.length_contents {size : Nat} {image : List UInt8} (fits : image.length ≤ size) :
    (contents size image).length = size := by
  have length := length_initialContents size
  rw [contents, length_overlay (by rwa [length]), length]

namespace RunOptions

/-- The bytes of the image that a run is given: those of the file at its path, or none at all. -/
def imageBytes? (options : RunOptions) (readFile : String → FileContent) : Option (List UInt8) :=
  match options.image with
  | none => some []
  | some path =>
    match readFile path with
    | .bytes image => some image
    | _ => none

/-- What is said before a program is run, of which the image has so many bytes. -/
def opening (options : RunOptions) (byteCount : Nat) : List Notice :=
  .greeting :: .memoryArea Memory.defaultBase
      (Memory.defaultBase + UInt32.ofNat (options.memorySize - 1)) ::
    match options.image with
    | none => [.builtinProgram, .blankLine]
    | some path => [.loading path, .loaded byteCount, .blankLine]

theorem badTrap_not_mem_opening (options : RunOptions) (byteCount : Nat)
    (pc code : Word) : .badTrap pc code ∉ options.opening byteCount := by
  unfold opening
  cases options.image <;> simp

end RunOptions

namespace Program

theorem openingNotices_ofSize (size : Nat) :
    openingNotices (Machine.ofSize size) = [.greeting,
      .memoryArea Memory.defaultBase (Memory.defaultBase + UInt32.ofNat (size - 1))] := by
  have loaded := Machine.loaded_ofSize size
  rw [openingNotices, Memory.last, loaded.base, loaded.size, Machine.length_initialContents]

variable {readFile : String → FileContent} {options : RunOptions}

section Given

variable {image : List UInt8} (given : options.imageBytes? readFile = some image)
include given

/-- Without a path there are no bytes to be laid over the contents of a new machine; with one, these
    are the bytes of the file. -/
theorem imageBytes?_cases :
    (options.image = none ∧ image = []) ∨
      ∃ path, options.image = some path ∧ readFile path = .bytes image := by
  unfold RunOptions.imageBytes? at given
  cases named : options.image with
  | none =>
    rw [named] at given
    exact Or.inl ⟨rfl, (Option.some.inj given).symm⟩
  | some path =>
    rw [named] at given
    cases content : readFile path with
    | bytes bytes =>
      simp only [content, Option.some.injEq] at given
      exact Or.inr ⟨path, rfl, by rw [content, given]⟩
    | unreadable cause => simp [content] at given
    | unopened cause => simp [content] at given

/-- An image that fits is loaded, and the session starts. -/
theorem openSession_of_le (fits : image.length ≤ options.memorySize) :
    ∃ m : Machine, m.Loaded (Machine.contents options.memorySize image) ∧
      openSession readFile options = .ok (options.opening image.length, .start m .empty) := by
  have loaded := Machine.loaded_ofSize options.memorySize
  rcases imageBytes?_cases given with ⟨named, rfl⟩ | ⟨path, named, content⟩
  · refine ⟨Machine.ofSize options.memorySize, loaded, ?_⟩
    rw [openSession, named, openingNotices_ofSize, RunOptions.opening, named]
    rfl
  · rw [← Machine.length_initialContents options.memorySize] at fits
    obtain ⟨m, load, loaded'⟩ := Machine.load_of_le loaded fits
    refine ⟨m, loaded', ?_⟩
    rw [openSession, named, openingNotices_ofSize, RunOptions.opening, named]
    dsimp only
    rw [content, loadImage, load]
    rfl

/-- A longer one is refused. -/
theorem openSession_of_lt (long : options.memorySize < image.length) :
    ∃ path, options.image = some path ∧
      openSession readFile options = .error (.failed
        [.greeting, .memoryArea Memory.defaultBase
          (Memory.defaultBase + UInt32.ofNat (options.memorySize - 1)), .loading path]
        (.session (.memory (.outOfBounds Memory.defaultBase Memory.defaultBase
          (Memory.defaultBase + UInt32.ofNat (options.memorySize - 1)))))) := by
  have loaded := Machine.loaded_ofSize options.memorySize
  rcases imageBytes?_cases given with ⟨-, rfl⟩ | ⟨path, named, content⟩
  · cases long
  · rw [← Machine.length_initialContents options.memorySize] at long
    have load := Machine.load_of_lt loaded long
    refine ⟨path, named, ?_⟩
    rw [Memory.last, loaded.base, loaded.size, Machine.length_initialContents] at load
    rw [openSession, named, openingNotices_ofSize]
    dsimp only
    rw [content, loadImage, load]
    rfl

end Given

theorem openSession_of_no_image (missing : options.imageBytes? readFile = none) :
    ∃ finished, openSession readFile options = .error finished := by
  unfold RunOptions.imageBytes? at missing
  unfold openSession
  cases named : options.image with
  | none => simp [named] at missing
  | some path =>
    dsimp only
    cases content : readFile path with
    | bytes image => simp [named, content] at missing
    | unreadable cause => exact ⟨_, rfl⟩
    | unopened cause => exact ⟨_, rfl⟩

/-- In a session that could be opened an image that fits has been loaded, if there is one. -/
theorem loaded_of_openSession {said : List Notice} {s : Session}
    (opened : openSession readFile options = .ok (said, s)) :
    ∃ image m, m.Loaded (Machine.contents options.memorySize image) ∧
      said = options.opening image.length ∧ s = .start m .empty := by
  cases given : options.imageBytes? readFile with
  | some image =>
    by_cases fits : image.length ≤ options.memorySize
    · obtain ⟨m, loaded, started⟩ := openSession_of_le given fits
      cases started.symm.trans opened
      exact ⟨image, m, loaded, rfl, rfl⟩
    · obtain ⟨path, -, refused⟩ := openSession_of_lt given (Nat.lt_of_not_le fits)
      cases refused.symm.trans opened
  | none =>
    obtain ⟨finished, refused⟩ := openSession_of_no_image given
    cases refused.symm.trans opened

end Program

end MachineDebugger
