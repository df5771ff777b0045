import MachineDebugger.Console.Dialogue
import MachineDebugger.Proofs.Text.Lines
/-
  What is left of a line after its backspaces.

  A control character joins no cluster. `Clustered.ControlsAlone` is that, for a text with some of its
  characters still to come: no cluster so far holds a control character and another one, and if the
  last cluster is a control character then nothing will be added to it. So a backspace is always a
  cluster by itself (`alone_of_mem_clusters`), and the clusters that are typed hold none.

  The clusters make up the line (`flatten_clusters`), and a backspace only takes characters from the
  end of what has been typed. By induction on the clusters, a typed line has no backspace
  (`backspace_not_mem_typedLine`) and consists of characters of the line, in order
  (`typedLine_sublist`).

  `Input.line_of_mem_ofBytes` says this of the lines of input, in which there is no newline either.
-/

namespace MachineDebugger

namespace Text

/-! ## Control characters and clusters -/

theorem ClusterEnd.ne_control_of_holds {e : ClusterEnd} {kind : ClusterClass}
    (h : e.holds kind = true) : e.last ≠ .control ∧ kind ≠ .control := by
  obtain ⟨last, halfFlag, pictograph, joined, linking⟩ := e
  constructor
  · rintro rfl
    cases h
  · rintro rfl
    cases last <;> cases h

namespace Clustered

/-- Control characters are clusters by themselves, and it is known of the last cluster if it is
    one. -/
structure ControlsAlone (t : Clustered) : Prop where
  last : ∀ cluster ∈ t.clusters.head?, ∀ c ∈ cluster.head?, t.ending.last = ClusterClass.of c
  alone : ∀ cluster ∈ t.clusters, ∀ c ∈ cluster, ClusterClass.of c = .control → cluster = [c]

theorem controlsAlone_start : start.ControlsAlone where
  last _ none := by cases none
  alone _ none := by cases none

theorem alone_singleton (c : Char) :
    ∀ d ∈ [c], ClusterClass.of d = .control → [c] = [d] := by
  intro d mem _
  rw [List.mem_singleton.mp mem]

theorem ControlsAlone.add {t : Clustered} (h : t.ControlsAlone) (c : Char) :
    (t.add c).ControlsAlone := by
  obtain ⟨ending, clusters⟩ := t
  unfold Clustered.add
  dsimp only
  cases clusters with
  | nil =>
    constructor
    · rintro cluster ⟨⟩ d ⟨⟩
      rfl
    · rw [List.forall_mem_singleton]
      exact alone_singleton c
  | cons cluster earlier =>
    have alone := List.forall_mem_cons.mp h.alone
    dsimp only
    split
    · next held =>
      obtain ⟨goesOn, other⟩ := ClusterEnd.ne_control_of_holds held
      constructor
      · rintro _ ⟨⟩ d ⟨⟩
        rfl
      · refine List.forall_mem_cons.mpr ⟨fun d mem control => ?_, alone.2⟩
        rcases List.mem_cons.mp mem with rfl | mem
        · exact absurd control other
        · -- A control character would be the whole cluster, and then nothing could be added to it.
          have whole := alone.1 d mem control
          have last := h.last cluster rfl d (by rw [whole]; rfl)
          exact absurd (last.trans control) goesOn
    · constructor
      · rintro _ ⟨⟩ d ⟨⟩
        rfl
      · exact List.forall_mem_cons.mpr ⟨alone_singleton c, h.alone⟩

theorem ControlsAlone.foldl_add {t : Clustered} (h : t.ControlsAlone) (text : List Char) :
    (text.foldl Clustered.add t).ControlsAlone := by
  induction text generalizing t with
  | nil => exact h
  | cons c rest ih => exact ih (h.add c)

end Clustered

/-- A cluster with a control character has no other character. -/
theorem alone_of_mem_clusters {text cluster : List Char} (h : cluster ∈ clusters text) {c : Char}
    (mem : c ∈ cluster) (control : ClusterClass.of c = .control) : cluster = [c] := by
  obtain ⟨turned, found, rfl⟩ := List.mem_map.mp h
  have controls := Clustered.controlsAlone_start.foldl_add text
  rw [controls.alone turned (List.mem_reverse.mp found) c (List.mem_reverse.mp mem) control]
  rfl

theorem eq_backspace_of_mem_clusters {text cluster : List Char} (h : cluster ∈ clusters text)
    (mem : backspace ∈ cluster) : cluster = [backspace] :=
  alone_of_mem_clusters h mem (by decide +kernel)

/-! ## Typing -/

namespace Typed

theorem dropBytes_suffix (count : Nat) (text : List Char) : dropBytes count text <:+ text := by
  fun_induction dropBytes count text with
  | case1 => exact List.suffix_rfl
  | case2 => exact List.suffix_rfl
  | case3 count c rest more ih => exact ih.trans (List.suffix_cons c rest)

theorem takeBack_suffix (t : Typed) : t.takeBack.text <:+ t.text := by
  unfold takeBack
  split
  · exact List.suffix_rfl
  · exact dropBytes_suffix _ _

theorem sublist_type (t : Typed) (cluster : List Char) :
    (t.type cluster).text.reverse.Sublist (t.text.reverse ++ cluster) := by
  unfold type
  split
  · exact (List.reverse_prefix.mpr t.takeBack_suffix).sublist.trans (List.sublist_append_left _ _)
  · have same : (cluster.reverse ++ t.text).reverse = t.text.reverse ++ cluster := by simp
    exact same ▸ List.Sublist.refl _

/-- Typing makes up no characters and keeps their order. -/
theorem sublist_foldl_type (t : Typed) (clusters : List (List Char)) :
    (clusters.foldl type t).text.reverse.Sublist (t.text.reverse ++ clusters.flatten) := by
  induction clusters generalizing t with
  | nil => simp
  | cons cluster rest ih =>
    rw [List.flatten_cons, ← List.append_assoc]
    exact (ih (t.type cluster)).trans ((t.sublist_type cluster).append_right _)

theorem backspace_not_mem_type {t : Typed} (h : backspace ∉ t.text) {cluster : List Char}
    (alone : backspace ∈ cluster → cluster = [backspace]) :
    backspace ∉ (t.type cluster).text := by
  unfold type
  split
  · exact fun mem => h (t.takeBack_suffix.subset mem)
  · next other =>
    rw [List.mem_append, List.mem_reverse]
    rintro (mem | mem)
    · exact other (alone mem)
    · exact h mem

theorem backspace_not_mem_foldl_type {t : Typed} (h : backspace ∉ t.text)
    {clusters : List (List Char)}
    (alone : ∀ cluster ∈ clusters, backspace ∈ cluster → cluster = [backspace]) :
    backspace ∉ (clusters.foldl type t).text := by
  induction clusters generalizing t with
  | nil => exact h
  | cons cluster rest ih =>
    rw [List.forall_mem_cons] at alone
    exact ih (backspace_not_mem_type h alone.1) alone.2

end Typed

/-- What is left of a line are characters of it, in order. -/
theorem typedLine_sublist (line : List Char) : (typedLine line).Sublist line := by
  unfold typedLine
  split
  · have typed := Typed.sublist_foldl_type .nothing (clusters line)
    rwa [flatten_clusters] at typed
  · exact List.Sublist.refl line

/-- All backspaces are gone when they have done their work. -/
theorem backspace_not_mem_typedLine (line : List Char) : backspace ∉ typedLine line := by
  unfold typedLine
  split
  · rw [List.mem_reverse]
    exact Typed.backspace_not_mem_foldl_type List.not_mem_nil fun _ => eq_backspace_of_mem_clusters
  · next none => simpa using none

/-- The backspaces take back the `b`, and then the `a` with its accent as one cluster. -/
example : typedLine ['x', 'a', '\u0301', 'b', backspace, backspace, 'c'] = ['x', 'c'] := by
  decide +kernel

/-! ## Lines of input -/

theorem newline_not_mem_of_mem_lines {α : Type} [DecidableEq α] {newline : α} {text line : List α}
    (h : line ∈ lines newline text) : newline ∉ line := by
  induction text generalizing line with
  | nil => cases h
  | cons c rest ih =>
    by_cases here : c = newline
    · rw [here, lines_cons_newline] at h
      rcases List.mem_cons.mp h with rfl | h
      · exact List.not_mem_nil
      · exact ih h
    · rw [lines_cons_of_ne here] at h
      rcases List.mem_cons.mp h with rfl | h
      · rw [List.mem_cons, not_or]
        refine ⟨Ne.symm here, ?_⟩
        cases split : lines newline rest with
        | nil => exact List.not_mem_nil
        | cons first later =>
          show newline ∉ first
          exact ih (split ▸ List.mem_cons_self)
      · exact ih (List.mem_of_mem_tail h)

theorem newline_not_mem_of_decode? {bytes : List UInt8} {text : String}
    (decoded : decode? bytes = some text) (h : newlineByte ∉ bytes) : '\n' ∉ text.toList := by
  intro mem
  rw [← (decode?_eq_some_iff bytes text).mp decoded] at h
  exact h (List.mem_flatMap.mpr ⟨'\n', mem, List.mem_cons_self⟩)

end Text

/-- A line of input has no newline and no backspace, and its characters are those of one line of the
    bytes, in order, as far as they have not been taken back. -/
theorem Input.line_of_mem_ofBytes {bytes : List UInt8} {text : String}
    (h : Input.line text ∈ Input.ofBytes bytes) :
    '\n' ∉ text.toList ∧ Text.backspace ∉ text.toList ∧
      ∃ line ∈ Text.lines Text.newlineByte bytes, ∃ whole, Text.decode? line = some whole ∧
        text.toList.Sublist whole.toList := by
  obtain ⟨line, mem, same⟩ := List.mem_map.mp h
  cases decoded : Text.decode? line with
  | none =>
    rw [decoded] at same
    cases same
  | some whole =>
    rw [decoded] at same
    cases same
    rw [String.toList_ofList]
    have sublist := Text.typedLine_sublist whole.toList
    have absent := Text.newline_not_mem_of_decode? decoded (Text.newline_not_mem_of_mem_lines mem)
    exact ⟨fun newline => absent (sublist.subset newline), Text.backspace_not_mem_typedLine _,
      line, mem, whole, decoded, sublist⟩

end MachineDebugger
