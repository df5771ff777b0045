import MachineDebugger.Text.ClusterClass
/-
  The clusters of a text.
  A text without newlines is cut between two characters unless a rule keeps them together. The
  rules look at the classes of the two characters and at little more: whether a flag is half
  done, whether a pictograph is being joined, whether consonants are being linked.
  `flatten_clusters` says that the clusters make up the text, so that nothing is lost when a line
  is typed cluster by cluster.
-/

namespace MachineDebugger.Text

/-- How far consonants have been linked at the end of a text. -/
inductive Linking
  | none
  /-- There is a consonant, perhaps with marks. -/
  | consonant
  /-- There is a sign among the marks that links the consonant to the next one. -/
  | linked
  deriving DecidableEq

/-- What has to be known of a text to tell whether a cluster goes on after it. -/
structure ClusterEnd where
  last : ClusterClass
  /-- The text ends with the first letter of a flag. -/
  halfFlag : Bool
  /-- The text ends with a pictograph, perhaps with marks. -/
  pictograph : Bool
  /-- The text ends with a pictograph, perhaps with marks, and a joiner. -/
  joined : Bool
  linking : Linking
  deriving DecidableEq

namespace ClusterEnd

/-- The end of a text that has no characters. -/
def start : ClusterEnd := ⟨.control, false, false, false, .none⟩

/-- How far consonants have been linked after one more character. -/
def linkingAfter (linking : Linking) : ClusterClass → Linking
  | .consonant => .consonant
  | .linker => if linking = .none then .none else .linked
  | .extend => linking
  | .joiner => linking
  | _ => .none

/-- The end of a text with one more character. -/
def next (e : ClusterEnd) (kind : ClusterClass) : ClusterEnd where
  last := kind
  halfFlag := kind = .regional && !e.halfFlag
  pictograph :=
    match kind with
    | .pictograph => true
    | .extend | .linker | .nonJoiner => e.pictograph
    | _ => false
  joined := kind = .joiner && e.pictograph
  linking := linkingAfter e.linking kind

/-- Whether a character belongs to the cluster at the end of a text. -/
def holds (e : ClusterEnd) (kind : ClusterClass) : Bool :=
  match e.last, kind with
  | .control, _ => false
  | _, .control => false
  | .leading, .leading | .leading, .vowel | .leading, .openSyllable | .leading, .closedSyllable =>
    true
  | .openSyllable, .vowel | .openSyllable, .trailing | .vowel, .vowel | .vowel, .trailing => true
  | .closedSyllable, .trailing | .trailing, .trailing => true
  | _, .extend | _, .linker | _, .nonJoiner | _, .joiner | _, .spacing => true
  | .prepend, _ => true
  | _, .regional => e.halfFlag
  | _, .pictograph => e.joined
  | _, .consonant => e.linking = .linked
  | _, _ => false

end ClusterEnd

/-- A text cut into clusters. Both the clusters and the characters of each are listed last one
first. -/
structure Clustered where
  ending : ClusterEnd
  clusters : List (List Char)
  deriving DecidableEq

namespace Clustered

/-- The text that has no characters. -/
def start : Clustered := ⟨.start, []⟩

/-- Adds a character to the end of a text. -/
def add (t : Clustered) (c : Char) : Clustered :=
  let kind := ClusterClass.of c
  let clusters :=
    match t.clusters with
    | [] => [[c]]
    | cluster :: earlier =>
      if t.ending.holds kind then (c :: cluster) :: earlier else [c] :: cluster :: earlier
  ⟨t.ending.next kind, clusters⟩

theorem flatten_add (t : Clustered) (c : Char) :
    (t.add c).clusters.flatten = c :: t.clusters.flatten := by
  rw [add]
  cases t.clusters with
  | nil => rfl
  | cons cluster earlier =>
    dsimp only
    split <;> rfl

theorem flatten_foldl_add (t : Clustered) (text : List Char) :
    (text.foldl add t).clusters.flatten = text.reverse ++ t.clusters.flatten := by
  induction text generalizing t with
  | nil => rfl
  | cons c rest ih =>
    rw [List.foldl_cons, ih, flatten_add, List.reverse_cons, List.append_assoc,
      List.singleton_append]

end Clustered

/-- The clusters of a text without newlines. -/
def clusters (text : List Char) : List (List Char) :=
  (text.foldl Clustered.add .start).clusters.reverse.map List.reverse

/-- The clusters of a text make up the text. -/
theorem flatten_clusters (text : List Char) : (clusters text).flatten = text := by
  rw [clusters, List.map_reverse, ← List.reverse_flatten, Clustered.flatten_foldl_add,
    Clustered.start, List.flatten_nil, List.append_nil, List.reverse_reverse]

end MachineDebugger.Text
