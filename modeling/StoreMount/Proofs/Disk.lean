import Mathlib.Tactic.Common
import StoreMount.Disk

/-!
# What a change of the disk leaves in place

A new directory and a written file go where no directory stands, and only directories are walked
through. So every path that led somewhere still leads there: what was a directory stays one, a file
that was written can be read back, and a directory that was made, with those above it, is there.
-/
namespace StoreMount.Disk

/-- Every directory of the one disk is a directory of the other. -/
def Keeps (d d' : Disk) : Prop :=
  ∀ here, d.node? here = some .directory → d'.node? here = some .directory

section
variable {d d' : Disk}

theorem ne_nil_of_free {here : Location} (hfree : d.node? here ≠ some .directory) : here ≠ [] := by
  rintro rfl
  exact hfree rfl

theorem Keeps.put {here : Location} (hfree : d.node? here ≠ some .directory) (node : Node) :
    d.Keeps (d.put here node) := by
  intro other hnode
  have hne : other ≠ here := by
    rintro rfl
    exact hfree hnode
  rw [node?_put_ne d hne node, hnode]

theorem Keeps.step (hkeeps : d.Keeps d') {here next : Location} {piece : List UInt8}
    (h : d.step here piece = .ok next) :
    d'.step here piece = .ok next := by
  unfold Disk.step at h ⊢
  split at h
  · next hempty => rw [if_pos hempty]; exact h
  · next hnamed =>
    rw [if_neg hnamed]
    split at h
    · cases h
    · cases h
    · next hnode =>
      rw [hkeeps here hnode]
      exact h

theorem Keeps.locate (hkeeps : d.Keeps d') {p : Path} {here : Location}
    (h : d.locate p = .ok here) :
    d'.locate p = .ok here := by
  have hwalk (pieces : List (List UInt8)) (start : Location)
      (h : pieces.foldlM d.step start = .ok here) :
      pieces.foldlM d'.step start = .ok here := by
    induction pieces generalizing start with
    | nil => exact h
    | cons piece pieces ih =>
      rw [List.foldlM_cons] at h ⊢
      cases hstep : d.step start piece with
      | error e => rw [hstep] at h; cases h
      | ok next =>
        rw [hstep] at h
        rw [hkeeps.step hstep]
        exact ih next h
  unfold Disk.locate at h ⊢
  split_ifs at h ⊢ with hunnamed hlong
  exact hwalk _ _ h

theorem find_directory {p : Path} {here : Location} (hlocate : d.locate p = .ok here)
    (hnode : d.node? here = some .directory) :
    d.find p = .ok (here, .directory) := by
  simp [Disk.find, hlocate, hnode, bind, Except.bind]

theorem holdsDirectory_iff {p : Path} :
    d.holdsDirectory p = true ↔ ∃ here, d.locate p = .ok here ∧ d.node? here = some .directory := by
  constructor
  · intro h
    unfold Disk.holdsDirectory Disk.find at h
    cases hlocate : d.locate p with
    | error e => simp [hlocate, bind, Except.bind] at h
    | ok here =>
      refine ⟨here, rfl, ?_⟩
      match hnode : d.node? here with
      | some .directory => rfl
      | none => simp [hlocate, hnode, bind, Except.bind] at h
      | some (.file text) => cases hasks : asksDirectory p
          <;> simp [hlocate, hnode, hasks, bind, Except.bind] at h
  · rintro ⟨here, hlocate, hnode⟩
    simp [Disk.holdsDirectory, find_directory hlocate hnode]

theorem Keeps.holdsDirectory (hkeeps : d.Keeps d') {p : Path} (h : d.holdsDirectory p = true) :
    d'.holdsDirectory p = true := by
  obtain ⟨here, hlocate, hnode⟩ := holdsDirectory_iff.1 h
  exact holdsDirectory_iff.2 ⟨here, hkeeps.locate hlocate, hkeeps here hnode⟩

theorem holds_of_holdsDirectory {p : Path} (h : d.holdsDirectory p = true) : d.holds p = true := by
  obtain ⟨here, hlocate, hnode⟩ := holdsDirectory_iff.1 h
  simp [Disk.holds, find_directory hlocate hnode, Except.isOk, Except.toBool]

/-! ## Files -/

theorem writeText_eq_ok {p : Path} {text : String} (h : d.writeText p text = .ok d') :
    ∃ here, d.locate p = .ok here ∧ asksDirectory p = false ∧ d.node? here ≠ some .directory
      ∧ d' = d.put here (.file text) := by
  unfold Disk.writeText at h
  cases hlocate : d.locate p with
  | error e => simp [hlocate, bind, Except.bind] at h
  | ok here =>
    simp only [hlocate, bind, Except.bind] at h
    split_ifs at h with hopen
    simp only [Bool.or_eq_true, decide_eq_true_eq, not_or, Bool.not_eq_true] at hopen
    exact ⟨here, rfl, hopen.1, hopen.2, (Except.ok.inj h).symm⟩

theorem writeText_again {p : Path} {text : String} (h : d.writeText p text = .ok d')
    (other : String) :
    ∃ d'', d.writeText p other = .ok d'' := by
  obtain ⟨here, hlocate, hfile, hfree, -⟩ := writeText_eq_ok h
  refine ⟨d.put here (.file other), ?_⟩
  simp [Disk.writeText, hlocate, hfile, hfree, bind, Except.bind]

theorem keeps_writeText {p : Path} {text : String} (h : d.writeText p text = .ok d') :
    d.Keeps d' := by
  obtain ⟨here, -, -, hfree, rfl⟩ := writeText_eq_ok h
  exact .put hfree _

theorem find_written {p : Path} {text : String} (h : d.writeText p text = .ok d') :
    ∃ here, d'.find p = .ok (here, .file text) := by
  obtain ⟨here, hlocate, hfile, hfree, rfl⟩ := writeText_eq_ok h
  have hput := node?_put_self d (ne_nil_of_free hfree) (.file text)
  refine ⟨here, ?_⟩
  simp [Disk.find, (Keeps.put hfree _).locate hlocate, hput, hfile, bind, Except.bind]

theorem readText_written {p : Path} {text : String} (h : d.writeText p text = .ok d') :
    d'.readText p = .ok text := by
  obtain ⟨here, hfound⟩ := find_written h
  simp [Disk.readText, hfound, bind, Except.bind]

theorem holds_written {p : Path} {text : String} (h : d.writeText p text = .ok d') :
    d'.holds p = true := by
  obtain ⟨here, hfound⟩ := find_written h
  simp [Disk.holds, hfound, Except.isOk, Except.toBool]

/-! ## Directories -/

theorem makeDirectory_eq_ok {p : Path} (h : d.makeDirectory p = .ok d') :
    ∃ here, d.locate p = .ok here ∧ d.node? here = none ∧ d' = d.put here .directory := by
  unfold Disk.makeDirectory at h
  cases hlocate : d.locate p with
  | error e => simp [hlocate, bind, Except.bind] at h
  | ok here =>
    simp only [hlocate, bind, Except.bind] at h
    split_ifs at h with hnode
    exact ⟨here, rfl, by simpa using hnode, (Except.ok.inj h).symm⟩

theorem holdsDirectory_made {p : Path} (h : d.makeDirectory p = .ok d') :
    d'.holdsDirectory p = true := by
  obtain ⟨here, hlocate, hnone, rfl⟩ := makeDirectory_eq_ok h
  have hfree : d.node? here ≠ some .directory := by simp [hnone]
  exact holdsDirectory_iff.2 ⟨here, (Keeps.put hfree _).locate hlocate,
    node?_put_self d (ne_nil_of_free hfree) _⟩

theorem holdsDirectory_makeChain {p : Path} (hnamed : p.bytes ≠ []) {above : List Path}
    (h : d.makeChain (p :: above) = .ok d') :
    d'.holdsDirectory p = true := by
  have hsettled {d : Disk} {e : Trouble}
      (h : (if d.holdsDirectory p then Except.ok d else .error e) = .ok d') :
      d'.holdsDirectory p = true := by
    split_ifs at h with hnode
    exact Except.ok.inj h ▸ hnode
  simp only [makeChain, if_neg hnamed] at h
  split at h
  · next hmade => exact Except.ok.inj h ▸ holdsDirectory_made hmade
  · cases habove : d.makeChain above with
    | error e => simp [habove, bind, Except.bind] at h
    | ok d₁ =>
      simp only [habove, bind, Except.bind] at h
      split at h
      · next hmade => exact Except.ok.inj h ▸ holdsDirectory_made hmade
      · exact hsettled h
  · exact hsettled h

end

theorem ancestors_eq_cons (p : Path) : ∃ above, p.ancestors = p :: above := by
  unfold Path.ancestors
  cases p.bytes.length with
  | zero => exact ⟨[], rfl⟩
  | succ fuel =>
    rw [Path.ancestors.go]
    cases p.parent? with
    | none => exact ⟨[], rfl⟩
    | some q => exact ⟨_, rfl⟩

theorem holdsDirectory_makeDirectories {d d' : Disk} {p : Path} (hnamed : p.bytes ≠ [])
    (h : d.makeDirectories p = .ok d') :
    d'.holdsDirectory p = true := by
  obtain ⟨above, hancestors⟩ := ancestors_eq_cons p
  rw [makeDirectories, hancestors] at h
  exact holdsDirectory_makeChain hnamed h

end StoreMount.Disk
