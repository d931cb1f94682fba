import Mathlib.Data.List.Basic
import Tidymark.Disk
import Tidymark.Proofs.Answer
import Tidymark.WriteBack

/-! # Where paths lead

There are no links, so the names of a path alone say where it leads, if all the places that it goes
through are directories. The copy of a file lies beside it. -/
namespace Tidymark

def FileNode.isDirectory : FileNode → Bool
  | file _ => false
  | directory => true

namespace Path

/-- Where a piece of a path leads from a place. There is nothing above the first place. -/
def step? (names : List String) (piece : List Char) : Option (List String) :=
  match componentOf? piece with
  | none => some names
  | some (.name n) => some (names ++ [n])
  | some _ => if names.isEmpty then none else some names.dropLast

def target? (names : List String) : List (List Char) → Option (List String)
  | [] => some names
  | piece :: rest =>
    match step? names piece with
    | some next => target? next rest
    | none => none

/-- The places where pieces go on, from the first one on. -/
def stations (names : List String) : List (List Char) → List (List String)
  | [] => []
  | piece :: rest =>
    match step? names piece with
    | some next => names :: stations next rest
    | none => [names]

/-- Whether a path can lead anywhere on a disk. -/
def isInside (path : String) : Bool := !(path.isEmpty || isAbsolute path)

/-- The place that a path leads to if all is there. -/
def place? (path : String) : Option (List String) :=
  if isInside path then target? [] (pieces path.toList) else none

/-- The places that a path goes through: there have to be directories. -/
def through (path : String) : List (List String) :=
  if isInside path then stations [] (pieces path.toList) else []

theorem pieces_of_not_mem {s : List Char} (h : '/' ∉ s) : pieces s = [s] := by
  induction s with
  | nil => rfl
  | cons c s ih =>
    rw [List.mem_cons, not_or] at h
    simp [pieces, Ne.symm h.1, ih h.2]

/-- What is put behind a path without a slash belongs to its last piece. -/
theorem exists_pieces_append (s : List Char) {t : List Char} (ht : '/' ∉ t) :
    ∃ front last, pieces s = front ++ [last] ∧ pieces (s ++ t) = front ++ [last ++ t] := by
  induction s with
  | nil => exact ⟨[], [], rfl, pieces_of_not_mem ht⟩
  | cons c s ih =>
    obtain ⟨front, last, hs, hst⟩ := ih
    by_cases hc : c = '/'
    · exact ⟨[] :: front, last, by simp [pieces, hc, hs], by simp [pieces, hc, hst]⟩
    · cases front with
      | nil => exact ⟨[], c :: last, by simp [pieces, hc, hs], by simp [pieces, hc, hst]⟩
      | cons piece front =>
        exact ⟨(c :: piece) :: front, last, by simp [pieces, hc, hs], by simp [pieces, hc, hst]⟩

theorem step?_of_name {piece : List Char} (h : 2 < piece.length) (names : List String) :
    step? names piece = some (names ++ [String.ofList piece]) := by
  have hname : componentOf? piece = some (.name (String.ofList piece)) := by
    unfold componentOf?
    split <;> simp_all
  rw [step?, hname]

/-- A piece stays, goes up, or is the next name. -/
theorem eq_of_step? {names next : List String} {piece : List Char}
    (h : step? names piece = some next) :
    next = names ∨ next = names.dropLast ∨ next = names ++ [String.ofList piece] := by
  unfold step? componentOf? at h
  grind

theorem isInside_backupPath {path : String} (h : isInside path = true) :
    isInside (backupPath path) = true := by
  simp only [isInside, isAbsolute, Bool.not_eq_true', Bool.or_eq_false_iff,
    String.isEmpty_eq_false_iff, beq_eq_false_iff_ne] at h ⊢
  obtain ⟨hne, hhead⟩ := h
  obtain ⟨c, rest, hpath⟩ := List.exists_cons_of_ne_nil (mt String.toList_eq_nil_iff.mp hne)
  have hcopy : (backupPath path).toList = c :: (rest ++ ".bak".toList) := by
    rw [backupPath, String.toList_append, hpath, List.cons_append]
  refine ⟨fun hempty => ?_, ?_⟩
  · rw [hempty] at hcopy
    cases hcopy
  · rw [hpath] at hhead
    rw [hcopy]
    exact hhead

end Path

namespace Disk

variable {d e : Disk} {names target : List String} {path : String}

theorem follow_cons (h : d.get? names = some .directory) (piece : List Char)
    (rest : List (List Char)) :
    d.follow names (piece :: rest) =
      match Path.step? names piece with
      | some next => d.follow next rest
      | none => .error .notFound := by
  rw [follow, h, Path.step?]
  split <;> split <;> grind

theorem get?_of_follow_cons {piece : List Char} {rest : List (List Char)}
    (h : d.follow names (piece :: rest) = .ok target) : d.get? names = some .directory := by
  unfold follow at h
  split at h
  · cases h
  · cases h
  · assumption

theorem target?_of_follow {pieces : List (List Char)} (h : d.follow names pieces = .ok target) :
    Path.target? names pieces = some target := by
  induction pieces generalizing names with
  | nil => exact congrArg _ (Except.ok.inj h)
  | cons piece rest ih =>
    rw [follow_cons (get?_of_follow_cons h)] at h
    unfold Path.target?
    split at h
    · exact ih h
    · cases h

theorem directory_of_mem_stations {pieces : List (List Char)}
    (h : d.follow names pieces = .ok target) {s : List String}
    (hs : s ∈ Path.stations names pieces) : d.get? s = some .directory := by
  induction pieces generalizing names with
  | nil => cases hs
  | cons piece rest ih =>
    have hnames := get?_of_follow_cons h
    rw [follow_cons hnames] at h
    rw [Path.stations] at hs
    cases hnext : Path.step? names piece with
    | none =>
      rw [hnext] at h
      cases h
    | some next =>
      rw [hnext] at h hs
      rcases List.mem_cons.mp hs with rfl | hs
      · exact hnames
      · exact ih h hs

theorem follow_append (names : List String) (front back : List (List Char)) :
    d.follow names (front ++ back) = d.follow names front >>= fun above => d.follow above back := by
  induction front generalizing names with
  | nil => rfl
  | cons piece front ih =>
    rw [List.cons_append, follow, follow]
    split
    · rfl
    · rfl
    · split
      · exact ih _
      · exact ih _
      · split
        · rfl
        · exact ih _

theorem follow_concat {front : List (List Char)} {last : List Char} :
    d.follow names (front ++ [last]) = .ok target ↔
      ∃ above, d.follow names front = .ok above ∧ d.get? above = some .directory ∧
        Path.step? above last = some target := by
  rw [follow_append, bind_eq_ok_iff]
  refine exists_congr fun above => and_congr_right fun _ => ?_
  constructor
  · intro h
    have hdirectory := get?_of_follow_cons h
    rw [follow_cons hdirectory] at h
    refine ⟨hdirectory, ?_⟩
    split at h
    · rename_i next hnext
      rw [hnext]
      exact congrArg _ (Except.ok.inj h)
    · cases h
  · rintro ⟨hdirectory, hstep⟩
    rw [follow_cons hdirectory, hstep]
    rfl

/-- The places on the way to a place are directories. -/
def Grounded (d : Disk) (names : List String) : Prop :=
  ∀ above, above <+: names → above ≠ names → d.get? above = some .directory

theorem Grounded.step (hnames : d.Grounded names) (hdirectory : d.get? names = some .directory)
    {piece : List Char} (h : Path.step? names piece = some target) : d.Grounded target := by
  intro above hbegins hne
  rcases Path.eq_of_step? h with rfl | rfl | rfl
  · exact hnames above hbegins hne
  · by_cases hsame : above = names
    · rw [hsame, hdirectory]
    · exact hnames above (hbegins.trans (List.dropLast_prefix names)) hsame
  · rcases List.prefix_concat_iff.mp hbegins with hsame | hbegins
    · exact absurd hsame hne
    · by_cases hsame : above = names
      · rw [hsame, hdirectory]
      · exact hnames above hbegins hsame

theorem Grounded.follow {pieces : List (List Char)} (hnames : d.Grounded names)
    (h : d.follow names pieces = .ok target) : d.Grounded target := by
  induction pieces generalizing names with
  | nil =>
    obtain rfl := Except.ok.inj h
    exact hnames
  | cons piece rest ih =>
    have hdirectory := get?_of_follow_cons h
    rw [follow_cons hdirectory] at h
    split at h
    · rename_i next hnext
      exact ih (hnames.step hdirectory hnext) h
    · cases h

theorem locate_eq_ok_iff : d.locate path = .ok target ↔
    Path.isInside path = true ∧ d.follow [] (Path.pieces path.toList) = .ok target := by
  unfold locate Path.isInside
  cases path.isEmpty || Path.isAbsolute path with
  | true => exact ⟨nofun, fun h => nomatch h.1⟩
  | false => exact ⟨fun h => ⟨rfl, h⟩, fun h => h.2⟩

/-- A path that leads anywhere leads to its place. -/
theorem place?_of_locate (h : d.locate path = .ok target) : Path.place? path = some target := by
  obtain ⟨hinside, hfollow⟩ := locate_eq_ok_iff.mp h
  rw [Path.place?, if_pos hinside, target?_of_follow hfollow]

theorem directory_of_mem_through (h : d.locate path = .ok target) {s : List String}
    (hs : s ∈ Path.through path) : d.get? s = some .directory := by
  obtain ⟨hinside, hfollow⟩ := locate_eq_ok_iff.mp h
  rw [Path.through, if_pos hinside] at hs
  exact directory_of_mem_stations hfollow hs

/-- The copy of a file lies beside it. -/
theorem locate_backupPath {bytes : List UInt8} (h : d.locate path = .ok target)
    (hfile : d.get? target = some (.file bytes)) :
    ∃ above n, target = above ++ [n] ∧
      d.locate (backupPath path) = .ok (above ++ [n ++ ".bak"]) := by
  obtain ⟨hinside, hfollow⟩ := locate_eq_ok_iff.mp h
  obtain ⟨front, last, hpieces, hcopy⟩ :=
    Path.exists_pieces_append path.toList (t := ".bak".toList) (by decide)
  rw [hpieces] at hfollow
  obtain ⟨above, habove, hdirectory, hstep⟩ := follow_concat.mp hfollow
  have hstart : d.Grounded [] := by simp [Grounded]
  have hgrounded : d.Grounded above := hstart.follow habove
  rcases Path.eq_of_step? hstep with rfl | rfl | rfl
  · rw [hdirectory] at hfile
    cases hfile
  · by_cases hsame : above.dropLast = above
    · rw [hsame, hdirectory] at hfile
      cases hfile
    · rw [hgrounded _ (List.dropLast_prefix above) hsame] at hfile
      cases hfile
  · refine ⟨above, String.ofList last, rfl, locate_eq_ok_iff.mpr ⟨?_, ?_⟩⟩
    · exact Path.isInside_backupPath hinside
    · rw [backupPath, String.toList_append, hcopy]
      refine follow_concat.mpr ⟨above, habove, hdirectory, ?_⟩
      rw [Path.step?_of_name (by simp), String.ofList_append]
      rfl

/-- Places of which a path only sees whether there are directories. -/
theorem follow_congr {pieces : List (List Char)}
    (h : ∀ s ∈ Path.stations names pieces,
      (d.get? s).map FileNode.isDirectory = (e.get? s).map FileNode.isDirectory) :
    d.follow names pieces = e.follow names pieces := by
  induction pieces generalizing names with
  | nil => rfl
  | cons piece rest ih =>
    have hhere : (d.get? names).map FileNode.isDirectory =
        (e.get? names).map FileNode.isDirectory := h names (by unfold Path.stations; split <;> simp)
    cases hd : d.get? names with
    | none =>
      rw [hd] at hhere
      have he : e.get? names = none := Option.map_eq_none_iff.mp hhere.symm
      rw [follow, follow, hd, he]
    | some node =>
      rw [hd] at hhere
      obtain ⟨node', he, hkind⟩ := Option.map_eq_some_iff.mp hhere.symm
      cases node with
      | file bytes =>
        cases node' with
        | file bytes' => rw [follow, follow, hd, he]
        | directory => cases hkind
      | directory =>
        cases node' with
        | file bytes' => cases hkind
        | directory =>
          rw [follow_cons hd, follow_cons he]
          cases hnext : Path.step? names piece with
          | none => rfl
          | some next => exact ih fun s hs => h s (by simp [Path.stations, hnext, hs])

/-- Where a path leads depends on what it goes through, and there only on what is a directory. -/
theorem locate_congr
    (h : ∀ s ∈ Path.through path,
      (d.get? s).map FileNode.isDirectory = (e.get? s).map FileNode.isDirectory) :
    d.locate path = e.locate path := by
  unfold Path.through Path.isInside at h
  unfold locate
  cases hinside : path.isEmpty || Path.isAbsolute path with
  | true => rfl
  | false => exact follow_congr (by simpa [hinside] using h)

end Disk
end Tidymark
