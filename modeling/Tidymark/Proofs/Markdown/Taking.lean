import Mathlib.Data.List.Infix
import Mathlib.Data.List.TakeWhile
import Tidymark.Markdown.Container
import Tidymark.Markdown.Definition

/-! # Recognisers take from the front

Whatever a recogniser leaves of some cells is their end: containers, labels, destinations, titles
and link definitions all take cells off the front. -/
namespace Tidymark.Markdown

variable {cells rest left inside : List Cell} {n size fuel : Nat}

namespace Cells

theorem dropUpTo_suffix (n : Nat) (cells : List Cell) : dropUpTo n cells <:+ cells := by
  induction n generalizing cells with
  | zero => exact List.suffix_rfl
  | succ n ih =>
    cases cells with
    | nil => exact List.suffix_rfl
    | cons c cells =>
      rw [dropUpTo]
      split
      · exact (ih cells).trans (List.suffix_cons c cells)
      · exact List.suffix_rfl

theorem dropExactly_suffix (h : dropExactly n cells = some rest) : rest <:+ cells := by
  induction n generalizing cells with
  | zero =>
    obtain rfl := Option.some.inj h
    exact List.suffix_rfl
  | succ n ih =>
    cases cells with
    | nil => cases h
    | cons c cells =>
      rw [dropExactly] at h
      split at h
      · exact (ih h).trans (List.suffix_cons c cells)
      · cases h

theorem dropIndent_suffix (cells : List Cell) : dropIndent cells <:+ cells :=
  dropUpTo_suffix 3 cells

theorem dropBlanks_suffix (cells : List Cell) : dropBlanks cells <:+ cells :=
  List.dropWhile_suffix _

end Cells

namespace Scan

theorem many_suffix (p : Char → Bool) (cells : List Cell) : many p cells <:+ cells :=
  List.dropWhile_suffix _

theorem one_suffix {p : Char → Bool} (h : one p cells = some rest) : rest <:+ cells := by
  cases cells with
  | nil => cases h
  | cons c cells =>
    rw [one] at h
    split at h
    · obtain rfl := Option.some.inj h
      exact List.suffix_cons c cells
    · cases h

theorem char_suffix {x : Char} (h : char x cells = some rest) : rest <:+ cells := one_suffix h

theorem chars_suffix {s : List Char} (h : chars s cells = some rest) : rest <:+ cells := by
  induction s generalizing cells with
  | nil =>
    obtain rfl := Option.some.inj h
    exact List.suffix_rfl
  | cons x s ih =>
    obtain ⟨behind, hfirst, h⟩ := Option.bind_eq_some_iff.mp h
    exact (ih h).trans (char_suffix hfirst)

theorem blanksAcrossEnding_suffix (cells : List Cell) : blanksAcrossEnding cells <:+ cells := by
  have hdrop := Cells.dropBlanks_suffix cells
  unfold blanksAcrossEnding
  split
  · rename_i c rest hcells
    rw [hcells] at hdrop
    split
    · exact (Cells.dropBlanks_suffix rest).trans ((List.suffix_cons c rest).trans hdrop)
    · exact hdrop
  · exact List.nil_suffix

/-- A recogniser that only puts more in front of what another one finds inside. -/
theorem suffix_of_map {found : Option (List Cell × List Cell)}
    {f : List Cell × List Cell → List Cell × List Cell} (h : found.map f = some (inside, rest))
    (hfound : ∀ inside behind, found = some (inside, behind) → behind <:+ cells)
    (hf : ∀ x, (f x).2 = x.2) : rest <:+ cells := by
  obtain ⟨⟨inside', behind⟩, hsome, heq⟩ := Option.map_eq_some_iff.mp h
  obtain rfl : behind = rest := (hf _).symm.trans (congrArg Prod.snd heq)
  exact hfound _ _ hsome

theorem labelInside_suffix {seen : Bool}
    (h : labelInside fuel size seen cells = some (inside, rest)) : rest <:+ cells := by
  induction fuel generalizing size seen cells inside rest with
  | zero => cases h
  | succ fuel ih =>
    cases cells with
    | nil => cases h
    | cons c cells =>
      simp only [labelInside] at h
      split at h
      · cases h
      · split at h
        · split at h
          · obtain ⟨-, rfl⟩ := Prod.mk.inj (Option.some.inj h)
            exact List.suffix_rfl
          · cases h
        · split at h
          · have hrest := suffix_of_map h (fun _ _ => ih) fun _ => rfl
            exact hrest.trans ((Cells.dropBlanks_suffix cells).trans (List.suffix_cons c cells))
          · split at h
            · rename_i d more
              split at h
              · have hrest := suffix_of_map h (fun _ _ => ih) fun _ => rfl
                exact hrest.trans ((List.suffix_cons d more).trans (List.suffix_cons c _))
              · exact (suffix_of_map h (fun _ _ => ih) fun _ => rfl).trans (List.suffix_cons c _)
            · cases h

theorem label?_suffix (h : label? cells = some (inside, rest)) : rest <:+ cells := by
  obtain ⟨opened, hopened, h⟩ := Option.bind_eq_some_iff.mp h
  obtain ⟨⟨label, behind⟩, hlabel, h⟩ := Option.bind_eq_some_iff.mp h
  obtain ⟨-, rfl⟩ := Prod.mk.inj (Option.some.inj h)
  exact (List.drop_suffix 1 behind).trans
    ((labelInside_suffix hlabel).trans (char_suffix hopened))

theorem enclosed_suffix (h : enclosed cells = some (inside, rest)) : rest <:+ cells := by
  fun_induction enclosed cells generalizing inside rest with
  | case1 => cases h
  | case2 c cells hclose =>
    obtain ⟨-, rfl⟩ := Prod.mk.inj (Option.some.inj h)
    exact List.suffix_cons c _
  | case3 => cases h
  | case4 c hclose hends d more hescape ih =>
    exact (suffix_of_map h (fun _ _ => ih) fun _ => rfl).trans
      ((List.suffix_cons d more).trans (List.suffix_cons c _))
  | case5 c hclose hends d more hescape ih =>
    exact (suffix_of_map h (fun _ _ => ih) fun _ => rfl).trans (List.suffix_cons c _)
  | case6 => cases h

theorem bare_suffix {limit depth : Nat} (h : bare limit depth cells = some (inside, rest)) :
    rest <:+ cells := by
  fun_induction bare limit depth cells generalizing inside rest with
  | case1 =>
    obtain ⟨-, rfl⟩ := Prod.mk.inj (Option.some.inj h)
    exact List.suffix_rfl
  | case2 => cases h
  | case3 depth c cells hends =>
    obtain ⟨-, rfl⟩ := Prod.mk.inj (Option.some.inj h)
    exact List.suffix_rfl
  | case4 depth c cells hends hopens ih =>
    exact (suffix_of_map h (fun _ _ => ih) fun _ => rfl).trans (List.suffix_cons c _)
  | case5 => cases h
  | case6 depth c cells hends hopens hbad hcloses ih =>
    exact (suffix_of_map h (fun _ _ => ih) fun _ => rfl).trans (List.suffix_cons c _)
  | case7 depth c hends hopens hbad hcloses d more hescape ih =>
    exact (suffix_of_map h (fun _ _ => ih) fun _ => rfl).trans
      ((List.suffix_cons d more).trans (List.suffix_cons c _))
  | case8 depth c hends hopens hbad hcloses d more hescape ih =>
    exact (suffix_of_map h (fun _ _ => ih) fun _ => rfl).trans (List.suffix_cons c _)
  | case9 depth c hends hopens hbad hcloses ih =>
    exact (suffix_of_map h (fun _ _ => ih) fun _ => rfl).trans (List.suffix_cons c _)

theorem destination?_suffix {limit : Nat} (h : destination? limit cells = some (inside, rest)) :
    rest <:+ cells := by
  cases cells with
  | nil => cases h
  | cons c cells =>
    simp only [destination?] at h
    split at h
    · exact (enclosed_suffix h).trans (List.suffix_cons c cells)
    · split at h
      · cases h
      · exact bare_suffix h

theorem titleInside_suffix {mark : Char} (h : titleInside mark cells = some (inside, rest)) :
    rest <:+ cells := by
  fun_induction titleInside mark cells generalizing inside rest with
  | case1 => cases h
  | case2 c cells hclose =>
    obtain ⟨-, rfl⟩ := Prod.mk.inj (Option.some.inj h)
    exact List.suffix_cons c _
  | case3 c hclose d more hescape ih =>
    exact (suffix_of_map h (fun _ _ => ih) fun _ => rfl).trans
      ((List.suffix_cons d more).trans (List.suffix_cons c _))
  | case4 c hclose d more hescape ih =>
    exact (suffix_of_map h (fun _ _ => ih) fun _ => rfl).trans (List.suffix_cons c _)
  | case5 => cases h

theorem title?_suffix (h : title? cells = some (inside, rest)) : rest <:+ cells := by
  cases cells with
  | nil => cases h
  | cons c cells =>
    simp only [title?] at h
    split at h
    · exact (titleInside_suffix h).trans (List.suffix_cons c cells)
    · split at h
      · exact (titleInside_suffix h).trans (List.suffix_cons c cells)
      · cases h

end Scan

namespace LinkDefinition

variable {source : Text} {stop : Nat} {definition : LinkDefinition}

theorem endOfLine?_suffix (h : endOfLine? cells = some rest) : rest <:+ cells := by
  simp only [endOfLine?] at h
  split at h
  · obtain rfl := Option.some.inj h
    exact Cells.dropBlanks_suffix cells
  · cases h

theorem titled?_suffix {title : Option Text} (h : titled? cells = some (title, rest)) :
    rest <:+ cells := by
  simp only [titled?] at h
  split at h
  · cases h
  · obtain ⟨⟨inside, behind⟩, htitle, h⟩ := Option.bind_eq_some_iff.mp h
    obtain ⟨left, hleft, h⟩ := Option.bind_eq_some_iff.mp h
    obtain ⟨-, rfl⟩ := Prod.mk.inj (Option.some.inj h)
    exact (endOfLine?_suffix hleft).trans
      ((Scan.title?_suffix htitle).trans (Scan.blanksAcrossEnding_suffix cells))

theorem read?_suffix (h : read? source stop cells = some (definition, rest)) : rest <:+ cells := by
  obtain ⟨⟨label, behind⟩, hlabel, h⟩ := Option.bind_eq_some_iff.mp h
  obtain ⟨colon, hcolon, h⟩ := Option.bind_eq_some_iff.mp h
  obtain ⟨⟨url, tail⟩, hurl, h⟩ := Option.bind_eq_some_iff.mp h
  obtain ⟨⟨title, left⟩, htitle, h⟩ := Option.bind_eq_some_iff.mp h
  obtain ⟨-, rfl⟩ := Prod.mk.inj (Option.some.inj h)
  have hleft : left <:+ tail := by
    rcases Option.or_eq_some_iff.mp htitle with htitle | ⟨-, hend⟩
    · exact titled?_suffix htitle
    · obtain ⟨ended, hended, heq⟩ := Option.map_eq_some_iff.mp hend
      obtain ⟨-, rfl⟩ := Prod.mk.inj heq
      exact endOfLine?_suffix hended
  exact hleft.trans ((Scan.destination?_suffix hurl).trans
    ((Scan.blanksAcrossEnding_suffix colon).trans ((Scan.char_suffix hcolon).trans
      ((Scan.label?_suffix hlabel).trans (Cells.dropBlanks_suffix cells)))))

/-- What is left behind link definitions is the end of the text. -/
theorem readAll_suffix (source : Text) (stop fuel : Nat) (cells : List Cell) :
    (readAll source stop fuel cells).2 <:+ cells := by
  induction fuel generalizing cells with
  | zero => exact List.suffix_rfl
  | succ fuel ih =>
    rw [readAll]
    split
    · rename_i definition behind hread
      exact (ih (behind.drop 1)).trans ((List.drop_suffix 1 behind).trans (read?_suffix hread))
    · exact List.suffix_rfl

end LinkDefinition

namespace Container

variable {container opened : Container} {interrupts : Bool} {row : Row}

theorem resume?_suffix (h : container.resume? cells = some (opened, left)) : left <:+ cells := by
  cases container with
  | quote =>
    obtain ⟨behind, hchar, heq⟩ := Option.map_eq_some_iff.mp h
    obtain ⟨-, rfl⟩ := Prod.mk.inj heq
    exact (Cells.dropUpTo_suffix 1 behind).trans
      ((Scan.char_suffix hchar).trans (Cells.dropIndent_suffix cells))
  | item marker number size blankStart =>
    simp only [resume?] at h
    split at h
    · split at h
      · cases h
      · obtain ⟨-, rfl⟩ := Prod.mk.inj (Option.some.inj h)
        exact Cells.dropUpTo_suffix size cells
    · obtain ⟨behind, hdrop, heq⟩ := Option.map_eq_some_iff.mp h
      obtain ⟨-, rfl⟩ := Prod.mk.inj heq
      exact Cells.dropExactly_suffix hdrop
  | footnote label =>
    simp only [resume?] at h
    split at h
    · obtain ⟨-, rfl⟩ := Prod.mk.inj (Option.some.inj h)
      exact Cells.dropUpTo_suffix 4 cells
    · obtain ⟨behind, hdrop, heq⟩ := Option.map_eq_some_iff.mp h
      obtain ⟨-, rfl⟩ := Prod.mk.inj heq
      exact Cells.dropExactly_suffix hdrop

theorem itemMarker?_suffix {marker : Char} {number : Option Nat}
    (h : itemMarker? interrupts cells = some (marker, number, rest)) : rest <:+ cells := by
  obtain ⟨c, hc, h⟩ := Option.bind_eq_some_iff.mp h
  split at h
  · obtain ⟨-, hpair⟩ := Prod.mk.inj (Option.some.inj h)
    obtain ⟨-, rfl⟩ := Prod.mk.inj hpair
    exact List.drop_suffix 1 cells
  · obtain ⟨close, hclose, h⟩ := Option.bind_eq_some_iff.mp h
    simp only at h
    generalize (if interrupts = true then _ else _ : Bool) = fits at h
    split at h
    · obtain ⟨-, hpair⟩ := Prod.mk.inj (Option.some.inj h)
      obtain ⟨-, rfl⟩ := Prod.mk.inj hpair
      exact (List.drop_suffix 1 _).trans (Scan.many_suffix _ cells)
    · cases h

theorem openItem?_suffix (h : openItem? interrupts row = some (opened, left)) :
    left <:+ row.cells := by
  obtain ⟨⟨marker, number, behind⟩, hmarker, h⟩ := Option.bind_eq_some_iff.mp h
  have hbehind := (itemMarker?_suffix hmarker).trans (Cells.dropIndent_suffix row.cells)
  simp only at h
  split at h
  · split at h
    · cases h
    · obtain ⟨-, rfl⟩ := Prod.mk.inj (Option.some.inj h)
      exact hbehind
  · split at h
    · obtain ⟨-, rfl⟩ := Prod.mk.inj (Option.some.inj h)
      split
      · exact (List.drop_suffix 1 behind).trans hbehind
      · exact (Cells.dropUpTo_suffix 4 behind).trans hbehind
    · cases h

theorem footnoteLabel?_suffix {label : List Cell}
    (h : footnoteLabel? size label cells = some (inside, rest)) : rest <:+ cells := by
  fun_induction footnoteLabel? size label cells with
  | case1 => cases h
  | case2 => cases h
  | case3 => cases h
  | case4 size label c cells hbad hclose hsize =>
    obtain ⟨-, rfl⟩ := Prod.mk.inj (Option.some.inj h)
    exact List.suffix_cons c cells
  | case5 size label c hbad hclose hescape d more hd ih =>
    exact (ih h).trans ((List.suffix_cons d more).trans (List.suffix_cons c _))
  | case6 size label c hbad hclose hescape d more hd ih =>
    exact (ih h).trans (List.suffix_cons c _)
  | case7 => cases h
  | case8 size label c cells hbad hclose hescape ih => exact (ih h).trans (List.suffix_cons c _)

theorem openFootnote?_suffix (h : openFootnote? cells = some (opened, left)) : left <:+ cells := by
  obtain ⟨start, hstart, h⟩ := Option.bind_eq_some_iff.mp h
  obtain ⟨⟨label, behind⟩, hlabel, h⟩ := Option.bind_eq_some_iff.mp h
  obtain ⟨colon, hcolon, h⟩ := Option.bind_eq_some_iff.mp h
  obtain ⟨-, rfl⟩ := Prod.mk.inj (Option.some.inj h)
  exact (Cells.dropBlanks_suffix colon).trans ((Scan.char_suffix hcolon).trans
    ((footnoteLabel?_suffix hlabel).trans ((Scan.chars_suffix hstart).trans
      (Cells.dropIndent_suffix cells))))

/-- What is left of a row for the content of a container that it opens is the end of the row. -/
theorem open?_suffix (h : open? interrupts row = some (opened, left)) : left <:+ row.cells := by
  unfold open? at h
  cases hquote : quote.resume? row.cells with
  | some found =>
    rw [hquote, Option.orElse_some] at h
    exact resume?_suffix (hquote.trans h)
  | none =>
    rw [hquote, Option.orElse_none] at h
    cases hitem : openItem? interrupts row with
    | some found =>
      rw [hitem, Option.orElse_some] at h
      exact openItem?_suffix (hitem.trans h)
    | none =>
      rw [hitem, Option.orElse_none] at h
      exact openFootnote?_suffix h

end Container
end Tidymark.Markdown
